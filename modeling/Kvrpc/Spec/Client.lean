import Kvrpc.Spec.Structure

/-!
# The client transaction

`client/client_txn.go`: a `Txn` turns each call into a request frame on one stream of the
RPC transport and reads the response frame back. The first request opens the stream with
`StreamRequest`, its command carrying the opaque bit 1 for an update transaction; later
requests go through the stream writer `sw`. The first response is taken with
`resp.GetFrame()` and kept as `firstFrame`; later ones come from `firstFrame.FrameCh()`.

The transport is not in the source. It is modelled from the spec (§4.5, §6): the `j`-th
response frame of a stream answers its `j`-th request frame, so a response is known by its
place in the stream. `StreamRequest`, `EndWrite` and `GetFrame` may fail: the state holds
the outcomes of those calls still to come (a call fails when its outcome is `false`; after
the list, every call succeeds). The protobuf requests, `scanOption2Bytes`, `MaxEntry` and
the parsers of the responses are external: a call is given its marshalled request, and
what it parses is the response frame it took.
-/

namespace Kvrpc

open Go

/-- Modelled from the spec: the commands of the transactional stream (`server.SetCmd`, …). -/
inductive Cmd
  | set
  | get
  | delete
  | scan
  | commit
  | discard
  deriving DecidableEq, Repr

/-- Modelled from the spec: a request frame: its command and the opaque bits on it
(`qrpc.CmdWithOpaque`), whether it opens the stream (`StreamRequest` with `StreamFlag`),
whether it ends it (`StreamEndFlag`, `EndWrite(true)`), and its payload. -/
structure ReqFrame where
  cmd : Cmd
  opaqueBits : ℕ
  opens : Bool
  ends : Bool
  payload : Bytes
  deriving DecidableEq, Repr

/-- Modelled from the spec: how a response frame was taken: `resp.GetFrame()` or
`<-firstFrame.FrameCh()`. -/
inductive Via
  | getFrame
  | frameCh
  deriving DecidableEq, Repr

/-- A client `Txn` and its stream: `update`, whether `sw` and `resp` are set, `firstFrame`
(by its place in the stream), the request frames sent, the response frames taken with the
call that took each, and the outcomes of the transport calls still to come. -/
structure TxnState where
  update : Bool
  sw : Bool
  resp : Bool
  firstFrame : Option ℕ
  sent : List ReqFrame
  taken : List (ℕ × Via)
  faults : List Bool
  deriving DecidableEq, Repr

/-- Code of the client transaction. -/
abbrev ClientTx := Go TxnState

/-- Modelled from the spec: `kvrpc.ScanOption`: the limit, and the provider's options (`P`),
which only `scanOption2Bytes` reads. -/
structure ScanOption (P : Type) where
  limit : ℤ
  providerScanOption : P

/-- Modelled from the spec: what the client package uses outside the source: `kvrpc.MaxEntry` and
`scanOption2Bytes`. -/
structure ClientEnv (P : Type) where
  maxEntry : ℤ
  scanOption2Bytes : ScanOption P → Bytes

/-- `newTxn(c, update)`. -/
def newTxn (update : Bool) : TxnState := ⟨update, false, false, none, [], [], []⟩

namespace ClientTx

/-- The state of the transaction. -/
def getTxn : ClientTx TxnState := fun s => (.ok s, s)

/-- Change the state of the transaction. -/
def modifyTxn (f : TxnState → TxnState) : ClientTx Unit := fun s => (.ok (), f s)

/-- Modelled from the spec: a call of the transport: whether it succeeds. -/
def transport : ClientTx Bool := fun s =>
  (.ok (s.faults.headD true), { s with faults := s.faults.tail })

/-- Modelled from the spec: send a request frame. -/
def send (f : ReqFrame) : ClientTx Unit := modifyTxn fun s => { s with sent := s.sent ++ [f] }

/-- Modelled from the spec: take the next response frame of the stream through `via`: its
place in the stream. -/
def take (via : Via) : ClientTx ℕ := fun s =>
  (.ok s.taken.length, { s with taken := s.taken ++ [(s.taken.length, via)] })

@[simp] theorem getTxn_apply (s : TxnState) : getTxn s = (.ok s, s) := rfl

@[simp] theorem modifyTxn_apply (f : TxnState → TxnState) (s : TxnState) :
    modifyTxn f s = (.ok (), f s) := rfl

@[simp] theorem transport_apply (s : TxnState) :
    transport s = (.ok (s.faults.headD true), { s with faults := s.faults.tail }) := rfl

@[simp] theorem take_apply (via : Via) (s : TxnState) :
    take via s = (.ok s.taken.length, { s with taken := s.taken ++ [(s.taken.length, via)] }) :=
  rfl

end ClientTx

namespace Txn

open ClientTx

/-- `txn.request(cmd, bytes, end)`: `noop`, true when `Commit` or `Discard` finds no stream.
With a stream, the frame goes through `sw` (`StartWrite`, `WriteBytes`, `EndWrite(end)`);
without one, `StreamRequest` opens it. -/
def request (cmd : Cmd) (bytes : Bytes) (isEnd : Bool) : ClientTx Bool := do
  let s ← getTxn
  if s.sw then
    if ← transport then
      send ⟨cmd, 0, false, isEnd, bytes⟩
      pure false
    else throw .transport
  else if cmd = .commit || cmd = .discard then pure true
  else
    let bits := if s.update then 1 else 0
    if ← transport then
      send ⟨cmd, bits, true, isEnd, bytes⟩
      modifyTxn fun s => { s with sw := true, resp := true }
      pure false
    else throw .transport

/-- `txn.getRespFrame()`: after the first response, the next one from `FrameCh()`; the first
with `resp.GetFrame()`, kept as `firstFrame` (a `nil` `resp` panics). -/
def getRespFrame : ClientTx ℕ := do
  let s ← getTxn
  match s.firstFrame with
  | some _ => take .frameCh
  | none =>
    if !s.resp then panic
    else if ← transport then
      let f ← take .getFrame
      modifyTxn fun s => { s with firstFrame := some f }
      pure f
    else throw .transport

/-- A read-only transaction refuses `Set` and `Delete`. -/
def checkUpdate : ClientTx Unit := do
  if !(← getTxn).update then throw .mutateForROTxn

/-- `Set(k, v, meta)`, given its marshalled request: the response frame it parses. -/
def Set (req : Bytes) : ClientTx ℕ := do
  checkUpdate
  let _ ← request .set req false
  getRespFrame

/-- `Get(k)`, given its marshalled request: the response frame it parses. -/
def Get (req : Bytes) : ClientTx ℕ := do
  let _ ← request .get req false
  getRespFrame

/-- `Delete(k)`, given its marshalled request: the response frame it parses. -/
def Delete (req : Bytes) : ClientTx ℕ := do
  checkUpdate
  let _ ← request .delete req false
  getRespFrame

/-- `Commit()`: the response frame it parses, none when it is a no-op. -/
def Commit : ClientTx (Option ℕ) := do
  if ← request .commit [] true then pure none
  else return some (← getRespFrame)

/-- `Discard()`: it takes the response frame and returns nothing, errors included. -/
def Discard : ClientTx Unit := do
  match ← attempt (request .discard [] true) with
  | .ok false => let _ ← attempt getRespFrame
  | _ => pure ()

variable {P : Type} (env : ClientEnv P)

/-- `Scan(option)`: nothing for a limit `≤ 0`; the limit is capped at `MaxEntry`. The
response frame it parses, or none. -/
def Scan (option : ScanOption P) : ClientTx (Option ℕ) := do
  if option.limit ≤ 0 then pure none
  else
    let option := if env.maxEntry < option.limit then { option with limit := env.maxEntry }
      else option
    let _ ← request .scan (env.scanOption2Bytes option) false
    return some (← getRespFrame)

end Txn

/-- A call on a client transaction, with its marshalled request. -/
inductive TxnCall (P : Type)
  | set (req : Bytes)
  | get (req : Bytes)
  | delete (req : Bytes)
  | scan (option : ScanOption P)
  | commit
  | discard

namespace TxnCall

variable {P : Type} (env : ClientEnv P)

/-- Run a call: the response frame it parses, if any. -/
def exec : TxnCall P → ClientTx (Option ℕ)
  | .set req => do return some (← Txn.Set req)
  | .get req => do return some (← Txn.Get req)
  | .delete req => do return some (← Txn.Delete req)
  | .scan option => Txn.Scan env option
  | .commit => Txn.Commit
  | .discard => do Txn.Discard; pure none

/-- The calls in order on one transaction; an error of a call does not stop the calls after
it. -/
def run : List (TxnCall P) → TxnState → List (Res (Option ℕ)) × TxnState
  | [], s => ([], s)
  | call :: calls, s =>
    match exec env call s with
    | (r, s') =>
      match run calls s' with
      | (rs, s'') => (r :: rs, s'')

end TxnCall

/-! ## What the stream is for -/

/-- The response to the `n`-th request frame, as it is taken: through `GetFrame` for the
first, through `FrameCh` after. -/
def respVia (n : ℕ) : ℕ × Via := (n, if n = 0 then .getFrame else .frameCh)

/-- The `n`-th request frame of a transaction opens the stream iff it is the first, and
carries the opaque bit 1 iff it opens the stream of an update transaction. -/
def FrameShape (update : Bool) (n : ℕ) (f : ReqFrame) : Prop :=
  f.opens = decide (n = 0) ∧ f.opaqueBits = if n = 0 ∧ update = true then 1 else 0

namespace TxnCall

variable {P : Type} (env : ClientEnv P)

/-- Whether a call on a transaction in state `s` sends a request frame (§4.5, §6): `Get`
always; `Set` and `Delete` on an update transaction, since a read-only one refuses them
(`ErrMutateForROTxn`); `Scan` with a positive limit; `Commit` and `Discard` iff a frame was
sent before them. -/
def Sends : TxnCall P → TxnState → Bool
  | .set _, s | .delete _, s => s.update
  | .get _, _ => true
  | .scan option, _ => decide (0 < option.limit)
  | .commit, s | .discard, s => !s.sent.isEmpty

/-- What a call from `s`, returning `r` in `s'`, does to the stream (§4.5, §6). A call that
`Sends` sends the next request frame, of its shape, and takes the response to it, which it
parses (`Discard` takes it and returns nothing); any other call sends no frame, takes none
and parses none. -/
def Framed (call : TxnCall P) (s : TxnState) (r : Res (Option ℕ)) (s' : TxnState) : Prop :=
  if call.Sends s then
    ∃ f, FrameShape s.update s.sent.length f ∧ s'.sent = s.sent ++ [f] ∧
      s'.taken = s.taken ++ [respVia s.sent.length] ∧
      (r = .ok (some s.sent.length) ∨ call = .discard ∧ r = .ok none)
  else s'.sent = s.sent ∧ s'.taken = s.taken ∧ ∀ n, r ≠ .ok (some n)

/-- Every call of `calls`, run in order from `s`, does what `Framed` says. -/
def Trace : TxnState → List (TxnCall P) → Prop
  | _, [] => True
  | s, call :: calls =>
    Framed call s (exec env call s).1 (exec env call s).2 ∧ Trace (exec env call s).2 calls

end TxnCall

end Kvrpc
