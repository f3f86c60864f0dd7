import Kvrpc.Spec.Client

/-!
# A client transaction keeps its stream in step

Over a transport that fails no call, a client `Txn` between two calls is determined by
the request frames it has sent (`TxnState.between`): `sw` and `resp` are set iff a frame
was sent, `firstFrame` is the first response iff one was taken, and every request has been
answered and its response taken, in place.

* `TxnCall.exec_framed`: from such a state, a call sends one frame exactly when `Sends`
  says so (`Get`, `Set` and `Delete` of an update transaction, `Scan` with a positive
  limit, `Commit` and `Discard` after a frame), of the shape its place in the stream gives,
  and takes the response to it, which it parses unless it is `Discard`; a call that sends
  nothing parses nothing.
* `TxnCall.trace_framed`: so does every call of every sequence on a new transaction.
-/

namespace Kvrpc
open Go ClientTx Txn

/-- A transaction between calls, with the frames `sent`, none of whose transport calls
fails: `sw` and `resp` are set iff a frame was sent, `firstFrame` is the first response
iff one was taken, and every request sent has been answered and its response taken. -/
def TxnState.between (update : Bool) (sent : List ReqFrame) : TxnState :=
  ⟨update, !sent.isEmpty, !sent.isEmpty, if sent = [] then none else some 0, sent,
    (List.range sent.length).map respVia, []⟩

/-- Between calls, the stream is in step and every frame sent has its shape. -/
structure StreamInv (s : TxnState) : Prop where
  eq : s = TxnState.between s.update s.sent
  shape : ∀ j f, s.sent[j]? = some f → FrameShape s.update j f

theorem streamInv_newTxn (update : Bool) : StreamInv (newTxn update) :=
  ⟨rfl, fun _ _ h => by simp [newTxn] at h⟩

/-- The frame the next request sends: it opens the stream iff none was sent before. -/
def nextFrame (update : Bool) (sent : List ReqFrame) (cmd : Cmd) (b : Bytes) (e : Bool) :
    ReqFrame :=
  if sent = [] then ⟨cmd, if update then 1 else 0, true, e, b⟩ else ⟨cmd, 0, false, e, b⟩

variable {update : Bool} {sent : List ReqFrame} {cmd : Cmd} (b : Bytes) (e : Bool)

theorem nextFrame_shape : FrameShape update sent.length (nextFrame update sent cmd b e) := by
  cases sent <;> simp [nextFrame, FrameShape]

/-- A frame sent after `sent`, of the shape of its place, keeps every frame of its shape. -/
theorem frameShape_append {f : ReqFrame} (hsh : ∀ j g, sent[j]? = some g → FrameShape update j g)
    (hf : FrameShape update sent.length f) :
    ∀ j g, (sent ++ [f])[j]? = some g → FrameShape update j g := by
  intro j g hj
  rcases lt_trichotomy j sent.length with hl | rfl | hg
  · rw [List.getElem?_append_left hl] at hj
    exact hsh j g hj
  · rw [List.getElem?_append_right le_rfl, Nat.sub_self] at hj
    cases hj
    exact hf
  · rw [List.getElem?_eq_none (by simp; omega)] at hj
    cases hj

theorem streamInv_send (hsh : ∀ j f, sent[j]? = some f → FrameShape update j f) :
    StreamInv (TxnState.between update (sent ++ [nextFrame update sent cmd b e])) :=
  ⟨rfl, frameShape_append hsh (nextFrame_shape b e)⟩

/-- `request` between calls, unless it is a `Commit` or `Discard` with no stream: it sends
the next frame and sets `sw` and `resp`. -/
theorem request_between (hc : sent ≠ [] ∨ (cmd ≠ .commit ∧ cmd ≠ .discard)) :
    request cmd b e (TxnState.between update sent) =
      (.ok false, { TxnState.between update sent with
        sent := sent ++ [nextFrame update sent cmd b e], sw := true, resp := true }) := by
  cases sent with
  | nil =>
    obtain ⟨h1, h2⟩ := hc.resolve_left (by simp)
    simp [request, send, TxnState.between, nextFrame, h1, h2]
  | cons x xs => simp [request, send, TxnState.between, nextFrame]

/-- A `Commit` or `Discard` with no stream is a no-op. -/
theorem request_noop (hc : cmd = .commit ∨ cmd = .discard) :
    request cmd b e (TxnState.between update []) = (.ok true, TxnState.between update []) := by
  rcases hc with rfl | rfl <;> rfl

/-- After a request, `getRespFrame` takes its response. -/
theorem getRespFrame_sent (f : ReqFrame) :
    getRespFrame { TxnState.between update sent with
        sent := sent ++ [f], sw := true, resp := true } =
      (.ok sent.length, TxnState.between update (sent ++ [f])) := by
  cases sent <;> simp [getRespFrame, TxnState.between, respVia, List.range_succ]
section Framed

variable {P : Type} {call : TxnCall P} {r : Res (Option ℕ)}

theorem framed_send (hs : call.Sends (TxnState.between update sent) = true)
    (hr : r = .ok (some sent.length) ∨ call = .discard ∧ r = .ok none) :
    TxnCall.Framed call (TxnState.between update sent) r
      (TxnState.between update (sent ++ [nextFrame update sent cmd b e])) := by
  rw [TxnCall.Framed, if_pos hs]
  exact ⟨_, nextFrame_shape b e, rfl, by simp [TxnState.between, List.range_succ], hr⟩

theorem framed_stay (hs : call.Sends (TxnState.between update sent) = false)
    (hr : ∀ n, r ≠ .ok (some n)) :
    TxnCall.Framed call (TxnState.between update sent) r (TxnState.between update sent) := by
  rw [TxnCall.Framed, if_neg (by simp [hs])]
  exact ⟨rfl, rfl, hr⟩

end Framed

variable {P : Type} (env : ClientEnv P)

theorem checkUpdate_true {sent : List ReqFrame} :
    checkUpdate (TxnState.between true sent) = (.ok (), TxnState.between true sent) := rfl

/-- **One call keeps the stream in step.** -/
theorem TxnCall.exec_framed {s : TxnState} (h : StreamInv s) (call : TxnCall P) :
    TxnCall.Framed call s (call.exec env s).1 (call.exec env s).2 ∧
      StreamInv (call.exec env s).2 ∧ (call.exec env s).2.update = s.update := by
  obtain ⟨heq, hsh⟩ := h
  rw [heq]
  generalize s.update = u at hsh ⊢
  generalize s.sent = l at hsh ⊢
  have hstay : StreamInv (TxnState.between u l) := ⟨rfl, hsh⟩
  have hdata (cmd : Cmd) (hc : cmd ≠ .commit ∧ cmd ≠ .discard) (b : Bytes) (e : Bool) :
      request cmd b e (TxnState.between u l) = _ := request_between b e (.inr hc)
  cases call with
  | set req =>
    cases u
    · exact ⟨framed_stay rfl (fun _ h => nomatch h), hstay, rfl⟩
    · simp only [TxnCall.exec, Txn.Set, bind_apply, checkUpdate_true,
        hdata .set (by decide), getRespFrame_sent, pure_apply]
      exact ⟨framed_send req false rfl (.inl rfl), streamInv_send req false hsh, rfl⟩
  | get req =>
    simp only [TxnCall.exec, Txn.Get, bind_apply, hdata .get (by decide), getRespFrame_sent,
      pure_apply]
    exact ⟨framed_send req false rfl (.inl rfl), streamInv_send req false hsh, rfl⟩
  | delete req =>
    cases u
    · exact ⟨framed_stay rfl (fun _ h => nomatch h), hstay, rfl⟩
    · simp only [TxnCall.exec, Txn.Delete, bind_apply, checkUpdate_true,
        hdata .delete (by decide), getRespFrame_sent, pure_apply]
      exact ⟨framed_send req false rfl (.inl rfl), streamInv_send req false hsh, rfl⟩
  | scan option =>
    by_cases hl : option.limit ≤ 0
    · simp only [TxnCall.exec, Txn.Scan, hl, ↓reduceIte, pure_apply]
      exact ⟨framed_stay (by simpa [TxnCall.Sends] using hl) (fun _ h => nomatch h), hstay, trivial⟩
    · simp only [TxnCall.exec, Txn.Scan, hl, ↓reduceIte, bind_apply, hdata .scan (by decide),
        getRespFrame_sent, pure_apply]
      exact ⟨framed_send _ false (by simpa [TxnCall.Sends] using hl) (.inl rfl),
        streamInv_send _ false hsh, rfl⟩
  | commit =>
    cases l with
    | nil =>
      simp only [TxnCall.exec, Txn.Commit, bind_apply, request_noop [] true (.inl rfl), ↓reduceIte,
        pure_apply]
      exact ⟨framed_stay rfl (fun _ h => nomatch h), hstay, trivial⟩
    | cons x xs =>
      simp only [TxnCall.exec, Txn.Commit, bind_apply, request_between [] true (.inl (List.cons_ne_nil x xs)),
        Bool.false_eq_true, ↓reduceIte, getRespFrame_sent, pure_apply]
      exact ⟨framed_send [] true rfl (.inl rfl), streamInv_send [] true hsh, rfl⟩
  | discard =>
    cases l with
    | nil =>
      simp only [TxnCall.exec, Txn.Discard, bind_apply, attempt, request_noop [] true (.inr rfl),
        pure_apply]
      exact ⟨framed_stay rfl (fun _ h => nomatch h), hstay, trivial⟩
    | cons x xs =>
      simp only [TxnCall.exec, Txn.Discard, bind_apply, attempt,
        request_between [] true (.inl (List.cons_ne_nil x xs)), getRespFrame_sent, pure_apply]
      exact ⟨framed_send [] true rfl (.inr ⟨rfl, rfl⟩), streamInv_send [] true hsh, rfl⟩

theorem TxnCall.trace_of_streamInv (calls : List (TxnCall P)) :
    ∀ s, StreamInv s → TxnCall.Trace env s calls := by
  induction calls with
  | nil => exact fun _ _ => trivial
  | cons call calls ih =>
    intro s h
    exact ⟨(TxnCall.exec_framed env h call).1, ih _ (TxnCall.exec_framed env h call).2.1⟩

/-- **A client transaction keeps its stream in step.** Over a transport that fails no call,
every call of every sequence on a new transaction does what `Framed` says. `Get`, `Set` and
`Delete` on an update transaction, and `Scan` with a positive limit, each send one request
frame; `Commit` and `Discard` send one iff a frame was sent before them; no other call sends
one. The frame that opens the stream is the first one sent and carries the opaque bit 1 iff
the transaction is an update, later frames carry none. A call takes a response iff it sent
a request, the response to its own request, through `GetFrame` for the first and `FrameCh`
after, and parses it unless it is `Discard`; a call that sends nothing parses nothing. -/
theorem TxnCall.trace_framed (update : Bool) (calls : List (TxnCall P)) :
    TxnCall.Trace env (newTxn update) calls :=
  TxnCall.trace_of_streamInv env calls _ (streamInv_newTxn update)

end Kvrpc
