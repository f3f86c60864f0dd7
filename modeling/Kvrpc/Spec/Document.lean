import Kvrpc.Spec.Sequence
import Kvrpc.Spec.Structure

/-!
# The document store

A `Collection` keeps each document as BSON under `GetCollectionDocumentKey(cid, did)` and
numbers new documents with its `Sequence`, whose counter is under `sequenceKey(name)` in
the same KV store. The key helpers and `documentIDBandWidth` are not in the source:
`DocEnv` takes them as given. BSON is an external collaborator (`Codec`).

Every call begins with the DB's prologue (`checkState`, then `closer.Add`). A call given
no transaction opens a one-shot one: read-write for the writers, which commit it once,
read-only for the readers. A call given the caller's transaction (`ProviderTxn`) runs in
it and neither commits nor discards it. A transaction is a view of the store; within one
call nothing else commits, so a commit makes the view the store. Every KV call may fail:
the context holds the outcomes of the calls still to come, as `Ctx` does for the meta
store.

`Next` runs `updateLease` of the sequence model in a transaction of its own; a
collection whose `NewSequence` failed (an empty name) holds `nil` and panics there.

The last section says what a collection is for: a map from document id to document,
which each call reads or changes as the spec describes (`DocCall.apply`,
`DocCall.Consistent`, `DocCall.read`).
-/

namespace Kvrpc

open Go

/-- The view of a KV transaction: the store as its reads see it, its own writes included. -/
abbrev View := Bytes → Option Bytes

/-- Modelled from the spec: what the `document` package defines outside the source:
`GetCollectionDocumentKey`, `sequenceKey` and `documentIDBandWidth`. -/
structure DocEnv where
  getCollectionDocumentKey : ℤ → ℤ → Bytes
  sequenceKey : String → Bytes
  documentIDBandWidth : ℕ

/-- A `Collection`: its id and its name. Its `Sequence` changes with the calls and is kept
in the context. -/
structure Collection where
  cid : ℤ
  name : String
  deriving DecidableEq, Repr

/-- What the calls of a collection work on: the KV store, the collection's sequence (`nil`
when `NewSequence` failed), the view of the transaction the caller passes, whether the DB
is closed or closing, and the outcomes of the KV calls still to come (a call fails when
its outcome is `false`; after the list, every call succeeds). -/
structure DocCtx where
  kv : View
  seq : Option Sequence
  txn : View
  closed : Bool
  closing : Bool
  faults : List Bool

/-- The context with the next outcome used up. -/
def DocCtx.pop (c : DocCtx) : DocCtx := { c with faults := c.faults.tail }

@[simp] theorem DocCtx.pop_kv (c : DocCtx) : c.pop.kv = c.kv := rfl
@[simp] theorem DocCtx.pop_seq (c : DocCtx) : c.pop.seq = c.seq := rfl
@[simp] theorem DocCtx.pop_closed (c : DocCtx) : c.pop.closed = c.closed := rfl
@[simp] theorem DocCtx.pop_closing (c : DocCtx) : c.pop.closing = c.closing := rfl

/-- Code of the `document` package. -/
abbrev DocTx := Go DocCtx

namespace DocTx

/-- The context. -/
def getCtx : DocTx DocCtx := fun c => (.ok c, c)

/-- Change the context. -/
def modifyCtx (f : DocCtx → DocCtx) : DocTx Unit := fun c => (.ok (), f c)

/-- The outcome of the next KV call. -/
def outcome : DocTx Bool := fun c => (.ok (c.faults.headD true), c.pop)

/-- One KV call: it fails when its outcome says so. -/
def call : DocTx Unit := fun c => (if c.faults.headD true then .ok () else .err .kv, c.pop)

/-- `txn.Get(key)`; `none` is `ErrKeyNotFound`. -/
def txnGet (t : View) (key : Bytes) : DocTx (Option Bytes) := do call; pure (t key)

/-- `txn.Exists(key)`. -/
def txnExists (t : View) (key : Bytes) : DocTx Bool := do call; pure (t key).isSome

/-- `txn.Set(key, value, nil)`. -/
def txnSet (t : View) (key value : Bytes) : DocTx View := do
  call; pure (Function.update t key (some value))

/-- `txn.Delete(key)`. -/
def txnDelete (t : View) (key : Bytes) : DocTx View := do call; pure (Function.update t key none)

/-- `txn.Commit()`: the view becomes the store. -/
def commit (t : View) : DocTx Unit := do call; modifyCtx fun c => { c with kv := t }

/-- The transaction of a call: the caller's when it passes one (`txn != nil`), or a new
one on the store. -/
def begin (provided : Bool) : DocTx View := fun c => (.ok (if provided then c.txn else c.kv), c)

/-- The end of a writing call: its writes stay in the caller's transaction, or the
one-shot transaction commits them. -/
def finish (provided : Bool) (t : View) : DocTx Unit :=
  if provided then modifyCtx fun c => { c with txn := t } else commit t

/-- The prologue of every call: `checkState` fails with `ErrDBClosed`, then
`closer.Add(1)` with `ErrDBClosing`. -/
def prologue : DocTx Unit := fun c =>
  (if c.closed then .err .dbClosed else if c.closing then .err .dbClosing else .ok (), c)

@[simp] theorem getCtx_apply (c : DocCtx) : getCtx c = (.ok c, c) := rfl

@[simp] theorem modifyCtx_apply (f : DocCtx → DocCtx) (c : DocCtx) :
    modifyCtx f c = (.ok (), f c) := rfl

@[simp] theorem outcome_apply (c : DocCtx) : outcome c = (.ok (c.faults.headD true), c.pop) :=
  rfl

@[simp] theorem call_apply (c : DocCtx) :
    call c = (if c.faults.headD true then .ok () else .err .kv, c.pop) := rfl

@[simp] theorem begin_apply (provided : Bool) (c : DocCtx) :
    begin provided c = (.ok (if provided then c.txn else c.kv), c) := rfl

@[simp] theorem prologue_apply (c : DocCtx) : prologue c =
    (if c.closed then .err .dbClosed else if c.closing then .err .dbClosing else .ok (), c) := rfl

end DocTx

open DocTx

/-- What the `Get` of `updateLease` reads under `key` when it succeeds:
`binary.BigEndian.Uint64` of the value, which panics on fewer than 8 bytes;
`ErrKeyNotFound` reads as no value. -/
def leaseValue (key : Bytes) : DocTx (Option ℕ) := fun c =>
  match c.kv key with
  | none => (.ok none, c)
  | some b => (if b.length < 8 then .panic else .ok (some (beValue (b.take 8))), c)

/-- `Next` on the collection's sequence, its counter under `key`. When the lease is used
up, `updateLease` runs in a transaction of its own: its `Get`, `Set` and `Commit` each
take an outcome, and no call is made after a failed one. The fields it leaves and the
counter it commits are those of `updateLease`, whose snapshot is the store. -/
def Sequence.Next (key : Bytes) : DocTx ℕ := do
  let s ← deref (← getCtx).seq
  if s.leased ≤ s.next then
    let getOk ← outcome
    let val ← (if getOk then leaseValue key else pure none)
    let setOk ← (if getOk then outcome else pure true)
    let commitOk ← (if getOk && setOk then outcome else pure true)
    match updateLease s ⟨val, 0⟩ ⟨val, 0⟩ ⟨getOk, setOk, commitOk⟩ with
    | (s', some st) =>
      modifyCtx fun c =>
        { c with kv := Function.update c.kv key (st.val.map (beBytes 8)), seq := some s'.bump }
      pure s'.bump.next
    | (s', none) =>
      modifyCtx fun c => { c with seq := some s' }
      throw .kv
  else
    modifyCtx fun c => { c with seq := some s.bump }
    pure s.bump.next

/-- `ReleaseRemaining` on the collection's sequence: its `Set` goes into a transaction
that is never committed, so only the fields change. -/
def Sequence.ReleaseRemaining : DocTx Unit := do
  let s ← deref (← getCtx).seq
  let setOk ← (if s.leased = s.next then pure true else outcome)
  match releaseRemaining s setOk with
  | .ok s' => modifyCtx fun c => { c with seq := some s' }
  | .error _ => throw .kv

/-- `newCollection(db, cid, name)`: the collection, and its sequence, `nil` when
`NewSequence` fails. -/
def newCollection (env : DocEnv) (cid : ℤ) (name : String) : Collection × Option Sequence :=
  (⟨cid, name⟩, (newSequence name env.documentIDBandWidth).toOption)

namespace Collection

variable {D : Type} (bson : Codec D) (env : DocEnv) (col : Collection)

/-- `GetCollectionDocumentKey(c.cid, did)`. -/
def docKey (did : ℤ) : Bytes := env.getCollectionDocumentKey col.cid did

/-- `InsertOne(doc, txn)`, where `provided` is `txn != nil`: the new document's id,
`int64(udid)`. -/
def InsertOne (doc : D) (provided : Bool) : DocTx ℤ := do
  let data := bson.marshal doc
  prologue
  let udid ← Sequence.Next (env.sequenceKey col.name)
  let t ← begin provided
  let t ← txnSet t (col.docKey env (toInt64 udid)) data
  finish provided t
  pure (toInt64 udid)

/-- `updateOne(did, doc, upsert, txn)`: `(updated, isNew)`. A missing document with
`upsert` unset returns `(false, false)` with no error and no commit. -/
def updateOne (did : ℤ) (doc : D) (upsert provided : Bool) : DocTx (Bool × Bool) := do
  let data := bson.marshal doc
  prologue
  let key := col.docKey env did
  let t ← begin provided
  let exist ← txnExists t key
  if !exist && !upsert then pure (false, false)
  else
    let t ← txnSet t key data
    finish provided t
    pure (true, !exist)

/-- `UpdateOne(did, doc, txn)`: `updated`. -/
def UpdateOne (did : ℤ) (doc : D) (provided : Bool) : DocTx Bool := do
  let (updated, _) ← col.updateOne bson env did doc false provided
  pure updated

/-- `UpsertOne(did, doc, txn)`: `isNew`. -/
def UpsertOne (did : ℤ) (doc : D) (provided : Bool) : DocTx Bool := do
  let (_, isNew) ← col.updateOne bson env did doc true provided
  pure isNew

/-- `DeleteOne(did, txn)`. -/
def DeleteOne (did : ℤ) (provided : Bool) : DocTx Unit := do
  prologue
  let t ← begin provided
  let t ← txnDelete t (col.docKey env did)
  finish provided t

/-- `GetOne(did, txn)`: `ErrKeyNotFound` becomes `ErrDocNotFound`. -/
def GetOne (did : ℤ) (provided : Bool) : DocTx D := do
  prologue
  let t ← begin provided
  match ← txnGet t (col.docKey env did) with
  | none => throw .docNotFound
  | some v =>
    match bson.unmarshal v with
    | none => throw .bson
    | some d => pure d

/-- The loop of `GetMany` in the transaction `t`: the documents read, in order, and the
error that stopped it. -/
def getManyLoop (t : View) : List ℤ → DocTx (List D × Option Err)
  | [] => pure ([], none)
  | did :: dids => do
    match ← attempt (txnGet t (col.docKey env did)) with
    | .error e => pure ([], some e)
    | .ok none => pure ([], some .docNotFound)
    | .ok (some v) =>
      match bson.unmarshal v with
      | none => pure ([], some .bson)
      | some d => do
        let (ds, e) ← getManyLoop t dids
        pure (d :: ds, e)

/-- `GetMany(dids, txn)`: `(datas, err)`. After an error, `datas` still holds the
documents read before it. -/
def GetMany (dids : List ℤ) (provided : Bool) : DocTx (List D × Option Err) := do
  match ← attempt prologue with
  | .error e => pure ([], some e)
  | .ok () => col.getManyLoop bson env (← begin provided) dids

/-- `close`: `ReleaseRemaining` on the sequence, whose error is only logged. -/
def close : DocTx Unit := do
  let _ ← attempt Sequence.ReleaseRemaining

end Collection

/-! ## What a collection is for -/

/-- A call on a collection. Every caller in the source passes no transaction (`txn = nil`,
`exec`); `execWith` also runs it in the caller's. -/
inductive DocCall (D : Type)
  | insertOne (doc : D)
  | updateOne (did : ℤ) (doc : D)
  | upsertOne (did : ℤ) (doc : D)
  | deleteOne (did : ℤ)
  | getOne (did : ℤ)
  | getMany (dids : List ℤ)

/-- What a call returns. -/
inductive DocRet (D : Type)
  | did (v : ℤ)
  | updated (b : Bool)
  | isNew (b : Bool)
  | deleted
  | data (d : D)
  | datas (ds : List D) (err : Option Err)

namespace DocCall

variable {D : Type} (bson : Codec D) (env : DocEnv) (col : Collection)

/-- Run a call, one-shot. -/
def exec : DocCall D → DocTx (DocRet D)
  | .insertOne d => do pure (.did (← col.InsertOne bson env d false))
  | .updateOne i d => do pure (.updated (← col.UpdateOne bson env i d false))
  | .upsertOne i d => do pure (.isNew (← col.UpsertOne bson env i d false))
  | .deleteOne i => do col.DeleteOne env i false; pure .deleted
  | .getOne i => do pure (.data (← col.GetOne bson env i false))
  | .getMany is => do
    let (ds, e) ← col.GetMany bson env is false
    pure (.datas ds e)

/-- Run a call in the transaction the caller passes when `provided` (`txn != nil`), else
one-shot. -/
def execWith (provided : Bool) : DocCall D → DocTx (DocRet D)
  | .insertOne d => do pure (.did (← col.InsertOne bson env d provided))
  | .updateOne i d => do pure (.updated (← col.UpdateOne bson env i d provided))
  | .upsertOne i d => do pure (.isNew (← col.UpsertOne bson env i d provided))
  | .deleteOne i => do col.DeleteOne env i provided; pure .deleted
  | .getOne i => do pure (.data (← col.GetOne bson env i provided))
  | .getMany is => do
    let (ds, e) ← col.GetMany bson env is provided
    pure (.datas ds e)

/-- The calls in order, each with its own KV outcomes: their results and the context
after them. -/
def run : DocCtx → List (DocCall D × List Bool) → List (Res (DocRet D)) × DocCtx
  | c, [] => ([], c)
  | c, (call, fs) :: cs =>
    match exec bson env col call { c with faults := fs } with
    | (r, c') =>
      match run c' cs with
      | (rs, c'') => (r :: rs, c'')

/-- The calls in order, each with its own KV outcomes, all given the caller's transaction
when `provided`: their results and the context after them. -/
def runWith (provided : Bool) : DocCtx → List (DocCall D × List Bool) → List (Res (DocRet D)) × DocCtx
  | c, [] => ([], c)
  | c, (call, fs) :: cs =>
    match execWith bson env col provided call { c with faults := fs } with
    | (r, c') =>
      match runWith provided c' cs with
      | (rs, c'') => (r :: rs, c'')

variable {bson env col}

/-- The map after a call that returned `r`: only a successful call changes it. -/
def apply (M : ℤ → Option D) : DocCall D → Res (DocRet D) → ℤ → Option D
  | .insertOne d, .ok (.did i) => Function.update M i (some d)
  | .updateOne i d, .ok (.updated true) => Function.update M i (some d)
  | .upsertOne i d, .ok (.isNew _) => Function.update M i (some d)
  | .deleteOne i, .ok .deleted => Function.update M i none
  | _, _ => M

/-- The map after the calls `cs` returned `rs`. -/
def replay : (ℤ → Option D) → List (DocCall D) → List (Res (DocRet D)) → ℤ → Option D
  | M, call :: cs, r :: rs => replay (call.apply M r) cs rs
  | M, _, _ => M

/-- The documents of `dids` in `M`, up to the first missing one, where the error is
`ErrDocNotFound`. -/
def lookupAll (M : ℤ → Option D) : List ℤ → List D × Option Err
  | [] => ([], none)
  | i :: is =>
    match M i with
    | none => ([], some .docNotFound)
    | some d => ((d :: (lookupAll M is).1), (lookupAll M is).2)

/-- What a reader returns on `M` when none of its KV calls fails. -/
def read (M : ℤ → Option D) : DocCall D → Option (Res (DocRet D))
  | .getOne i => some (match M i with
    | some d => .ok (.data d)
    | none => .err .docNotFound)
  | .getMany is => some (.ok (.datas (lookupAll M is).1 (lookupAll M is).2))
  | _ => none

/-- What a call may return on `M`, whatever its KV calls do. -/
def Consistent (M : ℤ → Option D) : DocCall D → Res (DocRet D) → Prop
  | .insertOne _, .ok r => ∃ i, r = .did i
  | .updateOne i _, .ok r => r = .updated (M i).isSome
  | .upsertOne i _, .ok r => r = .isNew (M i).isNone
  | .deleteOne _, .ok r => r = .deleted
  | .getOne i, .ok r => ∃ d, M i = some d ∧ r = .data d
  | .getOne i, .err e => e = .docNotFound → M i = none
  | .getMany is, .ok r => ∃ ds e, r = .datas ds e ∧ (e = none → is.mapM M = some ds) ∧
      (e = some .docNotFound → ∃ i ∈ is, M i = none)
  | _, _ => True

/-- The results `rs` of the calls `cs` from the map `M`: each is consistent with the map
before it, and a reader none of whose KV calls fails returns exactly what it reads. -/
def Trace : (ℤ → Option D) → List (DocCall D × List Bool) → List (Res (DocRet D)) → Prop
  | M, (call, fs) :: cs, r :: rs =>
    call.Consistent M r ∧ (false ∉ fs → ∀ a, call.read M = some a → r = a) ∧
      Trace (call.apply M r) cs rs
  | _, _, _ => True

end DocCall

/-- Modelled from the spec: a step in a collection's life: a one-shot call with the outcomes
of its KV calls, the collection's `close`, or a restart that re-creates the collection, and
with it its sequence (`newCollection`), on the same store. -/
inductive DocEvent (D : Type)
  | call (c : DocCall D) (faults : List Bool)
  | close (faults : List Bool)
  | restart

namespace DocEvent

variable {D : Type} (bson : Codec D) (env : DocEnv) (col : Collection)

/-- The events in order: each call with its result, and the context after them. -/
def run : DocCtx → List (DocEvent D) → List (DocCall D × Res (DocRet D)) × DocCtx
  | c, [] => ([], c)
  | c, .call dc fs :: es =>
    match DocCall.exec bson env col dc { c with faults := fs } with
    | (r, c') =>
      match run c' es with
      | (rs, c'') => ((dc, r) :: rs, c'')
  | c, .close fs :: es => run (Collection.close { c with faults := fs }).2 es
  | c, .restart :: es => run { c with seq := (newCollection env col.cid col.name).2 } es

/-- The id a successful `InsertOne` returned. -/
def insertedDid : DocCall D × Res (DocRet D) → Option ℤ
  | (.insertOne _, .ok (.did i)) => some i
  | _ => none

end DocEvent

end Kvrpc
