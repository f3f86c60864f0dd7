import Kvrpc.Spec.Codec
import Kvrpc.Spec.Model
import Mathlib.Logic.Function.Basic

/-!
# The structured encoding and the meta transaction

The package `structure` is not in the source. It is modelled from the spec (§4.1), with
hashes and counters as finite maps: a string key has a value, a hash has its fields in
ascending order (as the prefix scan of `HGetAll` returns them). The DDL job list, the
job history and the schema diffs are kept decoded.

Go code is a state monad `Go σ`: a call returns a value, returns an error, or panics, and
the state reached is kept in every case (a Go pointer's writes survive an error return
and a panic alike).

A meta transaction (`Tx`) runs against a `Ctx`: its view of the meta store, the document
sequences of the KV store (written outside the transaction), the log of the sequences
dropped, and the outcomes of the KV calls still to come (a call fails when its outcome is
`false`; after the list, every call succeeds). Each structured operation is one KV call,
all or nothing. The DDL worker's transaction (`WTx`) adds the job list and the history
(`Queue`), which only the worker's own operations reach: meta code runs in it through
`lift`.

* `attempt`: a Go `(v, err)` result as a value, so the caller decides what an error does.
* `recover`: `RunWithRecovery`, which catches a panic.
-/

namespace Kvrpc

/-- Modelled from the spec: the schema registry, the counters and the schema diffs, as one
meta transaction sees them. -/
structure MetaStore where
  str : String → Option Bytes
  hash : String → List (String × Bytes)
  diffs : List SchemaDiff

/-- The empty meta store. -/
def MetaStore.empty : MetaStore := ⟨fun _ => none, fun _ => [], []⟩

/-- What a meta transaction works on. -/
structure Ctx where
  meta : MetaStore
  seqs : List ℤ
  drops : List ℤ
  faults : List Bool

/-- The default DDL job list and the job history: keys of their own, which the registry
code never names. -/
structure Queue where
  jobs : List Job
  history : List Job
  deriving DecidableEq, Repr

/-- What a transaction of the DDL worker works on: the meta transaction and the queue. -/
structure WCtx where
  ctx : Ctx
  queue : Queue

/-- How a Go call ends. -/
inductive Res (α : Type) where
  | ok (a : α)
  | err (e : Err)
  | panic
  deriving DecidableEq, Repr

/-- Go code run on a state `σ`. -/
def Go (σ α : Type) : Type := σ → Res α × σ

namespace Go

variable {σ α β : Type}

/-- Return a value. -/
protected def pure (a : α) : Go σ α := fun c => (.ok a, c)

/-- Run `x`, then `f` on its value; an error or a panic stops the run. -/
protected def bind (x : Go σ α) (f : α → Go σ β) : Go σ β := fun c =>
  match x c with
  | (.ok a, c) => f a c
  | (.err e, c) => (.err e, c)
  | (.panic, c) => (.panic, c)

instance : Monad (Go σ) where
  pure := Go.pure
  bind := Go.bind

/-- Return an error. -/
def throw (e : Err) : Go σ α := fun c => (.err e, c)

/-- Panic. -/
def panic : Go σ α := fun c => (.panic, c)

/-- The Go result `(v, err)` as a value. A panic still propagates. -/
def attempt (x : Go σ α) : Go σ (Except Err α) := fun c =>
  match x c with
  | (.ok a, c) => (.ok (.ok a), c)
  | (.err e, c) => (.ok (.error e), c)
  | (.panic, c) => (.panic, c)

/-- `RunWithRecovery`: a panic is caught (`none`); the writes made before it stay. -/
def recover (x : Go σ α) : Go σ (Option α) := fun c =>
  match x c with
  | (.ok a, c) => (.ok (some a), c)
  | (.err e, c) => (.err e, c)
  | (.panic, c) => (.ok none, c)

/-- A pointer dereference: `nil` panics. -/
def deref : Option α → Go σ α
  | some a => Go.pure a
  | none => panic

@[simp] theorem pure_apply (a : α) (c : σ) : (pure a : Go σ α) c = (.ok a, c) := rfl

@[simp] theorem bind_apply (x : Go σ α) (f : α → Go σ β) (c : σ) :
    (x >>= f) c = match x c with
      | (.ok a, c) => f a c
      | (.err e, c) => (.err e, c)
      | (.panic, c) => (.panic, c) := rfl

@[simp] theorem throw_apply (e : Err) (c : σ) : (throw e : Go σ α) c = (.err e, c) := rfl

@[simp] theorem panic_apply (c : σ) : (panic : Go σ α) c = (.panic, c) := rfl

@[simp] theorem deref_some (a : α) : (deref (some a) : Go σ α) = pure a := rfl

@[simp] theorem deref_none : (deref none : Go σ α) = panic := rfl

end Go

/-- Code inside a meta transaction. -/
abbrev Tx := Go Ctx

/-- Code of the DDL worker's transaction function. -/
abbrev WTx := Go WCtx

namespace Tx

variable {α : Type}

/-- One KV call: it fails when its outcome says so. -/
def kv : Tx Unit := fun c =>
  match c.faults with
  | [] => (.ok (), c)
  | ok :: fs => (if ok then .ok () else .err .kv, { c with faults := fs })

/-- The meta store the transaction sees. -/
def getMeta : Tx MetaStore := fun c => (.ok c.meta, c)

/-- Change the meta store. -/
def modifyMeta (f : MetaStore → MetaStore) : Tx Unit := fun c => (.ok (), { c with meta := f c.meta })

/-- Change the document sequences and the drop log. -/
def modifyCtx (f : Ctx → Ctx) : Tx Unit := fun c => (.ok (), f c)

@[simp] theorem getMeta_apply (c : Ctx) : getMeta c = (.ok c.meta, c) := rfl

@[simp] theorem modifyMeta_apply (f : MetaStore → MetaStore) (c : Ctx) :
    modifyMeta f c = (.ok (), { c with meta := f c.meta }) := rfl

@[simp] theorem modifyCtx_apply (f : Ctx → Ctx) (c : Ctx) : modifyCtx f c = (.ok (), f c) := rfl

@[simp] theorem kv_nil (c : Ctx) (h : c.faults = []) : kv c = (.ok (), c) := by
  simp [kv, h]

end Tx

namespace WTx

variable {α : Type}

/-- A meta computation in the worker's transaction: it leaves the queue as it is. -/
def lift (x : Tx α) : WTx α := fun w =>
  match x w.ctx with
  | (r, c) => (r, { w with ctx := c })

/-- The queue the transaction sees. -/
def getQueue : WTx Queue := fun w => (.ok w.queue, w)

/-- Change the queue. -/
def modifyQueue (f : Queue → Queue) : WTx Unit := fun w => (.ok (), { w with queue := f w.queue })

@[simp] theorem lift_apply (x : Tx α) (w : WCtx) :
    lift x w = ((x w.ctx).1, { w with ctx := (x w.ctx).2 }) := rfl

@[simp] theorem getQueue_apply (w : WCtx) : getQueue w = (.ok w.queue, w) := rfl

@[simp] theorem modifyQueue_apply (f : Queue → Queue) (w : WCtx) :
    modifyQueue f w = (.ok (), { w with queue := f w.queue }) := rfl

end WTx

open Go Tx

/-! ### Hash fields -/

/-- The value of a field. -/
def getField (f : String) : List (String × Bytes) → Option Bytes
  | [] => none
  | (g, v) :: rest => if f = g then some v else getField f rest

/-- The order of keys: lexicographic on characters, which for UTF-8 is the order of the
bytes. -/
def charsLt : List Char → List Char → Bool
  | _, [] => false
  | [], _ :: _ => true
  | a :: as, b :: bs => if a = b then charsLt as bs else a.toNat < b.toNat

/-- Set a field, keeping the fields in ascending order. -/
def setField (f : String) (v : Bytes) : List (String × Bytes) → List (String × Bytes)
  | [] => [(f, v)]
  | (g, w) :: rest =>
    if charsLt f.data g.data then (f, v) :: (g, w) :: rest
    else if f = g then (f, v) :: rest
    else (g, w) :: setField f v rest

/-- Delete a field. -/
def delField (f : String) (fs : List (String × Bytes)) : List (String × Bytes) :=
  fs.filter (·.1 ≠ f)

@[simp] theorem getField_setField (f g : String) (v : Bytes) (fs : List (String × Bytes)) :
    getField g (setField f v fs) = if g = f then some v else getField g fs := by
  induction fs with
  | nil => simp [setField, getField]
  | cons p rest ih =>
    obtain ⟨h, w⟩ := p
    simp only [setField]
    split_ifs <;> simp_all [getField]

@[simp] theorem getField_delField (f g : String) (fs : List (String × Bytes)) :
    getField g (delField f fs) = if g = f then none else getField g fs := by
  induction fs with
  | nil => simp [delField, getField]
  | cons p rest ih =>
    obtain ⟨h, w⟩ := p
    by_cases hf : h = f <;> by_cases hg : g = h <;> simp_all [delField, getField, List.filter_cons]

/-! ### Structured operations -/

/-- Change one hash. -/
def modifyHash (h : String) (f : List (String × Bytes) → List (String × Bytes)) : Tx Unit :=
  modifyMeta fun m => { m with hash := Function.update m.hash h (f (m.hash h)) }

/-- Modelled from the spec: decode a counter: `binary.BigEndian.Uint64` panics on fewer than
8 bytes; an absent counter is `0`. -/
def readCounter : Option Bytes → Tx ℤ
  | none => pure 0
  | some b =>
    match getInt64 b with
    | some v => pure v
    | none => panic

/-- Modelled from the spec: `Get(k)`: `ErrKeyNotFound` is `none`. -/
def get (k : String) : Tx (Option Bytes) := do
  kv
  return (← getMeta).str k

/-- Modelled from the spec: `Inc(k, step)`: the new value. -/
def inc (k : String) (step : ℤ) : Tx ℤ := do
  kv
  let v ← readCounter ((← getMeta).str k)
  let v' := toInt64 (v + step)
  modifyMeta fun m => { m with str := Function.update m.str k (some (putInt64 v')) }
  return v'

/-- Modelled from the spec: `GetInt64(k)`: `0` when missing. -/
def getInt64Key (k : String) : Tx ℤ := do
  kv
  readCounter ((← getMeta).str k)

/-- Modelled from the spec: `HGet(hash, field)`: `ErrKeyNotFound` is `none`. -/
def hget (h f : String) : Tx (Option Bytes) := do
  kv
  return getField f ((← getMeta).hash h)

/-- Modelled from the spec: `HSet(hash, field, v)`. -/
def hset (h f : String) (v : Bytes) : Tx Unit := do
  kv
  modifyHash h (setField f v)

/-- Modelled from the spec: `HDel(hash, field)`. -/
def hdel (h f : String) : Tx Unit := do
  kv
  modifyHash h (delField f)

/-- Modelled from the spec: `HClear(hash)`. -/
def hclear (h : String) : Tx Unit := do
  kv
  modifyHash h fun _ => []

/-- Modelled from the spec: `HGetAll(hash)`: the fields in ascending order. -/
def hgetAll (h : String) : Tx (List (String × Bytes)) := do
  kv
  return (← getMeta).hash h

/-- Modelled from the spec: `HInc(hash, field, step)`: the new value. -/
def hinc (h f : String) (step : ℤ) : Tx ℤ := do
  kv
  let v ← readCounter (getField f ((← getMeta).hash h))
  let v' := toInt64 (v + step)
  modifyHash h (setField f (putInt64 v'))
  return v'

/-- Modelled from the spec: `HGetInt64(hash, field)`: `0` when missing. -/
def hgetInt64 (h f : String) : Tx ℤ := do
  kv
  readCounter (getField f ((← getMeta).hash h))

end Kvrpc
