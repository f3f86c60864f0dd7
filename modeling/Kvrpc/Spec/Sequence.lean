import Mathlib.Logic.Function.Basic
import Mathlib.Algebra.Group.Nat.Basic

/-!
# The id sequence allocator

`Sequence` leases `bandwidth` ids at a time from a counter persisted under one key of
the KV store, and hands them out one by one from memory (`Next`). `updateLease` reads
the persisted counter `c`, writes `c + bandwidth` and takes the ids `c + 1, …,
c + bandwidth`; `ReleaseRemaining` is meant to give the unissued ids back.

Several instances may share one key: a document collection re-created after a restart
builds a new `Sequence` on the same keyword. The model is the KV key, every instance's
fields, and the transaction each instance has open. The store is serializable: a
transaction reads the snapshot taken when it began, and its commit fails if another
commit wrote the key since then. Every KV call may fail.

An instance's `Next` holds the instance lock across `updateLease`, so between the
snapshot (`SeqEvent.next`) and the end of the lease (`SeqEvent.lease`) only other
instances move. Go's `uint64` arithmetic wraps (`wrap64`).

The world also records, as history for the statements, every id a `Next` returned,
with its instance and time, and when each instance was created and stopped.
-/

namespace Kvrpc

/-- Go's `uint64` arithmetic is modulo `2 ^ 64`. -/
def wrap64 (n : ℕ) : ℕ := n % 2 ^ 64

/-- The fields of a `Sequence` that the allocator reads and writes. -/
structure Sequence where
  bandwidth : ℕ
  next : ℕ
  leased : ℕ
  deriving DecidableEq, Repr

/-- The errors of `NewSequence` and of the KV calls. -/
inductive SeqError
  | emptyKeywordForSequence
  | zeroBandwidth
  | kv
  deriving DecidableEq, Repr

/-- `NewSequence`. -/
def newSequence (keyword : String) (bandwidth : ℕ) : Except SeqError Sequence :=
  if keyword.isEmpty then .error .emptyKeywordForSequence
  else if bandwidth = 0 then .error .zeroBandwidth
  else .ok ⟨bandwidth, 0, 0⟩

/-- The sequence key in the store: its value (`none` while absent) and how many commits
have written it. A snapshot is a `Store` too. -/
structure Store where
  val : Option ℕ
  ver : ℕ
  deriving DecidableEq, Repr

/-- How the KV calls of one `updateLease` end. A commit also fails on a conflict. -/
structure LeaseCalls where
  getOk : Bool
  setOk : Bool
  commitOk : Bool
  deriving DecidableEq, Repr

/-- `updateLease`, run in a transaction with snapshot `snap` and committed against the
store `st`: the new fields, and the store after a successful commit. `next` is
overwritten by the value read before anything is written (`ErrKeyNotFound` reads
as `0`); a failed commit restores `leased` only. -/
def updateLease (s : Sequence) (snap st : Store) (c : LeaseCalls) : Sequence × Option Store :=
  if !c.getOk then (s, none)
  else
    let next := snap.val.getD 0
    let lease := wrap64 (next + s.bandwidth)
    if !c.setOk then ({ s with next }, none)
    else if c.commitOk && snap.ver == st.ver then
      ({ s with next, leased := lease }, some ⟨some lease, st.ver + 1⟩)
    else ({ s with next }, none)

/-- The end of `Next`: `s.next++`, whose new value is returned. -/
def Sequence.bump (s : Sequence) : Sequence := { s with next := wrap64 (s.next + 1) }

/-- `ReleaseRemaining`, given whether its `txn.Set` succeeds: the new fields, or the
error. The write of `next` goes into a transaction that is discarded and never
committed. -/
def releaseRemaining (s : Sequence) (setOk : Bool) : Except SeqError Sequence :=
  if s.leased = s.next then .ok s
  else if !setOk then .error .kv
  else .ok { s with leased := s.next }

/-- One instance: its fields, the snapshot of its open `updateLease` transaction, when
it was created, and when it stopped. -/
structure Inst where
  seq : Sequence
  txn : Option Store
  born : ℕ
  stopped : Option ℕ
  deriving DecidableEq, Repr

/-- Instances `0, …, count - 1` on one key, the store, and the history: each id a
`Next` returned as `(instance, id, time)`, and the clock. -/
structure SeqWorld where
  keyword : String
  store : Store
  inst : ℕ → Option Inst
  count : ℕ
  out : List (ℕ × ℕ × ℕ)
  clock : ℕ

/-- One call, or one step of a call, on the shared key. -/
inductive SeqEvent
  /-- `NewSequence(kvdb, keyword, bandwidth)`. -/
  | create (bandwidth : ℕ)
  /-- `Next` on instance `i`: either it returns from the lease at once, or it begins
  the transaction of `updateLease`. -/
  | next (i : ℕ)
  /-- The rest of `updateLease` and of `Next` on instance `i`. -/
  | lease (i : ℕ) (c : LeaseCalls)
  /-- `ReleaseRemaining` on instance `i`. -/
  | release (i : ℕ) (setOk : Bool)
  /-- Instance `i` stops for good; its open transaction is dropped. -/
  | stop (i : ℕ)
  deriving DecidableEq, Repr

namespace SeqWorld

/-- The world before any call. -/
def init (keyword : String) : SeqWorld := ⟨keyword, ⟨none, 0⟩, fun _ => none, 0, [], 0⟩

/-- The persisted counter (`0` while the key is absent). -/
def persisted (w : SeqWorld) : ℕ := w.store.val.getD 0

/-- The ids instance `i` returned, in order. -/
def ids (w : SeqWorld) (i : ℕ) : List ℕ := (w.out.filter (·.1 = i)).map (·.2.1)

/-- Replace instance `i`. -/
def setInst (w : SeqWorld) (i : ℕ) (x : Inst) : SeqWorld :=
  { w with inst := Function.update w.inst i (some x) }

/-- The store after a commit. -/
def setStore (w : SeqWorld) (st : Store) : SeqWorld := { w with store := st }

/-- Instance `i` returns id `v` now. -/
def emit (w : SeqWorld) (i v : ℕ) : SeqWorld := { w with out := w.out ++ [(i, v, w.clock)] }

/-- A new instance with fields `s`, created now. -/
def add (w : SeqWorld) (s : Sequence) : SeqWorld :=
  { w.setInst w.count ⟨s, none, w.clock, none⟩ with count := w.count + 1 }

/-- The effect of one event, the clock aside. An event for an instance that is missing,
stopped, or in the wrong phase of its call changes nothing. -/
def exec (w : SeqWorld) : SeqEvent → SeqWorld
  | .create bw =>
    match newSequence w.keyword bw with
    | .ok s => w.add s
    | .error _ => w
  | .next i =>
    match w.inst i with
    | some ⟨s, none, b, none⟩ =>
      if s.leased ≤ s.next then w.setInst i ⟨s, some w.store, b, none⟩
      else (w.setInst i ⟨s.bump, none, b, none⟩).emit i s.bump.next
    | _ => w
  | .lease i c =>
    match w.inst i with
    | some ⟨s, some snap, b, none⟩ =>
      match updateLease s snap w.store c with
      | (s', some st) => ((w.setStore st).setInst i ⟨s'.bump, none, b, none⟩).emit i s'.bump.next
      | (s', none) => w.setInst i ⟨s', none, b, none⟩
    | _ => w
  | .release i ok =>
    match w.inst i with
    | some ⟨s, none, b, none⟩ =>
      match releaseRemaining s ok with
      | .ok s' => w.setInst i ⟨s', none, b, none⟩
      | .error _ => w
    | _ => w
  | .stop i =>
    match w.inst i with
    | some ⟨s, _, b, none⟩ => w.setInst i ⟨s, none, b, some w.clock⟩
    | _ => w

/-- The clock moves on. -/
def tick (w : SeqWorld) : SeqWorld := { w with clock := w.clock + 1 }

/-- One event. -/
def step (w : SeqWorld) (e : SeqEvent) : SeqWorld := (w.exec e).tick

/-- The events in order. -/
def run (w : SeqWorld) (es : List SeqEvent) : SeqWorld := es.foldl step w

/-- No lease overflows: the persisted counter plus the bandwidth of any running
instance fits in a `uint64`. -/
def NoOverflow (w : SeqWorld) : Prop :=
  ∀ i x, w.inst i = some x → x.stopped = none → w.persisted + x.seq.bandwidth < 2 ^ 64

/-- The worlds reachable from `init keyword` by events taken while no lease overflows. -/
inductive Reach (keyword : String) : SeqWorld → Prop
  | init : Reach keyword (init keyword)
  | step {w : SeqWorld} (e : SeqEvent) : Reach keyword w → w.NoOverflow → Reach keyword (w.step e)

end SeqWorld

end Kvrpc
