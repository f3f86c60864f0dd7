import Kvrpc.Spec.Sequence
import Mathlib.Data.List.Sort

/-!
# The sequence allocator never hands out an id twice

Over every interleaving of `NewSequence`, `Next`, `ReleaseRemaining` and stops on
instances sharing one key, with any KV call failing and commits failing on conflicts,
as long as no lease overflows a `uint64`:

* `seq_ids_unique`: each instance returns positive, strictly increasing ids; no id is
  returned twice in the whole run; and an instance created after another stopped
  returns only ids above all of the stopped one's.

The invariant `SeqInv` says that each instance's unissued lease `(next, leased]` is
below the persisted counter, free of issued ids and disjoint from every other
instance's, and that a snapshot that is still current reads the persisted value. A
successful commit read the current counter `c` (its snapshot is current), so the lease
`(c, c + bandwidth]` it takes is above everything issued or leased so far.
-/

namespace Kvrpc

variable {s s' : Sequence} {snap st st' : Store} {c : LeaseCalls}

/-- A committed `updateLease` read a snapshot that is current and took the lease
`(c, c + bandwidth]` from the value `c` it read. -/
theorem updateLease_some (hu : updateLease s snap st c = (s', some st')) :
    snap.ver = st.ver ∧
      s' = { s with next := snap.val.getD 0, leased := wrap64 (snap.val.getD 0 + s.bandwidth) } ∧
      st' = ⟨some (wrap64 (snap.val.getD 0 + s.bandwidth)), st.ver + 1⟩ := by
  unfold updateLease at hu
  split_ifs at hu with h1 h2 h3 <;> cases hu
  simp only [Bool.and_eq_true, beq_iff_eq] at h3
  exact ⟨h3.2, rfl, rfl⟩

/-- A failed `updateLease` leaves `leased` alone and at most moves `next` to the value
it read. -/
theorem updateLease_none (hu : updateLease s snap st c = (s', none)) :
    s' = s ∨ s' = { s with next := snap.val.getD 0 } := by
  unfold updateLease at hu
  split_ifs at hu <;> cases hu <;> simp

theorem bump_next (h : s.next + 1 < 2 ^ 64) : s.bump.next = s.next + 1 :=
  Nat.mod_eq_of_lt h

theorem newSequence_ok {kw : String} {bw : ℕ} (h : newSequence kw bw = .ok s) :
    s = ⟨bw, 0, 0⟩ ∧ 0 < bw := by
  unfold newSequence at h
  split_ifs at h with h1 h2
  cases h
  exact ⟨rfl, Nat.pos_of_ne_zero h2⟩

theorem releaseRemaining_ok {ok : Bool} (h : releaseRemaining s ok = .ok s') :
    s' = s ∨ s' = { s with leased := s.next } := by
  unfold releaseRemaining at h
  split_ifs at h <;> cases h <;> simp

namespace SeqWorld

variable {w : SeqWorld} {i j : ℕ} {x : Inst}

@[simp] theorem setInst_inst (w : SeqWorld) (i : ℕ) (x : Inst) (j : ℕ) :
    (w.setInst i x).inst j = if j = i then some x else w.inst j := by
  simp only [setInst, Function.update_apply]

@[simp] theorem setInst_out (w : SeqWorld) (i : ℕ) (x : Inst) : (w.setInst i x).out = w.out := rfl
@[simp] theorem setInst_store (w : SeqWorld) (i : ℕ) (x : Inst) : (w.setInst i x).store = w.store := rfl
@[simp] theorem setInst_clock (w : SeqWorld) (i : ℕ) (x : Inst) : (w.setInst i x).clock = w.clock := rfl
@[simp] theorem setInst_count (w : SeqWorld) (i : ℕ) (x : Inst) : (w.setInst i x).count = w.count := rfl
@[simp] theorem emit_inst (w : SeqWorld) (i v : ℕ) : (w.emit i v).inst = w.inst := rfl
@[simp] theorem emit_out (w : SeqWorld) (i v : ℕ) : (w.emit i v).out = w.out ++ [(i, v, w.clock)] := rfl
@[simp] theorem emit_store (w : SeqWorld) (i v : ℕ) : (w.emit i v).store = w.store := rfl
@[simp] theorem emit_clock (w : SeqWorld) (i v : ℕ) : (w.emit i v).clock = w.clock := rfl
@[simp] theorem emit_count (w : SeqWorld) (i v : ℕ) : (w.emit i v).count = w.count := rfl
@[simp] theorem tick_inst (w : SeqWorld) : w.tick.inst = w.inst := rfl
@[simp] theorem tick_out (w : SeqWorld) : w.tick.out = w.out := rfl
@[simp] theorem tick_store (w : SeqWorld) : w.tick.store = w.store := rfl
@[simp] theorem tick_clock (w : SeqWorld) : w.tick.clock = w.clock + 1 := rfl
@[simp] theorem tick_count (w : SeqWorld) : w.tick.count = w.count := rfl

@[simp] theorem setStore_inst (w : SeqWorld) (st : Store) : (w.setStore st).inst = w.inst := rfl
@[simp] theorem setStore_out (w : SeqWorld) (st : Store) : (w.setStore st).out = w.out := rfl
@[simp] theorem setStore_store (w : SeqWorld) (st : Store) : (w.setStore st).store = st := rfl
@[simp] theorem setStore_clock (w : SeqWorld) (st : Store) : (w.setStore st).clock = w.clock := rfl
@[simp] theorem setStore_count (w : SeqWorld) (st : Store) : (w.setStore st).count = w.count := rfl
@[simp] theorem setStore_persisted (w : SeqWorld) (st : Store) :
    (w.setStore st).persisted = st.val.getD 0 := rfl
@[simp] theorem setStore_ids (w : SeqWorld) (st : Store) : (w.setStore st).ids = w.ids := rfl
@[simp] theorem setInst_persisted (w : SeqWorld) (i : ℕ) (x : Inst) :
    (w.setInst i x).persisted = w.persisted := rfl
@[simp] theorem emit_persisted (w : SeqWorld) (i v : ℕ) : (w.emit i v).persisted = w.persisted := rfl
@[simp] theorem tick_persisted (w : SeqWorld) : w.tick.persisted = w.persisted := rfl
@[simp] theorem setInst_ids (w : SeqWorld) (i : ℕ) (x : Inst) : (w.setInst i x).ids = w.ids := rfl
@[simp] theorem tick_ids (w : SeqWorld) : w.tick.ids = w.ids := rfl

@[simp] theorem add_inst (w : SeqWorld) (s : Sequence) (j : ℕ) :
    (w.add s).inst j = if j = w.count then some ⟨s, none, w.clock, none⟩ else w.inst j :=
  setInst_inst _ _ _ _
@[simp] theorem add_out (w : SeqWorld) (s : Sequence) : (w.add s).out = w.out := rfl
@[simp] theorem add_clock (w : SeqWorld) (s : Sequence) : (w.add s).clock = w.clock := rfl
@[simp] theorem add_count (w : SeqWorld) (s : Sequence) : (w.add s).count = w.count + 1 := rfl
@[simp] theorem add_persisted (w : SeqWorld) (s : Sequence) : (w.add s).persisted = w.persisted := rfl
@[simp] theorem add_store (w : SeqWorld) (s : Sequence) : (w.add s).store = w.store := rfl
@[simp] theorem add_ids (w : SeqWorld) (s : Sequence) : (w.add s).ids = w.ids := rfl

theorem setInst_some {x' y : Inst} :
    (w.setInst i x').inst j = some y ↔ (j = i ∧ y = x') ∨ (j ≠ i ∧ w.inst j = some y) := by
  by_cases h : j = i <;> simp [h, eq_comm]

theorem ids_emit (w : SeqWorld) (i v j : ℕ) :
    (w.emit i v).ids j = if j = i then w.ids j ++ [v] else w.ids j := by
  by_cases h : j = i <;> simp [ids, h, eq_comm]

theorem mem_ids {v : ℕ} : v ∈ w.ids i ↔ ∃ t, (i, v, t) ∈ w.out := by
  simp [ids]

/-- `v` is in the unissued part `(next, leased]` of a lease. -/
def InRange (s : Sequence) (v : ℕ) : Prop := s.next < v ∧ v ≤ s.leased

theorem not_inRange {s : Sequence} (hs : s.leased ≤ s.next) {v : ℕ} : ¬ InRange s v :=
  fun h => by unfold InRange at h; omega

/-- A snapshot `sn` of an open transaction of an instance with fields `s`: no newer
than the store, the store's value while no commit came after it, at most the persisted
counter, and at least `s.next`. -/
def SnapOK (w : SeqWorld) (s : Sequence) (sn : Store) : Prop :=
  sn.ver ≤ w.store.ver ∧ (sn.ver = w.store.ver → sn.val = w.store.val) ∧
    sn.val.getD 0 ≤ w.persisted ∧ s.next ≤ sn.val.getD 0

/-- Instance `x` will return only ids above `u`: its next id is past `u` or comes from
a new lease, and an open snapshot reads at least `u`. -/
def Above (u : ℕ) (x : Inst) : Prop :=
  (u ≤ x.seq.next ∨ x.seq.leased ≤ x.seq.next) ∧ ∀ sn, x.txn = some sn → u ≤ sn.val.getD 0

/-- The invariant of the allocator. -/
structure SeqInv (w : SeqWorld) : Prop where
  fresh : ∀ i, w.count ≤ i → w.inst i = none
  outInst : ∀ o ∈ w.out, o.1 < w.count
  bw : ∀ i x, w.inst i = some x → 0 < x.seq.bandwidth
  snap : ∀ i x sn, w.inst i = some x → x.txn = some sn → SnapOK w x.seq sn
  cur : ∀ i x, w.inst i = some x → x.seq.next ≤ w.persisted ∧ x.seq.leased ≤ w.persisted
  outOK : ∀ o ∈ w.out, 0 < o.2.1 ∧ o.2.1 ≤ w.persisted ∧ o.2.2 < w.clock
  nodup : (w.out.map (·.2.1)).Nodup
  free : ∀ o ∈ w.out, ∀ i x, w.inst i = some x → ¬ InRange x.seq o.2.1
  disj : ∀ i j x y v, i ≠ j → w.inst i = some x → w.inst j = some y → InRange x.seq v →
    ¬ InRange y.seq v
  own : ∀ o ∈ w.out, ∀ x, w.inst o.1 = some x → o.2.1 ≤ x.seq.next
  sorted : ∀ i, (w.ids i).Sorted (· < ·)
  born : ∀ i x, w.inst i = some x → x.born ≤ w.clock
  stopped : ∀ o ∈ w.out, ∀ x t, w.inst o.1 = some x → x.stopped = some t → o.2.2 < t
  early : ∀ o ∈ w.out, ∀ i x, w.inst i = some x → o.2.2 < x.born →
    Above o.2.1 x ∧ ∀ v ∈ w.ids i, o.2.1 < v

theorem seqInv_init (kw : String) : SeqInv (init kw) where
  fresh _ _ := rfl
  outInst := by simp [init]
  bw := by simp [init]
  snap := by simp [init]
  cur := by simp [init]
  outOK := by simp [init]
  nodup := by simp [init]
  free := by simp [init]
  disj := by simp [init]
  own := by simp [init]
  sorted := by simp [init, ids]
  born := by simp [init]
  stopped := by simp [init]
  early := by simp [init]

namespace SeqInv

theorem lt_count (h : SeqInv w) (hx : w.inst i = some x) : i < w.count := by
  by_contra hc
  rw [h.fresh i (by omega)] at hx
  cases hx

/-- The clock moving on keeps the invariant. -/
theorem tick (h : SeqInv w) : SeqInv w.tick where
  fresh := h.fresh
  outInst := h.outInst
  bw := h.bw
  snap := h.snap
  cur := h.cur
  outOK o ho := by have := h.outOK o ho; simp only [tick_clock, tick_persisted]; omega
  nodup := h.nodup
  free := h.free
  disj := h.disj
  own := h.own
  sorted := h.sorted
  born i x hx := by have := h.born i x hx; simp only [tick_clock]; omega
  stopped := h.stopped
  early := h.early

/-- Replacing one instance by one whose unissued range is inside the old one, whose
`next` did not go down, and whose snapshot is sound keeps the invariant. -/
theorem update (h : SeqInv w) (hx : w.inst i = some x) {x' : Inst}
    (hborn : x'.born = x.born) (hbw : x'.seq.bandwidth = x.seq.bandwidth)
    (hnext : x.seq.next ≤ x'.seq.next)
    (hcur : x'.seq.next ≤ w.persisted ∧ x'.seq.leased ≤ w.persisted)
    (hrange : ∀ v, InRange x'.seq v → InRange x.seq v)
    (hsnap : ∀ sn, x'.txn = some sn → SnapOK w x'.seq sn)
    (habove : ∀ u ≤ w.persisted, Above u x → Above u x')
    (hstop : x'.stopped = x.stopped ∨ x'.stopped = some w.clock) :
    SeqInv (w.setInst i x').tick := by
  have hi := h.lt_count hx
  refine SeqInv.tick ⟨?_, h.outInst, ?_, ?_, ?_, h.outOK, h.nodup, ?_, ?_, ?_, h.sorted, ?_, ?_, ?_⟩
  · intro j hj
    rw [setInst_count] at hj
    simp only [setInst_inst, if_neg (show j ≠ i by omega)]
    exact h.fresh j hj
  · intro j y hy
    rcases setInst_some.1 hy with ⟨-, rfl⟩ | ⟨-, hy⟩
    · rw [hbw]; exact h.bw i x hx
    · exact h.bw j y hy
  · intro j y sn hy hsn
    rcases setInst_some.1 hy with ⟨-, rfl⟩ | ⟨-, hy⟩
    · exact hsnap sn hsn
    · exact h.snap j y sn hy hsn
  · intro j y hy
    rcases setInst_some.1 hy with ⟨-, rfl⟩ | ⟨-, hy⟩
    · exact hcur
    · exact h.cur j y hy
  · intro o ho j y hy
    rcases setInst_some.1 hy with ⟨-, rfl⟩ | ⟨-, hy⟩
    · exact fun hr => h.free o ho i x hx (hrange _ hr)
    · exact h.free o ho j y hy
  · intro j k y z v hjk hy hz hv
    rcases setInst_some.1 hy with ⟨rfl, rfl⟩ | ⟨-, hy'⟩
    · rcases setInst_some.1 hz with ⟨rfl, -⟩ | ⟨-, hz'⟩
      · exact absurd rfl hjk
      · exact h.disj j k x z v hjk hx hz' (hrange v hv)
    · rcases setInst_some.1 hz with ⟨rfl, rfl⟩ | ⟨-, hz'⟩
      · exact fun hr => h.disj j k y x v hjk hy' hx hv (hrange v hr)
      · exact h.disj j k y z v hjk hy' hz' hv
  · intro o ho y hy
    rcases setInst_some.1 hy with ⟨hoi, rfl⟩ | ⟨-, hy⟩
    · exact (h.own o ho x (hoi ▸ hx)).trans hnext
    · exact h.own o ho y hy
  · intro j y hy
    rcases setInst_some.1 hy with ⟨-, rfl⟩ | ⟨-, hy⟩
    · rw [hborn]; exact h.born i x hx
    · exact h.born j y hy
  · intro o ho y t hy ht
    rcases setInst_some.1 hy with ⟨hoi, rfl⟩ | ⟨-, hy⟩
    · rcases hstop with hs | hs
      · exact h.stopped o ho x t (hoi ▸ hx) (hs ▸ ht)
      · rw [hs] at ht; cases ht; exact (h.outOK o ho).2.2
    · exact h.stopped o ho y t hy ht
  · intro o ho j y hy hb
    rcases setInst_some.1 hy with ⟨rfl, rfl⟩ | ⟨-, hy⟩
    · have := h.early o ho j x hx (hborn ▸ hb)
      exact ⟨habove _ (h.outOK o ho).2.1 this.1, this.2⟩
    · exact h.early o ho j y hy hb

/-- `NewSequence` adds an instance with an empty lease. -/
theorem create (h : SeqInv w) {bw : ℕ} (hbw : 0 < bw) : SeqInv (w.add ⟨bw, 0, 0⟩).tick := by
  have hnew : ∀ o ∈ w.out, o.1 ≠ w.count := fun o ho => (h.outInst o ho).ne
  have hids : w.ids w.count = [] := by
    simpa [ids, List.filter_eq_nil_iff] using hnew
  refine SeqInv.tick ⟨?_, ?_, ?_, ?_, ?_, h.outOK, h.nodup, ?_, ?_, ?_, h.sorted, ?_, ?_, ?_⟩
  · intro j hj
    simp only [add_count] at hj
    simp only [add_inst, if_neg (show j ≠ w.count by omega)]
    exact h.fresh j (by omega)
  · intro o ho; have := h.outInst o ho; simp only [add_count]; omega
  · intro j y hy
    simp only [add_inst] at hy
    split_ifs at hy
    · cases hy; exact hbw
    · exact h.bw j y hy
  · intro j y sn hy hsn
    simp only [add_inst] at hy
    split_ifs at hy
    · cases hy; cases hsn
    · exact h.snap j y sn hy hsn
  · intro j y hy
    simp only [add_inst] at hy
    split_ifs at hy
    · cases hy; simp
    · exact h.cur j y hy
  · intro o ho j y hy
    simp only [add_inst] at hy
    split_ifs at hy
    · cases hy; exact not_inRange le_rfl
    · exact h.free o ho j y hy
  · intro j k y z v hjk hy hz hv
    simp only [add_inst] at hy hz
    split_ifs at hy hz
    · cases hy; exact absurd hv (not_inRange le_rfl)
    · cases hy; exact absurd hv (not_inRange le_rfl)
    · cases hz; exact not_inRange le_rfl
    · exact h.disj j k y z v hjk hy hz hv
  · intro o ho y hy
    simp only [add_inst, if_neg (hnew o ho)] at hy
    exact h.own o ho y hy
  · intro j y hy
    simp only [add_inst] at hy
    split_ifs at hy
    · cases hy; simp
    · exact h.born j y hy
  · intro o ho y t hy ht
    simp only [add_inst, if_neg (hnew o ho)] at hy
    exact h.stopped o ho y t hy ht
  · intro o ho j y hy hb
    simp only [add_inst] at hy
    split_ifs at hy with hj
    · cases hy; subst hj
      simp [Above, hids]
    · exact h.early o ho j y hy hb

/-- Instance `i` returning a fresh id `s'.next` from new fields `s'`, after a commit may
have moved the store on to `st`, keeps the invariant. -/
theorem emit (h : SeqInv w) (hx : w.inst i = some x) {st : Store} {s' : Sequence}
    (hver : w.store.ver ≤ st.ver) (hsame : st.ver = w.store.ver → st = w.store)
    (hP : w.persisted ≤ st.val.getD 0) (hbw : s'.bandwidth = x.seq.bandwidth)
    (hv0 : 0 < s'.next) (hleased : s'.next ≤ st.val.getD 0 ∧ s'.leased ≤ st.val.getD 0)
    (hrange : ∀ u, InRange s' u → InRange x.seq u ∨ w.persisted < u)
    (hfree : ∀ o ∈ w.out, o.2.1 ≠ s'.next)
    (hothers : ∀ j y, j ≠ i → w.inst j = some y → ¬ InRange y.seq s'.next)
    (hmine : ∀ u ∈ w.ids i, u < s'.next)
    (hearly : ∀ o ∈ w.out, o.2.2 < x.born → o.2.1 < s'.next) :
    SeqInv (((w.setStore st).setInst i ⟨s', none, x.born, none⟩).emit i s'.next).tick := by
  have hi := h.lt_count hx
  have hin : ∀ j y, ((w.setStore st).setInst i ⟨s', none, x.born, none⟩).inst j = some y →
      (j = i ∧ y = ⟨s', none, x.born, none⟩) ∨ (j ≠ i ∧ w.inst j = some y) :=
    fun j y hy => setInst_some.1 hy
  have hmem : ∀ o, o ∈ w.out ++ [(i, s'.next, w.clock)] → o ∈ w.out ∨ o = (i, s'.next, w.clock) := by
    simp
  have hout : ∀ o ∈ w.out, o.2.1 ≤ w.persisted := fun o ho => (h.outOK o ho).2.1
  refine { fresh := ?fresh, outInst := ?outInst, bw := ?bw, snap := ?snap, cur := ?cur,
           outOK := ?outOK, nodup := ?nodup, free := ?free, disj := ?disj, own := ?own,
           sorted := ?sorted, born := ?born, stopped := ?stopped, early := ?early } <;>
    simp only [tick_inst, tick_out, tick_count, tick_clock, tick_persisted, tick_store, tick_ids,
      emit_count, setInst_count, setStore_count, emit_out, setInst_out, setStore_out,
      emit_persisted, setInst_persisted, setStore_persisted, emit_clock, setInst_clock,
      setStore_clock, emit_store, setInst_store, setStore_store]
  case fresh =>
    intro j hj
    simp only [emit_inst, setInst_inst, if_neg (show j ≠ i by omega)]
    exact h.fresh j hj
  case outInst =>
    intro o ho
    rcases hmem o ho with ho' | rfl
    · exact h.outInst o ho'
    · exact hi
  case bw =>
    intro j y hy
    rcases hin j y hy with ⟨-, rfl⟩ | ⟨-, hy'⟩
    · rw [hbw]; exact h.bw i x hx
    · exact h.bw j y hy'
  case snap =>
    intro j y sn hy hsn
    rcases hin j y hy with ⟨-, rfl⟩ | ⟨-, hy'⟩
    · cases hsn
    · obtain ⟨h1, h2, h3, h4⟩ := h.snap j y sn hy' hsn
      refine ⟨h1.trans hver, fun he => ?_, h3.trans hP, h4⟩
      have hs := hsame (by simp only [tick_store, emit_store, setInst_store, setStore_store] at he; omega)
      simp only [tick_store, emit_store, setInst_store, setStore_store, hs] at he ⊢
      exact h2 he
  case cur =>
    intro j y hy
    rcases hin j y hy with ⟨-, rfl⟩ | ⟨-, hy'⟩
    · exact hleased
    · have := h.cur j y hy'; omega
  case outOK =>
    intro o ho
    rcases hmem o ho with ho' | rfl
    · have := h.outOK o ho'; omega
    · exact ⟨hv0, hleased.1, Nat.lt_succ_self _⟩
  case nodup =>
    rw [List.map_append, List.nodup_append]
    refine ⟨h.nodup, List.nodup_singleton _, ?_⟩
    simp only [List.map_cons, List.map_nil, List.disjoint_singleton, List.mem_map, not_exists,
      not_and]
    exact fun o ho he => hfree o ho he
  case free =>
    intro o ho j y hy
    rcases hin j y hy with ⟨rfl, rfl⟩ | ⟨hji, hy'⟩
    · rcases hmem o ho with ho' | rfl
      · intro hr
        rcases hrange _ hr with hr' | hr'
        · exact h.free o ho' j x hx hr'
        · exact absurd (hout o ho') (by omega)
      · exact fun hr => absurd hr.1 (Nat.lt_irrefl _)
    · rcases hmem o ho with ho' | rfl
      · exact h.free o ho' j y hy'
      · exact hothers j y hji hy'
  case disj =>
    intro j k y z v hjk hy hz hv
    have key : ∀ j y, w.inst j = some y → j ≠ i → InRange s' v → ¬ InRange y.seq v := by
      intro j y hy hji hv'
      rcases hrange v hv' with hv'' | hv''
      · exact h.disj i j x y v (Ne.symm hji) hx hy hv''
      · exact fun hr => absurd (h.cur j y hy).2 (by unfold InRange at hr; omega)
    rcases hin j y hy with ⟨rfl, rfl⟩ | ⟨hji, hy'⟩
    · rcases hin k z hz with ⟨rfl, -⟩ | ⟨hki, hz'⟩
      · exact absurd rfl hjk
      · exact key k z hz' hki hv
    · rcases hin k z hz with ⟨rfl, rfl⟩ | ⟨-, hz'⟩
      · exact fun hr => key j y hy' hji hr hv
      · exact h.disj j k y z v hjk hy' hz' hv
  case own =>
    intro o ho y hy
    rcases hmem o ho with ho' | rfl
    · rcases hin o.1 y hy with ⟨hoi, rfl⟩ | ⟨-, hy'⟩
      · exact (hmine o.2.1 (mem_ids.2 ⟨o.2.2, hoi ▸ ho'⟩)).le
      · exact h.own o ho' y hy'
    · rcases hin _ y hy with ⟨-, rfl⟩ | ⟨hne, -⟩
      · exact le_rfl
      · exact absurd rfl hne
  case sorted =>
    intro j
    rw [ids_emit]
    split_ifs with hji
    · subst hji
      simp only [setInst_ids, setStore_ids, List.Sorted, List.pairwise_append,
        List.pairwise_singleton, List.mem_singleton, forall_eq, true_and]
      exact ⟨h.sorted j, hmine⟩
    · exact h.sorted j
  case born =>
    intro j y hy
    rcases hin j y hy with ⟨-, rfl⟩ | ⟨-, hy'⟩
    · have := h.born i x hx; simp only; omega
    · have := h.born j y hy'; omega
  case stopped =>
    intro o ho y t hy ht
    rcases hin o.1 y hy with ⟨-, rfl⟩ | ⟨hne, hy'⟩
    · cases ht
    · rcases hmem o ho with ho' | rfl
      · have := h.stopped o ho' y t hy' ht; omega
      · exact absurd rfl hne
  case early =>
    intro o ho j y hy hb
    rcases hmem o ho with ho' | rfl
    · rw [ids_emit]
      rcases hin j y hy with ⟨rfl, rfl⟩ | ⟨hji, hy'⟩
      · have hlt := hearly o ho' hb
        refine ⟨⟨Or.inl hlt.le, fun sn hsn => by cases hsn⟩, fun v hv => ?_⟩
        rw [if_pos rfl, List.mem_append, List.mem_singleton] at hv
        rcases hv with hv' | rfl
        · exact (h.early o ho' j x hx hb).2 v hv'
        · exact hlt
      · rw [if_neg hji]; exact h.early o ho' j y hy' hb
    · rcases hin j y hy with ⟨-, rfl⟩ | ⟨-, hy'⟩
      · exact absurd hb (by have := h.born i x hx; simp only; omega)
      · exact absurd hb (by have := h.born j y hy'; simp only; omega)

/-- `Next` returning from the current lease keeps the invariant. -/
theorem fast (h : SeqInv w) (hno : w.NoOverflow) {s : Sequence} {b : ℕ}
    (hx : w.inst i = some ⟨s, none, b, none⟩) (hlt : s.next < s.leased) :
    SeqInv ((w.setInst i ⟨s.bump, none, b, none⟩).emit i s.bump.next).tick := by
  have hP : s.leased ≤ w.persisted := (h.cur i _ hx).2
  have hov : w.persisted + s.bandwidth < 2 ^ 64 := hno i _ hx rfl
  have hbn : s.bump.next = s.next + 1 := bump_next (by omega)
  have hin : InRange s s.bump.next := ⟨by omega, by omega⟩
  show SeqInv (((w.setStore w.store).setInst i ⟨s.bump, none, b, none⟩).emit i s.bump.next).tick
  refine h.emit hx le_rfl (fun _ => rfl) le_rfl rfl (by omega)
    ⟨show s.bump.next ≤ w.persisted by omega, hP⟩
    (fun u hu => .inl ⟨show s.next < u by have := hu.1; omega, hu.2⟩)
    (fun o ho he => h.free o ho i _ hx (he ▸ hin))
    (fun j y hji hy => h.disj i j _ y _ (Ne.symm hji) hx hy hin)
    (fun u hu => ?_) (fun o ho hb => ?_)
  · obtain ⟨t, ht⟩ := mem_ids.1 hu
    have : u ≤ s.next := h.own _ ht _ hx
    omega
  · obtain ⟨⟨h1 | h1, -⟩, -⟩ := h.early o ho i _ hx hb
    · have : o.2.1 ≤ s.next := h1
      omega
    · have : s.leased ≤ s.next := h1
      omega

/-- A committed lease keeps the invariant. -/
theorem commit (h : SeqInv w) (hno : w.NoOverflow) {s s' : Sequence} {snap st : Store} {b : ℕ}
    {c : LeaseCalls} (hx : w.inst i = some ⟨s, some snap, b, none⟩)
    (hu : updateLease s snap w.store c = (s', some st)) :
    SeqInv (((w.setStore st).setInst i ⟨s'.bump, none, b, none⟩).emit i s'.bump.next).tick := by
  obtain ⟨hver, rfl, rfl⟩ := updateLease_some hu
  obtain ⟨-, hval, -, hle⟩ := h.snap i _ snap hx rfl
  have hn : snap.val.getD 0 = w.persisted := by rw [hval hver]; rfl
  have hbw : 0 < s.bandwidth := h.bw i _ hx
  have hov : w.persisted + s.bandwidth < 2 ^ 64 := hno i _ hx rfl
  have hle' : s.next ≤ w.persisted := hn ▸ hle
  have hl : wrap64 (snap.val.getD 0 + s.bandwidth) = w.persisted + s.bandwidth := by
    rw [hn]; exact Nat.mod_eq_of_lt hov
  have hbn : Sequence.bump { s with next := snap.val.getD 0, leased := wrap64 (snap.val.getD 0 + s.bandwidth) } =
      ⟨s.bandwidth, w.persisted + 1, w.persisted + s.bandwidth⟩ := by
    rw [hl, hn]; simp only [Sequence.bump, wrap64]; rw [Nat.mod_eq_of_lt (by omega)]
  rw [hbn, hl]
  refine h.emit hx (Nat.le_succ _) (fun he => by dsimp only at he; omega)
    (show w.persisted ≤ w.persisted + s.bandwidth by omega) rfl
    (show 0 < w.persisted + 1 by omega)
    ⟨show w.persisted + 1 ≤ w.persisted + s.bandwidth by omega, le_rfl⟩
    (fun u hu => .inr (show w.persisted < u by have := hu.1; dsimp only at this; omega))
    (fun o ho he => by have := (h.outOK o ho).2.1; dsimp only at he; omega)
    (fun j y _ hy hr => by have := (h.cur j y hy).2; have := hr.1; have := hr.2; dsimp only at *; omega)
    (fun u hu => ?_) (fun o ho hb => ?_)
  · obtain ⟨t, ht⟩ := mem_ids.1 hu
    have : u ≤ s.next := h.own _ ht _ hx
    show u < w.persisted + 1
    omega
  · have : o.2.1 ≤ snap.val.getD 0 := (h.early o ho i _ hx hb).1.2 snap rfl
    show o.2.1 < w.persisted + 1
    omega

/-- Every event keeps the invariant while no lease overflows. -/
theorem step (h : SeqInv w) (hno : w.NoOverflow) (e : SeqEvent) : SeqInv (w.step e) := by
  cases e with
  | create bw =>
    simp only [SeqWorld.step, exec]
    split
    · rename_i s hs
      obtain ⟨rfl, hbw⟩ := newSequence_ok hs
      exact h.create hbw
    · exact h.tick
  | next i =>
    rcases hx : w.inst i with _ | ⟨s, _ | snap, b, _ | t⟩ <;> simp only [SeqWorld.step, exec, hx]
    all_goals try exact h.tick
    have hcur : s.next ≤ w.persisted ∧ s.leased ≤ w.persisted := h.cur i _ hx
    split_ifs with hle
    · refine h.update hx rfl rfl le_rfl hcur (fun _ => id) ?_ ?_ (.inl rfl)
      · rintro sn ⟨⟩; exact ⟨le_rfl, fun _ => rfl, le_rfl, hcur.1⟩
      · rintro u hu ⟨h1, -⟩; exact ⟨h1, by rintro sn ⟨⟩; exact hu⟩
    · exact h.fast hno hx (by omega)
  | lease i c =>
    rcases hx : w.inst i with _ | ⟨s, _ | snap, b, _ | t⟩ <;> simp only [SeqWorld.step, exec, hx]
    all_goals try exact h.tick
    split
    · rename_i s' st hu
      exact h.commit hno hx hu
    · rename_i s' hu
      obtain ⟨-, -, -, hle⟩ := h.snap i _ snap hx rfl
      have hcur := h.cur i _ hx
      have hsn := (h.snap i _ snap hx rfl).2.2.1
      simp only at hle hcur
      rcases updateLease_none hu with rfl | rfl
      · exact h.update hx rfl rfl le_rfl hcur (fun _ => id) (by rintro _ ⟨⟩)
          (fun u _ ha => ⟨ha.1, by rintro _ ⟨⟩⟩) (.inl rfl)
      · refine h.update hx rfl rfl hle ⟨hsn, hcur.2⟩
          (fun v hv => ⟨show s.next < v by have := hv.1; dsimp only at this; omega, hv.2⟩)
          (by rintro _ ⟨⟩) (fun u _ ha => ⟨.inl (ha.2 snap rfl), by rintro _ ⟨⟩⟩) (.inl rfl)
  | release i ok =>
    rcases hx : w.inst i with _ | ⟨s, _ | snap, b, _ | t⟩ <;> simp only [SeqWorld.step, exec, hx]
    all_goals try exact h.tick
    have hcur : s.next ≤ w.persisted ∧ s.leased ≤ w.persisted := h.cur i _ hx
    split
    · rename_i s' hs
      rcases releaseRemaining_ok hs with rfl | rfl
      · exact h.update hx rfl rfl le_rfl hcur (fun _ => id) (by rintro _ ⟨⟩)
          (fun u _ ha => ⟨ha.1, by rintro _ ⟨⟩⟩) (.inl rfl)
      · exact h.update hx rfl rfl le_rfl ⟨hcur.1, hcur.1⟩ (fun v hv => absurd hv (not_inRange le_rfl))
          (by rintro _ ⟨⟩) (fun u _ _ => ⟨.inr le_rfl, by rintro _ ⟨⟩⟩) (.inl rfl)
    · exact h.tick
  | stop i =>
    rcases hx : w.inst i with _ | ⟨s, txn, b, _ | t⟩ <;> simp only [SeqWorld.step, exec, hx]
    all_goals try exact h.tick
    have hcur : s.next ≤ w.persisted ∧ s.leased ≤ w.persisted := h.cur i _ hx
    exact h.update hx rfl rfl le_rfl hcur (fun _ => id) (by rintro _ ⟨⟩)
      (fun u _ ha => ⟨ha.1, by rintro _ ⟨⟩⟩) (.inr rfl)

end SeqInv

theorem seqInv_of_reach {kw : String} (h : Reach kw w) : SeqInv w := by
  induction h with
  | init => exact seqInv_init kw
  | step e _ hno ih => exact ih.step hno e

/-- In a reachable world the instances are those below `count`, so whether a lease can
overflow is a check of each of them. -/
theorem Reach.noOverflow {kw : String} (h : Reach kw w)
    (hc : ∀ i < w.count, ∀ x ∈ w.inst i, x.stopped = none → w.persisted + x.seq.bandwidth < 2 ^ 64) :
    w.NoOverflow := fun i x hx hs => by
  by_cases hi : i < w.count
  · exact hc i hi x hx hs
  · rw [(seqInv_of_reach h).fresh i (by omega)] at hx
    cases hx

/-- **No id is handed out twice.** In every world reachable over one key with no lease
overflowing: each instance's ids are positive and strictly increasing; no id is
returned twice in the run; and an instance created after another stopped returns only
ids above all of the stopped one's. -/
theorem seq_ids_unique {kw : String} (h : Reach kw w) :
    (∀ i, (w.ids i).Sorted (· < ·) ∧ ∀ v ∈ w.ids i, 0 < v) ∧
      (w.out.map (·.2.1)).Nodup ∧
      ∀ i j x y t, w.inst i = some x → w.inst j = some y → y.stopped = some t → t < x.born →
        ∀ v ∈ w.ids i, ∀ u ∈ w.ids j, u < v := by
  have hi := seqInv_of_reach h
  refine ⟨fun i => ⟨hi.sorted i, fun v hv => ?_⟩, hi.nodup, ?_⟩
  · obtain ⟨t, ht⟩ := mem_ids.1 hv
    exact (hi.outOK _ ht).1
  · intro i j x y t hx hy ht hb v hv u hu
    obtain ⟨t', ht'⟩ := mem_ids.1 hu
    have hlt : t' < t := hi.stopped _ ht' y t hy ht
    exact (hi.early _ ht' i x hx (by simp only; omega)).2 v hv

/-- One instance of bandwidth 10: its first `Next` leases from the absent key, its second
returns from the lease. -/
def leaseEvents : List SeqEvent := [.create 10, .next 0, .lease 0 ⟨true, true, true⟩, .next 0]

theorem seq_ids_unique_leased :
    Reach "c" ((init "c").run leaseEvents) ∧ ((init "c").run leaseEvents).ids 0 = [1, 2] ∧
      ((∀ i, (((init "c").run leaseEvents).ids i).Sorted (· < ·) ∧
          ∀ v ∈ ((init "c").run leaseEvents).ids i, 0 < v) ∧
        (((init "c").run leaseEvents).out.map (·.2.1)).Nodup ∧
        ∀ i j x y t, ((init "c").run leaseEvents).inst i = some x →
          ((init "c").run leaseEvents).inst j = some y → y.stopped = some t → t < x.born →
          ∀ v ∈ ((init "c").run leaseEvents).ids i, ∀ u ∈ ((init "c").run leaseEvents).ids j, u < v) := by
  have h0 : Reach "c" (init "c") := .init
  have h1 := Reach.step (.create 10) h0 (h0.noOverflow (by decide))
  have h2 := Reach.step (.next 0) h1 (h1.noOverflow (by decide))
  have h3 := Reach.step (.lease 0 ⟨true, true, true⟩) h2 (h2.noOverflow (by decide))
  have h4 := Reach.step (.next 0) h3 (h3.noOverflow (by decide))
  exact ⟨h4, by decide, seq_ids_unique h4⟩

/-- `ReleaseRemaining` returns `nil` without persisting `next`. With bandwidth 10, after
one `Next` (id 1) the release succeeds and sets `leased` to 1 while the key still holds
10; after a restart, the new instance's first `Next` returns 11, not 2. -/
theorem release_not_persisted :
    ((init "c").run [.create 10, .next 0, .lease 0 ⟨true, true, true⟩]).inst 0 =
        some ⟨⟨10, 1, 10⟩, none, 0, none⟩ ∧
      releaseRemaining ⟨10, 1, 10⟩ true = .ok ⟨10, 1, 1⟩ ∧
      ((init "c").run [.create 10, .next 0, .lease 0 ⟨true, true, true⟩, .release 0 true]).inst 0 =
        some ⟨⟨10, 1, 1⟩, none, 0, none⟩ ∧
      ((init "c").run [.create 10, .next 0, .lease 0 ⟨true, true, true⟩, .release 0 true]).persisted = 10 ∧
      ((init "c").run [.create 10, .next 0, .lease 0 ⟨true, true, true⟩, .release 0 true, .stop 0,
        .create 10, .next 1, .lease 1 ⟨true, true, true⟩]).ids 1 = [11] :=
  ⟨by decide, rfl, by decide, by decide, by decide⟩

end SeqWorld

end Kvrpc
