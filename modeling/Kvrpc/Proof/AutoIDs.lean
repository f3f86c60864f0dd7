import Kvrpc.Proof.Orphans
import Kvrpc.Proof.Versions
import Mathlib.Algebra.Order.BigOperators.Group.List

/-!
# Auto ids increase

`GenAutoCollectionID` adds its step to the counter of a collection, a field of its
database's hash, with one `HInc`: all or nothing. No other call of the registry writes that
field but `DropCollection` with `delAutoID`, which deletes it, and `DropDatabase`, which
clears the hash. So between two such calls, the ids `GenAutoCollectionID` with positive
steps hands out for one collection strictly increase, whatever KV calls fail, while the
counter stays within `MaxInt64`; a collection dropped without `delAutoID` and created again
goes on from its counter.

* `autoOf`: the collection's counter, as `GetAutoCollectionID` reads it.
* `AutoSame`: the counter's field is unchanged. Every call keeps it but `DropDatabase` of
  the database, `DropCollection` of the collection with `delAutoID`, and
  `GenAutoCollectionID` of the collection (`MetaCall.exec_autoSame`).
* `genAutoCollectionID_cases`: `GenAutoCollectionID` of the collection returns the sum and
  stores it, or changes nothing.
* `autoIDs_increase`: along any calls, each with any KV calls failing, none of which
  resets the counter, the ids handed out for the collection strictly increase.
-/

namespace Kvrpc

open Go Tx Meta

/-- The counter of the collection `cid` of the database `i`, as `HGetInt64` decodes it:
`0` when absent, `none` when it does not decode. -/
def autoOf (i cid : ℤ) (m : MetaStore) : Option ℤ :=
  counterOf (getField (collectionAutoIncrementIDKey cid) (m.hash (dbKey i)))

/-- The field of the counter of `(i, cid)` is unchanged. -/
def AutoSame (i cid : ℤ) (c c' : Ctx) : Prop :=
  getField (collectionAutoIncrementIDKey cid) (c'.meta.hash (dbKey i)) =
    getField (collectionAutoIncrementIDKey cid) (c.meta.hash (dbKey i))

namespace MetaCall

/-- The calls that reset the counter of `(i, cid)`: `DropDatabase` of `i`, and
`DropCollection` of `cid` in `i` with `delAutoID`. -/
def Resets (i cid : ℤ) : MetaCall → Bool
  | .dropDatabase j => j = i
  | .dropCollection j k del => j = i && k = cid && del
  | _ => false

/-- The step of a `GenAutoCollectionID` of `(i, cid)`. -/
def genStep (i cid : ℤ) : MetaCall → Option ℤ
  | .genAutoCollectionID j k s => if j = i ∧ k = cid then some s else none
  | _ => none

/-- The id a `GenAutoCollectionID` of `(i, cid)` returned. -/
def genID (i cid : ℤ) : MetaCall × Res Ret → Option ℤ
  | (.genAutoCollectionID j k _, .ok (.id v)) => if j = i ∧ k = cid then some v else none
  | _ => none

end MetaCall

variable {i cid : ℤ} {c : Ctx}

instance : IsRefl Ctx (AutoSame i cid) := ⟨fun _ => rfl⟩

instance : IsTrans Ctx (AutoSame i cid) := ⟨fun _ _ _ h h' => h'.trans h⟩

theorem MetaSame.autoSame {c c' : Ctx} (h : MetaSame c c') : AutoSame i cid c c' := by
  rw [AutoSame, h]

theorem Go.Moves.autoSame {α : Type} {x : Tx α} (h : Moves MetaSame x) : Moves (AutoSame i cid) x :=
  h.mono fun _ _ => MetaSame.autoSame

theorem AutoSame.autoOf {c c' : Ctx} (h : AutoSame i cid c c') : autoOf i cid c'.meta = autoOf i cid c.meta :=
  congrArg counterOf h

/-! ### Each write -/

theorem modifyHash_autoSame {h : String} {g : List (String × Bytes) → List (String × Bytes)}
    (hg : h = dbKey i → ∀ fs, getField (collectionAutoIncrementIDKey cid) (g fs) =
      getField (collectionAutoIncrementIDKey cid) fs) :
    Moves (AutoSame i cid) (modifyHash h g) := fun c => by
  simp only [AutoSame, modifyHash, modifyMeta_apply, Function.update_apply]
  split_ifs with hh
  · subst hh
    exact hg rfl _
  · rfl

theorem hset_autoSame {h f : String} (v : Bytes)
    (hne : h = dbKey i → f ≠ collectionAutoIncrementIDKey cid) : Moves (AutoSame i cid) (hset h f v) :=
  .bind kv_same.autoSame fun _ => modifyHash_autoSame fun hh _ => by
    rw [getField_setField, if_neg (hne hh).symm]

theorem hdel_autoSame {h f : String} (hne : h = dbKey i → f ≠ collectionAutoIncrementIDKey cid) :
    Moves (AutoSame i cid) (hdel h f) :=
  .bind kv_same.autoSame fun _ => modifyHash_autoSame fun hh _ => by
    rw [getField_delField, if_neg (hne hh).symm]

theorem hclear_autoSame {h : String} (hne : h ≠ dbKey i) : Moves (AutoSame i cid) (hclear h) :=
  .bind kv_same.autoSame fun _ => modifyHash_autoSame fun hh => absurd hh hne

theorem hinc_autoSame {h f : String} (step : ℤ)
    (hne : h = dbKey i → f ≠ collectionAutoIncrementIDKey cid) : Moves (AutoSame i cid) (hinc h f step) :=
  .bind kv_same.autoSame fun _ => .bind (fun c => refl c) fun _ =>
    .bind (readCounter_same _).autoSame fun _ => .bind (modifyHash_autoSame fun hh _ => by
      rw [getField_setField, if_neg (hne hh).symm]) fun _ => .pure' _

/-- A write to another field of the database's hash. -/
theorem collectionKey_autoSame (k : ℤ) {h : String} :
    h = dbKey i → collectionKey k ≠ collectionAutoIncrementIDKey cid :=
  fun _ => collectionKey_ne_autoKey k cid

theorem dbsKey_autoSame {f : String} : dbsKey = dbKey i → f ≠ collectionAutoIncrementIDKey cid :=
  fun h => absurd h.symm (dbKey_ne_dbsKey i)

variable (J : Codecs)

/-- **Every call but the three keeps the counter**, whatever its KV calls return. -/
theorem MetaCall.exec_autoSame : ∀ op : MetaCall, op.genStep i cid = none → op.Resets i cid = false →
    Moves (AutoSame i cid) (op.exec J)
  | .createDatabase _, _, _ =>
    .bind (.bind (checkDBNotExists_same _).autoSame fun _ => hset_autoSame _ dbsKey_autoSame)
      fun _ => .pure' _
  | .updateDatabase _, _, _ =>
    .bind (.bind (checkDBExists_same _).autoSame fun _ => hset_autoSame _ dbsKey_autoSame)
      fun _ => .pure' _
  | .dropDatabase j, _, hr =>
    .bind (.bind (checkDBExists_same _).autoSame fun _ =>
      .bind (hclear_autoSame (by simpa [Resets] using hr)) fun _ => hdel_autoSame dbsKey_autoSame)
      fun _ => .pure' _
  | .createCollection _ ci, _, _ =>
    .bind (.bind (checkDBExists_same _).autoSame fun _ =>
      .bind (checkCollectionNotExists_same _ _).autoSame fun _ =>
        hset_autoSame _ (collectionKey_autoSame ci.id)) fun _ => .pure' _
  | .updateCollection _ ci, _, _ =>
    .bind (.bind (checkDBExists_same _).autoSame fun _ =>
      .bind (checkCollectionExists_same _ _).autoSame fun _ =>
        hset_autoSame _ (collectionKey_autoSame ci.id)) fun _ => .pure' _
  | .dropCollection j k del, _, hr =>
    .bind (.bind (checkDBExists_same _).autoSame fun _ =>
      .bind (checkCollectionExists_same _ _).autoSame fun _ =>
        .bind (hdel_autoSame (collectionKey_autoSame k)) fun _ => by
          cases del
          · exact .pure' _
          · exact hdel_autoSame fun hj hk => by simp_all [Resets]) fun _ => .pure' _
  | .genAutoCollectionID j k s, hg, _ =>
    .bind (.bind (checkDBExists_same _).autoSame fun _ =>
      .bind (checkCollectionExists_same _ _).autoSame fun _ =>
        hinc_autoSame _ fun hj hk => by simp_all [genStep]) fun _ => .pure' _
  | .getAutoCollectionID _ _, _, _ => .bind (hgetInt64_same _ _).autoSame fun _ => .pure' _
  | .getDatabase _, _, _ => .bind (getDatabase_same J _).autoSame fun _ => .pure' _
  | .getCollection _ _, _, _ => .bind (getCollection_same J _ _).autoSame fun _ => .pure' _

/-- `HInc` of the counter from a store where it decodes: the sum is returned and stored, or
the KV call fails and nothing changes. -/
theorem hinc_auto (s : ℤ) {v : ℤ} (hv : autoOf i cid c.meta = some v) : ∃ fs,
    hinc (dbKey i) (collectionAutoIncrementIDKey cid) s c =
        (.ok (toInt64 (v + s)), { c with faults := fs, meta := { c.meta with
          hash := Function.update c.meta.hash (dbKey i) (setField (collectionAutoIncrementIDKey cid)
            (putInt64 (toInt64 (v + s))) (c.meta.hash (dbKey i))) } }) ∨
      hinc (dbKey i) (collectionAutoIncrementIDKey cid) s c = (.err .kv, { c with faults := fs }) := by
  unfold autoOf at hv
  obtain ⟨fs, hk | hk⟩ := kv_cases c
  · exact ⟨fs, .inl (by simp [hinc, hk, readCounter_eq_counterOf, hv, modifyHash])⟩
  · exact ⟨fs, .inr (by simp [hinc, hk])⟩

/-- **`GenAutoCollectionID` of the collection is all or nothing.** From a counter that
decodes, it returns the sum with its step, as an `int64`, and stores it; or it returns no
id and leaves the counter. -/
theorem genAutoCollectionID_cases (s : ℤ) {v : ℤ} (hv : autoOf i cid c.meta = some v) :
    (genAutoCollectionID i cid s c).1 = .ok (toInt64 (v + s)) ∧
        autoOf i cid (genAutoCollectionID i cid s c).2.meta = some (toInt64 (v + s)) ∨
      (∀ a, (genAutoCollectionID i cid s c).1 ≠ .ok a) ∧
        AutoSame i cid c (genAutoCollectionID i cid s c).2 := by
  simp only [genAutoCollectionID, bind_apply]
  rcases h1 : checkDBExists (dbKey i) c with ⟨_ | _ | _, c1⟩ <;>
    have hs1 : AutoSame i cid c c1 := (checkDBExists_same _).autoSame.of_eq h1
  · dsimp only
    rcases h2 : checkCollectionExists (dbKey i) (collectionKey cid) c1 with ⟨_ | _ | _, c2⟩ <;>
      have hs2 : AutoSame i cid c c2 := ((checkCollectionExists_same _ _).autoSame.of_eq h2).trans hs1
    · obtain ⟨fs, h3 | h3⟩ := hinc_auto s (hs2.autoOf.trans hv) <;> simp only [h3]
      · left
        simp [autoOf, counterOf_putInt64, toInt64_toInt64]
      · exact .inr ⟨(fun _ h => nomatch h), hs2⟩
    all_goals exact .inr ⟨(fun _ h => nomatch h), hs2⟩
  all_goals exact .inr ⟨(fun _ h => nomatch h), hs1⟩

theorem MetaCall.eq_of_genStep {op : MetaCall} {s : ℤ} (h : op.genStep i cid = some s) :
    op = .genAutoCollectionID i cid s := by
  cases op <;> simp_all [genStep]

theorem MetaCall.genID_of_genStep {op : MetaCall} (h : op.genStep i cid = none) (r : Res Ret) :
    genID i cid (op, r) = none := by
  cases op with
  | genAutoCollectionID j k s =>
    simp only [genStep, ite_eq_right_iff, reduceCtorEq, imp_false] at h
    unfold genID
    split <;> simp_all
  | _ => rfl

/-- A call from a counter that decodes: it hands out no id of the collection and leaves the
counter, or it is `GenAutoCollectionID` of the collection and hands out the sum it stores. -/
theorem MetaCall.exec_auto (op : MetaCall) (hr : op.Resets i cid = false) {v : ℤ}
    (hv : autoOf i cid c.meta = some v) :
    genID i cid (op, (op.exec J c).1) = none ∧ autoOf i cid (op.exec J c).2.meta = some v ∨
      ∃ s, op.genStep i cid = some s ∧ genID i cid (op, (op.exec J c).1) = some (toInt64 (v + s)) ∧
        autoOf i cid (op.exec J c).2.meta = some (toInt64 (v + s)) := by
  cases hg : op.genStep i cid with
  | none => exact .inl ⟨genID_of_genStep hg _, (exec_autoSame J op hg hr c).autoOf.trans hv⟩
  | some s =>
    obtain rfl := eq_of_genStep hg
    have hc := genAutoCollectionID_cases (c := c) s hv
    simp only [exec, bind_apply]
    revert hc
    rcases Meta.genAutoCollectionID i cid s c with ⟨_ | _ | _, c'⟩ <;> rintro (⟨h1, h2⟩ | ⟨h1, h2⟩)
    · cases h1
      exact .inr ⟨s, rfl, by simp [genID], h2⟩
    · exact absurd rfl (h1 _)
    · cases h1
    · exact .inl ⟨rfl, h2.autoOf.trans hv⟩
    · cases h1
    · exact .inl ⟨rfl, h2.autoOf.trans hv⟩

/-! ### Runs of calls -/

theorem genSteps_cons {op : MetaCall} {ops : List MetaCall} {s : ℤ} (h : op.genStep i cid = some s) :
    ((op :: ops).filterMap (MetaCall.genStep i cid)).sum = s + (ops.filterMap (MetaCall.genStep i cid)).sum := by
  simp [List.filterMap_cons, h]

theorem genSteps_le_cons {op : MetaCall} {ops : List MetaCall}
    (hs : ∀ s ∈ (op :: ops).filterMap (MetaCall.genStep i cid), 0 < s) :
    (ops.filterMap (MetaCall.genStep i cid)).sum ≤ ((op :: ops).filterMap (MetaCall.genStep i cid)).sum := by
  cases h : op.genStep i cid with
  | none => simp [List.filterMap_cons, h]
  | some s =>
    rw [genSteps_cons h]
    have := hs s (by simp [List.filterMap_cons, h])
    omega

/-- Along calls that never reset the counter, with positive steps that keep it within
`MaxInt64`: it ends at some `v'`, and the ids handed out for the collection increase, each
above the start and at most `v'`. -/
theorem runCalls_auto : ∀ (ops : List MetaCall) {c : Ctx} {v : ℤ}, autoOf i cid c.meta = some v →
    (∀ op ∈ ops, op.Resets i cid = false) → (∀ s ∈ ops.filterMap (MetaCall.genStep i cid), 0 < s) →
    v + (ops.filterMap (MetaCall.genStep i cid)).sum ≤ maxInt64 →
    ∃ v', autoOf i cid (runCalls J ops c).2.meta = some v' ∧ v ≤ v' ∧
      ((ops.zip (runCalls J ops c).1).filterMap (MetaCall.genID i cid)).Sorted (· < ·) ∧
      ∀ x ∈ (ops.zip (runCalls J ops c).1).filterMap (MetaCall.genID i cid), v < x ∧ x ≤ v'
  | [], _, v, hv, _, _, _ => ⟨v, hv, le_rfl, .nil, fun _ h => nomatch h⟩
  | op :: ops, c, v, hv, hr, hs, hb => by
    have hr' : ∀ o ∈ ops, o.Resets i cid = false := fun o ho => hr o (List.mem_cons_of_mem _ ho)
    have hs' : ∀ s ∈ ops.filterMap (MetaCall.genStep i cid), 0 < s := fun s h =>
      hs s (by cases hg : op.genStep i cid <;> simp_all [List.filterMap_cons])
    have hle := genSteps_le_cons hs
    simp only [runCalls, List.zip_cons_cons, List.filterMap_cons]
    rcases MetaCall.exec_auto J op (hr op (List.mem_cons_self _ _)) hv with ⟨hg, ha⟩ | ⟨s, hs1, hg, ha⟩
    · obtain ⟨v', ha', hvv, hsort, hlt⟩ := runCalls_auto ops ha hr' hs' (by omega)
      rw [hg]
      exact ⟨v', ha', hvv, hsort, hlt⟩
    · have hpos : 0 < s := hs s (by simp [List.filterMap_cons, hs1])
      have hsum : ((op :: ops).filterMap (MetaCall.genStep i cid)).sum =
          s + (ops.filterMap (MetaCall.genStep i cid)).sum := genSteps_cons hs1
      have hnn : 0 ≤ (ops.filterMap (MetaCall.genStep i cid)).sum :=
        List.sum_nonneg fun x hx => (hs' x hx).le
      have heq : toInt64 (v + s) = v + s :=
        toInt64_eq_self (by linarith [(counterOf_bounds hv).1]) (by omega)
      rw [heq] at hg ha
      obtain ⟨v', ha', hvv, hsort, hlt⟩ := runCalls_auto ops ha hr' hs' (by omega)
      rw [hg]
      refine ⟨v', ha', by omega, List.sorted_cons.2 ⟨fun x hx => (hlt x hx).1, hsort⟩, ?_⟩
      intro x hx
      rcases List.mem_cons.1 hx with rfl | hx
      · exact ⟨by omega, hvv⟩
      · exact ⟨by linarith [(hlt x hx).1], (hlt x hx).2⟩

/-- **Auto ids increase.** Take a store whose counter of the collection `cid` of the
database `i` decodes, to `v₀`, and any registry calls one after another, each with any of
its KV calls failing. Let none of them be `DropDatabase` of `i` or `DropCollection` of
`cid` with `delAutoID`, and let the `GenAutoCollectionID` calls of the collection have
positive steps adding up to at most `MaxInt64 - v₀`. Then the ids those calls hand out
strictly increase, each above `v₀`. `GetAutoCollectionID` afterwards, with no KV call
failing, reads a counter at least each of them. -/
theorem autoIDs_increase {c : Ctx} {v₀ : ℤ} (hv : autoOf i cid c.meta = some v₀)
    (ops : List MetaCall) (hr : ∀ op ∈ ops, op.Resets i cid = false)
    (hs : ∀ s ∈ ops.filterMap (MetaCall.genStep i cid), 0 < s)
    (hb : v₀ + (ops.filterMap (MetaCall.genStep i cid)).sum ≤ maxInt64) :
    ∃ v', (getAutoCollectionID i cid { (runCalls J ops c).2 with faults := [] }).1 = .ok v' ∧
      ((ops.zip (runCalls J ops c).1).filterMap (MetaCall.genID i cid)).Sorted (· < ·) ∧
      ∀ x ∈ (ops.zip (runCalls J ops c).1).filterMap (MetaCall.genID i cid), v₀ < x ∧ x ≤ v' := by
  obtain ⟨v', ha, -, hsort, hlt⟩ := runCalls_auto J ops hv hr hs hb
  refine ⟨v', ?_, hsort, hlt⟩
  unfold autoOf at ha
  simp [getAutoCollectionID, hgetInt64, readCounter_eq_counterOf, ha]

/-- A collection given an id, dropped without `delAutoID`, created again, and given
another. -/
def recreateCalls : List MetaCall :=
  [.createDatabase ⟨1, "d", [], .none⟩, .createCollection 1 ⟨2, "c", [], .none⟩,
    .genAutoCollectionID 1 2 1, .dropCollection 1 2 false, .createCollection 1 ⟨2, "c", [], .none⟩,
    .genAutoCollectionID 1 2 1]

theorem autoIDs_increase_recreate :
    autoOf 1 2 MetaStore.empty = some 0 ∧ (∀ op ∈ recreateCalls, op.Resets 1 2 = false) ∧
      (∀ s ∈ recreateCalls.filterMap (MetaCall.genStep 1 2), 0 < s) ∧
      0 + (recreateCalls.filterMap (MetaCall.genStep 1 2)).sum ≤ maxInt64 ∧
      ∃ v', (getAutoCollectionID 1 2
          { (runCalls Codecs.binary recreateCalls ⟨MetaStore.empty, [], [], []⟩).2 with faults := [] }).1 =
            .ok v' ∧
        ((recreateCalls.zip (runCalls Codecs.binary recreateCalls ⟨MetaStore.empty, [], [], []⟩).1).filterMap
          (MetaCall.genID 1 2)).Sorted (· < ·) ∧
        ∀ x ∈ (recreateCalls.zip (runCalls Codecs.binary recreateCalls ⟨MetaStore.empty, [], [], []⟩).1).filterMap
          (MetaCall.genID 1 2), 0 < x ∧ x ≤ v' :=
  have hr : ∀ op ∈ recreateCalls, op.Resets 1 2 = false := by decide
  have hs : ∀ s ∈ recreateCalls.filterMap (MetaCall.genStep 1 2), 0 < s := by decide
  have hb : 0 + (recreateCalls.filterMap (MetaCall.genStep 1 2)).sum ≤ maxInt64 := by decide
  have h := autoIDs_increase Codecs.binary (c := ⟨MetaStore.empty, [], [], []⟩) rfl recreateCalls hr hs hb
  ⟨rfl, hr, hs, hb, h⟩

end Kvrpc
