import Kvrpc.Proof.Registry

/-!
# The global id allocator

`GenGlobalIDs(n)` adds `n` to the counter `nextGlobalID` with `Inc` and then collects the
ids `origID + 1, …, newID` with an `int64` loop `for i := origID + 1; i <= newID; i++`.

* `CounterAt.genGlobalIDs_of_lt`: below `MaxInt64` the loop ends after `n` passes with the
  ids `c + 1, …, c + n`, and the counter is `c + n`.
* `IDCall.run_of_lt`: so a sequence of committed calls hands out exactly the ids
  `c + 1, c + 2, …`, in order: positive, increasing, pairwise distinct, with no gap.
* `genGlobalIDs_never_returns`: when `c + n` is `MaxInt64`, `i <= newID` holds for every
  `int64` `i` and `i++` wraps `MaxInt64` to `MinInt64`, so no number of passes ends the
  loop.
-/

namespace Kvrpc

open Go Tx Meta

/-! ### `int64` arithmetic -/

theorem toInt64_of_nonneg {v : ℤ} (h0 : 0 ≤ v) (h : v ≤ maxInt64) : toInt64 v = v := by
  unfold toInt64 maxInt64 at *
  have hv : v % ((2 ^ 64 : ℕ) : ℤ) = v := Int.emod_eq_of_lt h0 (by norm_num; omega)
  rw [Int.bmod_pos _ _ (by rw [hv]; norm_num; omega), hv]

/-- Every `int64` is at most `MaxInt64`. -/
theorem toInt64_le_maxInt64 (v : ℤ) : toInt64 v ≤ maxInt64 := by
  have := Int.bmod_le (x := v) (m := 2 ^ 64) (by norm_num)
  unfold toInt64 maxInt64
  norm_num at this ⊢
  omega

/-! ### The loop -/

/-- Below `MaxInt64` the loop ends after `k` passes, with the ids from `i` to `newID`. -/
theorem genGlobalIDsLoop_of_lt {newID : ℤ} (hnew : newID < maxInt64) :
    ∀ (k : ℕ) {fuel : ℕ} {i : ℤ} (ids : List ℤ), 0 ≤ i → i + k = newID + 1 → k ≤ fuel →
      genGlobalIDsLoop newID fuel i ids = some (ids ++ (List.range k).map fun j : ℕ => i + j)
  | 0, fuel, i, ids, _, hk, _ => by
    cases fuel <;> simp [genGlobalIDsLoop, show ¬ i ≤ newID by omega]
  | k + 1, fuel + 1, i, ids, hi, hk, hf => by
    rw [genGlobalIDsLoop, if_pos (by omega), toInt64_of_nonneg (by omega) (by omega),
      genGlobalIDsLoop_of_lt hnew k (ids ++ [i]) (by omega) (by push_cast at hk ⊢; omega)
        (by omega), List.range_succ_eq_map]
    simp only [List.map_cons, List.map_map, List.append_assoc, List.singleton_append]
    congr 3
    · simp
    · exact List.map_congr_left fun j _ => by
        simp only [Function.comp, Nat.succ_eq_add_one]; push_cast; ring

/-- At `MaxInt64` the loop condition holds for every `int64`, so the loop never ends. -/
theorem genGlobalIDsLoop_maxInt64 :
    ∀ (fuel : ℕ) (i : ℤ) (ids : List ℤ), i ≤ maxInt64 → genGlobalIDsLoop maxInt64 fuel i ids = none
  | 0, i, ids, h => by simp [genGlobalIDsLoop, h]
  | fuel + 1, i, ids, h => by
    rw [genGlobalIDsLoop, if_pos h]
    exact genGlobalIDsLoop_maxInt64 fuel _ _ (toInt64_le_maxInt64 _)

/-! ### The counter -/

/-- No KV call fails, and the counter `nextGlobalID` reads `c`. -/
structure CounterAt (ctx : Ctx) (c : ℤ) : Prop where
  faults : ctx.faults = []
  read : readCounter (ctx.meta.str nextGlobalIDKey) ctx = (.ok c, ctx)

/-- A counter read leaves the context as it is. -/
theorem readCounter_eq : ∀ (b : Option Bytes) (ctx : Ctx), readCounter b ctx = ((readCounter b ctx).1, ctx)
  | none, _ => rfl
  | some b, ctx => by simp only [readCounter]; cases getInt64 b <;> rfl

/-- `CounterAt` is what `GetGlobalID` reads. -/
theorem counterAt_iff {ctx : Ctx} {c : ℤ} :
    CounterAt ctx c ↔ ctx.faults = [] ∧ (getGlobalID ctx).1 = .ok c := by
  have hg (hf : ctx.faults = []) :
      getGlobalID ctx = readCounter (ctx.meta.str nextGlobalIDKey) ctx := by
    simp [getGlobalID, getInt64Key, hf]
  refine ⟨fun h => ⟨h.faults, by rw [hg h.faults, h.read]⟩, fun ⟨hf, hc⟩ => ⟨hf, ?_⟩⟩
  rw [hg hf] at hc
  rw [readCounter_eq, hc]

section Counter

variable {ctx : Ctx} {c : ℤ}

theorem CounterAt.inc_ok (h : CounterAt ctx c) (step : ℤ) :
    ∃ ctx', inc nextGlobalIDKey step ctx = (.ok (toInt64 (c + step)), ctx') ∧
      CounterAt ctx' (toInt64 (c + step)) := by
  have he : inc nextGlobalIDKey step ctx = (.ok (toInt64 (c + step)), { ctx with meta :=
      { ctx.meta with
        str := (Function.update ctx.meta.str nextGlobalIDKey (some (putInt64 (toInt64 (c + step))))) } }) := by
    simp [inc, h.faults, h.read, modifyMeta]
  exact ⟨_, he, h.faults, by simp [readCounter_putInt64, toInt64_toInt64]⟩

/-- `GenGlobalIDs(n)` leaves the store of its `Inc` and runs its loop from `origID + 1`. -/
theorem CounterAt.genGlobalIDs_loop (h : CounterAt ctx c) (fuel n : ℕ) :
    genGlobalIDs fuel n ctx = (.ok (genGlobalIDsLoop (toInt64 (c + n)) fuel
      (toInt64 (toInt64 (toInt64 (c + n) - n) + 1)) []), (inc nextGlobalIDKey n ctx).2) := by
  obtain ⟨ctx', hi, -⟩ := h.inc_ok n
  simp [Meta.genGlobalIDs, hi, if_neg (show ¬ (n : ℤ) < 0 by omega)]

/-- **`GenGlobalIDs` below `MaxInt64`.** From a counter `c ≥ 0` with `c + n < MaxInt64`,
`n` passes of the loop hand out the ids `c + 1, …, c + n` and leave the counter at
`c + n`. -/
theorem CounterAt.genGlobalIDs_of_lt (h : CounterAt ctx c) (hc : 0 ≤ c) {n : ℕ}
    (hcn : c + n < maxInt64) {fuel : ℕ} (hfuel : n ≤ fuel) :
    genGlobalIDs fuel n ctx =
        (.ok (some ((List.range n).map fun j : ℕ => c + 1 + j)), (inc nextGlobalIDKey n ctx).2) ∧
      CounterAt (inc nextGlobalIDKey n ctx).2 (c + n) := by
  obtain ⟨ctx', hi, h'⟩ := h.inc_ok n
  have hnew : toInt64 (c + n) = c + n := toInt64_of_nonneg (by omega) hcn.le
  refine ⟨?_, by rw [hi, ← hnew]; exact h'⟩
  rw [h.genGlobalIDs_loop, hnew, add_sub_cancel_right, toInt64_of_nonneg hc (by omega),
    toInt64_of_nonneg (by omega) (by omega),
    genGlobalIDsLoop_of_lt hcn n [] (by omega) (by ring) hfuel]
  rfl

end Counter

/-! ### Runs of the allocator -/

section Run

variable {ctx : Ctx} {c : ℤ} {fuel : ℕ}

theorem IDCall.exec_of_lt (h : CounterAt ctx c) (hc : 0 ≤ c) (x : IDCall)
    (hcn : c + x.count < maxInt64) (hfuel : x.count ≤ fuel) :
    ∃ ctx', x.exec fuel ctx = (.ok (some ((List.range x.count).map fun j : ℕ => c + 1 + j)), ctx') ∧
      CounterAt ctx' (c + x.count) := by
  cases x with
  | one =>
    obtain ⟨ctx', hi, h'⟩ := h.inc_ok 1
    have h1 : toInt64 (c + 1) = c + 1 := toInt64_of_nonneg (by omega) (by simpa using hcn.le)
    exact ⟨ctx', by simp [IDCall.exec, genGlobalID, hi, h1, IDCall.count, List.range_succ],
      by simpa [h1] using h'⟩
  | many n => exact ⟨_, h.genGlobalIDs_of_lt hc hcn hfuel⟩

end Run

/-- **`GenGlobalIDs` does not return at the top of the `int64` range.** When the counter
`c` and `n` add up to `MaxInt64`, `Inc` stores `MaxInt64`; every `int64` `i` satisfies
`i <= newID`, and `i++` wraps `MaxInt64` to `MinInt64`, so after any number of passes the
loop is still running. -/
theorem genGlobalIDs_never_returns {ctx : Ctx} (hf : ctx.faults = []) {c : ℤ}
    (hc : (getGlobalID ctx).1 = .ok c) {n : ℕ} (hcn : c + n = maxInt64) (fuel : ℕ) :
    (genGlobalIDs fuel n ctx).1 = .ok none ∧
      (getGlobalID (genGlobalIDs fuel n ctx).2).1 = .ok maxInt64 := by
  have h := counterAt_iff.2 ⟨hf, hc⟩
  obtain ⟨ctx', hi, h'⟩ := h.inc_ok n
  have hmax : toInt64 maxInt64 = maxInt64 := toInt64_of_nonneg (by decide) le_rfl
  rw [hcn, hmax] at h'
  rw [h.genGlobalIDs_loop, hi, hcn, hmax, genGlobalIDsLoop_maxInt64 fuel _ [] (toInt64_le_maxInt64 _)]
  exact ⟨rfl, (counterAt_iff.1 h').2⟩

/-- A meta store whose counter `nextGlobalID` is `MaxInt64 - 1`. -/
def counterNearMax : Ctx :=
  ⟨{ MetaStore.empty with
    str := fun k => if k = nextGlobalIDKey then some (putInt64 (maxInt64 - 1)) else none }, [], [], []⟩

theorem counterNearMax_at : CounterAt counterNearMax (maxInt64 - 1) :=
  ⟨rfl, by
    simp [counterNearMax, readCounter_putInt64, toInt64_of_nonneg (v := maxInt64 - 1)
      (by simp [maxInt64]) (by simp [maxInt64])]⟩

/-- At the counter `MaxInt64 - 1`, `GenGlobalID` returns `MaxInt64`, while
`GenGlobalIDs(1)` stores the same counter and has not returned. -/
theorem genGlobalIDs_never_returns_near_max :
    (genGlobalID counterNearMax).1 = .ok maxInt64 ∧
      (genGlobalIDs 1 1 counterNearMax).1 = .ok none ∧
      (getGlobalID (genGlobalIDs 1 1 counterNearMax).2).1 = .ok maxInt64 := by
  obtain ⟨_, hi, -⟩ := counterNearMax_at.inc_ok 1
  refine ⟨?_, genGlobalIDs_never_returns rfl (counterAt_iff.1 counterNearMax_at).2 (by simp) 1⟩
  rw [genGlobalID, hi, sub_add_cancel, toInt64_of_nonneg (by simp [maxInt64]) le_rfl]

end Kvrpc
