import Kvrpc.Proof.Document

/-!
# `InsertOne` returns each id once

The collection's sequence leases ids from the counter under its key and hands out each id
above those it handed out before, across failed KV calls, `close` (which gives the unused
lease back in memory only) and restarts (which re-create the sequence with nothing
leased). `LeaseInv` says so of a context, against the stored counter `P` and the list `H`
of the ids handed out; every step keeps it.

* `LeaseInv.next`: `Next` hands out an id not in `H` and takes at most one lease.
* `LeaseInv.insertOne`, `LeaseInv.exec`: a successful `InsertOne` returns `int64` of the
  id its `Next` handed out; the other calls keep the sequence and its key
  (`DocCall.exec_keeps`).
* `LeaseInv.close`, `LeaseInv.restart`.
* `LeaseInv.run`: along any events, the ids `InsertOne` returns are, in order, `int64`
  of ids handed out.
* `DocEvent.insertedDid_nodup`: distinct successful `InsertOne` calls return distinct
  ids while the leases stay below `2 ^ 64`. It says nothing of the ids `UpsertOne` takes.
* `IdsIssued.run`: along events with no `UpsertOne`, every document of the map the results
  leave is under an id the sequence handed out (`IdsIssued`), so `InsertOne` returns an id
  the map does not hold; `close` and restarts leave the documents.
* `insertOne_creates`: without `UpsertOne`, every successful `InsertOne` creates a
  document, and the store holds the map, across `close` and restarts.
-/

namespace Kvrpc

open Go DocTx

/-- The collection's sequence against its stored lease `P`, with the ids `H` it has handed
out: the lease is stored as 8 bytes (absent while `P = 0`), every id handed out is in
`(0, P]` and handed out once, and the instance is within the lease, with its next ids above
every id handed out. -/
structure LeaseInv (key : Bytes) (bw P : ℕ) (H : List ℕ) (c : DocCtx) : Prop where
  stored : c.kv key = if P = 0 then none else some (beBytes 8 P)
  handed : ∀ h ∈ H, 0 < h ∧ h ≤ P
  nodup : H.Nodup
  seq : ∀ s, c.seq = some s →
    s.bandwidth = bw ∧ s.next ≤ P ∧ s.leased ≤ P ∧ (s.next < s.leased → ∀ h ∈ H, h ≤ s.next)

variable {key : Bytes} {bw P : ℕ} {H : List ℕ} {c : DocCtx}

/-! ### The lease -/

/-- `int64(v)` tells apart the `uint64` values. -/
theorem toInt64_injOn {a b : ℕ} (ha : a < 2 ^ 64) (hb : b < 2 ^ 64)
    (h : toInt64 a = toInt64 b) : a = b := by
  generalize hm : 2 ^ 64 = m at ha hb
  have hmod : ∀ n : ℕ, n < m → (n : ℤ) % (m : ℤ) = n := fun n hn =>
    Int.emod_eq_of_lt (Int.natCast_nonneg n) (by exact_mod_cast hn)
  have : (a : ℤ) % (m : ℤ) = (b : ℤ) % (m : ℤ) := by
    rw [← Int.bmod_emod, ← @Int.bmod_emod (b : ℤ) m]
    exact congrArg (· % (m : ℤ)) (by simpa only [toInt64, hm] using h)
  exact_mod_cast (hmod a ha).symm.trans (this.trans (hmod b hb))

theorem leaseValue_inv (h : LeaseInv key bw P H c) (hP : P < 2 ^ 64) :
    leaseValue key c = (.ok (if P = 0 then none else some P), c) := by
  unfold leaseValue
  rw [h.stored]
  split_ifs with h0
  · rfl
  · have hP' : P < 256 ^ 8 := by norm_num at hP ⊢; exact hP
    simp only [List.take_of_length_le (le_of_eq (beBytes_length 8 P)), beValue_beBytes,
      Nat.mod_eq_of_lt hP', beBytes_length, lt_irrefl, ↓reduceIte]

/-- The invariant reads the lease key and the sequence only. -/
theorem LeaseInv.congr {c' : DocCtx} (h : LeaseInv key bw P H c) (hk : c'.kv key = c.kv key)
    (hs : c'.seq = c.seq) : LeaseInv key bw P H c' :=
  ⟨hk.trans h.stored, h.handed, h.nodup, hs ▸ h.seq⟩

/-- The outcomes of the KV calls to come do not matter. -/
theorem LeaseInv.faults (h : LeaseInv key bw P H c) (fs : List Bool) :
    LeaseInv key bw P H { c with faults := fs } :=
  h.congr rfl rfl

/-- A sequence with no unused lease keeps the invariant, whatever ids it handed out. -/
theorem LeaseInv.reseat {c' : DocCtx} (h : LeaseInv key bw P H c) (hk : c'.kv key = c.kv key)
    (hs : ∀ s, c'.seq = some s → s.bandwidth = bw ∧ s.next ≤ P ∧ s.leased ≤ s.next) :
    LeaseInv key bw P H c' :=
  ⟨hk.trans h.stored, h.handed, h.nodup, fun s h' => by
    obtain ⟨hb, hn, hl⟩ := hs s h'
    exact ⟨hb, hn, by omega, fun hlt => absurd hlt (by omega)⟩⟩

/-- Handing out `v`, above every id handed out so far, from a lease up to `P'`. -/
theorem LeaseInv.handOut {c' : DocCtx} {P' v : ℕ} {s' : Sequence}
    (hk : c'.kv key = if P' = 0 then none else some (beBytes 8 P')) (hH : ∀ x ∈ H, 0 < x ∧ x < v)
    (hnd : H.Nodup) (hs : c'.seq = some s') (hb : s'.bandwidth = bw) (hv : s'.next = v)
    (hpos : 0 < v) (hl : v ≤ s'.leased) (hP : s'.leased ≤ P') :
    LeaseInv key bw P' (H ++ [v]) c' := by
  refine ⟨hk, fun x hx => ?_, ?_, fun s h' => ?_⟩
  · rcases List.mem_append.1 hx with hx | hx
    · have := hH x hx; omega
    · rw [List.mem_singleton.1 hx]; omega
  · exact hnd.append (List.nodup_singleton v)
      (List.disjoint_singleton.2 fun hm => absurd (hH v hm).2 (lt_irrefl v))
  · cases hs.symm.trans h'
    refine ⟨hb, by omega, hP, fun _ x hx => ?_⟩
    rcases List.mem_append.1 hx with hx | hx
    · have := hH x hx; omega
    · rw [List.mem_singleton.1 hx]; omega

/-- `newCollection` gives a sequence with nothing leased, or none. -/
theorem newCollection_seq {env : DocEnv} {cid : ℤ} {name : String} {s : Sequence}
    (hs : (newCollection env cid name).2 = some s) : s = ⟨env.documentIDBandWidth, 0, 0⟩ := by
  simp only [newCollection, newSequence] at hs
  split_ifs at hs <;> cases hs
  rfl

/-- A fresh collection: no counter under its key, and the sequence `newCollection` gives. -/
theorem LeaseInv.fresh {env : DocEnv} (col : Collection) (hkv : c.kv key = none)
    (hseq : c.seq = (newCollection env col.cid col.name).2) :
    LeaseInv key env.documentIDBandWidth 0 [] c where
  stored := hkv
  handed _ h := absurd h (List.not_mem_nil _)
  nodup := List.nodup_nil
  seq s hs := by
    cases newCollection_seq (hseq ▸ hs)
    exact ⟨rfl, le_rfl, le_rfl, fun h => absurd h (lt_irrefl 0)⟩

/-- A restart re-creates the sequence with nothing leased. -/
theorem LeaseInv.restart {env : DocEnv} (h : LeaseInv key env.documentIDBandWidth P H c)
    (col : Collection) :
    LeaseInv key env.documentIDBandWidth P H { c with seq := (newCollection env col.cid col.name).2 } :=
  h.reseat rfl fun s (hs : (newCollection env col.cid col.name).2 = some s) => by
    cases newCollection_seq hs
    exact ⟨rfl, Nat.zero_le _, le_rfl⟩

/-- **`Next` hands out a new id.** When it returns `v`, `v` was not handed out before and
the counter grew by at most one lease; when it fails, the invariant holds as it was. -/
theorem LeaseInv.next (h : LeaseInv key bw P H c) (hbw : 0 < bw) (hP : P + bw < 2 ^ 64) :
    match Sequence.Next key c with
    | (.ok v, c') => ∃ P', P' ≤ P + bw ∧ v ∉ H ∧ LeaseInv key bw P' (H ++ [v]) c'
    | (_, c') => LeaseInv key bw P H c' := by
  unfold Sequence.Next
  rcases hs : c.seq with _ | s
  · simpa [hs] using h
  obtain ⟨hb, hn, hl, hH⟩ := h.seq s hs
  simp only [bind_apply, getCtx_apply, hs, deref_some, pure_apply]
  by_cases hle : s.leased ≤ s.next
  · have hval := leaseValue_inv (show LeaseInv key bw P H c.pop from h.congr rfl rfl) (by omega)
    have hget : (if P = 0 then none else some P).getD 0 = P := by split_ifs <;> simp [*]
    simp only [hle, ↓reduceIte, bind_apply, outcome_apply]
    cases hg : c.faults.headD true
    · simp only [hg, Bool.false_eq_true, ↓reduceIte, pure_apply, updateLease, Bool.not_false,
        modifyCtx_apply, throw_apply]
      exact h.reseat rfl (by simp only [Option.some.injEq]; rintro _ rfl; exact ⟨hb, hn, hle⟩)
    · simp only [↓reduceIte, hval, outcome_apply, Bool.true_and]
      have hfail : ∀ c' : DocCtx, c'.kv = c.kv → c'.seq = some { s with next := P } →
          LeaseInv key bw P H c' := fun c' hk hs' =>
        h.reseat (by rw [hk]) (by rw [hs']; rintro _ ⟨⟩; exact ⟨hb, le_rfl, hl⟩)
      cases hs2 : c.pop.faults.headD true
      · simp only [Bool.false_eq_true, ↓reduceIte, pure_apply, updateLease, Bool.not_true,
          Bool.not_false, hget, modifyCtx_apply, throw_apply, bind_apply]
        exact hfail _ rfl rfl
      · simp only [↓reduceIte, outcome_apply]
        cases hc : c.pop.pop.faults.headD true
        · simp only [updateLease, Bool.not_true, Bool.false_eq_true, ↓reduceIte, Bool.false_and,
            hget, modifyCtx_apply, throw_apply, bind_apply]
          exact hfail _ rfl rfl
        · have hw : wrap64 (P + bw) = P + bw := Nat.mod_eq_of_lt hP
          simp only [updateLease, Bool.not_true, Bool.false_eq_true, ↓reduceIte, Bool.true_and,
            beq_self_eq_true, hget, hb, hw, modifyCtx_apply, pure_apply, bind_apply]
          have hv : (Sequence.bump ⟨bw, P, P + bw⟩).next = P + 1 :=
            show (P + 1) % 2 ^ 64 = P + 1 from Nat.mod_eq_of_lt (by omega)
          have hH' : ∀ x ∈ H, 0 < x ∧ x < P + 1 := fun x hx =>
            ⟨(h.handed x hx).1, Nat.lt_succ_of_le (h.handed x hx).2⟩
          rw [hv]
          exact ⟨P + bw, le_rfl, fun hm => absurd (hH' _ hm).2 (lt_irrefl _),
            LeaseInv.handOut (by simp; omega) hH' h.nodup rfl rfl hv (by omega)
              (by simp [Sequence.bump]; omega) le_rfl⟩
  · have hv : s.bump.next = s.next + 1 := by
      simp only [Sequence.bump, wrap64]; exact Nat.mod_eq_of_lt (by omega)
    simp only [hle, ↓reduceIte, bind_apply, modifyCtx_apply, pure_apply, hv]
    have hH' : ∀ x ∈ H, 0 < x ∧ x < s.next + 1 := fun x hx =>
      ⟨(h.handed x hx).1, Nat.lt_succ_of_le (hH (by omega) x hx)⟩
    exact ⟨P, by omega, fun hm => absurd (hH' _ hm).2 (lt_irrefl _),
      LeaseInv.handOut h.stored hH' h.nodup rfl hb hv (by omega) (by simp [Sequence.bump]; omega) hl⟩

/-- `close` gives the unused lease back in memory only: the invariant holds after it. -/
theorem LeaseInv.close (h : LeaseInv key bw P H c) : LeaseInv key bw P H (Collection.close c).2 := by
  simp only [Collection.close, Sequence.ReleaseRemaining, attempt, bind_apply, getCtx_apply]
  rcases hs : c.seq with _ | s
  · exact h
  obtain ⟨hb, hn, hl, -⟩ := h.seq s hs
  simp only [deref_some, pure_apply]
  by_cases he : s.leased = s.next
  · simp only [he, ↓reduceIte, pure_apply, releaseRemaining, modifyCtx_apply]
    exact h.reseat rfl (by rintro _ ⟨⟩; exact ⟨hb, hn, he.le⟩)
  · cases hg : c.faults.headD true <;>
      simp only [he, hg, ↓reduceIte, outcome_apply, releaseRemaining, Bool.not_false,
        Bool.not_true, Bool.false_eq_true, throw_apply, modifyCtx_apply]
    · exact h.congr rfl rfl
    · exact h.reseat rfl (by rintro _ ⟨⟩; exact ⟨hb, hn, le_rfl⟩)

/-! ### The other calls -/

/-- `c'` keeps the sequence of `c` and its store under `key`. -/
structure DocCtx.SeqFrame (key : Bytes) (c c' : DocCtx) : Prop where
  kv : c'.kv key = c.kv key
  seq : c'.seq = c.seq


namespace DocCtx.SeqFrame

instance : IsRefl DocCtx (SeqFrame key) := ⟨fun _ => ⟨rfl, rfl⟩⟩

theorem comp {c c' c'' : DocCtx} (h : SeqFrame key c c') (h' : SeqFrame key c' c'') :
    SeqFrame key c c'' :=
  ⟨h'.kv.trans h.kv, h'.seq.trans h.seq⟩

instance : IsTrans DocCtx (SeqFrame key) := ⟨fun _ _ _ => comp⟩

theorem pop (c : DocCtx) : SeqFrame key c c.pop := ⟨rfl, rfl⟩

end DocCtx.SeqFrame

open DocCtx (SeqFrame)

section Calls

variable {D : Type} (bson : Codec D) (env : DocEnv) (col : Collection)

theorem updateOne_keeps (hk : ∀ did, col.docKey env did ≠ key) (did : ℤ) (d : D) (u : Bool) :
    Moves (SeqFrame key) (col.updateOne bson env did d u false) := fun c => by
  simp only [Collection.updateOne, bind_apply]
  rcases prologue_cases c with ⟨hp, -⟩ | ⟨e, hp, -⟩ <;> simp only [hp]
  · simp only [begin_apply, txnExists, bind_apply, pure_apply, Bool.false_eq_true, ↓reduceIte]
    rcases call_cases c with h2 | h2 <;> simp only [h2]
    · split_ifs
      · exact SeqFrame.pop c
      · simp only [txnSet, finish, commit, bind_apply, Bool.false_eq_true, ↓reduceIte]
        rcases call_cases c.pop with h3 | h3 <;> simp only [h3, pure_apply]
        · rcases call_cases c.pop.pop with h4 | h4 <;> simp only [h4, modifyCtx_apply, pure_apply]
          · exact ⟨Function.update_noteq (hk did).symm _ _, rfl⟩
          · exact ⟨rfl, rfl⟩
        · exact ⟨rfl, rfl⟩
    · exact SeqFrame.pop c
  · exact refl c

theorem deleteOne_keeps (hk : ∀ did, col.docKey env did ≠ key) (did : ℤ) :
    Moves (SeqFrame key) (col.DeleteOne env did false) := fun c => by
  simp only [Collection.DeleteOne, bind_apply]
  rcases prologue_cases c with ⟨hp, -⟩ | ⟨e, hp, -⟩ <;> simp only [hp]
  · simp only [begin_apply, txnDelete, finish, commit, bind_apply, pure_apply, Bool.false_eq_true,
      ↓reduceIte]
    rcases call_cases c with h2 | h2 <;> simp only [h2]
    · rcases call_cases c.pop with h3 | h3 <;> simp only [h3, modifyCtx_apply]
      · exact ⟨Function.update_noteq (hk did).symm _ _, rfl⟩
      · exact ⟨rfl, rfl⟩
    · exact SeqFrame.pop c
  · exact refl c

/-- Every call but `InsertOne` keeps the sequence and its key. -/
theorem DocCall.exec_keeps (hk : ∀ did, col.docKey env did ≠ key) (dc : DocCall D)
    (hdc : ∀ d, dc ≠ .insertOne d) : Moves (SeqFrame key) (dc.exec bson env col) := by
  cases dc with
  | insertOne d => exact absurd rfl (hdc d)
  | updateOne i d =>
    exact .bind (.bind (updateOne_keeps bson env col hk i d false) fun _ => .pure' _) fun _ => .pure' _
  | upsertOne i d =>
    exact .bind (.bind (updateOne_keeps bson env col hk i d true) fun _ => .pure' _) fun _ => .pure' _
  | deleteOne i => exact .bind (deleteOne_keeps env col hk i) fun _ => .pure' _
  | getOne i => exact .bind (GetOne_moves_of_pop bson env col SeqFrame.pop i) fun _ => .pure' _
  | getMany is =>
    exact .bind (GetMany_moves_of_pop bson env col SeqFrame.pop is) fun _ => .pure' _

/-! ### Runs -/

variable (hsep : ∀ did, col.docKey env did ≠ env.sequenceKey col.name) (hbw : 0 < bw)
include hsep hbw

/-- `InsertOne` on the invariant: a successful call returns `int64` of an id it adds to
those handed out. -/
theorem LeaseInv.insertOne (h : LeaseInv (env.sequenceKey col.name) bw P H c)
    (hP : P + bw < 2 ^ 64) (d : D) :
    match col.InsertOne bson env d false c with
    | (.ok i, c') => ∃ (P' v : ℕ), P' ≤ P + bw ∧ i = toInt64 v ∧
        LeaseInv (env.sequenceKey col.name) bw P' (H ++ [v]) c'
    | (_, c') => ∃ P' H', P' ≤ P + bw ∧ LeaseInv (env.sequenceKey col.name) bw P' (H ++ H') c' := by
  simp only [Collection.InsertOne, bind_apply]
  rcases prologue_cases c with ⟨hp, -⟩ | ⟨e, hp, -⟩ <;> simp only [hp]
  · have hn := h.next hbw hP
    rcases hN : Sequence.Next (env.sequenceKey col.name) c with ⟨_ | _ | _, c1⟩ <;> rw [hN] at hn
    · obtain ⟨P', hP', -, h1⟩ := hn
      simp only [begin_apply, txnSet, finish, commit, bind_apply, pure_apply, Bool.false_eq_true,
        ↓reduceIte]
      rcases call_cases c1 with h2 | h2 <;> simp only [h2]
      · rcases call_cases c1.pop with h3 | h3 <;> simp only [h3, modifyCtx_apply, pure_apply]
        · exact ⟨P', _, hP', rfl, h1.congr (Function.update_noteq (hsep _).symm _ _) rfl⟩
        · exact ⟨P', _, hP', h1.congr rfl rfl⟩
      · exact ⟨P', _, hP', h1.congr rfl rfl⟩
    · exact ⟨P, [], by omega, by simpa using hn⟩
    · exact ⟨P, [], by omega, by simpa using hn⟩
  · exact ⟨P, [], by omega, by simpa using h⟩

/-- One call on the invariant: the ids handed out grow by those it takes, and the id it
returns is one of them. -/
theorem LeaseInv.exec (h : LeaseInv (env.sequenceKey col.name) bw P H c) (hP : P + bw < 2 ^ 64)
    (dc : DocCall D) :
    ∃ P' H', P' ≤ P + bw ∧
      LeaseInv (env.sequenceKey col.name) bw P' (H ++ H') (dc.exec bson env col c).2 ∧
      (DocEvent.insertedDid (dc, (dc.exec bson env col c).1)).toList.Sublist
        (H'.map fun v : ℕ => toInt64 v) := by
  by_cases hdc : ∀ d, dc ≠ .insertOne d
  · have k := DocCall.exec_keeps bson env col hsep dc hdc c
    refine ⟨P, [], by omega, by simpa using h.congr k.kv k.seq, ?_⟩
    cases dc <;> first | exact absurd rfl (hdc _) | exact List.Sublist.slnil
  obtain ⟨d, rfl⟩ := not_forall_not.1 hdc
  have hi := h.insertOne bson env col hsep hbw hP d
  simp only [DocCall.exec, bind_apply]
  rcases hI : col.InsertOne bson env d false c with ⟨_ | _ | _, c'⟩ <;> rw [hI] at hi
  · obtain ⟨P', v, hP', hv, h'⟩ := hi
    exact ⟨P', [v], hP', h', by simp only [DocEvent.insertedDid, hv]; rfl⟩
  all_goals
    obtain ⟨P', H', hP', h'⟩ := hi
    exact ⟨P', H', hP', h', List.nil_sublist _⟩

/-- A run of events on the invariant: each takes at most one lease, and the ids that
`InsertOne` returns are, in order, `int64` of ids it handed out. -/
theorem LeaseInv.run (hb : env.documentIDBandWidth = bw) (es : List (DocEvent D)) :
    ∀ {P H c}, LeaseInv (env.sequenceKey col.name) bw P H c → P + bw * es.length < 2 ^ 64 →
      ∃ P' H', P' ≤ P + bw * es.length ∧
        LeaseInv (env.sequenceKey col.name) bw P' (H ++ H') (DocEvent.run bson env col c es).2 ∧
        ((DocEvent.run bson env col c es).1.filterMap DocEvent.insertedDid).Sublist
          (H'.map fun v : ℕ => toInt64 v) := by
  subst hb
  induction es with
  | nil => intro P H c h _; exact ⟨P, [], by simp, by simpa using h, List.Sublist.slnil⟩
  | cons e es ih =>
    intro P H c h hP
    rw [List.length_cons, Nat.mul_succ] at hP ⊢
    cases e with
    | call dc fs =>
      obtain ⟨P1, H1, hP1, h1, hs1⟩ := (h.faults fs).exec bson env col hsep hbw (by omega) dc
      obtain ⟨P2, H2, hP2, h2, hs2⟩ := ih h1 (by omega)
      refine ⟨P2, H1 ++ H2, by omega, by simpa using h2, ?_⟩
      simp only [DocEvent.run, List.filterMap_cons, List.map_append]
      cases hx : DocEvent.insertedDid (dc, (dc.exec bson env col { c with faults := fs }).1) <;>
        rw [hx] at hs1
      · exact hs2.trans (List.sublist_append_right _ _)
      · exact hs1.append hs2
    | close fs =>
      obtain ⟨P2, H2, hP2, h2, hs2⟩ := ih (h.faults fs).close (by omega)
      exact ⟨P2, H2, by omega, h2, hs2⟩
    | restart =>
      obtain ⟨P2, H2, hP2, h2, hs2⟩ := ih (h.restart col) (by omega)
      exact ⟨P2, H2, by omega, h2, hs2⟩

end Calls

/-- **Distinct successful `InsertOne` calls return distinct ids.** From a collection whose
sequence keeps its invariant, with nothing handed out yet (a fresh one does,
`LeaseInv.fresh`), along any events (calls with any dids and any KV failures, `close`,
restarts), as long as the leases stay below `2 ^ 64`. -/
theorem DocEvent.insertedDid_nodup {D : Type} (bson : Codec D) (env : DocEnv) (col : Collection)
    (hsep : ∀ did, col.docKey env did ≠ env.sequenceKey col.name) (hbw : 0 < env.documentIDBandWidth)
    {P : ℕ} {c : DocCtx} (h : LeaseInv (env.sequenceKey col.name) env.documentIDBandWidth P [] c)
    (es : List (DocEvent D)) (hP : P + env.documentIDBandWidth * es.length < 2 ^ 64) :
    ((DocEvent.run bson env col c es).1.filterMap DocEvent.insertedDid).Nodup := by
  obtain ⟨P', H', hP', h', hs⟩ := LeaseInv.run bson env col hsep hbw rfl es h hP
  rw [List.nil_append] at h'
  have hlt : ∀ a ∈ H', a < 2 ^ 64 := fun a ha => by have := (h'.handed a ha).2; omega
  exact hs.nodup (h'.nodup.map_on fun a ha b hb => toInt64_injOn (hlt a ha) (hlt b hb))

/-- Inserts around a restart, a close and another restart. -/
def restartEvents : List (DocEvent ℤ) :=
  [.call (.insertOne 5) [], .restart, .call (.insertOne 7) [], .close [], .restart,
    .call (.insertOne 9) []]

theorem DocEvent.insertedDid_nodup_restarts :
    (∀ did, (⟨1, "c"⟩ : Collection).docKey intDocEnv did ≠ intDocEnv.sequenceKey "c") ∧
      0 < intDocEnv.documentIDBandWidth ∧
      LeaseInv (intDocEnv.sequenceKey "c") intDocEnv.documentIDBandWidth 0 [] emptyDocCtx ∧
      0 + intDocEnv.documentIDBandWidth * restartEvents.length < 2 ^ 64 ∧
      ((DocEvent.run (Codec.ofEncodable ℤ) intDocEnv ⟨1, "c"⟩ emptyDocCtx restartEvents).1.filterMap
        DocEvent.insertedDid).Nodup := by
  have hsep : ∀ did, (⟨1, "c"⟩ : Collection).docKey intDocEnv did ≠ intDocEnv.sequenceKey "c" :=
    fun _ => List.cons_ne_nil _ _
  have h : LeaseInv (intDocEnv.sequenceKey "c") intDocEnv.documentIDBandWidth 0 [] emptyDocCtx :=
    LeaseInv.fresh ⟨1, "c"⟩ rfl rfl
  have hP : 0 + intDocEnv.documentIDBandWidth * restartEvents.length < 2 ^ 64 := by decide
  exact ⟨hsep, by decide, h, hP, DocEvent.insertedDid_nodup _ _ _ hsep (by decide) h _ hP⟩

/-- The ids: a restart starts a new lease after the one stored. -/
example : (DocEvent.run (Codec.ofEncodable ℤ) intDocEnv ⟨1, "c"⟩ emptyDocCtx restartEvents).1.filterMap
    DocEvent.insertedDid = [1, 101, 201] := by
  decide


/-! ### Without `UpsertOne`, `InsertOne` only creates -/

section Creates

variable {D : Type} {bson : Codec D} {env : DocEnv} {col : Collection} {M : ℤ → Option D}
  {H H' : List ℕ}

/-- `close` changes the sequence only. -/
theorem Collection.close_kv (c : DocCtx) : (Collection.close c).2.kv = c.kv := by
  have hm : Moves (DocCtx.Frame fun _ => False) Collection.close := by
    unfold Collection.close Sequence.ReleaseRemaining
    refine .bind (.attempt' (.bind getCtx_moves fun _ => .bind (.deref' _) fun _ =>
      .bind (.ite' (.pure' _) outcome_moves) fun _ => ?_)) fun _ => .pure' _
    split
    · exact fun _ => ⟨fun _ _ => rfl, rfl, rfl⟩
    · exact .throw' _
  exact funext fun k => (hm c).kv k id

/-- Every document of `M` is under `int64` of an id in `H`. -/
def IdsIssued (M : ℤ → Option D) (H : List ℕ) : Prop :=
  ∀ i, (M i).isSome → ∃ w ∈ H, toInt64 w = i

theorem IdsIssued.mono (h : IdsIssued M H) : IdsIssued M (H ++ H') := fun i hi =>
  let ⟨w, hw, e⟩ := h i hi
  ⟨w, List.mem_append_left _ hw, e⟩

theorem IdsIssued.update (h : IdsIssued M H) {i : ℤ} {d : Option D}
    (hd : d.isSome → ∃ w ∈ H, toInt64 w = i) : IdsIssued (Function.update M i d) H := fun j hj => by
  by_cases hji : j = i
  · subst hji; exact hd (by simpa using hj)
  · exact h j (by simpa [Function.update_noteq hji] using hj)

/-- A call other than `UpsertOne` adds a document only under the id its `InsertOne`
returns. -/
theorem IdsIssued.apply (h : IdsIssued M H) {call : DocCall D}
    (hup : ∀ i d, call ≠ .upsertOne i d) {r : Res (DocRet D)} (hc : call.Consistent M r)
    (hi : ∀ i, DocEvent.insertedDid (call, r) = some i → ∃ w ∈ H', toInt64 w = i) :
    IdsIssued (call.apply M r) (H ++ H') := by
  cases call with
  | insertOne d =>
    rcases r with ((i | _ | _ | _ | _ | _) | _ | _)
    · exact h.mono.update fun _ =>
        let ⟨w, hw, e⟩ := hi i rfl
        ⟨w, List.mem_append_right _ hw, e⟩
    all_goals exact h.mono
  | updateOne i d =>
    rcases r with ((_ | (_ | _) | _ | _ | _ | _) | _ | _)
    case ok.updated.true =>
      have hs : (M i).isSome = true := by simpa [DocCall.Consistent] using hc.symm
      exact h.mono.update fun _ => h.mono i hs
    all_goals exact h.mono
  | upsertOne i d => exact absurd rfl (hup i d)
  | deleteOne i =>
    rcases r with ((_ | _ | _ | _ | _ | _) | _ | _)
    case ok.deleted => exact h.mono.update fun hd => absurd hd (by simp)
    all_goals exact h.mono
  | getOne i => rcases r with ((_ | _ | _ | _ | _ | _) | _ | _) <;> exact h.mono
  | getMany is => rcases r with ((_ | _ | _ | _ | _ | _) | _ | _) <;> exact h.mono

/-- An id handed out after those of `H`, all below `2 ^ 64`, is under no document of `M`. -/
theorem IdsIssued.fresh (h : IdsIssued M H) (hnd : (H ++ H').Nodup)
    (hlt : ∀ x ∈ H ++ H', x < 2 ^ 64) {v : ℕ} (hv : v ∈ H') : M (toInt64 v) = none := by
  cases hm : M (toInt64 v) with
  | none => rfl
  | some _ =>
    obtain ⟨w, hw, e⟩ := h (toInt64 v) (by simp [hm])
    have hwv := toInt64_injOn (hlt w (List.mem_append_left _ hw)) (hlt v (List.mem_append_right _ hv)) e
    exact absurd hv ((List.nodup_append.1 hnd).2.2 (hwv ▸ hw))

variable (hinj : ∀ a b, col.docKey env a = col.docKey env b → a = b)
  (hsep : ∀ did, col.docKey env did ≠ env.sequenceKey col.name) (hbw : 0 < bw)
include hinj hsep hbw

/-- One call other than `UpsertOne`: the store holds the map its result gives, whose
documents are under ids handed out, and an id its `InsertOne` returns is not in the map. -/
theorem IdsIssued.exec (h : LeaseInv (env.sequenceKey col.name) bw P H c) (hP : P + bw < 2 ^ 64)
    (hM : Stores bson env col c.kv M) (hI : IdsIssued M H) (dc : DocCall D)
    (hup : ∀ i d, dc ≠ .upsertOne i d) :
    ∃ P' H', P' ≤ P + bw ∧
      LeaseInv (env.sequenceKey col.name) bw P' (H ++ H') (dc.exec bson env col c).2 ∧
      Stores bson env col (dc.exec bson env col c).2.kv (dc.apply M (dc.exec bson env col c).1) ∧
      IdsIssued (dc.apply M (dc.exec bson env col c).1) (H ++ H') ∧
      ∀ i, DocEvent.insertedDid (dc, (dc.exec bson env col c).1) = some i → M i = none := by
  obtain ⟨P', H', hP', h', hs⟩ := h.exec bson env col hsep hbw hP dc
  have hr := DocCall.execWith_refines hinj hsep (p := false) hM dc
  rw [← DocCall.exec_eq_execWith] at hr
  have hins : ∀ i, DocEvent.insertedDid (dc, (dc.exec bson env col c).1) = some i →
      ∃ v ∈ H', toInt64 v = i := fun i hi =>
    List.mem_map.1 (hs.subset (by simp [hi]))
  have hlt : ∀ x ∈ H ++ H', x < 2 ^ 64 := fun x hx => by have := (h'.handed x hx).2; omega
  refine ⟨P', H', hP', h', hr.2, hI.apply hup hr.1 hins, fun i hi => ?_⟩
  obtain ⟨v, hv, rfl⟩ := hins i hi
  exact hI.fresh h'.nodup hlt hv

/-- Each successful `InsertOne` of the results `rs`, replayed from the map `M`, returns an
id under which the map before it holds no document. -/
def DocCall.InsertsFresh : (ℤ → Option D) → List (DocCall D × Res (DocRet D)) → Prop
  | _, [] => True
  | M, (call, r) :: rs => (∀ i, DocEvent.insertedDid (call, r) = some i → M i = none) ∧
      InsertsFresh (call.apply M r) rs

omit hinj hsep hbw in
theorem DocEvent.run_call (c : DocCtx) (dc : DocCall D) (fs : List Bool) (es : List (DocEvent D)) :
    DocEvent.run bson env col c (.call dc fs :: es) =
      ((dc, (dc.exec bson env col { c with faults := fs }).1) ::
        (DocEvent.run bson env col (dc.exec bson env col { c with faults := fs }).2 es).1,
        (DocEvent.run bson env col (dc.exec bson env col { c with faults := fs }).2 es).2) := rfl

/-- Along events with no `UpsertOne`, from a store holding `M` whose documents are under
ids handed out: the results insert only under ids `M` does not hold at that point, and the
store holds the map they leave. -/
theorem IdsIssued.run (hb : env.documentIDBandWidth = bw) (es : List (DocEvent D))
    (hno : ∀ i d fs, DocEvent.call (.upsertOne i d) fs ∉ es) :
    ∀ {P H c M}, LeaseInv (env.sequenceKey col.name) bw P H c → Stores bson env col c.kv M →
      IdsIssued M H → P + bw * es.length < 2 ^ 64 →
      DocCall.InsertsFresh M (DocEvent.run bson env col c es).1 ∧
        Stores bson env col (DocEvent.run bson env col c es).2.kv
          (DocCall.replay M ((DocEvent.run bson env col c es).1.map Prod.fst)
            ((DocEvent.run bson env col c es).1.map Prod.snd)) := by
  subst hb
  induction es with
  | nil => exact fun _ hM _ _ => ⟨trivial, hM⟩
  | cons e es ih =>
    intro P H c M h hM hI hP
    have hno' : ∀ i d fs, DocEvent.call (.upsertOne i d) fs ∉ es :=
      fun i d fs hm => hno i d fs (List.mem_cons_of_mem _ hm)
    rw [List.length_cons, Nat.mul_succ] at hP
    cases e with
    | call dc fs =>
      have hup : ∀ i d, dc ≠ .upsertOne i d := by
        rintro i d rfl; exact hno i d fs (List.mem_cons_self _ _)
      obtain ⟨P1, H1, hP1, h1, hM1, hI1, hf⟩ :=
        IdsIssued.exec hinj hsep hbw (h.faults fs) (by omega) hM hI dc hup
      obtain ⟨ih1, ih2⟩ := ih hno' h1 hM1 hI1 (by omega)
      rw [DocEvent.run_call]
      exact ⟨⟨hf, ih1⟩, ih2⟩
    | close fs =>
      exact ih hno' (h.faults fs).close (hM.congr fun _ => congrFun (Collection.close_kv _) _) hI
        (by omega)
    | restart => exact ih hno' (h.restart col) hM hI (by omega)

end Creates

/-- **Without `UpsertOne`, `InsertOne` only creates.** Take a collection with no document
and a sequence that has handed out nothing (a fresh one, `LeaseInv.fresh`), and any events
with no `UpsertOne` call: calls with any dids and any KV failures, `close`, restarts, while
the leases stay below `2 ^ 64`. Every successful `InsertOne` returns an id under which the
map, replayed from the empty one over the results before it, holds no document, and after
the events the store holds the map the results leave. `UpsertOne`, which takes any id, is
what lets an insert overwrite. -/
theorem insertOne_creates {D : Type} (bson : Codec D) (env : DocEnv) (col : Collection)
    (hinj : ∀ a b, col.docKey env a = col.docKey env b → a = b)
    (hsep : ∀ did, col.docKey env did ≠ env.sequenceKey col.name) (hbw : 0 < env.documentIDBandWidth)
    {P : ℕ} {c : DocCtx} (h : LeaseInv (env.sequenceKey col.name) env.documentIDBandWidth P [] c)
    (hempty : ∀ did, c.kv (col.docKey env did) = none) (es : List (DocEvent D))
    (hno : ∀ i d fs, DocEvent.call (.upsertOne i d) fs ∉ es)
    (hP : P + env.documentIDBandWidth * es.length < 2 ^ 64) :
    DocCall.InsertsFresh (fun _ => none) (DocEvent.run bson env col c es).1 ∧
      Stores bson env col (DocEvent.run bson env col c es).2.kv
        (DocCall.replay (fun _ => none) ((DocEvent.run bson env col c es).1.map Prod.fst)
          ((DocEvent.run bson env col c es).1.map Prod.snd)) :=
  IdsIssued.run hinj hsep hbw rfl es hno h hempty (fun _ h => nomatch h) hP

theorem insertOne_creates_restarts :
    (∀ a b, (⟨1, "c"⟩ : Collection).docKey intDocEnv a = (⟨1, "c"⟩ : Collection).docKey intDocEnv b →
        a = b) ∧
      (∀ did, (⟨1, "c"⟩ : Collection).docKey intDocEnv did ≠ intDocEnv.sequenceKey "c") ∧
      0 < intDocEnv.documentIDBandWidth ∧
      LeaseInv (intDocEnv.sequenceKey "c") intDocEnv.documentIDBandWidth 0 [] emptyDocCtx ∧
      (∀ did, emptyDocCtx.kv ((⟨1, "c"⟩ : Collection).docKey intDocEnv did) = none) ∧
      (∀ i d fs, DocEvent.call (.upsertOne i d) fs ∉ restartEvents) ∧
      0 + intDocEnv.documentIDBandWidth * restartEvents.length < 2 ^ 64 ∧
      (DocCall.InsertsFresh (fun _ => none)
          (DocEvent.run (Codec.ofEncodable ℤ) intDocEnv ⟨1, "c"⟩ emptyDocCtx restartEvents).1 ∧
        Stores (Codec.ofEncodable ℤ) intDocEnv ⟨1, "c"⟩
          (DocEvent.run (Codec.ofEncodable ℤ) intDocEnv ⟨1, "c"⟩ emptyDocCtx restartEvents).2.kv
          (DocCall.replay (fun _ => none)
            ((DocEvent.run (Codec.ofEncodable ℤ) intDocEnv ⟨1, "c"⟩ emptyDocCtx restartEvents).1.map
              Prod.fst)
            ((DocEvent.run (Codec.ofEncodable ℤ) intDocEnv ⟨1, "c"⟩ emptyDocCtx restartEvents).1.map
              Prod.snd))) := by
  have hsep : ∀ did, (⟨1, "c"⟩ : Collection).docKey intDocEnv did ≠ intDocEnv.sequenceKey "c" :=
    fun _ => List.cons_ne_nil _ _
  have h : LeaseInv (intDocEnv.sequenceKey "c") intDocEnv.documentIDBandWidth 0 [] emptyDocCtx :=
    LeaseInv.fresh ⟨1, "c"⟩ rfl rfl
  have hno : ∀ i d fs, DocEvent.call (.upsertOne i d) fs ∉ restartEvents := by
    intro i d fs hm; simp [restartEvents] at hm
  have hP : 0 + intDocEnv.documentIDBandWidth * restartEvents.length < 2 ^ 64 := by decide
  exact ⟨intDocEnv_docKey_inj _, hsep, by decide, h, fun _ => rfl, hno, hP,
    insertOne_creates _ _ _ (intDocEnv_docKey_inj _) hsep (by decide) h (fun _ => rfl) _ hno hP⟩

end Kvrpc
