import Kvrpc.Proof.Registered
import Kvrpc.Proof.GlobalID

/-!
# Schema diffs are an append-only log

`updateSchemaVersion` bumps the schema version with `GenSchemaVersion` (an `Inc`) and then
records the `SchemaDiff` of the new version with `SetSchemaDiff`, which keeps one diff per
version. The worker calls it at most once per iteration, inside `onCreateSchema`, and
nothing else it does reaches the version or the diffs. So while the version stays below
`MaxInt64`, each new diff has a version above every recorded one: no diff is ever replaced,
and the diffs are recorded in increasing order of version.

* `counterOf`: what `readCounter` reads from a key.
* `VersionStep`: at most one bump of the version, and at most one diff, of the new version.
  `runJob` moves along it (`runJob_version`), and so does an iteration
  (`DdlWorld.iterate_version`), which runs `runJob` at most once.
* `VersionsBelow`: the store reads the version `v`, and its diffs have versions at most `v`.
  Below `MaxInt64` a step keeps it at `v`, or at `v + 1` with at most the diff of `v + 1`
  appended (`VersionsBelow.step`).
* `schemaDiffs_append_only`: along any events, fewer than `MaxInt64` less the version, the
  diffs recorded stay, in order, followed by new diffs of increasing versions.
-/

namespace Kvrpc

open Go Tx Meta

/-! ### `int64` counters -/

/-- The counter a key holds, as `readCounter` decodes it: `0` when the key is absent, and
`none` when its bytes are too few (the read panics). -/
def counterOf : Option Bytes → Option ℤ
  | none => some 0
  | some b => getInt64 b

theorem readCounter_eq_counterOf (b : Option Bytes) (c : Ctx) :
    readCounter b c = ((counterOf b).elim .panic .ok, c) := by
  cases b with
  | none => rfl
  | some b => simp only [readCounter, counterOf]; cases getInt64 b <;> rfl

theorem counterOf_putInt64 (v : ℤ) : counterOf (some (putInt64 v)) = some (toInt64 v) :=
  getInt64_putInt64 v

/-- Every `int64` is at least `MinInt64`. -/
theorem neg_le_toInt64 (v : ℤ) : -2 ^ 63 ≤ toInt64 v := by
  have := Int.le_bmod (x := v) (m := 2 ^ 64) (by norm_num)
  unfold toInt64
  norm_num at this ⊢
  omega

/-- `toInt64` keeps an `int64`. -/
theorem toInt64_eq_self {v : ℤ} (h0 : -2 ^ 63 ≤ v) (h : v ≤ maxInt64) : toInt64 v = v := by
  rcases le_or_lt 0 v with hv | hv
  · exact toInt64_of_nonneg hv h
  · have he : v % ((2 ^ 64 : ℕ) : ℤ) = v + ((2 ^ 64 : ℕ) : ℤ) := by
      rw [← Int.add_emod_self]
      exact Int.emod_eq_of_lt (by push_cast; omega) (by push_cast; omega)
    unfold toInt64
    rw [Int.bmod_neg _ _ (by rw [he]; push_cast; omega), he]
    ring

/-- A counter read is an `int64`. -/
theorem counterOf_bounds {b : Option Bytes} {v : ℤ} (h : counterOf b = some v) :
    -2 ^ 63 ≤ v ∧ v ≤ maxInt64 := by
  cases b with
  | none =>
    cases h
    norm_num [maxInt64]
  | some b =>
    simp only [counterOf, getInt64] at h
    split_ifs at h
    obtain rfl := Option.some.inj h
    exact ⟨neg_le_toInt64 _, toInt64_le_maxInt64 _⟩

/-! ### The version and the diffs -/

/-- `m'` has the schema version and the diffs of `m`. -/
def VersionSame (m m' : MetaStore) : Prop :=
  m'.str schemaVersionKey = m.str schemaVersionKey ∧ m'.diffs = m.diffs

instance : IsRefl MetaStore VersionSame := ⟨fun _ => ⟨rfl, rfl⟩⟩

instance : IsTrans MetaStore VersionSame := ⟨fun _ _ _ h h' => ⟨h'.1.trans h.1, h'.2.trans h.2⟩⟩

/-- At most one bump: `m'` has the version and the diffs of `m`, or the version `v` that
`m` reads plus one, with the diffs of `m` or with the diff of the new version set. -/
def VersionStep (m m' : MetaStore) : Prop :=
  VersionSame m m' ∨ ∃ v, counterOf (m.str schemaVersionKey) = some v ∧
    m'.str schemaVersionKey = some (putInt64 (toInt64 (v + 1))) ∧
    (m'.diffs = m.diffs ∨ ∃ d : SchemaDiff, d.version = toInt64 (v + 1) ∧
      m'.diffs = m.diffs.filter (·.version ≠ toInt64 (v + 1)) ++ [d])

instance : IsRefl MetaStore VersionStep := ⟨fun m => .inl (refl m)⟩

variable {m m' m'' : MetaStore}

theorem VersionSame.step (h : VersionSame m m') (h' : VersionStep m' m'') : VersionStep m m'' := by
  rcases h' with h' | ⟨v, hv, hs, hd⟩
  · exact .inl ⟨h'.1.trans h.1, h'.2.trans h.2⟩
  · exact .inr ⟨v, h.1 ▸ hv, hs, h.2 ▸ hd⟩

theorem VersionStep.same (h : VersionStep m m') (h' : VersionSame m' m'') : VersionStep m m'' := by
  rcases h with h | ⟨v, hv, hs, hd⟩
  · exact .inl ⟨h'.1.trans h.1, h'.2.trans h.2⟩
  · exact .inr ⟨v, hv, h'.1.trans hs, h'.2 ▸ hd⟩

theorem MetaSame.version {c c' : Ctx} (h : MetaSame c c') : OnMeta VersionSame c c' :=
  ⟨by rw [h], by rw [h]⟩

theorem Go.Moves.version {α : Type} {x : Tx α} (h : Moves MetaSame x) : Moves (OnMeta VersionSame) x :=
  h.mono fun _ _ => MetaSame.version

section Steps

variable {α β : Type} {x : Tx α} {f : α → Tx β}

/-- Steps that keep the version and the diffs, then at most one bump. -/
theorem Go.Moves.same_then (hx : Moves (OnMeta VersionSame) x)
    (hf : ∀ a, Moves (OnMeta VersionStep) (f a)) : Moves (OnMeta VersionStep) (x >>= f) :=
  .bind_comp hx hf (fun _ _ => .inl) fun _ _ _ => VersionSame.step

/-- At most one bump, then steps that keep the version and the diffs. -/
theorem Go.Moves.step_then (hx : Moves (OnMeta VersionStep) x)
    (hf : ∀ a, Moves (OnMeta VersionSame) (f a)) : Moves (OnMeta VersionStep) (x >>= f) :=
  .bind_comp hx hf (fun _ _ => id) fun _ _ _ => VersionStep.same

end Steps

/-! ### `updateSchemaVersion` bumps once -/

/-- What `Inc` does: it returns no value and leaves the meta store as it is, or it reads
the counter `v` and sets it to `v + step`. -/
theorem inc_cases (k : String) (step : ℤ) (c : Ctx) :
    (∀ a, (inc k step c).1 ≠ .ok a) ∧ MetaSame c (inc k step c).2 ∨
      ∃ v, counterOf (c.meta.str k) = some v ∧ (inc k step c).1 = .ok (toInt64 (v + step)) ∧
        (inc k step c).2.meta =
          { c.meta with str := Function.update c.meta.str k (some (putInt64 (toInt64 (v + step)))) } := by
  obtain ⟨fs, h | h⟩ := kv_cases c
  · cases hv : counterOf (c.meta.str k) with
    | none => exact .inl ⟨by simp [inc, h, readCounter_eq_counterOf, hv],
        by simp [inc, h, readCounter_eq_counterOf, hv, MetaSame]⟩
    | some v => exact .inr ⟨v, rfl, by simp [inc, h, readCounter_eq_counterOf, hv],
        by simp [inc, h, readCounter_eq_counterOf, hv]⟩
  · exact .inl ⟨by simp [inc, h], by simp [inc, h, MetaSame]⟩

/-- What `SetSchemaDiff` does: it fails and leaves the meta store as it is, or it replaces
the diffs of the version by the one given. -/
theorem setSchemaDiff_cases (diff : SchemaDiff) (c : Ctx) :
    MetaSame c (setSchemaDiff diff c).2 ∨ (setSchemaDiff diff c).2.meta =
      { c.meta with diffs := c.meta.diffs.filter (·.version ≠ diff.version) ++ [diff] } := by
  obtain ⟨fs, h | h⟩ := kv_cases c <;> simp [setSchemaDiff, h, MetaSame]

theorem job2CollectionIDs_same (job : Job) (arg : DBInfo) : Moves MetaSame (job2CollectionIDs job arg) := by
  unfold job2CollectionIDs
  split
  exacts [collectionIDs_same _, .pure' _]

/-- **`updateSchemaVersion` bumps the version at most once**, and records at most the diff
of the new version. -/
theorem updateSchemaVersion_version (job : Job) (arg : DBInfo) :
    Moves (OnMeta VersionStep) (updateSchemaVersion job arg) := fun c => by
  simp only [updateSchemaVersion, genSchemaVersion, bind_apply, attempt]
  rcases inc_cases schemaVersionKey 1 c with ⟨hne, hs⟩ | ⟨v, hv, h1, hm⟩
  · rcases h : inc schemaVersionKey 1 c with ⟨_ | _ | _, c1⟩ <;> rw [h] at hne hs
    · exact (hne _ rfl).elim
    all_goals exact .inl hs.version
  rcases h : inc schemaVersionKey 1 c with ⟨_ | _ | _, c1⟩ <;> rw [h] at h1 hm <;> cases h1
  have hb : VersionStep c.meta c1.meta := .inr ⟨v, hv, by rw [hm]; simp, .inl (by rw [hm])⟩
  dsimp only
  simp only [bind_apply, attempt]
  rcases h2 : job2CollectionIDs job arg c1 with ⟨ids | _ | _, c2⟩ <;>
    have hs2 := ((job2CollectionIDs_same job arg).of_eq h2).version
  · dsimp only
    rcases setSchemaDiff_cases ⟨toInt64 (v + 1), job.type, ids, some arg⟩ c2 with h4 | h4 <;>
      rcases h3 : setSchemaDiff ⟨toInt64 (v + 1), job.type, ids, some arg⟩ c2 with ⟨_ | _ | _, c3⟩ <;>
      rw [h3] at h4 <;> dsimp only
    all_goals first
      | exact (hb.same hs2).same h4.version
      | simp only at h4 hm
        exact .inr ⟨v, hv, by simp [h4, hs2.1, hm],
          .inr ⟨⟨toInt64 (v + 1), job.type, ids, some arg⟩, rfl, by simp [h4, hs2.2, hm]⟩⟩
  all_goals exact hb.same hs2

/-! ### `runJob` and an iteration -/

variable (J : Codecs)

theorem createDatabase_version (d : DBInfo) : Moves (OnMeta VersionSame) (createDatabase J d) := fun c => by
  rcases createDatabase_cases J d c with ⟨-, h⟩ | ⟨-, -, h⟩
  exacts [h.version, ⟨by rw [h], by rw [h]⟩]

theorem createCollection_version (i : ℤ) (ci : CollectionInfo) :
    Moves (OnMeta VersionSame) (createCollection J i ci) := fun c => by
  rcases createCollection_cases J i ci c with ⟨-, h⟩ | ⟨-, -, -, h⟩
  exacts [h.version, ⟨by rw [h], by rw [h]⟩]

theorem createSchema_version (job : Job) (d : DBInfo) :
    Moves (OnMeta VersionStep) (createSchema J job d) :=
  .same_then (createSequences_same _ _).version fun
    | .error _ => .pure' _
    | .ok _ => .same_then (.attempt' (createDatabase_version J _)) fun
      | .error _ => .pure' _
      | .ok () => .same_then (.attempt' (createCollections_moves J (createCollection_version J) _ _)) fun
        | .error _ => .pure' _
        | .ok () => .step_then (updateSchemaVersion_version _ _) fun
          | (_, some _) => .pure' _
          | (_, none) => .pure' _

theorem runJob_version (job : Job) : Moves (OnMeta VersionStep) (runJob J job) := by
  refine runJob_moves J (fun job => ?_) job
  unfold onCreateSchema
  split
  · exact .pure' _
  · exact .same_then (.attempt' (checkDBNameNotExists_same J _).version) fun
      | .error _ => .pure' _
      | .ok true => .pure' _
      | .ok false => .step_then (createSchema_version J _ _) fun _ =>
        .ite' (.bind (dropSequences_same _).version fun _ => .pure' _) (.bind (.pure' _) fun _ => .pure' _)

/-- **An iteration bumps the committed version at most once**: it commits what its
transaction function leaves, or nothing, and the transaction function runs `runJob` at most
once. -/
theorem DdlWorld.iterate_version (w : DdlWorld) (faults : List Bool) (commitOk : Bool) :
    VersionStep w.meta (w.iterate J faults commitOk).meta := by
  rcases DdlWorld.iterate_cases faults commitOk with ⟨-, he⟩ | ⟨l', t, ht, -, he⟩ <;> rw [he]
  · exact refl _
  · exact (handleJob_moves_once J (R := OnMeta VersionStep) (fun _ _ _ h => VersionSame.step h.version)
      (fun _ _ _ h h' => VersionStep.same h h'.version) (runJob_version J) _).of_eq ht

theorem DdlWorld.step_version (w : DdlWorld) : ∀ e, VersionStep w.meta (w.step J e).meta
  | .enqueue _ => refl _
  | .iterate faults commitOk => DdlWorld.iterate_version J w faults commitOk

/-! ### Runs -/

/-- The store reads the schema version `v`, and every diff it holds has a version at most
`v`. -/
structure VersionsBelow (v : ℤ) (m : MetaStore) : Prop where
  read : counterOf (m.str schemaVersionKey) = some v
  diffs : ∀ d ∈ m.diffs, d.version ≤ v

variable {v : ℤ}

/-- Below `MaxInt64`, a step keeps the version and the diffs, or bumps the version by one
and appends at most the diff of the new version. -/
theorem VersionsBelow.step (h : VersionsBelow v m) (hs : VersionStep m m') (hv : v < maxInt64) :
    VersionsBelow v m' ∧ m'.diffs = m.diffs ∨
      VersionsBelow (v + 1) m' ∧ ∃ o : Option SchemaDiff, m'.diffs = m.diffs ++ o.toList ∧
        ∀ d ∈ o, d.version = v + 1 := by
  rcases hs with ⟨hstr, hd⟩ | ⟨u, hu, hstr, hd⟩
  · exact .inl ⟨⟨hstr ▸ h.read, hd ▸ h.diffs⟩, hd⟩
  obtain rfl : u = v := Option.some.inj (hu.symm.trans h.read)
  have h1 : toInt64 (u + 1) = u + 1 := toInt64_eq_self (by linarith [(counterOf_bounds hu).1]) hv
  have hf : m.diffs.filter (·.version ≠ u + 1) = m.diffs :=
    List.filter_eq_self.2 fun d hd => by simpa using ((h.diffs d hd).trans_lt (lt_add_one u)).ne
  have hread : counterOf (m'.str schemaVersionKey) = some (u + 1) := by
    rw [hstr, counterOf_putInt64, toInt64_toInt64, h1]
  rw [h1, hf] at hd
  right
  rcases hd with hd | ⟨d, hdv, hd⟩
  · exact ⟨⟨hread, fun d hm => (h.diffs d (hd ▸ hm)).trans (le_add_of_nonneg_right zero_le_one)⟩,
      none, by simp [hd], by simp⟩
  · refine ⟨⟨hread, fun x hx => ?_⟩, some d, hd, by simpa using hdv⟩
    rw [hd, List.mem_append, List.mem_singleton] at hx
    rcases hx with hx | rfl
    exacts [(h.diffs x hx).trans (le_add_of_nonneg_right zero_le_one), hdv.le]

/-- The diff of a bump to `v + 1`, if any, before diffs of increasing versions above
`v + 1`: increasing versions above `v`. -/
theorem bumped_sorted {o : Option SchemaDiff} {ds : List SchemaDiff}
    (ho : ∀ d ∈ o, d.version = v + 1) (hs : (ds.map SchemaDiff.version).Sorted (· < ·))
    (hlt : ∀ d ∈ ds, v + 1 < d.version) :
    ((o.toList ++ ds).map SchemaDiff.version).Sorted (· < ·) ∧
      ∀ d ∈ o.toList ++ ds, v < d.version := by
  cases o with
  | none => exact ⟨hs, fun d hd => (lt_add_one v).trans (hlt d hd)⟩
  | some d =>
    have hd : d.version = v + 1 := ho d rfl
    simp only [Option.toList_some, List.singleton_append, List.map_cons, List.sorted_cons,
      List.forall_mem_map, List.forall_mem_cons, hd]
    exact ⟨⟨hlt, hs⟩, lt_add_one v, fun d hm => (lt_add_one v).trans (hlt d hm)⟩

/-- Along any events, fewer than `MaxInt64` less the version, the diffs recorded stay,
followed by new ones of increasing versions above it. -/
theorem VersionsBelow.run {w : DdlWorld} (h : VersionsBelow v w.meta) (es : List DdlEvent)
    (hb : v + es.length < maxInt64) :
    ∃ v' ds, VersionsBelow v' (w.run J es).meta ∧ v ≤ v' ∧ v' ≤ v + es.length ∧
      (w.run J es).meta.diffs = w.meta.diffs ++ ds ∧ (ds.map SchemaDiff.version).Sorted (· < ·) ∧
      ∀ d ∈ ds, v < d.version := by
  induction es generalizing w v with
  | nil => exact ⟨v, [], h, le_rfl, by simp, by simp [DdlWorld.run], by simp, by simp⟩
  | cons e es ih =>
    have hlen : ((e :: es).length : ℤ) = es.length + 1 := by simp
    have hrun : w.run J (e :: es) = (w.step J e).run J es := rfl
    rcases h.step (DdlWorld.step_version J w e) (by omega) with ⟨h1, hd1⟩ | ⟨h1, o, hd1, ho⟩
    · obtain ⟨v', ds, hv', hle, hge, hd, hs, hlt⟩ := ih h1 (by omega)
      exact ⟨v', ds, hrun ▸ hv', hle, by omega, by rw [hrun, hd, hd1], hs, hlt⟩
    · obtain ⟨v', ds, hv', hle, hge, hd, hs, hlt⟩ := ih h1 (by omega)
      exact ⟨v', o.toList ++ ds, hrun ▸ hv', by omega, by omega,
        by rw [hrun, hd, hd1, List.append_assoc], bumped_sorted ho hs hlt⟩

/-- With no KV call failing, `GetSchemaVersion` reads the counter. -/
theorem getSchemaVersion_nil {c : Ctx} (hf : c.faults = []) :
    (getSchemaVersion c).1 = (counterOf (c.meta.str schemaVersionKey)).elim .panic .ok := by
  simp [getSchemaVersion, getInt64Key, hf, readCounter_eq_counterOf]

variable {J} {w : DdlWorld}

/-- **Schema diffs are an append-only log.** From any world whose committed store reads
the schema version `v` and holds diffs of versions at most `v`, after any events (clients
enqueueing any jobs, iterations with any failures of KV calls and commits, crashes), fewer
than `MaxInt64 - v` of them: `GetSchemaVersion` reads a version `v'` between `v` and `v`
plus the number of events; the diffs are those recorded before, in order, followed by new
ones; and the new ones have strictly increasing versions above `v` and at most `v'`. No
`SchemaDiff` is replaced or removed. -/
theorem schemaDiffs_append_only
    (hv : (getSchemaVersion ⟨w.meta, w.seqs, w.drops, []⟩).1 = .ok v)
    (hd : ∀ d ∈ w.meta.diffs, d.version ≤ v) (es : List DdlEvent) (hb : v + es.length < maxInt64) :
    ∃ v' ds, (getSchemaVersion ⟨(w.run J es).meta, (w.run J es).seqs, (w.run J es).drops, []⟩).1 =
        .ok v' ∧ v ≤ v' ∧ v' ≤ v + es.length ∧ (w.run J es).meta.diffs = w.meta.diffs ++ ds ∧
      (ds.map SchemaDiff.version).Sorted (· < ·) ∧ ∀ d ∈ ds, v < d.version ∧ d.version ≤ v' := by
  have hr : counterOf (w.meta.str schemaVersionKey) = some v := by
    rw [getSchemaVersion_nil rfl] at hv
    cases hc : counterOf (w.meta.str schemaVersionKey) <;> simp_all
  obtain ⟨v', ds, h', hle, hge, hds, hs, hlt⟩ := VersionsBelow.run J ⟨hr, hd⟩ es hb
  refine ⟨v', ds, by rw [getSchemaVersion_nil rfl, h'.read]; rfl, hle, hge, hds, hs,
    fun d hm => ⟨hlt d hm, h'.diffs d (by rw [hds]; exact List.mem_append_right _ hm)⟩⟩

/-- The empty store, then `schemaJob` enqueued and run to the end. -/
theorem schemaDiffs_append_only_schemaJob :
    (getSchemaVersion ⟨MetaStore.empty, [], [], []⟩).1 = .ok 0 ∧
      (∀ d ∈ MetaStore.empty.diffs, d.version ≤ 0) ∧
      (0 : ℤ) + ([.enqueue schemaJob, .iterate [] true, .iterate [] true] : List DdlEvent).length <
        maxInt64 ∧
      ∃ v' ds, (getSchemaVersion ⟨((DdlWorld.init MetaStore.empty).run Codecs.binary
          [.enqueue schemaJob, .iterate [] true, .iterate [] true]).meta,
          ((DdlWorld.init MetaStore.empty).run Codecs.binary
            [.enqueue schemaJob, .iterate [] true, .iterate [] true]).seqs,
          ((DdlWorld.init MetaStore.empty).run Codecs.binary
            [.enqueue schemaJob, .iterate [] true, .iterate [] true]).drops, []⟩).1 = .ok v' ∧
        0 ≤ v' ∧ v' ≤ 0 + ([.enqueue schemaJob, .iterate [] true, .iterate [] true] : List DdlEvent).length ∧
        ((DdlWorld.init MetaStore.empty).run Codecs.binary
          [.enqueue schemaJob, .iterate [] true, .iterate [] true]).meta.diffs = MetaStore.empty.diffs ++ ds ∧
        (ds.map SchemaDiff.version).Sorted (· < ·) ∧ ∀ d ∈ ds, 0 < d.version ∧ d.version ≤ v' :=
  ⟨rfl, (fun _ h => nomatch h), by norm_num [maxInt64],
    schemaDiffs_append_only (w := DdlWorld.init MetaStore.empty) rfl (fun _ h => nomatch h) _
      (by norm_num [maxInt64])⟩

end Kvrpc
