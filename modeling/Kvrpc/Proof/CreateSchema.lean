import Kvrpc.Proof.Names
import Kvrpc.Proof.Registry
import Kvrpc.Proof.GlobalID

/-!
# A `CreateSchema` job does what the registry says

With no KV call failing, `runJob` on a `CreateSchema` job whose database has a free name
and a free id, whose collections are all present with distinct, free ids, and whose
indices are all present, runs `onCreateSchema` to the end. It allocates a document
sequence for every collection, registers the database and each collection, public,
bumps the schema version by one, records the schema diff of that version, and hands the
job back done with that version and the database. On the registry, that is
`CreateDatabase` followed by `CreateCollection` of each collection, every call succeeding.

* `createSequences_ok`, `createCollections_refines`, `updateSchemaVersion_ok`: each stage
  of `createSchema` in closed form.
* `runJob_createSchema`: the whole run, for every such job and every store that holds a
  registry.
* `handleJob_run`, `handleJob_archive`: with no KV call failing, an iteration writes the
  job `runJob` hands back at the head of the list, and the next one archives it synced.
* `createSchema_completes`: so two iterations of the worker complete such a job, and the
  submitter's `checkJob` then returns nil.
-/

namespace Kvrpc

open Go Tx Meta

/-! ### What the job registers -/

/-- An index as `onCreateSchema` leaves it: public. -/
def IndexInfo.toPublic (i : IndexInfo) : IndexInfo := { i with state := .public }

/-- A collection as `onCreateSchema` registers it: public, with its indices public. -/
def CollectionInfo.toPublic (c : CollectionInfo) : CollectionInfo :=
  { c with state := .public, indices := c.indices.map (Option.map IndexInfo.toPublic) }

/-- The database as `onCreateSchema` registers it: public, with its collections public. -/
def DBInfo.toPublic (d : DBInfo) : DBInfo :=
  { d with state := .public, collections := d.collections.map (Option.map CollectionInfo.toPublic) }

/-- The registry calls a `CreateSchema` job stands for: `CreateDatabase`, then
`CreateCollection` of each collection. -/
def schemaCalls (d : DBInfo) (cis : List CollectionInfo) : List MetaCall :=
  .createDatabase d :: cis.map (.createCollection d.id)

@[simp] theorem CollectionInfo.toPublic_id (c : CollectionInfo) : c.toPublic.id = c.id := rfl

@[simp] theorem DBInfo.toPublic_id (d : DBInfo) : d.toPublic.id = d.id := rfl

/-- The sequences after `CreateSequence` of each collection, in order. -/
def addSeqs (seqs : List ℤ) (cis : List CollectionInfo) : List ℤ :=
  cis.foldl (fun s ci => s.insert ci.id) seqs

theorem mem_addSeqs_of_mem {x : ℤ} : ∀ {seqs : List ℤ} {cis : List CollectionInfo},
    x ∈ seqs → x ∈ addSeqs seqs cis
  | _, [], h => h
  | s, c :: cs, h => @mem_addSeqs_of_mem x (s.insert c.id) cs (List.mem_insert_of_mem h)

theorem id_mem_addSeqs : ∀ {seqs : List ℤ} {cis : List CollectionInfo} {ci : CollectionInfo},
    ci ∈ cis → ci.id ∈ addSeqs seqs cis
  | s, c :: cs, _, .head _ => @mem_addSeqs_of_mem _ (s.insert c.id) cs (List.mem_insert_self _ _)
  | s, c :: cs, _, .tail _ h => @id_mem_addSeqs (s.insert c.id) cs _ h

/-! ### Each stage, when no KV call fails -/

/-- A counter reads the same in every context. -/
theorem readCounter_ctx {b : Option Bytes} {c : Ctx} {v : ℤ} (h : readCounter b c = (.ok v, c)) (c' : Ctx) :
    readCounter b c' = (.ok v, c') := by
  rcases b with _ | b
  · cases h; rfl
  · simp only [readCounter] at h ⊢
    cases hg : getInt64 b <;> simp only [hg, pure_apply, panic_apply] at h ⊢ <;> cases h
    rfl

theorem Refines.congr_hash {J : Codecs} {m m' : MetaStore} {r : Registry} (h : Refines J m r) (hm : m'.hash = m.hash) :
    Refines J m' r :=
  ⟨hm ▸ h.dbs, hm ▸ h.colls, hm ▸ h.autos, h.autos_int64⟩

section Stages

variable (J : Codecs)

theorem publicIndices_ok (c : Ctx) : ∀ {is : List (Option IndexInfo)}, (∀ x ∈ is, x.isSome) →
    publicIndices is c = (.ok (is.map (Option.map IndexInfo.toPublic)), c)
  | [], _ => rfl
  | none :: _, h => nomatch h none (List.mem_cons_self _ _)
  | some _ :: _, h => by
    simp only [publicIndices, deref_some, bind_apply, pure_apply,
      publicIndices_ok c fun x hx => h x (List.mem_cons_of_mem _ hx)]
    rfl

/-- The first loop: a sequence for each collection, and the collections public. -/
theorem createSequences_ok (dbID : ℤ) {cis : List CollectionInfo}
    (hidx : ∀ ci ∈ cis, ∀ x ∈ ci.indices, x.isSome) : ∀ {c : Ctx}, c.faults = [] →
    createSequences dbID (cis.map some) c =
      (.ok (.ok ((cis.map CollectionInfo.toPublic).map some)),
        { c with seqs := addSeqs c.seqs cis }) := by
  induction cis with
  | nil => intro c _; rfl
  | cons ci cis ih =>
    intro c hf
    have h1 : createSequence dbID ci.id c = (.ok (), { c with seqs := c.seqs.insert ci.id }) := by
      simp [createSequence, hf]
    simp only [List.map_cons, createSequences, deref_some, bind_apply, pure_apply, attempt_of_ok h1,
      publicIndices_ok _ (hidx ci (List.mem_cons_self _ _)),
      ih (fun x hx => hidx x (List.mem_cons_of_mem _ hx)) (c := { c with seqs := c.seqs.insert ci.id }) hf]
    rfl

theorem collectionIDs_ok (c : Ctx) : ∀ cis : List CollectionInfo,
    collectionIDs (cis.map some) c = (.ok (cis.map CollectionInfo.id), c)
  | [] => rfl
  | _ :: cis => by simp [collectionIDs, collectionIDs_ok c cis]

variable {c : Ctx} (hf : c.faults = [])
include hf

theorem checkDBNameNotExists_nil (name : String) : (checkDBNameNotExists J name c).2 = c := by
  simp only [checkDBNameNotExists, listDatabases, bind_apply, hgetAll_ok hf, decodeDatabases_eq]
  cases decodeAll J (c.meta.hash dbsKey) <;> rfl

theorem createDatabase_nil (d : DBInfo) (hd : getField (dbKey d.id) (c.meta.hash dbsKey) = none) :
    createDatabase J d c = (.ok (), { c with meta := { c.meta with
      hash := Function.update c.meta.hash dbsKey (setField (dbKey d.id) (J.db.marshal d) (c.meta.hash dbsKey)) } }) := by
  simp [createDatabase, checkDBNotExists, hget_ok hf, hset_ok hf, hd]

theorem createCollection_nil (i : ℤ) (ci : CollectionInfo)
    (hdb : (getField (dbKey i) (c.meta.hash dbsKey)).isSome)
    (hc : getField (collectionKey ci.id) (c.meta.hash (dbKey i)) = none) :
    createCollection J i ci c = (.ok (), { c with meta := { c.meta with
      hash := Function.update c.meta.hash (dbKey i)
        (setField (collectionKey ci.id) (J.coll.marshal ci) (c.meta.hash (dbKey i))) } }) := by
  obtain ⟨v, hv⟩ := Option.isSome_iff_exists.1 hdb
  simp [createCollection, checkDBExists, checkCollectionNotExists, hget_ok hf, hset_ok hf, hv, hc]

/-- The bump of the schema version, and the diff it records. -/
theorem updateSchemaVersion_ok {v₀ : ℤ} (hv : readCounter (c.meta.str schemaVersionKey) c = (.ok v₀, c))
    {job : Job} (ht : job.type = .createSchema) {d : DBInfo} {cis : List CollectionInfo}
    (hcs : d.collections = cis.map some) :
    updateSchemaVersion job d c = (.ok (toInt64 (v₀ + 1), none), { c with meta := { c.meta with
      str := Function.update c.meta.str schemaVersionKey (some (putInt64 (toInt64 (v₀ + 1))))
      diffs := c.meta.diffs.filter (·.version ≠ toInt64 (v₀ + 1)) ++
        [⟨toInt64 (v₀ + 1), .createSchema, cis.map CollectionInfo.id, some d⟩] } }) := by
  simp [updateSchemaVersion, genSchemaVersion, inc, setSchemaDiff, job2CollectionIDs, attempt, hf, hv,
    ht, hcs, collectionIDs_ok]

end Stages

/-- The second loop: `CreateCollection` of each collection, each as the registry's rule
says. -/
theorem createCollections_refines (J : Codecs) (i : ℤ) : ∀ {cis : List CollectionInfo} {c : Ctx}
    {r : Registry}, Refines J c.meta r → c.faults = [] → (r.dbs i).isSome →
    (cis.map CollectionInfo.id).Nodup → (∀ ci ∈ cis, r.colls i ci.id = none) →
    ∃ hs, createCollections J i (cis.map some) c = (.ok (), { c with meta := { c.meta with hash := hs } }) ∧
      Refines J { c.meta with hash := hs } (r.applyAll (cis.map (.createCollection i))).2 ∧
      ∀ e ∈ (r.applyAll (cis.map (.createCollection i))).1, e = .ok .unit
  | [], c, _, h, _, _, _, _ => ⟨c.meta.hash, rfl, h, fun _ h => nomatch h⟩
  | ci :: cis, c, r, h, hf, hdb, hnd, hfree => by
    have hci := hfree ci (List.mem_cons_self _ _)
    obtain ⟨x, hx⟩ := Option.isSome_iff_exists.1 hdb
    have hdb' : (getField (dbKey i) (c.meta.hash dbsKey)).isSome := by
      rw [h.dbs]; simpa using hdb
    have hc : getField (collectionKey ci.id) (c.meta.hash (dbKey i)) = none := by
      rw [h.colls, hci]; rfl
    have hr : r.apply (.createCollection i ci) =
        (.ok .unit, { r with colls := Registry.update2 r.colls i ci.id (some ci) }) := by
      simp [Registry.apply, hx, hci]
    have hfree' : ∀ ci' ∈ cis, Registry.update2 r.colls i ci.id (some ci) i ci'.id = none := by
      intro ci' hci'
      have hne : ci'.id ≠ ci.id := fun e => (List.nodup_cons.1 hnd).1 (e ▸ List.mem_map_of_mem _ hci')
      simp [hne, hfree ci' (List.mem_cons_of_mem _ hci')]
    obtain ⟨hs, h1, h2, h3⟩ :=
      createCollections_refines J i (c := { c with meta := { c.meta with
        hash := Function.update c.meta.hash (dbKey i)
          (setField (collectionKey ci.id) (J.coll.marshal ci) (c.meta.hash (dbKey i))) } })
        (h.setColl i ci) hf hdb (List.nodup_cons.1 hnd).2 hfree'
    refine ⟨hs, ?_, by simpa [Registry.applyAll, hr] using h2, by simpa [Registry.applyAll, hr] using h3⟩
    simp only [List.map_cons, createCollections, deref_some, bind_apply, pure_apply,
      createCollection_nil J hf i ci hdb' hc, h1]

section Run

variable {J : Codecs} {c : Ctx} {r : Registry} {job : Job} {d : DBInfo} {cis : List CollectionInfo}
  {v₀ : ℤ}

/-- The whole of `createSchema` when no KV call fails. -/
theorem createSchema_ok (h : Refines J c.meta r) (hf : c.faults = []) (ht : job.type = .createSchema)
    (hcs : d.collections = cis.map some) (hidx : ∀ ci ∈ cis, ∀ x ∈ ci.indices, x.isSome)
    (hnd : (cis.map CollectionInfo.id).Nodup) (hid : r.dbs d.id = none)
    (hfree : ∀ ci ∈ cis, r.colls d.id ci.id = none)
    (hv : readCounter (c.meta.str schemaVersionKey) c = (.ok v₀, c)) :
    ∃ hs, createSchema J job d c = (.ok ⟨job.finishDBJob .done .public (toInt64 (v₀ + 1)) d.toPublic,
        toInt64 (v₀ + 1), some d.collections, false, none⟩,
      ⟨⟨Function.update c.meta.str schemaVersionKey (some (putInt64 (toInt64 (v₀ + 1)))), hs,
        c.meta.diffs.filter (·.version ≠ toInt64 (v₀ + 1)) ++
          [⟨toInt64 (v₀ + 1), .createSchema, cis.map CollectionInfo.id, some d.toPublic⟩]⟩,
        addSeqs c.seqs cis, c.drops, c.faults⟩) ∧
      Refines J ⟨c.meta.str, hs, c.meta.diffs⟩
        (r.applyAll (schemaCalls d.toPublic (cis.map CollectionInfo.toPublic))).2 ∧
      ∀ e ∈ (r.applyAll (schemaCalls d.toPublic (cis.map CollectionInfo.toPublic))).1, e = .ok .unit := by
  have hpub : ({ d with state := .public, collections := (cis.map CollectionInfo.toPublic).map some } :
      DBInfo) = d.toPublic := by
    simp [DBInfo.toPublic, hcs]
  have hdb := createDatabase_nil J (c := { c with seqs := addSeqs c.seqs cis }) hf d.toPublic
    (by simp [h.dbs, hid])
  have hr : r.apply (.createDatabase d.toPublic) =
      (.ok .unit, { r with dbs := Function.update r.dbs d.id (some d.toPublic) }) := by
    simp [Registry.apply, hid]
  obtain ⟨hs, hcc, h2, h3⟩ := createCollections_refines J d.id
    (c := { c with seqs := addSeqs c.seqs cis, meta := { c.meta with
      hash := Function.update c.meta.hash dbsKey
        (setField (dbKey d.id) (J.db.marshal d.toPublic) (c.meta.hash dbsKey)) } })
    (h.setDb d.toPublic) hf (by simp)
    (show ((cis.map CollectionInfo.toPublic).map CollectionInfo.id).Nodup by simpa [List.map_map] using hnd)
    (by simpa using hfree)
  simp only [DBInfo.toPublic_id] at hdb hcc h2 h3
  have hv3 := readCounter_ctx hv ⟨⟨c.meta.str, hs, c.meta.diffs⟩, addSeqs c.seqs cis, c.drops, c.faults⟩
  simp only [createSchema, hcs, bind_of_ok (createSequences_ok d.id hidx hf), hpub,
    bind_of_ok (attempt_of_ok hdb), DBInfo.toPublic_id, bind_of_ok (attempt_of_ok hcc)]
  rw [bind_of_ok (updateSchemaVersion_ok (c := ⟨⟨c.meta.str, hs, c.meta.diffs⟩, addSeqs c.seqs cis, c.drops,
    c.faults⟩) hf hv3 ht (show d.toPublic.collections = (cis.map CollectionInfo.toPublic).map some by
      simp [DBInfo.toPublic, hcs]))]
  refine ⟨hs, ?_, by simpa [schemaCalls, Registry.applyAll, hr] using h2,
    by simpa [schemaCalls, Registry.applyAll, hr] using h3⟩
  simp [Function.comp_def]

theorem readCounter_schemaVersion (hf : c.faults = []) (hv : (getSchemaVersion c).1 = .ok v₀) :
    readCounter (c.meta.str schemaVersionKey) c = (.ok v₀, c) :=
  Prod.ext (by simpa [getSchemaVersion, getInt64Key, hf] using hv) (by rw [readCounter_eq])

/-- `runJob` of an unfinished `CreateSchema` job whose name check finds the name free runs
`createSchema`, and returns what it returns when that has no error. -/
theorem runJob_eq_createSchema (hf : c.faults = []) (ht : job.type = .createSchema)
    (hfin : job.IsFinished = false) (ha : job.rawArg = some d)
    (hname : (checkDBNameNotExists J d.name c).1 = .ok false) {out : RunOut} {c' : Ctx}
    (hcs : createSchema J job d c = (.ok out, c')) (he : out.err = none) :
    runJob J job c = (.ok out, c') := by
  have hchk : checkDBNameNotExists J d.name c = (.ok false, c) :=
    Prod.ext hname (checkDBNameNotExists_nil J hf d.name)
  simp only [runJob, hfin, Bool.false_eq_true, ↓reduceIte, ht, onCreateSchema, ha,
    bind_of_ok (attempt_of_ok hchk), bind_of_ok hcs, he]
  rfl

/-- **A `CreateSchema` job does what the registry's rules say.** From a meta store that
holds the registry `r`, with no KV call failing: a `CreateSchema` job that is not finished,
whose database the name check finds free, whose id and collection ids are free in `r`,
whose collections are present with distinct ids and whose indices are present, runs to
done. `runJob` hands it back with the schema version one above the stored one and the
database public; the store then holds the registry that `CreateDatabase` of that database
and `CreateCollection` of each of its collections lead to, every one of those calls
succeeding; `GetSchemaVersion` reads the new version, the schema diff of that version is
recorded, and every collection has its document sequence. -/
theorem runJob_createSchema (h : Refines J c.meta r) (hf : c.faults = [])
    (ht : job.type = .createSchema) (hfin : job.IsFinished = false) (ha : job.rawArg = some d)
    (hcs : d.collections = cis.map some) (hidx : ∀ ci ∈ cis, ∀ x ∈ ci.indices, x.isSome)
    (hnd : (cis.map CollectionInfo.id).Nodup) (hname : (checkDBNameNotExists J d.name c).1 = .ok false)
    (hid : r.dbs d.id = none) (hfree : ∀ ci ∈ cis, r.colls d.id ci.id = none)
    (hv : (getSchemaVersion c).1 = .ok v₀) :
    ∃ c', runJob J job c = (.ok ⟨job.finishDBJob .done .public (toInt64 (v₀ + 1)) d.toPublic,
        toInt64 (v₀ + 1), some d.collections, false, none⟩, c') ∧
      Refines J c'.meta (r.applyAll (schemaCalls d.toPublic (cis.map CollectionInfo.toPublic))).2 ∧
      (∀ e ∈ (r.applyAll (schemaCalls d.toPublic (cis.map CollectionInfo.toPublic))).1, e = .ok .unit) ∧
      (getSchemaVersion c').1 = .ok (toInt64 (v₀ + 1)) ∧
      c'.meta.diffs = c.meta.diffs.filter (·.version ≠ toInt64 (v₀ + 1)) ++
        [⟨toInt64 (v₀ + 1), .createSchema, cis.map CollectionInfo.id, some d.toPublic⟩] ∧
      ∀ ci ∈ cis, ci.id ∈ c'.seqs := by
  obtain ⟨hs, hcs', h2, h3⟩ :=
    createSchema_ok h hf ht hcs hidx hnd hid hfree (readCounter_schemaVersion hf hv)
  exact ⟨_, runJob_eq_createSchema hf ht hfin ha hname hcs' rfl, h2.congr_hash rfl, h3,
    by simp [getSchemaVersion, getInt64Key, hf, readCounter_putInt64, toInt64_toInt64], rfl,
    fun ci hci => id_mem_addSeqs hci⟩

end Run

/-- The database of `schemaJob`, with its one collection. -/
def schemaCollection : CollectionInfo := ⟨4, "c", [], .none⟩

theorem runJob_createSchema_schemaJob :
    Refines Codecs.binary MetaStore.empty Registry.empty ∧
      (⟨MetaStore.empty, [], [], []⟩ : Ctx).faults = [] ∧ schemaJob.type = .createSchema ∧
      schemaJob.IsFinished = false ∧ schemaJob.rawArg = some ⟨3, "d", [some schemaCollection], .none⟩ ∧
      (⟨3, "d", [some schemaCollection], .none⟩ : DBInfo).collections = [schemaCollection].map some ∧
      (∀ ci ∈ [schemaCollection], ∀ x ∈ ci.indices, x.isSome) ∧
      ([schemaCollection].map CollectionInfo.id).Nodup ∧
      (checkDBNameNotExists Codecs.binary "d" ⟨MetaStore.empty, [], [], []⟩).1 = .ok false ∧
      Registry.empty.dbs 3 = none ∧ (∀ ci ∈ [schemaCollection], Registry.empty.colls 3 ci.id = none) ∧
      (getSchemaVersion ⟨MetaStore.empty, [], [], []⟩).1 = .ok 0 ∧
      ∃ c', runJob Codecs.binary schemaJob ⟨MetaStore.empty, [], [], []⟩ =
          (.ok ⟨schemaJob.finishDBJob .done .public (toInt64 (0 + 1))
            (⟨3, "d", [some schemaCollection], .none⟩ : DBInfo).toPublic, toInt64 (0 + 1),
            some [some schemaCollection], false, none⟩, c') ∧
        Refines Codecs.binary c'.meta (Registry.empty.applyAll (schemaCalls
          (⟨3, "d", [some schemaCollection], .none⟩ : DBInfo).toPublic
          ([schemaCollection].map CollectionInfo.toPublic))).2 ∧
        (∀ e ∈ (Registry.empty.applyAll (schemaCalls (⟨3, "d", [some schemaCollection], .none⟩ : DBInfo).toPublic
          ([schemaCollection].map CollectionInfo.toPublic))).1, e = .ok .unit) ∧
        (getSchemaVersion c').1 = .ok (toInt64 (0 + 1)) ∧
        c'.meta.diffs = MetaStore.empty.diffs.filter (·.version ≠ toInt64 (0 + 1)) ++
          [⟨toInt64 (0 + 1), .createSchema, [schemaCollection].map CollectionInfo.id,
            some (⟨3, "d", [some schemaCollection], .none⟩ : DBInfo).toPublic⟩] ∧
        ∀ ci ∈ [schemaCollection], ci.id ∈ c'.seqs := by
  have hidx : ∀ ci ∈ [schemaCollection], ∀ x ∈ ci.indices, x.isSome := by simp [schemaCollection]
  have hfree : ∀ ci ∈ [schemaCollection], Registry.empty.colls 3 ci.id = none := by simp [Registry.empty]
  exact ⟨refines_empty _, rfl, rfl, rfl, rfl, rfl, hidx, by simp, rfl, rfl, hfree, rfl,
    runJob_createSchema (refines_empty _) rfl rfl rfl rfl rfl hidx (by simp) rfl rfl hfree rfl⟩

/-! ### The worker runs the job, then archives it -/

section Iterations

open WTx

section Worker

variable {J : Codecs} {w : WCtx} (hf : w.ctx.faults = [])
include hf

theorem getFirstJob_nil : getFirstJob w = (.ok w.queue.jobs.head?, w) := by
  simp only [getFirstJob, getDDLJobByIdx, bind_apply, lift_apply, kv_nil _ hf, getQueue_apply, pure_apply]
  cases w.queue.jobs <;> rfl

theorem updateJob_nil (job : Job) (hq : w.queue.jobs ≠ []) :
    updateJob job w = (.ok (), { w with queue := { w.queue with jobs := w.queue.jobs.set 0 job } }) := by
  simp [updateJob, updateDDLJob, hf, List.length_pos.2 hq]

theorem finishJob_nil (job : Job) {j : Job} {js : List Job} (hq : w.queue.jobs = j :: js) :
    finishJob job w = (.ok (), { w with queue := ⟨js, putHistory job w.queue.history⟩ }) := by
  simp [finishJob, deQueueDDLJob, addHistoryDDLJob, hf, hq]

end Worker

theorem runGuarded_ok {J : Codecs} {l : Locals} {job : Job} {w : WCtx} {out : RunOut} {c' : Ctx}
    (h : runJob J job w.ctx = (.ok out, c')) :
    runGuarded J l job w = (.ok ({ l with
      schemaVersion := out.schemaVersion
      cancelFunc := out.cancelFunc
      failNow := out.failNow
      runJobErr := out.err }, out.job), { w with ctx := c' }) := by
  simp [runGuarded, recover, h]

variable {J : Codecs} {l : Locals} {c c' : Ctx} {q : Queue} {job : Job} {rest : List Job}

theorem handleJob_run {out : RunOut} (hf : c.faults = []) (hq : q.jobs = job :: rest)
    (hd : (job.IsDone || job.IsRollbackDone) = false) (h : runJob J job c = (.ok out, c'))
    (he : out.err = none) (hc : out.job.IsCancelled = false) (hf' : c'.faults = []) :
    handleJob J l ⟨c, q⟩ = (.ok ({ l with
      schemaVersion := out.schemaVersion
      cancelFunc := out.cancelFunc
      failNow := out.failNow
      runJobErr := none }, none), ⟨c', { q with jobs := out.job :: rest }⟩) := by
  simp only [handleJob, bind_of_ok (attempt_of_ok (getFirstJob_nil (w := ⟨c, q⟩) hf)), hq, List.head?_cons, hd,
    Bool.false_eq_true, ↓reduceIte, bind_of_ok (runGuarded_ok (w := ⟨c, q⟩) (l := l) h), afterRun, he, hc,
    endWith, bind_of_ok (attempt_of_ok (updateJob_nil (w := ⟨c', q⟩) hf' out.job (by simp [hq])))]
  simp [errOf, hq]

theorem handleJob_archive (hf : c.faults = []) (hq : q.jobs = job :: rest) (hd : job.IsDone = true)
    (hrb : job.IsRollbackDone = false) :
    handleJob J l ⟨c, q⟩ = (.ok (l, none), ⟨c, ⟨rest, putHistory { job with state := .synced } q.history⟩⟩) := by
  simp only [handleJob, bind_of_ok (attempt_of_ok (getFirstJob_nil (w := ⟨c, q⟩) hf)), hq, List.head?_cons, hd, hrb,
    Bool.true_or, ↓reduceIte, Bool.not_false, endWith,
    bind_of_ok (attempt_of_ok (finishJob_nil (w := ⟨c, q⟩) hf _ hq))]
  rfl

namespace DdlWorld

variable {w : DdlWorld}

theorem iterate_commit {faults : List Bool} {l : Locals} {t : WCtx}
    (h : handleJob J w.locals ⟨⟨w.meta, w.seqs, w.drops, faults⟩, w.queue⟩ = (.ok (l, none), t)) :
    w.iterate J faults true = { w with
      meta := t.ctx.meta
      queue := t.queue
      seqs := t.ctx.seqs
      drops := t.ctx.drops
      locals := if l.nojob then Locals.init else l } := by
  simp [iterate, iteration, h]

/-- With no KV call failing, an iteration runs the head job and, when the run hands it back
with no error and not cancelled, commits it at the head, with what the run wrote. -/
theorem iterate_run {out : RunOut} (hq : w.queue.jobs = job :: rest)
    (hd : (job.IsDone || job.IsRollbackDone) = false)
    (h : runJob J job ⟨w.meta, w.seqs, w.drops, []⟩ = (.ok out, c')) (he : out.err = none)
    (hc : out.job.IsCancelled = false) (hf' : c'.faults = []) :
    (w.iterate J [] true).meta = c'.meta ∧
      (w.iterate J [] true).queue = { w.queue with jobs := out.job :: rest } := by
  rw [iterate_commit (w := w) (handleJob_run rfl hq hd h he hc hf')]
  exact ⟨rfl, rfl⟩

/-- With no KV call failing, an iteration archives a done head job, synced. -/
theorem iterate_archive (hq : w.queue.jobs = job :: rest) (hd : job.IsDone = true)
    (hrb : job.IsRollbackDone = false) :
    (w.iterate J [] true).meta = w.meta ∧
      (w.iterate J [] true).queue = ⟨rest, putHistory { job with state := .synced } w.queue.history⟩ := by
  rw [iterate_commit (w := w) (handleJob_archive rfl hq hd hrb)]
  exact ⟨rfl, rfl⟩

end DdlWorld

theorem applyAll_createCollection_dbs (i : ℤ) : ∀ (cis : List CollectionInfo) (r : Registry),
    (r.applyAll (cis.map (.createCollection i))).2.dbs = r.dbs
  | [], _ => rfl
  | ci :: cis, r => by
    simp only [List.map_cons, Registry.applyAll, Registry.apply]
    split_ifs <;> exact applyAll_createCollection_dbs i cis _

theorem applyAll_schemaCalls_dbs {r : Registry} {d : DBInfo} (cis : List CollectionInfo)
    (hid : r.dbs d.id = none) : (r.applyAll (schemaCalls d.toPublic cis)).2.dbs d.id = some d.toPublic := by
  simp [schemaCalls, Registry.applyAll, Registry.apply, hid, applyAll_createCollection_dbs]

theorem find?_map_replace (job : Job) : ∀ h : List Job, (∃ x ∈ h, x.id = job.id) →
    (h.map fun j => if j.id = job.id then job else j).find? (·.id = job.id) = some job
  | [], ⟨_, hx, _⟩ => nomatch hx
  | x :: xs, hh => by
    by_cases hx : x.id = job.id
    · simp [hx]
    · have hxs : ∃ y ∈ xs, y.id = job.id := by simpa [hx] using hh
      rw [List.map_cons, if_neg hx, List.find?_cons, decide_eq_false hx]
      exact find?_map_replace job xs hxs

theorem find?_putHistory (job : Job) (h : List Job) : (putHistory job h).find? (·.id = job.id) = some job := by
  unfold putHistory
  split
  · rename_i hh
    exact find?_map_replace job h (by simpa using hh)
  · simp_all

variable {r : Registry} {d : DBInfo} {cis : List CollectionInfo} {v₀ : ℤ}

/-- **An enqueued `CreateSchema` job completes, and its submitter sees it done.** From a
world whose committed store holds the registry `r` and whose job list starts with a
`CreateSchema` job as in `runJob_createSchema`, two iterations of the worker with no KV call
failing and both commits succeeding archive the job synced: the list goes on with the jobs
behind it, `checkJob` returns nil at its next tick, `GetDatabase` returns the database,
public, the schema version is one above the stored one, and the store holds the registry
that `CreateDatabase` and `CreateCollection` of each collection lead to. -/
theorem createSchema_completes {w : DdlWorld} (hr : Refines J w.meta r) (hq : w.queue.jobs = job :: rest)
    (ht : job.type = .createSchema) (hfin : job.IsFinished = false) (ha : job.rawArg = some d)
    (hcs : d.collections = cis.map some) (hidx : ∀ ci ∈ cis, ∀ x ∈ ci.indices, x.isSome)
    (hnd : (cis.map CollectionInfo.id).Nodup)
    (hname : (checkDBNameNotExists J d.name ⟨w.meta, w.seqs, w.drops, []⟩).1 = .ok false)
    (hid : r.dbs d.id = none) (hfree : ∀ ci ∈ cis, r.colls d.id ci.id = none)
    (hv : (getSchemaVersion ⟨w.meta, w.seqs, w.drops, []⟩).1 = .ok v₀) :
    let w₂ := w.run J [.iterate [] true, .iterate [] true]
    w₂.queue.jobs = rest ∧ checkJobTick (w₂.getHistoryJob job.id []) = some (.ok ()) ∧
      (getDatabase J d.id ⟨w₂.meta, w₂.seqs, w₂.drops, []⟩).1 = .ok d.toPublic ∧
      (getSchemaVersion ⟨w₂.meta, w₂.seqs, w₂.drops, []⟩).1 = .ok (toInt64 (v₀ + 1)) ∧
      Refines J w₂.meta (r.applyAll (schemaCalls d.toPublic (cis.map CollectionInfo.toPublic))).2 := by
  intro w₂
  have hd : (job.IsDone || job.IsRollbackDone) = false := by
    simp only [Job.IsFinished, Bool.or_eq_false_iff] at hfin
    simp [hfin.1.1, hfin.1.2]
  obtain ⟨hs, hcs', h2, -⟩ := createSchema_ok (c := ⟨w.meta, w.seqs, w.drops, []⟩) hr rfl ht hcs hidx hnd
    hid hfree (readCounter_schemaVersion rfl hv)
  obtain ⟨hm1, hq1⟩ := DdlWorld.iterate_run hq hd (runJob_eq_createSchema rfl ht hfin ha hname hcs' rfl)
    rfl rfl rfl
  obtain ⟨hm2, hq2⟩ := DdlWorld.iterate_archive (J := J) (w := w.iterate J [] true)
    (show _ = job.finishDBJob .done .public (toInt64 (v₀ + 1)) d.toPublic :: rest by rw [hq1]) rfl rfl
  simp only [w₂, DdlWorld.run, List.foldl, DdlWorld.step, hm2, hm1, hq2, hq1]
  have hR : Refines J ⟨Function.update w.meta.str schemaVersionKey (some (putInt64 (toInt64 (v₀ + 1)))), hs,
      w.meta.diffs.filter (·.version ≠ toInt64 (v₀ + 1)) ++
        [⟨toInt64 (v₀ + 1), .createSchema, cis.map CollectionInfo.id, some d.toPublic⟩]⟩
      (r.applyAll (schemaCalls d.toPublic (cis.map CollectionInfo.toPublic))).2 := h2.congr_hash rfl
  refine ⟨?_, ?_, ?_, ?_, hR⟩
  · trivial
  · have hh := find?_putHistory { job.finishDBJob .done .public (toInt64 (v₀ + 1)) d.toPublic with
      state := .synced } (w.iterate J [] true).queue.history
    simp only [Job.finishDBJob] at hh
    simp [DdlWorld.getHistoryJob, getHistoryDDLJob, checkJobTick, hq2, Job.finishDBJob, hh, Job.IsSynced]
  · simp [getDatabase, hget_ok (c := ⟨_, _, _, []⟩) rfl, hR.dbs, applyAll_schemaCalls_dbs _ hid]
  · simp [getSchemaVersion, getInt64Key, readCounter_putInt64, toInt64_toInt64]

end Iterations

/-- `schemaJob` enqueued on the empty store. -/
def schemaQueued : DdlWorld := (DdlWorld.init MetaStore.empty).enqueue schemaJob

theorem createSchema_completes_schemaQueued :
    Refines Codecs.binary schemaQueued.meta Registry.empty ∧ schemaQueued.queue.jobs = [schemaJob] ∧
      schemaJob.type = .createSchema ∧ schemaJob.IsFinished = false ∧
      schemaJob.rawArg = some ⟨3, "d", [some schemaCollection], .none⟩ ∧
      (∀ ci ∈ [schemaCollection], ∀ x ∈ ci.indices, x.isSome) ∧
      (checkDBNameNotExists Codecs.binary "d"
        ⟨schemaQueued.meta, schemaQueued.seqs, schemaQueued.drops, []⟩).1 = .ok false ∧
      (getSchemaVersion ⟨schemaQueued.meta, schemaQueued.seqs, schemaQueued.drops, []⟩).1 = .ok 0 ∧
      let w₂ := schemaQueued.run Codecs.binary [.iterate [] true, .iterate [] true]
      w₂.queue.jobs = [] ∧ checkJobTick (w₂.getHistoryJob schemaJob.id []) = some (.ok ()) ∧
        (getDatabase Codecs.binary 3 ⟨w₂.meta, w₂.seqs, w₂.drops, []⟩).1 =
          .ok (⟨3, "d", [some schemaCollection], .none⟩ : DBInfo).toPublic ∧
        (getSchemaVersion ⟨w₂.meta, w₂.seqs, w₂.drops, []⟩).1 = .ok (toInt64 (0 + 1)) ∧
        Refines Codecs.binary w₂.meta (Registry.empty.applyAll (schemaCalls
          (⟨3, "d", [some schemaCollection], .none⟩ : DBInfo).toPublic
          ([schemaCollection].map CollectionInfo.toPublic))).2 := by
  have hidx : ∀ ci ∈ [schemaCollection], ∀ x ∈ ci.indices, x.isSome := by simp [schemaCollection]
  have h := createSchema_completes (J := Codecs.binary) (w := schemaQueued) (refines_empty _)
    (show schemaQueued.queue.jobs = [schemaJob] from rfl) rfl rfl rfl
    (show (⟨3, "d", [some schemaCollection], .none⟩ : DBInfo).collections = [schemaCollection].map some from rfl)
    hidx (by simp) rfl rfl (by simp [Registry.empty])
    (show (getSchemaVersion ⟨schemaQueued.meta, schemaQueued.seqs, schemaQueued.drops, []⟩).1 = .ok 0 from rfl)
  exact ⟨refines_empty _, rfl, rfl, rfl, rfl, hidx, rfl, rfl, h⟩

end Kvrpc
