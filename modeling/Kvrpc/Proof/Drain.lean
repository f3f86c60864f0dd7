import Kvrpc.Proof.CreateSchema
import Kvrpc.Proof.Versions

/-!
# The worker drains its queue

An iteration of `handleJobQueue` in which no KV call fails and the commit succeeds archives
the head job, or writes it back nearer to the history: `runJob` either finishes it as done,
and the next iteration archives it, or fails once more, and the third failure archives it.
So the worker empties its queue, provided `runJob` neither panics nor returns an error of
its own. It does neither on a job whose argument holds no `nil` collection or index, from a
store whose schema version decodes: each KV call of the meta code it makes is behind
`attempt` or cannot fail.

* `Job.NilFree`: every collection and index pointer of the job's argument is set.
* `Ctx.Clean`: no KV call fails and the schema version decodes.
* `runJob_total`: on a `NilFree` job, from a clean transaction, `runJob` returns a value
  and leaves the transaction clean; `runJob_finished`: with no error, a finished job.
* `Job.CountOK`: the `int32` error count is in `[0, MaxInt32)`, so `ErrorCount++` does not
  wrap; a failure that writes the job back keeps it so.
* `Job.rank`: `1` for a done job, else `2` plus the failures it has left; an iteration
  archives the head or lowers its rank (`DdlWorld.iterate_drains`).
* `queue_drains`: from any reachable world whose queued jobs are `NilFree` with their counts
  in range, five iterations per queued job, with no KV call failing, empty the queue, and
  every enqueued job is then in the history.
-/

namespace Kvrpc

open Go Tx WTx Meta

/-- Every collection pointer of the database is set, and every index pointer of each
collection: what `onCreateSchema` dereferences. -/
def DBInfo.NilFree (d : DBInfo) : Bool :=
  d.collections.all fun c => c.any fun ci => ci.indices.all Option.isSome

/-- The job's argument, when it decodes, is `NilFree`. -/
def Job.NilFree (j : Job) : Bool := j.rawArg.all DBInfo.NilFree

/-- No KV call fails, and the schema version decodes. -/
def Ctx.Clean (c : Ctx) : Prop :=
  c.faults = [] ∧ (counterOf (c.meta.str schemaVersionKey)).isSome

/-! ### `runJob` returns -/

section Clean

open Go.Total

theorem Ctx.Clean.congr {c c' : Ctx} (h : c.Clean) (hf : c'.faults = c.faults)
    (hs : c'.meta.str schemaVersionKey = c.meta.str schemaVersionKey) : c'.Clean :=
  ⟨hf.trans h.1, hs ▸ h.2⟩

theorem kv_total : Total Ctx.Clean (fun _ => True) kv := fun c hc => by
  rw [kv_nil c hc.1]
  exact ⟨⟨(), rfl, trivial⟩, hc⟩

theorem getMeta_total : Total Ctx.Clean (fun _ => True) getMeta := fun _ hc => ⟨⟨_, rfl, trivial⟩, hc⟩

theorem modifyMeta_total {f : MetaStore → MetaStore}
    (hf : ∀ m, (f m).str schemaVersionKey = m.str schemaVersionKey) :
    Total Ctx.Clean (fun _ => True) (modifyMeta f) := fun c hc =>
  ⟨⟨(), rfl, trivial⟩, hc.congr rfl (hf c.meta)⟩

theorem modifyCtx_total {f : Ctx → Ctx} (hf : ∀ c, (f c).faults = c.faults ∧ (f c).meta = c.meta) :
    Total Ctx.Clean (fun _ => True) (modifyCtx f) := fun c hc =>
  ⟨⟨(), rfl, trivial⟩, hc.congr (hf c).1 (congrArg (·.str schemaVersionKey) (hf c).2)⟩

theorem hget_total (h f : String) : Total Ctx.Clean (fun _ => True) (hget h f) :=
  kv_total.bind fun _ _ => getMeta_total.bind fun _ _ => pure' trivial

theorem hgetAll_total (h : String) : Total Ctx.Clean (fun _ => True) (hgetAll h) :=
  kv_total.bind fun _ _ => getMeta_total.bind fun _ _ => pure' trivial

theorem hset_total (h f : String) (v : Bytes) : Total Ctx.Clean (fun _ => True) (hset h f v) :=
  kv_total.bind fun _ _ => modifyMeta_total fun _ => rfl

theorem setSchemaDiff_total (d : SchemaDiff) : Total Ctx.Clean (fun _ => True) (setSchemaDiff d) :=
  kv_total.bind fun _ _ => modifyMeta_total fun _ => rfl

/-- `GenSchemaVersion` reads a version that decodes, and writes one. -/
theorem genSchemaVersion_total : Total Ctx.Clean (fun _ => True) genSchemaVersion := fun c hc => by
  obtain ⟨v, hv⟩ := Option.isSome_iff_exists.1 hc.2
  simp [genSchemaVersion, inc, kv_nil c hc.1, readCounter_eq_counterOf, hv, Ctx.Clean,
    counterOf_putInt64, hc.1]

theorem createSequence_total (i cid : ℤ) : Total Ctx.Clean (fun _ => True) (createSequence i cid) :=
  kv_total.bind fun _ _ => modifyCtx_total fun _ => ⟨rfl, rfl⟩

theorem dropSequenceIfExists_total (cid : ℤ) :
    Total Ctx.Clean (fun _ => True) (dropSequenceIfExists cid) :=
  modifyCtx_total fun c => by split <;> exact ⟨rfl, rfl⟩

variable (J : Codecs)

theorem checkDBExists_safe (k : String) : Safe Ctx.Clean (checkDBExists k) :=
  (hget_total _ _).safe.bind fun | none => .throw' _ | some _ => .pure' _

theorem checkDBNotExists_safe (k : String) : Safe Ctx.Clean (checkDBNotExists k) :=
  (hget_total _ _).safe.bind fun | none => .pure' _ | some _ => .throw' _

theorem checkCollectionNotExists_safe (k f : String) : Safe Ctx.Clean (checkCollectionNotExists k f) :=
  (hget_total _ _).safe.bind fun | none => .pure' _ | some _ => .throw' _

theorem createDatabase_safe (d : DBInfo) : Safe Ctx.Clean (createDatabase J d) :=
  (checkDBNotExists_safe _).bind fun _ => (hset_total _ _ _).safe

theorem createCollection_safe (i : ℤ) (ci : CollectionInfo) :
    Safe Ctx.Clean (createCollection J i ci) :=
  (checkDBExists_safe _).bind fun _ =>
    (checkCollectionNotExists_safe _ _).bind fun _ => (hset_total _ _ _).safe

theorem decodeDatabases_safe : ∀ fs : List (String × Bytes), Safe Ctx.Clean (decodeDatabases J fs)
  | [] => .pure' _
  | (_, v) :: rest => by
    rw [decodeDatabases]
    split
    · exact .throw' _
    · exact (decodeDatabases_safe rest).bind fun _ => .pure' _

theorem checkDBNameNotExists_safe (name : String) : Safe Ctx.Clean (checkDBNameNotExists J name) :=
  ((hgetAll_total _).safe.bind (decodeDatabases_safe J)).bind fun _ => .pure' _

/-! The loops over the collections dereference each pointer. -/

variable {J}

theorem createCollections_safe (i : ℤ) : ∀ {cs : List (Option CollectionInfo)},
    (∀ c ∈ cs, c.isSome) → Safe Ctx.Clean (createCollections J i cs)
  | [], _ => .pure' _
  | c :: cs, h => by
    obtain ⟨ci, rfl⟩ := Option.isSome_iff_exists.1 (h c (List.mem_cons_self _ _))
    exact .deref_bind rfl ((createCollection_safe J i _).bind fun _ =>
      createCollections_safe i fun d hd => h d (List.mem_cons_of_mem _ hd))

theorem publicIndices_total : ∀ {is : List (Option IndexInfo)}, (∀ i ∈ is, i.isSome) →
    Total Ctx.Clean (fun _ => True) (publicIndices is)
  | [], _ => pure' trivial
  | i :: is, h => by
    obtain ⟨a, rfl⟩ := Option.isSome_iff_exists.1 (h i (List.mem_cons_self _ _))
    exact deref_bind rfl ((publicIndices_total fun j hj => h j (List.mem_cons_of_mem _ hj)).bind
      fun _ _ => pure' trivial)

theorem collectionIDs_total : ∀ {cs : List (Option CollectionInfo)}, (∀ c ∈ cs, c.isSome) →
    Total Ctx.Clean (fun _ => True) (collectionIDs cs)
  | [], _ => pure' trivial
  | c :: cs, h => by
    obtain ⟨ci, rfl⟩ := Option.isSome_iff_exists.1 (h c (List.mem_cons_self _ _))
    exact deref_bind rfl ((collectionIDs_total fun d hd => h d (List.mem_cons_of_mem _ hd)).bind
      fun _ _ => pure' trivial)

theorem dropSequences_total : ∀ {cs : List (Option CollectionInfo)}, (∀ c ∈ cs, c.isSome) →
    Total Ctx.Clean (fun _ => True) (dropSequences cs)
  | [], _ => pure' trivial
  | c :: cs, h => by
    obtain ⟨ci, rfl⟩ := Option.isSome_iff_exists.1 (h c (List.mem_cons_self _ _))
    exact deref_bind rfl ((dropSequenceIfExists_total _).bind fun _ _ =>
      dropSequences_total fun d hd => h d (List.mem_cons_of_mem _ hd))

/-- The first loop of `onCreateSchema` returns, and the collections it returns are all
set. -/
theorem createSequences_total (i : ℤ) : ∀ {cs : List (Option CollectionInfo)},
    (∀ c ∈ cs, c.any fun ci => ci.indices.all Option.isSome) →
    Total Ctx.Clean (fun r => ∀ cs', r = .ok cs' → ∀ c ∈ cs', c.isSome) (createSequences i cs)
  | [], _ => pure' fun _ h _ hc => by cases h; cases hc
  | c :: cs, h => by
    obtain ⟨ci, rfl, hci⟩ : ∃ ci, c = some ci ∧ ci.indices.all Option.isSome := by
      have := h c (List.mem_cons_self _ _)
      cases c <;> simp_all
    refine deref_bind rfl ((attempt' (createSequence_total _ _).safe).bind fun r _ => ?_)
    rcases r with e | ⟨⟩
    · exact pure' fun _ h => nomatch h
    · refine (publicIndices_total (by simpa using hci)).bind fun _ _ =>
        (createSequences_total i fun d hd => h d (List.mem_cons_of_mem _ hd)).bind fun r hr => ?_
      rcases r with e | cs'
      · exact pure' fun _ h => nomatch h
      · refine pure' fun _ h d hd => ?_
        cases h
        rcases List.mem_cons.1 hd with rfl | hd
        exacts [rfl, hr _ rfl d hd]

theorem job2CollectionIDs_total (job : Job) {arg : DBInfo} (h : ∀ c ∈ arg.collections, c.isSome) :
    Total Ctx.Clean (fun _ => True) (job2CollectionIDs job arg) := by
  unfold job2CollectionIDs
  split
  exacts [collectionIDs_total h, pure' trivial]

theorem updateSchemaVersion_total (job : Job) {arg : DBInfo} (h : ∀ c ∈ arg.collections, c.isSome) :
    Total Ctx.Clean (fun _ => True) (updateSchemaVersion job arg) :=
  (attempt' genSchemaVersion_total.safe).bind fun
    | .error _, _ => pure' trivial
    | .ok _, _ => (job2CollectionIDs_total job h).bind fun _ _ =>
      (attempt' (setSchemaDiff_total _).safe).bind fun
        | .error _, _ => pure' trivial
        | .ok _, _ => pure' trivial

theorem DBInfo.isSome_of_nilFree {d : DBInfo} (h : d.NilFree) : ∀ c ∈ d.collections, c.isSome :=
  fun c hc => by
    have := List.all_eq_true.1 h c hc
    cases c <;> simp_all

theorem createSchema_total (job : Job) {d : DBInfo} (h : d.NilFree) :
    Total Ctx.Clean (fun _ => True) (createSchema J job d) :=
  (createSequences_total d.id (List.all_eq_true.1 h)).bind fun
    | .error _, _ => pure' trivial
    | .ok cs, hr => (attempt' (createDatabase_safe J _)).bind fun
      | .error _, _ => pure' trivial
      | .ok (), _ => (attempt' (createCollections_safe d.id (hr cs rfl))).bind fun
        | .error _, _ => pure' trivial
        | .ok (), _ => (updateSchemaVersion_total job (hr cs rfl)).bind fun
          | (_, some _), _ => pure' trivial
          | (_, none), _ => pure' trivial

/-- **`runJob` returns**, from a clean transaction, on a job whose argument holds no `nil`
pointer: it neither panics nor returns an error past its own handling. -/
theorem runJob_total {job : Job} (h : job.NilFree) : Total Ctx.Clean (fun _ => True) (runJob J job) := by
  unfold runJob onCreateSchema
  split
  · exact pure' trivial
  · split
    · split
      · exact pure' trivial
      · rename_i d hd
        have hn : d.NilFree := by simpa [Job.NilFree, hd] using h
        exact (attempt' (checkDBNameNotExists_safe J _)).bind fun
          | .error _, _ => pure' trivial
          | .ok true, _ => pure' trivial
          | .ok false, _ => (createSchema_total job hn).bind fun _ _ =>
            ite' ((dropSequences_total (DBInfo.isSome_of_nilFree hn)).bind fun _ _ => pure' trivial)
              ((pure' (Q := fun _ => True) trivial).bind fun _ _ => pure' trivial)
    · exact pure' trivial

end Clean

section Finished

open Go.Returns

/-- With no error, `runJob` hands back a finished job. -/
def RunOut.Finished (out : RunOut) : Prop := out.err = none → out.job.IsFinished = true

variable (J : Codecs)

theorem createSchema_finished (job : Job) (d : DBInfo) :
    Returns RunOut.Finished (createSchema J job d) :=
  bind triv fun
    | .error _, _ => pure' nofun
    | .ok _, _ => bind triv fun
      | .error _, _ => pure' nofun
      | .ok (), _ => bind triv fun
        | .error _, _ => pure' nofun
        | .ok (), _ => bind triv fun
          | (_, some _), _ => pure' nofun
          | (_, none), _ => pure' fun _ => rfl

theorem onCreateSchema_finished (job : Job) : Returns RunOut.Finished (onCreateSchema J job) := by
  unfold onCreateSchema
  split
  · exact pure' nofun
  · refine bind triv fun r _ => ?_
    rcases r with _ | _ | _
    · exact pure' nofun
    · refine bind (createSchema_finished J job _) fun out hout => ?_
      dsimp only
      split <;> exact bind triv fun _ _ => pure' hout
    · exact pure' nofun

/-- **A run with no error finishes the job**: done, or, for a job already finished, as it
was. -/
theorem runJob_finished (job : Job) : Returns RunOut.Finished (runJob J job) := by
  unfold runJob
  split
  · exact pure' fun _ => ‹_›
  · split
    · exact onCreateSchema_finished J job
    · exact pure' nofun

end Finished

/-- What `runJob` hands back keeps the job's failures and argument. -/
theorem RunJobShape.keeps {job : Job} {out : RunOut} (h : RunJobShape job out) :
    out.job.errorCount = job.errorCount ∧ out.job.rawArg = job.rawArg := by
  rcases h with h | ⟨h, -⟩ | ⟨v, db, h⟩ <;> rw [h] <;> exact ⟨rfl, rfl⟩

theorem Job.nilFree_of_rawArg {j j' : Job} (h : j'.rawArg = j.rawArg) (hn : j.NilFree) :
    j'.NilFree := by
  unfold Job.NilFree
  rwa [h]

/-! ### An iteration moves the head job on -/

/-- The `int32` error count of a job is in `[0, MaxInt32)`: a failure adds one to it,
without wrapping. -/
def Job.CountOK (j : Job) : Prop := 0 ≤ j.errorCount ∧ j.errorCount < maxInt32

/-- `toInt32` keeps a non-negative `int32`. -/
theorem toInt32_of_nonneg {v : ℤ} (h0 : 0 ≤ v) (h : v ≤ maxInt32) : toInt32 v = v := by
  unfold toInt32 maxInt32 at *
  rw [Int.bmod_def]
  omega

/-- How far a job is from the history: `1` for a done or rolled back job, which the next
iteration archives; for any other, `2` plus the failures it has left before the last. -/
def Job.rank (j : Job) : ℕ :=
  if (j.IsDone || j.IsRollbackDone) = true then 1 else 2 + (jobMaxErrorCount - j.errorCount).toNat

theorem Job.rank_pos (j : Job) : 0 < j.rank := by
  unfold Job.rank
  split <;> omega

theorem Job.rank_le {j : Job} (h : 0 ≤ j.errorCount) : j.rank ≤ 5 := by
  unfold Job.rank jobMaxErrorCount
  split <;> omega

/-- A job that is now done or rolled back, or that has failed once more and is below the
last failure, is nearer to the history than it was when neither done nor rolled back. -/
theorem Job.rank_lt {j j' : Job} (hj : (j.IsDone || j.IsRollbackDone) = false)
    (h : (j'.IsDone || j'.IsRollbackDone) = true ∨
      j'.errorCount = j.errorCount + 1 ∧ j'.errorCount < jobMaxErrorCount) :
    j'.rank < j.rank := by
  unfold Job.rank
  rw [if_neg (show ¬(j.IsDone || j.IsRollbackDone) = true by simp [hj])]
  split_ifs with h'
  · omega
  · rcases h with h | ⟨h1, h2⟩
    exacts [absurd h h', by omega]

section Iteration

variable {J : Codecs} {l : Locals} {c : Ctx} {q : Queue} {job : Job} {rest : List Job}

theorem endWith_finishJob_nil (hf : c.faults = []) (hq : q.jobs = job :: rest) (j : Job) :
    endWith l (finishJob j) ⟨c, q⟩ = (.ok (l, none), ⟨c, ⟨rest, putHistory j q.history⟩⟩) := by
  simp only [endWith, bind_of_ok (attempt_of_ok (finishJob_nil (w := ⟨c, q⟩) hf j hq))]
  rfl

theorem endWith_updateJob_nil (hf : c.faults = []) (hq : q.jobs = job :: rest) (j : Job) :
    endWith l (updateJob j) ⟨c, q⟩ = (.ok (l, none), ⟨c, ⟨j :: rest, q.history⟩⟩) := by
  simp only [endWith, bind_of_ok (attempt_of_ok (updateJob_nil (w := ⟨c, q⟩) hf j (by simp [hq])))]
  simp [hq, errOf]

theorem handleJob_idle (hf : c.faults = []) (hq : q.jobs = []) :
    handleJob J l ⟨c, q⟩ = (.ok ({ l with nojob := true }, none), ⟨c, q⟩) := by
  simp only [handleJob, bind_of_ok (attempt_of_ok (getFirstJob_nil (w := ⟨c, q⟩) hf)), hq,
    List.head?_nil]
  rfl

/-- **The transaction function moves the head job on.** With no KV call failing, from a
store whose schema version decodes, on a queue whose head job is `NilFree` with its error
count in range, it returns nil, leaves the store so, and archives the head or writes it
back with a lower rank and its count in range, with the same argument; the rest of the
queue stays. -/
theorem handleJob_drains (hc : c.Clean) (hq : q.jobs = job :: rest) (hn : job.NilFree)
    (hk : job.CountOK) :
    ∃ l' t, handleJob J l ⟨c, q⟩ = (.ok (l', none), t) ∧ t.ctx.Clean ∧ ∃ j, j.rawArg = job.rawArg ∧
      (t.queue = ⟨rest, putHistory j q.history⟩ ∨
        t.queue = ⟨j :: rest, q.history⟩ ∧ j.rank < job.rank ∧ j.CountOK) := by
  have hg := attempt_of_ok (getFirstJob_nil (w := ⟨c, q⟩) hc.1)
  by_cases hd : (job.IsDone || job.IsRollbackDone) = true
  · let j := if !job.IsRollbackDone then { job with state := .synced } else job
    refine ⟨l, ⟨c, ⟨rest, putHistory j q.history⟩⟩, ?_, hc, j, ?_, .inl rfl⟩
    · simp only [handleJob, bind_of_ok hg, hq, List.head?_cons, hd, ↓reduceIte,
        endWith_finishJob_nil hc.1 hq]
    · dsimp only [j]
      split <;> rfl
  rw [Bool.not_eq_true] at hd
  obtain ⟨⟨out, hr, -⟩, hc'⟩ := runJob_total (J := J) hn c hc
  have hrun : runJob J job c = (.ok out, (runJob J job c).2) := Prod.ext hr rfl
  obtain ⟨he, hra⟩ := (runJob_shape J job _ _ _ hrun).keeps
  have hfin := runJob_finished J job _ _ _ hrun
  simp only [handleJob, bind_of_ok hg, hq, List.head?_cons, hd, Bool.false_eq_true, ↓reduceIte,
    bind_of_ok (runGuarded_ok (w := ⟨c, q⟩) (l := l) hrun), afterRun]
  cases herr : out.err with
  | none =>
    by_cases hcan : out.job.IsCancelled = true
    · simp only [hcan, ↓reduceIte, endWith_finishJob_nil hc'.1 hq]
      exact ⟨_, _, rfl, hc', _, hra, .inl rfl⟩
    · have hdone : (out.job.IsDone || out.job.IsRollbackDone) = true := by
        simpa [Job.IsFinished, hcan] using hfin herr
      simp only [hcan, Bool.false_eq_true, ↓reduceIte, endWith_updateJob_nil hc'.1 hq]
      exact ⟨_, _, rfl, hc', _, hra, .inr ⟨rfl, Job.rank_lt hd (.inl hdone), by rw [Job.CountOK, he]; exact hk⟩⟩
  | some e =>
    dsimp only
    split_ifs with h1
    · rw [endWith_finishJob_nil hc'.1 hq]
      exact ⟨_, _, rfl, hc', out.job.recordError e, hra, .inl rfl⟩
    · rw [endWith_finishJob_nil hc'.1 hq]
      exact ⟨_, _, rfl, hc', out.job.recordError e, hra, .inl rfl⟩
    · rw [endWith_updateJob_nil hc'.1 hq]
      have hinc : (out.job.recordError e).errorCount = job.errorCount + 1 := by
        rw [Job.recordError, he, toInt32_of_nonneg (Int.le_add_one hk.1) hk.2]
      simp only [Bool.or_eq_true, decide_eq_true_eq, not_or, not_le] at h1
      refine ⟨_, _, rfl, hc', out.job.recordError e, hra,
        .inr ⟨rfl, Job.rank_lt hd (.inr ⟨hinc, h1.2⟩), ?_⟩⟩
      unfold Job.CountOK maxInt32 jobMaxErrorCount at *
      omega

end Iteration

/-- The ranks of the queued jobs, summed: what the iterations have left to do. -/
def Queue.load (q : Queue) : ℕ := (q.jobs.map Job.rank).sum

theorem Queue.load_le : ∀ q : Queue, (∀ j ∈ q.jobs, j.CountOK) → q.load ≤ 5 * q.jobs.length
  | ⟨[], _⟩, _ => by simp [Queue.load]
  | ⟨j :: js, h⟩, hk => by
    have hj := Job.rank_le (hk j (List.mem_cons_self _ _)).1
    have hjs := Queue.load_le ⟨js, h⟩ fun j' hj' => hk j' (List.mem_cons_of_mem _ hj')
    simp only [Queue.load, List.map_cons, List.sum_cons, List.length_cons] at hjs ⊢
    omega

namespace DdlWorld

variable {J : Codecs} {w : DdlWorld} {job : Job} {rest : List Job}

/-- With no KV call failing, an iteration on a `NilFree` head job with its error count in
range archives it or writes it back with a lower rank and its count in range. -/
theorem iterate_drains (hq : w.queue.jobs = job :: rest) (hn : job.NilFree) (hk : job.CountOK)
    (hv : (counterOf (w.meta.str schemaVersionKey)).isSome) :
    (counterOf ((w.iterate J [] true).meta.str schemaVersionKey)).isSome ∧ ∃ j, j.rawArg = job.rawArg ∧
      ((w.iterate J [] true).queue = ⟨rest, putHistory j w.queue.history⟩ ∨
        (w.iterate J [] true).queue = ⟨j :: rest, w.queue.history⟩ ∧ j.rank < job.rank ∧ j.CountOK) := by
  obtain ⟨l', t, h, hc, hj⟩ :=
    handleJob_drains (J := J) (l := w.locals) (c := ⟨w.meta, w.seqs, w.drops, []⟩) ⟨rfl, hv⟩ hq hn hk
  rw [iterate_commit h]
  exact ⟨hc.2, hj⟩

theorem iterate_idle (hq : w.queue.jobs = []) :
    (w.iterate J [] true).meta = w.meta ∧ (w.iterate J [] true).queue = w.queue := by
  rw [iterate_commit (handleJob_idle (l := w.locals) (c := ⟨w.meta, w.seqs, w.drops, []⟩) rfl hq)]
  exact ⟨rfl, rfl⟩

theorem run_iterate_cons (k : ℕ) :
    w.run J (List.replicate (k + 1) (.iterate [] true)) =
      (w.iterate J [] true).run J (List.replicate k (.iterate [] true)) := rfl

/-- Iterations with no KV call failing, as many as the load of a queue of `NilFree` jobs
with their error counts in range, empty it. -/
theorem run_drains : ∀ (k : ℕ) {w : DdlWorld}, (∀ j ∈ w.queue.jobs, j.NilFree ∧ j.CountOK) →
    (counterOf (w.meta.str schemaVersionKey)).isSome → w.queue.load ≤ k →
    (w.run J (List.replicate k (.iterate [] true))).queue.jobs = []
  | 0, w, _, _, hk => by
    cases hq : w.queue.jobs with
    | nil => exact hq
    | cons job rest =>
      have := job.rank_pos
      simp only [Queue.load, hq, List.map_cons, List.sum_cons, nonpos_iff_eq_zero] at hk
      omega
  | k + 1, w, hn, hv, hk => by
    rw [run_iterate_cons]
    cases hq : w.queue.jobs with
    | nil =>
      obtain ⟨hm, hq'⟩ := iterate_idle (J := J) hq
      exact run_drains k (by rw [hq', hq]; simp) (hm ▸ hv) (by simp [Queue.load, hq', hq])
    | cons job rest =>
      have hnr : ∀ j ∈ rest, j.NilFree ∧ j.CountOK := fun j hj => hn j (by simp [hq, hj])
      obtain ⟨hnj, hkj⟩ := hn job (by simp [hq])
      obtain ⟨hv', j, hj, hq' | ⟨hq', hlt, hkj'⟩⟩ := iterate_drains (J := J) hq hnj hkj hv
      · refine run_drains k (by rw [hq']; exact hnr) hv' ?_
        have := job.rank_pos
        simp only [Queue.load, hq', hq, List.map_cons, List.sum_cons] at hk ⊢
        omega
      · refine run_drains k ?_ hv' ?_
        · rw [hq']
          exact List.forall_mem_cons.2 ⟨⟨Job.nilFree_of_rawArg hj hnj, hkj'⟩, hnr⟩
        · simp only [Queue.load, hq', hq, List.map_cons, List.sum_cons] at hk ⊢
          omega

/-- Iterations keep the world reachable, and the enqueued jobs as they are. -/
theorem reach_run_iterate {m : MetaStore} : ∀ (k : ℕ) {w : DdlWorld}, Reach J m w →
    Reach J m (w.run J (List.replicate k (.iterate [] true))) ∧
      (w.run J (List.replicate k (.iterate [] true))).enqueued = w.enqueued
  | 0, _, h => ⟨h, rfl⟩
  | k + 1, w, h => by
    rw [run_iterate_cons]
    obtain ⟨hr, he⟩ := reach_run_iterate k (h.iterate [] true)
    exact ⟨hr, he.trans (iterate_enqueued [] true)⟩

end DdlWorld

variable {J : Codecs}

/-- **The worker drains its queue.** From any world the worker and the clients reach whose
queued jobs hold no `nil` collection or index pointer and have their `int32` error counts in
`[0, MaxInt32)`, and whose schema version decodes: after `k` iterations of
`handleJobQueue`, five or more per queued job, in which no KV call fails and every commit
succeeds, the queue is empty, and the history holds every job a client enqueued, by id, in
enqueue order. A job leaves however `runJob` treats it: done, cancelled, or failed for the
third time. -/
theorem queue_drains {m : MetaStore} {w : DdlWorld} (h : DdlWorld.Reach J m w)
    (hn : ∀ j ∈ w.queue.jobs, j.NilFree) (hc : ∀ j ∈ w.queue.jobs, 0 ≤ j.errorCount ∧ j.errorCount < maxInt32)
    (hv : (counterOf (w.meta.str schemaVersionKey)).isSome)
    (k : ℕ) (hk : 5 * w.queue.jobs.length ≤ k) :
    (w.run J (List.replicate k (.iterate [] true))).queue.jobs = [] ∧
      (w.run J (List.replicate k (.iterate [] true))).queue.history.map Job.id =
        w.enqueued.map Job.id := by
  have hj := DdlWorld.run_drains (J := J) k (fun j hj => ⟨hn j hj, hc j hj⟩) hv
    ((w.queue.load_le hc).trans hk)
  obtain ⟨hr, he⟩ := DdlWorld.reach_run_iterate k h
  have hids := (DdlWorld.queueInv_of_reach hr).ids
  rw [hj, List.append_nil, he] at hids
  exact ⟨hj, hids⟩

/-- A settled job in the history: the poll of `checkJob` returns `nil` or the job's error. -/
theorem checkJobTick_settled_found {x : Job} (hx : x.Settled) :
    checkJobTick (.ok (some x)) = some (.ok ()) ∨ ∃ e, checkJobTick (.ok (some x)) = some (.err e) := by
  unfold checkJobTick
  dsimp only
  split_ifs with hs
  · exact .inl rfl
  · rcases hx with hx | hx
    · exact absurd hx hs
    · obtain ⟨e, he⟩ := Option.isSome_iff_exists.1 hx
      exact .inr ⟨e, by simp [he]⟩

/-- **A submitter's `checkJob` returns.** From any world the worker and the clients reach
whose clients enqueued sound jobs (none cancelled or rolled back without an error), whose
queued jobs are `NilFree` and have their `int32` error counts in `[0, MaxInt32)`, and whose
schema version decodes: take any enqueued job, and let
`checkJob` first poll after five or more iterations per queued job in which no KV call
fails and every commit succeeds. If that poll is fault-free, it finds the job in the
history, and `checkJob` returns there: `nil` for a synced job, else the job's error. -/
theorem checkJob_returns {m : MetaStore} {w : DdlWorld} (h : DdlWorld.Reach J m w)
    (hs : ∀ j ∈ w.enqueued, j.Sound) (hn : ∀ j ∈ w.queue.jobs, j.NilFree)
    (hc : ∀ j ∈ w.queue.jobs, 0 ≤ j.errorCount ∧ j.errorCount < maxInt32)
    (hv : (counterOf (w.meta.str schemaVersionKey)).isSome) {id : ℤ}
    (hid : id ∈ w.enqueued.map Job.id) (k : ℕ) (hk : 5 * w.queue.jobs.length ≤ k)
    (rs : List (Res (Option Job))) :
    checkJob ((w.run J (List.replicate k (.iterate [] true))).getHistoryJob id [] :: rs) =
        some (.ok ()) ∨
      ∃ e, checkJob ((w.run J (List.replicate k (.iterate [] true))).getHistoryJob id [] :: rs) =
        some (.err e) := by
  have hj := DdlWorld.run_drains (J := J) k (fun j hj => ⟨hn j hj, hc j hj⟩) hv
    ((w.queue.load_le hc).trans hk)
  obtain ⟨hr, he⟩ := DdlWorld.reach_run_iterate k h
  have hids := (DdlWorld.queueInv_of_reach hr).ids
  rw [hj, List.append_nil, he] at hids
  rw [← hids] at hid
  obtain ⟨x, hx, hxid⟩ := List.mem_map.1 hid
  have hfind : ((w.run J (List.replicate k (.iterate [] true))).queue.history.find?
      (·.id = id)).isSome := List.find?_isSome.2 ⟨x, hx, by simpa using hxid⟩
  obtain ⟨y, hy⟩ := Option.isSome_iff_exists.1 hfind
  have hy' : (w.run J (List.replicate k (.iterate [] true))).getHistoryJob id [] = .ok (some y) := by
    simp [DdlWorld.getHistoryJob, getHistoryDDLJob, hy]
  have hset := (DdlWorld.settled_of_reach hr (he ▸ hs)).settled y (List.mem_of_find?_eq_some hy)
  simp only [checkJob, hy']
  rcases checkJobTick_settled_found hset with h1 | ⟨e, h1⟩ <;> rw [h1]
  exacts [.inl rfl, .inr ⟨e, rfl⟩]

/-- `schemaJob` enqueued on the empty store: five iterations archive it. -/
theorem queue_drains_schemaQueued :
    DdlWorld.Reach Codecs.binary MetaStore.empty schemaQueued ∧
      (∀ j ∈ schemaQueued.queue.jobs, j.NilFree) ∧
      (∀ j ∈ schemaQueued.queue.jobs, 0 ≤ j.errorCount ∧ j.errorCount < maxInt32) ∧
      (counterOf (schemaQueued.meta.str schemaVersionKey)).isSome ∧
      5 * schemaQueued.queue.jobs.length ≤ 5 ∧
      (schemaQueued.run Codecs.binary (List.replicate 5 (.iterate [] true))).queue.jobs = [] ∧
      (schemaQueued.run Codecs.binary (List.replicate 5 (.iterate [] true))).queue.history.map
        Job.id = schemaQueued.enqueued.map Job.id :=
  have hr : DdlWorld.Reach Codecs.binary MetaStore.empty schemaQueued :=
    .enqueue schemaJob .init (by simp [DdlWorld.init])
  have hn : ∀ j ∈ schemaQueued.queue.jobs, j.NilFree := by decide
  have hc : ∀ j ∈ schemaQueued.queue.jobs, 0 ≤ j.errorCount ∧ j.errorCount < maxInt32 := by decide
  have h := queue_drains hr hn hc rfl 5 le_rfl
  ⟨hr, hn, hc, rfl, le_rfl, h⟩

/-- `checkJob` for `schemaJob`, polling first after five iterations. -/
theorem checkJob_returns_schemaQueued :
    DdlWorld.Reach Codecs.binary MetaStore.empty schemaQueued ∧
      (∀ j ∈ schemaQueued.enqueued, j.Sound) ∧ (∀ j ∈ schemaQueued.queue.jobs, j.NilFree) ∧
      (∀ j ∈ schemaQueued.queue.jobs, 0 ≤ j.errorCount ∧ j.errorCount < maxInt32) ∧
      (counterOf (schemaQueued.meta.str schemaVersionKey)).isSome ∧
      7 ∈ schemaQueued.enqueued.map Job.id ∧ 5 * schemaQueued.queue.jobs.length ≤ 5 ∧
      (checkJob [(schemaQueued.run Codecs.binary (List.replicate 5 (.iterate [] true))).getHistoryJob
          7 []] = some (.ok ()) ∨
        ∃ e, checkJob [(schemaQueued.run Codecs.binary (List.replicate 5 (.iterate [] true))).getHistoryJob
          7 []] = some (.err e)) :=
  have hr : DdlWorld.Reach Codecs.binary MetaStore.empty schemaQueued :=
    .enqueue schemaJob .init (by simp [DdlWorld.init])
  have hs : ∀ j ∈ schemaQueued.enqueued, j.Sound := by
    simp only [schemaQueued, DdlWorld.enqueue, DdlWorld.init, List.nil_append, List.mem_singleton,
      forall_eq, Job.Sound]
    decide
  have hn : ∀ j ∈ schemaQueued.queue.jobs, j.NilFree := by decide
  have hc : ∀ j ∈ schemaQueued.queue.jobs, 0 ≤ j.errorCount ∧ j.errorCount < maxInt32 := by decide
  have hid : 7 ∈ schemaQueued.enqueued.map Job.id := by decide
  have h := checkJob_returns hr hs hn hc rfl hid 5 le_rfl []
  ⟨hr, hs, hn, hc, rfl, hid, le_rfl, h⟩

end Kvrpc
