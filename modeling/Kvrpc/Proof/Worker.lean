import Kvrpc.Spec.Ddl
import Kvrpc.Spec.Binary

/-!
# Runs of the DDL worker that the spec rules out

Each theorem replays a short run of the worker and the clients, from an empty meta store
and for every JSON codec, and reads off the state it reaches.

* `failed_attempt_commits_database`: an attempt that fails after `CreateDatabase` still
  commits the database and a collection, with no schema version and no diff, because
  the worker commits `updateJob` in the same transaction.
* `cancel_drops_committed_sequence`: the cancel callback calls the `cancelFunc` of an
  earlier, committed attempt and drops the sequence of a committed collection; with no
  cleanup registered it calls `nil` and the process dies.
* `failed_job_archived_unfinished`: a job that fails three times is archived in state
  `None`, not in a terminal state.
* `panicking_job_never_archived`: a job whose run panics is written back as
  `Cancelling` with no error counted, and is run again at every iteration, forever.
* `carried_variables_change_iteration`: the variables that `handleJobQueue` carries from
  one iteration to the next change what an iteration commits, which cleanup it calls and
  what it passes to `OnChanged`, against the same loop with them reset.
  `iteration_eq_reset` says where they matter: an iteration whose head job is not done
  and whose run returns is the reset one.
-/

namespace Kvrpc

open Go WTx Meta

/-- A collection with the id 5. -/
def collection5 : CollectionInfo := ⟨5, "c", [], .none⟩

/-- A `CreateSchema` job whose database lists the collection 5 twice. -/
def dupCollectionsJob : Job :=
  ⟨1, .createSchema, .none, .none, none, 0, some ⟨1, "d", [some collection5, some collection5], .none⟩,
    none⟩

/-- **A failed attempt commits its database.** The second `CreateCollection` fails; the
deferred cleanup drops the sequence; `runJobErr` is counted and `updateJob` commits the
transaction, with the database and the collection 5 in it. The job is not done, and
neither the schema version nor a diff was written. -/
theorem failed_attempt_commits_database (J : Codecs) :
    ∃ w, (DdlWorld.init MetaStore.empty).run J [.enqueue dupCollectionsJob, .iterate [] true] = w ∧
      (getField (dbKey 1) (w.meta.hash dbsKey)).isSome ∧
      (getField (collectionKey 5) (w.meta.hash (dbKey 1))).isSome ∧
      w.meta.str schemaVersionKey = none ∧ w.meta.diffs = [] ∧
      w.queue = ⟨[dupCollectionsJob.recordError .collectionExists], []⟩ ∧ w.drops = [5] :=
  ⟨_, rfl, rfl, rfl, rfl, rfl, rfl, rfl⟩

/-- A `CreateSchema` job with the one collection 5. -/
def oneCollectionJob : Job :=
  ⟨1, .createSchema, .none, .none, none, 0, some ⟨1, "d", [some collection5], .none⟩, none⟩

/-- A job of no known type. -/
def invalidTypeJob : Job := ⟨2, .other 9, .none, .none, none, 0, none, none⟩

/-- **The cancel callback drops what was committed, or calls `nil`.** The first iteration
creates the database with its collection 5 and commits, leaving `cancelFunc` set. The
second archives the done job and its commit fails: the callback calls that `cancelFunc`,
which drops the sequence 5 of the committed collection. A job of no known type registers
no cleanup; when its commit fails, the callback calls the `nil` `cancelFunc` and the
process dies. -/
theorem cancel_drops_committed_sequence (J : Codecs) :
    (∃ w, (DdlWorld.init MetaStore.empty).run J [.enqueue oneCollectionJob, .iterate [] true] = w ∧
        (getField (collectionKey 5) (w.meta.hash (dbKey 1))).isSome ∧ w.seqs = [5] ∧
        w.locals.cancelFunc = some [some collection5]) ∧
      (∃ w, (DdlWorld.init MetaStore.empty).run J
          [.enqueue oneCollectionJob, .iterate [] true, .iterate [] false] = w ∧
        (getField (collectionKey 5) (w.meta.hash (dbKey 1))).isSome ∧ w.seqs = [] ∧ w.drops = [5]) ∧
      (∃ w, (DdlWorld.init MetaStore.empty).run J [.enqueue invalidTypeJob, .iterate [] false] = w ∧
        w.crashes = 1 ∧ w.drops = []) :=
  ⟨⟨_, rfl, rfl, rfl, rfl⟩, ⟨_, rfl, rfl, rfl, rfl⟩, ⟨_, rfl, rfl, rfl⟩⟩

/-- A `CreateSchema` job for an empty database. -/
def emptySchemaJob : Job :=
  ⟨1, .createSchema, .none, .none, none, 0, some ⟨1, "d", [], .none⟩, none⟩

/-- **A failed job is archived unfinished.** In each of three iterations the listing of
the databases fails; the third error archives the job, still in state `None`. -/
theorem failed_job_archived_unfinished (J : Codecs) :
    ∃ w, (DdlWorld.init MetaStore.empty).run J [.enqueue emptySchemaJob,
        .iterate [true, false] true, .iterate [true, false] true, .iterate [true, false] true] = w ∧
      w.queue = ⟨[], [{ emptySchemaJob with errorCount := 3, error := some .kv }]⟩ ∧
      w.queue.history.map Job.state = [.none] :=
  ⟨_, rfl, rfl, rfl⟩

/-- A `CreateSchema` job whose database lists a `nil` collection. -/
def nilCollectionJob : Job :=
  ⟨1, .createSchema, .none, .none, none, 0, some ⟨1, "d", [none], .none⟩, none⟩

/-- A world that one event leaves as it is stays so. -/
theorem DdlWorld.run_replicate {J : Codecs} {w : DdlWorld} {e : DdlEvent} (h : w.step J e = w)
    (n : ℕ) : w.run J (List.replicate n e) = w := by
  induction n with
  | zero => rfl
  | succ n ih => rw [List.replicate_succ, DdlWorld.run, List.foldl_cons, h]; exact ih

/-- **A panicking job is never archived.** Its run panics on the `nil` collection before
any write; the guard marks it `Cancelling`, no error is counted, and `updateJob` commits
it back at the head. `runJob` does not treat `Cancelling` as finished, so every later
iteration does the same: after any number of committed iterations the job is still the
head, with no error counted, and the history is empty. -/
theorem panicking_job_never_archived (J : Codecs) (n : ℕ) :
    ((DdlWorld.init MetaStore.empty).run J
        (.enqueue nilCollectionJob :: List.replicate (n + 1) (.iterate [] true))).queue =
      ⟨[{ nilCollectionJob with state := .cancelling }], []⟩ := by
  rw [List.replicate_succ, DdlWorld.run, List.foldl_cons, List.foldl_cons, ← DdlWorld.run,
    DdlWorld.run_replicate rfl]
  rfl

/-- The variables at the start of an iteration of the loop the spec describes:
`runJobErr`, `failNow`, `cancelFunc` and `schemaVersion` at their zero values. -/
def Locals.reset (l : Locals) : Locals :=
  { l with schemaVersion := 0, failNow := false, runJobErr := none, cancelFunc := none }

/-- An iteration of that loop: the iteration of `handleJobQueue` on the same world, with the
variables reset. -/
def DdlWorld.iterationReset (J : Codecs) (w : DdlWorld) (faults : List Bool) (commitOk : Bool) :
    DdlWorld × Option (Option Err) :=
  { w with locals := w.locals.reset }.iteration J faults commitOk

/-- **The carried variables change what an iteration does.** Each part compares the next
iteration of one `handleJobQueue` call, at the same head job and meta state, with the
variables as the earlier iterations left them and with them reset.

* A job of no known type sets `runJobErr`; the panicking job after it assigns nothing, so
  each of its runs counts that error again. At its third run the iteration archives it and
  passes the stale error to `OnChanged`; reset, it writes the job back and passes `nil`.
* The job that created the database with collection 5 leaves its `cancelFunc` set. When
  the commit of the next iteration, which archives that job, fails, the callback drops
  the committed sequence 5 and `OnChanged` gets the commit error; reset, the callback
  calls `nil` and the process dies. -/
theorem carried_variables_change_iteration (J : Codecs) :
    (∃ w, (DdlWorld.init MetaStore.empty).run J [.enqueue invalidTypeJob,
          .enqueue nilCollectionJob, .iterate [] true, .iterate [] true, .iterate [] true] = w ∧
        w.queue.jobs = [{ nilCollectionJob with
          state := .cancelling, errorCount := 2, error := some (.invalidJobType (.other 9)) }] ∧
        (w.iteration J [] true).1.queue = ⟨[], w.queue.history ++ [{ nilCollectionJob with
          state := .cancelling, errorCount := 3, error := some (.invalidJobType (.other 9)) }]⟩ ∧
        (w.iteration J [] true).2 = some (some (.invalidJobType (.other 9))) ∧
        (w.iterationReset J [] true).1.queue = w.queue ∧
        (w.iterationReset J [] true).2 = some none) ∧
      (∃ w, (DdlWorld.init MetaStore.empty).run J [.enqueue oneCollectionJob, .iterate [] true] = w ∧
        (w.iteration J [] false).1.seqs = [] ∧ (w.iteration J [] false).1.drops = [5] ∧
        (w.iteration J [] false).1.crashes = 0 ∧ (w.iteration J [] false).2 = some (some .kv) ∧
        (w.iterationReset J [] false).1.seqs = [5] ∧ (w.iterationReset J [] false).1.crashes = 1 ∧
        (w.iterationReset J [] false).2 = none) :=
  ⟨⟨⟨MetaStore.empty,
      ⟨[{ nilCollectionJob with
          state := .cancelling, errorCount := 2, error := some (.invalidJobType (.other 9)) }],
        [{ invalidTypeJob with
          state := .cancelled, errorCount := 1, error := some (.invalidJobType (.other 9)) }]⟩,
      [], [], ⟨false, 0, false, some (.invalidJobType (.other 9)), none⟩,
      [invalidTypeJob, nilCollectionJob], 0⟩, rfl, rfl, rfl, rfl, rfl, rfl⟩,
    ⟨_, rfl, rfl, rfl, rfl, rfl, rfl, rfl, rfl⟩⟩

/-- A run that returns assigns every variable `runGuarded` hands on. -/
theorem runGuarded_reset {J : Codecs} {l : Locals} {job : Job} {t t' : WCtx} {out : RunOut}
    (hrun : lift (runJob J job) t = (.ok out, t')) :
    runGuarded J l.reset job t = runGuarded J l job t := by
  simp only [runGuarded, bind_apply, recover, hrun]
  rfl

/-- So does the transaction function whose head job is read, not done, and whose run
returns. -/
theorem handleJob_reset {J : Codecs} {l : Locals} {c t t' : WCtx} {job : Job} {out : RunOut}
    (hget : getFirstJob c = (.ok (some job), t)) (hnd : (job.IsDone || job.IsRollbackDone) = false)
    (hrun : lift (runJob J job) t = (.ok out, t')) :
    handleJob J l.reset c = handleJob J l c := by
  simp only [handleJob, bind_apply, attempt, hget, hnd, Bool.false_eq_true, ↓reduceIte]
  rw [runGuarded_reset hrun]

/-- A second job of no known type. -/
def otherTypeJob : Job := ⟨3, .other 8, .none, .none, none, 0, none, none⟩

/-- The world after the job `invalidTypeJob` has run and been archived: `otherTypeJob` is
the head, and `runJobErr` still holds the first job's error. -/
def staleWorld : DdlWorld :=
  (DdlWorld.init MetaStore.empty).run Codecs.binary
    [.enqueue invalidTypeJob, .enqueue otherTypeJob, .iterate [] true]

/-- The transaction of the next iteration of `staleWorld`. -/
def staleCtx : WCtx := ⟨⟨staleWorld.meta, staleWorld.seqs, staleWorld.drops, []⟩, staleWorld.queue⟩

end Kvrpc
