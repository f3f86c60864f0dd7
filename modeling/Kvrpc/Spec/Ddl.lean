import Kvrpc.Spec.Meta

/-!
# The DDL worker

`ddl/ddl_worker.go`: the single worker that drains the default DDL job list. Each
iteration of `handleJobQueue` runs one transaction function in a new meta transaction:
it reads the head job, archives it if it is done, and otherwise runs it (`runJob`) under a
recovery guard and writes it back or archives it. The variables of `handleJobQueue`
(`Locals`) live across the iterations of one call.

Collaborators that are not in the source are modelled from the spec:

* `dml.CreateSequence` and `dml.DropSequenceIfExists` work on the KV store outside the
  meta transaction; the latter runs under `TryUntilSuccess`, so it ends in a drop.
* `checkDBNameNotExists` lists the databases and compares names.
* `RunInNewUpdateTxnWithCancel` (§4.6, step 9) commits when the function returns nil, and
  calls the cancel callback when that commit fails; a function that returns an error is
  discarded.
* `GetHistoryJob`, which `checkJob` polls, reads the history in a meta transaction of its
  own.

A panic that no guard catches ends the process; the worker then starts again with fresh
variables. Logging and the sleeps change no state and are left out; the error an
iteration passes to `Callback.OnChanged` is its output.
-/

namespace Kvrpc

open Go Tx WTx Meta

/-- `jobMaxErrorCount`. -/
def jobMaxErrorCount : ℤ := 3

/-- Modelled from the spec: `dml.CreateSequence(kvdb, dbID, cid, 0)`: one KV call that
creates the collection's document sequence. -/
def createSequence (_dbID cid : ℤ) : Tx Unit := do
  kv
  modifyCtx fun c => { c with seqs := c.seqs.insert cid }

/-- Modelled from the spec: `dml.DropSequenceIfExists(cid)`, retried until it succeeds; a
sequence dropped is logged. -/
def dropSequenceIfExists (cid : ℤ) : Tx Unit :=
  modifyCtx fun c =>
    if cid ∈ c.seqs then { c with seqs := c.seqs.erase cid, drops := c.drops ++ [cid] } else c

/-- The cleanup `cf` of `onCreateSchema`: drop the sequence of each collection. -/
def dropSequences : List (Option CollectionInfo) → Tx Unit
  | [] => pure ()
  | c :: cs => do
    dropSequenceIfExists (← deref c).id
    dropSequences cs

/-- The index loop: every index public. -/
def publicIndices : List (Option IndexInfo) → Tx (List (Option IndexInfo))
  | [] => pure []
  | i :: is => do
    let i ← deref i
    return some { i with state := .public } :: (← publicIndices is)

/-- The first loop of `onCreateSchema`: a sequence for each collection, then the
collection and its indices public; the first error stops it. -/
def createSequences (dbID : ℤ) :
    List (Option CollectionInfo) → Tx (Except Err (List (Option CollectionInfo)))
  | [] => pure (.ok [])
  | c :: cs => do
    let c ← deref c
    match ← attempt (createSequence dbID c.id) with
    | .error e => pure (.error e)
    | .ok () =>
      let indices ← publicIndices c.indices
      match ← createSequences dbID cs with
      | .error e => pure (.error e)
      | .ok cs => pure (.ok (some { c with state := .public, indices } :: cs))

/-- The second loop of `onCreateSchema`: `CreateCollection` for each collection. -/
def createCollections (J : Codecs) (dbID : ℤ) : List (Option CollectionInfo) → Tx Unit
  | [] => pure ()
  | c :: cs => do
    createCollection J dbID (← deref c)
    createCollections J dbID cs

/-- The collection ids of a database. -/
def collectionIDs : List (Option CollectionInfo) → Tx (List ℤ)
  | [] => pure []
  | c :: cs => do return (← deref c).id :: (← collectionIDs cs)

/-- `job2CollectionIDs`, on the job's decoded argument. -/
def job2CollectionIDs (job : Job) (arg : DBInfo) : Tx (List ℤ) :=
  match job.type with
  | .createSchema => collectionIDs arg.collections
  | _ => pure []

/-- `updateSchemaVersion`: the new version and the error of `SetSchemaDiff`. -/
def updateSchemaVersion (job : Job) (arg : DBInfo) : Tx (ℤ × Option Err) := do
  match ← attempt genSchemaVersion with
  | .error e => pure (0, some e)
  | .ok v =>
    let ids ← job2CollectionIDs job arg
    match ← attempt (setSchemaDiff ⟨v, job.type, ids, some arg⟩) with
    | .error e => pure (v, some e)
    | .ok () => pure (v, none)

/-- Modelled from the spec: `checkDBNameNotExists`: whether a database has the name. -/
def checkDBNameNotExists (J : Codecs) (name : String) : Tx Bool := do
  return (← listDatabases J).any (·.name == name)

/-- What `runJob` returns: the job as it leaves it, `schemaVersion`, `cancelFunc` (the
collections its cleanup drops; `none` is `nil`), `failNow` and the error. -/
structure RunOut where
  job : Job
  schemaVersion : ℤ
  cancelFunc : Option (List (Option CollectionInfo))
  failNow : Bool
  err : Option Err

/-- The part of `onCreateSchema` after the cleanup `cf` is deferred. -/
def createSchema (J : Codecs) (job : Job) (dbInfo : DBInfo) : Tx RunOut := do
  match ← createSequences dbInfo.id dbInfo.collections with
  | .error e => pure ⟨job, 0, none, false, some e⟩
  | .ok collections =>
    let dbInfo' := { dbInfo with state := .public, collections }
    match ← attempt (createDatabase J dbInfo') with
    | .error e => pure ⟨job, 0, none, false, some e⟩
    | .ok () =>
      match ← attempt (createCollections J dbInfo.id collections) with
      | .error e => pure ⟨job, 0, none, false, some e⟩
      | .ok () =>
        match ← updateSchemaVersion job dbInfo' with
        | (v, some e) => pure ⟨job, v, none, false, some e⟩
        | (v, none) =>
          pure ⟨job.finishDBJob .done .public v dbInfo', v, some dbInfo.collections, false, none⟩

/-- `onCreateSchema`. The deferred `cf` drops the sequences of all the collections when
the function returns an error; a panic skips it, as `err` is still `nil` then. -/
def onCreateSchema (J : Codecs) (job : Job) : Tx RunOut := do
  match job.rawArg with
  | none => pure ⟨{ job with state := .cancelled }, 0, none, false, some .decodeArg⟩
  | some dbInfo =>
    match ← attempt (checkDBNameNotExists J dbInfo.name) with
    | .error e => pure ⟨job, 0, none, false, some e⟩
    | .ok true => pure ⟨job, 0, none, true, some .dbAlreadyExists⟩
    | .ok false =>
      let out ← createSchema J job dbInfo
      if out.err.isSome then dropSequences dbInfo.collections
      pure out

/-- `runJob`. -/
def runJob (J : Codecs) (job : Job) : Tx RunOut :=
  if job.IsFinished then pure ⟨job, 0, none, false, none⟩
  else
    match job.type with
    | .createSchema => onCreateSchema J job
    | t => pure ⟨{ job with state := .cancelled }, 0, none, false, some (.invalidJobType t)⟩

/-- `updateJob`. -/
def updateJob (job : Job) : WTx Unit := updateDDLJob 0 job

/-- `finishJob`. -/
def finishJob (job : Job) : WTx Unit := do
  let _ ← deQueueDDLJob
  addHistoryDDLJob job

/-- `getFirstJob`. -/
def getFirstJob : WTx (Option Job) := getDDLJobByIdx 0

/-- The variables of `handleJobQueue` that its transaction function assigns. -/
structure Locals where
  nojob : Bool
  schemaVersion : ℤ
  failNow : Bool
  runJobErr : Option Err
  cancelFunc : Option (List (Option CollectionInfo))
  deriving DecidableEq, Repr

/-- The variables at the start of `handleJobQueue`. -/
def Locals.init : Locals := ⟨false, 0, false, none, none⟩

/-- The error of a Go call. -/
def errOf {α : Type} : Except Err α → Option Err
  | .ok _ => none
  | .error e => some e

/-- `err = f(); return`: the transaction function ends with the error of `f`. -/
def endWith (l : Locals) (f : WTx Unit) : WTx (Locals × Option Err) := do
  return (l, errOf (← attempt f))

/-- `runJob` under `RunWithRecovery`: its results go to the variables, or a panic marks
the job `Cancelling` and leaves the variables as they were. -/
def runGuarded (J : Codecs) (l : Locals) (job : Job) : WTx (Locals × Job) := do
  match ← recover (lift (runJob J job)) with
  | some out =>
    pure ({ l with
      schemaVersion := out.schemaVersion, cancelFunc := out.cancelFunc
      failNow := out.failNow, runJobErr := out.err }, out.job)
  | none => pure (l, { job with state := .cancelling })

/-- `job.ErrorCount++; job.Error = runJobErr`: the `int32` count wraps. -/
def Job.recordError (job : Job) (e : Err) : Job :=
  { job with errorCount := toInt32 (job.errorCount + 1), error := some e }

/-- The rest of an iteration that ran the job: a failed run is counted, then the job is
archived (`failNow`, the third failure, or cancelled) or written back. -/
def afterRun (l : Locals) (job : Job) : WTx (Locals × Option Err) :=
  match l.runJobErr with
  | some e =>
    if l.failNow || decide (jobMaxErrorCount ≤ (job.recordError e).errorCount) then
      endWith l (finishJob (job.recordError e))
    else if (job.recordError e).IsCancelled then endWith l (finishJob (job.recordError e))
    else endWith l (updateJob (job.recordError e))
  | none =>
    if job.IsCancelled then endWith l (finishJob job) else endWith l (updateJob job)

/-- The transaction function of `handleJobQueue`: the variables it leaves, and its
error. -/
def handleJob (J : Codecs) (l : Locals) : WTx (Locals × Option Err) := do
  match ← attempt getFirstJob with
  | .error e => pure (l, some e)
  | .ok none => pure ({ l with nojob := true }, none)
  | .ok (some job) =>
    if job.IsDone || job.IsRollbackDone then
      endWith l (finishJob (if !job.IsRollbackDone then { job with state := .synced } else job))
    else
      let (l, job) ← runGuarded J l job
      afterRun l job

/-! ### The worker and the clients -/

/-- The committed meta store and queue, the document sequences, the log of drops, the
variables of the running `handleJobQueue`, and, as history, every job a client enqueued
and how many times the process died of a panic. -/
structure DdlWorld where
  meta : MetaStore
  queue : Queue
  seqs : List ℤ
  drops : List ℤ
  locals : Locals
  enqueued : List Job
  crashes : ℕ

/-- A step of the system. -/
inductive DdlEvent
  /-- A client's transaction that enqueues a job, committed. -/
  | enqueue (job : Job)
  /-- One iteration of the loop of `handleJobQueue`: the outcomes of its KV calls and
  whether its commit succeeds. -/
  | iterate (faults : List Bool) (commitOk : Bool)

namespace DdlWorld

/-- A world with the meta store `m` and an empty job list and history. -/
def init (m : MetaStore) : DdlWorld := ⟨m, ⟨[], []⟩, [], [], Locals.init, [], 0⟩

/-- The process dies of a panic and starts again. -/
def crash (w : DdlWorld) (c : Ctx) : DdlWorld :=
  { w with seqs := c.seqs, drops := c.drops, locals := Locals.init, crashes := w.crashes + 1 }

/-- `handleJobQueue` returns; the next call starts with fresh variables. -/
def stop (w : DdlWorld) (c : Ctx) : DdlWorld :=
  { w with seqs := c.seqs, drops := c.drops, locals := Locals.init }

/-- The cancel callback `func() { cancelFunc() }` after a failed commit, and whether it
returns: a `nil` `cancelFunc` panics. -/
def cancel (w : DdlWorld) (l : Locals) (c : Ctx) : DdlWorld × Bool :=
  match l.cancelFunc with
  | none => (w.crash c, false)
  | some cs =>
    match dropSequences cs c with
    | (.ok (), c) => (w.stop c, true)
    | (_, c) => (w.crash c, false)

/-- After `RunInNewUpdateTxnWithCancel` returned `err`: `if nojob { return }`, then
`Callback.OnChanged(changeErr)`, where `changeErr` is `runJobErr` if set and `err`
otherwise. -/
def onChanged (l : Locals) (err : Option Err) : Option (Option Err) :=
  if l.nojob then none
  else
    match l.runJobErr with
    | some e => some (some e)
    | none => some err

/-- One iteration of the loop of `handleJobQueue`: the world after it, and the error it
passes to `Callback.OnChanged` (`none` when it calls nothing: there was no job, or a panic
ended the process). A failed commit returns a KV error. -/
def iteration (J : Codecs) (w : DdlWorld) (faults : List Bool) (commitOk : Bool) :
    DdlWorld × Option (Option Err) :=
  match handleJob J w.locals ⟨⟨w.meta, w.seqs, w.drops, faults⟩, w.queue⟩ with
  | (.ok (l, none), t) =>
    if commitOk then
      ({ w with
          meta := t.ctx.meta, queue := t.queue, seqs := t.ctx.seqs, drops := t.ctx.drops
          locals := if l.nojob then Locals.init else l }, onChanged l none)
    else
      match w.cancel l t.ctx with
      | (w', true) => (w', onChanged l (some .kv))
      | (w', false) => (w', none)
  | (.ok (l, some e), t) => (w.stop t.ctx, onChanged l (some e))
  | (_, t) => (w.crash t.ctx, none)

/-- The world after one iteration of `handleJobQueue`. -/
def iterate (J : Codecs) (w : DdlWorld) (faults : List Bool) (commitOk : Bool) : DdlWorld :=
  (w.iteration J faults commitOk).1

/-- A client enqueues a job. -/
def enqueue (w : DdlWorld) (job : Job) : DdlWorld :=
  { w with queue := { w.queue with jobs := w.queue.jobs ++ [job] }, enqueued := w.enqueued ++ [job] }

/-- One step. -/
def step (J : Codecs) (w : DdlWorld) : DdlEvent → DdlWorld
  | .enqueue job => w.enqueue job
  | .iterate faults commitOk => w.iterate J faults commitOk

/-- Steps in order. -/
def run (J : Codecs) (w : DdlWorld) (es : List DdlEvent) : DdlWorld := es.foldl (step J) w

/-- The worlds reachable from `init m` when clients enqueue jobs with distinct ids. -/
inductive Reach (J : Codecs) (m : MetaStore) : DdlWorld → Prop
  | init : Reach J m (init m)
  | enqueue {w : DdlWorld} (job : Job) :
    Reach J m w → job.id ∉ w.enqueued.map Job.id → Reach J m (w.enqueue job)
  | iterate {w : DdlWorld} (faults : List Bool) (commitOk : Bool) :
    Reach J m w → Reach J m (w.iterate J faults commitOk)

end DdlWorld

/-! ### The submitter's side -/

/-- Modelled from the spec: `d.GetHistoryJob(id)`: `GetHistoryDDLJob` in a new meta
transaction on the committed store, with the outcomes of its KV calls. -/
def DdlWorld.getHistoryJob (w : DdlWorld) (id : ℤ) (faults : List Bool) : Res (Option Job) :=
  (getHistoryDDLJob id ⟨⟨w.meta, w.seqs, w.drops, faults⟩, w.queue⟩).1

/-- One tick of the loop of `checkJob`, on what `GetHistoryJob` returned: `none` when the
loop goes on to the next tick (an error, which it logs, or no such job in the history
yet), or what `checkJob` returns: `nil` for a synced job, else the job's error, and when
there is none the panic `historyJob.Error should never be nil`. -/
def checkJobTick : Res (Option Job) → Option (Res Unit)
  | .err _ => none
  | .ok none => none
  | .ok (some h) =>
    if h.IsSynced then some (.ok ())
    else
      match h.error with
      | some e => some (.err e)
      | none => some .panic
  | .panic => some .panic

/-- `checkJob`, given what `GetHistoryJob` returns at each tick before the context is
done: what it returns, or `none` when the context ends the loop first (`ctx.Err()`). -/
def checkJob : List (Res (Option Job)) → Option (Res Unit)
  | [] => none
  | r :: rs =>
    match checkJobTick r with
    | some out => some out
    | none => checkJob rs

end Kvrpc
