import Kvrpc.Spec.Ddl
import Kvrpc.Spec.Binary
import Kvrpc.Proof.Go

/-!
# The DDL queue loses and duplicates no job

The job list and the history are keys of their own: `runJob` runs lifted from the meta
transaction and cannot reach them. Only three operations of the worker touch them:
`getFirstJob` reads the head, `finishJob` pops it and archives the job, `updateJob`
rewrites the head in place.

* `runJob_shape`: `runJob` hands back the job it was given, cancelled with an error, or
  finished as done; so the id stays.
* `handleJob_cases`: what the transaction function does when it returns nil.
* `handleJob_queue`: a transaction function that returns nil leaves the history followed
  by the job list, by id, as it found them: the job it archives is the head it read.
* `queue_history_enqueued`: in every reachable world, the history followed by the job list
  are the enqueued jobs, by id, in enqueue order, each once.
-/

namespace Kvrpc

open Go Tx WTx Meta

open Go.Returns

/-! ### What `runJob` returns -/

/-- What `runJob` can do to the job it is given: hand it back as it is, cancel it with an
error, or finish it as done with the version and the database it records. -/
def RunJobShape (job : Job) (out : RunOut) : Prop :=
  out.job = job ∨ (out.job = { job with state := .cancelled } ∧ out.err.isSome) ∨
    ∃ v db, out.job = job.finishDBJob .done .public v db

theorem createSchema_shape (J : Codecs) (job : Job) (db : DBInfo) :
    Returns (RunJobShape job) (createSchema J job db) := by
  unfold createSchema
  refine bind triv fun r _ => ?_
  rcases r with e | cs
  · exact pure' (.inl rfl)
  · refine bind triv fun r _ => ?_
    rcases r with e | _
    · exact pure' (.inl rfl)
    · refine bind triv fun r _ => ?_
      rcases r with e | _
      · exact pure' (.inl rfl)
      · refine bind triv fun r _ => ?_
        rcases r with ⟨v, _ | e⟩
        · exact pure' (.inr (.inr ⟨_, _, rfl⟩))
        · exact pure' (.inl rfl)

theorem onCreateSchema_shape (J : Codecs) (job : Job) :
    Returns (RunJobShape job) (onCreateSchema J job) := by
  unfold onCreateSchema
  split
  · exact pure' (.inr (.inl ⟨rfl, rfl⟩))
  · refine bind triv fun r _ => ?_
    rcases r with e | _ | _
    · exact pure' (.inl rfl)
    · refine bind (createSchema_shape J job _) fun out hout => ?_
      dsimp only
      split <;> exact bind triv fun _ _ => pure' hout
    · exact pure' (.inl rfl)

/-- `runJob` leaves the job, cancels it with an error, or finishes it as done. -/
theorem runJob_shape (J : Codecs) (job : Job) : Returns (RunJobShape job) (runJob J job) := by
  unfold runJob
  split
  · exact pure' (.inl rfl)
  · split
    · exact onCreateSchema_shape J job
    · exact pure' (.inr (.inl ⟨rfl, rfl⟩))

/-- `runJob` hands back the job it was given, with the same id. -/
theorem RunJobShape.id {job : Job} {out : RunOut} (h : RunJobShape job out) :
    out.job.id = job.id := by
  rcases h with h | ⟨h, -⟩ | ⟨v, db, h⟩ <;> rw [h]
  rfl

/-- What `runJob` under the recovery guard leaves: `runJob`'s job and error, or, after a
panic, the job marked `Cancelling` and the variables as they were. -/
def Guarded (l : Locals) (job : Job) (l' : Locals) (j' : Job) : Prop :=
  (∃ out, RunJobShape job out ∧ j' = out.job ∧ l'.runJobErr = out.err) ∨
    (j' = { job with state := .cancelling } ∧ l' = l)

theorem Guarded.id {l l' : Locals} {job j' : Job} (h : Guarded l job l' j') : j'.id = job.id := by
  rcases h with ⟨out, hs, rfl, -⟩ | ⟨rfl, -⟩
  exacts [hs.id, rfl]

/-! ### The operations on the queue -/

/-- A KV call returns nil or a KV error, and only uses up an outcome. -/
theorem kv_cases (c : Ctx) :
    ∃ fs, kv c = (.ok (), { c with faults := fs }) ∨ kv c = (.err .kv, { c with faults := fs }) := by
  unfold kv; split
  · exact ⟨[], .inl (by cases c; simp_all)⟩
  · rename_i b fs _
    exact ⟨fs, by cases b <;> simp⟩

variable {w w' t : WCtx} {job : Job} {l l' : Locals}

theorem getFirstJob_spec {r : Res (Option Job)} (h : getFirstJob w = (r, w')) :
    w'.queue = w.queue ∧ (r = .ok w.queue.jobs.head? ∨ r = .err .kv) := by
  simp only [getFirstJob, getDDLJobByIdx, bind_apply, lift_apply, getQueue_apply, pure_apply] at h
  obtain ⟨c, hk | hk⟩ := kv_cases w.ctx <;> simp only [hk] at h <;> obtain ⟨rfl, rfl⟩ := Prod.mk.inj h
  · exact ⟨rfl, .inl (by cases w.queue.jobs <;> rfl)⟩
  · exact ⟨rfl, .inr rfl⟩

theorem finishJob_queue (h : finishJob job w = (.ok (), w')) :
    w'.queue = ⟨w.queue.jobs.tail, putHistory job w.queue.history⟩ := by
  simp only [finishJob, deQueueDDLJob, addHistoryDDLJob, bind_apply, lift_apply, getQueue_apply] at h
  obtain ⟨c1, h1 | h1⟩ := kv_cases w.ctx <;> simp only [h1] at h
  · cases hj : w.queue.jobs <;>
      simp only [hj, pure_apply, bind_apply, modifyQueue_apply, lift_apply] at h <;>
      obtain ⟨c2, h2 | h2⟩ := kv_cases { w.ctx with faults := c1 } <;> simp [h2] at h <;> (subst h; simp [hj])
  · simp at h

theorem updateJob_queue (h : updateJob job w = (.ok (), w')) :
    w'.queue = { w.queue with jobs := w.queue.jobs.set 0 job } := by
  simp only [updateJob, updateDDLJob, bind_apply, lift_apply, getQueue_apply] at h
  obtain ⟨c1, h1 | h1⟩ := kv_cases w.ctx <;> simp only [h1] at h
  · split_ifs at h <;> simp at h
    subst h; rfl
  · simp at h

theorem runGuarded_cases {J : Codecs} {r : Res (Locals × Job)}
    (h : runGuarded J l job w = (r, w')) :
    w'.queue = w.queue ∧ ∀ l' j', r = .ok (l', j') → Guarded l job l' j' := by
  simp only [runGuarded, bind_apply, recover, lift_apply] at h
  rcases hx : runJob J job w.ctx with ⟨_ | _ | _, c⟩ <;>
    simp only [hx, pure_apply, Prod.mk.injEq] at h <;> obtain ⟨rfl, rfl⟩ := h
  · exact ⟨rfl, fun l' j' e => by cases e; exact .inl ⟨_, runJob_shape J job _ _ _ hx, rfl, rfl⟩⟩
  · exact ⟨rfl, fun _ _ e => nomatch e⟩
  · exact ⟨rfl, fun l' j' e => by cases e; exact .inr ⟨rfl, rfl⟩⟩

theorem endWith_ok {f : WTx Unit} (h : endWith l f w = (.ok (l', none), t)) : f w = (.ok (), t) := by
  simp only [endWith, bind_apply, attempt, pure_apply] at h
  rcases hf : f w with ⟨_ | _ | _, w'⟩ <;> simp_all [errOf]

/-- After a run, the job, with its failure recorded, goes to the history (the run failed
or the job is cancelled) or back to the head. -/
theorem afterRun_cases (h : afterRun l job w = (.ok (l', none), t)) :
    (t.queue = ⟨w.queue.jobs.tail, putHistory (l.runJobErr.elim job job.recordError) w.queue.history⟩ ∧
        (l.runJobErr.isSome = true ∨ job.IsCancelled = true)) ∨
      t.queue = { w.queue with jobs := w.queue.jobs.set 0 (l.runJobErr.elim job job.recordError) } := by
  cases he : l.runJobErr <;> simp only [afterRun, he, Option.elim, Option.isSome] at h ⊢
  · split_ifs at h with hc
    · exact .inl ⟨finishJob_queue (endWith_ok h), .inr hc⟩
    · exact .inr (updateJob_queue (endWith_ok h))
  · split_ifs at h
    · exact .inl ⟨finishJob_queue (endWith_ok h), .inl trivial⟩
    · exact .inl ⟨finishJob_queue (endWith_ok h), .inl trivial⟩
    · exact .inr (updateJob_queue (endWith_ok h))

/-- After a run, the job is archived or written back, with the same id. -/
theorem afterRun_queue (h : afterRun l job w = (.ok (l', none), t)) :
    ∃ j, (t.queue = ⟨w.queue.jobs.tail, putHistory j w.queue.history⟩ ∨
      t.queue = { w.queue with jobs := w.queue.jobs.set 0 j }) ∧ j.id = job.id := by
  have hid : (l.runJobErr.elim job job.recordError).id = job.id := by
    cases l.runJobErr <;> rfl
  rcases afterRun_cases h with ⟨hq, -⟩ | hq
  exacts [⟨_, .inl hq, hid⟩, ⟨_, .inr hq, hid⟩]

/-- **What the transaction function does** when it returns nil: with no job it leaves the
queue; a head that is done or rolled back goes to the history, synced unless rolled back;
any other head is run under the guard, then `afterRun` archives it or writes it back. -/
theorem handleJob_cases {J : Codecs} {c : Ctx} {q : Queue}
    (h : handleJob J l ⟨c, q⟩ = (.ok (l', none), t)) :
    t.queue = q ∨ ∃ job rest, q.jobs = job :: rest ∧
      ((job.IsDone || job.IsRollbackDone) = true ∧
          t.queue = ⟨rest, putHistory
            (if !job.IsRollbackDone then { job with state := .synced } else job) q.history⟩ ∨
        ∃ (w₁ w₂ : WCtx) (l₂ : Locals) (j₂ : Job), getFirstJob ⟨c, q⟩ = (.ok (some job), w₁) ∧
          runGuarded J l job w₁ = (.ok (l₂, j₂), w₂) ∧ afterRun l₂ j₂ w₂ = (.ok (l', none), t)) := by
  unfold handleJob at h
  simp only [bind_apply, attempt] at h
  rcases hg : getFirstJob ⟨c, q⟩ with ⟨r, w1⟩
  obtain ⟨hq1, rfl | rfl⟩ := getFirstJob_spec hg <;> rw [hg] at h
  · cases hjobs : q.jobs with
    | nil =>
      simp only [hjobs, List.head?_nil, pure_apply, Prod.mk.injEq] at h
      exact .inl (h.2 ▸ hq1)
    | cons job rest =>
      simp only [hjobs, List.head?_cons] at h
      refine .inr ⟨job, rest, rfl, ?_⟩
      by_cases hd : (job.IsDone || job.IsRollbackDone) = true
      · rw [if_pos hd] at h
        exact .inl ⟨hd, by rw [finishJob_queue (endWith_ok h), hq1, hjobs]; rfl⟩
      · simp only [hd, Bool.false_eq_true, ↓reduceIte] at h
        obtain ⟨⟨l2, j2⟩, w2, hr, h⟩ := bind_eq_ok h
        exact .inr ⟨w1, w2, l2, j2, rfl, hr, h⟩
  · cases h

/-- A job whose id is not in the history goes last. -/
theorem putHistory_fresh {h : List Job} (hj : job.id ∉ h.map Job.id) :
    putHistory job h = h ++ [job] := by
  simp only [putHistory, List.mem_map] at *
  rw [if_neg]
  simpa using fun x hx e => hj ⟨x, hx, e⟩

/-- Archiving the head, under its id, keeps the ids of history then list. -/
theorem ids_archive {h rest : List Job} {j : Job} (hfresh : job.id ∉ h.map Job.id)
    (hj : j.id = job.id) : (putHistory j h ++ rest).map Job.id = (h ++ job :: rest).map Job.id := by
  rw [putHistory_fresh (hj ▸ hfresh)]
  simp [hj]

/-- Writing the head back, under its id, keeps the ids of history then list. -/
theorem ids_writeBack {h rest : List Job} {j : Job} (hj : j.id = job.id) :
    (h ++ (job :: rest).set 0 j).map Job.id = (h ++ job :: rest).map Job.id := by
  simp [hj]

/-- **The transaction function moves no job but the head it read.** When it returns nil,
the history followed by the job list are, by id, what they were. -/
theorem handleJob_queue {J : Codecs} {c : Ctx} {q : Queue}
    (hnd : ((q.history ++ q.jobs).map Job.id).Nodup)
    (h : handleJob J l ⟨c, q⟩ = (.ok (l', none), t)) :
    (t.queue.history ++ t.queue.jobs).map Job.id = (q.history ++ q.jobs).map Job.id := by
  rcases handleJob_cases h with hq | ⟨job, rest, hjobs, ⟨-, hq⟩ | ⟨w₁, w₂, l₂, j₂, hf, hr, ha⟩⟩
  · rw [hq]
  all_goals
    have hfresh : job.id ∉ q.history.map Job.id := by
      rw [hjobs, List.map_append, List.map_cons] at hnd
      exact fun hm => List.disjoint_of_nodup_append hnd hm (List.mem_cons_self _ _)
  · rw [hq, hjobs]
    exact ids_archive hfresh (by split <;> rfl)
  · obtain ⟨hq2, hg⟩ := runGuarded_cases hr
    have hid := (hg _ _ rfl).id
    obtain ⟨j, hq | hq, hj⟩ := afterRun_queue ha <;> rw [hq, hq2, (getFirstJob_spec hf).1, hjobs]
    · exact ids_archive hfresh (hj.trans hid)
    · exact ids_writeBack (hj.trans hid)

/-! ### Whole runs -/

namespace DdlWorld

variable {J : Codecs} {w : DdlWorld}

@[simp] theorem stop_queue (c : Ctx) : (w.stop c).queue = w.queue := rfl
@[simp] theorem stop_enqueued (c : Ctx) : (w.stop c).enqueued = w.enqueued := rfl
@[simp] theorem crash_queue (c : Ctx) : (w.crash c).queue = w.queue := rfl
@[simp] theorem crash_enqueued (c : Ctx) : (w.crash c).enqueued = w.enqueued := rfl

@[simp] theorem cancel_queue (l : Locals) (c : Ctx) : (w.cancel l c).1.queue = w.queue := by
  unfold cancel; split
  · rfl
  · split <;> rfl

@[simp] theorem cancel_meta (l : Locals) (c : Ctx) : (w.cancel l c).1.meta = w.meta := by
  unfold cancel; split
  · rfl
  · split <;> rfl

@[simp] theorem cancel_enqueued (l : Locals) (c : Ctx) :
    (w.cancel l c).1.enqueued = w.enqueued := by
  unfold cancel; split
  · rfl
  · split <;> rfl

/-- An iteration leaves the enqueued jobs as they are. -/
@[simp] theorem iterate_enqueued (faults : List Bool) (commitOk : Bool) :
    (w.iterate J faults commitOk).enqueued = w.enqueued := by
  unfold DdlWorld.iterate DdlWorld.iteration
  split
  · rename_i l t _
    split
    · rfl
    · have hc := cancel_enqueued (w := w) l t.ctx
      rcases hcw : w.cancel l t.ctx with ⟨w', _ | _⟩ <;> rw [hcw] at hc <;> exact hc
  · rfl
  · rfl

/-- **What an iteration commits**: the queue and the meta store of a transaction function
that returned nil, or nothing (an error, a panic, a failed commit). -/
theorem iterate_cases (faults : List Bool) (commitOk : Bool) :
    (w.iterate J faults commitOk).queue = w.queue ∧ (w.iterate J faults commitOk).meta = w.meta ∨
      ∃ l' t, handleJob J w.locals ⟨⟨w.meta, w.seqs, w.drops, faults⟩, w.queue⟩ = (.ok (l', none), t) ∧
        (w.iterate J faults commitOk).queue = t.queue ∧ (w.iterate J faults commitOk).meta = t.ctx.meta := by
  unfold DdlWorld.iterate DdlWorld.iteration
  split
  · rename_i l t h
    split
    · exact .inr ⟨l, t, h, rfl, rfl⟩
    · have hc := cancel_queue (w := w) l t.ctx
      have hm := cancel_meta (w := w) l t.ctx
      rcases hcw : w.cancel l t.ctx with ⟨w', _ | _⟩ <;> rw [hcw] at hc hm <;> exact .inl ⟨hc, hm⟩
  · exact .inl ⟨rfl, rfl⟩
  · exact .inl ⟨rfl, rfl⟩

/-- The history followed by the job list are the enqueued jobs, by id, each once. -/
structure QueueInv (w : DdlWorld) : Prop where
  ids : (w.queue.history ++ w.queue.jobs).map Job.id = w.enqueued.map Job.id
  nodup : (w.enqueued.map Job.id).Nodup

theorem queueInv_init (m : MetaStore) : QueueInv (init m) := ⟨rfl, List.nodup_nil⟩

/-- The invariant reads only the queue and the enqueued jobs. -/
theorem QueueInv.congr {w' : DdlWorld} (hi : QueueInv w) (hq : w'.queue = w.queue)
    (he : w'.enqueued = w.enqueued) : QueueInv w' :=
  ⟨hq ▸ he ▸ hi.ids, he ▸ hi.nodup⟩

theorem QueueInv.enqueue (hi : QueueInv w) {job : Job} (hj : job.id ∉ w.enqueued.map Job.id) :
    QueueInv (w.enqueue job) where
  ids := by
    have := hi.ids
    simp only [DdlWorld.enqueue, List.map_append] at this ⊢
    rw [← List.append_assoc, this]
  nodup := by
    simp only [DdlWorld.enqueue, List.map_append, List.map_cons, List.map_nil]
    exact List.nodup_append.2 ⟨hi.nodup, List.nodup_singleton _, by simpa using hj⟩

theorem QueueInv.iterate (hi : QueueInv w) (faults : List Bool) (commitOk : Bool) :
    QueueInv (w.iterate J faults commitOk) := by
  rcases iterate_cases faults commitOk with ⟨hq, -⟩ | ⟨l', t, h, hq, -⟩
  · exact hi.congr hq (iterate_enqueued faults commitOk)
  · refine ⟨?_, by rw [iterate_enqueued]; exact hi.nodup⟩
    rw [hq, iterate_enqueued, handleJob_queue (hi.ids ▸ hi.nodup) h, hi.ids]

theorem queueInv_of_reach {m : MetaStore} (h : Reach J m w) : QueueInv w := by
  induction h with
  | init => exact queueInv_init m
  | enqueue job _ hj ih => exact ih.enqueue hj
  | iterate faults commitOk _ ih => exact ih.iterate faults commitOk

end DdlWorld

/-- **No job is lost or archived twice.** In every world the worker and the clients reach,
the history (in archiving order) followed by the job list (in queue order) are the
enqueued jobs, by id, in enqueue order, each once. -/
theorem queue_history_enqueued {J : Codecs} {m : MetaStore} {w : DdlWorld}
    (h : DdlWorld.Reach J m w) :
    (w.queue.history ++ w.queue.jobs).map Job.id = w.enqueued.map Job.id ∧
      (w.enqueued.map Job.id).Nodup :=
  ⟨(DdlWorld.queueInv_of_reach h).ids, (DdlWorld.queueInv_of_reach h).nodup⟩

/-- The statement after two jobs are enqueued and the worker runs once: it archives the
first, whose argument does not decode, and the second waits; the ids read `1, 2`. -/
theorem queue_history_enqueued_run :
    ∃ w, (((DdlWorld.init MetaStore.empty).enqueue
        ⟨1, .createSchema, .none, .none, none, 0, none, none⟩).enqueue
        ⟨2, .createSchema, .none, .none, none, 0, none, none⟩).iterate Codecs.binary [] true = w ∧
      w.queue.history.map Job.id = [1] ∧ w.queue.jobs.map Job.id = [2] ∧
      (w.queue.history ++ w.queue.jobs).map Job.id = w.enqueued.map Job.id ∧
        (w.enqueued.map Job.id).Nodup :=
  ⟨_, rfl, rfl, rfl, queue_history_enqueued
    (.iterate [] true (.enqueue _ (.enqueue _ .init (by simp [DdlWorld.init])) (by decide)))⟩

end Kvrpc
