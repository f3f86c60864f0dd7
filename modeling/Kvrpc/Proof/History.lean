import Kvrpc.Proof.Queue

/-!
# Every archived job is synced or carries its error

On the submitter's side `checkJob` polls the history for its job: it returns when the job
is synced, returns the job's error when it has one, and panics otherwise ("When the state
is JobStateRollbackDone or JobStateCancelled, historyJob.Error should never be nil").
The worker never archives such a job, in any interleaving of clients and worker, with
failed KV calls, failed commits and crashes, as long as no client enqueues a job that is
already cancelled or rolled back without an error.

* `Job.Sound`: a cancelled or rolled-back job carries its error. A run keeps the job
  sound or fails (`Guarded.sound`).
* `Job.Settled`: a synced job, or one with an error.
* `Queue.Settled.handleJob`: a transaction function that returns nil keeps the job list sound
  and the history settled; so does every reachable world (`settled_of_reach`).
* `checkJob_ne_panic`: `checkJob`, polling while the worker and the clients run, never
  panics.
-/

namespace Kvrpc

open Go Tx WTx Meta

/-- A job of the list: if it is cancelled or rolled back, it carries its error. -/
def Job.Sound (j : Job) : Prop :=
  j.IsCancelled = true ∨ j.IsRollbackDone = true → j.error.isSome = true

/-- A job of the history: synced, or carrying its error. -/
def Job.Settled (j : Job) : Prop := j.IsSynced = true ∨ j.error.isSome = true

/-- The job list is sound and the history settled. -/
structure Queue.Settled (q : Queue) : Prop where
  sound : ∀ j ∈ q.jobs, j.Sound
  settled : ∀ j ∈ q.history, j.Settled

variable {job j : Job} {l l' : Locals} {q : Queue}

/-! ### Jobs -/

theorem Job.recordError_sound (job : Job) (e : Err) : (job.recordError e).Sound := fun _ => rfl

theorem Job.recordError_settled (job : Job) (e : Err) : (job.recordError e).Settled := .inr rfl

theorem Job.Sound.settled (h : j.Sound) (hc : j.IsCancelled = true) : j.Settled :=
  .inr (h (.inl hc))

/-- A job the run hands back is sound, or the run failed. -/
theorem RunJobShape.sound {out : RunOut} (hs : job.Sound) (h : RunJobShape job out) :
    out.err.isSome = true ∨ out.job.Sound := by
  rcases h with h | ⟨-, he⟩ | ⟨v, db, h⟩
  · exact .inr (h ▸ hs)
  · exact .inl he
  · exact .inr fun hc => by rw [h] at hc; simp [Job.finishDBJob, Job.IsCancelled, Job.IsRollbackDone] at hc

/-- After the guarded run, the job is sound or the run's error is set. -/
theorem Guarded.sound {j' : Job} (hs : job.Sound) (h : Guarded l job l' j') :
    l'.runJobErr.isSome = true ∨ j'.Sound := by
  rcases h with ⟨out, hsh, rfl, he⟩ | ⟨rfl, -⟩
  · rw [he]; exact hsh.sound hs
  · exact .inr fun hc => by simp [Job.IsCancelled, Job.IsRollbackDone] at hc

/-- The job `afterRun` archives or writes back: with the run's error recorded, if any. -/
theorem recorded_sound (hs : l.runJobErr.isSome = true ∨ job.Sound) :
    (l.runJobErr.elim job job.recordError).Sound := by
  cases he : l.runJobErr with
  | none => simpa [he] using hs
  | some e => exact job.recordError_sound e

theorem recorded_settled (hs : l.runJobErr.isSome = true ∨ job.Sound)
    (hc : l.runJobErr.isSome = true ∨ job.IsCancelled = true) :
    (l.runJobErr.elim job job.recordError).Settled := by
  cases he : l.runJobErr with
  | none =>
    simp only [he, Option.isSome_none, Bool.false_eq_true, false_or] at hs hc
    exact hs.settled hc
  | some e => exact job.recordError_settled e

/-! ### The queue -/

theorem putHistory_mem {x : Job} {h : List Job} (hx : x ∈ putHistory j h) : x = j ∨ x ∈ h := by
  unfold putHistory at hx
  split at hx
  · obtain ⟨y, hy, rfl⟩ := List.mem_map.1 hx
    split
    · exact .inl rfl
    · exact .inr hy
  · rcases List.mem_append.1 hx with hx | hx
    · exact .inr hx
    · exact .inl (List.mem_singleton.1 hx)

namespace Queue.Settled

theorem archive (hi : q.Settled) (hj : j.Settled) :
    Queue.Settled ⟨q.jobs.tail, putHistory j q.history⟩ where
  sound x hx := hi.sound x (List.mem_of_mem_tail hx)
  settled x hx := (putHistory_mem hx).elim (· ▸ hj) (hi.settled x)

theorem writeBack (hi : q.Settled) (hj : j.Sound) : Queue.Settled { q with jobs := q.jobs.set 0 j } where
  sound x hx := (List.mem_or_eq_of_mem_set hx).elim (hi.sound x) (· ▸ hj)
  settled := hi.settled

theorem afterRun {w t : WCtx} (hi : w.queue.Settled) (hs : l.runJobErr.isSome = true ∨ job.Sound)
    (h : afterRun l job w = (.ok (l', none), t)) : t.queue.Settled := by
  rcases afterRun_cases h with ⟨hq, hc⟩ | hq <;> rw [hq]
  · exact hi.archive (recorded_settled hs hc)
  · exact hi.writeBack (recorded_sound hs)

/-- **The transaction function keeps the queue sound and the history settled.** A head
that is done goes to the history synced; a rolled-back head carries its error; a run
either fails, and its error is recorded on the job, or hands back a sound job, archived
only when cancelled. -/
theorem handleJob {J : Codecs} {c : Ctx} {t : WCtx} (hi : q.Settled)
    (h : Kvrpc.handleJob J l ⟨c, q⟩ = (.ok (l', none), t)) : t.queue.Settled := by
  rcases handleJob_cases h with hq | ⟨job, rest, hjobs, ⟨-, hq⟩ | ⟨w₁, w₂, l₂, j₂, hf, hr, ha⟩⟩
  · exact hq ▸ hi
  all_goals have hs : job.Sound := hi.sound job (by rw [hjobs]; exact List.mem_cons_self _ _)
  · have hj : (if !job.IsRollbackDone then { job with state := .synced } else job).Settled := by
      split
      · exact .inl rfl
      · rename_i hr
        exact .inr (hs (.inr (by simpa using hr)))
    have := hi.archive hj
    rw [hjobs] at this
    exact hq ▸ this
  · obtain ⟨hq2, hg⟩ := runGuarded_cases hr
    exact Queue.Settled.afterRun ((hq2.trans (getFirstJob_spec hf).1) ▸ hi) ((hg _ _ rfl).sound hs) ha

end Queue.Settled

/-- A tick that finds a settled job ends the loop without a panic. -/
theorem checkJobTick_settled (hj : j.Settled) : checkJobTick (.ok (some j)) ≠ some .panic := by
  simp only [checkJobTick]
  split
  · simp
  · obtain ⟨e, he⟩ := Option.isSome_iff_exists.1 (hj.resolve_left ‹_›)
    simp [he]

/-! ### Whole runs -/

namespace DdlWorld

variable {J : Codecs} {m : MetaStore} {w : DdlWorld}

theorem settled_iterate (hi : w.queue.Settled) (faults : List Bool) (commitOk : Bool) :
    (w.iterate J faults commitOk).queue.Settled := by
  rcases iterate_cases faults commitOk with ⟨hq, -⟩ | ⟨l', t, h, hq, -⟩ <;> rw [hq]
  exacts [hi, hi.handleJob h]

/-- In every reachable world whose clients enqueued sound jobs, the job list is sound and
the history settled. -/
theorem settled_of_reach (h : Reach J m w) (he : ∀ j ∈ w.enqueued, j.Sound) : w.queue.Settled := by
  induction h with
  | init => exact ⟨(fun _ h => nomatch h), (fun _ h => nomatch h)⟩
  | enqueue job _ _ ih =>
    simp only [DdlWorld.enqueue, List.mem_append, List.mem_singleton] at he
    have hi := ih fun j hj => he j (.inl hj)
    exact ⟨fun x hx => (List.mem_append.1 hx).elim (hi.sound x)
      fun hx => he x (.inr (List.mem_singleton.1 hx)), hi.settled⟩
  | iterate faults commitOk _ ih =>
    rw [iterate_enqueued] at he
    exact settled_iterate (ih he) faults commitOk

/-- A poll of `GetHistoryJob` on a world whose history is settled never panics. -/
theorem getHistoryJob_tick (hi : w.queue.Settled) (id : ℤ) (faults : List Bool) :
    checkJobTick (w.getHistoryJob id faults) ≠ some .panic := by
  unfold getHistoryJob
  simp only [getHistoryDDLJob, bind_apply, lift_apply, getQueue_apply, pure_apply]
  obtain ⟨c, hk | hk⟩ := kv_cases ⟨w.meta, w.seqs, w.drops, faults⟩ <;> simp only [hk]
  · cases hf : w.queue.history.find? (·.id = id) with
    | none => simp [checkJobTick]
    | some x => exact checkJobTick_settled (hi.settled x (List.mem_of_find?_eq_some hf))
  · simp [checkJobTick]

end DdlWorld

theorem checkJob_ne_panic_of {rs : List (Res (Option Job))}
    (h : ∀ r ∈ rs, checkJobTick r ≠ some .panic) : checkJob rs ≠ some .panic := by
  induction rs with
  | nil => simp [checkJob]
  | cons r rs ih =>
    simp only [checkJob]
    split
    · rename_i out hout
      exact hout ▸ h r (List.mem_cons_self _ _)
    · exact ih fun r' hr' => h r' (List.mem_cons_of_mem _ hr')

/-- **`checkJob` never panics.** Whatever the clients enqueue (sound jobs: none cancelled
or rolled back without an error) and whatever happens between its polls (the worker's
iterations with any failures, commits that fail, crashes, other clients' jobs), each poll
of `checkJob` reads a reachable world, and `checkJob` returns `nil` for a synced job, the
job's error, or keeps polling: it never reaches its panic. -/
theorem checkJob_ne_panic {J : Codecs} {m : MetaStore} (id : ℤ)
    {ticks : List (DdlWorld × List Bool)}
    (h : ∀ x ∈ ticks, DdlWorld.Reach J m x.1 ∧ ∀ j ∈ x.1.enqueued, j.Sound) :
    checkJob (ticks.map fun x => x.1.getHistoryJob id x.2) ≠ some .panic :=
  checkJob_ne_panic_of fun r hr => by
    obtain ⟨x, hx, rfl⟩ := List.mem_map.1 hr
    exact DdlWorld.getHistoryJob_tick (DdlWorld.settled_of_reach (h x hx).1 (h x hx).2) id x.2

/-- A `CreateSchema` job with no argument, enqueued on an empty store. -/
def noArgJobWorld : DdlWorld :=
  (DdlWorld.init MetaStore.empty).enqueue ⟨1, .createSchema, .none, .none, none, 0, none, none⟩

/-- `checkJob` polls before the worker's iteration, which cancels the job for its missing
argument, and after it. -/
def noArgTicks : List (DdlWorld × List Bool) :=
  [(noArgJobWorld, []), (noArgJobWorld.iterate Codecs.binary [] true, [])]

theorem checkJob_ne_panic_noArg :
    (∀ x ∈ noArgTicks, DdlWorld.Reach Codecs.binary MetaStore.empty x.1 ∧
        ∀ j ∈ x.1.enqueued, j.Sound) ∧
      checkJob (noArgTicks.map fun x => x.1.getHistoryJob 1 x.2) ≠ some .panic := by
  have hr : DdlWorld.Reach Codecs.binary MetaStore.empty noArgJobWorld :=
    .enqueue _ .init (by simp [DdlWorld.init])
  have hs : ∀ j ∈ noArgJobWorld.enqueued, j.Sound := by
    simp [noArgJobWorld, DdlWorld.enqueue, DdlWorld.init, Job.Sound, Job.IsCancelled,
      Job.IsRollbackDone]
  have h : ∀ x ∈ noArgTicks, DdlWorld.Reach Codecs.binary MetaStore.empty x.1 ∧
      ∀ j ∈ x.1.enqueued, j.Sound := by
    simp only [noArgTicks, List.mem_cons, List.mem_singleton, List.not_mem_nil, or_false]
    rintro x (rfl | rfl)
    · exact ⟨hr, hs⟩
    · exact ⟨.iterate [] true hr, by rw [DdlWorld.iterate_enqueued]; exact hs⟩
  exact ⟨h, checkJob_ne_panic 1 h⟩

end Kvrpc
