import Kvrpc.Proof.CreateSchema

/-!
# The worker only adds to the registry

`onCreateSchema` reaches the registry through two calls, `CreateDatabase` and
`CreateCollection`. Each writes one field, after checking in the same transaction that the
field is absent, and a failed KV call leaves the hashes as they are. So whatever the worker
commits, through failed KV calls, failed commits and crashes, the committed store holds a
registry that the initial one reaches by those two calls, each accepted by the registry's
rules: the worker refines a client of `Registry` that only creates.

* `Registry.Grows`: `r'` is reached from `r` by `CreateDatabase` and `CreateCollection`
  calls that the rules accept, in order; a preorder (`Grows.trans`).
* `createDatabase_grown`, `createCollection_grown`: on a store that holds a registry, each
  write, whatever it returns, leaves a store that holds a registry grown from it.
* `registry_grows`: from any world whose committed store holds a registry, after any
  events, the committed store holds a registry grown from it.
* `registered_stable`: whatever the worker and the clients do, `GetDatabase` and
  `GetCollection` on the committed store keep returning what they returned.
-/

namespace Kvrpc

open Go Tx Meta

/-- `CreateDatabase` and `CreateCollection`, the calls of the registry that the worker
makes. -/
def MetaCall.IsCreate : MetaCall → Bool
  | .createDatabase _ | .createCollection _ _ => true
  | _ => false

namespace Registry

theorem applyAll_append (ops ops' : List MetaCall) (r : Registry) :
    r.applyAll (ops ++ ops') =
      ((r.applyAll ops).1 ++ ((r.applyAll ops).2.applyAll ops').1,
        ((r.applyAll ops).2.applyAll ops').2) := by
  induction ops generalizing r with
  | nil => rfl
  | cons op ops ih => simp [applyAll, ih]

/-- `r'` is reached from `r` by `CreateDatabase` and `CreateCollection` calls, in order,
each of which the rules accept: a database only under a free id, a collection only in a
registered database and under a free id. -/
def Grows (r r' : Registry) : Prop :=
  ∃ ops : List MetaCall, (∀ op ∈ ops, op.IsCreate) ∧
    r.applyAll ops = (ops.map fun _ => .ok .unit, r')

theorem Grows.refl (r : Registry) : r.Grows r := ⟨[], (fun _ h => nomatch h), rfl⟩

theorem Grows.trans {r r' r'' : Registry} (h : r.Grows r') (h' : r'.Grows r'') : r.Grows r'' :=
  let ⟨ops, hc, ha⟩ := h
  let ⟨ops', hc', ha'⟩ := h'
  ⟨ops ++ ops', fun op hop => (List.mem_append.1 hop).elim (hc op) (hc' op),
    by simp [applyAll_append, ha, ha']⟩

/-- One call that the rules accept. -/
theorem Grows.call {r r' : Registry} (op : MetaCall) (hc : op.IsCreate)
    (h : r.apply op = (.ok .unit, r')) : r.Grows r' :=
  ⟨[op], by simpa using hc, by simp [applyAll, h]⟩

end Registry

/-- The store holds a registry that `r₀` grows to. -/
def GrownFrom (J : Codecs) (r₀ : Registry) (m : MetaStore) : Prop :=
  ∃ r, r₀.Grows r ∧ Refines J m r

section Writes

variable {J : Codecs} {r₀ : Registry}

theorem HashSame.grown {c c' : Ctx} (h : HashSame c c') : OnMeta (Persists (GrownFrom J r₀)) c c' :=
  fun ⟨r, hg, hr⟩ => ⟨r, hg, hr.congr_hash h⟩

/-- **`CreateDatabase` is an accepted call of the registry, or changes nothing.** -/
theorem createDatabase_grown (d : DBInfo) :
    Moves (OnMeta (Persists (GrownFrom J r₀))) (createDatabase J d) := fun c ⟨r, hg, hr⟩ => by
  rcases createDatabase_cases J d c with ⟨-, h⟩ | ⟨-, habs, h⟩
  · exact h.hash.grown ⟨r, hg, hr⟩
  · have hd : r.dbs d.id = none := by simpa [hr.dbs] using habs
    refine ⟨_, hg.trans (.call (.createDatabase d) rfl ?_), h ▸ hr.setDb d⟩
    simp [Registry.apply, hd]

/-- **`CreateCollection` is an accepted call of the registry, or changes nothing.** -/
theorem createCollection_grown (i : ℤ) (ci : CollectionInfo) :
    Moves (OnMeta (Persists (GrownFrom J r₀))) (createCollection J i ci) := fun c ⟨r, hg, hr⟩ => by
  rcases createCollection_cases J i ci c with ⟨-, h⟩ | ⟨-, hdb, habs, h⟩
  · exact h.hash.grown ⟨r, hg, hr⟩
  · have hd : (r.dbs i).isSome := by simpa [hr.dbs] using hdb
    have hc : r.colls i ci.id = none := by simpa [hr.colls] using habs
    refine ⟨_, hg.trans (.call (.createCollection i ci) rfl ?_), h ▸ hr.setColl i ci⟩
    simp [Registry.apply, Option.isSome_iff_ne_none.1 hd, hc]

theorem runJob_grown (job : Job) : Moves (OnMeta (Persists (GrownFrom J r₀))) (runJob J job) :=
  runJob_moves J (onCreateSchema_moves J (fun _ _ h => h.hash.grown) createDatabase_grown
    createCollection_grown fun _ _ => (updateSchemaVersion_same _ _).mono fun _ _ => HashSame.grown) job

end Writes

variable {J : Codecs} {w : DdlWorld} {r : Registry}

/-- **The worker only adds to the registry.** From any world whose committed store holds
a registry `r`, after any events (clients enqueueing any jobs, iterations with any failures
of KV calls and commits, crashes), the committed store holds a registry that `r` reaches
by `CreateDatabase` and `CreateCollection` calls that the registry's rules accept, in
order. -/
theorem registry_grows (hr : Refines J w.meta r) (es : List DdlEvent) :
    ∃ r', r.Grows r' ∧ Refines J (w.run J es).meta r' :=
  DdlWorld.run_onMeta (S := Persists (GrownFrom J r)) runJob_grown w es ⟨r, .refl r, hr⟩

/-- The empty store, then `schemaJob` enqueued and run to the end. -/
theorem registry_grows_schemaJob :
    Refines Codecs.binary (DdlWorld.init MetaStore.empty).meta Registry.empty ∧
      ∃ r', Registry.empty.Grows r' ∧ Refines Codecs.binary ((DdlWorld.init MetaStore.empty).run
        Codecs.binary [.enqueue schemaJob, .iterate [] true, .iterate [] true]).meta r' :=
  ⟨refines_empty _, registry_grows (refines_empty _) _⟩

/-! ### What the registry returns stays returned -/

variable {c c' : Ctx} {i cid : ℤ}

/-- With no KV call failing, `GetDatabase` reads the database's field of `dbs`. -/
theorem getDatabase_nil (hf : c.faults = []) : (getDatabase J i c).1 =
    (getField (dbKey i) (c.meta.hash dbsKey)).elim (.err .dbNotExists)
      fun v => (J.db.unmarshal v).elim (.err .json) .ok := by
  simp only [getDatabase, bind_apply, hget_ok hf]
  cases getField (dbKey i) (c.meta.hash dbsKey) with
  | none => rfl
  | some v => cases hu : J.db.unmarshal v <;> simp [hu]

/-- With no KV call failing, `GetCollection` reads the database's field of `dbs` and the
collection's field of the database's hash. -/
theorem getCollection_nil (hf : c.faults = []) : (getCollection J i cid c).1 =
    (getField (dbKey i) (c.meta.hash dbsKey)).elim (.err .dbNotExists) fun _ =>
      (getField (collectionKey cid) (c.meta.hash (dbKey i))).elim (.err .collectionNotExists)
        fun v => (J.coll.unmarshal v).elim (.err .json) .ok := by
  simp only [getCollection, checkDBExists, bind_apply, hget_ok hf]
  cases getField (dbKey i) (c.meta.hash dbsKey) with
  | none => rfl
  | some _ =>
    cases hv : getField (collectionKey cid) (c.meta.hash (dbKey i)) with
    | none => simp [hget_ok hf, hv]
    | some v => cases hu : J.coll.unmarshal v <;> simp [hget_ok hf, hv, hu]

theorem getDatabase_kept (hf : c.faults = []) (hf' : c'.faults = []) (hk : FieldsKept c.meta c'.meta)
    {d : DBInfo} (h : (getDatabase J i c).1 = .ok d) : (getDatabase J i c').1 = .ok d := by
  rw [getDatabase_nil hf] at h
  rw [getDatabase_nil hf']
  cases hv : getField (dbKey i) (c.meta.hash dbsKey) with
  | none => simp [hv] at h
  | some v => rwa [hk _ _ _ hv, ← hv]

theorem getCollection_kept (hf : c.faults = []) (hf' : c'.faults = []) (hk : FieldsKept c.meta c'.meta)
    {ci : CollectionInfo} (h : (getCollection J i cid c).1 = .ok ci) :
    (getCollection J i cid c').1 = .ok ci := by
  rw [getCollection_nil hf] at h
  rw [getCollection_nil hf']
  cases hd : getField (dbKey i) (c.meta.hash dbsKey) with
  | none => simp [hd] at h
  | some _ =>
    cases hv : getField (collectionKey cid) (c.meta.hash (dbKey i)) with
    | none => simp [hd, hv] at h
    | some v => rwa [hk _ _ _ hd, hk _ _ _ hv, ← hd, ← hv]

/-- **What the registry returns stays returned.** From any world, whatever the worker and
the clients do (any jobs, any failures of KV calls and commits, crashes): a database that
`GetDatabase` returns on the committed store, and a collection that `GetCollection`
returns, are returned again, unchanged, on the committed store after it. -/
theorem registered_stable (w : DdlWorld) (es : List DdlEvent) :
    (∀ i d, (getDatabase J i ⟨w.meta, w.seqs, w.drops, []⟩).1 = .ok d →
      (getDatabase J i ⟨(w.run J es).meta, (w.run J es).seqs, (w.run J es).drops, []⟩).1 = .ok d) ∧
    ∀ i cid ci, (getCollection J i cid ⟨w.meta, w.seqs, w.drops, []⟩).1 = .ok ci →
      (getCollection J i cid ⟨(w.run J es).meta, (w.run J es).seqs, (w.run J es).drops, []⟩).1 =
        .ok ci :=
  have hk : FieldsKept w.meta (w.run J es).meta := DdlWorld.run_onMeta (runJob_keeps J) w es
  ⟨fun _ _ => getDatabase_kept rfl rfl hk, fun _ _ _ => getCollection_kept rfl rfl hk⟩

/-- `schemaJob` submitted again under the id 8, then iterations with a failed KV call, a
failed commit and none. -/
def resubmitEvents : List DdlEvent :=
  [.enqueue { schemaJob with id := 8 }, .iterate [true] true, .iterate [] false, .iterate [] true,
    .iterate [] true]

/-- After `schemaJob` has run, `GetDatabase` returns its database; it still does after the
job is submitted again and the worker runs on, with a failed KV call and a failed commit. -/
theorem registered_stable_resubmit :
    (getDatabase Codecs.binary 3 ⟨schemaWorld.meta, schemaWorld.seqs, schemaWorld.drops, []⟩).1 =
        .ok ⟨3, "d", [some ⟨4, "c", [], .public⟩], .public⟩ ∧
      (getDatabase Codecs.binary 3 ⟨(schemaWorld.run Codecs.binary resubmitEvents).meta,
        (schemaWorld.run Codecs.binary resubmitEvents).seqs,
        (schemaWorld.run Codecs.binary resubmitEvents).drops, []⟩).1 =
        .ok ⟨3, "d", [some ⟨4, "c", [], .public⟩], .public⟩ := by
  have hr : DdlWorld.Reach Codecs.binary MetaStore.empty schemaWorld :=
    .iterate [] true (.iterate [] true (.enqueue _ .init (by simp [DdlWorld.init])))
  have he : ∀ j ∈ schemaWorld.enqueued, j.Completed = false := by
    simp [schemaWorld, DdlWorld.enqueue, DdlWorld.init]
    rfl
  have hj : schemaJobSynced ∈ schemaWorld.queue.history := by
    rw [show schemaWorld.queue.history = [schemaJobSynced] from rfl]
    exact List.mem_singleton_self _
  obtain ⟨v, db, hb, -, hf⟩ := (DdlWorld.backed_of_reach hr he).history _ hj rfl
  have h0 : (getDatabase Codecs.binary db.id
      ⟨schemaWorld.meta, schemaWorld.seqs, schemaWorld.drops, []⟩).1 = .ok db := by
    simp [getDatabase, hget_ok (c := ⟨schemaWorld.meta, schemaWorld.seqs, schemaWorld.drops, []⟩) rfl, hf]
  cases hb
  exact ⟨h0, (registered_stable schemaWorld resubmitEvents).1 _ _ h0⟩

end Kvrpc
