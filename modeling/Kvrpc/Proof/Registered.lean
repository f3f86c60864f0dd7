import Kvrpc.Proof.History
import Kvrpc.Proof.Registry

/-!
# A synced job's database is registered

`onCreateSchema` registers its job's database in the `dbs` hash, in the version that
`FinishDBJob` records on the job, and leaves the job done; a later iteration archives it
as synced. Nothing the worker does after that rewrites or removes a hash field: its two
writes, `CreateDatabase` and `CreateCollection`, each first check that their field is
absent. So the database of a done or synced job stays as the job records it, through every
later iteration, whether it commits, fails or crashes.

* `MetaSame`: every step of `runJob` but those two writes and `updateSchemaVersion` leaves
  the meta store as it is, and `updateSchemaVersion` leaves the hashes (`HashSame`);
  `createDatabase_cases` and `createCollection_cases` say what the writes do.
* `FieldsKept`: every field of every hash is still there, unchanged. Whatever relation
  `MetaSame` implies and the two writes and `updateSchemaVersion` keep, `onCreateSchema` keeps
  (`onCreateSchema_moves`); whatever relation `runJob` and the KV calls keep, the worker's
  transaction function keeps (`handleJob_moves`), and a preorder of meta stores that
  `runJob` keeps relates the committed stores along any events (`DdlWorld.run_onMeta`).
* `createSchema_registers`: a `CreateSchema` run that returns leaves its job as it was, or
  done with a public database that the `dbs` hash holds as the job records it.
* `synced_getDatabase`: in every reachable world where no client enqueues a job that is
  already done or synced, each done or synced job of the list and of the history records
  a public database, and `GetDatabase` of its id on the committed store returns it.
-/

namespace Kvrpc

open Go Tx WTx Meta

/-! ### Frames -/

/-- `c'` has the meta store of `c`. -/
def MetaSame (c c' : Ctx) : Prop := c'.meta = c.meta

instance : IsRefl Ctx MetaSame := ⟨fun _ => rfl⟩

instance : IsTrans Ctx MetaSame := ⟨fun _ _ _ h h' => h'.trans h⟩

/-- `c'` has the hashes of `c`. -/
def HashSame (c c' : Ctx) : Prop := c'.meta.hash = c.meta.hash

instance : IsRefl Ctx HashSame := ⟨fun _ => rfl⟩

instance : IsTrans Ctx HashSame := ⟨fun _ _ _ h h' => h'.trans h⟩

/-- `c'` has the `dbs` hash of `c`. -/
def DbsSame (c c' : Ctx) : Prop := c'.meta.hash dbsKey = c.meta.hash dbsKey

instance : IsRefl Ctx DbsSame := ⟨fun _ => rfl⟩

instance : IsTrans Ctx DbsSame := ⟨fun _ _ _ h h' => h'.trans h⟩

/-- A relation of meta stores, read on meta transactions. -/
def OnMeta (S : MetaStore → MetaStore → Prop) (c c' : Ctx) : Prop := S c.meta c'.meta

instance {S : MetaStore → MetaStore → Prop} [IsRefl MetaStore S] : IsRefl Ctx (OnMeta S) :=
  ⟨fun c => refl c.meta⟩

instance {S : MetaStore → MetaStore → Prop} [IsTrans MetaStore S] : IsTrans Ctx (OnMeta S) :=
  ⟨fun _ _ _ h h' => @IsTrans.trans _ S _ _ _ _ h h'⟩

/-- `m'` has `P` if `m` has. -/
def Persists (P : MetaStore → Prop) (m m' : MetaStore) : Prop := P m → P m'

instance {P : MetaStore → Prop} : IsRefl MetaStore (Persists P) := ⟨fun _ => id⟩

instance {P : MetaStore → Prop} : IsTrans MetaStore (Persists P) := ⟨fun _ _ _ h h' => h' ∘ h⟩

/-- `m'` has every field of every hash of `m`, with its value. -/
def FieldsKept (m m' : MetaStore) : Prop :=
  ∀ h f v, getField f (m.hash h) = some v → getField f (m'.hash h) = some v

instance : IsRefl MetaStore FieldsKept := ⟨fun _ _ _ _ => id⟩

instance : IsTrans MetaStore FieldsKept := ⟨fun _ _ _ h h' k f v hv => h' k f v (h k f v hv)⟩

theorem MetaSame.hash {c c' : Ctx} (h : MetaSame c c') : HashSame c c' := congrArg MetaStore.hash h

theorem HashSame.dbs {c c' : Ctx} (h : HashSame c c') : DbsSame c c' := congrFun h dbsKey

theorem HashSame.kept {c c' : Ctx} (h : HashSame c c') : OnMeta FieldsKept c c' :=
  fun _ _ _ hv => h ▸ hv

theorem Go.Moves.hash {α : Type} {x : Tx α} (h : Moves MetaSame x) : Moves HashSame x :=
  h.mono fun _ _ => MetaSame.hash

theorem Go.Moves.dbs {α : Type} {x : Tx α} (h : Moves HashSame x) : Moves DbsSame x :=
  h.mono fun _ _ => HashSame.dbs

theorem Go.Moves.kept {α : Type} {x : Tx α} (h : Moves HashSame x) : Moves (OnMeta FieldsKept) x :=
  h.mono fun _ _ => HashSame.kept

/-- Setting a field that is absent keeps every field. -/
theorem fieldsKept_of_absent {m m' : MetaStore} {k f : String} {v : Bytes}
    (habs : getField f (m.hash k) = none)
    (h : m'.hash = Function.update m.hash k (setField f v (m.hash k))) : FieldsKept m m' := by
  intro k' f' v' hv
  rw [h]
  by_cases hk : k' = k
  · subst hk
    rw [Function.update_same, getField_setField, if_neg fun e => by rw [e, habs] at hv; cases hv]
    exact hv
  · rwa [Function.update_noteq hk]

/-! Every step of `runJob` but `CreateDatabase`, `CreateCollection` and
`updateSchemaVersion` leaves the meta store as it is; `updateSchemaVersion` leaves the
hashes. -/

section Same

variable (J : Codecs)

theorem kv_same : Moves MetaSame kv := fun c => by
  obtain ⟨fs, h | h⟩ := kv_cases c <;> rw [h] <;> rfl

theorem readCounter_same (b : Option Bytes) : Moves MetaSame (readCounter b) := by
  unfold readCounter
  split
  · exact .pure' _
  · split
    · exact .pure' _
    · exact fun c => refl c

theorem hget_same (h f : String) : Moves MetaSame (hget h f) :=
  .bind kv_same fun _ => .bind (fun c => refl c) fun _ => .pure' _

theorem hgetAll_same (h : String) : Moves MetaSame (hgetAll h) :=
  .bind kv_same fun _ => .bind (fun c => refl c) fun _ => .pure' _

theorem inc_same (k : String) (step : ℤ) : Moves HashSame (inc k step) :=
  .bind kv_same.hash fun _ => .bind (fun c => refl c) fun _ => .bind (readCounter_same _).hash fun _ =>
    .bind (fun _ => rfl) fun _ => .pure' _

/-- `HSet` on any hash but `dbs`. -/
theorem hset_same {h : String} (hh : h ≠ dbsKey) (f : String) (v : Bytes) :
    Moves DbsSame (hset h f v) :=
  .bind kv_same.hash.dbs fun _ _ => Function.update_noteq hh.symm _ _

theorem checkDBExists_same (k : String) : Moves MetaSame (checkDBExists k) :=
  .bind (hget_same _ _) fun | none => .throw' _ | some _ => .pure' _

theorem checkDBNotExists_same (k : String) : Moves MetaSame (checkDBNotExists k) :=
  .bind (hget_same _ _) fun | none => .pure' _ | some _ => .throw' _

theorem checkCollectionNotExists_same (k f : String) :
    Moves MetaSame (checkCollectionNotExists k f) :=
  .bind (hget_same _ _) fun | none => .pure' _ | some _ => .throw' _

theorem checkCollectionExists_same (k f : String) : Moves MetaSame (checkCollectionExists k f) :=
  .bind (hget_same _ _) fun | none => .throw' _ | some _ => .pure' _

theorem createCollection_same (dbID : ℤ) (ci : CollectionInfo) :
    Moves DbsSame (createCollection J dbID ci) :=
  .bind (checkDBExists_same _).hash.dbs fun _ => .bind (checkCollectionNotExists_same _ _).hash.dbs fun _ =>
    hset_same (dbKey_ne_dbsKey dbID) _ _

theorem createSequence_same (dbID cid : ℤ) : Moves MetaSame (createSequence dbID cid) :=
  .bind kv_same fun _ _ => rfl

theorem publicIndices_same : ∀ is, Moves MetaSame (publicIndices is)
  | [] => .pure' _
  | _ :: is => .bind (.deref' _) fun _ => .bind (publicIndices_same is) fun _ => .pure' _

theorem createSequences_same (dbID : ℤ) : ∀ cs, Moves MetaSame (createSequences dbID cs)
  | [] => .pure' _
  | _ :: cs => .bind (.deref' _) fun c => .bind (.attempt' (createSequence_same dbID c.id)) fun
    | .error _ => .pure' _
    | .ok () => .bind (publicIndices_same _) fun _ => .bind (createSequences_same dbID cs) fun
      | .error _ => .pure' _
      | .ok _ => .pure' _

theorem collectionIDs_same : ∀ cs, Moves MetaSame (collectionIDs cs)
  | [] => .pure' _
  | _ :: cs => .bind (.deref' _) fun _ => .bind (collectionIDs_same cs) fun _ => .pure' _

theorem updateSchemaVersion_same (job : Job) (arg : DBInfo) :
    Moves HashSame (updateSchemaVersion job arg) := by
  have hids : Moves HashSame (job2CollectionIDs job arg) := by
    unfold job2CollectionIDs
    split
    exacts [(collectionIDs_same _).hash, .pure' _]
  exact .bind (.attempt' (inc_same _ _)) fun
    | .error _ => .pure' _
    | .ok _ => .bind hids fun _ =>
      .bind (.attempt' (.bind kv_same.hash fun _ _ => rfl)) fun
        | .error _ => .pure' _
        | .ok () => .pure' _

theorem decodeDatabases_same : ∀ fs, Moves MetaSame (decodeDatabases J fs)
  | [] => .pure' _
  | (_, v) :: rest => by
    simp only [decodeDatabases]
    split
    exacts [.throw' _, .bind (decodeDatabases_same rest) fun _ => .pure' _]

theorem checkDBNameNotExists_same (name : String) : Moves MetaSame (checkDBNameNotExists J name) :=
  .bind (.bind (hgetAll_same _) (decodeDatabases_same J)) fun _ => .pure' _

theorem dropSequences_same : ∀ cs, Moves MetaSame (dropSequences cs)
  | [] => .pure' _
  | _ :: cs => .bind (.deref' _) fun c =>
    .bind (fun _ => by simp only [dropSequenceIfExists, modifyCtx_apply]; split <;> rfl) fun _ =>
      dropSequences_same cs

/-- `runJob` moves the meta transaction only through `onCreateSchema`. -/
theorem runJob_moves {R : Ctx → Ctx → Prop} [IsRefl Ctx R] (hon : ∀ job, Moves R (onCreateSchema J job))
    (job : Job) : Moves R (runJob J job) := by
  unfold runJob
  split
  · exact .pure' _
  · split
    exacts [hon job, .pure' _]

end Same

/-! ### The two writes add a field where there is none -/

section Writes

variable (J : Codecs) {c c' : Ctx}

/-- `HGet` returns the field, and leaves the meta store as it is. -/
theorem hget_eq_ok {k f : String} {o : Option Bytes} (h : hget k f c = (.ok o, c')) :
    o = getField f (c.meta.hash k) ∧ c'.meta = c.meta := by
  obtain ⟨fs, hk | hk⟩ := kv_cases c <;> simp only [hget, bind_apply, hk, getMeta_apply, pure_apply,
    Prod.mk.injEq, Res.ok.injEq, reduceCtorEq, false_and] at h
  obtain ⟨rfl, rfl⟩ := h
  exact ⟨rfl, rfl⟩

theorem checkDBNotExists_eq_ok {k : String} (h : checkDBNotExists k c = (.ok (), c')) :
    getField k (c.meta.hash dbsKey) = none ∧ c'.meta = c.meta := by
  obtain ⟨o, c1, h1, h⟩ := bind_eq_ok h
  obtain ⟨rfl, hm⟩ := hget_eq_ok h1
  cases ho : getField k (c.meta.hash dbsKey) <;> rw [ho] at h <;> cases h
  exact ⟨rfl, hm⟩

theorem checkDBExists_eq_ok {k : String} (h : checkDBExists k c = (.ok (), c')) :
    (getField k (c.meta.hash dbsKey)).isSome ∧ c'.meta = c.meta := by
  obtain ⟨o, c1, h1, h⟩ := bind_eq_ok h
  obtain ⟨rfl, hm⟩ := hget_eq_ok h1
  cases ho : getField k (c.meta.hash dbsKey) <;> rw [ho] at h <;> cases h
  exact ⟨rfl, hm⟩

theorem checkCollectionNotExists_eq_ok {k f : String} (h : checkCollectionNotExists k f c = (.ok (), c')) :
    getField f (c.meta.hash k) = none ∧ c'.meta = c.meta := by
  obtain ⟨o, c1, h1, h⟩ := bind_eq_ok h
  obtain ⟨rfl, hm⟩ := hget_eq_ok h1
  cases ho : getField f (c.meta.hash k) <;> rw [ho] at h <;> cases h
  exact ⟨rfl, hm⟩

/-- `HSet` sets its field, or, when its KV call fails, leaves the meta store as it is. -/
theorem hset_cases (k f : String) (v : Bytes) (c : Ctx) :
    (hset k f v c).1 = .ok () ∧ (hset k f v c).2.meta =
        { c.meta with hash := Function.update c.meta.hash k (setField f v (c.meta.hash k)) } ∨
      (hset k f v c).1 ≠ .ok () ∧ MetaSame c (hset k f v c).2 := by
  obtain ⟨fs, h | h⟩ := kv_cases c <;> simp [hset, modifyHash, h, MetaSame]

/-- What `CreateDatabase` does: it fails and leaves the meta store as it is, or it sets the
database under its field of `dbs`, which was absent. -/
theorem createDatabase_cases (d : DBInfo) (c : Ctx) :
    (createDatabase J d c).1 ≠ .ok () ∧ MetaSame c (createDatabase J d c).2 ∨
      (createDatabase J d c).1 = .ok () ∧ getField (dbKey d.id) (c.meta.hash dbsKey) = none ∧
        (createDatabase J d c).2.meta =
          { c.meta with
              hash := Function.update c.meta.hash dbsKey
                (setField (dbKey d.id) (J.db.marshal d) (c.meta.hash dbsKey)) } := by
  simp only [createDatabase, bind_apply]
  rcases h1 : checkDBNotExists (dbKey d.id) c with ⟨_ | _ | _, c1⟩ <;>
    have hs : MetaSame c c1 := (checkDBNotExists_same _).of_eq h1
  · obtain ⟨habs, -⟩ := checkDBNotExists_eq_ok h1
    rcases hset_cases dbsKey (dbKey d.id) (J.db.marshal d) c1 with ⟨h2, h3⟩ | ⟨h2, h3⟩
    · exact .inr ⟨h2, habs, by rw [h3, hs]⟩
    · exact .inl ⟨h2, h3.trans hs⟩
  all_goals exact .inl ⟨by simp, hs⟩

/-- What `CreateCollection` does: it fails and leaves the meta store as it is, or, with its
database registered, it sets the collection under its field of the database's hash, which
was absent. -/
theorem createCollection_cases (i : ℤ) (ci : CollectionInfo) (c : Ctx) :
    (createCollection J i ci c).1 ≠ .ok () ∧ MetaSame c (createCollection J i ci c).2 ∨
      (createCollection J i ci c).1 = .ok () ∧ (getField (dbKey i) (c.meta.hash dbsKey)).isSome ∧
        getField (collectionKey ci.id) (c.meta.hash (dbKey i)) = none ∧
        (createCollection J i ci c).2.meta =
          { c.meta with
              hash := Function.update c.meta.hash (dbKey i)
                (setField (collectionKey ci.id) (J.coll.marshal ci) (c.meta.hash (dbKey i))) } := by
  simp only [createCollection, bind_apply]
  rcases h1 : checkDBExists (dbKey i) c with ⟨_ | _ | _, c1⟩ <;>
    have hs1 : MetaSame c c1 := (checkDBExists_same _).of_eq h1
  · obtain ⟨hdb, -⟩ := checkDBExists_eq_ok h1
    dsimp only
    rcases h2 : checkCollectionNotExists (dbKey i) (collectionKey ci.id) c1 with ⟨_ | _ | _, c2⟩ <;>
      have hs2 : MetaSame c1 c2 := (checkCollectionNotExists_same _ _).of_eq h2
    · obtain ⟨habs, -⟩ := checkCollectionNotExists_eq_ok h2
      rw [hs1] at habs
      rcases hset_cases (dbKey i) (collectionKey ci.id) (J.coll.marshal ci) c2 with ⟨h3, h4⟩ | ⟨h3, h4⟩
      · exact .inr ⟨h3, hdb, habs, by rw [h4, hs2, hs1]⟩
      · exact .inl ⟨h3, h4.trans (hs2.trans hs1)⟩
    all_goals exact .inl ⟨by simp, hs2.trans hs1⟩
  all_goals exact .inl ⟨by simp, hs1⟩

/-- **`CreateDatabase` overwrites no field.** -/
theorem createDatabase_keeps (d : DBInfo) : Moves (OnMeta FieldsKept) (createDatabase J d) := fun c => by
  rcases createDatabase_cases J d c with ⟨-, h⟩ | ⟨-, habs, h⟩
  exacts [h.hash.kept, fieldsKept_of_absent habs (congrArg MetaStore.hash h)]

/-- **`CreateCollection` overwrites no field.** -/
theorem createCollection_keeps (i : ℤ) (ci : CollectionInfo) :
    Moves (OnMeta FieldsKept) (createCollection J i ci) := fun c => by
  rcases createCollection_cases J i ci c with ⟨-, h⟩ | ⟨-, -, habs, h⟩
  exacts [h.hash.kept, fieldsKept_of_absent habs (congrArg MetaStore.hash h)]

theorem createDatabase_registers {d : DBInfo} (h : createDatabase J d c = (.ok (), c')) :
    getField (dbKey d.id) (c'.meta.hash dbsKey) = some (J.db.marshal d) := by
  rcases createDatabase_cases J d c with ⟨hr, -⟩ | ⟨-, -, hs⟩
  · exact absurd (by rw [h]) hr
  · simp only [h] at hs
    simp [hs]

variable {R : Ctx → Ctx → Prop} [IsRefl Ctx R] [IsTrans Ctx R]

theorem createCollections_moves (hcoll : ∀ i ci, Moves R (createCollection J i ci)) (dbID : ℤ) :
    ∀ cs, Moves R (createCollections J dbID cs)
  | [] => .pure' _
  | _ :: cs => .bind (.deref' _) fun c => .bind (hcoll dbID c) fun _ =>
    createCollections_moves hcoll dbID cs

/-- **`onCreateSchema` moves the meta transaction only through its two writes and
`updateSchemaVersion`**: it keeps whatever relation `MetaSame` implies and they keep. -/
theorem onCreateSchema_moves (hsame : ∀ c c', MetaSame c c' → R c c')
    (hdb : ∀ d, Moves R (createDatabase J d)) (hcoll : ∀ i ci, Moves R (createCollection J i ci))
    (hver : ∀ job arg, Moves R (updateSchemaVersion job arg)) (job : Job) :
    Moves R (onCreateSchema J job) := by
  have hcs (d : DBInfo) : Moves R (createSchema J job d) :=
    .bind ((createSequences_same _ _).mono hsame) fun
      | .error _ => .pure' _
      | .ok _ => .bind (.attempt' (hdb _)) fun
        | .error _ => .pure' _
        | .ok () => .bind (.attempt' (createCollections_moves J hcoll _ _)) fun
          | .error _ => .pure' _
          | .ok () => .bind (hver _ _) fun
            | (_, some _) => .pure' _
            | (_, none) => .pure' _
  unfold onCreateSchema
  split
  · exact .pure' _
  · exact .bind (.attempt' ((checkDBNameNotExists_same J _).mono hsame)) fun
      | .error _ => .pure' _
      | .ok true => .pure' _
      | .ok false => .bind (hcs _) fun _ =>
        .ite' (.bind ((dropSequences_same _).mono hsame) fun _ => .pure' _)
          (.bind (.pure' _) fun _ => .pure' _)

/-- **`runJob` overwrites no field.** -/
theorem runJob_keeps (job : Job) : Moves (OnMeta FieldsKept) (runJob J job) :=
  runJob_moves J (onCreateSchema_moves J (fun _ _ h => h.hash.kept) (createDatabase_keeps J)
    (createCollection_keeps J) fun _ _ => (updateSchemaVersion_same _ _).kept) job

end Writes

/-! ### The worker's transaction function

Outside `runJob`, the transaction function reaches the meta store only through the KV
calls of the queue operations, which leave it as it is: whatever `runJob` keeps, the
transaction function keeps. -/

section Worker

variable (J : Codecs) {R : Ctx → Ctx → Prop} [IsRefl Ctx R] [IsTrans Ctx R]

theorem runGuarded_moves (hrun : ∀ job, Moves R (runJob J job)) (l : Locals) (job : Job) :
    Moves (OnCtx R) (runGuarded J l job) :=
  .bind (.recover' (OnCtx.lift' (hrun job))) fun | some _ => .pure' _ | none => .pure' _

variable (hkv : Moves R kv)
include hkv

theorem getFirstJob_moves : Moves (OnCtx R) getFirstJob :=
  .bind (OnCtx.lift' hkv) fun _ => .bind OnCtx.getQueue' fun _ => .pure' _

theorem finishJob_moves (job : Job) : Moves (OnCtx R) (finishJob job) := by
  refine .bind (.bind (OnCtx.lift' hkv) fun _ => .bind OnCtx.getQueue' fun _ => ?_) fun _ =>
    .bind (OnCtx.lift' hkv) fun _ => OnCtx.modifyQueue' _
  split
  exacts [.pure' _, .bind (OnCtx.modifyQueue' _) fun _ => .pure' _]

theorem updateJob_moves (job : Job) : Moves (OnCtx R) (updateJob job) :=
  .bind (OnCtx.lift' hkv) fun _ => .bind OnCtx.getQueue' fun _ =>
    .ite' (OnCtx.modifyQueue' _) (.throw' _)

theorem afterRun_moves (l : Locals) (job : Job) : Moves (OnCtx R) (afterRun l job) := by
  have hend {f : WTx Unit} (hf : Moves (OnCtx R) f) : Moves (OnCtx R) (endWith l f) :=
    .bind (.attempt' hf) fun _ => .pure' _
  unfold afterRun
  split
  · exact .ite' (hend (finishJob_moves hkv _))
      (.ite' (hend (finishJob_moves hkv _)) (hend (updateJob_moves hkv _)))
  · exact .ite' (hend (finishJob_moves hkv _)) (hend (updateJob_moves hkv _))

theorem handleJob_moves (hrun : ∀ job, Moves R (runJob J job)) (l : Locals) :
    Moves (OnCtx R) (handleJob J l) :=
  .bind (.attempt' (getFirstJob_moves hkv)) fun
    | .error _ => .pure' _
    | .ok none => .pure' _
    | .ok (some _) => .ite' (.bind (.attempt' (finishJob_moves hkv _)) fun _ => .pure' _)
      (.bind (runGuarded_moves J hrun l _) fun _ => afterRun_moves hkv _ _)

end Worker

/-- **The transaction function runs `runJob` at most once**, and its other steps leave the
meta store as it is: it moves along any relation that `runJob` moves along and that extends
over such steps on either side. -/
theorem handleJob_moves_once (J : Codecs) {R : Ctx → Ctx → Prop} [IsRefl Ctx R]
    (hl : ∀ c c' c'', MetaSame c c' → R c' c'' → R c c'')
    (hr : ∀ c c' c'', R c c' → MetaSame c' c'' → R c c'')
    (hrun : ∀ job, Moves R (runJob J job)) (l : Locals) : Moves (OnCtx R) (handleJob J l) :=
  have hsame (w w' : WCtx) (h : OnCtx MetaSame w w') : OnCtx R w w' := hr _ _ _ (refl _) h
  .bind_comp (.attempt' (getFirstJob_moves kv_same)) (fun
    | .error _ => .pure' _
    | .ok none => .pure' _
    | .ok (some _) =>
      .ite' ((Moves.bind (.attempt' (finishJob_moves kv_same _)) fun _ => .pure' _).mono hsame)
        (.bind_comp (S := OnCtx MetaSame)
          (.bind_comp (S := OnCtx MetaSame) (.recover' (OnCtx.lift' (hrun _)))
            (fun | some _ => .pure' _ | none => .pure' _) (fun _ _ => id) fun _ _ _ => hr _ _ _)
          (fun _ => afterRun_moves kv_same _ _) (fun _ _ => id) fun _ _ _ => hr _ _ _))
    hsame fun _ _ _ => hl _ _ _

/-! ### The committed store along any events -/

section Runs

variable {J : Codecs} {S : MetaStore → MetaStore → Prop} [IsRefl MetaStore S]

theorem kv_onMeta : Moves (OnMeta S) kv := fun c => by
  obtain ⟨_, h | h⟩ := kv_cases c <;> rw [h] <;> exact refl c.meta

variable [IsTrans MetaStore S] (hrun : ∀ job, Moves (OnMeta S) (runJob J job))
include hrun

/-- An iteration commits what the transaction function leaves, or nothing. -/
theorem DdlWorld.iterate_onMeta (w : DdlWorld) (faults : List Bool) (commitOk : Bool) :
    S w.meta (w.iterate J faults commitOk).meta := by
  rcases DdlWorld.iterate_cases faults commitOk with ⟨-, he⟩ | ⟨l', t, ht, -, he⟩ <;> rw [he]
  exacts [refl _, (handleJob_moves J kv_onMeta hrun _).of_eq ht]

/-- **A preorder of meta stores that `runJob` keeps relates the committed store of any
world to the committed store after any events**: clients only enqueue, and an iteration
commits what its transaction function leaves, or nothing. -/
theorem DdlWorld.run_onMeta (w : DdlWorld) (es : List DdlEvent) : S w.meta (w.run J es).meta := by
  induction es generalizing w with
  | nil => exact refl _
  | cons e es ih =>
    refine @IsTrans.trans _ S _ _ _ _ ?_ (ih (w.step J e))
    cases e with
    | enqueue job => exact refl _
    | iterate faults commitOk => exact DdlWorld.iterate_onMeta hrun w faults commitOk

/-- The same along the worlds reachable from `init m`. -/
theorem DdlWorld.onMeta_of_reach {m : MetaStore} {w : DdlWorld} (h : DdlWorld.Reach J m w) : S m w.meta := by
  induction h with
  | init => exact refl _
  | enqueue _ _ _ ih => exact ih
  | iterate faults commitOk _ ih => exact @IsTrans.trans _ S _ _ _ _ ih (DdlWorld.iterate_onMeta hrun _ faults commitOk)

end Runs

/-! ### A done job's database -/

/-- The job records a version and a public database, which `m` registers as recorded. -/
def Job.Registered (J : Codecs) (m : MetaStore) (j : Job) : Prop :=
  ∃ v db, j.binlog = some (v, db) ∧ db.state = .public ∧
    getField (dbKey db.id) (m.hash dbsKey) = some (J.db.marshal db)

/-- The job ran to the end: done, or synced. -/
def Job.Completed (j : Job) : Bool := j.IsDone || j.IsSynced

/-- If the job ran to the end, its database is registered. -/
def Job.Backed (J : Codecs) (m : MetaStore) (j : Job) : Prop :=
  j.Completed = true → j.Registered J m

variable {J : Codecs} {job j : Job} {c c' : Ctx} {out : RunOut}

theorem Job.Registered.mono (h : j.Registered J c.meta) (hk : OnMeta FieldsKept c c') :
    j.Registered J c'.meta :=
  let ⟨v, db, hb, hs, hf⟩ := h
  ⟨v, db, hb, hs, hk _ _ _ hf⟩

theorem Job.Backed.mono (h : j.Backed J c.meta) (hk : OnMeta FieldsKept c c') : j.Backed J c'.meta :=
  fun hc => (h hc).mono hk

theorem createSchema_registers {d : DBInfo} (h : createSchema J job d c = (.ok out, c')) :
    out.job = job ∨ out.job.Registered J c'.meta := by
  obtain ⟨r, c1, -, h1⟩ := bind_eq_ok h
  rcases r with e | cs
  · cases h1
    exact .inl rfl
  obtain ⟨r, c2, hdb, h2⟩ := bind_eq_ok h1
  rcases attempt_eq_ok hdb with ⟨a, rfl, hd⟩ | ⟨e, rfl, -⟩
  swap
  · cases h2
    exact .inl rfl
  obtain ⟨r, c3, hcs, h3⟩ := bind_eq_ok h2
  have k3 := (Moves.attempt' (createCollections_moves J (createCollection_keeps J) d.id cs)).of_eq hcs
  rcases r with e | _
  · cases h3
    exact .inl rfl
  obtain ⟨⟨v, e⟩, c4, hv, h4⟩ := bind_eq_ok h3
  have k4 := (updateSchemaVersion_same _ _).kept.of_eq hv
  cases e
  · cases h4
    exact .inr ⟨v, _, rfl, rfl, k4 _ _ _ (k3 _ _ _ (createDatabase_registers J hd))⟩
  · cases h4
    exact .inl rfl

theorem onCreateSchema_registers (h : onCreateSchema J job c = (.ok out, c')) :
    out.job = job ∨ out.job = { job with state := .cancelled } ∨ out.job.Registered J c'.meta := by
  unfold onCreateSchema at h
  cases ha : job.rawArg <;> simp only [ha] at h
  · cases h
    exact .inr (.inl rfl)
  obtain ⟨r, c1, -, h1⟩ := bind_eq_ok h
  rcases r with e | _ | _
  · cases h1
    exact .inl rfl
  · obtain ⟨o, c2, hs, h2⟩ := bind_eq_ok h1
    have k3 := (Moves.ite' (.bind (dropSequences_same _).hash.kept fun _ => .pure' _)
      (.bind (.pure' ()) fun _ => .pure' o)).of_eq h2
    obtain rfl : o = out := by
      split at h2 <;> obtain ⟨_, _, _, h2⟩ := bind_eq_ok h2 <;> cases h2 <;> rfl
    exact (createSchema_registers hs).imp_right fun hr => .inr (hr.mono k3)
  · cases h1
    exact .inl rfl

/-- **A job that `runJob` hands back done has its database registered**, if the job it was
given had. -/
theorem runJob_registers (h : runJob J job c = (.ok out, c')) (hj : job.Backed J c.meta) :
    out.job.Backed J c'.meta := by
  have hk := (runJob_keeps J job).of_eq h
  unfold runJob at h
  by_cases hf : job.IsFinished = true
  · rw [if_pos hf] at h
    cases h
    exact hj.mono hk
  rw [if_neg hf] at h
  rcases ht : job.type with _ | _ | _ | n <;> simp only [ht] at h
  · rcases onCreateSchema_registers h with he | he | hr
    · exact he ▸ hj.mono hk
    · exact fun hc => by rw [he] at hc; cases hc
    · exact fun _ => hr
  all_goals
    cases h
    exact fun hc => nomatch hc

/-! ### The worker keeps done jobs backed -/

theorem runGuarded_registers {l l' : Locals} {j' : Job} {w w' : WCtx}
    (h : runGuarded J l job w = (.ok (l', j'), w')) (hj : job.Backed J w.ctx.meta) :
    j'.Backed J w'.ctx.meta := by
  obtain ⟨o, w1, h1, h⟩ := bind_eq_ok h
  simp only [recover, lift_apply] at h1
  rcases hx : runJob J job w.ctx with ⟨_ | _ | _, c⟩ <;> rw [hx] at h1 <;> cases h1
  · cases h
    exact runJob_registers hx hj
  · cases h
    exact fun hc => nomatch hc

/-- Every done or synced job of the list and of the history has its database registered. -/
structure Queue.Backed (J : Codecs) (m : MetaStore) (q : Queue) : Prop where
  jobs : ∀ j ∈ q.jobs, j.Backed J m
  history : ∀ j ∈ q.history, j.Backed J m

namespace Queue.Backed

variable {q : Queue} {l l' : Locals}

theorem mono (hi : q.Backed J c.meta) (hk : OnMeta FieldsKept c c') : q.Backed J c'.meta :=
  ⟨fun j hj => (hi.jobs j hj).mono hk, fun j hj => (hi.history j hj).mono hk⟩

theorem archive {m : MetaStore} (hi : q.Backed J m) (hj : j.Backed J m) :
    Queue.Backed J m ⟨q.jobs.tail, putHistory j q.history⟩ where
  jobs x hx := hi.jobs x (List.mem_of_mem_tail hx)
  history x hx := (putHistory_mem hx).elim (· ▸ hj) (hi.history x)

theorem writeBack {m : MetaStore} (hi : q.Backed J m) (hj : j.Backed J m) :
    Queue.Backed J m { q with jobs := q.jobs.set 0 j } where
  jobs x hx := (List.mem_or_eq_of_mem_set hx).elim (hi.jobs x) (· ▸ hj)
  history := hi.history

theorem afterRun {w t : WCtx} (hi : w.queue.Backed J w.ctx.meta) (hj : job.Backed J w.ctx.meta)
    (h : Kvrpc.afterRun l job w = (.ok (l', none), t)) : t.queue.Backed J t.ctx.meta := by
  have hk : OnMeta FieldsKept w.ctx t.ctx := (afterRun_moves kv_same.hash.kept l job).of_eq h
  have hr : (l.runJobErr.elim job job.recordError).Backed J w.ctx.meta := by
    cases l.runJobErr <;> exact hj
  rcases afterRun_cases h with ⟨hq, -⟩ | hq <;> rw [hq]
  · exact (hi.archive hr).mono hk
  · exact (hi.writeBack hr).mono hk

/-- **The transaction function keeps every done or synced job's database registered.** A
done head is archived synced, with the database it records; a run hands back a done job
only with its database registered; and no database registered before is touched. -/
theorem handleJob {t : WCtx} (hi : q.Backed J c.meta)
    (h : Kvrpc.handleJob J l ⟨c, q⟩ = (.ok (l', none), t)) : t.queue.Backed J t.ctx.meta := by
  have hk : OnMeta FieldsKept c t.ctx := (handleJob_moves J kv_same.hash.kept (runJob_keeps J) l).of_eq h
  rcases handleJob_cases h with hq | ⟨job, rest, hjobs, ⟨hd, hq⟩ | ⟨w₁, w₂, l₂, j₂, hf, hr, ha⟩⟩
  · exact hq ▸ hi.mono hk
  all_goals have hb : job.Backed J c.meta := hi.jobs job (by rw [hjobs]; exact List.mem_cons_self _ _)
  · have hj : (if !job.IsRollbackDone then { job with state := .synced } else job).Backed J c.meta := by
      split
      · exact fun _ => hb (by simp_all [Job.Completed])
      · exact hb
    have := (hi.archive hj).mono hk
    rw [hjobs] at this
    exact hq ▸ this
  · have k1 : OnMeta FieldsKept c w₁.ctx := (getFirstJob_moves kv_same.hash.kept).of_eq hf
    have k2 : OnMeta FieldsKept w₁.ctx w₂.ctx := (runGuarded_moves J (runJob_keeps J) l job).of_eq hr
    refine Queue.Backed.afterRun ?_ (runGuarded_registers hr (hb.mono k1)) ha
    rw [(runGuarded_cases hr).1, (getFirstJob_spec hf).1]
    exact (hi.mono k1).mono k2

end Queue.Backed

namespace DdlWorld

variable {m : MetaStore} {w : DdlWorld}

theorem backed_iterate (hi : w.queue.Backed J w.meta) (faults : List Bool) (commitOk : Bool) :
    (w.iterate J faults commitOk).queue.Backed J (w.iterate J faults commitOk).meta := by
  rcases iterate_cases faults commitOk with ⟨hq, hm⟩ | ⟨l', t, h, hq, hm⟩ <;> rw [hq, hm]
  exacts [hi, hi.handleJob h]

/-- In every reachable world whose clients enqueued no done or synced job, every done or
synced job of the list and of the history has its database registered. -/
theorem backed_of_reach (h : Reach J m w) (he : ∀ j ∈ w.enqueued, j.Completed = false) :
    w.queue.Backed J w.meta := by
  induction h with
  | init => exact ⟨(fun _ h => nomatch h), (fun _ h => nomatch h)⟩
  | enqueue job _ _ ih =>
    simp only [DdlWorld.enqueue, List.mem_append, List.mem_singleton] at he
    have hi := ih fun j hj => he j (.inl hj)
    refine ⟨fun x hx => (List.mem_append.1 hx).elim (hi.jobs x) fun hx => ?_, hi.history⟩
    rw [List.mem_singleton.1 hx]
    exact fun hc => (Bool.false_ne_true ((he job (.inr rfl)).symm.trans hc)).elim
  | iterate faults commitOk _ ih =>
    rw [iterate_enqueued] at he
    exact backed_iterate (ih he) faults commitOk

end DdlWorld

/-- **A done or synced job's database is registered.** In every world the worker and the
clients reach, with any failures of KV calls and commits and any crashes, when no client
enqueues a job that is already done or synced: every done or synced job of the list and
of the history records a version and a public database, and `GetDatabase` of that
database's id on the committed store returns it, as recorded. -/
theorem synced_getDatabase {m : MetaStore} {w : DdlWorld} (h : DdlWorld.Reach J m w)
    (he : ∀ j ∈ w.enqueued, j.Completed = false) (hj : j ∈ w.queue.jobs ++ w.queue.history)
    (hc : j.Completed = true) :
    ∃ v db, j.binlog = some (v, db) ∧ db.state = .public ∧
      (getDatabase J db.id ⟨w.meta, w.seqs, w.drops, []⟩).1 = .ok db := by
  have hi := DdlWorld.backed_of_reach h he
  obtain ⟨v, db, hb, hs, hf⟩ := (List.mem_append.1 hj).elim (hi.jobs j) (hi.history j) hc
  exact ⟨v, db, hb, hs, by simp [getDatabase, hget_ok (c := ⟨w.meta, w.seqs, w.drops, []⟩) rfl, hf]⟩

/-- A `CreateSchema` job for the database 3 with the collection 4. -/
def schemaJob : Job :=
  ⟨7, .createSchema, .none, .none, none, 0, some ⟨3, "d", [some ⟨4, "c", [], .none⟩], .none⟩, none⟩

/-- The job, enqueued on an empty store, run to done, then archived. -/
def schemaWorld : DdlWorld :=
  (((DdlWorld.init MetaStore.empty).enqueue schemaJob).iterate Codecs.binary [] true).iterate
    Codecs.binary [] true

/-- What the worker archives: the job synced, with the version 1 and the public database. -/
def schemaJobSynced : Job :=
  { schemaJob.finishDBJob .done .public 1 ⟨3, "d", [some ⟨4, "c", [], .public⟩], .public⟩ with
    state := .synced }

theorem synced_getDatabase_schemaJob :
    DdlWorld.Reach Codecs.binary MetaStore.empty schemaWorld ∧
      (∀ j ∈ schemaWorld.enqueued, j.Completed = false) ∧
      schemaJobSynced ∈ schemaWorld.queue.jobs ++ schemaWorld.queue.history ∧
      schemaJobSynced.Completed = true ∧
      ∃ v db, schemaJobSynced.binlog = some (v, db) ∧ db.state = .public ∧
        (getDatabase Codecs.binary db.id ⟨schemaWorld.meta, schemaWorld.seqs, schemaWorld.drops, []⟩).1 =
          .ok db := by
  have hr : DdlWorld.Reach Codecs.binary MetaStore.empty schemaWorld :=
    .iterate [] true (.iterate [] true (.enqueue _ .init (by simp [DdlWorld.init])))
  have he : ∀ j ∈ schemaWorld.enqueued, j.Completed = false := by
    simp [schemaWorld, DdlWorld.enqueue, DdlWorld.init]
    rfl
  have hj : schemaJobSynced ∈ schemaWorld.queue.jobs ++ schemaWorld.queue.history := by
    rw [show schemaWorld.queue = ⟨[], [schemaJobSynced]⟩ from rfl]
    exact List.mem_singleton_self _
  exact ⟨hr, he, hj, rfl, synced_getDatabase hr he hj rfl⟩
end Kvrpc
