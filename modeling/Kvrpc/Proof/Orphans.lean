import Kvrpc.Proof.Registered

/-!
# No field outlives its database

The hash `db:<id>` holds the collections and counters of a database. Every call that writes
it first checks, in the same transaction, that the database is registered, and
`DropDatabase` clears it before it deletes the database from `dbs`. So a field of the hash
of a database that is not registered never appears: not after a KV call fails half-way
through a call, and not through the worker. Were the two writes of `DropDatabase` the other
way round, a failure between them would leave the collections of an unregistered database,
and a later `CreateDatabase` of its id would bring them back.

* `NoOrphans`: every database whose hash holds a field is registered.
* `OnlyDb`: a step writes at most the hash of one database; after `checkDBExists` of that
  database it keeps `NoOrphans` (`checkDBExists_then`).
* `MetaCall.exec_noOrphans`: every call of the registry keeps `NoOrphans`, whatever its KV
  calls return.
* `noOrphans_kept`: so do any calls one after another, and any run of the worker.
-/

namespace Kvrpc

open Go Tx Meta

/-- Every database whose hash holds a field is registered. -/
def NoOrphans (m : MetaStore) : Prop :=
  ∀ i, m.hash (dbKey i) ≠ [] → (getField (dbKey i) (m.hash dbsKey)).isSome

/-- `c'` differs from `c` at most in the hash of the database `i`. -/
def OnlyDb (i : ℤ) (c c' : Ctx) : Prop := ∀ h, h ≠ dbKey i → c'.meta.hash h = c.meta.hash h

instance {i : ℤ} : IsRefl Ctx (OnlyDb i) := ⟨fun _ _ _ => rfl⟩

instance {i : ℤ} : IsTrans Ctx (OnlyDb i) := ⟨fun _ _ _ h h' k hk => (h' k hk).trans (h k hk)⟩

variable {i : ℤ} {c c' : Ctx} {m m' : MetaStore}

theorem MetaSame.onlyDb (h : MetaSame c c') : OnlyDb i c c' := fun _ _ => by rw [h]

theorem Go.Moves.onlyDb {α : Type} {x : Tx α} (h : Moves MetaSame x) : Moves (OnlyDb i) x :=
  h.mono fun _ _ => MetaSame.onlyDb

theorem Go.Moves.persists {α : Type} {P : MetaStore → Prop} {x : Tx α} (h : Moves MetaSame x) :
    Moves (OnMeta (Persists P)) x :=
  h.mono fun _ _ h hp => h ▸ hp

/-! ### Each write -/

/-- A write to the hash of a registered database. -/
theorem NoOrphans.onlyDb (h : NoOrphans m) (hreg : (getField (dbKey i) (m.hash dbsKey)).isSome)
    (ho : ∀ k, k ≠ dbKey i → m'.hash k = m.hash k) : NoOrphans m' := fun j hj => by
  rw [ho dbsKey (dbKey_ne_dbsKey i).symm]
  by_cases hji : j = i
  · exact hji ▸ hreg
  · rw [ho (dbKey j) (by simpa using hji)] at hj
    exact h j hj

/-- Setting a field of `dbs` registers more. -/
theorem NoOrphans.setDbs (h : NoOrphans m) (f : String) (v : Bytes) :
    NoOrphans { m with hash := Function.update m.hash dbsKey (setField f v (m.hash dbsKey)) } :=
  fun j hj => by
    simp only [Function.update_same, Function.update_noteq (dbKey_ne_dbsKey j), getField_setField] at hj ⊢
    split_ifs
    exacts [rfl, h j hj]

/-- Deleting the field of a database whose hash is empty. -/
theorem NoOrphans.delDbs (h : NoOrphans m) (hi : m.hash (dbKey i) = []) :
    NoOrphans { m with hash := Function.update m.hash dbsKey (delField (dbKey i) (m.hash dbsKey)) } :=
  fun j hj => by
    simp only [Function.update_same, Function.update_noteq (dbKey_ne_dbsKey j), getField_delField] at hj ⊢
    split_ifs with hji
    · rw [dbKey_inj.1 hji, hi] at hj
      exact absurd rfl hj
    · exact h j hj

theorem modifyHash_onlyDb (f : List (String × Bytes) → List (String × Bytes)) :
    Moves (OnlyDb i) (modifyHash (dbKey i) f) := fun _ _ hk => Function.update_noteq hk _ _

theorem hset_onlyDb (f : String) (v : Bytes) : Moves (OnlyDb i) (hset (dbKey i) f v) :=
  .bind kv_same.onlyDb fun _ => modifyHash_onlyDb _

theorem hdel_onlyDb (f : String) : Moves (OnlyDb i) (hdel (dbKey i) f) :=
  .bind kv_same.onlyDb fun _ => modifyHash_onlyDb _

theorem hinc_onlyDb (f : String) (step : ℤ) : Moves (OnlyDb i) (hinc (dbKey i) f step) :=
  .bind kv_same.onlyDb fun _ => .bind (fun c => refl c) fun _ =>
    .bind (readCounter_same _).onlyDb fun _ => .bind (modifyHash_onlyDb _) fun _ => .pure' _

/-- `HSet` on `dbs` keeps `NoOrphans`, whatever its KV call returns. -/
theorem hset_dbs_noOrphans (f : String) (v : Bytes) :
    Moves (OnMeta (Persists NoOrphans)) (hset dbsKey f v) := fun c h => by
  rcases hset_cases dbsKey f v c with ⟨-, hm⟩ | ⟨-, hm⟩
  exacts [hm ▸ h.setDbs f v, hm ▸ h]

/-- **After `checkDBExists` of a database, writes to its hash keep `NoOrphans`.** -/
theorem checkDBExists_then {α : Type} {rest : Unit → Tx α} (hrest : ∀ u, Moves (OnlyDb i) (rest u)) :
    Moves (OnMeta (Persists NoOrphans)) (checkDBExists (dbKey i) >>= rest) := fun c h => by
  simp only [bind_apply]
  rcases h1 : checkDBExists (dbKey i) c with ⟨_ | _ | _, c1⟩ <;>
    have hm : c1.meta = c.meta := (checkDBExists_same _).of_eq h1
  · exact NoOrphans.onlyDb (hm ▸ h) (hm ▸ (checkDBExists_eq_ok h1).1) (hrest _ c1)
  all_goals exact hm ▸ h

/-- `DropDatabase` clears the database's hash before it deletes the database. -/
theorem dropDatabase_noOrphans (dbID : ℤ) : Moves (OnMeta (Persists NoOrphans)) (dropDatabase dbID) :=
  fun c h => by
    simp only [dropDatabase, bind_apply]
    rcases h1 : checkDBExists (dbKey dbID) c with ⟨_ | _ | _, c1⟩ <;>
      have hm1 : c1.meta = c.meta := (checkDBExists_same _).of_eq h1
    · have h1' : NoOrphans c1.meta := hm1 ▸ h
      dsimp only
      obtain ⟨fs, hk | hk⟩ := kv_cases c1
      · have hc : NoOrphans { c1.meta with hash := Function.update c1.meta.hash (dbKey dbID) [] } :=
          h1'.onlyDb (i := dbID) (by rw [hm1]; exact (checkDBExists_eq_ok h1).1)
            fun k hk => Function.update_noteq hk _ _
        simp only [hclear, modifyHash, bind_apply, hk, modifyMeta_apply]
        obtain ⟨fs', hk' | hk'⟩ := kv_cases { c1 with faults := fs, meta := { c1.meta with
            hash := Function.update c1.meta.hash (dbKey dbID) [] } } <;>
          simp only [hdel, modifyHash, bind_apply, hk', modifyMeta_apply]
        · exact hc.delDbs (by simp)
        · exact hc
      · simp only [hclear, bind_apply, hk]
        exact h1'
    all_goals exact hm1 ▸ h

variable (J : Codecs)

theorem getDatabase_same (dbID : ℤ) : Moves MetaSame (getDatabase J dbID) :=
  .bind (hget_same _ _) fun
    | none => .throw' _
    | some v => by simp only; split <;> first | exact .throw' _ | exact .pure' _

theorem getCollection_same (dbID cid : ℤ) : Moves MetaSame (getCollection J dbID cid) :=
  .bind (checkDBExists_same _) fun _ => .bind (hget_same _ _) fun
    | none => .throw' _
    | some v => by simp only; split <;> first | exact .throw' _ | exact .pure' _

theorem hgetInt64_same (h f : String) : Moves MetaSame (hgetInt64 h f) :=
  .bind kv_same fun _ => .bind (fun c => refl c) fun _ => readCounter_same _

theorem createDatabase_noOrphans (d : DBInfo) :
    Moves (OnMeta (Persists NoOrphans)) (createDatabase J d) :=
  .bind (checkDBNotExists_same _).persists fun _ => hset_dbs_noOrphans _ _

theorem createCollection_noOrphans (dbID : ℤ) (ci : CollectionInfo) :
    Moves (OnMeta (Persists NoOrphans)) (createCollection J dbID ci) :=
  checkDBExists_then fun _ => .bind (checkCollectionNotExists_same _ _).onlyDb fun _ => hset_onlyDb _ _

/-- **Every call of the registry keeps `NoOrphans`**, whatever its KV calls return. -/
theorem MetaCall.exec_noOrphans : ∀ op : MetaCall, Moves (OnMeta (Persists NoOrphans)) (op.exec J)
  | .createDatabase _ => .bind (createDatabase_noOrphans J _) fun _ => .pure' _
  | .updateDatabase _ =>
    .bind (.bind (checkDBExists_same _).persists fun _ => hset_dbs_noOrphans _ _) fun _ => .pure' _
  | .dropDatabase i => .bind (dropDatabase_noOrphans i) fun _ => .pure' _
  | .createCollection _ _ => .bind (createCollection_noOrphans J _ _) fun _ => .pure' _
  | .updateCollection _ _ => .bind (checkDBExists_then fun _ =>
      .bind (checkCollectionExists_same _ _).onlyDb fun _ => hset_onlyDb _ _) fun _ => .pure' _
  | .dropCollection _ _ _ => .bind (checkDBExists_then fun _ =>
      .bind (checkCollectionExists_same _ _).onlyDb fun _ =>
        .bind (hdel_onlyDb _) fun _ => .ite' (hdel_onlyDb _) (.pure' _)) fun _ => .pure' _
  | .genAutoCollectionID _ _ _ => .bind (checkDBExists_then fun _ =>
      .bind (checkCollectionExists_same _ _).onlyDb fun _ => hinc_onlyDb _ _) fun _ => .pure' _
  | .getAutoCollectionID _ _ => .bind (hgetInt64_same _ _).persists fun _ => .pure' _
  | .getDatabase _ => .bind (getDatabase_same J _).persists fun _ => .pure' _
  | .getCollection _ _ => .bind (getCollection_same J _ _).persists fun _ => .pure' _

theorem runCalls_noOrphans (ops : List MetaCall) {c : Ctx} (h : NoOrphans c.meta) :
    NoOrphans (runCalls J ops c).2.meta := by
  induction ops generalizing c with
  | nil => exact h
  | cons op ops ih => simpa [runCalls] using ih (MetaCall.exec_noOrphans J op c h)

theorem runJob_noOrphans (job : Job) : Moves (OnMeta (Persists NoOrphans)) (runJob J job) :=
  runJob_moves J (onCreateSchema_moves J (fun _ _ h hp => h ▸ hp) (createDatabase_noOrphans J)
    (createCollection_noOrphans J)
    fun _ _ => (updateSchemaVersion_same _ _).mono fun _ _ h hp j hj => h ▸ hp j (h ▸ hj)) job

/-- **No field outlives its database.** From a store where every database whose hash holds
a field is registered, so is it after any calls of the registry one after another, each
with any of its KV calls failing, and after any run of the worker (any jobs, any failures
of KV calls and commits, crashes). -/
theorem noOrphans_kept {c : Ctx} {w : DdlWorld} (hc : NoOrphans c.meta) (hw : NoOrphans w.meta)
    (ops : List MetaCall) (es : List DdlEvent) :
    NoOrphans (runCalls J ops c).2.meta ∧ NoOrphans (w.run J es).meta :=
  ⟨runCalls_noOrphans J ops hc, DdlWorld.run_onMeta (S := Persists NoOrphans) (runJob_noOrphans J) w es hw⟩

/-- A database with a collection, then `DropDatabase` of it, whose last KV call, the `HDel`
from `dbs`, fails: the database stays registered, with an empty hash. -/
def halfDropCalls : List MetaCall :=
  [.createDatabase ⟨1, "d", [], .none⟩, .createCollection 1 ⟨1, "c", [], .none⟩, .dropDatabase 1]

theorem noOrphans_kept_halfDrop :
    NoOrphans (⟨MetaStore.empty, [], [], [true, true, true, true, true, true, true, false]⟩ : Ctx).meta ∧
      NoOrphans (DdlWorld.init MetaStore.empty).meta ∧
      NoOrphans (runCalls Codecs.binary halfDropCalls
        ⟨MetaStore.empty, [], [], [true, true, true, true, true, true, true, false]⟩).2.meta ∧
      NoOrphans ((DdlWorld.init MetaStore.empty).run Codecs.binary
        [.enqueue schemaJob, .iterate [] true, .iterate [] true]).meta :=
  have h0 : NoOrphans MetaStore.empty := fun _ h => (h rfl).elim
  ⟨h0, h0, noOrphans_kept Codecs.binary h0 h0 halfDropCalls
    [.enqueue schemaJob, .iterate [] true, .iterate [] true]⟩

end Kvrpc
