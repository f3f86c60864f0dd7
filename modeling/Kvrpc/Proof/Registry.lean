import Kvrpc.Spec.Meta

/-!
# The meta store refines a schema registry

`Registry` says what the meta store is for: the registered databases, the collections
of each database and the counter of each collection, with the errors of the existence
checks. The Go methods on the structured encoding behave as it says.

* `exec_refines`: one call, on a store that holds the registry, returns what the
  registry's rule returns and leaves a store that holds the registry it leads to.
* `runCalls_refines`: so does every sequence of calls from the empty store, with any
  ids, negative ones included.

Both rest on the formatted keys: `db:<id>`, `collection:<cid>` and
`collectionAutoID:<cid>` determine their ids, `db:<id>` is never `dbs`, and a collection's
key is never a counter's.

`ListCollections` is outside the registry's rules: its prefix test `collection` also
takes the counter fields `collectionAutoID:<cid>` of the same hash for collections.

* `listCollections_counter_fails`: once a collection has a counter, listing its
  database fails, whatever the JSON codec.
-/

namespace Kvrpc

open Go Tx Meta

/-! ### Keys -/

@[simp] theorem dbKey_inj {a b : ℤ} : dbKey a = dbKey b ↔ a = b := ⟨fmtKey_inj, congrArg _⟩

@[simp] theorem collectionKey_inj {a b : ℤ} : collectionKey a = collectionKey b ↔ a = b :=
  ⟨fmtKey_inj, congrArg _⟩

@[simp] theorem collectionAutoIncrementIDKey_inj {a b : ℤ} :
    collectionAutoIncrementIDKey a = collectionAutoIncrementIDKey b ↔ a = b :=
  ⟨fmtKey_inj, congrArg _⟩

/-- `db:<id>` differs from `dbs` in its third character. -/
@[simp] theorem dbKey_ne_dbsKey (a : ℤ) : dbKey a ≠ dbsKey := fun h => by
  have h2 := congrArg (fun s : String => s.data.get? 2) h
  simp only [dbKey, fmtKey_data] at h2
  exact absurd h2 fun h => nomatch h

/-- `collection:<a>` differs from `collectionAutoID:<b>` in its eleventh character. -/
@[simp] theorem collectionKey_ne_autoKey (a b : ℤ) :
    collectionKey a ≠ collectionAutoIncrementIDKey b := fun h => by
  have h2 := congrArg (fun s : String => s.data.get? 10) h
  simp only [collectionKey, collectionAutoIncrementIDKey, fmtKey_data] at h2
  exact absurd h2 fun h => nomatch h

@[simp] theorem autoKey_ne_collectionKey (a b : ℤ) :
    collectionAutoIncrementIDKey a ≠ collectionKey b := fun h => collectionKey_ne_autoKey b a h.symm

/-! ### The structured operations when no KV call fails -/

section NoFault

variable {c : Ctx} (hf : c.faults = [])
include hf

theorem hget_ok (h f : String) : hget h f c = (.ok (getField f (c.meta.hash h)), c) := by
  simp [hget, hf]

theorem hgetAll_ok (h : String) : hgetAll h c = (.ok (c.meta.hash h), c) := by
  simp [hgetAll, hf]

theorem hset_ok (h f : String) (v : Bytes) : hset h f v c =
    (.ok (), { c with meta := { c.meta with
      hash := Function.update c.meta.hash h (setField f v (c.meta.hash h)) } }) := by
  simp [hset, hf, modifyHash]

theorem hdel_ok (h f : String) : hdel h f c =
    (.ok (), { c with meta := { c.meta with
      hash := Function.update c.meta.hash h (delField f (c.meta.hash h)) } }) := by
  simp [hdel, hf, modifyHash]

theorem hclear_ok (h : String) : hclear h c =
    (.ok (), { c with meta := { c.meta with hash := Function.update c.meta.hash h [] } }) := by
  simp [hclear, hf, modifyHash]

theorem hinc_ok {h f : String} {v : ℤ} (hr : readCounter (getField f (c.meta.hash h)) c = (.ok v, c))
    (step : ℤ) : hinc h f step c = (.ok (toInt64 (v + step)), { c with meta := { c.meta with
      hash := (Function.update c.meta.hash h
        (setField f (putInt64 (toInt64 (v + step))) (c.meta.hash h))) } }) := by
  simp [hinc, hf, hr, modifyHash]

theorem hgetInt64_ok (h f : String) :
    hgetInt64 h f c = readCounter (getField f (c.meta.hash h)) c := by
  simp [hgetInt64, hf]

end NoFault

/-- A stored counter reads back as the `int64` it holds. -/
theorem readCounter_putInt64 (v : ℤ) (c : Ctx) :
    readCounter (some (putInt64 v)) c = (.ok (toInt64 v), c) := by
  simp [readCounter, getInt64_putInt64]

@[simp] theorem readCounter_none (c : Ctx) : readCounter none c = (.ok 0, c) := rfl

/-! ### The registry -/

/-- What the meta store is for: the registered databases, the collections of each
database, and the counter of each collection. -/
structure Registry where
  dbs : ℤ → Option DBInfo
  colls : ℤ → ℤ → Option CollectionInfo
  autos : ℤ → ℤ → Option ℤ

/-- A Go result from a registry result. -/
def Res.ofExcept {α : Type} : Except Err α → Res α
  | .ok a => .ok a
  | .error e => .err e

namespace Registry

/-- The empty registry. -/
def empty : Registry := ⟨fun _ => none, fun _ _ => none, fun _ _ => none⟩

/-- Set one entry of a map of maps. -/
def update2 {β : Type} (f : ℤ → ℤ → Option β) (i j : ℤ) (v : Option β) : ℤ → ℤ → Option β :=
  Function.update f i (Function.update (f i) j v)

@[simp] theorem update2_apply {β : Type} (f : ℤ → ℤ → Option β) (i j : ℤ) (v : Option β)
    (a b : ℤ) : update2 f i j v a b = if a = i ∧ b = j then v else f a b := by
  by_cases ha : a = i
  · subst ha; by_cases hb : b = j <;> simp [update2, hb]
  · simp [update2, ha]

/-- The registry's rules for one call: its result and the registry after it. -/
def apply (r : Registry) : MetaCall → Except Err Ret × Registry
  | .createDatabase d =>
    if (r.dbs d.id).isSome then (.error .dbExists, r)
    else (.ok .unit, { r with dbs := Function.update r.dbs d.id (some d) })
  | .updateDatabase d =>
    if (r.dbs d.id).isNone then (.error .dbNotExists, r)
    else (.ok .unit, { r with dbs := Function.update r.dbs d.id (some d) })
  | .dropDatabase i =>
    if (r.dbs i).isNone then (.error .dbNotExists, r)
    else (.ok .unit, ⟨Function.update r.dbs i none, Function.update r.colls i fun _ => none,
      Function.update r.autos i fun _ => none⟩)
  | .createCollection i c =>
    if (r.dbs i).isNone then (.error .dbNotExists, r)
    else if (r.colls i c.id).isSome then (.error .collectionExists, r)
    else (.ok .unit, { r with colls := update2 r.colls i c.id (some c) })
  | .updateCollection i c =>
    if (r.dbs i).isNone then (.error .dbNotExists, r)
    else if (r.colls i c.id).isNone then (.error .collectionNotExists, r)
    else (.ok .unit, { r with colls := update2 r.colls i c.id (some c) })
  | .dropCollection i cid delAutoID =>
    if (r.dbs i).isNone then (.error .dbNotExists, r)
    else if (r.colls i cid).isNone then (.error .collectionNotExists, r)
    else (.ok .unit, { r with
      colls := update2 r.colls i cid none
      autos := if delAutoID then update2 r.autos i cid none else r.autos })
  | .genAutoCollectionID i cid step =>
    if (r.dbs i).isNone then (.error .dbNotExists, r)
    else if (r.colls i cid).isNone then (.error .collectionNotExists, r)
    else
      (.ok (.id (toInt64 ((r.autos i cid).getD 0 + step))),
        { r with autos := update2 r.autos i cid (some (toInt64 ((r.autos i cid).getD 0 + step))) })
  | .getAutoCollectionID i cid => (.ok (.id ((r.autos i cid).getD 0)), r)
  | .getDatabase i =>
    match r.dbs i with
    | none => (.error .dbNotExists, r)
    | some d => (.ok (.db d), r)
  | .getCollection i cid =>
    match r.dbs i, r.colls i cid with
    | none, _ => (.error .dbNotExists, r)
    | some _, none => (.error .collectionNotExists, r)
    | some _, some c => (.ok (.coll c), r)

/-- The rules for calls one after another. -/
def applyAll : List MetaCall → Registry → List (Except Err Ret) × Registry
  | [], r => ([], r)
  | op :: ops, r =>
    let (e, r) := r.apply op
    let (es, r) := applyAll ops r
    (e :: es, r)

end Registry

/-! ### Refinement -/

/-- The meta store holds the registry: every entry, encoded, under its formatted key.
Counters hold `int64`s. -/
structure Refines (J : Codecs) (m : MetaStore) (r : Registry) : Prop where
  dbs : ∀ i, getField (dbKey i) (m.hash dbsKey) = (r.dbs i).map J.db.marshal
  colls : ∀ i cid,
    getField (collectionKey cid) (m.hash (dbKey i)) = (r.colls i cid).map J.coll.marshal
  autos : ∀ i cid,
    getField (collectionAutoIncrementIDKey cid) (m.hash (dbKey i)) = (r.autos i cid).map putInt64
  autos_int64 : ∀ i cid v, r.autos i cid = some v → toInt64 v = v

theorem refines_empty (J : Codecs) : Refines J MetaStore.empty Registry.empty :=
  ⟨fun _ => rfl, fun _ _ => rfl, fun _ _ => rfl, fun _ _ _ h => nomatch h⟩

section Preserve

variable {J : Codecs} {m : MetaStore} {r : Registry} (h : Refines J m r)
include h

theorem Refines.setDb (d : DBInfo) :
    Refines J { m with hash := (Function.update m.hash dbsKey
        (setField (dbKey d.id) (J.db.marshal d) (m.hash dbsKey))) }
      { r with dbs := Function.update r.dbs d.id (some d) } where
  dbs i := by by_cases hi : i = d.id <;> simp [hi, h.dbs, Function.update_apply]
  colls i cid := by simp [h.colls, Function.update_apply]
  autos i cid := by simp [h.autos, Function.update_apply]
  autos_int64 := h.autos_int64

theorem Refines.dropDb (i : ℤ) :
    Refines J { m with hash := (Function.update (Function.update m.hash (dbKey i) []) dbsKey
        (delField (dbKey i) (Function.update m.hash (dbKey i) [] dbsKey))) }
      ⟨Function.update r.dbs i none, Function.update r.colls i fun _ => none,
        Function.update r.autos i fun _ => none⟩ where
  dbs j := by
    by_cases hj : j = i <;> simp [hj, h.dbs, (dbKey_ne_dbsKey i).symm, Function.update_apply]
  colls j cid := by by_cases hj : j = i <;> simp [hj, h.colls, getField, Function.update_apply]
  autos j cid := by by_cases hj : j = i <;> simp [hj, h.autos, getField, Function.update_apply]
  autos_int64 j cid v hv := by
    by_cases hj : j = i
    · simp [hj, Function.update_apply] at hv
    · exact h.autos_int64 j cid v (by simpa [hj] using hv)

theorem Refines.setColl (i : ℤ) (c : CollectionInfo) :
    Refines J { m with hash := (Function.update m.hash (dbKey i)
        (setField (collectionKey c.id) (J.coll.marshal c) (m.hash (dbKey i)))) }
      { r with colls := Registry.update2 r.colls i c.id (some c) } where
  dbs j := by simp [h.dbs, (dbKey_ne_dbsKey i).symm, Function.update_apply]
  colls j cid := by
    by_cases hj : j = i <;> by_cases hc : cid = c.id <;> simp [hj, hc, h.colls, Function.update_apply]
  autos j cid := by by_cases hj : j = i <;> simp [hj, h.autos, Function.update_apply]
  autos_int64 := h.autos_int64

theorem Refines.delColl (i cid : ℤ) :
    Refines J { m with hash := (Function.update m.hash (dbKey i)
        (delField (collectionKey cid) (m.hash (dbKey i)))) }
      { r with colls := Registry.update2 r.colls i cid none } where
  dbs j := by simp [h.dbs, (dbKey_ne_dbsKey i).symm, Function.update_apply]
  colls j c := by by_cases hj : j = i <;> by_cases hc : c = cid <;> simp [hj, hc, h.colls, Function.update_apply]
  autos j c := by by_cases hj : j = i <;> simp [hj, h.autos, Function.update_apply]
  autos_int64 := h.autos_int64

theorem Refines.delAuto (i cid : ℤ) :
    Refines J { m with hash := (Function.update m.hash (dbKey i)
        (delField (collectionAutoIncrementIDKey cid) (m.hash (dbKey i)))) }
      { r with autos := Registry.update2 r.autos i cid none } where
  dbs j := by simp [h.dbs, (dbKey_ne_dbsKey i).symm, Function.update_apply]
  colls j c := by by_cases hj : j = i <;> simp [hj, h.colls, Function.update_apply]
  autos j c := by by_cases hj : j = i <;> by_cases hc : c = cid <;> simp [hj, hc, h.autos, Function.update_apply]
  autos_int64 j c v hv := by
    simp only [Registry.update2_apply] at hv
    split_ifs at hv
    exact h.autos_int64 j c v hv

theorem Refines.setAuto (i cid v : ℤ) (hv : toInt64 v = v) :
    Refines J { m with hash := (Function.update m.hash (dbKey i)
        (setField (collectionAutoIncrementIDKey cid) (putInt64 v) (m.hash (dbKey i)))) }
      { r with autos := Registry.update2 r.autos i cid (some v) } where
  dbs j := by simp [h.dbs, (dbKey_ne_dbsKey i).symm, Function.update_apply]
  colls j c := by by_cases hj : j = i <;> simp [hj, h.colls, Function.update_apply]
  autos j c := by by_cases hj : j = i <;> by_cases hc : c = cid <;> simp [hj, hc, h.autos, Function.update_apply]
  autos_int64 j c w hw := by
    simp only [Registry.update2_apply] at hw
    split_ifs at hw
    · exact Option.some_injective _ hw ▸ hv
    · exact h.autos_int64 j c w hw

end Preserve

/-! ### One call, then any calls -/

section Exec

variable {J : Codecs} {c : Ctx} {r : Registry}

/-- `toInt64` is idempotent. -/
theorem toInt64_toInt64 (v : ℤ) : toInt64 (toInt64 v) = toInt64 v := by
  simp only [toInt64, Int.bmod_bmod]

/-- **One call refines the registry's rule.** -/
theorem exec_refines (h : Refines J c.meta r) (hf : c.faults = []) (op : MetaCall) :
    (op.exec J c).1 = Res.ofExcept (r.apply op).1 ∧
      Refines J (op.exec J c).2.meta (r.apply op).2 ∧ (op.exec J c).2.faults = [] := by
  cases op with
  | createDatabase d =>
    cases hd : r.dbs d.id <;>
      simp [MetaCall.exec, createDatabase, checkDBNotExists, hget_ok, hset_ok, h.dbs, hd,
        Registry.apply, Res.ofExcept, h, hf]
    exact h.setDb d
  | updateDatabase d =>
    cases hd : r.dbs d.id <;>
      simp [MetaCall.exec, updateDatabase, checkDBExists, hget_ok, hset_ok, h.dbs, hd,
        Registry.apply, Res.ofExcept, h, hf]
    exact h.setDb d
  | dropDatabase i =>
    cases hd : r.dbs i <;>
      simp [MetaCall.exec, dropDatabase, checkDBExists, hget_ok, hclear_ok, hdel_ok,
        h.dbs, hd, Registry.apply, Res.ofExcept, h, hf]
    exact h.dropDb i
  | createCollection i cl =>
    cases hd : r.dbs i <;> cases hc : r.colls i cl.id <;>
      simp [MetaCall.exec, createCollection, checkDBExists, checkCollectionNotExists, hget_ok,
        hset_ok, h.dbs, h.colls, hd, hc, Registry.apply, Res.ofExcept, h, hf]
    exact h.setColl i cl
  | updateCollection i cl =>
    cases hd : r.dbs i <;> cases hc : r.colls i cl.id <;>
      simp [MetaCall.exec, updateCollection, checkDBExists, checkCollectionExists, hget_ok,
        hset_ok, h.dbs, h.colls, hd, hc, Registry.apply, Res.ofExcept, h, hf]
    exact h.setColl i cl
  | dropCollection i cid del =>
    cases hd : r.dbs i <;> cases hc : r.colls i cid <;>
      simp [MetaCall.exec, dropCollection, checkDBExists, checkCollectionExists, hget_ok,
        h.dbs, h.colls, hd, hc, Registry.apply, Res.ofExcept, h, hf]
    cases del
    · simpa [hdel_ok, hf] using h.delColl i cid
    · simpa [hdel_ok, hf] using (h.delColl i cid).delAuto i cid
  | genAutoCollectionID i cid step =>
    have hr : readCounter (getField (collectionAutoIncrementIDKey cid) (c.meta.hash (dbKey i))) c =
        (.ok ((r.autos i cid).getD 0), c) := by
      cases ha : r.autos i cid <;> simp [h.autos, ha, readCounter_putInt64, h.autos_int64 i cid]
    cases hd : r.dbs i <;> cases hc : r.colls i cid <;>
      simp [MetaCall.exec, genAutoCollectionID, checkDBExists, checkCollectionExists, hget_ok,
        hinc_ok hf hr, h.dbs, h.colls, hd, hc, Registry.apply, Res.ofExcept, h, hf]
    exact h.setAuto i cid _ (toInt64_toInt64 _)
  | getAutoCollectionID i cid =>
    cases ha : r.autos i cid <;>
      simp [MetaCall.exec, getAutoCollectionID, hgetInt64_ok, h.autos, ha, readCounter_putInt64,
        h.autos_int64 i cid, Registry.apply, Res.ofExcept, h, hf]
  | getDatabase i =>
    cases hd : r.dbs i <;>
      simp [MetaCall.exec, getDatabase, hget_ok, h.dbs, hd, Registry.apply, Res.ofExcept, h, hf]
  | getCollection i cid =>
    cases hd : r.dbs i <;> cases hc : r.colls i cid <;>
      simp [MetaCall.exec, getCollection, checkDBExists, hget_ok, h.dbs, h.colls, hd, hc,
        Registry.apply, Res.ofExcept, h, hf]

/-- Calls one after another refine the registry's rules. -/
theorem runCalls_refines_from (ops : List MetaCall) (h : Refines J c.meta r)
    (hf : c.faults = []) :
    (runCalls J ops c).1 = (r.applyAll ops).1.map Res.ofExcept ∧
      Refines J (runCalls J ops c).2.meta (r.applyAll ops).2 ∧ (runCalls J ops c).2.faults = [] := by
  induction ops generalizing c r with
  | nil => exact ⟨rfl, h, hf⟩
  | cons op ops ih =>
    obtain ⟨h1, h2, h3⟩ := exec_refines h hf op
    obtain ⟨i1, i2, i3⟩ := ih h2 h3
    exact ⟨by simp [runCalls, Registry.applyAll, h1, i1], i2, i3⟩

end Exec

/-- **The meta store is a schema registry.** Any calls, from the empty store, return what
the registry's rules return, and the store holds the registry they lead to. -/
theorem runCalls_refines (J : Codecs) (ops : List MetaCall) (seqs drops : List ℤ) :
    (runCalls J ops ⟨MetaStore.empty, seqs, drops, []⟩).1 =
        (Registry.empty.applyAll ops).1.map Res.ofExcept ∧
      Refines J (runCalls J ops ⟨MetaStore.empty, seqs, drops, []⟩).2.meta
        (Registry.empty.applyAll ops).2 :=
  (runCalls_refines_from ops (refines_empty J) rfl).imp_right And.left

/-! ### `ListCollections` and counters -/

/-- The loop of `ListCollections` fails on a field with the prefix `collection` whose
value starts with a NUL byte, as every counter below `2 ^ 56` does. -/
theorem decodeCollections_err (J : Codecs) {fs : List (String × Bytes)} (f : String) (b : Bytes)
    (hmem : (f, 0 :: b) ∈ fs) (hpre : hasPrefix f collectionPrefix) (c : Ctx) :
    (decodeCollections J fs c).1 = .err .json := by
  induction fs with
  | nil => cases hmem
  | cons p rest ih =>
    obtain ⟨g, v⟩ := p
    rcases List.mem_cons.1 hmem with hp | hrest
    · obtain ⟨rfl, rfl⟩ := Prod.mk.inj hp
      simp [decodeCollections, hpre, J.coll.unmarshal_nul]
    · unfold decodeCollections
      split_ifs
      · cases J.coll.unmarshal v with
        | none => rfl
        | some x =>
          have ih := ih hrest
          simp only [bind_apply, pure_apply]
          revert ih
          rcases decodeCollections J rest c with ⟨_ | _ | _, c'⟩ <;> simp
      · exact ih hrest

/-- `ListCollections` of a registered database fails when its hash has such a field. -/
theorem listCollections_err (J : Codecs) {c : Ctx} (hf : c.faults = []) {i : ℤ} {v : Bytes}
    (hdb : getField (dbKey i) (c.meta.hash dbsKey) = some v) (f : String) (b : Bytes)
    (hmem : (f, 0 :: b) ∈ c.meta.hash (dbKey i)) (hpre : hasPrefix f collectionPrefix) :
    (listCollections J i c).1 = .err .json := by
  simp [listCollections, checkDBExists, hget_ok hf, hdb, hgetAll_ok hf,
    decodeCollections_err J f b hmem hpre]

/-- **Listing a database with a counter fails.** A database, a collection in it, and
the collection's first auto id: each call succeeds, and then `ListCollections` of the
database returns a JSON error, whatever the codec, because the counter field
`collectionAutoID:1` passes the prefix test `collection`. -/
theorem listCollections_counter_fails (J : Codecs) :
    (runCalls J [.createDatabase ⟨1, "d", [], .none⟩, .createCollection 1 ⟨1, "c", [], .none⟩,
        .genAutoCollectionID 1 1 1] ⟨MetaStore.empty, [], [], []⟩).1 =
        [.ok .unit, .ok .unit, .ok (.id 1)] ∧
      (listCollections J 1 (runCalls J [.createDatabase ⟨1, "d", [], .none⟩,
        .createCollection 1 ⟨1, "c", [], .none⟩, .genAutoCollectionID 1 1 1]
          ⟨MetaStore.empty, [], [], []⟩).2).1 = .err .json :=
  ⟨rfl, listCollections_err J rfl rfl "collectionAutoID:1" [0, 0, 0, 0, 0, 0, 1]
    (List.mem_cons_of_mem _ (List.mem_singleton_self _)) rfl⟩

end Kvrpc
