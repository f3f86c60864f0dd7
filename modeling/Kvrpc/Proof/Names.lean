import Kvrpc.Proof.Registered

/-!
# Database names stay unique

`onCreateSchema` registers a database only after `checkDBNameNotExists` has listed the
registered databases, in the same meta transaction, and found none of its name; every other
step of the worker leaves the `dbs` hash as it is, and `CreateDatabase` writes only a field
that is absent. So if the databases of the initial store decode and have distinct names,
they do in every world the worker and the clients reach, through failed KV calls, failed
commits and crashes.

* `decodeAll`: what `ListDatabases` decodes from the fields of the hash, as a function
  (`decodeDatabases_eq`).
* `NamesUnique`: the fields decode, to databases with distinct names. `CreateDatabase` of
  a database whose name is free keeps it (`createDatabase_names`), and `runJob` keeps it
  whatever it returns (`runJob_names`).
* `DdlWorld.onMeta_of_reach`: a property of the meta store that `runJob` keeps
  (`Persists`) holds in every reachable world.
* `listDatabases_names_nodup`: in every reachable world, `ListDatabases` on the committed
  store returns databases with distinct names.
-/

namespace Kvrpc

open Go Tx WTx Meta

/-! ### The decoded databases -/

/-- The databases of the fields, decoded in order; `none` if one does not decode. -/
def decodeAll (J : Codecs) : List (String × Bytes) → Option (List DBInfo)
  | [] => some []
  | (_, v) :: rest => (J.db.unmarshal v).bind fun d => (decodeAll J rest).map (d :: ·)

/-- The fields decode, to databases with distinct names. -/
def NamesUnique (J : Codecs) (fs : List (String × Bytes)) : Prop :=
  ∃ ds, decodeAll J fs = some ds ∧ (ds.map DBInfo.name).Nodup

/-- The fields decode, to databases with distinct names, none of them `name`. -/
def NameFree (J : Codecs) (name : String) (fs : List (String × Bytes)) : Prop :=
  ∃ ds, decodeAll J fs = some ds ∧ (name :: ds.map DBInfo.name).Nodup

variable (J : Codecs)

theorem decodeDatabases_eq (fs : List (String × Bytes)) (c : Ctx) :
    decodeDatabases J fs c = ((decodeAll J fs).elim (.err .json) .ok, c) := by
  induction fs with
  | nil => rfl
  | cons p rest ih =>
    obtain ⟨_, v⟩ := p
    simp only [decodeDatabases, decodeAll]
    cases J.db.unmarshal v with
    | none => rfl
    | some d => cases h : decodeAll J rest <;> simp [ih, h]

variable {J}

/-- Setting an absent field to a database adds the database to the decoded list, in some
place. -/
theorem decodeAll_setField {k : String} {v : Bytes} {d : DBInfo} (hv : J.db.unmarshal v = some d)
    {fs : List (String × Bytes)} {ds : List DBInfo} (hk : getField k fs = none)
    (h : decodeAll J fs = some ds) : ∃ ds', decodeAll J (setField k v fs) = some ds' ∧ ds'.Perm (d :: ds) := by
  induction fs generalizing ds with
  | nil =>
    cases h
    exact ⟨[d], by simp [setField, decodeAll, hv], .refl _⟩
  | cons p rest ih =>
    obtain ⟨g, w⟩ := p
    simp only [decodeAll, Option.bind_eq_some, Option.map_eq_some'] at h
    obtain ⟨e, he, ds₀, hr, rfl⟩ := h
    have hkg : k ≠ g := fun e => by simp [getField, e] at hk
    simp only [getField, if_neg hkg] at hk
    simp only [setField, if_neg hkg]
    split
    · exact ⟨d :: e :: ds₀, by simp [decodeAll, hv, he, hr], .refl _⟩
    · obtain ⟨ds', h', hp⟩ := ih hk hr
      exact ⟨e :: ds', by simp [decodeAll, he, h'], (hp.cons e).trans (.swap d e ds₀)⟩

theorem NameFree.namesUnique {name : String} {fs : List (String × Bytes)} (h : NameFree J name fs) :
    NamesUnique J fs :=
  let ⟨ds, hd, hn⟩ := h
  ⟨ds, hd, hn.of_cons⟩

/-- Registering a database of a free name, under an absent field, keeps the names
distinct. -/
theorem NameFree.setField {k : String} {d : DBInfo} {fs : List (String × Bytes)}
    (h : NameFree J d.name fs) (hk : getField k fs = none) :
    NamesUnique J (setField k (J.db.marshal d) fs) :=
  let ⟨_, hd, hn⟩ := h
  let ⟨ds', h', hp⟩ := decodeAll_setField (J.db.unmarshal_marshal d) hk hd
  ⟨ds', h', (hp.map DBInfo.name).nodup_iff.2 hn⟩

/-! ### The steps of `onCreateSchema` -/

/-- From a `dbs` hash where `name` is free, the step leads to distinct names. -/
def NamesStep (J : Codecs) (name : String) (c c' : Ctx) : Prop :=
  NameFree J name (c.meta.hash dbsKey) → NamesUnique J (c'.meta.hash dbsKey)

instance {name : String} : IsRefl Ctx (NamesStep J name) := ⟨fun _ => NameFree.namesUnique⟩

variable {c c' c'' : Ctx} {name : String}

theorem DbsSame.names (h : DbsSame c c') :
    OnMeta (Persists fun m => NamesUnique J (m.hash dbsKey)) c c' := (congrArg (NamesUnique J) h).mpr

theorem DbsSame.namesStep (h : DbsSame c c') : NamesStep J name c c' := fun hf =>
  (congrArg (NamesUnique J) h).mpr hf.namesUnique

theorem NamesStep.same_left (h : DbsSame c c') (h' : NamesStep J name c' c'') :
    NamesStep J name c c'' := fun hf => h' (h ▸ hf)

theorem NamesStep.same_right (h : NamesStep J name c c') (h' : DbsSame c' c'') :
    NamesStep J name c c'' := fun hf => h' ▸ h hf

variable (J)

theorem createDatabase_names (d : DBInfo) : Moves (NamesStep J d.name) (createDatabase J d) :=
  fun c hf => by
    rcases createDatabase_cases J d c with ⟨-, h⟩ | ⟨-, habs, h⟩ <;> rw [h]
    exacts [hf.namesUnique, by simpa using hf.setField habs]

theorem createSchema_names (job : Job) (d : DBInfo) :
    Moves (NamesStep J d.name) (createSchema J job d) :=
  .bind_comp (createSequences_same _ _).hash.dbs (fun
    | .error _ => .pure' _
    | .ok _ => .bind_comp (.attempt' (createDatabase_names J _)) (fun
      | .error _ => .pure' _
      | .ok () => .bind (.attempt' (createCollections_moves J (createCollection_same J) _ _)) fun
        | .error _ => .pure' _
        | .ok () => .bind (updateSchemaVersion_same _ _).dbs fun
          | (_, some _) => .pure' _
          | (_, none) => .pure' _) (fun _ _ => id) fun _ _ _ => NamesStep.same_right)
    (fun _ _ => DbsSame.namesStep) fun _ _ _ => NamesStep.same_left

theorem listDatabases_eq_ok {c c' : Ctx} {ds : List DBInfo} (h : listDatabases J c = (.ok ds, c')) :
    decodeAll J (c.meta.hash dbsKey) = some ds := by
  obtain ⟨fs, c1, h1, h⟩ := bind_eq_ok h
  obtain ⟨_, hk | hk⟩ := kv_cases c <;> simp only [hgetAll, bind_apply, hk, getMeta_apply, pure_apply,
    Prod.mk.injEq, Res.ok.injEq, reduceCtorEq, false_and] at h1
  obtain ⟨rfl, rfl⟩ := h1
  rw [decodeDatabases_eq] at h
  cases hd : decodeAll J (c.meta.hash dbsKey) <;> simp_all

/-- A name check that finds no database of the name, on distinct names, leaves the name
free. -/
theorem checkDBNameNotExists_free (h : checkDBNameNotExists J name c = (.ok false, c'))
    (hu : NamesUnique J (c.meta.hash dbsKey)) : NameFree J name (c'.meta.hash dbsKey) := by
  have hs : DbsSame c c' := (checkDBNameNotExists_same J name).hash.dbs.of_eq h
  obtain ⟨ds, c1, hl, h⟩ := bind_eq_ok h
  obtain ⟨ds₀, hd₀, hn⟩ := hu
  have hd := listDatabases_eq_ok J hl
  obtain rfl : ds₀ = ds := Option.some.inj (hd₀.symm.trans hd)
  simp only [pure_apply, Prod.mk.injEq, Res.ok.injEq, List.any_eq_false, beq_iff_eq] at h
  refine hs ▸ ⟨ds₀, hd₀, List.nodup_cons.2 ⟨fun hm => ?_, hn⟩⟩
  obtain ⟨d, hd, rfl⟩ := List.mem_map.1 hm
  exact h.1 d hd rfl

/-- **`onCreateSchema` keeps the names distinct**, whatever it returns: it registers its
database only when the check found the name free, in the state it then works on. -/
theorem onCreateSchema_names (job : Job) :
    Moves (OnMeta (Persists fun m => NamesUnique J (m.hash dbsKey))) (onCreateSchema J job) := by
  unfold onCreateSchema
  split
  · exact .pure' _
  rename_i d _
  intro c hu
  simp only [bind_apply]
  rcases h1 : attempt (checkDBNameNotExists J d.name) c with ⟨_ | _ | _, c1⟩ <;>
    have k1 : DbsSame c c1 := (Moves.attempt' (checkDBNameNotExists_same J _).hash.dbs).of_eq h1
  · rcases attempt_eq_ok h1 with ⟨b, rfl, hb⟩ | ⟨e, rfl, -⟩
    · cases b
      · exact (Moves.bind_comp (createSchema_names J job d) (fun _ =>
          .ite' (.bind (dropSequences_same _).hash.dbs fun _ => .pure' _) (.bind (.pure' _) fun _ => .pure' _))
          (fun _ _ => id) fun _ _ _ => NamesStep.same_right) c1 (checkDBNameNotExists_free J hb hu)
      · exact k1.names hu
    · exact k1.names hu
  all_goals exact k1.names hu

theorem runJob_names (job : Job) :
    Moves (OnMeta (Persists fun m => NamesUnique J (m.hash dbsKey))) (runJob J job) :=
  runJob_moves J (onCreateSchema_names J) job

/-! ### Every reachable world -/

variable {m : MetaStore} {w : DdlWorld}

/-- **Database names are unique.** In every world the worker and the clients reach, with
any failures of KV calls and commits and any crashes, if the databases of the initial
store decode with distinct names: `ListDatabases` on the committed store returns, and no
two of the databases it returns have one name. -/
theorem listDatabases_names_nodup (h : DdlWorld.Reach J m w) (hm : NamesUnique J (m.hash dbsKey)) :
    ∃ ds, (listDatabases J ⟨w.meta, w.seqs, w.drops, []⟩).1 = .ok ds ∧ (ds.map DBInfo.name).Nodup := by
  obtain ⟨ds, hd, hn⟩ := DdlWorld.onMeta_of_reach (runJob_names J) h hm
  exact ⟨ds, by simp [listDatabases, hgetAll_ok (c := ⟨w.meta, w.seqs, w.drops, []⟩) rfl,
    decodeDatabases_eq, hd], hn⟩

/-- A second `CreateSchema` job for the name of `schemaJob`'s database, with another id. -/
def dupJob : Job := ⟨8, .createSchema, .none, .none, none, 0, some ⟨5, "d", [], .none⟩, none⟩

/-- The second job, submitted after the first is archived, and run once. -/
def dupWorld : DdlWorld := (schemaWorld.enqueue dupJob).iterate Codecs.binary [] true

theorem listDatabases_names_nodup_dupWorld :
    DdlWorld.Reach Codecs.binary MetaStore.empty dupWorld ∧
      NamesUnique Codecs.binary (MetaStore.empty.hash dbsKey) ∧
      ∃ ds, (listDatabases Codecs.binary ⟨dupWorld.meta, dupWorld.seqs, dupWorld.drops, []⟩).1 = .ok ds ∧
        (ds.map DBInfo.name).Nodup := by
  have hr : DdlWorld.Reach Codecs.binary MetaStore.empty dupWorld :=
    .iterate [] true (.enqueue _ (.iterate [] true (.iterate [] true (.enqueue _ .init
      (by simp [DdlWorld.init])))) (by simp [DdlWorld.enqueue, DdlWorld.init, schemaJob, dupJob, schemaWorld]))
  have hm : NamesUnique Codecs.binary (MetaStore.empty.hash dbsKey) := ⟨[], rfl, List.nodup_nil⟩
  exact ⟨hr, hm, listDatabases_names_nodup Codecs.binary hr hm⟩

end Kvrpc
