import Kvrpc.Spec.Document
import Kvrpc.Spec.Binary
import Kvrpc.Proof.Go

/-!
# A collection stores a map

The documents under a collection's keys are a map from document id to document
(`Stores`), and the calls read and change that map as the spec says, whatever their KV
calls do: a one-shot call the map the store holds, a call given the caller's transaction
the map that transaction holds (`DocCtx.view`). The source leaves the key helpers out;
two facts about them are assumed: `GetCollectionDocumentKey(cid, ·)` is injective, and
none of its keys is the sequence key.

* `Sequence.Next_frame`, `Sequence.Next_view`: `Next` writes the store at the sequence key
  only, and leaves the caller's transaction.
* `DocCall.execWith_refines`: from a transaction holding `M`, a call returns what `M`
  allows and leaves a transaction holding the map its result gives (`DocCall.apply`).
* `DocCall.execWith_read`: with the DB open and no KV call failing, `GetOne` and `GetMany`
  return exactly what they read in `M`.
* `DocCall.runWith_refines`: so does every run of calls; the store changes only where a
  one-shot call commits, or at the sequence key.
* `collection_refines_map`: from a store with no document of the collection, every run of
  one-shot calls is a run of the map, which starts empty.
* `callerTxn_refines_map`: calls given the caller's transaction are a run of the map that
  transaction holds, and commit nothing.
* `insertOne_overwrites_upserted`: that map lets `InsertOne` return an id in use.
  `UpsertOne` takes any id, and `InsertOne` writes under the next id of the sequence
  without a check, so on a fresh collection an insert after `UpsertOne(1, d₁)` returns
  the id 1 and replaces `d₁`.
-/

namespace Kvrpc

open Go DocTx

/-! ### Frames -/

/-- What a call's transaction reads: the caller's transaction when `provided`, else the
store. -/
def DocCtx.view (provided : Bool) (c : DocCtx) : View := if provided then c.txn else c.kv

@[simp] theorem DocCtx.view_false (c : DocCtx) : c.view false = c.kv := rfl
@[simp] theorem DocCtx.view_true (c : DocCtx) : c.view true = c.txn := rfl
@[simp] theorem DocCtx.pop_view (p : Bool) (c : DocCtx) : c.pop.view p = c.view p := rfl

theorem DocTx.begin_view (p : Bool) (c : DocCtx) : begin p c = (.ok (c.view p), c) := rfl

/-- `c'` keeps the DB's state of `c`, and its store outside the keys `S`. -/
structure DocCtx.Frame (S : Bytes → Prop) (c c' : DocCtx) : Prop where
  kv : ∀ k, ¬ S k → c'.kv k = c.kv k
  closed : c'.closed = c.closed
  closing : c'.closing = c.closing

namespace DocCtx.Frame

variable {S : Bytes → Prop}

instance : IsRefl DocCtx (Frame S) := ⟨fun _ => ⟨fun _ _ => rfl, rfl, rfl⟩⟩

instance : IsTrans DocCtx (Frame S) :=
  ⟨fun _ _ _ h h' => ⟨fun k hk => (h'.kv k hk).trans (h.kv k hk), h'.closed.trans h.closed,
    h'.closing.trans h.closing⟩⟩

theorem pop (c : DocCtx) : Frame S c c.pop := ⟨fun _ _ => rfl, rfl, rfl⟩

theorem mono {T : Bytes → Prop} (hST : ∀ k, S k → T k) {c c' : DocCtx} (h : Frame S c c') :
    Frame T c c' :=
  ⟨fun k hk => h.kv k (hk ∘ hST k), h.closed, h.closing⟩

end DocCtx.Frame

/-- `c'` keeps what the transaction of `c` reads (`view p`) outside the keys `S`. -/
def DocCtx.ViewFrame (p : Bool) (S : Bytes → Prop) (c c' : DocCtx) : Prop :=
  ∀ k, ¬ S k → c'.view p k = c.view p k

instance {p : Bool} {S : Bytes → Prop} : IsRefl DocCtx (DocCtx.ViewFrame p S) :=
  ⟨fun _ _ _ => rfl⟩

instance {p : Bool} {S : Bytes → Prop} : IsTrans DocCtx (DocCtx.ViewFrame p S) :=
  ⟨fun _ _ _ h h' k hk => (h' k hk).trans (h k hk)⟩

open DocCtx (Frame ViewFrame)

namespace DocTx

variable {S : Bytes → Prop}

theorem getCtx_moves : Moves (Frame S) getCtx := fun c => refl c
theorem outcome_moves : Moves (Frame S) outcome := Frame.pop
theorem call_moves : Moves (Frame S) call := Frame.pop
theorem begin_moves (p : Bool) : Moves (Frame S) (begin p) := fun c => refl c
theorem prologue_moves : Moves (Frame S) prologue := fun c => refl c

theorem txnExists_moves (t : View) (k : Bytes) : Moves (Frame S) (txnExists t k) :=
  .bind call_moves fun _ => .pure' _
theorem txnSet_moves (t : View) (k v : Bytes) : Moves (Frame S) (txnSet t k v) :=
  .bind call_moves fun _ => .pure' _
theorem txnDelete_moves (t : View) (k : Bytes) : Moves (Frame S) (txnDelete t k) :=
  .bind call_moves fun _ => .pure' _

/-- Only a one-shot `finish` writes the store. -/
theorem finish_moves {p : Bool} (hS : ∀ k, p = false → S k) (t : View) :
    Moves (Frame S) (finish p t) := by
  cases p
  · exact .bind call_moves fun _ _ => ⟨fun k hk => absurd (hS k rfl) hk, rfl, rfl⟩
  · exact fun _ => ⟨fun _ _ => rfl, rfl, rfl⟩

theorem call_cases (c : DocCtx) : call c = (.ok (), c.pop) ∨ call c = (.err .kv, c.pop) := by
  cases h : c.faults.headD true <;> simp [h]

theorem prologue_cases (c : DocCtx) :
    prologue c = (.ok (), c) ∧ c.closed = false ∧ c.closing = false ∨
      ∃ e, prologue c = (.err e, c) ∧ e ≠ .docNotFound := by
  cases h : c.closed <;> cases h' : c.closing <;> simp [h, h']

/-- `finish` leaves the call's transaction reading `t`, or fails and leaves it as it was. -/
theorem finish_cases (p : Bool) (t : View) (c : DocCtx) :
    (∃ c', finish p t c = (.ok (), c') ∧ c'.view p = t) ∨ finish p t c = (.err .kv, c.pop) := by
  cases p
  · rcases call_cases c with h | h <;> simp [finish, commit, -call_apply, h]
  · simp [finish]

end DocTx

section Next

variable {R : DocCtx → DocCtx → Prop} [IsRefl DocCtx R] [IsTrans DocCtx R] {key : Bytes}

/-- `Next` moves along every preorder that using up an outcome, a new lease under `key`
and a new state of the sequence move along. -/
theorem Sequence.Next_moves (hpop : ∀ c, R c c.pop)
    (hlease : ∀ c v s, R c { c with kv := Function.update c.kv key v, seq := s })
    (hseq : ∀ c s, R c { c with seq := s }) : Moves R (Sequence.Next key) := by
  have hval : Moves R (leaseValue key) := fun c => by
    unfold leaseValue; split <;> exact refl c
  unfold Sequence.Next
  refine .bind (fun c => refl c) fun c => .bind (.deref' _) fun s => .ite' ?_ ?_
  · refine .bind hpop fun g => .bind (.ite' hval (.pure' _)) fun v =>
      .bind (.ite' hpop (.pure' _)) fun so => .bind (.ite' hpop (.pure' _)) fun co => ?_
    split
    · exact .bind (fun c => hlease c _ _) fun _ => .pure' _
    · exact .bind (fun c => hseq c _) fun _ => .throw' _
  · exact .bind (fun c => hseq c _) fun _ => .pure' _

/-- `Next` writes the store at its own key only. -/
theorem Sequence.Next_frame (key : Bytes) : Moves (Frame (· = key)) (Sequence.Next key) :=
  Sequence.Next_moves Frame.pop (fun _ _ _ => ⟨fun _ hk => Function.update_noteq hk _ _, rfl, rfl⟩)
    fun _ _ => ⟨fun _ _ => rfl, rfl, rfl⟩

/-- `Next` leaves what a call's transaction reads, outside its own key. -/
theorem Sequence.Next_view (p : Bool) (key : Bytes) :
    Moves (ViewFrame p (· = key)) (Sequence.Next key) :=
  Sequence.Next_moves (fun _ _ _ => rfl)
    (fun _ _ _ k hk => by cases p; exacts [Function.update_noteq hk _ _, rfl]) fun _ _ _ _ => rfl

end Next

/-! ### The store holds a map -/

section Stores

variable {D : Type} (bson : Codec D) (env : DocEnv) (col : Collection)

/-- The documents under the collection's keys are `M`, marshalled. -/
def Stores (kv : View) (M : ℤ → Option D) : Prop :=
  ∀ did, kv (col.docKey env did) = (M did).map bson.marshal

variable {bson env col} {kv kv' : View} {M : ℤ → Option D}

theorem Stores.congr (h : Stores bson env col kv M)
    (h' : ∀ did, kv' (col.docKey env did) = kv (col.docKey env did)) : Stores bson env col kv' M :=
  fun did => (h' did).trans (h did)

theorem Stores.update (hinj : ∀ a b, col.docKey env a = col.docKey env b → a = b)
    (h : Stores bson env col kv M) (i : ℤ) (d : Option D) :
    Stores bson env col (Function.update kv (col.docKey env i) (d.map bson.marshal))
      (Function.update M i d) := by
  intro did
  by_cases hd : did = i
  · subst hd; simp
  · rw [Function.update_noteq (fun e => hd (hinj _ _ e)), Function.update_noteq hd, h]

end Stores

/-! ### Each call -/

section Calls

variable {D : Type} {bson : Codec D} {env : DocEnv} {col : Collection} {M : ℤ → Option D}
  {c : DocCtx} {p : Bool}

theorem DocTx.call_ok (hf : false ∉ c.faults) : call c = (.ok (), c.pop) ∧ false ∉ c.pop.faults := by
  cases h : c.faults <;> simp_all [DocCtx.pop]

/-- `updateOne` from a transaction holding `M`: `(updated, isNew)` and the map it leaves. -/
theorem updateOne_spec (hinj : ∀ a b, col.docKey env a = col.docKey env b → a = b)
    (h : Stores bson env col (c.view p) M) (did : ℤ) (d : D) (upsert : Bool) :
    match col.updateOne bson env did d upsert p c with
    | (.ok (u, n), c') => u = ((M did).isSome || upsert) ∧ n = (u && !(M did).isSome) ∧
        Stores bson env col (c'.view p) (if u then Function.update M did (some d) else M)
    | (_, c') => Stores bson env col (c'.view p) M := by
  simp only [Collection.updateOne, bind_apply]
  rcases prologue_cases c with ⟨hp, -⟩ | ⟨e, hp, he⟩ <;> simp only [hp]
  · simp only [begin_view, txnExists, bind_apply, pure_apply]
    rcases call_cases c with h2 | h2 <;> simp only [h2]
    · have hx : (c.view p (col.docKey env did)).isSome = (M did).isSome := by
        rw [h did]; cases M did <;> rfl
      rw [hx]
      cases hs : (M did).isSome <;> cases upsert <;>
        simp only [Bool.not_false, Bool.not_true, Bool.and_true, Bool.and_false, Bool.false_eq_true,
          ↓reduceIte, pure_apply]
      · exact ⟨rfl, trivial, h⟩
      all_goals
        simp only [txnSet, bind_apply]
        rcases call_cases c.pop with h3 | h3 <;> simp only [h3]
        · rcases finish_cases p (Function.update (c.view p) (col.docKey env did)
            (some (bson.marshal d))) c.pop.pop with ⟨c4, h4, hv⟩ | h4 <;> simp only [h4, pure_apply]
          · exact ⟨rfl, trivial, hv ▸ by simpa using h.update hinj did (some d)⟩
          · exact h
        · exact h
    · exact h
  · exact h

/-- `InsertOne` from a transaction holding `M`: the map it leaves. -/
theorem insertOne_spec (hinj : ∀ a b, col.docKey env a = col.docKey env b → a = b)
    (hsep : ∀ did, col.docKey env did ≠ env.sequenceKey col.name)
    (h : Stores bson env col (c.view p) M) (d : D) :
    match col.InsertOne bson env d p c with
    | (.ok i, c') => Stores bson env col (c'.view p) (Function.update M i (some d))
    | (_, c') => Stores bson env col (c'.view p) M := by
  simp only [Collection.InsertOne, bind_apply]
  rcases prologue_cases c with ⟨hp, -⟩ | ⟨e, hp, he⟩ <;> simp only [hp]
  · have h1 := Sequence.Next_view p (env.sequenceKey col.name) c
    rcases hn : Sequence.Next (env.sequenceKey col.name) c with ⟨n | _ | _, c1⟩ <;>
      rw [hn] at h1 <;>
      replace h1 : Stores bson env col (c1.view p) M := h.congr fun did => h1 _ (hsep did)
    · simp only [begin_view, txnSet, bind_apply, pure_apply]
      rcases call_cases c1 with h2 | h2 <;> simp only [h2]
      · rcases finish_cases p (Function.update (c1.view p) (col.docKey env (toInt64 n))
          (some (bson.marshal d))) c1.pop with ⟨c3, h3, hv⟩ | h3 <;> simp only [h3, pure_apply]
        · exact hv ▸ h1.update hinj _ (some d)
        · exact h1
      · exact h1
    · exact h1
    · exact h1
  · exact h

/-- `DeleteOne` from a transaction holding `M`: the map it leaves. -/
theorem deleteOne_spec (hinj : ∀ a b, col.docKey env a = col.docKey env b → a = b)
    (h : Stores bson env col (c.view p) M) (did : ℤ) :
    match col.DeleteOne env did p c with
    | (.ok (), c') => Stores bson env col (c'.view p) (Function.update M did none)
    | (_, c') => Stores bson env col (c'.view p) M := by
  simp only [Collection.DeleteOne, bind_apply]
  rcases prologue_cases c with ⟨hp, -⟩ | ⟨e, hp, he⟩ <;> simp only [hp]
  · simp only [begin_view, txnDelete, bind_apply, pure_apply]
    rcases call_cases c with h2 | h2 <;> simp only [h2]
    · rcases finish_cases p (Function.update (c.view p) (col.docKey env did) none) c.pop with
        ⟨c3, h3, hv⟩ | h3 <;> simp only [h3]
      · exact hv ▸ by simpa using h.update hinj did none
      · exact h
    · exact h
  · exact h

/-- What `GetOne` returns from a transaction holding `M` is in `M`. -/
theorem getOne_spec (h : Stores bson env col (c.view p) M) (did : ℤ) :
    match (col.GetOne bson env did p c).1 with
    | .ok d => M did = some d
    | .err e => e = .docNotFound → M did = none
    | .panic => False := by
  simp only [Collection.GetOne, bind_apply]
  rcases prologue_cases c with ⟨hp, -⟩ | ⟨e, hp, he⟩ <;> simp only [hp]
  · simp only [begin_view, txnGet, bind_apply, pure_apply]
    rcases call_cases c with h2 | h2 <;> simp only [h2]
    · rw [h did]
      cases M did <;> simp
    · simp
  · simp [he]

/-- With the DB open and no KV call failing, `GetOne` returns `M did` or `ErrDocNotFound`. -/
theorem getOne_read (h : Stores bson env col (c.view p) M)
    (hopen : c.closed = false ∧ c.closing = false) (hf : false ∉ c.faults) (did : ℤ) :
    (col.GetOne bson env did p c).1 = match M did with
      | some d => .ok d
      | none => .err .docNotFound := by
  simp only [Collection.GetOne, bind_apply, prologue_apply, hopen, Bool.false_eq_true, ↓reduceIte,
    begin_view, txnGet, (call_ok hf).1, pure_apply, h did]
  cases M did <;> simp

/-- What the loop of `GetMany` returns from a transaction holding `M` is in `M`. -/
theorem getManyLoop_spec {t : View} (h : Stores bson env col t M) (dids : List ℤ) (c : DocCtx) :
    ∃ ds e, (col.getManyLoop bson env t dids c).1 = .ok (ds, e) ∧
      (e = none → dids.mapM M = some ds) ∧ (e = some .docNotFound → ∃ i ∈ dids, M i = none) := by
  induction dids generalizing c with
  | nil => exact ⟨[], none, rfl, fun _ => rfl, fun h => nomatch h⟩
  | cons did dids ih =>
    simp only [Collection.getManyLoop, bind_apply, attempt, txnGet]
    rcases call_cases c with h2 | h2 <;> simp only [h2, pure_apply]
    · rw [h did]
      cases hm : M did with
      | none =>
        simp only [Option.map_none', pure_apply]
        exact ⟨[], some .docNotFound, rfl, (fun h => nomatch h), fun _ => ⟨did, List.mem_cons_self _ _, hm⟩⟩
      | some d =>
        obtain ⟨ds, e, hr, h1, h2⟩ := ih c.pop
        simp only [Option.map_some', Codec.unmarshal_marshal, bind_apply]
        rcases hl : col.getManyLoop bson env t dids c.pop with ⟨r, c'⟩
        rw [hl] at hr
        subst hr
        refine ⟨d :: ds, e, rfl, fun he => by rw [List.mapM_cons, hm, h1 he]; rfl, fun he => ?_⟩
        obtain ⟨i, hi, hn⟩ := h2 he
        exact ⟨i, List.mem_cons_of_mem _ hi, hn⟩
    · exact ⟨[], some .kv, rfl, (fun h => nomatch h), fun h => nomatch h⟩

/-- With no KV call failing, the loop of `GetMany` returns what `lookupAll` reads in `M`. -/
theorem getManyLoop_read {t : View} (h : Stores bson env col t M) (dids : List ℤ) (c : DocCtx)
    (hf : false ∉ c.faults) :
    (col.getManyLoop bson env t dids c).1 = .ok (DocCall.lookupAll M dids) := by
  induction dids generalizing c with
  | nil => rfl
  | cons did dids ih =>
    simp only [Collection.getManyLoop, bind_apply, attempt, txnGet, (call_ok hf).1, pure_apply, h did]
    cases hm : M did with
    | none => simp [DocCall.lookupAll, hm]
    | some d =>
      have := ih c.pop (call_ok hf).2
      rcases hl : col.getManyLoop bson env t dids c.pop with ⟨r, c'⟩
      rw [hl] at this
      subst this
      simp [DocCall.lookupAll, hm, hl]

/-! ### The DB's state, and the store -/

variable (bson env col)

theorem InsertOne_moves (d : D) (p : Bool) :
    Moves (Frame fun k => p = false ∨ k = env.sequenceKey col.name) (col.InsertOne bson env d p) :=
  .bind prologue_moves fun _ => .bind ((Sequence.Next_frame _).mono fun _ _ h => h.mono fun _ => .inr)
    fun _ => .bind (begin_moves _) fun _ => .bind (txnSet_moves _ _ _) fun _ =>
    .bind (finish_moves (fun _ => .inl) _) fun _ => .pure' _

theorem updateOne_moves (p : Bool) {S : Bytes → Prop} (hS : ∀ k, p = false → S k) (did : ℤ) (d : D)
    (u : Bool) : Moves (Frame S) (col.updateOne bson env did d u p) :=
  .bind prologue_moves fun _ => .bind (begin_moves _) fun _ => .bind (txnExists_moves _ _) fun _ =>
    .ite' (.pure' _) (.bind (txnSet_moves _ _ _) fun _ => .bind (finish_moves hS _) fun _ => .pure' _)

section Readers

variable {R : DocCtx → DocCtx → Prop} [IsRefl DocCtx R] [IsTrans DocCtx R] (hpop : ∀ c, R c c.pop)
include hpop

/-! The readers only use up outcomes: they move along every preorder that `pop` moves
along. -/

theorem txnGet_moves_of_pop (t : View) (k : Bytes) : Moves R (txnGet t k) :=
  .bind hpop fun _ => .pure' _

theorem getManyLoop_moves_of_pop (t : View) (dids : List ℤ) :
    Moves R (col.getManyLoop bson env t dids) := by
  induction dids with
  | nil => exact .pure' _
  | cons did dids ih =>
    refine .bind (.attempt' (txnGet_moves_of_pop hpop _ _)) fun r => ?_
    split
    · exact .pure' _
    · exact .pure' _
    · split
      · exact .pure' _
      · exact .bind ih fun _ => .pure' _

theorem GetOne_moves_of_pop {p : Bool} (did : ℤ) : Moves R (col.GetOne bson env did p) := by
  refine .bind (fun c => refl c) fun _ => .bind (fun c => refl c) fun t =>
    .bind (txnGet_moves_of_pop hpop _ _) fun v => ?_
  split
  · exact .throw' _
  · split
    · exact .throw' _
    · exact .pure' _

theorem GetMany_moves_of_pop {p : Bool} (dids : List ℤ) : Moves R (col.GetMany bson env dids p) := by
  refine .bind (.attempt' fun c => refl c) fun r => ?_
  split
  · exact .pure' _
  · exact .bind (fun c => refl c) fun t => getManyLoop_moves_of_pop bson env col hpop t dids

end Readers

/-- A call keeps the DB's state, and writes the store only where a one-shot call commits,
or at the counter of the sequence. -/
theorem DocCall.execWith_moves (p : Bool) (call : DocCall D) :
    Moves (Frame fun k => p = false ∨ k = env.sequenceKey col.name) (call.execWith bson env col p) := by
  cases call with
  | insertOne d => exact .bind (InsertOne_moves bson env col d p) fun _ => .pure' _
  | updateOne i d =>
    exact .bind (.bind (updateOne_moves bson env col p (fun _ => .inl) i d false) fun _ => .pure' _)
      fun _ => .pure' _
  | upsertOne i d =>
    exact .bind (.bind (updateOne_moves bson env col p (fun _ => .inl) i d true) fun _ => .pure' _)
      fun _ => .pure' _
  | deleteOne i =>
    exact .bind (.bind prologue_moves fun _ => .bind (begin_moves _) fun _ =>
      .bind (txnDelete_moves _ _) fun _ => finish_moves (fun _ => .inl) _) fun _ => .pure' _
  | getOne i => exact .bind (GetOne_moves_of_pop bson env col Frame.pop i) fun _ => .pure' _
  | getMany is => exact .bind (GetMany_moves_of_pop bson env col Frame.pop is) fun _ => .pure' _

theorem DocCall.exec_eq_execWith (call : DocCall D) :
    call.exec bson env col = call.execWith bson env col false := by
  cases call <;> rfl

theorem DocCall.run_eq_runWith (c : DocCtx) (calls : List (DocCall D × List Bool)) :
    DocCall.run bson env col c calls = DocCall.runWith bson env col false c calls := by
  induction calls generalizing c with
  | nil => rfl
  | cons x cs ih =>
    obtain ⟨call, fs⟩ := x
    simp only [DocCall.run, DocCall.runWith, DocCall.exec_eq_execWith, ih]

/-! ### A call, and a run of calls -/

variable {bson env col}

/-- **A call changes the stored map as the map allows.** From a transaction holding `M`
(the store's, or the caller's), a call's result is consistent with `M`, and the transaction
it leaves holds the map `apply` gives. -/
theorem DocCall.execWith_refines (hinj : ∀ a b, col.docKey env a = col.docKey env b → a = b)
    (hsep : ∀ did, col.docKey env did ≠ env.sequenceKey col.name)
    (h : Stores bson env col (c.view p) M) (call : DocCall D) :
    call.Consistent M (call.execWith bson env col p c).1 ∧
      Stores bson env col ((call.execWith bson env col p c).2.view p)
        (call.apply M (call.execWith bson env col p c).1) := by
  cases call with
  | insertOne d =>
    have hs := insertOne_spec hinj hsep h d
    simp only [execWith, bind_apply]
    revert hs
    rcases col.InsertOne bson env d p c with ⟨_ | _ | _, c'⟩ <;> intro hs
    · exact ⟨⟨_, rfl⟩, hs⟩
    all_goals exact ⟨trivial, hs⟩
  | updateOne i d =>
    have hs := updateOne_spec hinj h i d false
    simp only [execWith, Collection.UpdateOne, bind_apply]
    revert hs
    rcases col.updateOne bson env i d false p c with ⟨⟨u, n⟩ | _ | _, c'⟩ <;> intro hs
    · obtain ⟨rfl, -, hs⟩ := hs
      refine ⟨by simp [Consistent], ?_⟩
      cases hm : (M i).isSome <;> simpa [hm, apply] using hs
    all_goals exact ⟨trivial, hs⟩
  | upsertOne i d =>
    have hs := updateOne_spec hinj h i d true
    simp only [execWith, Collection.UpsertOne, bind_apply]
    revert hs
    rcases col.updateOne bson env i d true p c with ⟨⟨u, n⟩ | _ | _, c'⟩ <;> intro hs
    · obtain ⟨rfl, rfl, hs⟩ := hs
      refine ⟨?_, by simpa using hs⟩
      simp only [pure_apply, Consistent]
      cases M i <;> rfl
    all_goals exact ⟨trivial, hs⟩
  | deleteOne i =>
    have hs := deleteOne_spec hinj h i
    simp only [execWith, bind_apply]
    revert hs
    rcases col.DeleteOne env i p c with ⟨_ | _ | _, c'⟩ <;> intro hs
    · exact ⟨rfl, hs⟩
    all_goals exact ⟨trivial, hs⟩
  | getOne i =>
    have hs := getOne_spec h i
    have hv := GetOne_moves_of_pop bson env col (R := ViewFrame p fun _ => False)
      (fun _ _ _ => rfl) (p := p) i c
    simp only [execWith, bind_apply]
    revert hs hv
    rcases col.GetOne bson env i p c with ⟨_ | _ | _, c'⟩ <;> intro hs hv
    · exact ⟨⟨_, hs, rfl⟩, h.congr fun _ => hv _ id⟩
    · exact ⟨hs, h.congr fun _ => hv _ id⟩
    · exact hs.elim
  | getMany is =>
    simp only [execWith, Collection.GetMany, bind_apply, attempt]
    rcases prologue_cases c with ⟨hp, -⟩ | ⟨e, hp, he⟩ <;>
      simp only [hp, pure_apply, bind_apply, begin_view]
    · obtain ⟨ds, e, hr, h1, h2⟩ := getManyLoop_spec h is c
      have hv := getManyLoop_moves_of_pop bson env col (R := ViewFrame p fun _ => False)
        (fun _ _ _ => rfl) (c.view p) is c
      revert hr hv
      rcases col.getManyLoop bson env (c.view p) is c with ⟨r, c'⟩
      rintro rfl hv
      exact ⟨⟨ds, e, rfl, h1, h2⟩, h.congr fun _ => hv _ id⟩
    · exact ⟨⟨[], some e, rfl, (fun h => nomatch h), fun h' => absurd (Option.some.inj h') he⟩, h⟩

/-- **A reader reads the stored map.** With the DB open and none of its KV calls failing,
`GetOne` and `GetMany` return exactly what they read in `M`. -/
theorem DocCall.execWith_read (h : Stores bson env col (c.view p) M)
    (hopen : c.closed = false ∧ c.closing = false) (hf : false ∉ c.faults) {call : DocCall D}
    {a : Res (DocRet D)} (hr : call.read M = some a) : (call.execWith bson env col p c).1 = a := by
  cases call with
  | getOne i =>
    cases hr
    have hs := getOne_read h hopen hf i
    simp only [execWith, bind_apply]
    revert hs
    rcases col.GetOne bson env i p c with ⟨r, c'⟩
    rintro (rfl : r = _)
    cases M i <;> rfl
  | getMany is =>
    cases hr
    have hs := getManyLoop_read h is c hf
    simp only [execWith, Collection.GetMany, bind_apply, attempt, prologue_apply, hopen,
      Bool.false_eq_true, ↓reduceIte, pure_apply, begin_view]
    revert hs
    rcases col.getManyLoop bson env (c.view p) is c with ⟨r, c'⟩
    rintro (rfl : r = _)
    rfl
  | _ => cases hr

/-- **Any run of calls refines the map.** From a transaction holding `M` (the store's, or
the caller's when `p`) with the DB open, the results of the calls are what `Trace` allows
from `M`, and the transaction after them holds the map their results leave. The store
changes only where a one-shot call commits, or at the counter of the sequence. -/
theorem DocCall.runWith_refines (hinj : ∀ a b, col.docKey env a = col.docKey env b → a = b)
    (hsep : ∀ did, col.docKey env did ≠ env.sequenceKey col.name) (p : Bool)
    (calls : List (DocCall D × List Bool)) :
    ∀ (c : DocCtx) (M : ℤ → Option D), Stores bson env col (c.view p) M → c.closed = false →
      c.closing = false →
      Trace M calls (runWith bson env col p c calls).1 ∧
        Stores bson env col ((runWith bson env col p c calls).2.view p)
          (replay M (calls.map Prod.fst) (runWith bson env col p c calls).1) ∧
        Frame (fun k => p = false ∨ k = env.sequenceKey col.name) c (runWith bson env col p c calls).2 := by
  induction calls with
  | nil => exact fun c M h _ _ => ⟨trivial, h, refl c⟩
  | cons x cs ih =>
    obtain ⟨call, fs⟩ := x
    intro c M h h1 h2
    have h0 : Stores bson env col ({ c with faults := fs }.view p) M := h
    have hr := execWith_refines hinj hsep h0 call
    have hread : false ∉ fs → ∀ a, call.read M = some a →
        (call.execWith bson env col p { c with faults := fs }).1 = a :=
      fun hf _ => execWith_read h0 ⟨h1, h2⟩ hf
    have hfr := execWith_moves bson env col p call { c with faults := fs }
    simp only [runWith]
    revert hr hread hfr
    rcases execWith bson env col p call { c with faults := fs } with ⟨r, c'⟩
    rintro ⟨hcons, hst⟩ hread hfr
    have ih' := ih c' _ hst (hfr.closed.trans h1) (hfr.closing.trans h2)
    revert ih'
    rcases runWith bson env col p c' cs with ⟨rs, c''⟩
    rintro ⟨ih1, ih2, ih3⟩
    exact ⟨⟨hcons, hread, ih1⟩, ih2, IsTrans.trans _ _ _ (⟨hfr.kv, hfr.closed, hfr.closing⟩ : Frame _ c c') ih3⟩

/-- **Any run of one-shot calls refines the map.** From a store holding `M` with the DB
open, the results of the calls are what `Trace` allows from `M`, and the store after them
holds the map their results leave. -/
theorem DocCall.run_refines (hinj : ∀ a b, col.docKey env a = col.docKey env b → a = b)
    (hsep : ∀ did, col.docKey env did ≠ env.sequenceKey col.name)
    (calls : List (DocCall D × List Bool)) :
    ∀ (c : DocCtx) (M : ℤ → Option D), Stores bson env col c.kv M → c.closed = false →
      c.closing = false →
      Trace M calls (run bson env col c calls).1 ∧
        Stores bson env col (run bson env col c calls).2.kv
          (replay M (calls.map Prod.fst) (run bson env col c calls).1) := fun c M h h1 h2 => by
  rw [run_eq_runWith]
  exact (runWith_refines hinj hsep false calls c M h h1 h2).imp_right And.left

end Calls

section Collection

variable {D : Type} {bson : Codec D} {env : DocEnv} {col : Collection}

/-- **A collection stores a map.** Take a store with no document of the collection and the
DB open, and any one-shot calls, each with its own KV outcomes. Every result is one the map
allows: `InsertOne` returns some id; `UpdateOne` returns whether the id is in the map;
`UpsertOne` returns whether it is not; `GetOne` returns the document in the map, and
`ErrDocNotFound` only for an id not in it; `GetMany`, when it ends with no error, the
documents of all its ids. A reader none of whose KV calls fails returns exactly what it
reads. The map starts empty and each successful call changes it as `DocCall.apply` says;
an error changes nothing. After the calls, the store holds that map. -/
theorem collection_refines_map (hinj : ∀ a b, col.docKey env a = col.docKey env b → a = b)
    (hsep : ∀ did, col.docKey env did ≠ env.sequenceKey col.name) (c : DocCtx)
    (hopen : c.closed = false ∧ c.closing = false)
    (hempty : ∀ did, c.kv (col.docKey env did) = none) (calls : List (DocCall D × List Bool)) :
    DocCall.Trace (fun _ => none) calls (DocCall.run bson env col c calls).1 ∧
      Stores bson env col (DocCall.run bson env col c calls).2.kv
        (DocCall.replay (fun _ => none) (calls.map Prod.fst) (DocCall.run bson env col c calls).1) :=
  DocCall.run_refines hinj hsep calls c _ hempty hopen.1 hopen.2

/-- **Calls in the caller's transaction refine the map, and commit nothing.** Take a
transaction of the caller whose view holds `M`, the DB open, and any calls given that
transaction, each with its own KV outcomes. As for one-shot calls, every result is one the
map allows, a reader none of whose KV calls fails returns exactly what it reads, and the
transaction after them holds the map their results leave. No call commits it: the store
is as it was, but for the counter of the collection's sequence. -/
theorem callerTxn_refines_map (hinj : ∀ a b, col.docKey env a = col.docKey env b → a = b)
    (hsep : ∀ did, col.docKey env did ≠ env.sequenceKey col.name) (c : DocCtx)
    (hopen : c.closed = false ∧ c.closing = false) {M : ℤ → Option D}
    (hM : Stores bson env col c.txn M) (calls : List (DocCall D × List Bool)) :
    DocCall.Trace M calls (DocCall.runWith bson env col true c calls).1 ∧
      Stores bson env col (DocCall.runWith bson env col true c calls).2.txn
        (DocCall.replay M (calls.map Prod.fst) (DocCall.runWith bson env col true c calls).1) ∧
      ∀ k, k ≠ env.sequenceKey col.name → (DocCall.runWith bson env col true c calls).2.kv k = c.kv k :=
  have h := DocCall.runWith_refines hinj hsep true calls c M hM hopen.1 hopen.2
  ⟨h.1, h.2.1, fun k hk => h.2.2.kv k (by simpa using hk)⟩

end Collection

/-- Integer documents under keys tagged `1`, and an empty sequence key. -/
def intDocEnv : DocEnv :=
  ⟨fun cid did => (Codec.ofEncodable (ℤ × ℤ)).marshal (cid, did), fun _ => [], 100⟩

theorem intDocEnv_docKey_inj (col : Collection) (a b : ℤ)
    (h : col.docKey intDocEnv a = col.docKey intDocEnv b) : a = b := by
  have := congrArg (Codec.ofEncodable (ℤ × ℤ)).unmarshal h
  simp only [Collection.docKey, intDocEnv, Codec.unmarshal_marshal, Option.some.injEq,
    Prod.mk.injEq] at this
  exact this.2

/-- An empty store, a fresh sequence, the DB open. -/
def emptyDocCtx : DocCtx := ⟨fun _ => none, some ⟨100, 0, 0⟩, fun _ => none, false, false, []⟩

/-- An insert whose commit fails, an insert, a read of each id, and an update of the
missing one. -/
def sampleDocCalls : List (DocCall ℤ × List Bool) :=
  [(.insertOne 5, [true, false]), (.insertOne 7, []), (.getMany [1, 2], []), (.updateOne 1 9, [])]

theorem collection_refines_map_sample :
    (∀ a b, (⟨1, "c"⟩ : Collection).docKey intDocEnv a = (⟨1, "c"⟩ : Collection).docKey intDocEnv b →
        a = b) ∧
      (∀ did, (⟨1, "c"⟩ : Collection).docKey intDocEnv did ≠ intDocEnv.sequenceKey "c") ∧
      (emptyDocCtx.closed = false ∧ emptyDocCtx.closing = false) ∧
      (∀ did, emptyDocCtx.kv ((⟨1, "c"⟩ : Collection).docKey intDocEnv did) = none) ∧
      (DocCall.Trace (fun _ => none) sampleDocCalls
          (DocCall.run (Codec.ofEncodable ℤ) intDocEnv ⟨1, "c"⟩ emptyDocCtx sampleDocCalls).1 ∧
        Stores (Codec.ofEncodable ℤ) intDocEnv ⟨1, "c"⟩
          (DocCall.run (Codec.ofEncodable ℤ) intDocEnv ⟨1, "c"⟩ emptyDocCtx sampleDocCalls).2.kv
          (DocCall.replay (fun _ => none) (sampleDocCalls.map Prod.fst)
            (DocCall.run (Codec.ofEncodable ℤ) intDocEnv ⟨1, "c"⟩ emptyDocCtx sampleDocCalls).1)) :=
  ⟨intDocEnv_docKey_inj _, fun _ => List.cons_ne_nil _ _, ⟨rfl, rfl⟩, fun _ => rfl,
    collection_refines_map (intDocEnv_docKey_inj _) (fun _ => List.cons_ne_nil _ _) emptyDocCtx
      ⟨rfl, rfl⟩ (fun _ => rfl) sampleDocCalls⟩

theorem callerTxn_refines_map_sample :
    (∀ a b, (⟨1, "c"⟩ : Collection).docKey intDocEnv a = (⟨1, "c"⟩ : Collection).docKey intDocEnv b →
        a = b) ∧
      (∀ did, (⟨1, "c"⟩ : Collection).docKey intDocEnv did ≠ intDocEnv.sequenceKey "c") ∧
      (emptyDocCtx.closed = false ∧ emptyDocCtx.closing = false) ∧
      Stores (Codec.ofEncodable ℤ) intDocEnv ⟨1, "c"⟩ emptyDocCtx.txn (fun _ => none) ∧
      (DocCall.Trace (fun _ => none) sampleDocCalls
          (DocCall.runWith (Codec.ofEncodable ℤ) intDocEnv ⟨1, "c"⟩ true emptyDocCtx sampleDocCalls).1 ∧
        Stores (Codec.ofEncodable ℤ) intDocEnv ⟨1, "c"⟩
          (DocCall.runWith (Codec.ofEncodable ℤ) intDocEnv ⟨1, "c"⟩ true emptyDocCtx sampleDocCalls).2.txn
          (DocCall.replay (fun _ => none) (sampleDocCalls.map Prod.fst)
            (DocCall.runWith (Codec.ofEncodable ℤ) intDocEnv ⟨1, "c"⟩ true emptyDocCtx sampleDocCalls).1) ∧
        ∀ k, k ≠ intDocEnv.sequenceKey "c" →
          (DocCall.runWith (Codec.ofEncodable ℤ) intDocEnv ⟨1, "c"⟩ true emptyDocCtx sampleDocCalls).2.kv k =
            emptyDocCtx.kv k) :=
  ⟨intDocEnv_docKey_inj _, fun _ => List.cons_ne_nil _ _, ⟨rfl, rfl⟩, fun _ => rfl,
    callerTxn_refines_map (intDocEnv_docKey_inj _) (fun _ => List.cons_ne_nil _ _) emptyDocCtx
      ⟨rfl, rfl⟩ (show Stores (Codec.ofEncodable ℤ) intDocEnv _ _ (fun _ => none) from fun _ => rfl)
      sampleDocCalls⟩

/-- **`InsertOne` overwrites an upserted document.** On a fresh collection (no document,
no counter under the sequence key, a new sequence), with no KV call failing,
`UpsertOne(1, d₁)` creates the document 1. The next `InsertOne(d₂)` leases from 0, takes
the id 1 and sets the key of the document 1 without a check: it returns `(1, nil)`, and
the store then holds `d₂` there, whatever the BSON codec and the key layout. -/
theorem insertOne_overwrites_upserted {D : Type} (bson : Codec D) (env : DocEnv)
    (col : Collection) (hsep : ∀ did, col.docKey env did ≠ env.sequenceKey col.name)
    (c : DocCtx) (hopen : c.closed = false ∧ c.closing = false) {bw : ℕ}
    (hseq : c.seq = some ⟨bw, 0, 0⟩) (hempty : c.kv (col.docKey env 1) = none)
    (hlease : c.kv (env.sequenceKey col.name) = none) (d₁ d₂ : D) :
    (DocCall.run bson env col c [(.upsertOne 1 d₁, [])]).2.kv (col.docKey env 1) =
        some (bson.marshal d₁) ∧
      (DocCall.run bson env col c [(.upsertOne 1 d₁, []), (.insertOne d₂, [])]).1 =
        [.ok (.isNew true), .ok (.did 1)] ∧
      (DocCall.run bson env col c [(.upsertOne 1 d₁, []), (.insertOne d₂, [])]).2.kv
        (col.docKey env 1) = some (bson.marshal d₂) := by
  simp [DocCall.run, DocCall.exec, Collection.UpsertOne, Collection.updateOne,
    Collection.InsertOne, Sequence.Next, hopen.1, hopen.2, hempty, txnExists, txnSet, finish,
    commit, DocCtx.pop, leaseValue, hseq, Function.update_noteq (hsep 1).symm, hlease,
    updateLease, Sequence.bump, wrap64, toInt64]

theorem insertOne_overwrites_upserted_sample :
    (∀ did, (⟨1, "c"⟩ : Collection).docKey intDocEnv did ≠ intDocEnv.sequenceKey "c") ∧
      (emptyDocCtx.closed = false ∧ emptyDocCtx.closing = false) ∧
      emptyDocCtx.seq = some ⟨100, 0, 0⟩ ∧
      emptyDocCtx.kv ((⟨1, "c"⟩ : Collection).docKey intDocEnv 1) = none ∧
      emptyDocCtx.kv (intDocEnv.sequenceKey "c") = none ∧
      ((DocCall.run (Codec.ofEncodable ℤ) intDocEnv ⟨1, "c"⟩ emptyDocCtx [(.upsertOne 1 5, [])]).2.kv
          ((⟨1, "c"⟩ : Collection).docKey intDocEnv 1) = some ((Codec.ofEncodable ℤ).marshal 5) ∧
        (DocCall.run (Codec.ofEncodable ℤ) intDocEnv ⟨1, "c"⟩ emptyDocCtx
          [(.upsertOne 1 5, []), (.insertOne 7, [])]).1 = [.ok (.isNew true), .ok (.did 1)] ∧
        (DocCall.run (Codec.ofEncodable ℤ) intDocEnv ⟨1, "c"⟩ emptyDocCtx
          [(.upsertOne 1 5, []), (.insertOne 7, [])]).2.kv
          ((⟨1, "c"⟩ : Collection).docKey intDocEnv 1) = some ((Codec.ofEncodable ℤ).marshal 7)) :=
  ⟨fun _ => List.cons_ne_nil _ _, ⟨rfl, rfl⟩, rfl, rfl, rfl,
    insertOne_overwrites_upserted (Codec.ofEncodable ℤ) intDocEnv ⟨1, "c"⟩
      (fun _ => List.cons_ne_nil _ _) emptyDocCtx ⟨rfl, rfl⟩ rfl rfl rfl 5 7⟩

end Kvrpc
