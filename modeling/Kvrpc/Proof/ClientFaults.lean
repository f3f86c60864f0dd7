import Kvrpc.Proof.Client
import Kvrpc.Proof.Go

/-!
# A client transaction over a failing transport

Any call of the transport may fail (`StreamRequest`, `EndWrite`, `GetFrame`). A failed call
sends nothing and leaves `sw` as it was, so the stream is still opened by the first frame
sent, and every later frame goes through `sw`. What the transaction sends is what its
calls ask for, in their order:

* `TxnCall.asks`: the request a call asks for: its command, its marshalled request (a
  scan's option with the limit capped at `MaxEntry`) and whether it ends the stream; none
  for a write on a read-only transaction or a scan with a limit `≤ 0`.
* `TxnCall.exec_sends`: a call sends at most one frame, and only the request it asks for.
  A read-only transaction's `Set` and `Delete` send nothing and return
  `ErrMutateForROTxn`.
* `TxnCall.run_sends`: whatever the transport does, the frames that a sequence of calls
  sends on a new transaction are a sublist of the calls' requests, in order, each of the
  shape its place in the stream gives.
-/

namespace Kvrpc

open Go ClientTx Txn

/-- What a request frame carries: its command, its payload, whether it ends the stream. -/
def ReqFrame.content (f : ReqFrame) : Cmd × Bytes × Bool := (f.cmd, f.payload, f.ends)

/-- The request a call asks for on a transaction that is an update iff `update`: none when
it sends nothing, whatever the stream. -/
def TxnCall.asks {P : Type} (env : ClientEnv P) (update : Bool) :
    TxnCall P → Option (Cmd × Bytes × Bool)
  | .set req => if update then some (.set, req, false) else none
  | .get req => some (.get, req, false)
  | .delete req => if update then some (.delete, req, false) else none
  | .scan option =>
    if option.limit ≤ 0 then none
    else some (.scan, env.scanOption2Bytes { option with limit := min option.limit env.maxEntry }, false)
  | .commit => some (.commit, [], true)
  | .discard => some (.discard, [], true)

/-! ### One call -/

/-- `s'` has sent the frames of `s`, with the same `sw`, on a transaction of the same kind. -/
def Quiet (s s' : TxnState) : Prop := s'.update = s.update ∧ s'.sent = s.sent ∧ s'.sw = s.sw

instance : IsRefl TxnState Quiet := ⟨fun _ => ⟨rfl, rfl, rfl⟩⟩

instance : IsTrans TxnState Quiet :=
  ⟨fun _ _ _ h h' => ⟨h'.1.trans h.1, h'.2.1.trans h.2.1, h'.2.2.trans h.2.2⟩⟩

/-- From `s` to `s'` the transaction sent nothing, or one frame with the content `c`: it
opens the stream iff `s` had none open, and carries the opaque bit 1 iff it opens an
update transaction's stream. -/
def SendsAtMost (c : Option (Cmd × Bytes × Bool)) (s s' : TxnState) : Prop :=
  Quiet s s' ∨ ∃ f, c = some f.content ∧ s'.update = s.update ∧ s'.sent = s.sent ++ [f] ∧
    f.opens = !s.sw ∧ f.opaqueBits = (if !s.sw && s.update then 1 else 0) ∧ s'.sw = true

namespace SendsAtMost

variable {c : Option (Cmd × Bytes × Bool)} {s s₁ s₂ : TxnState}

theorem quiet_left (h : Quiet s s₁) (h' : SendsAtMost c s₁ s₂) : SendsAtMost c s s₂ := by
  obtain ⟨hu, hs, hw⟩ := h
  rcases h' with h' | ⟨f, hc, hu', hs', ho, hb, hw'⟩
  · exact .inl (IsTrans.trans _ _ _ ⟨hu, hs, hw⟩ h')
  · exact .inr ⟨f, hc, hu'.trans hu, hs'.trans (by rw [hs]), hw ▸ ho, hw ▸ hu ▸ hb, hw'⟩

theorem quiet_right (h : SendsAtMost c s s₁) (h' : Quiet s₁ s₂) : SendsAtMost c s s₂ := by
  obtain ⟨hu', hs', hw'⟩ := h'
  rcases h with h | ⟨f, hc, hu, hs, ho, hb, hw⟩
  · exact .inl (IsTrans.trans _ _ _ h ⟨hu', hs', hw'⟩)
  · exact .inr ⟨f, hc, hu'.trans hu, hs'.trans hs, ho, hb, hw'.trans hw⟩

end SendsAtMost

section Calls

variable {c : Option (Cmd × Bytes × Bool)} {α β : Type}

theorem Go.Moves.sends_then {x : ClientTx α} {f : α → ClientTx β} (hx : Moves (SendsAtMost c) x)
    (hf : ∀ a, Moves Quiet (f a)) : Moves (SendsAtMost c) (x >>= f) :=
  .bind_comp hx hf (fun _ _ => id) fun _ _ _ => SendsAtMost.quiet_right

theorem Go.Moves.quiet_then {x : ClientTx α} {f : α → ClientTx β} (hx : Moves Quiet x)
    (hf : ∀ a, Moves (SendsAtMost c) (f a)) : Moves (SendsAtMost c) (x >>= f) :=
  .bind_comp hx hf (fun _ _ => .inl) fun _ _ _ => SendsAtMost.quiet_left

theorem transport_quiet : Moves Quiet transport := fun _ => ⟨rfl, rfl, rfl⟩

theorem take_quiet (via : Via) : Moves Quiet (take via) := fun _ => ⟨rfl, rfl, rfl⟩

theorem getRespFrame_quiet : Moves Quiet getRespFrame :=
  .bind (fun s => refl s) fun s => by
    split
    · exact take_quiet _
    · exact .ite' (fun s => refl s) (.bind transport_quiet fun _ =>
        .ite' (.bind (take_quiet _) fun _ => .bind (fun _ => ⟨rfl, rfl, rfl⟩) fun _ => .pure' _)
          (.throw' _))

/-- **`request` sends at most its own frame**, opening the stream iff none is open. A
failed transport call sends nothing. -/
theorem request_sends (cmd : Cmd) (b : Bytes) (e : Bool) :
    Moves (SendsAtMost (some (cmd, b, e))) (request cmd b e) := fun s => by
  cases hsw : s.sw <;> cases hf : s.faults.headD true <;>
    simp only [request, bind_apply, getTxn_apply, transport_apply, hsw, hf, send, modifyTxn_apply,
      pure_apply, throw_apply, Bool.false_eq_true, ↓reduceIte]
  -- no stream yet: `Commit` and `Discard` are no-ops, another command opens the stream
  · split
    · exact .inl ⟨rfl, rfl, rfl⟩
    · simp only [bind_apply, transport_apply, hf, throw_apply, Bool.false_eq_true, ↓reduceIte]
      exact .inl ⟨rfl, rfl, rfl⟩
  · split
    · exact .inl ⟨rfl, rfl, rfl⟩
    · simp only [bind_apply, transport_apply, hf, send, modifyTxn_apply, pure_apply, ↓reduceIte]
      exact .inr ⟨⟨cmd, _, true, e, b⟩, rfl, rfl, rfl, by rw [hsw]; rfl, by simp [hsw], rfl⟩
  -- through `sw`
  · exact .inl ⟨rfl, rfl, hsw.symm⟩
  · exact .inr ⟨⟨cmd, 0, false, e, b⟩, rfl, rfl, rfl, by rw [hsw]; rfl, by simp [hsw], rfl⟩

/-- The scan option as `Scan` sends it: the limit capped at `MaxEntry`. -/
theorem scan_capped {P : Type} (env : ClientEnv P) (o : ScanOption P) :
    (if env.maxEntry < o.limit then { o with limit := env.maxEntry } else o) =
      { o with limit := min o.limit env.maxEntry } := by
  split
  · rw [min_eq_right (le_of_lt ‹_›)]
  · rw [min_eq_left (not_lt.1 ‹_›)]

variable {P : Type} (env : ClientEnv P)

/-- A read-only transaction refuses a write, and sends nothing for it. -/
theorem TxnCall.exec_readOnly {s : TxnState} (hu : s.update = false) (req : Bytes) :
    (TxnCall.set req).exec env s = (.err .mutateForROTxn, s) ∧
      (TxnCall.delete req).exec env s = (.err .mutateForROTxn, s) := by
  simp [TxnCall.exec, Txn.Set, Txn.Delete, checkUpdate, hu]

/-- **A call sends at most the request it asks for.** -/
theorem TxnCall.exec_sends (call : TxnCall P) (s : TxnState) :
    SendsAtMost (call.asks env s.update) s (call.exec env s).2 := by
  have hrw (cmd : Cmd) (req : Bytes) : Moves (SendsAtMost (some (cmd, req, false)))
      ((checkUpdate >>= fun _ => request cmd req false >>= fun _ => getRespFrame) >>=
        fun f => pure (some f)) :=
    .sends_then (.quiet_then (.bind (fun s => refl s) fun _ => .ite' (.throw' _) (.pure' _))
      fun _ => .sends_then (request_sends _ _ _) fun _ => getRespFrame_quiet) fun _ => .pure' _
  cases call with
  | set req =>
    cases hu : s.update
    · exact .inl (by rw [(TxnCall.exec_readOnly env hu req).1]; exact refl s)
    · simpa only [TxnCall.asks, hu, ↓reduceIte] using hrw .set req s
  | get req =>
    exact Moves.sends_then (.sends_then (request_sends _ _ _) fun _ => getRespFrame_quiet)
      (fun _ => .pure' _) s
  | delete req =>
    cases hu : s.update
    · exact .inl (by rw [(TxnCall.exec_readOnly env hu req).2]; exact refl s)
    · simpa only [TxnCall.asks, hu, ↓reduceIte] using hrw .delete req s
  | scan option =>
    simp only [TxnCall.exec, Txn.Scan, TxnCall.asks]
    split
    · exact .inl (refl s)
    · rw [← scan_capped env option]
      exact Moves.sends_then (request_sends _ _ _) (fun _ => .bind getRespFrame_quiet fun _ => .pure' _) s
  | commit =>
    exact Moves.sends_then (request_sends _ _ _)
      (fun _ => .ite' (.pure' _) (.bind getRespFrame_quiet fun _ => .pure' _)) s
  | discard =>
    refine Moves.sends_then (.sends_then (.attempt' (request_sends _ _ _)) fun r => ?_) (fun _ => .pure' _) s
    split
    · exact .bind (.attempt' getRespFrame_quiet) fun _ => .pure' _
    · exact .pure' _

end Calls

/-! ### Whole sequences -/

/-- The transaction of kind `update` sent frames whose contents are a sublist of `asked`,
each of the shape its place in the stream gives, and `sw` is set iff it sent one. -/
structure SentInv (update : Bool) (asked : List (Cmd × Bytes × Bool)) (s : TxnState) : Prop where
  kind : s.update = update
  sub : (s.sent.map ReqFrame.content).Sublist asked
  sw : s.sw = !s.sent.isEmpty
  shape : ∀ j f, s.sent[j]? = some f → FrameShape update j f

variable {u : Bool} {asked : List (Cmd × Bytes × Bool)} {c : Option (Cmd × Bytes × Bool)}
  {s s' : TxnState}

theorem SentInv.step (hi : SentInv u asked s) (h : SendsAtMost c s s') :
    SentInv u (asked ++ c.toList) s' := by
  rcases h with ⟨hu, hs, hw⟩ | ⟨f, rfl, hu, hs, ho, hb, hw⟩
  · exact ⟨hu.trans hi.kind, hs ▸ hi.sub.trans (List.sublist_append_left _ _),
      hw.trans (hs ▸ hi.sw), hs ▸ hi.shape⟩
  refine ⟨hu.trans hi.kind, ?_, by rw [hw, hs]; simp, ?_⟩
  · rw [hs, List.map_append]
    exact hi.sub.append (List.Sublist.refl _)
  · rw [hs]
    refine frameShape_append hi.shape ⟨?_, ?_⟩
    · rw [ho, hi.sw]
      cases s.sent <;> simp
    · rw [hb, hi.sw, hi.kind]
      cases s.sent <;> simp

variable {P : Type} (env : ClientEnv P)

theorem TxnCall.run_sentInv (calls : List (TxnCall P)) :
    ∀ asked s, SentInv u asked s →
      SentInv u (asked ++ calls.filterMap (TxnCall.asks env u)) (TxnCall.run env calls s).2 := by
  induction calls with
  | nil => exact fun asked s hi => by simpa using hi
  | cons call calls ih =>
    intro asked s hi
    have h1 := hi.step (TxnCall.exec_sends env call s)
    rw [hi.kind] at h1
    have := ih _ _ h1
    rw [List.append_assoc] at this
    simp only [TxnCall.run]
    cases hc : call.asks env u <;> simpa [List.filterMap_cons, hc] using this

/-- **A client transaction sends only what its calls ask for**, whatever its transport
does. On a new transaction of either kind, with any outcomes of the transport's calls,
the frames a sequence of calls sends carry, in order, a sublist of the requests the
calls ask for: no frame is made up, none is sent twice, none is reordered, and a
read-only transaction sends no `Set` or `Delete`. The frame that opens the stream is the
first one sent, with the opaque bit 1 iff the transaction is an update; later frames carry
none. -/
theorem TxnCall.run_sends (update : Bool) (faults : List Bool) (calls : List (TxnCall P)) :
    ((TxnCall.run env calls ⟨update, false, false, none, [], [], faults⟩).2.sent.map
        ReqFrame.content).Sublist (calls.filterMap (TxnCall.asks env update)) ∧
      ∀ j f, (TxnCall.run env calls ⟨update, false, false, none, [], [], faults⟩).2.sent[j]? =
        some f → FrameShape update j f := by
  have hi := TxnCall.run_sentInv env calls [] _
    (⟨rfl, List.Sublist.slnil, rfl, fun _ _ h => nomatch h⟩ :
      SentInv update [] ⟨update, false, false, none, [], [], faults⟩)
  exact ⟨hi.sub, hi.shape⟩

end Kvrpc
