import Kvrpc.Spec.Structure
import Mathlib.Order.Defs.Unbundled

/-!
# Reasoning about Go code

Two judgments on a computation `x : Go σ α`, each with one rule per combinator, so that a
proof about a modelled function follows its `do` block instead of unfolding the monad.

* `Go.Returns P x`: every value `x` returns satisfies `P`.
* `Go.Moves R x`: every state `x` ends in, whatever it returns, is related by `R` to the
  state it began in. With `R` reflexive and transitive, this is a frame: what `R` keeps,
  every step keeps. `OnCtx R` reads a relation of meta transactions on the worker's, so
  that a frame of the meta code carries over to the worker's code through `lift`.
* `bind_eq_ok`, `attempt_eq_ok`: a computation that returns a value ran each step of its
  `do` block to a value; `bind_of_ok`, `attempt_of_ok` run it forward, step by step.
* `Go.Total I Q x`: total correctness with an invariant `I`: `x` returns a value, one that
  satisfies `Q`. `Go.Safe I x`: `x` does not panic, though it may return an error;
  `attempt` makes a safe computation total.
-/

namespace Kvrpc

open Go

/-- Every value `x` returns satisfies `P`. -/
def Go.Returns {σ α : Type} (P : α → Prop) (x : Go σ α) : Prop :=
  ∀ s a s', x s = (.ok a, s') → P a

namespace Go.Returns

variable {σ α β : Type} {P : β → Prop} {Q : α → Prop}

theorem pure' {a : β} (h : P a) : Returns P (pure a : Go σ β) := fun _ _ _ e => by
  cases e; exact h

theorem bind {x : Go σ α} {f : α → Go σ β} (hx : Returns Q x) (hf : ∀ a, Q a → Returns P (f a)) :
    Returns P (x >>= f) := by
  intro s b s' h
  simp only [bind_apply] at h
  rcases hxs : x s with ⟨_ | _ | _, s1⟩ <;> rw [hxs] at h
  · exact hf _ (hx s _ s1 hxs) s1 b s' h
  · cases h
  · cases h

theorem triv {x : Go σ α} : Returns (fun _ => True) x := fun _ _ _ _ => trivial

end Go.Returns

section Inversion

variable {σ α β : Type} {c c' : σ}

theorem Go.bind_eq_ok {x : Go σ α} {f : α → Go σ β} {b : β} (h : (x >>= f) c = (.ok b, c')) :
    ∃ a c₁, x c = (.ok a, c₁) ∧ f a c₁ = (.ok b, c') := by
  simp only [bind_apply] at h
  rcases hx : x c with ⟨_ | _ | _, c₁⟩ <;> rw [hx] at h
  · exact ⟨_, _, rfl, h⟩
  · cases h
  · cases h

theorem Go.attempt_eq_ok {x : Go σ α} {r : Except Err α} (h : attempt x c = (.ok r, c')) :
    (∃ a, r = .ok a ∧ x c = (.ok a, c')) ∨ ∃ e, r = .error e ∧ x c = (.err e, c') := by
  unfold attempt at h
  rcases hx : x c with ⟨_ | _ | _, c₁⟩ <;> rw [hx] at h <;> cases h
  exacts [.inl ⟨_, rfl, rfl⟩, .inr ⟨_, rfl, rfl⟩]

/-- A step that returns passes its value and state on to the rest of the `do` block. -/
theorem Go.bind_of_ok {x : Go σ α} {f : α → Go σ β} {a : α} (h : x c = (.ok a, c')) :
    (x >>= f) c = f a c' := by
  simp only [bind_apply, h]

theorem Go.attempt_of_ok {x : Go σ α} {a : α} (h : x c = (.ok a, c')) :
    attempt x c = (.ok (.ok a), c') := by
  simp only [attempt, h]

end Inversion

/-- Every state `x` ends in is related by `R` to the state it began in. -/
def Go.Moves {σ α : Type} (R : σ → σ → Prop) (x : Go σ α) : Prop := ∀ c, R c (x c).2

namespace Go.Moves

variable {σ α β : Type} {R : σ → σ → Prop}

theorem pure' [IsRefl σ R] (a : α) : Moves R (pure a : Go σ α) := fun c => refl c

theorem throw' [IsRefl σ R] (e : Err) : Moves R (throw e : Go σ α) := fun c => refl c

theorem deref' [IsRefl σ R] (o : Option α) : Moves R (deref o : Go σ α) := by
  cases o <;> exact fun c => refl c

theorem ite' {p : Prop} [Decidable p] {x y : Go σ α} (hx : Moves R x) (hy : Moves R y) :
    Moves R (if p then x else y) := by
  split <;> assumption

theorem attempt' {x : Go σ α} (hx : Moves R x) : Moves R (attempt x) := fun c => by
  have h := hx c
  unfold attempt
  split <;> simp_all

theorem recover' {x : Go σ α} (hx : Moves R x) : Moves R (recover x) := fun c => by
  have h := hx c
  unfold recover
  split <;> simp_all

theorem mono {R' : σ → σ → Prop} {x : Go σ α} (hx : Moves R x) (h : ∀ c c', R c c' → R' c c') :
    Moves R' x := fun c => h _ _ (hx c)

/-- A step that moves by `R`, then steps that move by `S`: the whole moves by `T`, when
`R` alone, and `R` then `S`, move by `T`. -/
theorem bind_comp {S T : σ → σ → Prop} {x : Go σ α} {f : α → Go σ β} (hx : Moves R x)
    (hf : ∀ a, Moves S (f a)) (hR : ∀ c c', R c c' → T c c')
    (hRS : ∀ c c' c'', R c c' → S c' c'' → T c c'') : Moves T (x >>= f) := by
  intro c
  simp only [bind_apply]
  rcases hxc : x c with ⟨_ | _ | _, c1⟩ <;> have h1 := hx c <;> rw [hxc] at h1
  · exact hRS _ _ _ h1 (hf _ c1)
  · exact hR _ _ h1
  · exact hR _ _ h1

theorem bind [IsTrans σ R] {x : Go σ α} {f : α → Go σ β} (hx : Moves R x)
    (hf : ∀ a, Moves R (f a)) : Moves R (x >>= f) :=
  bind_comp hx hf (fun _ _ => id) IsTrans.trans

/-- The frame, read at one run of `x`. -/
theorem of_eq {x : Go σ α} (hx : Moves R x) {c c' : σ} {r : Res α} (h : x c = (r, c')) : R c c' := by
  have := hx c
  rwa [h] at this

end Go.Moves

/-! ### Total correctness -/

/-- From a state where `I` holds, `x` returns a value, one that satisfies `Q`, and `I` holds
in the state it ends in: it neither returns an error nor panics. -/
def Go.Total {σ α : Type} (I : σ → Prop) (Q : α → Prop) (x : Go σ α) : Prop :=
  ∀ c, I c → (∃ a, (x c).1 = .ok a ∧ Q a) ∧ I (x c).2

/-- From a state where `I` holds, `x` does not panic, and `I` holds in the state it ends
in. -/
def Go.Safe {σ α : Type} (I : σ → Prop) (x : Go σ α) : Prop :=
  ∀ c, I c → (x c).1 ≠ .panic ∧ I (x c).2

namespace Go.Total

variable {σ α β : Type} {I : σ → Prop} {P : β → Prop} {Q : α → Prop}

theorem pure' {a : α} (h : Q a) : Total I Q (pure a : Go σ α) := fun _ hc => ⟨⟨a, rfl, h⟩, hc⟩

theorem bind {x : Go σ α} {f : α → Go σ β} (hx : Total I Q x) (hf : ∀ a, Q a → Total I P (f a)) :
    Total I P (x >>= f) := fun c hc => by
  obtain ⟨⟨a, ha, hq⟩, hc1⟩ := hx c hc
  rcases hxc : x c with ⟨r, c1⟩
  rw [hxc] at ha hc1
  subst ha
  simpa only [bind_apply, hxc] using hf a hq c1 hc1

theorem ite' {p : Prop} [Decidable p] {x y : Go σ α} (hx : Total I Q x) (hy : Total I Q y) :
    Total I Q (if p then x else y) := by
  split <;> assumption

/-- A dereference of a pointer that is set. -/
theorem deref_bind {o : Option α} {a : α} {f : α → Go σ β} (ho : o = some a)
    (hf : Total I P (f a)) : Total I P (deref o >>= f) := by
  subst ho
  exact hf

theorem mono {Q' : α → Prop} {x : Go σ α} (hx : Total I Q x) (h : ∀ a, Q a → Q' a) :
    Total I Q' x := fun c hc =>
  let ⟨⟨a, ha, hq⟩, hc'⟩ := hx c hc
  ⟨⟨a, ha, h a hq⟩, hc'⟩

theorem safe {x : Go σ α} (hx : Total I Q x) : Safe I x := fun c hc =>
  let ⟨⟨_, ha, _⟩, hc'⟩ := hx c hc
  ⟨by rw [ha]; exact (fun h => nomatch h), hc'⟩

theorem attempt' {x : Go σ α} (hx : Safe I x) : Total I (fun _ => True) (attempt x) := fun c hc => by
  obtain ⟨hp, hc'⟩ := hx c hc
  unfold attempt
  rcases hxc : x c with ⟨_ | _ | _, c1⟩ <;> rw [hxc] at hp hc'
  · exact ⟨⟨_, rfl, trivial⟩, hc'⟩
  · exact ⟨⟨_, rfl, trivial⟩, hc'⟩
  · exact absurd rfl hp

end Go.Total

namespace Go.Safe

variable {σ α β : Type} {I : σ → Prop}

theorem pure' (a : α) : Safe I (pure a : Go σ α) := fun _ hc => ⟨(fun h => nomatch h), hc⟩

theorem throw' (e : Err) : Safe I (throw e : Go σ α) := fun _ hc => ⟨(fun h => nomatch h), hc⟩

theorem bind {x : Go σ α} {f : α → Go σ β} (hx : Safe I x) (hf : ∀ a, Safe I (f a)) :
    Safe I (x >>= f) := fun c hc => by
  obtain ⟨hp, hc1⟩ := hx c hc
  simp only [bind_apply]
  rcases hxc : x c with ⟨_ | _ | _, c1⟩ <;> rw [hxc] at hp hc1
  · exact hf _ c1 hc1
  · exact ⟨(fun h => nomatch h), hc1⟩
  · exact absurd rfl hp

theorem deref_bind {o : Option α} {a : α} {f : α → Go σ β} (ho : o = some a) (hf : Safe I (f a)) :
    Safe I (deref o >>= f) := by
  subst ho
  exact hf

end Go.Safe

/-! ### Frames of the worker's transaction -/

/-- A relation of meta transactions, read on the worker's: the queue is not looked at. -/
def OnCtx (R : Ctx → Ctx → Prop) (w w' : WCtx) : Prop := R w.ctx w'.ctx

namespace OnCtx

variable {R : Ctx → Ctx → Prop} {α : Type}

instance [IsRefl Ctx R] : IsRefl WCtx (OnCtx R) := ⟨fun w => refl w.ctx⟩

instance [IsTrans Ctx R] : IsTrans WCtx (OnCtx R) := ⟨fun _ _ _ h h' => @IsTrans.trans _ R _ _ _ _ h h'⟩

theorem lift' {x : Tx α} (hx : Moves R x) : Moves (OnCtx R) (WTx.lift x) := fun w => hx w.ctx

theorem getQueue' [IsRefl Ctx R] : Moves (OnCtx R) WTx.getQueue := fun w => refl w

theorem modifyQueue' [IsRefl Ctx R] (f : Queue → Queue) : Moves (OnCtx R) (WTx.modifyQueue f) :=
  fun w => refl w.ctx

end OnCtx

end Kvrpc
