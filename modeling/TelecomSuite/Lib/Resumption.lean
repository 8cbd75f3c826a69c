import TelecomSuite.Lib.Transition

/-!
# Programs that call

A sequential program in resumption form (`Prog`) returns, or makes a call and goes on with the
response. What a call may do is a relation on a state, so a program alone has a weakest precondition
(`wp`), with one rule for each way of building programs. `wp` also asks for a condition at every
call, so it can state what holds at every moment of a run: with its state a program is a transition
system (`runs`), and `wp` is an invariant of it (`wp_inductive`).
-/

namespace Resumption

open Transition

/-- A program with calls `c : C` that are answered in `R c`. -/
inductive Prog (C : Type) (R : C → Type) (α : Type)
  | ret (a : α)
  | call (c : C) (k : R c → Prog C R α)

namespace Prog

variable {C : Type} {R : C → Type} {α β : Type}

/-- The second program goes on with the result of the first. -/
def bind : Prog C R α → (α → Prog C R β) → Prog C R β
  | .ret a, f => f a
  | .call c k, f => .call c fun r => (k r).bind f

/-- Programs are put one behind the other. -/
instance : Monad (Prog C R) where
  pure := .ret
  bind := bind

variable {S : Type} {step : S → (c : C) → R c → S → Prop} {ok : S → C → Prop}
  {Post Post' : S → α → Prop}

/-- From the state `s` the program's calls all find a state that is `ok` for them, and it returns
only in states that satisfy `Post`. -/
def wp (step : S → (c : C) → R c → S → Prop) (ok : S → C → Prop) (Post : S → α → Prop) :
    S → Prog C R α → Prop
  | s, .ret a => Post s a
  | s, .call c k => ok s c ∧ ∀ r s', step s c r s' → wp step ok Post s' (k r)

/-- Sequencing. -/
theorem wp_bind {Q : S → β → Prop} {p : Prog C R β} {f : β → Prog C R α} {s : S}
    (h : wp step ok Q s p) (hf : ∀ s' b, Q s' b → wp step ok Post s' (f b)) :
    wp step ok Post s (p >>= f) := by
  change wp step ok Post s (p.bind f)
  induction p generalizing s with
  | ret b => exact hf s b h
  | call c k ih => exact ⟨h.1, fun r s' hs => ih r (h.2 r s' hs)⟩

/-- A weaker postcondition. -/
theorem wp_mono {p : Prog C R α} {s : S} (h : wp step ok Post s p)
    (hp : ∀ s a, Post s a → Post' s a) : wp step ok Post' s p := by
  induction p generalizing s with
  | ret a => exact hp s a h
  | call c k ih => exact ⟨h.1, fun r s' hs => ih r (h.2 r s' hs)⟩

/-- What holds at every call and at the end holds now. -/
theorem wp_now {J : S → Prop} {p : Prog C R α} {s : S} (h : wp step ok Post s p)
    (hok : ∀ s c, ok s c → J s) (hpost : ∀ s a, Post s a → J s) : J s := by
  cases p with
  | ret a => exact hpost s a h
  | call c k => exact hok s c h.1

/-- The program as a system: a state with what is still to do, and a step for each call. -/
def runs (step : S → (c : C) → R c → S → Prop) (s₀ : S) (p₀ : Prog C R α) :
    LTS (S × Prog C R α) (Sigma R) where
  init x := x = (s₀, p₀)
  step x a y := ∃ k, x.2 = .call a.1 k ∧ step x.1 a.1 a.2 y.1 ∧ y.2 = k a.2

/-- A weakest precondition is kept by every step. -/
theorem wp_inductive {s₀ : S} {p₀ : Prog C R α} (h : wp step ok Post s₀ p₀) :
    (runs step s₀ p₀).Inductive fun x => wp step ok Post x.1 x.2 where
  init := by
    rintro _ rfl
    exact h
  step := by
    rintro ⟨s, p⟩ ⟨c, r⟩ ⟨s', p'⟩ ⟨k, hp, hs, hp'⟩ hwp
    dsimp only at hp hs hp' hwp ⊢
    rw [hp] at hwp
    rw [hp']
    exact hwp.2 r s' hs

end Prog

end Resumption
