import Mathlib.Order.Defs.Unbundled

/-!
# Computations with variables that survive an exception

`Comp ε σ` is the monad of imperative code with exceptions: a computation reads and writes the
variables `σ` and ends with a value or with an exception `ε`, and in both cases the variables keep
what was written. The `apply` lemmas run a computation step by step. `Keeps R` says that a
computation relates its variables before and after by `R`, however it ends; the rules below compose
it along the structure of the code, for any `R` that is reflexive and transitive. `Erases f` says
that a computation over more variables does the same as one without them; it composes in the same
way, and carries a statement about an instrumented computation back to the plain one.
-/

namespace Fallible

/-- Computations over the variables `σ` that may end in an exception `ε`. -/
abbrev Comp (ε σ : Type) := ExceptT ε (StateM σ)

variable {ε σ τ α β : Type}

namespace Comp

/-- Sequencing: an exception skips the rest, and the variables keep what they hold. -/
@[simp] theorem bind_apply (m : Comp ε σ α) (f : α → Comp ε σ β) (s : σ) :
    (m >>= f) s = match m s with
      | (.ok a, s') => f a s'
      | (.error e, s') => (.error e, s') := by
  change (ExceptT.bind m f : StateM σ (Except ε β)) s = _
  unfold ExceptT.bind ExceptT.mk ExceptT.bindCont
  change (StateT.bind m _ : StateM σ (Except ε β)) s = _
  unfold StateT.bind
  rcases m s with ⟨a | a, s'⟩ <;> rfl

@[simp] theorem pure_apply (a : α) (s : σ) : (pure a : Comp ε σ α) s = (.ok a, s) := rfl

/-- A function is applied to the result, if there is one. -/
@[simp] theorem map_apply (f : α → β) (m : Comp ε σ α) (s : σ) :
    (f <$> m) s = match m s with
      | (.ok a, s') => (.ok (f a), s')
      | (.error e, s') => (.error e, s') := by
  rw [map_eq_pure_bind, bind_apply]
  rcases m s with ⟨e | a, s'⟩ <;> rfl

@[simp] theorem throw_apply (e : ε) (s : σ) : (throw e : Comp ε σ α) s = (.error e, s) := rfl

@[simp] theorem get_apply (s : σ) : (get : Comp ε σ σ) s = (.ok s, s) := rfl

/-- The state is changed, and there is no result. -/
@[simp] theorem modify_apply (f : σ → σ) (s : σ) :
    (modify f : Comp ε σ PUnit) s = (.ok ⟨⟩, f s) := rfl

end Comp

/-- The computation relates the variables before and after by `R`, however it ends. -/
def Keeps (R : σ → σ → Prop) (m : Comp ε σ α) : Prop := ∀ s, R s (m s).2

section
variable {R : σ → σ → Prop} [IsPreorder σ R]

/-- A result keeps the state. -/
theorem Keeps.pure (a : α) : Keeps R (pure a : Comp ε σ α) := fun s => refl s

/-- An error keeps the state. -/
theorem Keeps.throw (e : ε) : Keeps R (throw e : Comp ε σ α) := fun s => refl s

/-- Reading keeps the state. -/
theorem Keeps.get : Keeps R (get : Comp ε σ σ) := fun s => refl s

/-- Two computations, one behind the other, are related as each of them is. -/
theorem Keeps.bind {m : Comp ε σ α} {f : α → Comp ε σ β} (hm : Keeps R m)
    (hf : ∀ a, Keeps R (f a)) : Keeps R (m >>= f) := by
  intro s
  have h := hm s
  rw [Comp.bind_apply]
  rcases hs : m s with ⟨e | a, s'⟩
  · simpa [hs] using h
  · rw [hs] at h
    exact IsTrans.trans _ _ _ h (hf a s')

omit [IsPreorder σ R] in
/-- It does not matter which branch is taken. -/
theorem Keeps.ite {p : Prop} [Decidable p] {m m' : Comp ε σ α} (h : Keeps R m)
    (h' : Keeps R m') : Keeps R (if p then m else m') := by
  split
  · exact h
  · exact h'

end

/-- The computation over the variables `τ` ends as the one over `σ` does and changes the part `f` of
its variables in the same way. -/
def Erases (f : τ → σ) (m' : Comp ε τ α) (m : Comp ε σ α) : Prop :=
  ∀ t, m (f t) = ((m' t).1, f (m' t).2)

section
variable {f : τ → σ}

/-- A result depends on neither state. -/
theorem Erases.pure (a : α) : Erases f (pure a : Comp ε τ α) (pure a) := fun _ => rfl

/-- An error depends on neither state. -/
theorem Erases.throw (e : ε) : Erases f (throw e : Comp ε τ α) (throw e) := fun _ => rfl

/-- Changes of the two states that go together. -/
theorem Erases.modify {g' : τ → τ} {g : σ → σ} (h : ∀ t, g (f t) = f (g' t)) :
    Erases f (modify g' : Comp ε τ PUnit) (modify g) := by
  intro t
  rw [Comp.modify_apply, Comp.modify_apply, h t]

/-- Two computations, one behind the other, do the same on both states if each of them does. -/
theorem Erases.bind {m' : Comp ε τ α} {m : Comp ε σ α} {k' : α → Comp ε τ β}
    {k : α → Comp ε σ β} (hm : Erases f m' m) (hk : ∀ a, Erases f (k' a) (k a)) :
    Erases f (m' >>= k') (m >>= k) := by
  intro t
  rw [Comp.bind_apply, Comp.bind_apply, hm t]
  rcases m' t with ⟨e | a, t'⟩
  · rfl
  · exact hk a t'

/-- Reading the variables gives the two computations different values. -/
theorem Erases.get_bind {k' : τ → Comp ε τ α} {k : σ → Comp ε σ α}
    (hk : ∀ t, Erases f (k' t) (k (f t))) : Erases f (get >>= k') (get >>= k) := by
  intro t
  rw [Comp.bind_apply, Comp.bind_apply, Comp.get_apply, Comp.get_apply]
  exact hk t t

/-- It does not matter which branch is taken. -/
theorem Erases.ite {p : Prop} [Decidable p] {m' n' : Comp ε τ α} {m n : Comp ε σ α}
    (h : Erases f m' m) (h' : Erases f n' n) :
    Erases f (if p then m' else n') (if p then m else n) := by
  split
  · exact h
  · exact h'

end

end Fallible
