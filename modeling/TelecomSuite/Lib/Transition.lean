import Mathlib.Data.List.Basic

/-!
# Labelled transition systems

A system is a predicate on initial states and a labelled step relation (`LTS`). A run lists the
labels of its steps, oldest first, and `Reachable` is what some run from an initial state ends in.
`LTS.Inductive` is the usual invariant rule. Two constructions are used throughout the development.
`LTS.restrict` keeps the steps that satisfy a guard on the state before the step and on the step's
label: a statement about "every run whose steps all meet a condition" is a statement about the
reachable states of the restricted system. `LTS.ghost` adds a history variable, which every step
updates and no step reads: a statement about what a whole run has done is a statement about the
history variable in the states it reaches.

An object that answers calls one at a time is a function (`calls`); two of them give the same
answers if a relation between their states is kept by every call (`calls_simulates`).
-/

namespace Transition

/-- A labelled transition system. -/
structure LTS (S A : Type*) where
  init : S → Prop
  step : S → A → S → Prop

namespace LTS

variable {S A : Type*} {L : LTS S A}

/-- `L.Run s as t`: the steps labelled `as`, in this order, lead from `s` to `t`. -/
inductive Run (L : LTS S A) : S → List A → S → Prop
  | nil (s : S) : Run L s [] s
  | cons {s t u : S} {a : A} {as : List A} : L.step s a t → Run L t as u → Run L s (a :: as) u

/-- A state that some run from an initial state ends in. -/
def Reachable (L : LTS S A) (s : S) : Prop :=
  ∃ s₀ as, L.init s₀ ∧ L.Run s₀ as s

/-- The system with the steps that meet the guard `G`. -/
def restrict (L : LTS S A) (G : S → A → Prop) : LTS S A where
  init := L.init
  step s a t := L.step s a t ∧ G s a

/-- The system with a history variable, `g₀` initially, that a step updates by `upd` from the state
before, the label and the state after. -/
def ghost {G : Type*} (L : LTS S A) (g₀ : S → G) (upd : G → S → A → S → G) : LTS (S × G) A where
  init p := L.init p.1 ∧ p.2 = g₀ p.1
  step p a q := L.step p.1 a q.1 ∧ q.2 = upd p.2 p.1 a q.1

/-- An invariant: it holds initially and every step keeps it. -/
structure Inductive (L : LTS S A) (I : S → Prop) : Prop where
  init : ∀ s, L.init s → I s
  step : ∀ s a t, L.step s a t → I s → I t

/-- Where computed steps end, if all of them are there. -/
def replay (step : S → A → Option S) (s : S) (as : List A) : S := (as.foldlM step s).getD s

/-- Runs compose. -/
theorem Run.append {s t u : S} {as bs : List A} (h₁ : L.Run s as t) (h₂ : L.Run t bs u) :
    L.Run s (as ++ bs) u := by
  induction h₁ with
  | nil => exact h₂
  | cons hs _ ih => exact .cons hs (ih h₂)

/-- An initial state is reachable. -/
theorem Reachable.of_init {s : S} (h : L.init s) : L.Reachable s :=
  ⟨s, [], h, .nil s⟩

/-- What a run reaches from a reachable state is reachable. -/
theorem Reachable.run {s t : S} {as : List A} (h : L.Reachable s) (hr : L.Run s as t) :
    L.Reachable t := by
  obtain ⟨s₀, bs, h₀, hb⟩ := h
  exact ⟨s₀, bs ++ as, h₀, hb.append hr⟩

/-- An invariant holds along every run from a state where it holds. -/
theorem Inductive.run {I : S → Prop} (h : L.Inductive I) {s t : S} {as : List A}
    (hr : L.Run s as t) (hs : I s) : I t := by
  induction hr with
  | nil => exact hs
  | cons hstep _ ih => exact ih (h.step _ _ _ hstep hs)

/-- An invariant holds in every reachable state. -/
theorem Inductive.reachable {I : S → Prop} (h : L.Inductive I) {s : S} (hs : L.Reachable s) :
    I s := by
  obtain ⟨s₀, as, h₀, hr⟩ := hs
  exact h.run hr (h.init s₀ h₀)

/-- If every step keeps `I` and no step raises `measure`, then a run has at most `measure s` steps
of those that lower it. -/
theorem Run.countP_le {I : S → Prop} {measure : S → Nat} {own : A → Bool}
    (hI : ∀ s a t, L.step s a t → I s → I t)
    (hmeasure : ∀ s a t, L.step s a t → I s → measure t + (if own a then 1 else 0) ≤ measure s)
    {s t : S} {as : List A} (hr : L.Run s as t) (hs : I s) : as.countP own ≤ measure s := by
  induction hr with
  | nil => exact Nat.zero_le _
  | @cons s t u a as hstep _ ih =>
    have hfirst := hmeasure s a t hstep hs
    have hrest := ih (hI s a t hstep hs)
    rw [List.countP_cons]
    omega

/-- Steps that are computed one after the other are a run. -/
theorem Run.of_foldlM {step : S → A → Option S} {as : List A}
    (hstep : ∀ s, ∀ a ∈ as, ∀ t, step s a = some t → L.step s a t) {s t : S}
    (h : as.foldlM step s = some t) : L.Run s as t := by
  induction as generalizing s with
  | nil =>
    obtain rfl : s = t := Option.some.inj h
    exact .nil s
  | cons a as ih =>
    obtain ⟨u, hu, hrest⟩ := Option.bind_eq_some_iff.1 h
    exact .cons (hstep s a List.mem_cons_self u hu)
      (ih (fun v b hb => hstep v b (List.mem_cons_of_mem a hb)) hrest)

/-- A run to where computed steps end. -/
theorem Run.replay {step : S → A → Option S} {as : List A}
    (hstep : ∀ s, ∀ a ∈ as, ∀ t, step s a = some t → L.step s a t) {s : S}
    (h : (as.foldlM step s).isSome) : L.Run s as (replay step s as) := by
  obtain ⟨t, ht⟩ := Option.isSome_iff_exists.1 h
  rw [LTS.replay, ht]
  exact of_foldlM hstep ht

/-- A run of a restricted system is a run of the system. -/
theorem Run.of_restrict {G : S → A → Prop} {s t : S} {as : List A}
    (h : (L.restrict G).Run s as t) : L.Run s as t := by
  induction h with
  | nil s => exact .nil s
  | cons hs _ ih => exact .cons hs.1 ih

/-- A state reachable in a restricted system is reachable. -/
theorem Reachable.of_restrict {G : S → A → Prop} {s : S} (h : (L.restrict G).Reachable s) :
    L.Reachable s := by
  obtain ⟨s₀, as, h₀, hr⟩ := h
  exact ⟨s₀, as, h₀, hr.of_restrict⟩

/-- A guard that all steps meet takes no state away. -/
theorem Reachable.restrict {G : S → A → Prop} (hG : ∀ s a, G s a) {s : S} (h : L.Reachable s) :
    (L.restrict G).Reachable s := by
  obtain ⟨s₀, as, h₀, hr⟩ := h
  refine ⟨s₀, as, h₀, ?_⟩
  clear h₀
  induction hr with
  | nil s => exact .nil s
  | cons hs _ ih => exact .cons ⟨hs, hG _ _⟩ ih

section
variable {G : Type*} {g₀ : S → G} {upd : G → S → A → S → G}

/-- An invariant of the system is one of the system with a history variable. -/
theorem Inductive.ghost {I : S → Prop} (h : L.Inductive I) :
    (L.ghost g₀ upd).Inductive fun p => I p.1 where
  init p hp := h.init p.1 hp.1
  step p a q hs := h.step p.1 a q.1 hs.1

/-- The history variable keeps no run from happening. -/
theorem Run.ghost {s t : S} {as : List A} (h : L.Run s as t) (g : G) :
    ∃ g', (L.ghost g₀ upd).Run (s, g) as (t, g') := by
  induction h generalizing g with
  | nil s => exact ⟨g, .nil _⟩
  | @cons s t u a as hs _ ih =>
    obtain ⟨g', hr⟩ := ih (upd g s a t)
    exact ⟨g', .cons ⟨hs, rfl⟩ hr⟩

end

end LTS

section
variable {S S' A B : Type*} {f : S → A → B × S} {f' : S' → A → B × S'}

/-- The answers to a sequence of calls and the state after it. -/
def calls (f : S → A → B × S) : S → List A → List B × S
  | s, [] => ([], s)
  | s, a :: as => ((f s a).1 :: (calls f (f s a).2 as).1, (calls f (f s a).2 as).2)

/-- Related states give the same answers to one call and are related after it; then they do so for
every sequence of calls. -/
theorem calls_simulates {R : S → S' → Prop}
    (hcall : ∀ s s' a, R s s' → (f s a).1 = (f' s' a).1 ∧ R (f s a).2 (f' s' a).2) {s : S}
    {s' : S'} (h : R s s') (as : List A) :
    (calls f s as).1 = (calls f' s' as).1 ∧ R (calls f s as).2 (calls f' s' as).2 := by
  induction as generalizing s s' with
  | nil => exact ⟨rfl, h⟩
  | cons a as ih =>
    obtain ⟨heq, hnext⟩ := hcall s s' a h
    obtain ⟨hanswers, hlast⟩ := ih hnext
    exact ⟨by rw [calls, calls, heq, hanswers], hlast⟩

end

end Transition
