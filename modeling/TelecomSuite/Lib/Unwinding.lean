import TelecomSuite.Lib.Transition

/-!
# Noninterference by unwinding

An observer of a transition system sees some of its steps, each as an event, and of every state a
view (`Observer`). `LTS.Observed` is a run together with what the observer sees of it: the events,
and the view after each of them. `Unwinding` are the two conditions on single steps from which two
runs with the same events have the same views: a step that is not seen leaves the view as it was,
and two steps seen as the same event take equal views to equal views.
-/

namespace Transition

/-- What an observer sees: a step as an event or not at all, and the view of a state. -/
structure Observer (S A E V : Type*) where
  event : S → A → Option E
  view : S → V

namespace LTS

variable {S A E V : Type*} {L : LTS S A} {o : Observer S A E V} {I : S → Prop}

/-- `L.Observed o s as es vs t`: the steps labelled `as` lead from `s` to `t`, the observer sees the
events `es`, and `vs` are the views after them. -/
inductive Observed (L : LTS S A) (o : Observer S A E V) :
    S → List A → List E → List V → S → Prop
  | nil (s : S) : Observed L o s [] [] [] s
  | unseen {s t u : S} {a : A} {as : List A} {es : List E} {vs : List V} : L.step s a t →
      o.event s a = none → Observed L o t as es vs u → Observed L o s (a :: as) es vs u
  | seen {s t u : S} {a : A} {as : List A} {e : E} {es : List E} {vs : List V} : L.step s a t →
      o.event s a = some e → Observed L o t as es vs u →
      Observed L o s (a :: as) (e :: es) (o.view t :: vs) u

/-- The conditions on single steps, in the states that satisfy an invariant. -/
structure Unwinding (L : LTS S A) (o : Observer S A E V) (I : S → Prop) : Prop where
  inv : L.Inductive I
  unseen : ∀ {s t : S} {a : A}, I s → L.step s a t → o.event s a = none → o.view t = o.view s
  seen : ∀ {s₁ s₂ t₁ t₂ : S} {a₁ a₂ : A} {e : E}, I s₁ → I s₂ → o.view s₁ = o.view s₂ →
    L.step s₁ a₁ t₁ → L.step s₂ a₂ t₂ → o.event s₁ a₁ = some e → o.event s₂ a₂ = some e →
    o.view t₁ = o.view t₂

/-- Every run is observed. -/
theorem Run.observed {s t : S} {as : List A} (h : L.Run s as t) :
    ∃ es vs, L.Observed o s as es vs t := by
  induction h with
  | nil s => exact ⟨[], [], .nil s⟩
  | @cons s t u a as hs _ ih =>
    obtain ⟨es, vs, ho⟩ := ih
    cases he : o.event s a with
    | none => exact ⟨es, vs, .unseen hs he ho⟩
    | some e => exact ⟨e :: es, o.view t :: vs, .seen hs he ho⟩

/-- Where the first seen step of a run starts from, the view is still the one at the beginning. -/
theorem Unwinding.first (h : L.Unwinding o I) {s u : S} {as : List A} {e : E} {es : List E}
    {vs : List V} (hr : L.Observed o s as (e :: es) vs u) (hs : I s) :
    ∃ s' t a as' vs', I s' ∧ o.view s' = o.view s ∧ L.step s' a t ∧ o.event s' a = some e ∧
      L.Observed o t as' es vs' u ∧ vs = o.view t :: vs' := by
  generalize hes : e :: es = es' at hr
  induction hr with
  | nil => cases hes
  | unseen hstep hnone _ ih =>
    obtain ⟨s', t, a, as', vs', hs', hv, hrest⟩ := ih (h.inv.step _ _ _ hstep hs) hes
    exact ⟨s', t, a, as', vs', hs', hv.trans (h.unseen hs hstep hnone), hrest⟩
  | seen hstep hsome hr _ =>
    cases hes
    exact ⟨_, _, _, _, _, hs, rfl, hstep, hsome, hr, rfl⟩

/-- Two runs with the same events have the same views. -/
theorem Unwinding.views_eq (h : L.Unwinding o I) {s₁ s₂ t₁ t₂ : S} {as₁ as₂ : List A}
    {es : List E} {vs₁ vs₂ : List V} (h₁ : L.Observed o s₁ as₁ es vs₁ t₁)
    (h₂ : L.Observed o s₂ as₂ es vs₂ t₂) (hs₁ : I s₁) (hs₂ : I s₂)
    (hv : o.view s₁ = o.view s₂) : vs₁ = vs₂ := by
  induction es generalizing s₁ s₂ as₁ as₂ vs₁ vs₂ with
  | nil =>
    have hnil : ∀ {s t : S} {as : List A} {vs : List V}, L.Observed o s as [] vs t → vs = [] := by
      intro s t as vs hr
      generalize hes : ([] : List E) = es at hr
      induction hr with
      | nil => rfl
      | unseen _ _ _ ih => exact ih hes
      | seen => cases hes
    rw [hnil h₁, hnil h₂]
  | cons e es ih =>
    obtain ⟨s₁', u₁, a₁, bs₁, ws₁, hi₁, hv₁, hstep₁, he₁, hr₁, rfl⟩ := h.first h₁ hs₁
    obtain ⟨s₂', u₂, a₂, bs₂, ws₂, hi₂, hv₂, hstep₂, he₂, hr₂, rfl⟩ := h.first h₂ hs₂
    have hu : o.view u₁ = o.view u₂ :=
      h.seen hi₁ hi₂ (hv₁.trans (hv.trans hv₂.symm)) hstep₁ hstep₂ he₁ he₂
    rw [hu, ih hr₁ hr₂ (h.inv.step _ _ _ hstep₁ hi₁) (h.inv.step _ _ _ hstep₂ hi₂) hu]

/-- The view of the state that a run reaches is the last one seen. -/
theorem Unwinding.view_last (h : L.Unwinding o I) {s t : S} {as : List A} {es : List E}
    {vs : List V} (hr : L.Observed o s as es vs t) (hs : I s) :
    o.view t = vs.getLast?.getD (o.view s) := by
  induction hr with
  | nil => rfl
  | unseen hstep hnone _ ih =>
    rw [ih (h.inv.step _ _ _ hstep hs), h.unseen hs hstep hnone]
  | seen hstep _ _ ih =>
    rw [ih (h.inv.step _ _ _ hstep hs), List.getLast?_cons, Option.getD_some]

end LTS

end Transition
