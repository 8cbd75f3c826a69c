import Mathlib.Data.List.Nodup
import Mathlib.Logic.Function.Basic
import TelecomSuite.Lib.Transition

/-!
# A queue whose front works for others

Callers stand in a queue, and each waits for a signal of its own. The caller at the front is the
leader; it does the work of as many callers behind it as it likes, takes all of them out of the
queue, tells them the result, and wakes the caller that is at the front then. A caller may also wake
for no reason. `Inv`: the callers leave in the order in which they came and each in one group, all
of a group have the same result, and whoever has something to do has been signaled.
-/

namespace LeaderQueue

open Transition

variable {T R : Type*}

/-- Where a caller is. One that was told its result may still have to wake. -/
inductive Role (R : Type*)
  | outside
  | waiting (signaled : Bool)
  | leading
  | told (signaled : Bool) (result : R)
  | returned (result : R)

namespace Role

/-- A signal reaches those that wait or were told their result. -/
def signal : Role R → Role R
  | .waiting _ => .waiting true
  | .told _ r => .told true r
  | role => role

/-- A result for one that waits. -/
def tell (r : R) : Role R → Role R
  | .waiting _ => .told true r
  | .told _ _ => .told true r
  | role => role

end Role

/-- The queue, with the callers in the order in which they came and the groups that left. -/
structure Queue (T R : Type*) where
  role : T → Role R
  queue : List T
  entered : List T
  groups : List (List T × R)

/-- A party gets into the queue, goes on, or leaves it with its group. -/
inductive Event (T R : Type*)
  | enter (t : T)
  | wake (t : T)
  | leave (t : T) (members : List T) (r : R)

namespace Queue

/-- What holds in every state that is reached. -/
structure Inv (q : Queue T R) : Prop where
  nodup : q.entered.Nodup
  entered : q.entered = q.groups.flatMap (·.1) ++ q.queue
  outside : ∀ t, q.role t = .outside ↔ t ∉ q.entered
  queued : ∀ t ∈ q.queue, (∃ b, q.role t = .waiting b) ∨ q.role t = .leading
  leading : ∀ t, q.role t = .leading → q.queue.head? = some t
  front : ∀ t, q.queue.head? = some t → q.role t = .waiting true ∨ q.role t = .leading
  group : ∀ g ∈ q.groups, ∀ t ∈ g.1, q.role t = .told true g.2 ∨ q.role t = .returned g.2

section
variable {q : Queue T R} {t : T} {r : R}

/-- Nobody is in the queue twice. -/
theorem Inv.queue_nodup (h : q.Inv) : q.queue.Nodup :=
  (h.entered ▸ h.nodup).of_append_right

/-- Who is in the queue has come into it. -/
theorem Inv.mem_entered (h : q.Inv) (ht : t ∈ q.queue) : t ∈ q.entered := by
  rw [h.entered]
  exact List.mem_append_right _ ht

/-- Who left in a group has come into the queue. -/
theorem Inv.mem_entered_of_group (h : q.Inv) {g : List T × R} (hg : g ∈ q.groups) (ht : t ∈ g.1) :
    t ∈ q.entered := by
  rw [h.entered]
  exact List.mem_append_left _ (List.mem_flatMap.2 ⟨g, hg, ht⟩)

/-- Who left in a group is not in the queue any more. -/
theorem Inv.not_mem_queue (h : q.Inv) {g : List T × R} (hg : g ∈ q.groups) (ht : t ∈ g.1) :
    t ∉ q.queue := by
  have hnodup := h.nodup
  rw [h.entered] at hnodup
  exact List.disjoint_of_nodup_append hnodup (List.mem_flatMap.2 ⟨g, hg, ht⟩)

/-- Who is not outside has come into the queue. -/
theorem Inv.mem_of_role (h : q.Inv) (ht : q.role t ≠ .outside) : t ∈ q.entered := by
  by_contra hnot
  exact ht ((h.outside t).2 hnot)

/-- Who returned was in a group with this result. -/
theorem Inv.returned (h : q.Inv) (ht : q.role t = .returned r) :
    ∃ g ∈ q.groups, t ∈ g.1 ∧ g.2 = r := by
  have hmem : t ∈ q.entered := h.mem_of_role fun hrole => by cases ht.symm.trans hrole
  rw [h.entered, List.mem_append, List.mem_flatMap] at hmem
  rcases hmem with ⟨g, hg, hmem⟩ | hmem
  · refine ⟨g, hg, hmem, ?_⟩
    rcases h.group g hg t hmem with hrole | hrole
    · rw [ht] at hrole
      cases hrole
    · rw [ht] at hrole
      cases hrole
      rfl
  · rcases h.queued t hmem with ⟨b, hrole⟩ | hrole
    · rw [ht] at hrole
      cases hrole
    · rw [ht] at hrole
      cases hrole

end

variable [DecidableEq T]

/-- One party gets another role. -/
def set (q : Queue T R) (t : T) (role : Role R) : Queue T R :=
  { q with role := Function.update q.role t role }

omit [DecidableEq T] in
/-- A caller at the end of the queue. -/
def push (q : Queue T R) (t : T) : Queue T R :=
  { q with queue := q.queue ++ [t], entered := q.entered ++ [t] }

/-- A group leaves with its leader, and `rest` stays. -/
def leave (q : Queue T R) (t : T) (members rest : List T) (r : R) : Queue T R :=
  { q with
    role := fun x =>
      if x = t then .returned r
      else if x ∈ members then (q.role x).tell r
      else if rest.head? = some x then (q.role x).signal
      else q.role x
    queue := rest
    groups := q.groups ++ [(members, r)] }

/-- One step. -/
inductive Step : Queue T R → Event T R → Queue T R → Prop
  | enter {q : Queue T R} {t : T} (h : q.role t = .outside) : Step q (.enter t)
      ((q.push t).set t (if q.queue = [] then .leading else .waiting false))
  | told {q : Queue T R} {t : T} {b : Bool} {r : R} (h : q.role t = .told b r) :
      Step q (.wake t) (q.set t (.returned r))
  | front {q : Queue T R} {t : T} {b : Bool} (h : q.role t = .waiting b)
      (hfront : q.queue.head? = some t) : Step q (.wake t) (q.set t .leading)
  | again {q : Queue T R} {t : T} {b : Bool} (h : q.role t = .waiting b)
      (hfront : q.queue.head? ≠ some t) : Step q (.wake t) (q.set t (.waiting false))
  | leave {q : Queue T R} {t : T} {members rest : List T} {r : R} (h : q.role t = .leading)
      (hqueue : q.queue = members ++ rest) (hmembers : members ≠ []) :
      Step q (.leave t members r) (q.leave t members rest r)

/-- Nobody has come yet. -/
def Initial (q : Queue T R) : Prop :=
  (∀ t, q.role t = .outside) ∧ q.queue = [] ∧ q.entered = [] ∧ q.groups = []

/-- The runs of a queue that is empty at first. -/
def system : LTS (Queue T R) (Event T R) := ⟨Initial, Step⟩

section
variable {q : Queue T R} {t : T} {members rest : List T} {r : R}

omit [DecidableEq T] in
/-- The invariant holds at first. -/
theorem Initial.inv (h : q.Initial) : q.Inv where
  nodup := h.2.2.1 ▸ .nil
  entered := by rw [h.2.2.1, h.2.2.2, h.2.1]; rfl
  outside := fun t => iff_of_true (h.1 t) (h.2.2.1 ▸ List.not_mem_nil)
  queued := fun t ht => absurd (h.2.1 ▸ ht) List.not_mem_nil
  leading := fun t ht => by
    rw [h.1 t] at ht
    cases ht
  front := fun t ht => by
    rw [h.2.1] at ht
    cases ht
  group := fun g hg => absurd (h.2.2.2 ▸ hg) List.not_mem_nil

@[simp]
theorem role_set_self (role : Role R) : (q.set t role).role t = role := Function.update_self t _ _

/-- The other parties keep their roles. -/
theorem role_set_of_ne {x : T} (h : x ≠ t) (role : Role R) :
    (q.set t role).role x = q.role x := Function.update_of_ne h _ _

/-- Nothing changes if the party has the role. -/
theorem set_self {role : Role R} (h : q.role t = role) : q.set t role = q := by
  rw [set, ← h, Function.update_eq_self]

/-- A new party comes to the end of the queue, and leads if the queue was empty. -/
theorem Inv.enter (h : q.Inv) (ht : q.role t = .outside) :
    ((q.push t).set t (if q.queue = [] then .leading else .waiting false)).Inv := by
  have hnot : t ∉ q.entered := (h.outside t).1 ht
  have hne {x : T} (hx : x ∈ q.entered) : x ≠ t := fun heq => hnot (heq ▸ hx)
  refine ⟨?nodup, ?entered, fun x => ?outside, fun x hx => ?queued, fun x hx => ?leading,
    fun x hx => ?front, fun g hg x hx => ?group⟩ <;> dsimp only [set, push] at *
  case nodup =>
    exact List.nodup_append.2 ⟨h.nodup, List.nodup_singleton t,
      fun x hx y hy => List.mem_singleton.1 hy ▸ hne hx⟩
  case entered =>
    rw [h.entered, List.append_assoc]
  case outside =>
    rcases eq_or_ne x t with rfl | hx
    · refine iff_of_false ?_ (not_not.2 (List.mem_append_right _ (List.mem_singleton_self x)))
      rw [Function.update_self]
      split_ifs <;> exact fun hrole => by cases hrole
    · rw [Function.update_of_ne hx, h.outside, List.mem_append, List.mem_singleton, or_iff_left hx]
  case queued =>
    rcases List.mem_append.1 hx with hx | hx
    · rw [Function.update_of_ne (hne (h.mem_entered hx))]
      exact h.queued x hx
    · rw [List.mem_singleton.1 hx, Function.update_self]
      split_ifs
      · exact Or.inr rfl
      · exact Or.inl ⟨false, rfl⟩
  case leading =>
    rcases eq_or_ne x t with rfl | hxt
    · rw [Function.update_self] at hx
      split_ifs at hx with hqueue
      rw [hqueue]
      rfl
    · rw [Function.update_of_ne hxt] at hx
      rw [List.head?_append, h.leading x hx]
      rfl
  case front =>
    cases hqueue : q.queue with
    | nil =>
      rw [hqueue] at hx
      cases hx
      rw [Function.update_self, if_pos rfl]
      exact Or.inr rfl
    | cons y ys =>
      rw [hqueue] at hx
      have hhead : q.queue.head? = some x := hqueue ▸ hx
      rw [Function.update_of_ne (hne (h.mem_entered (List.mem_of_mem_head? hhead)))]
      exact h.front x hhead
  case group =>
    rw [Function.update_of_ne (hne (h.mem_entered_of_group hg hx))]
    exact h.group g hg x hx

/-- A caller that has come goes on. -/
theorem Inv.goto (h : q.Inv) {role : Role R} (ht : t ∈ q.entered) (houtside : role ≠ .outside)
    (hqueued : t ∈ q.queue → (∃ b, role = .waiting b) ∨ role = .leading)
    (hleading : role = .leading → q.queue.head? = some t)
    (hfront : q.queue.head? = some t → role = .waiting true ∨ role = .leading)
    (hgroup : ∀ g ∈ q.groups, t ∈ g.1 → role = .told true g.2 ∨ role = .returned g.2) :
    (q.set t role).Inv := by
  refine ⟨h.nodup, h.entered, fun x => ?outside, fun x hx => ?queued, fun x hx => ?leading,
    fun x hx => ?front, fun g hg x hx => ?group⟩ <;> dsimp only [set] at *
  case outside =>
    rcases eq_or_ne x t with rfl | hxt
    · rw [Function.update_self]
      exact iff_of_false houtside (not_not.2 ht)
    · rw [Function.update_of_ne hxt]
      exact h.outside x
  case queued =>
    rcases eq_or_ne x t with rfl | hxt
    · rw [Function.update_self]
      exact hqueued hx
    · rw [Function.update_of_ne hxt]
      exact h.queued x hx
  case leading =>
    rcases eq_or_ne x t with rfl | hxt
    · rw [Function.update_self] at hx
      exact hleading hx
    · rw [Function.update_of_ne hxt] at hx
      exact h.leading x hx
  case front =>
    rcases eq_or_ne x t with rfl | hxt
    · rw [Function.update_self]
      exact hfront hx
    · rw [Function.update_of_ne hxt]
      exact h.front x hx
  case group =>
    rcases eq_or_ne x t with rfl | hxt
    · rw [Function.update_self]
      exact hgroup g hg hx
    · rw [Function.update_of_ne hxt]
      exact h.group g hg x hx

/-- A party that was told its result returns. -/
theorem Inv.told (h : q.Inv) {b : Bool} (ht : q.role t = .told b r) :
    (q.set t (.returned r)).Inv := by
  have hqueue : t ∉ q.queue := by
    intro hmem
    rcases h.queued t hmem with ⟨b', hrole⟩ | hrole <;> rw [ht] at hrole <;> cases hrole
  refine h.goto (h.mem_of_role fun hrole => by cases ht.symm.trans hrole)
    (fun hrole => by cases hrole) (fun hmem => absurd hmem hqueue) (fun hrole => by cases hrole)
    (fun hhead => absurd (List.mem_of_mem_head? hhead) hqueue) fun g hg hmem => ?_
  rcases h.group g hg t hmem with hrole | hrole <;> rw [ht] at hrole <;> cases hrole
  exact Or.inr rfl

/-- The party at the front begins to lead. -/
theorem Inv.front_leads (h : q.Inv) (hfront : q.queue.head? = some t) :
    (q.set t .leading).Inv := by
  have hmem := List.mem_of_mem_head? hfront
  exact h.goto (h.mem_entered hmem) (fun hrole => by cases hrole) (fun _ => Or.inr rfl)
    (fun _ => hfront) (fun _ => Or.inr rfl) fun g hg hg' => absurd hmem (h.not_mem_queue hg hg')

/-- A party that is not at the front waits again. -/
theorem Inv.again (h : q.Inv) {b : Bool} (ht : q.role t = .waiting b)
    (hfront : q.queue.head? ≠ some t) :
    (q.set t (.waiting false)).Inv := by
  refine h.goto (h.mem_of_role fun hrole => by cases ht.symm.trans hrole)
    (fun hrole => by cases hrole) (fun _ => Or.inl ⟨false, rfl⟩)
    (fun hrole => by cases hrole) (fun hhead => absurd hhead hfront)
    fun g hg hmem => ?_
  rcases h.group g hg t hmem with hrole | hrole <;> rw [ht] at hrole <;> cases hrole

/-- A group leaves with the leader at its head. -/
theorem Inv.leave (h : q.Inv) (ht : q.role t = .leading) (hqueue : q.queue = members ++ rest)
    (hmembers : members ≠ []) : (q.leave t members rest r).Inv := by
  have hnodup := h.queue_nodup
  rw [hqueue] at hnodup
  have hapart := List.disjoint_of_nodup_append hnodup
  have hhead : members.head? = some t := by
    have hhead := h.leading t ht
    rwa [hqueue, List.head?_append_of_ne_nil _ hmembers] at hhead
  have hmem : t ∈ members := List.mem_of_mem_head? hhead
  have honly {x : T} (hx : q.role x = .leading) : x = t :=
    Option.some.inj ((h.leading x hx).symm.trans (h.leading t ht))
  have hrest {x : T} (hx : x ∈ rest) :
      x ≠ t ∧ x ∉ members ∧ ∃ b, q.role x = .waiting b := by
    have hnot : x ∉ members := fun hx' => hapart hx' hx
    have hne : x ≠ t := fun heq => hnot (heq ▸ hmem)
    rcases h.queued x (hqueue ▸ List.mem_append_right _ hx) with hwaiting | hleading
    · exact ⟨hne, hnot, hwaiting⟩
    · exact absurd (honly hleading) hne
  refine ⟨h.nodup, ?entered, fun x => ?outside, fun x hx => ?queued, fun x hx => ?leading,
    fun x hx => ?front, fun g hg x hx => ?group⟩ <;> dsimp only [Queue.leave] at *
  case entered =>
    rw [h.entered, hqueue, List.flatMap_append, List.flatMap_singleton, List.append_assoc]
  case outside =>
    rw [← h.outside x]
    rcases eq_or_ne x t with rfl | hne
    · rw [if_pos rfl, ht]
      exact iff_of_false (fun hrole => by cases hrole) fun hrole => by cases hrole
    · rw [if_neg hne]
      split_ifs <;> cases q.role x <;> simp [Role.tell, Role.signal]
  case queued =>
    obtain ⟨hne, hnot, b, hwaiting⟩ := hrest hx
    rw [if_neg hne, if_neg hnot, hwaiting]
    split_ifs
    · exact Or.inl ⟨true, rfl⟩
    · exact Or.inl ⟨b, rfl⟩
  case leading =>
    exfalso
    rcases eq_or_ne x t with rfl | hne
    · rw [if_pos rfl] at hx
      cases hx
    · have hnot : q.role x ≠ .leading := fun hrole => hne (honly hrole)
      rw [if_neg hne] at hx
      split_ifs at hx <;> cases hrole : q.role x <;> rw [hrole] at hx hnot <;>
        first | exact hnot rfl | cases hx
  case front =>
    obtain ⟨hne, hnot, b, hwaiting⟩ := hrest (List.mem_of_mem_head? hx)
    rw [if_neg hne, if_neg hnot, if_pos hx, hwaiting]
    exact Or.inl rfl
  case group =>
    rcases List.mem_append.1 hg with hg | hg
    · have hnot := h.not_mem_queue hg hx
      rw [hqueue, List.mem_append, not_or] at hnot
      have hne : x ≠ t := fun heq => hnot.1 (heq ▸ hmem)
      have hhead : rest.head? ≠ some x := fun hhead => hnot.2 (List.mem_of_mem_head? hhead)
      rw [if_neg hne, if_neg hnot.1, if_neg hhead]
      exact h.group g hg x hx
    · rw [List.mem_singleton.1 hg] at hx ⊢
      rcases eq_or_ne x t with rfl | hne
      · rw [if_pos rfl]
        exact Or.inr rfl
      · rw [if_neg hne, if_pos hx]
        rcases h.queued x (hqueue ▸ List.mem_append_left _ hx) with ⟨b, hwaiting⟩ | hleading
        · rw [hwaiting]
          exact Or.inl rfl
        · exact absurd (honly hleading) hne

/-- The invariant holds in every reachable state. -/
theorem inductive_inv : (system : LTS (Queue T R) (Event T R)).Inductive Inv where
  init := fun _ h => h.inv
  step := by
    intro q e q' hstep h
    cases hstep with
    | enter ht => exact h.enter ht
    | told ht => exact h.told ht
    | front ht hfront => exact h.front_leads hfront
    | again ht hfront => exact h.again ht hfront
    | leave ht hqueue hmembers => exact h.leave ht hqueue hmembers

end

end Queue

end LeaderQueue
