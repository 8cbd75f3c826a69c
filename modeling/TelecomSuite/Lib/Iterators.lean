import Mathlib.Data.List.Pairwise
import Mathlib.Data.List.Perm.Basic

/-!
# Iterators over sorted entries

An iterator is placed at an entry or at none, and moves (`Move`). It goes over a sorted list
(`Over`) when each move leads where the list says (`Move.place`). In a sorted list the first entry
with a property is the least one (`find?_eq_some_iff_least`), and what an iterator goes to is always
such an entry: the entry behind another one (`find?_after_append`), the one in front of it
(`find?_before_append`), or the first one from a target on.
-/

namespace Iterators

variable {K V σ : Type*}

/-- What an iterator is placed at, and how it moves. -/
structure Iterator (K V σ : Type*) where
  entry : σ → Option (K × V)
  seekToFirst : σ → σ
  seekToLast : σ → σ
  seek : K → σ → σ
  next : σ → σ
  prev : σ → σ

/-- The ways in which an iterator is moved. -/
inductive Move (K : Type*) where
  | seekToFirst
  | seekToLast
  | seek (target : K)
  | next
  | prev

/-- A move as what the iterator does for it. -/
def Iterator.move (it : Iterator K V σ) : Move K → σ → σ
  | .seekToFirst => it.seekToFirst
  | .seekToLast => it.seekToLast
  | .seek target => it.seek target
  | .next => it.next
  | .prev => it.prev

/-- The keys become larger, and none is there twice. -/
def Sorted (cmp : K → K → Ordering) (l : List (K × V)) : Prop :=
  l.Pairwise fun a b => cmp a.1 b.1 = .lt

/-- Where a move leads in a sorted list. -/
def Move.place (cmp : K → K → Ordering) (l : List (K × V)) :
    Move K → Option (K × V) → Option (K × V)
  | .seekToFirst, _ => l.head?
  | .seekToLast, _ => l.getLast?
  | .seek target, _ => l.find? fun b => (cmp target b.1).isLE
  | .next, at_ => at_.bind fun a => l.find? fun b => cmp a.1 b.1 = .lt
  | .prev, at_ => at_.bind fun a => l.reverse.find? fun b => cmp b.1 a.1 = .lt

/-- Some targets may be sought, and a step is made from an entry. -/
def Move.Allowed (target : K → Prop) : Move K → Option (K × V) → Prop
  | .seek k, _ => target k
  | .next, at_ | .prev, at_ => at_.isSome
  | _, _ => True

/-- The iterator goes over the list. `states` are those it may be in. -/
structure Over (cmp : K → K → Ordering) (target : K → Prop) (it : Iterator K V σ)
    (l : List (K × V)) (states : σ → Prop) : Prop where
  sorted : Sorted cmp l
  targets : ∀ a ∈ l, target a.1
  move : ∀ (m : Move K) (s : σ), states s → m.Allowed target (it.entry s) →
    states (it.move m s) ∧ it.entry (it.move m s) = m.place cmp l (it.entry s)

/-- Every move is allowed where the moves before it lead. -/
def AllowedRun (cmp : K → K → Ordering) (target : K → Prop) (l : List (K × V)) :
    List (Move K) → Option (K × V) → Prop
  | [], _ => True
  | m :: ms, at_ => m.Allowed target at_ ∧ AllowedRun cmp target l ms (m.place cmp l at_)

/-- A run of moves leads where the list says. -/
theorem Over.run {cmp : K → K → Ordering} {target : K → Prop} {it : Iterator K V σ}
    {l : List (K × V)} {states : σ → Prop} (h : Over cmp target it l states) {s : σ} (hs : states s)
    {moves : List (Move K)} (hallowed : AllowedRun cmp target l moves (it.entry s)) :
    it.entry (moves.foldl (fun s m => it.move m s) s) =
      moves.foldl (fun at_ m => m.place cmp l at_) (it.entry s) := by
  induction moves generalizing s with
  | nil => rfl
  | cons m moves ih =>
    obtain ⟨hstates, hentry⟩ := h.move m s hs hallowed.1
    rw [List.foldl_cons, List.foldl_cons, ← hentry]
    exact ih hstates (hentry ▸ hallowed.2)

/-! ## Sorted lists -/

section
variable {cmp : K → K → Ordering} {l : List (K × V)} {a : K × V}

/-- Backwards the keys become smaller. -/
theorem Sorted.reverse (h : Sorted cmp l) : Sorted (fun k k' => cmp k' k) l.reverse :=
  List.pairwise_reverse.2 h

/-- Only what the property says of the members of the list counts. -/
theorem find?_congr {α : Type*} {as : List α} {p q : α → Bool} (h : ∀ a ∈ as, p a = q a) :
    as.find? p = as.find? q := by
  induction as with
  | nil => rfl
  | cons a as ih =>
    rw [List.find?_cons, List.find?_cons, h a List.mem_cons_self,
      ih fun b hb => h b (List.mem_cons_of_mem a hb)]

/-- A property that all members have is found at the first one. -/
theorem find?_eq_head? {α : Type*} {as : List α} {p : α → Bool} (h : ∀ a ∈ as, p a) :
    as.find? p = as.head? := by
  cases as with
  | nil => rfl
  | cons a as => exact List.find?_cons_of_pos (h a List.mem_cons_self)

/-- The first entry with a property is the least. -/
theorem find?_eq_some_iff_least [Std.TransCmp cmp] (h : Sorted cmp l) {p : K × V → Bool} :
    l.find? p = some a ↔ a ∈ l ∧ p a ∧ ∀ b ∈ l, p b → b = a ∨ cmp a.1 b.1 = .lt := by
  induction l with
  | nil => simp
  | cons c l ih =>
    obtain ⟨hc, hl⟩ := List.pairwise_cons.1 h
    rw [List.find?_cons]
    cases hp : p c with
    | true =>
      dsimp only
      rw [Option.some_inj]
      constructor
      · rintro rfl
        refine ⟨List.mem_cons_self, hp, fun b hb _ => ?_⟩
        rcases List.mem_cons.1 hb with rfl | hb
        · exact Or.inl rfl
        · exact Or.inr (hc b hb)
      · rintro ⟨ha, -, hleast⟩
        rcases List.mem_cons.1 ha with rfl | ha
        · rfl
        · rcases hleast c List.mem_cons_self hp with heq | hlt
          · exact heq
          · exact absurd (hc a ha) (Std.OrientedCmp.not_lt_of_lt hlt)
    | false =>
      dsimp only
      rw [ih hl]
      have hne : p c ≠ true := Bool.eq_false_iff.1 hp
      constructor
      · rintro ⟨ha, hpa, hleast⟩
        refine ⟨List.mem_cons_of_mem c ha, hpa, fun b hb hpb => ?_⟩
        rcases List.mem_cons.1 hb with rfl | hb
        · exact absurd hpb hne
        · exact hleast b hb hpb
      · rintro ⟨ha, hpa, hleast⟩
        rcases List.mem_cons.1 ha with rfl | ha
        · exact absurd hpa hne
        · exact ⟨ha, hpa, fun b hb => hleast b (List.mem_cons_of_mem c hb)⟩

/-- The first entry that comes after an entry is the one behind it. -/
theorem find?_after [Std.TransCmp cmp] (h : Sorted cmp l) {i : ℕ} (ha : l[i]? = some a) :
    (l.find? fun b => cmp a.1 b.1 = .lt) = l[i + 1]? := by
  induction l generalizing i with
  | nil => cases ha
  | cons c l ih =>
    obtain ⟨hc, hl⟩ := List.pairwise_cons.1 h
    cases i with
    | zero =>
      obtain rfl : c = a := Option.some.inj ha
      rw [List.find?_cons_of_neg (by simp [Std.ReflCmp.compare_self]), List.getElem?_cons_succ]
      cases l with
      | nil => rfl
      | cons b l => exact List.find?_cons_of_pos (decide_eq_true (hc b List.mem_cons_self))
    | succ i =>
      have hlt : cmp c.1 a.1 = .lt := hc a (List.mem_of_getElem? ha)
      rw [List.find?_cons_of_neg (by simpa using Std.OrientedCmp.not_lt_of_lt hlt),
        List.getElem?_cons_succ]
      exact ih hl ha

/-- The last entry that comes before an entry is the one in front of it. -/
theorem find?_before [Std.TransCmp cmp] (h : Sorted cmp l) {i : ℕ} (ha : l[i]? = some a) :
    (l.reverse.find? fun b => cmp b.1 a.1 = .lt) = if i = 0 then none else l[i - 1]? := by
  obtain ⟨hi, -⟩ := List.getElem?_eq_some_iff.1 ha
  have ha' : l.reverse[l.length - 1 - i]? = some a := by
    rwa [List.getElem?_reverse' (j := i) (by omega)]
  have hfind := find?_after h.reverse ha'
  rw [hfind]
  split_ifs with hzero
  · exact List.getElem?_eq_none (by rw [List.length_reverse]; omega)
  · exact List.getElem?_reverse' (by omega)

/-- Behind an entry comes the first one of the rest. -/
theorem find?_after_append [Std.TransCmp cmp] {as bs : List (K × V)}
    (h : Sorted cmp (as ++ a :: bs)) :
    ((as ++ a :: bs).find? fun b => cmp a.1 b.1 = .lt) = bs.head? := by
  have hplace : (as ++ a :: bs)[as.length]? = some a := by
    rw [List.getElem?_append_right (Nat.le_refl _), Nat.sub_self, List.getElem?_cons_zero]
  rw [find?_after h hplace, List.getElem?_append_right (by omega), Nat.add_sub_cancel_left,
    List.getElem?_cons_succ, List.head?_eq_getElem?]

/-- In front of an entry is the last one of those before it. -/
theorem find?_before_append [Std.TransCmp cmp] {as bs : List (K × V)}
    (h : Sorted cmp (as ++ a :: bs)) :
    ((as ++ a :: bs).reverse.find? fun b => cmp b.1 a.1 = .lt) = as.getLast? := by
  have hplace : (as ++ a :: bs)[as.length]? = some a := by
    rw [List.getElem?_append_right (Nat.le_refl _), Nat.sub_self, List.getElem?_cons_zero]
  rw [find?_before h hplace, List.getLast?_eq_getElem?]
  split_ifs with hzero
  · rw [List.length_eq_zero_iff.1 hzero]
    rfl
  · rw [List.getElem?_append_left (by omega)]

end

end Iterators
