import Mathlib.Data.List.Infix

/-!
# Searching in a text

`find` is `std::string::find`. A place in a text is given by what is left of the text from there on.
A text that is read line by line can be searched line by line (`find_append_cons`), as long as the
line end is not part of what is searched.
-/

namespace TextSearch

variable {α : Type*} [DecidableEq α] {pat s t : List α} {x : α}

/-- The text from the first place on where `pat` stands. -/
def find (pat : List α) : List α → Option (List α)
  | [] => if pat = [] then some [] else none
  | x :: s => if pat <+: x :: s then some (x :: s) else find pat s

/-- A pattern at the beginning is found there. -/
theorem find_eq_self (h : pat <+: s) : find pat s = some s := by
  cases s with
  | nil => rw [find, if_pos (List.prefix_nil.1 h)]
  | cons x s => rw [find, if_pos h]

/-- The pattern begins where it is found. -/
theorem find_some (h : find pat s = some t) : t <:+ s ∧ pat <+: t := by
  induction s with
  | nil =>
    rw [find] at h
    split at h
    · next hnil =>
      cases h
      exact ⟨List.suffix_rfl, hnil ▸ List.prefix_rfl⟩
    · cases h
  | cons x s ih =>
    rw [find] at h
    split at h
    · next hpat =>
      cases h
      exact ⟨List.suffix_rfl, hpat⟩
    · obtain ⟨hsuf, hpat⟩ := ih h
      exact ⟨hsuf.trans (List.suffix_cons _ _), hpat⟩

/-- What stands somewhere in the text is found. -/
theorem find_isSome (hsuf : t <:+ s) (h : pat <+: t) : (find pat s).isSome = true := by
  induction s with
  | nil =>
    rw [List.suffix_nil.1 hsuf, List.prefix_nil] at h
    rw [find, if_pos h]
    rfl
  | cons x s ih =>
    rw [find]
    split
    · rfl
    · next hnot =>
      rcases List.suffix_cons_iff.1 hsuf with rfl | hsuf
      · exact absurd h hnot
      · exact ih hsuf

omit [DecidableEq α] in
/-- A pattern without `x` does not reach beyond `x`. -/
theorem prefix_append_cons (hx : x ∉ pat) (u s : List α) :
    pat <+: u ++ x :: s ↔ pat <+: u := by
  constructor
  · intro h
    rcases List.prefix_or_prefix_of_prefix h (List.prefix_append u (x :: s)) with h' | ⟨r, rfl⟩
    · exact h'
    · rw [List.prefix_append_right_inj] at h
      cases r with
      | nil => rw [List.append_nil]
      | cons y r =>
        obtain ⟨rfl, -⟩ := List.cons_prefix_cons.1 h
        exact absurd (List.mem_append_right u List.mem_cons_self) hx
  · intro h
    exact h.trans (List.prefix_append _ _)

/-- The search goes through the text up to `x` and then through what is behind it. -/
theorem find_append_cons (hx : x ∉ pat) (hpat : pat ≠ []) (u s : List α) :
    find pat (u ++ x :: s) = ((find pat u).map (· ++ x :: s)).or (find pat s) := by
  induction u with
  | nil =>
    have hnot : ¬ pat <+: x :: s := by
      intro h
      exact hpat (List.prefix_nil.1 ((prefix_append_cons hx [] s).1 h))
    rw [List.nil_append, find.eq_2, if_neg hnot, find.eq_1, if_neg hpat]
    rfl
  | cons y u ih =>
    rw [List.cons_append, find, find, ih]
    have hiff : pat <+: y :: (u ++ x :: s) ↔ pat <+: y :: u :=
      prefix_append_cons hx (y :: u) s
    by_cases h : pat <+: y :: u
    · rw [if_pos h, if_pos (hiff.2 h)]
      rfl
    · rw [if_neg h, if_neg fun h' => h (hiff.1 h')]

/-- The first line end of a text is the one behind its first line. -/
theorem find_pair {x y : α} (hxy : x ≠ y) {u : List α} (hy : y ∉ u) (s : List α) :
    find [x, y] (u ++ x :: y :: s) = some (x :: y :: s) := by
  induction u with
  | nil => exact find_eq_self ⟨s, rfl⟩
  | cons z u ih =>
    rw [List.mem_cons, not_or] at hy
    rw [List.cons_append, find, if_neg, ih hy.2]
    intro h
    have hsnd := (List.cons_prefix_cons.1 h).2
    cases u with
    | nil => exact hxy (List.cons_prefix_cons.1 hsnd).1.symm
    | cons z' u => exact hy.2 (by rw [(List.cons_prefix_cons.1 hsnd).1]; exact List.mem_cons_self)

end TextSearch
