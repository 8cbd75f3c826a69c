import Mathlib.Data.List.Count
import Mathlib.Data.List.Basic

/-!
# Quoted literals

A literal between two delimiters, in which a delimiter stands for itself when it is doubled, as in
the strings of SQL. `read` reads from behind the opening delimiter to the first one that is not
doubled; `read_escape` and `eq_of_read` say that it takes exactly the literals of `escape`.
-/

namespace Quoted

variable {α : Type*} [DecidableEq α] (q : α)

/-- The content of a literal, with each delimiter doubled. -/
def escape : List α → List α
  | [] => []
  | c :: s => if c = q then q :: q :: escape s else c :: escape s

/-- A literal read from behind its opening delimiter: the content and what follows the literal. -/
def read : List α → Option (List α × List α)
  | [] => none
  | [c] => if c = q then some ([], []) else none
  | c :: d :: t =>
    if c = q then
      if d = q then (read t).map fun r => (q :: r.1, r.2) else some ([], d :: t)
    else (read (d :: t)).map fun r => (c :: r.1, r.2)

/-- Text without a quote stays as it is. -/
theorem escape_of_notMem {s : List α} (h : q ∉ s) : escape q s = s := by
  induction s with
  | nil => rfl
  | cons c s ih =>
    obtain ⟨hne, hs⟩ := not_or.1 (List.mem_cons.not.1 h)
    rw [escape, if_neg (Ne.symm hne), ih hs]

/-- Every quote is there twice. -/
theorem count_escape (s : List α) : (escape q s).count q = 2 * s.count q := by
  induction s with
  | nil => rfl
  | cons c s ih =>
    rw [escape]
    split_ifs with hc
    · rw [hc, List.count_cons_self, List.count_cons_self, List.count_cons_self, ih]
      omega
    · rw [List.count_cons_of_ne hc, List.count_cons_of_ne hc, ih]

/-- A character of the content that is no delimiter. -/
theorem read_cons {c : α} (hc : c ≠ q) (t : List α) :
    read q (c :: t) = (read q t).map fun r => (c :: r.1, r.2) := by
  cases t with
  | nil => exact if_neg hc
  | cons d t => exact if_neg hc

/-- What follows a literal must not begin with a delimiter. -/
theorem read_escape (s rest : List α) (h : rest.head? ≠ some q) :
    read q (escape q s ++ q :: rest) = some (s, rest) := by
  induction s with
  | nil =>
    cases rest with
    | nil => rw [escape, List.nil_append, read, if_pos rfl]
    | cons d t =>
      have hd : d ≠ q := fun heq => h (by rw [heq]; rfl)
      rw [escape, List.nil_append, read, if_pos rfl, if_neg hd]
  | cons c s ih =>
    rw [escape]
    split_ifs with hc
    · rw [List.cons_append, List.cons_append, read, if_pos rfl, if_pos rfl, ih, Option.map_some, hc]
    · rw [List.cons_append, read_cons q hc, ih, Option.map_some]

/-- What is read is a literal and what follows it. -/
theorem eq_of_read {t s rest : List α} (h : read q t = some (s, rest)) :
    t = escape q s ++ q :: rest := by
  fun_induction read q t generalizing s with
  | case1 => cases h
  | case2 =>
    cases h
    rfl
  | case3 => cases h
  | case4 t ih =>
    obtain ⟨⟨s', rest'⟩, hread, heq⟩ := Option.map_eq_some_iff.1 h
    cases heq
    rw [ih hread, escape, if_pos rfl]
    rfl
  | case5 =>
    cases h
    rfl
  | case6 c d t hc ih =>
    obtain ⟨⟨s', rest'⟩, hread, heq⟩ := Option.map_eq_some_iff.1 h
    cases heq
    rw [ih hread, escape, if_neg hc]
    rfl

end Quoted
