import Mathlib.Data.String.Basic
import Mathlib.Tactic.Tauto

/-!
# Fixed-width decimal text

`decimal w n` is the text that the C format `%0<w>d` gives for a natural number. Numbers that fit
into the width have texts of one length, and such texts compare, character by character, as the
numbers do (`decimal_lt_iff`). `append_lt_append_iff` carries a comparison through the fields of a
record of fixed-width texts.
-/

namespace FixedWidth

/-- The text of `%0<w>d`: the last `w` digits, and before them whatever is left of the number. -/
def decimal : (w n : Nat) → List Char
  | 0, n => if n = 0 then [] else Nat.toDigits 10 n
  | w + 1, n => decimal w (n / 10) ++ [Nat.digitChar (n % 10)]

/-- A number that fits has a text of exactly the width. -/
theorem length_decimal {w n : Nat} (h : n < 10 ^ w) : (decimal w n).length = w := by
  induction w generalizing n with
  | zero =>
    have hn : n = 0 := by omega
    simp [decimal, hn]
  | succ w ih =>
    have hdiv : n / 10 < 10 ^ w := by
      rw [Nat.pow_succ] at h
      omega
    rw [decimal, List.length_append, ih hdiv, List.length_singleton]

/-- Texts of one length at the front decide a comparison before the rest is looked at. -/
theorem append_lt_append_iff {α : Type*} [LT α] {x x' y y' : List α} (h : x.length = x'.length) :
    x ++ y < x' ++ y' ↔ x < x' ∨ x = x' ∧ y < y' := by
  induction x generalizing x' with
  | nil =>
    have hx' : x' = [] := List.length_eq_zero_iff.1 h.symm
    simp [hx']
  | cons a x ih =>
    cases x' with
    | nil => cases h
    | cons b x' =>
      rw [List.cons_append, List.cons_append, List.cons_lt_cons_iff, List.cons_lt_cons_iff,
        ih (Nat.succ.inj h), List.cons.injEq]
      tauto

/-- A text that keeps the order at two numbers tells them apart. -/
theorem text_inj {f : Nat → List Char} {n m : Nat} (h : f n < f m ↔ n < m)
    (h' : f m < f n ↔ m < n) : f n = f m ↔ n = m := by
  refine ⟨?_, fun he => by rw [he]⟩
  intro he
  rw [he] at h h'
  have h₁ : ¬ n < m := fun hlt => List.lt_irrefl _ (h.2 hlt)
  have h₂ : ¬ m < n := fun hlt => List.lt_irrefl _ (h'.2 hlt)
  omega

/-- Digits are in the order of their values. -/
theorem digitChar_lt_iff {a b : Nat} (ha : a < 10) (hb : b < 10) :
    Nat.digitChar a < Nat.digitChar b ↔ a < b := by
  have h : ∀ a < 10, ∀ b < 10, (Nat.digitChar a < Nat.digitChar b ↔ a < b) := by decide
  exact h a ha b hb

/-- **Fixed-width texts compare as numbers.** -/
theorem decimal_lt_iff {w n m : Nat} (hn : n < 10 ^ w) (hm : m < 10 ^ w) :
    decimal w n < decimal w m ↔ n < m := by
  induction w generalizing n m with
  | zero =>
    have hn0 : n = 0 := by omega
    have hm0 : m = 0 := by omega
    simp [decimal, hn0, hm0]
  | succ w ih =>
    have hn' : n / 10 < 10 ^ w := by rw [Nat.pow_succ] at hn; omega
    have hm' : m / 10 < 10 ^ w := by rw [Nat.pow_succ] at hm; omega
    have heq : decimal w (n / 10) = decimal w (m / 10) ↔ n / 10 = m / 10 :=
      text_inj (ih hn' hm') (ih hm' hn')
    have hlast : [Nat.digitChar (n % 10)] < [Nat.digitChar (m % 10)] ↔ n % 10 < m % 10 := by
      rw [List.cons_lt_cons_iff, digitChar_lt_iff (Nat.mod_lt _ (by decide))
        (Nat.mod_lt _ (by decide))]
      simp
    rw [decimal, decimal, append_lt_append_iff (by rw [length_decimal hn', length_decimal hm']),
      ih hn' hm', heq, hlast]
    omega

/-- A number that fits is determined by its text. -/
theorem decimal_inj {w n m : Nat} (hn : n < 10 ^ w) (hm : m < 10 ^ w) :
    decimal w n = decimal w m ↔ n = m :=
  text_inj (decimal_lt_iff hn hm) (decimal_lt_iff hm hn)

/-- Three numbers in fixed widths, with a separator between them: a date or a time of day. -/
def triple (w₁ w₂ w₃ : Nat) (sep : Char) (a b c : Nat) : List Char :=
  decimal w₁ a ++ sep :: (decimal w₂ b ++ sep :: decimal w₃ c)

/-- Three numbers that fit their widths, and two separators. -/
theorem length_triple {w₁ w₂ w₃ a b c : Nat} (sep : Char) (ha : a < 10 ^ w₁) (hb : b < 10 ^ w₂)
    (hc : c < 10 ^ w₃) : (triple w₁ w₂ w₃ sep a b c).length = w₁ + (w₂ + (w₃ + 1) + 1) := by
  simp only [triple, List.length_append, List.length_cons, length_decimal ha, length_decimal hb,
    length_decimal hc]

/-- The texts of two triples that fit compare as the triples do, the first number first. -/
theorem triple_lt_iff {w₁ w₂ w₃ a b c a' b' c' : Nat} (sep : Char)
    (ha : a < 10 ^ w₁) (hb : b < 10 ^ w₂) (hc : c < 10 ^ w₃)
    (ha' : a' < 10 ^ w₁) (hb' : b' < 10 ^ w₂) (hc' : c' < 10 ^ w₃) :
    triple w₁ w₂ w₃ sep a b c < triple w₁ w₂ w₃ sep a' b' c' ↔
      a < a' ∨ a = a' ∧ (b < b' ∨ b = b' ∧ c < c') := by
  have hsep : ¬ sep < sep := Nat.lt_irrefl _
  simp only [triple]
  rw [append_lt_append_iff (by rw [length_decimal ha, length_decimal ha']), List.cons_lt_cons_iff,
    append_lt_append_iff (by rw [length_decimal hb, length_decimal hb']), List.cons_lt_cons_iff,
    decimal_lt_iff ha ha', decimal_lt_iff hb hb', decimal_lt_iff hc hc', decimal_inj ha ha',
    decimal_inj hb hb']
  simp only [hsep, false_or, true_and]

/-- A triple that fits is determined by its text. -/
theorem triple_inj {w₁ w₂ w₃ a b c a' b' c' : Nat} (sep : Char)
    (ha : a < 10 ^ w₁) (hb : b < 10 ^ w₂) (hc : c < 10 ^ w₃)
    (ha' : a' < 10 ^ w₁) (hb' : b' < 10 ^ w₂) (hc' : c' < 10 ^ w₃) :
    triple w₁ w₂ w₃ sep a b c = triple w₁ w₂ w₃ sep a' b' c' ↔ a = a' ∧ b = b' ∧ c = c' := by
  refine ⟨?_, fun ⟨h₁, h₂, h₃⟩ => by rw [h₁, h₂, h₃]⟩
  intro h
  have hlt := triple_lt_iff sep ha hb hc ha' hb' hc'
  have hgt := triple_lt_iff sep ha' hb' hc' ha hb hc
  rw [h] at hlt hgt
  have h₁ : ¬ (a < a' ∨ a = a' ∧ (b < b' ∨ b = b' ∧ c < c')) :=
    fun hl => List.lt_irrefl _ (hlt.2 hl)
  have h₂ : ¬ (a' < a ∨ a' = a ∧ (b' < b ∨ b' = b ∧ c' < c)) :=
    fun hl => List.lt_irrefl _ (hgt.2 hl)
  omega

end FixedWidth
