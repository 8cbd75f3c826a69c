import Mathlib.Data.String.Basic
import Mathlib.Data.Nat.SuccPred

/-!
# C strings in buffers

Code that builds texts in buffers of a declared size, with the functions of `string.h` and
`snprintf`. A buffer is known by its name and by the string in it; every function gives the string
after it and reports how far it has written and whether it took all of its text. Nothing stops a
write at the declared size, so the strings are right only if no write goes past it (`Yields`). The
code may throw between two writes.
-/

namespace Buffers

/-- A write that ends before the byte `upto` of the buffer; `whole` if no text was left out. -/
structure Write (B : Type) where
  buffer : B
  upto : Nat
  whole : Bool

/-- What a piece of code gives, with the writes it makes. If it throws there is no result. -/
structure Writing (B α : Type) where
  result : Option α
  writes : List (Write B)

variable {B α β : Type}

namespace Writing

/-- The second part writes behind the first one, if the first one ended. -/
def bind (x : Writing B α) (f : α → Writing B β) : Writing B β :=
  match x.result with
  | none => ⟨none, x.writes⟩
  | some a => ⟨(f a).result, x.writes ++ (f a).writes⟩

/-- Writings are put one behind the other. -/
instance : Monad (Writing B) where
  pure a := ⟨some a, []⟩
  bind := bind

/-- A computation without writes. -/
def ofOption (a : Option α) : Writing B α := ⟨a, []⟩

end Writing

/-- At most the first `n` characters of a text. -/
def cut (n : Nat) (text : String) : String := .ofList (text.toList.take n)

/-- `memset(b, 0, n)`. -/
def memset (b : B) (n : Nat) : Writing B String := ⟨some "", [⟨b, n, true⟩]⟩

/-- `strcpy`: the text and its end. -/
def strcpy (b : B) (src : String) : Writing B String := ⟨some src, [⟨b, src.length + 1, true⟩]⟩

/-- `strcat`: the text of the buffer, the new text and its end. -/
def strcat (b : B) (dst src : String) : Writing B String :=
  ⟨some (dst ++ src), [⟨b, (dst ++ src).length + 1, true⟩]⟩

/-- `strncat`: at most `n` characters of the new text. They fit the text only if it is no longer. -/
def strncat (b : B) (dst src : String) (n : Nat) : Writing B String :=
  ⟨some (dst ++ cut n src), [⟨b, (dst ++ cut n src).length + 1, src.length ≤ n⟩]⟩

/-- `snprintf` of this text, for `n` above 0. -/
def snprintf (b : B) (n : Nat) (text : String) : Writing B String :=
  ⟨some (cut (n - 1) text), [⟨b, (cut (n - 1) text).length + 1, text.length < n⟩]⟩

/-- A text that is short enough is not cut. -/
theorem cut_eq {n : Nat} {text : String} (h : text.length ≤ n) : cut n text = text := by
  rw [cut, List.take_of_length_le (h.trans_eq' rfl), String.ofList_toList]

/-- The write stays in its buffer and takes all of its text. -/
def Write.Fits (size : B → Nat) (w : Write B) : Prop := w.upto ≤ size w.buffer ∧ w.whole = true

/-- The code does not throw, it gives `a`, and no write before that went past the end of its buffer
or left text out. -/
def Yields (size : B → Nat) (x : Writing B α) (a : α) : Prop :=
  x.result = some a ∧ ∀ w ∈ x.writes, w.Fits size

variable {size : B → Nat}

/-- The writes decide nothing: the result is that of the parts. -/
theorem result_bind {x : Writing B α} {f : α → Writing B β} :
    (x >>= f).result = x.result.bind fun a => (f a).result := by
  obtain ⟨_ | a, writes⟩ := x <;> rfl

/-- A result without writing. -/
theorem yields_pure {a b : α} : Yields size (pure a : Writing B α) b ↔ a = b := by
  simp [Yields, pure]

/-- Sequencing. -/
theorem yields_bind {x : Writing B α} {f : α → Writing B β} {b : β} :
    Yields size (x >>= f) b ↔ ∃ a, Yields size x a ∧ Yields size (f a) b := by
  obtain ⟨result, writes⟩ := x
  cases result with
  | none => simp [Yields, Bind.bind, Writing.bind]
  | some a =>
    simp only [Yields, Bind.bind, Writing.bind, List.forall_mem_append, Option.some.injEq]
    constructor
    · rintro ⟨hb, hx, hf⟩
      exact ⟨a, ⟨rfl, hx⟩, hb, hf⟩
    · rintro ⟨_, ⟨rfl, hx⟩, hb, hf⟩
      exact ⟨hb, hx, hf⟩

/-- A result that may be missing. -/
theorem yields_ofOption {a : Option α} {b : α} :
    Yields size (Writing.ofOption a : Writing B α) b ↔ a = some b := by
  simp [Yields, Writing.ofOption]

/-- `memset` leaves an empty text if the bytes are in the buffer. -/
theorem yields_memset {b : B} {n : Nat} {out : String} :
    Yields size (memset b n) out ↔ n ≤ size b ∧ "" = out := by
  simp [Yields, Write.Fits, memset, and_comm]

/-- `strcpy` leaves its text if text and end are in the buffer. -/
theorem yields_strcpy {b : B} {src out : String} :
    Yields size (strcpy b src) out ↔ src.length < size b ∧ src = out := by
  simp [Yields, Write.Fits, strcpy, and_comm]

/-- `strcat` leaves both texts if they and the end are in the buffer. -/
theorem yields_strcat {b : B} {dst src out : String} :
    Yields size (strcat b dst src) out ↔ (dst ++ src).length < size b ∧ dst ++ src = out := by
  simp [Yields, Write.Fits, strcat, and_comm]

/-- `strncat` of a text that is not longer than allowed does what `strcat` does. -/
theorem yields_strncat {b : B} {dst src out : String} {n : Nat} (h : src.length ≤ n) :
    Yields size (strncat b dst src n) out ↔
      (dst ++ src).length < size b ∧ dst ++ src = out := by
  simp [Yields, Write.Fits, strncat, cut_eq h, h, and_comm]

/-- `snprintf` leaves its text if neither its bound nor the buffer is too small. -/
theorem yields_snprintf {b : B} {n : Nat} {text out : String} :
    Yields size (snprintf b n text) out ↔
      text.length < n ∧ text.length < size b ∧ text = out := by
  by_cases h : text.length < n
  · simp [Yields, Write.Fits, snprintf, cut_eq (Nat.le_sub_one_of_lt h), h, and_comm]
  · simp [Yields, Write.Fits, snprintf, h]

end Buffers
