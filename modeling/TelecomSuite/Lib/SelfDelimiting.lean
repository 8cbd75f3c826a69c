import Mathlib.Data.List.Basic
import Mathlib.Data.List.Infix

/-!
# Texts that say where they end

A reader takes a value from the beginning of a text and returns what is behind it. `Reads` says that
a text is read as a value whatever follows it, and `Cut` that no proper beginning of the text is
read at all. Both compose along the steps of a reader.
-/

namespace SelfDelimiting

variable {σ α β : Type*}

/-- A reader: the value at the beginning of a text, and what is behind it. -/
abbrev Reader (σ α : Type*) := List σ → Option (α × List σ)

/-- The text is read as `a`, whatever follows it. -/
def Reads (read : Reader σ α) (text : List σ) (a : α) : Prop :=
  ∀ rest, read (text ++ rest) = some (a, rest)

/-- No proper beginning of the text is read. -/
def Cut (read : Reader σ α) (text : List σ) : Prop :=
  ∀ t u, t ++ u = text → u ≠ [] → read t = none

/-- One reader after another. -/
def andThen (read : Reader σ α) (next : α → Reader σ β) : Reader σ β := fun s =>
  (read s).bind fun p => next p.1 p.2

variable {read : Reader σ α} {next : α → Reader σ β} {text text' : List σ} {a b : α}

/-- Nothing is left when nothing follows. -/
theorem Reads.alone (h : Reads read text a) : read text = some (a, []) := by
  have hread := h []
  rwa [List.append_nil] at hread

/-- Two texts that are read and continue to the same whole are the same. -/
theorem Reads.eq (h : Reads read text a) (h' : Reads read text' b) {rest rest' : List σ}
    (heq : text ++ rest = text' ++ rest') : a = b ∧ rest = rest' := by
  have hread := h rest
  rw [heq, h' rest'] at hread
  cases hread
  exact ⟨rfl, rfl⟩

/-- Two texts, one behind the other, are read one after the other. -/
theorem Reads.andThen {b : β} (h : Reads read text a) (h' : Reads (next a) text' b) :
    Reads (andThen read next) (text ++ text') b := by
  intro rest
  rw [SelfDelimiting.andThen, List.append_assoc, h, Option.bind_some, h']

/-- A beginning of two texts is a beginning of the first, or goes on into the second. -/
theorem Cut.andThen (h : Reads read text a) (hcut : Cut read text) (hcut' : Cut (next a) text') :
    Cut (andThen read next) (text ++ text') := by
  intro t u htu hu
  rcases List.append_eq_append_iff.1 htu with ⟨v, htext, hu'⟩ | ⟨v, ht, htext'⟩
  · rcases eq_or_ne v [] with rfl | hv
    · rw [List.append_nil] at htext
      rw [List.nil_append] at hu'
      rw [SelfDelimiting.andThen, ← htext, h.alone, Option.bind_some]
      exact hcut' [] u hu' hu
    · rw [SelfDelimiting.andThen, hcut t v htext.symm hv, Option.bind_none]
  · rw [SelfDelimiting.andThen, ht, h, Option.bind_some]
    exact hcut' v u htext'.symm hu

end SelfDelimiting
