import Mathlib.Data.List.DropRight
import TelecomSuite.Lib.Quoted
import TelecomSuite.Convert.SqlText

/-!
# Texts as SQL literals

The value of a CHAR or VARCHAR2 column goes into the INSERT as ` TRIM('value ') `. `stored_iff` says
for which values the database reads the value back and goes on with the rest of the statement: those
without a quote and without a NUL that do not begin with the marker `NULL`, and the marker itself.
-/

namespace TelecomSuite.Convert

/-! ## What the database reads -/

/-- `TRIM`: without the blanks on either side. -/
def trimBlanks (s : List Char) : List Char := (s.rdropWhile (· = ' ')).dropWhile (· = ' ')

/-- The rest of the text behind these characters. -/
def expect (word t : List Char) : Option (List Char) :=
  if word.isPrefixOf t then some (t.drop word.length) else none

/-- The `TRIM` of one literal: its value, and the rest of the statement. -/
def readTrim (t : List Char) : Option (List Char × List Char) := do
  let t ← expect " TRIM('".toList t
  let (s, t) ← Quoted.read '\'' t
  let rest ← expect ") ".toList t
  some (trimBlanks s, rest)

/-- The value goes into any row, for any column of a text type, as one expression with the value
`x`, and does not touch the rest of the statement. -/
def Stores (v : String) (x : List Char) : Prop :=
  ∀ col_type row colindex f, format col_type = .text → row[colindex]? = some f → f.asString = v →
    ∃ text, renderValue col_type row colindex = some (text, colindex + 1) ∧
      ∀ rest, readTrim (text.toList ++ rest) = some (x, rest)

/-- What a value is to be stored as: the marker as empty, any other value trimmed. -/
def intended (v : String) : List Char := if v = "NULL" then [] else trimBlanks v.toList

/-- Values that the text of the statement can carry. -/
structure Plain (v : String) : Prop where
  quote : '\'' ∉ v.toList
  nul : '\x00' ∉ v.toList
  marker : startsWith v "NULL" = true → v = "NULL"

/-! ## Trimming -/

section
variable {c : Char}

/-- Leading blanks are the only characters that are dropped. -/
theorem count_dropWhile (hc : c ≠ ' ') (s : List Char) :
    (s.dropWhile (· = ' ')).count c = s.count c := by
  have htake : (s.takeWhile (· = ' ')).count c = 0 := by
    refine List.count_eq_zero.2 fun hmem => hc ?_
    simpa using List.mem_takeWhile_imp hmem
  conv_rhs => rw [← List.takeWhile_append_dropWhile (p := (· = ' ')) (l := s), List.count_append,
    htake, Nat.zero_add]

/-- Trimming keeps every character that is no blank. -/
theorem count_trimBlanks (hc : c ≠ ' ') (s : List Char) : (trimBlanks s).count c = s.count c := by
  rw [trimBlanks, count_dropWhile hc, List.rdropWhile, List.count_reverse, count_dropWhile hc,
    List.count_reverse]

/-- Trimming keeps all other characters. -/
theorem mem_trimBlanks (hc : c ≠ ' ') {s : List Char} : c ∈ trimBlanks s ↔ c ∈ s := by
  rw [← List.count_pos_iff, count_trimBlanks hc, List.count_pos_iff]

/-- The blank that the format puts behind the value. -/
theorem trimBlanks_append (s : List Char) : trimBlanks (s ++ [' ']) = trimBlanks s := by
  rw [trimBlanks, List.rdropWhile_concat_pos _ _ _ (by decide), trimBlanks]

end

/-! ## Reading a value back -/

section
variable {v : String}

/-- What is written for a character column. -/
theorem renderValue_text {col_type : String} (h : format col_type = .text) {row : List Field}
    {colindex : ℕ} {f : Field} (hf : row[colindex]? = some f) :
    renderValue col_type row colindex =
      some (" TRIM('" ++ clearNull f.asString ++ " ') ", colindex + 1) := by
  unfold format at h
  unfold renderValue
  split_ifs at h ⊢
  rw [hf]
  rfl

/-- The word is there. -/
theorem expect_append (word t : List Char) : expect word (word ++ t) = some t := by
  rw [expect, if_pos (List.isPrefixOf_iff_prefix.2 (List.prefix_append _ _)), List.drop_left]

/-- The text begins with the word. -/
theorem eq_of_expect {word t rest : List Char} (h : expect word t = some rest) :
    t = word ++ rest := by
  rw [expect] at h
  split_ifs at h with hprefix
  obtain ⟨rest', rfl⟩ := List.isPrefixOf_iff_prefix.1 hprefix
  rw [List.drop_left] at h
  rw [Option.some.inj h]

/-- The text of a value is its literal between the two words. -/
theorem toList_text (u : String) (rest : List Char) :
    (" TRIM('" ++ u ++ " ') ").toList ++ rest =
      " TRIM('".toList ++ (u.toList ++ [' '] ++ '\'' :: (") ".toList ++ rest)) := by
  rw [String.toList_append, String.toList_append]
  simp

/-- A content without quotes is read back. -/
theorem readTrim_text {u : String} (h : '\'' ∉ u.toList) (rest : List Char) :
    readTrim ((" TRIM('" ++ u ++ " ') ").toList ++ rest) = some (trimBlanks u.toList, rest) := by
  have hblank : '\'' ∉ u.toList ++ [' '] := by
    rw [List.mem_append, List.mem_singleton]
    rintro (hu | hu)
    · exact h hu
    · exact absurd hu (by decide)
  have hread := Quoted.read_escape '\'' (u.toList ++ [' ']) (") ".toList ++ rest) (by simp)
  rw [Quoted.escape_of_notMem '\'' hblank] at hread
  simp only [toList_text, readTrim, expect_append, Option.bind_eq_bind, Option.bind_some, hread,
    trimBlanks_append]

/-- A content that is read back, with the rest behind it, is the literal of what is read. -/
theorem escape_of_readTrim {u : String} {x rest : List Char}
    (h : readTrim ((" TRIM('" ++ u ++ " ') ").toList ++ rest) = some (x, rest)) :
    ∃ s, u.toList ++ [' '] = Quoted.escape '\'' s ∧ x = trimBlanks s := by
  rw [toList_text, readTrim, expect_append, Option.bind_eq_bind, Option.bind_some] at h
  obtain ⟨⟨s, t⟩, hread, h⟩ := Option.bind_eq_some_iff.1 h
  obtain ⟨rest', hexpect, h⟩ := Option.bind_eq_some_iff.1 h
  cases h
  have ht := eq_of_expect hexpect
  have heq := Quoted.eq_of_read '\'' hread
  rw [ht] at heq
  exact ⟨s, List.append_cancel_right heq, rfl⟩

/-- A text without NUL is a C string. -/
theorem cString_of_notMem (h : '\x00' ∉ v.toList) : cString v = v := by
  rw [cString, List.takeWhile_eq_self_iff.2, String.ofList_toList]
  intro c hc
  exact decide_eq_true fun heq => h (heq ▸ hc)

/-- What goes into the text, if there is no marker. -/
theorem toList_cString : (cString v).toList = v.toList.takeWhile (· ≠ '\x00') :=
  String.toList_ofList

/-- A plain value is stored as intended. -/
theorem stores_of_plain (h : Plain v) : Stores v (intended v) := by
  intro col_type row colindex f hformat hf hv
  refine ⟨_, renderValue_text hformat hf, fun rest => ?_⟩
  rw [hv, clearNull, intended]
  rcases eq_or_ne v "NULL" with rfl | hne
  · rw [if_pos (by decide), if_pos rfl]
    exact readTrim_text (by simp) rest
  · have hmarker : startsWith v "NULL" = false := Bool.eq_false_iff.2 fun hs => hne (h.marker hs)
    rw [hmarker, if_neg Bool.false_ne_true, if_neg hne, cString_of_notMem h.nul]
    exact readTrim_text h.quote rest

/-- What is stored is read from the text of the value in a row of its own. -/
theorem Stores.escape {x : List Char} (h : Stores v x) :
    ∃ s, (clearNull v).toList ++ [' '] = Quoted.escape '\'' s ∧ x = trimBlanks s := by
  obtain ⟨text, hrender, hread⟩ := h "CHAR" [⟨v, ""⟩] 0 ⟨v, ""⟩ rfl rfl rfl
  rw [renderValue_text rfl (rfl : [(⟨v, ""⟩ : Field)][0]? = some ⟨v, ""⟩)] at hrender
  cases hrender
  exact escape_of_readTrim (hread [])

/-- A character that is no blank stands in the value and in what is read for it alike. -/
theorem mem_iff_of_trim_eq {s t : List Char} (h : trimBlanks s = trimBlanks t) {c : Char}
    (hc : c ≠ ' ') : c ∈ s ↔ c ∈ t := by
  rw [← mem_trimBlanks hc, h, mem_trimBlanks hc]

/-- Only a plain one is. -/
theorem plain_of_stores (h : Stores v (intended v)) : Plain v := by
  obtain ⟨s, hescape, htrim⟩ := h.escape
  rcases eq_or_ne v "NULL" with rfl | hne
  · exact ⟨by decide, by decide, fun _ => rfl⟩
  rw [intended, if_neg hne] at htrim
  -- each quote of what is read is doubled in the text
  have hcount := congrArg (List.count '\'') hescape
  rw [Quoted.count_escape, ← count_trimBlanks (by decide) s, ← htrim,
    count_trimBlanks (by decide), List.count_append] at hcount
  have hblank : [' '].count '\'' = 0 := rfl
  by_cases hmarker : startsWith v "NULL"
  · -- the text is emptied, but the value begins with a letter
    rw [clearNull, if_pos hmarker] at hescape hcount
    have hempty : "".toList.count '\'' = 0 := rfl
    have hquote : '\'' ∉ v.toList := List.count_eq_zero.1 (by omega)
    rw [mem_iff_of_trim_eq htrim (by decide)] at hquote
    rw [Quoted.escape_of_notMem _ hquote] at hescape
    have hletter : 'N' ∈ v.toList :=
      (List.isPrefixOf_iff_prefix.1 hmarker).subset (by decide)
    rw [mem_iff_of_trim_eq htrim (by decide), ← hescape] at hletter
    exact absurd hletter (by decide)
  · rw [clearNull, if_neg hmarker, toList_cString] at hescape hcount
    have hle : (v.toList.takeWhile (· ≠ '\x00')).count '\'' ≤ v.toList.count '\'' :=
      (List.takeWhile_sublist _).count_le _
    have hquote : '\'' ∉ v.toList := List.count_eq_zero.1 (by omega)
    refine ⟨hquote, fun hnul => ?_, fun hs => absurd hs hmarker⟩
    -- the text ends at the NUL, which trimming would have kept
    rw [mem_iff_of_trim_eq htrim (by decide)] at hquote hnul
    rw [Quoted.escape_of_notMem _ hquote] at hescape
    rw [← hescape, List.mem_append, List.mem_singleton] at hnul
    rcases hnul with hnul | hnul
    · simpa using List.mem_takeWhile_imp hnul
    · exact absurd hnul (by decide)

/-- A value is stored as one thing only. -/
theorem Stores.unique {x y : List Char} (hx : Stores v x) (hy : Stores v y) : x = y := by
  obtain ⟨text, hrender, hread⟩ := hx "CHAR" [⟨v, ""⟩] 0 ⟨v, ""⟩ rfl rfl rfl
  obtain ⟨text', hrender', hread'⟩ := hy "CHAR" [⟨v, ""⟩] 0 ⟨v, ""⟩ rfl rfl rfl
  rw [hrender] at hrender'
  cases hrender'
  have heq := (hread []).symm.trans (hread' [])
  exact (Prod.mk.inj (Option.some.inj heq)).1

end

/-- **Texts in the INSERT.** Every one of these values is stored as intended, as one expression that
leaves the rest of the statement alone, and values that differ after trimming are stored as
different ones, if and only if the values have no quote and no NUL, and none but the marker itself
begins with `NULL`. -/
theorem stored_iff (S : Set String) :
    ((∀ v ∈ S, Stores v (intended v)) ∧
        ∀ v ∈ S, ∀ w ∈ S, v ≠ "NULL" → w ≠ "NULL" → trimBlanks v.toList ≠ trimBlanks w.toList →
          ∀ x y, Stores v x → Stores w y → x ≠ y) ↔
      ∀ v ∈ S, Plain v := by
  constructor
  · exact fun h v hv => plain_of_stores (h.1 v hv)
  · intro h
    have hstores : ∀ v ∈ S, Stores v (intended v) := fun v hv => stores_of_plain (h v hv)
    refine ⟨hstores, fun v hv w hw hvne hwne hne x y hx hy heq => hne ?_⟩
    calc trimBlanks v.toList = intended v := (if_neg hvne).symm
      _ = x := (hstores v hv).unique hx
      _ = y := heq
      _ = intended w := hy.unique (hstores w hw)
      _ = trimBlanks w.toList := if_neg hwne

/-- A quote ends the literal early, and two values that begin with `NULL` are both emptied. -/
theorem values_lost : ¬Stores "O'Brien" (intended "O'Brien") ∧
    trimBlanks "NULLIFY".toList ≠ trimBlanks "NULLABLE".toList ∧
      Stores "NULLIFY" [] ∧ Stores "NULLABLE" [] := by
  have hempty : ∀ v, startsWith v "NULL" = true → Stores v [] := by
    intro v hv col_type row colindex f hformat hf hfield
    refine ⟨_, renderValue_text hformat hf, fun rest => ?_⟩
    rw [hfield, clearNull, if_pos hv]
    exact readTrim_text (by simp) rest
  refine ⟨fun h => ?_, by decide, hempty _ (by decide), hempty _ (by decide)⟩
  exact absurd (plain_of_stores h).quote (by decide)

end TelecomSuite.Convert
