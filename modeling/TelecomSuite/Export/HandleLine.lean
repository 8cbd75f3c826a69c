import TelecomSuite.Lib.LuaPattern
import TelecomSuite.Export.BillProcess

/-!
# The script that reads a bill record

`HandleLine` of `gz-pstn-export.lua` reads the five fields it keeps with one pattern, which is not
anchored and whose gaps may run over any number of fields. `strMatch_recordPattern` says which
fields it takes: the first run of digits of the line, and then each time the first field that begins
with a digit. A record whose fields are padded in front is therefore read from wrong fields, or not
at all; `parsesRecord_iff` says when a line is read right.
-/

namespace TelecomSuite.Export

open LuaPattern

/-! ## The script -/

/-- The account that the script writes into every line. -/
def ACCOUNT_NO : Text := "1002370".toList

/-- The pattern of the call of `string.match`. -/
def recordPattern : Text := "(%d+).-,(%d+).-,(%d+).-,.-,(%d+).-,.-,(.-)%s*,".toList

/-- A text as a C string. -/
def cstr (s : Text) : Text := s.takeWhile (· != '\x00')

/-- `%s` of `string.format`: a text of fewer than 100 characters goes through `sprintf` and ends at
a NUL. -/
def formatS (s : Text) : Text := if s.length < 100 then cstr s else s

/-- A line of the output. -/
def outputLine (values : List Text) : Text := [','].intercalate values ++ ['\n']

/-- `HandleLine`, with the keys of `g_removeCallers`. -/
def HandleLine (g_removeCallers : List Text) (srcline : Text) : Int × Text :=
  match strMatch srcline recordPattern with
  | some [caller, called, starttime, timelen, fee] =>
    if caller ∈ g_removeCallers then (0, [])
    else (0, outputLine ([caller, called, starttime, timelen, ACCOUNT_NO, fee].map formatS))
  | _ => (-1, [])

/-! ## The fields of a line -/

/-- The fields of a record. -/
abbrev fields (line : Text) : List Text := line.splitOn ','

/-- A text without the blanks on either side. -/
def trim (s : Text) : Text := (s.dropWhile isspace).rdropWhile isspace

/-- The digits that a field begins with. -/
def leadingDigits (f : Text) : Text := f.takeWhile isdigit

/-- The first digits in a field. -/
def firstDigits (f : Text) : Text := (f.dropWhile fun c => !isdigit c).takeWhile isdigit

/-- Some character of the field is a digit. -/
def hasDigit (f : Text) : Bool := f.any isdigit

/-- The first character is one. -/
def beginsDigit (f : Text) : Bool := f.head?.any isdigit

/-- The fields that the pattern reads: from the first one with a digit on, each time the first one
that begins with a digit, where one field is left out before the duration, and two and their commas
are there behind it. -/
structure Columns (fs : List Text) (a b c d : ℕ) : Prop where
  caller : firstFrom hasDigit fs 0 = some a
  called : firstFrom beginsDigit fs (a + 1) = some b
  starttime : firstFrom beginsDigit fs (b + 1) = some c
  timelen : firstFrom beginsDigit fs (c + 2) = some d
  fee : d + 3 < fs.length

/-- What the pattern captures in these fields. -/
def captured (fs : List Text) (a b c d : ℕ) : List Text :=
  [firstDigits (fs.getD a []), leadingDigits (fs.getD b []), leadingDigits (fs.getD c []),
    leadingDigits (fs.getD d []), (fs.getD (d + 2) []).rdropWhile isspace]

/-- The items of the pattern, as `lstrlib.c` reads them. -/
theorem parse_recordPattern : parse .none false recordPattern = some
    (captureRun .digit ',' ++ (captureRun .digit ',' ++ (captureRun .digit ',' ++
      (.single .any .minus :: .single (.char ',') .one :: (captureRun .digit ',' ++
        (.single .any .minus :: .single (.char ',') .one :: captureField .space ',')))))) := by
  rfl

/-! ## What the pattern reads -/

/-- A field has no comma in it. -/
theorem mem_fields {line f : Text} (h : f ∈ fields line) : ',' ∉ f := by
  rw [fields, splitOn_eq_map] at h
  obtain ⟨s, -, rfl⟩ := List.mem_map.1 h
  intro hmem
  simpa using List.mem_takeWhile_imp hmem

/-- What the matcher finds, capture by capture. -/
theorem strMatch_recordPattern_eq (line : Text) : strMatch line recordPattern =
    (firstFrom hasDigit (fields line) 0).bind fun a =>
      ((firstFrom beginsDigit (fields line) (a + 1)).bind fun b =>
        ((firstFrom beginsDigit (fields line) (b + 1)).bind fun c =>
          ((firstFrom beginsDigit (fields line) (c + 2)).bind fun d =>
            (if d + 3 < (fields line).length then
              some [((fields line).getD (d + 2) []).rdropWhile isspace] else none).map
            (leadingDigits ((fields line).getD d []) :: ·)).map
          (leadingDigits ((fields line).getD c []) :: ·)).map
        (leadingDigits ((fields line).getD b []) :: ·)).map
      (firstDigits ((fields line).getD a []) :: ·) := by
  have hF : ∀ f ∈ fields line, ',' ∉ f := fun f => mem_fields
  have hpos : 0 < (fields line).length := List.length_pos_iff.2 (List.splitOn_ne_nil _ _)
  have hline := textAt_splitOn ',' line
  rw [strMatch, parse_recordPattern, Option.bind_some]
  nth_rewrite 1 [← hline]
  change _ = (firstFrom (·.any (Class.test .digit)) _ 0).bind _
  rw [captures_firstMatch hF rfl _ hpos]
  refine bind_firstFrom_congr ?_
  intro a ha
  rw [captures_afterGap_run hF rfl _ ha]
  refine congrArg (Option.map _) (bind_firstFrom_congr ?_)
  intro b hb
  rw [captures_afterGap_run hF rfl _ hb]
  refine congrArg (Option.map _) (bind_firstFrom_congr ?_)
  intro c hc
  refine congrArg (Option.map _) ?_
  rw [afterGap_gap hF _ hc]
  split
  · next hc' =>
    rw [captures_afterGap_run hF rfl _ hc']
    refine bind_firstFrom_congr ?_
    intro d hd
    refine congrArg (Option.map _) ?_
    rw [afterGap_gap hF _ hd]
    split
    · next hd' => exact captures_afterGap_field hF rfl hd'
    · next hd' => rw [if_neg (by omega), Option.map_none]
  · next hc' => rw [firstFrom_of_length_le _ (by omega), Option.map_none, Option.bind_none]

/-- **What the pattern reads.** -/
theorem strMatch_recordPattern (line : Text) (v : List Text) :
    strMatch line recordPattern = some v ↔
      ∃ a b c d, Columns (fields line) a b c d ∧ v = captured (fields line) a b c d := by
  rw [strMatch_recordPattern_eq]
  simp only [Option.bind_eq_some_iff, Option.map_eq_some_iff, Option.ite_none_right_eq_some,
    Option.some.injEq]
  constructor
  · rintro ⟨a, ha, _, ⟨b, hb, _, ⟨c, hc, _, ⟨d, hd, _, ⟨hn, rfl⟩, rfl⟩, rfl⟩, rfl⟩, rfl⟩
    exact ⟨a, b, c, d, ⟨ha, hb, hc, hd, hn⟩, rfl⟩
  · rintro ⟨a, b, c, d, ⟨ha, hb, hc, hd, hn⟩, rfl⟩
    exact ⟨a, ha, _, ⟨b, hb, _, ⟨c, hc, _, ⟨d, hd, _, ⟨hn, rfl⟩, rfl⟩, rfl⟩, rfl⟩, rfl⟩

/-! ## When a line is read right -/

/-- A digit string. -/
def IsDigits (s : Text) : Prop := s ≠ [] ∧ ∀ c ∈ s, isdigit c = true

/-- Whether a text is a digit string can be computed. -/
instance (s : Text) : Decidable (IsDigits s) :=
  decidable_of_iff (s ≠ [] ∧ s.all isdigit = true) (by rw [IsDigits, List.all_eq_true])

/-- A field without the blanks on either side. -/
def column (fs : List Text) (i : ℕ) : Text := trim (fs.getD i [])

/-- A bill record: eight fields or more, of which the first, second, third and fifth are padded
digit strings. -/
structure IsRecord (fs : List Text) : Prop where
  length : 8 ≤ fs.length
  digits : ∀ i ∈ [0, 1, 2, 4], IsDigits (column fs i)

/-- The output line of a record. -/
def recordLine (fs : List Text) : Text :=
  outputLine [column fs 0, column fs 1, column fs 2, column fs 4, ACCOUNT_NO, column fs 6]

/-- The line is read exactly: a record is accepted and gives its line, or the empty one if its
caller is removed; and a line that gives an output gives the one of its own fields. -/
structure ParsesRecord (g_removeCallers : List Text) (line : Text) : Prop where
  accepts : IsRecord (fields line) → HandleLine g_removeCallers line =
    (0, if column (fields line) 0 ∈ g_removeCallers then [] else recordLine (fields line))
  reads : ∀ out, out ≠ [] → HandleLine g_removeCallers line = (0, out) →
    7 ≤ (fields line).length ∧ out = recordLine (fields line)

/-- The fields `b`, `c`, `d` and `d + 2` hold what belongs in the second, third, fifth and seventh
one, and the first holds a padded digit string. -/
structure Aligned (fs : List Text) (b c d : ℕ) : Prop where
  caller : IsDigits (column fs 0)
  called : leadingDigits (fs.getD b []) = column fs 1
  starttime : leadingDigits (fs.getD c []) = column fs 2
  timelen : leadingDigits (fs.getD d []) = column fs 4
  fee : formatS ((fs.getD (d + 2) []).rdropWhile isspace) = column fs 6

/-- A blank is not a digit. -/
theorem isdigit_of_isspace {c : Char} (h : isspace c = true) : isdigit c = false := by
  simp only [isspace, Bool.or_eq_true, beq_iff_eq, Bool.and_eq_true, decide_eq_true_eq] at h
  rw [Bool.eq_false_iff, Ne, isdigit, Bool.and_eq_true, decide_eq_true_eq, decide_eq_true_eq]
  rintro ⟨hlo, -⟩
  rcases h with rfl | ⟨-, hhi⟩
  · exact absurd hlo (by decide)
  · omega

/-- A text without NUL is passed as it is. -/
theorem cstr_of_notMem {s : Text} (h : '\x00' ∉ s) : cstr s = s := by
  rw [cstr, List.takeWhile_eq_self_iff]
  intro c hc
  rw [bne_iff_ne]
  rintro rfl
  exact h hc

/-- Digits are written as they are. -/
theorem formatS_of_isdigit {s : Text} (h : ∀ c ∈ s, isdigit c = true) : formatS s = s := by
  unfold formatS
  split
  · exact cstr_of_notMem fun hmem => absurd (h _ hmem) (by decide)
  · rfl

/-- A padded text is its blanks around the trimmed text. -/
theorem exists_trim (f : Text) : ∃ u v, f = u ++ (trim f ++ v) ∧
    (∀ c ∈ u, isspace c = true) ∧ ∀ c ∈ v, isspace c = true := by
  refine ⟨f.takeWhile isspace, (f.dropWhile isspace).rtakeWhile isspace, ?_,
    fun c => List.mem_takeWhile_imp, fun c => List.mem_rtakeWhile_imp⟩
  rw [trim, List.rdropWhile_append_rtakeWhile, List.takeWhile_append_dropWhile]

/-- The first digits of a padded digit string are the string. -/
theorem firstDigits_eq_trim {f : Text} (h : IsDigits (trim f)) : firstDigits f = trim f := by
  obtain ⟨u, v, hf, hu, hv⟩ := exists_trim f
  obtain ⟨hne, hdigits⟩ := h
  generalize trim f = ds at *
  have hblank : (u ++ (ds ++ v)).dropWhile (fun c => !isdigit c) = ds ++ v := by
    rw [List.dropWhile_append_of_pos fun c hc => by simp [isdigit_of_isspace (hu c hc)]]
    cases ds with
    | nil => exact absurd rfl hne
    | cons c ds =>
      exact List.dropWhile_cons_of_neg (by simp [hdigits c List.mem_cons_self])
  have hend : v.takeWhile isdigit = [] := by
    cases v with
    | nil => rfl
    | cons c v =>
      exact List.takeWhile_cons_of_neg (by simp [isdigit_of_isspace (hv c List.mem_cons_self)])
  rw [firstDigits, hf, hblank, List.takeWhile_append_of_pos hdigits, hend, List.append_nil]

/-- A field that is a digit string up to blanks has a digit. -/
theorem hasDigit_of_trim {f : Text} (h : IsDigits (trim f)) : hasDigit f = true := by
  obtain ⟨u, v, hf, -, -⟩ := exists_trim f
  obtain ⟨c, hc⟩ := List.exists_mem_of_ne_nil _ h.1
  refine List.any_eq_true.2 ⟨c, ?_, h.2 c hc⟩
  rw [hf]
  exact List.mem_append_right _ (List.mem_append_left _ hc)

/-- The leading digits of a digit string padded behind are the string. -/
theorem leadingDigits_eq_trim {f : Text} (hbegins : beginsDigit f = true)
    (h : IsDigits (trim f)) : leadingDigits f = trim f := by
  rw [← firstDigits_eq_trim h]
  cases f with
  | nil => cases hbegins
  | cons c f =>
    have hc : isdigit c = true := hbegins
    rw [firstDigits, List.dropWhile_cons_of_neg (by simp [hc]), leadingDigits]

/-- The first digits are a digit string. -/
theorem isDigits_firstDigits {f : Text} (h : hasDigit f = true) : IsDigits (firstDigits f) := by
  obtain ⟨c, s, hd, hc⟩ := dropWhile_eq_cons_of_any h
  refine ⟨?_, fun c => List.mem_takeWhile_imp⟩
  rw [firstDigits, hd, List.takeWhile_cons_of_pos hc]
  exact List.cons_ne_nil _ _

/-- An output line is not empty. -/
theorem outputLine_ne_nil (values : List Text) : outputLine values ≠ [] := by
  simp [outputLine]

/-- The values of an output line can be read off. -/
theorem outputLine_inj {vs ws : List Text} (hv : ∀ v ∈ vs, ',' ∉ v) (hw : ∀ w ∈ ws, ',' ∉ w)
    (hvs : vs ≠ []) (hws : ws ≠ []) (h : outputLine vs = outputLine ws) : vs = ws := by
  have hinter := List.append_cancel_right h
  rw [← List.splitOn_intercalate ',' hv hvs, hinter, List.splitOn_intercalate ',' hw hws]

/-- Writing adds no characters. -/
theorem formatS_subset (s : Text) : formatS s ⊆ s := by
  unfold formatS
  split
  · exact ( List.takeWhile_prefix _).subset
  · exact List.Subset.refl s

/-- Nor does trimming. -/
theorem comma_notMem_trim {s : Text} (h : ',' ∉ s) : ',' ∉ trim s := fun hmem =>
  h ((List.dropWhile_suffix _).subset (( List.rdropWhile_prefix _ _).subset hmem))

/-- Digits have no comma among them. -/
theorem comma_notMem_firstDigits (f : Text) : ',' ∉ firstDigits f := fun hmem =>
  absurd (List.mem_takeWhile_imp hmem) (by decide)

/-- Nor have those at the beginning. -/
theorem comma_notMem_leadingDigits (f : Text) : ',' ∉ leadingDigits f := fun hmem =>
  absurd (List.mem_takeWhile_imp hmem) (by decide)

section
variable {g_removeCallers : List Text} {line : Text} {fs : List Text} {a b c d : ℕ}

/-- The values of the output line, as `string.format` prints them. -/
def printed (fs : List Text) (a b c d : ℕ) : List Text :=
  [firstDigits (fs.getD a []), leadingDigits (fs.getD b []), leadingDigits (fs.getD c []),
    leadingDigits (fs.getD d []), ACCOUNT_NO,
    (fs.getD (d + 2) []).rdropWhile isspace].map formatS

/-- A record that the pattern reads gives a line, or none if its caller is to be left out. -/
theorem handleLine_of_columns (h : Columns (fields line) a b c d) :
    HandleLine g_removeCallers line =
      if firstDigits ((fields line).getD a []) ∈ g_removeCallers then (0, [])
      else (0, outputLine (printed (fields line) a b c d)) := by
  rw [HandleLine, (strMatch_recordPattern line _).2 ⟨a, b, c, d, h, rfl⟩]
  rfl

/-- Any other one gives -1. -/
theorem handleLine_of_not (h : ∀ a b c d, ¬ Columns (fields line) a b c d) :
    HandleLine g_removeCallers line = (-1, []) := by
  have hnone : strMatch line recordPattern = none := by
    rw [Option.eq_none_iff_forall_ne_some]
    intro v hv
    obtain ⟨a, b, c, d, hcol, -⟩ := (strMatch_recordPattern line v).1 hv
    exact h a b c d hcol
  rw [HandleLine, hnone]

/-- A record has a digit string first, so the pattern begins there. -/
theorem Columns.firstDigits_eq (h : Columns fs a b c d) (hdigits : IsDigits (column fs 0)) :
    firstDigits (fs.getD a []) = column fs 0 := by
  have hpos : 0 < fs.length := Nat.lt_of_le_of_lt (Nat.zero_le _) h.fee
  have ha := h.caller
  rw [firstFrom_step _ hpos, if_pos (hasDigit_of_trim hdigits)] at ha
  obtain rfl := Option.some.inj ha
  exact firstDigits_eq_trim hdigits

/-- The first digits are written as they are. -/
theorem formatS_firstDigits (f : Text) : formatS (firstDigits f) = firstDigits f :=
  formatS_of_isdigit fun _ => List.mem_takeWhile_imp

/-- So are those at the beginning. -/
theorem formatS_leadingDigits (f : Text) : formatS (leadingDigits f) = leadingDigits f :=
  formatS_of_isdigit fun _ => List.mem_takeWhile_imp

/-- The output is the line of the record exactly if the fields are aligned. -/
theorem Columns.output_eq_iff (h : Columns fs a b c d) (hfs : ∀ f ∈ fs, ',' ∉ f) :
    outputLine (printed fs a b c d) = recordLine fs ↔ Aligned fs b c d := by
  have hcaller : IsDigits (firstDigits (fs.getD a [])) :=
    isDigits_firstDigits (firstFrom_eq_some_iff.1 h.caller).2.1
  have hno : ',' ∉ ACCOUNT_NO := by decide
  have hlist : outputLine (printed fs a b c d) = recordLine fs ↔ printed fs a b c d =
      [column fs 0, column fs 1, column fs 2, column fs 4, ACCOUNT_NO, column fs 6] := by
    refine ⟨outputLine_inj ?_ ?_ (List.cons_ne_nil _ _) (List.cons_ne_nil _ _), ?_⟩
    · intro v hv
      obtain ⟨w, hw, rfl⟩ := List.mem_map.1 hv
      refine fun hmem => absurd (formatS_subset w hmem) ?_
      simp only [List.mem_cons, List.not_mem_nil, or_false] at hw
      rcases hw with rfl | rfl | rfl | rfl | rfl | rfl
      · exact comma_notMem_firstDigits _
      · exact comma_notMem_leadingDigits _
      · exact comma_notMem_leadingDigits _
      · exact comma_notMem_leadingDigits _
      · exact hno
      · exact fun hmem => sep_notMem hfs (d + 2) (( List.rdropWhile_prefix _ _).subset hmem)
    · have hcolumn : ∀ i, ',' ∉ column fs i := fun i => comma_notMem_trim (sep_notMem hfs i)
      simp only [List.forall_mem_cons]
      exact ⟨hcolumn 0, hcolumn 1, hcolumn 2, hcolumn 4, hno, hcolumn 6, by simp⟩
    · intro heq
      rw [heq, recordLine]
  rw [hlist]
  simp only [printed, List.map_cons, List.map_nil, formatS_firstDigits, formatS_leadingDigits,
    List.cons.injEq, and_true]
  constructor
  · rintro ⟨h₁, h₂, h₃, h₄, -, h₅⟩
    exact ⟨h₁ ▸ hcaller, h₂, h₃, h₄, h₅⟩
  · rintro ⟨h₁, h₂, h₃, h₄, h₅⟩
    exact ⟨h.firstDigits_eq h₁, h₂, h₃, h₄, by decide, h₅⟩

/-- The duration is the fifth field or a later one, so three more fields make eight. -/
theorem Columns.length_ge (h : Columns fs a b c d) : 8 ≤ fs.length := by
  have hb := (firstFrom_eq_some_iff.1 h.called).1.1
  have hc := (firstFrom_eq_some_iff.1 h.starttime).1.1
  have hd := (firstFrom_eq_some_iff.1 h.timelen).1.1
  have hfee := h.fee
  omega

/-- The columns are determined by the line. -/
theorem Columns.unique {a' b' c' d' : ℕ} (h : Columns fs a b c d) (h' : Columns fs a' b' c' d') :
    a = a' ∧ b = b' ∧ c = c' ∧ d = d' := by
  obtain rfl := Option.some.inj (h.caller.symm.trans h'.caller)
  obtain rfl := Option.some.inj (h.called.symm.trans h'.called)
  obtain rfl := Option.some.inj (h.starttime.symm.trans h'.starttime)
  exact ⟨rfl, rfl, rfl, Option.some.inj (h.timelen.symm.trans h'.timelen)⟩

/-- **When a line is read right.** For every line and every removal list: `HandleLine` reads the
line exactly, if and only if the pattern finds its fields in it in case it is a record, and the
fields that it finds are aligned unless the caller that it finds is removed. -/
theorem parsesRecord_iff (g_removeCallers : List Text) (line : Text) :
    ParsesRecord g_removeCallers line ↔
      (IsRecord (fields line) → ∃ a b c d, Columns (fields line) a b c d) ∧
        ∀ a b c d, Columns (fields line) a b c d →
          firstDigits ((fields line).getD a []) ∈ g_removeCallers ∨
            Aligned (fields line) b c d := by
  have hfs : ∀ f ∈ fields line, ',' ∉ f := fun f => mem_fields
  constructor
  · intro hparses
    refine ⟨?_, ?_⟩
    · intro hrecord
      by_contra hnone
      simp only [not_exists] at hnone
      have haccepts := hparses.accepts hrecord
      rw [handleLine_of_not hnone] at haccepts
      cases (Prod.ext_iff.1 haccepts).1
    · intro a b c d hcol
      rw [or_iff_not_imp_left]
      intro hkept
      have hout := @handleLine_of_columns g_removeCallers _ _ _ _ _ hcol
      rw [if_neg hkept] at hout
      exact (hcol.output_eq_iff hfs).1 (hparses.reads _ (outputLine_ne_nil _) hout).2
  · rintro ⟨hfound, haligned⟩
    refine ⟨?_, ?_⟩
    · intro hrecord
      obtain ⟨a, b, c, d, hcol⟩ := hfound hrecord
      have hcaller := hcol.firstDigits_eq (hrecord.digits 0 (by simp))
      rw [handleLine_of_columns hcol, hcaller]
      split
      · rfl
      · next hkept =>
        rcases haligned a b c d hcol with hremoved | haligned
        · exact absurd (hcaller ▸ hremoved) hkept
        · rw [(hcol.output_eq_iff hfs).2 haligned]
    · intro out hne hout
      by_cases hnone : ∀ a b c d, ¬ Columns (fields line) a b c d
      · rw [handleLine_of_not hnone] at hout
        cases (Prod.ext_iff.1 hout).1
      · simp only [not_forall, not_not] at hnone
        obtain ⟨a, b, c, d, hcol⟩ := hnone
        rw [handleLine_of_columns hcol] at hout
        split at hout
        · exact absurd (Prod.ext_iff.1 hout).2.symm hne
        · next hkept =>
          obtain rfl : _ = out := (Prod.ext_iff.1 hout).2
          refine ⟨Nat.le_of_succ_le hcol.length_ge, ?_⟩
          exact (hcol.output_eq_iff hfs).2 ((haligned a b c d hcol).resolve_left hkept)

/-- A record that is not padded in front of its second, third and fifth field is read from these
fields. -/
theorem columns_of_plain (h : IsRecord fs) (h₁ : beginsDigit (fs.getD 1 []) = true)
    (h₂ : beginsDigit (fs.getD 2 []) = true) (h₄ : beginsDigit (fs.getD 4 []) = true) :
    Columns fs 0 1 2 4 where
  caller := by
    rw [firstFrom_step _ (Nat.lt_of_lt_of_le (by omega) h.length),
      if_pos (hasDigit_of_trim (h.digits 0 (by simp)))]
  called := by rw [firstFrom_step _ (Nat.lt_of_lt_of_le (by omega) h.length), if_pos h₁]
  starttime := by rw [firstFrom_step _ (Nat.lt_of_lt_of_le (by omega) h.length), if_pos h₂]
  timelen := by rw [firstFrom_step _ (Nat.lt_of_lt_of_le (by omega) h.length), if_pos h₄]
  fee := h.length

/-- Such a record is read right if its fee is not padded in front, or its caller is removed. -/
theorem parsesRecord_plain_iff (h : IsRecord (fields line))
    (h₁ : beginsDigit ((fields line).getD 1 []) = true)
    (h₂ : beginsDigit ((fields line).getD 2 []) = true)
    (h₄ : beginsDigit ((fields line).getD 4 []) = true) :
    ParsesRecord g_removeCallers line ↔ column (fields line) 0 ∈ g_removeCallers ∨
      formatS (((fields line).getD 6 []).rdropWhile isspace) = column (fields line) 6 := by
  have hcol := columns_of_plain h h₁ h₂ h₄
  have hcaller := hcol.firstDigits_eq (h.digits 0 (by simp))
  rw [parsesRecord_iff]
  constructor
  · rintro ⟨-, haligned⟩
    rcases haligned 0 1 2 4 hcol with hremoved | haligned
    · exact .inl (hcaller ▸ hremoved)
    · exact .inr haligned.fee
  · intro hfee
    refine ⟨fun _ => ⟨0, 1, 2, 4, hcol⟩, ?_⟩
    intro a b c d hcol'
    obtain ⟨rfl, rfl, rfl, rfl⟩ := hcol.unique hcol'
    rcases hfee with hremoved | hfee
    · exact .inl (hcaller.symm ▸ hremoved)
    · exact .inr ⟨h.digits 0 (by simp), leadingDigits_eq_trim h₁ (h.digits 1 (by simp)),
        leadingDigits_eq_trim h₂ (h.digits 2 (by simp)),
        leadingDigits_eq_trim h₄ (h.digits 4 (by simp)), hfee⟩

/-- A line of eight fields is accepted only if its second, third and fifth field begin with a
digit. -/
theorem handleLine_eight (hn : (fields line).length = 8)
    (hpad : ¬ (beginsDigit ((fields line).getD 1 []) = true ∧
      beginsDigit ((fields line).getD 2 []) = true ∧
      beginsDigit ((fields line).getD 4 []) = true)) :
    HandleLine g_removeCallers line = (-1, []) := by
  refine handleLine_of_not ?_
  intro a b c d hcol
  obtain ⟨⟨hab, -⟩, hb, -⟩ := firstFrom_eq_some_iff.1 hcol.called
  obtain ⟨⟨hbc, -⟩, hc, -⟩ := firstFrom_eq_some_iff.1 hcol.starttime
  obtain ⟨⟨hcd, -⟩, hd, -⟩ := firstFrom_eq_some_iff.1 hcol.timelen
  have hfee := hcol.fee
  obtain ⟨rfl, rfl, rfl⟩ : b = 1 ∧ c = 2 ∧ d = 4 := by omega
  exact hpad ⟨hb, hc, hd⟩

end

/-! ## The sample record of the script -/

/-- The record in the comment behind `HandleLine`. -/
def sampleRecord : Text :=
  ("08863286155         , 16895689            ,20151204120504,20151204120601,57      ," ++
    "0.80    ,0.80    ,16895689").toList

/-- Its called number is padded in front, so the record is rejected. -/
theorem sampleRecord_not_parsed : ¬ ParsesRecord [] sampleRecord := by
  have hfields : fields sampleRecord = ["08863286155         ".toList,
      " 16895689            ".toList, "20151204120504".toList, "20151204120601".toList,
      "57      ".toList, "0.80    ".toList, "0.80    ".toList, "16895689".toList] := by
    decide
  have hrecord : IsRecord (fields sampleRecord) := by
    rw [hfields]
    exact ⟨by decide, by decide⟩
  intro hparses
  have haccepts := hparses.accepts hrecord
  rw [handleLine_eight (by rw [hfields]; rfl) (by rw [hfields]; decide)] at haccepts
  cases (Prod.ext_iff.1 haccepts).1

end TelecomSuite.Export
