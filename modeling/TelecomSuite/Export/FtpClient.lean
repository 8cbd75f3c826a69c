import TelecomSuite.Lib.TextSearch
import TelecomSuite.Export.HandleLine

/-!
# The directory listing of the FTP server

`FtpClient::getDirectoryFile` does not split the listing into lines. It searches for the beginning
of the wanted names, `<area code>_<net type>_`, takes the text from there to the end of the line as
a file name, and goes on from the end of the line. So it finds at most one name in a line, and what
it takes is a file name only if the beginning does not stand earlier in the line
(`getDirectoryFile_exact_iff`).
-/

namespace TelecomSuite.Export

open TextSearch

/-- The net types that the workers are made for. -/
inductive NetType
  | CDMA
  | PSTN
  deriving DecidableEq

/-- The name of a net, as file names have it. -/
def NetType.text : NetType → Text
  | .CDMA => "CDMA".toList
  | .PSTN => "PSTN".toList

/-- The argument `fileprefix`: a C string on one line, as the area code is. -/
structure Area where
  text : Text
  plain : ∀ c ∈ text, c ≠ '\r' ∧ c ≠ '\n' ∧ c ≠ '\x00'

/-- What the caller of a transfer gets: a code other than 0 if the configuration or the transfer
fails, or the bytes of the listing. -/
inductive Listing
  | fails (code : { c : Int // c ≠ 0 })
  | gives (bytes : Text)

/-- `"%s_%s_"`, the beginning of the names that are wanted. -/
def nameStart (nettype : NetType) (area : Area) : Text :=
  area.text ++ '_' :: (nettype.text ++ ['_'])

/-- The end of a line in a listing. -/
def crlf : Text := ['\r', '\n']

/-- The ending of a temporary file. -/
def tmpExt : Text := ".tmp".toList

/-- `getInMemory`: the text up to a NUL. Without any byte the block of `malloc(1)` was never
written, and the text is what happens to be there. -/
def getInMemory (garbage bytes : Text) : Text := if bytes = [] then cstr garbage else cstr bytes

/-- The loop, from a place `found` on. `none` is a loop that does not end in so many rounds. -/
def readNames (buffer : Text) : ℕ → Text → Option (List Text)
  | 0, _ => none
  | rounds + 1, found =>
    match find crlf found with
    | none => some []
    | some lineEnd =>
      let temp := found.take (found.length - lineEnd.length)
      let pushed := if 4 < temp.length ∧ temp.drop (temp.length - 4) ≠ tmpExt then [temp] else []
      match find buffer lineEnd with
      | none => some pushed
      | some found => (readNames buffer rounds found).map (pushed ++ ·)

/-- `getDirectoryFile`: the code and the names. There is no result if the buffer is too small, where
`sprintf_s` ends the program, or if the loop does not end; it moves on in every round or never. -/
def getDirectoryFile (nettype : NetType) (area : Area) (garbage : Text) :
    Listing → Option (Int × List Text)
  | .fails code => some (code, [])
  | .gives bytes =>
    let str := getInMemory garbage bytes
    if 256 ≤ (nameStart nettype area).length then none
    else match find (nameStart nettype area) str with
      | none => some (0, [])
      | some found => (readNames (nameStart nettype area) (str.length + 1) found).map (0, ·)

/-! ## Listings made of lines -/

/-- A line of a listing: the file name, behind other columns and a blank or alone. -/
structure Line where
  columns : Option Text
  name : Text
  blank_free : ' ' ∉ name
  plain : ∀ c ∈ columns.getD [] ++ name, c ≠ '\n' ∧ c ≠ '\x00'

/-- A line of a listing. -/
def Line.text (l : Line) : Text :=
  match l.columns with
  | none => l.name
  | some columns => columns ++ ' ' :: l.name

/-- The whole listing. -/
def listingText (lines : List Line) : Text := lines.flatMap fun l => l.text ++ crlf

/-- The file names that are wanted, in the order of the listing. -/
def expectedNames (nettype : NetType) (area : Area) (lines : List Line) : List Text :=
  (lines.map Line.name).filter fun name => nameStart nettype area <+: name ∧ ¬ tmpExt <:+ name

section
variable {nettype : NetType} {area : Area}

/-- A line has no newline and no NUL in it. -/
theorem Line.text_plain (l : Line) : ∀ c ∈ l.text, c ≠ '\n' ∧ c ≠ '\x00' := by
  intro c hc
  have hplain := l.plain c
  unfold Line.text at hc
  cases hcol : l.columns with
  | none =>
    rw [hcol] at hc
    exact hplain (List.mem_append_right _ hc)
  | some columns =>
    rw [hcol] at hc hplain
    rcases List.mem_append.1 hc with hc | hc
    · exact hplain (List.mem_append_left _ hc)
    rcases List.mem_cons.1 hc with rfl | hc
    · decide
    · exact hplain (List.mem_append_right _ hc)

/-- Nor has the wanted beginning. -/
theorem nameStart_plain : ∀ c ∈ nameStart nettype area, c ≠ '\r' ∧ c ≠ '\n' ∧ c ≠ '\x00' := by
  intro c hc
  rcases List.mem_append.1 hc with hc | hc
  · exact area.plain c hc
  · have hall : ('_' :: (nettype.text ++ ['_'])).all
        (fun c => c != '\r' && c != '\n' && c != '\x00') = true := by
      cases nettype <;> rfl
    have hplain := List.all_eq_true.1 hall c hc
    simpa [and_assoc] using hplain

/-- It has at least six characters. -/
theorem six_le_nameStart : 6 ≤ (nameStart nettype area).length := by
  cases nettype <;> simp [nameStart, NetType.text]

/-- It is not empty. -/
theorem nameStart_ne_nil : nameStart nettype area ≠ [] :=
  List.ne_nil_of_length_pos (Nat.lt_of_lt_of_le (by omega) six_le_nameStart)

/-! ## Line by line -/

/-- What the loop takes from a line: the text from the first place of the wanted beginning on. -/
def entry (nettype : NetType) (area : Area) (l : Line) : Option Text :=
  (find (nameStart nettype area) l.text).bind fun v => if tmpExt <:+ v then none else some v

/-- The loop behind one search. -/
def scan (buffer : Text) (rounds : ℕ) (s : Text) : Option (List Text) :=
  match find buffer s with
  | none => some []
  | some found => readNames buffer rounds found

/-- The search goes through a line and then through what follows its end. -/
theorem find_line (u s : Text) : find (nameStart nettype area) (u ++ (crlf ++ s)) =
    ((find (nameStart nettype area) u).map (· ++ (crlf ++ s))).or
      (find (nameStart nettype area) s) := by
  have hr : '\r' ∉ nameStart nettype area := fun h => (nameStart_plain _ h).1 rfl
  have hn : '\n' ∉ nameStart nettype area := fun h => (nameStart_plain _ h).2.1 rfl
  have hnil : find (nameStart nettype area) [] = none := if_neg nameStart_ne_nil
  have hlf := find_append_cons hn nameStart_ne_nil [] s
  rw [hnil, Option.map_none, Option.none_or] at hlf
  rw [← hlf]
  exact find_append_cons hr nameStart_ne_nil u ('\n' :: s)

/-- The search goes on behind the end of a line. -/
theorem scan_crlf (rounds : ℕ) (s : Text) : scan (nameStart nettype area) rounds (crlf ++ s) =
    scan (nameStart nettype area) rounds s := by
  have hnil : find (nameStart nettype area) [] = none := if_neg nameStart_ne_nil
  have hfind := @find_line nettype area [] s
  rw [hnil, Option.map_none, Option.none_or, List.nil_append] at hfind
  rw [scan, hfind, scan]

/-- One round of the loop takes the line and goes on with the next. -/
theorem readNames_line {v : Text} (hv : nameStart nettype area <+: v) (hn : '\n' ∉ v) (rounds : ℕ)
    (s : Text) : readNames (nameStart nettype area) (rounds + 1) (v ++ (crlf ++ s)) =
      (scan (nameStart nettype area) rounds s).map
        ((if tmpExt <:+ v then [] else [v]) ++ ·) := by
  have hend : find crlf (v ++ (crlf ++ s)) = some (crlf ++ s) := find_pair (by decide) hn s
  have hlong : 4 < v.length := by
    have hlen := hv.length_le
    have hsix := @six_le_nameStart nettype area
    omega
  have hext : v.drop (v.length - 4) = tmpExt ↔ tmpExt <:+ v := by
    rw [List.suffix_iff_eq_drop, eq_comm]
    rfl
  rw [readNames, hend]
  dsimp only
  rw [List.length_append, Nat.add_sub_cancel, List.take_left' rfl, ← scan_crlf rounds s, scan]
  simp only [hlong, true_and, ne_eq, hext, ite_not]
  cases find (nameStart nettype area) (crlf ++ s) with
  | none => simp
  | some found => rfl

/-- The loop over a listing of lines takes the entries of the lines. -/
theorem scan_listing (lines : List Line) (rounds : ℕ) (h : lines.length ≤ rounds) :
    scan (nameStart nettype area) rounds (listingText lines) =
      some (lines.filterMap (entry nettype area)) := by
  induction lines generalizing rounds with
  | nil => rw [scan, listingText, List.flatMap_nil, find, if_neg nameStart_ne_nil]; rfl
  | cons l lines ih =>
    have htext : listingText (l :: lines) = l.text ++ (crlf ++ listingText lines) := by
      rw [listingText, List.flatMap_cons, List.append_assoc]
      rfl
    rw [List.filterMap_cons, entry, htext, scan, find_line]
    cases hfind : find (nameStart nettype area) l.text with
    | none =>
      rw [Option.map_none, Option.none_or, Option.bind_none]
      exact ih rounds (Nat.le_of_succ_le h)
    | some v =>
      obtain ⟨hsuf, hpat⟩ := find_some hfind
      have hn : '\n' ∉ v := fun hmem => (l.text_plain _ (hsuf.subset hmem)).1 rfl
      obtain ⟨rounds, rfl⟩ := Nat.exists_eq_add_of_le' (Nat.lt_of_lt_of_le (Nat.succ_pos _) h)
      rw [Option.map_some, Option.some_or, Option.bind_some]
      dsimp only
      rw [readNames_line hpat hn, ih rounds (Nat.le_of_succ_le_succ h), Option.map_some]
      split <;> rfl

/-- A listing has no more lines than characters. -/
theorem length_le_listingText (lines : List Line) : lines.length ≤ (listingText lines).length := by
  induction lines with
  | nil => exact Nat.le_refl 0
  | cons l lines ih =>
    rw [listingText, List.flatMap_cons, List.length_append, List.length_append, List.length_cons]
    have hcrlf : crlf.length = 2 := rfl
    rw [listingText] at ih
    omega

/-- A listing has no NUL in it. -/
theorem nul_notMem_listingText (lines : List Line) : '\x00' ∉ listingText lines := by
  intro hmem
  obtain ⟨l, -, hl⟩ := List.mem_flatMap.1 hmem
  rcases List.mem_append.1 hl with hl | hl
  · exact (l.text_plain _ hl).2 rfl
  · exact absurd hl (by decide)

/-- The wanted beginning does not end as the name of a temporary file does. -/
theorem not_tmpExt_nameStart : ¬ tmpExt <:+ nameStart nettype area := by
  intro h
  have hrev := List.reverse_prefix.2 h
  have hlast : (nameStart nettype area).reverse =
      '_' :: (area.text ++ '_' :: nettype.text).reverse := by
    simp [nameStart]
  rw [hlast] at hrev
  exact absurd (List.cons_prefix_cons.1 hrev).1 (by decide)

/-- A listing of just this name has no NUL in it. -/
theorem nul_notMem_nameStart_crlf : '\x00' ∉ nameStart nettype area ++ (crlf ++ []) := by
  intro hmem
  rcases List.mem_append.1 hmem with h | h
  · exact (nameStart_plain _ h).2.2 rfl
  · exact absurd h (by decide)

/-- A text of one line with the wanted beginning alone gives this as a name. -/
theorem getDirectoryFile_single (hlen : (nameStart nettype area).length < 256)
    {garbage bytes : Text}
    (hstr : getInMemory garbage bytes = nameStart nettype area ++ (crlf ++ [])) :
    getDirectoryFile nettype area garbage (.gives bytes) = some (0, [nameStart nettype area]) := by
  have hn : '\n' ∉ nameStart nettype area := fun h => (nameStart_plain _ h).2.1 rfl
  have hempty := @scan_listing nettype area [] (nameStart nettype area ++ (crlf ++ [])).length
    (Nat.zero_le _)
  change scan _ _ [] = some [] at hempty
  rw [getDirectoryFile, hstr, if_neg (by omega), find_eq_self (List.prefix_append _ _)]
  dsimp only
  rw [readNames_line List.prefix_rfl hn, hempty, if_neg not_tmpExt_nameStart]
  rfl

/-- Without any byte a name is read from what is in memory. -/
theorem getDirectoryFile_garbage (hlen : (nameStart nettype area).length < 256) :
    getDirectoryFile nettype area (nameStart nettype area ++ (crlf ++ [])) (.gives []) =
      some (0, [nameStart nettype area]) :=
  getDirectoryFile_single hlen (by
    rw [getInMemory, if_pos rfl, cstr_of_notMem nul_notMem_nameStart_crlf])

/-- What `getDirectoryFile` reads from a listing that is not empty. -/
theorem getDirectoryFile_lines {lines : List Line} (hne : lines ≠ [])
    (hlen : (nameStart nettype area).length < 256) (garbage : Text) :
    getDirectoryFile nettype area garbage (.gives (listingText lines)) =
      some (0, lines.filterMap (entry nettype area)) := by
  have hbytes : listingText lines ≠ [] := by
    have hlength := length_le_listingText lines
    have hpos := List.length_pos_iff.2 hne
    exact List.ne_nil_of_length_pos (by omega)
  have hstr : getInMemory garbage (listingText lines) = listingText lines := by
    rw [getInMemory, if_neg hbytes, cstr_of_notMem (nul_notMem_listingText lines)]
  have hscan := @scan_listing nettype area lines ((listingText lines).length + 1)
    (Nat.le_succ_of_le (length_le_listingText lines))
  rw [getDirectoryFile, hstr, if_neg (by omega)]
  rw [scan] at hscan
  cases hfind : find (nameStart nettype area) (listingText lines) with
  | none =>
    rw [hfind] at hscan
    rw [Option.some.inj hscan]
  | some found =>
    rw [hfind] at hscan
    dsimp only at hscan ⊢
    rw [hscan, Option.map_some]

/-! ## When the names are right -/

/-- What should be taken from a line. -/
def expectedEntry (nettype : NetType) (area : Area) (l : Line) : Option Text :=
  if nameStart nettype area <+: l.name ∧ ¬ tmpExt <:+ l.name then some l.name else none

/-- What should be taken from a listing, line by line. -/
theorem expectedNames_eq (lines : List Line) : expectedNames nettype area lines =
    lines.filterMap (expectedEntry nettype area) := by
  induction lines with
  | nil => rfl
  | cons l lines ih =>
    rw [List.filterMap_cons, ← ih, expectedNames, List.map_cons, List.filter_cons, expectedEntry]
    simp only [decide_eq_true_eq]
    split <;> rfl

/-- A line ends with its name. -/
theorem name_suffix_text (l : Line) : l.name <:+ l.text := by
  unfold Line.text
  split
  · exact List.suffix_rfl
  · exact (List.suffix_cons _ _).trans (List.suffix_append _ _)

/-- A line ends as its name does. -/
theorem tmpExt_suffix_text (l : Line) : tmpExt <:+ l.text ↔ tmpExt <:+ l.name := by
  refine ⟨?_, fun h => h.trans (name_suffix_text l)⟩
  unfold Line.text
  split
  · exact id
  · next columns hcol =>
    intro h
    rcases List.suffix_or_suffix_of_suffix h (List.suffix_append columns (' ' :: l.name)) with h | h
    · rcases List.suffix_cons_iff.1 h with h | h
      · exact absurd (List.cons.inj h).1 (by decide)
      · exact h
    · exact absurd (h.subset List.mem_cons_self) (by decide)

/-- The wanted beginning, if it stands in the line at all, stands first at the beginning of the
file name; only temporary files are left out. -/
def StartsAtName (nettype : NetType) (area : Area) (l : Line) : Prop :=
  tmpExt <:+ l.name ∨ find (nameStart nettype area) l.text = none ∨
    find (nameStart nettype area) l.text = some l.name

/-- What is taken from a line ends as its file name does. -/
theorem tmpExt_suffix_found {l : Line} {v : Text}
    (h : find (nameStart nettype area) l.text = some v) : tmpExt <:+ v ↔ tmpExt <:+ l.name := by
  obtain ⟨hsuf, hpat⟩ := find_some h
  have hlong : tmpExt.length ≤ v.length := by
    have hlen := hpat.length_le
    have hsix := @six_le_nameStart nettype area
    have hfour : tmpExt.length = 4 := rfl
    omega
  rw [← tmpExt_suffix_text]
  refine ⟨fun hext => hext.trans hsuf, ?_⟩
  intro hext
  exact List.suffix_of_suffix_length_le hext hsuf hlong

/-- The loop takes from a line what it should if the beginning stands at the name. -/
theorem entry_eq_iff (l : Line) : entry nettype area l = expectedEntry nettype area l ↔
    StartsAtName nettype area l := by
  rw [entry, expectedEntry, StartsAtName]
  cases hfind : find (nameStart nettype area) l.text with
  | none =>
    have hnot : ¬ nameStart nettype area <+: l.name := by
      intro hname
      have hsome := find_isSome (name_suffix_text l) hname
      rw [hfind] at hsome
      cases hsome
    simp [hnot]
  | some v =>
    have hext := tmpExt_suffix_found hfind
    rw [Option.bind_some]
    by_cases htmp : tmpExt <:+ l.name
    · simp [hext.2 htmp, htmp]
    · rw [if_neg fun h => htmp (hext.1 h)]
      simp only [htmp, not_false_eq_true, and_true, false_or, reduceCtorEq, Option.some.injEq]
      constructor
      · intro h
        split at h
        · exact Option.some.inj h
        · cases h
      · rintro rfl
        rw [if_pos (find_some hfind).2]

/-- A wanted file name is found in its line, there or before. -/
theorem entry_isSome_of_expected (l : Line) (h : (expectedEntry nettype area l).isSome = true) :
    (entry nettype area l).isSome = true := by
  rw [expectedEntry] at h
  split at h
  · next hname =>
    obtain ⟨v, hv⟩ := Option.isSome_iff_exists.1 (find_isSome (name_suffix_text l) hname.1)
    rw [entry, hv, Option.bind_some, if_neg fun htmp => hname.2 ((tmpExt_suffix_found hv).1 htmp)]
    rfl
  · cases h

end

/-- Two selections of which the first takes something wherever the second does are equal only if
they take the same from every element. -/
theorem filterMap_eq_iff {α β : Type*} {f g : α → Option β} {l : List α}
    (h : ∀ x ∈ l, (g x).isSome = true → (f x).isSome = true) :
    l.filterMap f = l.filterMap g ↔ ∀ x ∈ l, f x = g x := by
  have hlen : ∀ l : List α, (∀ x ∈ l, (g x).isSome = true → (f x).isSome = true) →
      (l.filterMap g).length ≤ (l.filterMap f).length := by
    intro l hl
    rw [List.length_filterMap_eq_countP, List.length_filterMap_eq_countP]
    exact List.countP_mono_left hl
  refine ⟨?_, List.filterMap_congr⟩
  induction l with
  | nil => simp
  | cons x l ih =>
    rw [List.forall_mem_cons] at h
    intro heq
    rw [List.filterMap_cons, List.filterMap_cons] at heq
    rw [List.forall_mem_cons]
    cases hf : f x with
    | none =>
      cases hg : g x with
      | none =>
        rw [hf, hg] at heq
        exact ⟨rfl, ih h.2 heq⟩
      | some b =>
        have hsome := h.1 (by rw [hg]; rfl)
        rw [hf] at hsome
        cases hsome
    | some a =>
      cases hg : g x with
      | none =>
        rw [hf, hg] at heq
        dsimp only at heq
        have hle := hlen l h.2
        rw [← heq, List.length_cons] at hle
        omega
      | some b =>
        rw [hf, hg] at heq
        obtain ⟨rfl, htail⟩ := List.cons.inj heq
        exact ⟨rfl, ih h.2 htail⟩

/-- **When the listing is read right.** For every listing of lines, every area code and net type:
`getDirectoryFile` ends and gives exactly the wanted file names, whatever is in memory, if and only
if the beginning of the names fits the buffer, the listing is not empty, and in every line of a file
that is not temporary the beginning stands first at the file name. -/
theorem getDirectoryFile_exact_iff (nettype : NetType) (area : Area) (lines : List Line) :
    (∀ garbage, getDirectoryFile nettype area garbage (.gives (listingText lines)) =
        some (0, expectedNames nettype area lines)) ↔
      (nameStart nettype area).length < 256 ∧ lines ≠ [] ∧
        ∀ l ∈ lines, StartsAtName nettype area l := by
  constructor
  · intro hexact
    have hlen : (nameStart nettype area).length < 256 := by
      by_contra hge
      have hnone := hexact []
      rw [getDirectoryFile, if_pos (by omega)] at hnone
      cases hnone
    have hne : lines ≠ [] := by
      rintro rfl
      have hlist := (getDirectoryFile_garbage hlen).symm.trans (hexact _)
      cases (Prod.ext_iff.1 (Option.some.inj hlist)).2
    refine ⟨hlen, hne, ?_⟩
    have hlist := hexact []
    rw [getDirectoryFile_lines hne hlen, expectedNames_eq] at hlist
    have heq := (Prod.ext_iff.1 (Option.some.inj hlist)).2
    intro l hl
    rw [← entry_eq_iff]
    exact (filterMap_eq_iff fun l _ => entry_isSome_of_expected l).1 heq l hl
  · rintro ⟨hlen, hne, hstarts⟩ garbage
    rw [getDirectoryFile_lines hne hlen, expectedNames_eq]
    rw [List.filterMap_congr fun l hl => (entry_eq_iff l).2 (hstarts l hl)]

/-! ## A name of another city -/

namespace OtherCity

/-- Area code 591. -/
def area : Area := ⟨"591".toList, by
  intro c hc
  have hplain := List.all_eq_true.1
    (show "591".toList.all (fun c => c != '\r' && c != '\n' && c != '\x00') = true from rfl) c hc
  simpa [and_assoc] using hplain⟩

/-- A line with a file of area code 1591. -/
def line : Line := ⟨none, "1591_PSTN_20160121.txt".toList, by decide, by
  intro c hc
  have hplain := List.all_eq_true.1 (show "1591_PSTN_20160121.txt".toList.all
    (fun c => c != '\n' && c != '\x00') = true from rfl) c hc
  simpa using hplain⟩

/-- The end of the name is taken as a file of area code 591. -/
theorem name_shortened : ¬ ∀ garbage,
    getDirectoryFile .PSTN area garbage (.gives (listingText [line])) =
      some (0, expectedNames .PSTN area [line]) := by
  intro hexact
  have hlist := hexact []
  have hentry : entry .PSTN area line = some "591_PSTN_20160121.txt".toList := by decide
  rw [getDirectoryFile_lines (List.cons_ne_nil _ _) (by decide), List.filterMap_cons, hentry]
    at hlist
  have hnames := (Prod.ext_iff.1 (Option.some.inj hlist)).2
  exact absurd hnames (by decide)

end OtherCity

end TelecomSuite.Export
