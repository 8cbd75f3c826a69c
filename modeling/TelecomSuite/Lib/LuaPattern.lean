import Mathlib.Data.List.Infix
import Mathlib.Data.List.DropRight
import Mathlib.Data.List.Find
import Mathlib.Data.List.GetD
import Mathlib.Order.Basic

/-!
# Lua patterns

The patterns of Lua 5.1 made of single characters, `.`, `%d` and `%s` with the suffixes `*`, `+` and
`-`, and of captures that are not nested. `strMatch` is `string.match`: the pattern is tried from
every place of the text, a `+` or `*` takes the longest run first and a `-` the shortest, and the
rest of the pattern decides.

A match is followed through its marks, the places where a capture opens and closes. Records with a
separator are read with gaps `.-` up to the separator: `over_captureRun` and
`firstMatch_captureRun` say that a captured run takes the first place where it can begin, since a
later place leaves fewer separators to what follows.
-/

namespace LuaPattern

/-- What one item matches. -/
inductive Class
  | any
  | digit
  | space
  | char (c : Char)
  deriving DecidableEq

/-- `isdigit` of the C locale: `0` to `9`. -/
def isdigit (c : Char) : Bool := 48 ≤ c.toNat && c.toNat ≤ 57

/-- `isspace` of the C locale: the blank, and `\t` to `\r`. -/
def isspace (c : Char) : Bool := c == ' ' || (9 ≤ c.toNat && c.toNat ≤ 13)

/-- `singlematch`. -/
def Class.test : Class → Char → Bool
  | .any, _ => true
  | .digit, c => isdigit c
  | .space, c => isspace c
  | .char a, c => c == a

/-- The suffix of an item: none, `*`, `+` or `-`. -/
inductive Repeat
  | one
  | star
  | plus
  | minus
  deriving DecidableEq

/-- An item of a pattern: the begin or the end of a capture, or a class with its repetition. -/
inductive Item
  | opening
  | closing
  | single (cls : Class) (rep : Repeat)
  deriving DecidableEq

/-! ## The text of a pattern -/

/-- What was read before a character of the pattern: nothing that it could belong to, a `%`, or an
item whose suffix it could be. -/
inductive Pending
  | none
  | escape
  | single (cls : Class)

/-- The items for a class whose repetition is not known yet. -/
def Pending.items : Pending → List Item
  | .single cls => [.single cls .one]
  | _ => []

/-- The items of a pattern; `inside` says whether a capture is open. -/
def parse : Pending → Bool → List Char → Option (List Item)
  | .escape, _, [] => none
  | pending, inside, [] => if inside then none else some pending.items
  | .escape, inside, 'd' :: p => parse (.single .digit) inside p
  | .escape, inside, 's' :: p => parse (.single .space) inside p
  | .escape, _, _ :: _ => none
  | .single cls, inside, '*' :: p => (parse .none inside p).map (.single cls .star :: ·)
  | .single cls, inside, '+' :: p => (parse .none inside p).map (.single cls .plus :: ·)
  | .single cls, inside, '-' :: p => (parse .none inside p).map (.single cls .minus :: ·)
  | pending, false, '(' :: p => (parse .none true p).map (pending.items ++ .opening :: ·)
  | pending, true, ')' :: p => (parse .none false p).map (pending.items ++ .closing :: ·)
  | pending, inside, '%' :: p => (parse .escape inside p).map (pending.items ++ ·)
  | pending, inside, '.' :: p => (parse (.single .any) inside p).map (pending.items ++ ·)
  | pending, inside, c :: p =>
    if c ∈ ['(', ')', '[', '^', '$', '?'] then none
    else (parse (.single (.char c)) inside p).map (pending.items ++ ·)

/-! ## Matching -/

/-- A place of the text, given by what is left of it, where a capture opens or closes. -/
inductive Mark
  | opened (s : List Char)
  | closed (s : List Char)

section
variable {α : Type*}

/-- `max_expand`: the longest run first. -/
def maxExpand (cls : Class) (k : List Char → Option α) : List Char → Option α
  | [] => k []
  | c :: s => if cls.test c then (maxExpand cls k s).or (k (c :: s)) else k (c :: s)

/-- `min_expand`: the shortest run first. -/
def minExpand (cls : Class) (k : List Char → Option α) : List Char → Option α
  | [] => k []
  | c :: s => (k (c :: s)).or (if cls.test c then minExpand cls k s else none)

/-- One character of the class, and then the rest. -/
def single (cls : Class) (k : List Char → Option α) : List Char → Option α
  | [] => none
  | c :: s => if cls.test c then k s else none

end

/-- `match`: the marks of the first match of the items at the beginning of the text. -/
def matchItems : List Item → List Char → Option (List Mark)
  | [], _ => some []
  | .opening :: p, s => (matchItems p s).map (.opened s :: ·)
  | .closing :: p, s => (matchItems p s).map (.closed s :: ·)
  | .single cls .one :: p, s => single cls (matchItems p) s
  | .single cls .star :: p, s => maxExpand cls (matchItems p) s
  | .single cls .plus :: p, s => single cls (maxExpand cls (matchItems p)) s
  | .single cls .minus :: p, s => minExpand cls (matchItems p) s

/-- The loop of `str_find_aux` over the places of the text. -/
def firstMatch (p : List Item) : List Char → Option (List Mark)
  | [] => matchItems p []
  | c :: s => (matchItems p (c :: s)).or (firstMatch p s)

/-- The texts of the captures. -/
def captures : List Mark → List (List Char)
  | .opened s :: .closed t :: marks => s.take (s.length - t.length) :: captures marks
  | _ => []

/-- `string.match` with a pattern that has captures. -/
def strMatch (s pattern : List Char) : Option (List (List Char)) :=
  (parse .none false pattern).bind fun p => (firstMatch p s).map captures

/-- The text of a capture is what lies between its two marks. -/
theorem captures_cons {s u t : List Char} (h : s = u ++ t) (marks : List Mark) :
    captures (.opened s :: .closed t :: marks) = u :: captures marks := by
  subst h
  simp [captures]

/-! ## Gaps up to a separator -/

section
variable {α : Type*} {sep : Char} {s t u : List Char}

/-- What is left of a text after each of its separators. -/
def restsAfter (sep : Char) : List Char → List (List Char)
  | [] => []
  | c :: s => if c = sep then s :: restsAfter sep s else restsAfter sep s

/-- Text without a separator has no rest of its own. -/
theorem restsAfter_append (h : sep ∉ u) (s : List Char) :
    restsAfter sep (u ++ s) = restsAfter sep s := by
  induction u with
  | nil => rfl
  | cons c u ih =>
    rw [List.mem_cons, not_or] at h
    rw [List.cons_append, restsAfter, if_neg (Ne.symm h.1), ih h.2]

/-- What comes behind the separators of a rest comes behind separators of the whole. -/
theorem restsAfter_suffix (h : t <:+ s) : restsAfter sep t <:+ restsAfter sep s := by
  induction s with
  | nil =>
    rw [List.suffix_nil.1 h]
  | cons c s ih =>
    rcases List.suffix_cons_iff.1 h with rfl | h
    · exact List.suffix_rfl
    · rw [restsAfter]
      split
      · exact (ih h).trans (List.suffix_cons _ _)
      · exact ih h

/-- What comes behind a separator is a rest of the text. -/
theorem suffix_of_mem_restsAfter (h : t ∈ restsAfter sep s) : t <:+ s := by
  induction s with
  | nil => cases h
  | cons c s ih =>
    rw [restsAfter] at h
    split at h
    · rcases List.mem_cons.1 h with rfl | h
      · exact List.suffix_cons _ _
      · exact (ih h).trans (List.suffix_cons _ _)
    · exact (ih h).trans (List.suffix_cons _ _)

/-- Behind a rest of the text come the rests of this rest. -/
theorem restsAfter_split {as bs : List (List Char)} (h : restsAfter sep s = as ++ t :: bs) :
    bs = restsAfter sep t := by
  induction s generalizing as with
  | nil => simp [restsAfter] at h
  | cons c s ih =>
    rw [restsAfter] at h
    split at h
    · cases as with
      | nil =>
        obtain ⟨rfl, rfl⟩ := List.cons.inj h
        rfl
      | cons a as => exact ih (List.cons.inj h).2
    · exact ih h

/-- The fields of a text begin at the text and after each separator. -/
theorem splitOn_eq_map (sep : Char) (s : List Char) :
    s.splitOn sep = (s :: restsAfter sep s).map (·.takeWhile (· != sep)) := by
  induction s with
  | nil => rfl
  | cons c s ih =>
    rw [List.splitOn_cons_eq_if_modifyHead, ih, restsAfter]
    rcases eq_or_ne c sep with rfl | hc
    · simp
    · simp [hc]

/-- The first success after one of the separators. -/
def afterGap (sep : Char) (k : List Char → Option α) (s : List Char) : Option α :=
  (restsAfter sep s).findSome? k

/-- `.-` and a separator try the rests behind the separators one after the other. -/
theorem matchItems_afterGap (sep : Char) (p : List Item) (s : List Char) :
    matchItems (.single .any .minus :: .single (.char sep) .one :: p) s =
      afterGap sep (matchItems p) s := by
  rw [matchItems, afterGap]
  induction s with
  | nil => rfl
  | cons c s ih =>
    rw [minExpand, ih, restsAfter, matchItems, single]
    rcases eq_or_ne c sep with rfl | hc
    · simp [Class.test, List.findSome?_cons, Option.or]
      cases matchItems p s <;> rfl
    · simp [Class.test, hc]

/-- No success after the gaps of a text, none after those of what is left of it. -/
theorem afterGap_eq_none_of_suffix {k : List Char → Option α} (hsuf : t <:+ s)
    (h : afterGap sep k s = none) : afterGap sep k t = none := by
  rw [afterGap, List.findSome?_eq_none_iff] at h ⊢
  intro u hu
  exact h u ((restsAfter_suffix hsuf).subset hu)

/-- Two gaps in a row: the first ends at the first separator. -/
theorem afterGap_afterGap (k : List Char → Option α) (s : List Char) :
    afterGap sep (afterGap sep k) s = (restsAfter sep s).head?.bind (afterGap sep k) := by
  cases hr : restsAfter sep s with
  | nil => rw [afterGap, hr]; rfl
  | cons t ts =>
    obtain rfl : ts = restsAfter sep t := @restsAfter_split sep _ _ [] _ hr
    rw [afterGap, hr, List.findSome?_cons, List.head?_cons, Option.bind_some]
    cases hk : afterGap sep k t with
    | some a => rfl
    | none =>
      dsimp only
      rw [List.findSome?_eq_none_iff]
      intro u hu
      exact afterGap_eq_none_of_suffix (suffix_of_mem_restsAfter hu) hk

end

/-! ## Captured runs -/

section
variable {cls : Class} {sep : Char} {s t : List Char}

/-- The text begins with a character of the class. -/
def begins (cls : Class) (s : List Char) : Bool := s.head?.any cls.test

/-- A captured run of the class, and the gap after it. -/
def captureRun (cls : Class) (sep : Char) : List Item :=
  [.opening, .single cls .plus, .closing, .single .any .minus, .single (.char sep) .one]

/-- The longest run decides if no shorter one succeeds where it fails. -/
theorem maxExpand_eq {α : Type*} {k : List Char → Option α}
    (h : ∀ t, s.dropWhile cls.test <:+ t → t <:+ s → k (s.dropWhile cls.test) = none →
      k t = none) : maxExpand cls k s = k (s.dropWhile cls.test) := by
  induction s with
  | nil => rfl
  | cons c s ih =>
    rw [maxExpand]
    split
    · next hc =>
      rw [List.dropWhile_cons_of_pos hc] at h ⊢
      rw [ih fun t hdrop hsuf => h t hdrop (hsuf.trans (List.suffix_cons _ _))]
      cases hk : k (s.dropWhile cls.test) with
      | some a => rfl
      | none =>
        exact h _ ((List.dropWhile_suffix _).trans (List.suffix_cons _ _)) List.suffix_rfl hk
    · next hc => rw [List.dropWhile_cons_of_neg hc]

/-- A text on the way through a run is what is left of the run and of the text behind it. -/
theorem run_between (hdrop : s.dropWhile cls.test <:+ t) (hsuf : t <:+ s) :
    ∃ u, t = u ++ s.dropWhile cls.test ∧ ∀ c ∈ u, cls.test c = true := by
  obtain ⟨u, rfl⟩ := hdrop
  obtain ⟨v, hv⟩ := hsuf
  have hrun : v ++ u = s.takeWhile cls.test := by
    rw [← List.append_assoc] at hv
    exact List.append_cancel_right (hv.trans List.takeWhile_append_dropWhile.symm)
  refine ⟨u, rfl, ?_⟩
  intro c hc
  exact List.mem_takeWhile_imp (hrun ▸ List.mem_append_right v hc)

/-- The gap after a run does not depend on how much of the run was taken. -/
theorem afterGap_dropWhile {α : Type*} (hsep : cls.test sep = false) (k : List Char → Option α)
    (hdrop : s.dropWhile cls.test <:+ t) (hsuf : t <:+ s) :
    afterGap sep k t = afterGap sep k (s.dropWhile cls.test) := by
  obtain ⟨u, rfl, hu⟩ := run_between hdrop hsuf
  have hmem : sep ∉ u := by
    intro hmem
    rw [hu sep hmem] at hsep
    cases hsep
  rw [afterGap, afterGap, restsAfter_append hmem]

/-- A captured run and a separator take the longest run of the class, and then a gap. -/
theorem matchItems_captureRun (hsep : cls.test sep = false) (p : List Item) (s : List Char) :
    matchItems (captureRun cls sep ++ p) s =
      if begins cls s then (afterGap sep (matchItems p) s).map fun marks =>
        .opened s :: .closed (s.dropWhile cls.test) :: marks
      else none := by
  cases s with
  | nil => rfl
  | cons c s =>
    change (single cls (maxExpand cls (matchItems (.closing :: .single .any .minus ::
      .single (.char sep) .one :: p))) (c :: s)).map _ = if cls.test c then _ else none
    rw [single]
    split
    · next hc =>
      have hk : ∀ t, matchItems (.closing :: .single .any .minus ::
          .single (.char sep) .one :: p) t =
        (afterGap sep (matchItems p) t).map (.closed t :: ·) := by
        intro t
        rw [matchItems, matchItems_afterGap]
      have hgap : afterGap sep (matchItems p) (c :: s) =
          afterGap sep (matchItems p) (s.dropWhile cls.test) := by
        rw [← List.dropWhile_cons_of_pos hc]
        exact afterGap_dropWhile hsep _ (List.dropWhile_suffix _) List.suffix_rfl
      rw [maxExpand_eq, hk, hgap, List.dropWhile_cons_of_pos hc, Option.map_map]
      · rfl
      · intro t hdrop hsuf hnone
        rw [hk, Option.map_eq_none_iff] at hnone ⊢
        rw [afterGap_dropWhile hsep _ hdrop hsuf]
        exact hnone
    · rfl

/-- A run behind a gap: it is captured where it can begin first. -/
theorem afterGap_captureRun (hsep : cls.test sep = false) (p : List Item) (s : List Char) :
    afterGap sep (matchItems (captureRun cls sep ++ p)) s =
      ((restsAfter sep s).find? (begins cls)).bind fun t =>
        (afterGap sep (matchItems p) t).map fun marks =>
          .opened t :: .closed (t.dropWhile cls.test) :: marks := by
  cases hfind : (restsAfter sep s).find? (begins cls) with
  | none =>
    rw [Option.bind_none, afterGap, List.findSome?_eq_none_iff]
    intro t ht
    rw [matchItems_captureRun hsep, if_neg (List.find?_eq_none.1 hfind t ht)]
  | some t =>
    obtain ⟨ht, as, bs, hsplit, has⟩ := List.find?_eq_some_iff_append.1 hfind
    have hskip : as.findSome? (matchItems (captureRun cls sep ++ p)) = none := by
      rw [List.findSome?_eq_none_iff]
      intro u hu
      rw [matchItems_captureRun hsep, if_neg (by simpa using has u hu)]
    rw [afterGap, hsplit, List.findSome?_append, hskip, Option.none_or, List.findSome?_cons,
      matchItems_captureRun hsep, if_pos ht, Option.bind_some]
    cases hgap : afterGap sep (matchItems p) t with
    | some marks => rfl
    | none =>
      rw [Option.map_none]
      dsimp only
      rw [List.findSome?_eq_none_iff, restsAfter_split hsplit]
      intro u hu
      rw [matchItems_captureRun hsep,
        afterGap_eq_none_of_suffix (suffix_of_mem_restsAfter hu) hgap]
      exact ite_self _

/-- A pattern that begins with a captured run matches from the first place where the run can
begin. -/
theorem firstMatch_captureRun (hsep : cls.test sep = false) (p : List Item) (s : List Char) :
    firstMatch (captureRun cls sep ++ p) s =
      matchItems (captureRun cls sep ++ p) (s.dropWhile fun c => !cls.test c) := by
  induction s with
  | nil => rfl
  | cons c s ih =>
    rw [firstMatch, ih]
    cases hc : cls.test c with
    | false =>
      rw [List.dropWhile_cons_of_pos (by simp [hc]), matchItems_captureRun hsep,
        if_neg (by simp [begins, hc]), Option.none_or]
    | true =>
      rw [List.dropWhile_cons_of_neg (by simp [hc])]
      simp only [matchItems_captureRun hsep]
      rw [if_pos (show begins cls (c :: s) = true from hc)]
      cases hgap : afterGap sep (matchItems p) (c :: s) with
      | some marks => rfl
      | none =>
        have hsuf := (List.dropWhile_suffix (!cls.test ·)).trans (List.suffix_cons c s)
        rw [afterGap_eq_none_of_suffix hsuf hgap]
        exact ite_self _

/-! ## A captured field without the class at its end -/

/-- A field up to the separator, captured without the characters of the class at its end. -/
def captureField (cls : Class) (sep : Char) : List Item :=
  [.opening, .single .any .minus, .closing, .single cls .star, .single (.char sep) .one]

/-- The capture closes at the first place from which only characters of the class stand before the
separator. -/
theorem matchItems_closeField (hsep : cls.test sep = false) (s : List Char) :
    matchItems [.closing, .single cls .star, .single (.char sep) .one] s =
      if (s.dropWhile cls.test).head? = some sep then some [.closed s] else none := by
  have hk : ∀ t, matchItems [.single (.char sep) .one] t =
      if t.head? = some sep then some [] else none := by
    intro t
    cases t with
    | nil => rfl
    | cons c t => simp [matchItems, single, Class.test]
  rw [matchItems, matchItems, maxExpand_eq, hk]
  · split <;> rfl
  · intro t hdrop hsuf hnone
    obtain ⟨u, rfl, hu⟩ := run_between hdrop hsuf
    cases u with
    | nil => exact hnone
    | cons c u =>
      rw [hk, if_neg]
      rintro ⟨⟩
      rw [hu sep List.mem_cons_self] at hsep
      cases hsep

/-- A run ends at the separator if the whole field is of the class. -/
theorem head?_dropWhile_eq_sep (hsep : cls.test sep = false) (s : List Char) :
    (s.dropWhile cls.test).head? = some sep ↔
      sep ∈ s ∧ ∀ c ∈ s.takeWhile (· != sep), cls.test c = true := by
  induction s with
  | nil => simp
  | cons c s ih =>
    rcases eq_or_ne c sep with rfl | hne
    · simp [hsep]
    · cases hc : cls.test c with
      | true => simp [hc, hne, Ne.symm hne, ih]
      | false => simp [hc, hne]

/-- The first element goes only if all others have gone. -/
theorem rdropWhile_cons {α : Type*} (p : α → Bool) (x : α) (l : List α) :
    (x :: l).rdropWhile p = if ∀ y ∈ x :: l, p y = true then [] else x :: l.rdropWhile p := by
  split
  · next h => exact List.rdropWhile_eq_nil_iff.2 h
  · next h =>
    have hnil : l.rdropWhile p = [] → p x = false := by
      intro hl
      rw [List.rdropWhile_eq_nil_iff] at hl
      rw [List.forall_mem_cons, not_and'] at h
      exact eq_false_of_ne_true (h hl)
    rw [List.rdropWhile, List.reverse_cons, List.dropWhile_append]
    split
    · next hempty =>
      have hl : l.rdropWhile p = [] := by
        rw [List.rdropWhile, List.isEmpty_iff.1 hempty, List.reverse_nil]
      rw [hl, List.dropWhile_cons_of_neg (by simp [hnil hl])]
      rfl
    · rw [List.reverse_append]
      rfl

/-- The captured field is the field at the beginning without the class at its end. -/
theorem matchItems_captureField (hsep : cls.test sep = false) (s : List Char) :
    matchItems (captureField cls sep) s =
      if sep ∈ s then some [.opened s, .closed
        (s.drop ((s.takeWhile (· != sep)).rdropWhile cls.test).length)]
      else none := by
  change (minExpand .any (matchItems [.closing, .single cls .star, .single (.char sep) .one])
    s).map (Mark.opened s :: ·) = _
  suffices h : minExpand .any (matchItems [.closing, .single cls .star, .single (.char sep) .one])
      s = if sep ∈ s then some [.closed
        (s.drop ((s.takeWhile (· != sep)).rdropWhile cls.test).length)] else none by
    rw [h]
    split <;> rfl
  induction s with
  | nil => rfl
  | cons c s ih =>
    rw [minExpand, ih, matchItems_closeField hsep]
    split
    · next hhead =>
      obtain ⟨hmem, hall⟩ := (head?_dropWhile_eq_sep hsep _).1 hhead
      rw [if_pos hmem, List.rdropWhile_eq_nil_iff.2 hall]
      rfl
    · next hhead =>
      have hne : c ≠ sep := by
        rintro rfl
        exact hhead (by simp [hsep])
      rw [Option.none_or, if_pos (show Class.any.test c = true from rfl)]
      by_cases hmem : sep ∈ s
      · have hall : ¬ ∀ y ∈ c :: s.takeWhile (· != sep), cls.test y = true := by
          intro hall
          refine hhead ((head?_dropWhile_eq_sep hsep _).2 ⟨List.mem_cons_of_mem _ hmem, ?_⟩)
          rwa [List.takeWhile_cons_of_pos (by simpa using hne)]
        rw [if_pos hmem, if_pos (List.mem_cons_of_mem _ hmem),
          List.takeWhile_cons_of_pos (by simpa using hne), rdropWhile_cons, if_neg hall]
        rfl
      · rw [if_neg hmem, if_neg]
        rw [List.mem_cons, not_or]
        exact ⟨Ne.symm hne, hmem⟩

/-- A run is captured. -/
theorem captures_run (cls : Class) (s : List Char) (marks : List Mark) :
    captures (.opened s :: .closed (s.dropWhile cls.test) :: marks) =
      s.takeWhile cls.test :: captures marks :=
  captures_cons List.takeWhile_append_dropWhile.symm marks

/-- A field is captured without the characters of the class at its end. -/
theorem captures_field (cls : Class) (sep : Char) (s : List Char) :
    captures [.opened s, .closed
      (s.drop ((s.takeWhile (· != sep)).rdropWhile cls.test).length)] =
      [(s.takeWhile (· != sep)).rdropWhile cls.test] := by
  refine captures_cons ?_ []
  exact List.prefix_iff_eq_append.1
    (( List.rdropWhile_prefix _ _).trans ( List.takeWhile_prefix _)) |>.symm

end

/-! ## Records of fields -/

section
variable {cls : Class} {sep : Char} {F : List (List Char)} {i j : ℕ}

/-- The record from its `i`-th field on. -/
def textAt (sep : Char) (F : List (List Char)) (i : ℕ) : List Char := [sep].intercalate (F.drop i)

/-- The first field with a property, from the `i`-th on. -/
def firstFrom (p : List Char → Bool) (F : List (List Char)) (i : ℕ) : Option ℕ :=
  (List.range' i (F.length - i)).find? fun j => p (F.getD j [])

/-- The first field from `i` on with a property has it, and those before it do not. -/
theorem firstFrom_eq_some_iff {p : List Char → Bool} :
    firstFrom p F i = some j ↔ (i ≤ j ∧ j < F.length) ∧ p (F.getD j []) = true ∧
      ∀ k, i ≤ k → k < j → p (F.getD k []) = false := by
  rw [firstFrom, List.find?_range'_eq_some, List.mem_range'_1]
  constructor
  · rintro ⟨hp, ⟨hij, hj⟩, hbefore⟩
    exact ⟨⟨hij, by omega⟩, hp, fun k hik hkj => by simpa using hbefore k hik hkj⟩
  · rintro ⟨⟨hij, hj⟩, hp, hbefore⟩
    exact ⟨hp, ⟨hij, by omega⟩, fun k hik hkj => by simpa using hbefore k hik hkj⟩

/-- Only fields that are there are looked at behind a search. -/
theorem bind_firstFrom_congr {α : Type*} {p : List Char → Bool} {f g : ℕ → Option α}
    (h : ∀ j < F.length, f j = g j) : (firstFrom p F i).bind f = (firstFrom p F i).bind g := by
  cases hfirst : firstFrom p F i with
  | none => rfl
  | some j => exact h j (firstFrom_eq_some_iff.1 hfirst).1.2

/-- There are no fields to search from here on. -/
theorem firstFrom_of_length_le (p : List Char → Bool) (h : F.length ≤ i) :
    firstFrom p F i = none := by
  rw [firstFrom, Nat.sub_eq_zero_of_le h]
  rfl

/-- The text from the last field on is this field. -/
theorem textAt_last (h : i + 1 = F.length) : textAt sep F i = F.getD i [] := by
  have hi : i < F.length := by omega
  rw [textAt, List.drop_eq_getElem_cons hi, List.drop_of_length_le (Nat.le_of_eq h.symm),
    List.getD_eq_getElem _ _ hi, List.intercalate_singleton]

/-- The text from a field on is this field, a separator and the text from the next one on. -/
theorem textAt_cons (h : i + 1 < F.length) :
    textAt sep F i = F.getD i [] ++ sep :: textAt sep F (i + 1) := by
  have hi : i < F.length := by omega
  rw [textAt, textAt, List.drop_eq_getElem_cons hi, List.drop_eq_getElem_cons h,
    List.getD_eq_getElem _ _ hi, List.intercalate_cons_cons, List.append_assoc]
  rfl

/-- The text from the first field on is the whole text. -/
theorem textAt_splitOn (sep : Char) (s : List Char) : textAt sep (s.splitOn sep) 0 = s :=
  List.intercalate_splitOn sep

/-- The text from a field on is the field and what follows, which is empty or begins with the
separator. -/
theorem textAt_eq (h : i < F.length) :
    ∃ t, textAt sep F i = F.getD i [] ++ t ∧ ∀ c ∈ t.head?, c = sep := by
  rcases Nat.lt_or_ge (i + 1) F.length with hlt | hge
  · exact ⟨_, textAt_cons hlt, by simp⟩
  · exact ⟨[], by rw [textAt_last (by omega), List.append_nil], by simp⟩

/-- A run ends before a separator. -/
theorem takeWhile_append_sep {p : Char → Bool} (hsep : p sep = false) {t : List Char}
    (h : ∀ c ∈ t.head?, c = sep) (f : List Char) : (f ++ t).takeWhile p = f.takeWhile p := by
  have htake : t.takeWhile p = [] := by
    cases t with
    | nil => rfl
    | cons c t =>
      obtain rfl := h c rfl
      exact List.takeWhile_cons_of_neg (by simp [hsep])
  rw [List.takeWhile_append, htake, List.append_nil]
  split
  · next hlen => exact (( List.takeWhile_prefix p).eq_of_length hlen).symm
  · rfl

/-- A run that the separator ends stays in its field. -/
theorem takeWhile_textAt {p : Char → Bool} (hsep : p sep = false) (h : i < F.length) :
    (textAt sep F i).takeWhile p = (F.getD i []).takeWhile p := by
  obtain ⟨t, ht, hhead⟩ := @textAt_eq sep F i h
  rw [ht, takeWhile_append_sep hsep hhead]

/-- Whether a run begins is seen in the field. -/
theorem begins_textAt (hsep : cls.test sep = false) (h : i < F.length) :
    begins cls (textAt sep F i) = begins cls (F.getD i []) := by
  obtain ⟨t, ht, hhead⟩ := @textAt_eq sep F i h
  rw [ht]
  cases F.getD i [] with
  | cons c f => rfl
  | nil =>
    cases t with
    | nil => rfl
    | cons c t =>
      obtain rfl := hhead c rfl
      exact hsep

section
variable (hF : ∀ f ∈ F, sep ∉ f)
include hF

/-- No field has a separator. -/
theorem sep_notMem (i : ℕ) : sep ∉ F.getD i [] := by
  rcases Nat.lt_or_ge i F.length with hlt | hge
  · rw [List.getD_eq_getElem _ _ hlt]
    exact hF _ (List.getElem_mem hlt)
  · rw [List.getD_eq_default _ _ hge]
    exact List.not_mem_nil

/-- Behind the separators come the texts from the later fields on. -/
theorem restsAfter_textAt (h : i < F.length) :
    restsAfter sep (textAt sep F i) = (List.range' (i + 1) (F.length - (i + 1))).map
      (textAt sep F) := by
  obtain ⟨m, hm⟩ := Nat.exists_eq_add_of_le (Nat.succ_le_of_lt h)
  induction m generalizing i with
  | zero =>
    rw [textAt_last (by omega), hm]
    have hnone := restsAfter_append (sep_notMem hF i) []
    rw [List.append_nil] at hnone
    rw [hnone]
    simp [restsAfter]
  | succ m ih =>
    have hlt : i + 1 < F.length := by omega
    rw [textAt_cons hlt, restsAfter_append (sep_notMem hF i), restsAfter, if_pos rfl,
      ih hlt (by omega), show F.length - (i + 1) = F.length - (i + 1 + 1) + 1 by omega,
      List.range'_succ, List.map_cons]

/-- There is a separator if there is one more field. -/
theorem sep_mem_textAt (h : i < F.length) : sep ∈ textAt sep F i ↔ i + 1 < F.length := by
  constructor
  · intro hmem
    by_contra hge
    rw [textAt_last (by omega)] at hmem
    exact sep_notMem hF i hmem
  · intro hlt
    rw [textAt_cons hlt]
    exact List.mem_append_right _ List.mem_cons_self

/-- A second gap goes on at one of the later fields. -/
theorem afterGap_gap (p : List Item) (h : i < F.length) :
    afterGap sep (matchItems (.single .any .minus :: .single (.char sep) .one :: p))
        (textAt sep F i) =
      if i + 1 < F.length then afterGap sep (matchItems p) (textAt sep F (i + 1)) else none := by
  rw [funext (matchItems_afterGap sep p), afterGap_afterGap, restsAfter_textAt hF h]
  split
  · next hlt =>
    rw [show F.length - (i + 1) = F.length - (i + 1 + 1) + 1 by omega]
    rfl
  · next hge =>
    rw [show F.length - (i + 1) = 0 by omega]
    rfl

/-- What a captured run behind a gap captures: it is in the first later field that begins with
one. -/
theorem captures_afterGap_run (hsep : cls.test sep = false) (p : List Item) (h : i < F.length) :
    (afterGap sep (matchItems (captureRun cls sep ++ p)) (textAt sep F i)).map captures =
      (firstFrom (begins cls) F (i + 1)).bind fun j =>
        ((afterGap sep (matchItems p) (textAt sep F j)).map captures).map
          ((F.getD j []).takeWhile cls.test :: ·) := by
  have hfind : (restsAfter sep (textAt sep F i)).find? (begins cls) =
      (firstFrom (begins cls) F (i + 1)).map (textAt sep F) := by
    rw [restsAfter_textAt hF h, List.find?_map, firstFrom]
    congr 1
    refine List.find?_congr ?_
    intro j hj
    rw [List.mem_range'_1] at hj
    exact begins_textAt hsep (by omega)
  rw [afterGap_captureRun hsep, hfind]
  cases hfirst : firstFrom (begins cls) F (i + 1) with
  | none => rfl
  | some j =>
    have hj := (firstFrom_eq_some_iff.1 hfirst).1.2
    rw [Option.map_some, Option.bind_some, Option.bind_some, Option.map_map, Option.map_map]
    congr 1
    funext marks
    rw [Function.comp_apply, captures_run, takeWhile_textAt hsep hj, Function.comp_apply]

/-- What a captured field behind a gap captures: it is the next field, if one more follows. -/
theorem captures_afterGap_field (hsep : cls.test sep = false) (h : i < F.length) :
    (afterGap sep (matchItems (captureField cls sep)) (textAt sep F i)).map captures =
      if i + 2 < F.length then some [(F.getD (i + 1) []).rdropWhile cls.test] else none := by
  rw [afterGap, restsAfter_textAt hF h]
  rcases Nat.lt_or_ge (i + 1) F.length with hlt | hge
  · rw [show F.length - (i + 1) = F.length - (i + 1 + 1) + 1 by omega, List.range'_succ,
      List.map_cons, List.findSome?_cons, matchItems_captureField hsep]
    rcases Nat.lt_or_ge (i + 2) F.length with hlt' | hge
    · have hfield : (textAt sep F (i + 1)).takeWhile (· != sep) = F.getD (i + 1) [] := by
        rw [takeWhile_textAt (by simp) hlt, List.takeWhile_eq_self_iff]
        intro c hc
        rw [bne_iff_ne]
        rintro rfl
        exact sep_notMem hF _ hc
      rw [if_pos ((sep_mem_textAt hF hlt).2 hlt'), if_pos hlt', Option.map_some, captures_field,
        hfield]
    · rw [if_neg fun hmem => absurd ((sep_mem_textAt hF hlt).1 hmem) (by omega),
        if_neg (by omega), show F.length - (i + 1 + 1) = 0 by omega]
      rfl
  · rw [show F.length - (i + 1) = 0 by omega, if_neg (by omega)]
    rfl

end

/-- A search looks at one field and goes on with the next. -/
theorem firstFrom_step (p : List Char → Bool) (h : i < F.length) :
    firstFrom p F i = if p (F.getD i []) then some i else firstFrom p F (i + 1) := by
  rw [firstFrom, show F.length - i = F.length - (i + 1) + 1 by omega, List.range'_succ,
    List.find?_cons]
  split <;> simp_all [firstFrom]

/-- What is left when characters are skipped begins with one that is searched for. -/
theorem dropWhile_eq_cons_of_any {p : Char → Bool} {f : List Char} (h : f.any p = true) :
    ∃ c s, f.dropWhile (fun c => !p c) = c :: s ∧ p c = true := by
  cases hd : f.dropWhile fun c => !p c with
  | nil =>
    obtain ⟨c, hc, hp⟩ := List.any_eq_true.1 h
    have hall := List.dropWhile_eq_nil_iff.1 hd c hc
    simp [hp] at hall
  | cons c s =>
    have hc := List.head?_dropWhile_not (fun c => !p c) f
    rw [hd] at hc
    exact ⟨c, s, rfl, by simpa using hc⟩

/-- The skipping ends in the first part. -/
theorem dropWhile_append_of_any {p : Char → Bool} {f : List Char} (h : f.any p = true)
    (t : List Char) :
    (f ++ t).dropWhile (fun c => !p c) = f.dropWhile (fun c => !p c) ++ t := by
  obtain ⟨c, s, hd, -⟩ := dropWhile_eq_cons_of_any h
  rw [List.dropWhile_append, hd, if_neg (by simp)]

/-- The first part is skipped whole. -/
theorem dropWhile_append_of_not_any {p : Char → Bool} {f : List Char} (h : f.any p = false)
    (t : List Char) : (f ++ t).dropWhile (fun c => !p c) = t.dropWhile fun c => !p c := by
  refine List.dropWhile_append_of_pos ?_
  intro c hc
  rw [Bool.not_eq_true', Bool.eq_false_iff]
  exact fun hp => Bool.eq_false_iff.1 h (List.any_eq_true.2 ⟨c, hc, hp⟩)

/-- The first character of the class in the record is in the first field that has one. -/
theorem dropWhile_textAt (hsep : cls.test sep = false) (h : i < F.length) :
    (firstFrom (·.any cls.test) F i = none ∧
        (textAt sep F i).dropWhile (fun c => !cls.test c) = []) ∨
      ∃ j t, firstFrom (·.any cls.test) F i = some j ∧ textAt sep F j = F.getD j [] ++ t ∧
        (∀ c ∈ t.head?, c = sep) ∧ (textAt sep F i).dropWhile (fun c => !cls.test c) =
          (F.getD j []).dropWhile (fun c => !cls.test c) ++ t := by
  obtain ⟨m, hm⟩ := Nat.exists_eq_add_of_le (Nat.succ_le_of_lt h)
  induction m generalizing i with
  | zero =>
    rw [firstFrom_step _ h]
    cases hany : (F.getD i []).any cls.test with
    | true =>
      refine .inr ⟨i, [], rfl, ?_, by simp, ?_⟩
      · rw [textAt_last (by omega), List.append_nil]
      · rw [textAt_last (by omega), List.append_nil]
    | false =>
      refine .inl ⟨?_, ?_⟩
      · rw [if_neg Bool.false_ne_true, firstFrom_of_length_le _ (by omega)]
      · have hdrop := dropWhile_append_of_not_any hany []
        rwa [List.append_nil, List.dropWhile_nil, ← @textAt_last sep F i (by omega)] at hdrop
  | succ m ih =>
    have hlt : i + 1 < F.length := by omega
    rw [firstFrom_step _ h, textAt_cons hlt]
    cases hany : (F.getD i []).any cls.test with
    | true =>
      refine .inr ⟨i, sep :: textAt sep F (i + 1), rfl, textAt_cons hlt, by simp, ?_⟩
      exact dropWhile_append_of_any hany _
    | false =>
      rw [if_neg Bool.false_ne_true, dropWhile_append_of_not_any hany,
        List.dropWhile_cons_of_pos (by simp [hsep])]
      exact ih hlt (by omega)

/-- A pattern that begins with a captured run takes the first run of the record. -/
theorem captures_firstMatch (hF : ∀ f ∈ F, sep ∉ f) (hsep : cls.test sep = false)
    (p : List Item) (h : 0 < F.length) :
    (firstMatch (captureRun cls sep ++ p) (textAt sep F 0)).map captures =
      (firstFrom (·.any cls.test) F 0).bind fun j =>
        ((afterGap sep (matchItems p) (textAt sep F j)).map captures).map
          (((F.getD j []).dropWhile fun c => !cls.test c).takeWhile cls.test :: ·) := by
  rw [firstMatch_captureRun hsep, matchItems_captureRun hsep]
  rcases dropWhile_textAt hsep h with ⟨hnone, hdrop⟩ | ⟨j, t, hsome, ht, hhead, hdrop⟩
  · rw [hnone, hdrop]
    rfl
  · rw [hsome, hdrop, Option.bind_some]
    obtain ⟨c, s, hd, hc⟩ := dropWhile_eq_cons_of_any (firstFrom_eq_some_iff.1 hsome).2.1
    have hsub : sep ∉ c :: s := by
      rw [← hd]
      exact fun hmem => sep_notMem hF j ((List.dropWhile_suffix _).subset hmem)
    rw [hd, if_pos (show begins cls (c :: s ++ t) = true from hc), ht, afterGap, afterGap,
      restsAfter_append hsub, restsAfter_append (sep_notMem hF j), Option.map_map, Option.map_map]
    congr 1
    funext marks
    rw [Function.comp_apply, captures_run, takeWhile_append_sep hsep hhead, Function.comp_apply]

end

end LuaPattern
