import Mathlib.Data.List.FinRange
import TelecomSuite.Lib.Iterators

/-!
# The merging iterator

`table/merger.cc`. The children go over sorted lists, and the merging iterator goes over all their
entries in order (`merging_over`). What the code relies on is `Ready`: while an iterator moves one
way, each child but the current one is at its first entry that comes, on this way, behind the
current entry. When the way changes, the other children are placed anew. For one child and for none
`NewMergingIterator` makes no merging iterator, and what it makes shows the same
(`newMergingIterator_entry`).
-/

universe u

namespace TelecomSuite.LevelDb

open Iterators

/-- The way an iterator moved last. -/
inductive Direction where
  | forward
  | reverse
deriving DecidableEq

/-- `MergingIterator`, over the states of its children. -/
structure MergingIterator {n : ℕ} (σ : Fin n → Type*) where
  children : ∀ i, σ i
  current : Option (Fin n)
  direction : Direction

namespace MergingIterator

variable {K V : Type*} {n : ℕ} {σ : Fin n → Type*}

section
variable (cmp : K → K → Ordering) (its : ∀ i, Iterator K V (σ i))

/-- One round of the loops of `FindSmallest` and `FindLargest`. A child takes the place of the one
that was found when their keys compare like this. -/
def better (o : Ordering) (entries : Fin n → Option (K × V)) (found : Option (Fin n)) (i : Fin n) :
    Option (Fin n) :=
  match entries i with
  | none => found
  | some a =>
    match found.bind entries with
    | none => some i
    | some b => if cmp a.1 b.1 = o then some i else found

/-- `FindSmallest`. -/
def findSmallest (entries : Fin n → Option (K × V)) : Option (Fin n) :=
  (List.finRange n).foldl (better cmp .lt entries) none

/-- `FindLargest`, from the last child on. -/
def findLargest (entries : Fin n → Option (K × V)) : Option (Fin n) :=
  (List.finRange n).reverse.foldl (better cmp .gt entries) none

/-- The constructor. -/
def new (children : ∀ i, σ i) : MergingIterator σ := ⟨children, none, .forward⟩

/-- `key` and `value`. -/
def entry (s : MergingIterator σ) : Option (K × V) :=
  s.current.bind fun j => (its j).entry (s.children j)

/-- The entries that the children are at. -/
def entries (children : ∀ i, σ i) (i : Fin n) : Option (K × V) := (its i).entry (children i)

/-- `SeekToFirst`. -/
def seekToFirst (s : MergingIterator σ) : MergingIterator σ :=
  let children := fun i => (its i).seekToFirst (s.children i)
  ⟨children, findSmallest cmp (entries its children), .forward⟩

/-- `SeekToLast`. -/
def seekToLast (s : MergingIterator σ) : MergingIterator σ :=
  let children := fun i => (its i).seekToLast (s.children i)
  ⟨children, findLargest cmp (entries its children), .reverse⟩

/-- `Seek`. -/
def seek (target : K) (s : MergingIterator σ) : MergingIterator σ :=
  let children := fun i => (its i).seek target (s.children i)
  ⟨children, findSmallest cmp (entries its children), .forward⟩

/-- `Next` with the other way before: a child is placed behind the key. -/
def after (key : K) (i : Fin n) (c : σ i) : σ i :=
  let child := (its i).seek key c
  match (its i).entry child with
  | some b => if cmp key b.1 = .eq then (its i).next child else child
  | none => child

/-- `Prev` with the other way before: a child is placed before the key. -/
def before (key : K) (i : Fin n) (c : σ i) : σ i :=
  let child := (its i).seek key c
  match (its i).entry child with
  | some _ => (its i).prev child
  | none => (its i).seekToLast child

/-- The children but the current one are placed anew. -/
def turn (place : ∀ i, σ i → σ i) (j : Fin n) (children : ∀ i, σ i) : ∀ i, σ i :=
  fun i => if i = j then children i else place i (children i)

/-- `Next`. The children are placed anew if the way was the other one. -/
def next (s : MergingIterator σ) : MergingIterator σ :=
  match s.current, s.entry its with
  | some j, some a =>
    let children :=
      if s.direction = .forward then s.children else turn (after cmp its a.1) j s.children
    let children := Function.update children j ((its j).next (children j))
    ⟨children, findSmallest cmp (entries its children), .forward⟩
  | _, _ => s

/-- `Prev`. The children are placed anew if the way was the other one. -/
def prev (s : MergingIterator σ) : MergingIterator σ :=
  match s.current, s.entry its with
  | some j, some a =>
    let children :=
      if s.direction = .reverse then s.children else turn (before its a.1) j s.children
    let children := Function.update children j ((its j).prev (children j))
    ⟨children, findLargest cmp (entries its children), .reverse⟩
  | _, _ => s

/-- `MergingIterator` as an iterator. -/
def merging : Iterator K V (MergingIterator σ) where
  entry := entry its
  seekToFirst := seekToFirst cmp its
  seekToLast := seekToLast cmp its
  seek := seek cmp its
  next := next cmp its
  prev := prev cmp its

end

/-! ## The child that is found -/

section
variable {cmp : K → K → Ordering} {entries : Fin n → Option (K × V)} {found : Option (Fin n)}
  {seen : List (Fin n)}

/-- Of the children that were looked at, the one with the least key was found. -/
def Best (cmp : K → K → Ordering) (entries : Fin n → Option (K × V)) (seen : List (Fin n)) :
    Option (Fin n) → Prop
  | none => ∀ i ∈ seen, entries i = none
  | some j => ∃ a, entries j = some a ∧
      ∀ i ∈ seen, ∀ b, entries i = some b → (cmp a.1 b.1).isLE

/-- One more child is looked at. -/
theorem Best.better [Std.TransCmp cmp] (h : Best cmp entries seen found) (i : Fin n) :
    Best cmp entries (i :: seen) (better cmp .lt entries found i) := by
  rw [MergingIterator.better]
  cases hi : entries i with
  | none =>
    dsimp only
    cases found with
    | none => exact List.forall_mem_cons.2 ⟨hi, h⟩
    | some j =>
      obtain ⟨a, ha, hleast⟩ := h
      refine ⟨a, ha, List.forall_mem_cons.2 ⟨fun b hb => ?_, hleast⟩⟩
      rw [hi] at hb
      cases hb
  | some a =>
    dsimp only
    have hself (b : K × V) (hb : entries i = some b) : (cmp a.1 b.1).isLE := by
      obtain rfl : a = b := Option.some.inj (hi.symm.trans hb)
      exact Std.ReflCmp.isLE_rfl
    cases found with
    | none =>
      refine ⟨a, hi, List.forall_mem_cons.2 ⟨hself, fun x hx b hb => ?_⟩⟩
      rw [h x hx] at hb
      cases hb
    | some j =>
      obtain ⟨c, hc, hleast⟩ := h
      rw [Option.bind_some, hc]
      dsimp only
      split_ifs with hlt
      · refine ⟨a, hi, List.forall_mem_cons.2 ⟨hself, fun x hx b hb => ?_⟩⟩
        exact Ordering.isLE_of_eq_lt (Std.TransCmp.lt_of_lt_of_isLE hlt (hleast x hx b hb))
      · refine ⟨c, hc, List.forall_mem_cons.2 ⟨fun b hb => ?_, hleast⟩⟩
        obtain rfl : a = b := Option.some.inj (hi.symm.trans hb)
        by_contra hgt
        exact hlt (Std.OrientedCmp.lt_of_not_isLE hgt)

/-- Several children are looked at. -/
theorem Best.foldl [Std.TransCmp cmp] (h : Best cmp entries seen found) (is : List (Fin n)) :
    Best cmp entries (is.reverse ++ seen)
      (is.foldl (MergingIterator.better cmp .lt entries) found) := by
  induction is generalizing seen found with
  | nil => exact h
  | cons i is ih =>
    rw [List.reverse_cons, List.append_assoc]
    exact ih (h.better i)

/-- What is best of many is best of some. -/
theorem Best.of_subset {seen' : List (Fin n)} (h : Best cmp entries seen found)
    (hsubset : ∀ i ∈ seen', i ∈ seen) : Best cmp entries seen' found := by
  cases found with
  | none => exact fun i hi => h i (hsubset i hi)
  | some j =>
    obtain ⟨a, ha, hleast⟩ := h
    exact ⟨a, ha, fun i hi => hleast i (hsubset i hi)⟩

/-- Looking for the largest is looking for the smallest in the other order. -/
theorem better_gt [Std.OrientedCmp cmp] :
    better cmp .gt entries = better (fun k k' => cmp k' k) .lt entries := by
  have hgt (k k' : K) : cmp k k' = .gt ↔ cmp k' k = .lt := Std.OrientedCmp.gt_iff_lt
  funext found i
  simp only [better, hgt]

end

/-! ## The way it moves -/

end MergingIterator

namespace Direction

variable {K V α : Type*} {n : ℕ} {cmp : K → K → Ordering} {l : List (K × V)}

/-- The order in which the keys come. -/
def order (cmp : K → K → Ordering) : Direction → K → K → Ordering
  | forward => cmp
  | reverse => fun k k' => cmp k' k

/-- The entries in the order in which they come. -/
def list (l : List α) : Direction → List α
  | forward => l
  | reverse => l.reverse

/-- The child whose entry comes first. -/
def find (cmp : K → K → Ordering) (entries : Fin n → Option (K × V)) :
    Direction → Option (Fin n)
  | forward => MergingIterator.findSmallest cmp entries
  | reverse => MergingIterator.findLargest cmp entries

/-- Backwards the order is one too. -/
instance [Std.TransCmp cmp] (d : Direction) : Std.TransCmp (d.order cmp) := by
  cases d with
  | forward => exact inferInstanceAs (Std.TransCmp cmp)
  | reverse => exact inferInstanceAs (Std.TransCmp fun k k' => cmp k' k)

/-- The entries come in order. -/
theorem sorted (h : Sorted cmp l) (d : Direction) : Sorted (d.order cmp) (d.list l) := by
  cases d with
  | forward => exact h
  | reverse => exact h.reverse

/-- Backwards the same entries come. -/
@[simp] theorem mem_list (d : Direction) {a : α} {as : List α} : a ∈ d.list as ↔ a ∈ as := by
  cases d with
  | forward => exact Iff.rfl
  | reverse => exact List.mem_reverse

/-- The child that is found has the entry that comes first. -/
theorem find_best [Std.TransCmp cmp] (entries : Fin n → Option (K × V)) (d : Direction) :
    MergingIterator.Best (d.order cmp) entries (List.finRange n) (d.find cmp entries) := by
  have hnone (cmp : K → K → Ordering) : MergingIterator.Best cmp entries [] none :=
    fun i hi => absurd hi List.not_mem_nil
  cases d with
  | forward =>
    refine ((hnone cmp).foldl (List.finRange n)).of_subset fun i hi => ?_
    rwa [List.append_nil, List.mem_reverse]
  | reverse =>
    have hbest := (hnone fun k k' => cmp k' k).foldl (List.finRange n).reverse
    rw [← MergingIterator.better_gt] at hbest
    refine hbest.of_subset fun i hi => ?_
    rwa [List.append_nil, List.reverse_reverse]

end Direction

namespace MergingIterator

variable {K V : Type*} {n : ℕ} {σ : Fin n → Type*} {cmp : K → K → Ordering} {target : K → Prop}
  {its : ∀ i, Iterator K V (σ i)} {ls : Fin n → List (K × V)} {states : ∀ i, σ i → Prop}
  {l : List (K × V)} {s : MergingIterator σ} {a b : K × V} {i j : Fin n}

/-! ## The lists and their union -/

/-- All the entries in order. No key is in two of the lists. -/
structure Merged (cmp : K → K → Ordering) (ls : Fin n → List (K × V)) (l : List (K × V)) :
    Prop where
  sorted : Sorted cmp l
  perm : l.Perm ((List.finRange n).flatMap ls)

/-- An entry is one of a child. -/
theorem Merged.mem_iff (h : Merged cmp ls l) : a ∈ l ↔ ∃ i, a ∈ ls i := by
  rw [h.perm.mem_iff, List.mem_flatMap]
  exact exists_congr fun i => and_iff_right (List.mem_finRange i)

/-- The entries of two children have different keys. -/
theorem Merged.apart [Std.OrientedCmp cmp] (h : Merged cmp ls l) (hne : i ≠ j) (ha : a ∈ ls i)
    (hb : b ∈ ls j) : cmp a.1 b.1 ≠ .eq := by
  have hsymm : Std.Symm fun a b : K × V => cmp a.1 b.1 ≠ .eq :=
    ⟨fun _ _ hab hba => hab (Std.OrientedCmp.eq_symm hba)⟩
  have happart : l.Pairwise fun a b => cmp a.1 b.1 ≠ .eq := h.sorted.imp fun hlt heq => by
    rw [hlt] at heq
    cases heq
  rw [h.perm.pairwise_iff fun {a b} => hsymm.symm a b, List.pairwise_flatMap] at happart
  have hsymm' : Std.Symm fun i j => ∀ a ∈ ls i, ∀ b ∈ ls j, cmp a.1 b.1 ≠ .eq :=
    ⟨fun _ _ hij a ha b hb => hsymm.symm b a (hij b hb a ha)⟩
  exact happart.2.forall (List.mem_finRange i) (List.mem_finRange j) hne a ha b hb

/-! ## One move -/

/-- The current child is at the current entry, and each other one at its first entry that comes
behind it. -/
structure Ready (cmp : K → K → Ordering) (its : ∀ i, Iterator K V (σ i))
    (ls : Fin n → List (K × V)) (states : ∀ i, σ i → Prop) (s : MergingIterator σ) : Prop where
  states : ∀ i, states i (s.children i)
  current : ∀ j, s.current = some j → ∃ a ∈ ls j, (its j).entry (s.children j) = some a ∧
    ∀ i ≠ j, (its i).entry (s.children i) =
      (s.direction.list (ls i)).find? fun b => s.direction.order cmp a.1 b.1 = .lt

/-- Each child is at its first entry with a property that all later entries have. Then so is the
merging iterator. -/
theorem ready_find [Std.TransCmp cmp] (hover : ∀ i, Over cmp target (its i) (ls i) (states i))
    (hl : Merged cmp ls l) {children : ∀ i, σ i} (hstates : ∀ i, states i (children i))
    (d : Direction) (p : K × V → Bool) (hp : ∀ a b, d.order cmp a.1 b.1 = .lt → p a → p b)
    (hentries : ∀ i, (its i).entry (children i) = (d.list (ls i)).find? p) :
    Ready cmp its ls states ⟨children, d.find cmp (entries its children), d⟩ ∧
      entry its ⟨children, d.find cmp (entries its children), d⟩ = (d.list l).find? p := by
  have hbest : Best (d.order cmp) (entries its children) (List.finRange n)
      (d.find cmp (entries its children)) := d.find_best _
  rw [entry]
  cases hfound : d.find cmp (entries its children) with
  | none =>
    rw [hfound] at hbest
    refine ⟨⟨hstates, fun j hj => by cases hj⟩, ?_⟩
    refine (List.find?_eq_none.2 fun b hb hpb => ?_).symm
    obtain ⟨i, hi⟩ := hl.mem_iff.1 (d.mem_list.1 hb)
    have hnone := hbest i (List.mem_finRange i)
    rw [entries, hentries, List.find?_eq_none] at hnone
    exact hnone b (d.mem_list.2 hi) hpb
  | some j =>
    rw [hfound] at hbest
    obtain ⟨a, ha, hleast⟩ := hbest
    have hfirst := ha
    rw [entries, hentries, find?_eq_some_iff_least (d.sorted (hover j).sorted)] at hfirst
    obtain ⟨haj, hpa, hbehind⟩ := hfirst
    have haj' : a ∈ ls j := d.mem_list.1 haj
    -- Of what another child has, the entries with the property are those behind the current one.
    have hother (i : Fin n) (hi : i ≠ j) (b : K × V) (hb : b ∈ ls i) :
        p b = true ↔ d.order cmp a.1 b.1 = .lt := by
      refine ⟨fun hpb => ?_, fun hlt => hp a b hlt hpa⟩
      cases hc : (its i).entry (children i) with
      | none =>
        rw [hentries, List.find?_eq_none] at hc
        exact absurd hpb (hc b (d.mem_list.2 hb))
      | some c =>
        have hac : (d.order cmp a.1 c.1).isLE := hleast i (List.mem_finRange i) c hc
        rw [hentries, find?_eq_some_iff_least (d.sorted (hover i).sorted)] at hc
        obtain ⟨hci, -, hcleast⟩ := hc
        have hab : (d.order cmp a.1 b.1).isLE := by
          rcases hcleast b (d.mem_list.2 hb) hpb with rfl | hlt
          · exact hac
          · exact Std.TransCmp.isLE_trans hac (Ordering.isLE_of_eq_lt hlt)
        have hne : d.order cmp a.1 b.1 ≠ .eq := by
          cases d with
          | forward => exact hl.apart (Ne.symm hi) haj' hb
          | reverse => exact hl.apart hi hb haj'
        exact (Ordering.isLE_iff_eq_lt_or_eq_eq.1 hab).resolve_right hne
    refine ⟨⟨hstates, fun j' hj' => ?_⟩, ?_⟩
    · obtain rfl : j = j' := Option.some.inj hj'
      refine ⟨a, haj', ha, fun i hi => (hentries i).trans (find?_congr fun b hb => ?_)⟩
      rw [Bool.eq_iff_iff, hother i hi b (d.mem_list.1 hb), decide_eq_true_iff]
    · refine ha.trans (((find?_eq_some_iff_least (d.sorted hl.sorted)).2
        ⟨d.mem_list.2 (hl.mem_iff.2 ⟨j, haj'⟩), hpa, fun b hb hpb => ?_⟩).symm)
      obtain ⟨i, hi⟩ := hl.mem_iff.1 (d.mem_list.1 hb)
      by_cases hij : i = j
      · subst hij
        exact hbehind b (d.mem_list.2 hi) hpb
      · exact Or.inr ((hother i hij b hi).1 hpb)

/-- The current child stays. -/
theorem turn_self (place : ∀ i, σ i → σ i) (j : Fin n) (children : ∀ i, σ i) :
    turn place j children j = children j := if_pos rfl

/-- Another child is placed anew. -/
theorem turn_of_ne (place : ∀ i, σ i → σ i) (children : ∀ i, σ i) (hi : i ≠ j) :
    turn place j children i = place i (children i) := if_neg hi

/-- A child is placed at its first entry behind the key. -/
theorem after_spec [Std.TransCmp cmp] (h : Over cmp target (its i) (ls i) (states i)) {c : σ i}
    {key : K} (hc : states i c) (hkey : target key) (hapart : ∀ b ∈ ls i, cmp key b.1 ≠ .eq) :
    states i (after cmp its key i c) ∧ (its i).entry (after cmp its key i c) =
      (ls i).find? fun b => cmp key b.1 = .lt := by
  obtain ⟨hstates, hentry⟩ := h.move (.seek key) c hc hkey
  change states i ((its i).seek key c) at hstates
  change (its i).entry ((its i).seek key c) = (ls i).find? fun b => (cmp key b.1).isLE at hentry
  have hafter : after cmp its key i c = (its i).seek key c := by
    cases hb : (its i).entry ((its i).seek key c) with
    | none => simp only [after, hb]
    | some b =>
      have hmem : b ∈ ls i := List.mem_of_find?_eq_some (hentry.symm.trans hb)
      simp only [after, hb, if_neg (hapart b hmem)]
  rw [hafter]
  refine ⟨hstates, hentry.trans (find?_congr fun b hb => ?_)⟩
  rw [Bool.eq_iff_iff, decide_eq_true_iff]
  exact ⟨fun hle => (Ordering.isLE_iff_eq_lt_or_eq_eq.1 hle).resolve_right (hapart b hb),
    Ordering.isLE_of_eq_lt⟩

/-- A child is placed at its last entry before the key. -/
theorem before_spec [Std.TransCmp cmp] (h : Over cmp target (its i) (ls i) (states i)) {c : σ i}
    {key : K} (hc : states i c) (hkey : target key) :
    states i (before its key i c) ∧ (its i).entry (before its key i c) =
      (ls i).reverse.find? fun b => cmp b.1 key = .lt := by
  obtain ⟨hstates, hentry⟩ := h.move (.seek key) c hc hkey
  change states i ((its i).seek key c) at hstates
  change (its i).entry ((its i).seek key c) = (ls i).find? fun b => (cmp key b.1).isLE at hentry
  cases hb : (its i).entry ((its i).seek key c) with
  | some b =>
    have hbefore : before its key i c = (its i).prev ((its i).seek key c) := by
      simp only [before, hb]
    rw [hb] at hentry
    obtain ⟨-, hle, hleast⟩ := (find?_eq_some_iff_least h.sorted).1 hentry.symm
    have hprev := h.move .prev _ hstates (by rw [hb]; exact rfl)
    rw [hb] at hprev
    rw [hbefore]
    refine ⟨hprev.1, hprev.2.trans (find?_congr fun x hx => ?_)⟩
    rw [decide_eq_decide]
    refine ⟨fun hlt => ?_, fun hlt => Std.TransCmp.lt_of_lt_of_isLE hlt hle⟩
    refine Std.OrientedCmp.lt_of_not_isLE fun hkeyle => ?_
    rcases hleast x (List.mem_reverse.1 hx) hkeyle with rfl | hgt
    · exact Std.OrientedCmp.not_lt_of_lt hlt hlt
    · exact Std.OrientedCmp.not_lt_of_lt hlt hgt
  | none =>
    have hbefore : before its key i c = (its i).seekToLast ((its i).seek key c) := by
      simp only [before, hb]
    rw [hb] at hentry
    have hlast := h.move .seekToLast _ hstates trivial
    rw [hbefore]
    refine ⟨hlast.1, hlast.2.trans ?_⟩
    rw [Move.place, ← List.head?_reverse, find?_eq_head? fun x hx => ?_]
    have hnot := List.find?_eq_none.1 hentry.symm x (List.mem_reverse.1 hx)
    exact decide_eq_true (Std.OrientedCmp.lt_of_not_isLE hnot)

/-- The current child moves on, and the others are at what comes behind the current entry. -/
theorem ready_step [Std.TransCmp cmp] (hover : ∀ i, Over cmp target (its i) (ls i) (states i))
    (hl : Merged cmp ls l) (d : Direction) (a : K × V) {children : ∀ i, σ i} {c : σ j}
    (hstates : ∀ i ≠ j, states i (children i)) (hc : states j c)
    (hothers : ∀ i ≠ j, (its i).entry (children i) =
      (d.list (ls i)).find? fun b => d.order cmp a.1 b.1 = .lt)
    (hentry : (its j).entry c = (d.list (ls j)).find? fun b => d.order cmp a.1 b.1 = .lt) :
    let s : MergingIterator σ := ⟨Function.update children j c,
      d.find cmp (entries its (Function.update children j c)), d⟩
    Ready cmp its ls states s ∧
      entry its s = (d.list l).find? fun b => d.order cmp a.1 b.1 = .lt := by
  refine ready_find hover hl (fun i => ?_) d _ (fun x y hxy hx => ?_) fun i => ?_
  · by_cases hi : i = j
    · subst hi
      rwa [Function.update_self]
    · rw [Function.update_of_ne hi]
      exact hstates i hi
  · exact decide_eq_true (Std.TransCmp.lt_trans (of_decide_eq_true hx) hxy)
  · by_cases hi : i = j
    · subst hi
      rwa [Function.update_self]
    · rw [Function.update_of_ne hi]
      exact hothers i hi

/-- `Next` goes to the entry behind the current one, whichever way was gone before. -/
theorem next_spec [Std.TransCmp cmp] (hover : ∀ i, Over cmp target (its i) (ls i) (states i))
    (hl : Merged cmp ls l) (hs : Ready cmp its ls states s) (ha : entry its s = some a) :
    Ready cmp its ls states (next cmp its s) ∧
      entry its (next cmp its s) = l.find? fun b => cmp a.1 b.1 = .lt := by
  obtain ⟨j, hj, haj⟩ := Option.bind_eq_some_iff.1 ha
  obtain ⟨a', hmem, ha', hothers⟩ := hs.current j hj
  obtain rfl : a' = a := Option.some.inj (ha'.symm.trans haj)
  have hnext := (hover j).move .next _ (hs.states j) (by rw [haj]; exact rfl)
  rw [haj] at hnext
  cases hd : s.direction with
  | forward =>
    rw [hd] at hothers
    simp only [next, hj, ha, hd, if_true]
    exact ready_step hover hl .forward a' (fun i _ => hs.states i) hnext.1 hothers hnext.2
  | reverse =>
    have hafter (i : Fin n) (hi : i ≠ j) := after_spec (hover i) (hs.states i)
      ((hover j).targets a' hmem) fun b hb => hl.apart (Ne.symm hi) hmem hb
    simp only [next, hj, ha, hd, reduceCtorEq, if_false, turn_self]
    refine ready_step hover hl .forward a' (fun i hi => ?_) hnext.1 (fun i hi => ?_) hnext.2
    · rw [turn_of_ne _ _ hi]
      exact (hafter i hi).1
    · rw [turn_of_ne _ _ hi]
      exact (hafter i hi).2

/-- `Prev` goes to the entry before the current one, whichever way was gone before. -/
theorem prev_spec [Std.TransCmp cmp] (hover : ∀ i, Over cmp target (its i) (ls i) (states i))
    (hl : Merged cmp ls l) (hs : Ready cmp its ls states s) (ha : entry its s = some a) :
    Ready cmp its ls states (prev cmp its s) ∧
      entry its (prev cmp its s) = l.reverse.find? fun b => cmp b.1 a.1 = .lt := by
  obtain ⟨j, hj, haj⟩ := Option.bind_eq_some_iff.1 ha
  obtain ⟨a', hmem, ha', hothers⟩ := hs.current j hj
  obtain rfl : a' = a := Option.some.inj (ha'.symm.trans haj)
  have hprev := (hover j).move .prev _ (hs.states j) (by rw [haj]; exact rfl)
  rw [haj] at hprev
  cases hd : s.direction with
  | reverse =>
    rw [hd] at hothers
    simp only [prev, hj, ha, hd, if_true]
    exact ready_step hover hl .reverse a' (fun i _ => hs.states i) hprev.1 hothers hprev.2
  | forward =>
    have hbefore (i : Fin n) :=
      before_spec (hover i) (hs.states i) ((hover j).targets a' hmem)
    simp only [prev, hj, ha, hd, reduceCtorEq, if_false, turn_self]
    refine ready_step hover hl .reverse a' (fun i hi => ?_) hprev.1 (fun i hi => ?_) hprev.2
    · rw [turn_of_ne _ _ hi]
      exact (hbefore i).1
    · rw [turn_of_ne _ _ hi]
      exact (hbefore i).2

/-- **The merging iterator.** It goes over all the entries of its children in order. -/
theorem merging_over [Std.TransCmp cmp] (hover : ∀ i, Over cmp target (its i) (ls i) (states i))
    (hl : Merged cmp ls l) : Over cmp target (merging cmp its) l (Ready cmp its ls states) where
  sorted := hl.sorted
  targets a ha := by
    obtain ⟨i, hi⟩ := hl.mem_iff.1 ha
    exact (hover i).targets a hi
  move m s hs hallowed := by
    cases m with
    | seekToFirst =>
      have hmove (i : Fin n) := (hover i).move .seekToFirst _ (hs.states i) trivial
      have hready := ready_find hover hl (fun i => (hmove i).1) .forward (fun _ => true)
        (fun _ _ _ _ => rfl) fun i => (hmove i).2.trans (find?_eq_head? fun _ _ => rfl).symm
      exact ⟨hready.1, hready.2.trans (find?_eq_head? fun _ _ => rfl)⟩
    | seekToLast =>
      have hmove (i : Fin n) := (hover i).move .seekToLast _ (hs.states i) trivial
      have hready := ready_find hover hl (fun i => (hmove i).1) .reverse (fun _ => true)
        (fun _ _ _ _ => rfl) fun i => (hmove i).2.trans
          (List.head?_reverse.symm.trans (find?_eq_head? fun _ _ => rfl).symm)
      exact ⟨hready.1, hready.2.trans ((find?_eq_head? fun _ _ => rfl).trans List.head?_reverse)⟩
    | seek key =>
      have hmove (i : Fin n) := (hover i).move (.seek key) _ (hs.states i) hallowed
      exact ready_find hover hl (fun i => (hmove i).1) .forward (fun b => (cmp key b.1).isLE)
        (fun x y hxy hx => Std.TransCmp.isLE_trans hx (Ordering.isLE_of_eq_lt hxy))
        fun i => (hmove i).2
    | next =>
      obtain ⟨a, ha⟩ := Option.isSome_iff_exists.1 hallowed
      change entry its s = some a at ha
      have hnext := next_spec hover hl hs ha
      refine ⟨hnext.1, hnext.2.trans ?_⟩
      rw [show (merging cmp its).entry s = some a from ha]
      rfl
    | prev =>
      obtain ⟨a, ha⟩ := Option.isSome_iff_exists.1 hallowed
      change entry its s = some a at ha
      have hprev := prev_spec hover hl hs ha
      refine ⟨hprev.1, hprev.2.trans ?_⟩
      rw [show (merging cmp its).entry s = some a from ha]
      rfl

/-- A new merging iterator is at no entry. -/
theorem new_ready {children : ∀ i, σ i} (h : ∀ i, states i (children i)) :
    Ready cmp its ls states (new children) :=
  ⟨h, fun j hj => by cases hj⟩

end MergingIterator

/-! ## One child or none -/

section
variable {K V : Type*} {n : ℕ} {σ : Fin n → Type u} {cmp : K → K → Ordering} {target : K → Prop}
  {its : ∀ i, Iterator K V (σ i)} {ls : Fin n → List (K × V)} {states : ∀ i, σ i → Prop}
  {l : List (K × V)} {children : ∀ i, σ i}

/-- `NewEmptyIterator`, which is never placed at an entry. -/
def newEmptyIterator : Iterator K V PUnit where
  entry _ := none
  seekToFirst := id
  seekToLast := id
  seek _ := id
  next := id
  prev := id

/-- The state of what `NewMergingIterator` returns. -/
def MergedState : {n : ℕ} → (Fin n → Type u) → Type u
  | 0, _ => PUnit
  | 1, σ => σ 0
  | _ + 2, σ => MergingIterator σ

/-- `NewMergingIterator`. One child is not merged with others. -/
def newMergingIterator (cmp : K → K → Ordering) :
    {n : ℕ} → {σ : Fin n → Type u} → (∀ i, Iterator K V (σ i)) → Iterator K V (MergedState σ)
  | 0, _, _ => newEmptyIterator
  | 1, _, its => its 0
  | _ + 2, _, its => MergingIterator.merging cmp its

/-- The state that it begins in. -/
def MergedState.new : {n : ℕ} → {σ : Fin n → Type u} → (∀ i, σ i) → MergedState σ
  | 0, _, _ => ⟨⟩
  | 1, _, children => children 0
  | _ + 2, _, children => MergingIterator.new children

/-- An iterator that is never placed goes over no entries. -/
theorem newEmptyIterator_over (cmp : K → K → Ordering) (target : K → Prop) :
    Over cmp target (newEmptyIterator : Iterator K V PUnit) [] fun _ => True where
  sorted := .nil
  targets a ha := absurd ha List.not_mem_nil
  move m s _ hallowed := by
    refine ⟨trivial, ?_⟩
    cases m with
    | next | prev => cases hallowed
    | _ => rfl

/-- However many children there are, all their entries are gone over in order. -/
theorem newMergingIterator_over [Std.TransCmp cmp]
    (hover : ∀ i, Over cmp target (its i) (ls i) (states i)) (hl : MergingIterator.Merged cmp ls l)
    (hchildren : ∀ i, states i (children i)) :
    ∃ states, states (MergedState.new children) ∧
      Over cmp target (newMergingIterator cmp its) l states := by
  match n with
  | 0 =>
    obtain rfl : l = [] := List.perm_nil.1 hl.perm
    exact ⟨_, trivial, newEmptyIterator_over cmp target⟩
  | 1 =>
    have hperm : l.Perm (ls 0) := by
      have hflat : (List.finRange 1).flatMap ls = ls 0 := List.append_nil _
      exact hflat ▸ hl.perm
    have hanti : ∀ a b : K × V, cmp a.1 b.1 = .lt → cmp b.1 a.1 = .lt → a = b :=
      fun a b hab hba => absurd hba (Std.OrientedCmp.not_lt_of_lt hab)
    obtain rfl : l = ls 0 :=
      hperm.eq_of_pairwise (fun a b _ _ => hanti a b) hl.sorted (hover 0).sorted
    exact ⟨states 0, hchildren 0, hover 0⟩
  | _ + 2 =>
    exact ⟨_, MergingIterator.new_ready hchildren, MergingIterator.merging_over hover hl⟩

/-- A child that is not merged, or none, shows what the merging iterator shows. -/
theorem newMergingIterator_entry [Std.TransCmp cmp]
    (hover : ∀ i, Over cmp target (its i) (ls i) (states i)) (hl : MergingIterator.Merged cmp ls l)
    (hchildren : ∀ i, states i (children i)) (hnone : ∀ i, (its i).entry (children i) = none)
    {moves : List (Move K)} (hallowed : AllowedRun cmp target l moves none) :
    (newMergingIterator cmp its).entry
        (moves.foldl (fun s m => (newMergingIterator cmp its).move m s) (.new children)) =
      (MergingIterator.merging cmp its).entry
        (moves.foldl (fun s m => (MergingIterator.merging cmp its).move m s) (.new children)) := by
  have hmerging := (MergingIterator.merging_over hover hl).run
    (MergingIterator.new_ready hchildren) hallowed
  obtain ⟨states', hstart, hover'⟩ := newMergingIterator_over hover hl hchildren
  have hentry : (newMergingIterator cmp its).entry (.new children) = none := by
    match n with
    | 0 => rfl
    | 1 => exact hnone 0
    | _ + 2 => rfl
  have hnew := hover'.run hstart (hentry.symm ▸ hallowed)
  rw [hnew, hmerging, hentry]
  rfl

end

end TelecomSuite.LevelDb
