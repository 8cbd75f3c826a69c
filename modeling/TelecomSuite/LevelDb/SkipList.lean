import Mathlib.Data.List.GetD
import Mathlib.Data.List.Sort
import Mathlib.Data.List.TakeWhile
import Mathlib.Data.Nat.Bitwise
import TelecomSuite.Lib.Linked

/-!
# The skip list

`db/skiplist.h`. A node has a link at each level below its height, which is drawn at random, and the
list at a level leads over the nodes that are higher. `Represents` says so for a list in memory;
every search ends with the nodes before a place, one at each level (`walk_spec`), and an insertion
links the new node in behind them (`insert_spec`).
-/

namespace TelecomSuite.LevelDb

open Links

/-- `kMaxHeight`. -/
def kMaxHeight : ℕ := 12

/-- The nodes of a list. The head is node 0, the keys are those of the nodes from 1 on, and
`next level x` is the link of `x` at a level. `rnd` is the state of the random numbers. -/
structure SkipList (α : Type*) where
  keys : List α
  next : ℕ → ℕ → Option ℕ
  maxHeight : ℕ
  rnd : ℕ

namespace SkipList

variable {α : Type*}

/-- `Random::Next`. -/
def nextRandom (seed : ℕ) : ℕ :=
  let product := seed * 16807
  let seed := ((product >>> 31) + (product &&& 2147483647)) % 2 ^ 32
  if 2147483647 < seed then seed - 2147483647 else seed

/-- The loop of `RandomHeight`, which can still go up by `left`. -/
def randomHeightFrom : ℕ → ℕ → ℕ → ℕ × ℕ
  | 0, height, rnd => (height, rnd)
  | left + 1, height, rnd =>
    if nextRandom rnd % 4 = 0 then randomHeightFrom left (height + 1) (nextRandom rnd)
    else (height, nextRandom rnd)

/-- `RandomHeight`, with the random number behind it. -/
def randomHeight (rnd : ℕ) : ℕ × ℕ := randomHeightFrom (kMaxHeight - 1) 1 rnd

/-- A new list: the head, and nothing behind it. -/
def empty : SkipList α where
  keys := []
  next := fun _ _ => none
  maxHeight := 1
  rnd := 0xdeadbeef &&& 0x7fffffff

/-- The key of a node. The head has none. -/
def key (l : SkipList α) : ℕ → Option α
  | 0 => none
  | x + 1 => l.keys[x]?

/-- `KeyIsAfterNode`. -/
def keyIsAfterNode (cmp : α → α → Ordering) (l : SkipList α) (key : α) (n : ℕ) : Bool :=
  (l.key n).any fun k => cmp k key = .lt

/-- The loop of the three searches: it follows the links to nodes that satisfy `goesOn` and ends
with the nodes where it went down, the lowest level first. -/
def walk (l : SkipList α) (goesOn : ℕ → Bool) : ℕ → ℕ → ℕ → Option (List ℕ)
  | 0, _, _ => none
  | fuel + 1, level, x =>
    match (l.next level x).filter goesOn with
    | some y => l.walk goesOn fuel level y
    | none =>
      match level with
      | 0 => some [x]
      | level + 1 => (l.walk goesOn fuel level x).map (· ++ [x])

/-- A search from the head and the highest level on, with fuel that is enough. -/
def search (l : SkipList α) (goesOn : ℕ → Bool) : Option (List ℕ) :=
  l.walk goesOn (l.keys.length + l.maxHeight + 1) (l.maxHeight - 1) 0

/-- The first node whose key is not less, and the nodes before it. -/
def findGreaterOrEqual (cmp : α → α → Ordering) (l : SkipList α) (key : α) :
    Option (Option ℕ × List ℕ) :=
  (l.search (l.keyIsAfterNode cmp key)).map fun prev => (l.next 0 (prev.getD 0 0), prev)

/-- The last node whose key is less, or the head. -/
def findLessThan (cmp : α → α → Ordering) (l : SkipList α) (key : α) : Option ℕ :=
  (l.search fun n => (l.key n).any fun k => !(cmp k key).isGE).map (·.getD 0 0)

/-- The last node, or the head. -/
def findLast (l : SkipList α) : Option ℕ := (l.search fun _ => true).map (·.getD 0 0)

/-- One round of the loop that links a node in. -/
def setNext (n : ℕ) (prev : List ℕ) (next : ℕ → ℕ → Option ℕ) (i : ℕ) : ℕ → ℕ → Option ℕ :=
  let p := prev.getD i 0
  Function.update next i
    (Function.update (Function.update (next i) n (next i p)) p (some n))

/-- `Insert`. -/
def insert (cmp : α → α → Ordering) (l : SkipList α) (key : α) : Option (SkipList α) :=
  (l.findGreaterOrEqual cmp key).map fun (_, prev) =>
    let (height, rnd) := randomHeight l.rnd
    let prev := prev ++ .replicate (height - l.maxHeight) 0
    let n := l.keys.length + 1
    { keys := l.keys ++ [key]
      next := (List.range height).foldl (setNext n prev) l.next
      maxHeight := max l.maxHeight height
      rnd := rnd }

/-- `Contains`. -/
def contains (cmp : α → α → Ordering) (l : SkipList α) (key : α) : Option Bool :=
  (l.findGreaterOrEqual cmp key).map fun (x, _) =>
    (x.bind l.key).any fun k => cmp key k = .eq

/-! ## Iterators -/

/-- The node of an iterator, or none. -/
abbrev Iterator := Option ℕ

/-- A search that ends at the head has found no node. -/
def Iterator.ofNode (x : ℕ) : Iterator := if x = 0 then none else some x

/-- `key`. -/
def Iterator.key (l : SkipList α) (it : Iterator) : Option α := it.bind l.key

/-- `Next`. -/
def Iterator.next (l : SkipList α) (it : Iterator) : Iterator := it.bind (l.next 0)

/-- There are no links back: the last node is searched whose key is less. -/
def Iterator.prev (cmp : α → α → Ordering) (l : SkipList α) (it : Iterator) : Option Iterator :=
  match it.key l with
  | some key => (l.findLessThan cmp key).map .ofNode
  | none => some none

/-- `Seek`. -/
def Iterator.seek (cmp : α → α → Ordering) (l : SkipList α) (target : α) : Option Iterator :=
  (l.findGreaterOrEqual cmp target).map (·.1)

/-- `SeekToFirst`. -/
def Iterator.seekToFirst (l : SkipList α) : Iterator := l.next 0 0

/-- `SeekToLast`. -/
def Iterator.seekToLast (l : SkipList α) : Option Iterator := l.findLast.map .ofNode

/-! ## What the links say -/

/-- The nodes in their order and their heights. -/
structure Represents (cmp : α → α → Ordering) (l : SkipList α) (order : List ℕ)
    (height : ℕ → ℕ) : Prop where
  nodes : order.Perm (List.range' 1 l.keys.length)
  height_pos : ∀ a ∈ order, 0 < height a
  height_le : ∀ a ∈ order, height a ≤ l.maxHeight
  maxHeight_pos : 0 < l.maxHeight
  maxHeight_le : l.maxHeight ≤ kMaxHeight
  linked : ∀ level, Linked (l.next level) 0 (order.filter (level < height ·))
  sorted : order.Pairwise fun a b => ∀ k ∈ l.key a, ∀ k' ∈ l.key b, (cmp k k').isLE

section
variable {l : SkipList α} {goesOn : ℕ → Bool} {fuel level x y : ℕ}

/-- The last element is in the second part. -/
theorem getLastD_append_cons (as bs : List ℕ) (a x : ℕ) :
    (as ++ a :: bs).getLastD x = bs.getLastD a := by
  rw [List.getLastD_eq_getLast?, List.getLast?_append, List.getLast?_cons,
    List.getLastD_eq_getLast?]
  simp

/-- The search goes along a link. -/
theorem walk_along (h : (l.next level x).filter goesOn = some y) :
    l.walk goesOn (fuel + 1) level x = l.walk goesOn fuel level y := by
  rw [walk.eq_def]
  simp only [h]

/-- The search ends on the lowest level. -/
theorem walk_end (h : (l.next 0 x).filter goesOn = none) :
    l.walk goesOn (fuel + 1) 0 x = some [x] := by
  rw [walk.eq_def]
  simp only [h]

/-- The search goes down a level. -/
theorem walk_down (h : (l.next (level + 1) x).filter goesOn = none) :
    l.walk goesOn (fuel + 1) (level + 1) x = (l.walk goesOn fuel level x).map (· ++ [x]) := by
  rw [walk.eq_def]
  simp only [h]

end

/-- A search from the node `x`, behind which come the nodes `before`, which it goes over, and
`rest`, where it does not go. -/
theorem walk_spec {l : SkipList α} {goesOn : ℕ → Bool} (height : ℕ → ℕ) {rest : List ℕ}
    (hrest : ∀ a ∈ rest, goesOn a = false) {fuel level x : ℕ} (before : List ℕ)
    (hbefore : ∀ a ∈ before, goesOn a = true)
    (hlinked : ∀ i ≤ level, Linked (l.next i) x ((before ++ rest).filter (i < height ·)))
    (hfuel : before.length + level < fuel) :
    l.walk goesOn fuel level x = some ((List.range (level + 1)).map fun i =>
      (before.filter (i < height ·)).getLastD x) := by
  induction fuel generalizing level x before with
  | zero => exact absurd hfuel (Nat.not_lt_zero _)
  | succ fuel ih =>
    have hnext := (hlinked level (Nat.le_refl _)).head
    rw [List.filter_append] at hnext
    cases hfilter : before.filter (level < height ·) with
    | nil =>
      have hstop : (l.next level x).filter goesOn = none := by
        rw [hnext, hfilter, List.nil_append, Option.filter_eq_none_iff]
        intro y hy
        have hmem := List.mem_filter.1 (List.mem_of_mem_head? hy)
        rw [hrest y hmem.1]
        exact Bool.false_ne_true
      cases level with
      | zero =>
        rw [walk_end hstop, Nat.zero_add, List.range_one, List.map_singleton, hfilter]
        rfl
      | succ level =>
        have hlower := ih before hbefore (fun i hi => hlinked i (Nat.le_succ_of_le hi)) (by omega)
        rw [walk_down hstop, hlower, Option.map_some, List.range_succ (n := level + 1),
          List.map_append, List.map_singleton, hfilter]
        rfl
    | cons y ys =>
      obtain ⟨b₁, b₂, rfl, hb₁, hy, -⟩ := List.filter_eq_cons_iff.1 hfilter
      have hgoes : goesOn y = true := hbefore y (by simp)
      have hstep : (l.next level x).filter goesOn = some y := by
        rw [hnext, hfilter]
        exact Option.filter_eq_some_iff.2 ⟨rfl, hgoes⟩
      have hlevel : level < height y := of_decide_eq_true hy
      have hkeep (i : ℕ) (hi : i ≤ level) (bs : List ℕ) :
          (y :: bs).filter (i < height ·) = y :: bs.filter (i < height ·) :=
        List.filter_cons_of_pos (decide_eq_true (Nat.lt_of_le_of_lt hi hlevel))
      rw [walk_along hstep, ih b₂]
      · refine congrArg some (List.map_congr_left fun i hi => ?_)
        have hi' : i ≤ level := Nat.lt_succ_iff.1 (List.mem_range.1 hi)
        rw [List.filter_append, hkeep i hi', getLastD_append_cons]
      · exact fun a ha => hbefore a (by simp [ha])
      · intro i hi
        have hlink := hlinked i hi
        rw [List.append_assoc, List.cons_append, List.filter_append, hkeep i hi] at hlink
        exact hlink.suffix
      · simp only [List.length_append, List.length_cons] at hfuel
        omega

section
variable {cmp : α → α → Ordering} {l : SkipList α} {order : List ℕ} {height : ℕ → ℕ}
  {goesOn : ℕ → Bool}

/-- Behind the first node where a search does not go it does not go either. -/
theorem dropWhile_all {β : Type*} {p : β → Bool} {as : List β}
    (h : as.Pairwise fun a b => p b = true → p a = true) : ∀ a ∈ as.dropWhile p, p a = false := by
  induction as with
  | nil => exact fun a ha => nomatch ha
  | cons a as ih =>
    obtain ⟨ha, has⟩ := List.pairwise_cons.1 h
    intro b hb
    cases hpa : p a with
    | true =>
      rw [List.dropWhile_cons_of_pos hpa] at hb
      exact ih has b hb
    | false =>
      rw [List.dropWhile_cons_of_neg (Bool.eq_false_iff.1 hpa)] at hb
      rcases List.mem_cons.1 hb with rfl | hb
      · exact hpa
      · refine Bool.eq_false_iff.2 fun hpb => ?_
        rw [ha b hb hpb] at hpa
        cases hpa

/-- There is one place for each node. -/
theorem Represents.length_eq (h : Represents cmp l order height) :
    order.length = l.keys.length := by
  rw [h.nodes.length_eq, List.length_range']

/-- A search finds on each level the last node of that height before the place where it ends. -/
theorem Represents.search (h : Represents cmp l order height)
    (hmono : order.Pairwise fun a b => goesOn b = true → goesOn a = true) :
    l.search goesOn = some ((List.range l.maxHeight).map fun i =>
      ((order.takeWhile goesOn).filter (i < height ·)).getLastD 0) := by
  have hpos := h.maxHeight_pos
  have hlength : (order.takeWhile goesOn).length ≤ l.keys.length := by
    rw [← h.length_eq]
    exact (List.takeWhile_sublist _).length_le
  rw [SkipList.search, walk_spec height (dropWhile_all hmono) _ fun _ => List.mem_takeWhile_imp,
    Nat.sub_add_cancel hpos]
  · intro i _
    rw [List.takeWhile_append_dropWhile]
    exact h.linked i
  · omega

/-- A node of the list has a key. -/
theorem Represents.key_isSome (h : Represents cmp l order height) {a : ℕ} (ha : a ∈ order) :
    ∃ k, l.key a = some k := by
  have hrange := List.mem_range'_1.1 (h.nodes.mem_iff.1 ha)
  obtain ⟨a, rfl⟩ := Nat.exists_eq_add_of_le' hrange.1
  have hlt : a < l.keys.length := by omega
  exact ⟨_, List.getElem?_eq_getElem hlt⟩

/-- The nodes with lesser keys come first. -/
theorem Represents.mono [Std.TransCmp cmp] (h : Represents cmp l order height) (key : α) :
    order.Pairwise fun a b =>
      l.keyIsAfterNode cmp key b = true → l.keyIsAfterNode cmp key a = true := by
  refine h.sorted.imp_of_mem fun {a b} ha hb hle hb' => ?_
  obtain ⟨k, hk⟩ := h.key_isSome ha
  obtain ⟨k', hk'⟩ := h.key_isSome hb
  rw [keyIsAfterNode, hk', Option.any_some, decide_eq_true_iff] at hb'
  rw [keyIsAfterNode, hk, Option.any_some, decide_eq_true_iff]
  exact Std.TransCmp.lt_of_isLE_of_lt (hle k hk k' hk') hb'

/-- All nodes are on the lowest level. -/
theorem Represents.filter_zero (h : Represents cmp l order height) {as : List ℕ}
    (has : ∀ a ∈ as, a ∈ order) : as.filter (0 < height ·) = as :=
  List.filter_eq_self.2 fun a ha => decide_eq_true (h.height_pos a (has a ha))

/-- An entry of a table of values. -/
theorem getD_range_map (n i : ℕ) (f : ℕ → ℕ) (hi : i < n) :
    ((List.range n).map f).getD i 0 = f i := by
  rw [List.getD_eq_getElem?_getD, List.getElem?_map, List.getElem?_range hi]
  rfl

/-- The nodes before the place of a key, and the node at the place. -/
theorem Represents.findGreaterOrEqual [Std.TransCmp cmp] (h : Represents cmp l order height)
    (key : α) : ∃ prev, l.findGreaterOrEqual cmp key =
        some ((order.dropWhile (l.keyIsAfterNode cmp key)).head?, prev) ∧
      prev.length = l.maxHeight ∧ ∀ i < l.maxHeight, prev.getD i 0 =
        ((order.takeWhile (l.keyIsAfterNode cmp key)).filter (i < height ·)).getLastD 0 := by
  have hsearch := h.search (h.mono key)
  refine ⟨_, ?_, ?_, fun i hi => getD_range_map _ i _ hi⟩
  · rw [SkipList.findGreaterOrEqual, hsearch, Option.map_some, getD_range_map _ 0 _ h.maxHeight_pos]
    have hlinked := h.linked 0
    have hmem (a : ℕ) (ha : a ∈ order.takeWhile (l.keyIsAfterNode cmp key)) : a ∈ order :=
      (List.takeWhile_sublist _).subset ha
    rw [h.filter_zero fun _ => id] at hlinked
    rw [h.filter_zero hmem]
    rw [← List.takeWhile_append_dropWhile (p := l.keyIsAfterNode cmp key) (l := order)] at hlinked
    rw [hlinked.last]
  · rw [List.length_map, List.length_range]

/-! ## Insertion -/

/-- The loop raises the height, and not by more than its rounds. -/
theorem randomHeightFrom_le (left height rnd : ℕ) :
    height ≤ (randomHeightFrom left height rnd).1 ∧
      (randomHeightFrom left height rnd).1 ≤ height + left := by
  induction left generalizing height rnd with
  | zero => exact ⟨Nat.le_refl _, Nat.le_refl _⟩
  | succ left ih =>
    rw [randomHeightFrom]
    split_ifs
    · obtain ⟨hlow, hhigh⟩ := ih (height + 1) (nextRandom rnd)
      omega
    · exact ⟨Nat.le_refl _, Nat.le_add_right _ _⟩

/-- Every node is on the lowest level. -/
theorem randomHeight_pos (rnd : ℕ) : 0 < (randomHeight rnd).1 := (randomHeightFrom_le _ 1 rnd).1

/-- No node is higher than the highest level. -/
theorem randomHeight_le (rnd : ℕ) : (randomHeight rnd).1 ≤ kMaxHeight :=
  (randomHeightFrom_le _ 1 rnd).2

/-- The links at a level after the loop. -/
theorem setNext_foldl (n : ℕ) (prev : List ℕ) (next : ℕ → ℕ → Option ℕ) (height level : ℕ) :
    (List.range height).foldl (setNext n prev) next level =
      if level < height then
        Function.update (Function.update (next level) n (next level (prev.getD level 0)))
          (prev.getD level 0) (some n)
      else next level := by
  induction height with
  | zero => rfl
  | succ height ih =>
    rw [List.range_succ, List.foldl_append, List.foldl_cons, List.foldl_nil, setNext]
    by_cases heq : level = height
    · subst heq
      rw [Function.update_self, if_pos (Nat.lt_succ_self level)]
      rw [if_neg (Nat.lt_irrefl level)] at ih
      rw [ih]
    · have hiff : level < height + 1 ↔ level < height := by omega
      rw [Function.update_of_ne heq, ih]
      simp only [hiff]

/-- The nodes are those that were allocated, without the head. -/
theorem Represents.mem_range (h : Represents cmp l order height) {a : ℕ} (ha : a ∈ order) :
    0 < a ∧ a < l.keys.length + 1 := by
  have hmem := List.mem_range'_1.1 (h.nodes.mem_iff.1 ha)
  omega

/-- No node is there twice. -/
theorem Represents.nodup (h : Represents cmp l order height) : (0 :: order).Nodup := by
  refine List.nodup_cons.2 ⟨fun hzero => ?_, h.nodes.nodup_iff.2 List.nodup_range'⟩
  exact absurd (h.mem_range hzero).1 (Nat.lt_irrefl 0)

/-- The heights with the new node's. -/
def heights (l : SkipList α) (height : ℕ → ℕ) : ℕ → ℕ :=
  Function.update height (l.keys.length + 1) (randomHeight l.rnd).1

/-- The old nodes keep their heights. -/
theorem Represents.heights_eq (h : Represents cmp l order height) {a : ℕ} (ha : a ∈ order) :
    heights l height a = height a :=
  Function.update_of_ne (h.mem_range ha).2.ne _ _

/-- The new node has the height that was drawn. -/
theorem heights_new (l : SkipList α) (height : ℕ → ℕ) :
    heights l height (l.keys.length + 1) = (randomHeight l.rnd).1 :=
  Function.update_self ..

/-- The old nodes are on the levels where they were. -/
theorem Represents.filter_heights (h : Represents cmp l order height) (level : ℕ) {as : List ℕ}
    (has : ∀ a ∈ as, a ∈ order) :
    as.filter (level < heights l height ·) = as.filter (level < height ·) :=
  List.filter_congr fun a ha => by rw [h.heights_eq (has a ha)]

/-- The node behind which a new one is linked in at a level is the head at the levels that are
new. -/
theorem Represents.prev_eq (h : Represents cmp l order height) {prev before : List ℕ}
    (hlength : prev.length = l.maxHeight) (hbefore : ∀ a ∈ before, a ∈ order)
    (hprev : ∀ i < l.maxHeight, prev.getD i 0 = (before.filter (i < height ·)).getLastD 0)
    (new level : ℕ) : (prev ++ .replicate (new - l.maxHeight) 0).getD level 0 =
      (before.filter (level < height ·)).getLastD 0 := by
  rcases Nat.lt_or_ge level l.maxHeight with hlt | hge
  · rw [List.getD_append _ _ _ _ (hlength ▸ hlt), hprev level hlt]
  · have hnone : before.filter (level < height ·) = [] :=
      List.filter_eq_nil_iff.2 fun a ha hdec =>
        Nat.not_lt.2 ((h.height_le a (hbefore a ha)).trans hge) (of_decide_eq_true hdec)
    rw [List.getD_append_right _ _ _ _ (hlength ▸ hge), hnone,
      List.getD_eq_getElem?_getD, List.getElem?_getD_replicate_default_eq]
    rfl

/-- The new node is linked in at the levels below its height. -/
theorem Represents.linked_insert (h : Represents cmp l order height) {prev before rest : List ℕ}
    (horder : before ++ rest = order) (level : ℕ)
    (hprev : prev.getD level 0 = (before.filter (level < height ·)).getLastD 0) :
    Linked ((List.range (randomHeight l.rnd).1).foldl (setNext (l.keys.length + 1) prev) l.next level)
      0 ((before ++ (l.keys.length + 1) :: rest).filter (level < heights l height ·)) := by
  have hlinked := h.linked level
  have hbefore (a : ℕ) (ha : a ∈ before) : a ∈ order := horder ▸ List.mem_append_left rest ha
  have hrest (a : ℕ) (ha : a ∈ rest) : a ∈ order := horder ▸ List.mem_append_right before ha
  rw [← horder, List.filter_append] at hlinked
  rw [setNext_foldl, List.filter_append, h.filter_heights level hbefore]
  split_ifs with hlevel
  · have hnew : ((l.keys.length + 1) :: rest).filter (level < heights l height ·) =
        (l.keys.length + 1) :: rest.filter (level < height ·) := by
      rw [← h.filter_heights level hrest]
      refine List.filter_cons_of_pos (decide_eq_true ?_)
      rwa [heights_new]
    have hsub :
        (before.filter (level < height ·) ++ rest.filter (level < height ·)).Sublist order := by
      rw [← List.filter_append, horder]
      exact List.filter_sublist
    rw [hnew, hprev]
    refine hlinked.insert (h.nodup.sublist (hsub.cons_cons 0)) ?_
    refine List.not_mem_cons_of_ne_of_not_mem (Nat.succ_ne_zero _) fun hmem => ?_
    exact absurd (h.mem_range (hsub.subset hmem)).2 (Nat.lt_irrefl _)
  · have hold : ((l.keys.length + 1) :: rest).filter (level < heights l height ·) =
        rest.filter (level < height ·) := by
      rw [← h.filter_heights level hrest]
      refine List.filter_cons_of_neg fun hdec => hlevel ?_
      have hlt := of_decide_eq_true hdec
      rwa [heights_new] at hlt
    rw [hold]
    exact hlinked

/-- The keys with a new one. -/
theorem Represents.key_eq (h : Represents cmp l order height) {l' : SkipList α} {key : α}
    (hkeys : l'.keys = l.keys ++ [key]) {a : ℕ} (ha : a ∈ order) : l'.key a = l.key a := by
  obtain ⟨hpos, hlt⟩ := h.mem_range ha
  obtain ⟨a, rfl⟩ := Nat.exists_eq_add_of_le' hpos
  rw [SkipList.key, SkipList.key, hkeys, List.getElem?_append_left (Nat.lt_of_succ_lt_succ hlt)]

/-- The new node has the new key. -/
theorem key_new {l' : SkipList α} {key : α} (hkeys : l'.keys = l.keys ++ [key]) :
    l'.key (l.keys.length + 1) = some key := by
  rw [SkipList.key, hkeys, List.getElem?_concat_length]

/-- The order of the nodes after an insertion. -/
def inserted (cmp : α → α → Ordering) (l : SkipList α) (order : List ℕ) (key : α) : List ℕ :=
  order.takeWhile (l.keyIsAfterNode cmp key) ++
    (l.keys.length + 1) :: order.dropWhile (l.keyIsAfterNode cmp key)

/-- With the new node at its place the keys are sorted. -/
theorem Represents.sorted_insert [Std.TransCmp cmp] (h : Represents cmp l order height) {key : α}
    {l' : SkipList α} (hkeys : l'.keys = l.keys ++ [key]) :
    (inserted cmp l order key).Pairwise fun a b =>
      ∀ k ∈ l'.key a, ∀ k' ∈ l'.key b, (cmp k k').isLE := by
  have hmem {a : ℕ} : a ∈ order ↔ a ∈ order.takeWhile (l.keyIsAfterNode cmp key) ∨
      a ∈ order.dropWhile (l.keyIsAfterNode cmp key) := by
    rw [← List.mem_append, List.takeWhile_append_dropWhile]
  have hsorted : order.Pairwise fun a b => ∀ k ∈ l'.key a, ∀ k' ∈ l'.key b, (cmp k k').isLE :=
    h.sorted.imp_of_mem fun ha hb hle => by rwa [h.key_eq hkeys ha, h.key_eq hkeys hb]
  rw [← List.takeWhile_append_dropWhile (p := l.keyIsAfterNode cmp key) (l := order)] at hsorted
  obtain ⟨hbefore, hrest, hacross⟩ := List.pairwise_append.1 hsorted
  refine List.pairwise_append.2 ⟨hbefore, List.pairwise_cons.2 ⟨?_, hrest⟩, ?_⟩
  · intro b hb k hk k' hk'
    rw [key_new hkeys, Option.mem_some_iff] at hk
    rw [h.key_eq hkeys (hmem.2 (Or.inr hb))] at hk'
    have hnot := dropWhile_all (h.mono key) b hb
    rw [keyIsAfterNode, Option.mem_def.1 hk', Option.any_some, decide_eq_false_iff_not] at hnot
    rw [← hk]
    exact Std.OrientedCmp.isLE_of_isGE (Ordering.isGE_iff_ne_lt.2 hnot)
  · intro a ha b hb k hk k' hk'
    rcases List.mem_cons.1 hb with rfl | hb
    · rw [key_new hkeys, Option.mem_some_iff] at hk'
      rw [h.key_eq hkeys (hmem.2 (Or.inl ha))] at hk
      have hafter := List.mem_takeWhile_imp ha
      rw [keyIsAfterNode, Option.mem_def.1 hk, Option.any_some, decide_eq_true_iff] at hafter
      rw [← hk', hafter]
      rfl
    · exact hacross a ha b hb k hk k' hk'

/-- An insertion links the new node in before the first one whose key is not less. -/
theorem Represents.insert [Std.TransCmp cmp] (h : Represents cmp l order height) (key : α) :
    ∃ l', l.insert cmp key = some l' ∧ l'.keys = l.keys ++ [key] ∧
      Represents cmp l' (inserted cmp l order key) (heights l height) := by
  obtain ⟨prev, hfind, hlength, hprev⟩ := h.findGreaterOrEqual key
  have horder := List.takeWhile_append_dropWhile (p := l.keyIsAfterNode cmp key) (l := order)
  have hperm : (inserted cmp l order key).Perm ((l.keys.length + 1) :: order) := by
    refine List.perm_middle.trans ?_
    rw [horder]
  refine ⟨_, by rw [SkipList.insert, hfind]; rfl, rfl,
    ?nodes, ?height_pos, ?height_le, ?maxHeight_pos, ?maxHeight_le, ?linked, ?sorted⟩
  case nodes =>
    rw [List.length_append, List.length_singleton, List.range'_1_concat, Nat.add_comm 1]
    exact hperm.trans ((h.nodes.cons _).trans (List.perm_append_singleton _ _).symm)
  case height_pos =>
    intro a ha
    rcases List.mem_cons.1 (hperm.mem_iff.1 ha) with rfl | ha
    · rw [heights_new]
      exact randomHeight_pos _
    · rw [h.heights_eq ha]
      exact h.height_pos a ha
  case height_le =>
    intro a ha
    rcases List.mem_cons.1 (hperm.mem_iff.1 ha) with rfl | ha
    · rw [heights_new]
      exact Nat.le_max_right _ _
    · rw [h.heights_eq ha]
      exact (h.height_le a ha).trans (Nat.le_max_left _ _)
  case maxHeight_pos => exact h.maxHeight_pos.trans_le (Nat.le_max_left _ _)
  case maxHeight_le => exact Nat.max_le.2 ⟨h.maxHeight_le, randomHeight_le _⟩
  case linked =>
    refine fun level => h.linked_insert horder level ?_
    exact h.prev_eq hlength (fun a ha => (List.takeWhile_sublist _).subset ha) hprev _ level
  case sorted => exact h.sorted_insert rfl

end

/-! ## Lists that are well formed -/

/-- A skip list with what its links say. -/
structure Table (cmp : α → α → Ordering) where
  list : SkipList α
  order : List ℕ
  height : ℕ → ℕ
  represents : Represents cmp list order height

variable {cmp : α → α → Ordering}

/-- A list without entries. -/
def Table.empty : Table cmp where
  list := .empty
  order := []
  height := fun _ => 1
  represents :=
    { nodes := .refl _
      height_pos := fun _ ha => nomatch ha
      height_le := fun _ ha => nomatch ha
      maxHeight_pos := Nat.one_pos
      maxHeight_le := Nat.le_of_ble_eq_true rfl
      linked := fun _ => rfl
      sorted := .nil }

/-- `Insert` ends. -/
theorem Table.insert_isSome [Std.TransCmp cmp] (t : Table cmp) (key : α) :
    (t.list.insert cmp key).isSome := by
  obtain ⟨l', hinsert, -⟩ := t.represents.insert key
  rw [hinsert]
  rfl

/-- `Insert`, with the new node at its place. -/
def Table.insert [Std.TransCmp cmp] (t : Table cmp) (key : α) : Table cmp where
  list := (t.list.insert cmp key).get (t.insert_isSome key)
  order := inserted cmp t.list t.order key
  height := heights t.list t.height
  represents := by
    obtain ⟨l', hinsert, -, h⟩ := t.represents.insert key
    simpa only [hinsert, Option.get_some] using h

/-- The keys in their order. -/
def Table.toList (t : Table cmp) : List α := t.order.filterMap t.list.key

/-- The elements up to a place, as nodes and as keys. -/
theorem filterMap_takeWhile {f : ℕ → Option α} {p : ℕ → Bool} {q : α → Bool} {as : List ℕ}
    (h : ∀ a ∈ as, ∃ k, f a = some k ∧ p a = q k) :
    (as.takeWhile p).filterMap f = (as.filterMap f).takeWhile q ∧
      (as.dropWhile p).filterMap f = (as.filterMap f).dropWhile q := by
  induction as with
  | nil => exact ⟨rfl, rfl⟩
  | cons a as ih =>
    obtain ⟨k, hk, hpq⟩ := h a List.mem_cons_self
    obtain ⟨htake, hdrop⟩ := ih fun b hb => h b (List.mem_cons_of_mem a hb)
    rw [List.filterMap_cons_some hk]
    cases hq : q k with
    | true =>
      rw [List.takeWhile_cons_of_pos (hpq.trans hq), List.dropWhile_cons_of_pos (hpq.trans hq),
        List.takeWhile_cons_of_pos hq, List.dropWhile_cons_of_pos hq, List.filterMap_cons_some hk,
        htake]
      exact ⟨rfl, hdrop⟩
    | false =>
      have hp := Bool.eq_false_iff.1 (hpq.trans hq)
      rw [List.takeWhile_cons_of_neg hp, List.dropWhile_cons_of_neg hp,
        List.takeWhile_cons_of_neg (Bool.eq_false_iff.1 hq),
        List.dropWhile_cons_of_neg (Bool.eq_false_iff.1 hq), List.filterMap_cons_some hk]
      exact ⟨rfl, rfl⟩

section
variable (t : Table cmp) (key : α)

/-- `KeyIsAfterNode` compares the key of the node with the key. -/
theorem Table.keyIsAfterNode_eq : ∀ a ∈ t.order, ∃ k, t.list.key a = some k ∧
    t.list.keyIsAfterNode cmp key a = decide (cmp k key = .lt) := by
  intro a ha
  obtain ⟨k, hk⟩ := t.represents.key_isSome ha
  refine ⟨k, hk, ?_⟩
  rw [keyIsAfterNode, hk, Option.any_some]

/-- The keys are sorted. -/
theorem Table.toList_sorted : t.toList.Pairwise fun k k' => (cmp k k').isLE :=
  List.pairwise_filterMap.2 t.represents.sorted

/-- The new key comes before the first one that is not less. -/
theorem Table.toList_insert [Std.TransCmp cmp] : (t.insert key).toList =
    t.toList.takeWhile (cmp · key = .lt) ++ key :: t.toList.dropWhile (cmp · key = .lt) := by
  obtain ⟨l', hinsert, hkeys, -⟩ := t.represents.insert key
  obtain ⟨htake, hdrop⟩ := filterMap_takeWhile (t.keyIsAfterNode_eq key)
  have hlist : (t.insert key).list = l' := by
    simp only [insert, hinsert, Option.get_some]
  have hsame {as : List ℕ} (has : ∀ a ∈ as, a ∈ t.order) :
      as.filterMap l'.key = as.filterMap t.list.key :=
    List.filterMap_congr fun a ha => t.represents.key_eq hkeys (has a ha)
  rw [toList, hlist, toList, ← htake, ← hdrop]
  rw [show (t.insert key).order = inserted cmp t.list t.order key from rfl, inserted,
    List.filterMap_append, List.filterMap_cons_some (key_new hkeys),
    hsame fun _ ha => (List.takeWhile_sublist _).subset ha,
    hsame fun _ ha => (List.dropWhile_sublist _).subset ha]

/-- The node at a place of the order. -/
def Table.node (i : ℕ) : Iterator := t.order[i]?

/-- Every node has a key. -/
theorem Table.key_isSome : ∀ a ∈ t.order, (t.list.key a).isSome := by
  intro a ha
  obtain ⟨k, hk⟩ := t.represents.key_isSome ha
  rw [hk]
  rfl

/-- No element is left out. -/
theorem filterMap_length {f : ℕ → Option α} {as : List ℕ} (h : ∀ a ∈ as, (f a).isSome) :
    (as.filterMap f).length = as.length := by
  rw [List.length_filterMap_eq_countP, List.countP_eq_length]
  exact h

/-- An element stays at its place. -/
theorem filterMap_getElem? {f : ℕ → Option α} {as : List ℕ} (h : ∀ a ∈ as, (f a).isSome) (i : ℕ) :
    (as.filterMap f)[i]? = as[i]?.bind f := by
  induction as generalizing i with
  | nil => rfl
  | cons a as ih =>
    obtain ⟨k, hk⟩ := Option.isSome_iff_exists.1 (h a List.mem_cons_self)
    rw [List.filterMap_cons_some hk]
    cases i with
    | zero => simp [hk]
    | succ i => exact ih (fun b hb => h b (List.mem_cons_of_mem a hb)) i

/-- The key of a node is the one at its place. -/
theorem Table.key_node (i : ℕ) : (t.node i).key t.list = t.toList[i]? := by
  exact (filterMap_getElem? t.key_isSome i).symm

/-- `SeekToFirst` goes to the first node. -/
theorem Table.seekToFirst_eq : Iterator.seekToFirst t.list = t.node 0 := by
  have hlinked := t.represents.linked 0
  rw [t.represents.filter_zero fun _ => id] at hlinked
  rw [Iterator.seekToFirst, hlinked.head, node, List.head?_eq_getElem?]

/-- `Next` goes to the node behind. -/
theorem Table.next_node (i : ℕ) : (t.node i).next t.list = t.node (i + 1) := by
  have hlinked := t.represents.linked 0
  rw [t.represents.filter_zero fun _ => id] at hlinked
  rw [node, node]
  cases ha : t.order[i]? with
  | none =>
    rw [List.getElem?_eq_none_iff] at ha
    exact (List.getElem?_eq_none (Nat.le_succ_of_le ha)).symm
  | some a =>
    obtain ⟨hi, rfl⟩ := List.getElem?_eq_some_iff.1 ha
    have hsplit := List.take_append_drop i t.order
    rw [List.drop_eq_getElem_cons hi] at hsplit
    rw [← hsplit] at hlinked
    rw [← List.head?_drop]
    exact hlinked.suffix.head

/-- As many nodes as keys are before the place of a key. -/
theorem Table.takeWhile_length : (t.order.takeWhile (t.list.keyIsAfterNode cmp key)).length =
    (t.toList.takeWhile (cmp · key = .lt)).length := by
  obtain ⟨htake, -⟩ := filterMap_takeWhile (t.keyIsAfterNode_eq key)
  rw [toList, ← htake, filterMap_length]
  exact fun a ha => t.key_isSome a ((List.takeWhile_sublist _).subset ha)

/-- What is left begins at the place where the first part ends. -/
theorem head?_dropWhile {β : Type*} (p : β → Bool) (as : List β) :
    (as.dropWhile p).head? = as[(as.takeWhile p).length]? := by
  induction as with
  | nil => rfl
  | cons a as ih =>
    cases hp : p a with
    | true =>
      rw [List.dropWhile_cons_of_pos hp, List.takeWhile_cons_of_pos hp]
      exact ih
    | false =>
      rw [List.dropWhile_cons_of_neg (Bool.eq_false_iff.1 hp),
        List.takeWhile_cons_of_neg (Bool.eq_false_iff.1 hp)]
      rfl

/-- `Seek` goes to the first node whose key is not before the target. -/
theorem Table.seek_eq [Std.TransCmp cmp] : Iterator.seek cmp t.list key =
    some (t.node (t.toList.takeWhile (cmp · key = .lt)).length) := by
  obtain ⟨prev, hfind, -⟩ := t.represents.findGreaterOrEqual key
  rw [Iterator.seek, hfind, Option.map_some, ← t.takeWhile_length, node, head?_dropWhile]

/-- `FindLessThan` finds the last node whose key is before the key, or the head. -/
theorem Table.findLessThan_eq [Std.TransCmp cmp] : t.list.findLessThan cmp key =
    some ((t.order.takeWhile (t.list.keyIsAfterNode cmp key)).getLastD 0) := by
  have hgoesOn : (fun n => (t.list.key n).any fun k => !(cmp k key).isGE) =
      t.list.keyIsAfterNode cmp key := by
    funext n
    rw [keyIsAfterNode]
    congr 1
    funext k
    cases cmp k key <;> rfl
  have hmem (a : ℕ) (ha : a ∈ t.order.takeWhile (t.list.keyIsAfterNode cmp key)) : a ∈ t.order :=
    (List.takeWhile_sublist _).subset ha
  rw [SkipList.findLessThan, hgoesOn, t.represents.search (t.represents.mono key), Option.map_some,
    getD_range_map _ 0 _ t.represents.maxHeight_pos, t.represents.filter_zero hmem]

/-- `FindLast` finds the last node, or the head. -/
theorem Table.findLast_eq : t.list.findLast = some (t.order.getLastD 0) := by
  have hall : t.order.takeWhile (fun _ => true) = t.order :=
    List.takeWhile_eq_self_iff.2 fun _ _ => rfl
  rw [SkipList.findLast, t.represents.search (List.pairwise_of_forall fun _ _ _ => rfl),
    Option.map_some, getD_range_map _ 0 _ t.represents.maxHeight_pos, hall,
    t.represents.filter_zero fun _ => id]

/-- The last of the first `i` nodes. -/
theorem Table.ofNode_last {i : ℕ} (hi : i ≤ t.order.length) :
    Iterator.ofNode ((t.order.take i).getLastD 0) = if i = 0 then none else t.node (i - 1) := by
  cases i with
  | zero => rfl
  | succ i =>
    have hlast : (t.order.take (i + 1)).getLastD 0 = t.order[i] := by
      rw [List.take_succ_eq_append_getElem hi, List.getLastD_concat]
    have hne : t.order[i] ≠ 0 := (t.represents.mem_range (List.getElem_mem hi)).1.ne'
    rw [hlast, Iterator.ofNode, if_neg hne, if_neg (Nat.succ_ne_zero i), node, Nat.add_sub_cancel,
      List.getElem?_eq_getElem hi]

/-- `SeekToLast` goes to the last node, if there is one. -/
theorem Table.seekToLast_eq : Iterator.seekToLast t.list =
    some (if t.toList.length = 0 then none else t.node (t.toList.length - 1)) := by
  have hlength : t.toList.length = t.order.length := filterMap_length t.key_isSome
  have hlast := t.ofNode_last (Nat.le_refl _)
  rw [List.take_length] at hlast
  rw [Iterator.seekToLast, t.findLast_eq, Option.map_some, hlast, hlength]

/-- `Prev` goes to the last node whose key is before the current one, if there is one. -/
theorem Table.prev_eq [Std.TransCmp cmp] {i : ℕ} {k : α} (hk : t.toList[i]? = some k) :
    (t.node i).prev cmp t.list =
      some (if (t.toList.takeWhile (cmp · k = .lt)).length = 0 then none
        else t.node ((t.toList.takeWhile (cmp · k = .lt)).length - 1)) := by
  have hlast := t.ofNode_last (List.takeWhile_sublist (t.list.keyIsAfterNode cmp k)).length_le
  rw [← (List.prefix_iff_eq_take.1 (List.takeWhile_prefix _))] at hlast
  rw [Iterator.prev, t.key_node, hk, ← t.takeWhile_length, ← hlast]
  dsimp only
  rw [t.findLessThan_eq, Option.map_some]

/-- In a list with all keys different, the keys before one are less. -/
theorem takeWhile_getElem [Std.TransCmp cmp] {ks : List α}
    (h : ks.Pairwise fun k k' => cmp k k' = .lt) {i : ℕ} {k : α} (hk : ks[i]? = some k) :
    (ks.takeWhile (cmp · k = .lt)).length = i := by
  induction ks generalizing i with
  | nil => cases hk
  | cons a ks ih =>
    obtain ⟨ha, hks⟩ := List.pairwise_cons.1 h
    cases i with
    | zero =>
      obtain rfl : a = k := Option.some.inj hk
      have hself : ¬ decide (cmp a a = .lt) = true := by simp [Std.ReflCmp.compare_self]
      rw [List.takeWhile_cons_of_neg (p := fun x => decide (cmp x a = .lt)) hself]
      rfl
    | succ i =>
      have hlt : decide (cmp a k = .lt) = true := decide_eq_true (ha k (List.mem_of_getElem? hk))
      rw [List.takeWhile_cons_of_pos (p := fun x => decide (cmp x k = .lt)) hlt, List.length_cons,
        ih hks hk]

/-- In sorted keys those before a key come first. -/
theorem sorted_mono [Std.TransCmp cmp] {ks : List α} (h : ks.Pairwise fun k k' => (cmp k k').isLE)
    (key : α) : ks.Pairwise fun k k' =>
      decide (cmp k' key = .lt) = true → decide (cmp k key = .lt) = true :=
  h.imp fun hle hlt => decide_eq_true (Std.TransCmp.lt_of_isLE_of_lt hle (of_decide_eq_true hlt))

/-- The keys before a key are as many as are less than it. -/
theorem takeWhile_countP [Std.TransCmp cmp] {ks : List α}
    (h : ks.Pairwise fun k k' => (cmp k k').isLE) (key : α) :
    (ks.takeWhile (cmp · key = .lt)).length = ks.countP (cmp · key = .lt) := by
  have hrest := dropWhile_all (sorted_mono h key)
  conv_rhs =>
    rw [← List.takeWhile_append_dropWhile (p := fun k => decide (cmp k key = .lt)) (l := ks)]
  rw [List.countP_append, List.countP_eq_length.2 fun _ => List.mem_takeWhile_imp,
    List.countP_eq_zero.2 fun a ha => Bool.eq_false_iff.1 (hrest a ha), Nat.add_zero]

/-- A key is in a sorted list if and only if it is at its place. -/
theorem any_place [Std.TransCmp cmp] {ks : List α} (h : ks.Pairwise fun k k' => (cmp k k').isLE)
    (key : α) : (ks[(ks.takeWhile (cmp · key = .lt)).length]?.any fun k => cmp key k = .eq) =
      ks.any fun k => cmp key k = .eq := by
  induction ks with
  | nil => rfl
  | cons a ks ih =>
    obtain ⟨ha, hks⟩ := List.pairwise_cons.1 h
    by_cases hlt : cmp a key = .lt
    · have hne : cmp key a ≠ .eq := by
        rw [Std.OrientedCmp.gt_of_lt hlt]
        decide
      rw [List.takeWhile_cons_of_pos (p := fun x => decide (cmp x key = .lt)) (decide_eq_true hlt),
        List.any_cons, decide_eq_false hne, Bool.false_or, ← ih hks]
      rfl
    · rw [List.takeWhile_cons_of_neg (p := fun x => decide (cmp x key = .lt)) (by simpa using hlt),
        List.any_cons, List.length_nil, List.getElem?_cons_zero, Option.any_some]
      by_cases heq : cmp key a = .eq
      · rw [decide_eq_true heq, Bool.true_or]
      · have hkey : cmp key a = .lt := by
          cases hcmp : cmp key a with
          | lt => rfl
          | eq => exact absurd hcmp heq
          | gt => exact absurd (Std.OrientedCmp.lt_of_gt hcmp) hlt
        have hnone : (ks.any fun k => decide (cmp key k = .eq)) = false := by
          refine List.any_eq_false.2 fun k hk => ?_
          rw [Std.TransCmp.lt_of_lt_of_isLE hkey (ha k hk)]
          decide
        rw [decide_eq_false heq, hnone, Bool.or_false]

end

/-- Keys that are inserted one after the other. -/
def Table.insertAll [Std.TransCmp cmp] (t : Table cmp) (keys : List α) : Table cmp :=
  keys.foldl .insert t

/-- The keys in the list are those that were inserted. -/
theorem Table.toList_insertAll [Std.TransCmp cmp] (t : Table cmp) (keys : List α) :
    (t.insertAll keys).toList.Perm (t.toList ++ keys) := by
  induction keys generalizing t with
  | nil => rw [insertAll, List.foldl_nil, List.append_nil]
  | cons key keys ih =>
    refine (ih (t.insert key)).trans ?_
    rw [t.toList_insert]
    refine ((List.perm_middle.append_right keys).trans ?_)
    rw [List.takeWhile_append_dropWhile]
    exact List.perm_middle.symm

/-- Sorted keys that all differ increase. -/
theorem pairwise_lt {ks : List α} (h : ks.Pairwise fun k k' => (cmp k k').isLE)
    (hne : ks.Pairwise fun k k' => cmp k k' ≠ .eq) : ks.Pairwise fun k k' => cmp k k' = .lt :=
  (h.and hne).imp fun {k k'} hkk' => by
    cases hcmp : cmp k k' with
    | lt => rfl
    | eq => exact absurd hcmp hkk'.2
    | gt =>
      rw [hcmp] at hkk'
      exact absurd hkk'.1 (by decide)

/-- **The skip list.** Keys that all differ are inserted into an empty list. Then there is a sorted
list of these keys of which an iterator shows the places: `Next` and `Prev` go one place on and
back, `Seek` goes to the first key that is not less, and `Contains` tells whether an equal key was
inserted. -/
theorem Table.insertAll_iterator [Std.TransCmp cmp] (keys : List α)
    (hkeys : keys.Pairwise fun k k' => cmp k k' ≠ .eq) :
    ∃ sorted : List α, ∃ node : ℕ → Iterator, sorted.Perm keys ∧
      (sorted.Pairwise fun k k' => cmp k k' = .lt) ∧
      (∀ i, (node i).key ((Table.empty : Table cmp).insertAll keys).list = sorted[i]?) ∧
      Iterator.seekToFirst ((Table.empty : Table cmp).insertAll keys).list = node 0 ∧
      Iterator.seekToLast ((Table.empty : Table cmp).insertAll keys).list =
        some (if sorted.length = 0 then none else node (sorted.length - 1)) ∧
      (∀ i, (node i).next ((Table.empty : Table cmp).insertAll keys).list = node (i + 1)) ∧
      (∀ i < sorted.length, (node i).prev cmp ((Table.empty : Table cmp).insertAll keys).list =
        some (if i = 0 then none else node (i - 1))) ∧
      (∀ key, Iterator.seek cmp ((Table.empty : Table cmp).insertAll keys).list key =
        some (node (sorted.countP (cmp · key = .lt)))) ∧
      ∀ key, ((Table.empty : Table cmp).insertAll keys).list.contains cmp key =
        some (keys.any fun k => cmp key k = .eq) := by
  generalize ht : (Table.empty : Table cmp).insertAll keys = t
  have hperm : t.toList.Perm keys := ht ▸ toList_insertAll .empty keys
  have hne : t.toList.Pairwise fun k k' => cmp k k' ≠ .eq :=
    (hperm.pairwise_iff fun {k k'} h h' => h (Std.OrientedCmp.eq_symm h')).2 hkeys
  have hsorted := pairwise_lt t.toList_sorted hne
  refine ⟨t.toList, t.node, hperm, hsorted, t.key_node, t.seekToFirst_eq, t.seekToLast_eq,
    t.next_node, fun i hi => ?_, fun key => ?_, fun key => ?_⟩
  · have hk := List.getElem?_eq_getElem hi
    rw [t.prev_eq hk, takeWhile_getElem hsorted hk]
  · rw [t.seek_eq, takeWhile_countP t.toList_sorted]
  · have hseek := t.seek_eq key
    rw [Iterator.seek, Option.map_eq_some_iff] at hseek
    obtain ⟨⟨x, prev⟩, hfind, rfl⟩ := hseek
    have hplace := any_place t.toList_sorted key
    rw [← t.key_node] at hplace
    rw [SkipList.contains, hfind, Option.map_some, ← hperm.any_eq, ← hplace]
    rfl

/-- Three numbers. -/
theorem Table.insertAll_iterator_three : ∃ sorted : List ℕ, sorted.Perm [5, 2, 9] ∧
    (sorted.Pairwise fun k k' => compare k k' = .lt) ∧
    ((Table.empty : Table (compare : ℕ → ℕ → Ordering)).insertAll [5, 2, 9]).list.contains compare 2 =
      some true := by
  obtain ⟨sorted, -, hperm, hsorted, -, -, -, -, -, -, hcontains⟩ :=
    @Table.insertAll_iterator ℕ compare _ [5, 2, 9] (by decide)
  exact ⟨sorted, hperm, hsorted, hcontains 2⟩

end SkipList

end TelecomSuite.LevelDb
