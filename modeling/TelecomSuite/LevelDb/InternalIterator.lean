import Mathlib.Data.List.TakeWhile
import TelecomSuite.LevelDb.MemTable
import TelecomSuite.LevelDb.Merger

/-!
# The internal iterator

`MemTableIterator` of `db/memtable.cc` goes over the entries of a table in the order of their
internal keys (`iterator_over`), and the iterators of several tables have together the entries of
all of them (`tables_merged`).
-/

namespace TelecomSuite.LevelDb

open Iterators Versions SkipList MergingIterator

namespace MemTable

variable {cmp : Comparator}

/-- `EncodeKey`. -/
def encodeKey (target : Bytes) : Bytes := encodeVarint32 target.length ++ target

/-- `key` and `value` of an iterator that is at this entry. -/
def entryPair (data : Bytes) : Bytes × Bytes :=
  (entrySlice data,
    match getVarint32 data with
    | some (len, p) => entrySlice (p.drop len)
    | none => [])

/-- `Seek` ends. -/
theorem seek_isSome [Std.TransCmp cmp] (m : MemTable cmp) (key : Bytes) :
    (SkipList.Iterator.seek (keyComparator cmp) m.table.list key).isSome := by
  rw [m.table.seek_eq]
  rfl

/-- `SeekToLast` ends. -/
theorem seekToLast_isSome (m : MemTable cmp) :
    (SkipList.Iterator.seekToLast m.table.list).isSome := by
  rw [m.table.seekToLast_eq]
  rfl

/-- `Prev` ends. -/
theorem prev_isSome [Std.TransCmp cmp] (m : MemTable cmp) (it : SkipList.Iterator) :
    (it.prev (keyComparator cmp) m.table.list).isSome := by
  rw [SkipList.Iterator.prev]
  cases it.key m.table.list with
  | none => rfl
  | some key =>
    dsimp only
    rw [m.table.findLessThan_eq]
    rfl

/-- `MemTableIterator`. -/
def iterator [Std.TransCmp cmp] (m : MemTable cmp) :
    Iterators.Iterator Bytes Bytes SkipList.Iterator where
  entry it := (it.key m.table.list).map entryPair
  seekToFirst _ := SkipList.Iterator.seekToFirst m.table.list
  seekToLast _ := (SkipList.Iterator.seekToLast m.table.list).get m.seekToLast_isSome
  seek target _ := (SkipList.Iterator.seek (keyComparator cmp) m.table.list
    (encodeKey target)).get (m.seek_isSome _)
  next it := it.next m.table.list
  prev it := (it.prev (keyComparator cmp) m.table.list).get (m.prev_isSome it)

/-- The internal key and the value of a write. -/
def internalEntry (v : Write) : Bytes × Bytes :=
  (appendInternalKey v.key v.seq (typeOf v), v.value.getD [])

section
variable {m : MemTable cmp} {v w : Write} {ws : List Write}

/-- At an entry the iterator shows the internal key and the value of its write. -/
theorem entryPair_entryOf (h : Fits v) : entryPair (entryOf v) = internalEntry v := by
  rw [entryPair, entrySlice_entryOf h, getVarint32_entryOf h, internalEntry]
  dsimp only
  rw [← appendInternalKey_length v.key v.seq (typeOf v), List.drop_left, entrySlice,
    reads_varint32 h.value]
  dsimp only
  rw [List.take_length]

/-- A target is read back. -/
theorem entrySlice_encodeKey {target : Bytes} (h : target.length < 2 ^ 32) :
    entrySlice (encodeKey target) = target := by
  rw [entrySlice, encodeKey, reads_varint32 h]
  exact List.take_length

/-- Entries are in the order of their internal keys. -/
theorem compare_internalEntry (hv : Fits v) (hw : Fits w) :
    internalCompare cmp (internalEntry v).1 (internalEntry w).1 =
      keyComparator cmp (entryOf v) (entryOf w) := by
  rw [keyComparator, entrySlice_entryOf hv, entrySlice_entryOf hw]
  rfl

/-- Entries in the order of their keys with the new versions first. -/
theorem internalEntry_sorted (hfits : ∀ v ∈ ws, Fits v) (hsorted : Versions.Sorted cmp ws) :
    Iterators.Sorted (internalCompare cmp) (ws.map internalEntry) := by
  refine List.pairwise_map.2 (hsorted.imp_of_mem fun {v w} hv hw hbefore => ?_)
  have hcode := code_lt (typeOf v)
  have hcode' := code_lt (typeOf w)
  rw [compare_internalEntry (hfits v hv) (hfits w hw), compare_entryOf (hfits v hv) (hfits w hw),
    Ordering.then_eq_lt, Nat.compare_eq_lt]
  exact hbefore.imp_right (And.imp_right fun hlt => by omega)

/-- The places of the skip list are those of the list of writes. -/
theorem entry_node [Std.TransCmp cmp] (hlist : m.table.toList = ws.map entryOf)
    (hfits : ∀ v ∈ ws, Fits v) (i : ℕ) :
    m.iterator.entry (m.table.node i) = (ws.map internalEntry)[i]? := by
  rw [show m.iterator.entry (m.table.node i) =
    ((m.table.node i).key m.table.list).map entryPair from rfl, m.table.key_node, hlist,
    List.getElem?_map, List.getElem?_map, Option.map_map]
  cases hv : ws[i]? with
  | none => rfl
  | some v => exact congrArg some (entryPair_entryOf (hfits v (List.mem_of_getElem? hv)))

/-- Only what the property says of the members of the list counts. -/
theorem takeWhile_congr {p q : Write → Bool} (h : ∀ w ∈ ws, p w = q w) :
    ws.takeWhile p = ws.takeWhile q := by
  induction ws with
  | nil => rfl
  | cons w ws ih =>
    rw [List.takeWhile_cons, List.takeWhile_cons, h w List.mem_cons_self,
      ih fun a ha => h a (List.mem_cons_of_mem w ha)]

/-- The place where a search ends is the first one that is not before the target. -/
theorem seek_place [Std.TransCmp cmp] (hfits : ∀ v ∈ ws, Fits v) {target : Bytes}
    (htarget : target.length < 2 ^ 32) :
    (ws.map internalEntry)[((ws.map entryOf).takeWhile
      (keyComparator cmp · (encodeKey target) = .lt)).length]? =
      (ws.map internalEntry).find? fun b => (internalCompare cmp target b.1).isLE := by
  rw [List.find?_eq_head?_dropWhile_not, head?_dropWhile, List.takeWhile_map, List.takeWhile_map,
    List.length_map, List.length_map]
  congr 2
  refine takeWhile_congr fun w hw => ?_
  have hcompare : keyComparator cmp (entryOf w) (encodeKey target) =
      internalCompare cmp (internalEntry w).1 target := by
    rw [keyComparator, entrySlice_entryOf (hfits w hw), entrySlice_encodeKey htarget]
    rfl
  rw [Function.comp_apply, Function.comp_apply, hcompare, Bool.eq_iff_iff, decide_eq_true_iff,
    Bool.not_eq_true']
  exact ⟨fun hlt => Bool.eq_false_iff.2 (Std.OrientedCmp.not_isLE_of_lt hlt),
    fun hle => Std.OrientedCmp.lt_of_not_isLE (Bool.eq_false_iff.1 hle)⟩

/-- **The iterator of a table.** -/
theorem iterator_over [Std.TransCmp cmp] (hlist : m.table.toList = ws.map entryOf)
    (hfits : ∀ v ∈ ws, Fits v) (hsorted : Versions.Sorted cmp ws) :
    Over (internalCompare cmp) (fun k => k.length < 2 ^ 32) m.iterator (ws.map internalEntry)
      fun it => ∃ i, it = m.table.node i := by
  have hlength : m.table.toList.length = (ws.map internalEntry).length := by
    rw [hlist, List.length_map, List.length_map]
  have hentries := internalEntry_sorted hfits hsorted
  have hnone : m.table.node (ws.map internalEntry).length = none := by
    have hkey := m.table.key_node (ws.map internalEntry).length
    rw [List.getElem?_eq_none hlength.le] at hkey
    rw [SkipList.Table.node, List.getElem?_eq_none_iff, ← hlength, SkipList.Table.toList,
      filterMap_length m.table.key_isSome]
  refine ⟨hentries, fun a ha => ?_, fun move it hit hallowed => ?_⟩
  · obtain ⟨v, hv, rfl⟩ := List.mem_map.1 ha
    rw [internalEntry, appendInternalKey_length]
    exact (hfits v hv).key
  · obtain ⟨i, rfl⟩ := hit
    have hentry := entry_node hlist hfits
    cases move with
    | seekToFirst =>
      have hfirst : m.iterator.move .seekToFirst (m.table.node i) = m.table.node 0 :=
        m.table.seekToFirst_eq
      rw [hfirst, hentry]
      exact ⟨⟨0, rfl⟩, List.head?_eq_getElem?.symm⟩
    | seekToLast =>
      have hlast : m.iterator.move .seekToLast (m.table.node i) =
          if (ws.map internalEntry).length = 0 then none
          else m.table.node ((ws.map internalEntry).length - 1) := by
        simp only [Iterator.move, iterator, m.table.seekToLast_eq, Option.get_some, hlength]
      rw [hlast, Move.place, List.getLast?_eq_getElem?]
      split_ifs with hzero
      · rw [← hnone, hentry, hzero]
        exact ⟨⟨0, rfl⟩, rfl⟩
      · exact ⟨⟨_, rfl⟩, hentry _⟩
    | seek target =>
      have hseek : m.iterator.move (.seek target) (m.table.node i) = m.table.node
          (m.table.toList.takeWhile (keyComparator cmp · (encodeKey target) = .lt)).length := by
        simp only [Iterator.move, iterator, m.table.seek_eq, Option.get_some]
      rw [hseek, hentry, hlist, seek_place hfits hallowed]
      exact ⟨⟨_, rfl⟩, rfl⟩
    | next =>
      obtain ⟨a, ha⟩ := Option.isSome_iff_exists.1 hallowed
      have hnext : m.iterator.move .next (m.table.node i) = m.table.node (i + 1) :=
        m.table.next_node i
      rw [hnext, hentry, ha, ← find?_after hentries ((hentry i).symm.trans ha)]
      exact ⟨⟨_, rfl⟩, rfl⟩
    | prev =>
      obtain ⟨a, ha⟩ := Option.isSome_iff_exists.1 hallowed
      have hplace := (hentry i).symm.trans ha
      obtain ⟨v, hv, -⟩ := Option.map_eq_some_iff.1 (List.getElem?_map.symm.trans hplace)
      have hkey : m.table.toList[i]? = some (entryOf v) := by
        rw [hlist, List.getElem?_map, hv, Option.map_some]
      have hkeys : m.table.toList.Pairwise fun k k' => keyComparator cmp k k' = .lt := by
        rw [hlist, List.pairwise_map]
        refine (List.pairwise_map.1 hentries).imp_of_mem fun {v w} hv hw hlt => ?_
        rwa [← compare_internalEntry (hfits v hv) (hfits w hw)]
      have hprev : m.iterator.move .prev (m.table.node i) =
          if i = 0 then none else m.table.node (i - 1) := by
        simp only [Iterator.move, iterator, m.table.prev_eq hkey, takeWhile_getElem hkeys hkey,
          Option.get_some]
      rw [hprev, ha, show Move.place (internalCompare cmp) (ws.map internalEntry) .prev (some a) = _
        from find?_before hentries hplace]
      split_ifs with hzero
      · rw [← hnone, hentry]
        exact ⟨⟨_, rfl⟩, List.getElem?_eq_none le_rfl⟩
      · exact ⟨⟨_, rfl⟩, hentry _⟩

end

/-! ## Several tables -/

/-- Writes can be put in the order of their internal keys. -/
theorem exists_sorted [Std.TransCmp cmp] {vs : List Write} (hfits : ∀ v ∈ vs, Fits v)
    (hdistinct : Distinct cmp vs) : ∃ ws : List Write, ws.Perm vs ∧ Versions.Sorted cmp ws := by
  have hperm := vs.mergeSort_perm fun v w => (keyComparator cmp (entryOf v) (entryOf w)).isLE
  have htotal (v w : Write) : ((keyComparator cmp (entryOf v) (entryOf w)).isLE ||
      (keyComparator cmp (entryOf w) (entryOf v)).isLE) = true := by
    rw [Bool.or_eq_true]
    exact or_iff_not_imp_left.2 fun hnot =>
      Ordering.isLE_of_eq_lt (Std.OrientedCmp.lt_of_not_isLE hnot)
  have hsorted := List.pairwise_mergeSort (fun _ _ _ => Std.TransCmp.isLE_trans) htotal vs
  refine ⟨_, hperm, sorted_of_compare (fun v hv => hfits v (hperm.mem_iff.1 hv)) ?_ ?_⟩
  · exact (hperm.pairwise_iff Apart.symm).2 hdistinct
  · exact List.pairwise_map.2 hsorted

/-- The iterators of tables go over lists that make up all that the tables hold. -/
theorem tables_merged [Std.TransCmp cmp] {n : ℕ} {m : Fin n → MemTable cmp}
    {vs : Fin n → List Write} {ws : List Write} (hholds : ∀ i, (m i).Holds (vs i))
    (hfits : ∀ i, ∀ v ∈ vs i, Fits v) (hperm : ws.Perm ((List.finRange n).flatMap vs))
    (hsorted : Versions.Sorted cmp ws) :
    ∃ (ls : Fin n → List (Bytes × Bytes)) (states : Fin n → SkipList.Iterator → Prop),
      (∀ i, states i none) ∧
      (∀ i, Over (internalCompare cmp) (fun k => k.length < 2 ^ 32) (m i).iterator (ls i)
        (states i)) ∧
      Merged (internalCompare cmp) ls (ws.map internalEntry) := by
  have hdistinct : Distinct cmp ((List.finRange n).flatMap vs) :=
    (hperm.pairwise_iff Apart.symm).1 hsorted.distinct
  choose us hus hlist using hholds
  have hfits' (i : Fin n) (v : Write) (hv : v ∈ us i) : Fits v :=
    hfits i v ((hus i).mem_iff.1 hv)
  have hsorted' (i : Fin n) : Versions.Sorted cmp (us i) := by
    refine sorted_of_compare (hfits' i) ?_ (hlist i ▸ (m i).table.toList_sorted)
    exact ((hus i).pairwise_iff Apart.symm).2
      ((List.pairwise_flatMap.1 hdistinct).1 i (List.mem_finRange i))
  have hover (i : Fin n) := iterator_over (hlist i) (hfits' i) (hsorted' i)
  have hfitsAll (v : Write) (hv : v ∈ ws) : Fits v := by
    obtain ⟨i, -, hi⟩ := List.mem_flatMap.1 (hperm.mem_iff.1 hv)
    exact hfits i v hi
  have hmerged : Merged (internalCompare cmp) (fun i => (us i).map internalEntry)
      (ws.map internalEntry) := by
    refine ⟨internalEntry_sorted hfitsAll hsorted, ?_⟩
    rw [← List.map_flatMap]
    exact (hperm.trans (.flatMap_left _ fun i _ => (hus i).symm)).map internalEntry
  refine ⟨_, _, fun i => ⟨(m i).table.order.length, ?_⟩, hover, hmerged⟩
  exact (List.getElem?_eq_none le_rfl).symm

end MemTable

end TelecomSuite.LevelDb
