import TelecomSuite.LevelDb.DbFormat
import TelecomSuite.LevelDb.SkipList

/-!
# The table in memory

`db/memtable.cc`. An entry of the skip list is an internal key and a value, each behind its length.
`Get` answers with the newest version up to the snapshot's number of those that were added
(`get_eq`).
-/

namespace TelecomSuite.LevelDb

open SelfDelimiting Versions

/-- `GetLengthPrefixedSlice` of `memtable.cc`. -/
def entrySlice (data : Bytes) : Bytes :=
  match getVarint32 data with
  | some (len, p) => p.take len
  | none => []

/-- `MemTable::KeyComparator`. -/
def keyComparator (cmp : Comparator) : Comparator := fun a b =>
  internalCompare cmp (entrySlice a) (entrySlice b)

/-- The order of entries is one if that of the user keys is. -/
instance (cmp : Comparator) [Std.TransCmp cmp] : Std.TransCmp (keyComparator cmp) :=
  transCmp_comap (internalCompare cmp) entrySlice

/-- A table in memory: a skip list of entries. -/
structure MemTable (cmp : Comparator) where
  table : SkipList.Table (keyComparator cmp)

namespace MemTable

variable {cmp : Comparator}

/-- A new table. -/
def empty : MemTable cmp := ⟨.empty⟩

/-- The entry that `Add` puts together: the internal key and the value, each behind its length. -/
def encodeEntry (s : ℕ) (type : ValueType) (key value : Bytes) : Bytes :=
  encodeVarint32 (key.length + 8) ++ (key ++ (encodeFixed64 (s <<< 8 ||| type.code) ++
    (encodeVarint32 value.length ++ value)))

/-- `MemTable::Add`. -/
def add [Std.TransCmp cmp] (m : MemTable cmp) (s : ℕ) (type : ValueType) (key value : Bytes) :
    MemTable cmp :=
  ⟨m.table.insert (encodeEntry s type key value)⟩

/-- What `Get` makes of the entry where the search ends: the value, or none for a key that is
deleted, if it is an entry of the key. -/
def getEntry (cmp : Comparator) (userKey entry : Bytes) : Option (Option Bytes) :=
  match getVarint32 entry with
  | some (keyLength, keyPtr) =>
    if cmp (keyPtr.take (keyLength - 8)) userKey = .eq then
      let tag := decodeFixed64 (keyPtr.drop (keyLength - 8))
      if tag &&& 0xff = ValueType.value.code then some (some (entrySlice (keyPtr.drop keyLength)))
      else if tag &&& 0xff = ValueType.deletion.code then some none
      else none
    else none
  | none => none

/-- `MemTable::Get`: the first entry from the lookup key on says what is under the key. -/
def get (m : MemTable cmp) (userKey : Bytes) (s : ℕ) : Option (Option Bytes) := do
  let iter ← SkipList.Iterator.seek (keyComparator cmp) m.table.list (lookupKey userKey s)
  let entry ← iter.key m.table.list
  getEntry cmp userKey entry

/-! ## Entries -/

/-- A write as it is logged and kept in memory. -/
abbrev Write := Version Bytes Bytes

/-- The type of a write. -/
def typeOf (v : Write) : ValueType := if v.value.isSome then .value else .deletion

/-- The entry of a write. -/
def entryOf (v : Write) : Bytes := encodeEntry v.seq (typeOf v) v.key (v.value.getD [])

/-- The lengths fit into 32 bits and the number into 56. -/
structure Fits (v : Write) : Prop where
  seq : v.seq ≤ kMaxSequenceNumber
  key : v.key.length + 8 < 2 ^ 32
  value : (v.value.getD []).length < 2 ^ 32

section
variable {v w : Write}

/-- An entry is an internal key and a value, each behind its length. -/
theorem entryOf_eq (v : Write) : entryOf v = encodeVarint32 (v.key.length + 8) ++
    (appendInternalKey v.key v.seq (typeOf v) ++
      (encodeVarint32 (v.value.getD []).length ++ v.value.getD [])) := by
  rw [entryOf, encodeEntry, appendInternalKey, packSequenceAndType, List.append_assoc]

/-- An entry begins with the length of its internal key. -/
theorem getVarint32_entryOf (h : Fits v) : getVarint32 (entryOf v) =
    some (v.key.length + 8, appendInternalKey v.key v.seq (typeOf v) ++
      (encodeVarint32 (v.value.getD []).length ++ v.value.getD [])) := by
  rw [entryOf_eq]
  exact reads_varint32 h.key _

/-- The internal key of an entry is read back. -/
theorem entrySlice_entryOf (h : Fits v) :
    entrySlice (entryOf v) = appendInternalKey v.key v.seq (typeOf v) := by
  rw [entrySlice, getVarint32_entryOf h]
  dsimp only
  rw [← appendInternalKey_length v.key v.seq (typeOf v), List.take_left]

/-- The internal key of a lookup key is read back. -/
theorem entrySlice_lookupKey {k : Bytes} {s : ℕ} (hk : k.length + 8 < 2 ^ 32) :
    entrySlice (lookupKey k s) = appendInternalKey k s kValueTypeForSeek := by
  rw [entrySlice, lookupKey, reads_varint32 hk]
  dsimp only
  rw [← appendInternalKey_length k s kValueTypeForSeek, List.take_length]

/-- Entries are in the order of their keys, with the new writes first. -/
theorem compare_entryOf (hv : Fits v) (hw : Fits w) :
    keyComparator cmp (entryOf v) (entryOf w) = (cmp v.key w.key).then
      (compare (w.seq * 256 + (typeOf w).code) (v.seq * 256 + (typeOf v).code)) := by
  rw [keyComparator, entrySlice_entryOf hv, entrySlice_entryOf hw, internalCompare,
    extractUserKey_append, extractUserKey_append, extractTag_append _ _ _ hv.seq,
    extractTag_append _ _ _ hw.seq]

/-- There are two types. -/
theorem code_lt (t : ValueType) : t.code < 2 := by cases t <;> decide

/-- The entries before the place where `Get` seeks. -/
theorem before_lookupKey {k : Bytes} {s : ℕ} (hv : Fits v) (hk : k.length + 8 < 2 ^ 32)
    (hs : s ≤ kMaxSequenceNumber) :
    keyComparator cmp (entryOf v) (lookupKey k s) = .lt ↔ Before cmp k s v := by
  have hcode := code_lt (typeOf v)
  rw [keyComparator, entrySlice_entryOf hv, entrySlice_lookupKey hk, internalCompare,
    extractUserKey_append, extractUserKey_append, extractTag_append _ _ _ hv.seq,
    extractTag_append _ _ _ hs, Ordering.then_eq_lt, Nat.compare_eq_lt]
  refine or_congr_right (and_congr_right fun _ => ?_)
  rw [kValueTypeForSeek, ValueType.code]
  omega

end

/-! ## What a table holds -/

/-- The entries are those of the writes, in the order of the table. -/
def Holds (m : MemTable cmp) (vs : List Write) : Prop :=
  ∃ ws : List Write, ws.Perm vs ∧ m.table.toList = ws.map entryOf

/-- A write is added. -/
def addWrite [Std.TransCmp cmp] (m : MemTable cmp) (v : Write) : MemTable cmp :=
  m.add v.seq (typeOf v) v.key (v.value.getD [])

section
variable {m : MemTable cmp} {vs ws : List Write} {v : Write} {k : Bytes} {s : ℕ}

/-- A new table holds nothing. -/
theorem empty_holds : (empty : MemTable cmp).Holds [] := ⟨[], .nil, rfl⟩

/-- The order in which the writes came does not matter. -/
theorem Holds.perm (h : m.Holds vs) (hperm : vs.Perm ws) : m.Holds ws := by
  obtain ⟨us, hus, hlist⟩ := h
  exact ⟨us, hus.trans hperm, hlist⟩

/-- Without a first entry there are no writes. -/
theorem Holds.eq_nil (h : m.Holds vs)
    (hfirst : SkipList.Iterator.seekToFirst m.table.list = none) : vs = [] := by
  obtain ⟨ws, hperm, hlist⟩ := h
  rw [m.table.seekToFirst_eq, SkipList.Table.node, List.getElem?_eq_none_iff, Nat.le_zero,
    List.length_eq_zero_iff] at hfirst
  rw [SkipList.Table.toList, hfirst, List.filterMap_nil] at hlist
  rw [List.map_eq_nil_iff.1 hlist.symm] at hperm
  exact hperm.nil_eq.symm

/-- A write is added to what the table holds. -/
theorem Holds.addWrite [Std.TransCmp cmp] (h : m.Holds vs) (v : Write) :
    (m.addWrite v).Holds (v :: vs) := by
  obtain ⟨ws, hperm, hlist⟩ := h
  refine ⟨ws.takeWhile (fun w => keyComparator cmp (entryOf w) (entryOf v) = .lt) ++ v ::
    ws.dropWhile (fun w => keyComparator cmp (entryOf w) (entryOf v) = .lt), ?_, ?_⟩
  · refine List.perm_middle.trans ((List.Perm.cons v ?_))
    rwa [List.takeWhile_append_dropWhile]
  · refine (m.table.toList_insert (entryOf v)).trans ?_
    rw [hlist, List.takeWhile_map, List.dropWhile_map, List.map_append, List.map_cons]
    rfl

/-- Writes are added one after the other. -/
theorem addWrite_foldl_holds [Std.TransCmp cmp] (h : m.Holds ws) (vs : List Write) :
    (vs.foldl MemTable.addWrite m).Holds (ws ++ vs) := by
  induction vs generalizing m ws with
  | nil => exact h.perm (.of_eq (List.append_nil ws).symm)
  | cons v vs ih => exact (ih (h.addWrite v)).perm List.perm_middle.symm

/-- The entries are in the order of their keys with the new versions first. -/
theorem sorted_of_compare [Std.TransCmp cmp] (hfits : ∀ v ∈ ws, Fits v)
    (hdistinct : Distinct cmp ws)
    (h : (ws.map entryOf).Pairwise fun a b => (keyComparator cmp a b).isLE) : Sorted cmp ws := by
  refine ((List.pairwise_map.1 h).and hdistinct).imp_of_mem fun {v w} hv hw hvw => ?_
  obtain ⟨hle, happart⟩ := hvw
  rw [compare_entryOf (hfits v hv) (hfits w hw)] at hle
  have hcode := code_lt (typeOf v)
  have hcode' := code_lt (typeOf w)
  cases hcmp : cmp v.key w.key with
  | lt => exact Or.inl hcmp
  | eq =>
    have hne := happart hcmp
    rw [hcmp, Ordering.eq_then, Nat.isLE_compare] at hle
    exact Or.inr ⟨hcmp, by omega⟩
  | gt =>
    rw [hcmp] at hle
    cases hle

/-- An entry of the key says what was written, and an entry of another key says nothing. -/
theorem getEntry_entryOf (hv : Fits v) (userKey : Bytes) :
    getEntry cmp userKey (entryOf v) = if cmp v.key userKey = .eq then some v.value else none := by
  have hkey : (appendInternalKey v.key v.seq (typeOf v) ++
      (encodeVarint32 (v.value.getD []).length ++ v.value.getD [])).take (v.key.length + 8 - 8) =
      v.key := by
    rw [Nat.add_sub_cancel, appendInternalKey, List.append_assoc, List.take_left]
  have htag : decodeFixed64 ((appendInternalKey v.key v.seq (typeOf v) ++
      (encodeVarint32 (v.value.getD []).length ++ v.value.getD [])).drop (v.key.length + 8 - 8)) &&&
      0xff = (typeOf v).code := by
    have hcode := code_lt (typeOf v)
    have hseq := hv.seq
    rw [kMaxSequenceNumber] at hseq
    rw [Nat.add_sub_cancel, appendInternalKey, List.append_assoc, List.drop_left,
      decodeFixed64_encodeFixed64, pack_eq, Nat.and_two_pow_sub_one_eq_mod _ 8]
    omega
  have hvalue : entrySlice ((appendInternalKey v.key v.seq (typeOf v) ++
      (encodeVarint32 (v.value.getD []).length ++ v.value.getD [])).drop (v.key.length + 8)) =
      v.value.getD [] := by
    rw [← appendInternalKey_length v.key v.seq (typeOf v), List.drop_left, entrySlice,
      reads_varint32 hv.value]
    exact List.take_length
  rw [getEntry, getVarint32_entryOf hv]
  dsimp only
  rw [hkey, htag, hvalue, typeOf]
  cases v.value <;> rfl

/-- Only what the property says of the members of the list counts. -/
theorem dropWhile_congr {p q : Write → Bool} (h : ∀ w ∈ ws, p w = q w) :
    ws.dropWhile p = ws.dropWhile q := by
  induction ws with
  | nil => rfl
  | cons w ws ih =>
    rw [List.dropWhile_cons, List.dropWhile_cons, h w List.mem_cons_self,
      ih fun a ha => h a (List.mem_cons_of_mem w ha)]

/-- **`Get` of the table in memory.** The value of the newest version that the snapshot sees. -/
theorem get_eq [Std.TransCmp cmp] (h : m.Holds vs) (hfits : ∀ v ∈ vs, Fits v)
    (hdistinct : Distinct cmp vs) (hk : k.length + 8 < 2 ^ 32) (hs : s ≤ kMaxSequenceNumber) :
    m.get k s = (newest cmp k s vs).map (·.value) := by
  obtain ⟨ws, hperm, hlist⟩ := h
  have hfits' (v : Write) (hv : v ∈ ws) : Fits v := hfits v (hperm.mem_iff.1 hv)
  have hdistinct' : Distinct cmp ws := (hperm.pairwise_iff Apart.symm).2 hdistinct
  have hsorted : Sorted cmp ws :=
    sorted_of_compare hfits' hdistinct' (hlist ▸ m.table.toList_sorted)
  have hplace : ws.dropWhile (fun w => keyComparator cmp (entryOf w) (lookupKey k s) = .lt) =
      ws.dropWhile (Before cmp k s ·) :=
    dropWhile_congr fun w hw => decide_eq_decide.2 (before_lookupKey (hfits' w hw) hk hs)
  have hentry : m.table.toList[(m.table.toList.takeWhile
      (keyComparator cmp · (lookupKey k s) = .lt)).length]? =
      (ws.dropWhile (Before cmp k s ·)).head?.map entryOf := by
    rw [← SkipList.head?_dropWhile, hlist, List.dropWhile_map, List.head?_map, ← hplace]
    rfl
  rw [newest_perm hdistinct hperm.symm, newest_of_sorted hsorted, get, m.table.seek_eq]
  simp only [Option.bind_eq_bind, Option.bind_some]
  rw [m.table.key_node, hentry]
  cases hfirst : (ws.dropWhile (Before cmp k s ·)).head? with
  | none => rfl
  | some w =>
    have hw : w ∈ ws := (List.dropWhile_sublist _).subset (List.mem_of_mem_head? hfirst)
    rw [Option.map_some, Option.bind_some, getEntry_entryOf (hfits' w hw)]
    by_cases hkey : cmp w.key k = .eq <;> simp [hkey]

end

/-- **The table in memory as a map.** Writes with distinct numbers were added in any order. `Get`
finds the value or the deletion that the newest of them makes that the snapshot sees. -/
theorem get_foldl_addWrite [Std.TransCmp cmp] (vs : List Write) (hfits : ∀ v ∈ vs, Fits v)
    (hdistinct : Distinct cmp vs) (k : Bytes) (hk : k.length + 8 < 2 ^ 32) (s : ℕ)
    (hs : s ≤ kMaxSequenceNumber) :
    (vs.foldl addWrite (empty : MemTable cmp)).get k s = (newest cmp k s vs).map (·.value) :=
  get_eq (addWrite_foldl_holds empty_holds vs) hfits hdistinct hk hs

/-- A key is written, deleted and read at the snapshots before and after. -/
theorem get_foldl_addWrite_deleted :
    let vs : List Write := [⟨[7], 2, none⟩, ⟨[7], 1, some [9]⟩]
    let m : MemTable Slice.compare := vs.foldl addWrite empty
    m.get [7] 0 = none ∧ m.get [7] 1 = some (some [9]) ∧ m.get [7] 2 = some none := by
  have hfits : ∀ v ∈ [(⟨[7], 2, none⟩ : Write), ⟨[7], 1, some [9]⟩], Fits v :=
    List.forall_mem_cons.2 ⟨⟨by decide, by decide, by decide⟩,
      List.forall_mem_singleton.2 ⟨by decide, by decide, by decide⟩⟩
  have hdistinct : Distinct Slice.compare [(⟨[7], 2, none⟩ : Write), ⟨[7], 1, some [9]⟩] := by
    simp [Distinct, Apart]
  have hget (s : ℕ) (hs : s ≤ kMaxSequenceNumber) :=
    get_foldl_addWrite _ hfits hdistinct [7] (by decide) s hs
  exact ⟨hget 0 (by decide), hget 1 (by decide), hget 2 (by decide)⟩

end MemTable

end TelecomSuite.LevelDb
