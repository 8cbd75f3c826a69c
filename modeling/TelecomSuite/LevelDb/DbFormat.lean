import Mathlib.Data.Nat.Basic
import Mathlib.Data.Ordering.Basic
import TelecomSuite.LevelDb.Coding
import TelecomSuite.Lib.Versions

/-!
# Internal keys

`db/dbformat.h`, `db/dbformat.cc` and the comparison of `include/leveldb/slice.h`. An internal key
is a key of the user with a number and a type behind it. Internal keys are in the order of the
user's keys, and those of one key from the highest number to the lowest (`internalCompare`).
-/

namespace TelecomSuite.LevelDb

open SelfDelimiting Versions

/-! ## Comparators -/

/-- A comparator of user keys. -/
abbrev Comparator := Bytes → Bytes → Ordering

/-- `memcmp` of two texts of the same length. -/
def memcmp : Bytes → Bytes → Ordering
  | a :: as, b :: bs => (compare a b).then (memcmp as bs)
  | _, _ => .eq

/-- `Slice::compare`, the order of `BytewiseComparator`. -/
def Slice.compare (a b : Bytes) : Ordering :=
  let minLen := min a.length b.length
  (memcmp (a.take minLen) (b.take minLen)).then (Ord.compare a.length b.length)

/-! ## Internal keys -/

/-- The type of a write, as it is encoded in an internal key. -/
inductive ValueType
  | deletion
  | value
  deriving DecidableEq

/-- The number that stands for the type. -/
def ValueType.code : ValueType → ℕ
  | .deletion => 0
  | .value => 1

/-- The type in the key of a search. It is the highest, so that the search begins at the newest
write. -/
def kValueTypeForSeek : ValueType := .value

/-- The highest number that fits beside the type. -/
def kMaxSequenceNumber : ℕ := 2 ^ 56 - 1

/-- `PackSequenceAndType`. -/
def packSequenceAndType (seq : ℕ) (t : ValueType) : ℕ := seq <<< 8 ||| t.code

/-- `AppendInternalKey`: the user key, and eight bytes with the number and the type. -/
def appendInternalKey (userKey : Bytes) (sequence : ℕ) (type : ValueType) : Bytes :=
  userKey ++ encodeFixed64 (packSequenceAndType sequence type)

/-- `ExtractUserKey`. -/
def extractUserKey (internalKey : Bytes) : Bytes := internalKey.take (internalKey.length - 8)

/-- The number and the type as one number. -/
def extractTag (internalKey : Bytes) : ℕ :=
  decodeFixed64 (internalKey.drop (internalKey.length - 8))

/-- The parts of an internal key. -/
structure ParsedInternalKey where
  userKey : Bytes
  sequence : ℕ
  type : ℕ

/-- `ParseInternalKey`: the parts and whether they are valid, if there are eight bytes. -/
def parseInternalKey (internalKey : Bytes) : Option ParsedInternalKey :=
  if internalKey.length < 8 then none
  else
    let num := extractTag internalKey
    if num &&& 0xff ≤ ValueType.value.code then
      some ⟨extractUserKey internalKey, num >>> 8, num &&& 0xff⟩
    else none

/-- `InternalKeyComparator::Compare`. -/
def internalCompare (cmp : Comparator) : Comparator := fun akey bkey =>
  (cmp (extractUserKey akey) (extractUserKey bkey)).then
    (compare (extractTag bkey) (extractTag akey))

/-- `LookupKey::memtable_key`. -/
def lookupKey (userKey : Bytes) (s : ℕ) : Bytes :=
  encodeVarint32 (userKey.length + 8) ++ appendInternalKey userKey s kValueTypeForSeek

/-! ## The orders -/

/-- The first bytes decide, and then the rest. -/
theorem slice_compare_cons (a b : UInt8) (as bs : Bytes) :
    Slice.compare (a :: as) (b :: bs) = (compare a b).then (Slice.compare as bs) := by
  simp only [Slice.compare, List.length_cons, Nat.add_min_add_right, List.take_succ_cons, memcmp,
    Ordering.then_assoc]
  congr 2
  simp [Nat.compare_eq_ite_lt]

/-- The order of slices is the lexicographic one. -/
theorem slice_compare_eq : Slice.compare = List.compareLex compare := by
  funext a b
  induction a generalizing b with
  | nil =>
    cases b with
    | nil => rfl
    | cons b bs => rfl
  | cons a as ih =>
    cases b with
    | nil => rfl
    | cons b bs =>
      rw [slice_compare_cons, ih, List.compareLex_cons_cons]

/-- The order of slices is an order. -/
instance : Std.TransCmp Slice.compare := by
  rw [slice_compare_eq]
  infer_instance

/-- Only a slice is equal to itself. -/
instance : Std.LawfulEqCmp Slice.compare := by
  rw [slice_compare_eq]
  infer_instance

section
variable {cmp : Comparator}

/-- A comparison of what is computed from the arguments. -/
theorem transCmp_comap {α β : Type*} (cmp : β → β → Ordering) [Std.TransCmp cmp] (f : α → β) :
    Std.TransCmp fun a b => cmp (f a) (f b) where
  eq_swap := Std.OrientedCmp.eq_swap
  isLE_trans := Std.TransCmp.isLE_trans

/-- The order of internal keys is one if that of the user keys is. -/
instance [Std.TransCmp cmp] : Std.TransCmp (internalCompare cmp) := by
  have hkey : Std.TransCmp fun a b => cmp (extractUserKey a) (extractUserKey b) :=
    transCmp_comap cmp _
  have htag : Std.TransCmp fun a b => compare (extractTag b) (extractTag a) :=
    transCmp_comap (fun a b : ℕ => compare b a) extractTag
  exact inferInstanceAs (Std.TransCmp (compareLex
    (fun a b => cmp (extractUserKey a) (extractUserKey b))
    fun a b => compare (extractTag b) (extractTag a)))

variable (userKey : Bytes) (seq : ℕ) (type : ValueType)

/-- An internal key is eight bytes longer than the user key. -/
theorem appendInternalKey_length :
    (appendInternalKey userKey seq type).length = userKey.length + 8 := by
  rw [appendInternalKey, List.length_append, encodeFixed64_length]

/-- The user key is read back. -/
theorem extractUserKey_append : extractUserKey (appendInternalKey userKey seq type) = userKey := by
  rw [extractUserKey, appendInternalKey_length, Nat.add_sub_cancel, appendInternalKey,
    List.take_left]

/-- The type is in the low byte. -/
theorem pack_eq : packSequenceAndType seq type = seq * 256 + type.code := by
  have hlt : type.code < 2 ^ 8 := by cases type <;> decide
  rw [packSequenceAndType, ← Nat.shiftLeft_add_eq_or_of_lt hlt, Nat.shiftLeft_eq]

/-- The number and the type are read back. -/
theorem extractTag_append (h : seq ≤ kMaxSequenceNumber) :
    extractTag (appendInternalKey userKey seq type) = seq * 256 + type.code := by
  have hlt : type.code < 2 := by cases type <;> decide
  have hmod := decodeFixed64_encodeFixed64 (packSequenceAndType seq type) []
  rw [List.append_nil] at hmod
  rw [kMaxSequenceNumber] at h
  rw [extractTag, appendInternalKey_length, Nat.add_sub_cancel, appendInternalKey, List.drop_left,
    hmod, pack_eq, Nat.mod_eq_of_lt (by omega)]

/-- What was put together is parsed. -/
theorem parseInternalKey_append (h : seq ≤ kMaxSequenceNumber) :
    parseInternalKey (appendInternalKey userKey seq type) = some ⟨userKey, seq, type.code⟩ := by
  have hlt : type.code < 2 := by cases type <;> decide
  have hnot : ¬ (appendInternalKey userKey seq type).length < 8 := by
    rw [appendInternalKey_length]
    omega
  have hlow : (seq * 256 + type.code) &&& 0xff = type.code := by
    rw [Nat.and_two_pow_sub_one_eq_mod _ 8]
    omega
  have hhigh : (seq * 256 + type.code) >>> 8 = seq := by
    rw [Nat.shiftRight_eq_div_pow]
    omega
  have hvalid : type.code ≤ ValueType.value.code := Nat.lt_succ_iff.1 hlt
  rw [parseInternalKey, if_neg hnot, extractTag_append _ _ _ h, extractUserKey_append]
  dsimp only
  rw [hlow, hhigh, if_pos hvalid]

end

end TelecomSuite.LevelDb
