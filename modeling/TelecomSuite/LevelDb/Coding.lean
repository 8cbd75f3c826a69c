import Mathlib.Data.Nat.Bitwise
import Mathlib.Tactic.Common
import TelecomSuite.Lib.SelfDelimiting

/-!
# Numbers and texts as bytes

`util/coding.cc`: fixed-width numbers with the low byte first, numbers of variable length in groups
of seven bits, and texts behind their length. A number is read back from what was written whatever
follows (`reads_varint32`), and a proper beginning of it is refused (`cut_varint32`); the unrolled
`EncodeVarint32` writes what the loop of `EncodeVarint64` writes (`encodeVarint32_eq`).
-/

namespace TelecomSuite.LevelDb

open SelfDelimiting

/-- A `Slice` or a `std::string`. -/
abbrev Bytes := List UInt8

/-- `util/status.cc`. -/
inductive Status
  | ok
  | notFound (msg : String)
  | corruption (msg : String)
  | notSupported (msg : String)
  | invalidArgument (msg : String)
  | ioError (msg : String)
  deriving DecidableEq

/-! ## Fixed width -/

/-- `EncodeFixed32`. -/
def encodeFixed32 (value : ℕ) : Bytes :=
  [value.toUInt8, (value >>> 8).toUInt8, (value >>> 16).toUInt8, (value >>> 24).toUInt8]

/-- `EncodeFixed64`. -/
def encodeFixed64 (value : ℕ) : Bytes :=
  [value.toUInt8, (value >>> 8).toUInt8, (value >>> 16).toUInt8, (value >>> 24).toUInt8,
    (value >>> 32).toUInt8, (value >>> 40).toUInt8, (value >>> 48).toUInt8, (value >>> 56).toUInt8]

/-- The first four bytes. The callers make sure that there are four. -/
def decodeFixed32 : Bytes → ℕ
  | b₀ :: b₁ :: b₂ :: b₃ :: _ =>
    b₀.toNat ||| b₁.toNat <<< 8 ||| b₂.toNat <<< 16 ||| b₃.toNat <<< 24
  | _ => 0

/-- `DecodeFixed64`. -/
def decodeFixed64 (ptr : Bytes) : ℕ :=
  let lo := decodeFixed32 ptr
  let hi := decodeFixed32 (ptr.drop 4)
  hi <<< 32 ||| lo

/-! ## Variable length -/

/-- `EncodeVarint32`. -/
def encodeVarint32 (v : ℕ) : Bytes :=
  if v < 1 <<< 7 then [v.toUInt8]
  else if v < 1 <<< 14 then [(v ||| 128).toUInt8, (v >>> 7).toUInt8]
  else if v < 1 <<< 21 then [(v ||| 128).toUInt8, (v >>> 7 ||| 128).toUInt8, (v >>> 14).toUInt8]
  else if v < 1 <<< 28 then
    [(v ||| 128).toUInt8, (v >>> 7 ||| 128).toUInt8, (v >>> 14 ||| 128).toUInt8,
      (v >>> 21).toUInt8]
  else
    [(v ||| 128).toUInt8, (v >>> 7 ||| 128).toUInt8, (v >>> 14 ||| 128).toUInt8,
      (v >>> 21 ||| 128).toUInt8, (v >>> 28).toUInt8]

/-- `EncodeVarint64`. -/
def encodeVarint64 (v : ℕ) : Bytes :=
  if v < 128 then [v.toUInt8]
  else (v &&& 127 ||| 128).toUInt8 :: encodeVarint64 (v >>> 7)
termination_by v
decreasing_by
  rw [Nat.shiftRight_eq_div_pow]
  omega

/-- The loop of `GetVarint32PtrFallback`: `last` is the last shift, and the
result is a number of `width` bits. -/
def getVarint (last width shift result : ℕ) : Reader UInt8 ℕ
  | [] => none
  | byte :: p =>
    if shift ≤ last then
      if byte.toNat &&& 128 ≠ 0 then
        getVarint last width (shift + 7)
          (result ||| ((byte.toNat &&& 127) <<< shift) % 2 ^ width) p
      else some (result ||| (byte.toNat <<< shift) % 2 ^ width, p)
    else none

/-- `GetVarint32PtrFallback`. -/
def getVarint32PtrFallback : Reader UInt8 ℕ := getVarint 28 32 0 0

/-- `GetVarint32`. A first byte without the bit that more follows is the number. -/
def getVarint32 : Reader UInt8 ℕ
  | [] => getVarint32PtrFallback []
  | byte :: p =>
    if byte.toNat &&& 128 = 0 then some (byte.toNat, p) else getVarint32PtrFallback (byte :: p)

/-! ## Texts -/

/-- `PutLengthPrefixedSlice`. -/
def putLengthPrefixedSlice (value : Bytes) : Bytes := encodeVarint32 value.length ++ value

/-- `GetLengthPrefixedSlice`. -/
def getLengthPrefixedSlice : Reader UInt8 Bytes := fun input =>
  match getVarint32 input with
  | some (len, input) =>
    if len ≤ input.length then some (input.take len, input.drop len) else none
  | none => none

/-! ## Bits -/

/-- A conversion to a byte keeps the low eight bits. -/
theorem toNat_toUInt8 (n : ℕ) : n.toUInt8.toNat = n % 2 ^ 8 := by simp

/-- The bits below `k`, and the `n` bits from there on. -/
theorem mod_or_shiftLeft (v k n : ℕ) :
    v % 2 ^ k ||| (v >>> k % 2 ^ n) <<< k = v % 2 ^ (k + n) := by
  refine Nat.eq_of_testBit_eq fun i => ?_
  simp only [Nat.testBit_or, Nat.testBit_mod_two_pow, Nat.testBit_shiftLeft, Nat.testBit_shiftRight]
  by_cases hi : i < k
  · simp [hi, Nat.lt_add_right, Nat.not_le.2 hi]
  · have hk : k ≤ i := Nat.not_lt.1 hi
    have hlt : i - k < n ↔ i < k + n := by omega
    simp [hi, hk, hlt, Nat.add_sub_cancel' hk]

/-- A number of 32 bits is read back, whatever follows it. -/
theorem decodeFixed32_encodeFixed32 (value : ℕ) (rest : Bytes) :
    decodeFixed32 (encodeFixed32 value ++ rest) = value % 2 ^ 32 := by
  simp only [encodeFixed32, List.cons_append, decodeFixed32, toNat_toUInt8]
  rw [mod_or_shiftLeft value 8 8, mod_or_shiftLeft value 16 8, mod_or_shiftLeft value 24 8]

/-- A number of 64 bits is read back, whatever follows it. -/
theorem decodeFixed64_encodeFixed64 (value : ℕ) (rest : Bytes) :
    decodeFixed64 (encodeFixed64 value ++ rest) = value % 2 ^ 64 := by
  have hlo : decodeFixed32 (encodeFixed64 value ++ rest) = value % 2 ^ 32 :=
    decodeFixed32_encodeFixed32 value _
  have hhi : decodeFixed32 ((encodeFixed64 value ++ rest).drop 4) = value >>> 32 % 2 ^ 32 := by
    rw [← decodeFixed32_encodeFixed32 (value >>> 32) rest, encodeFixed32]
    simp only [← Nat.shiftRight_add]
    rfl
  rw [decodeFixed64, hlo, hhi, Nat.or_comm, mod_or_shiftLeft]

/-- Only the low 32 bits are written. -/
theorem encodeFixed32_mod (value : ℕ) : encodeFixed32 (value % 2 ^ 32) = encodeFixed32 value := by
  have hbyte (k : ℕ) (hk : k + 8 ≤ 32) :
      ((value % 2 ^ 32) >>> k).toUInt8 = (value >>> k).toUInt8 := by
    refine UInt8.toNat_inj.1 (Nat.eq_of_testBit_eq fun i => ?_)
    simp only [toNat_toUInt8, Nat.testBit_mod_two_pow, Nat.testBit_shiftRight]
    by_cases hi : i < 8
    · have hlt : k + i < 32 := by omega
      simp [hi, hlt]
    · simp [hi]
  rw [encodeFixed32, encodeFixed32, hbyte 8 (by decide), hbyte 16 (by decide),
    hbyte 24 (by decide)]
  exact congrArg (· :: _) (hbyte 0 (by decide))

/-- A fixed-width number of 32 bits takes four bytes. -/
theorem encodeFixed32_length (value : ℕ) : (encodeFixed32 value).length = 4 := rfl

/-- A fixed-width number of 64 bits takes eight bytes. -/
theorem encodeFixed64_length (value : ℕ) : (encodeFixed64 value).length = 8 := rfl

/-- A group with the bit that more follows. -/
theorem and_or_128 (v : ℕ) : (v &&& 127 ||| 128) = v % 128 + 128 := by
  have hlt : v % 2 ^ 7 < 2 ^ 7 := Nat.mod_lt v (by decide)
  rw [Nat.and_two_pow_sub_one_eq_mod v 7, Nat.or_comm, ← Nat.two_pow_add_eq_or_of_lt hlt 1]
  omega

/-- The unrolled code does not mask the group before it cuts it to a byte. -/
theorem or_128_toUInt8 (v : ℕ) : (v ||| 128).toUInt8 = (v &&& 127 ||| 128).toUInt8 := by
  refine UInt8.toNat_inj.1 (Nat.eq_of_testBit_eq fun i => ?_)
  simp only [toNat_toUInt8, Nat.testBit_mod_two_pow, Nat.testBit_or, Nat.testBit_and,
    Nat.testBit_two_pow_sub_one 7, Nat.testBit_two_pow (n := 7)]
  by_cases h7 : i < 7
  · simp [h7]
  · rcases Nat.lt_or_ge i 8 with h8 | h8
    · have : i = 7 := by omega
      simp [this]
    · simp [Nat.not_lt.2 h8]

/-- The bit that more follows is set from 128 on. -/
theorem and_128_eq_zero {n : ℕ} (h : n < 256) : n &&& 128 = 0 ↔ n < 128 := by
  have hbit : n.testBit 7 = decide (128 ≤ n) := by
    rw [Nat.testBit_eq_decide_div_mod_eq]
    refine decide_eq_decide.2 ?_
    omega
  have hand : n &&& 128 = (n.testBit 7).toNat * 128 := Nat.and_two_pow n 7
  rw [hand, hbit]
  by_cases hn : 128 ≤ n
  · simp [hn, Nat.not_lt.2 hn]
  · simp [hn, Nat.not_le.1 hn]

/-! ## Numbers of variable length are read back -/

/-- The last group. -/
theorem encodeVarint64_of_lt {v : ℕ} (h : v < 128) : encodeVarint64 v = [v.toUInt8] := by
  rw [encodeVarint64, if_pos h]

/-- A group that is not the last. -/
theorem encodeVarint64_of_le {v : ℕ} (h : 128 ≤ v) :
    encodeVarint64 v = (v ||| 128).toUInt8 :: encodeVarint64 (v >>> 7) := by
  rw [encodeVarint64, if_neg (Nat.not_lt.2 h), ← or_128_toUInt8]

/-- What is left after `k` bits fits into a group if the whole fits into `k + 7` bits. -/
theorem shiftRight_lt_iff (v k : ℕ) : v >>> k < 128 ↔ v < 1 <<< (k + 7) := by
  rw [Nat.shiftRight_eq_div_pow, Nat.div_lt_iff_lt_mul (Nat.two_pow_pos k), Nat.one_shiftLeft,
    Nat.pow_add, Nat.mul_comm]

/-- The five cases of `EncodeVarint32` are the loop of `EncodeVarint64`. -/
theorem encodeVarint32_eq {v : ℕ} (h : v < 2 ^ 32) : encodeVarint32 v = encodeVarint64 v := by
  have hlast {k : ℕ} (hk : v < 1 <<< (k + 7)) : encodeVarint64 (v >>> k) = [(v >>> k).toUInt8] :=
    encodeVarint64_of_lt ((shiftRight_lt_iff v k).2 hk)
  have hmore {k : ℕ} (hk : ¬ v < 1 <<< (k + 7)) :
      encodeVarint64 (v >>> k) = (v >>> k ||| 128).toUInt8 :: encodeVarint64 (v >>> (k + 7)) := by
    have hle : 128 ≤ v >>> k := Nat.not_lt.1 fun hlt => hk ((shiftRight_lt_iff v k).1 hlt)
    rw [encodeVarint64_of_le hle, Nat.shiftRight_add]
  rw [encodeVarint32]
  split_ifs with h₁ h₂ h₃ h₄
  · exact (hlast (k := 0) h₁).symm
  · exact ((hmore (k := 0) h₁).trans (by rw [hlast h₂]; rfl)).symm
  · exact ((hmore (k := 0) h₁).trans (by rw [hmore h₂, hlast h₃]; rfl)).symm
  · exact ((hmore (k := 0) h₁).trans (by rw [hmore h₂, hmore h₃, hlast h₄]; rfl)).symm
  · have h₅ : v < 1 <<< (28 + 7) := Nat.lt_of_lt_of_le h (by decide)
    exact ((hmore (k := 0) h₁).trans (by rw [hmore h₂, hmore h₃, hmore h₄, hlast h₅]; rfl)).symm

section
variable {last width n V : ℕ}

/-- The bits of a group that is not the last, and what is left to read behind it. -/
theorem encodeVarint64_group {v : ℕ} (h : 128 ≤ v) : ∃ byte : UInt8,
    encodeVarint64 v = byte :: encodeVarint64 (v >>> 7) ∧ byte.toNat &&& 128 ≠ 0 ∧
      byte.toNat &&& 127 = v % 2 ^ 7 := by
  have hbyte : (v &&& 127 ||| 128).toUInt8.toNat = v % 128 + 128 := by
    rw [toNat_toUInt8, and_or_128]
    omega
  refine ⟨(v &&& 127 ||| 128).toUInt8, ?_, ?_, ?_⟩
  · rw [encodeVarint64_of_le h, or_128_toUInt8]
  · rw [Ne, and_128_eq_zero (UInt8.toNat_lt _), hbyte]
    omega
  · rw [Nat.and_two_pow_sub_one_eq_mod _ 7, hbyte]
    omega

/-- The bits from `k` on are no more than the number. -/
theorem shiftLeft_shiftRight_le (V k : ℕ) : (V >>> k) <<< k ≤ V := by
  rw [Nat.shiftLeft_eq, Nat.shiftRight_eq_div_pow]
  exact Nat.div_mul_le_self V (2 ^ k)

/-- The loop is at the `i`-th group: the result has the bits below it. -/
theorem getVarint_encodeVarint64 (hwidth : width ≤ 7 * n) (hV : V < 2 ^ width)
    (rest : Bytes) {i : ℕ} (hi : i < n) :
    getVarint (7 * (n - 1)) width (7 * i) (V % 2 ^ (7 * i))
      (encodeVarint64 (V >>> (7 * i)) ++ rest) = some (V, rest) := by
  have hshift : 7 * i ≤ 7 * (n - 1) := by omega
  have hbits := mod_or_shiftLeft V (7 * i) 7
  rcases Nat.lt_or_ge (V >>> (7 * i)) 128 with h | h
  · have hbyte : (V >>> (7 * i)).toUInt8.toNat = V >>> (7 * i) := by
      rw [toNat_toUInt8, Nat.mod_eq_of_lt (Nat.lt_trans h (by decide))]
    have hend : V < 2 ^ (7 * i + 7) := by
      rw [← Nat.one_shiftLeft]
      exact (shiftRight_lt_iff V _).1 h
    have hzero : V >>> (7 * i) &&& 128 = 0 :=
      (and_128_eq_zero (Nat.lt_trans h (by decide))).2 h
    rw [Nat.mod_eq_of_lt (b := 2 ^ 7) h, Nat.mod_eq_of_lt hend] at hbits
    rw [encodeVarint64_of_lt h, List.singleton_append, getVarint, if_pos hshift, hbyte,
      if_neg (not_not.2 hzero),
      Nat.mod_eq_of_lt (Nat.lt_of_le_of_lt (shiftLeft_shiftRight_le V _) hV), hbits]
  · obtain ⟨byte, hencode, hmore, hgroup⟩ := encodeVarint64_group h
    have hend : 2 ^ (7 * i + 7) ≤ V := by
      rw [← Nat.one_shiftLeft]
      exact Nat.not_lt.1 fun hlt => Nat.not_lt.2 h ((shiftRight_lt_iff V _).2 hlt)
    have hnext : i + 1 < n := by
      have hlt : 7 * i + 7 < 7 * n :=
        (Nat.pow_lt_pow_iff_right (by decide)).1
          (Nat.lt_of_lt_of_le (Nat.lt_of_le_of_lt hend hV)
            (Nat.pow_le_pow_right (by decide) hwidth))
      omega
    have hfits : (V >>> (7 * i) % 2 ^ 7) <<< (7 * i) < 2 ^ width := by
      refine Nat.lt_of_le_of_lt (Nat.le_trans ?_ (shiftLeft_shiftRight_le V (7 * i))) hV
      rw [Nat.shiftLeft_eq, Nat.shiftLeft_eq]
      exact Nat.mul_le_mul_right _ (Nat.mod_le _ _)
    rw [hencode, List.cons_append, getVarint, if_pos hshift, if_pos hmore, hgroup,
      Nat.mod_eq_of_lt hfits, hbits, ← Nat.shiftRight_add]
    exact getVarint_encodeVarint64 hwidth hV rest hnext
termination_by n - i

/-- A number that is cut off is refused. -/
theorem getVarint_cut (last width shift result v : ℕ) :
    Cut (getVarint last width shift result) (encodeVarint64 v) := by
  induction v using encodeVarint64.induct generalizing shift result with
  | case1 v hlt =>
    intro t u htu hu
    rw [encodeVarint64_of_lt hlt, List.append_eq_singleton_iff] at htu
    rcases htu with ⟨rfl, -⟩ | ⟨-, rfl⟩
    · rfl
    · exact absurd rfl hu
  | case2 v hle ih =>
    intro t u htu hu
    obtain ⟨byte, hencode, hmore, -⟩ := encodeVarint64_group (Nat.not_lt.1 hle)
    rw [hencode] at htu
    cases t with
    | nil => rfl
    | cons b t =>
      obtain ⟨rfl, htail⟩ := List.cons.inj htu
      rw [getVarint]
      split_ifs
      · exact ih _ _ t u htail hu
      · rfl

/-- The case of one byte at the start of `GetVarint32Ptr` is the first round of the loop. -/
theorem getVarint32_eq : getVarint32 = getVarint 28 32 0 0 := by
  funext p
  cases p with
  | nil => rfl
  | cons byte p =>
    rw [getVarint32]
    split_ifs with h
    · have hlt : byte.toNat < 2 ^ 32 := Nat.lt_trans (UInt8.toNat_lt byte) (by decide)
      rw [getVarint, if_pos (Nat.zero_le _), if_neg (not_not.2 h), Nat.shiftLeft_zero,
        Nat.mod_eq_of_lt hlt, Nat.zero_or]
    · rfl

/-- `GetVarint32` reads back what `EncodeVarint32` wrote. -/
theorem reads_varint32 {v : ℕ} (h : v < 2 ^ 32) : Reads getVarint32 (encodeVarint32 v) v := by
  intro rest
  have hread := getVarint_encodeVarint64 (n := 5) (by decide) h rest (i := 0) (by decide)
  simpa [getVarint32_eq, encodeVarint32_eq h, Nat.mod_one] using hread

/-- `GetVarint32` refuses a proper beginning of what `EncodeVarint32` wrote. -/
theorem cut_varint32 {v : ℕ} (h : v < 2 ^ 32) : Cut getVarint32 (encodeVarint32 v) := by
  rw [getVarint32_eq, encodeVarint32_eq h]
  exact getVarint_cut 28 32 0 0 v

end

/-! ## Texts are read back -/

/-- The part behind the length: that many bytes, if they are there. -/
def takeSlice (len : ℕ) : Reader UInt8 Bytes := fun input =>
  if len ≤ input.length then some (input.take len, input.drop len) else none

/-- A text is read as its length and then that many bytes. -/
theorem getLengthPrefixedSlice_eq : getLengthPrefixedSlice = andThen getVarint32 takeSlice := by
  funext input
  rw [getLengthPrefixedSlice, andThen]
  cases getVarint32 input <;> rfl

/-- As many bytes as the text has are the text. -/
theorem reads_takeSlice (value : Bytes) : Reads (takeSlice value.length) value value := by
  intro rest
  rw [takeSlice, if_pos (by simp), List.take_left, List.drop_left]

/-- A text that is cut off has too few bytes. -/
theorem cut_takeSlice (value : Bytes) : Cut (takeSlice value.length) value := by
  rintro t u rfl hu
  have hpos := List.length_pos_iff.2 hu
  rw [takeSlice, if_neg]
  rw [List.length_append]
  omega

variable {value : Bytes}

/-- `GetLengthPrefixedSlice` reads back what `PutLengthPrefixedSlice` wrote. -/
theorem reads_slice (h : value.length < 2 ^ 32) :
    Reads getLengthPrefixedSlice (putLengthPrefixedSlice value) value := by
  rw [getLengthPrefixedSlice_eq, putLengthPrefixedSlice]
  exact (reads_varint32 h).andThen (reads_takeSlice value)

/-- `GetLengthPrefixedSlice` refuses a proper beginning of what `PutLengthPrefixedSlice` wrote. -/
theorem cut_slice (h : value.length < 2 ^ 32) :
    Cut getLengthPrefixedSlice (putLengthPrefixedSlice value) := by
  rw [getLengthPrefixedSlice_eq, putLengthPrefixedSlice]
  exact .andThen (reads_varint32 h) (cut_varint32 h) (cut_takeSlice value)

end TelecomSuite.LevelDb
