import TelecomSuite.LevelDb.Crc32c

/-!
# The log

`db/log_writer.cc` and `db/log_reader.cc`. A log is a file of blocks of 32768 bytes, and a record is
written as one or several physical records, none of which goes across the end of a block.
-/

namespace TelecomSuite.LevelDb.Log

/-- `kZeroType` is reserved for preallocated files. -/
inductive RecordType
  | zero
  | full
  | first
  | middle
  | last
  deriving DecidableEq

/-- The byte that stands for the type. -/
def RecordType.code : RecordType → UInt8
  | .zero => 0
  | .full => 1
  | .first => 2
  | .middle => 3
  | .last => 4

/-- The type that a byte stands for. -/
def RecordType.ofCode (c : UInt8) : Option RecordType :=
  [zero, full, first, middle, last].find? (·.code = c)

/-- `kBlockSize`. -/
def kBlockSize : ℕ := 32768

/-- Checksum (4 bytes), length (2 bytes), type (1 byte). -/
def kHeaderSize : ℕ := 7

/-! ## Writer -/

/-- A file that is appended to. When the room on the disk is used up, an append writes what fits
and fails. Appending gives no room back: a full disk stays full, and all later appends to the file
fail. -/
structure WritableFile where
  contents : Bytes
  room : Option ℕ

/-- `Append`: what fits into the room, and whether it was all. -/
def WritableFile.append (f : WritableFile) (data : Bytes) : Bool × WritableFile :=
  match f.room with
  | none => (true, { f with contents := f.contents ++ data })
  | some room =>
    if data.length ≤ room then (true, ⟨f.contents ++ data, some (room - data.length)⟩)
    else (false, ⟨f.contents ++ data.take room, some 0⟩)

/-- `log::Writer`: the file, and the place in its last block. -/
structure Writer where
  dest : WritableFile
  blockOffset : ℕ

/-- A writer for a file that is reused: `dest_length` bytes of it are there. -/
def Writer.reopen (dest : WritableFile) (destLength : ℕ) : Writer :=
  ⟨dest, destLength % kBlockSize⟩

/-- The two bytes of a length. -/
def lengthBytes (n : ℕ) : Bytes := [(n &&& 0xff).toUInt8, (n >>> 8).toUInt8]

/-- The header of a physical record. `type_crc_` has the checksum of the type. -/
def header (t : RecordType) (payload : Bytes) : Bytes :=
  let crc := Crc32c.mask (Crc32c.extend 0 (Crc32c.value [t.code]) payload)
  encodeFixed32 crc ++ lengthBytes payload.length ++ [t.code]

/-- `EmitPhysicalRecord`. The block offset moves also when an append fails. -/
def Writer.emitPhysicalRecord (w : Writer) (t : RecordType) (payload : Bytes) : Bool × Writer :=
  let (ok, dest) := w.dest.append (header t payload)
  let (ok, dest) := if ok then dest.append payload else (ok, dest)
  (ok, ⟨dest, w.blockOffset + (kHeaderSize + payload.length)⟩)

/-- A block with no room for a header is filled up, and the next one begins. -/
def Writer.switchBlock (w : Writer) : Writer :=
  let leftover := kBlockSize - w.blockOffset
  if leftover < kHeaderSize then
    ⟨if 0 < leftover then (w.dest.append (.replicate leftover 0)).2 else w.dest, 0⟩
  else w

/-- The type of a fragment. -/
def fragmentType (begins ends : Bool) : RecordType :=
  if begins && ends then .full
  else if begins then .first
  else if ends then .last
  else .middle

/-- A new block begins when no header fits into the old one. -/
theorem Writer.switchBlock_blockOffset (w : Writer) : w.switchBlock.blockOffset =
    if kBlockSize - w.blockOffset < kHeaderSize then 0 else w.blockOffset := by
  rw [switchBlock]
  split_ifs <;> rfl

/-- The block offset is behind the whole record, whatever the file took of it. -/
theorem Writer.emitPhysicalRecord_blockOffset (w : Writer) (t : RecordType) (payload : Bytes) :
    (w.emitPhysicalRecord t payload).2.blockOffset =
      w.blockOffset + (kHeaderSize + payload.length) := rfl

/-- The room for a payload behind the next header. -/
def avail (blockOffset : ℕ) : ℕ := kBlockSize - blockOffset - kHeaderSize

/-- A fragment is empty only where no more than a header fits into the block. -/
theorem addFragments_decreases {w w' : Writer} {left left' : ℕ}
    (h : left' = left - min left (avail w.switchBlock.blockOffset) ∧
      w'.blockOffset = w.switchBlock.blockOffset +
        (kHeaderSize + min (min left (avail w.switchBlock.blockOffset)) left))
    (hlt : min left (avail w.switchBlock.blockOffset) < left) :
    2 * left' + (if w'.blockOffset + kHeaderSize = kBlockSize then 1 else 0) <
      2 * left + if w.blockOffset + kHeaderSize = kBlockSize then 1 else 0 := by
  obtain ⟨rfl, hw'⟩ := h
  have hblock : kBlockSize = 32768 := rfl
  have hheader : kHeaderSize = 7 := rfl
  rw [hw']
  rw [Writer.switchBlock_blockOffset] at hlt ⊢
  unfold avail at hlt ⊢
  by_cases hswitch : kBlockSize - w.blockOffset < kHeaderSize
  · rw [if_pos hswitch] at hlt ⊢
    split_ifs <;> omega
  · rw [if_neg hswitch] at hlt ⊢
    split_ifs <;> omega

/-- The loop of `AddRecord` over the fragments. An empty record is one fragment. -/
def Writer.addFragments (w : Writer) (ptr : Bytes) (begins : Bool) : Bool × Writer :=
  let fragmentLength := min ptr.length (avail w.switchBlock.blockOffset)
  let ends := ptr.length = fragmentLength
  let r := w.switchBlock.emitPhysicalRecord (fragmentType begins ends) (ptr.take fragmentLength)
  if r.1 ∧ fragmentLength < ptr.length then r.2.addFragments (ptr.drop fragmentLength) false else r
termination_by 2 * ptr.length + if w.blockOffset + kHeaderSize = kBlockSize then 1 else 0
decreasing_by
  refine addFragments_decreases ?_ (by assumption : r.1 ∧ fragmentLength < ptr.length).2
  exact ⟨List.length_drop, by
    rw [Writer.emitPhysicalRecord_blockOffset, List.length_take]⟩

/-- `AddRecord`. -/
def Writer.addRecord (w : Writer) (slice : Bytes) : Bool × Writer := w.addFragments slice true

end TelecomSuite.LevelDb.Log
