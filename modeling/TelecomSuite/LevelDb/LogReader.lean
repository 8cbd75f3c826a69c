import TelecomSuite.LevelDb.LogFormat

/-!
# Reading a log

`db/log_reader.cc`. `readPhysicalRecord` takes one physical record out of the buffered block, and
`readRecord` puts the fragments of a record together. Every call but the one at the end of the file
takes something out of the file (`readPhysicalRecord_lt`), so reading ends on every file.
-/

namespace TelecomSuite.LevelDb.Log

/-- A file that is read from the front. `failure` is the number of reads that succeed before one
fails, if one does, and how that one fails. -/
structure SequentialFile where
  contents : Bytes
  failure : Option (ℕ × Status)

/-- `Read`: the next bytes, or an error after some reads. -/
def SequentialFile.read (f : SequentialFile) (n : ℕ) : Except Status Bytes × SequentialFile :=
  match f.failure with
  | some (0, status) => (.error status, f)
  | some (k + 1, status) => (.ok (f.contents.take n), ⟨f.contents.drop n, some (k, status)⟩)
  | none => (.ok (f.contents.take n), ⟨f.contents.drop n, none⟩)

/-- `Skip`. -/
def SequentialFile.skip (f : SequentialFile) (n : ℕ) : SequentialFile :=
  { f with contents := f.contents.drop n }

/-- A call of the reporter: how many bytes were dropped, and why. -/
structure Report where
  bytes : ℕ
  reason : Status
  deriving DecidableEq

/-- `log::Reader`, with what it reported. -/
structure Reader where
  file : SequentialFile
  checksum : Bool
  buffer : Bytes
  eof : Bool
  lastRecordOffset : ℕ
  endOfBufferOffset : ℕ
  initialOffset : ℕ
  resyncing : Bool
  reports : List Report

/-- A new reader. -/
def Reader.new (file : SequentialFile) (checksum : Bool) (initialOffset : ℕ) : Reader where
  file := file
  checksum := checksum
  buffer := []
  eof := false
  lastRecordOffset := 0
  endOfBufferOffset := 0
  initialOffset := initialOffset
  resyncing := 0 < initialOffset
  reports := []

/-- `ReportDrop`. The offsets are unsigned numbers of 64 bits. -/
def Reader.reportDrop (r : Reader) (bytes : ℕ) (reason : Status) : Reader :=
  if r.initialOffset ≤ ((r.endOfBufferOffset : ℤ) - r.buffer.length - bytes) % 2 ^ 64 then
    { r with reports := r.reports ++ [⟨bytes, reason⟩] }
  else r

/-- `ReportCorruption`. -/
def Reader.reportCorruption (r : Reader) (bytes : ℕ) (reason : String) : Reader :=
  r.reportDrop bytes (.corruption reason)

/-- What `ReadPhysicalRecord` returns: a type with a fragment, `kEof` or `kBadRecord`. -/
inductive Physical
  | record (type : UInt8) (fragment : Bytes)
  | eof
  | badRecord

/-- `kEof` and `kBadRecord` are the numbers behind the types, and a record that has one of them as
its type is taken for that. -/
def Physical.ofType (type : UInt8) (fragment : Bytes) : Physical :=
  if type = 5 then .eof else if type = 6 then .badRecord else .record type fragment

/-- The next block, if the read succeeds. A short read is the last one. -/
def Reader.readBlock (r : Reader) : Bool × Reader :=
  match r.file.read kBlockSize with
  | (.ok data, file) =>
    (true, { r with
      file := file
      buffer := data
      endOfBufferOffset := r.endOfBufferOffset + data.length
      eof := if data.length < kBlockSize then true else r.eof })
  | (.error status, file) =>
    let r := { r with file := file, buffer := [] }
    (false, { r.reportDrop kBlockSize status with eof := true })

/-- The physical record at the front of the buffer, which has room for a header. -/
def Reader.parse (r : Reader) : Physical × Reader :=
  let length := (r.buffer.getD 4 0).toNat ||| (r.buffer.getD 5 0).toNat <<< 8
  let type := r.buffer.getD 6 0
  let cleared := { r with buffer := [] }
  if r.buffer.length < kHeaderSize + length then
    if r.eof then (.eof, cleared)
    else (.badRecord, cleared.reportCorruption r.buffer.length "bad record length")
  else if type = RecordType.zero.code ∧ length = 0 then (.badRecord, cleared)
  else if r.checksum ∧ Crc32c.value ((r.buffer.drop 6).take (1 + length)) ≠
      Crc32c.unmask (decodeFixed32 r.buffer) then
    (.badRecord, cleared.reportCorruption r.buffer.length "checksum mismatch")
  else
    let taken := { r with buffer := r.buffer.drop (kHeaderSize + length) }
    if taken.endOfBufferOffset - taken.buffer.length - kHeaderSize - length < r.initialOffset then
      (.badRecord, taken)
    else (.ofType type ((r.buffer.drop kHeaderSize).take length), taken)

/-- `ReadPhysicalRecord`. A block that is too short for a header is the last one. -/
def Reader.readPhysicalRecord (r : Reader) : Physical × Reader :=
  if r.buffer.length < kHeaderSize then
    if r.eof then (.eof, { r with buffer := [] })
    else
      match r.readBlock with
      | (true, r) =>
        if r.buffer.length < kHeaderSize then (.eof, { r with buffer := [] }) else r.parse
      | (false, r) => (.eof, r)
  else r.parse

/-- The bytes that are left. -/
def Reader.left (r : Reader) : ℕ := r.buffer.length + r.file.contents.length

section
variable {r r' : Reader} {p : Physical}

/-- A report does not touch the buffer. -/
@[simp] theorem Reader.reportCorruption_buffer (r : Reader) (bytes : ℕ) (reason : String) :
    (r.reportCorruption bytes reason).buffer = r.buffer := by
  rw [reportCorruption, reportDrop]
  split_ifs <;> rfl

/-- A report does not touch the file. -/
@[simp] theorem Reader.reportCorruption_file (r : Reader) (bytes : ℕ) (reason : String) :
    (r.reportCorruption bytes reason).file = r.file := by
  rw [reportCorruption, reportDrop]
  split_ifs <;> rfl

/-- A physical record that is parsed is taken from the buffer. -/
theorem Reader.parse_lt (h : ¬ r.buffer.length < kHeaderSize) : r.parse.2.left < r.left := by
  have hheader : kHeaderSize = 7 := rfl
  simp only [parse, left]
  split_ifs <;>
    simp only [reportCorruption_buffer, reportCorruption_file, List.length_nil,
      List.length_drop] <;>
    omega

/-- A block that is read comes from the file. -/
theorem Reader.readBlock_left (r : Reader) (h : r.readBlock.1 = true) :
    r.readBlock.2.left = r.file.contents.length := by
  unfold readBlock SequentialFile.read at h ⊢
  cases hf : r.file.failure with
  | none =>
    simp [left]
    omega
  | some failure =>
    obtain ⟨k, status⟩ := failure
    cases k with
    | zero => simp [hf] at h
    | succ k =>
      simp [left]
      omega

/-- Only at the end nothing is taken out of the file. -/
theorem Reader.readPhysicalRecord_lt (h : r.readPhysicalRecord = (p, r')) (hp : p ≠ .eof) :
    r'.left < r.left := by
  unfold readPhysicalRecord at h
  split_ifs at h with hshort heof
  · cases h
    exact absurd rfl hp
  · have hleft := r.readBlock_left
    split at h
    · next r₁ hread =>
      rw [hread] at hleft
      split_ifs at h with hshort'
      · cases h
        exact absurd rfl hp
      · have hlt := parse_lt hshort'
        rw [h, hleft rfl] at hlt
        exact Nat.lt_of_lt_of_le hlt (Nat.le_add_left _ _)
    · cases h
      exact absurd rfl hp
  · have hlt := parse_lt hshort
    rwa [h] at hlt

@[simp] theorem Reader.reportCorruption_left (r : Reader) (bytes : ℕ) (reason : String) :
    (r.reportCorruption bytes reason).left = r.left := by
  rw [left, reportCorruption_buffer, reportCorruption_file, left]

end

/-- The end of the resynchronisation after a seek. -/
def Reader.synced (r : Reader) : Reader := { r with resyncing := false }

@[simp] theorem Reader.synced_left (r : Reader) : r.synced.left = r.left := rfl

/-- A type is a `char`, which is signed, and printed as an `unsigned int`. -/
def unknownType (type : UInt8) : String :=
  "unknown record type " ++
    toString (if type.toNat < 128 then type.toNat else type.toNat + (2 ^ 32 - 256))

/-- Where the loop of `ReadRecord` is: with `inFragmented`, `scratch` has the fragments of a record
that began at `prospective`. -/
structure Progress where
  inFragmented : Bool
  scratch : Bytes
  prospective : ℕ

/-- One round of the loop of `ReadRecord` with a physical record that began at `offset`: a record,
or how the loop goes on. -/
def Reader.handle (r : Reader) (at_ : Progress) (offset : ℕ) : Physical →
    (Option Bytes ⊕ Progress) × Reader
  | .eof => (.inl none, r.synced)
  | .badRecord =>
    if at_.inFragmented then
      (.inr { at_ with inFragmented := false, scratch := [] },
        r.synced.reportCorruption at_.scratch.length "error in middle of record")
    else (.inr at_, r.synced)
  | .record type fragment =>
    match RecordType.ofCode type with
    | some .full =>
      let r := if at_.inFragmented ∧ at_.scratch ≠ [] then
        r.synced.reportCorruption at_.scratch.length "partial record without end(1)" else r.synced
      (.inl (some fragment), { r with lastRecordOffset := offset })
    | some .first =>
      let r := if at_.inFragmented ∧ at_.scratch ≠ [] then
        r.synced.reportCorruption at_.scratch.length "partial record without end(2)" else r.synced
      (.inr ⟨true, fragment, offset⟩, r)
    | some .middle =>
      if r.resyncing then (.inr at_, r)
      else if at_.inFragmented then (.inr { at_ with scratch := at_.scratch ++ fragment }, r)
      else (.inr at_, r.reportCorruption fragment.length "missing start of fragmented record(1)")
    | some .last =>
      if r.resyncing then (.inr at_, r.synced)
      else if at_.inFragmented then
        (.inl (some (at_.scratch ++ fragment)), { r with lastRecordOffset := at_.prospective })
      else (.inr at_, r.reportCorruption fragment.length "missing start of fragmented record(2)")
    | some .zero | none =>
      (.inr { at_ with inFragmented := false, scratch := [] },
        r.synced.reportCorruption
          (fragment.length + if at_.inFragmented then at_.scratch.length else 0) (unknownType type))

/-- What is done with a physical record takes nothing from the buffer or the file. -/
theorem Reader.handle_left (r : Reader) (at_ : Progress) (offset : ℕ) (p : Physical) :
    (r.handle at_ offset p).2.left = r.left := by
  cases p with
  | eof => rfl
  | badRecord =>
    rw [handle]
    split_ifs <;> simp
  | record type fragment =>
    rw [handle]
    split
    · split_ifs
      · exact r.synced.reportCorruption_left _ _
      · rfl
    · split_ifs <;> simp
    · split_ifs <;> simp
    · split_ifs
      · simp
      · rfl
      · simp
    · simp
    · simp

/-- The loop does not go on at the end of the file. -/
theorem Reader.handle_eof {r r' : Reader} {at_ next : Progress} {offset : ℕ} {p : Physical}
    (h : r.handle at_ offset p = (.inr next, r')) : p ≠ .eof := by
  rintro rfl
  cases h

/-- `ReadRecord`, from the first round of its loop on. -/
def Reader.readLoop (r : Reader) (at_ : Progress) : Option Bytes × Reader :=
  let offset := r.endOfBufferOffset - r.buffer.length
  match hread : r.readPhysicalRecord with
  | (p, r₁) =>
    match hnext : r₁.handle at_ offset p with
    | (.inl result, r₂) => (result, r₂)
    | (.inr next, r₂) =>
      have : r₂.left < r.left := by
        have hleft := r₁.handle_left at_ offset p
        rw [hnext] at hleft
        rw [hleft]
        exact readPhysicalRecord_lt hread (handle_eof hnext)
      r₂.readLoop next
termination_by r.left

/-- `SkipToInitialBlock`. A block is not searched if the offset is in its trailer. -/
def Reader.skipToInitialBlock (r : Reader) : Reader :=
  let offsetInBlock := r.initialOffset % kBlockSize
  let blockStart := r.initialOffset - offsetInBlock
  let blockStart := if kBlockSize - 6 < offsetInBlock then blockStart + kBlockSize else blockStart
  { r with endOfBufferOffset := blockStart, file := r.file.skip blockStart }

/-- `ReadRecord`. -/
def Reader.readRecord (r : Reader) : Option Bytes × Reader :=
  let r := if r.lastRecordOffset < r.initialOffset then r.skipToInitialBlock else r
  r.readLoop ⟨false, [], 0⟩

section
variable {r r' : Reader} {record : Bytes}

/-- Skipping to the first block only takes bytes away. -/
theorem Reader.skipToInitialBlock_left (r : Reader) : r.skipToInitialBlock.left ≤ r.left := by
  simp [skipToInitialBlock, left, SequentialFile.skip]

/-- The loop ends with the physical record that was read. -/
theorem Reader.readLoop_done {r₁ r₂ : Reader} {at_ : Progress} {p : Physical} {result : Option Bytes}
    (hread : r.readPhysicalRecord = (p, r₁))
    (hnext : r₁.handle at_ (r.endOfBufferOffset - r.buffer.length) p = (.inl result, r₂)) :
    r.readLoop at_ = (result, r₂) := by
  rw [readLoop]
  split
  next p' r₁' hread' =>
    cases hread.symm.trans hread'
    split
    · next hnext' =>
      cases hnext.symm.trans hnext'
      rfl
    · next hnext' => cases hnext.symm.trans hnext'

/-- The loop goes on with the next physical record. -/
theorem Reader.readLoop_next {r₁ r₂ : Reader} {at_ next : Progress} {p : Physical}
    (hread : r.readPhysicalRecord = (p, r₁))
    (hnext : r₁.handle at_ (r.endOfBufferOffset - r.buffer.length) p = (.inr next, r₂)) :
    r.readLoop at_ = r₂.readLoop next := by
  rw [readLoop]
  split
  next p' r₁' hread' =>
    cases hread.symm.trans hread'
    split
    · next hnext' => cases hnext.symm.trans hnext'
    · next hnext' =>
      cases hnext.symm.trans hnext'
      rfl

/-- A record that is returned took bytes from the buffer or the file. -/
theorem Reader.readLoop_lt {at_ : Progress} (h : r.readLoop at_ = (some record, r')) :
    r'.left < r.left := by
  induction r, at_ using readLoop.induct with
  | case1 r at_ offset p r₁ hread result r₂ hnext =>
    rw [readLoop_done hread hnext] at h
    obtain ⟨rfl, rfl⟩ := Prod.mk.inj h
    have hleft := r₁.handle_left at_ offset p
    rw [hnext] at hleft
    rw [hleft]
    refine readPhysicalRecord_lt hread ?_
    rintro rfl
    cases hnext
  | case2 r at_ offset p r₁ hread next r₂ hnext hlt ih =>
    rw [readLoop_next hread hnext] at h
    exact (ih h).trans hlt

/-- So it did for `ReadRecord`. -/
theorem Reader.readRecord_lt (h : r.readRecord = (some record, r')) : r'.left < r.left := by
  unfold readRecord at h
  refine Nat.lt_of_lt_of_le (readLoop_lt h) ?_
  split_ifs
  · exact r.skipToInitialBlock_left
  · exact Nat.le_refl _

end

/-- The records that `ReadRecord` returns one after the other until it returns false. -/
def Reader.readAll (r : Reader) : List Bytes × Reader :=
  match h : r.readRecord with
  | (some record, r') =>
    have := readRecord_lt h
    (record :: r'.readAll.1, r'.readAll.2)
  | (none, r') => ([], r')
termination_by r.left

end TelecomSuite.LevelDb.Log
