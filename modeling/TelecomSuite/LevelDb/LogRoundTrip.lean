import Mathlib.Data.Nat.ModEq
import TelecomSuite.LevelDb.LogContents

/-!
# Reading back what was written

A log is written in sessions, the disk may run full at any byte and then stays full, and the file
may be cut off at any byte. `readAll_writeSessions`: the reader returns the records that are
completely in what is left, in their order and none else, and reports no corruption.
-/

namespace TelecomSuite.LevelDb.Log

/-! ## The header of a physical record -/

section
variable {r : Reader} {f : Fragment} {rest : Bytes}

/-- The two bytes of a length are read back. -/
theorem length_lengthBytes {n : ℕ} (h : n < 2 ^ 16) :
    ((n &&& 0xff).toUInt8).toNat ||| ((n >>> 8).toUInt8).toNat <<< 8 = n := by
  have hlow : (n &&& 0xff) % 2 ^ 8 = n % 2 ^ 8 := by
    rw [Nat.and_two_pow_sub_one_eq_mod n 8, Nat.mod_mod]
  rw [toNat_toUInt8, toNat_toUInt8, hlow, mod_or_shiftLeft n 8 8, Nat.mod_eq_of_lt h]

/-- The checksum of a header is that of the type and the payload. -/
theorem header_checksum (t : RecordType) (payload rest : Bytes) :
    Crc32c.unmask (decodeFixed32 (header t payload ++ rest)) =
      Crc32c.value (t.code :: payload) := by
  have hzero : 0 < 2 ^ 32 := by decide
  have hcrc :
      Crc32c.extend 0 (Crc32c.value [t.code]) payload = Crc32c.value (t.code :: payload) := by
    rw [Crc32c.value, Crc32c.value, Crc32c.extend_eq_remainder 0 hzero,
      Crc32c.extend_eq_remainder 0 hzero,
      Crc32c.extend_eq_remainder 0 (Crc32c.remainder_lt hzero _), Crc32c.remainder_append]
    rfl
  have hlt : Crc32c.value (t.code :: payload) < 2 ^ 32 := by
    rw [Crc32c.value, Crc32c.extend_eq_remainder 0 hzero]
    exact Crc32c.remainder_lt hzero _
  rw [header, hcrc, List.append_assoc, List.append_assoc, decodeFixed32_encodeFixed32,
    Nat.mod_eq_of_lt (Crc32c.mask_lt _), Crc32c.unmask_mask hlt]

/-- No other type has the byte of the preallocated files. -/
theorem code_eq_zero {t : RecordType} (h : t.code = RecordType.zero.code) : t = .zero := by
  cases t with
  | zero => rfl
  | full | first | middle | last => exact absurd h (by decide)

/-- The byte of a type stands for it. -/
theorem ofCode_code (t : RecordType) : RecordType.ofCode t.code = some t := by
  cases t <;> rfl

/-- A physical record that was written has one of the known types. -/
theorem ofType_code (t : RecordType) (payload : Bytes) :
    Physical.ofType t.code payload = .record t.code payload := by
  cases t <;> rfl

/-- A whole physical record at the front of the buffer is parsed. -/
theorem Reader.parse_whole (hbuffer : r.buffer = physicalBytes f ++ rest) (htype : f.1 ≠ .zero)
    (hlength : f.2.length < 2 ^ 16) (hoffset : r.initialOffset = 0) :
    r.parse = (.record f.1.code f.2, { r with buffer := rest }) := by
  obtain ⟨t, payload⟩ := f
  have hlen := length_lengthBytes hlength
  have hcheck := header_checksum t payload (payload ++ rest)
  have hbuf : r.buffer = header t payload ++ (payload ++ rest) := by
    rw [hbuffer, physicalBytes, List.append_assoc]
  have htaken : ((r.buffer.drop 6).take (1 + payload.length)) = t.code :: payload := by
    rw [hbuf, Nat.add_comm 1]
    exact congrArg (t.code :: ·) List.take_left
  have hlength4 : (r.buffer.getD 4 0).toNat ||| (r.buffer.getD 5 0).toNat <<< 8 =
      payload.length := by
    rw [hbuf]
    exact hlen
  have htype6 : r.buffer.getD 6 0 = t.code := by
    rw [hbuf]
    rfl
  have hnotshort : ¬ r.buffer.length < kHeaderSize + payload.length := by
    rw [hbuf, List.length_append, List.length_append, header_length]
    omega
  have hnotzero : ¬ (t.code = RecordType.zero.code ∧ payload.length = 0) :=
    fun h => htype (code_eq_zero h.1)
  have hvalid : ¬ (r.checksum = true ∧
      Crc32c.value (t.code :: payload) ≠ Crc32c.unmask (decodeFixed32 r.buffer)) := by
    rw [hbuf, hcheck]
    exact fun h => h.2 rfl
  have hdrop : r.buffer.drop (kHeaderSize + payload.length) = rest := by
    rw [hbuf, ← List.append_assoc, ← header_length t payload, ← List.length_append, List.drop_left]
  have hpayload : (r.buffer.drop kHeaderSize).take payload.length = payload := by
    rw [hbuf, ← header_length t payload, List.drop_left, List.take_left]
  simp only [parse, hlength4, htype6, htaken]
  rw [if_neg hnotshort, if_neg hnotzero, if_neg hvalid, hdrop, hpayload, hoffset,
    if_neg (Nat.not_lt_zero _), ofType_code]

/-- A header whose payload is cut off at the end of the file. -/
theorem Reader.parse_cut {n : ℕ} (hbuffer : r.buffer = (physicalBytes f ++ rest).take n)
    (hlength : f.2.length < 2 ^ 16) (heof : r.eof = true) (hheader : kHeaderSize ≤ n)
    (hcut : n < kHeaderSize + f.2.length) : r.parse = (.eof, { r with buffer := [] }) := by
  obtain ⟨t, payload⟩ := f
  have hbuf : r.buffer = header t payload ++ payload.take (n - kHeaderSize) := by
    have hzero : n - (physicalBytes (t, payload)).length = 0 := by
      rw [physicalBytes_length]
      exact Nat.sub_eq_zero_of_le hcut.le
    rw [hbuffer, List.take_append, hzero, List.take_zero, List.append_nil, physicalBytes,
      List.take_append, header_length, List.take_of_length_le]
    exact hheader
  have hlength4 : (r.buffer.getD 4 0).toNat ||| (r.buffer.getD 5 0).toNat <<< 8 =
      payload.length := by
    rw [hbuf]
    exact length_lengthBytes hlength
  have hshort : r.buffer.length < kHeaderSize + payload.length := by
    rw [hbuf, List.length_append, header_length, List.length_take]
    dsimp only at hcut
    omega
  rw [parse, hlength4, if_pos hshort, if_pos heof]

end

/-! ## One physical record after the other -/

/-- The reader is at the offset `o` of its block, and `text` is what it has not returned. A block
that is not full is the last one. -/
structure Reader.Aligned (r : Reader) (o : ℕ) (text : Bytes) : Prop where
  failure : r.file.failure = none
  initialOffset : r.initialOffset = 0
  resyncing : r.resyncing = false
  offset_le : o ≤ kBlockSize
  buffer : r.buffer = text.take (kBlockSize - o)
  contents : r.file.contents = text.drop (kBlockSize - o)
  eof : r.eof = decide (text.length < kBlockSize - o)

section
variable {r : Reader} {o : ℕ} {text more : Bytes} {f : Fragment}

/-- A new reader is at the beginning of a file, with no block in its buffer. -/
theorem Reader.aligned_new (text : Bytes) (checksum : Bool) :
    (Reader.new ⟨text, none⟩ checksum 0).Aligned kBlockSize text where
  failure := rfl
  initialOffset := rfl
  resyncing := rfl
  offset_le := Nat.le_refl _
  buffer := by rw [Nat.sub_self]; rfl
  contents := by rw [Nat.sub_self]; rfl
  eof := by rw [Nat.sub_self]; rfl

/-- The first bytes of the buffer are taken. -/
theorem Reader.Aligned.taken (h : r.Aligned o text) {k : ℕ} (hk : k ≤ text.length)
    (hblock : o + k ≤ kBlockSize) :
    ({ r with buffer := r.buffer.drop k } : Reader).Aligned (o + k) (text.drop k) where
  failure := h.failure
  initialOffset := h.initialOffset
  resyncing := h.resyncing
  offset_le := hblock
  buffer := by
    dsimp only
    rw [h.buffer, List.drop_take, Nat.sub_add_eq]
  contents := by
    dsimp only
    rw [h.contents, List.drop_drop]
    congr 1
    omega
  eof := by
    dsimp only
    rw [h.eof, List.length_drop]
    exact decide_eq_decide.2 (by omega)

/-- The next block is read, and the reader is at its beginning. -/
theorem Reader.Aligned.readBlock (h : r.Aligned o text) (heof : r.eof = false) :
    r.readBlock = (true, r.readBlock.2) ∧
      r.readBlock.2.Aligned 0 (text.drop (kBlockSize - o)) ∧
      r.readBlock.2.reports = r.reports := by
  rw [Reader.readBlock, SequentialFile.read, h.failure]
  refine ⟨rfl, ⟨rfl, h.initialOffset, h.resyncing, Nat.zero_le _, ?_, ?_, ?_⟩, rfl⟩
  · rw [← h.contents]
    rfl
  · rw [← h.contents]
    rfl
  · dsimp only
    rw [heof, List.length_take, h.contents, Nat.sub_zero]
    by_cases hlt : (text.drop (kBlockSize - o)).length < kBlockSize
    · rw [if_pos (Nat.lt_of_le_of_lt (Nat.min_le_right _ _) hlt), decide_eq_true hlt]
    · rw [if_neg (Nat.not_lt.2 (Nat.le_min.2 ⟨Nat.le_refl _, Nat.not_lt.1 hlt⟩)),
        decide_eq_false hlt]

/-- In a block with room for a header: the next physical record, or the end of what is left. -/
theorem Reader.Aligned.parse {n : ℕ} (h : r.Aligned o text) (hroom : kHeaderSize ≤ kBlockSize - o)
    (htext : text = (physicalBytes f ++ more).take n) (htype : f.1 ≠ .zero)
    (hfits : o + (kHeaderSize + f.2.length) ≤ kBlockSize) :
    if kHeaderSize + f.2.length ≤ n then
      ∃ r', r.readPhysicalRecord = (.record f.1.code f.2, r') ∧ r'.reports = r.reports ∧
        r'.Aligned (o + (kHeaderSize + f.2.length)) (more.take (n - (kHeaderSize + f.2.length)))
    else ∃ r', r.readPhysicalRecord = (.eof, r') ∧ r'.reports = r.reports := by
  have hblock : kBlockSize = 32768 := rfl
  have hheader : kHeaderSize = 7 := rfl
  have hlength : f.2.length < 2 ^ 16 := by omega
  have hphysical := physicalBytes_length f
  split_ifs with hn
  · have htext' : text = physicalBytes f ++ more.take (n - (kHeaderSize + f.2.length)) := by
      rw [htext, List.take_append, hphysical, List.take_of_length_le (hphysical.trans_le hn)]
    have hbuffer : r.buffer = physicalBytes f ++
        (more.take (n - (kHeaderSize + f.2.length))).take
          (kBlockSize - o - (kHeaderSize + f.2.length)) := by
      rw [h.buffer, htext', List.take_append, hphysical, List.take_of_length_le]
      rw [hphysical]
      omega
    have hnotshort : ¬ r.buffer.length < kHeaderSize := by
      rw [hbuffer, List.length_append, hphysical]
      omega
    have hdrop : (r.buffer.drop (kHeaderSize + f.2.length)) =
        (more.take (n - (kHeaderSize + f.2.length))).take
          (kBlockSize - o - (kHeaderSize + f.2.length)) := by
      rw [hbuffer, ← hphysical, List.drop_left]
    have htaken := h.taken (k := kHeaderSize + f.2.length)
      (by rw [htext', List.length_append, hphysical]; exact Nat.le_add_right _ _) hfits
    rw [readPhysicalRecord, if_neg hnotshort, parse_whole hbuffer htype hlength h.initialOffset]
    refine ⟨_, rfl, rfl, ?_⟩
    rw [hdrop] at htaken
    rw [htext', ← hphysical, List.drop_left, hphysical] at htaken
    exact htaken
  · have hshorter : text.length < kBlockSize - o := by
      rw [htext, List.length_take]
      omega
    have hbuffer : r.buffer = (physicalBytes f ++ more).take n := by
      rw [h.buffer, List.take_of_length_le hshorter.le, htext]
    have heof : r.eof = true := by
      rw [h.eof]
      exact decide_eq_true hshorter
    rw [readPhysicalRecord]
    split_ifs with hshort
    · exact ⟨_, rfl, rfl⟩
    · have hle : kHeaderSize ≤ n := by
        rw [hbuffer, List.length_take] at hshort
        omega
      exact ⟨_, parse_cut hbuffer hlength heof hle (by omega), rfl⟩

/-- Behind a trailer the next block is read. -/
theorem Reader.Aligned.nextBlock (h : r.Aligned o text) (heof : r.eof = false)
    (hshort : kBlockSize - o < kHeaderSize) :
    r.readPhysicalRecord = r.readBlock.2.readPhysicalRecord := by
  obtain ⟨hread, haligned, -⟩ := h.readBlock heof
  have hbuffer : r.buffer.length < kHeaderSize := by
    rw [h.buffer, List.length_take]
    omega
  have hnext : r.readPhysicalRecord = if r.readBlock.2.buffer.length < kHeaderSize then
      (.eof, { r.readBlock.2 with buffer := [] }) else r.readBlock.2.parse := by
    rw [readPhysicalRecord, if_pos hbuffer, heof, hread]
    rfl
  rw [hnext, readPhysicalRecord.eq_def r.readBlock.2]
  split_ifs with hlt hnoteof
  · rfl
  · refine absurd ?_ hnoteof
    have hblock : kHeaderSize < kBlockSize := by decide
    rw [haligned.eof, Nat.sub_zero]
    rw [haligned.buffer, List.length_take, Nat.sub_zero] at hlt
    exact decide_eq_true (by omega)
  · rfl

/-- At the end of the text there is no more physical record. -/
theorem Reader.Aligned.readPhysicalRecord_nil (h : r.Aligned o []) :
    ∃ r', r.readPhysicalRecord = (.eof, r') ∧ r'.reports = r.reports := by
  have hshort : r.buffer.length < kHeaderSize := by
    rw [h.buffer, List.take_nil]
    decide
  cases heof : r.eof with
  | true =>
    rw [readPhysicalRecord, if_pos hshort, if_pos heof]
    exact ⟨_, rfl, rfl⟩
  | false =>
    obtain ⟨hread, haligned, hreports⟩ := h.readBlock heof
    have hshort' : r.readBlock.2.buffer.length < kHeaderSize := by
      rw [haligned.buffer, List.drop_nil, List.take_nil]
      decide
    rw [readPhysicalRecord, if_pos hshort, heof, hread]
    exact ⟨_, if_pos hshort', hreports⟩

/-- The next physical record of a text that is cut off: it is complete, or the reader is at the
end. -/
theorem Reader.Aligned.readPhysicalRecord {n : ℕ} {fs : List Fragment} (h : r.Aligned o text)
    (htext : text = (layout o (f :: fs)).take n) (hfits : Fits o (f :: fs)) :
    if (trailer o).length + (kHeaderSize + f.2.length) ≤ n then
      ∃ r', r.readPhysicalRecord = (.record f.1.code f.2, r') ∧ r'.reports = r.reports ∧
        r'.Aligned (next o f) ((layout (next o f) fs).take
          (n - ((trailer o).length + (kHeaderSize + f.2.length))))
    else ∃ r', r.readPhysicalRecord = (.eof, r') ∧ r'.reports = r.reports := by
  have hblock : kBlockSize = 32768 := rfl
  have hheader : kHeaderSize = 7 := rfl
  obtain ⟨ho, htype, hrest⟩ := hfits
  have hnext := hrest.le
  rw [layout] at htext
  by_cases hshort : kBlockSize - o < kHeaderSize
  · have htrailer : trailer o = .replicate (kBlockSize - o) 0 := if_pos hshort
    have hstart : start o = 0 := if_pos hshort
    have hlength : (trailer o).length = kBlockSize - o := by
      rw [htrailer, List.length_replicate]
    rw [next, hstart] at hnext ⊢
    cases heof : r.eof with
    | true =>
      have hlt : text.length < kBlockSize - o := by
        rw [h.eof] at heof
        exact of_decide_eq_true heof
      have hcut : ¬ (trailer o).length + (kHeaderSize + f.2.length) ≤ n := by
        rw [htext, List.length_take, List.length_append, hlength] at hlt
        omega
      have hbuffer : r.buffer.length < kHeaderSize := by
        rw [h.buffer, List.length_take]
        omega
      rw [if_neg hcut, Reader.readPhysicalRecord, if_pos hbuffer, if_pos heof]
      exact ⟨_, rfl, rfl⟩
    | false =>
      have hge : kBlockSize - o ≤ n := by
        have hle : ¬ text.length < kBlockSize - o := by
          rw [h.eof] at heof
          exact of_decide_eq_false heof
        rw [htext, List.length_take] at hle
        omega
      obtain ⟨-, haligned, hreports⟩ := h.readBlock heof
      have hdrop : text.drop (kBlockSize - o) =
          (physicalBytes f ++ layout (next o f) fs).take (n - (trailer o).length) := by
        rw [htext, List.drop_take, ← hlength, List.drop_left]
      have hparse := haligned.parse (Nat.le_of_lt (by decide)) hdrop htype hnext
      have hiff : kHeaderSize + f.2.length ≤ n - (trailer o).length ↔
          (trailer o).length + (kHeaderSize + f.2.length) ≤ n := by omega
      rw [h.nextBlock heof hshort, ← hreports]
      simp only [hiff, Nat.sub_sub] at hparse
      rw [next, hstart] at hparse
      exact hparse
  · have htrailer : trailer o = [] := if_neg hshort
    have hstart : start o = o := if_neg hshort
    rw [htrailer, List.nil_append] at htext
    rw [next, hstart] at hnext htext ⊢
    rw [htrailer, List.length_nil, Nat.zero_add]
    exact h.parse (Nat.not_lt.1 hshort) htext htype hnext

end

/-! ## One record after the other -/

section
variable {r : Reader} {o n : ℕ} {text ptr : Bytes} {begins : Bool} {fs : List Fragment}
  {at_ : Progress} {rs : List Bytes}

/-- A reader that does not resync is left as it is. -/
theorem Reader.synced_eq (h : r.resyncing = false) : r.synced = r := by
  rw [synced, ← h]

/-- A fragment that another one follows. -/
theorem Reader.handle_continued (h : r.resyncing = false) (hat : at_.inFragmented = !begins)
    (hscratch : begins = true → at_.scratch = []) (offset : ℕ) (payload : Bytes) :
    ∃ prospective, r.handle at_ offset (.record (fragmentType begins false).code payload) =
      (.inr ⟨true, at_.scratch ++ payload, prospective⟩, r) := by
  cases begins with
  | true =>
    refine ⟨offset, ?_⟩
    rw [handle, ofCode_code, hscratch rfl, List.nil_append]
    simp [fragmentType, hat, synced_eq h]
  | false =>
    refine ⟨at_.prospective, ?_⟩
    rw [handle, ofCode_code]
    simp [fragmentType, hat, h]

/-- The last fragment of a record. -/
theorem Reader.handle_ended (h : r.resyncing = false) (hat : at_.inFragmented = !begins)
    (hscratch : begins = true → at_.scratch = []) (offset : ℕ) (payload : Bytes) :
    ∃ x, r.handle at_ offset (.record (fragmentType begins true).code payload) =
      (.inl (some (at_.scratch ++ payload)), { r with lastRecordOffset := x }) := by
  cases begins with
  | true =>
    refine ⟨offset, ?_⟩
    rw [handle, ofCode_code, hscratch rfl, List.nil_append]
    simp [fragmentType, hat, synced_eq h]
  | false =>
    refine ⟨at_.prospective, ?_⟩
    rw [handle, ofCode_code]
    simp [fragmentType, hat, h]

/-- The length of the trailer, the first physical record and the others. -/
theorem layout_cons_length (o : ℕ) (f : Fragment) (fs : List Fragment) :
    (layout o (f :: fs)).length =
      (trailer o).length + (kHeaderSize + f.2.length) + (layout (next o f) fs).length := by
  rw [layout, List.length_append, List.length_append, physicalBytes_length, ← Nat.add_assoc]

/-- At the end of what is left the loop returns no record and reports nothing. -/
theorem Reader.readLoop_eof {r' : Reader} (h : r.readPhysicalRecord = (.eof, r')) :
    r.readLoop at_ = (none, r'.synced) :=
  readLoop_done h rfl

/-- The fragments of a record are put together, or the reader is at the end of what is left. -/
theorem Reader.Aligned.readLoop (at_ : Progress) (h : r.Aligned o text)
    (htext : text = (layout o (fragments o ptr begins ++ fs)).take n)
    (hfits : Fits o (fragments o ptr begins ++ fs)) (hat : at_.inFragmented = !begins)
    (hscratch : begins = true → at_.scratch = []) :
    if (layout o (fragments o ptr begins)).length ≤ n then
      ∃ r', r.readLoop at_ = (some (at_.scratch ++ ptr), r') ∧ r'.reports = r.reports ∧
        r'.Aligned (endOffset o (fragments o ptr begins))
          ((layout (endOffset o (fragments o ptr begins)) fs).take
            (n - (layout o (fragments o ptr begins)).length))
    else ∃ r', r.readLoop at_ = (none, r') ∧ r'.reports = r.reports := by
  fun_induction fragments o ptr begins generalizing r text n at_ with
  | case1 =>
    rename_i o ptr begins len f hlt ih
    have hread := h.readPhysicalRecord htext hfits
    have hends : fragmentType begins (ptr.length = len) = fragmentType begins false := by
      rw [decide_eq_false hlt.ne']
    rw [layout_cons_length, endOffset]
    by_cases hn : (trailer o).length + (kHeaderSize + f.2.length) ≤ n
    · rw [if_pos hn] at hread
      obtain ⟨r₁, hr₁, hreports, haligned⟩ := hread
      obtain ⟨prospective, hhandle⟩ := handle_continued haligned.resyncing hat hscratch
        (r.endOfBufferOffset - r.buffer.length) f.2
      rw [← hends] at hhandle
      have hrest := ih ⟨true, at_.scratch ++ f.2, prospective⟩ haligned rfl hfits.2.2 rfl
        (fun hfalse => absurd hfalse Bool.false_ne_true)
      have hiff : (layout (next o f) (fragments (next o f) (ptr.drop len) false)).length ≤
          n - ((trailer o).length + (kHeaderSize + f.2.length)) ↔
          (trailer o).length + (kHeaderSize + f.2.length) +
            (layout (next o f) (fragments (next o f) (ptr.drop len) false)).length ≤ n := by
        omega
      have hwhole : at_.scratch ++ f.2 ++ ptr.drop len = at_.scratch ++ ptr := by
        rw [List.append_assoc, List.take_append_drop]
      rw [readLoop_next hr₁ hhandle, ← hreports]
      simp only [hiff, hwhole, Nat.sub_sub] at hrest
      exact hrest
    · rw [if_neg hn] at hread
      obtain ⟨r₁, hr₁, hreports⟩ := hread
      rw [if_neg (by omega), readLoop_eof hr₁]
      exact ⟨_, rfl, hreports⟩
  | case2 =>
    rename_i o ptr begins len f hlt
    have hread := h.readPhysicalRecord htext hfits
    have hlen : ptr.length = len := Nat.le_antisymm (Nat.not_lt.1 hlt) (Nat.min_le_left _ _)
    have hends : fragmentType begins (ptr.length = len) = fragmentType begins true := by
      rw [decide_eq_true hlen]
    rw [layout_cons_length, endOffset, endOffset, layout, List.length_nil, Nat.add_zero]
    split_ifs with hn
    · rw [if_pos hn] at hread
      obtain ⟨r₁, hr₁, hreports, haligned⟩ := hread
      obtain ⟨x, hhandle⟩ := handle_ended haligned.resyncing hat hscratch
        (r.endOfBufferOffset - r.buffer.length) (ptr.take len)
      rw [← hends] at hhandle
      have hwhole : ptr.take len = ptr := List.take_of_length_le hlen.le
      refine ⟨{ r₁ with lastRecordOffset := x }, readLoop_done hr₁ ?_, hreports, ?_⟩
      · refine hhandle.trans ?_
        rw [hwhole]
      · exact { haligned with }
    · rw [if_neg hn] at hread
      obtain ⟨r₁, hr₁, hreports⟩ := hread
      rw [readLoop_eof hr₁]
      exact ⟨_, rfl, hreports⟩

/-- The reader returns these records one after the other and then none, and reports nothing. -/
inductive Reader.Yields : Reader → List Bytes → Prop
  | done {r r' : Reader} : r.readRecord = (none, r') → r'.reports = r.reports → Yields r []
  | next {r r' : Reader} {record : Bytes} {records : List Bytes} :
      r.readRecord = (some record, r') → r'.reports = r.reports → Yields r' records →
      Yields r (record :: records)

/-- What is read of records that are cut off. -/
theorem Reader.Aligned.yields (h : r.Aligned o text) (htext : text = (logBytes o rs).take n) :
    ∃ m, r.Yields (rs.take m) ∧
      ∀ j < rs.length, j < m ↔ (logBytes o (rs.take (j + 1))).length ≤ n := by
  have hrecord : r.readRecord = r.readLoop ⟨false, [], 0⟩ := by
    rw [readRecord, h.initialOffset, if_neg (Nat.not_lt_zero _)]
  induction rs generalizing r o text n with
  | nil =>
    have hnil : text = [] := by
      rw [htext, logBytes, logFragments, layout, List.take_nil]
    rw [hnil] at h
    obtain ⟨r', hread, hreports⟩ := h.readPhysicalRecord_nil
    rw [readLoop_eof hread] at hrecord
    exact ⟨0, .done hrecord hreports, fun j hj => absurd hj (Nat.not_lt_zero j)⟩
  | cons rec rs ih =>
    have hfits : Fits o (logFragments o (rec :: rs)) := logFragments_fits h.offset_le
    have hloop := h.readLoop ⟨false, [], 0⟩ htext hfits rfl fun _ => rfl
    by_cases hn : (layout o (fragments o rec true)).length ≤ n
    · rw [if_pos hn] at hloop
      obtain ⟨r', hread, hreports, haligned⟩ := hloop
      have hrecord' : r'.readRecord = r'.readLoop ⟨false, [], 0⟩ := by
        rw [readRecord, haligned.initialOffset, if_neg (Nat.not_lt_zero _)]
      obtain ⟨m, hrest, hm⟩ := ih haligned rfl hrecord'
      refine ⟨m + 1, .next (hrecord.trans hread) hreports hrest, fun j hj => ?_⟩
      rw [List.take_succ_cons, logBytes_cons, List.length_append]
      cases j with
      | zero =>
        rw [List.take_zero, logBytes, logFragments, layout]
        exact iff_of_true (Nat.zero_lt_succ m) hn
      | succ j =>
        rw [Nat.add_lt_add_iff_right, hm j (Nat.lt_of_succ_lt_succ hj)]
        omega
    · rw [if_neg hn] at hloop
      obtain ⟨r', hread, hreports⟩ := hloop
      refine ⟨0, .done (hrecord.trans hread) hreports, fun j _ => ?_⟩
      rw [List.take_succ_cons, logBytes_cons, List.length_append]
      exact iff_of_false (Nat.not_lt_zero j) (by omega)

/-- All of the records are read, and nothing is reported. -/
theorem Reader.Yields.readAll (h : r.Yields rs) :
    r.readAll.1 = rs ∧ r.readAll.2.reports = r.reports := by
  induction h with
  | @done r r' hrecord hreports =>
    rw [Reader.readAll]
    split
    · next h' => cases hrecord.symm.trans h'
    · next h' =>
      cases hrecord.symm.trans h'
      exact ⟨rfl, hreports⟩
  | @next r r' record records hrecord hreports _ ih =>
    rw [Reader.readAll]
    split
    · next h' =>
      cases hrecord.symm.trans h'
      exact ⟨congrArg (record :: ·) ih.1, ih.2.trans hreports⟩
    · next h' => cases hrecord.symm.trans h'

end

/-! ## Sessions -/

/-- A log that is written in sessions, each of which goes on at the end of the file and with the
room that the one before left: a disk that ran full stays full in all later sessions. -/
def writeSessions (file : WritableFile) : List (List Bytes) → List Bool × WritableFile
  | [] => ([], file)
  | rs :: sessions =>
    let (oks, w) := (Writer.reopen file file.contents.length).addRecords rs
    let (oks', file) := writeSessions w.dest sessions
    (oks ++ oks', file)

section
variable {o : ℕ} {fs : List Fragment} {cap : Option ℕ} {text : Bytes} {file : WritableFile}

/-- The block offset is the offset in the file. -/
theorem layout_length (h : Fits o fs) :
    (o + (layout o fs).length) % kBlockSize = endOffset o fs % kBlockSize := by
  induction fs generalizing o with
  | nil => rfl
  | cons f fs ih =>
    have hstart : (o + (trailer o).length) % kBlockSize = start o % kBlockSize := by
      rw [trailer, start]
      split_ifs
      · rw [List.length_replicate, Nat.add_sub_cancel' h.1, Nat.mod_self, Nat.zero_mod]
      · rfl
    rw [endOffset, ← ih h.2.2, layout_cons_length, next, Nat.add_assoc (start o), Nat.add_assoc,
      ← Nat.add_assoc o]
    exact Nat.ModEq.add_right _ hstart

/-- The end of a block is the beginning of the next one. -/
theorem logBytes_blockSize (rs : List Bytes) : logBytes kBlockSize rs = logBytes 0 rs := by
  have hfragments (ptr : Bytes) (begins : Bool) :
      fragments kBlockSize ptr begins = fragments 0 ptr begins := by
    rw [fragments, fragments.eq_def 0]
    rfl
  cases rs with
  | nil => rfl
  | cons r rs =>
    rw [logBytes, logBytes, logFragments, logFragments, hfragments]
    cases hf : fragments 0 r true with
    | nil =>
      rw [fragments] at hf
      split_ifs at hf
    | cons f fs => rfl

/-- The fragments of the first records, and of the others behind them. -/
theorem logFragments_append (o : ℕ) (rs rs' : List Bytes) : logFragments o (rs ++ rs') =
    logFragments o rs ++ logFragments (endOffset o (logFragments o rs)) rs' := by
  induction rs generalizing o with
  | nil => rfl
  | cons r rs ih =>
    rw [List.cons_append, logFragments, logFragments, ih, endOffset_append, List.append_assoc]

/-- The bytes of the first records, and of the others behind them. -/
theorem logBytes_append (o : ℕ) (rs rs' : List Bytes) : logBytes o (rs ++ rs') =
    logBytes o rs ++ logBytes (endOffset o (logFragments o rs)) rs' := by
  rw [logBytes, logFragments_append, layout_append]
  rfl

/-- A log goes on at the end of the file as if it had not been closed. -/
theorem reopen_wrote (h : Stores file cap text)
    (hoffset : text.length % kBlockSize = o % kBlockSize) :
    ∃ ok, (Writer.reopen file file.contents.length).Wrote ok cap (o % kBlockSize) text := by
  by_cases hroom : HasRoom cap text.length
  · refine ⟨true, h, iff_of_true rfl hroom, fun _ => ?_⟩
    rw [Writer.reopen, h.contents_of_room hroom]
    exact hoffset
  · exact ⟨false, h, iff_of_false Bool.false_ne_true hroom, fun hr => absurd hr hroom⟩

/-- Block offsets that are the same in a block give the same bytes. -/
theorem logBytes_mod (ho : o ≤ kBlockSize) (rs : List Bytes) :
    logBytes (o % kBlockSize) rs = logBytes o rs := by
  rcases ho.eq_or_lt with rfl | hlt
  · rw [Nat.mod_self, logBytes_blockSize]
  · rw [Nat.mod_eq_of_lt hlt]

/-- Sessions write what one session writes, and their calls return the same. -/
theorem writeSessions_stores (sessions : List (List Bytes)) (h : Stores file cap text)
    (ho : o ≤ kBlockSize) (hoffset : text.length % kBlockSize = o % kBlockSize) :
    Stores (writeSessions file sessions).2 cap (text ++ logBytes o sessions.flatten) := by
  induction sessions generalizing file text o with
  | nil =>
    rw [List.flatten_nil, logBytes, logFragments, layout, List.append_nil]
    exact h
  | cons rs sessions ih =>
    obtain ⟨ok, hwrote⟩ := reopen_wrote h hoffset
    have hstores := Writer.addRecords_stores rs hwrote
    have hfits : Fits o (logFragments o rs) := logFragments_fits ho
    rw [logBytes_mod ho] at hstores
    rw [List.flatten_cons, logBytes_append, ← List.append_assoc]
    refine ih hstores hfits.endOffset_le ?_
    rw [← layout_length hfits, List.length_append]
    exact Nat.ModEq.add_right _ hoffset

/-- A call in a session returns `ok` if and only if there was room for all records up to its own. -/
theorem writeSessions_ok (sessions : List (List Bytes)) (h : Stores file cap text)
    (ho : o ≤ kBlockSize) (hoffset : text.length % kBlockSize = o % kBlockSize) (j : ℕ) :
    (writeSessions file sessions).1[j]? = some true ↔ j < sessions.flatten.length ∧
      HasRoom cap (text.length + (logBytes o (sessions.flatten.take (j + 1))).length) := by
  induction sessions generalizing file text o j with
  | nil => simp [writeSessions]
  | cons rs sessions ih =>
    obtain ⟨ok, hwrote⟩ := reopen_wrote h hoffset
    have hstores := Writer.addRecords_stores rs hwrote
    have hok := Writer.addRecords_ok rs hwrote j
    have hfits : Fits o (logFragments o rs) := logFragments_fits ho
    have hoffset' : (text ++ logBytes o rs).length % kBlockSize =
        endOffset o (logFragments o rs) % kBlockSize := by
      rw [← layout_length hfits, List.length_append]
      exact Nat.ModEq.add_right _ hoffset
    rw [logBytes_mod ho] at hstores hok
    rw [writeSessions, List.flatten_cons, List.length_append]
    rcases Nat.lt_or_ge j rs.length with hj | hj
    · have hlength : j < ((Writer.reopen file file.contents.length).addRecords rs).1.length := by
        rwa [Writer.addRecords_length]
      rw [List.getElem?_append_left hlength, hok, List.take_append_of_le_length hj]
      exact and_congr_left' (iff_of_true hj (Nat.lt_add_right _ hj))
    · have hlength : ((Writer.reopen file file.contents.length).addRecords rs).1.length ≤ j := by
        rwa [Writer.addRecords_length]
      have hsplit : j + 1 = rs.length + (j - rs.length + 1) := by omega
      rw [List.getElem?_append_right hlength, Writer.addRecords_length,
        ih hstores hfits.endOffset_le hoffset', hsplit, List.take_length_add_append,
        logBytes_append, List.length_append, List.length_append, Nat.add_assoc]
      exact and_congr_left' (by omega)

end

/-- A file has a beginning of what was written to it. -/
theorem Stores.contents_eq (h : Stores file cap text) :
    file.contents = text.take file.contents.length := by
  cases cap with
  | none =>
    obtain rfl : file = ⟨text, none⟩ := h
    exact (List.take_length).symm
  | some k =>
    obtain rfl : file = ⟨text.take k, some (k - text.length)⟩ := h
    rw [List.length_take, List.take_eq_take_min]

/-- The first bytes of the text are in the file if there was room for them. -/
theorem Stores.le_length_iff {l : ℕ} (h : Stores file cap text) (hl : l ≤ text.length) :
    l ≤ file.contents.length ↔ HasRoom cap l := by
  cases cap with
  | none =>
    obtain rfl : file = ⟨text, none⟩ := h
    exact iff_of_true hl fun k hk => absurd hk.symm (Option.some_ne_none k)
  | some k =>
    obtain rfl : file = ⟨text.take k, some (k - text.length)⟩ := h
    simp [HasRoom, hl]

/-- Of records that were written to a file, of which the first `n` bytes are left, the reader
returns those that lie in these bytes. -/
theorem yields_stores {rs : List Bytes} (checksum : Bool) (h : Stores file cap (logBytes 0 rs))
    (n : ℕ) : ∃ m, (Reader.new ⟨file.contents.take n, none⟩ checksum 0).Yields (rs.take m) ∧
      ∀ j < rs.length, j < m ↔
        (logBytes 0 (rs.take (j + 1))).length ≤ file.contents.length ∧
        (logBytes 0 (rs.take (j + 1))).length ≤ n := by
  have htake : file.contents.take n =
      (logBytes kBlockSize rs).take (min n file.contents.length) := by
    rw [logBytes_blockSize, ← List.take_take, ← h.contents_eq]
  obtain ⟨m, hyields, hm⟩ := (Reader.aligned_new (file.contents.take n) checksum).yields htake
  refine ⟨m, hyields, fun j hj => ?_⟩
  rw [hm j hj, logBytes_blockSize, Nat.le_min, and_comm]

/-- Of a log that is written in sessions on a disk that may run full, and then stays so, and of
which the first `n` bytes are left, the reader returns the records whose calls returned `ok` and
that lie in these bytes. -/
theorem yields_writeSessions (checksum : Bool) (room : Option ℕ) (sessions : List (List Bytes))
    (n : ℕ) : ∃ m,
      (Reader.new ⟨(writeSessions ⟨[], room⟩ sessions).2.contents.take n, none⟩ checksum 0).Yields
        (sessions.flatten.take m) ∧
      ∀ j < sessions.flatten.length, j < m ↔
        (writeSessions ⟨[], room⟩ sessions).1[j]? = some true ∧
        (writeSessions ⟨[], none⟩ [sessions.flatten.take (j + 1)]).2.contents.length ≤ n := by
  have hempty (cap : Option ℕ) : Stores ⟨[], cap⟩ cap [] := by
    cases cap with
    | none => rfl
    | some k => simp [Stores]
  have hstores (cap : Option ℕ) (sessions : List (List Bytes)) :
      Stores (writeSessions ⟨[], cap⟩ sessions).2 cap (logBytes 0 sessions.flatten) := by
    have hstores := writeSessions_stores sessions (hempty cap) (Nat.zero_le _) rfl
    rwa [List.nil_append] at hstores
  have hwhole (rs : List Bytes) :
      (writeSessions ⟨[], none⟩ [rs]).2.contents = logBytes 0 rs := by
    have hcontents := congrArg WritableFile.contents (hstores none [rs])
    rwa [List.flatten_cons, List.flatten_nil, List.append_nil] at hcontents
  obtain ⟨m, hyields, hm⟩ := yields_stores checksum (hstores room sessions) n
  refine ⟨m, hyields, fun j hj => ?_⟩
  have hok := writeSessions_ok sessions (hempty room) (Nat.zero_le _) rfl j
  have hle : (logBytes 0 (sessions.flatten.take (j + 1))).length ≤
      (logBytes 0 sessions.flatten).length := by
    conv_rhs => rw [← List.take_append_drop (j + 1) sessions.flatten]
    rw [logBytes_append, List.length_append]
    exact Nat.le_add_right _ _
  rw [List.length_nil, Nat.zero_add] at hok
  rw [hm j hj, (hstores room sessions).le_length_iff hle, hwhole, hok, and_iff_right hj]

/-- **Reading back a log.** A log is written in sessions on a disk that may run full, and then stays
so, and only its first `n` bytes are left. A record is read back if and only if its call returned
`ok` and all of it lies in these bytes; the records are in order, and nothing is reported as
corrupt. -/
theorem readAll_writeSessions (checksum : Bool) (room : Option ℕ) (sessions : List (List Bytes))
    (n : ℕ) :
    let log := writeSessions ⟨[], room⟩ sessions
    let r := (Reader.new ⟨log.2.contents.take n, none⟩ checksum 0).readAll
    ∃ m, r.1 = sessions.flatten.take m ∧ r.2.reports = [] ∧
      ∀ j < sessions.flatten.length, j < m ↔ log.1[j]? = some true ∧
        (writeSessions ⟨[], none⟩ [sessions.flatten.take (j + 1)]).2.contents.length ≤ n := by
  obtain ⟨m, hyields, hm⟩ := yields_writeSessions checksum room sessions n
  exact ⟨m, hyields.readAll.1, hyields.readAll.2, hm⟩

end TelecomSuite.LevelDb.Log
