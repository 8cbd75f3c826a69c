import TelecomSuite.LevelDb.LogReader

/-!
# What a log holds

The bytes of a log as a list of physical records (`layout`), each with the offset in its block that
the one before it leaves. The writer appends the fragments of a record (`addRecord_contents`), a
full disk cuts the bytes off, and the reader takes from a text that is cut off the physical records
that are complete (`readPhysicalRecord_whole`, `readPhysicalRecord_cut`).
-/

namespace TelecomSuite.LevelDb.Log

/-- A fragment of a record: the type and the payload of a physical record. -/
abbrev Fragment := RecordType × Bytes

/-- A physical record: its header and its payload. -/
def physicalBytes (f : Fragment) : Bytes := header f.1 f.2 ++ f.2

/-- Where the next physical record begins in its block. -/
def start (o : ℕ) : ℕ := if kBlockSize - o < kHeaderSize then 0 else o

/-- What is filled up before it. -/
def trailer (o : ℕ) : Bytes :=
  if kBlockSize - o < kHeaderSize then .replicate (kBlockSize - o) 0 else []

/-- The block offset behind a fragment. -/
def next (o : ℕ) (f : Fragment) : ℕ := start o + (kHeaderSize + f.2.length)

/-- The bytes of fragments from a block offset on, each behind the trailer it may need. -/
def layout : ℕ → List Fragment → Bytes
  | _, [] => []
  | o, f :: fs => trailer o ++ (physicalBytes f ++ layout (next o f) fs)

/-- The block offset behind the physical records. -/
def endOffset : ℕ → List Fragment → ℕ
  | o, [] => o
  | o, f :: fs => endOffset (next o f) fs

/-- No physical record goes across the end of its block, and none is of the type zero. -/
def Fits : ℕ → List Fragment → Prop
  | o, [] => o ≤ kBlockSize
  | o, f :: fs => o ≤ kBlockSize ∧ f.1 ≠ .zero ∧ Fits (next o f) fs

section
variable {o : ℕ} {f : Fragment} {fs gs : List Fragment}

/-- A header takes seven bytes. -/
theorem header_length (t : RecordType) (payload : Bytes) :
    (header t payload).length = kHeaderSize := rfl

/-- A physical record is its header longer than its payload. -/
theorem physicalBytes_length (f : Fragment) :
    (physicalBytes f).length = kHeaderSize + f.2.length := by
  rw [physicalBytes, List.length_append, header_length]

/-- The bytes go on where the first fragments end. -/
theorem layout_append : layout o (fs ++ gs) = layout o fs ++ layout (endOffset o fs) gs := by
  induction fs generalizing o with
  | nil => rfl
  | cons f fs ih => simp only [List.cons_append, layout, endOffset, ih, List.append_assoc]

/-- So does the block offset. -/
theorem endOffset_append : endOffset o (fs ++ gs) = endOffset (endOffset o fs) gs := by
  induction fs generalizing o with
  | nil => rfl
  | cons f fs ih => exact ih

/-- Fragments that fit begin in a block. -/
theorem Fits.le (h : Fits o fs) : o ≤ kBlockSize := by
  cases fs with
  | nil => exact h
  | cons f fs => exact h.1

/-- Fragments fit behind each other. -/
theorem Fits.append (h : Fits o fs) (h' : Fits (endOffset o fs) gs) : Fits o (fs ++ gs) := by
  induction fs generalizing o with
  | nil => exact h'
  | cons f fs ih => exact ⟨h.1, h.2.1, ih h.2.2 h'⟩

/-- Where a physical record begins, its header fits into the block. -/
theorem start_le (o : ℕ) : start o + kHeaderSize ≤ kBlockSize := by
  have hblock : kBlockSize = 32768 := rfl
  have hheader : kHeaderSize = 7 := rfl
  rw [start]
  split_ifs <;> omega

end

/-! ## The fragments of a record -/

/-- The fragments that a record is split into. -/
def fragments (o : ℕ) (ptr : Bytes) (begins : Bool) : List Fragment :=
  let n := min ptr.length (avail (start o))
  let f := (fragmentType begins (ptr.length = n), ptr.take n)
  if n < ptr.length then f :: fragments (next o f) (ptr.drop n) false else [f]
termination_by 2 * ptr.length + if o + kHeaderSize = kBlockSize then 1 else 0
decreasing_by
  next hlt =>
  have hdecr := @addFragments_decreases ⟨⟨[], none⟩, o⟩ ⟨⟨[], none⟩, next o f⟩ ptr.length
    (ptr.length - n)
  simp only [Writer.switchBlock_blockOffset] at hdecr
  rw [List.length_drop]
  refine hdecr ⟨rfl, ?_⟩ hlt
  rw [next, List.length_take]
  rfl

/-- The physical records of records that are written one after the other. -/
def logFragments : ℕ → List Bytes → List Fragment
  | _, [] => []
  | o, r :: rs => fragments o r true ++ logFragments (endOffset o (fragments o r true)) rs

/-- The bytes of a log whose first record begins at a block offset. -/
def logBytes (o : ℕ) (rs : List Bytes) : Bytes := layout o (logFragments o rs)

section
variable {o : ℕ} {ptr : Bytes} {begins : Bool} {rs : List Bytes}

/-- No fragment has the type of preallocated files. -/
theorem fragmentType_ne_zero (begins ends : Bool) : fragmentType begins ends ≠ .zero := by
  cases begins <;> cases ends <;> decide

/-- A fragment that fits ends in its block. -/
theorem next_le (o : ℕ) (t : RecordType) {payload : Bytes}
    (h : payload.length ≤ avail (start o)) : next o (t, payload) ≤ kBlockSize := by
  have hstart := start_le o
  unfold avail at h
  unfold next
  dsimp only
  omega

/-- The fragments of a record fit into their blocks. -/
theorem fragments_fits (h : o ≤ kBlockSize) : Fits o (fragments o ptr begins) := by
  induction o, ptr, begins using fragments.induct with
  | case1 o ptr begins n f hlt ih =>
    rw [fragments, if_pos hlt]
    refine ⟨h, fragmentType_ne_zero _ _, ih ?_⟩
    refine next_le o _ ?_
    rw [List.length_take]
    exact Nat.le_trans (Nat.min_le_left _ _) (Nat.min_le_right _ _)
  | case2 o ptr begins n hlt =>
    rw [fragments, if_neg hlt]
    refine ⟨h, fragmentType_ne_zero _ _, ?_⟩
    refine next_le o _ ?_
    rw [List.length_take]
    exact Nat.le_trans (Nat.min_le_left _ _) (Nat.min_le_right _ _)

/-- Fragments that fit end in a block. -/
theorem Fits.endOffset_le {fs : List Fragment} (h : Fits o fs) : endOffset o fs ≤ kBlockSize := by
  induction fs generalizing o with
  | nil => exact h
  | cons f fs ih => exact ih h.2.2

/-- The fragments of all records fit into their blocks. -/
theorem logFragments_fits (h : o ≤ kBlockSize) : Fits o (logFragments o rs) := by
  induction rs generalizing o with
  | nil => exact h
  | cons r rs ih =>
    have hr : Fits o (fragments o r true) := fragments_fits h
    exact hr.append (ih hr.endOffset_le)

/-- The bytes of the first record, and of the others behind it. -/
theorem logBytes_cons (o : ℕ) (r : Bytes) (rs : List Bytes) : logBytes o (r :: rs) =
    layout o (fragments o r true) ++ logBytes (endOffset o (fragments o r true)) rs := by
  rw [logBytes, logFragments, layout_append, logBytes]

end

/-! ## What is written -/

/-- `text` was appended to a file with room for `cap` bytes. -/
def Stores (f : WritableFile) (cap : Option ℕ) (text : Bytes) : Prop :=
  match cap with
  | none => f = ⟨text, none⟩
  | some k => f = ⟨text.take k, some (k - text.length)⟩

/-- There is room for `n` bytes. -/
def HasRoom (cap : Option ℕ) (n : ℕ) : Prop := ∀ k, cap = some k → n ≤ k

section
variable {f : WritableFile} {cap : Option ℕ} {text data : Bytes}

/-- What is appended is put behind the text, as far as there is room. -/
theorem Stores.append (h : Stores f cap text) : Stores (f.append data).2 cap (text ++ data) := by
  cases cap with
  | none =>
    obtain rfl : f = ⟨text, none⟩ := h
    rfl
  | some k =>
    obtain rfl : f = ⟨text.take k, some (k - text.length)⟩ := h
    rw [WritableFile.append, Stores, List.take_append, List.length_append]
    by_cases hdata : data.length ≤ k - text.length
    · simp only [if_pos hdata, List.take_of_length_le hdata, Nat.sub_add_eq]
    · simp only [if_neg hdata]
      have hzero : k - (text.length + data.length) = 0 := by omega
      rw [hzero]

/-- An append returns `ok` if there was room for all of it. The empty one always does. -/
theorem Stores.append_ok (h : Stores f cap text) (data : Bytes) :
    (f.append data).1 = true ↔ data = [] ∨ HasRoom cap (text.length + data.length) := by
  cases cap with
  | none =>
    obtain rfl : f = ⟨text, none⟩ := h
    simp [WritableFile.append, HasRoom]
  | some k =>
    obtain rfl : f = ⟨text.take k, some (k - text.length)⟩ := h
    rw [WritableFile.append]
    by_cases hdata : data.length ≤ k - text.length
    · rcases eq_or_ne data [] with rfl | hne
      · simp
      · have hpos := List.length_pos_iff.2 hne
        simp only [if_pos hdata, HasRoom, Option.some.injEq, forall_eq', true_iff]
        omega
    · have hne : data ≠ [] := by
        rintro rfl
        exact hdata (Nat.zero_le _)
      simp only [if_neg hdata, hne, HasRoom, Option.some.injEq, forall_eq', false_or,
        Bool.false_eq_true, false_iff]
      omega

/-- While there is room the file has all of the text. -/
theorem Stores.contents_of_room (h : Stores f cap text) (hroom : HasRoom cap text.length) :
    f.contents = text := by
  cases cap with
  | none =>
    obtain rfl : f = ⟨text, none⟩ := h
    rfl
  | some k =>
    obtain rfl : f = ⟨text.take k, some (k - text.length)⟩ := h
    exact List.take_of_length_le (hroom k rfl)

/-- A file does not get shorter. -/
theorem Stores.length_le {f' : WritableFile} (h : Stores f cap text)
    (h' : Stores f' cap (text ++ data)) : f.contents.length ≤ f'.contents.length := by
  cases cap with
  | none =>
    obtain rfl : f = ⟨text, none⟩ := h
    obtain rfl : f' = ⟨text ++ data, none⟩ := h'
    rw [List.length_append]
    exact Nat.le_add_right _ _
  | some k =>
    obtain rfl : f = ⟨text.take k, some (k - text.length)⟩ := h
    obtain rfl : f' = ⟨(text ++ data).take k, some (k - (text ++ data).length)⟩ := h'
    rw [List.length_take, List.length_take, List.length_append]
    omega

/-- Nothing gets into a full file. -/
theorem stores_full (hfull : ¬ HasRoom cap text.length) (more : Bytes) :
    Stores f cap (text ++ more) ↔ Stores f cap text := by
  cases cap with
  | none => exact absurd (fun _ h => nomatch h) hfull
  | some k =>
    simp only [HasRoom, Option.some.injEq, forall_eq', Nat.not_le] at hfull
    rw [Stores, Stores, List.take_append_of_le_length hfull.le, List.length_append,
      Nat.sub_eq_zero_of_le hfull.le, Nat.sub_eq_zero_of_le (Nat.le_add_right_of_le hfull.le)]

/-- Where there is room for more there is room for less. -/
theorem HasRoom.mono {m n : ℕ} (h : HasRoom cap n) (hle : m ≤ n) : HasRoom cap m :=
  fun k hk => hle.trans (h k hk)

end

/-- A call that returned `ok` and left `text` in the file, with the next physical record due at the
block offset `o`. Once the file is full the block offset means nothing. -/
structure Writer.Wrote (w : Writer) (ok : Bool) (cap : Option ℕ) (o : ℕ) (text : Bytes) : Prop where
  stores : Stores w.dest cap text
  ok_iff : ok = true ↔ HasRoom cap text.length
  blockOffset : HasRoom cap text.length → w.blockOffset = o

section
variable {w : Writer} {cap : Option ℕ} {text : Bytes} {o : ℕ} {ok : Bool}

/-- A block is filled up with its trailer. -/
theorem Writer.switchBlock_stores (h : Stores w.dest cap text) :
    Stores w.switchBlock.dest cap (text ++ trailer w.blockOffset) := by
  rw [switchBlock, trailer]
  by_cases hroom : kBlockSize - w.blockOffset < kHeaderSize
  · rw [if_pos hroom, if_pos hroom]
    split_ifs with hpos
    · exact h.append
    · rwa [Nat.eq_zero_of_not_pos hpos, List.replicate_zero, List.append_nil]
  · rwa [if_neg hroom, if_neg hroom, List.append_nil]

/-- A physical record is put behind the text, and the call says whether there was room for it. -/
theorem Writer.emitPhysicalRecord_wrote (h : Stores w.dest cap text) (t : RecordType)
    (payload : Bytes) :
    (w.emitPhysicalRecord t payload).2.Wrote (w.emitPhysicalRecord t payload).1 cap
      (w.blockOffset + (kHeaderSize + payload.length)) (text ++ physicalBytes (t, payload)) := by
  have hok := h.append_ok (header t payload)
  have hheader : Stores (w.dest.append (header t payload)).2 cap (text ++ header t payload) :=
    h.append
  have hne : header t payload ≠ [] := List.ne_nil_of_length_eq_add_one (header_length t payload)
  rw [or_iff_right hne] at hok
  have hlength : (text ++ physicalBytes (t, payload)).length =
      (text ++ header t payload).length + payload.length := by
    simp [physicalBytes, Nat.add_assoc]
  rw [emitPhysicalRecord]
  generalize w.dest.append (header t payload) = r at hok hheader ⊢
  obtain ⟨first, f⟩ := r
  cases first with
  | true =>
    have hroom := hok.1 rfl
    have hpayload := hheader.append_ok payload
    refine ⟨?_, ?_, fun _ => rfl⟩
    · rw [physicalBytes, ← List.append_assoc]
      exact hheader.append
    · rw [hlength]
      refine hpayload.trans ⟨fun h => ?_, Or.inr⟩
      rcases h with rfl | h
      · rwa [List.length_append]
      · exact h
  | false =>
    have hfull : ¬ HasRoom cap (text ++ header t payload).length := by
      rw [List.length_append, ← hok]
      exact Bool.false_ne_true
    refine ⟨?_, ⟨fun h => absurd h Bool.false_ne_true, fun h => ?_⟩, fun _ => rfl⟩
    · rw [physicalBytes, ← List.append_assoc]
      exact (stores_full hfull payload).2 hheader
    · rw [hlength] at h
      exact absurd (h.mono (Nat.le_add_right _ _)) hfull

/-- The next physical record begins where the layout says. -/
theorem Writer.switchBlock_start (w : Writer) : w.switchBlock.blockOffset = start w.blockOffset :=
  w.switchBlock_blockOffset

/-- After a call that failed, nothing gets into the file. -/
theorem Writer.Wrote.failed (h : w.Wrote false cap o text) (o' : ℕ) (more : Bytes) :
    w.Wrote false cap o' (text ++ more) := by
  have hfull : ¬ HasRoom cap text.length := fun hroom => Bool.false_ne_true (h.ok_iff.2 hroom)
  have hmore : ¬ HasRoom cap (text ++ more).length := by
    rw [List.length_append]
    exact fun hroom => hfull (hroom.mono (Nat.le_add_right _ _))
  refine ⟨(stores_full hfull more).2 h.stores, ?_, fun hroom => absurd hroom hmore⟩
  exact ⟨fun h => absurd h Bool.false_ne_true, fun hroom => absurd hroom hmore⟩

/-- Before a call failed all of the text is in the file, whatever room is left then. -/
theorem Writer.Wrote.setRoom (h : w.Wrote true cap o text) (room : Option ℕ) :
    Writer.Wrote { w with dest := { w.dest with room := room } } true (room.map (text.length + ·)) o
      text := by
  have hroom : HasRoom cap text.length := h.ok_iff.1 rfl
  have hcontents := h.stores.contents_of_room hroom
  refine ⟨?_, iff_of_true rfl fun k hk => ?_, fun _ => h.blockOffset hroom⟩
  · dsimp only
    rw [hcontents]
    cases room with
    | none => rfl
    | some k =>
      rw [Option.map_some, Stores, List.take_of_length_le (Nat.le_add_right _ _),
        Nat.add_sub_cancel_left]
  · obtain ⟨k', -, rfl⟩ := Option.map_eq_some_iff.1 hk
    exact Nat.le_add_right _ _

/-- The fragments of a record are written behind each other until the file is full. -/
theorem Writer.addFragments_wrote (ptr : Bytes) (begins : Bool) (h : Stores w.dest cap text) :
    (w.addFragments ptr begins).2.Wrote (w.addFragments ptr begins).1 cap
      (endOffset w.blockOffset (fragments w.blockOffset ptr begins))
      (text ++ layout w.blockOffset (fragments w.blockOffset ptr begins)) := by
  fun_induction Writer.addFragments w ptr begins generalizing text with
  | case1 =>
    rename_i w ptr begins n ends r hcond ih
    have hemit := emitPhysicalRecord_wrote (switchBlock_stores h) (fragmentType begins ends)
      (ptr.take n)
    have hfragments : fragments w.blockOffset ptr begins = (fragmentType begins ends, ptr.take n) ::
        fragments r.2.blockOffset (ptr.drop n) false := by
      rw [fragments, ← w.switchBlock_start, if_pos hcond.2]
      rw [show next w.blockOffset (fragmentType begins ends, ptr.take n) = r.2.blockOffset by
        rw [next, ← w.switchBlock_start]; rfl]
    have hrest := ih hemit.stores
    rw [hfragments, layout, endOffset, next, ← w.switchBlock_start]
    rw [List.append_assoc, List.append_assoc] at hrest
    exact hrest
  | case2 =>
    rename_i w ptr begins n ends r hcond
    have hemit := emitPhysicalRecord_wrote (switchBlock_stores h) (fragmentType begins ends)
      (ptr.take n)
    rw [fragments, ← w.switchBlock_start]
    by_cases hlt : n < ptr.length
    · have hfailed : r.1 = false := by simpa [hlt] using hcond
      rw [if_pos hlt, layout, endOffset, ← List.append_assoc, ← List.append_assoc]
      change r.2.Wrote r.1 cap _ _ at hemit
      rw [hfailed] at hemit ⊢
      exact hemit.failed _ _
    · rw [if_neg hlt, layout, endOffset, endOffset, layout, List.append_nil, ← List.append_assoc,
        next, ← w.switchBlock_start]
      exact hemit

/-- A record is put behind the text, and the call says whether there was room for it. -/
theorem Writer.addRecord_wrote (slice : Bytes) (h : w.Wrote ok cap o text) :
    (w.addRecord slice).2.Wrote (w.addRecord slice).1 cap (endOffset o (fragments o slice true))
      (text ++ layout o (fragments o slice true)) := by
  have hwrote := addFragments_wrote slice true h.stores
  by_cases hroom : HasRoom cap text.length
  · rw [h.blockOffset hroom] at hwrote
    exact hwrote
  · have hfailed : (w.addRecord slice).1 = false := by
      refine Bool.eq_false_iff.2 fun hok => hroom ?_
      refine (hwrote.ok_iff.1 hok).mono ?_
      rw [List.length_append]
      exact Nat.le_add_right _ _
    have hsame : (w.addRecord slice).2.Wrote false cap o text :=
      ⟨(stores_full hroom _).1 hwrote.stores,
        ⟨fun h => absurd h Bool.false_ne_true, fun hr => absurd hr hroom⟩,
        fun hr => absurd hr hroom⟩
    rw [hfailed]
    exact hsame.failed _ _

end

/-- Records that are written one after the other, and what each call returned. -/
def Writer.addRecords (w : Writer) : List Bytes → List Bool × Writer
  | [] => ([], w)
  | r :: rs =>
    let (ok, w) := w.addRecord r
    let (oks, w) := w.addRecords rs
    (ok :: oks, w)

section
variable {w : Writer} {cap : Option ℕ} {text : Bytes} {o : ℕ} {ok : Bool}

/-- There is one result for each record. -/
theorem Writer.addRecords_length (w : Writer) (rs : List Bytes) :
    (w.addRecords rs).1.length = rs.length := by
  induction rs generalizing w with
  | nil => rfl
  | cons r rs ih => exact congrArg (· + 1) (ih _)

/-- Records are put behind the text one after the other, as far as there is room. -/
theorem Writer.addRecords_stores (rs : List Bytes) (h : w.Wrote ok cap o text) :
    Stores (w.addRecords rs).2.dest cap (text ++ logBytes o rs) := by
  induction rs generalizing w ok o text with
  | nil =>
    rw [logBytes, logFragments, layout, List.append_nil]
    exact h.stores
  | cons r rs ih =>
    rw [logBytes_cons, ← List.append_assoc]
    exact ih (addRecord_wrote r h)

/-- A call returns `ok` if and only if there was room for all records up to its own. -/
theorem Writer.addRecords_ok (rs : List Bytes) (h : w.Wrote ok cap o text) (j : ℕ) :
    (w.addRecords rs).1[j]? = some true ↔
      j < rs.length ∧ HasRoom cap (text.length + (logBytes o (rs.take (j + 1))).length) := by
  induction rs generalizing w ok o text j with
  | nil => simp [addRecords]
  | cons r rs ih =>
    have hrecord := addRecord_wrote r h
    rw [List.take_succ_cons, logBytes_cons, List.length_append, List.length_cons, ← Nat.add_assoc]
    cases j with
    | zero =>
      have hok := hrecord.ok_iff
      rw [List.length_append] at hok
      simpa [addRecords, logBytes, logFragments, layout] using hok
    | succ j =>
      have hrest := ih hrecord j
      rw [List.length_append] at hrest
      rw [Nat.add_lt_add_iff_right]
      exact hrest

end

end TelecomSuite.LevelDb.Log
