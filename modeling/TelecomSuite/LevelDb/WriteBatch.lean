import TelecomSuite.LevelDb.MemTable

/-!
# Batches of writes

`db/write_batch.cc`. A batch is the text that is logged: a sequence number, a count and the writes
one behind the other. `Iterate` gives the writes back in order, and it takes no proper beginning of
a batch for a batch (`iterate_calls`).
-/

namespace TelecomSuite.LevelDb

open SelfDelimiting Versions

/-- The header: eight bytes of a sequence number and four bytes of a count. -/
def kHeader : ℕ := 12

/-- One call of a `WriteBatch::Handler`. -/
inductive Op
  | put (key value : Bytes)
  | delete (key : Bytes)
  deriving DecidableEq

/-- The lengths fit into 32 bits, also with the eight bytes of an internal key. -/
def Op.Fits : Op → Prop
  | .put key value => key.length + 8 < 2 ^ 32 ∧ value.length < 2 ^ 32
  | .delete key => key.length + 8 < 2 ^ 32

/-- The write that a call of `Put` or `Delete` makes at a number. -/
def Op.write (seq : ℕ) : Op → MemTable.Write
  | .put key value => ⟨key, seq, some value⟩
  | .delete key => ⟨key, seq, none⟩

/-- The writes of a batch have consecutive numbers. -/
def writesFrom (seq : ℕ) : List Op → List MemTable.Write
  | [] => []
  | op :: ops => op.write seq :: writesFrom (seq + 1) ops

section
variable {seq : ℕ} {ops : List Op} {v : MemTable.Write}

/-- The numbers go on from one list to the next. -/
theorem writesFrom_append (seq : ℕ) (ops ops' : List Op) :
    writesFrom seq (ops ++ ops') = writesFrom seq ops ++ writesFrom (seq + ops.length) ops' := by
  induction ops generalizing seq with
  | nil => rfl
  | cons op ops ih =>
    rw [List.cons_append, writesFrom, writesFrom, ih, List.length_cons, List.cons_append,
      Nat.add_right_comm, Nat.add_assoc]

/-- A write has its number. -/
theorem Op.write_seq (op : Op) (seq : ℕ) : (op.write seq).seq = seq := by cases op <;> rfl

/-- Every write is one of the calls, with a number in the range. -/
theorem mem_writesFrom (h : v ∈ writesFrom seq ops) :
    ∃ op ∈ ops, v = op.write v.seq ∧ seq ≤ v.seq ∧ v.seq < seq + ops.length := by
  induction ops generalizing seq with
  | nil => cases h
  | cons op ops ih =>
    rw [List.length_cons]
    rcases List.mem_cons.1 h with rfl | h
    · rw [op.write_seq]
      exact ⟨op, List.mem_cons_self, rfl, Nat.le_refl seq, by omega⟩
    · obtain ⟨op', hop', heq, hle, hlt⟩ := ih h
      exact ⟨op', List.mem_cons_of_mem op hop', heq, by omega, by omega⟩

/-- Later writes have higher numbers. -/
theorem writesFrom_pairwise (seq : ℕ) (ops : List Op) :
    (writesFrom seq ops).Pairwise fun v w => v.seq < w.seq := by
  induction ops generalizing seq with
  | nil => exact .nil
  | cons op ops ih =>
    refine .cons (fun w hw => ?_) (ih (seq + 1))
    obtain ⟨-, -, -, hle, -⟩ := mem_writesFrom hw
    rw [op.write_seq]
    exact hle

/-- The writes fit if the calls and the numbers do. -/
theorem writesFrom_fits (hfits : ∀ op ∈ ops, op.Fits)
    (hseq : seq + ops.length ≤ kMaxSequenceNumber + 1) (hv : v ∈ writesFrom seq ops) :
    MemTable.Fits v := by
  obtain ⟨op, hop, heq, -, hlt⟩ := mem_writesFrom hv
  have hop_fits := hfits op hop
  have hle : v.seq ≤ kMaxSequenceNumber := by omega
  rw [heq]
  cases op with
  | put key value => exact ⟨hle, hop_fits.1, hop_fits.2⟩
  | delete key => exact ⟨hle, hop_fits, Nat.two_pow_pos 32⟩

end

/-- A batch. A text that has no header is not one (`SetContents`). -/
structure WriteBatch where
  rep : Bytes
  header : kHeader ≤ rep.length

namespace WriteBatch

/-- `Clear`: a header of zeros. -/
def clear : WriteBatch := ⟨.replicate kHeader 0, by rw [List.length_replicate]⟩

/-- `WriteBatchInternal::SetContents`. -/
def setContents (contents : Bytes) (h : kHeader ≤ contents.length) : WriteBatch := ⟨contents, h⟩

/-- `WriteBatchInternal::Count`. -/
def count (b : WriteBatch) : ℕ := decodeFixed32 (b.rep.drop 8)

/-- `WriteBatchInternal::SetCount`. -/
def setCount (b : WriteBatch) (n : ℕ) : WriteBatch where
  rep := b.rep.take 8 ++ (encodeFixed32 n ++ b.rep.drop kHeader)
  header := by
    have hheader := b.header
    rw [List.length_append, List.length_append, encodeFixed32_length, List.length_take,
      List.length_drop]
    rw [kHeader] at hheader ⊢
    omega

/-- `WriteBatchInternal::Sequence`. -/
def sequence (b : WriteBatch) : ℕ := decodeFixed64 b.rep

/-- `WriteBatchInternal::SetSequence`. -/
def setSequence (b : WriteBatch) (seq : ℕ) : WriteBatch where
  rep := encodeFixed64 seq ++ b.rep.drop 8
  header := by
    have hheader := b.header
    rw [List.length_append, encodeFixed64_length, List.length_drop]
    rw [kHeader] at hheader ⊢
    omega

/-- A text is put behind what is there. -/
def push (b : WriteBatch) (text : Bytes) : WriteBatch where
  rep := b.rep ++ text
  header := b.header.trans (by rw [List.length_append]; exact Nat.le_add_right _ _)

/-- `Put`: one more is counted, and the tag, the key and the value are put at the end. -/
def put (b : WriteBatch) (key value : Bytes) : WriteBatch :=
  (b.setCount (b.count + 1)).push
    (UInt8.ofNat ValueType.value.code ::
      (putLengthPrefixedSlice key ++ putLengthPrefixedSlice value))

/-- `Delete`: one more is counted, and the tag and the key are put at the end. -/
def delete (b : WriteBatch) (key : Bytes) : WriteBatch :=
  (b.setCount (b.count + 1)).push
    (UInt8.ofNat ValueType.deletion.code :: putLengthPrefixedSlice key)

/-- `WriteBatchInternal::Append`. -/
def append (dst src : WriteBatch) : WriteBatch :=
  (dst.setCount (dst.count + src.count)).push (src.rep.drop kHeader)

/-- The write at the beginning of the input, or what is wrong with it. -/
def readOp : Bytes → Except String (Op × Bytes)
  | [] => .error "unknown WriteBatch tag"
  | tag :: input =>
    if tag = UInt8.ofNat ValueType.value.code then
      match getLengthPrefixedSlice input with
      | some (key, input) =>
        match getLengthPrefixedSlice input with
        | some (value, input) => .ok (.put key value, input)
        | none => .error "bad WriteBatch Put"
      | none => .error "bad WriteBatch Put"
    else if tag = UInt8.ofNat ValueType.deletion.code then
      match getLengthPrefixedSlice input with
      | some (key, input) => .ok (.delete key, input)
      | none => .error "bad WriteBatch Delete"
    else .error "unknown WriteBatch tag"

/-- A number of variable length does not make the input longer. -/
theorem getVarint_le {last width shift result n : ℕ} {p rest : Bytes}
    (h : getVarint last width shift result p = some (n, rest)) : rest.length ≤ p.length := by
  induction p generalizing shift result with
  | nil => cases h
  | cons byte p ih =>
    rw [getVarint] at h
    split_ifs at h
    · exact Nat.le_succ_of_le (ih h)
    · cases h
      exact Nat.le_succ _

/-- A text behind its length does not make the input longer. -/
theorem getLengthPrefixedSlice_le {input rest s : Bytes}
    (h : getLengthPrefixedSlice input = some (s, rest)) : rest.length ≤ input.length := by
  rw [getLengthPrefixedSlice_eq, andThen, Option.bind_eq_some_iff] at h
  obtain ⟨⟨len, p⟩, hlen, htake⟩ := h
  rw [getVarint32_eq] at hlen
  rw [takeSlice] at htake
  split_ifs at htake
  cases htake
  rw [List.length_drop]
  exact (Nat.sub_le _ _).trans (getVarint_le hlen)

/-- The tag at least is taken. -/
theorem readOp_lt {input rest : Bytes} {op : Op} (h : readOp input = .ok (op, rest)) :
    rest.length < input.length := by
  cases input with
  | nil => cases h
  | cons tag input =>
    rw [readOp] at h
    refine Nat.lt_succ_of_le ?_
    split_ifs at h
    · cases hkey : getLengthPrefixedSlice input with
      | none =>
        rw [hkey] at h
        cases h
      | some p =>
        cases hvalue : getLengthPrefixedSlice p.2 with
        | none =>
          simp only [hkey, hvalue] at h
          cases h
        | some q =>
          simp only [hkey, hvalue] at h
          cases h
          exact (getLengthPrefixedSlice_le hvalue).trans (getLengthPrefixedSlice_le hkey)
    · cases hkey : getLengthPrefixedSlice input with
      | none =>
        rw [hkey] at h
        cases h
      | some p =>
        rw [hkey] at h
        cases h
        exact getLengthPrefixedSlice_le hkey

variable {σ : Type*}

/-- The loop of `Iterate`: the number of writes found, or what is wrong, and what the handler made
of the writes before. -/
def iterateFrom (handler : σ → Op → σ) (s : σ) (found : ℕ) (input : Bytes) :
    Except String ℕ × σ :=
  if input = [] then (.ok found, s)
  else
    match _h : readOp input with
    | .ok (op, input) => iterateFrom handler (handler s op) (found + 1) input
    | .error msg => (.error msg, s)
termination_by input.length
decreasing_by exact readOp_lt (by assumption)

/-- `WriteBatch::Iterate`. -/
def iterate (b : WriteBatch) (handler : σ → Op → σ) (s : σ) : Status × σ :=
  if b.rep.length < kHeader then (.corruption "malformed WriteBatch (too small)", s)
  else
    match iterateFrom handler s 0 (b.rep.drop kHeader) with
    | (.ok found, s) =>
      if found ≠ b.count then (.corruption "WriteBatch has wrong count", s) else (.ok, s)
    | (.error msg, s) => (.corruption msg, s)

variable {cmp : Comparator}

/-- `MemTableInserter`: the next sequence number and the table. -/
def inserter [Std.TransCmp cmp] (s : ℕ × MemTable cmp) : Op → ℕ × MemTable cmp
  | .put key value => ((s.1 + 1) % 2 ^ 64, s.2.add s.1 .value key value)
  | .delete key => ((s.1 + 1) % 2 ^ 64, s.2.add s.1 .deletion key [])

/-- `WriteBatchInternal::InsertInto`. -/
def insertInto [Std.TransCmp cmp] (b : WriteBatch) (m : MemTable cmp) : Status × MemTable cmp :=
  let (status, s) := b.iterate inserter (b.sequence, m)
  (status, s.2)

/-- The writes that `Iterate` calls the handler for. -/
def ops (b : WriteBatch) : List Op := (b.iterate (fun ops op => ops ++ [op]) []).2

/-! ## What a batch holds -/

/-- What one call puts into the batch. -/
def opBytes : Op → Bytes
  | .put key value =>
    UInt8.ofNat ValueType.value.code ::
      (putLengthPrefixedSlice key ++ putLengthPrefixedSlice value)
  | .delete key => UInt8.ofNat ValueType.deletion.code :: putLengthPrefixedSlice key

/-- The writes behind a header. -/
def IsBatch (b : WriteBatch) (seq : ℕ) (ops : List Op) : Prop :=
  b.rep = encodeFixed64 seq ++ (encodeFixed32 ops.length ++ ops.flatMap opBytes)

/-- One call of `Put` or `Delete`. -/
def add (b : WriteBatch) : Op → WriteBatch
  | .put key value => b.put key value
  | .delete key => b.delete key

/-- How a caller puts a batch together. -/
inductive Calls
  | clear
  | add (calls : Calls) (op : Op)
  | append (dst src : Calls)
  | setSequence (calls : Calls) (seq : ℕ)

/-- The batch that the calls make. -/
def Calls.batch : Calls → WriteBatch
  | .clear => WriteBatch.clear
  | .add calls op => calls.batch.add op
  | .append dst src => dst.batch.append src.batch
  | .setSequence calls seq => calls.batch.setSequence seq

/-- The writes that the calls ask for, in their order. -/
def Calls.ops : Calls → List Op
  | .clear => []
  | .add calls op => calls.ops ++ [op]
  | .append dst src => dst.ops ++ src.ops
  | .setSequence calls _ => calls.ops

section
variable {b b' : WriteBatch} {seq seq' : ℕ} {ops ops' : List Op} {op : Op}

/-- A cleared batch has no writes. -/
theorem clear_isBatch : clear.IsBatch 0 [] := rfl

/-- The count is in the header. -/
theorem IsBatch.count (h : b.IsBatch seq ops) : b.count = ops.length % 2 ^ 32 := by
  rw [WriteBatch.count, h, ← encodeFixed64_length seq, List.drop_left, decodeFixed32_encodeFixed32]

/-- The number is in the header. -/
theorem IsBatch.sequence (h : b.IsBatch seq ops) : b.sequence = seq % 2 ^ 64 := by
  rw [WriteBatch.sequence, h, decodeFixed64_encodeFixed64]

/-- Behind the header are the writes. -/
theorem IsBatch.body (h : b.IsBatch seq ops) : b.rep.drop kHeader = ops.flatMap opBytes := by
  rw [h, ← List.append_assoc]
  exact List.drop_left' rfl

/-- New writes behind the old ones, with the count of all. -/
theorem IsBatch.push (h : b.IsBatch seq ops) (ops' : List Op) {n : ℕ}
    (hn : n % 2 ^ 32 = ops'.length % 2 ^ 32) :
    ((b.setCount (b.count + n)).push (ops'.flatMap opBytes)).IsBatch seq (ops ++ ops') := by
  have hcount : encodeFixed32 (b.count + n) = encodeFixed32 (ops ++ ops').length := by
    rw [← encodeFixed32_mod, ← encodeFixed32_mod (ops ++ ops').length, h.count, List.length_append]
    congr 1
    omega
  have htake : b.rep.take 8 = encodeFixed64 seq := by
    rw [h]
    exact List.take_left' rfl
  rw [IsBatch, WriteBatch.push, setCount]
  dsimp only
  rw [htake, h.body, hcount, List.flatMap_append]
  simp only [List.append_assoc]

/-- A call puts its write at the end. -/
theorem IsBatch.add (h : b.IsBatch seq ops) (op : Op) : (b.add op).IsBatch seq (ops ++ [op]) := by
  have hpush := h.push [op] (n := 1) rfl
  rw [List.flatMap_singleton] at hpush
  cases op with
  | put key value => exact hpush
  | delete key => exact hpush

/-- `Append` puts the writes of the second batch behind those of the first. -/
theorem IsBatch.append (h : b.IsBatch seq ops) (h' : b'.IsBatch seq' ops') :
    (b.append b').IsBatch seq (ops ++ ops') := by
  have hn : b'.count % 2 ^ 32 = ops'.length % 2 ^ 32 := by
    rw [h'.count, Nat.mod_mod]
  rw [WriteBatch.append, h'.body]
  exact h.push ops' hn

/-- Another number leaves the writes as they are. -/
theorem IsBatch.setSequence (h : b.IsBatch seq ops) (seq' : ℕ) :
    (b.setSequence seq').IsBatch seq' ops := by
  rw [IsBatch, WriteBatch.setSequence]
  dsimp only
  rw [h]
  exact congrArg _ (List.drop_left' rfl)

/-! ## Writes are read back -/

/-- A write that fits is read back, whatever follows it. -/
theorem readOp_opBytes (h : op.Fits) (rest : Bytes) :
    readOp (opBytes op ++ rest) = .ok (op, rest) := by
  cases op with
  | put key value =>
    have hkey := reads_slice (Nat.lt_of_add_right_lt h.1) (putLengthPrefixedSlice value ++ rest)
    have hvalue := reads_slice h.2 rest
    rw [opBytes, List.cons_append, List.append_assoc, readOp, if_pos rfl, hkey]
    dsimp only
    rw [hvalue]
  | delete key =>
    have hkey := reads_slice (Nat.lt_of_add_right_lt h) rest
    have hne : UInt8.ofNat ValueType.deletion.code ≠ UInt8.ofNat ValueType.value.code := by decide
    rw [opBytes, List.cons_append, readOp, if_neg hne, if_pos rfl, hkey]

/-- A write that is cut off is not read. -/
theorem readOp_cut (h : op.Fits) {t u : Bytes} (htu : t ++ u = opBytes op) (hu : u ≠ []) :
    ∃ msg, readOp t = .error msg := by
  cases t with
  | nil => exact ⟨_, rfl⟩
  | cons tag t =>
    cases op with
    | put key value =>
      obtain ⟨rfl, hbody⟩ := List.cons.inj htu
      have hcut : Cut (andThen getLengthPrefixedSlice fun _ => getLengthPrefixedSlice)
          (putLengthPrefixedSlice key ++ putLengthPrefixedSlice value) :=
        .andThen (reads_slice (Nat.lt_of_add_right_lt h.1)) (cut_slice (Nat.lt_of_add_right_lt h.1))
          (cut_slice h.2)
      have hnone := hcut t u hbody hu
      rw [readOp, if_pos rfl]
      cases hkey : getLengthPrefixedSlice t with
      | none => exact ⟨_, rfl⟩
      | some p =>
        rw [andThen, hkey, Option.bind_some] at hnone
        simp only [hnone]
        exact ⟨_, rfl⟩
    | delete key =>
      obtain ⟨rfl, hbody⟩ := List.cons.inj htu
      have hne : UInt8.ofNat ValueType.deletion.code ≠ UInt8.ofNat ValueType.value.code := by decide
      rw [readOp, if_neg hne, if_pos rfl,
        cut_slice (Nat.lt_of_add_right_lt h) t u hbody hu]
      exact ⟨_, rfl⟩

/-- A write takes at least its tag. -/
theorem opBytes_ne_nil (op : Op) : opBytes op ≠ [] := by
  cases op <;> exact List.cons_ne_nil _ _

variable {handler : σ → Op → σ} {s : σ} {found : ℕ}

/-- A write that is read is given to the handler. -/
theorem iterateFrom_ok {input rest : Bytes} (h : readOp input = .ok (op, rest)) :
    iterateFrom handler s found input = iterateFrom handler (handler s op) (found + 1) rest := by
  have hne : input ≠ [] := by
    rintro rfl
    cases h
  rw [iterateFrom, if_neg hne]
  split
  · next h' =>
    cases h.symm.trans h'
    rfl
  · next h' => cases h.symm.trans h'

/-- A text that cannot be read ends the iteration. -/
theorem iterateFrom_error {input : Bytes} {msg : String} (hne : input ≠ [])
    (h : readOp input = .error msg) :
    iterateFrom handler s found input = (.error msg, s) := by
  rw [iterateFrom, if_neg hne]
  split
  · next h' => cases h.symm.trans h'
  · next h' =>
    cases h.symm.trans h'
    rfl

/-- All writes are given to the handler, in their order. -/
theorem iterateFrom_opBytes (h : ∀ op ∈ ops, op.Fits) :
    iterateFrom handler s found (ops.flatMap opBytes) =
      (.ok (found + ops.length), ops.foldl handler s) := by
  induction ops generalizing s found with
  | nil =>
    rw [iterateFrom, if_pos (List.flatMap_nil)]
    rfl
  | cons op ops ih =>
    rw [List.flatMap_cons, iterateFrom_ok (readOp_opBytes (h op List.mem_cons_self) _),
      ih fun op' hop' => h op' (List.mem_cons_of_mem op hop'), List.length_cons, Nat.add_right_comm,
      Nat.add_assoc]
    rfl

/-- Writes that are cut off: there is an error, or there are too few. -/
theorem iterateFrom_cut (h : ∀ op ∈ ops, op.Fits) {t u : Bytes}
    (htu : t ++ u = ops.flatMap opBytes) (hu : u ≠ []) :
    (∃ msg, (iterateFrom handler s found t).1 = .error msg) ∨
      ∃ n < ops.length, (iterateFrom handler s found t).1 = .ok (found + n) := by
  induction ops generalizing s found t with
  | nil => exact absurd (List.append_eq_nil_iff.1 htu).2 hu
  | cons op ops ih =>
    have hop := h op List.mem_cons_self
    have hwhole (v : Bytes) (hv : v ++ u = ops.flatMap opBytes) :
        (∃ msg, (iterateFrom handler s found (opBytes op ++ v)).1 = .error msg) ∨
          ∃ n < ops.length + 1,
            (iterateFrom handler s found (opBytes op ++ v)).1 = .ok (found + n) := by
      rw [iterateFrom_ok (readOp_opBytes hop v)]
      rcases ih (fun op' hop' => h op' (List.mem_cons_of_mem op hop')) hv with hmsg | ⟨n, hn, hok⟩
      · exact Or.inl hmsg
      · refine Or.inr ⟨n + 1, Nat.succ_lt_succ hn, hok.trans ?_⟩
        rw [Nat.add_assoc, Nat.add_comm 1]
    rw [List.flatMap_cons] at htu
    rcases List.append_eq_append_iff.1 htu with ⟨v, hopv, huv⟩ | ⟨v, rfl, hv⟩
    · rcases eq_or_ne v [] with rfl | hne
      · rw [List.append_nil] at hopv
        have hall := hwhole [] huv
        rwa [List.append_nil, hopv] at hall
      · rcases eq_or_ne t [] with rfl | htne
        · refine Or.inr ⟨0, Nat.succ_pos _, ?_⟩
          rw [iterateFrom, if_pos rfl]
          rfl
        · obtain ⟨msg, hmsg⟩ := readOp_cut hop hopv.symm hne
          rw [iterateFrom_error htne hmsg]
          exact Or.inl ⟨msg, rfl⟩
    · exact hwhole v hv.symm

/-- `Iterate` over a batch whose writes fit ends with `ok`. -/
theorem IsBatch.iterate (h : b.IsBatch seq ops) (hfits : ∀ op ∈ ops, op.Fits)
    (hcount : ops.length < 2 ^ 32) (handler : σ → Op → σ) (s : σ) :
    b.iterate handler s = (.ok, ops.foldl handler s) := by
  have hcount' : ¬ (0 + ops.length ≠ b.count) := by
    rw [h.count, Nat.mod_eq_of_lt hcount, Nat.zero_add]
    exact not_not.2 rfl
  rw [WriteBatch.iterate, if_neg (Nat.not_lt.2 b.header), h.body, iterateFrom_opBytes hfits]
  dsimp only
  rw [if_neg hcount']

/-- A beginning of a batch is corrupt, if it has a header at all. -/
theorem IsBatch.iterate_cut (h : b.IsBatch seq ops) (hfits : ∀ op ∈ ops, op.Fits)
    (hcount : ops.length < 2 ^ 32) {t u : Bytes} (htu : t ++ u = b.rep) (hu : u ≠ [])
    (ht : kHeader ≤ t.length) (handler : σ → Op → σ) (s : σ) :
    ∃ msg, ((setContents t ht).iterate handler s).1 = .corruption msg := by
  have hhead : t.take kHeader = encodeFixed64 seq ++ encodeFixed32 ops.length := by
    have htake : (t ++ u).take kHeader = t.take kHeader := List.take_append_of_le_length ht
    rw [← htake, htu, h, ← List.append_assoc]
    exact List.take_left' rfl
  have hbody : t.drop kHeader ++ u = ops.flatMap opBytes := by
    rw [← List.drop_append_of_le_length ht, htu, h.body]
  have ht' : t = encodeFixed64 seq ++ (encodeFixed32 ops.length ++ t.drop kHeader) := by
    rw [← List.append_assoc, ← hhead, List.take_append_drop]
  have hbatch : (setContents t ht).count = ops.length := by
    change decodeFixed32 (t.drop 8) = ops.length
    rw [ht', ← encodeFixed64_length seq, List.drop_left, decodeFixed32_encodeFixed32,
      Nat.mod_eq_of_lt hcount]
  have hcut : (∃ msg, (iterateFrom handler s 0 (t.drop kHeader)).1 = .error msg) ∨
      ∃ n < ops.length, (iterateFrom handler s 0 (t.drop kHeader)).1 = .ok (0 + n) :=
    iterateFrom_cut hfits hbody hu
  have hiterate : (setContents t ht).iterate handler s =
      match iterateFrom handler s 0 (t.drop kHeader) with
      | (.ok found, s) =>
        if found ≠ (setContents t ht).count then (.corruption "WriteBatch has wrong count", s)
        else (.ok, s)
      | (.error msg, s) => (.corruption msg, s) := if_neg (Nat.not_lt.2 ht)
  rw [hiterate]
  generalize iterateFrom handler s 0 (t.drop kHeader) = r at hcut
  obtain ⟨r, s'⟩ := r
  rcases hcut with ⟨msg, rfl⟩ | ⟨n, hn, rfl⟩
  · exact ⟨msg, rfl⟩
  · have hne : 0 + n ≠ (setContents t ht).count := by omega
    refine ⟨"WriteBatch has wrong count", ?_⟩
    dsimp only
    rw [if_pos hne]

/-- The calls make a batch of their writes. -/
theorem Calls.isBatch (calls : Calls) : ∃ seq, calls.batch.IsBatch seq calls.ops := by
  induction calls with
  | clear => exact ⟨0, clear_isBatch⟩
  | add calls op ih =>
    obtain ⟨seq, h⟩ := ih
    exact ⟨seq, h.add op⟩
  | append dst src ihdst ihsrc =>
    obtain ⟨seq, hdst⟩ := ihdst
    obtain ⟨seq', hsrc⟩ := ihsrc
    exact ⟨seq, hdst.append hsrc⟩
  | setSequence calls seq ih =>
    obtain ⟨seq', h⟩ := ih
    exact ⟨seq, h.setSequence seq⟩

/-- **Reading back a batch.** The handler is called for the writes in the order of the calls, and a
proper beginning of the batch that has a header is corrupt. -/
theorem iterate_calls (calls : Calls) (hfits : ∀ op ∈ calls.ops, op.Fits)
    (hcount : calls.ops.length < 2 ^ 32) (handler : σ → Op → σ) (s : σ) :
    calls.batch.iterate handler s = (.ok, calls.ops.foldl handler s) ∧
      ∀ t u, t ++ u = calls.batch.rep → u ≠ [] → ∀ ht : kHeader ≤ t.length,
        ∃ msg, ((setContents t ht).iterate handler s).1 = .corruption msg := by
  obtain ⟨seq, h⟩ := calls.isBatch
  exact ⟨h.iterate hfits hcount handler s,
    fun _ _ htu hu ht => h.iterate_cut hfits hcount htu hu ht handler s⟩

/-- A value, a deletion and one more batch. -/
theorem iterate_calls_three :
    let calls : Calls :=
      .append (.add (.add .clear (.put [1] [2])) (.delete [1])) (.add .clear (.put [] [3]))
    (∀ op ∈ calls.ops, op.Fits) ∧ calls.ops.length < 2 ^ 32 ∧
      calls.batch.iterate (fun s op => s ++ [op]) [] =
        (.ok, [.put [1] [2], .delete [1], .put [] [3]]) :=
  have hfits : ∀ op ∈ [Op.put [1] [2], .delete [1], .put [] [3]], op.Fits := by
    simp [Op.Fits]
  ⟨hfits, by decide, (iterate_calls (.append (.add (.add .clear (.put [1] [2])) (.delete [1]))
    (.add .clear (.put [] [3]))) hfits (by decide) (fun s op => s ++ [op]) []).1⟩

/-! ## The writes of a batch -/

/-- The writes of a batch are what it is iterated as. -/
theorem IsBatch.ops_eq (h : b.IsBatch seq ops) (hfits : ∀ op ∈ ops, op.Fits)
    (hcount : ops.length < 2 ^ 32) : b.ops = ops := by
  rw [WriteBatch.ops, h.iterate hfits hcount, List.foldl_append_eq_append (f := fun op => [op]),
    List.nil_append]
  exact List.flatMap_singleton' ops

/-- A write takes a byte at least. -/
theorem IsBatch.length_le (h : b.IsBatch seq ops) : ops.length ≤ b.rep.length := by
  have hops : ops.length ≤ (ops.flatMap opBytes).length := by
    clear h
    induction ops with
    | nil => exact Nat.le_refl 0
    | cons op ops ih =>
      have hop := List.length_pos_iff.2 (opBytes_ne_nil op)
      rw [List.flatMap_cons, List.length_append, List.length_cons]
      omega
  rw [h, List.length_append, List.length_append]
  omega

/-- A batch as its caller puts it together, with lengths and a count that fit. -/
structure WellFormed (b : WriteBatch) : Prop where
  isBatch : ∃ seq, b.IsBatch seq b.ops
  fits : ∀ op ∈ b.ops, op.Fits
  count : b.ops.length < 2 ^ 31

/-- Calls of `Put` and `Delete` with texts that fit make a well-formed batch. -/
theorem Calls.wellFormed {calls : Calls} (hfits : ∀ op ∈ calls.ops, op.Fits)
    (hcount : calls.ops.length < 2 ^ 31) : calls.batch.WellFormed := by
  obtain ⟨seq, h⟩ := calls.isBatch
  have hops : calls.batch.ops = calls.ops := h.ops_eq hfits (by omega)
  exact ⟨⟨seq, hops.symm ▸ h⟩, hops.symm ▸ hfits, hops.symm ▸ hcount⟩

/-- A batch of one `Put`. -/
theorem put_wellFormed (key value : Bytes) (hkey : key.length + 8 < 2 ^ 32)
    (hvalue : value.length < 2 ^ 32) : (clear.put key value).WellFormed := by
  have hfits : ∀ op ∈ (Calls.clear.add (.put key value)).ops, op.Fits := by
    intro op hop
    obtain rfl : op = .put key value := List.mem_singleton.1 hop
    exact ⟨hkey, hvalue⟩
  have hcount : (Calls.clear.add (.put key value)).ops.length < 2 ^ 31 := by
    simp [Calls.ops]
  exact Calls.wellFormed hfits hcount

/-! ## Inserting into a table -/

variable [Std.TransCmp cmp]

/-- The handler that inserts gives the writes their numbers one after the other. -/
theorem inserter_foldl (m : MemTable cmp) (hseq : seq + ops.length ≤ kMaxSequenceNumber + 1) :
    ops.foldl inserter (seq, m) =
      (seq + ops.length, (writesFrom seq ops).foldl MemTable.addWrite m) := by
  induction ops generalizing seq m with
  | nil => rfl
  | cons op ops ih =>
    have hnext : (seq + 1) % 2 ^ 64 = seq + 1 := by
      rw [kMaxSequenceNumber, List.length_cons] at hseq
      exact Nat.mod_eq_of_lt (by omega)
    have hinsert : inserter (seq, m) op = (seq + 1, m.addWrite (op.write seq)) := by
      cases op with
      | put key value =>
        rw [inserter, hnext]
        rfl
      | delete key =>
        rw [inserter, hnext]
        rfl
    rw [List.length_cons] at hseq
    rw [List.foldl_cons, hinsert, ih _ (by omega), writesFrom, List.foldl_cons, List.length_cons,
      Nat.add_assoc, Nat.add_comm 1]

/-- `InsertInto` adds the writes with their numbers to the table. -/
theorem IsBatch.insertInto (h : b.IsBatch seq ops) (hfits : ∀ op ∈ ops, op.Fits)
    (hseq : seq + ops.length ≤ kMaxSequenceNumber + 1) (hcount : ops.length < 2 ^ 32)
    (m : MemTable cmp) :
    b.insertInto m = (.ok, (writesFrom seq ops).foldl MemTable.addWrite m) := by
  have hsequence : b.sequence = seq := by
    rw [kMaxSequenceNumber] at hseq
    rw [h.sequence, Nat.mod_eq_of_lt (by omega)]
  rw [WriteBatch.insertInto, h.iterate hfits hcount, hsequence, inserter_foldl m hseq]

end

end WriteBatch

end TelecomSuite.LevelDb
