import TelecomSuite.LevelDb.Snapshots

/-!
# The log of a table

What a crash leaves of a log. `LogFile.Ok` says what a log is while batches are added to it, and
`LogFile.Safe` that a write is in the bytes that are synced. From what is left after a crash the
safe writes are recovered (`LogFile.Ok.recovers`).
-/

namespace TelecomSuite.LevelDb

open Versions Recovery

namespace LogFile

/-- The records. -/
def records (f : LogFile) : List Bytes := f.logged.map (·.rep)

/-- The writes of the first `m` batches. -/
def writes (f : LogFile) (m : ℕ) : List MemTable.Write :=
  writesFrom f.first ((f.logged.take m).flatMap (·.ops))

/-- The number of the next write. -/
def next (f : LogFile) : ℕ := f.first + (f.logged.flatMap (·.ops)).length

/-- What a log is while batches are added to it. As long as no call failed its file has all of the
records; after that it has a beginning of them, and no room. -/
structure Ok (f : LogFile) : Prop where
  wrote : ∃ cap, f.log.Wrote (!f.failed) cap (Log.endOffset 0 (Log.logFragments 0 f.records))
    (Log.logBytes 0 f.records)
  batches : Batches f.first (f.logged.map (·.ops)) f.logged
  fits : FitsFormat f.first (f.logged.map (·.ops))
  synced : f.synced ≤ f.log.dest.contents.length

/-- A write that is in the bytes that are synced. -/
def Safe (f : LogFile) (v : MemTable.Write) : Prop :=
  ∃ m ≤ f.logged.length, (Log.logBytes 0 (f.records.take m)).length ≤ f.synced ∧ v ∈ f.writes m

variable {f : LogFile} {b : WriteBatch} {ops : List Op} {v : MemTable.Write} {m : ℕ}

/-- There is one record for each batch. -/
theorem records_length (f : LogFile) : f.records.length = f.logged.length := List.length_map _

/-- A new log. -/
theorem new_ok (room : Option ℕ) {first : ℕ} (hpos : 0 < first)
    (hmax : first ≤ kMaxSequenceNumber + 1) : (LogFile.new room first).Ok where
  wrote := by
    refine ⟨room, ?_, iff_of_true rfl fun _ _ => Nat.zero_le _, fun _ => rfl⟩
    cases room with
    | none => rfl
    | some k => exact congrArg₂ _ List.take_nil.symm rfl
  batches := trivial
  fits := ⟨hpos, fun _ h => absurd h List.not_mem_nil, fun _ h => absurd h List.not_mem_nil, hmax⟩
  synced := Nat.zero_le _

/-- The writes in a log have numbers between its first one and the next one. -/
theorem mem_writes_length (hv : v ∈ f.writes m) : f.first ≤ v.seq ∧ v.seq < f.next := by
  obtain ⟨-, -, -, hle, hlt⟩ := mem_writesFrom hv
  have hlength : ((f.logged.take m).flatMap (·.ops)).length ≤
      (f.logged.flatMap (·.ops)).length := by
    conv_rhs => rw [← List.take_append_drop m f.logged, List.flatMap_append, List.length_append]
    exact Nat.le_add_right _ _
  rw [next]
  omega

/-- The writes in a log fit. -/
theorem Ok.writes_fits (h : f.Ok) (hv : v ∈ f.writes m) : MemTable.Fits v := by
  have htake := h.fits.take m
  rw [← List.map_take] at htake
  refine writesFrom_fits (fun op hop => ?_) htake.seq_le hv
  obtain ⟨b, hb, hop⟩ := List.mem_flatMap.1 hop
  exact htake.ops b.ops (List.mem_map_of_mem hb) op hop

/-- More batches have more writes. -/
theorem writes_subset {m' : ℕ} (h : m ≤ m') : f.writes m ⊆ f.writes m' := by
  have hprefix : (f.logged.take m).flatMap (·.ops) <+: (f.logged.take m').flatMap (·.ops) := by
    rw [← List.take_append_drop m (f.logged.take m'), List.take_take, Nat.min_eq_left h,
      List.flatMap_append]
    exact List.prefix_append _ _
  obtain ⟨more, hmore⟩ := hprefix
  rw [writes, writes, ← hmore, writesFrom_append]
  exact List.subset_append_left _ _

/-! ## Adding a batch -/

/-- The number after one more batch. -/
theorem add_next (f : LogFile) (b : WriteBatch) : (f.add b).next = f.next + b.ops.length := by
  rw [next, next, add, List.flatMap_append, List.flatMap_singleton, List.length_append,
    Nat.add_assoc]

/-- One more batch is one more record. -/
theorem add_records (f : LogFile) (b : WriteBatch) : (f.add b).records = f.records ++ [b.rep] :=
  List.map_append

/-- What is safe stays so when a batch is added. -/
theorem Safe.add (h : f.Safe v) (b : WriteBatch) : (f.add b).Safe v := by
  obtain ⟨m, hm, hsynced, hv⟩ := h
  have hrecords : (f.add b).records.take m = f.records.take m := by
    rw [add_records, List.take_append_of_le_length (f.records_length.symm ▸ hm)]
  have hwrites : (f.add b).writes m = f.writes m := by
    rw [writes, LogFile.add, List.take_append_of_le_length hm]
    rfl
  refine ⟨m, ?_, ?_, hwrites ▸ hv⟩
  · rw [LogFile.add, List.length_append]
    exact Nat.le_add_right_of_le hm
  · rw [hrecords]
    exact hsynced

/-- What is safe stays so when more is synced. -/
theorem Safe.sync (h : f.Safe v) {n : ℕ} (hn : f.synced ≤ n) :
    ({ f with synced := n } : LogFile).Safe v := by
  obtain ⟨m, hm, hsynced, hv⟩ := h
  exact ⟨m, hm, hsynced.trans hn, hv⟩

/-- A batch with the next number goes behind the others. -/
theorem batches_append {seq : ℕ} {groups : List (List Op)} {bs : List WriteBatch}
    (h : Batches seq groups bs) (hb : b.IsBatch (seq + groups.flatten.length) ops) :
    Batches seq (groups ++ [ops]) (bs ++ [b]) := by
  induction bs generalizing seq groups with
  | nil =>
    cases groups with
    | nil => exact ⟨hb, trivial⟩
    | cons group groups => exact h.elim
  | cons b' bs ih =>
    cases groups with
    | nil => exact h.elim
    | cons group groups =>
      rw [List.flatten_cons, List.length_append, ← Nat.add_assoc] at hb
      exact ⟨h.1, ih h.2 hb⟩

/-- A batch is added. If the call returned `ok` the whole of it is in the file. -/
theorem Ok.add (h : f.Ok) (hb : b.IsBatch f.next b.ops) (hops : ∀ op ∈ b.ops, op.Fits)
    (hcount : b.ops.length < 2 ^ 31) (hmax : f.next + b.ops.length ≤ kMaxSequenceNumber + 1) :
    (f.add b).Ok ∧ ((f.log.addRecord b.rep).1 = true →
      (Log.logBytes 0 (f.add b).records).length ≤ (f.add b).log.dest.contents.length) := by
  obtain ⟨cap, hwrote⟩ := h.wrote
  have hnew := Log.Writer.addRecord_wrote b.rep hwrote
  have hfragments : Log.logFragments 0 (f.add b).records = Log.logFragments 0 f.records ++
      Log.fragments (Log.endOffset 0 (Log.logFragments 0 f.records)) b.rep true := by
    rw [add_records, Log.logFragments_append, Log.logFragments, Log.logFragments, List.append_nil]
  have hoffset := congrArg (Log.endOffset 0) hfragments
  rw [Log.endOffset_append] at hoffset
  have hbytes : Log.logBytes 0 (f.add b).records = Log.logBytes 0 f.records ++
      Log.layout (Log.endOffset 0 (Log.logFragments 0 f.records))
        (Log.fragments (Log.endOffset 0 (Log.logFragments 0 f.records)) b.rep true) := by
    rw [Log.logBytes, hfragments, Log.layout_append]
    rfl
  rw [← hoffset, ← hbytes] at hnew
  have hgroups : (f.add b).logged.map (·.ops) = f.logged.map (·.ops) ++ [b.ops] := List.map_append
  have hflatten : f.next = f.first + (f.logged.map (·.ops)).flatten.length := rfl
  -- a call can only return `ok` if none failed before it
  have hfailed : (!(f.add b).failed) = (f.log.addRecord b.rep).1 := by
    rw [LogFile.add, Bool.not_or, Bool.not_not, Bool.and_eq_right_iff_imp]
    intro hok
    refine hwrote.ok_iff.2 ((hnew.ok_iff.1 hok).mono ?_)
    rw [hbytes, List.length_append]
    exact Nat.le_add_right _ _
  refine ⟨⟨⟨cap, hfailed ▸ hnew⟩, ?_, ?_, ?_⟩, fun hok => ?_⟩
  · rw [hgroups]
    exact batches_append h.batches (hflatten ▸ hb)
  · rw [hgroups]
    refine ⟨h.fits.pos, fun ops hmem => ?_, fun ops hmem => ?_, ?_⟩
    · rcases List.mem_append.1 hmem with hmem | hmem
      · exact h.fits.ops ops hmem
      · rw [List.mem_singleton.1 hmem]
        exact hops
    · rcases List.mem_append.1 hmem with hmem | hmem
      · exact h.fits.count ops hmem
      · rw [List.mem_singleton.1 hmem]
        exact hcount
    · rw [List.flatten_append, List.length_append, List.flatten_singleton, ← Nat.add_assoc]
      exact hmax
  · rw [hbytes] at hnew
    exact h.synced.trans (hwrote.stores.length_le hnew.stores)
  · exact (congrArg List.length (hnew.stores.contents_of_room (hnew.ok_iff.1 hok))).ge

/-- While no call failed, the room on the disk may change. -/
theorem Ok.setRoom (h : f.Ok) (hfailed : f.failed = false) (room : Option ℕ) :
    (f.setRoom room).Ok := by
  obtain ⟨cap, hwrote⟩ := h.wrote
  rw [hfailed] at hwrote
  have hroom := hwrote.setRoom room
  rw [← Bool.not_false, ← hfailed] at hroom
  exact ⟨⟨_, hroom⟩, h.batches, h.fits, h.synced⟩

/-! ## After a crash -/

variable {cmp : Comparator}

/-- What is left of a log when its first `n` bytes are. -/
def cut (f : LogFile) (n : ℕ) : Log.SequentialFile := ⟨f.log.dest.contents.take n, none⟩

/-- The safe writes are recovered. -/
theorem Ok.recovers (h : f.Ok) {n : ℕ} (hn : f.synced ≤ n) {env : RecoveryEnv cmp}
    (hbuild : ∀ n, env.buildTable n = .ok) :
    ∃ m, Recovers (env, f.cut n) (f.writes m) ∧ ∀ v, f.Safe v → v ∈ f.writes m := by
  obtain ⟨cap, hwrote⟩ := h.wrote
  obtain ⟨m, hyields, hm⟩ := Log.yields_stores true hwrote.stores n
  rw [records, ← List.map_take] at hyields
  refine ⟨m, ⟨hbuild, f.first, (f.logged.map (·.ops)).take m, f.logged.take m, h.batches.take m,
    h.fits.take m, hyields, ?_⟩, fun v hv => ?_⟩
  · rw [← List.map_take]
    rfl
  · obtain ⟨k, hk, hsynced, hv⟩ := hv
    refine writes_subset ?_ hv
    cases k with
    | zero => exact Nat.zero_le m
    | succ j =>
      exact (hm j (f.records_length.symm ▸ hk)).2 ⟨hsynced.trans h.synced, hsynced.trans hn⟩

end LogFile

end TelecomSuite.LevelDb
