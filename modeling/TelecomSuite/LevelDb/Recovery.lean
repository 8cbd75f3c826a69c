import Mathlib.Data.List.Forall2
import TelecomSuite.LevelDb.LogRoundTrip
import TelecomSuite.LevelDb.WriteBatch

/-!
# Recovery of a log

`RecoverLogFile` of `db/db_impl.cc` reads the batches of a log into tables in memory, which become
tables of level 0 when they are too large and at the end. `recoverLogFile_crash`: after a crash the
writes of the batches that are completely in the log are recovered, and no others.
-/

namespace TelecomSuite.LevelDb

open Versions

/-- The options that recovery and writes depend on. -/
structure Options where
  paranoidChecks : Bool
  writeBufferSize : ℕ
  reuseLogs : Bool

/-- What recovery depends on besides the log: the memory that a table takes, how the writing of
the n-th table of level 0 ends, whether the log can be opened for appending, and the room on the
disk. -/
structure RecoveryEnv (cmp : Comparator) where
  approximateMemoryUsage : MemTable cmp → ℕ
  buildTable : ℕ → Status
  appendable : Bool
  room : Option ℕ

/-- The state of `RecoverLogFile`. `tables` are the tables of level 0 that were written, the oldest
first. -/
structure Recovery (cmp : Comparator) where
  status : Status
  mem : Option (MemTable cmp)
  tables : List (MemTable cmp)
  maxSequence : ℕ
  saveManifest : Bool
  compactions : ℕ

namespace Recovery

variable {cmp : Comparator}

/-- `LogReporter::Corruption`. Without paranoid checks there is only a message. -/
def corruption (options : Options) (reason : Status) (s : Recovery cmp) : Recovery cmp :=
  if options.paranoidChecks ∧ s.status = .ok then { s with status := reason } else s

/-- `MaybeIgnoreError`. -/
def maybeIgnoreError (options : Options) (status : Status) : Status :=
  if status = .ok ∨ options.paranoidChecks then status else .ok

/-- `WriteLevel0Table`. No file is kept of a table that has no entries. What `BuildTable` writes is
taken to be the table in memory: the format of its files is not modelled. -/
def writeLevel0Table (env : RecoveryEnv cmp) (mem : MemTable cmp) (s : Recovery cmp) :
    Recovery cmp :=
  match SkipList.Iterator.seekToFirst mem.table.list with
  | none => { s with status := .ok, mem := none }
  | some _ =>
    let status := env.buildTable s.tables.length
    { s with
      status := status
      tables := if status = .ok then s.tables ++ [mem] else s.tables
      mem := none }

section
variable [Std.TransCmp cmp]

/-- The sequence number of the last write of a batch. The count is a signed number of 32 bits. -/
def lastSequence (b : WriteBatch) : ℕ :=
  let count : ℤ := if b.count < 2 ^ 31 then b.count else b.count - 2 ^ 32
  (((b.sequence : ℤ) + count - 1) % 2 ^ 64).toNat

/-- One record, and whether the loop goes on. -/
def recoverRecord (options : Options) (env : RecoveryEnv cmp) (s : Recovery cmp) (record : Bytes) :
    Bool × Recovery cmp :=
  if h : kHeader ≤ record.length then
    let batch := WriteBatch.setContents record h
    let (status, mem) := batch.insertInto (s.mem.getD .empty)
    let status := maybeIgnoreError options status
    let s := { s with status := status, mem := some mem }
    if status = .ok then
      let s := { s with maxSequence := max s.maxSequence (lastSequence batch) }
      if options.writeBufferSize < env.approximateMemoryUsage mem then
        let s := { s with compactions := s.compactions + 1, saveManifest := true }
        let s := s.writeLevel0Table env mem
        (s.status = .ok, s)
      else (true, s)
    else (false, s)
  else (true, s.corruption options (.corruption "log record too small"))

/-- The loop over the records. A record that is read when the status is bad already is not looked
at. -/
def recoverLoop (options : Options) (env : RecoveryEnv cmp) (r : Log.Reader) (s : Recovery cmp) :
    Recovery cmp :=
  match _h : r.readRecord with
  | (record, r') =>
    let reported := r'.reports.drop r.reports.length
    let s := reported.foldl (fun s report => s.corruption options report.reason) s
    match record with
    | none => s
    | some record =>
      if s.status = .ok then
        match s.recoverRecord options env record with
        | (true, s) => recoverLoop options env r' s
        | (false, s) => s
      else s
termination_by r.left
decreasing_by exact Log.Reader.readRecord_lt (by assumption)

/-- `RecoverLogFile`: what was recovered, and the log and the table in memory that are reused. -/
def recoverLogFile (options : Options) (env : RecoveryEnv cmp)
    (file : Except Status Log.SequentialFile) (lastLog : Bool) (maxSequence : ℕ) :
    Recovery cmp × Option (Log.Writer × MemTable cmp) :=
  match file with
  | .error status => (⟨maybeIgnoreError options status, none, [], maxSequence, false, 0⟩, none)
  | .ok file =>
    let s := recoverLoop options env (.new file true 0) ⟨.ok, none, [], maxSequence, false, 0⟩
    if s.status = .ok ∧ options.reuseLogs ∧ lastLog ∧ s.compactions = 0 ∧ env.appendable then
      ({ s with mem := none },
        some (.reopen ⟨file.contents, env.room⟩ file.contents.length, s.mem.getD .empty))
    else
      match s.mem with
      | some mem =>
        if s.status = .ok then
          (({ s with saveManifest := true } : Recovery cmp).writeLevel0Table env mem, none)
        else ({ s with mem := none }, none)
      | none => (s, none)

/-- Where keys are looked up after the recovery: in the table in memory, if it goes on being used,
and in the tables of level 0, the newest first. -/
def readFrom (result : Recovery cmp × Option (Log.Writer × MemTable cmp)) : List (MemTable cmp) :=
  (result.2.map (·.2)).toList ++ result.1.tables.reverse

/-- The loop of `Recover` over the logs: the status, the tables to read from, the newest first, and
the maximal sequence number. -/
def recoverLogs (options : Options) : List (RecoveryEnv cmp × Log.SequentialFile) → ℕ →
    Status × List (MemTable cmp) × ℕ
  | [], maxSequence => (.ok, [], maxSequence)
  | (env, file) :: logs, maxSequence =>
    let result := recoverLogFile options env (.ok file) logs.isEmpty maxSequence
    if result.1.status = .ok then
      let (status, tables, maxSequence) := recoverLogs options logs result.1.maxSequence
      (status, tables ++ readFrom result, maxSequence)
    else (result.1.status, readFrom result, result.1.maxSequence)

end

/-! ## Batches one after the other -/

/-- Batches of writes with consecutive numbers. -/
def Batches : ℕ → List (List Op) → List WriteBatch → Prop
  | _, [], [] => True
  | seq, ops :: groups, b :: bs => b.IsBatch seq ops ∧ Batches (seq + ops.length) groups bs
  | _, _, _ => False

/-- The writes fit into the format. -/
structure FitsFormat (seq : ℕ) (groups : List (List Op)) : Prop where
  pos : 0 < seq
  ops : ∀ ops ∈ groups, ∀ op ∈ ops, op.Fits
  count : ∀ ops ∈ groups, ops.length < 2 ^ 31
  seq_le : seq + groups.flatten.length ≤ kMaxSequenceNumber + 1

/-- What was recovered so far: the tables and the table in memory hold the writes in their order. -/
structure Holds (s : Recovery cmp) (vs : List MemTable.Write) : Prop where
  status : s.status = .ok
  split : ∃ old cur, List.Forall₂ MemTable.Holds s.tables old ∧
    (s.mem.getD .empty).Holds cur ∧ (s.mem = none → cur = []) ∧ old.flatten ++ cur = vs

section
variable {options : Options} {env : RecoveryEnv cmp} {s : Recovery cmp} {vs : List MemTable.Write}
  {seq : ℕ} {ops : List Op} {groups : List (List Op)} {b : WriteBatch} {bs : List WriteBatch}

/-- The first batch fits. -/
theorem FitsFormat.head (h : FitsFormat seq (ops :: groups)) :
    (∀ op ∈ ops, op.Fits) ∧ ops.length < 2 ^ 31 ∧ seq + ops.length ≤ kMaxSequenceNumber + 1 := by
  have hseq := h.seq_le
  rw [List.flatten_cons, List.length_append] at hseq
  exact ⟨h.ops ops List.mem_cons_self, h.count ops List.mem_cons_self, by omega⟩

/-- The other batches fit behind it. -/
theorem FitsFormat.tail (h : FitsFormat seq (ops :: groups)) :
    FitsFormat (seq + ops.length) groups where
  pos := Nat.add_pos_left h.pos _
  ops := fun ops' hops => h.ops ops' (List.mem_cons_of_mem ops hops)
  count := fun ops' hops => h.count ops' (List.mem_cons_of_mem ops hops)
  seq_le := by
    have hseq := h.seq_le
    rw [List.flatten_cons, List.length_append] at hseq
    omega

/-- The number of the last write of a batch. -/
theorem lastSequence_eq (h : b.IsBatch seq ops) (hpos : 0 < seq) (hcount : ops.length < 2 ^ 31)
    (hseq : seq + ops.length ≤ kMaxSequenceNumber + 1) : lastSequence b = seq + ops.length - 1 := by
  have hcount' : b.count = ops.length := by
    rw [h.count, Nat.mod_eq_of_lt (by omega)]
  rw [kMaxSequenceNumber] at hseq
  have hsequence : b.sequence = seq := by
    rw [h.sequence, Nat.mod_eq_of_lt (by omega)]
  rw [lastSequence, hcount', hsequence, if_pos hcount]
  rw [Int.emod_eq_of_lt (by omega) (by omega)]
  omega

/-- A table in memory that is written becomes the last table, if there is anything in it. -/
theorem Holds.writeLevel0Table {mem : MemTable cmp} (env : RecoveryEnv cmp) (h : s.Holds vs)
    (hmem : s.mem = some mem) (hbuild : ∀ n, env.buildTable n = .ok) :
    (s.writeLevel0Table env mem).Holds vs := by
  obtain ⟨old, cur, hold, hcur, -, hvs⟩ := h.split
  rw [hmem] at hcur
  rw [Recovery.writeLevel0Table]
  cases hfirst : SkipList.Iterator.seekToFirst mem.table.list with
  | none =>
    have hcur_nil : cur = [] := hcur.eq_nil hfirst
    rw [hcur_nil] at hvs
    exact ⟨rfl, old, [], hold, MemTable.empty_holds, fun _ => rfl, hvs⟩
  | some x =>
    refine ⟨hbuild _, old ++ [cur], [], ?_, MemTable.empty_holds, fun _ => rfl, ?_⟩
    · dsimp only
      rw [if_pos (hbuild _)]
      exact List.rel_append hold (.cons hcur .nil)
    · rw [List.append_nil, List.flatten_append, List.flatten_singleton, hvs]

/-- Writing a table does not change the highest number. -/
theorem writeLevel0Table_maxSequence (mem : MemTable cmp) :
    (s.writeLevel0Table env mem).maxSequence = s.maxSequence := by
  rw [Recovery.writeLevel0Table]
  cases SkipList.Iterator.seekToFirst mem.table.list <;> rfl

variable [Std.TransCmp cmp]

/-- A batch is recovered. -/
theorem Holds.recoverRecord (options : Options) (h : s.Holds vs) (hb : b.IsBatch seq ops)
    (hfits : FitsFormat seq (ops :: groups)) (hbuild : ∀ n, env.buildTable n = .ok) :
    ∃ s', s.recoverRecord options env b.rep = (true, s') ∧ s'.Holds (vs ++ writesFrom seq ops) ∧
      s'.maxSequence = max s.maxSequence (seq + ops.length - 1) := by
  obtain ⟨hops, hcount, hseq⟩ := hfits.head
  obtain ⟨old, cur, hold, hcur, -, hvs⟩ := h.split
  have hinsert := hb.insertInto hops hseq (by omega) (s.mem.getD .empty)
  have hnew := MemTable.addWrite_foldl_holds hcur (writesFrom seq ops)
  have hlast := lastSequence_eq hb hfits.pos hcount hseq
  have hok : maybeIgnoreError options .ok = .ok := if_pos (Or.inl rfl)
  have hset : WriteBatch.setContents b.rep b.header = b := rfl
  have hinserted : Holds (⟨.ok, some ((writesFrom seq ops).foldl MemTable.addWrite
      (s.mem.getD .empty)), s.tables, max s.maxSequence (seq + ops.length - 1), s.saveManifest,
      s.compactions⟩ : Recovery cmp) (vs ++ writesFrom seq ops) := by
    refine ⟨rfl, old, _, hold, hnew, fun hnone => (nomatch hnone), ?_⟩
    rw [← hvs, List.append_assoc]
  rw [Recovery.recoverRecord, dif_pos b.header, hset]
  simp only [hinsert, hok, hlast, if_true]
  split_ifs with hsize
  · have hwritten : Recovery.Holds _ _ :=
      Holds.writeLevel0Table
        (s := ⟨.ok, some _, _, max s.maxSequence (seq + ops.length - 1), true, s.compactions + 1⟩)
        env ⟨rfl, hinserted.split⟩ rfl hbuild
    exact ⟨_, Prod.ext (decide_eq_true hwritten.status) rfl, hwritten,
      writeLevel0Table_maxSequence _⟩
  · exact ⟨_, rfl, hinserted, rfl⟩

/-- The first ones of consecutive batches are consecutive. -/
theorem Batches.take (h : Batches seq groups bs) (m : ℕ) :
    Batches seq (groups.take m) (bs.take m) := by
  induction bs generalizing seq groups m with
  | nil =>
    cases groups with
    | nil =>
      rw [List.take_nil, List.take_nil]
      exact h
    | cons ops groups => exact h.elim
  | cons b bs ih =>
    cases groups with
    | nil => exact h.elim
    | cons ops groups =>
      cases m with
      | zero => exact trivial
      | succ m => exact ⟨h.1, ih h.2 m⟩

/-- There is one batch for each group of writes. -/
theorem Batches.length_eq (h : Batches seq groups bs) : groups.length = bs.length := by
  induction bs generalizing seq groups with
  | nil =>
    cases groups with
    | nil => rfl
    | cons ops groups => exact h.elim
  | cons b bs ih =>
    cases groups with
    | nil => exact h.elim
    | cons ops groups => exact congrArg (· + 1) (ih h.2)

/-- The first batches fit. -/
theorem FitsFormat.take (h : FitsFormat seq groups) (m : ℕ) : FitsFormat seq (groups.take m) where
  pos := h.pos
  ops := fun ops hops => h.ops ops (List.mem_of_mem_take hops)
  count := fun ops hops => h.count ops (List.mem_of_mem_take hops)
  seq_le := by
    have hsplit := congrArg (·.flatten.length) (List.take_append_drop m groups)
    have hseq := h.seq_le
    rw [List.flatten_append, List.length_append] at hsplit
    omega

/-- At the end of the log the loop ends. -/
theorem recoverLoop_none {r r' : Log.Reader} (hrecord : r.readRecord = (none, r'))
    (hreports : r'.reports = r.reports) : recoverLoop options env r s = s := by
  rw [recoverLoop]
  split
  next h' =>
    cases hrecord.symm.trans h'
    rw [hreports, List.drop_length]
    rfl

/-- A record is recovered, and the loop goes on. -/
theorem recoverLoop_some {r r' : Log.Reader} {record : Bytes} {s' : Recovery cmp}
    (hrecord : r.readRecord = (some record, r')) (hreports : r'.reports = r.reports)
    (hstatus : s.status = .ok) (hrecover : s.recoverRecord options env record = (true, s')) :
    recoverLoop options env r s = recoverLoop options env r' s' := by
  rw [recoverLoop]
  split
  next h' =>
    cases hrecord.symm.trans h'
    rw [hreports, List.drop_length]
    refine (if_pos hstatus).trans ?_
    rw [List.foldl_nil, hrecover]

/-- The loop over records that are batches. -/
theorem Holds.recoverLoop {r : Log.Reader} (options : Options) (h : s.Holds vs)
    (hb : Batches seq groups bs) (hyields : r.Yields (bs.map (·.rep))) (hfits : FitsFormat seq groups)
    (hbuild : ∀ n, env.buildTable n = .ok) :
    (recoverLoop options env r s).Holds (vs ++ writesFrom seq groups.flatten) ∧
      (recoverLoop options env r s).maxSequence = if groups = [] then s.maxSequence
        else max s.maxSequence (seq + groups.flatten.length - 1) := by
  induction bs generalizing seq groups s vs r with
  | nil =>
    cases groups with
    | cons ops groups => exact hb.elim
    | nil =>
      cases hyields with
      | done hrecord hreports =>
        rw [recoverLoop_none hrecord hreports, List.flatten_nil, writesFrom, List.append_nil]
        exact ⟨h, rfl⟩
  | cons b bs ih =>
    cases groups with
    | nil => exact hb.elim
    | cons ops groups =>
      obtain ⟨hhead, htail⟩ := hb
      cases hyields with
      | next hrecord hreports hrest =>
        obtain ⟨s', hrecover, hholds, hmax⟩ := h.recoverRecord options hhead hfits hbuild
        obtain ⟨hall, hmaxall⟩ := ih hholds htail hrest hfits.tail
        rw [recoverLoop_some hrecord hreports h.status hrecover, List.flatten_cons,
          writesFrom_append, ← List.append_assoc]
        refine ⟨hall, ?_⟩
        rw [hmaxall, hmax, if_neg (List.cons_ne_nil ops groups), List.length_append]
        split_ifs with hnil
        · rw [hnil, List.flatten_nil, List.length_nil, Nat.add_zero]
        · omega

/-! ## What is read after the recovery -/

/-- The first table that knows the key answers. -/
theorem findSome_get {ms : List (MemTable cmp)} {sources : List (List MemTable.Write)}
    (h : List.Forall₂ MemTable.Holds ms sources) (hfits : ∀ v ∈ sources.flatten, MemTable.Fits v)
    (hdistinct : Distinct cmp sources.flatten) {k : Bytes} {t : ℕ} (hk : k.length + 8 < 2 ^ 32)
    (ht : t ≤ kMaxSequenceNumber) : ms.findSome? (·.get k t) =
      (sources.findSome? (newest cmp k t)).map (·.value) := by
  induction h with
  | nil => rfl
  | @cons m ws ms sources hm _ ih =>
    rw [List.flatten_cons] at hfits hdistinct
    obtain ⟨hws, hsources, -⟩ := List.pairwise_append.1 hdistinct
    rw [List.findSome?_cons, List.findSome?_cons,
      MemTable.get_eq hm (fun v hv => hfits v (List.mem_append_left _ hv)) hws hk ht,
      ih (fun v hv => hfits v (List.mem_append_right _ hv)) hsources]
    cases newest cmp k t ws <;> rfl

/-- The tables from the newest to the oldest have the newest version. -/
theorem Holds.get (h : s.Holds (writesFrom seq ops)) (hfits : ∀ op ∈ ops, op.Fits)
    (hseq : seq + ops.length ≤ kMaxSequenceNumber + 1) {k : Bytes} {t : ℕ}
    (hk : k.length + 8 < 2 ^ 32) (ht : t ≤ kMaxSequenceNumber) :
    (s.mem.getD .empty :: s.tables.reverse).findSome? (·.get k t) =
      (newest cmp k t (writesFrom seq ops)).map (·.value) := by
  obtain ⟨old, cur, hold, hcur, -, hvs⟩ := h.split
  have hflatten : (old ++ [cur]).flatten = writesFrom seq ops := by
    rw [List.flatten_append, List.flatten_singleton, hvs]
  have hsources : cur :: old.reverse = (old ++ [cur]).reverse := by
    rw [List.reverse_append, List.reverse_singleton, List.singleton_append]
  have hreverse : (cur :: old.reverse).reverse.flatten = writesFrom seq ops := by
    rw [hsources, List.reverse_reverse, hflatten]
  have hperm : (cur :: old.reverse).flatten.Perm (writesFrom seq ops) := by
    rw [← hreverse]
    exact (List.reverse_perm _).symm.flatten
  have hlt := writesFrom_pairwise seq ops
  have hdistinct : Distinct cmp (cur :: old.reverse).flatten :=
    (hperm.pairwise_iff Apart.symm).2 (Distinct.of_increasing hlt)
  have hall (v : MemTable.Write) (hv : v ∈ (cur :: old.reverse).flatten) : MemTable.Fits v :=
    writesFrom_fits hfits hseq (hperm.mem_iff.1 hv)
  rw [findSome_get (.cons hcur (List.rel_reverse hold)) hall hdistinct hk ht,
    findSome_newest_reverse (by rwa [hreverse]), hreverse]

/-- What the loop recovered is in the tables and in the reused table in memory, if the tables can be
written. -/
theorem recoverLogFile_holds {file : Log.SequentialFile} {maxSequence : ℕ} (lastLog : Bool)
    (hloop : (recoverLoop options env (.new file true 0) ⟨.ok, none, [], maxSequence, false, 0⟩).Holds
      vs) (hbuild : ∀ n, env.buildTable n = .ok) :
    let result := recoverLogFile options env (.ok file) lastLog maxSequence
    result.1.status = .ok ∧ result.1.maxSequence =
      (recoverLoop options env (.new file true 0) ⟨.ok, none, [], maxSequence, false, 0⟩).maxSequence ∧
      ∃ s' : Recovery cmp, s'.Holds vs ∧
        (readFrom result = s'.mem.getD .empty :: s'.tables.reverse ∨
          s'.mem = none ∧ readFrom result = s'.tables.reverse) := by
  dsimp only [recoverLogFile]
  generalize recoverLoop options env (.new file true 0) ⟨.ok, none, [], maxSequence, false, 0⟩ = s
    at hloop ⊢
  split_ifs with hreuse hstatus
  · exact ⟨hloop.status, rfl, s, hloop, Or.inl rfl⟩
  · cases hmem : s.mem with
    | none => exact ⟨hloop.status, rfl, s, hloop, Or.inr ⟨hmem, rfl⟩⟩
    | some mem =>
      have hwritten : Recovery.Holds _ vs := Holds.writeLevel0Table
        (s := { s with saveManifest := true }) env ⟨hloop.status, hloop.split⟩ hmem hbuild
      refine ⟨hwritten.status, writeLevel0Table_maxSequence mem, _, hwritten, Or.inr ⟨?_, rfl⟩⟩
      rw [Recovery.writeLevel0Table]
      cases SkipList.Iterator.seekToFirst mem.table.list <;> rfl
  · exact absurd hloop.status hstatus

omit [Std.TransCmp cmp] in
/-- The tables hold what was recovered, each newer than the next. -/
theorem Holds.readFrom {vs : List MemTable.Write}
    {result : Recovery cmp × Option (Log.Writer × MemTable cmp)} (h : s.Holds vs)
    (hread : readFrom result = s.mem.getD .empty :: s.tables.reverse ∨
      s.mem = none ∧ readFrom result = s.tables.reverse) :
    ∃ sources, List.Forall₂ MemTable.Holds (readFrom result) sources ∧
      sources.reverse.flatten = vs := by
  obtain ⟨old, cur, hold, hcur, hnone, hvs⟩ := h.split
  rcases hread with hread | ⟨hmem, hread⟩
  · rw [hread]
    refine ⟨cur :: old.reverse, .cons hcur (List.rel_reverse hold), ?_⟩
    rw [List.reverse_cons, List.reverse_reverse, List.flatten_append, List.flatten_singleton, hvs]
  · rw [hread]
    refine ⟨old.reverse, List.rel_reverse hold, ?_⟩
    rw [hnone hmem, List.append_nil] at hvs
    rw [List.reverse_reverse, hvs]

/-- A log from which `vs` are recovered. -/
def Recovers (log : RecoveryEnv cmp × Log.SequentialFile) (vs : List MemTable.Write) : Prop :=
  (∀ n, log.1.buildTable n = .ok) ∧ ∃ seq groups bs, Batches seq groups bs ∧ FitsFormat seq groups ∧
    (Log.Reader.new log.2 true 0).Yields (bs.map (·.rep)) ∧ vs = writesFrom seq groups.flatten

/-- Several logs, the older ones first, are recovered one after the other. -/
theorem recoverLogs_holds (options : Options)
    {logs : List (RecoveryEnv cmp × Log.SequentialFile)} {vss : List (List MemTable.Write)}
    (h : List.Forall₂ Recovers logs vss) (maxSequence : ℕ) :
    (recoverLogs options logs maxSequence).1 = .ok ∧
      ∃ sources, List.Forall₂ MemTable.Holds (recoverLogs options logs maxSequence).2.1 sources ∧
        sources.reverse.flatten = vss.flatten := by
  induction h generalizing maxSequence with
  | nil => exact ⟨rfl, [], .nil, rfl⟩
  | @cons log vs logs vss hlog _ ih =>
    obtain ⟨env, file⟩ := log
    obtain ⟨hbuild, seq, groups, bs, hb, hfits, hyields, rfl⟩ := hlog
    have hempty : Holds (⟨.ok, none, [], maxSequence, false, 0⟩ : Recovery cmp) [] :=
      ⟨rfl, [], [], .nil, MemTable.empty_holds, fun _ => rfl, rfl⟩
    obtain ⟨hloop, -⟩ := hempty.recoverLoop options hb hyields hfits hbuild
    obtain ⟨hstatus, -, s', hholds, hread⟩ := recoverLogFile_holds logs.isEmpty hloop hbuild
    obtain ⟨sources, hsources, hflatten⟩ := hholds.readFrom hread
    obtain ⟨hrest, sources', hsources', hflatten'⟩ := ih
      (recoverLogFile options env (.ok file) logs.isEmpty maxSequence).1.maxSequence
    rw [recoverLogs]
    dsimp only
    rw [if_pos hstatus]
    refine ⟨hrest, sources' ++ sources, List.rel_append hsources' hsources, ?_⟩
    rw [List.reverse_append, List.flatten_append, hflatten, hflatten', List.flatten_cons]
    rfl

/-- **Recovery after a crash.** Batches were logged on a disk that may run full, and then stays so,
and of the log only the first `n` bytes are left. If the tables of level 0 can be written (where
there is no room for them, `BuildTable` fails and `RecoverLogFile` returns its error), every key has
the value of its newest write among the batches whose calls returned `ok` and that lie in these
bytes, at every snapshot, and nothing else is found. -/
theorem recoverLogFile_crash (options : Options) (env : RecoveryEnv cmp) (room : Option ℕ)
    (sessions : List (List WriteBatch)) (hb : Batches seq groups sessions.flatten)
    (hfits : FitsFormat seq groups) (hbuild : ∀ n, env.buildTable n = .ok) (n : ℕ) (lastLog : Bool)
    (maxSequence : ℕ) :
    let log := Log.writeSessions ⟨[], room⟩ (sessions.map (·.map (·.rep)))
    let result := recoverLogFile options env (.ok ⟨log.2.contents.take n, none⟩) lastLog maxSequence
    ∃ m, result.1.status = .ok ∧
      (∀ k t, k.length + 8 < 2 ^ 32 → t ≤ kMaxSequenceNumber →
        (readFrom result).findSome? (·.get k t) =
          (newest cmp k t (writesFrom seq (groups.take m).flatten)).map (·.value)) ∧
      result.1.maxSequence = (if groups.take m = [] then maxSequence
        else max maxSequence (seq + (groups.take m).flatten.length - 1)) ∧
      ∀ j < sessions.flatten.length, j < m ↔ log.1[j]? = some true ∧
        (Log.writeSessions ⟨[], none⟩
          [(sessions.flatten.take (j + 1)).map (·.rep)]).2.contents.length ≤ n := by
  have hflatten : (sessions.map (·.map (·.rep))).flatten = sessions.flatten.map (·.rep) :=
    List.map_flatten.symm
  obtain ⟨m, hyields, hm⟩ := Log.yields_writeSessions true room (sessions.map (·.map (·.rep))) n
  rw [hflatten, ← List.map_take] at hyields
  simp only [hflatten, List.length_map, ← List.map_take] at hm
  have hempty : Holds (⟨.ok, none, [], maxSequence, false, 0⟩ : Recovery cmp) [] :=
    ⟨rfl, [], [], .nil, MemTable.empty_holds, fun _ => rfl, rfl⟩
  have htake := hfits.take m
  obtain ⟨hloop, hmax⟩ :=
    hempty.recoverLoop options (hb.take m) hyields htake hbuild
  obtain ⟨hstatus, hsequence, s', hholds, hread⟩ :=
    recoverLogFile_holds lastLog hloop hbuild
  refine ⟨m, hstatus, fun k t hk ht => ?_, hsequence.trans hmax, hm⟩
  have hops (op : Op) (hop : op ∈ (groups.take m).flatten) : op.Fits := by
    obtain ⟨ops, hmem, hop⟩ := List.mem_flatten.1 hop
    exact htake.ops ops hmem op hop
  have hget := hholds.get hops htake.seq_le hk ht
  rcases hread with hread | ⟨hnone, hread⟩
  · rw [hread, hget]
  · rw [hnone, Option.getD_none, List.findSome?_cons, MemTable.get_eq MemTable.empty_holds
      (fun v hv => nomatch hv) .nil hk ht] at hget
    rw [hread]
    exact hget

end

/-- Two batches in two sessions, all of the second one but its last byte. -/
theorem recoverLogFile_crash_two :
    let b := WriteBatch.clear.put [1] [2]
    let b' := (WriteBatch.clear.delete [1]).setSequence 2
    let env : RecoveryEnv Slice.compare := ⟨fun _ => 0, fun _ => .ok, true, none⟩
    let log := Log.writeSessions ⟨[], none⟩ [[(b.setSequence 1).rep], [b'.rep]]
    let result := recoverLogFile ⟨false, 10, false⟩ env
      (.ok ⟨log.2.contents.take (log.2.contents.length - 1), none⟩) true 0
    result.1.status = .ok ∧ ∃ m, (readFrom result).findSome? (·.get [1] 2) =
      (newest Slice.compare [1] 2
        (writesFrom 1 ([[Op.put [1] [2]], [.delete [1]]].take m).flatten)).map (·.value) := by
  have hb : (WriteBatch.clear.put [1] [2]).IsBatch 0 [.put [1] [2]] :=
    WriteBatch.clear_isBatch.add (.put [1] [2])
  have hb' : (WriteBatch.clear.delete [1]).IsBatch 0 [.delete [1]] :=
    WriteBatch.clear_isBatch.add (.delete [1])
  have hfits : FitsFormat 1 [[.put [1] [2]], [.delete [1]]] :=
    ⟨by decide, by simp [Op.Fits], by simp, by decide⟩
  have hbatches : Batches 1 [[.put [1] [2]], [.delete [1]]]
      [(WriteBatch.clear.put [1] [2]).setSequence 1,
        (WriteBatch.clear.delete [1]).setSequence 2] :=
    ⟨hb.setSequence 1, hb'.setSequence 2, trivial⟩
  obtain ⟨m, hstatus, hget, -⟩ := recoverLogFile_crash ⟨false, 10, false⟩
    (⟨fun _ => 0, fun _ => .ok, true, none⟩ : RecoveryEnv Slice.compare) none
    [[(WriteBatch.clear.put [1] [2]).setSequence 1], [(WriteBatch.clear.delete [1]).setSequence 2]]
    hbatches hfits (fun _ => rfl) _ true 0
  exact ⟨hstatus, m, hget [1] 2 (by decide) (by decide)⟩

end Recovery

end TelecomSuite.LevelDb
