import Mathlib.Logic.Function.Basic
import TelecomSuite.Lib.Transition
import TelecomSuite.LevelDb.Recovery

/-!
# The queue of writers

`Write`, `BuildBatchGroup`, `MakeRoomForWrite` and `CompactMemTable` of `db/db_impl.cc` as steps of
a system. A step is what a thread does from where it gets the mutex to where it lets go of it, or,
while the mutex is free, one record that is logged, one `Sync` or one entry that goes into the table
in memory. A call is named by a number; it is the `Writer` that stands in the queue. The room that
the disk has for the log may change at any time.
-/

namespace TelecomSuite.LevelDb

open Transition

/-- A table in memory with the writes that were added to it. -/
structure Filled (cmp : Comparator) where
  table : MemTable cmp
  writes : List MemTable.Write
  holds : table.Holds writes

namespace Filled

variable {cmp : Comparator}

/-- A new table. -/
def empty : Filled cmp := ⟨.empty, [], MemTable.empty_holds⟩

/-- One more write. -/
def add [Std.TransCmp cmp] (f : Filled cmp) (v : MemTable.Write) : Filled cmp :=
  ⟨f.table.addWrite v, f.writes ++ [v],
    (f.holds.addWrite v).perm (List.perm_append_singleton v _).symm⟩

end Filled

/-- `DBImpl::Writer`. A writer without a batch is a manual compaction. -/
structure Writer where
  batch : Option WriteBatch
  sync : Bool
  status : Status
  done : Bool

/-- What `BuildBatchGroup` leaves: the batch, whether it is `tmp_batch_`, the last writer of the
group, and the last sequence number of it. -/
structure Group where
  updates : WriteBatch
  isTmp : Bool
  lastWriter : ℕ
  lastSequence : ℕ

/-- Where a call of `Write` is. In `wait` it waits for its condition variable, which may have been
signaled, and in `room` for room, in the middle of `MakeRoomForWrite`. From `log` to `finish` the
mutex is free. -/
inductive Pc
  | idle
  | wait (signaled : Bool)
  | room (force allowDelay : Bool)
  | log (group : Group)
  | sync (group : Group)
  | insert (group : Group) (input : Bytes) (sequence found : ℕ)
  | finish (group : Group) (status : Status) (syncError : Bool)
  | returned (status : Status)

/-- A signal makes a difference to a call that waits. -/
def Pc.signaled : Pc → Pc
  | .wait _ => .wait true
  | pc => pc

/-- What the calls that left the queue together did: the number of the first of their writes if they
were logged, and the status that all of them return. -/
structure Committed where
  members : List ℕ
  first : ℕ
  status : Status
  deriving DecidableEq

/-- `log_` with its file, of which a crash leaves at least the bytes that are `synced`. `first`,
`logged` and `failed` are there for what is said about a run: the number of the first write that is
logged, the batches that `AddRecord` was called with, and whether it failed for one of them. -/
structure LogFile where
  log : Log.Writer
  synced : ℕ
  first : ℕ
  logged : List WriteBatch
  failed : Bool

/-- A new log, with the room that is left on the disk. -/
def LogFile.new (room : Option ℕ) (first : ℕ) : LogFile :=
  ⟨⟨⟨[], room⟩, 0⟩, 0, first, [], false⟩

/-- The log with one more batch. -/
def LogFile.add (f : LogFile) (b : WriteBatch) : LogFile :=
  { f with
    log := (f.log.addRecord b.rep).2
    logged := f.logged ++ [b]
    failed := f.failed || !(f.log.addRecord b.rep).1 }

/-- The log when another room is left for its file. -/
def LogFile.setRoom (f : LogFile) (room : Option ℕ) : LogFile :=
  { f with log := { f.log with dest := { f.log.dest with room := room } } }

/-- The state. A table in memory is named by a number, the newest one by the highest. `version` are
the tables that were written, the newest first, and `immLogfile` is the log of `imm`, which is
deleted when `imm` is written. `entered` and `history` are there for what is said about a run; no
step depends on them: the calls in the order in which they came into the queue, and the groups that
left it. -/
structure DBImpl (cmp : Comparator) where
  writer : ℕ → Writer
  pc : ℕ → Pc
  writers : List ℕ
  tmpBatch : WriteBatch
  lastSequence : ℕ
  bgError : Status
  level0 : ℕ
  logfile : LogFile
  immLogfile : Option LogFile
  table : ℕ → Filled cmp
  mem : ℕ
  imm : Option ℕ
  version : List (Filled cmp)
  entered : List ℕ
  history : List Committed

/-- The options, and the memory that a table takes. -/
structure DbEnv (cmp : Comparator) where
  options : Options
  approximateMemoryUsage : MemTable cmp → ℕ

/-- `config::kL0_SlowdownWritesTrigger`. -/
def kL0_SlowdownWritesTrigger : ℕ := 8

/-- `config::kL0_StopWritesTrigger`. -/
def kL0_StopWritesTrigger : ℕ := 12

namespace DBImpl

variable {cmp : Comparator}

/-- A call gets to another place. -/
def goto (s : DBImpl cmp) (t : ℕ) (pc : Pc) : DBImpl cmp :=
  { s with pc := Function.update s.pc t pc }

/-- `cv.Signal()`. -/
def signal (s : DBImpl cmp) (t : ℕ) : DBImpl cmp := s.goto t (s.pc t).signaled

/-- `RecordBackgroundError`. The first error stays. -/
def recordBackgroundError (s : DBImpl cmp) (status : Status) : DBImpl cmp :=
  if s.bgError = .ok then { s with bgError := status } else s

/-! ## Room for a write -/

/-- A new log and a new table in memory. -/
def switchMemTable (s : DBImpl cmp) (room : Option ℕ) : DBImpl cmp :=
  { s with
    logfile := .new room (s.lastSequence + 1)
    immLogfile := some s.logfile
    imm := some s.mem
    mem := s.mem + 1 }

/-- `MakeRoomForWrite` up to where it ends, with its status, or lets go of the mutex. `newFile` is
what `NewWritableFile` would return. -/
def makeRoomForWrite (env : DbEnv cmp) (newFile : Except Status (Option ℕ))
    (force allowDelay : Bool) (s : DBImpl cmp) : (Status ⊕ Bool × Bool) × DBImpl cmp :=
  if s.bgError ≠ .ok then (.inl s.bgError, s)
  else if allowDelay ∧ kL0_SlowdownWritesTrigger ≤ s.level0 then (.inr (force, false), s)
  else if ¬ force ∧
      env.approximateMemoryUsage (s.table s.mem).table ≤ env.options.writeBufferSize then
    (.inl .ok, s)
  else if s.imm.isSome then (.inr (force, allowDelay), s)
  else if kL0_StopWritesTrigger ≤ s.level0 then (.inr (force, allowDelay), s)
  else
    match newFile with
    | .error status => (.inl status, s)
    | .ok room => (s.switchMemTable room).makeRoomForWrite env newFile false allowDelay
termination_by if s.imm.isSome then 0 else 1
decreasing_by
  have himm : (s.switchMemTable room).imm.isSome = true := rfl
  rw [if_pos himm, if_neg (by assumption)]
  exact Nat.one_pos

/-! ## The group of a leader -/

/-- The loop of `BuildBatchGroup` over the writers behind the first one, with the size so far. -/
def joinGroup (s : DBImpl cmp) (first : Writer) (batch : WriteBatch) (maxSize : ℕ) :
    ℕ → Group → List ℕ → Group
  | _, g, [] => g
  | size, g, t :: ts =>
    if (s.writer t).sync ∧ ¬ first.sync then g
    else
      match (s.writer t).batch with
      | some b =>
        if maxSize < size + b.rep.length then g
        else
          let result := if g.isTmp then g.updates else s.tmpBatch.append batch
          joinGroup s first batch maxSize (size + b.rep.length)
            { g with updates := result.append b, isTmp := true, lastWriter := t } ts
      | none => joinGroup s first batch maxSize size { g with lastWriter := t } ts

/-- `BuildBatchGroup` of the writer at the front, with the sequence number set and the last number
counted. -/
def buildBatchGroup (s : DBImpl cmp) (t : ℕ) (batch : WriteBatch) : Group :=
  let size := batch.rep.length
  let maxSize := if size ≤ 128 * 2 ^ 10 then size + 128 * 2 ^ 10 else 2 ^ 20
  let g := s.joinGroup (s.writer t) batch maxSize size ⟨batch, false, t, 0⟩ s.writers.tail
  { g with
    updates := g.updates.setSequence (s.lastSequence + 1)
    lastSequence := (s.lastSequence + g.updates.count) % 2 ^ 64 }

/-! ## Leaving the queue -/

/-- The writers that leave the queue. -/
def upTo (last : ℕ) : List ℕ → List ℕ
  | [] => []
  | t :: ts => if t = last then [t] else t :: upTo last ts

/-- A writer is taken out of the queue and, if it is not the leader, told the result. -/
def pop (leader : ℕ) (status : Status) (s : DBImpl cmp) (ready : ℕ) : DBImpl cmp :=
  let s := { s with writers := s.writers.tail }
  if ready = leader then s
  else
    { s with
      writer := Function.update s.writer ready
        { s.writer ready with status := status, done := true } }.signal ready

/-- The end of `Write`: the group leaves the queue, and the new front is woken. -/
def leave (s : DBImpl cmp) (leader last first : ℕ) (status : Status) : DBImpl cmp :=
  let members := upTo last s.writers
  let s := members.foldl (pop leader status) s
  let s :=
    match s.writers with
    | front :: _ => s.signal front
    | [] => s
  { s.goto leader (.returned status) with history := s.history ++ [⟨members, first, status⟩] }

/-- What the writer at the front does until it lets go of the mutex. -/
def lead (env : DbEnv cmp) (newFile : Except Status (Option ℕ)) (force allowDelay : Bool) (t : ℕ)
    (s : DBImpl cmp) : DBImpl cmp :=
  match s.makeRoomForWrite env newFile force allowDelay with
  | (.inr (force, allowDelay), s) => s.goto t (.room force allowDelay)
  | (.inl status, s) =>
    match (s.writer t).batch with
    | some batch =>
      if status = .ok then
        let g := s.buildBatchGroup t batch
        { s.goto t (.log g) with tmpBatch := if g.isTmp then g.updates else s.tmpBatch }
      else s.leave t t (s.lastSequence + 1) status
    | none => s.leave t t (s.lastSequence + 1) status

/-! ## Steps -/

/-- What happens in one step. Statuses and `newFile` are what the environment would return, and
`space` changes the room that is left for the log: between two calls of `AddRecord` others may fill
the disk, or free some of it. -/
inductive Event
  | enter (t : ℕ) (batch : Option WriteBatch) (sync : Bool) (newFile : Except Status (Option ℕ))
  | wake (t : ℕ) (newFile : Except Status (Option ℕ))
  | resume (t : ℕ) (newFile : Except Status (Option ℕ))
  | addRecord (t : ℕ) (error : Status)
  | sync (t : ℕ) (status : Status)
  | insert (t : ℕ)
  | finish (t : ℕ)
  | compactMemTable (status : Status) (level0 : ℕ)
  | background (status : Status) (level0 : ℕ)
  | space (room : Option ℕ)

/-- The writer of a new call gets into the queue. -/
def arrive (s : DBImpl cmp) (t : ℕ) (batch : Option WriteBatch) (sync : Bool) : DBImpl cmp :=
  { s with
    writer := Function.update s.writer t ⟨batch, sync, .ok, false⟩
    writers := s.writers ++ [t]
    entered := s.entered ++ [t] }

/-- `Write` is called. -/
def enter (env : DbEnv cmp) (newFile : Except Status (Option ℕ)) (t : ℕ)
    (batch : Option WriteBatch) (sync : Bool) (s : DBImpl cmp) : DBImpl cmp :=
  let s := s.arrive t batch sync
  if s.writers.head? = some t then s.lead env newFile batch.isNone batch.isSome t
  else s.goto t (.wait false)

/-- The loop in front of the queue, after the wait has ended for a signal or for no reason. -/
def wake (env : DbEnv cmp) (newFile : Except Status (Option ℕ)) (t : ℕ) (s : DBImpl cmp) :
    DBImpl cmp :=
  if (s.writer t).done then s.goto t (.returned (s.writer t).status)
  else if s.writers.head? = some t then
    s.lead env newFile (s.writer t).batch.isNone (s.writer t).batch.isSome t
  else s.goto t (.wait false)

/-- The batch is logged. Then it is synced, or goes into the table. -/
def addRecord (s : DBImpl cmp) (t : ℕ) (g : Group) (error : Status) : DBImpl cmp :=
  let ok := (s.logfile.log.addRecord g.updates.rep).1
  let s := { s with logfile := s.logfile.add g.updates }
  if ok then
    if (s.writer t).sync then s.goto t (.sync g)
    else s.goto t (.insert g (g.updates.rep.drop kHeader) g.updates.sequence 0)
  else s.goto t (.finish g error false)

/-- The log is synced. If that fails, the error is recorded when the mutex is taken again. -/
def syncLog (s : DBImpl cmp) (t : ℕ) (g : Group) (status : Status) : DBImpl cmp :=
  if status = .ok then
    { s.goto t (.insert g (g.updates.rep.drop kHeader) g.updates.sequence 0) with
      logfile := { s.logfile with synced := s.logfile.log.dest.contents.length } }
  else s.goto t (.finish g status true)

/-- One round of `Iterate` with the handler that inserts into the table. -/
def insertOne [Std.TransCmp cmp] (s : DBImpl cmp) (t : ℕ) (g : Group) (input : Bytes)
    (sequence found : ℕ) : DBImpl cmp :=
  if input = [] then
    let status := if found ≠ g.updates.count then .corruption "WriteBatch has wrong count" else .ok
    s.goto t (.finish g status false)
  else
    match WriteBatch.readOp input with
    | .ok (op, input) =>
      { s.goto t (.insert g input ((sequence + 1) % 2 ^ 64) (found + 1)) with
        table := Function.update s.table s.mem ((s.table s.mem).add (op.write sequence)) }
    | .error msg => s.goto t (.finish g (.corruption msg) false)

/-- The mutex is taken again. -/
def finishWrite (s : DBImpl cmp) (t : ℕ) (g : Group) (status : Status) (syncError : Bool) :
    DBImpl cmp :=
  let s := if syncError then s.recordBackgroundError status else s
  let s := { s with
    tmpBatch := if g.isTmp then .clear else s.tmpBatch
    lastSequence := g.lastSequence }
  s.leave t g.lastWriter g.updates.sequence status

/-- The end of `CompactMemTable`. No file is kept of a table without entries. -/
def compactMemTable (s : DBImpl cmp) (imm : ℕ) (status : Status) (level0 : ℕ) : DBImpl cmp :=
  if status = .ok then
    { s with
      version :=
        match SkipList.Iterator.seekToFirst (s.table imm).table.table.list with
        | none => s.version
        | some _ => s.table imm :: s.version
      imm := none
      immLogfile := none
      level0 := level0 }
  else s.recordBackgroundError status

/-- One step. -/
def step [Std.TransCmp cmp] (env : DbEnv cmp) (s : DBImpl cmp) : Event → Option (DBImpl cmp)
  | .enter t batch sync newFile =>
    match s.pc t with
    | .idle => some (s.enter env newFile t batch sync)
    | _ => none
  | .wake t newFile =>
    match s.pc t with
    | .wait _ => some (s.wake env newFile t)
    | _ => none
  | .resume t newFile =>
    match s.pc t with
    | .room force allowDelay => some (s.lead env newFile force allowDelay t)
    | _ => none
  | .addRecord t error =>
    match s.pc t with
    | .log g => if error = .ok then none else some (s.addRecord t g error)
    | _ => none
  | .sync t status =>
    match s.pc t with
    | .sync g => some (s.syncLog t g status)
    | _ => none
  | .insert t =>
    match s.pc t with
    | .insert g input sequence found => some (s.insertOne t g input sequence found)
    | _ => none
  | .finish t =>
    match s.pc t with
    | .finish g status syncError => some (s.finishWrite t g status syncError)
    | _ => none
  | .compactMemTable status level0 => s.imm.map (s.compactMemTable · status level0)
  | .background status level0 =>
    some { (if status = .ok then s else s.recordBackgroundError status) with level0 := level0 }
  | .space room => some { s with logfile := s.logfile.setRoom room }

/-- The steps that there are. -/
inductive Stepped [Std.TransCmp cmp] (env : DbEnv cmp) (s : DBImpl cmp) : Event → DBImpl cmp → Prop
  | enter {t : ℕ} {batch : Option WriteBatch} {sync : Bool} {newFile : Except Status (Option ℕ)}
      (hpc : s.pc t = .idle) :
      Stepped env s (.enter t batch sync newFile) (s.enter env newFile t batch sync)
  | wake {t : ℕ} {newFile : Except Status (Option ℕ)} {signaled : Bool}
      (hpc : s.pc t = .wait signaled) : Stepped env s (.wake t newFile) (s.wake env newFile t)
  | resume {t : ℕ} {newFile : Except Status (Option ℕ)} {force allowDelay : Bool}
      (hpc : s.pc t = .room force allowDelay) :
      Stepped env s (.resume t newFile) (s.lead env newFile force allowDelay t)
  | addRecord {t : ℕ} {g : Group} {error : Status} (hpc : s.pc t = .log g) (herror : error ≠ .ok) :
      Stepped env s (.addRecord t error) (s.addRecord t g error)
  | sync {t : ℕ} {g : Group} {status : Status} (hpc : s.pc t = .sync g) :
      Stepped env s (.sync t status) (s.syncLog t g status)
  | insert {t : ℕ} {g : Group} {input : Bytes} {sequence found : ℕ}
      (hpc : s.pc t = .insert g input sequence found) :
      Stepped env s (.insert t) (s.insertOne t g input sequence found)
  | finish {t : ℕ} {g : Group} {status : Status} {syncError : Bool}
      (hpc : s.pc t = .finish g status syncError) :
      Stepped env s (.finish t) (s.finishWrite t g status syncError)
  | compactMemTable {imm : ℕ} {status : Status} {level0 : ℕ} (himm : s.imm = some imm) :
      Stepped env s (.compactMemTable status level0) (s.compactMemTable imm status level0)
  | background {status : Status} {level0 : ℕ} : Stepped env s (.background status level0)
      { (if status = .ok then s else s.recordBackgroundError status) with level0 := level0 }
  | space {room : Option ℕ} :
      Stepped env s (.space room) { s with logfile := s.logfile.setRoom room }

/-- A step is one of those that there are. -/
theorem stepped [Std.TransCmp cmp] {env : DbEnv cmp} {s s' : DBImpl cmp} {e : Event}
    (h : s.step env e = some s') : s.Stepped env e s' := by
  cases e with
  | enter t batch sync newFile =>
    rw [step] at h
    split at h <;> cases h
    exact .enter (by assumption)
  | wake t newFile =>
    rw [step] at h
    split at h <;> cases h
    exact .wake (by assumption)
  | resume t newFile =>
    rw [step] at h
    split at h <;> cases h
    exact .resume (by assumption)
  | addRecord t error =>
    rw [step] at h
    split at h
    · split_ifs at h with herror
      cases h
      exact .addRecord (by assumption) herror
    · cases h
  | sync t status =>
    rw [step] at h
    split at h <;> cases h
    exact .sync (by assumption)
  | insert t =>
    rw [step] at h
    split at h <;> cases h
    exact .insert (by assumption)
  | finish t =>
    rw [step] at h
    split at h <;> cases h
    exact .finish (by assumption)
  | compactMemTable status level0 =>
    rw [step, Option.map_eq_some_iff] at h
    obtain ⟨imm, himm, rfl⟩ := h
    exact .compactMemTable himm
  | background status level0 =>
    cases h
    exact .background
  | space room =>
    cases h
    exact .space

end DBImpl

end TelecomSuite.LevelDb
