import TelecomSuite.LevelDb.LogFiles

/-!
# Durability

A call of `Write` with `sync` that returned `ok` survives a crash that leaves of each log what was
synced, unless a log got room back after a call of `AddRecord` failed on it (`sync_durable`). There
it can be lost (`sync_lost`).
`Durable` is what every step keeps: the log of a table in memory has all that was written to the
table, in the order of the numbers, and the synced part of it has the writes of the groups that were
synced.
-/

namespace TelecomSuite.LevelDb

open Transition LeaderQueue Versions Recovery

/-- The group whose batch was given to `AddRecord`. -/
def Pc.logged : Pc → Option Group
  | .sync g => some g
  | .insert g _ _ _ => some g
  | .finish g _ _ => some g
  | _ => none

/-- The group that `AddRecord` and, if it was asked for, `Sync` returned `ok` for. -/
def Pc.persisted : Pc → Option Group
  | .insert g _ _ _ => some g
  | .finish g status _ => if status = .ok then some g else none
  | _ => none

/-- Who leads no group has logged none. -/
theorem Pc.logged_of_group {pc : Pc} (h : pc.group = none) : pc.logged = none := by
  cases pc <;> first | rfl | cases h

/-- What persists was logged. -/
theorem Pc.logged_of_persisted {pc : Pc} {g : Group} (h : pc.persisted = some g) :
    pc.logged = some g := by
  cases pc with
  | insert g input sequence found => exact h
  | finish g status syncError =>
    rw [Pc.persisted] at h
    split_ifs at h
    exact h
  | _ => cases h

/-- Where a call is in the code after a step, as far as the logs are concerned. -/
structure Pc.Stays (pc pc' : Pc) : Prop where
  logged : pc'.logged = pc.logged
  syncing : ∀ g, pc' = .sync g → pc = .sync g
  persisted : ∀ g, pc'.persisted = some g → pc.persisted = some g

/-- A call that does not move. -/
theorem Pc.Stays.refl (pc : Pc) : Pc.Stays pc pc := ⟨rfl, fun _ h => h, fun _ h => h⟩

/-- A call that has logged nothing before or after. -/
theorem Pc.Stays.of_none {pc pc' : Pc} (h : pc.logged = .none) (h' : pc'.logged = .none) :
    Pc.Stays pc pc' := by
  refine ⟨h'.trans h.symm, fun g hg => ?_, fun g hg => ?_⟩
  · rw [hg] at h'
    cases h'
  · have hlogged := Pc.logged_of_persisted hg
    rw [h'] at hlogged
    cases hlogged

namespace DBImpl

variable {cmp : Comparator} {s s' s₁ : DBImpl cmp} {t : ℕ} {g : Group} {base : List MemTable.Write}

/-- What holds of the logs: each has the writes of its table with their numbers, and the synced part
of it has those of the groups that were synced. -/
structure Durable (s : DBImpl cmp) : Prop where
  log : s.logfile.Ok
  next : (∀ t, (s.pc t).logged = none) → s.logfile.next = s.lastSequence + 1
  nextLogged : ∀ t g, (s.pc t).logged = some g → s.logfile.next = g.lastSequence + 1
  version : ∀ f ∈ s.version, ∀ v ∈ f.writes, v.seq < s.logfile.first
  imm : ∀ i, s.imm = some i → (∀ v ∈ (s.table i).writes, v.seq < s.logfile.first) ∧
    ∃ f, s.immLogfile = some f ∧ f.Ok ∧ f.next ≤ s.logfile.first ∧
      ∀ w ∈ s.version, ∀ v ∈ w.writes, v.seq < f.first
  none : s.imm = none → s.immLogfile = none
  syncing : ∀ t g, s.pc t = .sync g →
    (Log.logBytes 0 s.logfile.records).length ≤ s.logfile.log.dest.contents.length ∧
      ∀ v ∈ writesFrom g.updates.sequence g.updates.ops, v ∈ s.logfile.writes s.logfile.logged.length
  persisted : ∀ t g, (s.pc t).persisted = some g → (s.writer t).sync →
    ∀ v ∈ writesFrom g.updates.sequence g.updates.ops, s.logfile.Safe v
  safe : ∀ c ∈ s.history, c.status = .ok → (∃ t ∈ c.members, (s.writer t).sync) →
    ∀ v ∈ c.writes s.writer, (v ∈ (s.table s.mem).writes → s.logfile.Safe v) ∧
      ∀ i f, s.imm = some i → s.immLogfile = some f → v ∈ (s.table i).writes → f.Safe v

/-- Only the call that goes on matters. -/
theorem stays_goto {pc : Pc} (h : Pc.Stays (s.pc t) pc) (x : ℕ) :
    Pc.Stays (s.pc x) ((s.goto t pc).pc x) := by
  rcases eq_or_ne x t with rfl | hx
  · rw [goto_pc_self]
    exact h
  · rw [goto_pc_of_ne s hx]
    exact .refl _

/-- Steps that do not change the logs. -/
theorem Durable.congr (h : s.Durable) (hlogfile : s'.logfile = s.logfile)
    (himmLogfile : s'.immLogfile = s.immLogfile) (hversion : s'.version = s.version)
    (himm : s'.imm = s.imm) (hlast : s'.lastSequence = s.lastSequence)
    (hhistory : s'.history = s.history)
    (hmem : ∀ v ∈ s.committed, v ∈ (s'.table s'.mem).writes → v ∈ (s.table s.mem).writes)
    (htable : ∀ i, s.imm = some i → s'.table i = s.table i)
    (hpc : ∀ x, Pc.Stays (s.pc x) (s'.pc x))
    (hlogged : ∀ x g, (s.pc x).logged = some g → (s'.writer x).sync = (s.writer x).sync)
    (hmembers : ∀ c ∈ s.history, ∀ x ∈ c.members, s'.writer x = s.writer x) : s'.Durable where
  log := hlogfile ▸ h.log
  next := fun hnone => by
    rw [hlogfile, hlast]
    exact h.next fun x => (hpc x).logged.symm.trans (hnone x)
  nextLogged := fun x g hg => by
    rw [hlogfile]
    exact h.nextLogged x g ((hpc x).logged.symm.trans hg)
  version := by
    rw [hversion, hlogfile]
    exact h.version
  imm := fun i hi => by
    rw [himm] at hi
    rw [hlogfile, hversion, himmLogfile, htable i hi]
    exact h.imm i hi
  none := by
    rw [himm, himmLogfile]
    exact h.none
  syncing := fun x g hg => by
    rw [hlogfile]
    exact h.syncing x g ((hpc x).syncing g hg)
  persisted := fun x g hg hsync => by
    have hg' := (hpc x).persisted g hg
    rw [hlogfile]
    exact h.persisted x g hg' (hlogged x g (Pc.logged_of_persisted hg') ▸ hsync)
  safe := fun c hc hstatus ⟨x, hx, hsync⟩ v hv => by
    rw [hhistory] at hc
    have hwrites : c.writes s'.writer = c.writes s.writer := by
      have hops : (c.members.flatMap fun x => (s'.writer x).ops) =
          c.members.flatMap fun x => (s.writer x).ops :=
        List.flatMap_congr fun x hx => congrArg Writer.ops (hmembers c hc x hx)
      rw [Committed.writes, Committed.writes, hops]
    rw [hwrites] at hv
    obtain ⟨hsafe, hsafeImm⟩ := h.safe c hc hstatus ⟨x, hx, hmembers c hc x hx ▸ hsync⟩ v hv
    rw [hlogfile, himm, himmLogfile]
    refine ⟨fun hv' => hsafe (hmem v (List.mem_flatMap.2 ⟨c, hc, hv⟩) hv'), fun i f hi hf hv' => ?_⟩
    rw [htable i hi] at hv'
    exact hsafeImm i f hi hf hv'

/-- A call goes on without touching the logs. -/
theorem Durable.goto {pc : Pc} (h : s.Durable) (hpc : Pc.Stays (s.pc t) pc) :
    (s.goto t pc).Durable :=
  h.congr rfl rfl rfl rfl rfl rfl (fun _ _ hv => hv) (fun _ _ => rfl) (stays_goto hpc)
    (fun _ _ _ => rfl) fun _ _ _ _ => rfl

/-- A group leaves the queue. -/
theorem Durable.leave (h : s.Durable) (bgError : Status) (tmpBatch : WriteBatch)
    {lastSequence last first : ℕ} {status : Status} (hothers : ∀ x, x ≠ t → (s.pc x).group = .none)
    (hnext : s.logfile.next = lastSequence + 1)
    (hnew : status = .ok → (∃ x ∈ upTo last s.writers, (s.writer x).sync) →
      ∀ v ∈ (⟨upTo last s.writers, first, status⟩ : Committed).writes s.writer, s.logfile.Safe v) :
    (({ s with bgError := bgError, tmpBatch := tmpBatch, lastSequence := lastSequence } :
      DBImpl cmp).leave t last first status).Durable := by
  let s₁ : DBImpl cmp :=
    { s with bgError := bgError, tmpBatch := tmpBatch, lastSequence := lastSequence }
  have hquiet : (s₁.leave t last first status).Quiet := leave_quiet (s := s₁) hothers
  have hlogged (x : ℕ) : ((s₁.leave t last first status).pc x).logged = .none :=
    Pc.logged_of_group (hquiet x)
  have hsync (x : ℕ) : ((s₁.leave t last first status).writer x).sync = (s.writer x).sync := by
    rw [leave_eq]
    dsimp only [s₁]
    split_ifs <;> rfl
  have hwrites (c : Committed) :
      c.writes (s₁.leave t last first status).writer = c.writes s.writer := by
    have hops : (c.members.flatMap fun x => ((s₁.leave t last first status).writer x).ops) =
        c.members.flatMap fun x => (s.writer x).ops :=
      List.flatMap_congr fun x _ => writer_ops (leave_batch x)
    rw [Committed.writes, Committed.writes, hops]
  have hhistory : (s₁.leave t last first status).history =
      s.history ++ [⟨upTo last s.writers, first, status⟩] := by
    rw [leave_eq]
  have hsame : (s₁.leave t last first status).logfile = s.logfile ∧
      (s₁.leave t last first status).immLogfile = s.immLogfile ∧
      (s₁.leave t last first status).version = s.version ∧
      (s₁.leave t last first status).imm = s.imm ∧
      (s₁.leave t last first status).table = s.table ∧
      (s₁.leave t last first status).mem = s.mem ∧
      (s₁.leave t last first status).lastSequence = lastSequence := by
    rw [leave_eq]
    exact ⟨rfl, rfl, rfl, rfl, rfl, rfl, rfl⟩
  change (s₁.leave t last first status).Durable
  generalize s₁.leave t last first status = s' at hquiet hlogged hsync hwrites hhistory hsame
  obtain ⟨hlogfile, himmLogfile, hversion, himm, htable, hmem, hlast⟩ := hsame
  refine ⟨hlogfile ▸ h.log, fun _ => ?_, fun x g hg => ?_, ?_, ?_, ?_, fun x g hg => ?_,
    fun x g hg => ?_, fun c hc hstatus hmember v hv => ?_⟩
  · rw [hlogfile, hlast, hnext]
  · rw [hlogged x] at hg
    cases hg
  · rw [hversion, hlogfile]
    exact h.version
  · rw [himm, htable, hlogfile, himmLogfile, hversion]
    exact h.imm
  · rw [himm, himmLogfile]
    exact h.none
  · have hnone := hlogged x
    rw [hg] at hnone
    cases hnone
  · have hsome := Pc.logged_of_persisted hg
    rw [hlogged x] at hsome
    cases hsome
  · rw [hwrites] at hv
    rw [hlogfile, himm, htable, himmLogfile, hmem]
    simp only [hsync] at hmember
    rw [hhistory, List.mem_append, List.mem_singleton] at hc
    rcases hc with hc | rfl
    · exact h.safe c hc hstatus hmember v hv
    · have hsafe := hnew hstatus hmember v hv
      refine ⟨fun _ => hsafe, fun i f hi _ hv' => ?_⟩
      obtain ⟨m, -, -, hv⟩ := hsafe
      exact absurd ((h.imm i hi).1 v hv') (Nat.not_lt.2 (LogFile.mem_writes_length hv).1)

/-! ## Steps -/

/-- A log gets no room back after a call of `AddRecord` failed on it. That call left a part of its
record in the file and moved the block offset behind the whole of it, so that what is logged next
would not be where the reader looks for it; and `Write` sets `bg_error_` only when `Sync` fails. -/
def Steady (s : DBImpl cmp) : Event → Prop
  | .space _ => s.logfile.failed = false
  | _ => True

/-- Only the room of the log is looked at. -/
instance (s : DBImpl cmp) : DecidablePred s.Steady
  | .space _ => inferInstanceAs (Decidable (_ = _))
  | .enter _ _ _ _ | .wake _ _ | .resume _ _ | .addRecord _ _ | .sync _ _ | .insert _ | .finish _
  | .compactMemTable _ _ | .background _ _ => .isTrue trivial

variable {env : DbEnv cmp} {newFile : Except Status (Option ℕ)} {force allowDelay : Bool}

/-- With nobody at work nothing is logged that has not left. -/
theorem Quiet.logged (h : s.Quiet) (x : ℕ) : (s.pc x).logged = .none := Pc.logged_of_group (h x)

/-- With nobody at work everything in the tables was committed. -/
theorem Quiet.seq_le (h : s.Quiet) (hkept : s.Kept base) {v : MemTable.Write} (hv : v ∈ s.stored) :
    v.seq ≤ s.lastSequence := by
  rw [hkept.stored, h.inflight, List.append_nil] at hv
  exact hkept.le_last v hv

/-- A write in a table that was written is stored. -/
theorem mem_stored_version {f : Filled cmp} (hf : f ∈ s.version) {v : MemTable.Write}
    (hv : v ∈ f.writes) : v ∈ s.stored :=
  List.mem_append_left _ (List.mem_flatMap.2 ⟨f, List.mem_reverse.2 hf, hv⟩)

/-- A write in the newest table is stored. -/
theorem mem_stored_mem {v : MemTable.Write} (hv : v ∈ (s.table s.mem).writes) : v ∈ s.stored :=
  List.mem_append_right _ (List.mem_append_right _ hv)

/-- A new log comes, and the old one stays as long as its table is not written. -/
theorem Durable.switchMemTable (h : s.Durable) (hkept : s.Kept base) (hquiet : s.Quiet)
    (room : Option ℕ) : (s.switchMemTable room).Durable := by
  have hnext := h.next hquiet.logged
  have hlogged (x : ℕ) : ((s.switchMemTable room).pc x).logged = .none := hquiet.logged x
  have hmax := hkept.max
  refine ⟨LogFile.new_ok room (Nat.succ_pos _) (Nat.succ_le_succ hmax), fun _ => rfl,
    fun x g hg => ?_, fun f hf v hv => ?_, fun i hi => ?_, fun hnone => ?_, fun x g hg => ?_,
    fun x g hg => ?_, fun c hc hstatus hmember v hv => ⟨fun hv' => ?_, fun i f hi hf hv' => ?_⟩⟩
  · rw [hlogged x] at hg
    cases hg
  · exact Nat.lt_succ_of_le (hquiet.seq_le hkept (mem_stored_version (s := s) hf hv))
  · cases hi
    exact ⟨fun v hv => Nat.lt_succ_of_le (hquiet.seq_le hkept (mem_stored_mem hv)), s.logfile, rfl,
      h.log, hnext.le, h.version⟩
  · cases hnone
  · have hnone := hlogged x
    rw [hg] at hnone
    cases hnone
  · have hsome := Pc.logged_of_persisted hg
    rw [hlogged x] at hsome
    cases hsome
  · have hnew : ((s.switchMemTable room).table (s.switchMemTable room).mem).writes = [] :=
      hkept.tables _ (Nat.lt_succ_self _)
    rw [hnew] at hv'
    cases hv'
  · cases hi
    cases hf
    exact (h.safe c hc hstatus hmember v hv).1 hv'

/-- What the front does before it logs. -/
theorem Durable.lead (h : s.Durable) (hkept : s.Kept base) (hquiet : s.Quiet)
    (hfront : s.writers.head? = some t) : (s.lead env newFile force allowDelay t).Durable := by
  obtain ⟨s₁, hs₁, hlead⟩ := lead_cases env newFile force allowDelay t s
  have hquiet₁ : s₁.Quiet := hquiet.roomy hs₁
  have h₁ : s₁.Durable := by
    rcases hs₁ with rfl | ⟨-, room, rfl⟩
    · exact h
    · exact h.switchMemTable hkept hquiet room
  rcases hlead with ⟨force', allowDelay', -, hlead⟩ | ⟨batch, -, -, hlead⟩ |
    ⟨status, hstatus, hlead⟩
  · rw [hlead]
    exact h₁.goto (.of_none (hquiet₁.logged t) rfl)
  · rw [hlead]
    exact (h₁.goto (.of_none (hquiet₁.logged t) rfl)).congr rfl rfl rfl rfl rfl rfl
      (fun _ _ hv => hv) (fun _ _ => rfl) (fun _ => .refl _) (fun _ _ _ => rfl) fun _ _ _ _ => rfl
  · have halone : (⟨upTo t s₁.writers, s₁.lastSequence + 1, status⟩ : Committed).writes s₁.writer =
        [] := by
      rcases hs₁ with rfl | ⟨-, room, rfl⟩
      · exact alone_writes hfront _ hstatus
      · exact alone_writes (s := s.switchMemTable room) hfront _ hstatus
    rw [hlead]
    refine h₁.leave s₁.bgError s₁.tmpBatch (fun x _ => hquiet₁ x) (h₁.next hquiet₁.logged)
      fun _ _ v hv => ?_
    rw [halone] at hv
    cases hv

/-- A call comes, and leads if the queue was empty. -/
theorem Durable.enter (h : s.Durable) (hkept : s.Kept base) (hgrouped : s.Grouped)
    (hinv : s.queue.Inv) (hpc : s.pc t = .idle) (batch : Option WriteBatch) (sync : Bool) :
    (s.enter env newFile t batch sync).Durable := by
  have h₁ : (s.arrive t batch sync).Durable := by
    refine h.congr rfl rfl rfl rfl rfl rfl (fun _ _ hv => hv) (fun _ _ => rfl) (fun _ => .refl _)
      (fun x g hg => ?_) fun c hc x hx => arrive_writer hinv hpc batch sync hc hx
    have hne : x ≠ t := by
      rintro rfl
      rw [hpc] at hg
      cases hg
    exact congrArg Writer.sync (Function.update_of_ne hne _ _)
  rw [DBImpl.enter]
  split_ifs with hfront
  · exact h₁.lead (hkept.arrive hinv hpc batch sync)
      (hgrouped.arrive_quiet (arrive_front hinv hpc hfront) batch sync) hfront
  · refine h₁.goto (.of_none ?_ rfl)
    change (s.pc t).logged = .none
    rw [hpc]
    rfl

/-- A batch is logged. -/
theorem Durable.add (h : s.Durable) (hgrouped : s.Grouped) (hpc : s.pc t = .log g) {pc : Pc}
    (hlogged : pc.logged = some g)
    (hsyncing : ∀ g', pc = .sync g' → (s.logfile.log.addRecord g.updates.rep).1 = true)
    (hpersisted : ∀ g', pc.persisted = some g' → ¬ (s.writer t).sync) :
    (({ s with logfile := s.logfile.add g.updates } : DBImpl cmp).goto t pc).Durable := by
  have hg : (s.pc t).group = some g := by
    rw [hpc]
    rfl
  have hok := hgrouped.group t g hg
  have hroom := hok.room
  have hcount := hok.count
  have hothers (x : ℕ) (hx : x ≠ t) : (s.pc x).logged = .none :=
    Pc.logged_of_group (hgrouped.quiet_others hok.front hx)
  have hnext : s.logfile.next = s.lastSequence + 1 := by
    refine h.next fun x => ?_
    rcases eq_or_ne x t with rfl | hx
    · rw [hpc]
      rfl
    · exact hothers x hx
  let s₁ : DBImpl cmp := { s with logfile := s.logfile.add g.updates }
  have hbatch : g.updates.IsBatch s.logfile.next g.updates.ops := by
    rw [hnext, hok.updates_ops]
    exact hok.batch
  rw [kMaxSequenceNumber] at hroom
  obtain ⟨hlog, hwhole⟩ := h.log.add hbatch (by rw [hok.updates_ops]; exact hok.fits)
    (by rw [hok.updates_ops]; exact hcount)
    (by rw [hok.updates_ops, kMaxSequenceNumber]; omega)
  refine ⟨hlog, fun hnone => ?_, fun x g' hg' => ?_, h.version, h.imm, h.none, fun x g' hg' => ?_,
    fun x g' hg' hsync => ?_, fun c hc hstatus hmember v hv => ?_⟩
  · have hnone' := hnone t
    rw [goto_pc_self, hlogged] at hnone'
    cases hnone'
  · rcases eq_or_ne x t with rfl | hx
    · rw [goto_pc_self, hlogged] at hg'
      cases hg'
      change (s.logfile.add g.updates).next = g.lastSequence + 1
      rw [LogFile.add_next, hnext, hok.updates_ops, hok.number]
      omega
    · rw [goto_pc_of_ne s₁ hx, hothers x hx] at hg'
      cases hg'
  · rcases eq_or_ne x t with rfl | hx
    · rw [goto_pc_self] at hg'
      refine ⟨hwhole (hsyncing g' hg'), fun v hv => ?_⟩
      rw [hg'] at hlogged
      cases hlogged
      rw [hok.sequence, ← hnext] at hv
      change v ∈ (s.logfile.add g.updates).writes (s.logfile.add g.updates).logged.length
      rw [LogFile.writes, List.take_length, LogFile.add, List.flatMap_append,
        List.flatMap_singleton, writesFrom_append]
      exact List.mem_append_right _ hv
    · rw [goto_pc_of_ne s₁ hx] at hg'
      have hnone := hothers x hx
      rw [hg'] at hnone
      cases hnone
  · rcases eq_or_ne x t with rfl | hx
    · rw [goto_pc_self] at hg'
      exact absurd hsync (hpersisted g' hg')
    · rw [goto_pc_of_ne s₁ hx] at hg'
      have hsome := Pc.logged_of_persisted hg'
      rw [hothers x hx] at hsome
      cases hsome
  · obtain ⟨hsafe, hsafeImm⟩ := h.safe c hc hstatus hmember v hv
    exact ⟨fun hv' => (hsafe hv').add g.updates, hsafeImm⟩

/-- The log is synced. -/
theorem Durable.sync (h : s.Durable) (hpc : s.pc t = .sync g) {pc : Pc}
    (hlogged : pc.logged = some g) (hsyncing : ∀ g', pc ≠ .sync g') :
    (({ s with logfile := { s.logfile with synced := s.logfile.log.dest.contents.length } } :
      DBImpl cmp).goto t pc).Durable := by
  let s₁ : DBImpl cmp :=
    { s with logfile := { s.logfile with synced := s.logfile.log.dest.contents.length } }
  have hlogged' (x : ℕ) : ((s₁.goto t pc).pc x).logged = (s.pc x).logged := by
    rcases eq_or_ne x t with rfl | hx
    · rw [goto_pc_self, hlogged, hpc]
      rfl
    · rw [goto_pc_of_ne s₁ hx]
  refine ⟨⟨h.log.wrote, h.log.batches, h.log.fits, Nat.le_refl _⟩, fun hnone => ?_,
    fun x g' hg' => ?_, h.version, h.imm, h.none, fun x g' hg' => ?_, fun x g' hg' hsync v hv => ?_,
    fun c hc hstatus hmember v hv => ?_⟩
  · exact h.next fun x => (hlogged' x).symm.trans (hnone x)
  · exact h.nextLogged x g' ((hlogged' x).symm.trans hg')
  · rcases eq_or_ne x t with rfl | hx
    · rw [goto_pc_self] at hg'
      exact absurd hg' (hsyncing g')
    · rw [goto_pc_of_ne s₁ hx] at hg'
      exact h.syncing x g' hg'
  · rcases eq_or_ne x t with rfl | hx
    · rw [goto_pc_self] at hg'
      have hsame := Pc.logged_of_persisted hg'
      rw [hlogged] at hsame
      cases hsame
      obtain ⟨hwhole, hwrites⟩ := h.syncing x g hpc
      have hall : s.logfile.records.take s.logfile.logged.length = s.logfile.records :=
        List.take_of_length_le s.logfile.records_length.le
      refine ⟨s.logfile.logged.length, Nat.le_refl _, ?_, hwrites v hv⟩
      change (Log.logBytes 0 (s.logfile.records.take _)).length ≤ _
      rw [hall]
      exact hwhole
    · rw [goto_pc_of_ne s₁ hx] at hg'
      exact (h.persisted x g' hg' hsync v hv).sync h.log.synced
  · obtain ⟨hsafe, hsafeImm⟩ := h.safe c hc hstatus hmember v hv
    exact ⟨fun hv' => (hsafe hv').sync h.log.synced, hsafeImm⟩

/-- The group that was at work leaves. If it was synced, its writes are safe. -/
theorem Durable.finishWrite (h : s.Durable) (hgrouped : s.Grouped) {status : Status}
    {syncError : Bool} (hpc : s.pc t = .finish g status syncError) :
    (s.finishWrite t g status syncError).Durable := by
  have hg : (s.pc t).group = some g := by
    rw [hpc]
    rfl
  have hlogged : (s.pc t).logged = some g := by
    rw [hpc]
    rfl
  have hok := hgrouped.group t g hg
  rw [finishWrite_eq]
  refine h.leave _ _ (fun x => hgrouped.quiet_others hok.front) (h.nextLogged t g hlogged)
    fun hstatus hmember v hv => ?_
  obtain ⟨x, hx, hsync⟩ := hmember
  have hpersisted : (s.pc t).persisted = some g := by
    rw [hpc, hstatus]
    rfl
  refine h.persisted t g hpersisted (hok.sync x hx hsync) v ?_
  rw [Committed.writes, if_pos hstatus] at hv
  rw [hok.updates_ops]
  exact hv

variable [Std.TransCmp cmp]

/-- One write of the group goes into the table. -/
theorem Durable.insertOne (h : s.Durable) (hkept : s.Kept base) (hgrouped : s.Grouped)
    {input : Bytes} {sequence found : ℕ} (hpc : s.pc t = .insert g input sequence found) :
    (s.insertOne t g input sequence found).Durable := by
  have hg : (s.pc t).group = some g := by
    rw [hpc]
    rfl
  obtain ⟨ops₁, ops₂, -, -, hsequence, -⟩ := hgrouped.inserting t g input sequence found hpc
  have hfinish (status : Status) : Pc.Stays (s.pc t) (.finish g status false) := by
    rw [hpc]
    refine ⟨rfl, fun g' hg' => (by cases hg'), fun g' hg' => ?_⟩
    rw [Pc.persisted] at hg'
    split_ifs at hg'
    exact hg'
  rw [DBImpl.insertOne]
  by_cases hnil : input = []
  · rw [if_pos hnil]
    exact h.goto (hfinish _)
  · rw [if_neg hnil]
    split
    next op rest hread =>
      have hstays : Pc.Stays (s.pc t) (.insert g rest ((sequence + 1) % 2 ^ 64) (found + 1)) := by
        rw [hpc]
        exact ⟨rfl, fun g' hg' => (by cases hg'), fun g' hg' => hg'⟩
      refine h.congr rfl rfl rfl rfl rfl rfl (fun v hv hv' => ?_)
        (fun i hi => Function.update_of_ne (hkept.imm i hi).ne _ _) (stays_goto hstays)
        (fun _ _ _ => rfl) fun _ _ _ _ => rfl
      have hself : Function.update s.table s.mem ((s.table s.mem).add (op.write sequence)) s.mem =
          (s.table s.mem).add (op.write sequence) := Function.update_self _ _ _
      replace hv' := congrArg Filled.writes hself ▸ hv'
      rcases List.mem_append.1 hv' with hv' | hv'
      · exact hv'
      · have hle := hkept.le_last v (List.mem_append_right base hv)
        rw [List.mem_singleton.1 hv', op.write_seq, hsequence] at hle
        omega
    next => exact h.goto (hfinish _)

/-- Every step that gives no room back to a failed log keeps what holds of the logs. -/
theorem durable_step {e : Event} (h : s.Durable) (hinv : s.Inv base) (hsteady : s.Steady e)
    (hstep : s.step env e = some s') : s'.Durable := by
  obtain ⟨hqueue, hgrouped, hkept⟩ := hinv
  have hquiet {x : ℕ} (hfront : s.writers.head? = some x) (hx : (s.pc x).group = .none) : s.Quiet :=
    hgrouped.quiet hfront hx
  cases stepped hstep with
  | enter hpc => exact h.enter hkept hgrouped hqueue hpc _ _
  | @wake t newFile signaled hpc =>
    have hnone : (s.pc t).group = .none := by
      rw [hpc]
      rfl
    have hlogged := Pc.logged_of_group hnone
    rw [wake]
    split_ifs with hdone hfront
    · exact h.goto (.of_none hlogged rfl)
    · exact h.lead hkept (hquiet hfront hnone) hfront
    · exact h.goto (.of_none hlogged rfl)
  | @resume t newFile force allowDelay hpc =>
    have hfront : s.writers.head? = some t := hqueue.leading t (role_queue hpc)
    refine h.lead hkept (hquiet hfront ?_) hfront
    rw [hpc]
    rfl
  | @addRecord t g error hpc herror =>
    rw [addRecord]
    dsimp only
    split_ifs with hok hsync
    · refine h.add hgrouped hpc rfl (fun g' hg' => hok) fun g' hg' => ?_
      cases hg'
    · exact h.add hgrouped hpc rfl (fun g' hg' => by cases hg') fun g' _ => hsync
    · refine h.add hgrouped hpc rfl (fun g' hg' => by cases hg') fun g' hg' => ?_
      rw [Pc.persisted, if_neg herror] at hg'
      cases hg'
  | @sync t g status hpc =>
    rw [syncLog]
    split_ifs with hok
    · exact h.sync hpc rfl fun g' hg' => by cases hg'
    · refine h.goto ?_
      rw [hpc]
      refine ⟨rfl, fun g' hg' => (by cases hg'), fun g' hg' => ?_⟩
      rw [Pc.persisted, if_neg hok] at hg'
      cases hg'
  | insert hpc => exact h.insertOne hkept hgrouped hpc
  | finish hpc => exact h.finishWrite hgrouped hpc
  | @compactMemTable imm status level0 himm =>
    rw [compactMemTable, recordBackgroundError_eq]
    by_cases hok : status = .ok
    · rw [if_pos hok]
      obtain ⟨himmOld, -⟩ := h.imm imm himm
      refine ⟨h.log, h.next, h.nextLogged, fun f hf v hv => ?_, fun i hi => (by cases hi),
        fun _ => rfl, h.syncing, h.persisted, fun c hc hstatus hmember v hv =>
          ⟨(h.safe c hc hstatus hmember v hv).1, fun i f hi => (by cases hi)⟩⟩
      dsimp only at hf
      split at hf
      · exact h.version f hf v hv
      · rcases List.mem_cons.1 hf with rfl | hf
        · exact himmOld v hv
        · exact h.version f hf v hv
    · rw [if_neg hok]
      exact h.congr rfl rfl rfl rfl rfl rfl (fun _ _ hv => hv) (fun _ _ => rfl) (fun _ => .refl _)
        (fun _ _ _ => rfl) fun _ _ _ _ => rfl
  | background =>
    rw [recordBackgroundError_eq]
    split_ifs <;> exact h.congr rfl rfl rfl rfl rfl rfl (fun _ _ hv => hv) (fun _ _ => rfl)
      (fun _ => .refl _) (fun _ _ _ => rfl) fun _ _ _ _ => rfl
  | @space room =>
    exact ⟨h.log.setRoom hsteady room, h.next, h.nextLogged, h.version, h.imm, h.none, h.syncing,
      h.persisted, h.safe⟩

omit [Std.TransCmp cmp] in
/-- At first the log is new. -/
theorem Initial.durable (h : s.Initial base) : s.Durable := by
  obtain ⟨room, hlogfile⟩ := h.logfile
  have hmax := h.max
  have hlog : s.logfile.Ok := by
    rw [hlogfile]
    exact LogFile.new_ok room (Nat.succ_pos _) (Nat.succ_le_succ hmax)
  have hnext : s.logfile.next = s.lastSequence + 1 := by
    rw [hlogfile]
    rfl
  refine ⟨hlog, fun _ => hnext, fun x g hg => ?_, fun f hf v hv => ?_, fun i hi => ?_,
    fun _ => h.immLogfile, fun x g hg => ?_, fun x g hg => ?_, fun c hc => ?_⟩
  · rw [h.idle x] at hg
    cases hg
  · have hstored := mem_stored_version hf hv
    rw [h.stored] at hstored
    have hle := h.le_last v hstored
    rw [hlogfile]
    exact Nat.lt_succ_of_le hle
  · rw [h.imm] at hi
    cases hi
  · rw [h.idle x] at hg
    cases hg
  · rw [h.idle x] at hg
    cases hg
  · rw [h.history] at hc
    cases hc

/-- The runs in which a log gets no room back after a call of `AddRecord` failed on it. -/
abbrev steadySystem (env : DbEnv cmp) (base : List MemTable.Write) : LTS (DBImpl cmp) Event :=
  (promisedSystem env base).restrict Steady

/-- The invariants hold in every state that is reached without giving room back to a failed log. -/
theorem durable_inductive :
    (steadySystem env base).Inductive fun s => s.Inv base ∧ s.Durable where
  init := fun _ h => ⟨h.inv, h.durable⟩
  step := fun s e s' hstep h =>
    ⟨inv_inductive.step s e s' hstep.1 h.1, durable_step h.2 h.1 hstep.2 hstep.1.1⟩

/-! ## After a crash -/

/-- The logs that a crash leaves, the older one first, with what their recovery depends on. -/
def logs (s : DBImpl cmp) (n nImm : ℕ) (renv renvImm : RecoveryEnv cmp) :
    List (RecoveryEnv cmp × Log.SequentialFile) :=
  (s.immLogfile.map fun f => (renvImm, f.cut nImm)).toList ++ [(renv, s.logfile.cut n)]

omit [Std.TransCmp cmp] in
/-- What the logs are recovered as: writes with increasing numbers, newer than the tables, and among
them all that was safe. -/
theorem Durable.logs (h : s.Durable) {n nImm : ℕ} (hn : s.logfile.synced ≤ n)
    (hnImm : ∀ f, s.immLogfile = some f → f.synced ≤ nImm) {renv renvImm : RecoveryEnv cmp}
    (hbuild : ∀ i, renv.buildTable i = .ok) (hbuildImm : ∀ i, renvImm.buildTable i = .ok) :
    ∃ vss, List.Forall₂ Recovers (s.logs n nImm renv renvImm) vss ∧
      (vss.flatten.Pairwise fun v w => v.seq < w.seq) ∧
      (∀ v ∈ vss.flatten, MemTable.Fits v ∧ ∀ f ∈ s.version, ∀ w ∈ f.writes, w.seq < v.seq) ∧
      (∀ v, s.logfile.Safe v → v ∈ vss.flatten) ∧
      ∀ f v, s.immLogfile = some f → f.Safe v → v ∈ vss.flatten := by
  obtain ⟨m, hrecovers, hsafe⟩ := h.log.recovers hn hbuild
  have hversion : ∀ v ∈ s.logfile.writes m, ∀ f ∈ s.version, ∀ w ∈ f.writes, w.seq < v.seq :=
    fun v hv f hf w hw => (h.version f hf w hw).trans_le (LogFile.mem_writes_length hv).1
  cases himm : s.imm with
  | none =>
    have hnone := h.none himm
    refine ⟨[s.logfile.writes m], ?_, ?_, fun v hv => ?_, fun v hv => ?_, fun f v hf => ?_⟩
    · rw [DBImpl.logs, hnone]
      exact .cons hrecovers .nil
    · rw [List.flatten_singleton]
      exact writesFrom_pairwise _ _
    · rw [List.flatten_singleton] at hv
      exact ⟨h.log.writes_fits hv, hversion v hv⟩
    · rw [List.flatten_singleton]
      exact hsafe v hv
    · rw [hnone] at hf
      cases hf
  | some i =>
    obtain ⟨-, f, hf, hlog, hle, hversionImm⟩ := h.imm i himm
    obtain ⟨k, hrecoversImm, hsafeImm⟩ := hlog.recovers (hnImm f hf) hbuildImm
    refine ⟨[f.writes k, s.logfile.writes m], ?_, ?_, fun v hv => ?_, fun v hv => ?_,
      fun f' v hf' hv => ?_⟩
    · rw [DBImpl.logs, hf]
      exact .cons hrecoversImm (.cons hrecovers .nil)
    · rw [List.flatten_cons, List.flatten_singleton]
      refine List.pairwise_append.2 ⟨writesFrom_pairwise _ _, writesFrom_pairwise _ _,
        fun v hv w hw => ?_⟩
      have hlt := (LogFile.mem_writes_length hv).2
      have hge := (LogFile.mem_writes_length hw).1
      omega
    · rw [List.flatten_cons, List.flatten_singleton, List.mem_append] at hv
      rcases hv with hv | hv
      · exact ⟨hlog.writes_fits hv,
          fun w hw x hx => (hversionImm w hw x hx).trans_le (LogFile.mem_writes_length hv).1⟩
      · exact ⟨h.log.writes_fits hv, hversion v hv⟩
    · rw [List.flatten_cons, List.flatten_singleton]
      exact List.mem_append_right _ (hsafe v hv)
    · rw [hf] at hf'
      cases hf'
      rw [List.flatten_cons]
      exact List.mem_append_left _ (hsafeImm v hv)

/-- **Durability.** After a run in which no log gets room back once a call of `AddRecord` failed on
it there is a crash, which leaves of each log at least what was synced. If the tables of level 0 can
be written, `Recover` ends with `ok`, and then every write of every group that returned `ok` and had
a member with `sync` is read at its number. -/
theorem sync_durable (hs : (steadySystem env base).Reachable s) {n nImm : ℕ}
    (hn : s.logfile.synced ≤ n) (hnImm : ∀ f, s.immLogfile = some f → f.synced ≤ nImm)
    {renv renvImm : RecoveryEnv cmp} (hbuild : ∀ i, renv.buildTable i = .ok)
    (hbuildImm : ∀ i, renvImm.buildTable i = .ok) (options : Options) (maxSequence : ℕ) :
    let recovered := recoverLogs options (s.logs n nImm renv renvImm) maxSequence
    recovered.1 = .ok ∧
      ∀ c ∈ s.history, c.status = .ok → (∃ t ∈ c.members, (s.writer t).sync) →
        ∀ v ∈ c.writes s.writer,
          (recovered.2.1 ++ s.version.map (·.table)).findSome? (·.get v.key v.seq) =
            some v.value := by
  intro recovered
  obtain ⟨⟨-, -, hkept⟩, hdurable⟩ := durable_inductive.reachable hs
  obtain ⟨vss, hrecovers, hordered, hlogs, hsafe, hsafeImm⟩ :=
    hdurable.logs hn hnImm hbuild hbuildImm
  obtain ⟨hstatus, sources, hsources, hflatten⟩ := recoverLogs_holds options hrecovers maxSequence
  refine ⟨hstatus, fun c hc hok hmember v hv => ?_⟩
  have htables : List.Forall₂ MemTable.Holds (s.version.map (·.table)) (s.version.map (·.writes)) :=
    List.forall₂_map_left_iff.2 (List.forall₂_map_right_iff.2
      (List.forall₂_same.2 fun f _ => f.holds))
  have hall := List.rel_append hsources htables
  have hreverse : (sources ++ s.version.map (·.writes)).reverse.flatten =
      s.version.reverse.flatMap (·.writes) ++ vss.flatten := by
    rw [List.reverse_append, List.flatten_append, hflatten, ← List.map_reverse]
    rfl
  have hincreasing : (sources ++ s.version.map (·.writes)).reverse.flatten.Pairwise
      fun v w => v.seq < w.seq := by
    rw [hreverse]
    refine List.pairwise_append.2 ⟨(List.pairwise_append.1 hkept.increasing).1, hordered,
      fun v hv w hw => ?_⟩
    obtain ⟨f, hf, hv⟩ := List.mem_flatMap.1 hv
    exact (hlogs w hw).2 f (List.mem_reverse.1 hf) v hv
  have hperm : (sources ++ s.version.map (·.writes)).flatten.Perm
      (s.version.reverse.flatMap (·.writes) ++ vss.flatten) := by
    rw [← hreverse]
    exact (List.reverse_perm _).symm.flatten
  have hfits (w : MemTable.Write) (hw : w ∈ (sources ++ s.version.map (·.writes)).flatten) :
      MemTable.Fits w := by
    rcases List.mem_append.1 (hperm.mem_iff.1 hw) with hw | hw
    · obtain ⟨f, hf, hw⟩ := List.mem_flatMap.1 hw
      exact (hkept.version f (List.mem_reverse.1 hf)).2 w hw
    · exact (hlogs w hw).1
  have hmem : v ∈ s.version.reverse.flatMap (·.writes) ++ vss.flatten := by
    obtain ⟨hmemSafe, himmSafe⟩ := hdurable.safe c hc hok hmember v hv
    have hstored : v ∈ s.stored := by
      rw [hkept.stored]
      exact List.mem_append_left _ (List.mem_append_right _ (List.mem_flatMap.2 ⟨c, hc, hv⟩))
    rcases List.mem_append.1 hstored with hstored | hstored
    · exact List.mem_append_left _ hstored
    · refine List.mem_append_right _ ?_
      rcases List.mem_append.1 hstored with himm | hmem
      · cases hi : s.imm with
        | none =>
          rw [hi] at himm
          cases himm
        | some i =>
          rw [hi] at himm
          obtain ⟨-, f, hf, -⟩ := hdurable.imm i hi
          exact hsafeImm f v hf (himmSafe i f hi hf himm)
      · exact hsafe v (hmemSafe hmem)
  have hdistinct : Distinct cmp (s.version.reverse.flatMap (·.writes) ++ vss.flatten) :=
    .of_increasing (hreverse ▸ hincreasing)
  have hv_fits := hfits v (hperm.mem_iff.2 hmem)
  have hnewest : newest cmp v.key v.seq (s.version.reverse.flatMap (·.writes) ++ vss.flatten) =
      some v :=
    (newest_eq_some hdistinct).2 ⟨hmem, ⟨Std.ReflCmp.compare_self, Nat.le_refl _⟩,
      fun _ _ hw => hw.2⟩
  rw [findSome_get hall hfits ((hperm.pairwise_iff Apart.symm).2 hdistinct) hv_fits.key hv_fits.seq,
    findSome_newest_reverse hincreasing, hreverse, hnewest]
  rfl

/-- A step in which no log gets room back after a call failed on it. -/
def steadyStep (env : DbEnv cmp) (s : DBImpl cmp) (e : Event) : Option (DBImpl cmp) :=
  if s.Steady e then promisedStep env s e else none

/-- What such steps compute is a run of the steady system. -/
theorem steady_replay {es : List Event} (hes : ∀ e ∈ es, e.WellFormed)
    (h : (es.foldlM (steadyStep env) s).isSome) :
    (steadySystem env base).Run s es (LTS.replay (steadyStep env) s es) := by
  refine .replay (fun s₁ e he s₂ hstep => ?_) h
  rw [steadyStep] at hstep
  split_ifs at hstep with hsteady
  exact ⟨promised_of_step (hes e he) hstep, hsteady⟩

/-- Call 4 makes a new table and a new log, call 5 writes, and call 6 finds the disk full. -/
def fullDisk : List Event :=
  [.wake 4 (.ok (some 100)), .wake 5 (.ok none), .addRecord 5 (.ioError ""), .sync 5 .ok,
    .insert 5, .insert 5, .finish 5, .space (some 9),
    .enter 6 (some (WriteBatch.clear.put [7] [8])) true (.ok none), .addRecord 6 (.ioError ""),
    .finish 6]

/-- The batches of the run are well formed. -/
theorem fullDisk_wellFormed : ∀ e ∈ firstGroup ++ secondGroup ++ fullDisk, e.WellFormed := by
  simp [firstGroup, secondGroup, fullDisk, Event.WellFormed, put_byte_wellFormed]

/-- Two groups were synced, and one more in a new log, before the disk was full. All that was not
synced is lost. -/
theorem sync_durable_second :
    ∃ s, (steadySystem smallEnv []).Run (opened .empty 0 none)
        (firstGroup ++ secondGroup ++ fullDisk) s ∧
      s.history = [⟨[1], 1, .ok⟩, ⟨[2, 3], 2, .ok⟩, ⟨[4], 4, .ok⟩, ⟨[5], 4, .ok⟩,
        ⟨[6], 5, .ioError ""⟩] ∧
      let renv : RecoveryEnv Slice.compare := ⟨fun _ => 0, fun _ => .ok, true, none⟩
      let nImm := (s.immLogfile.map (·.synced)).getD 0
      let recovered := recoverLogs smallEnv.options (s.logs s.logfile.synced nImm renv renv) 0
      let get (key : Bytes) (seq : ℕ) :=
        (recovered.2.1 ++ s.version.map (·.table)).findSome? (·.get key seq)
      recovered.1 = .ok ∧ get [1] 1 = some (some [2]) ∧ get [1] 2 = some (some [3]) ∧
        get [2] 3 = some (some [4]) ∧ get [5] 4 = some (some [6]) := by
  obtain ⟨s, hs, hhistory, hsync₁, hsync₂, hsync₅, hwrites₁, hwrites₂, hwrites₅⟩ :
      ∃ s, (steadySystem smallEnv []).Run (opened .empty 0 none)
          (firstGroup ++ secondGroup ++ fullDisk) s ∧
        s.history = [⟨[1], 1, .ok⟩, ⟨[2, 3], 2, .ok⟩, ⟨[4], 4, .ok⟩, ⟨[5], 4, .ok⟩,
          ⟨[6], 5, .ioError ""⟩] ∧
        (s.writer 1).sync ∧ (s.writer 2).sync ∧ (s.writer 5).sync ∧
        (⟨[1], 1, .ok⟩ : Committed).writes s.writer = [⟨[1], 1, some [2]⟩] ∧
        (⟨[2, 3], 2, .ok⟩ : Committed).writes s.writer =
          [⟨[1], 2, some [3]⟩, ⟨[2], 3, some [4]⟩] ∧
        (⟨[5], 4, .ok⟩ : Committed).writes s.writer = [⟨[5], 4, some [6]⟩] :=
    ⟨_, steady_replay fullDisk_wellFormed (by decide +kernel), by decide +kernel⟩
  refine ⟨s, hs, hhistory, ?_⟩
  intro renv nImm recovered get
  have hnImm (f : LogFile) (hf : s.immLogfile = some f) : f.synced ≤ nImm := by
    have hsynced : nImm = ((some f).map (·.synced)).getD 0 :=
      congrArg (fun o : Option LogFile => (o.map (·.synced)).getD 0) hf
    exact hsynced.ge
  have hbuild (i : ℕ) : renv.buildTable i = .ok := rfl
  obtain ⟨hstatus, hread⟩ := sync_durable ⟨_, _, empty_initial none, hs⟩ (Nat.le_refl _) hnImm
    hbuild hbuild smallEnv.options 0
  rw [hhistory] at hread
  have hfirst := hread ⟨[1], 1, .ok⟩ (by decide) rfl ⟨1, by decide, hsync₁⟩
  have hsecond := hread ⟨[2, 3], 2, .ok⟩ (by decide) rfl ⟨2, by decide, hsync₂⟩
  have hthird := hread ⟨[5], 4, .ok⟩ (by decide) rfl ⟨5, by decide, hsync₅⟩
  rw [hwrites₁] at hfirst
  rw [hwrites₂] at hsecond
  rw [hwrites₅] at hthird
  exact ⟨hstatus, hfirst ⟨[1], 1, some [2]⟩ (by decide), hsecond ⟨[1], 2, some [3]⟩ (by decide),
    hsecond ⟨[2], 3, some [4]⟩ (by decide), hthird ⟨[5], 4, some [6]⟩ (by decide)⟩

/-- The disk is full while call 2 writes for call 3 too, and has room again before call 5 writes. -/
def passing : List Event :=
  [.space (some 10), .wake 2 (.ok none), .addRecord 2 (.ioError ""), .finish 2, .space none,
    .enter 5 (some (WriteBatch.clear.put [5] [6])) true (.ok none), .addRecord 5 (.ioError ""),
    .sync 5 .ok, .insert 5, .insert 5, .finish 5]

/-- The condition on the disk is needed. A failed `AddRecord` leaves a record that is cut off and
sets no `bg_error_`, so call 5 appends to the same log, is synced and returns `ok`. Recovery drops
what is behind the record that is cut off. -/
theorem sync_lost :
    ∃ s, (promisedSystem smallEnv []).Run (opened .empty 0 none) (firstGroup ++ passing) s ∧
      s.history = [⟨[1], 1, .ok⟩, ⟨[2, 3], 2, .ioError ""⟩, ⟨[5], 4, .ok⟩] ∧
      (s.writer 5).sync ∧
      let renv : RecoveryEnv Slice.compare := ⟨fun _ => 0, fun _ => .ok, true, none⟩
      let recovered := recoverLogs smallEnv.options (s.logs s.logfile.synced 0 renv renv) 0
      recovered.1 = .ok ∧
        (recovered.2.1 ++ s.version.map (·.table)).findSome? (·.get [5] 4) = none := by
  have hvalid : ∀ e ∈ firstGroup ++ passing, e.WellFormed := by
    simp [firstGroup, passing, Event.WellFormed, put_byte_wellFormed]
  exact ⟨_, promised_replay hvalid (by decide +kernel), by decide +kernel⟩

end DBImpl

end TelecomSuite.LevelDb
