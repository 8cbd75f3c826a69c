import TelecomSuite.LevelDb.Grouped

/-!
# What the tables hold

The tables hold what was there at first, the writes of the groups that left with `ok`, in the order
in which they left, and those writes of the group at work that were inserted already (`kept_step`).
-/

namespace TelecomSuite.LevelDb

open Transition LeaderQueue Versions

/-- The writes of a group that were inserted already. -/
def Pc.inserted : Pc → List MemTable.Write
  | .insert g _ _ found => writesFrom g.updates.sequence (g.updates.ops.take found)
  | .finish g status _ =>
    if status = .ok then writesFrom g.updates.sequence g.updates.ops else []
  | _ => []

/-- Who leads no group has inserted nothing. -/
theorem Pc.inserted_of_group {pc : Pc} (h : pc.group = none) : pc.inserted = [] := by
  cases pc <;> first | rfl | cases h

/-- What is inserted has the numbers of the group. -/
theorem Pc.le_inserted {pc : Pc} {v : MemTable.Write} (hv : v ∈ pc.inserted) :
    ∃ g, pc.group = some g ∧ g.updates.sequence ≤ v.seq := by
  cases pc with
  | insert g input sequence found =>
    obtain ⟨-, -, -, hle, -⟩ := mem_writesFrom hv
    exact ⟨g, rfl, hle⟩
  | finish g status syncError =>
    rw [Pc.inserted] at hv
    split_ifs at hv
    · obtain ⟨-, -, -, hle, -⟩ := mem_writesFrom hv
      exact ⟨g, rfl, hle⟩
    · cases hv
  | _ => cases hv

/-- The writes that a group made. -/
def Committed.writes (writer : ℕ → Writer) (c : Committed) : List MemTable.Write :=
  if c.status = .ok then writesFrom c.first (c.members.flatMap fun t => (writer t).ops) else []

/-- The writes of a group have numbers from its first one on. -/
theorem Committed.first_le {writer : ℕ → Writer} {c : Committed} {v : MemTable.Write}
    (hv : v ∈ c.writes writer) : c.first ≤ v.seq := by
  rw [writes] at hv
  split_ifs at hv
  · obtain ⟨-, -, -, hle, -⟩ := mem_writesFrom hv
    exact hle
  · cases hv

namespace DBImpl

variable {cmp : Comparator} {s s' : DBImpl cmp} {t : ℕ} {g : Group} {base : List MemTable.Write}

/-- All writes in the tables, from the oldest table to the newest. -/
def stored (s : DBImpl cmp) : List MemTable.Write :=
  s.version.reverse.flatMap (·.writes) ++
    ((s.imm.map fun i => (s.table i).writes).getD [] ++ (s.table s.mem).writes)

/-- The writes of the groups that left with `ok`. -/
def committed (s : DBImpl cmp) : List MemTable.Write := s.history.flatMap (·.writes s.writer)

/-- The writes of the group at work that were inserted already. -/
def inflight (s : DBImpl cmp) : List MemTable.Write :=
  (s.writers.head?.map fun t => (s.pc t).inserted).getD []

/-- The writes in a table have increasing numbers. -/
def Ordered (vs : List MemTable.Write) : Prop :=
  (vs.Pairwise fun v w => v.seq < w.seq) ∧ ∀ v ∈ vs, MemTable.Fits v

/-- What the tables hold, and in which order. -/
structure Kept (base : List MemTable.Write) (s : DBImpl cmp) : Prop where
  stored : s.stored = base ++ s.committed ++ s.inflight
  increasing : s.stored.Pairwise fun v w => v.seq < w.seq
  ordered : Ordered (base ++ s.committed)
  le_last : ∀ v ∈ base ++ s.committed, v.seq ≤ s.lastSequence
  max : s.lastSequence ≤ kMaxSequenceNumber
  version : ∀ f ∈ s.version, Ordered f.writes
  table : ∀ i, Ordered (s.table i).writes
  tables : ∀ i, s.mem < i → (s.table i).writes = []
  imm : ∀ i, s.imm = some i → i < s.mem

/-- An empty table is in order. -/
theorem ordered_nil : Ordered [] := ⟨.nil, fun _ hv => absurd hv List.not_mem_nil⟩

/-- A newer write is put behind the others. -/
theorem Ordered.append_write {vs : List MemTable.Write} {v : MemTable.Write} (h : Ordered vs)
    (hlt : ∀ w ∈ vs, w.seq < v.seq) (hv : MemTable.Fits v) : Ordered (vs ++ [v]) := by
  refine ⟨List.pairwise_append.2 ⟨h.1, List.pairwise_singleton _ v, fun w hw x hx => ?_⟩,
    fun w hw => ?_⟩
  · rw [List.mem_singleton.1 hx]
    exact hlt w hw
  · rcases List.mem_append.1 hw with hw | hw
    · exact h.2 w hw
    · rwa [List.mem_singleton.1 hw]

/-- What is inserted already was inserted by the front. -/
theorem inflight_of_front (h : s.writers.head? = some t) : s.inflight = (s.pc t).inserted := by
  rw [inflight, h]
  rfl

/-- With nobody at work nothing is inserted that has not left. -/
theorem Quiet.inflight (h : s.Quiet) : s.inflight = [] := by
  rw [DBImpl.inflight]
  cases s.writers.head? with
  | none => rfl
  | some t => exact Pc.inserted_of_group (h t)

/-- The writes of a call depend on its batch only. -/
theorem writer_ops {w w' : Writer} (h : w'.batch = w.batch) : w'.ops = w.ops := by
  rw [Writer.ops, h, Writer.ops]

/-- What was committed depends on the batches of those that have left. -/
theorem committed_congr (hhistory : s'.history = s.history)
    (hbatch : ∀ c ∈ s.history, ∀ t ∈ c.members, (s'.writer t).batch = (s.writer t).batch) :
    s'.committed = s.committed := by
  rw [committed, committed, hhistory]
  refine List.flatMap_congr fun c hc => ?_
  have hops : (c.members.flatMap fun t => (s'.writer t).ops) =
      c.members.flatMap fun t => (s.writer t).ops :=
    List.flatMap_congr fun t ht => writer_ops (hbatch c hc t ht)
  rw [Committed.writes, Committed.writes, hops]

/-- The writes of a group that leaves are committed. -/
theorem leave_committed (s : DBImpl cmp) (leader last first : ℕ) (status : Status) :
    (s.leave leader last first status).committed =
      s.committed ++ (⟨upTo last s.writers, first, status⟩ : Committed).writes s.writer := by
  have hsame (c : Committed) :
      c.writes (s.leave leader last first status).writer = c.writes s.writer := by
    have hops : (c.members.flatMap fun t => ((s.leave leader last first status).writer t).ops) =
        c.members.flatMap fun t => (s.writer t).ops :=
      List.flatMap_congr fun t _ => writer_ops (leave_batch t)
    rw [Committed.writes, Committed.writes, hops]
  have hhistory : (s.leave leader last first status).history =
      s.history ++ [⟨upTo last s.writers, first, status⟩] := by
    rw [leave_eq]
  rw [committed, hhistory, List.flatMap_append, List.flatMap_singleton, hsame]
  exact congrArg (· ++ _) (List.flatMap_congr fun c _ => hsame c)

/-- Leaving the queue does not change the tables. -/
theorem leave_stored (s : DBImpl cmp) (leader last first : ℕ) (status : Status) :
    (s.leave leader last first status).stored = s.stored := by
  rw [leave_eq]
  rfl

/-- Steps that change neither the tables nor what is committed. -/
theorem Kept.congr (h : s.Kept base) (hstored : s'.stored = s.stored)
    (hversion : s'.version = s.version)
    (hcommitted : s'.committed = s.committed) (hinflight : s'.inflight = s.inflight)
    (hlast : s'.lastSequence = s.lastSequence) (htable : s'.table = s.table)
    (hmem : s'.mem = s.mem) (himm : s'.imm = s.imm) : s'.Kept base where
  stored := by rw [hstored, hcommitted, hinflight, h.stored]
  increasing := by
    rw [hstored]
    exact h.increasing
  ordered := by
    rw [hcommitted]
    exact h.ordered
  le_last := by
    rw [hcommitted, hlast]
    exact h.le_last
  max := by
    rw [hlast]
    exact h.max
  version := by
    rw [hversion]
    exact h.version
  table := by
    rw [htable]
    exact h.table
  tables := by
    rw [hmem, htable]
    exact h.tables
  imm := by
    rw [himm, hmem]
    exact h.imm

/-- What is inserted already depends on the place of the front only. -/
theorem goto_inflight (hfront : s.writers.head? = some t) (pc : Pc) :
    (s.goto t pc).inflight = pc.inserted := by
  rw [inflight_of_front (s := s.goto t pc) hfront, goto]
  exact congrArg Pc.inserted (Function.update_self t pc s.pc)

/-- A call goes on, and nothing of its group is inserted. -/
theorem Kept.goto {pc : Pc} (h : s.Kept base) (hpc : pc.inserted = (s.pc t).inserted) :
    (s.goto t pc).Kept base := by
  refine h.congr rfl rfl rfl ?_ rfl rfl rfl rfl
  rw [inflight, inflight]
  change (s.writers.head?.map fun x => (Function.update s.pc t pc x).inserted).getD [] = _
  congr 2
  funext x
  rcases eq_or_ne x t with rfl | hx
  · rw [Function.update_self, hpc]
  · rw [Function.update_of_ne hx]

/-- A new table comes in front of the others. -/
theorem Kept.switchMemTable (h : s.Kept base) (himm : s.imm = none) (room : Option ℕ) :
    (s.switchMemTable room).Kept base := by
  have hnew : (s.table (s.mem + 1)).writes = [] := h.tables _ (Nat.lt_succ_self _)
  have hstored : (s.switchMemTable room).stored = s.stored := by
    change s.version.reverse.flatMap (·.writes) ++
      ((s.table s.mem).writes ++ (s.table (s.mem + 1)).writes) = s.stored
    rw [hnew, List.append_nil, DBImpl.stored, himm]
    rfl
  refine ⟨hstored.trans h.stored, hstored ▸ h.increasing, h.ordered, h.le_last, h.max, h.version,
    h.table, fun i hi => h.tables i (Nat.lt_of_succ_lt hi), fun i hi => ?_⟩
  cases hi
  exact Nat.lt_succ_self _

/-- Making room keeps what the tables hold. -/
theorem Kept.roomy {s₁ : DBImpl cmp} (h : s.Kept base) (hroomy : s.Roomy s₁) : s₁.Kept base := by
  rcases hroomy with rfl | ⟨himm, room, rfl⟩
  · exact h
  · exact h.switchMemTable himm room

/-- A group leaves, and its writes are committed. -/
theorem kept_leave {last first : ℕ} {status : Status} {new : List MemTable.Write}
    (hnew : (⟨upTo last s.writers, first, status⟩ : Committed).writes s.writer = new)
    (hothers : ∀ x, x ≠ t → (s.pc x).group = none)
    (hstored : s.stored = base ++ (s.committed ++ new))
    (hincreasing : s.stored.Pairwise fun v w => v.seq < w.seq)
    (hordered : Ordered (base ++ (s.committed ++ new)))
    (hlast : ∀ v ∈ base ++ (s.committed ++ new), v.seq ≤ s.lastSequence)
    (hmax : s.lastSequence ≤ kMaxSequenceNumber) (hversion : ∀ f ∈ s.version, Ordered f.writes)
    (htable : ∀ i, Ordered (s.table i).writes)
    (htables : ∀ i, s.mem < i → (s.table i).writes = []) (himm : ∀ i, s.imm = some i → i < s.mem) :
    (s.leave t last first status).Kept base := by
  have hcommitted := leave_committed s t last first status
  rw [hnew] at hcommitted
  refine ⟨?_, ?_, ?_, ?_, ?_, ?_, ?_, ?_, ?_⟩
  · rw [leave_stored, (leave_quiet hothers).inflight, hcommitted, List.append_nil, hstored]
  · rw [leave_stored]
    exact hincreasing
  · rw [hcommitted]
    exact hordered
  · rw [hcommitted, leave_eq]
    exact hlast
  · rw [leave_eq]
    exact hmax
  · rw [leave_eq]
    exact hversion
  · rw [leave_eq]
    exact htable
  · rw [leave_eq]
    exact htables
  · rw [leave_eq]
    exact himm

/-- Nothing is committed when nothing was inserted. -/
theorem Kept.leave_nil (h : s.Kept base) {last first : ℕ} {status : Status} (hquiet : s.Quiet)
    (hnew : (⟨upTo last s.writers, first, status⟩ : Committed).writes s.writer = []) :
    (s.leave t last first status).Kept base := by
  have hstored := h.stored
  rw [hquiet.inflight, List.append_nil] at hstored
  refine kept_leave hnew (fun x _ => hquiet x) ?_ h.increasing ?_ ?_ h.max h.version h.table h.tables
    h.imm <;> rw [List.append_nil]
  · exact hstored
  · exact h.ordered
  · exact h.le_last

variable {env : DbEnv cmp} {newFile : Except Status (Option ℕ)} {force allowDelay : Bool}

/-- A call that leaves alone without having been logged makes no writes. -/
theorem alone_writes (hfront : s.writers.head? = some t) (first : ℕ) {status : Status}
    (hstatus : status = .ok → (s.writer t).batch = none) :
    (⟨upTo t s.writers, first, status⟩ : Committed).writes s.writer = [] := by
  have hmembers : upTo t s.writers = [t] := by
    cases hwriters : s.writers with
    | nil =>
      rw [hwriters] at hfront
      cases hfront
    | cons x ts =>
      rw [hwriters] at hfront
      cases hfront
      exact if_pos rfl
  rw [Committed.writes]
  split_ifs with hok
  · dsimp only
    rw [hmembers, List.flatMap_singleton, Writer.ops_of_none (hstatus hok)]
    rfl
  · rfl

/-- What the front does before it logs keeps what the tables hold. -/
theorem Kept.lead (h : s.Kept base) (hquiet : s.Quiet) (hfront : s.writers.head? = some t) :
    (s.lead env newFile force allowDelay t).Kept base := by
  obtain ⟨s₁, hs₁, hlead⟩ := lead_cases env newFile force allowDelay t s
  have h₁ := h.roomy hs₁
  have hquiet₁ := hquiet.roomy hs₁
  have hnone : (s₁.pc t).inserted = [] := Pc.inserted_of_group (hquiet₁ t)
  rcases hlead with ⟨force', allowDelay', -, hlead⟩ | ⟨batch, hbatch, -, hlead⟩ |
    ⟨status, hstatus, hlead⟩
  · rw [hlead]
    exact h₁.goto hnone.symm
  · have hgoto : (s₁.goto t (.log (s₁.buildBatchGroup t batch))).Kept base := h₁.goto hnone.symm
    rw [hlead]
    exact hgoto.congr rfl rfl rfl rfl rfl rfl rfl rfl
  · rw [hlead]
    refine h₁.leave_nil hquiet₁ ?_
    rcases hs₁ with rfl | ⟨-, room, rfl⟩
    · exact alone_writes hfront _ hstatus
    · exact alone_writes (s := s.switchMemTable room) hfront _ hstatus

/-! ## Steps -/

/-- A call that comes changes nothing of what was committed. -/
theorem arrive_committed (hinv : s.queue.Inv) (hpc : s.pc t = .idle) (batch : Option WriteBatch)
    (sync : Bool) : (s.arrive t batch sync).committed = s.committed :=
  committed_congr rfl fun _ hc _ hx =>
    congrArg Writer.batch (arrive_writer hinv hpc batch sync hc hx)

/-- A call comes into the queue. -/
theorem Kept.arrive (h : s.Kept base) (hinv : s.queue.Inv) (hpc : s.pc t = .idle)
    (batch : Option WriteBatch) (sync : Bool) : (s.arrive t batch sync).Kept base := by
  refine h.congr rfl rfl (arrive_committed hinv hpc batch sync) ?_ rfl rfl rfl rfl
  rw [inflight, inflight]
  change ((s.writers ++ [t]).head?.map fun t => (s.pc t).inserted).getD [] = _
  cases hwriters : s.writers with
  | nil =>
    change (s.pc t).inserted = []
    rw [hpc]
    rfl
  | cons x ts => rfl

/-- A call comes, and leads if the queue was empty. -/
theorem Kept.enter (h : s.Kept base) (hgrouped : s.Grouped) (hinv : s.queue.Inv)
    (hpc : s.pc t = .idle) (batch : Option WriteBatch) (sync : Bool) :
    (s.enter env newFile t batch sync).Kept base := by
  have h₁ := h.arrive hinv hpc batch sync
  rw [DBImpl.enter]
  split_ifs with hfront
  · exact h₁.lead (hgrouped.arrive_quiet (arrive_front hinv hpc hfront) batch sync) hfront
  · refine h₁.goto ?_
    change _ = (s.pc t).inserted
    rw [hpc]
    rfl

/-- The group that was at work leaves, and its writes are committed. -/
theorem Kept.finishWrite (h : s.Kept base) (hgrouped : s.Grouped) {status : Status}
    {syncError : Bool} (hpc : s.pc t = .finish g status syncError) :
    (s.finishWrite t g status syncError).Kept base := by
  have hg : (s.pc t).group = some g := by
    rw [hpc]
    rfl
  have hok := hgrouped.group t g hg
  have hroom := hok.room
  have hcount := hok.count
  have hnumber := hok.number
  rw [kMaxSequenceNumber] at hroom
  have hsequence := hok.sequence
  have hops := hok.updates_ops
  have hinflight : s.inflight =
      if status = .ok then writesFrom (s.lastSequence + 1) (g.ops s.writers s.writer) else [] := by
    rw [inflight_of_front hok.front, hpc, Pc.inserted, hsequence, hops]
  have hstored := h.stored
  rw [List.append_assoc] at hstored
  have hmem {v : MemTable.Write} (hv : v ∈ s.inflight) :
      v ∈ writesFrom (s.lastSequence + 1) (g.ops s.writers s.writer) := by
    rw [hinflight] at hv
    split_ifs at hv
    · exact hv
    · cases hv
  have hsplit {v : MemTable.Write} (hv : v ∈ base ++ (s.committed ++ s.inflight)) :
      v ∈ base ++ s.committed ∨ v ∈ s.inflight := by
    rwa [← List.append_assoc, List.mem_append] at hv
  have hnew : (⟨upTo g.lastWriter s.writers, g.updates.sequence, status⟩ : Committed).writes
      s.writer = s.inflight := by
    rw [hinflight, Committed.writes, hsequence]
    rfl
  have hordered : Ordered (base ++ (s.committed ++ s.inflight)) := by
    constructor
    · rw [← List.append_assoc]
      refine List.pairwise_append.2 ⟨h.ordered.1, ?_, fun v hv w hw => ?_⟩
      · rw [hinflight]
        split_ifs
        · exact writesFrom_pairwise _ _
        · exact .nil
      · obtain ⟨-, -, -, hle, -⟩ := mem_writesFrom (hmem hw)
        have hold := h.le_last v hv
        omega
    · intro v hv
      rcases hsplit hv with hv | hv
      · exact h.ordered.2 v hv
      · refine writesFrom_fits hok.fits ?_ (hmem hv)
        rw [kMaxSequenceNumber]
        omega
  have hlast : ∀ v ∈ base ++ (s.committed ++ s.inflight), v.seq ≤ g.lastSequence := by
    intro v hv
    rcases hsplit hv with hv | hv
    · have hold := h.le_last v hv
      omega
    · obtain ⟨-, -, -, -, hlt⟩ := mem_writesFrom (hmem hv)
      omega
  rw [finishWrite_eq]
  refine kept_leave hnew (fun x => hgrouped.quiet_others hok.front) hstored h.increasing hordered
    hlast ?_ h.version h.table h.tables h.imm
  change g.lastSequence ≤ kMaxSequenceNumber
  rw [kMaxSequenceNumber]
  omega

variable [Std.TransCmp cmp]

/-- A write goes into the newest table. -/
theorem stored_add (himm : ∀ i, s.imm = some i → i < s.mem) (v : MemTable.Write) :
    ({ s with table := Function.update s.table s.mem ((s.table s.mem).add v) } : DBImpl cmp).stored =
      s.stored ++ [v] := by
  have hsame : (s.imm.map fun i =>
      (Function.update s.table s.mem ((s.table s.mem).add v) i).writes) =
      s.imm.map fun i => (s.table i).writes := by
    cases hi : s.imm with
    | none => rfl
    | some i => rw [Option.map_some, Option.map_some, Function.update_of_ne (himm i hi).ne]
  rw [stored, stored]
  dsimp only
  rw [hsame, Function.update_self, List.append_assoc, List.append_assoc]
  rfl

/-- One write of the group goes into the table. -/
theorem Kept.insertOne (h : s.Kept base) (hgrouped : s.Grouped) {input : Bytes}
    {sequence found : ℕ} (hpc : s.pc t = .insert g input sequence found) :
    (s.insertOne t g input sequence found).Kept base := by
  have hg : (s.pc t).group = some g := by
    rw [hpc]
    rfl
  have hok := hgrouped.group t g hg
  have hroom := hok.room
  have hcount := hok.count
  rw [kMaxSequenceNumber] at hroom
  obtain ⟨ops₁, ops₂, hsplit, hinput, hsequence, hfound⟩ :=
    hgrouped.inserting t g input sequence found hpc
  have hops := hok.updates_ops.trans hsplit
  have hfirst := hok.sequence
  have hinserted : (s.pc t).inserted = writesFrom (s.lastSequence + 1) ops₁ := by
    rw [hpc, Pc.inserted, hfirst, hops, hfound, List.take_left]
  rw [DBImpl.insertOne]
  by_cases hnil : input = []
  · have hops₂ : ops₂ = [] := by
      cases ops₂ with
      | nil => rfl
      | cons op ops₂ =>
        rw [hinput, List.flatMap_cons] at hnil
        exact absurd (List.append_eq_nil_iff.1 hnil).1 (WriteBatch.opBytes_ne_nil op)
    have hfound' : found = g.updates.count := by
      rw [hok.batch.count, hsplit, hops₂, List.append_nil, hfound, Nat.mod_eq_of_lt]
      rw [hsplit, hops₂, List.append_nil] at hcount
      omega
    rw [if_pos hnil]
    refine h.goto ?_
    rw [hinserted, if_neg (not_not.2 hfound'), Pc.inserted, if_pos rfl, hfirst, hops, hops₂,
      List.append_nil]
  · rw [if_neg hnil]
    cases ops₂ with
    | nil => exact absurd hinput hnil
    | cons op ops₂ =>
      have hop : op.Fits := by
        refine hok.fits op ?_
        rw [hsplit]
        exact List.mem_append_right _ List.mem_cons_self
      have hread : WriteBatch.readOp input = .ok (op, ops₂.flatMap WriteBatch.opBytes) := by
        rw [hinput, List.flatMap_cons]
        exact WriteBatch.readOp_opBytes hop _
      rw [hread]
      dsimp only
      let s₁ : DBImpl cmp := { s with
        table := Function.update s.table s.mem ((s.table s.mem).add (op.write sequence)) }
      have hold := h.stored
      rw [inflight_of_front hok.front, hinserted] at hold
      have hlt (v : MemTable.Write) (hv : v ∈ s.stored) : v.seq < sequence := by
        rw [hold, List.mem_append] at hv
        rw [hsequence]
        rcases hv with hv | hv
        · have hle := h.le_last v hv
          omega
        · obtain ⟨-, -, -, -, hlt⟩ := mem_writesFrom hv
          exact hlt
      have hstored : s₁.stored = s.stored ++ [op.write sequence] := stored_add h.imm _
      refine ⟨?_, ?_, h.ordered, h.le_last, h.max, h.version, fun i => ?_, fun i hi => ?_, h.imm⟩
      · have hnew : (Pc.insert g (ops₂.flatMap WriteBatch.opBytes) ((sequence + 1) % 2 ^ 64)
            (found + 1)).inserted = writesFrom (s.lastSequence + 1) ops₁ ++ [op.write sequence] := by
          have htake : (ops₁ ++ op :: ops₂).take (found + 1) = ops₁ ++ [op] := by
            rw [hfound, List.take_length_add_append]
            rfl
          rw [Pc.inserted, hfirst, hops, htake, writesFrom_append, hsequence]
          rfl
        have hinflight := goto_inflight (s := s₁) hok.front
          (.insert g (ops₂.flatMap WriteBatch.opBytes) ((sequence + 1) % 2 ^ 64) (found + 1))
        refine hstored.trans (Eq.trans ?_ (congrArg (base ++ s.committed ++ ·) hinflight).symm)
        rw [hnew, hold, List.append_assoc]
      · change s₁.stored.Pairwise fun v w => v.seq < w.seq
        rw [hstored]
        refine List.pairwise_append.2 ⟨h.increasing, List.pairwise_singleton _ _,
          fun v hv w hw => ?_⟩
        rw [List.mem_singleton.1 hw, op.write_seq]
        exact hlt v hv
      · dsimp only
        rcases eq_or_ne i s.mem with rfl | hi
        · rw [Function.update_self]
          refine (h.table s.mem).append_write ?_ ?_
          · intro v hv
            rw [op.write_seq]
            exact hlt v (List.mem_append_right _ (List.mem_append_right _ hv))
          · have hlength : ops₁.length + 1 ≤ (g.ops s.writers s.writer).length := by
              rw [hsplit, List.length_append, List.length_cons]
              omega
            have hseq : sequence + [op].length ≤ kMaxSequenceNumber + 1 := by
              rw [hsequence, kMaxSequenceNumber, List.length_singleton]
              omega
            have hmem : op.write sequence ∈ writesFrom sequence [op] := List.mem_singleton_self _
            exact writesFrom_fits (List.forall_mem_singleton.2 hop) hseq hmem
        · rw [Function.update_of_ne hi]
          exact h.table i
      · exact (congrArg Filled.writes (Function.update_of_ne (Nat.ne_of_gt hi) _ _)).trans
          (h.tables i hi)

omit [Std.TransCmp cmp] in
/-- The writes of `imm` are in the version, or there are none. -/
theorem compactMemTable_stored {imm : ℕ} (himm : s.imm = some imm) (level0 : ℕ) :
    (s.compactMemTable imm .ok level0).stored = s.stored := by
  rw [DBImpl.compactMemTable, if_pos rfl, DBImpl.stored, DBImpl.stored, himm]
  cases hfirst : SkipList.Iterator.seekToFirst (s.table imm).table.table.list with
  | none =>
    have hnil : (s.table imm).writes = [] := (s.table imm).holds.eq_nil hfirst
    change _ ++ ([] ++ _) = _ ++ ((s.table imm).writes ++ _)
    rw [hnil]
  | some x =>
    change (s.table imm :: s.version).reverse.flatMap (·.writes) ++ ([] ++ _) =
      _ ++ ((s.table imm).writes ++ _)
    rw [List.reverse_cons, List.flatMap_append, List.flatMap_singleton, List.nil_append,
      List.append_assoc]

/-- Every step keeps what the tables hold. -/
theorem kept_step {e : Event} (h : s.Kept base) (hgrouped : s.Grouped) (hinv : s.queue.Inv)
    {env : DbEnv cmp} (hstep : s.step env e = some s') : s'.Kept base := by
  cases stepped hstep with
  | enter hpc => exact h.enter hgrouped hinv hpc _ _
  | @wake t newFile signaled hpc =>
    have hnone : (s.pc t).group = none := by
      rw [hpc]
      rfl
    have hinserted := Pc.inserted_of_group hnone
    rw [DBImpl.wake]
    split_ifs with hdone hfront
    · exact h.goto hinserted.symm
    · exact h.lead (hgrouped.quiet hfront hnone) hfront
    · exact h.goto hinserted.symm
  | @resume t newFile force allowDelay hpc =>
    have hnone : (s.pc t).group = none := by
      rw [hpc]
      rfl
    have hfront : s.writers.head? = some t := hinv.leading t (role_queue hpc)
    exact h.lead (hgrouped.quiet hfront hnone) hfront
  | @addRecord t g error hpc herror =>
    have hinserted : (s.pc t).inserted = [] := by
      rw [hpc]
      rfl
    rw [DBImpl.addRecord]
    dsimp only
    have h₁ : Kept base { s with logfile := s.logfile.add g.updates } :=
      h.congr rfl rfl rfl rfl rfl rfl rfl rfl
    split_ifs
    · exact h₁.goto hinserted.symm
    · exact h₁.goto hinserted.symm
    · refine h₁.goto ?_
      rw [Pc.inserted, if_neg herror]
      exact hinserted.symm
  | @sync t g status hpc =>
    have hinserted : (s.pc t).inserted = [] := by
      rw [hpc]
      rfl
    rw [DBImpl.syncLog]
    split_ifs with hok
    · have hgoto : (s.goto t (.insert g (g.updates.rep.drop kHeader) g.updates.sequence 0)).Kept
          base := h.goto hinserted.symm
      exact hgoto.congr rfl rfl rfl rfl rfl rfl rfl rfl
    · refine h.goto ?_
      rw [Pc.inserted, if_neg hok]
      exact hinserted.symm
  | insert hpc => exact h.insertOne hgrouped hpc
  | finish hpc => exact h.finishWrite hgrouped hpc
  | @compactMemTable imm status level0 himm =>
    by_cases hok : status = .ok
    · subst hok
      have hstored := compactMemTable_stored himm level0
      rw [DBImpl.compactMemTable, if_pos rfl] at hstored ⊢
      refine ⟨hstored.trans h.stored, hstored ▸ h.increasing, h.ordered, h.le_last, h.max, ?_,
        h.table, h.tables, fun i hi => by cases hi⟩
      intro f hf
      dsimp only at hf
      split at hf
      · exact h.version f hf
      · rcases List.mem_cons.1 hf with rfl | hf
        · exact h.table imm
        · exact h.version f hf
    · rw [DBImpl.compactMemTable, if_neg hok, recordBackgroundError_eq]
      exact h.congr rfl rfl rfl rfl rfl rfl rfl rfl
  | background =>
    rw [recordBackgroundError_eq]
    split_ifs <;> exact h.congr rfl rfl rfl rfl rfl rfl rfl rfl
  | space => exact h.congr rfl rfl rfl rfl rfl rfl rfl rfl

end DBImpl

end TelecomSuite.LevelDb
