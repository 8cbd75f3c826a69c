import TelecomSuite.LevelDb.Committed

/-!
# Snapshots

`Get` of `db/db_impl.cc` takes the tables that there are, lets go of the mutex and reads, while
writers go on. `get_snapshot`: what it finds at a snapshot is what was committed when the snapshot
was taken. `write_groups`: the calls of `Write` leave in the order in which they came.
-/

namespace TelecomSuite.LevelDb

open Transition LeaderQueue Versions

namespace DBImpl

variable {cmp : Comparator} {s s' s₁ : DBImpl cmp} {t : ℕ} {g : Group} {base : List MemTable.Write}

/-- After `Open`, with what is in the tables already. -/
structure Initial (base : List MemTable.Write) (s : DBImpl cmp) : Prop where
  idle : ∀ t, s.pc t = .idle
  writers : s.writers = []
  entered : s.entered = []
  history : s.history = []
  tmp : s.tmpBatch = .clear
  stored : s.stored = base
  ordered : Ordered base
  le_last : ∀ v ∈ base, v.seq ≤ s.lastSequence
  max : s.lastSequence ≤ kMaxSequenceNumber
  version : ∀ f ∈ s.version, Ordered f.writes
  table : ∀ i, Ordered (s.table i).writes
  tables : ∀ i, s.mem < i → (s.table i).writes = []
  imm : s.imm = none
  immLogfile : s.immLogfile = none
  logfile : ∃ room, s.logfile = .new room (s.lastSequence + 1)

/-- What holds in every state that is reached. -/
structure Inv (base : List MemTable.Write) (s : DBImpl cmp) : Prop where
  queue : s.queue.Inv
  grouped : s.Grouped
  kept : s.Kept base

/-- At first the queue is empty. -/
theorem Initial.queue (h : s.Initial base) : s.queue.Initial := by
  refine ⟨fun t => ?_, h.writers, h.entered, congrArg (List.map _) h.history⟩
  rw [role_queue (h.idle t)]
  rfl

/-- What holds in every state holds at first. -/
theorem Initial.inv (h : s.Initial base) : s.Inv base := by
  have hquiet : s.Quiet := fun t => by
    rw [h.idle t]
    rfl
  have hcommitted : s.committed = [] := by
    rw [committed, h.history]
    rfl
  refine ⟨h.queue.inv, hquiet.grouped (fun t ht => ?_) h.tmp, ?_, ?_, ?_, ?_, h.max, h.version,
    h.table, h.tables, fun i hi => ?_⟩
  · rw [h.writers] at ht
    cases ht
  · rw [h.stored, hcommitted, hquiet.inflight, List.append_nil, List.append_nil]
  · rw [h.stored]
    exact h.ordered.1
  · rw [hcommitted, List.append_nil]
    exact h.ordered
  · rw [hcommitted, List.append_nil]
    exact h.le_last
  · rw [h.imm] at hi
    cases hi

/-- The state with one table in memory. -/
def opened (mem : Filled cmp) (lastSequence : ℕ) (room : Option ℕ) : DBImpl cmp where
  writer := fun _ => ⟨none, false, .ok, false⟩
  pc := fun _ => .idle
  writers := []
  tmpBatch := .clear
  lastSequence := lastSequence
  bgError := .ok
  level0 := 0
  logfile := .new room (lastSequence + 1)
  immLogfile := none
  table := Function.update (fun _ => .empty) 0 mem
  mem := 0
  imm := none
  version := []
  entered := []
  history := []

/-- A state with one table in memory can be a first one. -/
theorem opened_initial {mem : Filled cmp} {lastSequence : ℕ} (hmem : Ordered mem.writes)
    (hlast : ∀ v ∈ mem.writes, v.seq ≤ lastSequence) (hmax : lastSequence ≤ kMaxSequenceNumber)
    (room : Option ℕ) : (opened mem lastSequence room).Initial mem.writes := by
  let table : ℕ → Filled cmp := Function.update (fun _ => .empty) 0 mem
  have hzero : table 0 = mem := Function.update_self 0 mem fun _ => (.empty : Filled cmp)
  have hnext {i : ℕ} (hi : 0 < i) : table i = .empty := Function.update_of_ne (Nat.ne_of_gt hi) _ _
  refine ⟨fun _ => rfl, rfl, rfl, rfl, rfl, congrArg Filled.writes hzero, hmem, hlast, hmax,
    fun f hf => (by cases hf), fun i => ?_, fun i hi => congrArg Filled.writes (hnext hi), rfl,
    rfl, ⟨room, rfl⟩⟩
  rcases Nat.eq_zero_or_pos i with rfl | hi
  · change Ordered (table 0).writes
    rwa [hzero]
  · change Ordered (table i).writes
    rw [hnext hi]
    exact ordered_nil

/-- So can the state of a new database. -/
theorem empty_initial (room : Option ℕ) :
    (opened (.empty : Filled cmp) 0 room).Initial [] :=
  @opened_initial cmp .empty 0 ordered_nil (fun _ hv => absurd hv List.not_mem_nil)
    (Nat.zero_le _) room

/-! ## What later states keep -/

/-- Old tables stay, the newest one gets newer writes, and so does what is committed. -/
structure Grows (s s' : DBImpl cmp) : Prop where
  last : s.lastSequence ≤ s'.lastSequence
  mem : s.mem ≤ s'.mem
  old : ∀ i, i < s.mem → s'.table i = s.table i
  newest : ∃ new, (s'.table s.mem).writes = (s.table s.mem).writes ++ new ∧
    ∀ v ∈ new, s.lastSequence < v.seq
  committed : ∃ new, s'.committed = s.committed ++ new ∧ ∀ v ∈ new, s.lastSequence < v.seq

/-- Steps that change neither the tables in memory nor what is committed. -/
theorem Grows.of_eq (hlast : s'.lastSequence = s.lastSequence) (hmem : s.mem ≤ s'.mem)
    (htable : s'.table = s.table) (hcommitted : s'.committed = s.committed) : s.Grows s' where
  last := hlast.ge
  mem := hmem
  old := fun i _ => by rw [htable]
  newest := ⟨[], by rw [htable, List.append_nil], fun v hv => by cases hv⟩
  committed := ⟨[], by rw [hcommitted, List.append_nil], fun v hv => by cases hv⟩

/-- A state is as new as itself. -/
theorem Grows.refl (s : DBImpl cmp) : s.Grows s := .of_eq rfl (Nat.le_refl _) rfl rfl

/-- What later states keep, over two runs. -/
theorem Grows.trans (h : s.Grows s₁) (h' : s₁.Grows s') : s.Grows s' where
  last := h.last.trans h'.last
  mem := h.mem.trans h'.mem
  old := fun i hi => (h'.old i (hi.trans_le h.mem)).trans (h.old i hi)
  newest := by
    obtain ⟨new, hnew, hlt⟩ := h.newest
    rcases h.mem.eq_or_lt with heq | hmem
    · obtain ⟨new', hnew', hlt'⟩ := h'.newest
      rw [← heq, hnew, List.append_assoc] at hnew'
      refine ⟨new ++ new', hnew', fun v hv => ?_⟩
      rcases List.mem_append.1 hv with hv | hv
      · exact hlt v hv
      · exact h.last.trans_lt (hlt' v hv)
    · exact ⟨new, (congrArg Filled.writes (h'.old _ hmem)).trans hnew, hlt⟩
  committed := by
    obtain ⟨new, hnew, hlt⟩ := h.committed
    obtain ⟨new', hnew', hlt'⟩ := h'.committed
    rw [hnew, List.append_assoc] at hnew'
    refine ⟨new ++ new', hnew', fun v hv => ?_⟩
    rcases List.mem_append.1 hv with hv | hv
    · exact hlt v hv
    · exact h.last.trans_lt (hlt' v hv)

/-- A new table is behind the others. -/
theorem Roomy.grows (h : s.Roomy s₁) : s.Grows s₁ := by
  rcases h with rfl | ⟨-, room, rfl⟩
  · exact .refl s₁
  · exact .of_eq rfl (Nat.le_succ _) rfl rfl

variable {env : DbEnv cmp} {newFile : Except Status (Option ℕ)} {force allowDelay : Bool}

/-- What the front does before it logs changes nothing that is old. -/
theorem lead_grows (hfront : s.writers.head? = some t) :
    s.Grows (s.lead env newFile force allowDelay t) := by
  obtain ⟨s₁, hs₁, hlead⟩ := lead_cases env newFile force allowDelay t s
  refine hs₁.grows.trans ?_
  rcases hlead with ⟨force', allowDelay', -, hlead⟩ | ⟨batch, hbatch, -, hlead⟩ |
    ⟨status, hstatus, hlead⟩
  · rw [hlead]
    exact .of_eq rfl (Nat.le_refl _) rfl rfl
  · rw [hlead]
    exact .of_eq rfl (Nat.le_refl _) rfl rfl
  · have halone : (⟨upTo t s₁.writers, s₁.lastSequence + 1, status⟩ : Committed).writes s₁.writer =
        [] := by
      rcases hs₁ with rfl | ⟨-, room, rfl⟩
      · exact alone_writes hfront _ hstatus
      · exact alone_writes (s := s.switchMemTable room) hfront _ hstatus
    have hcommitted := leave_committed s₁ t t (s₁.lastSequence + 1) status
    rw [halone, List.append_nil] at hcommitted
    rw [hlead]
    refine .of_eq ?_ ?_ ?_ hcommitted <;> rw [leave_eq]

/-- A call that comes changes nothing that is old. -/
theorem enter_grows (hinv : s.queue.Inv) (hpc : s.pc t = .idle) (batch : Option WriteBatch)
    (sync : Bool) : s.Grows (s.enter env newFile t batch sync) := by
  have hgrows : s.Grows (s.arrive t batch sync) :=
    .of_eq rfl (Nat.le_refl _) rfl (arrive_committed hinv hpc batch sync)
  rw [enter]
  split_ifs with hfront
  · exact hgrows.trans (lead_grows hfront)
  · exact hgrows.trans (.of_eq rfl (Nat.le_refl _) rfl rfl)

/-- A group that leaves is newer than what was committed. -/
theorem finishWrite_grows (hgrouped : s.Grouped) {status : Status} {syncError : Bool}
    (hpc : s.pc t = .finish g status syncError) :
    s.Grows (s.finishWrite t g status syncError) := by
  have hg : (s.pc t).group = some g := by
    rw [hpc]
    rfl
  have hok := hgrouped.group t g hg
  have hsequence := hok.sequence
  rw [finishWrite_eq]
  refine ⟨?_, ?_, fun i _ => ?_, ⟨[], ?_, fun v hv => by cases hv⟩, ⟨_, leave_committed _ _ _ _ _,
    fun v hv => ?_⟩⟩
  · rw [leave_eq]
    exact hok.number.ge.trans' (Nat.le_add_right _ _)
  · rw [leave_eq]
  · rw [leave_eq]
  · rw [leave_eq, List.append_nil]
  · have hle : g.updates.sequence ≤ v.seq := Committed.first_le hv
    omega

variable [Std.TransCmp cmp]

/-- What is inserted is newer than what was committed. -/
theorem insertOne_grows (hgrouped : s.Grouped) {input : Bytes} {sequence found : ℕ}
    (hpc : s.pc t = .insert g input sequence found) :
    s.Grows (s.insertOne t g input sequence found) := by
  have hg : (s.pc t).group = some g := by
    rw [hpc]
    rfl
  obtain ⟨ops₁, ops₂, -, -, hsequence, -⟩ := hgrouped.inserting t g input sequence found hpc
  rw [insertOne]
  by_cases hnil : input = []
  · rw [if_pos hnil]
    exact .of_eq rfl (Nat.le_refl _) rfl rfl
  · rw [if_neg hnil]
    split
    next op rest hread =>
      refine ⟨Nat.le_refl _, Nat.le_refl _, fun i hi => Function.update_of_ne hi.ne _ _,
        ⟨[op.write sequence], ?_, fun v hv => ?_⟩,
        ⟨[], (List.append_nil _).symm, fun v hv => by cases hv⟩⟩
      · dsimp only
        rw [Function.update_self]
        rfl
      · rw [List.mem_singleton.1 hv, op.write_seq, hsequence]
        omega
    next => exact .of_eq rfl (Nat.le_refl _) rfl rfl

/-- Every step only adds newer writes. -/
theorem grows_step {e : Event} (h : s.Inv base) (hstep : s.step env e = some s') :
    s.Grows s' := by
  cases stepped hstep with
  | enter hpc => exact enter_grows h.queue hpc _ _
  | wake hpc =>
    rw [wake]
    split_ifs with hdone hfront
    · exact .of_eq rfl (Nat.le_refl _) rfl rfl
    · exact lead_grows hfront
    · exact .of_eq rfl (Nat.le_refl _) rfl rfl
  | resume hpc => exact lead_grows (h.queue.leading _ (role_queue hpc))
  | addRecord hpc =>
    rw [addRecord]
    dsimp only
    split_ifs <;> exact .of_eq rfl (Nat.le_refl _) rfl rfl
  | sync hpc =>
    rw [syncLog]
    split_ifs <;> exact .of_eq rfl (Nat.le_refl _) rfl rfl
  | insert hpc => exact insertOne_grows h.grouped hpc
  | finish hpc => exact finishWrite_grows h.grouped hpc
  | compactMemTable himm =>
    rw [compactMemTable, recordBackgroundError_eq]
    split_ifs <;> exact .of_eq rfl (Nat.le_refl _) rfl rfl
  | background =>
    rw [recordBackgroundError_eq]
    split_ifs <;> exact .of_eq rfl (Nat.le_refl _) rfl rfl
  | space => exact .of_eq rfl (Nat.le_refl _) rfl rfl

/-! ## Runs -/

/-- The runs of a database with calls of `Write` from any number of threads. -/
def system (env : DbEnv cmp) (base : List MemTable.Write) : LTS (DBImpl cmp) Event where
  init := Initial base
  step := fun s e s' => s.step env e = some s'

/-- The runs in which the callers keep their promises. -/
abbrev promisedSystem (env : DbEnv cmp) (base : List MemTable.Write) : LTS (DBImpl cmp) Event :=
  (system env base).restrict Promised

/-- The invariant of the queue holds in every reachable state. -/
theorem queue_inductive : (system env base).Inductive fun s => s.queue.Inv where
  init := fun _ h => h.queue.inv
  step := fun _ _ _ hstep h => by
    obtain ⟨es, hrun⟩ := step_queue h hstep
    exact Queue.inductive_inv.run hrun h

/-- The invariants hold in every reachable state. -/
theorem inv_inductive : (promisedSystem env base).Inductive (Inv base) where
  init := fun _ h => h.inv
  step := fun s e s' hstep h => by
    obtain ⟨es, hrun⟩ := step_queue h.queue hstep.1
    exact ⟨Queue.inductive_inv.run hrun h.queue, grouped_step h.grouped h.queue hstep.2 hstep.1,
      kept_step h.kept h.grouped h.queue hstep.1⟩

/-- Every run only adds newer writes. -/
theorem grows_run {es : List Event} (hrun : (promisedSystem env base).Run s es s')
    (h : s.Inv base) : s.Grows s' := by
  induction hrun with
  | nil s => exact .refl s
  | cons hstep _ ih => exact (grows_step h hstep.1).trans (ih (inv_inductive.step _ _ _ hstep h))

/-! ## A run -/

/-- A batch that a call comes with is well formed. -/
def Event.WellFormed : Event → Prop
  | .enter _ (some b) _ _ => b.WellFormed
  | _ => True

/-- A step, as long as there are sequence numbers. -/
def promisedStep (env : DbEnv cmp) (s : DBImpl cmp) (e : Event) : Option (DBImpl cmp) :=
  if s.lastSequence + 2 ^ 31 ≤ kMaxSequenceNumber then s.step env e else none

/-- A step with a well-formed batch and enough numbers is one of the promised ones. -/
theorem promised_of_step {e : Event} (he : e.WellFormed) (h : promisedStep env s e = some s') :
    (promisedSystem env base).step s e s' := by
  rw [promisedStep] at h
  split_ifs at h with hroom
  refine ⟨h, hroom, fun t b sync newFile heq => ?_⟩
  rw [heq] at he
  exact he

/-- What such steps compute is a run of the promised system. -/
theorem promised_replay {es : List Event} (hes : ∀ e ∈ es, e.WellFormed)
    (h : (es.foldlM (promisedStep env) s).isSome) :
    (promisedSystem env base).Run s es (LTS.replay (promisedStep env) s es) :=
  .replay (fun _ e he _ => promised_of_step (hes e he)) h

/-- Any table has room. -/
def smallEnv : DbEnv Slice.compare := ⟨⟨false, 10, false⟩, fun _ => 0⟩

/-- Call 1 writes, and while it does so the calls 2 and 3 come and wait. -/
def firstGroup : List Event :=
  [.enter 1 (some (WriteBatch.clear.put [1] [2])) true (.ok none),
    .enter 2 (some (WriteBatch.clear.put [1] [3])) true (.ok none),
    .enter 3 (some (WriteBatch.clear.put [2] [4])) false (.ok none),
    .addRecord 1 (.ioError ""), .sync 1 .ok, .insert 1, .insert 1, .finish 1]

/-- Call 2 writes for call 3 too, and the calls 4, a manual compaction, and 5 come. -/
def secondGroup : List Event :=
  [.wake 2 (.ok none), .enter 4 none false (.ok none),
    .enter 5 (some (WriteBatch.clear.put [5] [6])) true (.ok none),
    .addRecord 2 (.ioError ""), .sync 2 .ok, .insert 2, .insert 2, .insert 2, .finish 2]

/-- Call 4 makes a new table, and the old one is written. -/
def switching : List Event := [.wake 4 (.ok none), .compactMemTable .ok 1]

/-- A batch with one `Put` of single bytes is well formed. -/
theorem put_byte_wellFormed (key value : UInt8) :
    (WriteBatch.clear.put [key] [value]).WellFormed :=
  WriteBatch.put_wellFormed [key] [value] (by simp) (by simp)

/-- The batches of these runs are well formed. -/
theorem run_wellFormed : ∀ e ∈ firstGroup ++ secondGroup ++ switching, e.WellFormed := by
  simp [firstGroup, secondGroup, switching, Event.WellFormed, put_byte_wellFormed]

/-! ## The order in which calls leave -/

/-- **Groups.** The calls leave the queue in the order in which they came, each in one group, and
return the status of this group. Nobody but the call at the front does anything for the queue, and
this call has been signaled or is at work. -/
theorem write_groups (hs : (system env base).Reachable s) :
    s.entered.Nodup ∧ s.entered = s.history.flatMap (·.members) ++ s.writers ∧
      (∀ t status, s.pc t = .returned status → ∃ c ∈ s.history, t ∈ c.members ∧ c.status = status) ∧
      (∀ c ∈ s.history, ∀ t ∈ c.members, s.pc t = .returned c.status ∨
        s.pc t = .wait true ∧ (s.writer t).done ∧ (s.writer t).status = c.status) ∧
      (∀ t, s.writers.head? = some t →
        s.pc t = .wait true ∧ (s.writer t).done = false ∨ (s.pc t).working) ∧
      ∀ t ∈ s.writers.tail, ∃ signaled, s.pc t = .wait signaled ∧ (s.writer t).done = false := by
  have hinv := queue_inductive.reachable hs
  refine ⟨hinv.nodup, ?_, fun t status ht => ?_, fun c hc t ht => ?_, fun t hfront => ?_,
    fun t ht => ?_⟩
  · have hentered := hinv.entered
    rwa [queue, List.flatMap_map] at hentered
  · obtain ⟨g, hg, hmem, hstatus⟩ := hinv.returned (role_queue ht)
    obtain ⟨c, hc, rfl⟩ := List.mem_map.1 hg
    exact ⟨c, hc, hmem, hstatus⟩
  · have hrole := hinv.group (c.members, c.status)
      (List.mem_map_of_mem (f := fun g : Committed => (g.members, g.status)) hc) t ht
    rcases hrole with hrole | hrole
    · exact Or.inr (Pc.role_eq_told hrole)
    · exact Or.inl (Pc.role_eq_returned hrole)
  · exact (hinv.front t hfront).imp Pc.role_eq_waiting Pc.working_of_role
  · cases hwriters : s.writers with
    | nil =>
      rw [hwriters] at ht
      cases ht
    | cons front rest =>
      have hnodup := hinv.queue_nodup
      have hnodup' : (front :: rest).Nodup := hwriters ▸ hnodup
      rw [hwriters] at ht
      have hne : t ≠ front := fun heq => (List.nodup_cons.1 hnodup').1 (heq ▸ ht)
      have hmem : t ∈ s.queue.queue := by
        change t ∈ s.writers
        rw [hwriters]
        exact List.mem_cons_of_mem front ht
      rcases hinv.queued t hmem with ⟨signaled, hrole⟩ | hrole
      · exact ⟨signaled, Pc.role_eq_waiting hrole⟩
      · have hhead := hinv.leading t hrole
        change s.writers.head? = some t at hhead
        rw [hwriters] at hhead
        exact absurd (Option.some.inj hhead).symm hne

/-- Two calls have left in one group, the call at the front was signaled, and one waits behind
it. -/
theorem write_groups_second :
    let s := LTS.replay (step smallEnv) (opened .empty 0 none) (firstGroup ++ secondGroup)
    s.history = [⟨[1], 1, .ok⟩, ⟨[2, 3], 2, .ok⟩] ∧ s.writers = [4, 5] ∧
      s.entered = s.history.flatMap (·.members) ++ s.writers ∧
      (s.pc 3 = .returned .ok ∨
        s.pc 3 = .wait true ∧ (s.writer 3).done ∧ (s.writer 3).status = .ok) ∧
      (s.pc 4 = .wait true ∧ (s.writer 4).done = false ∨ (s.pc 4).working) ∧
      ∃ signaled, s.pc 5 = .wait signaled ∧ (s.writer 5).done = false := by
  intro s
  have hhistory : s.history = [⟨[1], 1, .ok⟩, ⟨[2, 3], 2, .ok⟩] := by decide +kernel
  have hwriters : s.writers = [4, 5] := by decide +kernel
  have hs : (system smallEnv []).Reachable s :=
    ⟨_, _, empty_initial none, .replay (fun _ _ _ _ h => h) (by decide +kernel)⟩
  obtain ⟨-, hentered, -, hgroup, hfront, hbehind⟩ := write_groups hs
  refine ⟨hhistory, hwriters, hentered, ?_, ?_, ?_⟩
  · exact hgroup ⟨[2, 3], 2, .ok⟩ (hhistory ▸ by decide) 3 (by decide)
  · exact hfront 4 (hwriters ▸ rfl)
  · exact hbehind 5 (hwriters ▸ by decide)

/-! ## Reading at a snapshot -/

/-- What `Get` takes while it has the mutex: the snapshot and the tables that there are. -/
structure Refs (cmp : Comparator) where
  snapshot : ℕ
  mem : ℕ
  imm : Option ℕ
  current : List (Filled cmp)

/-- What `Get` takes. Without a snapshot it reads at the last number. -/
def refs (s : DBImpl cmp) (snapshot : Option ℕ) : Refs cmp :=
  ⟨snapshot.getD s.lastSequence, s.mem, s.imm, s.version⟩

/-- What `Get` finds after that: a value, or that the key was deleted. The tables in memory may be
written to while it reads; `table` is each as it is when its turn comes. -/
def Refs.get (r : Refs cmp) (table : ℕ → MemTable cmp) (key : Bytes) : Option (Option Bytes) :=
  match (table r.mem).get key r.snapshot with
  | some found => some found
  | none =>
    match r.imm.bind fun imm => (table imm).get key r.snapshot with
    | some found => some found
    | none => r.current.findSome? (·.table.get key r.snapshot)

/-- The writes in the tables, in the order in which `Get` reads. -/
def sources (s : DBImpl cmp) : List (List MemTable.Write) :=
  (s.table s.mem).writes ::
    ((s.imm.map fun i => (s.table i).writes).toList ++ s.version.map (·.writes))

omit [Std.TransCmp cmp] in
/-- All that is stored, from the newest table to the oldest. -/
theorem sources_flatten (s : DBImpl cmp) : s.sources.reverse.flatten = s.stored := by
  rw [sources, stored, List.reverse_cons, List.reverse_append, ← List.map_reverse]
  cases s.imm <;> simp [List.flatMap]

/-- A table answers with the newest write that the snapshot sees. -/
theorem filled_get_eq {f : Filled cmp} (h : Ordered f.writes) {key : Bytes} {snapshot : ℕ}
    (hkey : key.length + 8 < 2 ^ 32) (hsnapshot : snapshot ≤ kMaxSequenceNumber) :
    f.table.get key snapshot = (newest cmp key snapshot f.writes).map (·.value) :=
  MemTable.get_eq f.holds h.2 (.of_increasing h.1) hkey hsnapshot

omit [Std.TransCmp cmp] in
/-- What is inserted already is newer than every snapshot. -/
theorem inflight_lt (h : s.Grouped) {v : MemTable.Write} (hv : v ∈ s.inflight) :
    s.lastSequence < v.seq := by
  rw [inflight] at hv
  cases hfront : s.writers.head? with
  | none =>
    rw [hfront] at hv
    cases hv
  | some t =>
    rw [hfront] at hv
    obtain ⟨g, hg, hle⟩ := Pc.le_inserted hv
    have hsequence := (h.group t g hg).sequence
    omega

omit [Std.TransCmp cmp] in
/-- The first table that knows the key answers. -/
theorem refs_get {table : ℕ → MemTable cmp} {key : Bytes} {snapshot : ℕ}
    (hmem : (table s.mem).get key snapshot =
      (newest cmp key snapshot (s.table s.mem).writes).map (·.value))
    (himm : ∀ i, s.imm = some i → (table i).get key snapshot =
      (newest cmp key snapshot (s.table i).writes).map (·.value))
    (hversion : ∀ f ∈ s.version, f.table.get key snapshot =
      (newest cmp key snapshot f.writes).map (·.value)) :
    (s.refs (some snapshot)).get table key =
      (s.sources.findSome? (newest cmp key snapshot)).map (·.value) := by
  have htables (fs : List (Filled cmp)) (hfs : ∀ f ∈ fs, f.table.get key snapshot =
      (newest cmp key snapshot f.writes).map (·.value)) :
      fs.findSome? (·.table.get key snapshot) =
        ((fs.map (·.writes)).findSome? (newest cmp key snapshot)).map (·.value) := by
    induction fs with
    | nil => rfl
    | cons f fs ih =>
      rw [List.findSome?_cons, List.map_cons, List.findSome?_cons, hfs f List.mem_cons_self,
        ih fun f' hf' => hfs f' (List.mem_cons_of_mem f hf')]
      cases newest cmp key snapshot f.writes <;> rfl
  rw [Refs.get, sources, List.findSome?_cons]
  dsimp only [refs, Option.getD_some]
  rw [hmem]
  cases newest cmp key snapshot (s.table s.mem).writes with
  | some v => rfl
  | none =>
    cases hi : s.imm with
    | none => exact htables s.version hversion
    | some i =>
      dsimp only [Option.map_none, Option.bind_some, Option.map_some, Option.toList]
      rw [himm i hi, List.singleton_append, List.findSome?_cons]
      cases newest cmp key snapshot (s.table i).writes with
      | some v => rfl
      | none => exact htables s.version hversion

/-- What was stored since a snapshot was taken is newer than the snapshot. -/
theorem newest_stored {s₀ : DBImpl cmp} (hinv₀ : s₀.Inv base) (hinv : s.Inv base)
    {es : List Event} (hrun : (promisedSystem env base).Run s₀ es s) {key : Bytes} :
    newest cmp key s₀.lastSequence s.stored =
      newest cmp key s₀.lastSequence (base ++ s₀.committed) := by
  have hgrows := grows_run hrun hinv₀
  obtain ⟨new, hnew, hlt⟩ := hgrows.committed
  rw [hinv.kept.stored,
    newest_append_hidden fun v hv => hgrows.last.trans_lt (inflight_lt hinv.grouped hv), hnew,
    ← List.append_assoc, newest_append_hidden hlt]

/-- **Snapshots.** A snapshot is taken, later a `Get` at this snapshot takes the tables that there
are then, and later still it reads them one after the other, while writers insert and tables are
switched and written. It finds what the newest of the writes that were committed when the snapshot
was taken says of the key. -/
theorem get_snapshot {s₀ : DBImpl cmp} (hs₀ : (promisedSystem env base).Reachable s₀)
    {es : List Event} (hrun : (promisedSystem env base).Run s₀ es s) {later : ℕ → DBImpl cmp}
    (hlater : ∀ i, ∃ es, (promisedSystem env base).Run s es (later i)) {key : Bytes}
    (hkey : key.length + 8 < 2 ^ 32) :
    (s.refs (some s₀.lastSequence)).get (fun i => ((later i).table i).table) key =
      (newest cmp key s₀.lastSequence (base ++ s₀.committed)).map (·.value) := by
  have hinv₀ := inv_inductive.reachable hs₀
  have hinv := inv_inductive.run hrun hinv₀
  have hgrows := grows_run hrun hinv₀
  have hsnapshot : s₀.lastSequence ≤ kMaxSequenceNumber := hinv₀.kept.max
  have htable (i : ℕ) : ((later i).table i).table.get key s₀.lastSequence =
      (newest cmp key s₀.lastSequence ((later i).table i).writes).map (·.value) := by
    obtain ⟨es', hrun'⟩ := hlater i
    exact filled_get_eq ((inv_inductive.run hrun' hinv).kept.table i) hkey hsnapshot
  have hread : (s.refs (some s₀.lastSequence)).get (fun i => ((later i).table i).table) key =
      (s.sources.findSome? (newest cmp key s₀.lastSequence)).map (·.value) := by
    refine refs_get ?mem ?imm fun f hf => filled_get_eq (hinv.kept.version f hf) hkey hsnapshot
    case mem =>
      obtain ⟨es', hrun'⟩ := hlater s.mem
      obtain ⟨new, hnew, hlt⟩ := (grows_run hrun' hinv).newest
      rw [htable, hnew, newest_append_hidden fun v hv => hgrows.last.trans_lt (hlt v hv)]
    case imm =>
      intro i hi
      obtain ⟨es', hrun'⟩ := hlater i
      rw [htable, (grows_run hrun' hinv).old i (hinv.kept.imm i hi)]
  have hincreasing := hinv.kept.increasing
  rw [← sources_flatten] at hincreasing
  rw [hread, findSome_newest_reverse hincreasing, sources_flatten, newest_stored hinv₀ hinv hrun]

omit [Std.TransCmp cmp] in
/-- The snapshot is taken when the first group has left. `Get` takes its tables when the second one
has, and reads them when they were switched and one of them is written. -/
theorem get_snapshot_second :
    let s₀ := LTS.replay (promisedStep smallEnv) (opened .empty 0 none) firstGroup
    let s := LTS.replay (promisedStep smallEnv) s₀ secondGroup
    let later := LTS.replay (promisedStep smallEnv) s switching
    s₀.lastSequence = 1 ∧ s.lastSequence = 3 ∧ later.version.length = 1 ∧
      (s.refs (some 1)).get (fun i => (later.table i).table) [1] = some (some [2]) := by
  intro s₀ s later
  have hs₀ : (promisedSystem smallEnv []).Run (opened .empty 0 none) firstGroup s₀ :=
    promised_replay (fun e he => run_wellFormed e (by simp [he])) (by decide +kernel)
  have hs : (promisedSystem smallEnv []).Run s₀ secondGroup s :=
    promised_replay (fun e he => run_wellFormed e (by simp [he])) (by decide +kernel)
  have hlater : (promisedSystem smallEnv []).Run s switching later :=
    promised_replay (fun e he => run_wellFormed e (by simp [he])) (by decide +kernel)
  have hlast : s₀.lastSequence = 1 := by decide +kernel
  have hkey : ([1] : Bytes).length + 8 < 2 ^ 32 := by decide
  have hget := get_snapshot ⟨_, _, empty_initial none, hs₀⟩ hs (fun _ => ⟨_, hlater⟩) hkey
  rw [hlast] at hget
  refine ⟨hlast, by decide +kernel, by decide +kernel, hget.trans ?_⟩
  decide +kernel

end DBImpl

end TelecomSuite.LevelDb
