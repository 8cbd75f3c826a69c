import TelecomSuite.LevelDb.Snapshots

/-!
# No call waits for ever

From every state that is reached all calls can return without a new call and without a wake-up that
nobody signaled, if the disk and the background thread do their work (`write_returns`). A table
without entries fits into the write buffer, whose size is at least 64 KB.
-/

namespace TelecomSuite.LevelDb

open Transition LeaderQueue Versions

/-- A new table has room. -/
def DbEnv.HasRoom {cmp : Comparator} (env : DbEnv cmp) : Prop :=
  ∀ f : Filled cmp, f.writes = [] → env.approximateMemoryUsage f.table ≤ env.options.writeBufferSize

namespace DBImpl

variable {cmp : Comparator} {s s' s₁ : DBImpl cmp} {t : ℕ} {g : Group} {base : List MemTable.Write}

/-- The steps that are there without a new call, without more room on the disk and without a wake-up
in the queue for no reason. A writer that waits for room goes on without a signal here: it has slept
for a millisecond, or its wait on `bg_cv_` has ended. -/
def Pending (s : DBImpl cmp) : Event → Prop
  | .enter _ _ _ _ => False
  | .space _ => False
  | .wake t _ => s.pc t = .wait true
  | _ => True

/-- A table that is not in use yet is empty. -/
def Fresh (s : DBImpl cmp) : Prop := ∀ i, s.mem < i → (s.table i).writes = []

/-- Nothing in the background stands in the way of a write. -/
structure Settled (s : DBImpl cmp) : Prop where
  imm : s.imm = none
  level0 : s.level0 = 0

variable {env : DbEnv cmp} {newFile : Except Status (Option ℕ)} {force allowDelay : Bool}

/-- What the front does before it logs leaves the unused tables empty. -/
theorem lead_fresh (h : s.Fresh) : (s.lead env newFile force allowDelay t).Fresh := by
  obtain ⟨s₁, hs₁, hlead⟩ := lead_cases env newFile force allowDelay t s
  have hfresh : s₁.Fresh := by
    rcases hs₁ with rfl | ⟨-, room, rfl⟩
    · exact h
    · exact fun i hi => h i (Nat.lt_of_succ_lt hi)
  rcases hlead with ⟨force', allowDelay', -, hlead⟩ | ⟨batch, -, -, hlead⟩ | ⟨status, -, hlead⟩
  · rw [hlead]
    exact hfresh
  · rw [hlead]
    exact hfresh
  · rw [hlead, leave_eq]
    exact hfresh

/-! ## The front goes on -/

/-- With nothing in its way the front does not wait for room. -/
theorem makeRoomForWrite_settled (force allowDelay : Bool) (henv : env.HasRoom) (hfresh : s.Fresh)
    (hsettled : s.Settled) :
    ∃ status, (s.makeRoomForWrite env (.ok none) force allowDelay).1 = .inl status := by
  have hlevel0 : ¬ kL0_SlowdownWritesTrigger ≤ s.level0 := by
    rw [hsettled.level0]
    decide
  have hstop : ¬ kL0_StopWritesTrigger ≤ s.level0 := by
    rw [hsettled.level0]
    decide
  have himm : ¬ s.imm.isSome := by
    rw [hsettled.imm]
    exact Bool.false_ne_true
  have hroom :
      env.approximateMemoryUsage (s.table (s.mem + 1)).table ≤ env.options.writeBufferSize :=
    henv _ (hfresh _ (Nat.lt_succ_self _))
  unfold makeRoomForWrite
  by_cases hbg : s.bgError ≠ .ok
  · exact ⟨s.bgError, by rw [if_pos hbg]⟩
  rw [if_neg hbg, if_neg fun h => hlevel0 h.2]
  by_cases hfits : ¬ force ∧
      env.approximateMemoryUsage (s.table s.mem).table ≤ env.options.writeBufferSize
  · exact ⟨.ok, by rw [if_pos hfits]⟩
  rw [if_neg hfits, if_neg himm, if_neg hstop]
  dsimp only
  -- the new table is empty, and nothing is forced any more
  unfold makeRoomForWrite
  have hbg' : ¬ (s.switchMemTable none).bgError ≠ .ok := hbg
  have hlevel0' : ¬ kL0_SlowdownWritesTrigger ≤ (s.switchMemTable none).level0 := hlevel0
  have hnew : ¬ (false : Bool) = true ∧ env.approximateMemoryUsage
      ((s.switchMemTable none).table (s.switchMemTable none).mem).table ≤
        env.options.writeBufferSize := ⟨Bool.false_ne_true, hroom⟩
  exact ⟨.ok, by rw [if_neg hbg', if_neg fun h => hlevel0' h.2, if_pos hnew]⟩

/-- A run after which at least one call less is in the queue. -/
def Advances [Std.TransCmp cmp] (env : DbEnv cmp) (base : List MemTable.Write) (s : DBImpl cmp) :
    Prop :=
  ∃ es s', ((system env base).restrict Pending).Run s es s' ∧ s'.entered = s.entered ∧
    s'.writers.length < s.writers.length

/-- At least one call leaves the queue. -/
theorem leave_writers_lt {last first : ℕ} {status : Status} (hfront : s.writers.head? = some t) :
    (s.leave t last first status).writers.length < s.writers.length := by
  have hne : s.writers ≠ [] := by
    intro hnil
    rw [hnil] at hfront
    cases hfront
  have hpos := List.length_pos_of_ne_nil hne
  have htaken := List.length_pos_of_ne_nil (upTo_ne_nil last hne)
  rw [leave_eq, List.length_drop]
  omega

variable [Std.TransCmp cmp]

/-- A step that leaves the queue as it is, and then a run. -/
theorem Advances.step {e : Event} (hstep : s.step env e = some s₁) (hpending : s.Pending e)
    (hentered : s₁.entered = s.entered) (hwriters : s₁.writers = s.writers)
    (h : Advances env base s₁) : Advances env base s := by
  obtain ⟨es, s', hrun, hentered', hlt⟩ := h
  exact ⟨e :: es, s', .cons ⟨hstep, hpending⟩ hrun, hentered'.trans hentered, hwriters ▸ hlt⟩

/-- A step in which a group leaves. -/
theorem Advances.leave {e : Event} {last first : ℕ} {status : Status}
    (hfront : s.writers.head? = some t)
    (hstep : s.step env e = some (s₁.leave t last first status)) (hpending : s.Pending e)
    (hentered : s₁.entered = s.entered) (hwriters : s₁.writers = s.writers) :
    Advances env base s := by
  refine ⟨[e], _, .cons ⟨hstep, hpending⟩ (.nil _), ?_, ?_⟩
  · rw [leave_eq]
    exact hentered
  · rw [← hwriters]
    exact leave_writers_lt (hwriters ▸ hfront)

/-- A group that is done leaves. -/
theorem finish_advances (hfront : s.writers.head? = some t) {status : Status} {syncError : Bool}
    (hpc : s.pc t = .finish g status syncError) : Advances env base s := by
  have hstep : s.step env (.finish t) = some (s.finishWrite t g status syncError) := by
    rw [DBImpl.step, hpc]
  rw [finishWrite_eq] at hstep
  exact .leave hfront hstep trivial rfl rfl

/-- Every round takes a part of the input. -/
theorem insert_advances (hfront : s.writers.head? = some t) {input : Bytes} {sequence found : ℕ}
    (hpc : s.pc t = .insert g input sequence found) : Advances env base s := by
  induction hlength : input.length using Nat.strongRecOn generalizing s input sequence found with
  | ind n ih =>
    have hstep : s.step env (.insert t) = some (s.insertOne t g input sequence found) := by
      rw [DBImpl.step, hpc]
    rw [insertOne] at hstep
    by_cases hnil : input = []
    · rw [if_pos hnil] at hstep
      exact .step hstep trivial rfl rfl (finish_advances hfront (goto_pc_self s t _))
    · rw [if_neg hnil] at hstep
      cases hread : WriteBatch.readOp input with
      | error msg =>
        rw [hread] at hstep
        exact .step hstep trivial rfl rfl (finish_advances hfront (goto_pc_self s t _))
      | ok p =>
        rw [hread] at hstep
        have hlt := hlength ▸ WriteBatch.readOp_lt hread
        exact .step hstep trivial rfl rfl (ih _ hlt hfront (goto_pc_self s t _) rfl)

/-- A group whose batch is to be synced goes on to the inserts. -/
theorem sync_advances (hfront : s.writers.head? = some t) (hpc : s.pc t = .sync g) :
    Advances env base s := by
  have hstep : s.step env (.sync t .ok) = some (s.syncLog t g .ok) := by
    rw [DBImpl.step, hpc]
  exact .step hstep trivial rfl rfl (insert_advances hfront (goto_pc_self s t _))

/-- A group whose batch is to be logged goes on, or leaves with an error. -/
theorem log_advances (hfront : s.writers.head? = some t) (hpc : s.pc t = .log g) :
    Advances env base s := by
  have hstep : s.step env (.addRecord t (.corruption "")) =
      some (s.addRecord t g (.corruption "")) := by
    rw [DBImpl.step, hpc]
    rfl
  rw [addRecord] at hstep
  dsimp only at hstep
  split_ifs at hstep
  · exact .step hstep trivial rfl rfl (sync_advances hfront (goto_pc_self _ t _))
  · exact .step hstep trivial rfl rfl (insert_advances hfront (goto_pc_self _ t _))
  · exact .step hstep trivial rfl rfl (finish_advances hfront (goto_pc_self _ t _))

/-- The front does not wait for room, and goes on to log its group, or leaves. -/
theorem lead_advances (henv : env.HasRoom) (hfresh : s.Fresh) (hsettled : s.Settled)
    (hfront : s.writers.head? = some t) {e : Event} (hpending : s.Pending e)
    (hstep : s.step env e = some (s.lead env (.ok none) force allowDelay t)) :
    Advances env base s := by
  obtain ⟨s₁, hs₁, hlead⟩ := lead_cases env (.ok none) force allowDelay t s
  have hwriters : s₁.writers = s.writers := congrArg (·.queue) hs₁.queue
  have hentered : s₁.entered = s.entered := congrArg (·.entered) hs₁.queue
  rcases hlead with ⟨force', allowDelay', hroom, -⟩ | ⟨batch, -, -, hlead⟩ | ⟨status, -, hlead⟩
  · obtain ⟨status, hstatus⟩ := makeRoomForWrite_settled force allowDelay henv hfresh hsettled
    rw [hstatus] at hroom
    cases hroom
  · rw [hlead] at hstep
    exact .step hstep hpending hentered hwriters
      (log_advances (hwriters ▸ hfront) (goto_pc_self s₁ t _))
  · rw [hlead] at hstep
    exact .leave hfront hstep hpending hentered hwriters

/-- The background thread does its work first. -/
theorem settle (env : DbEnv cmp) (s : DBImpl cmp) :
    ∃ e s₁, s.step env e = some s₁ ∧ s.Pending e ∧ s₁.Settled ∧ s₁.pc = s.pc ∧
      s₁.writer = s.writer ∧ s₁.writers = s.writers ∧ s₁.entered = s.entered ∧
      s₁.table = s.table ∧ s₁.mem = s.mem := by
  cases himm : s.imm with
  | none =>
    exact ⟨.background .ok 0, { s with level0 := 0 }, rfl, trivial, ⟨himm, rfl⟩, rfl, rfl, rfl, rfl,
      rfl, rfl⟩
  | some imm =>
    refine ⟨.compactMemTable .ok 0, s.compactMemTable imm .ok 0, ?_, trivial, ⟨rfl, rfl⟩, rfl, rfl,
      rfl, rfl, rfl, rfl⟩
    rw [DBImpl.step, himm]
    rfl

/-- The call at the front gets out of the queue. -/
theorem front_advances (henv : env.HasRoom) (hinv : s.queue.Inv) (hfresh : s.Fresh)
    (hfront : s.writers.head? = some t) : Advances env base s := by
  obtain ⟨e, s₁, hstep, hpending, hsettled, hpc₁, hwriter₁, hwriters₁, hentered₁, htable₁, hmem₁⟩ :=
    settle env s
  have hfresh₁ : s₁.Fresh := by
    rw [Fresh, htable₁, hmem₁]
    exact hfresh
  have hfront₁ : s₁.writers.head? = some t := hwriters₁ ▸ hfront
  have hadvances (e' : Event) (hpending' : s₁.Pending e') (force allowDelay : Bool)
      (hlead : s₁.step env e' = some (s₁.lead env (.ok none) force allowDelay t)) :
      Advances env base s :=
    .step hstep hpending hentered₁ hwriters₁
      (lead_advances henv hfresh₁ hsettled hfront₁ hpending' hlead)
  rcases hinv.front t hfront with hrole | hrole
  · obtain ⟨hpc, hdone⟩ := Pc.role_eq_waiting hrole
    rw [← hpc₁] at hpc
    rw [← hwriter₁] at hdone
    refine hadvances (.wake t (.ok none)) hpc (s₁.writer t).batch.isNone
      (s₁.writer t).batch.isSome ?_
    rw [DBImpl.step, hpc]
    dsimp only
    rw [wake, hdone, if_neg Bool.false_ne_true, if_pos hfront₁]
  · cases hpc : s.pc t with
    | room force allowDelay =>
      refine hadvances (.resume t (.ok none)) trivial force allowDelay ?_
      rw [DBImpl.step, hpc₁, hpc]
    | log g => exact log_advances hfront hpc
    | sync g => exact sync_advances hfront hpc
    | insert g input sequence found => exact insert_advances hfront hpc
    | finish g status syncError => exact finish_advances hfront hpc
    | wait signaled =>
      change (s.pc t).role (s.writer t) = .leading at hrole
      rw [hpc, Pc.role] at hrole
      split_ifs at hrole
    | _ =>
      change (s.pc t).role (s.writer t) = .leading at hrole
      rw [hpc] at hrole
      cases hrole

/-- Every step leaves the unused tables empty. -/
theorem fresh_step {e : Event} (h : s.Fresh) (hstep : s.step env e = some s') : s'.Fresh := by
  cases stepped hstep with
  | @enter t batch sync newFile hpc =>
    rw [enter]
    split_ifs
    · exact lead_fresh h
    · exact h
  | wake hpc =>
    rw [wake]
    split_ifs
    · exact h
    · exact lead_fresh h
    · exact h
  | resume hpc => exact lead_fresh h
  | addRecord hpc =>
    rw [addRecord]
    dsimp only
    split_ifs <;> exact h
  | sync hpc =>
    rw [syncLog]
    split_ifs <;> exact h
  | @insert t g input sequence found hpc =>
    rw [insertOne]
    by_cases hnil : input = []
    · rw [if_pos hnil]
      exact h
    · rw [if_neg hnil]
      split
      · intro i hi
        exact (congrArg Filled.writes (Function.update_of_ne (Nat.ne_of_gt hi) _ _)).trans (h i hi)
      · exact h
  | finish hpc =>
    rw [finishWrite_eq, leave_eq]
    exact h
  | compactMemTable himm =>
    rw [compactMemTable, recordBackgroundError_eq]
    split_ifs <;> exact h
  | background =>
    rw [recordBackgroundError_eq]
    split_ifs <;> exact h
  | space => exact h

/-- The unused tables are empty in every reachable state. -/
theorem fresh_inductive : (system env base).Inductive Fresh where
  init := fun _ h => h.tables
  step := fun _ _ _ hstep h => fresh_step h hstep

/-! ## All calls return -/

/-- The queue gets empty. -/
theorem drains (base : List MemTable.Write) (henv : env.HasRoom) (hinv : s.queue.Inv)
    (hfresh : s.Fresh) :
    ∃ es s', ((system env base).restrict Pending).Run s es s' ∧ s'.entered = s.entered ∧
      s'.writers = [] := by
  induction hlength : s.writers.length using Nat.strongRecOn generalizing s with
  | ind n ih =>
    cases hfront : s.writers.head? with
    | none => exact ⟨[], s, .nil s, rfl, List.head?_eq_none_iff.1 hfront⟩
    | some t =>
      obtain ⟨es, s₁, hrun, hentered, hlt⟩ : Advances env base s :=
        front_advances henv hinv hfresh hfront
      obtain ⟨es', s', hrun', hentered', hnil⟩ := ih _ (hlength ▸ hlt)
        (queue_inductive.run hrun.of_restrict hinv) (fresh_inductive.run hrun.of_restrict hfresh) rfl
      exact ⟨es ++ es', s', hrun.append hrun', hentered'.trans hentered, hnil⟩

/-- With the queue empty, those that were told their result wake up one after the other. -/
theorem all_wake (hinv : s.queue.Inv) (hnil : s.writers = []) {ts : List ℕ}
    (hts : ∀ t ∈ ts, t ∈ s.entered) :
    ∃ es s', ((system env base).restrict Pending).Run s es s' ∧ s'.entered = s.entered ∧
      s'.writers = [] ∧ ∀ t ∈ ts, ∃ status, s'.pc t = .returned status := by
  induction ts with
  | nil => exact ⟨[], s, .nil s, rfl, hnil, fun t ht => by cases ht⟩
  | cons t ts ih =>
    obtain ⟨es, s₁, hrun, hentered, hnil₁, hreturned⟩ :=
      ih fun x hx => hts x (List.mem_cons_of_mem t hx)
    have hinv₁ := queue_inductive.run hrun.of_restrict hinv
    have hmem : t ∈ s₁.entered := hentered ▸ hts t List.mem_cons_self
    have hgroup := hinv₁.entered
    change s₁.entered = (s₁.history.map _).flatMap _ ++ s₁.writers at hgroup
    rw [hnil₁, List.append_nil] at hgroup
    obtain ⟨g, hg, ht⟩ := List.mem_flatMap.1 (hgroup ▸ hmem)
    rcases hinv₁.group g hg t ht with hrole | hrole
    · obtain ⟨hpc, hdone, hstatus⟩ := Pc.role_eq_told hrole
      have hstep : s₁.step env (.wake t (.ok none)) =
          some (s₁.goto t (.returned (s₁.writer t).status)) := by
        rw [DBImpl.step, hpc]
        dsimp only
        rw [wake, if_pos hdone]
      have hwake : ((system env base).restrict Pending).Run s₁ [.wake t (.ok none)]
          (s₁.goto t (.returned (s₁.writer t).status)) := .cons ⟨hstep, hpc⟩ (.nil _)
      refine ⟨_, _, hrun.append hwake, hentered, hnil₁, fun x hx => ?_⟩
      rcases eq_or_ne x t with rfl | hne
      · exact ⟨_, goto_pc_self s₁ x _⟩
      · obtain ⟨status, hx⟩ := hreturned x ((List.mem_cons.1 hx).resolve_left hne)
        exact ⟨status, (Function.update_of_ne hne _ _).trans hx⟩
    · refine ⟨es, s₁, hrun, hentered, hnil₁, fun x hx => ?_⟩
      rcases List.mem_cons.1 hx with rfl | hx
      · exact ⟨g.2, Pc.role_eq_returned hrole⟩
      · exact hreturned x hx

/-- **No call waits for ever.** -/
theorem write_returns (henv : env.HasRoom) (hs : (system env base).Reachable s) :
    ∃ es s', ((system env base).restrict Pending).Run s es s' ∧ s'.entered = s.entered ∧
      s'.writers = [] ∧ ∀ t ∈ s.entered, ∃ status, s'.pc t = .returned status := by
  have hinv := queue_inductive.reachable hs
  obtain ⟨es, s₁, hrun, hentered, hnil⟩ :=
    drains base henv hinv (fresh_inductive.reachable hs)
  obtain ⟨es', s', hrun', hentered', hnil', hreturned⟩ := all_wake
    (queue_inductive.run hrun.of_restrict hinv) hnil fun t ht => ht
  exact ⟨es ++ es', s', hrun.append hrun', hentered'.trans hentered, hnil', hentered ▸ hreturned⟩

omit [Std.TransCmp cmp] in
/-- One group has left, and four calls are to come back: the one at the front is in the middle of
its inserts for another one, and the last two came while it was at work. -/
theorem write_returns_second :
    let s := LTS.replay (step smallEnv) (opened .empty 0 none) (firstGroup ++ secondGroup.dropLast)
    s.history = [⟨[1], 1, .ok⟩] ∧ s.writers = [2, 3, 4, 5] ∧
      ∃ es s', ((system smallEnv []).restrict Pending).Run s es s' ∧ s'.entered = s.entered ∧
        s'.writers = [] ∧ ∀ t ∈ s.entered, ∃ status, s'.pc t = .returned status := by
  intro s
  have hs : (system smallEnv []).Reachable s :=
    ⟨_, _, empty_initial none, .replay (fun _ _ _ _ h => h) (by decide +kernel)⟩
  exact ⟨by decide +kernel, by decide +kernel, write_returns (fun f _ => Nat.zero_le _) hs⟩

end DBImpl

end TelecomSuite.LevelDb
