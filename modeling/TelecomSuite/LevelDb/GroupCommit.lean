import TelecomSuite.Lib.LeaderQueue
import TelecomSuite.LevelDb.WriteQueue

/-!
# The group commit

What every run of the queue of writers keeps. Seen as a queue whose front works for others the calls
of `Write` make no other steps (`step_queue`).
-/

namespace TelecomSuite.LevelDb

open Transition LeaderQueue Versions

/-- What the place of a call in the code is in the queue. -/
def Pc.role (w : Writer) : Pc → Role Status
  | .idle => .outside
  | .wait b => if w.done then .told b w.status else .waiting b
  | .room _ _ => .leading
  | .log _ => .leading
  | .sync _ => .leading
  | .insert _ _ _ _ => .leading
  | .finish _ _ _ => .leading
  | .returned status => .returned status

/-- Who waits in the queue is at its condition variable, with no result yet. -/
theorem Pc.role_eq_waiting {w : Writer} {pc : Pc} {b : Bool} (h : pc.role w = .waiting b) :
    pc = .wait b ∧ w.done = false := by
  cases pc with
  | wait b' =>
    rw [Pc.role] at h
    split_ifs at h with hdone
    cases h
    exact ⟨rfl, Bool.eq_false_iff.2 hdone⟩
  | _ => cases h

/-- Who was told its result is at its condition variable, with the result in its writer. -/
theorem Pc.role_eq_told {w : Writer} {pc : Pc} {b : Bool} {status : Status}
    (h : pc.role w = .told b status) : pc = .wait b ∧ w.done ∧ w.status = status := by
  cases pc with
  | wait b' =>
    rw [Pc.role] at h
    split_ifs at h with hdone
    cases h
    exact ⟨rfl, hdone, rfl⟩
  | _ => cases h

/-- A call that has the front of the queue to itself. -/
def Pc.working : Pc → Bool
  | .idle | .wait _ | .returned _ => false
  | _ => true

/-- A call that works for others is somewhere between `MakeRoomForWrite` and its end. -/
theorem Pc.working_of_role {w : Writer} {pc : Pc} (h : pc.role w = .leading) : pc.working := by
  cases pc with
  | wait b =>
    rw [Pc.role] at h
    split_ifs at h
  | idle | returned status => cases h
  | _ => rfl

/-- Who returned is at the end of the code. -/
theorem Pc.role_eq_returned {w : Writer} {pc : Pc} {status : Status}
    (h : pc.role w = .returned status) : pc = .returned status := by
  cases pc with
  | wait b' =>
    rw [Pc.role] at h
    split_ifs at h
  | returned status' =>
    cases h
    rfl
  | _ => cases h

/-- A signal for the call is a signal for its role. -/
theorem Pc.role_signaled (w : Writer) (pc : Pc) : pc.signaled.role w = (pc.role w).signal := by
  cases pc with
  | wait b =>
    rw [Pc.signaled, Pc.role, Pc.role]
    split_ifs <;> rfl
  | _ => rfl

/-- A call that is told its result, for its role. -/
theorem Pc.role_told (w : Writer) (pc : Pc) (status : Status) :
    pc.signaled.role { w with status := status, done := true } = (pc.role w).tell status := by
  cases pc with
  | wait b =>
    rw [Pc.signaled, Pc.role, Pc.role, if_pos rfl]
    split_ifs <;> rfl
  | _ => rfl

/-- A second signal makes no difference. -/
theorem Pc.signaled_signaled (pc : Pc) : pc.signaled.signaled = pc.signaled := by
  cases pc <;> rfl

namespace DBImpl

variable {cmp : Comparator} {s s' : DBImpl cmp} {t : ℕ}

/-- The queue of writers. -/
def queue (s : DBImpl cmp) : Queue ℕ Status where
  role := fun t => (s.pc t).role (s.writer t)
  queue := s.writers
  entered := s.entered
  groups := s.history.map fun g => (g.members, g.status)

/-- The role of a call at a place. -/
theorem role_queue {pc : Pc} (h : s.pc t = pc) : s.queue.role t = pc.role (s.writer t) :=
  congrArg (Pc.role (s.writer t)) h

/-- The call is at its new place. -/
theorem goto_pc_self (s : DBImpl cmp) (t : ℕ) (pc : Pc) : (s.goto t pc).pc t = pc := by
  rw [goto]
  exact Function.update_self t pc s.pc

/-- The other calls stay where they are. -/
theorem goto_pc_of_ne (s : DBImpl cmp) {x : ℕ} (h : x ≠ t) (pc : Pc) :
    (s.goto t pc).pc x = s.pc x := by
  rw [goto]
  exact Function.update_of_ne h pc s.pc

/-- Only the error changes. -/
theorem recordBackgroundError_eq (s : DBImpl cmp) (status : Status) :
    s.recordBackgroundError status =
      { s with bgError := if s.bgError = .ok then status else s.bgError } := by
  rw [recordBackgroundError]
  split_ifs <;> rfl

/-- The end of a group leaves the queue with its last number set. -/
theorem finishWrite_eq (s : DBImpl cmp) (t : ℕ) (g : Group) (status : Status) (syncError : Bool) :
    s.finishWrite t g status syncError =
      ({ s with
        bgError := if syncError then (if s.bgError = .ok then status else s.bgError) else s.bgError
        tmpBatch := if g.isTmp then .clear else s.tmpBatch
        lastSequence := g.lastSequence } : DBImpl cmp).leave t g.lastWriter g.updates.sequence
          status := by
  rw [finishWrite, recordBackgroundError_eq]
  cases syncError <;> rfl

/-! ## Leaving the queue -/

/-- Several writers are taken out of the queue, and all but the leader are told the result. -/
theorem foldl_pop (leader : ℕ) (status : Status) (ms : List ℕ) (s : DBImpl cmp) :
    ms.foldl (pop leader status) s =
      { s with
        writers := s.writers.drop ms.length
        writer := fun t => if t ∈ ms ∧ t ≠ leader then
          { s.writer t with status := status, done := true } else s.writer t
        pc := fun t => if t ∈ ms ∧ t ≠ leader then (s.pc t).signaled else s.pc t } := by
  induction ms generalizing s with
  | nil => simp
  | cons m ms ih =>
    rw [List.foldl_cons, ih, pop]
    rcases eq_or_ne m leader with rfl | hm
    · rw [if_pos rfl]
      simp only [List.length_cons, List.mem_cons, List.drop_tail]
      congr 1 <;> funext t <;> rcases eq_or_ne t m with rfl | ht <;> simp [*]
    · rw [if_neg hm]
      simp only [signal, goto, List.length_cons, List.mem_cons, List.drop_tail]
      congr 1 <;> funext t <;> rcases eq_or_ne t m with rfl | ht <;>
        simp [*, Pc.signaled_signaled]

/-- Those that leave are the first ones of the queue. -/
theorem upTo_append (last : ℕ) (ts : List ℕ) :
    upTo last ts ++ ts.drop (upTo last ts).length = ts := by
  induction ts with
  | nil => rfl
  | cons t ts ih =>
    rw [upTo]
    split_ifs
    · rfl
    · rw [List.length_cons, List.cons_append, List.drop_succ_cons, ih]

/-- At least one leaves. -/
theorem upTo_ne_nil {ts : List ℕ} (last : ℕ) (h : ts ≠ []) : upTo last ts ≠ [] := by
  cases ts with
  | nil => exact absurd rfl h
  | cons t ts =>
    rw [upTo]
    split_ifs <;> exact List.cons_ne_nil _ _

/-- The state after a group has left. -/
theorem leave_eq (s : DBImpl cmp) (leader last first : ℕ) (status : Status) :
    s.leave leader last first status =
      { s with
        writers := s.writers.drop (upTo last s.writers).length
        writer := fun t => if t ∈ upTo last s.writers ∧ t ≠ leader then
          { s.writer t with status := status, done := true } else s.writer t
        pc := fun t => if t = leader then .returned status
          else if t ∈ upTo last s.writers ∨
            (s.writers.drop (upTo last s.writers).length).head? = some t then (s.pc t).signaled
          else s.pc t
        history := s.history ++ [⟨upTo last s.writers, first, status⟩] } := by
  rw [leave, foldl_pop]
  cases hrest : s.writers.drop (upTo last s.writers).length with
  | nil =>
    simp only [goto]
    congr 1
    funext t
    rcases eq_or_ne t leader with rfl | ht <;> simp [*]
  | cons front rest =>
    simp only [signal, goto]
    congr 1
    funext t
    rcases eq_or_ne t leader with rfl | ht
    · simp
    · rcases eq_or_ne t front with rfl | hfront
      · by_cases hmem : t ∈ upTo last s.writers <;> simp [*, Pc.signaled_signaled]
      · simp [*, hfront.symm]

/-- Leaving the queue, for the queue. -/
theorem leave_queue (s : DBImpl cmp) {t : ℕ} (last first : ℕ) (status : Status)
    (hfront : s.writers.head? = some t) : Queue.Step (s.queue.set t .leading)
      (.leave t (upTo last s.writers) status) (s.leave t last first status).queue := by
  have hne : s.writers ≠ [] := by
    intro hnil
    rw [hnil] at hfront
    cases hfront
  have hleading : (s.queue.set t .leading).role t = .leading := Queue.role_set_self _
  have hqueue : (s.leave t last first status).queue = (s.queue.set t .leading).leave t
      (upTo last s.writers) (s.writers.drop (upTo last s.writers).length) status := by
    rw [leave_eq, Queue.mk.injEq]
    refine ⟨funext fun x => ?_, rfl, rfl, List.map_append⟩
    rw [queue, Queue.leave]
    dsimp only
    rcases eq_or_ne x t with rfl | hx
    · rw [if_pos rfl, if_pos rfl]
      rfl
    · rw [if_neg hx, if_neg hx, Queue.role_set_of_ne hx]
      by_cases hmem : x ∈ upTo last s.writers
      · rw [if_pos (Or.inl hmem), if_pos ⟨hmem, hx⟩, if_pos hmem, Pc.role_told]
        rfl
      · rw [if_neg hmem, if_neg fun h => hmem h.1]
        by_cases hhead : (s.writers.drop (upTo last s.writers).length).head? = some x
        · rw [if_pos (Or.inr hhead), if_pos hhead, Pc.role_signaled]
          rfl
        · rw [if_neg (not_or.2 ⟨hmem, hhead⟩), if_neg hhead]
          rfl
  rw [hqueue]
  exact .leave hleading (upTo_append last s.writers).symm (upTo_ne_nil last hne)

/-! ## What the front does -/

variable {env : DbEnv cmp} {newFile : Except Status (Option ℕ)} {force allowDelay : Bool}

/-- With a table that is still to be written there is no new one. -/
theorem makeRoomForWrite_of_imm (himm : s.imm.isSome) :
    (s.makeRoomForWrite env newFile force allowDelay).2 = s := by
  unfold makeRoomForWrite
  split_ifs <;> rfl

/-- At most one new table is made before the mutex is let go. -/
theorem makeRoomForWrite_state :
    (s.makeRoomForWrite env newFile force allowDelay).2 = s ∨
      s.imm = none ∧ ∃ room,
        (s.makeRoomForWrite env newFile force allowDelay).2 = s.switchMemTable room := by
  unfold makeRoomForWrite
  split_ifs with hbg hdelay hroom himm hstop
  · exact Or.inl rfl
  · exact Or.inl rfl
  · exact Or.inl rfl
  · exact Or.inl rfl
  · exact Or.inl rfl
  · cases newFile with
    | error status => exact Or.inl rfl
    | ok room =>
      exact Or.inr ⟨Option.not_isSome_iff_eq_none.1 himm, room, makeRoomForWrite_of_imm rfl⟩

/-- There is room only if there was no error in the background. -/
theorem bgError_of_room (h : (s.makeRoomForWrite env newFile force allowDelay).1 = .inl .ok) :
    s.bgError = .ok := by
  by_contra hbg
  unfold makeRoomForWrite at h
  rw [if_pos hbg] at h
  exact hbg (Sum.inl.inj h)

/-- The state in which the front looks for followers. -/
def Roomy (s s₁ : DBImpl cmp) : Prop := s₁ = s ∨ s.imm = none ∧ ∃ room, s₁ = s.switchMemTable room

/-- What the front does in one step. -/
theorem lead_cases (env : DbEnv cmp) (newFile : Except Status (Option ℕ)) (force allowDelay : Bool)
    (t : ℕ) (s : DBImpl cmp) : ∃ s₁, s.Roomy s₁ ∧
      ((∃ force' allowDelay',
          (s.makeRoomForWrite env newFile force allowDelay).1 = .inr (force', allowDelay') ∧
          s.lead env newFile force allowDelay t = s₁.goto t (.room force' allowDelay')) ∨
        (∃ batch, (s.writer t).batch = some batch ∧ s.bgError = .ok ∧
          s.lead env newFile force allowDelay t =
            { s₁.goto t (.log (s₁.buildBatchGroup t batch)) with
              tmpBatch := if (s₁.buildBatchGroup t batch).isTmp then
                (s₁.buildBatchGroup t batch).updates else s₁.tmpBatch }) ∨
        ∃ status, (status = .ok → (s.writer t).batch = none) ∧
          s.lead env newFile force allowDelay t = s₁.leave t t (s₁.lastSequence + 1) status) := by
  have hstate : s.Roomy (s.makeRoomForWrite env newFile force allowDelay).2 :=
    makeRoomForWrite_state
  have hroom : (s.makeRoomForWrite env newFile force allowDelay).1 = .inl .ok → s.bgError = .ok :=
    bgError_of_room
  have hwriter : (s.makeRoomForWrite env newFile force allowDelay).2.writer = s.writer := by
    rcases hstate with h | ⟨-, room, h⟩
    · rw [h]
    · rw [h]
      rfl
  rw [lead]
  generalize s.makeRoomForWrite env newFile force allowDelay = r at hstate hroom hwriter
  obtain ⟨outcome, s₁⟩ := r
  refine ⟨s₁, hstate, ?_⟩
  dsimp only at hwriter ⊢
  cases outcome with
  | inr p => exact Or.inl ⟨p.1, p.2, rfl, rfl⟩
  | inl status =>
    dsimp only
    rw [hwriter]
    cases hbatch : (s.writer t).batch with
    | none => exact Or.inr (Or.inr ⟨status, fun _ => rfl, rfl⟩)
    | some batch =>
      dsimp only
      by_cases hok : status = .ok
      · rw [if_pos hok]
        exact Or.inr (Or.inl ⟨batch, rfl, hroom (hok ▸ rfl), rfl⟩)
      · rw [if_neg hok]
        exact Or.inr (Or.inr ⟨status, fun h => absurd h hok, rfl⟩)

/-- A new table does not change the queue. -/
theorem Roomy.queue {s₁ : DBImpl cmp} (h : s.Roomy s₁) : s₁.queue = s.queue := by
  rcases h with rfl | ⟨-, room, rfl⟩ <;> rfl

/-- Another place is another role. -/
theorem goto_queue (s : DBImpl cmp) (t : ℕ) (pc : Pc) :
    (s.goto t pc).queue = s.queue.set t (pc.role (s.writer t)) := by
  rw [queue, queue, goto, Queue.set]
  congr 1
  funext x
  rcases eq_or_ne x t with rfl | hx
  · simp only [Function.update_self]
  · simp only [Function.update_of_ne hx]

/-- What the front does keeps it at work, or lets its group leave the queue. -/
theorem lead_queue (env : DbEnv cmp) (newFile : Except Status (Option ℕ)) (force allowDelay : Bool)
    (hfront : s.writers.head? = some t) :
    (s.lead env newFile force allowDelay t).queue = s.queue.set t .leading ∨
      ∃ e, Queue.Step (s.queue.set t .leading) e
        (s.lead env newFile force allowDelay t).queue := by
  obtain ⟨s₁, hs₁, hlead⟩ := lead_cases env newFile force allowDelay t s
  have hqueue := hs₁.queue
  rcases hlead with ⟨force', allowDelay', -, hlead⟩ | ⟨batch, -, -, hlead⟩ | ⟨status, -, hlead⟩
  · refine Or.inl ?_
    rw [hlead, goto_queue, hqueue]
    rfl
  · refine Or.inl ?_
    have hgoto := goto_queue s₁ t (.log (s₁.buildBatchGroup t batch))
    rw [hqueue] at hgoto
    rw [hlead]
    exact hgoto
  · refine Or.inr ⟨.leave t (upTo t s₁.writers) status, ?_⟩
    have hfront₁ : s₁.writers.head? = some t := (congrArg (·.queue.head?) hqueue).trans hfront
    rw [hlead, ← hqueue]
    exact leave_queue s₁ _ _ status hfront₁

/-! ## Steps -/

/-- A call that goes on at the front. -/
theorem goto_leading {pc : Pc} (hrole : s.queue.role t = .leading)
    (hpc : pc.role (s.writer t) = .leading) : (s.goto t pc).queue = s.queue := by
  rw [goto_queue, hpc, Queue.set_self hrole]

/-- A call that has not come yet is in no group. -/
theorem arrive_writer (hinv : s.queue.Inv) (hpc : s.pc t = .idle) (batch : Option WriteBatch)
    (sync : Bool) {c : Committed} (hc : c ∈ s.history) {x : ℕ} (hx : x ∈ c.members) :
    (s.arrive t batch sync).writer x = s.writer x := by
  have hmem : x ∈ s.entered := hinv.mem_entered_of_group
    (List.mem_map_of_mem (f := fun g : Committed => (g.members, g.status)) hc) hx
  have hne : x ≠ t := fun heq => (hinv.outside t).1 (role_queue hpc) (heq ▸ hmem)
  exact Function.update_of_ne hne _ _

/-- A call that has not come yet is not in the queue. -/
theorem idle_not_mem (hinv : s.queue.Inv) (hpc : s.pc t = .idle) : t ∉ s.writers :=
  fun hmem => (hinv.outside t).1 (role_queue hpc) (hinv.mem_entered hmem)

/-- A call that is at the front when it comes finds the queue empty. -/
theorem arrive_front (hinv : s.queue.Inv) (hpc : s.pc t = .idle) {batch : Option WriteBatch}
    {sync : Bool} (hfront : (s.arrive t batch sync).writers.head? = some t) : s.writers = [] := by
  by_contra hne
  change (s.writers ++ [t]).head? = some t at hfront
  rw [List.head?_append_of_ne_nil _ hne] at hfront
  exact idle_not_mem hinv hpc (List.mem_of_mem_head? hfront)

/-- A call that comes, for the queue. It may lead and leave in the same step. -/
theorem enter_queue (hinv : s.queue.Inv) (hpc : s.pc t = .idle) (batch : Option WriteBatch)
    (sync : Bool) : ∃ es, (Queue.system : LTS (Queue ℕ Status) _).Run s.queue es
      (s.enter env newFile t batch sync).queue := by
  have hrole : s.queue.role t = .outside := role_queue hpc
  have henter : Queue.Step s.queue (.enter t) ((s.queue.push t).set t
      (if s.writers = [] then .leading else .waiting false)) := .enter hrole
  let s₁ := s.arrive t batch sync
  have hqueue (role : Role Status) : s₁.queue.set t role = (s.queue.push t).set t role := by
    rw [Queue.mk.injEq]
    refine ⟨funext fun x => ?_, rfl, rfl, rfl⟩
    rcases eq_or_ne x t with rfl | hx
    · rw [Queue.role_set_self, Queue.role_set_self]
    · rw [Queue.role_set_of_ne hx, Queue.role_set_of_ne hx]
      exact congrArg (Pc.role · (s.pc x)) (Function.update_of_ne hx _ _)
  by_cases hempty : s.writers = []
  · have hfront : s₁.writers.head? = some t := by
      change (s.writers ++ [t]).head? = some t
      rw [hempty]
      rfl
    rw [if_pos hempty, ← hqueue] at henter
    have hlead : s.enter env newFile t batch sync =
        s₁.lead env newFile batch.isNone batch.isSome t := if_pos hfront
    rw [hlead]
    rcases lead_queue env newFile batch.isNone batch.isSome hfront with hstay | ⟨e, hleave⟩
    · rw [hstay]
      exact ⟨_, .cons henter (.nil _)⟩
    · exact ⟨_, .cons henter (.cons hleave (.nil _))⟩
  · have hfront : s₁.writers.head? ≠ some t := fun hhead => hempty (arrive_front hinv hpc hhead)
    rw [if_neg hempty, ← hqueue] at henter
    have hwait : s.enter env newFile t batch sync = s₁.goto t (.wait false) := if_neg hfront
    have hrole₁ : Pc.role (s₁.writer t) (.wait false) = .waiting false := by
      rw [Pc.role, show s₁.writer t = ⟨batch, sync, .ok, false⟩ from Function.update_self t _ _]
      rfl
    rw [hwait, goto_queue, hrole₁]
    exact ⟨_, .cons henter (.nil _)⟩

/-- A call that wakes up, for the queue. It may lead and leave in the same step. -/
theorem wake_queue {b : Bool} (hpc : s.pc t = .wait b) :
    ∃ es, (Queue.system : LTS (Queue ℕ Status) _).Run s.queue es (s.wake env newFile t).queue := by
  rw [wake]
  split_ifs with hdone hfront
  · have hrole : s.queue.role t = .told b (s.writer t).status := by
      rw [role_queue hpc, Pc.role, if_pos hdone]
    rw [goto_queue]
    exact ⟨_, .cons (Queue.Step.told hrole) (.nil _)⟩
  · have hrole : s.queue.role t = .waiting b := by
      rw [role_queue hpc, Pc.role, if_neg hdone]
    have hstep := Queue.Step.front hrole hfront
    rcases lead_queue env newFile (s.writer t).batch.isNone (s.writer t).batch.isSome hfront
      with hstay | ⟨e, hleave⟩
    · rw [hstay]
      exact ⟨_, .cons hstep (.nil _)⟩
    · exact ⟨_, .cons hstep (.cons hleave (.nil _))⟩
  · have hrole : s.queue.role t = .waiting b := by
      rw [role_queue hpc, Pc.role, if_neg hdone]
    have hwait : Pc.role (s.writer t) (.wait false) = .waiting false := if_neg hdone
    rw [goto_queue, hwait]
    exact ⟨_, .cons (Queue.Step.again hrole hfront) (.nil _)⟩

variable [Std.TransCmp cmp]

/-- Every step is a step of the queue or two, or none. -/
theorem step_queue {e : Event} (hinv : s.queue.Inv) (h : s.step env e = some s') :
    ∃ es, (Queue.system : LTS (Queue ℕ Status) _).Run s.queue es s'.queue := by
  have hsame (hqueue : s'.queue = s.queue) :
      ∃ es, (Queue.system : LTS (Queue ℕ Status) _).Run s.queue es s'.queue :=
    ⟨[], hqueue ▸ .nil _⟩
  cases stepped h with
  | enter hpc => exact enter_queue hinv hpc _ _
  | wake hpc => exact wake_queue hpc
  | @resume t newFile force allowDelay hpc =>
    have hrole : s.queue.role t = .leading := role_queue hpc
    rcases lead_queue _ _ _ _ (hinv.leading _ hrole) with hstay | ⟨e, hleave⟩
    · exact hsame (hstay.trans (Queue.set_self hrole))
    · rw [Queue.set_self hrole] at hleave
      exact ⟨_, .cons hleave (.nil _)⟩
  | addRecord hpc =>
    refine hsame ?_
    rw [addRecord]
    dsimp only
    split_ifs <;> exact goto_leading (s := { s with logfile := _ }) (role_queue hpc) rfl
  | sync hpc =>
    refine hsame ?_
    rw [syncLog]
    split_ifs <;> exact goto_leading (role_queue hpc) rfl
  | @insert t g input sequence found hpc =>
    refine hsame ?_
    rw [insertOne]
    by_cases hinput : input = []
    · rw [if_pos hinput]
      exact goto_leading (role_queue hpc) rfl
    · rw [if_neg hinput]
      split <;> exact goto_leading (role_queue hpc) rfl
  | @finish t g status syncError hpc =>
    let s₁ : DBImpl cmp := { s with
      bgError := if syncError then (if s.bgError = .ok then status else s.bgError) else s.bgError
      tmpBatch := if g.isTmp then .clear else s.tmpBatch
      lastSequence := g.lastSequence }
    have hrole : s.queue.role t = .leading := role_queue hpc
    have hleave : Queue.Step (s.queue.set t .leading) _
        (s₁.leave t g.lastWriter g.updates.sequence status).queue :=
      leave_queue s₁ g.lastWriter g.updates.sequence status (hinv.leading t hrole)
    rw [Queue.set_self hrole] at hleave
    rw [finishWrite_eq]
    exact ⟨_, .cons hleave (.nil _)⟩
  | compactMemTable himm =>
    refine hsame ?_
    rw [compactMemTable, recordBackgroundError_eq]
    split_ifs <;> rfl
  | background =>
    refine hsame ?_
    rw [recordBackgroundError_eq]
    split_ifs <;> rfl
  | space => exact hsame rfl

end DBImpl

end TelecomSuite.LevelDb
