import Mathlib.Data.List.Nodup
import Mathlib.Data.List.Count
import Mathlib.Data.Nat.Basic
import Mathlib.Order.Basic
import TelecomSuite.Lib.Transition

/-!
# The scan thread and its workers

`CDMAService::startScan` in detail mode: in each round it puts one `EvtDealCDR` into the queue of
every worker, polls `isComplete`, which compares the number of finished `onCDMABill` with the number
of workers, and resets the counter. `CDMAService::stop` may run at any moment. For each worker it
sets `m_bStop`, puts a message to wake the worker, joins its thread and deletes it, and then it ends
the scan thread. A run of `system` is any interleaving of the scan thread, `stop` and the workers.

The counter is a barrier: a worker never has more than one `EvtDealCDR`, and all of a round's are
done when it is reset (`rounds_are_barriers`). But the polling loop waits for every worker that was
ever made. A worker whose `init` failed, or that sees `m_bStop` before its message, never adds its
action, and the loop and the `stop` that joins its thread go on for ever (`FailedInit.round_stuck`).
`Orderly` is when this does not happen (`rounds_complete`).
-/

namespace TelecomSuite.Export.Scan

open Transition

/-! ## Threads -/

/-- The messages of a worker: `EvtDealCDR`, and the one `stop` puts, which has no handler. -/
inductive Message
  | dealCDR
  | wake
  deriving DecidableEq

/-- Where a worker is in `BillProcess::run`: in `init`; before the test of `m_bStop`; in the `get`
of its queue; in `onMessage`; at the end. -/
inductive Pc
  | init
  | test
  | getting
  | handling (utm : Message)
  | ended
  deriving DecidableEq

/-- A worker, whether it is deleted, and how many runs of `onCDMABill` it has finished. -/
structure BillProcess where
  pc : Pc
  m_queue : List Message
  m_bStop : Bool
  deleted : Bool
  finished : Nat

/-- `EXPORT_PROCESS_QUEUE_LEN`. -/
def EXPORT_PROCESS_QUEUE_LEN : Nat := 4096

/-- `tryPut` of the bounded queue. -/
def BillProcess.process (p : BillProcess) (utm : Message) : BillProcess :=
  if p.m_queue.length < EXPORT_PROCESS_QUEUE_LEN then { p with m_queue := p.m_queue ++ [utm] }
  else p

/-- Where the scan thread is: before the configuration is opened; at the test of `m_scanExit`; in
the wait for the next round; in `post2CDMAProc`, with the workers left; in the polling loop; before
`resetAction`; at the end. With `crashed` it has used a worker that was deleted, with the workers
left. -/
inductive ScanAt (W : Type)
  | start
  | outer
  | waiting
  | posting (todo : List W)
  | polling
  | resetting
  | exited
  | crashed (todo : List W)

/-- Where `CDMAService::stop` is, with the workers left: not called; before `m_bStop` of the next
worker is set; before it is woken, joined and deleted; in the join of the scan thread; at the
end. -/
inductive StopAt (W : Type)
  | idle
  | stopping (todo : List W)
  | waking (w : W) (todo : List W)
  | joining (w : W) (todo : List W)
  | deleting (w : W) (todo : List W)
  | joiningScan
  | done

/-- The workers, in the order of the map. Each of them has counted itself in `m_threadcount`. -/
structure CDMAService (W : Type) where
  m_mapCDMAProc : List W
  nodup : m_mapCDMAProc.Nodup
  complete : ∀ w, w ∈ m_mapCDMAProc

/-- The number of workers. -/
def CDMAService.m_threadcount {W : Type} (svc : CDMAService W) : Nat := svc.m_mapCDMAProc.length

/-- All threads, and the number of the round. -/
structure State (W : Type) where
  proc : W → BillProcess
  m_doaction : Nat
  m_scanExit : Bool
  scan : ScanAt W
  stop : StopAt W
  round : Nat

/-- What happens: a worker is initialised, tests the flag, gets a message or handles it, and the
scanning thread and `stop` go on. -/
inductive Label (W : Type)
  | init (w : W) (ok : Bool)
  | test (w : W)
  | get (w : W)
  | handle (w : W)
  | opened (ok : Bool)
  | loop
  | wait
  | post (w : W)
  | posted
  | poll
  | reset
  | stop
  | flag (w : W)
  | wake (w : W)
  | join (w : W)
  | delete (w : W)
  | exitScan
  | joinScan

section
variable {W : Type} [DecidableEq W]

/-- The state with `p` for the worker `w`. -/
def State.set (s : State W) (w : W) (p : BillProcess) : State W :=
  { s with proc := Function.update s.proc w p }

/-- A worker changes, and the scanning thread is where it was. -/
@[simp] theorem State.set_scan (s : State W) (w : W) (p : BillProcess) :
    (s.set w p).scan = s.scan := rfl

/-- So is `stop`. -/
@[simp] theorem State.set_stop (s : State W) (w : W) (p : BillProcess) :
    (s.set w p).stop = s.stop := rfl

/-- So is the number of the round. -/
@[simp] theorem State.set_round (s : State W) (w : W) (p : BillProcess) :
    (s.set w p).round = s.round := rfl

@[simp] theorem State.set_self (s : State W) (w : W) (p : BillProcess) : (s.set w p).proc w = p :=
  Function.update_self _ _ _

/-- A worker changes, and the other ones are as they were. -/
theorem State.set_of_ne {v w : W} (h : v ≠ w) (s : State W) (p : BillProcess) :
    (s.set w p).proc v = s.proc v :=
  Function.update_of_ne h _ _

/-- `isComplete`: all workers have counted themselves. -/
def CDMAService.isComplete (svc : CDMAService W) (s : State W) : Bool :=
  s.m_doaction = svc.m_threadcount

/-- One step of a thread. -/
inductive Step (svc : CDMAService W) : State W → Label W → State W → Prop
  | init {s : State W} {w : W} {ok : Bool} : (s.proc w).pc = .init →
      Step svc s (.init w ok) (s.set w { s.proc w with pc := if ok then .test else .ended })
  | test {s : State W} {w : W} : (s.proc w).pc = .test →
      Step svc s (.test w)
        (s.set w { s.proc w with pc := if (s.proc w).m_bStop then .ended else .getting })
  | get {s : State W} {w : W} {utm : Message} {rest : List Message} : (s.proc w).pc = .getting →
      (s.proc w).m_queue = utm :: rest →
      Step svc s (.get w) (s.set w { s.proc w with pc := .handling utm, m_queue := rest })
  -- both ways out of `onCDMABill` call `addAction`
  | onCDMABill {s : State W} {w : W} : (s.proc w).pc = .handling .dealCDR →
      Step svc s (.handle w) { s.set w { s.proc w with
          pc := .test
          finished := (s.proc w).finished + 1 } with
        m_doaction := s.m_doaction + 1 }
  | onDefaultMessage {s : State W} {w : W} : (s.proc w).pc = .handling .wake →
      Step svc s (.handle w) (s.set w { s.proc w with pc := .test })
  | opened {s : State W} {ok : Bool} : s.scan = .start →
      Step svc s (.opened ok) { s with scan := if ok then .outer else .exited }
  | loop {s : State W} : s.scan = .outer →
      Step svc s .loop { s with scan := if s.m_scanExit then .exited else .waiting }
  | wait {s : State W} : s.scan = .waiting →
      Step svc s .wait { s with scan := .posting svc.m_mapCDMAProc, round := s.round + 1 }
  | post {s : State W} {w : W} {todo : List W} : s.scan = .posting (w :: todo) →
      (s.proc w).deleted = false →
      Step svc s (.post w) { s.set w ((s.proc w).process .dealCDR) with scan := .posting todo }
  | postDeleted {s : State W} {w : W} {todo : List W} : s.scan = .posting (w :: todo) →
      (s.proc w).deleted = true → Step svc s (.post w) { s with scan := .crashed (w :: todo) }
  | posted {s : State W} : s.scan = .posting [] → Step svc s .posted { s with scan := .polling }
  | poll {s : State W} : s.scan = .polling →
      Step svc s .poll { s with scan := if svc.isComplete s then .resetting else .polling }
  | reset {s : State W} : s.scan = .resetting →
      Step svc s .reset { s with scan := .outer, m_doaction := 0 }
  | stop {s : State W} : s.stop = .idle →
      Step svc s .stop { s with stop := .stopping svc.m_mapCDMAProc }
  | flag {s : State W} {w : W} {todo : List W} : s.stop = .stopping (w :: todo) →
      Step svc s (.flag w)
        { s.set w { s.proc w with m_bStop := true } with stop := .waking w todo }
  -- `put` waits while the queue is full
  | wake {s : State W} {w : W} {todo : List W} : s.stop = .waking w todo →
      (s.proc w).m_queue.length < EXPORT_PROCESS_QUEUE_LEN →
      Step svc s (.wake w) { s.set w { s.proc w with m_queue := (s.proc w).m_queue ++ [.wake] } with
        stop := .joining w todo }
  | join {s : State W} {w : W} {todo : List W} : s.stop = .joining w todo →
      (s.proc w).pc = .ended → Step svc s (.join w) { s with stop := .deleting w todo }
  | delete {s : State W} {w : W} {todo : List W} : s.stop = .deleting w todo →
      Step svc s (.delete w)
        { s.set w { s.proc w with deleted := true } with stop := .stopping todo }
  | exitScan {s : State W} : s.stop = .stopping [] →
      Step svc s .exitScan { s with m_scanExit := true, stop := .joiningScan }
  | joinScan {s : State W} : s.stop = .joiningScan → s.scan = .exited →
      Step svc s .joinScan { s with stop := .done }

/-- After `CDMAService::start`. -/
def initial : State W where
  proc _ := ⟨.init, [], false, false, 0⟩
  m_doaction := 0
  m_scanExit := false
  scan := .start
  stop := .idle
  round := 0

/-- The service as a transition system. -/
def system (svc : CDMAService W) : LTS (State W) (Label W) where
  init s := s = initial
  step := Step svc

end

/-! ## The barrier -/

section
variable {W : Type}

/-- How many `EvtDealCDR` the worker has pending or in progress. -/
def BillProcess.pending (p : BillProcess) : Nat :=
  p.m_queue.count .dealCDR + if p.pc = .handling .dealCDR then 1 else 0

/-- The workers that have not got their message of the round. -/
def ScanAt.todo : ScanAt W → List W
  | .posting todo | .crashed todo => todo
  | .start | .outer | .waiting | .polling | .resetting | .exited => []

/-- The workers that `stop` has not woken. -/
def StopAt.unwoken (svc : CDMAService W) : StopAt W → List W
  | .idle => svc.m_mapCDMAProc
  | .stopping todo | .joining _ todo | .deleting _ todo => todo
  | .waking w todo => w :: todo
  | .joiningScan | .done => []

/-- What the counter counts, by where the scan thread is. -/
def ScanAt.Counts (svc : CDMAService W) (s : State W) : ScanAt W → Prop
  | .start | .outer | .waiting | .exited => s.m_doaction = 0 ∧ ∀ w, (s.proc w).pending = 0
  | .posting _ | .polling | .crashed _ =>
    s.m_doaction = svc.m_mapCDMAProc.countP fun w => (s.proc w).finished = s.round
  | .resetting => s.m_doaction = svc.m_threadcount ∧ ∀ w, (s.proc w).pending = 0

/-- A worker in a round: it has still to get its message, or it has it or has finished with it. -/
def BillProcess.InRound (p : BillProcess) (round : Nat) (todo : Prop) : Prop :=
  (todo → p.finished + 1 = round ∧ p.pending = 0) ∧
    (¬ todo → p.finished + p.pending = round ∧ p.pending ≤ 1)

/-- The invariant of the barrier. -/
structure Barrier (svc : CDMAService W) (s : State W) : Prop where
  todo : s.scan.todo.Nodup
  inRound : ∀ w, (s.proc w).InRound s.round (w ∈ s.scan.todo)
  counts : s.scan.Counts svc s
  unwoken : (s.stop.unwoken svc).Nodup
  asleep : ∀ w ∈ s.stop.unwoken svc, (s.proc w).m_queue.count .wake = 0
  wakes : ∀ w, (s.proc w).m_queue.count .wake ≤ 1

variable {svc : CDMAService W} {s t : State W} {w : W} {p : BillProcess}

/-- A message is one of two. -/
theorem length_eq_count (q : List Message) : q.length = q.count .dealCDR + q.count .wake := by
  induction q with
  | nil => rfl
  | cons m q ih => cases m <;> simp [ih] <;> omega

/-- Only what is pending and what is finished counts. -/
theorem BillProcess.InRound.congr {p q : BillProcess} {round : Nat} {todo : Prop}
    (h : p.InRound round todo) (hpending : q.pending = p.pending)
    (hfinished : q.finished = p.finished) : q.InRound round todo := by
  unfold BillProcess.InRound at h ⊢
  rwa [hpending, hfinished]

/-- The part of the barrier that concerns only the workers' messages. -/
theorem Barrier.congr (h : Barrier svc s) (hscan : t.scan = s.scan) (hround : t.round = s.round)
    (hdo : t.m_doaction = s.m_doaction) (hunwoken : (t.stop.unwoken svc) <:+ s.stop.unwoken svc)
    (hpending : ∀ w, (t.proc w).pending = (s.proc w).pending)
    (hfinished : ∀ w, (t.proc w).finished = (s.proc w).finished)
    (hwake : ∀ w, (t.proc w).m_queue.count .wake ≤ (s.proc w).m_queue.count .wake) :
    Barrier svc t where
  todo := by rw [hscan]; exact h.todo
  inRound w := by
    rw [hscan, hround]
    exact (h.inRound w).congr (hpending w) (hfinished w)
  counts := by
    have hcounts := h.counts
    rw [hscan]
    revert hcounts
    cases s.scan <;> simp only [ScanAt.Counts, hdo, hround, hpending, hfinished] <;> exact id
  unwoken := h.unwoken.sublist hunwoken.sublist
  asleep w hw := Nat.le_zero.1 (le_trans (hwake w) (h.asleep w (hunwoken.subset hw)).le)
  wakes w := le_trans (hwake w) (h.wakes w)

/-- The scan thread moves. -/
theorem Barrier.goto {scan : ScanAt W} {m_doaction round : Nat} (h : Barrier svc s)
    (htodo : scan.todo.Nodup) (hin : ∀ w, (s.proc w).InRound round (w ∈ scan.todo))
    (hcounts : scan.Counts svc
      { s with scan := scan, m_doaction := m_doaction, round := round }) :
    Barrier svc { s with scan := scan, m_doaction := m_doaction, round := round } :=
  ⟨htodo, hin, hcounts, h.unwoken, h.asleep, h.wakes⟩

variable [DecidableEq W]

/-- A worker moves, and its messages stay as many. -/
theorem Barrier.set {stop : StopAt W} (h : Barrier svc s)
    (hunwoken : (stop.unwoken svc) <:+ s.stop.unwoken svc)
    (hpending : p.pending = (s.proc w).pending) (hfinished : p.finished = (s.proc w).finished)
    (hwake : p.m_queue.count .wake ≤ (s.proc w).m_queue.count .wake) :
    Barrier svc { s.set w p with stop := stop } := by
  have hproc : ∀ v, ((s.set w p).proc v).pending = (s.proc v).pending ∧
      ((s.set w p).proc v).finished = (s.proc v).finished ∧
      ((s.set w p).proc v).m_queue.count .wake ≤ (s.proc v).m_queue.count .wake := by
    intro v
    rcases eq_or_ne v w with rfl | hne
    · simp only [State.set_self]
      exact ⟨hpending, hfinished, hwake⟩
    · simp [State.set_of_ne hne]
  exact h.congr rfl rfl rfl hunwoken (fun v => (hproc v).1) (fun v => (hproc v).2.1)
    fun v => (hproc v).2.2

/-- One more worker of a list is counted. -/
theorem countP_succ {l : List W} {P Q : W → Bool} (hl : l.Nodup) (hw : w ∈ l) (hP : P w = false)
    (hQ : Q w = true) (hPQ : ∀ v, v ≠ w → Q v = P v) : l.countP Q = l.countP P + 1 := by
  have hperm := List.perm_cons_erase hw
  rw [hperm.countP_eq Q, hperm.countP_eq P, List.countP_cons, List.countP_cons, hP, hQ]
  have herase : (l.erase w).countP Q = (l.erase w).countP P := by
    refine List.countP_congr ?_
    intro v hv
    rw [hPQ v (hl.mem_erase_iff.1 hv).1]
  simp [herase]

/-- `addAction` at the end of `onCDMABill`. -/
theorem Barrier.onCDMABill (h : Barrier svc s) (hpc : (s.proc w).pc = .handling .dealCDR) :
    Barrier svc { s.set w { s.proc w with pc := .test, finished := (s.proc w).finished + 1 } with
      m_doaction := s.m_doaction + 1 } := by
  have hpending : (s.proc w).pending = (s.proc w).m_queue.count .dealCDR + 1 := by
    simp [BillProcess.pending, hpc]
  have hin := h.inRound w
  have htodo : w ∉ s.scan.todo := fun hmem => by
    have := (hin.1 hmem).2
    omega
  obtain ⟨hround, hone⟩ := hin.2 htodo
  refine ⟨h.todo, ?_, ?_, h.unwoken, ?_, ?_⟩
  · intro v
    rcases eq_or_ne v w with rfl | hne
    · simp only [State.set_self, State.set_round, BillProcess.InRound, BillProcess.pending]
      exact ⟨fun hmem => absurd hmem htodo, fun _ => by simp; omega⟩
    · rw [State.set_of_ne hne]
      exact h.inRound v
  · have hcounts := h.counts
    have hnone : ¬ ∀ v, (s.proc v).pending = 0 := fun hall => by
      have := hall w
      omega
    have hcount : (svc.m_mapCDMAProc.countP fun v =>
        ((s.set w { s.proc w with pc := .test, finished := (s.proc w).finished + 1 }).proc
          v).finished = s.round) =
        (svc.m_mapCDMAProc.countP fun v => (s.proc v).finished = s.round) + 1 := by
      refine countP_succ svc.nodup (svc.complete w) ?_ ?_ ?_
      · simp only [decide_eq_false_iff_not]
        omega
      · simp only [State.set_self, decide_eq_true_eq]
        omega
      · intro v hne
        simp only [State.set_of_ne hne]
    show s.scan.Counts _ _
    cases hscan : s.scan with
    | start | outer | waiting | exited | resetting =>
      rw [hscan] at hcounts
      exact absurd hcounts.2 hnone
    | posting | polling | crashed =>
      rw [hscan] at hcounts
      exact (congrArg (· + 1) hcounts).trans hcount.symm
  · intro v hv
    rcases eq_or_ne v w with rfl | hne
    · simpa only [State.set_self] using h.asleep v hv
    · simpa only [State.set_of_ne hne] using h.asleep v hv
  · intro v
    rcases eq_or_ne v w with rfl | hne
    · simpa only [State.set_self] using h.wakes v
    · simpa only [State.set_of_ne hne] using h.wakes v

/-- No worker has more than one message. -/
theorem Barrier.pending_le_one (h : Barrier svc s) (w : W) : (s.proc w).pending ≤ 1 := by
  by_cases hmem : w ∈ s.scan.todo
  · exact (((h.inRound w).1 hmem).2).le.trans (Nat.zero_le 1)
  · exact ((h.inRound w).2 hmem).2

/-- There is room in the queue of every worker. -/
theorem Barrier.room (h : Barrier svc s) (w : W) :
    (s.proc w).m_queue.length < EXPORT_PROCESS_QUEUE_LEN := by
  have hwake := h.wakes w
  have hdeal : (s.proc w).m_queue.count .dealCDR ≤ (s.proc w).pending := Nat.le_add_right _ _
  have hone := h.pending_le_one w
  rw [length_eq_count, EXPORT_PROCESS_QUEUE_LEN]
  omega

/-- The next worker gets its message. -/
theorem Barrier.post {todo : List W} (h : Barrier svc s) (hscan : s.scan = .posting (w :: todo)) :
    Barrier svc { s.set w ((s.proc w).process .dealCDR) with scan := .posting todo } := by
  have hprocess : (s.proc w).process .dealCDR =
      { s.proc w with m_queue := (s.proc w).m_queue ++ [.dealCDR] } := if_pos (h.room w)
  have htodo := h.todo
  have hin := h.inRound
  have hcounts := h.counts
  rw [hscan] at htodo hin hcounts
  obtain ⟨hw, htodo⟩ := List.nodup_cons.1 htodo
  obtain ⟨hround, hzero⟩ := (hin w).1 List.mem_cons_self
  rw [hprocess]
  refine ⟨htodo, ?_, ?_, h.unwoken, ?_, ?_⟩
  · intro v
    rcases eq_or_ne v w with rfl | hne
    · simp only [State.set_self, State.set_round, BillProcess.InRound, BillProcess.pending]
      refine ⟨fun hmem => absurd hmem hw, ?_⟩
      intro _
      simp only [BillProcess.pending] at hzero
      simp only [List.count_append, List.count_singleton_self]
      omega
    · have hv := hin v
      simp only [ScanAt.todo, List.mem_cons, hne, false_or] at hv
      simp only [State.set_of_ne hne]
      exact hv
  · show s.m_doaction = _
    rw [hcounts]
    refine List.countP_congr ?_
    intro v _
    rcases eq_or_ne v w with rfl | hne
    · simp [State.set_self]
    · simp [State.set_of_ne hne]
  · intro v hv
    rcases eq_or_ne v w with rfl | hne
    · simpa [State.set_self] using h.asleep v hv
    · simpa [State.set_of_ne hne] using h.asleep v hv
  · intro v
    rcases eq_or_ne v w with rfl | hne
    · simpa [State.set_self] using h.wakes v
    · simpa [State.set_of_ne hne] using h.wakes v

/-- `stop` wakes a worker, once. -/
theorem Barrier.wake {todo : List W} (h : Barrier svc s) (hstop : s.stop = .waking w todo) :
    Barrier svc { s.set w { s.proc w with m_queue := (s.proc w).m_queue ++ [.wake] } with
      stop := .joining w todo } := by
  have hunwoken := h.unwoken
  have hasleep := h.asleep
  rw [hstop] at hunwoken hasleep
  obtain ⟨hw, htodo⟩ := List.nodup_cons.1 hunwoken
  have hzero := hasleep w List.mem_cons_self
  have hsame : ∀ v, ((s.set w { s.proc w with
      m_queue := (s.proc w).m_queue ++ [.wake] }).proc v).pending = (s.proc v).pending ∧
      ((s.set w { s.proc w with
        m_queue := (s.proc w).m_queue ++ [.wake] }).proc v).finished = (s.proc v).finished := by
    intro v
    rcases eq_or_ne v w with rfl | hne
    · simp [State.set_self, BillProcess.pending]
    · simp [State.set_of_ne hne]
  refine ⟨h.todo, fun v => (h.inRound v).congr (hsame v).1 (hsame v).2, ?_, htodo,
    ?_, ?_⟩
  · have hcounts := h.counts
    show s.scan.Counts _ _
    revert hcounts
    cases s.scan <;> simp only [ScanAt.Counts, hsame] <;> exact id
  · intro v hv
    have hne : v ≠ w := fun heq => hw (heq ▸ hv)
    simpa [State.set_of_ne hne] using hasleep v (List.mem_cons_of_mem _ hv)
  · intro v
    rcases eq_or_ne v w with rfl | hne
    · simp [State.set_self, hzero]
    · simpa [State.set_of_ne hne] using h.wakes v

/-- **The barrier.** Every step of every thread keeps it. -/
theorem barrier_inductive : (system svc).Inductive (Barrier svc) where
  init s h := by
    subst h
    refine ⟨List.nodup_nil, fun w => ⟨fun hw => absurd hw List.not_mem_nil, ?_⟩,
      ⟨rfl, ?_⟩, svc.nodup, fun w _ => rfl, fun w => Nat.zero_le 1⟩
    · intro _
      exact ⟨rfl, Nat.zero_le 1⟩
    · intro w
      rfl
  step s a t hstep h := by
    cases hstep with
    | @init w ok hpc =>
      refine h.set (List.suffix_refl _) ?_ rfl le_rfl
      cases ok <;> simp [BillProcess.pending, hpc]
    | @test w hpc =>
      refine h.set (List.suffix_refl _) ?_ rfl le_rfl
      cases (s.proc w).m_bStop <;> simp [BillProcess.pending, hpc]
    | @get w utm rest hpc hqueue =>
      refine h.set (List.suffix_refl _) ?_ rfl ?_
      · cases utm <;> simp [BillProcess.pending, hpc, hqueue]
      · cases utm <;> simp [hqueue]
    | onCDMABill hpc => exact h.onCDMABill hpc
    | onDefaultMessage hpc =>
      refine h.set (List.suffix_refl _) ?_ rfl le_rfl
      simp [BillProcess.pending, hpc]
    | @opened ok hscan =>
      have hin := h.inRound
      have hcounts := h.counts
      rw [hscan] at hin hcounts
      cases ok <;> exact h.goto List.nodup_nil hin hcounts
    | loop hscan =>
      have hin := h.inRound
      have hcounts := h.counts
      rw [hscan] at hin hcounts
      split <;> exact h.goto List.nodup_nil hin hcounts
    | wait hscan =>
      have hin := h.inRound
      have hcounts := h.counts
      rw [hscan] at hin hcounts
      have hfinished : ∀ w, (s.proc w).finished = s.round := fun w => by
        have := ((hin w).2 List.not_mem_nil).1
        rwa [hcounts.2 w] at this
      refine h.goto svc.nodup (fun w => ⟨fun _ => ⟨?_, hcounts.2 w⟩, ?_⟩) ?_
      · rw [hfinished w]
      · intro hw
        exact absurd (svc.complete w) hw
      · show s.m_doaction = _
        rw [hcounts.1]
        refine (List.countP_eq_zero.2 ?_).symm
        intro w _
        simp [hfinished w]
    | post hscan => exact h.post hscan
    | postDeleted hscan =>
      have htodo := h.todo
      have hin := h.inRound
      have hcounts := h.counts
      rw [hscan] at htodo hin hcounts
      exact h.goto htodo hin hcounts
    | posted hscan =>
      have hin := h.inRound
      have hcounts := h.counts
      rw [hscan] at hin hcounts
      exact h.goto List.nodup_nil hin hcounts
    | poll hscan =>
      have hin := h.inRound
      have hcounts := h.counts
      rw [hscan] at hin hcounts
      cases hc : svc.isComplete s with
      | false => exact h.goto List.nodup_nil hin hcounts
      | true =>
        have hdo : s.m_doaction = svc.m_threadcount := of_decide_eq_true hc
        refine h.goto List.nodup_nil hin ⟨hdo, ?_⟩
        intro w
        show (s.proc w).pending = 0
        have hall := List.countP_eq_length.1 (hcounts.symm.trans hdo) w (svc.complete w)
        have := ((hin w).2 List.not_mem_nil).1
        rw [of_decide_eq_true hall] at this
        omega
    | reset hscan =>
      have hin := h.inRound
      have hcounts := h.counts
      rw [hscan] at hin hcounts
      exact h.goto List.nodup_nil hin ⟨rfl, hcounts.2⟩
    | stop hstop =>
      refine h.congr rfl rfl rfl ?_ (fun _ => rfl) (fun _ => rfl) fun _ => le_rfl
      rw [hstop]
      exact List.suffix_refl _
    | flag hstop =>
      refine h.set ?_ rfl rfl le_rfl
      rw [hstop]
      exact List.suffix_refl _
    | wake hstop => exact h.wake hstop
    | join hstop =>
      refine h.congr rfl rfl rfl ?_ (fun _ => rfl) (fun _ => rfl) fun _ => le_rfl
      rw [hstop]
      exact List.suffix_refl _
    | delete hstop =>
      refine h.set ?_ rfl rfl le_rfl
      rw [hstop]
      exact List.suffix_refl _
    | exitScan | joinScan =>
      exact h.congr rfl rfl rfl List.nil_suffix (fun _ => rfl) (fun _ => rfl) fun _ => le_rfl

/-- **The rounds.** For any number of workers and rounds and every interleaving, also with workers
whose `init` failed and with `stop` at any moment: the counter is at most the number of workers; no
worker has more than one `EvtDealCDR` pending or in progress; after the polling loop of round `k`
every worker has finished `k` runs of `onCDMABill`; a run of a worker starts when all others have
finished as many as it has; and `resetAction` finds all completions of the round in the counter and
no work pending. -/
theorem rounds_are_barriers (hs : (system svc).Reachable s) :
    s.m_doaction ≤ svc.m_threadcount ∧
    (∀ w, (s.proc w).pending ≤ 1) ∧
    (s.scan = .resetting → ∀ w, (s.proc w).finished = s.round) ∧
    (∀ w v, (s.proc w).pc = .handling .dealCDR → (s.proc w).finished ≤ (s.proc v).finished) ∧
    (s.scan = .resetting → s.m_doaction = svc.m_threadcount ∧ ∀ w, (s.proc w).pending = 0) := by
  have h : Barrier svc s := barrier_inductive.reachable hs
  have hround : ∀ w, (s.proc w).finished ≤ s.round ∧ s.round ≤ (s.proc w).finished + 1 := by
    intro w
    by_cases hw : w ∈ s.scan.todo
    · have := (h.inRound w).1 hw
      omega
    · have := (h.inRound w).2 hw
      omega
  have hreset : s.scan = .resetting →
      s.m_doaction = svc.m_threadcount ∧ ∀ w, (s.proc w).pending = 0 := by
    intro hscan
    have hcounts := h.counts
    rwa [hscan] at hcounts
  refine ⟨?_, h.pending_le_one, ?_, ?_, hreset⟩
  · have hcounts := h.counts
    cases hscan : s.scan <;> rw [hscan] at hcounts
    case start | outer | waiting | exited => exact hcounts.1.trans_le (Nat.zero_le _)
    case resetting => exact hcounts.1.le
    case posting | polling | crashed => exact hcounts.trans_le List.countP_le_length
  · intro hscan w
    have hw : w ∉ s.scan.todo := by
      rw [hscan]
      exact List.not_mem_nil
    have := ((h.inRound w).2 hw).1
    rwa [(hreset hscan).2 w] at this
  · intro w v hpc
    have hpending : 1 ≤ (s.proc w).pending := by simp [BillProcess.pending, hpc]
    have hw : w ∉ s.scan.todo := fun hmem => by
      have := ((h.inRound w).1 hmem).2
      omega
    have hfinished := (h.inRound w).2 hw
    have := hround v
    omega

/-! ## Rounds that complete -/

/-- The steps of the workers. -/
def Label.IsWorker : Label W → Prop
  | .init .. | .test _ | .get _ | .handle _ => True
  | .opened _ | .loop | .wait | .post _ | .posted | .poll | .reset | .stop | .flag _ | .wake _
  | .join _ | .delete _ | .exitScan | .joinScan => False

/-- The scan thread is not between its test of `m_scanExit` and the last message of the round. -/
def ScanAt.Clear : ScanAt W → Prop
  | .waiting | .posting (_ :: _) | .crashed _ => False
  | .start | .outer | .posting [] | .polling | .resetting | .exited => True

/-- No `init` fails; `m_bStop` is set before a worker's message is taken only when the worker is in
`get`; a message is put after `m_bStop` is set only when the worker is in `get` and has none; and
`stop` ends the scan thread when it has no message to put. -/
def Orderly (svc : CDMAService W) (s : State W) : Label W → Prop
  | .init _ ok => ok = true
  | .flag w => .dealCDR ∈ (s.proc w).m_queue → (s.proc w).pc = .getting
  | .post w => (s.proc w).m_bStop = true → (s.proc w).pc = .getting ∧ (s.proc w).m_queue = []
  | .exitScan => svc.m_mapCDMAProc = [] ∨ s.scan.Clear
  | .test _ | .get _ | .handle _ | .opened _ | .loop | .wait | .posted | .poll | .reset | .stop
  | .wake _ | .join _ | .delete _ | .joinScan => True

/-- A worker that will take the `EvtDealCDR` in its queue. -/
structure BillProcess.Takes (p : BillProcess) : Prop where
  queued : p.m_bStop = true → .dealCDR ∈ p.m_queue →
    p.pc = .getting ∧ p.m_queue.head? = some .dealCDR
  ended : p.pc = .ended → p.m_bStop = true
  woken : .wake ∈ p.m_queue ∨ p.pc = .handling .wake → p.m_bStop = true
  deleted : p.deleted = true → p.pc = .ended

/-- What `stop` has done so far. -/
def StopAt.Holds (svc : CDMAService W) (s : State W) : StopAt W → Prop
  | .idle | .stopping _ | .done => True
  | .waking w _ => (s.proc w).m_bStop = true
  | .joining w _ => (s.proc w).m_bStop = true ∧
      ((s.proc w).pc = .getting → (s.proc w).m_queue ≠ [])
  | .deleting w _ => (s.proc w).pc = .ended
  | .joiningScan => s.m_scanExit = true ∧ (svc.m_mapCDMAProc = [] ∨ s.scan.Clear)

/-- The invariant of orderly runs. -/
structure Live (svc : CDMAService W) (s : State W) : Prop where
  barrier : Barrier svc s
  takes : ∀ w, (s.proc w).Takes
  holds : s.stop.Holds svc s
  scan : ∀ todo, s.scan ≠ .crashed todo

/-- The workers take their messages when one of them has changed. -/
theorem takes_set (h : ∀ w, (s.proc w).Takes) (hp : p.Takes) (v : W) :
    ((s.set w p).proc v).Takes := by
  rcases eq_or_ne v w with rfl | hne
  · rwa [State.set_self]
  · rw [State.set_of_ne hne]
    exact h v

/-- A worker moves; `m_bStop` stays set, and so does the end. -/
theorem holds_set {m_doaction : Nat} (h : s.stop.Holds svc s)
    (hflag : (s.proc w).m_bStop = true → p.m_bStop = true)
    (hget : (s.proc w).m_bStop = true → p.pc = .getting → p.m_queue ≠ [])
    (hend : (s.proc w).pc = .ended → p.pc = .ended) :
    s.stop.Holds svc { s.set w p with m_doaction := m_doaction } := by
  cases hstop : s.stop with
  | idle | stopping | done => trivial
  | joiningScan =>
    rw [hstop] at h
    exact h
  | waking v todo =>
    rw [hstop] at h
    rcases eq_or_ne v w with rfl | hne
    · simpa only [StopAt.Holds, State.set_self] using hflag h
    · simpa only [StopAt.Holds, State.set_of_ne hne] using h
  | joining v todo =>
    rw [hstop] at h
    rcases eq_or_ne v w with rfl | hne
    · simpa only [StopAt.Holds, State.set_self] using
        ⟨hflag h.1, hget h.1⟩
    · simpa only [StopAt.Holds, State.set_of_ne hne] using h
  | deleting v todo =>
    rw [hstop] at h
    rcases eq_or_ne v w with rfl | hne
    · simpa only [StopAt.Holds, State.set_self] using hend h
    · simpa only [StopAt.Holds, State.set_of_ne hne] using h

omit [DecidableEq W] in
/-- The scan thread moves. -/
theorem holds_goto {scan : ScanAt W} {m_doaction round : Nat} (h : s.stop.Holds svc s)
    (hclear : s.m_scanExit = true → s.scan.Clear → scan.Clear) :
    s.stop.Holds svc { s with scan := scan, m_doaction := m_doaction, round := round } := by
  cases hstop : s.stop with
  | joiningScan =>
    rw [hstop] at h
    exact ⟨h.1, h.2.imp_right (hclear h.1)⟩
  | idle | stopping | done | waking | joining | deleting =>
    rw [hstop] at h
    exact h

/-! ### The workers -/

/-- A worker that is not in `get` goes on. -/
theorem BillProcess.Takes.goto {pc : Pc} {finished : Nat} (h : p.Takes) (hpc : p.pc ≠ .getting)
    (hend : pc = .ended → p.m_bStop = true) (hwake : pc ≠ .handling .wake)
    (hdeleted : p.pc ≠ .ended) :
    ({ p with pc := pc, finished := finished } : BillProcess).Takes where
  queued hflag hmem := absurd (h.queued hflag hmem).1 hpc
  ended := hend
  woken hw := h.woken (.inl (hw.resolve_right hwake))
  deleted hd := absurd (h.deleted hd) hdeleted

/-- A worker takes a message. Where `m_bStop` is set and there is a `EvtDealCDR`, this is it. -/
theorem BillProcess.Takes.get {utm : Message} {rest : List Message} (h : p.Takes)
    (hpc : p.pc = .getting) (hqueue : p.m_queue = utm :: rest) (hone : p.pending ≤ 1) :
    ({ p with pc := .handling utm, m_queue := rest } : BillProcess).Takes where
  queued hflag hmem := by
    have hhead := (h.queued hflag (by rw [hqueue]; exact List.mem_cons_of_mem _ hmem)).2
    rw [hqueue, List.head?_cons, Option.some.injEq] at hhead
    have hcount : 0 < rest.count .dealCDR := List.count_pos_iff.2 hmem
    simp only [BillProcess.pending, hqueue, hhead, List.count_cons_self] at hone
    omega
  ended hend := by cases hend
  woken hw := by
    refine h.woken (.inl ?_)
    rw [hqueue]
    rcases hw with hw | hw
    · exact List.mem_cons_of_mem _ hw
    · cases hw
      exact List.mem_cons_self
  deleted hd := by
    have := h.deleted hd
    rw [hpc] at this
    cases this

/-- A worker gets a message: its own of the round, or the one of `stop`. -/
theorem BillProcess.Takes.put {utm : Message} (h : p.Takes)
    (hdeal : utm = .dealCDR → p.m_bStop = true → p.pc = .getting ∧ p.m_queue = [])
    (hwake : utm = .wake → p.m_bStop = true) :
    ({ p with m_queue := p.m_queue ++ [utm] } : BillProcess).Takes where
  queued hflag hmem := by
    show p.pc = .getting ∧ (p.m_queue ++ [utm]).head? = some .dealCDR
    by_cases hold : .dealCDR ∈ p.m_queue
    · obtain ⟨hpc, hhead⟩ := h.queued hflag hold
      exact ⟨hpc, by rw [List.head?_append, hhead]; rfl⟩
    · obtain rfl : .dealCDR = utm :=
        List.mem_singleton.1 ((List.mem_append.1 hmem).resolve_left hold)
      obtain ⟨hpc, hnil⟩ := hdeal rfl hflag
      exact ⟨hpc, by rw [hnil]; rfl⟩
  ended := h.ended
  woken hw := by
    rcases hw with hw | hw
    · rcases List.mem_append.1 hw with hw | hw
      · exact h.woken (.inl hw)
      · exact hwake (List.mem_singleton.1 hw).symm
    · exact h.woken (.inr hw)
  deleted := h.deleted

/-- An `EvtDealCDR` in the queue is the first message: the one of `stop` comes after `m_bStop` is
set. -/
theorem BillProcess.Takes.head (h : p.Takes) (hmem : .dealCDR ∈ p.m_queue) :
    ∃ rest, p.m_queue = .dealCDR :: rest := by
  cases hflag : p.m_bStop with
  | true => exact List.head?_eq_some_iff.1 (h.queued hflag hmem).2
  | false =>
    cases hqueue : p.m_queue with
    | nil =>
      rw [hqueue] at hmem
      exact absurd hmem List.not_mem_nil
    | cons utm rest =>
      cases utm with
      | dealCDR => exact ⟨rest, rfl⟩
      | wake =>
        have := h.woken (.inl (by rw [hqueue]; exact List.mem_cons_self))
        rw [hflag] at this
        cases this

/-- `m_bStop` is set. -/
theorem BillProcess.Takes.flag (h : p.Takes) (hguard : .dealCDR ∈ p.m_queue → p.pc = .getting) :
    ({ p with m_bStop := true } : BillProcess).Takes where
  queued _ hmem := ⟨hguard hmem, List.head?_eq_some_iff.2 (h.head hmem)⟩
  ended _ := rfl
  woken _ := rfl
  deleted := h.deleted

/-! ### Orderly runs -/

/-- The invariant holds in every state that orderly steps reach. -/
theorem live_inductive : ((system svc).restrict (Orderly svc)).Inductive (Live svc) where
  init s h := by
    have hbarrier : Barrier svc s := barrier_inductive.init s h
    obtain rfl : s = initial := h
    refine ⟨hbarrier, fun w => ⟨?_, ?_, ?_, ?_⟩, trivial, fun todo => ?_⟩
    all_goals simp [initial]
  step s a t hstep h := by
    obtain ⟨hstep, hguard⟩ := hstep
    have hbarrier := barrier_inductive.step s a t hstep h.barrier
    cases hstep with
    | @init w ok hpc =>
      obtain rfl : ok = true := hguard
      refine ⟨hbarrier, takes_set h.takes ?_, holds_set h.holds id ?_ ?_, h.scan⟩
      · exact (h.takes w).goto (by simp [hpc]) (by simp) (by simp) (by simp [hpc])
      · simp
      · simp [hpc]
    | @test w hpc =>
      refine ⟨hbarrier, takes_set h.takes ?_, holds_set h.holds id ?_ ?_, h.scan⟩
      · refine (h.takes w).goto (by simp [hpc]) ?_ ?_ (by simp [hpc])
        · cases (s.proc w).m_bStop <;> simp
        · cases (s.proc w).m_bStop <;> simp
      · intro hflag
        simp [hflag]
      · simp [hpc]
    | @get w utm rest hpc hqueue =>
      refine ⟨hbarrier, takes_set h.takes ((h.takes w).get hpc hqueue (h.barrier.pending_le_one w)),
        holds_set h.holds id ?_ ?_, h.scan⟩
      · simp
      · simp [hpc]
    | @onCDMABill w hpc =>
      refine ⟨hbarrier, takes_set h.takes ?_, holds_set h.holds id ?_ ?_, h.scan⟩
      · exact (h.takes w).goto (by simp [hpc]) (by simp) (by simp) (by simp [hpc])
      · simp
      · simp [hpc]
    | @onDefaultMessage w hpc =>
      refine ⟨hbarrier, takes_set h.takes ?_, holds_set h.holds id ?_ ?_, h.scan⟩
      · exact (h.takes w).goto (by simp [hpc]) (by simp) (by simp) (by simp [hpc])
      · simp
      · simp [hpc]
    | @opened ok hscan =>
      refine ⟨hbarrier, h.takes, holds_goto h.holds ?_, ?_⟩
      · intro _ _
        cases ok <;> trivial
      · intro todo
        cases ok <;> simp
    | loop hscan =>
      refine ⟨hbarrier, h.takes, holds_goto h.holds ?_, ?_⟩
      · intro hexit _
        rw [if_pos hexit]
        trivial
      · intro todo
        show (if s.m_scanExit then ScanAt.exited else ScanAt.waiting) ≠ _
        split <;> simp
    | wait hscan =>
      refine ⟨hbarrier, h.takes, holds_goto h.holds ?_, nofun⟩
      intro _ hclear
      rw [hscan] at hclear
      exact hclear.elim
    | @post w todo hscan hdeleted =>
      have hprocess : (s.proc w).process .dealCDR =
          { s.proc w with m_queue := (s.proc w).m_queue ++ [.dealCDR] } :=
        if_pos (h.barrier.room w)
      rw [hprocess] at hbarrier ⊢
      have hholds : s.stop.Holds svc (s.set w { s.proc w with
          m_queue := (s.proc w).m_queue ++ [.dealCDR] }) :=
        holds_set h.holds id (by simp) id
      refine ⟨hbarrier, takes_set h.takes ((h.takes w).put (fun _ => hguard) nofun),
        holds_goto (s := s.set w _) hholds ?_, nofun⟩
      intro _ hclear
      rw [State.set_scan, hscan] at hclear
      exact hclear.elim
    | @postDeleted w todo hscan hdeleted =>
      have hend := (h.takes w).deleted hdeleted
      have hget := (hguard ((h.takes w).ended hend)).1
      rw [hend] at hget
      cases hget
    | posted hscan => exact ⟨hbarrier, h.takes, holds_goto h.holds fun _ _ => trivial, nofun⟩
    | poll hscan =>
      refine ⟨hbarrier, h.takes, holds_goto h.holds ?_, ?_⟩
      · intro _ _
        cases svc.isComplete s <;> trivial
      · intro todo
        show (if svc.isComplete s then ScanAt.resetting else ScanAt.polling) ≠ _
        split <;> simp
    | reset hscan => exact ⟨hbarrier, h.takes, holds_goto h.holds fun _ _ => trivial, nofun⟩
    | stop hstop => exact ⟨hbarrier, h.takes, trivial, h.scan⟩
    | @flag w todo hstop =>
      refine ⟨hbarrier, takes_set h.takes ((h.takes w).flag hguard), ?_, h.scan⟩
      show ((s.set w _).proc w).m_bStop = true
      rw [State.set_self]
    | @wake w todo hstop hlen =>
      have hflag : (s.proc w).m_bStop = true := by
        have := h.holds
        rwa [hstop] at this
      refine ⟨hbarrier, takes_set h.takes ((h.takes w).put nofun fun _ => hflag), ?_, h.scan⟩
      show ((s.set w _).proc w).m_bStop = true ∧
        (((s.set w _).proc w).pc = .getting → ((s.set w _).proc w).m_queue ≠ [])
      rw [State.set_self]
      exact ⟨hflag, fun _ => by simp⟩
    | join hstop hpc => exact ⟨hbarrier, h.takes, hpc, h.scan⟩
    | @delete w todo hstop =>
      have hpc : (s.proc w).pc = .ended := by
        have := h.holds
        rwa [hstop] at this
      have ht := h.takes w
      exact ⟨hbarrier, takes_set h.takes ⟨ht.queued, ht.ended, ht.woken, fun _ => hpc⟩, trivial,
        h.scan⟩
    | exitScan hstop => exact ⟨hbarrier, h.takes, ⟨rfl, hguard⟩, h.scan⟩
    | joinScan hstop hscan => exact ⟨hbarrier, h.takes, trivial, h.scan⟩

/-! ### Progress -/

/-- Only steps of workers, with no `init` that fails: such a run is orderly. -/
def WorkersRun (svc : CDMAService W) (s t : State W) : Prop :=
  ∃ as, ((system svc).restrict (Orderly svc)).Run s as t ∧ ∀ a ∈ as, a.IsWorker

/-- No step. -/
theorem WorkersRun.refl (s : State W) : WorkersRun svc s s :=
  ⟨[], .nil s, fun _ ha => absurd ha List.not_mem_nil⟩

/-- One run after the other. -/
theorem WorkersRun.trans {u : State W} (h : WorkersRun svc s t) (h' : WorkersRun svc t u) :
    WorkersRun svc s u := by
  obtain ⟨as, hrun, has⟩ := h
  obtain ⟨bs, hrun', hbs⟩ := h'
  exact ⟨as ++ bs, hrun.append hrun', fun a ha => (List.mem_append.1 ha).elim (has a) (hbs a)⟩

/-- One step of a worker. -/
theorem WorkersRun.step {a : Label W} (hstep : Step svc s a t) (hguard : Orderly svc s a)
    (ha : a.IsWorker) : WorkersRun svc s t :=
  ⟨[a], .cons ⟨hstep, hguard⟩ (.nil t), fun _ hb => List.mem_singleton.1 hb ▸ ha⟩

/-- A worker is initialised. -/
theorem workersRun_init (hpc : (s.proc w).pc = .init) :
    WorkersRun svc s (s.set w { s.proc w with pc := .test }) := by
  have hstep : Step svc s (.init w true) (s.set w { s.proc w with pc := .test }) := .init hpc
  exact .step hstep rfl trivial

/-- A worker with its message at the head of its queue finishes with it. -/
theorem finishes_of_getting {rest : List Message} (hpc : (s.proc w).pc = .getting)
    (hqueue : (s.proc w).m_queue = .dealCDR :: rest) :
    ∃ t, WorkersRun svc s t ∧ t.scan = s.scan ∧ t.m_doaction = s.m_doaction + 1 := by
  have hget : WorkersRun svc s _ := .step (.get hpc hqueue) trivial trivial
  have hbill : (((s.set w { s.proc w with pc := .handling .dealCDR, m_queue := rest }).proc
      w).pc = .handling .dealCDR) := by rw [State.set_self]
  exact ⟨_, hget.trans (.step (.onCDMABill hbill) trivial trivial), rfl, rfl⟩

/-- A worker with its message in the queue finishes the round. -/
theorem finishes_of_test {rest : List Message} (hpc : (s.proc w).pc = .test)
    (hflag : (s.proc w).m_bStop = false) (hqueue : (s.proc w).m_queue = .dealCDR :: rest) :
    ∃ t, WorkersRun svc s t ∧ t.scan = s.scan ∧ t.m_doaction = s.m_doaction + 1 := by
  have htest : WorkersRun svc s _ := .step (.test hpc) trivial trivial
  rw [hflag] at htest
  obtain ⟨t, hrun, ht⟩ : ∃ t, WorkersRun svc (s.set w { s.proc w with pc := .getting }) t ∧
      t.scan = s.scan ∧ t.m_doaction = s.m_doaction + 1 :=
    finishes_of_getting (w := w) (by rw [State.set_self]) (by rw [State.set_self]; exact hqueue)
  exact ⟨t, htest.trans hrun, ht⟩

/-- A live worker with an `EvtDealCDR` finishes with it. -/
theorem Live.finishes (h : Live svc s) (hw : (s.proc w).pending ≠ 0) :
    ∃ t, WorkersRun svc s t ∧ t.scan = s.scan ∧ t.m_doaction = s.m_doaction + 1 := by
  have ht := h.takes w
  by_cases hbill : (s.proc w).pc = .handling .dealCDR
  · exact ⟨_, .step (.onCDMABill hbill) trivial trivial, rfl, rfl⟩
  · have hmem : .dealCDR ∈ (s.proc w).m_queue := by
      by_contra hmem
      exact hw (by simp [BillProcess.pending, hbill, List.count_eq_zero.2 hmem])
    obtain ⟨rest, hqueue⟩ := ht.head hmem
    have hflag : (s.proc w).pc ≠ .getting → (s.proc w).m_bStop = false := fun hne =>
      Bool.eq_false_iff.2 fun htrue => hne (ht.queued htrue hmem).1
    cases hpc : (s.proc w).pc with
    | init =>
      have hstop := hflag (by simp [hpc])
      obtain ⟨t, hrun, ht⟩ : ∃ t, WorkersRun svc (s.set w { s.proc w with pc := .test }) t ∧
          t.scan = s.scan ∧ t.m_doaction = s.m_doaction + 1 :=
        finishes_of_test (by rw [State.set_self]) (by rwa [State.set_self])
          ((congrArg BillProcess.m_queue (State.set_self ..)).trans hqueue)
      exact ⟨t, (workersRun_init hpc).trans hrun, ht⟩
    | test => exact finishes_of_test hpc (hflag (by simp [hpc])) hqueue
    | getting => exact finishes_of_getting hpc hqueue
    | handling utm =>
      cases utm with
      | dealCDR => exact absurd hpc hbill
      | wake =>
        have hstop := ht.woken (.inr hpc)
        rw [hflag (by simp [hpc])] at hstop
        cases hstop
    | ended =>
      have hstop := ht.ended hpc
      rw [hflag (by simp [hpc])] at hstop
      cases hstop

omit [DecidableEq W] in
/-- In the polling loop, a worker that has not finished the round has still its message. -/
theorem Barrier.pending_of_polling (h : Barrier svc s) (hscan : s.scan = .polling)
    (hc : svc.isComplete s = false) :
    ∃ w, (s.proc w).pending ≠ 0 ∧ (s.proc w).finished + 1 = s.round := by
  have hcounts := h.counts
  rw [hscan] at hcounts
  have hne : s.m_doaction ≠ svc.m_threadcount := of_decide_eq_false hc
  obtain ⟨w, hw⟩ : ∃ w, (s.proc w).finished ≠ s.round := by
    by_contra hall
    refine hne (hcounts.trans (List.countP_eq_length.2 ?_))
    intro w _
    by_contra hw
    exact hall ⟨w, fun heq => hw (decide_eq_true heq)⟩
  have hin := h.inRound w
  rw [hscan] at hin
  obtain ⟨hround, hone⟩ := hin.2 List.not_mem_nil
  exact ⟨w, by omega, by omega⟩

/-- The workers alone bring a round to its end. -/
theorem Live.completes (h : Live svc s) (hscan : s.scan = .polling) :
    ∃ t, WorkersRun svc s t ∧ t.scan = .polling ∧ svc.isComplete t = true := by
  generalize hn : svc.m_threadcount - s.m_doaction = n
  induction n generalizing s with
  | zero =>
    refine ⟨s, .refl s, hscan, decide_eq_true ?_⟩
    have hcounts := h.barrier.counts
    rw [hscan] at hcounts
    have hle : s.m_doaction ≤ svc.m_threadcount := hcounts.trans_le List.countP_le_length
    omega
  | succ n ih =>
    have hc : svc.isComplete s = false := decide_eq_false (by omega)
    obtain ⟨w, hw, -⟩ := h.barrier.pending_of_polling hscan hc
    obtain ⟨t, hrun, hscan', hdo⟩ := h.finishes hw
    obtain ⟨as, hrun', -⟩ := id hrun
    obtain ⟨u, hu, hcomplete⟩ := ih (live_inductive.run hrun' h) (hscan'.trans hscan) (by omega)
    exact ⟨u, hrun.trans hu, hcomplete⟩

/-- A worker with `m_bStop` set ends. -/
theorem ends_of_test (hpc : (s.proc w).pc = .test) (hflag : (s.proc w).m_bStop = true) :
    ∃ t, WorkersRun svc s t ∧ (t.proc w).pc = .ended := by
  refine ⟨_, .step (.test hpc) trivial trivial, ?_⟩
  rw [State.set_self, hflag]
  rfl

/-- A worker that handles its message ends when the flag is raised. -/
theorem ends_of_handling {utm : Message} (hpc : (s.proc w).pc = .handling utm)
    (hflag : (s.proc w).m_bStop = true) : ∃ t, WorkersRun svc s t ∧ (t.proc w).pc = .ended := by
  obtain ⟨u, hrun, hu⟩ : ∃ u, WorkersRun svc s u ∧ (u.proc w).pc = .test ∧
      (u.proc w).m_bStop = true := by
    cases utm with
    | dealCDR =>
      refine ⟨_, .step (.onCDMABill hpc) trivial trivial, ?_⟩
      simp [hflag]
    | wake =>
      refine ⟨_, .step (.onDefaultMessage hpc) trivial trivial, ?_⟩
      simp [hflag]
  obtain ⟨t, hrun', ht⟩ := ends_of_test hu.1 hu.2
  exact ⟨t, hrun.trans hrun', ht⟩

/-- `stop` does not wait for ever for a worker. -/
theorem Live.ends {todo : List W} (h : Live svc s) (hstop : s.stop = .joining w todo) :
    ∃ t, WorkersRun svc s t ∧ (t.proc w).pc = .ended := by
  obtain ⟨hflag, hget⟩ : (s.proc w).m_bStop = true ∧
      ((s.proc w).pc = .getting → (s.proc w).m_queue ≠ []) := by
    have := h.holds
    rwa [hstop] at this
  cases hpc : (s.proc w).pc with
  | init =>
    obtain ⟨t, hrun, ht⟩ : ∃ t, WorkersRun svc (s.set w { s.proc w with pc := .test }) t ∧
        (t.proc w).pc = .ended := ends_of_test (by rw [State.set_self]) (by rwa [State.set_self])
    exact ⟨t, (workersRun_init hpc).trans hrun, ht⟩
  | test => exact ends_of_test hpc hflag
  | getting =>
    obtain ⟨utm, rest, hqueue⟩ := List.exists_cons_of_ne_nil (hget hpc)
    have hrun : WorkersRun svc s _ := .step (.get hpc hqueue) trivial trivial
    obtain ⟨t, hrun', ht⟩ : ∃ t, WorkersRun svc (s.set w { s.proc w with
        pc := .handling utm
        m_queue := rest }) t ∧ (t.proc w).pc = .ended :=
      ends_of_handling (by rw [State.set_self]) (by rwa [State.set_self])
    exact ⟨t, hrun.trans hrun', ht⟩
  | handling utm => exact ends_of_handling hpc hflag
  | ended => exact ⟨s, .refl s, hpc⟩

/-- The workers leave `stop` where it is. -/
theorem WorkersRun.stop (h : WorkersRun svc s t) : t.stop = s.stop := by
  obtain ⟨as, hrun, has⟩ := h
  induction hrun with
  | nil => rfl
  | @cons s u t a as hstep _ ih =>
    obtain ⟨ha, has⟩ := List.forall_mem_cons.1 has
    refine (ih has).trans ?_
    cases hstep.1 with
    | init | test | get | onCDMABill | onDefaultMessage => rfl
    | opened | loop | wait | post | postDeleted | posted | poll | reset | stop | flag | wake | join
    | delete | exitScan | joinScan => exact ha.elim

/-- `stop` comes to its end. -/
def Ends (svc : CDMAService W) (s : State W) : Prop :=
  ∃ as t, ((system svc).restrict (Orderly svc)).Run s as t ∧ t.stop = .done

/-- `stop` comes to its end if it does so after a step. -/
theorem Ends.step {a : Label W} (hstep : Step svc s a t) (hguard : Orderly svc s a)
    (h : Ends svc t) : Ends svc s := by
  obtain ⟨as, u, hrun, hu⟩ := h
  exact ⟨a :: as, u, .cons ⟨hstep, hguard⟩ hrun, hu⟩

/-- `stop` comes to its end once the scanning thread has ended. -/
theorem ends_of_exited (hstop : s.stop = .joiningScan) (hscan : s.scan = .exited) : Ends svc s :=
  .step (.joinScan hstop hscan) trivial ⟨[], _, .nil _, rfl⟩

/-- So it does once the flag is raised and the thread tests it. -/
theorem ends_of_outer (hstop : s.stop = .joiningScan) (hexit : s.m_scanExit = true)
    (hscan : s.scan = .outer) : Ends svc s := by
  refine .step (.loop hscan) trivial (ends_of_exited hstop ?_)
  exact if_pos hexit

/-- And while the thread waits for the workers of a round. -/
theorem Live.ends_of_polling (h : Live svc s) (hstop : s.stop = .joiningScan)
    (hscan : s.scan = .polling) : Ends svc s := by
  obtain ⟨t, hrun, hscan', hc⟩ := h.completes hscan
  have hstop' : t.stop = .joiningScan := hrun.stop.trans hstop
  obtain ⟨as, hrun, -⟩ := hrun
  have hexit : t.m_scanExit = true := by
    have := (live_inductive.run hrun h).holds
    rw [hstop'] at this
    exact this.1
  have hreset : Ends svc { t with scan := .resetting } :=
    .step (.reset rfl) trivial (ends_of_outer hstop' hexit rfl)
  have hpoll : Step svc t .poll { t with scan := .resetting } := by
    have hif : (if svc.isComplete t then ScanAt.resetting else ScanAt.polling) =
        (.resetting : ScanAt W) := if_pos hc
    rw [← hif]
    exact .poll hscan'
  obtain ⟨bs, u, hrun', hu⟩ := Ends.step hpoll trivial hreset
  exact ⟨as ++ bs, u, hrun.append hrun', hu⟩

/-- `stop` does not wait for ever for the scan thread. -/
theorem Live.ends_scan (h : Live svc s) (hstop : s.stop = .joiningScan) : Ends svc s := by
  obtain ⟨hexit, hclear⟩ : s.m_scanExit = true ∧ (svc.m_mapCDMAProc = [] ∨ s.scan.Clear) := by
    have := h.holds
    rwa [hstop] at this
  have hposted : ∀ {s : State W}, Live svc s → s.stop = .joiningScan → s.scan = .posting [] →
      Ends svc s := by
    intro s h hstop hscan
    have hstep : Step svc s .posted { s with scan := .polling } := .posted hscan
    have hlive := live_inductive.step s _ _ ⟨hstep, trivial⟩ h
    exact .step hstep trivial (hlive.ends_of_polling hstop rfl)
  cases hscan : s.scan with
  | start =>
    have hstep : Step svc s (.opened true) { s with scan := .outer } := .opened hscan
    exact .step hstep trivial (ends_of_outer hstop hexit rfl)
  | outer => exact ends_of_outer hstop hexit hscan
  | waiting =>
    rw [hscan] at hclear
    have hnil := hclear.resolve_right id
    have hstep : Step svc s .wait { s with scan := .posting [], round := s.round + 1 } := by
      rw [← hnil]
      exact .wait hscan
    exact .step hstep trivial (hposted (live_inductive.step s _ _ ⟨hstep, trivial⟩ h) hstop rfl)
  | posting todo =>
    cases todo with
    | nil => exact hposted h hstop hscan
    | cons w todo =>
      rw [hscan] at hclear
      have hw := svc.complete w
      rw [hclear.resolve_right id] at hw
      exact absurd hw List.not_mem_nil
  | polling => exact h.ends_of_polling hstop hscan
  | resetting => exact .step (.reset hscan) trivial (ends_of_outer hstop hexit rfl)
  | exited => exact ends_of_exited hstop hscan
  | crashed todo => exact absurd hscan (h.scan todo)

/-- **Orderly rounds complete.** In every state of an orderly run: in the polling loop the round is
complete or a live worker has still its `EvtDealCDR` of this round; the workers alone bring the
round to its end; `stop` does not wait for ever for a worker, and not for the scan thread. -/
theorem rounds_complete (hs : ((system svc).restrict (Orderly svc)).Reachable s) :
    (s.scan = .polling → svc.isComplete s = true ∨ ∃ w, (s.proc w).pc ≠ .ended ∧
      (s.proc w).pending ≠ 0 ∧ (s.proc w).finished + 1 = s.round) ∧
    (s.scan = .polling →
      ∃ t, WorkersRun svc s t ∧ t.scan = .polling ∧ svc.isComplete t = true) ∧
    (∀ w todo, s.stop = .joining w todo → ∃ t, WorkersRun svc s t ∧ (t.proc w).pc = .ended) ∧
    (s.stop = .joiningScan → Ends svc s) := by
  have h : Live svc s := live_inductive.reachable hs
  refine ⟨?_, h.completes, fun w todo => h.ends, h.ends_scan⟩
  intro hscan
  cases hc : svc.isComplete s with
  | true => exact .inl rfl
  | false =>
    obtain ⟨w, hw, hround⟩ := h.barrier.pending_of_polling hscan hc
    refine .inr ⟨w, fun hend => hw ?_, hw, hround⟩
    have hmem : .dealCDR ∉ (s.proc w).m_queue := fun hmem => by
      have hget := ((h.takes w).queued ((h.takes w).ended hend) hmem).1
      rw [hend] at hget
      cases hget
    simp [BillProcess.pending, hend, List.count_eq_zero.2 hmem]

end

/-! ## One worker -/

namespace OneWorker

/-- A service with one worker. -/
def svc : CDMAService Unit := ⟨[()], List.nodup_singleton _, fun _ => List.mem_singleton.2 rfl⟩

/-- The first round is posted to a worker whose `init` has returned `ok`. -/
def posted (ok : Bool) : State Unit where
  proc _ := ⟨if ok then .test else .ended, [.dealCDR], false, false, 0⟩
  m_doaction := 0
  m_scanExit := false
  scan := .polling
  stop := .idle
  round := 1

/-- Two states of one worker are the same if the worker is. -/
theorem set_eq (s : State Unit) (p : BillProcess) : s.set () p = { s with proc := fun _ => p } := by
  have hproc : Function.update s.proc () p = fun _ => p := funext fun _ => Function.update_self ..
  rw [State.set, hproc]

/-- After its `init`, the first round is posted in an orderly way, whatever it has returned. -/
theorem posted_run (ok : Bool) : ∃ s, Step svc initial (.init () ok) s ∧
    ((system svc).restrict (Orderly svc)).Run s [.opened true, .loop, .wait, .post (), .posted]
      (posted ok) := by
  have hinit : Step svc initial (.init () ok) _ := .init rfl
  rw [set_eq] at hinit
  have hpost : Step svc { posted ok with
      proc := fun _ => ⟨if ok then .test else .ended, [], false, false, 0⟩
      scan := .posting [()] } (.post ()) _ := .post rfl rfl
  rw [set_eq] at hpost
  exact ⟨_, hinit, .cons ⟨.opened rfl, trivial⟩ (.cons ⟨.loop rfl, trivial⟩
    (.cons ⟨.wait rfl, trivial⟩ (.cons ⟨hpost, fun h => absurd h Bool.false_ne_true⟩
    (.cons ⟨.posted rfl, trivial⟩ (.nil _)))))⟩

/-- The worker has been posted its message. -/
theorem posted_reachable (ok : Bool) : (system svc).Reachable (posted ok) := by
  obtain ⟨s, hinit, hrun⟩ := posted_run ok
  exact ⟨initial, _, rfl, .cons hinit hrun.of_restrict⟩

/-- The theorem on the rounds, after the first one. -/
theorem rounds_are_barriers_firstRound : ∃ s, (system svc).Reachable s ∧ s.scan = .resetting ∧
    ∀ w, (s.proc w).finished = s.round := by
  have htest : Step svc (posted true) (.test ()) _ := .test rfl
  rw [set_eq] at htest
  have hget : Step svc { posted true with
      proc := fun _ => ⟨.getting, [.dealCDR], false, false, 0⟩ } (.get ()) _ := .get rfl rfl
  rw [set_eq] at hget
  have hbill : Step svc { posted true with
      proc := fun _ => ⟨.handling .dealCDR, [], false, false, 0⟩ } (.handle ()) _ :=
    .onCDMABill rfl
  obtain ⟨as, s, hrun, hscan⟩ : ∃ as s, (system svc).Run (posted true) as s ∧
      s.scan = .resetting :=
    ⟨_, _, .cons htest (.cons hget (.cons hbill (.cons (.poll rfl) (.nil _)))), rfl⟩
  have hs := (posted_reachable true).run hrun
  exact ⟨s, hs, hscan, (rounds_are_barriers hs).2.2.1 hscan⟩

/-- The theorem on orderly runs, in the first round. -/
theorem rounds_complete_firstRound : ∃ s, ((system svc).restrict (Orderly svc)).Reachable s ∧
    s.scan = .polling ∧ svc.isComplete s = false ∧
    ∃ t, WorkersRun svc s t ∧ t.scan = .polling ∧ svc.isComplete t = true := by
  obtain ⟨s, hinit, hrun⟩ := posted_run true
  have hs : ((system svc).restrict (Orderly svc)).Reachable (posted true) :=
    ⟨initial, _, rfl, .cons ⟨hinit, rfl⟩ hrun⟩
  exact ⟨posted true, hs, rfl, rfl, (rounds_complete hs).2.1 rfl⟩

end OneWorker

namespace FailedInit

/-- The `init` of the worker fails. Its thread ends, the round is posted to it all the same, and no
worker is left to complete it. -/
theorem round_stuck : ¬ ∀ s, (system OneWorker.svc).Reachable s → s.scan = .polling →
    OneWorker.svc.isComplete s = true ∨ ∃ w, (s.proc w).pc ≠ .ended ∧
      (s.proc w).pending ≠ 0 ∧ (s.proc w).finished + 1 = s.round := by
  intro hall
  rcases hall _ (OneWorker.posted_reachable false) rfl with hc | ⟨w, hlive, -⟩
  · exact Bool.false_ne_true hc
  · exact hlive rfl

end FailedInit

end TelecomSuite.Export.Scan
