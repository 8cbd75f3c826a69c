import TelecomSuite.Dagw.Responses

/-!
# Stopping a worker

One `TDBProcess`, its thread and the threads that call `Process` and `Stop`. The loop of `run` is
taken apart here: it tests `m_bStop`, and only then calls `tryGet`. `Stop` sets `m_bStop` and puts a
message into the same bounded queue, so a worker that has seen the flag takes nothing out any more:
what is in the queue stays unanswered (`OneRequest.not_stopped`), and if the queue is full `put`
never returns (`put_stuck`). Stopping works in the runs whose steps are `Orderly` (`stop_ends`).
-/

namespace TelecomSuite.Dagw.Stopping

open Transition Fallible

/-- Where `Stop` is: not called, before `put`, before the end of `join`, or returned. -/
inductive StopAt
  | idle
  | put
  | join
  | returned
  deriving DecidableEq

/-- A worker. `trying` says of an idle thread that it has found `m_bStop` false and calls `tryGet`
next. `accepted` counts the requests that `Process` has taken, `before` those it had taken when
`Stop` was called. -/
structure State where
  worker : TDBProcess
  trying : Bool
  stop : StopAt
  posted : List (ServiceIdentifier × UserTransferMessage)
  accepted : Nat
  before : Nat

/-- What happens: a request comes, the handle changes, the thread tests the flag, takes a request,
executes it or does a task, `stop` is called, puts its message or joins. -/
inductive Label
  | process (utm : UserTransferMessage)
  | handle (h : Option Handle)
  | test
  | get
  | exec (db : Db)
  | skip
  | act
  | call
  | put
  | join

/-- The steps of the worker's thread and of `Stop` once it was called. -/
def Label.own : Label → Bool
  | .test | .get | .exec _ | .skip | .act | .put | .join => true
  | .process _ | .handle _ | .call => false

/-- The state with another worker. -/
def State.setWorker (s : State) (p : TDBProcess) : State := { s with worker := p }

/-- The state in which the thread is elsewhere. -/
def State.goto (s : State) (t : Running) : State := s.setWorker { s.worker with thread := t }

/-- `Process`. A message is numbered when it is taken. -/
def State.process (s : State) (utm : UserTransferMessage) : State :=
  match s.worker.tryPut { utm with serial := s.accepted } with
  | some p => { s.setWorker p with accepted := s.accepted + 1 }
  | none => s

section
variable {W : Type} [DecidableEq W]

/-- A step of one of the threads. A task of the worker's thread finds the rest of the gateway in an
arbitrary state `g`, and a `reconnect` of another thread may replace the handle at any time. -/
inductive Step (W : Type) [DecidableEq W] (cfg : Cfg) : State → Label → State → Prop
  | process {s : State} {utm : UserTransferMessage} : utm.messageId = .reqExecSQL →
      Step W cfg s (.process utm) (s.process utm)
  | handle {s : State} (h : Option Handle) :
      Step W cfg s (.handle h) (s.setWorker { s.worker with m_pDbQuery := h })
  | quit {s : State} : s.worker.thread = .idle → s.trying = false → s.worker.m_bStop = true →
      Step W cfg s .test (s.goto .ended)
  | again {s : State} : s.worker.thread = .idle → s.trying = false → s.worker.m_bStop = false →
      Step W cfg s .test { s with trying := true }
  | take {s : State} {u : UserTransferMessage} {q : List UserTransferMessage} :
      s.worker.thread = .idle → s.trying = true → s.worker.m_queue = u :: q →
      Step W cfg s .get
        { s.setWorker { s.worker with m_queue := q, thread := .got u } with trying := false }
  -- `sleep(50)`
  | sleep {s : State} : s.worker.thread = .idle → s.trying = true → s.worker.m_queue = [] →
      Step W cfg s .get { s with trying := false }
  | exec {s : State} {u : UserTransferMessage} {db : Db} : s.worker.thread = .got u →
      u.messageId = .reqExecSQL → (db.exec cfg s.worker.m_rowCount u).1 ≠ .error .hang →
      Step W cfg s (.exec db) (s.setWorker { s.worker with
        m_rowCount := (db.exec cfg s.worker.m_rowCount u).2.m_rowCount
        thread := .after (db.exec cfg s.worker.m_rowCount u) })
  | skip {s : State} {u : UserTransferMessage} : s.worker.thread = .got u →
      u.messageId ≠ .reqExecSQL → Step W cfg s .skip (s.goto .idle)
  | act {s : State} {t : Task} {l : List Task} {g : Dagw.State W} {w : W} {reply : Reply} :
      s.worker.thread = .doing (t :: l) → g.workers w = s.worker → g.posted = s.posted →
      Step W cfg s .act
        { s.setWorker { (perform cfg (some w) g reply t).1.workers w with
            thread := .resume ((perform cfg (some w) g reply t).2 ++ l) } with
          posted := (perform cfg (some w) g reply t).1.posted }
  | call {s : State} : s.stop = .idle → s.worker.m_bStop = false →
      Step W cfg s .call { s.setWorker { s.worker with m_bStop := true } with
        stop := .put
        before := s.accepted }
  -- the flag is set already: `Stop` returns at once
  | callAgain {s : State} : s.worker.m_bStop = true → Step W cfg s .call s
  | put {s : State} {p : TDBProcess} : s.stop = .put → s.worker.tryPut wakeUp = some p →
      Step W cfg s .put { s.setWorker p with stop := .join }
  | join {s : State} : s.stop = .join → s.worker.thread = .ended →
      Step W cfg s .join { s with stop := .returned }

/-- A worker that was started: its queue is empty and its loop begins. -/
structure Initial (s : State) : Prop where
  queue : s.worker.m_queue = []
  running : s.worker.m_bStop = false
  thread : s.worker.thread = .idle
  trying : s.trying = false
  stop : s.stop = .idle
  posted : s.posted = []
  accepted : s.accepted = 0
  before : s.before = 0

/-- The worker and its `stop` as a transition system. -/
def system (W : Type) [DecidableEq W] (cfg : Cfg) : LTS State Label where
  init := Initial
  step := Step W cfg

/-! ## The rest of a stop -/

/-- How many steps a task still takes. -/
def Task.left (cfg : Cfg) : Task → Nat
  | .postMessage _ _ | .process _ => 1
  | .errProcess _ _ => 3 * cfg.m_vctConnection.length + 2
  | .reconnect _ todo => 3 * todo.length + 1
  | .connect _ todo => 3 * todo.length + 3
  | .assign _ todo => 3 * todo.length + 2

/-- How many steps a worker's thread still takes until it sees the flag. -/
def threadLeft (cfg : Cfg) (trying : Bool) : Running → Nat
  | .idle => if trying then 3 * cfg.m_vctConnection.length + 6 else 1
  | .got _ => 3 * cfg.m_vctConnection.length + 5
  | .doing todo => (todo.map (Task.left cfg)).sum + 1
  | .ended => 0

/-- How many steps `stop` has left. -/
def StopAt.left : StopAt → Nat
  | .put => 2
  | .join => 1
  | .idle | .returned => 0

/-- A bound for the steps of the worker and of `Stop`, once the flag is set. -/
def State.left (cfg : Cfg) (s : State) : Nat :=
  threadLeft cfg s.trying s.worker.thread + s.stop.left

/-! ## What the steps do -/

/-- What carrying out a task does to the queue and the posted messages, and what it leaves to do. -/
inductive Performed (s : State) : Task → List UserTransferMessage →
    List (ServiceIdentifier × UserTransferMessage) → List Task → Prop
  | post {dest : ServiceIdentifier} {utm : UserTransferMessage} :
    Performed s (.postMessage dest utm) s.worker.m_queue (s.posted ++ [(dest, utm)]) []
  | requeue {utm : UserTransferMessage} : s.worker.m_queue.length < dagwProcessQueueLen →
    Performed s (.process utm) (s.worker.m_queue ++ [utm]) s.posted []
  | drop {utm : UserTransferMessage} : ¬ s.worker.m_queue.length < dagwProcessQueueLen →
    Performed s (.process utm) s.worker.m_queue s.posted []
  | silent {t : Task} {rest : List Task} : (∀ n, t.answers n = 0) → (∀ t' ∈ rest, t'.Silent) →
    Performed s t s.worker.m_queue s.posted rest

variable {cfg : Cfg} {s t : State} {g : Dagw.State W} {w : W}

/-- What a task of the worker does to its queue and to the responses. -/
theorem performed_perform (cfg : Cfg) (hw : g.workers w = s.worker) (hposted : g.posted = s.posted)
    (reply : Reply) (t : Task) :
    Performed s t ((perform cfg (some w) g reply t).1.workers w).m_queue
      (perform cfg (some w) g reply t).1.posted (perform cfg (some w) g reply t).2 := by
  have hsilent : (t.Silent ∨ ∃ err src, t = .errProcess err src) →
      Performed s t ((perform cfg (some w) g reply t).1.workers w).m_queue
        (perform cfg (some w) g reply t).1.posted (perform cfg (some w) g reply t).2 := by
    intro ht
    obtain ⟨hsame, hrest⟩ := perform_silent cfg (some w) g reply ht
    rw [hsame.queue w, hsame.posted, hw, hposted]
    refine .silent ?_ hrest
    intro n
    rcases ht with ht | ⟨err, src, rfl⟩
    · exact ht.answers n
    · rfl
  cases t with
  | postMessage dest utm =>
    simp only [perform, Dagw.State.post, hw, hposted]
    exact .post
  | process utm =>
    simp only [perform, hw]
    by_cases hroom : s.worker.m_queue.length < dagwProcessQueueLen
    · simp only [TDBProcess.tryPut, if_pos hroom, Function.update_self, hposted,
        Dagw.State.setWorker]
      exact .requeue hroom
    · simp only [TDBProcess.tryPut, if_neg hroom, hw, hposted]
      exact .drop hroom
  | errProcess err src => exact hsilent (.inr ⟨err, src, rfl⟩)
  | reconnect | connect | assign => exact hsilent (.inl trivial)

/-- A task does not set or clear the flag. -/
theorem perform_m_bStop (reply : Reply) (t : Task) :
    ((perform cfg (some w) g reply t).1.workers w).m_bStop = (g.workers w).m_bStop := by
  cases t with
  | postMessage | errProcess | connect => rfl
  | process utm =>
    simp only [perform]
    split
    · next hput =>
      obtain ⟨-, rfl⟩ := tryPut_some hput
      simp
    · rfl
  | reconnect src todo => exact writes_m_bStop (writes_reconnectRelease g reply src todo) w
  | assign src todo => exact writes_m_bStop (writes_reconnectAssign g reply src todo) w

omit [DecidableEq W] in
/-- Every stage of `reconnect` leaves less to do. -/
theorem dropWhile_lt {src : String} {todo rest : List CConnectionCfg} {c : CConnectionCfg}
    (h : todo.dropWhile (·.m_SourceName ≠ src) = c :: rest) : rest.length < todo.length := by
  have hle : (todo.dropWhile (·.m_SourceName ≠ src)).length ≤ todo.length :=
    (List.dropWhile_sublist _).length_le
  rw [h, List.length_cons] at hle
  omega

/-- A task leaves less to do than it was. -/
theorem left_perform_lt (cfg : Cfg) (g : Dagw.State W) (w : W) (reply : Reply) (t : Task) :
    ((perform cfg (some w) g reply t).2.map (Task.left cfg)).sum < Task.left cfg t := by
  cases t with
  | postMessage => exact Nat.one_pos
  | process utm =>
    simp only [perform]
    split <;> exact Nat.one_pos
  | errProcess err src =>
    simp only [perform]
    split <;> simp [Task.left]
  | reconnect src todo =>
    simp only [perform, reconnectRelease]
    split
    · simp [Task.left]
    · simp [Task.left]
    · next hdrop _ =>
      have hlt := dropWhile_lt hdrop
      split
      · simp [Task.left]
      · split
        · simp only [Task.left, List.map_cons, List.map_nil, List.sum_cons, List.sum_nil]
          omega
        · simp [Task.left]
  | connect src todo =>
    simp only [perform]
    split <;> simp [Task.left]
  | assign src todo =>
    simp only [perform, reconnectAssign]
    split
    · simp [Task.left]
    · split <;> simp [Task.left]

omit [DecidableEq W] in
/-- `OnExecSQL` leaves an exception, or one of the action lists of `Handled`. -/
theorem exec_after (cfg : Cfg) (db : Db) (rc : Nat) (u : UserTransferMessage) :
    Running.after (db.exec cfg rc u) = .ended ∨ ∃ r acts,
      Running.after (db.exec cfg rc u) = .resume (acts.map Action.task) ∧
        Handled cfg.build cfg.code u.req u r (.ok ()) acts := by
  obtain ⟨acts, hacts, hh⟩ := onExecSQL_handled cfg.build cfg.code cfg.m_MaxRowCount db.query
    db.fuel u.req ⟨db.session, u, rc, []⟩
  simp only [Running.after, Db.exec, hacts, List.nil_append]
  cases hout : (onExecSQL cfg.build cfg.code cfg.m_MaxRowCount db.query db.fuel u.req
    ⟨db.session, u, rc, []⟩).1 with
  | error f => exact .inl rfl
  | ok _ =>
    rw [hout] at hh
    exact .inr ⟨_, acts, rfl, hh⟩

omit [DecidableEq W] in
/-- A thread that goes on has its tasks and one more step left. -/
theorem threadLeft_resume (trying : Bool) (todo : List Task) (h : trying = false) :
    threadLeft cfg trying (.resume todo) = (todo.map (Task.left cfg)).sum + 1 := by
  cases todo with
  | nil => simp [Running.resume, threadLeft, h]
  | cons t todo => rfl

omit [DecidableEq W] in
/-- An execution leaves less to do than the request. -/
theorem threadLeft_after_lt (cfg : Cfg) (db : Db) (rc : Nat) (u : UserTransferMessage) :
    threadLeft cfg false (.after (db.exec cfg rc u)) < threadLeft cfg false (.got u) := by
  rcases exec_after cfg db rc u with h | ⟨r, acts, h, hh⟩
  · rw [h]
    exact Nat.succ_pos _
  · rw [h, threadLeft_resume _ _ rfl]
    cases hh with
    | rejected | completed | ignored | retried =>
      simp [Action.task, Task.left, threadLeft]
    | failed => simp [Action.task, Task.left, threadLeft]

/-- The flag is set. -/
structure Flagged (s : State) : Prop where
  flag : s.worker.m_bStop = true
  trying : s.trying = true → s.worker.thread = .idle

omit [DecidableEq W] in
/-- A request is put at the end of the queue, or it is dropped. -/
theorem process_cases (s : State) (utm : UserTransferMessage) :
    s.process utm = s ∨ s.worker.m_queue.length < dagwProcessQueueLen ∧
      s.process utm = { s.setWorker { s.worker with
        m_queue := s.worker.m_queue ++ [{ utm with serial := s.accepted }] } with
          accepted := s.accepted + 1 } := by
  unfold State.process
  split
  · next hput =>
    obtain ⟨hroom, rfl⟩ := tryPut_some hput
    exact .inr ⟨hroom, rfl⟩
  · exact .inl rfl

/-- Once raised, the flag stays. -/
theorem Flagged.step {a : Label} (h : Flagged s) (hstep : Step W cfg s a t) : Flagged t := by
  cases hstep with
  | @process utm _ =>
    rcases process_cases s utm with heq | ⟨-, heq⟩
    · rwa [heq]
    · rw [heq]
      exact ⟨h.flag, h.trying⟩
  | handle | callAgain => exact ⟨h.flag, h.trying⟩
  | quit _ htrying => exact ⟨h.flag, fun ht => absurd (htrying.symm.trans ht) nofun⟩
  | again _ _ hflag => exact absurd (hflag.symm.trans h.flag) nofun
  | take | sleep => exact ⟨h.flag, nofun⟩
  | exec hgot | skip hgot =>
    exact ⟨h.flag, fun ht => absurd (hgot.symm.trans (h.trying ht)) nofun⟩
  | act hdoing hw =>
    refine ⟨?_, fun ht => absurd (hdoing.symm.trans (h.trying ht)) nofun⟩
    exact (perform_m_bStop _ _).trans ((congrArg TDBProcess.m_bStop hw).trans h.flag)
  | call _ hflag => exact absurd (hflag.symm.trans h.flag) nofun
  | put _ hput =>
    obtain ⟨-, rfl⟩ := tryPut_some hput
    exact ⟨h.flag, h.trying⟩
  | join => exact ⟨h.flag, h.trying⟩

/-- The steps of the worker and of `Stop` use up the bound, and no other step raises it. -/
theorem Flagged.left_le {a : Label} (h : Flagged s) (hstep : Step W cfg s a t) :
    t.left cfg + (if a.own then 1 else 0) ≤ s.left cfg := by
  have hfalse : s.worker.thread ≠ .idle → s.trying = false := by
    intro hne
    exact Bool.eq_false_iff.2 fun ht => hne (h.trying ht)
  cases hstep with
  | @process utm _ =>
    rcases process_cases s utm with heq | ⟨-, heq⟩
    · rw [heq]
      exact Nat.le_refl _
    · rw [heq]
      exact Nat.le_refl _
  | handle | callAgain => exact Nat.le_refl _
  | quit hidle htrying =>
    simp [State.left, State.goto, State.setWorker, threadLeft, hidle, htrying, Label.own,
      Nat.add_comm]
  | again _ _ hflag => exact absurd (hflag.symm.trans h.flag) nofun
  | take hidle htrying =>
    simp only [State.left, State.setWorker, threadLeft, hidle, htrying, Label.own, if_true]
    omega
  | sleep hidle htrying =>
    simp only [State.left, threadLeft, hidle, htrying, Label.own, if_true, Bool.false_eq_true,
      if_false]
    omega
  | @exec u db hgot =>
    have hlt := threadLeft_after_lt cfg db s.worker.m_rowCount u
    simp only [State.left, State.setWorker, hgot, hfalse (by simp [hgot]), Label.own, if_true]
    omega
  | @skip u hgot =>
    simp only [State.left, State.goto, State.setWorker, threadLeft, hgot,
      hfalse (by simp [hgot]), Label.own, if_true, Bool.false_eq_true, if_false]
    omega
  | @act t l g w reply hdoing =>
    have hlt := left_perform_lt cfg g w reply t
    simp only [State.left, State.setWorker, hdoing, Label.own, if_true]
    rw [threadLeft_resume _ _ (hfalse (by simp [hdoing]))]
    simp only [threadLeft, List.map_cons, List.map_append, List.sum_cons, List.sum_append]
    omega
  | call _ hflag => exact absurd (hflag.symm.trans h.flag) nofun
  | put hstop hput =>
    obtain ⟨-, rfl⟩ := tryPut_some hput
    simp only [State.left, State.setWorker, hstop, StopAt.left, Label.own, if_true]
    omega
  | join hstop =>
    simp only [State.left, hstop, StopAt.left, Label.own, if_true]
    omega

/-! ## A step is enabled -/

/-- A database layer that refuses every statement. -/
def refusing : BaseQuery Unit where
  command _ s := (.error ⟨.dbError, "", "", ""⟩, s)
  outputCount s := (.ok 0, s)
  registerOutParam _ s := (.ok (), s)
  execute s := (.ok (), s)
  fieldCount s := (.ok 0, s)
  eof s := (.ok true, s)
  fetchNext s := (.ok (), s)
  fieldAsString _ s := (.ok "", s)
  outParamAsString _ s := (.ok "", s)
  fieldInfoName _ s := (.ok none, s)
  effectCount s := (.ok 0, s)
  odbcReconnect s := (.ok (), s)

omit [DecidableEq W] in
/-- A database that refuses still lets the execution return. -/
theorem exec_refusing (cfg : Cfg) (rc : Nat) (u : UserTransferMessage) :
    (Db.exec ⟨Unit, refusing, (), 0⟩ cfg rc u).1 = .ok () := by
  have hcount : EffectCountReturns cfg.build cfg.m_MaxRowCount refusing () u rc :=
    fun _ _ _ _ => ⟨0, (), rfl⟩
  obtain ⟨ok, c', hpre⟩ := preExecSQL_returns (c := ⟨(), u, rc, []⟩) hcount cfg.code u.req
  change (onExecSQL _ _ _ _ _ _ _).1 = _
  rw [onExecSQL_apply, hpre]
  cases ok with
  | false => rfl
  | true =>
    have hbody : attempt (execBody refusing 0 u.sql) c' =
        (.ok (.error ⟨.dbError, "", "", ""⟩), c') := rfl
    simp only [Comp.bind_apply, hbody, afterBody]
    cases cfg.build <;> simp [catchBlock, answerError, lostConnection]

/-! ## The invariant -/

/-- A request with this number. -/
def isRequest (n : Nat) (u : UserTransferMessage) : Bool := u.messageId = .reqExecSQL ∧ u.serial = n

/-- How often a thread owes an answer to the request `n`. -/
def owed (n : Nat) : Running → Nat
  | .got u => if isRequest n u then 1 else 0
  | .idle | .ended => 0
  | .doing todo => (todo.map (Task.answers n)).sum

/-- How often the request `n` is answered, queued or in the hands of the thread. -/
def State.count (n : Nat) (s : State) : Nat :=
  s.posted.countP (·.2.serial = n) + s.worker.m_queue.countP (isRequest n) + owed n s.worker.thread

/-- The responses to the request `n`. -/
def State.responses (n : Nat) (s : State) : Nat :=
  s.posted.countP fun m => m.2.messageId = .resExecSQL ∧ m.2.serial = n

/-- The part of the queue that the worker does not take after it has seen the flag. -/
def State.rest (s : State) : List UserTransferMessage :=
  if s.trying then s.worker.m_queue.tail else s.worker.m_queue

/-- The tasks of a thread are there and have the message ids that fit. -/
def Fit : Running → Prop
  | .doing todo => todo ≠ [] ∧ ∀ t ∈ todo, t.Proper
  | .idle | .got _ | .ended => True

/-- Queueing the request again loses nothing that `Stop` has to wait for. -/
def State.Requeues (s : State) (utm : UserTransferMessage) : Prop :=
  if s.worker.m_bStop then s.before ≤ utm.serial ∧
    (s.stop = .put → s.worker.m_queue.length + 1 < dagwProcessQueueLen)
  else s.worker.m_queue.length < dagwProcessQueueLen

/-- The steps with which stopping works. `Stop` is called while the queue is empty, or while the
worker is about to take the only message out of it. Until `put` has returned, `Process` leaves room
for its message, unless the worker takes one first. `effectCount` does not throw while a request is
handled that `Stop` waits for, and such a request is queued again before the flag is set only, where
it finds room. -/
def Orderly (cfg : Cfg) (s : State) : Label → Prop
  | .process _ =>
    s.stop = .put → s.worker.m_queue.length + 1 < dagwProcessQueueLen ∨ s.trying = true
  | .call => s.worker.m_bStop = false →
    s.worker.m_queue = [] ∨ s.trying = true ∧ s.worker.m_queue.length = 1
  | .exec db => ∀ u, s.worker.thread = .got u → (s.worker.m_bStop = true → u.serial < s.before) →
    EffectCountReturns cfg.build cfg.m_MaxRowCount db.query db.session u s.worker.m_rowCount
  | .act => ∀ utm todo, s.worker.thread = .doing (.process utm :: todo) → s.Requeues utm
  | .handle _ | .test | .get | .skip | .put | .join => True

/-- The invariant of an orderly stop: every request that `Stop` waits for is in one place, and not
in the part of the queue that is left behind; and `put` finds room. -/
structure Inv (s : State) : Prop where
  once : ∀ n, (s.worker.m_bStop = true → n < s.before) →
    s.count n = if n < s.accepted then 1 else 0
  before : s.before ≤ s.accepted
  posted : ∀ m ∈ s.posted, m.2.messageId = .resExecSQL
  fit : Fit s.worker.thread
  trying : s.trying = true → s.worker.thread = .idle
  stop : s.stop = .idle ↔ s.worker.m_bStop = false
  ended : s.stop = .returned → s.worker.thread = .ended
  bound : s.worker.m_queue.length ≤ dagwProcessQueueLen
  room : s.stop = .put → s.trying = false → s.worker.m_queue.length < dagwProcessQueueLen
  rest : s.worker.m_bStop = true → ∀ u ∈ s.rest, u.messageId = .reqExecSQL → s.before ≤ u.serial

omit [DecidableEq W] in
/-- The flag is raised when `stop` has been called. -/
theorem Inv.flag (h : Inv s) (hs : s.stop ≠ .idle) : s.worker.m_bStop = true :=
  Bool.eq_true_of_not_eq_false fun hflag => hs (h.stop.2 hflag)

omit [DecidableEq W] in
/-- Only an idle thread is trying to take a request. -/
theorem Inv.not_trying (h : Inv s) (hs : s.worker.thread ≠ .idle) : s.trying = false :=
  Bool.eq_false_iff.2 fun ht => hs (h.trying ht)

omit [DecidableEq W] in
/-- `stop` returns after the thread has ended. -/
theorem Inv.not_ended (h : Inv s) (hs : s.worker.thread ≠ .ended) : s.stop ≠ .returned :=
  fun hstop => hs (h.ended hstop)

omit [DecidableEq W] in
/-- A message that is queued comes to the part that is left behind, or is the next one. -/
theorem mem_rest_append {trying : Bool} {q : List UserTransferMessage} {u v : UserTransferMessage}
    (h : u ∈ if trying then (q ++ [v]).tail else q ++ [v]) :
    (u ∈ if trying then q.tail else q) ∨ u = v := by
  cases trying with
  | false => simpa using h
  | true =>
    cases q with
    | nil => cases h
    | cons u' q => simpa using h

omit [DecidableEq W] in
/-- A request that comes before `stop` keeps the invariant. -/
theorem Inv.process {utm : UserTransferMessage} (h : Inv s) (hutm : utm.messageId = .reqExecSQL)
    (hguard : Orderly cfg s (.process utm)) : Inv (s.process utm) := by
  rcases process_cases s utm with heq | ⟨hroom, heq⟩
  · rwa [heq]
  rw [heq]
  refine ⟨?_, Nat.le_succ_of_le h.before, h.posted, h.fit, h.trying, h.stop, h.ended, ?_, ?_, ?_⟩
  · intro n hn
    have hone : isRequest n { utm with serial := s.accepted } = decide (s.accepted = n) := by
      simp [isRequest, hutm]
    have hcount := h.once n hn
    have hbefore := h.before
    simp only [State.count, State.setWorker, List.countP_append, List.countP_singleton, hone,
      decide_eq_true_eq] at hcount ⊢
    split at hcount <;> split <;> split <;> omega
  · simpa [State.setWorker] using hroom
  · intro hput htrying
    have := (hguard hput).resolve_right (by simpa [State.setWorker] using htrying)
    simpa [State.setWorker] using this
  · intro hflag u hu hid
    rcases mem_rest_append hu with hu | rfl
    · exact h.rest hflag u hu hid
    · exact h.before

omit [DecidableEq W] in
/-- The thread takes a request from its queue. -/
theorem Inv.take {u : UserTransferMessage} {q : List UserTransferMessage} (h : Inv s)
    (hidle : s.worker.thread = .idle) (htrying : s.trying = true)
    (hqueue : s.worker.m_queue = u :: q) :
    Inv { s.setWorker { s.worker with m_queue := q, thread := .got u } with trying := false } := by
  have hbound := h.bound
  rw [hqueue, List.length_cons] at hbound
  refine ⟨?_, h.before, h.posted, trivial, nofun, h.stop, ?_, ?_, ?_, ?_⟩
  · intro n hn
    refine Eq.trans ?_ (h.once n hn)
    simp only [State.count, State.setWorker, hqueue, hidle, owed, List.countP_cons]
    omega
  · exact fun hstop => absurd hstop (h.not_ended (by simp [hidle]))
  · exact Nat.le_of_succ_le hbound
  · intro _ _
    exact hbound
  · intro hflag v hv
    have hmem : v ∈ s.rest := by
      simp only [State.rest, htrying, hqueue, if_true]
      exact hv
    exact h.rest hflag v hmem

omit [DecidableEq W] in
/-- A thread that goes on owes the responses of its tasks. -/
theorem owed_resume (n : Nat) (todo : List Task) :
    owed n (.resume todo) = (todo.map (Task.answers n)).sum := by
  cases todo <;> rfl

omit [DecidableEq W] in
/-- Its messages have the right ids if those of its tasks do. -/
theorem fit_resume {todo : List Task} (h : ∀ t ∈ todo, t.Proper) : Fit (.resume todo) := by
  cases todo with
  | nil => trivial
  | cons t todo => exact ⟨List.cons_ne_nil t todo, h⟩

omit [DecidableEq W] in
/-- What `OnExecSQL` leaves to do answers the request, or queues it again. -/
theorem owed_after {db : Db} {rc n : Nat} {u : UserTransferMessage}
    (hid : u.messageId = .reqExecSQL) (hend : (db.exec cfg rc u).1 ≠ .error .hang)
    (hreturns : u.serial = n →
      EffectCountReturns cfg.build cfg.m_MaxRowCount db.query db.session u rc) :
    owed n (.after (db.exec cfg rc u)) = owed n (.got u) := by
  have hgot : owed n (.got u) = if u.serial = n then 1 else 0 := by
    simp [owed, isRequest, hid]
  rw [hgot]
  rcases exec_after cfg db rc u with h | ⟨r, acts, h, hh⟩
  · rcases eq_or_ne u.serial n with hn | hn
    · have hanswers := (exec_answers (hreturns hn) hend n).1
      rwa [h] at hanswers ⊢
    · rw [h, if_neg hn]
      rfl
  · rw [h, owed_resume]
    exact (hh.tasks n).1

omit [DecidableEq W] in
/-- What is left to do of a request that was executed has messages with the right ids. -/
theorem fit_after (cfg : Cfg) (db : Db) (rc : Nat) (u : UserTransferMessage) :
    Fit (.after (db.exec cfg rc u)) := by
  rcases exec_after cfg db rc u with h | ⟨r, acts, h, hh⟩
  · rw [h]
    trivial
  · rw [h]
    exact fit_resume (hh.tasks 0).2

omit [DecidableEq W] in
/-- The thread executes the request. -/
theorem Inv.exec {u : UserTransferMessage} {db : Db} (h : Inv s)
    (hgot : s.worker.thread = .got u) (hid : u.messageId = .reqExecSQL)
    (hend : (db.exec cfg s.worker.m_rowCount u).1 ≠ .error .hang)
    (hguard : Orderly cfg s (.exec db)) :
    Inv (s.setWorker { s.worker with
      m_rowCount := (db.exec cfg s.worker.m_rowCount u).2.m_rowCount
      thread := .after (db.exec cfg s.worker.m_rowCount u) }) := by
  have htrying : s.trying = false := h.not_trying (by simp [hgot])
  refine ⟨?_, h.before, h.posted, ?_, ?_, h.stop, ?_, h.bound, h.room, h.rest⟩
  · intro n hn
    have howed : owed n (.after (db.exec cfg s.worker.m_rowCount u)) =
        owed n s.worker.thread := by
      rw [hgot]
      refine owed_after hid hend ?_
      rintro rfl
      exact hguard u hgot hn
    refine Eq.trans ?_ (h.once n hn)
    simp only [State.count, State.setWorker, howed]
  · exact fit_after cfg db s.worker.m_rowCount u
  · intro ht
    exact absurd (htrying.symm.trans ht) nofun
  · exact fun hstop => absurd hstop (h.not_ended (by simp [hgot]))

/-- What a task of the worker must do for the invariant. -/
structure Carries (s : State) (t : Task) (queue : List UserTransferMessage)
    (posted : List (ServiceIdentifier × UserTransferMessage)) (rest : List Task) : Prop where
  once : ∀ n, (s.worker.m_bStop = true → n < s.before) →
    posted.countP (·.2.serial = n) + queue.countP (isRequest n) +
        (rest.map (Task.answers n)).sum =
      s.posted.countP (·.2.serial = n) + s.worker.m_queue.countP (isRequest n) + t.answers n
  posted : ∀ m ∈ posted, m.2.messageId = .resExecSQL
  proper : ∀ t' ∈ rest, t'.Proper
  bound : queue.length ≤ dagwProcessQueueLen
  room : s.stop = .put → queue.length < dagwProcessQueueLen
  rest : s.worker.m_bStop = true → ∀ u ∈ queue, u.messageId = .reqExecSQL → s.before ≤ u.serial

omit [DecidableEq W] in
/-- A task keeps the invariant for the queue and the responses that it leaves. -/
theorem Inv.carries {t : Task} {queue : List UserTransferMessage}
    {posted : List (ServiceIdentifier × UserTransferMessage)} {rest : List Task} (h : Inv s)
    (htrying : s.trying = false) (hproper : t.Proper) (hp : Performed s t queue posted rest)
    (hguard : ∀ utm, t = .process utm → s.Requeues utm) : Carries s t queue posted rest := by
  have hrest : s.rest = s.worker.m_queue := by simp [State.rest, htrying]
  have hleft := h.rest
  rw [hrest] at hleft
  have hroom := fun hput => h.room hput htrying
  cases hp with
  | @post dest utm =>
    refine ⟨?_, ?_, nofun, h.bound, hroom, hleft⟩
    · intro n _
      simp only [List.countP_append, List.countP_singleton, Task.answers, decide_eq_true_eq,
        List.map_nil, List.sum_nil]
      omega
    · intro m hm
      rcases List.mem_append.1 hm with hm | hm
      · exact h.posted m hm
      · rw [List.mem_singleton.1 hm]
        exact hproper
  | @requeue utm hlt =>
    have hre := hguard utm rfl
    have hone : ∀ n, isRequest n utm = decide (utm.serial = n) := fun n => by
      have hid : utm.messageId = .reqExecSQL := hproper
      simp [isRequest, hid]
    refine ⟨?_, h.posted, nofun, ?_, ?_, ?_⟩
    · intro n _
      simp only [List.countP_append, List.countP_singleton, Task.answers, hone, decide_eq_true_eq,
        List.map_nil, List.sum_nil]
      omega
    · simpa using hlt
    · intro hput
      have hflag : s.worker.m_bStop = true := h.flag (by simp [hput])
      rw [State.Requeues, if_pos hflag] at hre
      simpa using hre.2 hput
    · intro hflag u hu hid
      rw [State.Requeues, if_pos hflag] at hre
      rcases List.mem_append.1 hu with hu | hu
      · exact hleft hflag u hu hid
      · rw [List.mem_singleton.1 hu]
        exact hre.1
  | @drop utm hfull =>
    have hre := hguard utm rfl
    refine ⟨?_, h.posted, nofun, h.bound, hroom, hleft⟩
    intro n hn
    have hother : utm.serial ≠ n := by
      rintro rfl
      unfold State.Requeues at hre
      split at hre
      · next hflag => exact absurd hre.1 (Nat.not_le.2 (hn hflag))
      · exact hfull hre
    simp [Task.answers, hother]
  | silent hanswers hsilent =>
    refine ⟨?_, h.posted, fun t' ht' => (hsilent t' ht').proper, h.bound, hroom, hleft⟩
    intro n _
    have hsum : (rest.map (Task.answers n)).sum = 0 := by
      refine List.sum_eq_zero ?_
      intro k hk
      obtain ⟨t', ht', rfl⟩ := List.mem_map.1 hk
      exact (hsilent t' ht').answers n
    rw [hanswers n, hsum]

/-- The thread does a task. -/
theorem Inv.act {t : Task} {l : List Task} {reply : Reply} (h : Inv s)
    (hdoing : s.worker.thread = .doing (t :: l)) (hw : g.workers w = s.worker)
    (hposted : g.posted = s.posted) (hguard : Orderly cfg s .act) :
    Inv { s.setWorker { (perform cfg (some w) g reply t).1.workers w with
        thread := .resume ((perform cfg (some w) g reply t).2 ++ l) } with
      posted := (perform cfg (some w) g reply t).1.posted } := by
  have htrying : s.trying = false := h.not_trying (by simp [hdoing])
  have hflag : ((perform cfg (some w) g reply t).1.workers w).m_bStop = s.worker.m_bStop :=
    (perform_m_bStop reply t).trans (congrArg TDBProcess.m_bStop hw)
  have hfit := h.fit
  rw [hdoing] at hfit
  have hcarries := h.carries htrying (hfit.2 t List.mem_cons_self)
    (performed_perform cfg hw hposted reply t) fun utm ht => hguard utm l (ht ▸ hdoing)
  refine ⟨?_, h.before, hcarries.posted, ?_, ?_, ?_, ?_, hcarries.bound, ?_, ?_⟩
  · intro n hn
    rw [State.setWorker, hflag] at hn
    refine Eq.trans ?_ (h.once n hn)
    have hcount := hcarries.once n hn
    simp only [State.count, State.setWorker, hdoing]
    rw [owed_resume]
    simp only [owed, List.map_append, List.sum_append, List.map_cons, List.sum_cons]
    omega
  · refine fit_resume ?_
    intro t' ht'
    rcases List.mem_append.1 ht' with ht' | ht'
    · exact hcarries.proper t' ht'
    · exact hfit.2 t' (List.mem_cons_of_mem t ht')
  · intro ht
    exact absurd (htrying.symm.trans ht) nofun
  · rw [State.setWorker, hflag]
    exact h.stop
  · exact fun hstop => absurd hstop (h.not_ended (by simp [hdoing]))
  · intro hput _
    exact hcarries.room hput
  · intro hflag' u hu
    rw [State.setWorker, hflag] at hflag'
    have hmem : u ∈ ((perform cfg (some w) g reply t).1.workers w).m_queue := by
      simpa [State.rest, State.setWorker, htrying] using hu
    exact hcarries.rest hflag' u hmem

omit [DecidableEq W] in
/-- `Stop` is called: everything accepted so far is answered, in the worker's hands, or taken by it
next. -/
theorem Inv.call (h : Inv s) (hflag : s.worker.m_bStop = false)
    (hguard : Orderly cfg s .call) :
    Inv { s.setWorker { s.worker with m_bStop := true } with
      stop := .put
      before := s.accepted } := by
  refine ⟨?_, Nat.le_refl _, h.posted, h.fit, h.trying, by simp [State.setWorker], nofun, h.bound,
    ?_, ?_⟩
  · intro n _
    exact h.once n fun ht => absurd (hflag.symm.trans ht) nofun
  · intro _ htrying
    rcases hguard hflag with hnil | ⟨ht, -⟩
    · simp [State.setWorker, hnil, dagwProcessQueueLen]
    · exact absurd (htrying.symm.trans ht) nofun
  · intro _ u hu
    have hnil : s.rest = [] := by
      rcases hguard hflag with hnil | ⟨ht, hone⟩
      · simp [State.rest, hnil]
      · obtain ⟨v, hv⟩ := List.length_eq_one_iff.1 hone
        simp [State.rest, ht, hv]
    have hmem : u ∈ s.rest := hu
    rw [hnil] at hmem
    cases hmem

omit [DecidableEq W] in
/-- `stop` puts the message that wakes the thread. -/
theorem Inv.put {p : TDBProcess} (h : Inv s) (hstop : s.stop = .put)
    (hput : s.worker.tryPut wakeUp = some p) : Inv { s.setWorker p with stop := .join } := by
  obtain ⟨hroom, rfl⟩ := tryPut_some hput
  have hflag : s.worker.m_bStop ≠ false := by simp [h.flag (by simp [hstop])]
  refine ⟨?_, h.before, h.posted, h.fit, h.trying, ⟨nofun, fun hf => absurd hf hflag⟩, nofun, ?_,
    nofun, ?_⟩
  · intro n hn
    refine Eq.trans ?_ (h.once n hn)
    have hwake : isRequest n wakeUp = false := by simp [isRequest, wakeUp]
    simp [State.count, State.setWorker, hwake]
  · simpa [State.setWorker] using hroom
  · intro hf u hu hid
    rcases mem_rest_append hu with hu | rfl
    · exact h.rest hf u hu hid
    · cases hid

/-- The invariant holds in every state that orderly steps reach. -/
theorem inv_inductive : ((system W cfg).restrict (Orderly cfg)).Inductive Inv where
  init s h := by
    refine ⟨?_, ?_, ?_, ?_, ?_, ?_, ?_, ?_, ?_, ?_⟩
    · intro n _
      simp [State.count, h.posted, h.queue, h.thread, h.accepted, owed]
    · rw [h.before]
      exact Nat.zero_le _
    · simp [h.posted]
    · rw [h.thread]
      trivial
    · exact fun _ => h.thread
    · simp [h.stop, h.running]
    · exact fun hstop => absurd (h.stop.symm.trans hstop) nofun
    · simp [h.queue]
    · exact fun hstop => absurd (h.stop.symm.trans hstop) nofun
    · exact fun hflag => absurd (h.running.symm.trans hflag) nofun
  step s a s' := by
    rintro ⟨hstep, hguard⟩ h
    cases hstep with
    | process hutm => exact h.process hutm hguard
    | handle => exact ⟨h.once, h.before, h.posted, h.fit, h.trying, h.stop, h.ended, h.bound,
        h.room, h.rest⟩
    | quit hidle htrying =>
      refine ⟨?_, h.before, h.posted, trivial, ?_, h.stop, fun _ => rfl, h.bound, h.room, h.rest⟩
      · intro n hn
        refine Eq.trans ?_ (h.once n hn)
        simp [State.count, State.goto, State.setWorker, hidle, owed]
      · exact fun ht => absurd (htrying.symm.trans ht) nofun
    | again hidle htrying hflag =>
      refine ⟨h.once, h.before, h.posted, h.fit, fun _ => hidle, h.stop, h.ended, h.bound, nofun,
        ?_⟩
      exact fun ht => absurd (hflag.symm.trans ht) nofun
    | take hidle htrying hqueue => exact h.take hidle htrying hqueue
    | sleep hidle htrying hqueue =>
      refine ⟨h.once, h.before, h.posted, h.fit, nofun, h.stop, h.ended, h.bound, ?_, ?_⟩
      · intro _ _
        simp [hqueue, dagwProcessQueueLen]
      · intro _ u hu
        simp [State.rest, hqueue] at hu
    | exec hgot hid hend => exact h.exec hgot hid hend hguard
    | skip hgot hid =>
      refine ⟨?_, h.before, h.posted, trivial, fun _ => rfl, h.stop, ?_, h.bound, h.room, h.rest⟩
      · intro n hn
        refine Eq.trans ?_ (h.once n hn)
        simp [State.count, State.goto, State.setWorker, hgot, owed, isRequest, hid]
      · exact fun hstop => absurd hstop (h.not_ended (by simp [hgot]))
    | act hdoing hw hposted => exact h.act hdoing hw hposted hguard
    | call _ hflag => exact h.call hflag hguard
    | callAgain => exact h
    | put hstop hput => exact h.put hstop hput
    | join hstop hended =>
      have hflag : s.worker.m_bStop ≠ false := by simp [h.flag (by simp [hstop])]
      exact ⟨h.once, h.before, h.posted, h.fit, h.trying, ⟨nofun, fun hf => absurd hf hflag⟩,
        fun _ => hended, h.bound, nofun, h.rest⟩

/-! ## Orderly stops -/

/-- `Stop` is between its call and its return. -/
def State.InStop (s : State) : Prop := s.stop = .put ∨ s.stop = .join

omit [DecidableEq W] in
/-- In `stop`, it has been called. -/
theorem State.InStop.ne_idle (h : s.InStop) : s.stop ≠ .idle := by
  rcases h with h | h <;> simp [h]

/-- While `Stop` runs, it or the worker can take a step. -/
theorem Inv.enabled [Nonempty W] (h : Inv s) (hs : s.InStop) :
    ∃ a t, a.own = true ∧ Step W cfg s a t := by
  have hflag : s.worker.m_bStop = true := h.flag hs.ne_idle
  cases hthread : s.worker.thread with
  | idle =>
    cases htrying : s.trying with
    | true =>
      cases hqueue : s.worker.m_queue with
      | nil => exact ⟨.get, _, rfl, .sleep hthread htrying hqueue⟩
      | cons u q => exact ⟨.get, _, rfl, .take hthread htrying hqueue⟩
    | false => exact ⟨.test, _, rfl, .quit hthread htrying hflag⟩
  | got u =>
    by_cases hid : u.messageId = .reqExecSQL
    · refine ⟨.exec ⟨Unit, refusing, (), 0⟩, _, rfl, .exec hthread hid ?_⟩
      rw [exec_refusing]
      exact nofun
    · exact ⟨.skip, _, rfl, .skip hthread hid⟩
  | doing todo =>
    have hfit := h.fit
    rw [hthread] at hfit
    obtain ⟨t, l, rfl⟩ := List.exists_cons_of_ne_nil hfit.1
    obtain ⟨w⟩ := ‹Nonempty W›
    let g : Dagw.State W := ⟨fun _ => none, fun _ => s.worker, .serving [], s.posted, 0, [], 0⟩
    exact ⟨.act, _, rfl, @Step.act W _ cfg s t l g w ⟨[], true, []⟩ hthread rfl rfl⟩
  | ended =>
    rcases hs with hs | hs
    · have htrying : s.trying = false := h.not_trying (by simp [hthread])
      have hput : s.worker.tryPut wakeUp =
          some { s.worker with m_queue := s.worker.m_queue ++ [wakeUp] } :=
        if_pos (h.room hs htrying)
      exact ⟨.put, _, rfl, .put hs hput⟩
    · exact ⟨.join, _, rfl, .join hs hthread⟩

omit [DecidableEq W] in
/-- When `Stop` returns, nothing that it waited for is left. -/
theorem Inv.responses (h : Inv s) (hs : s.stop = .returned) {n : Nat} (hn : n < s.before) :
    s.responses n = 1 := by
  have hended := h.ended hs
  have htrying : s.trying = false := h.not_trying (by simp [hended])
  have hflag : s.worker.m_bStop = true := h.flag (by simp [hs])
  have hqueue : s.worker.m_queue.countP (isRequest n) = 0 := by
    rw [List.countP_eq_zero]
    intro u hu hreq
    have hmem : u ∈ s.rest := by simpa [State.rest, htrying] using hu
    simp only [isRequest, decide_eq_true_eq] at hreq
    have hle := h.rest hflag u hmem hreq.1
    omega
  have hcount := h.once n fun _ => hn
  have hresponses : s.responses n = s.posted.countP (·.2.serial = n) := by
    refine List.countP_congr ?_
    intro m hm
    simp [h.posted m hm]
  rw [State.count, hqueue, hended, if_pos (hn.trans_le h.before), ← hresponses] at hcount
  exact hcount

/-- What stopping should do, at a moment of a run: until `Stop` returns the worker or `Stop` can
take a step, whatever happens they take a bounded number of them, and when it has returned every
request that was accepted before the call has its response. -/
structure State.Stops (W : Type) [DecidableEq W] (cfg : Cfg) (s : State) : Prop where
  enabled : s.InStop → ∃ a t, a.own = true ∧ Step W cfg s a t
  bounded : s.InStop → ∀ as t, (system W cfg).Run s as t → as.countP Label.own ≤ s.left cfg
  answered : s.stop = .returned → ∀ n < s.before, s.responses n = 1

/-- **Stopping a worker.** In every run whose steps are all orderly, stopping does in every state
what it should: `Stop` comes to the end of `join`, and nothing accepted before it is lost. -/
theorem stop_ends [Nonempty W] (hs : ((system W cfg).restrict (Orderly cfg)).Reachable s) :
    s.Stops W cfg := by
  have h := inv_inductive.reachable hs
  refine ⟨fun hin => h.enabled hin, ?_, fun hret n hn => h.responses hret hn⟩
  intro hin as t hrun
  have hflag : s.worker.m_bStop = true := h.flag hin.ne_idle
  exact hrun.countP_le (I := Flagged) (fun _ _ _ hstep hf => hf.step hstep)
    (fun _ _ _ hstep hf => hf.left_le hstep) ⟨hflag, h.trying⟩

/-! ## A full queue -/

/-- `put` waits, and nobody will take a message out of the full queue. -/
structure Blocked (s : State) : Prop where
  stop : s.stop = .put
  flag : s.worker.m_bStop = true
  trying : s.trying = false
  full : ¬ s.worker.m_queue.length < dagwProcessQueueLen

/-- A worker that is blocked stays so. -/
theorem Blocked.step {a : Label} (h : Blocked s) (hstep : Step W cfg s a t) : Blocked t := by
  cases hstep with
  | @process utm _ =>
    rcases process_cases s utm with heq | ⟨hroom, -⟩
    · rwa [heq]
    · exact absurd hroom h.full
  | handle | callAgain | quit | exec | skip => exact ⟨h.stop, h.flag, h.trying, h.full⟩
  | again _ _ hflag => exact absurd (hflag.symm.trans h.flag) nofun
  | take _ htrying | sleep _ htrying => exact absurd (h.trying.symm.trans htrying) nofun
  | @act t l g w reply hdoing hw hposted =>
    refine ⟨h.stop, ?_, h.trying, ?_⟩
    · exact (perform_m_bStop reply t).trans ((congrArg TDBProcess.m_bStop hw).trans h.flag)
    · have hp := performed_perform cfg hw hposted reply t
      show ¬ ((perform cfg (some w) g reply t).1.workers w).m_queue.length < _
      generalize ((perform cfg (some w) g reply t).1.workers w).m_queue = queue at hp ⊢
      generalize (perform cfg (some w) g reply t).1.posted = posted at hp
      generalize (perform cfg (some w) g reply t).2 = rest at hp
      cases hp with
      | requeue hroom => exact absurd hroom h.full
      | post | drop | silent => exact h.full
  | call hstop => exact absurd (h.stop.symm.trans hstop) nofun
  | put _ hput => exact absurd (tryPut_some hput).1 h.full
  | join hstop => exact absurd (h.stop.symm.trans hstop) nofun

/-- After every run. -/
theorem Blocked.run {as : List Label} (h : Blocked s) (hrun : (system W cfg).Run s as t) :
    Blocked t := by
  induction hrun with
  | nil => exact h
  | cons hstep _ ih => exact ih (h.step hstep)

/-- The worker before its first test, with `n` requests in its queue. -/
structure Waiting (n : Nat) (s : State) : Prop where
  length : s.worker.m_queue.length = n
  flag : s.worker.m_bStop = false
  trying : s.trying = false
  stop : s.stop = .idle

/-- Requests that come fill the queue of a worker that does not take them. -/
theorem Waiting.fill (cfg : Cfg) {n : Nat} (k : Nat) (hk : n + k = dagwProcessQueueLen)
    (h : Waiting n s) : ∃ s' as, (system W cfg).Run s as s' ∧ Waiting dagwProcessQueueLen s' := by
  induction k generalizing n s with
  | zero => exact ⟨s, [], .nil s, by rwa [← hk]⟩
  | succ k ih =>
    have hnext : Waiting (n + 1) (s.process LostConnection.request) := by
      have hroom : s.worker.m_queue.length < dagwProcessQueueLen := by
        rw [h.length]
        omega
      simp only [State.process, TDBProcess.tryPut, if_pos hroom]
      exact ⟨by simp [State.setWorker, h.length], h.flag, h.trying, h.stop⟩
    obtain ⟨s', as, hrun, h'⟩ := ih (by omega) hnext
    exact ⟨s', _, .cons (.process rfl) hrun, h'⟩

/-- An idle worker with a handle. -/
def start : State := ⟨⟨[], some 0, 0, false, .idle⟩, false, .idle, [], 0, 0⟩

/-- The state is an initial one. -/
theorem start_initial : Initial start := ⟨rfl, rfl, rfl, rfl, rfl, rfl, rfl, rfl⟩

/-- In every configuration: if the flag is set on a full queue before the worker tests it, `put`
never returns, whatever the threads do. -/
theorem put_stuck (cfg : Cfg) : ∃ s, (system W cfg).Reachable s ∧
    ∀ as t, (system W cfg).Run s as t → t.stop = .put := by
  have hstart : Waiting 0 start := ⟨rfl, rfl, rfl, rfl⟩
  obtain ⟨s, as, hrun, h⟩ := hstart.fill (W := W) cfg dagwProcessQueueLen (Nat.zero_add _)
  have hcall : (system W cfg).Run s [.call] _ := .cons (.call h.stop h.flag) (.nil _)
  refine ⟨_, ⟨start, as ++ [.call], start_initial, hrun.append hcall⟩, ?_⟩
  intro bs t hrun'
  have hblocked : Blocked { s.setWorker { s.worker with m_bStop := true } with
      stop := .put
      before := s.accepted } :=
    ⟨rfl, rfl, h.trying, fun hlt => Nat.lt_irrefl _ (h.length ▸ hlt)⟩
  exact (hblocked.run hrun').stop

end

/-! ## Two small runs -/

namespace OneRequest

open FullQueue (cfg working exec_working)
open LostConnection (request)
open Sample (numbered)

/-- A request is queued and `Stop` is called before the worker tests the flag: it ends without
another look at the queue, `Stop` returns, and the request has no response. -/
theorem not_stopped : ¬ ∀ s, (system Unit cfg).Reachable s → s.Stops Unit cfg := by
  intro hall
  have hrun : (system Unit cfg).Run start [.process request, .call, .test, .put, .join]
      ⟨⟨[numbered 0, wakeUp], some 0, 0, true, .ended⟩, false, .returned, [], 1, 1⟩ :=
    .cons (.process rfl) (.cons (.call rfl rfl) (.cons (.quit rfl rfl rfl)
      (.cons (.put rfl rfl) (.cons (.join rfl rfl) (.nil _)))))
  have hone := (hall _ ⟨start, _, start_initial, hrun⟩).answered rfl 0 Nat.one_pos
  exact absurd hone (by decide)

/-- The theorem above on a run in which the worker has taken the request when `Stop` is called. -/
theorem stop_ends_answered : ∃ s, ((system Unit cfg).restrict (Orderly cfg)).Reachable s ∧
    s.stop = .returned ∧ s.before = 1 ∧ s.Stops Unit cfg := by
  have hexec : working.exec cfg 0 (numbered 0) = _ := exec_working 0
  have hrun : ∃ s as, ((system Unit cfg).restrict (Orderly cfg)).Run start as s ∧
      s.stop = .returned ∧ s.before = 1 := by
    refine ⟨_, [.process request, .test, .get, .call, .exec working, .act, .test, .put, .join],
      .cons ⟨.process rfl, nofun⟩ (.cons ⟨.again rfl rfl rfl, trivial⟩
      (.cons ⟨.take (u := numbered 0) (q := []) rfl rfl rfl, trivial⟩
      (.cons ⟨.call rfl rfl, fun _ => .inl rfl⟩
      (.cons ⟨.exec (u := numbered 0) rfl rfl ?_, ?_⟩
      (.cons ⟨@Step.act Unit _ cfg _ (.postMessage 7
          { numbered 0 with messageId := .resExecSQL, res := 7 }) []
          ⟨fun _ => none, fun _ => _, .serving [], [], 0, [], 0⟩ () ⟨[], true, []⟩ ?_ rfl rfl, ?_⟩
      (.cons ⟨.quit ?_ rfl rfl, trivial⟩ (.cons ⟨.put rfl rfl, trivial⟩
      (.cons ⟨.join rfl ?_, trivial⟩ (.nil _))))))))), rfl, rfl⟩
    · change (working.exec cfg 0 (numbered 0)).1 ≠ _
      rw [hexec]
      exact nofun
    · intro u _ _ hbuild
      cases hbuild
    · change Running.after (working.exec cfg 0 (numbered 0)) = _
      rw [hexec]
      rfl
    · intro utm todo h
      change Running.after (working.exec cfg 0 (numbered 0)) = _ at h
      rw [hexec] at h
      cases h
    · rfl
    · rfl
  obtain ⟨s, as, hrun, hreturned, hbefore⟩ := hrun
  have hreach : ((system Unit cfg).restrict (Orderly cfg)).Reachable s :=
    ⟨start, as, start_initial, hrun⟩
  exact ⟨s, hreach, hreturned, hbefore, stop_ends hreach⟩

end OneRequest

end TelecomSuite.Dagw.Stopping
