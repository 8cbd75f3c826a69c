import TelecomSuite.Lib.Accounting
import TelecomSuite.Dagw.Frame

/-!
# Every request is answered exactly once

A request the gateway received is, at every moment, in exactly one place: answered, queued at a
worker, taken by a worker, or among the responses and retries a worker still has to carry out
(`Accounted`). Every step keeps this as long as a worker that queues a request again finds room in
its queue and no exception leaves `OnExecSQL` (`RetryFits`): the source looks at the result of
`tryPut` where a request arrives, but not where `OnExecSQL` queues it again. When all workers are
done nothing is left in the other places, so every request has its one response
(`one_response_each`). `FullQueue.not_one_response_each` runs the `FOR_ODBC` build into the other
case.
-/

namespace TelecomSuite.Dagw

open Transition Fallible

section
variable {W : Type}

/-! ## Where a request is -/

/-- How often the request `n` is answered or queued again by a task. -/
def Task.answers (n : Nat) : Task → Nat
  | .postMessage _ utm | .process utm => if utm.serial = n then 1 else 0
  | .errProcess _ _ | .reconnect _ _ | .connect _ _ | .assign _ _ => 0

/-- How often the request `n` is in the hands of a thread. -/
def Running.answers (n : Nat) : Running → Nat
  | .idle | .ended => 0
  | .got utm => if utm.serial = n then 1 else 0
  | .doing todo => (todo.map (Task.answers n)).sum

/-- How often the request `n` is at a worker. -/
def TDBProcess.answers (n : Nat) (p : TDBProcess) : Nat :=
  p.m_queue.countP (·.serial = n) + p.thread.answers n

/-- The responses to the request `n`. -/
def State.responses (n : Nat) (s : State W) : Nat :=
  s.posted.countP fun m => m.2.messageId = .resExecSQL ∧ m.2.serial = n

/-- How often the request `n` is anywhere. -/
def State.answers [Fintype W] (n : Nat) (s : State W) : Nat :=
  s.posted.countP (·.2.serial = n) + ∑ w, (s.workers w).answers n

/-- The messages of a task have the id that fits it. -/
def Task.Proper : Task → Prop
  | .postMessage _ utm => utm.messageId = .resExecSQL
  | .process utm => utm.messageId = .reqExecSQL
  | .errProcess _ _ | .reconnect _ _ | .connect _ _ | .assign _ _ => True

/-- The messages of a thread have the ids that fit. -/
def Running.Proper : Running → Prop
  | .idle | .ended => True
  | .got utm => utm.messageId = .reqExecSQL
  | .doing todo => ∀ t ∈ todo, t.Proper

/-- The messages at a worker have the ids that fit. -/
def TDBProcess.Proper (p : TDBProcess) : Prop :=
  (∀ utm ∈ p.m_queue, utm.messageId = .reqExecSQL) ∧ p.thread.Proper

/-- Every received request is in exactly one place, and no other message is anywhere. -/
structure Accounted [Fintype W] (s : State W) : Prop where
  once : ∀ n, s.answers n = if n < s.received then 1 else 0
  service : ∃ todo, s.service = .serving todo ∧ ∀ t ∈ todo, t.Silent
  posted : ∀ m ∈ s.posted, m.2.messageId = .resExecSQL
  workers : ∀ w, (s.workers w).Proper

/-- A stage of `reconnect` holds no message. -/
theorem Task.Silent.answers {t : Task} (h : t.Silent) (n : Nat) : t.answers n = 0 := by
  cases t with
  | postMessage | process => cases h
  | errProcess | reconnect | connect | assign => rfl

/-- So all its messages have the right id. -/
theorem Task.Silent.proper {t : Task} (h : t.Silent) : t.Proper := by
  cases t with
  | postMessage | process => cases h
  | errProcess | reconnect | connect | assign => trivial

/-- A thread that goes on has the messages of what is left to do. -/
theorem Running.answers_resume (n : Nat) (todo : List Task) :
    (Running.resume todo).answers n = (todo.map (Task.answers n)).sum := by
  cases todo <;> rfl

/-- They have the right ids if those of all its tasks do. -/
theorem Running.proper_resume {todo : List Task} (h : ∀ t ∈ todo, t.Proper) :
    (Running.resume todo).Proper := by
  cases todo with
  | nil => trivial
  | cons t todo => exact h

/-! ## What the steps do to the counts -/

/-- The same messages in the same places are counted alike. -/
theorem SameTraffic.answers [Fintype W] {s s' : State W} (h : SameTraffic s s') (n : Nat) :
    s'.answers n = s.answers n := by
  have hw : ∀ w, (s'.workers w).answers n = (s.workers w).answers n := fun w => by
    simp only [TDBProcess.answers, h.queue w, h.thread w]
  simp only [State.answers, h.posted, hw]

/-- And their ids stay right. -/
theorem SameTraffic.proper {s s' : State W} (h : SameTraffic s s') {w : W}
    (hp : (s.workers w).Proper) : (s'.workers w).Proper := by
  rw [TDBProcess.Proper, h.queue w, h.thread w]
  exact hp

variable [DecidableEq W]

/-- The count changes by what the worker has more or less. -/
theorem answers_setWorker [Fintype W] (s : State W) (w : W) (p : TDBProcess) (n : Nat) :
    (s.setWorker w p).answers n + (s.workers w).answers n = s.answers n + p.answers n := by
  have h := Accounting.sum_update_add (TDBProcess.answers n) s.workers w p
  simp only [State.answers, State.setWorker]
  omega

omit [DecidableEq W] in
/-- A posted message is counted once. -/
theorem answers_post [Fintype W] (s : State W) (dest : ServiceIdentifier)
    (utm : UserTransferMessage) (n : Nat) :
    (s.post dest utm).answers n = s.answers n + if utm.serial = n then 1 else 0 := by
  simp only [State.answers, State.post, List.countP_append, List.countP_singleton,
    decide_eq_true_eq]
  omega

/-- So is a message that goes into a queue. -/
theorem tryPut_answers {p p' : TDBProcess} {utm : UserTransferMessage}
    (h : p.tryPut utm = some p') (n : Nat) :
    p'.answers n = p.answers n + if utm.serial = n then 1 else 0 := by
  obtain ⟨-, rfl⟩ := tryPut_some h
  simp only [TDBProcess.answers, List.countP_append, List.countP_singleton, decide_eq_true_eq]
  omega

/-- A request may go into a queue. -/
theorem tryPut_proper {p p' : TDBProcess} {utm : UserTransferMessage}
    (h : p.tryPut utm = some p') (hp : p.Proper) (hu : utm.messageId = .reqExecSQL) :
    p'.Proper := by
  obtain ⟨-, rfl⟩ := tryPut_some h
  refine ⟨?_, hp.2⟩
  intro u hmem
  rcases List.mem_append.1 hmem with hmem | hmem
  · exact hp.1 u hmem
  · rw [List.mem_singleton.1 hmem]
    exact hu

/-- `s'` differs from `s` by `k n` more places for each number `n`. -/
structure Adds [Fintype W] (k : Nat → Nat) (s s' : State W) : Prop where
  answers : ∀ n, s'.answers n = s.answers n + k n
  received : s'.received = s.received
  posted : (∀ m ∈ s.posted, m.2.messageId = .resExecSQL) →
    ∀ m ∈ s'.posted, m.2.messageId = .resExecSQL
  workers : ∀ w, (s.workers w).Proper → (s'.workers w).Proper
  thread : ∀ w, (s'.workers w).thread = (s.workers w).thread

/-- One place more for the message with number `i`. -/
abbrev OneMore [Fintype W] (i : Nat) (s s' : State W) : Prop :=
  Adds (fun n => if i = n then 1 else 0) s s'

omit [DecidableEq W] in
/-- The same messages: nothing is added. -/
theorem SameTraffic.adds [Fintype W] {s s' : State W} (h : SameTraffic s s') :
    Adds (fun _ => 0) s s' where
  answers n := h.answers n
  received := h.received
  posted hp := by rw [h.posted]; exact hp
  workers _ hw := h.proper hw
  thread := h.thread

omit [DecidableEq W] in
/-- Steps before that move no message change nothing of what is added. -/
theorem Adds.of_same [Fintype W] {k : Nat → Nat} {s s₁ s' : State W} (h₁ : SameTraffic s s₁)
    (h : Adds k s₁ s') : Adds k s s' where
  answers n := by rw [h.answers n, h₁.answers n]
  received := h.received.trans h₁.received
  posted hp := h.posted (by rw [h₁.posted]; exact hp)
  workers w hw := h.workers w (h₁.proper hw)
  thread w := (h.thread w).trans (h₁.thread w)

omit [DecidableEq W] in
/-- A posted response is one place more for its message. -/
theorem oneMore_post [Fintype W] (s : State W) (dest : ServiceIdentifier)
    (utm : UserTransferMessage) (h : utm.messageId = .resExecSQL) :
    OneMore utm.serial s (s.post dest utm) where
  answers n := answers_post s dest utm n
  received := rfl
  posted hp m hm := by
    rcases List.mem_append.1 hm with hm | hm
    · exact hp m hm
    · rw [List.mem_singleton.1 hm]
      exact h
  workers _ hw := hw
  thread _ := rfl

/-- So is a request in a queue. -/
theorem oneMore_tryPut [Fintype W] {s : State W} {w : W} {utm : UserTransferMessage}
    {p : TDBProcess} (h : (s.workers w).tryPut utm = some p) (hu : utm.messageId = .reqExecSQL) :
    OneMore utm.serial s (s.setWorker w p) where
  answers n := by
    have h₁ := answers_setWorker s w p n
    have h₂ := tryPut_answers h n
    omega
  received := rfl
  posted hp := hp
  workers v hv := by
    rcases eq_or_ne v w with rfl | hvw
    · simpa [State.setWorker] using tryPut_proper h hv hu
    · simpa [State.setWorker, hvw] using hv
  thread v := by
    obtain ⟨-, rfl⟩ := tryPut_some h
    rcases eq_or_ne v w with rfl | hvw
    · simp [State.setWorker]
    · simp [State.setWorker, hvw]

/-- `HandleExecSQL` answers the request or queues it, once, in each of its branches. -/
theorem handleExecSQL_oneMore [Fintype W] (cfg : Cfg) (s : State W) (sender : ServiceIdentifier)
    (utm : UserTransferMessage) (h : utm.messageId = .reqExecSQL) :
    OneMore utm.serial s (handleExecSQL cfg s sender utm) := by
  unfold handleExecSQL
  split
  · exact oneMore_post s sender (utm.respond (-1)) rfl
  · next info _ =>
    obtain ⟨hserial, hid⟩ := route_message info utm
    rw [← hserial]
    refine .of_same (sameTraffic_setInfo s utm.sourceName (route info utm).2.1) ?_
    dsimp only
    split
    · exact oneMore_post _ sender ((route info utm).2.2.respond (-1)) rfl
    · split
      · split
        · next hput => exact oneMore_tryPut hput (hid.trans h)
        · exact oneMore_post _ sender ((route info utm).2.2.respond (-1)) rfl
      · have := oneMore_post (s.setInfo utm.sourceName (route info utm).2.1) sender
          ((route info utm).2.2.respond (-1)) rfl
        exact ⟨this.answers, this.received, this.posted, this.workers, this.thread⟩

/-- Carrying out a task on a worker's thread moves its messages, if it has any, to where they are
answered or queued, provided a request that is queued again finds room. -/
theorem perform_adds [Fintype W] (cfg : Cfg) {w : W} {s : State W} (reply : Reply) {t : Task}
    (hp : t.Proper)
    (hroom : ∀ utm, t = .process utm → (s.workers w).m_queue.length < dagwProcessQueueLen) :
    Adds (fun n => t.answers n) s (perform cfg (some w) s reply t).1 := by
  cases t with
  | postMessage dest utm => exact oneMore_post s dest utm hp
  | process utm =>
    have hput : (s.workers w).tryPut utm =
        some { s.workers w with m_queue := (s.workers w).m_queue ++ [utm] } := by
      rw [TDBProcess.tryPut, if_pos (hroom utm rfl)]
    simp only [perform, hput]
    exact oneMore_tryPut hput hp
  | errProcess | connect => exact (SameTraffic.refl s).adds
  | reconnect src todo => exact (sameTraffic_reconnectRelease s reply src todo).adds
  | assign src todo => exact (sameTraffic_reconnectAssign s reply src todo).adds

/-- The actions of `OnExecSQL` answer the request, or queue it again, once. -/
theorem Handled.tasks {b : Build} {k : SxCode} {sender : ServiceIdentifier}
    {u₀ : UserTransferMessage} {r : Option (Except Fault Unit)} {acts : List Action}
    (h : Handled b k sender u₀ r (.ok ()) acts) (n : Nat) :
    ((acts.map Action.task).map (Task.answers n)).sum = (if u₀.serial = n then 1 else 0) ∧
      ∀ t ∈ acts.map Action.task, t.Proper := by
  cases h with
  | rejected hu | completed hu | failed _ hu | ignored _ _ _ hu =>
    simp [Action.task, Task.answers, Task.Proper, hu.same.serial, hu.messageId]
  | retried _ _ _ hu hid =>
    simp [Action.task, Task.answers, Task.Proper, hu.serial, hid]

/-- What `OnExecSQL` leaves to do answers the request, or queues it again, once. -/
theorem exec_answers {cfg : Cfg} {db : Db} {rc : Nat} {utm : UserTransferMessage}
    (hret : EffectCountReturns cfg.build cfg.m_MaxRowCount db.query db.session utm rc)
    (hend : (db.exec cfg rc utm).1 ≠ .error .hang) (n : Nat) :
    (Running.after (db.exec cfg rc utm)).answers n = (if utm.serial = n then 1 else 0) ∧
      (Running.after (db.exec cfg rc utm)).Proper := by
  obtain ⟨acts, hacts, hh⟩ := onExecSQL_handled cfg.build cfg.code cfg.m_MaxRowCount db.query
    db.fuel utm.req ⟨db.session, utm, rc, []⟩
  have hout := (onExecSQL_returns (c := ⟨db.session, utm, rc, []⟩) hret cfg.code db.fuel
    utm.req).resolve_right hend
  rw [hout] at hh
  have hafter : Running.after (db.exec cfg rc utm) = .resume (acts.map Action.task) := by
    simp only [Running.after, Db.exec, hout, hacts, List.nil_append]
  rw [hafter, Running.answers_resume]
  exact ⟨(hh.tasks n).1, Running.proper_resume (hh.tasks n).2⟩

/-! ## The accounting of a run -/

/-- No shutdown, and no worker runs with a NULL handle. -/
def Assumed (s : State W) : Label W → Prop
  | .exec w _ => (s.workers w).m_pDbQuery ≠ none
  | .shutdown _ => False
  | .receive _ _ | .serve _ | .take _ | .skip _ | .act _ _ | .quit _ | .uninit => True

/-- `effectCount`, called outside the `try` block of `PreExecSQL`, does not throw, and a worker
whose next action is to queue a request again has room for it. -/
def RetryFits (cfg : Cfg) (s : State W) : Label W → Prop
  | .exec w db => ∀ utm, (s.workers w).thread = .got utm →
      EffectCountReturns cfg.build cfg.m_MaxRowCount db.query db.session utm
        (s.workers w).m_rowCount
  | .act w _ => ∀ utm todo, (s.workers w).thread = .doing (.process utm :: todo) →
      (s.workers w).m_queue.length < dagwProcessQueueLen
  | .receive _ _ | .serve _ | .take _ | .skip _ | .quit _ | .shutdown _ | .uninit => True

/-- All worker queues are empty and no worker is busy. -/
def Quiescent (s : State W) : Prop :=
  ∀ w, (s.workers w).m_queue = [] ∧ ((s.workers w).thread = .idle ∨ (s.workers w).thread = .ended)

/-- A worker that keeps the count of its messages keeps the account. -/
theorem Accounted.setWorker [Fintype W] {s : State W} (h : Accounted s) {w : W} {p : TDBProcess}
    (ha : ∀ n, p.answers n = (s.workers w).answers n) (hp : p.Proper) :
    Accounted (s.setWorker w p) where
  once n := by
    have h₁ := answers_setWorker s w p n
    rw [ha n] at h₁
    exact (Nat.add_right_cancel h₁).trans (h.once n)
  service := h.service
  posted := h.posted
  workers v := by
    rcases eq_or_ne v w with rfl | hv
    · simpa [State.setWorker] using hp
    · simpa [State.setWorker, hv] using h.workers v

/-- A request that arrives is put into exactly one place. -/
theorem Accounted.receive [Fintype W] {cfg : Cfg} {s : State W} (h : Accounted s)
    (hs : s.service = .serving []) (sender : ServiceIdentifier) {utm : UserTransferMessage}
    (hu : utm.messageId = .reqExecSQL) :
    Accounted (handleExecSQL cfg { s with received := s.received + 1 } sender
      { utm with serial := s.received }) := by
  have hone := handleExecSQL_oneMore cfg { s with received := s.received + 1 } sender
    { utm with serial := s.received } hu
  refine ⟨?_, handleExecSQL_service cfg sender _ hs, hone.posted h.posted,
    fun w => hone.workers w (h.workers w)⟩
  intro n
  rw [hone.answers n, hone.received]
  have hn : State.answers n { s with received := s.received + 1 } = s.answers n := rfl
  rw [hn, h.once n]
  dsimp only
  split_ifs <;> omega

/-- A task of the service thread keeps the account. -/
theorem Accounted.serve [Fintype W] {cfg : Cfg} {s : State W} (h : Accounted s) (reply : Reply)
    {t : Task} {todo : List Task} (hs : s.service = .serving (t :: todo)) :
    Accounted { (perform cfg none s reply t).1 with
      service := .serving ((perform cfg none s reply t).2 ++ todo) } := by
  obtain ⟨todo', hs', hsilent⟩ := h.service
  rw [hs] at hs'
  cases hs'
  obtain ⟨hsame, hleft⟩ := perform_silent cfg none s reply
    (.inl (hsilent t (List.mem_cons_self ..)))
  refine ⟨?_, ⟨_, rfl, ?_⟩, ?_, fun w => hsame.proper (h.workers w)⟩
  · intro n
    have hn : State.answers n { (perform cfg none s reply t).1 with
        service := .serving ((perform cfg none s reply t).2 ++ todo) } =
        (perform cfg none s reply t).1.answers n := rfl
    rw [hn, hsame.answers n, h.once n]
    exact congrArg (fun r => if n < r then 1 else 0) hsame.received.symm
  · intro t' ht'
    rcases List.mem_append.1 ht' with ht' | ht'
    · exact hleft t' ht'
    · exact hsilent t' (List.mem_cons_of_mem _ ht')
  · rw [hsame.posted]
    exact h.posted

/-- A task of a worker does, if there is room for what it queues again. -/
theorem Accounted.act [Fintype W] {cfg : Cfg} {s : State W} (h : Accounted s) {w : W}
    (reply : Reply) {t : Task} {todo : List Task} (ht : (s.workers w).thread = .doing (t :: todo))
    (hroom : ∀ utm, t = .process utm → (s.workers w).m_queue.length < dagwProcessQueueLen) :
    Accounted ((perform cfg (some w) s reply t).1.setThread w
      (.resume ((perform cfg (some w) s reply t).2 ++ todo))) := by
  have hdoing : ∀ t' ∈ t :: todo, t'.Proper := by
    have := (h.workers w).2
    rwa [ht] at this
  have hadds := perform_adds cfg reply (hdoing t (List.mem_cons_self ..)) hroom
  have hservice := (perform_threads cfg (some w) s reply t).1
  have hleft := perform_left cfg (some w) s reply t
  generalize perform cfg (some w) s reply t = r at hadds hservice hleft
  have hzero : ∀ n, (r.2.map (Task.answers n)).sum = 0 := fun n =>
    List.sum_eq_zero fun x hx => by
      obtain ⟨t', ht', rfl⟩ := List.mem_map.1 hx
      exact (hleft t' ht').answers n
  have hthread : (r.1.workers w).thread = .doing (t :: todo) := (hadds.thread w).trans ht
  refine ⟨?_, ?_, hadds.posted h.posted, ?_⟩
  · intro n
    have hnew : TDBProcess.answers n { r.1.workers w with thread := .resume (r.2 ++ todo) } =
        (r.1.workers w).m_queue.countP (·.serial = n) + (todo.map (Task.answers n)).sum := by
      rw [TDBProcess.answers, Running.answers_resume, List.map_append, List.sum_append, hzero n,
        zero_add]
    have hold : (r.1.workers w).answers n = (r.1.workers w).m_queue.countP (·.serial = n) +
        (t.answers n + (todo.map (Task.answers n)).sum) := by
      rw [TDBProcess.answers, hthread, Running.answers, List.map_cons, List.sum_cons]
    have hset := answers_setWorker r.1 w { r.1.workers w with thread := .resume (r.2 ++ todo) } n
    have hsame : State.answers n (r.1.setThread w (.resume (r.2 ++ todo))) = s.answers n := by
      rw [hnew, hold, hadds.answers n] at hset
      unfold State.setThread
      omega
    rw [hsame, h.once n]
    exact congrArg (fun k => if n < k then 1 else 0) hadds.received.symm
  · obtain ⟨todo', hs, hsilent⟩ := h.service
    exact ⟨todo', hservice.trans hs, hsilent⟩
  · intro v
    rcases eq_or_ne v w with rfl | hv
    · simp only [State.setThread, State.setWorker, Function.update_self]
      refine ⟨(hadds.workers v (h.workers v)).1, Running.proper_resume ?_⟩
      intro t' ht'
      rcases List.mem_append.1 ht' with ht' | ht'
      · exact (hleft t' ht').proper
      · exact hdoing t' (List.mem_cons_of_mem _ ht')
    · simp only [State.setThread, State.setWorker, Function.update_of_ne hv]
      exact hadds.workers v (h.workers v)

/-- **Where the requests are.** In a run without shutdown, in which retries find room and no
exception leaves `OnExecSQL`, every received request stays in exactly one place. -/
theorem accounted_inductive [Fintype W] (cfg : Cfg) :
    ((system (W := W) cfg).restrict fun s a => Assumed s a ∧ RetryFits cfg s a).Inductive
      Accounted where
  init s h := by
    refine ⟨?_, ⟨[], h.service, by simp⟩, by simp [h.posted], ?_⟩
    · intro n
      have hw : ∀ w, (s.workers w).answers n = 0 := fun w => by
        simp [TDBProcess.answers, h.queue w, h.thread w, Running.answers]
      simp [State.answers, h.posted, h.received, hw]
    · intro w
      simp [TDBProcess.Proper, h.queue w, h.thread w, Running.Proper]
  step s a s' := by
    rintro ⟨hstep, hassumed, hfits⟩ h
    cases hstep with
    | receive hs hu => exact h.receive hs _ hu
    | serve hs => exact h.serve _ hs
    | @take w utm rest hidle _ hqueue =>
      have hp := h.workers w
      refine h.setWorker ?_ ⟨fun u hmem => hp.1 u ?_, hp.1 utm ?_⟩
      · intro n
        simp only [TDBProcess.answers, hqueue, hidle, Running.answers, List.countP_cons,
          decide_eq_true_eq, add_zero]
      · rw [hqueue]
        exact List.mem_cons_of_mem _ hmem
      · rw [hqueue]
        exact List.mem_cons_self ..
    | @exec w utm db hgot _ hend =>
      refine h.setWorker ?_ ⟨(h.workers w).1, ?_⟩
      · intro n
        rw [TDBProcess.answers, (exec_answers (hfits utm hgot) hend n).1, TDBProcess.answers, hgot,
          Running.answers]
      · exact (exec_answers (hfits utm hgot) hend 0).2
    | @skip w utm hgot hne =>
      have hp := (h.workers w).2
      rw [hgot] at hp
      exact absurd hp hne
    | @act w _ t todo hdoing =>
      exact h.act _ hdoing fun utm ht => hfits utm todo (ht ▸ hdoing)
    | @quit w hidle _ =>
      refine h.setWorker ?_ ⟨(h.workers w).1, trivial⟩
      intro n
      simp only [TDBProcess.answers, hidle, Running.answers]
    | shutdown => exact hassumed.elim
    | release hs | stop hs | wake hs | join hs =>
      obtain ⟨todo, hserving, -⟩ := h.service
      rw [hs] at hserving
      cases hserving

/-- **One response for every request.** For every configuration, in each build: in every run
without shutdown and without a NULL handle whose steps meet `RetryFits`, once all queues are empty
and no worker is busy, each received request has caused exactly one response. -/
theorem one_response_each [Fintype W] (cfg : Cfg) {s : State W}
    (hs : ((system cfg).restrict fun s a => Assumed s a ∧ RetryFits cfg s a).Reachable s)
    (hq : Quiescent s) : ∀ n < s.received, s.responses n = 1 := by
  intro n hn
  have h := (accounted_inductive cfg).reachable hs
  have hidle : ∀ w, (s.workers w).answers n = 0 := fun w => by
    obtain ⟨hqueue, hthread | hthread⟩ := hq w <;>
      simp [TDBProcess.answers, hqueue, hthread, Running.answers]
  have honce := h.once n
  simp only [State.answers, hidle, Finset.sum_const_zero, add_zero, if_pos hn] at honce
  rw [State.responses, ← honce]
  refine List.countP_congr ?_
  intro m hm
  simp [h.posted m hm]

end

/-! ## A retry that finds the queue full -/

namespace FullQueue

open LostConnection (request)
open Sample

/-- The `FOR_ODBC` build with one source. -/
def cfg : Cfg := ⟨.odbc, LostConnection.code, 200, [⟨"bill", 1⟩]⟩

/-- The link is broken, and connecting it again succeeds. -/
def broken : Db := ⟨Unit, LostConnection.query, (), 1⟩

/-- A link on which every call returns. -/
def link : BaseQuery Unit := { LostConnection.query with command := fun _ s => (.ok (), s) }

/-- A database that answers. -/
def working : Db := ⟨Unit, link, (), 1⟩

/-- The worker is at `t` and has `n` later requests in its queue, and the first request is neither
there nor answered. -/
structure Loaded (t : Running) (n : Nat) (s : State Unit) : Prop where
  service : s.service = .serving []
  source : ∃ i, s.m_mapProcess "bill" = some ⟨i, true, 0, [()]⟩
  worker : ∃ queue, s.workers () = ⟨queue, some 0, 0, false, t⟩ ∧ queue.length = n ∧
    ∀ u ∈ queue, ∃ i, i ≠ 0 ∧ u = numbered i
  posted : ∀ m ∈ s.posted, m.2.serial ≠ 0
  received : 0 < s.received

/-- One more request arrives. -/
theorem Loaded.receive {t : Running} {n : Nat} {s : State Unit} (h : Loaded t n s)
    (hn : n < dagwProcessQueueLen) :
    ∃ s', ((system cfg).restrict Assumed).step s (.receive 7 request) s' ∧ Loaded t (n + 1) s' := by
  refine ⟨_, ⟨.receive h.service rfl, trivial⟩, ?_⟩
  obtain ⟨i, hsource⟩ := h.source
  obtain ⟨queue, hworker, hlen, hqueue⟩ := h.worker
  have hdbf : dbfindex (numbered s.received).sql.toList = 0 := by
    change dbfindex request.sql.toList = 0
    decide
  have hput : (s.workers ()).tryPut (numbered s.received) =
      some ⟨queue ++ [numbered s.received], some 0, 0, false, t⟩ := by
    rw [TDBProcess.tryPut, hworker, if_pos (hlen ▸ hn)]
  have hstep : handleExecSQL cfg { s with received := s.received + 1 } 7
      (numbered s.received) =
      ({ s with received := s.received + 1 }.setInfo "bill"
        ⟨(i + 1) % 2 ^ 32, true, 0, [()]⟩).setWorker
        () ⟨queue ++ [numbered s.received], some 0, 0, false, t⟩ := by
    have hsource' : s.m_mapProcess (numbered s.received).sourceName = some ⟨i, true, 0, [()]⟩ :=
      hsource
    simp only [handleExecSQL, hsource', route, hdbf, CDBProcInfo.getProcess, State.setInfo]
    simp only [List.length_singleton, ne_eq, one_ne_zero, not_false_eq_true, if_true, Nat.mod_one,
      List.getElem?_cons_zero, hput]
    rfl
  change Loaded t (n + 1) (handleExecSQL cfg { s with received := s.received + 1 } 7
    (numbered s.received))
  rw [hstep]
  refine ⟨h.service, ⟨_, by simp; rfl⟩, ⟨_, by simp; rfl, ?_, ?_⟩, h.posted, Nat.succ_pos _⟩
  · simp [hlen]
  · intro u hu
    rcases List.mem_append.1 hu with hu | hu
    · exact hqueue u hu
    · exact ⟨s.received, h.received.ne', List.mem_singleton.1 hu⟩

/-- Requests arrive until the queue is full. -/
theorem Loaded.fill {t : Running} {s : State Unit} (k n : Nat) (hk : n + k = dagwProcessQueueLen)
    (h : Loaded t n s) :
    ∃ s' as, ((system cfg).restrict Assumed).Run s as s' ∧ Loaded t dagwProcessQueueLen s' := by
  induction k generalizing n s with
  | zero => exact ⟨s, [], .nil s, by rw [← hk]; exact h⟩
  | succ k ih =>
    obtain ⟨s₁, hstep, h₁⟩ := h.receive (by omega)
    obtain ⟨s', as, hrun, h'⟩ := ih (n + 1) (by omega) h₁
    exact ⟨s', _, .cons hstep hrun, h'⟩

/-- A step that only moves the worker. -/
theorem Loaded.move {t t' : Running} {n n' : Nat} {s : State Unit} (h : Loaded t n s)
    {queue : List UserTransferMessage} (hlen : queue.length = n')
    (hqueue : ∀ u ∈ queue, ∃ i, i ≠ 0 ∧ u = numbered i) :
    Loaded t' n' (s.setWorker () ⟨queue, some 0, 0, false, t'⟩) :=
  ⟨h.service, h.source, ⟨queue, by simp, hlen, hqueue⟩, h.posted, h.received⟩

/-- The worker takes the next of the later requests. -/
theorem Loaded.take {n : Nat} {s : State Unit} (h : Loaded .idle (n + 1) s) :
    ∃ s' i, i ≠ 0 ∧ ((system cfg).restrict Assumed).step s (.take ()) s' ∧
      Loaded (.got (numbered i)) n s' := by
  obtain ⟨queue, hworker, hlen, hqueue⟩ := h.worker
  obtain ⟨u, rest, rfl⟩ := List.exists_cons_of_length_eq_add_one hlen
  obtain ⟨i, hi, rfl⟩ := hqueue u (List.mem_cons_self ..)
  refine ⟨_, i, hi, ⟨.take (u := numbered i) (q := rest) ?_ ?_ ?_, trivial⟩, ?_⟩
  · rw [hworker]
  · rw [hworker]
  · rw [hworker]
  · rw [hworker]
    exact h.move (Nat.succ.inj hlen) fun u hu => hqueue u (List.mem_cons_of_mem _ hu)

/-- The worker executes what it has taken. -/
theorem Loaded.exec {n : Nat} {s : State Unit} {u : UserTransferMessage}
    (h : Loaded (.got u) n s) (hu : u.messageId = .reqExecSQL) (db : Db)
    (hend : (db.exec cfg 0 u).1 ≠ .error .hang) (hrc : (db.exec cfg 0 u).2.m_rowCount = 0) :
    ∃ s', ((system cfg).restrict Assumed).step s (.exec () db) s' ∧
      Loaded (.after (db.exec cfg 0 u)) n s' := by
  obtain ⟨queue, hworker, hlen, hqueue⟩ := h.worker
  refine ⟨_, ⟨.exec (u := u) ?_ hu ?_, ?_⟩, ?_⟩
  · rw [hworker]
  · rw [hworker]
    exact hend
  · change (s.workers ()).m_pDbQuery ≠ none
    rw [hworker]
    exact fun h => nomatch h
  · rw [hworker, hrc]
    exact h.move hlen hqueue

/-- A response to a later request is posted. -/
theorem Loaded.answer {n : Nat} {s : State Unit} {dest : ServiceIdentifier}
    {u : UserTransferMessage} (h : Loaded (.doing [.postMessage dest u]) n s) (hu : u.serial ≠ 0) :
    ∃ s', ((system cfg).restrict Assumed).step s (.act () ⟨[], true, []⟩) s' ∧
      Loaded .idle n s' := by
  obtain ⟨queue, hworker, hlen, hqueue⟩ := h.worker
  refine ⟨_, ⟨.act (t := .postMessage dest u) (l := []) ?_, trivial⟩, ?_⟩
  · rw [hworker]
  · have hpost : ∀ m ∈ (s.post dest u).posted, m.2.serial ≠ 0 := by
      intro m hm
      rcases List.mem_append.1 hm with hm | hm
      · exact h.posted m hm
      · rw [List.mem_singleton.1 hm]
        exact hu
    have h' : Loaded (.doing [.postMessage dest u]) n (s.post dest u) :=
      ⟨h.service, h.source, h.worker, hpost, h.received⟩
    have hworker' : (s.post dest u).workers () = _ := hworker
    simp only [perform, List.append_nil, State.setThread, hworker', Running.resume]
    exact h'.move hlen hqueue

/-- A request is queued again, into a full queue: it is gone. -/
theorem Loaded.drop {s : State Unit} {u : UserTransferMessage}
    (h : Loaded (.doing [.process u]) dagwProcessQueueLen s) :
    ∃ s', ((system cfg).restrict Assumed).step s (.act () ⟨[], true, []⟩) s' ∧
      Loaded .idle dagwProcessQueueLen s' := by
  obtain ⟨queue, hworker, hlen, hqueue⟩ := h.worker
  refine ⟨_, ⟨.act (t := .process u) (l := []) ?_, trivial⟩, ?_⟩
  · rw [hworker]
  · have hfull : (s.workers ()).tryPut u = none := by
      rw [TDBProcess.tryPut, hworker, if_neg (hlen ▸ lt_irrefl _)]
    have hperform : perform cfg (some ()) s ⟨[], true, []⟩ (.process u) = (s, []) := by
      simp only [perform, hfull]
    rw [hperform, State.setThread, hworker]
    exact h.move hlen hqueue

/-- What the worker does with a request while the link works. -/
theorem exec_working (i : Nat) : working.exec cfg 0 (numbered i) =
    (.ok (), ⟨(), { numbered i with messageId := .resExecSQL, res := 7 }, 0,
      [.postMessage 7 { numbered i with messageId := .resExecSQL, res := 7 }]⟩) := by
  change onExecSQL .odbc LostConnection.code 200 link 1 7 ⟨(), numbered i, 0, []⟩ = _
  have hpre : preExecSQL .odbc LostConnection.code 200 link 7 (numbered i).sql
      (entry ⟨(), numbered i, 0, []⟩) = (.ok true, entry ⟨(), numbered i, 0, []⟩) := rfl
  have hbody : execBody link 1 (numbered i).sql (entry ⟨(), numbered i, 0, []⟩) =
      (.ok (), entry ⟨(), numbered i, 0, []⟩) := by
    simp [execBody, registerOutParams, fetchRows, resultOf, outParams, fieldNames, call, link,
      LostConnection.query, numbered, request, entry]
  rw [onExecSQL_apply]
  simp only [hpre, Comp.bind_apply, attempt, hbody]
  rfl

/-- The worker answers what is in its queue. -/
theorem Loaded.drain {s : State Unit} (n : Nat) (h : Loaded .idle n s) :
    ∃ s' as, ((system cfg).restrict Assumed).Run s as s' ∧ Loaded .idle 0 s' := by
  induction n generalizing s with
  | zero => exact ⟨s, [], .nil s, h⟩
  | succ n ih =>
    obtain ⟨s₁, i, hi, htake, h₁⟩ := h.take
    have hend : (working.exec cfg 0 (numbered i)).1 ≠ .error .hang := by
      rw [exec_working]
      exact fun h => nomatch h
    obtain ⟨s₂, hstep, h₂⟩ := h₁.exec rfl working hend (by rw [exec_working])
    rw [exec_working] at h₂
    obtain ⟨s₃, hact, h₃⟩ := h₂.answer hi
    obtain ⟨s', as, hrun, h'⟩ := ih h₃
    exact ⟨s', _, .cons htake (.cons hstep (.cons hact hrun)), h'⟩

/-- The worker has the first request in its hands. -/
theorem loaded_first : ∃ s as, ((system cfg).restrict Assumed).Run start as s ∧
    Loaded (.got (numbered 0)) 0 s := by
  refine ⟨_, [.receive 7 request, .take ()], .cons ⟨.receive rfl rfl, trivial⟩
    (.cons ⟨.take (u := numbered 0) (q := []) rfl rfl rfl, trivial⟩ (.nil _)), ?_⟩
  exact {
    service := rfl
    source := ⟨1, rfl⟩
    worker := ⟨[], rfl, rfl, by simp⟩
    posted := fun m hm => nomatch hm
    received := Nat.one_pos }

/-- The first request meets a lost connection while 512 others wait in the queue. The link is
connected again, the request is queued again without a look at the result, and never answered. -/
theorem not_one_response_each :
    ¬ ∀ s : State Unit, ((system cfg).restrict Assumed).Reachable s → Quiescent s →
      ∀ n < s.received, s.responses n = 1 := by
  intro hall
  obtain ⟨s₁, as₁, hrun₁, h₁⟩ := loaded_first
  obtain ⟨s₂, as₂, hrun₂, h₂⟩ := h₁.fill dagwProcessQueueLen 0 (Nat.zero_add _)
  obtain ⟨s₃, hstep₃, h₃⟩ := h₂.exec rfl broken nofun rfl
  obtain ⟨s₄, hstep₄, h₄⟩ := h₃.drop
  obtain ⟨s₅, as₅, hrun₅, h₅⟩ := h₄.drain
  have hreach := (LTS.Reachable.of_init (L := (system cfg).restrict Assumed) start_initial).run
    (hrun₁.append (hrun₂.append (.cons hstep₃ (.cons hstep₄ hrun₅))))
  have hquiet : Quiescent s₅ := fun _ => by
    obtain ⟨queue, hworker, hlen, -⟩ := h₅.worker
    rw [hworker]
    exact ⟨List.eq_nil_of_length_eq_zero hlen, .inl rfl⟩
  have hone := hall s₅ hreach hquiet 0 h₅.received
  have hnone : s₅.responses 0 = 0 := by
    refine List.countP_eq_zero.2 ?_
    intro m hm
    simp [h₅.posted m hm]
  rw [hnone] at hone
  exact absurd hone (by decide)

end FullQueue

/-- The theorem above at a run of one request that is executed and answered. -/
theorem one_response_each_delete :
    ∃ s : State Unit, Quiescent s ∧ s.received = 1 ∧ ∀ n < s.received, s.responses n = 1 := by
  have hrun : ∃ s as, ((system FullQueue.cfg).restrict fun s a =>
      Assumed s a ∧ RetryFits FullQueue.cfg s a).Run Sample.start as s ∧
      Quiescent s ∧ s.received = 1 := by
    refine ⟨_, [.receive 7 LostConnection.request, .take (), .exec () FullQueue.working,
      .act () ⟨[], true, []⟩],
      .cons ⟨.receive rfl rfl, trivial, trivial⟩
        (.cons ⟨.take (u := Sample.numbered 0) (q := []) rfl rfl rfl, trivial, trivial⟩
          (.cons ⟨.exec (u := Sample.numbered 0) rfl rfl ?_, nofun, nofun⟩
            (.cons ⟨.act (t := .postMessage 7
              { Sample.numbered 0 with messageId := .resExecSQL, res := 7 }) (l := []) ?_,
              trivial, ?_⟩ (.nil _)))), ?_, ?_⟩
    · change (FullQueue.working.exec FullQueue.cfg 0 (Sample.numbered 0)).1 ≠ _
      rw [FullQueue.exec_working]
      exact fun h => nomatch h
    · change Running.after (FullQueue.working.exec FullQueue.cfg 0 (Sample.numbered 0)) = _
      rw [FullQueue.exec_working]
      rfl
    · intro utm todo h
      change Running.after (FullQueue.working.exec FullQueue.cfg 0 (Sample.numbered 0)) = _ at h
      rw [FullQueue.exec_working] at h
      exact nomatch h
    · exact fun _ => ⟨rfl, .inl rfl⟩
    · rfl
  obtain ⟨s, as, hrun, hquiet, hone⟩ := hrun
  exact ⟨s, hquiet, hone,
    one_response_each FullQueue.cfg ⟨_, as, Sample.start_initial, hrun⟩ hquiet⟩

end TelecomSuite.Dagw
