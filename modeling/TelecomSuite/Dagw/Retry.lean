import TelecomSuite.Lib.Accounting
import TelecomSuite.Dagw.Frame
import TelecomSuite.Dagw.Trace

/-!
# How often a statement is executed

In the `FOR_ODBC` build a request whose connection is lost is queued again, with its return value
raised from zero to one; the return value is what keeps it from being queued a third time. The
gateway is run with a count, for every request, of its `OnExecSQL` calls and of the `execute` calls
of its statement (`counted`). What a message in a queue or in a worker's hands can still cause is
its worth, and no step makes more of it than it had (`worth_step`). A request is handled at most
twice in every run. The `catch` block, however, does not tell a statement that failed from one that
ran and whose rows could not be fetched, and runs the latter again
(`LostWhileFetching.not_executes_once`); `executes_once` excludes such a loss.
-/

namespace TelecomSuite.Dagw

open Transition Fallible

section
variable {W : Type} [DecidableEq W]

/-! ## Counting -/

/-- What a request has caused so far: calls of `OnExecSQL`, calls of `execute` for its statement,
and how many of these returned. -/
structure Tally where
  attempts : Nat
  sent : Nat
  completed : Nat

/-- The call is one of `execute`. -/
def DbCall.isExecute : DbCall → Bool
  | .command .. => false
  | .execute _ => true

/-- The counts after one more attempt that sends `trace`. -/
def Tally.next (t : Tally) (trace : List DbCall) : Tally :=
  ⟨t.attempts + 1, t.sent + trace.countP DbCall.isExecute,
    t.completed + trace.count (.execute true)⟩

/-- The counts of all requests, by their numbers, after a step. -/
def countStep (cfg : Cfg) (g : Nat → Tally) (s : State W) (a : Label W) (_ : State W) :
    Nat → Tally :=
  match a with
  | .exec w db =>
    match (s.workers w).thread with
    | .got u =>
      Function.update g u.serial ((g u.serial).next (db.trace cfg (s.workers w).m_rowCount u))
    | .idle | .doing _ | .ended => g
  | .receive .. | .serve _ | .take _ | .skip _ | .act .. | .quit _ | .shutdown _ | .uninit => g

/-- The gateway with the counts. -/
def counted (cfg : Cfg) : LTS (State W × (Nat → Tally)) (Label W) :=
  (system cfg).ghost (fun _ _ => ⟨0, 0, 0⟩) (countStep cfg)

/-! ## The worth of a message -/

section
variable (μ : Int → Nat) (n : Nat)

/-- The worth of a message for the request `n`, where `μ` is the worth of a return value. -/
def UserTransferMessage.worth (u : UserTransferMessage) : Nat :=
  if u.messageId = .reqExecSQL ∧ u.serial = n then μ u.ret else 0

/-- What the task may still send to the database, in executions of the request `n`. -/
def Task.worth : Task → Nat
  | .process u => u.worth μ n
  | .postMessage .. | .errProcess .. | .reconnect .. | .connect .. | .assign .. => 0

/-- What the thread may still send. -/
def Running.worth : Running → Nat
  | .idle | .ended => 0
  | .got u => u.worth μ n
  | .doing todo => (todo.map (Task.worth μ n)).sum

/-- What the worker may still send, for the requests in its queue as well. -/
def TDBProcess.worth (p : TDBProcess) : Nat :=
  (p.m_queue.map (UserTransferMessage.worth μ n)).sum + p.thread.worth μ n

/-- What all workers may still send. -/
def State.worth [Fintype W] (s : State W) : Nat := ∑ w, (s.workers w).worth μ n

variable {μ n}

/-- A stage of `reconnect` sends nothing. -/
theorem Task.Silent.worth {t : Task} (h : t.Silent) : t.worth μ n = 0 := by
  cases t with
  | postMessage | process => cases h
  | errProcess | reconnect | connect | assign => rfl

/-- A thread that goes on may send what its tasks may. -/
theorem Running.worth_resume (todo : List Task) :
    (Running.resume todo).worth μ n = (todo.map (Task.worth μ n)).sum := by
  cases todo <;> rfl

/-- The sum changes by what the worker has more or less. -/
theorem worth_setWorker [Fintype W] (s : State W) (w : W) (p : TDBProcess) :
    (s.setWorker w p).worth μ n + (s.workers w).worth μ n = s.worth μ n + p.worth μ n :=
  Accounting.sum_update_add (TDBProcess.worth μ n) s.workers w p

/-- A worker is replaced by one of no more worth. -/
theorem worth_setWorker_le [Fintype W] {s : State W} {w : W} {p : TDBProcess}
    (h : p.worth μ n ≤ (s.workers w).worth μ n) : (s.setWorker w p).worth μ n ≤ s.worth μ n := by
  have := worth_setWorker (μ := μ) (n := n) s w p
  omega

/-- A request in a queue adds its worth. -/
theorem tryPut_worth {p p' : TDBProcess} {u : UserTransferMessage} (h : p.tryPut u = some p') :
    p'.worth μ n = p.worth μ n + u.worth μ n := by
  obtain ⟨-, rfl⟩ := tryPut_some h
  simp only [TDBProcess.worth, List.map_append, List.sum_append, List.map_singleton,
    List.sum_singleton]
  omega

omit [DecidableEq W] in
/-- The same messages in the same places are worth the same. -/
theorem SameTraffic.worth [Fintype W] {s s' : State W} (h : SameTraffic s s') :
    s'.worth μ n = s.worth μ n := by
  have hw : ∀ w, (s'.workers w).worth μ n = (s.workers w).worth μ n := fun w => by
    simp only [TDBProcess.worth, h.queue w, h.thread w]
  simp only [State.worth, hw]

/-- A task adds at most its own worth to the queues, and only on a worker's thread. -/
theorem perform_worth [Fintype W] (cfg : Cfg) (own : Option W) (s : State W) (reply : Reply)
    (t : Task) : (perform cfg own s reply t).1.worth μ n ≤
      s.worth μ n + if own.isSome then t.worth μ n else 0 := by
  cases t with
  | postMessage | errProcess | connect => exact Nat.le_add_right _ _
  | process u =>
    cases own with
    | none => exact Nat.le_add_right _ _
    | some w =>
      simp only [perform]
      split
      · next p hput =>
        have h₁ := worth_setWorker (μ := μ) (n := n) s w p
        have h₂ := tryPut_worth (μ := μ) (n := n) hput
        have h₃ : (Task.process u).worth μ n = u.worth μ n := rfl
        dsimp only
        rw [Option.isSome_some, if_pos rfl]
        omega
      · exact Nat.le_add_right _ _
  | reconnect src todo =>
    exact Nat.le_add_right_of_le (sameTraffic_reconnectRelease s reply src todo).worth.le
  | assign src todo =>
    exact Nat.le_add_right_of_le (sameTraffic_reconnectAssign s reply src todo).worth.le

/-- No task receives a request. -/
theorem perform_received (cfg : Cfg) (own : Option W) (s : State W) (reply : Reply) (t : Task) :
    (perform cfg own s reply t).1.received = s.received := by
  cases t with
  | postMessage | errProcess | connect => rfl
  | process u =>
    cases own with
    | none => rfl
    | some w =>
      simp only [perform]
      split <;> rfl
  | reconnect src todo => exact (sameTraffic_reconnectRelease s reply src todo).received
  | assign src todo => exact (sameTraffic_reconnectAssign s reply src todo).received

/-- `HandleExecSQL` queues the request at most once. -/
theorem handleExecSQL_worth [Fintype W] {c : Nat} (hμ : ∀ r, μ r ≤ c) (cfg : Cfg) (s : State W)
    (sender : ServiceIdentifier) (u : UserTransferMessage) :
    (handleExecSQL cfg s sender u).received = s.received ∧
      (handleExecSQL cfg s sender u).worth μ n ≤
        s.worth μ n + if u.serial = n then c else 0 := by
  unfold handleExecSQL
  split
  · exact ⟨rfl, Nat.le_add_right _ _⟩
  · next info _ =>
    dsimp only
    split
    · exact ⟨rfl, Nat.le_add_right _ _⟩
    · next w _ =>
      split
      · split
        · next p hput =>
          refine ⟨rfl, ?_⟩
          have h₁ := worth_setWorker (μ := μ) (n := n)
            (s.setInfo u.sourceName (route info u).2.1) w p
          have h₂ := tryPut_worth (μ := μ) (n := n) hput
          have h₃ : (s.setInfo u.sourceName (route info u).2.1).worth μ n = s.worth μ n := rfl
          have h₄ : (route info u).2.2.worth μ n ≤ if u.serial = n then c else 0 := by
            unfold UserTransferMessage.worth
            rw [(route_message info u).1]
            split
            · next h => rw [if_pos h.2]; exact hμ _
            · exact Nat.zero_le _
          omega
        · exact ⟨rfl, Nat.le_add_right _ _⟩
      · exact ⟨rfl, Nat.le_add_right _ _⟩

/-- A step of a worker's thread. -/
theorem act_worth [Fintype W] (cfg : Cfg) {s : State W} {w : W} (reply : Reply) {t : Task}
    {todo : List Task} (hw : (s.workers w).thread = .doing (t :: todo)) :
    ((perform cfg (some w) s reply t).1.setThread w
      (.resume ((perform cfg (some w) s reply t).2 ++ todo))).worth μ n ≤ s.worth μ n := by
  have hadds := perform_worth (μ := μ) (n := n) cfg (some w) s reply t
  rw [Option.isSome_some, if_pos rfl] at hadds
  have hthread := ((perform_threads cfg (some w) s reply t).2 w).trans hw
  have hleft := perform_left cfg (some w) s reply t
  generalize perform cfg (some w) s reply t = r at hadds hthread hleft
  have hzero : (r.2.map (Task.worth μ n)).sum = 0 := by
    refine List.sum_eq_zero ?_
    intro x hx
    obtain ⟨t', ht', rfl⟩ := List.mem_map.1 hx
    exact (hleft t' ht').worth
  have hset := worth_setWorker (μ := μ) (n := n) r.1 w
    { r.1.workers w with thread := .resume (r.2 ++ todo) }
  have hold : (r.1.workers w).worth μ n =
      ((r.1.workers w).m_queue.map (UserTransferMessage.worth μ n)).sum +
        (t.worth μ n + (todo.map (Task.worth μ n)).sum) := by
    rw [TDBProcess.worth, hthread, Running.worth, List.map_cons, List.sum_cons]
  have hnew : TDBProcess.worth μ n { r.1.workers w with thread := .resume (r.2 ++ todo) } =
      ((r.1.workers w).m_queue.map (UserTransferMessage.worth μ n)).sum +
        (todo.map (Task.worth μ n)).sum := by
    rw [TDBProcess.worth, Running.worth_resume, List.map_append, List.sum_append, hzero, zero_add]
  unfold State.setThread
  omega

/-- What has been spent on a request and what its message is still worth is at most `c`. -/
def Within [Fintype W] (μ : Int → Nat) (c : Nat) (s : State W) (spent : Nat → Nat) : Prop :=
  ∀ n, spent n + s.worth μ n ≤ if n < s.received then c else 0

/-- **No step makes more of a message than it is worth**, if `OnExecSQL` does not. -/
theorem worth_step [Fintype W] {c : Nat} (hμ : ∀ r, μ r ≤ c) {cfg : Cfg} {s s' : State W}
    {a : Label W} (hstep : Step cfg s a s') {spent spent' : Nat → Nat} (h : Within μ c s spent)
    (hother : (∀ w db, a ≠ .exec w db) → spent' = spent)
    (hexec : ∀ w db u, a = .exec w db → (s.workers w).thread = .got u →
      u.messageId = .reqExecSQL → ∀ n, spent' n +
        (Running.after (db.exec cfg (s.workers w).m_rowCount u)).worth μ n ≤
          spent n + u.worth μ n) :
    Within μ c s' spent' := by
  have hless : (∀ w db, a ≠ .exec w db) → s'.received = s.received →
      (∀ n, s'.worth μ n ≤ s.worth μ n) → Within μ c s' spent' := by
    intro ha hreceived hle n
    rw [hother ha, hreceived]
    exact (Nat.add_le_add_left (hle n) _).trans (h n)
  cases hstep with
  | @receive sender u hs hu =>
    intro n
    obtain ⟨hreceived, hworth⟩ := handleExecSQL_worth (n := n) hμ cfg
      { s with received := s.received + 1 } sender { u with serial := s.received }
    have hn := h n
    have hsame : State.worth μ n { s with received := s.received + 1 } = s.worth μ n := rfl
    rw [hother nofun, hreceived]
    dsimp only at hworth ⊢
    rw [hsame] at hworth
    split_ifs at hn hworth ⊢ <;> omega
  | @serve reply t l hs =>
    refine hless nofun (perform_received cfg none s reply t) ?_
    intro n
    have hworth := perform_worth (μ := μ) (n := n) cfg none s reply t
    exact hworth
  | @take w u q hidle _ hqueue =>
    refine hless nofun rfl fun n => worth_setWorker_le ?_
    simp only [TDBProcess.worth, hqueue, hidle, Running.worth, List.map_cons, List.sum_cons]
    omega
  | @exec w u db hgot hu _ =>
    intro n
    have hset := worth_setWorker (μ := μ) (n := n) s w { s.workers w with
      m_rowCount := (db.exec cfg (s.workers w).m_rowCount u).2.m_rowCount
      thread := .after (db.exec cfg (s.workers w).m_rowCount u) }
    have hold : (s.workers w).worth μ n =
        ((s.workers w).m_queue.map (UserTransferMessage.worth μ n)).sum + u.worth μ n := by
      rw [TDBProcess.worth, hgot, Running.worth]
    have hnew : TDBProcess.worth μ n { s.workers w with
        m_rowCount := (db.exec cfg (s.workers w).m_rowCount u).2.m_rowCount
        thread := .after (db.exec cfg (s.workers w).m_rowCount u) } =
        ((s.workers w).m_queue.map (UserTransferMessage.worth μ n)).sum +
          (Running.after (db.exec cfg (s.workers w).m_rowCount u)).worth μ n := rfl
    have hcost := hexec w db u rfl hgot hu n
    have hn := h n
    change spent' n + _ ≤ if n < s.received then c else 0
    omega
  | @skip w u hgot _ =>
    refine hless nofun rfl fun n => worth_setWorker_le ?_
    exact Nat.add_le_add_left (Nat.zero_le _) _
  | @act w reply t l hw =>
    exact hless nofun (perform_received cfg (some w) s reply t) fun n => act_worth cfg reply hw
  | quit =>
    refine hless nofun rfl fun n => worth_setWorker_le ?_
    exact Nat.add_le_add_left (Nat.zero_le _) _
  | shutdown | release | join => exact hless nofun rfl fun n => le_rfl
  | @stop w todo =>
    exact hless nofun rfl fun n =>
      worth_setWorker_le (s := { s with service := .uninit todo }) le_rfl
  | @wake w todo p _ hput =>
    refine hless nofun rfl fun n =>
      worth_setWorker_le (s := { s with service := .uninit todo }) ?_
    rw [tryPut_worth hput]
    exact le_rfl

end

end

/-! ## One attempt -/

section
variable {cfg : Cfg} {db : Db} {rc : Nat} {u : UserTransferMessage}

/-- What `OnExecSQL` leaves to do is worth nothing, or it is the request itself, to be queued again
with return value one. -/
theorem after_worth (μ : Int → Nat) (db : Db) (cfg : Cfg) (rc : Nat) (u : UserTransferMessage) :
    (∀ n, (Running.after (db.exec cfg rc u)).worth μ n = 0) ∨
      u.ret = 0 ∧ (∃ u', (db.exec cfg rc u).2.actions = [.process u']) ∧
        (∃ err, lostConnection err = true ∧ attemptResult cfg.build cfg.code cfg.m_MaxRowCount
          db.query db.fuel u.req ⟨db.session, u, rc, []⟩ = some (.error (.raised err))) ∧
        ∀ n, (Running.after (db.exec cfg rc u)).worth μ n = if u.serial = n then μ 1 else 0 := by
  obtain ⟨acts, hacts, hh⟩ := onExecSQL_handled cfg.build cfg.code cfg.m_MaxRowCount db.query
    db.fuel u.req ⟨db.session, u, rc, []⟩
  rw [List.nil_append] at hacts
  change (db.exec cfg rc u).2.actions = acts at hacts
  have hafter : (db.exec cfg rc u).1 = .ok () → ∀ n, (Running.after (db.exec cfg rc u)).worth μ n =
      ((acts.map Action.task).map (Task.worth μ n)).sum := by
    intro hok n
    rw [Running.after, hok, ← Running.worth_resume, ← hacts]
  have herror : ∀ f, (db.exec cfg rc u).1 = .error f →
      ∀ n, (Running.after (db.exec cfg rc u)).worth μ n = 0 := by
    intro f hf n
    rw [Running.after, hf, Running.worth]
  generalize hr : attemptResult cfg.build cfg.code cfg.m_MaxRowCount db.query db.fuel u.req
    ⟨db.session, u, rc, []⟩ = r at hh
  change Handled _ _ _ u r (db.exec cfg rc u).1 acts at hh
  generalize (db.exec cfg rc u).1 = out at hh hafter herror
  cases hh with
  | escaped => exact .inl (herror _ rfl)
  | running => exact .inl (herror _ rfl)
  | rejected | completed | failed | ignored => exact .inl fun n => hafter rfl n
  | @retried err u' _ h0 hlost hsame hid hret =>
    refine .inr ⟨h0, ⟨u', hacts⟩, ⟨err, hlost, rfl⟩, ?_⟩
    intro n
    rw [hafter rfl n]
    simp [Action.task, Task.worth, UserTransferMessage.worth, hid, hsame.serial, hret]

/-- In the `FOR_ODBC` build `PreExecSQL` only looks at the text. -/
theorem pre_odbc (hb : cfg.build = .odbc) (hsql : u.sql ≠ "") :
    db.pre cfg rc u = (.ok true, db.start rc u) := by
  rw [Db.pre, hb, preExecSQL, if_neg hsql]
  rfl

/-- What one attempt sends in the `FOR_ODBC` build. -/
theorem trace_odbc (hb : cfg.build = .odbc) (db : Db) (rc : Nat) (u : UserTransferMessage) :
    db.trace cfg rc u = [] ∨ u.sql ≠ "" ∧
      Sends u.sql (untilExecute db.query db.fuel u.sql (db.start rc u)).1 (db.trace cfg rc u) := by
  obtain ⟨hpre, l, htrace, hbody⟩ := db.trace_eq cfg rc u
  have hnil : db.preTrace cfg rc u = [] := by
    generalize (db.pre cfg rc u).1 = r at hpre
    generalize (db.pre cfg rc u).2.m_rowCount = rc' at hpre
    generalize db.preTrace cfg rc u = l at hpre
    cases hpre with
    | rejected | unlimited | escaped | cached => rfl
    | sent h => exact absurd (hb.symm.trans h) nofun
  rw [htrace, hnil, List.nil_append]
  rcases hbody with ⟨hok, hsends⟩ | ⟨-, rfl⟩
  · have hsql : u.sql ≠ "" := by
      intro hempty
      unfold Db.pre preExecSQL at hok
      rw [if_pos hempty] at hok
      cases hok
    rw [pre_odbc hb hsql] at hsends
    exact .inr ⟨hsql, hsends⟩
  · exact .inl rfl

/-- One attempt calls `execute` at most once. -/
theorem sent_le_one (hb : cfg.build = .odbc) (db : Db) (rc : Nat) (u : UserTransferMessage) :
    (db.trace cfg rc u).countP DbCall.isExecute ≤ 1 := by
  rcases trace_odbc hb db rc u with h | ⟨-, h⟩
  · rw [h]
    exact Nat.zero_le _
  · generalize (untilExecute db.query db.fuel u.sql (db.start rc u)).1 = r at h
    generalize db.trace cfg rc u = l at h
    cases h <;> simp [DbCall.isExecute]

/-- In the `FOR_ODBC` build nothing is queued again when the connection cannot be made again. -/
theorem afterBody_odbc (k : SxCode) {σ : Type} (q : BaseQuery σ) (sender : ServiceIdentifier)
    (src : String) (err e : BaseException) {c : Ctx σ}
    (he : (q.odbcReconnect c.session).1 = .error e) (u' : UserTransferMessage)
    (hu' : .process u' ∉ c.actions) :
    .process u' ∉ (afterBody .odbc k q sender src (.error err) c).2.actions := by
  have hcatch : catchBlock .odbc k sender src err c =
      if c.utm.ret = 0 && lostConnection err then (.ok (some true), c)
      else (.ok none, (answerError k sender err src c).2) := by
    simp only [catchBlock, Comp.bind_apply, Comp.get_apply]
    split <;> simp [answerError]
  by_cases hl : (c.utm.ret = 0 && lostConnection err) = true
  · rw [if_pos hl] at hcatch
    simp only [afterBody, Comp.bind_apply, hcatch, afterCatch, if_true, attempt_call, he]
    simpa [answerError] using hu'
  · rw [if_neg hl] at hcatch
    simp only [afterBody, Comp.bind_apply, hcatch]
    simpa [answerError] using hu'

/-- A first attempt whose `execute` returned does not lose the connection in a later call, or the
connection cannot be made again. -/
def RunsOnce {W : Type} (s : State W) : Label W → Prop
  | .exec w db => ∀ u, (s.workers w).thread = .got u → u.sql ≠ "" → u.ret = 0 → ∀ c c' err,
      untilExecute db.query db.fuel u.sql (db.start (s.workers w).m_rowCount u) = (.ok (), c) →
      fetchAll db.query db.fuel c = (.error (.raised err), c') → lostConnection err = true →
      ∃ e, (db.query.odbcReconnect c'.session).1 = .error e
  | .receive .. | .serve _ | .take _ | .skip _ | .act .. | .quit _ | .shutdown _ | .uninit => True

/-- A request whose `execute` returned, and whose connection is lost after that and cannot be made
again, is not queued again. -/
theorem not_process (hb : cfg.build = .odbc) (hsql : u.sql ≠ "") {c c' : Ctx db.σ}
    {err e : BaseException}
    (huntil : untilExecute db.query db.fuel u.sql (db.start rc u) = (.ok (), c))
    (hfetch : fetchAll db.query db.fuel c = (.error (.raised err), c'))
    (he : (db.query.odbcReconnect c'.session).1 = .error e) (u' : UserTransferMessage) :
    .process u' ∉ (db.exec cfg rc u).2.actions := by
  have hpre : preExecSQL cfg.build cfg.code cfg.m_MaxRowCount db.query u.req u.sql
      (entry ⟨db.session, u, rc, []⟩) = (.ok true, db.start rc u) := pre_odbc hb hsql
  have hbody : execBody db.query db.fuel u.sql (db.start rc u) = (.error (.raised err), c') := by
    rw [execBody_eq, Comp.bind_apply, huntil]
    exact hfetch
  have hactions : c'.actions = [] := by
    have := (keeps_execBody db.query db.fuel u.sql (db.start rc u)).actions
    rwa [hbody] at this
  have hexec : db.exec cfg rc u =
      afterBody .odbc cfg.code db.query u.req u.sourceName (.error err) c' := by
    rw [Db.exec, onExecSQL_apply]
    dsimp only
    rw [hpre]
    dsimp only
    rw [Comp.bind_apply, attempt, hbody, hb]
  rw [hexec]
  refine afterBody_odbc _ _ _ _ _ e he u' ?_
  rw [hactions]
  exact List.not_mem_nil

/-- An attempt that meets the condition does not both run the statement and queue it again. -/
theorem completed_or_retried (hb : cfg.build = .odbc) {W : Type} {s : State W} {w : W}
    (hw : (s.workers w).thread = .got u) (h : RunsOnce s (.exec w db)) (n : Nat) :
    (if u.serial = n then (db.trace cfg (s.workers w).m_rowCount u).count (.execute true) else 0) +
      (Running.after (db.exec cfg (s.workers w).m_rowCount u)).worth (fun _ => 1) n ≤
        if u.serial = n then 1 else 0 := by
  have hsent := sent_le_one hb db (s.workers w).m_rowCount u
  have hle : (db.trace cfg (s.workers w).m_rowCount u).count (.execute true) ≤
      (db.trace cfg (s.workers w).m_rowCount u).countP DbCall.isExecute := by
    refine List.countP_mono_left ?_
    intro call _ hcall
    rw [beq_iff_eq] at hcall
    rw [hcall]
    rfl
  rcases after_worth (fun _ => 1) db cfg (s.workers w).m_rowCount u with
    hzero | ⟨h0, ⟨u', hacts⟩, ⟨err, hlost, hattempt⟩, hone⟩
  · rw [hzero n]
    split <;> omega
  · have hnone : (db.trace cfg (s.workers w).m_rowCount u).count (.execute true) = 0 := by
      rcases trace_odbc hb db (s.workers w).m_rowCount u with hnil | ⟨hsql, hsends⟩
      · rw [hnil]
        rfl
      · generalize db.trace cfg (s.workers w).m_rowCount u = l at hsends
        rcases huntil : untilExecute db.query db.fuel u.sql (db.start (s.workers w).m_rowCount u)
          with ⟨f | _, c⟩
        all_goals rw [huntil] at hsends
        · cases hsends <;> rfl
        · -- the exception came after `execute`, so the guard speaks of it
          have hbody : (execBody db.query db.fuel u.sql (db.start (s.workers w).m_rowCount u)).1 =
              .error (.raised err) := by
            have hpre : preExecSQL cfg.build cfg.code cfg.m_MaxRowCount db.query u.req u.sql
                (entry ⟨db.session, u, (s.workers w).m_rowCount, []⟩) = _ := pre_odbc hb hsql
            rw [attemptResult, hpre] at hattempt
            exact Option.some.inj hattempt
          rw [execBody_eq, Comp.bind_apply, huntil] at hbody
          obtain ⟨e, he⟩ := h u hw hsql h0 c _ err huntil (Prod.ext hbody rfl) hlost
          have hmem : .process u' ∈ (db.exec cfg (s.workers w).m_rowCount u).2.actions := by
            rw [hacts]
            exact List.mem_singleton.2 rfl
          exact absurd hmem (not_process hb hsql huntil (Prod.ext hbody rfl) he u')
    rw [hone n, hnone]
    split <;> omega

end

/-! ## A whole run -/

section
variable {W : Type} [DecidableEq W] {cfg : Cfg}

omit [DecidableEq W] in
/-- The count of a request whose worker executes it. -/
theorem countStep_exec (g : Nat → Tally) {s : State W} {w : W} (db : Db) {u : UserTransferMessage}
    (hw : (s.workers w).thread = .got u) (s' : State W) (n : Nat) :
    countStep cfg g s (.exec w db) s' n =
      if u.serial = n then (g n).next (db.trace cfg (s.workers w).m_rowCount u) else g n := by
  simp only [countStep, hw]
  rcases eq_or_ne u.serial n with rfl | hn
  · rw [Function.update_self, if_pos rfl]
  · rw [Function.update_of_ne (Ne.symm hn), if_neg hn]

omit [DecidableEq W] in
/-- Only an execution is counted. -/
theorem countStep_other (g : Nat → Tally) {s : State W} {a : Label W}
    (ha : ∀ w db, a ≠ .exec w db) (s' : State W) : countStep cfg g s a s' = g := by
  cases a with
  | exec w db => exact absurd rfl (ha w db)
  | receive | serve | take | skip | act | quit | shutdown | uninit => rfl

omit [DecidableEq W] in
/-- No request is executed more often than the bound. -/
theorem Within.le [Fintype W] {μ : Int → Nat} {c : Nat} {s : State W} {spent : Nat → Nat}
    (h : Within μ c s spent) (n : Nat) : spent n ≤ c := by
  have hn := h n
  split at hn <;> omega

/-- A count stays within its bound if no attempt adds more to it than the message is worth. -/
theorem within_inductive [Fintype W] {μ : Int → Nat} {c : Nat} (hμ : ∀ r, μ r ≤ c)
    (G : State W → Label W → Prop) (f : Tally → Nat) (hf : f ⟨0, 0, 0⟩ = 0)
    (hexec : ∀ (s : State W) w db u, (s.workers w).thread = .got u → G s (.exec w db) → ∀ t n,
      (if u.serial = n then f (t.next (db.trace cfg (s.workers w).m_rowCount u)) else f t) +
        (Running.after (db.exec cfg (s.workers w).m_rowCount u)).worth μ n ≤
          f t + if u.serial = n then μ u.ret else 0) :
    ((counted (W := W) cfg).restrict fun p a => G p.1 a).Inductive fun p =>
      Within μ c p.1 fun n => f (p.2 n) where
  init p h := by
    intro n
    have hw : ∀ w, (p.1.workers w).worth μ n = 0 := fun w => by
      simp [TDBProcess.worth, h.1.queue w, h.1.thread w, Running.worth]
    simp [State.worth, hw, h.2, hf]
  step p a q hstep h := by
    obtain ⟨s, g⟩ := p
    obtain ⟨s', g'⟩ := q
    obtain ⟨⟨hstep, hg⟩, hG⟩ := hstep
    simp only at hstep hg hG h ⊢
    refine worth_step hμ hstep h ?_ ?_
    · intro ha
      rw [hg, countStep_other g ha]
    · intro w db u ha hw hu n
      subst ha
      have hworth : u.worth μ n = if u.serial = n then μ u.ret else 0 := by
        simp [UserTransferMessage.worth, hu]
      rw [hg, countStep_exec g db hw, apply_ite f, hworth]
      exact hexec s w db u hw hG (g n) n

/-- How often a request with this return value can still be handled. -/
def attemptsLeft (ret : Int) : Nat := if ret = 0 then 2 else 1

/-- A count that an attempt raises by at most one is at most two. -/
theorem counted_le_two [Fintype W] {f : Tally → Nat} (hf : f ⟨0, 0, 0⟩ = 0)
    (hnext : ∀ t db rc u, f (Tally.next t (Db.trace db cfg rc u)) ≤ f t + 1) {s : State W}
    {g : Nat → Tally} (hs : (counted cfg).Reachable (s, g)) (n : Nat) : f (g n) ≤ 2 := by
  have hle : ∀ r, attemptsLeft r ≤ 2 := fun r => by unfold attemptsLeft; split <;> omega
  have hpos : ∀ r, 1 ≤ attemptsLeft r := fun r => by unfold attemptsLeft; split <;> omega
  refine ((within_inductive hle (fun _ _ => True) f hf ?_).reachable
    (hs.restrict fun _ _ => trivial)).le n
  intro s w db u _ _ t n
  have hcost := hnext t db (s.workers w).m_rowCount u
  rcases after_worth attemptsLeft db cfg (s.workers w).m_rowCount u with
    hzero | ⟨h0, -, -, hone⟩
  · rw [hzero n]
    have := hpos u.ret
    split <;> omega
  · rw [hone n, h0]
    have h₁ : attemptsLeft 0 = 2 := rfl
    have h₂ : attemptsLeft 1 = 1 := rfl
    split <;> omega

/-- **A statement is executed at most twice, and completed at most once.** In every run of the
`FOR_ODBC` build a request is handled at most twice, so that its retries end, and its statement is
sent to `execute` at most twice. In every run whose steps meet `RunsOnce`, `execute` returns at most
once for it. -/
theorem executes_once [Fintype W] (hb : cfg.build = .odbc) :
    (∀ (s : State W) g, (counted cfg).Reachable (s, g) →
      ∀ n, (g n).attempts ≤ 2 ∧ (g n).sent ≤ 2) ∧
    ∀ (s : State W) g, ((counted cfg).restrict fun p a => RunsOnce p.1 a).Reachable (s, g) →
      ∀ n, (g n).completed ≤ 1 := by
  refine ⟨fun s g hs n => ⟨?_, ?_⟩, ?_⟩
  · exact counted_le_two rfl (fun _ _ _ _ => le_rfl) hs n
  · exact counted_le_two (f := Tally.sent) rfl
      (fun t db rc u => Nat.add_le_add_left (sent_le_one hb db rc u) _) hs n
  · intro s g hs n
    refine ((within_inductive (fun _ => le_rfl) RunsOnce Tally.completed rfl ?_).reachable hs).le n
    intro s w db u hw hruns t n
    have h := completed_or_retried hb hw hruns n
    have hnext : (t.next (db.trace cfg (s.workers w).m_rowCount u)).completed =
      t.completed + (db.trace cfg (s.workers w).m_rowCount u).count (.execute true) := rfl
    rw [hnext]
    split_ifs at h ⊢ <;> omega

end

/-! ## A connection that is lost while the rows are fetched -/

namespace LostWhileFetching

open LostConnection (request)
open Sample

/-- The `FOR_ODBC` build with one source. -/
def cfg : Cfg := ⟨.odbc, LostConnection.code, 200, [⟨"bill", 1⟩]⟩

/-- `execute` returns and the link breaks after it. It can be connected again. -/
def breaking : Db where
  σ := Unit
  query := { LostConnection.query with
    command := fun _ s => (.ok (), s)
    fieldCount := fun s => (.error LostConnection.err, s) }
  session := ()
  fuel := 1

/-- The request when it is queued again. -/
def again : UserTransferMessage := { numbered 0 with res := 7, ret := 1 }

/-- The statement runs, the link breaks before its rows are fetched, and the request is queued and
run again. -/
theorem not_executes_once :
    ¬ ∀ (s : State Unit) g, (counted cfg).Reachable (s, g) → ∀ n, (g n).completed ≤ 1 := by
  intro hall
  have hrun : ∃ s g as, (counted cfg).Run (start, fun _ => ⟨0, 0, 0⟩) as (s, g) ∧
      (g 0).completed = 1 ∧ (s.workers ()).thread = .got again ∧
      (s.workers ()).m_rowCount = 0 := by
    refine ⟨_, _, [.receive 7 request, .take (), .exec () breaking, .act () ⟨[], true, []⟩,
      .take ()],
      .cons (t := (_, _)) ⟨.receive rfl rfl, rfl⟩
        (.cons (t := (_, _)) ⟨.take (u := numbered 0) (q := []) rfl rfl rfl, rfl⟩
          (.cons (t := (_, _)) ⟨.exec (u := numbered 0) rfl rfl nofun, rfl⟩
            (.cons (t := (_, _)) ⟨.act (t := .process again) (l := []) rfl, rfl⟩
              (.cons (t := (_, _)) ⟨.take (u := again) (q := []) rfl rfl rfl, rfl⟩ (.nil _))))),
      rfl, rfl, rfl⟩
  obtain ⟨s, g, as, hrun, hone, hgot, hrc⟩ := hrun
  have hend : (breaking.exec cfg 0 again).1 ≠ .error .hang := nofun
  have hstep : (counted cfg).step (s, g) (.exec () breaking)
      (_, countStep cfg g s (.exec () breaking) s) :=
    ⟨.exec hgot rfl (by rw [hrc]; exact hend), rfl⟩
  have hs : (counted cfg).Reachable (s, g) := ⟨(start, _), as, ⟨start_initial, rfl⟩, hrun⟩
  have htwo := hall _ _ (hs.run (.cons hstep (.nil _))) 0
  rw [countStep_exec g breaking hgot, if_pos (show again.serial = 0 from rfl), hrc] at htwo
  have hnext : ((g 0).next (breaking.trace cfg 0 again)).completed = (g 0).completed + 1 := rfl
  rw [hnext, hone] at htwo
  exact absurd htwo (by decide)

/-- The theorem above for a request that meets a broken link at its first attempt and is executed
at its second. -/
theorem executes_once_again :
    ∃ (s : State Unit) (g : Nat → Tally),
      ((counted cfg).restrict fun p a => RunsOnce p.1 a).Reachable (s, g) ∧
      (g 0).attempts = 2 ∧ (g 0).completed = 1 ∧ (g 0).sent ≤ 2 ∧ (g 0).completed ≤ 1 := by
  have hfirst (s : State Unit) : RunsOnce s (.exec () ⟨Unit, LostConnection.query, (), 1⟩) := by
    intro u _ _ _ c c' err huntil
    cases huntil
  have hrun : ∃ s g as, ((counted cfg).restrict fun p a => RunsOnce p.1 a).Run
      (start, fun _ => ⟨0, 0, 0⟩) as (s, g) ∧ (g 0).attempts = 1 ∧ (g 0).completed = 0 ∧
      (s.workers ()).thread = .got again ∧ (s.workers ()).m_rowCount = 0 := by
    refine ⟨_, _, [.receive 7 request, .take (), .exec () ⟨Unit, LostConnection.query, (), 1⟩,
      .act () ⟨[], true, []⟩, .take ()],
      .cons (t := (_, _)) ⟨⟨.receive rfl rfl, rfl⟩, trivial⟩
        (.cons (t := (_, _)) ⟨⟨.take (u := numbered 0) (q := []) rfl rfl rfl, rfl⟩, trivial⟩
          (.cons (t := (_, _)) ⟨⟨.exec (u := numbered 0) rfl rfl nofun, rfl⟩, hfirst _⟩
            (.cons (t := (_, _)) ⟨⟨.act (t := .process again) (l := []) rfl, rfl⟩, trivial⟩
              (.cons (t := (_, _)) ⟨⟨.take (u := again) (q := []) rfl rfl rfl, rfl⟩, trivial⟩
                (.nil _))))),
      rfl, rfl, rfl, rfl⟩
  obtain ⟨s, g, as, hrun, hone, hnone, hgot, hrc⟩ := hrun
  have hend : (breaking.exec cfg 0 again).1 ≠ .error .hang := nofun
  have hsecond : RunsOnce s (.exec () breaking) := by
    intro u hu _ h0
    rw [hgot] at hu
    cases hu
    cases h0
  have hstep : ((counted cfg).restrict fun p a => RunsOnce p.1 a).step (s, g) (.exec () breaking)
      (_, countStep cfg g s (.exec () breaking) s) :=
    ⟨⟨.exec hgot rfl (by rw [hrc]; exact hend), rfl⟩, hsecond⟩
  have hs : ((counted cfg).restrict fun p a => RunsOnce p.1 a).Reachable (s, g) :=
    ⟨(start, _), as, ⟨start_initial, rfl⟩, hrun⟩
  have hs' := hs.run (.cons hstep (.nil _))
  refine ⟨_, _, hs', ?_, ?_, ((executes_once rfl).1 _ _ hs'.of_restrict 0).2,
    (executes_once rfl).2 _ _ hs' 0⟩
  all_goals
    rw [countStep_exec g breaking hgot, if_pos (show again.serial = 0 from rfl), hrc]
  · change (g 0).attempts + 1 = 2
    rw [hone]
  · change (g 0).completed + 1 = 1
    rw [hnone]

end LostWhileFetching

end TelecomSuite.Dagw
