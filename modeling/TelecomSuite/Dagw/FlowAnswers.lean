import TelecomSuite.Dagw.HttpServer

/-!
# The answer to a flow request

A flow request is on its way as one message at a time: in the service's inbox, in a worker's queue
or in a worker's hands. Each handler takes this message and either sends it on or ends the request.
`flows_answered` is the count over every run: of each flow request exactly one message is on its way
or exactly one `_ResStartFlowEx` has been posted to the HttpServer.

It holds of the runs whose steps are `Answerable`. `HandleStartFlowEx` reads three parameters that
need not be there and writes a text that need not fit its buffer; the failures inside `OnExecSQL`
and `PreExecSQL` answer with `_ResExecSQL`, which is no answer to a flow request; and
`HandleRespExecSQL` reads the first value of a result that may have none.
-/

namespace TelecomSuite.Dagw.HttpServer

open Fallible Transition

/-! ## Where `OnExecSQL` answers to -/

section
variable {σ : Type}

/-- The address of the response is the same. -/
def SameRes (c c' : Ctx σ) : Prop := c'.utm.res = c.utm.res

/-- `SameRes` is reflexive and transitive. -/
instance : IsPreorder (Ctx σ) SameRes where
  refl _ := rfl
  trans _ _ _ h h' := Eq.trans h' h

/-- A call of the database leaves the message alone. -/
theorem sameRes_call {α : Type} (f : σ → Except BaseException α × σ) :
    Keeps SameRes (call f : Exec σ α) := by
  intro c
  unfold call
  rcases f c.session with ⟨e | a, s⟩ <;> rfl

/-- Fetching leaves the address of the response alone. -/
theorem fetching_sameRes (q : BaseQuery σ) : Fetching SameRes q where
  outputCount := sameRes_call _
  registerOutParam _ := sameRes_call _
  fieldCount := sameRes_call _
  eof := sameRes_call _
  fetchNext := sameRes_call _
  fieldAsString _ := sameRes_call _
  outParamAsString _ := sameRes_call _
  fieldInfoName _ := sameRes_call _
  tags _ h c := (h c.utm).2.2.2

/-- So does the body of `execSQL`. -/
theorem sameRes_execBody (q : BaseQuery σ) (fuel : Nat) (sql : String) :
    Keeps SameRes (execBody q fuel sql) := by
  rw [execBody_eq]
  refine Keeps.bind ?_ fun _ => (fetching_sameRes q).fetchAll fuel
  exact (sameRes_call _).bind fun _ => ((fetching_sameRes q).registerOutParams fuel 1).bind
    fun _ => sameRes_call _

/-- A rejected request is answered, with its address as it was. -/
theorem sameRes_reject (k : SxCode) (sender : ServiceIdentifier) :
    Keeps SameRes (reject k sender : Exec σ Bool) := fun _ => rfl

/-- `setRowCount` leaves the address alone. -/
theorem sameRes_setRowCount (k : SxCode) (q : BaseQuery σ) (sender : ServiceIdentifier)
    (n : Nat) : Keeps SameRes (setRowCount k q sender n) := by
  refine Keeps.bind (fun _ => rfl) ?_
  intro _
  refine (keeps_attempt ((sameRes_call _).bind fun _ => sameRes_call _)).bind ?_
  intro r
  cases r with
  | ok => exact .pure _
  | error => exact sameRes_reject k sender

/-- So does `preExecSQL`. -/
theorem sameRes_preExecSQL (b : Build) (k : SxCode) (maxRowCount : Nat) (q : BaseQuery σ)
    (sender : ServiceIdentifier) (sql : String) :
    Keeps SameRes (preExecSQL b k maxRowCount q sender sql) := by
  refine .ite (sameRes_reject k sender) ?_
  cases b with
  | oracle | odbc => exact .pure _
  | sybase =>
    refine .ite (sameRes_reject k sender) (Keeps.get.bind ?_)
    intro c
    refine .ite (sameRes_setRowCount k q sender _) ?_
    refine Keeps.bind ?_ ?_
    · rw [effectExceeds, map_eq_pure_bind]
      exact (sameRes_call _).bind fun _ => .pure _
    · intro stale
      exact .ite (sameRes_setRowCount k q sender _) (.pure _)

/-! ## What `OnExecSQL` sends -/

variable {cfg : FlowCfg} {utm : FlowMessage}

/-- The variables when `OnExecSQL` calls `PreExecSQL`. -/
def start (cfg : FlowCfg) (s : σ) (rc : Nat) (utm : FlowMessage) : Ctx σ :=
  ⟨s, { utm.toUserTransferMessage with
    res := utm.req
    req := cfg.myIdentifier }, rc, []⟩

/-- What `OnExecSQL` can send: nothing, a response to the sender, or, for an HttpServer, a response
to the service. -/
inductive Executed (cfg : FlowCfg) (utm : FlowMessage) : Except Fault Bool × Ctx σ → Prop
  | failed {f : Fault} {c : Ctx σ} : postsOf utm c.actions = [] → Executed cfg utm (.error f, c)
  | posted {c : Ctx σ} {u : UserTransferMessage} : u.serial = utm.serial →
      postsOf utm c.actions = [(utm.req, utm.response u)] → Executed cfg utm (.ok false, c)
  | silent {c : Ctx σ} : postsOf utm c.actions = [] → Executed cfg utm (.ok false, c)
  | self {c : Ctx σ} : postsOf utm c.actions = [] → c.utm.serial = utm.serial →
      c.utm.res = utm.req → cfg.m_appport utm.req = .httpServer → Executed cfg utm (.ok true, c)

/-- The variables after the calls of the database layer: nothing is sent yet. -/
structure Unsent (utm : FlowMessage) (c : Ctx σ) : Prop where
  actions : c.actions = []
  serial : c.utm.serial = utm.serial
  res : c.utm.res = utm.req

/-- Nothing is sent when `exec` starts. -/
theorem unsent_start (s : σ) (rc : Nat) : Unsent utm (start cfg s rc utm) := ⟨rfl, rfl, rfl⟩

/-- Nothing is sent by code that has only used the database. -/
theorem Unsent.keeps {c c' : Ctx σ} (h : Unsent utm c) (hframe : Frame c c')
    (hres : SameRes c c') : Unsent utm c' :=
  ⟨hframe.actions.trans h.actions, hframe.same.serial.trans h.serial, Eq.trans hres h.res⟩

/-- `sendResult` sends one of the responses of `Executed`, and to the service itself it carries the
result. -/
theorem sendResult_executed {c : Ctx σ} (h : Unsent utm c) :
    Executed cfg utm (sendResult cfg utm.req c) ∧
      (cfg.m_appport utm.req = .httpServer → (sendResult cfg utm.req c).1 = .ok true ∧
        (sendResult cfg utm.req c).2.utm.result = c.utm.result) := by
  obtain ⟨hacts, hserial, hres⟩ := h
  simp only [sendResult, Comp.bind_apply, setUtm_apply, Comp.get_apply]
  generalize hu : (if cfg.build ≠ .oracle then { c.utm with ret := 0 } else c.utm) = u
  have hsame : u.serial = utm.serial ∧ u.res = utm.req ∧ u.result = c.utm.result := by
    subst hu
    split
    · exact ⟨hserial, hres, rfl⟩
    · exact ⟨hserial, hres, rfl⟩
  obtain ⟨hserial', hres', hresult⟩ := hsame
  rw [hres']
  rcases eq_or_ne (cfg.m_appport utm.req) .httpServer with hhttp | hhttp
  · simp only [hhttp, if_true, Comp.pure_apply]
    exact ⟨.self (by simp [postsOf, hacts]) hserial' hres' hhttp, fun _ => ⟨trivial, hresult⟩⟩
  · simp only [hhttp, if_false]
    refine ⟨?_, fun h => absurd h (by simp)⟩
    rcases eq_or_ne (cfg.m_appport utm.req) .slee with hslee | hslee
    · simp only [hslee, if_true, Comp.bind_apply, postMessage_apply, Comp.pure_apply]
      exact .posted hserial' (by simp [postsOf, hacts])
    · simp only [hslee, if_false, Comp.pure_apply]
      exact .silent (by simp [postsOf, hacts])

/-- `sendError` sends one of them too. -/
theorem sendError_executed {c : Ctx σ} (h : Unsent utm c) (sourceName : String)
    (err : BaseException) : Executed cfg utm (sendError cfg utm.req sourceName err c) := by
  simp only [sendError, Comp.bind_apply, setUtm_apply]
  rcases eq_or_ne cfg.build .oracle with hb | hb
  · simp only [hb, if_true, Comp.bind_apply, reportError_apply, Comp.modify_apply,
      postMessage_apply, Comp.pure_apply]
    exact .posted (u := { c.utm with ret := cfg.code.errDbsError }) h.serial
      (by simp [postsOf, h.actions])
  · simp only [hb, if_false, Comp.bind_apply, postMessage_apply, Comp.pure_apply]
    exact .posted (u := { c.utm with ret := cfg.code.errDbsError }) h.serial
      (by simp [postsOf, h.actions])

/-- `sendResult` throws nothing. -/
theorem sendResult_ok (c : Ctx σ) : ∃ self, (sendResult cfg utm.req c).1 = .ok self := by
  simp only [sendResult, Comp.bind_apply, setUtm_apply, Comp.get_apply]
  generalize (if cfg.build ≠ .oracle then { c.utm with ret := 0 } else c.utm) = u
  split
  · exact ⟨true, rfl⟩
  · split <;> exact ⟨false, rfl⟩

/-- Nor does `sendError`. -/
theorem sendError_ok (sourceName : String) (err : BaseException) (c : Ctx σ) :
    ∃ self, (sendError cfg utm.req sourceName err c).1 = .ok self := by
  simp only [sendError, Comp.bind_apply, setUtm_apply]
  split <;> exact ⟨false, rfl⟩

/-- How `OnExecSQL` goes on after `PreExecSQL`. -/
theorem exec_apply (cfg : FlowCfg) (db : Db) (rc : Nat) (utm : FlowMessage) :
    exec cfg db rc utm =
      match preExecSQL cfg.build.trunk cfg.code cfg.m_MaxRowCount db.query utm.req utm.sql
        (start cfg db.session rc utm) with
      | (.ok true, c) =>
        match attempt (execBody db.query db.fuel utm.sql) c with
        | (.ok (.ok _), c') => sendResult cfg utm.req c'
        | (.ok (.error err), c') =>
          if cfg.build ≠ .oracle ∧ utm.ret = 0 ∧ lostConnection err then
            sendResult cfg utm.req c'
          else sendError cfg utm.req utm.sourceName err c'
        | (.error e, c') => (.error e, c')
      | (.ok false, c) => (.ok false, c)
      | (.error e, c) => (.error e, c) := by
  simp only [exec, onExecSQL, Comp.bind_apply, Comp.get_apply, setUtm_apply, start]
  generalize preExecSQL _ _ _ _ _ _ _ = p
  rcases p with ⟨e | (_ | _), c⟩
  · rfl
  · rfl
  · simp only [if_true, Comp.bind_apply]
    generalize attempt _ c = r
    rcases r with ⟨e | (err | a), c'⟩
    · rfl
    · dsimp only
      split <;> rfl
    · rfl

/-- `OnExecSQL` on a statement that runs to its end. -/
theorem exec_of_body {db : Db} {rc : Nat} {c c' : Ctx db.σ}
    (hpre : preExecSQL cfg.build.trunk cfg.code cfg.m_MaxRowCount db.query utm.req utm.sql
      (start cfg db.session rc utm) = (.ok true, c))
    (hbody : attempt (execBody db.query db.fuel utm.sql) c = (.ok (.ok ()), c')) :
    exec cfg db rc utm = sendResult cfg utm.req c' := by
  rw [exec_apply, hpre]
  dsimp only
  rw [hbody]

/-- Whatever the database does, `exec` sends what `Executed` says. -/
theorem exec_executed (cfg : FlowCfg) (db : Db) (rc : Nat) (utm : FlowMessage) :
    Executed cfg utm (exec cfg db rc utm) := by
  have hpre := preExecSQL_prechecked cfg.build.trunk cfg.code cfg.m_MaxRowCount db.query utm.req
    utm.sql (start cfg db.session rc utm)
  have hres := sameRes_preExecSQL cfg.build.trunk cfg.code cfg.m_MaxRowCount db.query utm.req
    utm.sql (start cfg db.session rc utm)
  rw [exec_apply]
  generalize preExecSQL cfg.build.trunk cfg.code cfg.m_MaxRowCount db.query utm.req utm.sql
    (start cfg db.session rc utm) = p at hpre hres
  cases hpre with
  | escaped h => exact .failed (by simp [postsOf, h.actions, start])
  | rejected hs _ _ hacts => exact .posted hs.serial (by simp [postsOf, hacts, start])
  | @accepted c h =>
    have hun : Unsent utm c := (unsent_start db.session rc).keeps h hres
    have hbody := keeps_attempt (keeps_execBody db.query db.fuel utm.sql) c
    have hbody' := keeps_attempt (sameRes_execBody db.query db.fuel utm.sql) c
    dsimp only
    generalize attempt (execBody db.query db.fuel utm.sql) c = r at hbody hbody'
    have hun' := hun.keeps hbody hbody'
    rcases r with ⟨e | (err | a), c'⟩
    · have hacts : c'.actions = [] := hun'.actions
      exact .failed (by rw [postsOf, hacts, List.filterMap_nil])
    · dsimp only
      split
      · exact (sendResult_executed hun').1
      · exact sendError_executed hun' _ _
    · exact (sendResult_executed hun').1

/-- Where no exception leaves `PreExecSQL`, none leaves `OnExecSQL`. -/
theorem exec_ends {db : Db} {rc : Nat}
    (h : ∃ ok c, preExecSQL cfg.build.trunk cfg.code cfg.m_MaxRowCount db.query utm.req utm.sql
      (start cfg db.session rc utm) = (.ok ok, c)) :
    (∃ self, (exec cfg db rc utm).1 = .ok self) ∨ (exec cfg db rc utm).1 = .error .hang := by
  obtain ⟨ok, c, hpre⟩ := h
  rw [exec_apply, hpre]
  cases ok with
  | false => exact .inl ⟨false, rfl⟩
  | true =>
    dsimp only
    rw [attempt]
    rcases execBody db.query db.fuel utm.sql c with ⟨(err | _) | a, c'⟩
    · dsimp only
      split
      · exact .inl (sendResult_ok c')
      · exact .inl (sendError_ok _ _ c')
    · exact .inr rfl
    · exact .inl (sendResult_ok c')

/-- The statement of a flow request gives a value: `PreExecSQL` accepts it, the calls of the `try`
block return, or outside `_DB_ORACLE_` meet a lost connection while the request has a return value
of zero, and the result is not empty. -/
def GivesValue (cfg : FlowCfg) (db : Db) (rc : Nat) (utm : FlowMessage) : Prop :=
  ∃ c r c', preExecSQL cfg.build.trunk cfg.code cfg.m_MaxRowCount db.query utm.req utm.sql
      (start cfg db.session rc utm) = (.ok true, c) ∧
    attempt (execBody db.query db.fuel utm.sql) c = (.ok r, c') ∧
    (∀ err, r = .error err → cfg.build ≠ .oracle ∧ utm.ret = 0 ∧ lostConnection err = true) ∧
    c'.utm.result ≠ []

/-- Such a request of an HttpServer goes back to the service, with a value. -/
theorem GivesValue.exec {db : Db} {rc : Nat} (h : GivesValue cfg db rc utm)
    (hport : cfg.m_appport utm.req = .httpServer) :
    (exec cfg db rc utm).1 = .ok true ∧ (exec cfg db rc utm).2.utm.result ≠ [] := by
  obtain ⟨c, r, c', hpre, hbody, herr, hresult⟩ := h
  have hframe := preExecSQL_prechecked cfg.build.trunk cfg.code cfg.m_MaxRowCount db.query utm.req
    utm.sql (start cfg db.session rc utm)
  have hres := sameRes_preExecSQL cfg.build.trunk cfg.code cfg.m_MaxRowCount db.query utm.req
    utm.sql (start cfg db.session rc utm)
  have hbody₁ := keeps_attempt (keeps_execBody db.query db.fuel utm.sql) c
  have hbody₂ := keeps_attempt (sameRes_execBody db.query db.fuel utm.sql) c
  rw [hpre] at hframe hres
  rw [hbody] at hbody₁ hbody₂
  have hun : Unsent utm c' := by
    cases hframe with
    | accepted h => exact ((unsent_start db.session rc).keeps h hres).keeps hbody₁ hbody₂
  have hsend : HttpServer.exec cfg db rc utm = sendResult cfg utm.req c' := by
    rw [exec_apply, hpre]
    dsimp only
    rw [hbody]
    cases r with
    | ok a => rfl
    | error err =>
      dsimp only
      rw [if_pos (herr err rfl)]
  obtain ⟨hself, heq⟩ := (@sendResult_executed _ cfg _ _ hun).2 hport
  rw [hsend]
  exact ⟨hself, heq ▸ hresult⟩

end

/-! ## Messages on their way -/

section
variable {W : Type} [DecidableEq W]

/-- What a worker has of the messages. -/
def Worker.held (p : Worker) : Multiset FlowMessage := p.m_queue + p.busy.toList

/-- The messages that some handler has still to take. -/
def State.inFlight [Fintype W] (s : State W) : Multiset FlowMessage :=
  s.inbox + ∑ w, (s.workers w).held

/-- The posted message is the answer to the flow request `r`. -/
def IsAnswer (r : FlowMessage) (p : ServiceIdentifier × FlowMessage) : Prop :=
  p.1 = r.req ∧ p.2.flowId = .resStartFlowEx ∧ p.2.serial = r.serial

/-- Whether a posted message is the answer can be computed. -/
instance (r : FlowMessage) : DecidablePred (IsAnswer r) := fun _ =>
  inferInstanceAs (Decidable (_ ∧ _))

/-- How many answers to the flow request have been posted. -/
def State.answered (s : State W) (r : FlowMessage) : Nat :=
  s.posted.countP fun p => IsAnswer r p

/-- How many messages of the flow request are on their way. -/
def State.pending [Fintype W] (s : State W) (r : FlowMessage) : Nat :=
  s.inFlight.countP fun m => m.serial = r.serial

/-- What a handler adds to the messages on their way and to those posted. -/
structure Adds [Fintype W] (s t : State W) (ins : Multiset FlowMessage)
    (posts : List (ServiceIdentifier × FlowMessage)) : Prop where
  inFlight : t.inFlight = s.inFlight + ins
  posted : t.posted = s.posted ++ posts
  flows : t.flows = s.flows
  received : t.received = s.received
  failed : t.failed = s.failed

omit [DecidableEq W] in
/-- `route` changes neither the number nor the sender of a message. -/
theorem route_same (info : CDBProcInfo W) (u : UserTransferMessage) :
    (route info u).2.2.serial = u.serial ∧ (route info u).2.2.req = u.req := by
  unfold route
  dsimp only
  split
  · exact ⟨rfl, rfl⟩
  · dsimp only
    split <;> exact ⟨rfl, rfl⟩

section
variable [Fintype W]

/-- The messages on their way change by what the worker has more or less. -/
theorem inFlight_setWorker (s : State W) (w : W) (p : Worker) :
    (s.setWorker w p).inFlight + (s.workers w).held = s.inFlight + p.held := by
  have hsum := Accounting.sum_update_add Worker.held s.workers w p
  rw [State.inFlight, State.setWorker, State.inFlight, add_assoc, add_assoc]
  exact congrArg _ hsum

omit [DecidableEq W] in
/-- A posted message is added to those posted. -/
theorem adds_post (s : State W) (dest : ServiceIdentifier) (m : FlowMessage) :
    Adds s (s.post dest m) 0 [(dest, m)] :=
  ⟨(add_zero _).symm, rfl, rfl, rfl, rfl⟩

omit [DecidableEq W] in
/-- A message to the service itself is added to those on their way. -/
theorem adds_postSelf (s : State W) (m : FlowMessage) : Adds s (s.postSelf m) {m} [] where
  inFlight := by
    change ((s.inbox ++ [m] : List FlowMessage) : Multiset FlowMessage) + _ = _
    rw [← Multiset.coe_add, add_right_comm]
    rfl
  posted := (List.append_nil _).symm
  flows := rfl
  received := rfl
  failed := rfl

/-- So is a message that a worker takes into its queue. -/
theorem adds_process {s : State W} {w : W} {p : Worker} {m : FlowMessage}
    (h : (s.workers w).process m = some p) : Adds s (s.setWorker w p) {m} [] where
  inFlight := by
    have hheld : p.held = (s.workers w).held + {m} := by
      unfold Worker.process at h
      split at h
      · cases h
        rw [Worker.held, Worker.held, ← Multiset.coe_add, add_right_comm]
        rfl
      · cases h
    have hset := inFlight_setWorker s w p
    rw [hheld, ← add_assoc, add_right_comm] at hset
    exact add_right_cancel hset
  posted := (List.append_nil _).symm
  flows := rfl
  received := rfl
  failed := rfl

omit [DecidableEq W] in
/-- A refusal to an HttpServer is one answer, if the sender is not an SLEE. -/
theorem refuse_adds (cfg : FlowCfg) (s : State W) (sender : ServiceIdentifier) (m : FlowMessage) :
    ∃ posts, Adds s (refuse cfg s sender m) 0 posts ∧ (∀ p ∈ posts, p.2.serial = m.serial) ∧
      (cfg.m_appport m.req = .httpServer → cfg.m_appport sender ≠ .slee →
        ∃ u, posts = [(m.req, u)] ∧ u.flowId = .resStartFlowEx ∧ u.serial = m.serial) := by
  unfold refuse
  rcases eq_or_ne (cfg.m_appport m.req) .httpServer with hhttp | hhttp
  · rcases eq_or_ne (cfg.m_appport sender) .slee with hslee | hslee
    · simp only [hhttp, hslee, if_true]
      refine ⟨_, ⟨(add_zero _).symm, List.append_assoc _ _ _, rfl, rfl, rfl⟩, ?_, ?_⟩
      · simp [refused]
      · exact fun _ h => absurd rfl h
    · simp only [hhttp, hslee, if_true, if_false]
      refine ⟨_, adds_post s _ _, ?_, ?_⟩
      · simp [refused]
      · exact fun _ _ => ⟨_, rfl, rfl, rfl⟩
  · rcases eq_or_ne (cfg.m_appport sender) .slee with hslee | hslee
    · simp only [hhttp, hslee, if_true, if_false]
      refine ⟨_, adds_post s _ _, ?_, ?_⟩
      · simp
      · exact fun h => h.elim
    · simp only [hhttp, hslee, if_false]
      refine ⟨[], ⟨(add_zero _).symm, (List.append_nil _).symm, rfl, rfl, rfl⟩, ?_, ?_⟩
      · simp
      · exact fun h => h.elim

/-- `HandleExecSQL` sends the message on to a worker, or refuses it. -/
theorem handleExecSQL_adds (cfg : FlowCfg) (s : State W) (sender : ServiceIdentifier)
    {m : FlowMessage} (hid : m.flowId = .reqExecSQL) :
    (∃ m', Adds s (handleExecSQL cfg s sender m) {m'} [] ∧ m'.serial = m.serial ∧
        m'.req = m.req ∧ m'.flowId = .reqExecSQL) ∨
      ∃ posts, Adds s (handleExecSQL cfg s sender m) 0 posts ∧
        (∀ p ∈ posts, p.2.serial = m.serial) ∧
        (cfg.m_appport m.req = .httpServer → cfg.m_appport sender ≠ .slee →
          ∃ u, posts = [(m.req, u)] ∧ u.flowId = .resStartFlowEx ∧ u.serial = m.serial) := by
  unfold handleExecSQL
  cases s.m_mapProcess m.sourceName with
  | none => exact .inr (refuse_adds cfg s sender m)
  | some info =>
    obtain ⟨hserial, hreq⟩ := route_same info m.toUserTransferMessage
    dsimp only
    generalize route info m.toUserTransferMessage = r at hserial hreq
    generalize hs₁ : ({ s with
      m_mapProcess := Function.update s.m_mapProcess m.sourceName (some r.2.1) } : State W) = s₁
    have hadds : ∀ {t ins posts}, Adds s₁ t ins posts → Adds s t ins posts := by
      subst hs₁
      exact fun h => ⟨h.inFlight, h.posted, h.flows, h.received, h.failed⟩
    have hrefuse := refuse_adds cfg s₁ sender { m with toUserTransferMessage := r.2.2 }
    dsimp only at hrefuse
    rw [hserial, hreq] at hrefuse
    obtain ⟨posts, hposts, hrest⟩ := hrefuse
    cases r.1 with
    | none => exact .inr ⟨posts, hadds hposts, hrest⟩
    | some w =>
      dsimp only
      split
      · split
        · next p hp =>
          refine .inl ⟨{ m with toUserTransferMessage := r.2.2 }, ?_, hserial, hreq, hid⟩
          refine hadds ?_
          subst hs₁
          exact adds_process hp
        · exact .inr ⟨posts, hadds hposts, hrest⟩
      · exact .inr ⟨posts, hadds hposts, hrest⟩

/-! ## The count -/

/-- The message is on the way of one of these flow requests, and can be answered. -/
def FromFlow (flows : List FlowMessage) (m : FlowMessage) : Prop :=
  ∃ r ∈ flows, m.serial = r.serial ∧
    (m.flowId = .reqExecSQL ∧ m.req = r.req ∨
      m.flowId = .resExecSQL ∧ m.res = r.req ∧ m.result ≠ [])

/-- The message is the request of another client. -/
def FromOther (cfg : FlowCfg) (flows : List FlowMessage) (m : FlowMessage) : Prop :=
  m.flowId = .reqExecSQL ∧ cfg.m_appport m.req ≠ .httpServer ∧ ∀ r ∈ flows, r.serial ≠ m.serial

/-- Of each flow request one message is on its way, or one answer is posted. -/
structure Inv (cfg : FlowCfg) (s : State W) : Prop where
  running : s.failed = false
  flows : ∀ r ∈ s.flows, cfg.m_appport r.req = .httpServer ∧ r.serial < s.received
  distinct : ∀ r ∈ s.flows, ∀ r' ∈ s.flows, r.serial = r'.serial → r = r'
  proper : ∀ m ∈ s.inFlight,
    m.serial < s.received ∧ (FromFlow s.flows m ∨ FromOther cfg s.flows m)
  posted : ∀ p ∈ s.posted, p.2.serial < s.received
  once : ∀ r ∈ s.flows, s.answered r + s.pending r = 1

section
variable {cfg : FlowCfg} {s₀ s t : State W} {m : FlowMessage} {ins : Multiset FlowMessage}
  {posts : List (ServiceIdentifier × FlowMessage)} {n : Nat}

omit [DecidableEq W] in
/-- What is added under one serial number counts for the flow request with this number only. -/
theorem Adds.counts (h : Adds s t ins posts) (hins : ∀ m ∈ ins, m.serial = n)
    (hposts : ∀ p ∈ posts, p.2.serial = n) (r : FlowMessage) :
    t.answered r + t.pending r = s.answered r + s.pending r +
      if r.serial = n then ins.card + posts.countP (fun p => IsAnswer r p) else 0 := by
  rw [State.answered, State.pending, State.answered, State.pending, h.posted, h.inFlight,
    List.countP_append, Multiset.countP_add]
  split
  · next hr =>
    rw [Multiset.countP_eq_card.2 fun m hm => (hins m hm).trans hr.symm]
    omega
  · next hr =>
    have hi : ins.countP (fun m => m.serial = r.serial) = 0 := by
      rw [Multiset.countP_eq_zero]
      exact fun m hm heq => hr (heq.symm.trans (hins m hm))
    have hp : posts.countP (fun p => IsAnswer r p) = 0 := by
      rw [List.countP_eq_zero]
      intro p hp heq
      exact hr ((of_decide_eq_true heq).2.2.symm.trans (hposts p hp))
    omega

omit [DecidableEq W] in
/-- The posted messages have numbers that were handed out, if the added ones do. -/
theorem Adds.posted_lt (h : Adds s t ins posts) (hs : ∀ p ∈ s.posted, p.2.serial < n)
    (hposts : ∀ p ∈ posts, p.2.serial < n) : ∀ p ∈ t.posted, p.2.serial < n := by
  intro p hp
  rw [h.posted, List.mem_append] at hp
  exact hp.elim (hs p) (hposts p)

omit [DecidableEq W] in
/-- Nothing on its way or posted has the next serial number. -/
theorem Inv.unused (h : Inv cfg s) {r : FlowMessage} (hser : r.serial = s.received) :
    s.answered r + s.pending r = 0 := by
  have ha : s.answered r = 0 := by
    rw [State.answered, List.countP_eq_zero]
    intro p hp heq
    have hlt := h.posted p hp
    rw [(of_decide_eq_true heq).2.2, hser] at hlt
    exact Nat.lt_irrefl _ hlt
  have hp : s.pending r = 0 := by
    rw [State.pending, Multiset.countP_eq_zero]
    intro m hm heq
    have hlt := (h.proper m hm).1
    rw [heq, hser] at hlt
    exact Nat.lt_irrefl _ hlt
  rw [ha, hp]

omit [DecidableEq W] in
/-- A handler that takes a message and adds under its serial number. -/
theorem Inv.move (h : Inv cfg s) (htake : Adds s₀ s {m} []) (hadds : Adds s₀ t ins posts)
    (hins : ∀ m' ∈ ins,
      m'.serial = m.serial ∧ (FromFlow s.flows m' ∨ FromOther cfg s.flows m'))
    (hposts : ∀ p ∈ posts, p.2.serial = m.serial)
    (hone : FromFlow s.flows m → ∀ r ∈ s.flows, r.serial = m.serial →
      ins.card + posts.countP (fun p => IsAnswer r p) = 1) : Inv cfg t := by
  have hflows : t.flows = s.flows := hadds.flows.trans htake.flows.symm
  have hreceived : t.received = s.received := hadds.received.trans htake.received.symm
  have hm : m ∈ s.inFlight := by
    rw [htake.inFlight]
    exact Multiset.mem_add.2 (.inr (Multiset.mem_singleton_self m))
  obtain ⟨hlt, hproper⟩ := h.proper m hm
  refine
    { running := hadds.failed.trans (htake.failed.symm.trans h.running)
      flows := ?_
      distinct := ?_
      proper := ?_
      posted := ?_
      once := ?_ }
  · rw [hflows, hreceived]
    exact h.flows
  · rw [hflows]
    exact h.distinct
  · intro m' hm'
    rw [hflows, hreceived]
    rw [hadds.inFlight, Multiset.mem_add] at hm'
    rcases hm' with hm' | hm'
    · refine h.proper m' ?_
      rw [htake.inFlight]
      exact Multiset.mem_add.2 (.inl hm')
    · exact ⟨(hins m' hm').1.trans_lt hlt, (hins m' hm').2⟩
  · rw [hreceived]
    have hbefore : ∀ p ∈ s₀.posted, p.2.serial < s.received := by
      intro p hp
      refine h.posted p ?_
      rw [htake.posted]
      exact List.mem_append.2 (.inl hp)
    exact hadds.posted_lt hbefore fun p hp => (hposts p hp).trans_lt hlt
  · intro r hr
    rw [hflows] at hr
    have hbefore := htake.counts (n := m.serial) (by simp) (by simp) r
    have hafter := hadds.counts (fun m' hm' => (hins m' hm').1) hposts r
    have honce := h.once r hr
    rw [hbefore] at honce
    rw [hafter]
    rcases eq_or_ne r.serial m.serial with hser | hser
    · have hfrom : FromFlow s.flows m := by
        rcases hproper with hfrom | hother
        · exact hfrom
        · exact absurd hser (hother.2.2 r hr)
      have hadded := hone hfrom r hr hser
      simp only [hser, if_true, Multiset.card_singleton, List.countP_nil] at honce ⊢
      omega
    · simp only [hser, if_false] at honce ⊢
      exact honce

omit [DecidableEq W] in
/-- A handler that takes a request which arrives, a flow request or another. -/
theorem Inv.arrive (h : Inv cfg s) (news : Option FlowMessage)
    (hadds : Adds { s with
      flows := s.flows ++ news.toList
      received := s.received + 1 } t ins posts)
    (hnews : ∀ r ∈ news, cfg.m_appport r.req = .httpServer ∧ r.serial = s.received)
    (hins : ∀ m ∈ ins, m.serial = s.received ∧
      (FromFlow (s.flows ++ news.toList) m ∨ cfg.m_appport m.req ≠ .httpServer ∧
        m.flowId = .reqExecSQL ∧ news = none))
    (hposts : ∀ p ∈ posts, p.2.serial = s.received)
    (hone : ∀ r ∈ news, ins.card + posts.countP (fun p => IsAnswer r p) = 1) : Inv cfg t := by
  have hflows : t.flows = s.flows ++ news.toList := hadds.flows
  have hreceived : t.received = s.received + 1 := hadds.received
  have hcases : ∀ {r}, r ∈ s.flows ++ news.toList → r ∈ s.flows ∨ r ∈ news := by
    intro r hr
    rw [List.mem_append, Option.mem_toList] at hr
    exact hr
  refine
    { running := hadds.failed.trans h.running
      flows := ?_
      distinct := ?_
      proper := ?_
      posted := ?_
      once := ?_ }
  · intro r hr
    rw [hreceived]
    rw [hflows] at hr
    rcases hcases hr with hr | hr
    · exact ⟨(h.flows r hr).1, Nat.lt_succ_of_lt (h.flows r hr).2⟩
    · exact ⟨(hnews r hr).1, (hnews r hr).2 ▸ Nat.lt_succ_self _⟩
  · intro r hr r' hr' heq
    rw [hflows] at hr hr'
    rcases hcases hr with hr | hr <;> rcases hcases hr' with hr' | hr'
    · exact h.distinct r hr r' hr' heq
    · exact absurd (heq.trans (hnews r' hr').2) (Nat.ne_of_lt (h.flows r hr).2)
    · exact absurd (heq.symm.trans (hnews r hr).2) (Nat.ne_of_lt (h.flows r' hr').2)
    · exact Option.mem_unique hr hr'
  · intro m hm
    rw [hreceived, hflows]
    rw [hadds.inFlight, Multiset.mem_add] at hm
    rcases hm with hm | hm
    · obtain ⟨hlt, hproper⟩ := h.proper m hm
      refine ⟨Nat.lt_succ_of_lt hlt, ?_⟩
      rcases hproper with ⟨r, hr, hrest⟩ | ⟨hid, hport, hother⟩
      · exact .inl ⟨r, List.mem_append.2 (.inl hr), hrest⟩
      · refine .inr ⟨hid, hport, ?_⟩
        intro r hr
        rcases hcases hr with hr | hr
        · exact hother r hr
        · rw [(hnews r hr).2]
          exact (Nat.ne_of_lt hlt).symm
    · obtain ⟨hser, hproper⟩ := hins m hm
      refine ⟨hser ▸ Nat.lt_succ_self _, hproper.imp_right ?_⟩
      rintro ⟨hport, hid, rfl⟩
      refine ⟨hid, hport, ?_⟩
      intro r hr
      rcases hcases hr with hr | hr
      · rw [hser]
        exact Nat.ne_of_lt (h.flows r hr).2
      · cases hr
  · rw [hreceived]
    exact hadds.posted_lt (fun p hp => Nat.lt_succ_of_lt (h.posted p hp))
      fun p hp => hposts p hp ▸ Nat.lt_succ_self _
  · intro r hr
    rw [hflows] at hr
    have hafter := hadds.counts (fun m hm => (hins m hm).1) hposts r
    rw [hafter]
    change s.answered r + s.pending r + _ = 1
    rcases hcases hr with hr | hr
    · rw [if_neg (Nat.ne_of_lt (h.flows r hr).2)]
      exact h.once r hr
    · have hser := (hnews r hr).2
      rw [if_pos hser, h.unused hser, hone r hr]

end

end

/-! ## Every step -/

/-- `HandleStartFlowEx` finds the parameters that it reads, and its statement fits the buffer. -/
def ParametersFit (cfg : FlowCfg) (utm : FlowMessage) : Prop :=
  nullParameter utm.parameter ≠ none ∧
    (nullParameter utm.parameter = some false →
      ∀ proc, procedure cfg.first (utm.parameter.getD 1 "") = some proc →
        (flowSql proc (utm.parameter.getD 2 "") (utm.parameter.getD 3 "")
          (utm.parameter.getD 4 "")).length < flowSqlSize)

/-- The request can be answered after this step: the parameters of a flow request fit, a worker
that executes has a handle where it needs one, the statement of a flow request gives a value, and
no exception leaves `PreExecSQL` on another request. -/
def Answerable (cfg : FlowCfg) (s : State W) : Label W → Prop
  | .startFlow utm => ParametersFit cfg utm
  | .exec w db => ∀ utm, (s.workers w).busy = some utm →
      ((s.workers w).m_pDbQuery ≠ none ∨ rejectsText cfg.build utm.sql = true) ∧
      (cfg.m_appport utm.req = .httpServer → GivesValue cfg db (s.workers w).m_rowCount utm) ∧
      ∃ ok c, preExecSQL cfg.build.trunk cfg.code cfg.m_MaxRowCount db.query utm.req utm.sql
        (start cfg db.session (s.workers w).m_rowCount utm) = (.ok ok, c)
  | .request _ | .self _ | .take _ | .reconnect .. => True

section
variable [Fintype W] {cfg : FlowCfg} {s : State W}

omit [DecidableEq W] in
/-- `HandleStartFlowEx` refuses the request, or sends it to the service. -/
theorem handleStartFlowEx_adds {utm : FlowMessage} (h : ParametersFit cfg utm) :
    (∃ u, Adds s (handleStartFlowEx cfg s utm.req utm) 0 [(utm.req, u)] ∧
        u.flowId = .resStartFlowEx ∧ u.serial = utm.serial) ∨
      ∃ m, Adds s (handleStartFlowEx cfg s utm.req utm) {m} [] ∧ m.serial = utm.serial ∧
        m.req = utm.req ∧ m.flowId = .reqExecSQL := by
  obtain ⟨hfound, hfits⟩ := h
  unfold handleStartFlowEx
  dsimp only
  cases hnull : nullParameter utm.parameter with
  | none => exact absurd hnull hfound
  | some missing =>
    cases missing with
    | true => exact .inl ⟨refused cfg utm, adds_post s _ _, rfl, rfl⟩
    | false =>
      dsimp only
      cases hproc : procedure cfg.first (utm.parameter.getD 1 "") with
      | none => exact .inl ⟨refused cfg utm, adds_post s _ _, rfl, rfl⟩
      | some proc =>
        dsimp only
        rw [if_pos (hfits hnull proc hproc)]
        exact .inr ⟨_, adds_postSelf s _, rfl, rfl, rfl⟩

omit [DecidableEq W] [Fintype W] in
/-- An answer to the flow request is one. -/
theorem countP_answer {r u : FlowMessage} (hid : u.flowId = .resStartFlowEx)
    (hser : u.serial = r.serial) : [(r.req, u)].countP (fun p => IsAnswer r p) = 1 := by
  rw [List.countP_singleton, if_pos]
  exact decide_eq_true ⟨rfl, hid, hser⟩

omit [DecidableEq W] in
/-- A flow request whose parameters fit keeps the invariant. -/
theorem Inv.startFlow (h : Inv cfg s) {utm : FlowMessage}
    (hport : cfg.m_appport utm.req = .httpServer) (hser : utm.serial = s.received)
    (hfit : ParametersFit cfg utm) :
    Inv cfg (handleStartFlowEx cfg
      { s with flows := s.flows ++ [utm], received := s.received + 1 } utm.req utm) := by
  have hnews : ∀ r ∈ some utm, cfg.m_appport r.req = .httpServer ∧ r.serial = s.received := by
    rintro r ⟨⟩
    exact ⟨hport, hser⟩
  rcases handleStartFlowEx_adds (s := { s with
      flows := s.flows ++ [utm]
      received := s.received + 1 }) hfit with ⟨u, hadds, hid, hu⟩ | ⟨m, hadds, hm, hreq, hid⟩
  · refine h.arrive (some utm) hadds hnews (by simp) (by simp [hu, hser]) ?_
    rintro r ⟨⟩
    rw [countP_answer hid hu, Multiset.card_zero]
  · refine h.arrive (some utm) hadds hnews ?_ (by simp) ?_
    · intro m' hm'
      rw [Multiset.mem_singleton.1 hm']
      exact ⟨hm.trans hser, .inl ⟨utm, by simp, hm, .inl ⟨hid, hreq⟩⟩⟩
    · rintro r ⟨⟩
      rfl

/-- So does a request that no HttpServer sent. -/
theorem Inv.request (h : Inv cfg s) {utm : FlowMessage} (hid : utm.flowId = .reqExecSQL)
    (hport : cfg.m_appport utm.req ≠ .httpServer) (hser : utm.serial = s.received) :
    Inv cfg (handleExecSQL cfg { s with received := s.received + 1 } utm.req utm) := by
  have hs : ({ s with received := s.received + 1 } : State W) =
      { s with
        flows := s.flows ++ (none : Option FlowMessage).toList
        received := s.received + 1 } := by
    simp
  rcases handleExecSQL_adds cfg { s with received := s.received + 1 } utm.req hid with
    ⟨m, hadds, hm, hreq, hmid⟩ | ⟨posts, hadds, hposts, -⟩
  · rw [hs] at hadds ⊢
    refine h.arrive none hadds (by simp) ?_ (by simp) (by simp)
    intro m' hm'
    rw [Multiset.mem_singleton.1 hm']
    exact ⟨hm.trans hser, .inr ⟨hreq ▸ hport, hmid, rfl⟩⟩
  · rw [hs] at hadds ⊢
    refine h.arrive none hadds (by simp) (by simp) ?_ (by simp)
    exact fun p hp => (hposts p hp).trans hser

omit [DecidableEq W] in
/-- The service takes a message out of its inbox. -/
theorem adds_inbox {m : FlowMessage} {inbox : List FlowMessage} (h : s.inbox = m :: inbox) :
    Adds { s with inbox := inbox } s {m} [] where
  inFlight := by
    rw [State.inFlight, h, ← Multiset.cons_coe, Multiset.cons_add, ← Multiset.singleton_add,
      add_comm]
    rfl
  posted := (List.append_nil _).symm
  flows := rfl
  received := rfl
  failed := rfl

omit [DecidableEq W] in
/-- The sender of a flow's `_ReqExecSQL` is the sender of the flow request. -/
theorem FromFlow.port (h : Inv cfg s) {m : FlowMessage} (hm : FromFlow s.flows m)
    (hid : m.flowId = .reqExecSQL) : cfg.m_appport m.req = .httpServer ∧
      ∀ r ∈ s.flows, r.serial = m.serial → m.req = r.req := by
  obtain ⟨r, hr, hser, ⟨-, hreq⟩ | ⟨hid', -⟩⟩ := hm
  · refine ⟨hreq ▸ (h.flows r hr).1, ?_⟩
    intro r' hr' heq
    rw [hreq, h.distinct r hr r' hr' (heq.trans hser).symm]
  · rw [hid] at hid'
    cases hid'

/-- The request of the service to itself for the statement of a flow keeps the invariant. -/
theorem Inv.selfExec (h : Inv cfg s) {sender : ServiceIdentifier} {m : FlowMessage}
    {inbox : List FlowMessage} (hin : s.inbox = m :: inbox) (hid : m.flowId = .reqExecSQL)
    (hsender : cfg.m_appport sender ≠ .slee) :
    Inv cfg (handleExecSQL cfg { s with inbox := inbox } sender m) := by
  have htake := adds_inbox hin
  have hmem : m ∈ s.inFlight := by
    rw [htake.inFlight]
    exact Multiset.mem_add.2 (.inr (Multiset.mem_singleton_self m))
  have hproper := (h.proper m hmem).2
  rcases handleExecSQL_adds cfg { s with inbox := inbox } sender hid with
    ⟨m', hadds, hser, hreq, hmid⟩ | ⟨posts, hadds, hposts, hone⟩
  · refine h.move htake hadds ?_ (by simp) ?_
    · intro m₁ hm₁
      rw [Multiset.mem_singleton.1 hm₁]
      refine ⟨hser, hproper.imp ?_ ?_⟩
      · rintro ⟨r, hr, hrser, hrest⟩
        refine ⟨r, hr, hser.trans hrser, hrest.imp ?_ ?_⟩
        · exact fun h => ⟨hmid, hreq.trans h.2⟩
        · rintro ⟨hid', -⟩
          rw [hid] at hid'
          cases hid'
      · rintro ⟨-, hport, hother⟩
        exact ⟨hmid, hreq ▸ hport, hser ▸ hother⟩
    · intro _ r _ _
      rfl
  · refine h.move htake hadds (by simp) hposts ?_
    intro hfrom r hr hrser
    obtain ⟨hport, hreq⟩ := hfrom.port h hid
    obtain ⟨u, rfl, huid, huser⟩ := hone hport hsender
    rw [hreq r hr hrser, countP_answer huid (huser.trans hrser.symm), Multiset.card_zero]

omit [DecidableEq W] in
/-- So does the response that comes back to the service. -/
theorem Inv.selfResp (h : Inv cfg s) {m : FlowMessage} {inbox : List FlowMessage}
    (hin : s.inbox = m :: inbox) (hid : m.flowId = .resExecSQL) :
    Inv cfg (handleRespExecSQL { s with inbox := inbox } m) := by
  have htake := adds_inbox hin
  have hmem : m ∈ s.inFlight := by
    rw [htake.inFlight]
    exact Multiset.mem_add.2 (.inr (Multiset.mem_singleton_self m))
  rcases (h.proper m hmem).2 with ⟨r, hr, hser, ⟨hid', -⟩ | ⟨-, hres, hvalue⟩⟩ | ⟨hid', -⟩
  · rw [hid] at hid'
    cases hid'
  · unfold handleRespExecSQL
    cases hresult : m.result with
    | nil => exact absurd hresult hvalue
    | cons value rest =>
      refine h.move htake (adds_post _ _ _) (by simp) (by simp) ?_
      intro _ r' hr' hser'
      obtain rfl := h.distinct r' hr' r hr (hser'.trans hser)
      rw [hres, Multiset.card_zero, Nat.zero_add]
      exact countP_answer rfl hser
  · rw [hid] at hid'
    cases hid'

/-- A worker gives its message away. -/
theorem adds_busy {w : W} {m : FlowMessage} {p : Worker} (h : (s.workers w).busy = some m)
    (hqueue : p.m_queue = (s.workers w).m_queue) (hbusy : p.busy = none) :
    Adds (s.setWorker w p) s {m} [] where
  inFlight := by
    have hheld : (s.workers w).held = p.held + {m} := by
      rw [Worker.held, Worker.held, h, hbusy, hqueue, Option.toList_none, Multiset.coe_nil,
        add_zero]
      rfl
    have hset := inFlight_setWorker s w p
    rw [hheld, add_comm p.held, ← add_assoc] at hset
    exact (add_right_cancel hset).symm
  posted := (List.append_nil _).symm
  flows := rfl
  received := rfl
  failed := rfl

/-- A worker that takes a message from its queue keeps the invariant. -/
theorem Inv.take (h : Inv cfg s) {w : W} {m : FlowMessage} {queue : List FlowMessage}
    (hbusy : (s.workers w).busy = none) (hqueue : (s.workers w).m_queue = m :: queue) :
    Inv cfg (s.setWorker w { s.workers w with m_queue := queue, busy := some m }) := by
  have hsame : (s.setWorker w { s.workers w with m_queue := queue, busy := some m }).inFlight =
      s.inFlight := by
    have hset := inFlight_setWorker s w { s.workers w with m_queue := queue, busy := some m }
    have hheld : Worker.held { s.workers w with m_queue := queue, busy := some m } =
        (s.workers w).held := by
      rw [Worker.held, Worker.held, hbusy, hqueue, ← Multiset.cons_coe, Option.toList_none,
        Multiset.coe_nil, add_zero, Option.toList_some, Multiset.coe_singleton, add_comm,
        Multiset.singleton_add]
    rw [hheld] at hset
    exact add_right_cancel hset
  exact
    { running := h.running
      flows := h.flows
      distinct := h.distinct
      proper := hsame ▸ h.proper
      posted := h.posted
      once := by
        intro r hr
        rw [State.pending, hsame]
        exact h.once r hr }

/-- So does the execution, if the request can be answered. -/
theorem Inv.exec (h : Inv cfg s) {w : W} {m : FlowMessage} {db : Db}
    (hbusy : (s.workers w).busy = some m) (hid : m.flowId = .reqExecSQL)
    (hhang : (HttpServer.exec cfg db (s.workers w).m_rowCount m).1 ≠ .error .hang)
    (hans : Answerable cfg s (.exec w db)) :
    Inv cfg (s.executed w m (HttpServer.exec cfg db (s.workers w).m_rowCount m)) := by
  obtain ⟨-, hvalue, hpre⟩ := hans m hbusy
  have htake := adds_busy (p := { s.workers w with
    busy := none
    m_rowCount := (HttpServer.exec cfg db (s.workers w).m_rowCount m).2.m_rowCount }) hbusy rfl rfl
  have hmem : m ∈ s.inFlight := by
    rw [htake.inFlight]
    exact Multiset.mem_add.2 (.inr (Multiset.mem_singleton_self m))
  have hproper := (h.proper m hmem).2
  have hflow : FromFlow s.flows m →
      (HttpServer.exec cfg db (s.workers w).m_rowCount m).1 = .ok true ∧
        (HttpServer.exec cfg db (s.workers w).m_rowCount m).2.utm.result ≠ [] := by
    intro hfrom
    have hport := (hfrom.port h hid).1
    exact (hvalue hport).exec hport
  have hends := exec_ends hpre
  have hexec := exec_executed cfg db (s.workers w).m_rowCount m
  generalize HttpServer.exec cfg db (s.workers w).m_rowCount m = r at *
  cases hexec with
  | @failed f c hposts =>
    rcases hends with ⟨self, hself⟩ | hself
    · cases hself
    · exact absurd hself hhang
  | @posted c u hser hposts =>
    have hnot : ¬ FromFlow s.flows m := fun hfrom => by cases (hflow hfrom).1
    refine h.move htake (show Adds _ _ 0 [(m.req, m.response u)] from ?_) (by simp) ?_ ?_
    · exact ⟨(add_zero _).symm, congrArg (s.posted ++ ·) hposts, rfl, rfl, rfl⟩
    · simpa [FlowMessage.response] using hser
    · exact fun hfrom => absurd hfrom hnot
  | @silent c hposts =>
    have hnot : ¬ FromFlow s.flows m := fun hfrom => by cases (hflow hfrom).1
    refine h.move htake (show Adds _ _ 0 [] from ?_) (by simp) (by simp) ?_
    · exact ⟨(add_zero _).symm, congrArg (s.posted ++ ·) hposts, rfl, rfl, rfl⟩
    · exact fun hfrom => absurd hfrom hnot
  | @self c hposts hser hres hport =>
    have hself := adds_postSelf (s.setWorker w { s.workers w with
      busy := none
      m_rowCount := c.m_rowCount }) (m.response c.utm)
    refine h.move htake (show Adds _ _ {m.response c.utm} [] from ?_) ?_ (by simp) ?_
    · refine ⟨hself.inFlight, ?_, rfl, rfl, rfl⟩
      exact congrArg (s.posted ++ ·) hposts
    · intro m' hm'
      rw [Multiset.mem_singleton.1 hm']
      refine ⟨hser, .inl ?_⟩
      rcases hproper with hfrom | hother
      · obtain ⟨r, hr, hrser, -⟩ := id hfrom
        have hreq := (hfrom.port h hid).2 r hr hrser.symm
        exact ⟨r, hr, hser.trans hrser, .inr ⟨rfl, hres.trans hreq, (hflow hfrom).2⟩⟩
      · exact absurd hport hother.2.1
    · intro _ r _ _
      rfl

/-- The invariant holds in every state that answerable steps reach. -/
theorem inv_inductive (cfg : FlowCfg) :
    ((system W cfg).restrict (Answerable cfg)).Inductive (Inv cfg) where
  init s hs := by
    have hnone : s.inFlight = 0 := by
      rw [State.inFlight, hs.inbox, Finset.sum_eq_zero]
      · rfl
      · intro w _
        rw [Worker.held, hs.queue, hs.busy]
        rfl
    exact
      { running := hs.running
        flows := by simp [hs.flows]
        distinct := by simp [hs.flows]
        proper := by simp [hnone]
        posted := by simp [hs.posted]
        once := by simp [hs.flows] }
  step s a t hstep h := by
    obtain ⟨hstep, hans⟩ := hstep
    cases hstep with
    | startFlow _ _ hport hser => exact h.startFlow hport hser hans
    | request _ hid hport hser => exact h.request hid hport hser
    | selfExec _ hin hid hsender => exact h.selfExec hin hid hsender
    | selfResp _ hin hid _ => exact h.selfResp hin hid
    | take _ hbusy hqueue => exact h.take hbusy hqueue
    | exec _ hbusy hid _ hhang => exact h.exec hbusy hid hhang hans
    | execNull _ hbusy hnull htext =>
      rcases (hans _ hbusy).1 with hne | hrej
      · exact absurd hnull hne
      · rw [htext] at hrej
        cases hrej
    | reconnect =>
      exact ⟨h.running, h.flows, h.distinct, h.proper, h.posted, h.once⟩

/-- **Each flow request is answered once.** For every configuration and every run of the gateway
whose steps are `Answerable`: the process does not fail, and of each flow request that arrived one
message is on its way and no answer is posted, or none is on its way and one answer is posted to its
sender. -/
theorem flows_answered (cfg : FlowCfg)
    (h : ((system W cfg).restrict (Answerable cfg)).Reachable s) :
    s.failed = false ∧ ∀ r ∈ s.flows, s.answered r + s.pending r = 1 := by
  have hinv := (inv_inductive cfg).reachable h
  exact ⟨hinv.running, hinv.once⟩

/-- A flow request whose `OnExecSQL` does not send it to the service again is never answered. -/
theorem Inv.exec_unanswered (h : Inv cfg s) {w : W} {m r : FlowMessage} {db : Db}
    (hbusy : (s.workers w).busy = some m) (hr : r ∈ s.flows) (hser : r.serial = m.serial)
    (hself : (HttpServer.exec cfg db (s.workers w).m_rowCount m).1 ≠ .ok true) :
    (s.executed w m (HttpServer.exec cfg db (s.workers w).m_rowCount m)).answered r = 0 ∧
      (s.executed w m (HttpServer.exec cfg db (s.workers w).m_rowCount m)).pending r = 0 := by
  have htake := adds_busy (p := { s.workers w with
    busy := none
    m_rowCount := (HttpServer.exec cfg db (s.workers w).m_rowCount m).2.m_rowCount }) hbusy rfl rfl
  have hbefore := htake.counts (n := m.serial) (by simp) (by simp) r
  have honce := h.once r hr
  have hexec := exec_executed cfg db (s.workers w).m_rowCount m
  generalize HttpServer.exec cfg db (s.workers w).m_rowCount m = e at *
  rw [hbefore, if_pos hser, Multiset.card_singleton, List.countP_nil] at honce
  have hposts : (postsOf m e.2.actions).countP (fun p => IsAnswer r p) = 0 := by
    rw [List.countP_eq_zero]
    intro p hp hans
    cases hexec with
    | failed hnone | silent hnone | self hnone =>
      rw [hnone] at hp
      cases hp
    | posted _ hone =>
      rw [hone, List.mem_singleton] at hp
      subst hp
      cases (of_decide_eq_true hans).2.1
  have hanswered : (s.executed w m e).answered r = s.answered r := by
    have hposted : (s.executed w m e).posted = s.posted ++ postsOf m e.2.actions := by
      rcases e with ⟨_ | (_ | _), c⟩ <;> rfl
    rw [State.answered, hposted, List.countP_append, hposts]
    rfl
  have hinFlight : (s.executed w m e).inFlight =
      (s.setWorker w { s.workers w with busy := none, m_rowCount := e.2.m_rowCount }).inFlight := by
    rcases e with ⟨_ | (_ | _), c⟩
    · rfl
    · rfl
    · exact absurd rfl hself
  have hsame : s.answered r = (s.setWorker w { s.workers w with
      busy := none
      m_rowCount := e.2.m_rowCount }).answered r := rfl
  rw [hanswered, State.pending, hinFlight, hsame]
  rw [State.pending] at honce
  omega

end

end

/-! ## Two requests -/

namespace OneFlow

/-- A gateway with one connection; the HttpServer has the identifier 1. -/
def cfg : FlowCfg where
  build := .odbc
  code := LostConnection.code
  m_MaxRowCount := 200
  first := ⟨"bill", "exec query", "exec reg", "exec unreg"⟩
  rest := []
  m_appport n := if n = 1 then .httpServer else .other
  myIdentifier := 0
  myPort := rfl

/-- One worker with a handle. -/
def idle : State Unit where
  m_mapProcess := Function.update (fun _ => none) "bill" (some ⟨0, true, 0, [()]⟩)
  workers _ := ⟨[], none, some 0, 0⟩
  inbox := []
  posted := []
  flows := []
  received := 0
  failed := false

/-- A flow request with these parameters. -/
def request (parameter : List String) : FlowMessage :=
  ⟨⟨.none, 1, 0, 0, "", "", 0, 0, [], [], 0⟩, .reqStartFlowEx, parameter⟩

/-- A request without a bill item: `HandleStartFlowEx` reads `str[4]` of four parameters. -/
theorem not_flows_answered : ¬ ∀ s : State Unit, (system Unit cfg).Reachable s →
    s.failed = false ∧ ∀ r ∈ s.flows, s.answered r + s.pending r = 1 := by
  intro h
  have hinit : (system Unit cfg).Reachable idle := by
    refine .of_init ?_
    exact ⟨fun _ => rfl, fun _ => rfl, rfl, rfl, rfl, rfl⟩
  have hstep : Step cfg idle (.startFlow (request ["1", "1", "5550100", "5550101"])) _ :=
    .startFlow rfl rfl rfl rfl
  have hfailed := (h _ (hinit.run (.cons hstep (.nil _)))).1
  cases hfailed

/-- A statement with one output parameter. -/
def query : BaseQuery Unit :=
  { LostConnection.query with
    command := fun _ s => (.ok (), s)
    outputCount := fun s => (.ok 1, s)
    outParamAsString := fun _ s => (.ok "0", s) }

/-- The database of the worker. -/
def db : Db := ⟨Unit, query, (), 2⟩

/-- A request with all parameters, and the statement that `HandleStartFlowEx` makes of it. -/
def complete : FlowMessage := request ["1", "1", "5550100", "5550101", "7"]

/-- The request for the statement of the flow. -/
def statement : FlowMessage := { complete with
  sql := "exec query '5550100','5550101','7'"
  sourceName := "bill"
  flowId := .reqExecSQL }

/-- The gateway after each of the five steps. -/
def asked : State Unit :=
  handleStartFlowEx cfg { idle with flows := [complete], received := 1 } 1 complete

/-- The statement is in the queue of the worker. -/
def queued : State Unit := handleExecSQL cfg { asked with inbox := [] } 0 statement

/-- The worker has it. -/
def taken : State Unit :=
  queued.setWorker () { queued.workers () with m_queue := [], busy := some statement }

/-- The variables when the result is fetched. -/
def fetched : Ctx Unit :=
  ⟨(), { statement.toUserTransferMessage with
    res := 1
    req := 0
    fieldCount := 1
    result := ["0"] }, 0, []⟩

/-- The worker has executed it and sent the response to the service. -/
def executed : State Unit := taken.executed () statement (.ok true, fetched)

/-- The service has sent the answer to the flow. -/
def answered : State Unit :=
  handleRespExecSQL { executed with inbox := [] } (statement.response fetched.utm)

/-- The body fetches the value that the database gives. -/
theorem attempt_query :
    attempt (execBody query 2 statement.sql) (start cfg () 0 statement) =
      (.ok (.ok ()), fetched) := by
  have hbody : execBody query 2 statement.sql (start cfg () 0 statement) = (.ok (), fetched) := by
    simp [execBody, registerOutParams, fetchRows, resultOf, outParams, fieldNames, call, query,
      LostConnection.query, start, fetched, statement, complete, request, cfg]
  rw [attempt, hbody]

/-- `preExecSQL` lets the statement through. -/
theorem preExecSQL_query :
    preExecSQL .odbc cfg.code 200 query 1 statement.sql (start cfg () 0 statement) =
      (.ok true, start cfg () 0 statement) := rfl

/-- The whole execution ends with the value. -/
theorem exec_query : exec cfg db 0 statement = (.ok true, fetched) := by
  rw [@exec_of_body cfg statement db 0 _ _ preExecSQL_query attempt_query]
  rfl

/-- The parameters of the flow fit. -/
theorem complete_fits : ParametersFit cfg complete := by
  refine ⟨by decide, ?_⟩
  intro _ proc hproc
  cases hproc
  decide

/-- The statement gives a value. -/
theorem statement_givesValue : GivesValue cfg db 0 statement := by
  refine ⟨start cfg () 0 statement, .ok (), fetched, preExecSQL_query, attempt_query, ?_, ?_⟩
  · intro err herr
    cases herr
  · exact List.cons_ne_nil "0" []

/-- Such a request goes through the four handlers and is answered. -/
theorem flows_answered_query : ((system Unit cfg).restrict (Answerable cfg)).Reachable answered ∧
    complete ∈ answered.flows ∧ answered.inFlight = 0 ∧ answered.failed = false ∧
      answered.answered complete + answered.pending complete = 1 := by
  have hinit : ((system Unit cfg).restrict (Answerable cfg)).Reachable idle :=
    .of_init ⟨fun _ => rfl, fun _ => rfl, rfl, rfl, rfl, rfl⟩
  have h₁ : Step cfg idle (.startFlow complete) asked := .startFlow rfl rfl rfl rfl
  have h₂ : Step cfg asked (.self 0) queued := .selfExec rfl rfl rfl (by decide)
  have h₃ : Step cfg queued (.take ()) taken := .take rfl rfl rfl
  have h₄ : Step cfg taken (.exec () db) executed := by
    have hexec : exec cfg db (taken.workers ()).m_rowCount statement = (.ok true, fetched) :=
      exec_query
    have hstep : Step cfg taken (.exec () db)
        (taken.executed () statement (exec cfg db (taken.workers ()).m_rowCount statement)) :=
      .exec rfl rfl rfl (.inl (Option.some_ne_none 0)) (by rw [hexec]; exact fun h => by cases h)
    rwa [hexec] at hstep
  have h₅ : Step cfg executed (.self 0) answered := .selfResp rfl rfl rfl (by decide)
  have hans : Answerable cfg taken (.exec () db) := by
    intro utm hutm
    cases hutm
    exact ⟨.inl (Option.some_ne_none 0), fun _ => statement_givesValue, true, _, preExecSQL_query⟩
  have hreach := hinit.run (.cons ⟨h₁, complete_fits⟩ (.cons ⟨h₂, trivial⟩
    (.cons ⟨h₃, trivial⟩ (.cons ⟨h₄, hans⟩ (.cons ⟨h₅, trivial⟩ (.nil answered))))))
  obtain ⟨hfailed, honce⟩ := flows_answered cfg hreach
  have hflow : complete ∈ answered.flows := List.mem_singleton.2 rfl
  exact ⟨hreach, hflow, rfl, hfailed, honce complete hflow⟩

end OneFlow

end TelecomSuite.Dagw.HttpServer
