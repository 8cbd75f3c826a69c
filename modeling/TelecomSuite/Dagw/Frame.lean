import TelecomSuite.Dagw.Service

/-!
# What the gateway's steps leave alone

Frame lemmas for the transition system of `Dagw.Service`, shared by the invariants over it. The
stages of `reconnect` move no message (`SameTraffic`), a task leaves at most stages of `reconnect`
to do and moves no thread (`perform_left`, `perform_threads`), and routing keeps a request's number
and id. What requests and reconnects write, they write for one source (`Writes`).
-/

namespace TelecomSuite.Dagw

open Relation (ReflTransGen)

section
variable {W : Type}

/-- What a successful `tryPut` does to a worker. -/
theorem tryPut_some {p p' : TDBProcess} {utm : UserTransferMessage} (h : p.tryPut utm = some p') :
    p.m_queue.length < dagwProcessQueueLen ∧ p' = { p with m_queue := p.m_queue ++ [utm] } := by
  unfold TDBProcess.tryPut at h
  split at h
  · next hlt => exact ⟨hlt, (Option.some.inj h).symm⟩
  · cases h

/-- A task that neither answers nor queues: a stage of `reconnect`. -/
def Task.Silent : Task → Prop
  | .reconnect _ _ | .connect _ _ | .assign _ _ => True
  | .postMessage _ _ | .process _ | .errProcess _ _ => False

/-! ## What the steps of `reconnect` leave alone -/

/-- Two states with the same messages in the same places. -/
structure SameTraffic (s s' : State W) : Prop where
  posted : s'.posted = s.posted
  service : s'.service = s.service
  received : s'.received = s.received
  queue : ∀ w, (s'.workers w).m_queue = (s.workers w).m_queue
  thread : ∀ w, (s'.workers w).thread = (s.workers w).thread

/-- A state has its own messages. -/
theorem SameTraffic.refl (s : State W) : SameTraffic s s :=
  ⟨rfl, rfl, rfl, fun _ => rfl, fun _ => rfl⟩

/-- The messages stay over two parts of a run. -/
theorem SameTraffic.trans {s₁ s₂ s₃ : State W} (h₁ : SameTraffic s₁ s₂)
    (h₂ : SameTraffic s₂ s₃) : SameTraffic s₁ s₃ :=
  ⟨h₂.posted.trans h₁.posted, h₂.service.trans h₁.service, h₂.received.trans h₁.received,
    fun w => (h₂.queue w).trans (h₁.queue w), fun w => (h₂.thread w).trans (h₁.thread w)⟩

variable [DecidableEq W]

omit [DecidableEq W] in
/-- The data of a source holds no messages. -/
theorem sameTraffic_setInfo (s : State W) (src : String) (info : CDBProcInfo W) :
    SameTraffic s (s.setInfo src info) :=
  ⟨rfl, rfl, rfl, fun _ => rfl, fun _ => rfl⟩

/-- Replacing a worker's handle moves no message. -/
theorem sameTraffic_setHandle {s s' : State W} {w : W} {h : Option Handle}
    (hp : s'.posted = s.posted) (hs : s'.service = s.service) (hr : s'.received = s.received)
    (hw : s'.workers = s.workers) :
    SameTraffic s (s'.setWorker w { s.workers w with m_pDbQuery := h }) := by
  refine ⟨hp, hs, hr, fun v => ?_, fun v => ?_⟩
  all_goals
    rcases eq_or_ne v w with rfl | hv
    · simp [State.setWorker]
    · simp [State.setWorker, hv, hw]

/-- Releasing handles moves no message. -/
theorem sameTraffic_releaseAll (ws : List W) :
    ∀ (s : State W) (answers : List Bool), SameTraffic s (releaseAll s ws answers).1 := by
  induction ws with
  | nil => exact fun s _ => .refl s
  | cons w ws ih =>
    intro s answers
    rw [releaseAll]
    split
    · exact ih s answers
    · split
      · exact .refl s
      · refine .trans ?_ (ih _ _)
        exact sameTraffic_setHandle rfl rfl rfl rfl

/-- Nor does assigning them. -/
theorem sameTraffic_assignAll (ws : List W) :
    ∀ (s : State W) (answers : List Granted), SameTraffic s (assignAll s ws answers).1 := by
  induction ws with
  | nil => exact fun s _ => .refl s
  | cons w ws ih =>
    intro s answers
    rw [assignAll]
    split
    · exact .refl s
    all_goals
      refine .trans ?_ (ih _ _)
      exact sameTraffic_setHandle rfl rfl rfl rfl

/-- The first half of a reconnect moves no message. -/
theorem sameTraffic_reconnectRelease (s : State W) (reply : Reply) (src : String)
    (todo : List CConnectionCfg) : SameTraffic s (reconnectRelease s reply src todo).1 := by
  unfold reconnectRelease
  split
  · exact .refl s
  · exact .refl s
  · dsimp only
    split
    · exact sameTraffic_setInfo s src _
    · exact (sameTraffic_setInfo s src _).trans (sameTraffic_releaseAll _ _ _)

/-- Nor does the second half. -/
theorem sameTraffic_reconnectAssign (s : State W) (reply : Reply) (src : String)
    (todo : List CConnectionCfg) : SameTraffic s (reconnectAssign s reply src todo).1 := by
  unfold reconnectAssign
  split
  · exact .refl s
  · dsimp only
    split
    · exact (sameTraffic_assignAll _ _ _).trans (sameTraffic_setInfo _ src _)
    · exact sameTraffic_assignAll _ _ _

/-- What the first stage of `reconnect` does: nothing without an entry or without the source's data,
counting, or counting and the release loop. -/
theorem reconnectRelease_cases (s : State W) (reply : Reply) (src : String)
    (todo : List CConnectionCfg) : reconnectRelease s reply src todo = (s, []) ∨
      ∃ info s₁, s.m_mapProcess src = some info ∧ s₁ = s.setInfo src
          { info with m_countMsg := info.m_countMsg + 1, m_connected := false } ∧
        ((info.m_countMsg + 1) % dagwMaxCountMsg ≠ 0 ∧
            reconnectRelease s reply src todo = (s₁, []) ∨
          (info.m_countMsg + 1) % dagwMaxCountMsg = 0 ∧ ∃ rest,
            reconnectRelease s reply src todo =
              ((releaseAll s₁ info.m_vctProcess reply.releases).1,
                if (releaseAll s₁ info.m_vctProcess reply.releases).2 then [.connect src rest]
                else [])) := by
  unfold reconnectRelease
  split
  · exact .inl rfl
  · exact .inl rfl
  · next c rest info _ hinfo =>
    refine .inr ⟨info, _, hinfo, rfl, ?_⟩
    dsimp only
    by_cases hcount : (info.m_countMsg + 1) % dagwMaxCountMsg ≠ 0
    · exact .inl ⟨hcount, if_pos hcount⟩
    · exact .inr ⟨not_not.1 hcount, rest, if_neg hcount⟩

/-- The stages of `reconnect` leave only stages of `reconnect` to do. -/
theorem silent_reconnectRelease (s : State W) (reply : Reply) (src : String)
    (todo : List CConnectionCfg) : ∀ t ∈ (reconnectRelease s reply src todo).2, t.Silent := by
  unfold reconnectRelease
  split
  · simp
  · simp
  · dsimp only
    split
    · simp
    · dsimp only
      split <;> simp [Task.Silent]

/-- What the second half leaves to do is a stage of `reconnect` again. -/
theorem silent_reconnectAssign (s : State W) (reply : Reply) (src : String)
    (todo : List CConnectionCfg) : ∀ t ∈ (reconnectAssign s reply src todo).2, t.Silent := by
  unfold reconnectAssign
  split
  · simp
  · dsimp only
    split <;> simp [Task.Silent]

/-- A task that neither answers nor queues moves no message and leaves only such tasks. -/
theorem perform_silent (cfg : Cfg) (own : Option W) (s : State W) (reply : Reply) {t : Task}
    (ht : t.Silent ∨ ∃ err src, t = .errProcess err src) :
    SameTraffic s (perform cfg own s reply t).1 ∧
      ∀ t' ∈ (perform cfg own s reply t).2, t'.Silent := by
  rcases ht with ht | ⟨err, src, rfl⟩
  · cases t with
    | postMessage | process | errProcess => cases ht
    | reconnect src todo =>
      exact ⟨sameTraffic_reconnectRelease s reply src todo,
        silent_reconnectRelease s reply src todo⟩
    | connect src todo =>
      refine ⟨.refl s, ?_⟩
      intro t' h
      simp only [perform] at h
      split at h
      · rw [List.mem_singleton] at h; subst h; trivial
      · cases h
    | assign src todo =>
      exact ⟨sameTraffic_reconnectAssign s reply src todo, silent_reconnectAssign s reply src todo⟩
  · refine ⟨.refl s, ?_⟩
    intro t' h
    simp only [perform] at h
    split at h
    · rw [List.mem_singleton] at h; subst h; trivial
    · cases h

/-! ## What a task leaves alone -/

/-- A task leaves at most a stage of `reconnect` to do. -/
theorem perform_left (cfg : Cfg) (own : Option W) (s : State W) (reply : Reply) (t : Task) :
    ∀ t' ∈ (perform cfg own s reply t).2, t'.Silent := by
  cases t with
  | postMessage => simp [perform]
  | process utm =>
    cases own with
    | none => simp [perform]
    | some w => simp only [perform]; split <;> simp
  | errProcess err src =>
    exact (perform_silent cfg own s reply (.inr ⟨err, src, rfl⟩)).2
  | reconnect src todo => exact silent_reconnectRelease s reply src todo
  | connect src todo =>
    exact (perform_silent cfg own s reply (t := .connect src todo) (.inl trivial)).2
  | assign src todo => exact silent_reconnectAssign s reply src todo

/-- A task does not move the service thread or a worker's thread. -/
theorem perform_threads (cfg : Cfg) (own : Option W) (s : State W) (reply : Reply) (t : Task) :
    (perform cfg own s reply t).1.service = s.service ∧
      ∀ w, ((perform cfg own s reply t).1.workers w).thread = (s.workers w).thread := by
  cases t with
  | postMessage => exact ⟨rfl, fun _ => rfl⟩
  | process utm =>
    cases own with
    | none => exact ⟨rfl, fun _ => rfl⟩
    | some v =>
      simp only [perform]
      split
      · next hput =>
        obtain ⟨-, rfl⟩ := tryPut_some hput
        refine ⟨rfl, ?_⟩
        intro w
        rcases eq_or_ne w v with rfl | hw
        · simp
        · simp [hw]
      · exact ⟨rfl, fun _ => rfl⟩
  | errProcess | connect => exact ⟨rfl, fun _ => rfl⟩
  | reconnect src todo =>
    have h := sameTraffic_reconnectRelease s reply src todo
    exact ⟨h.service, h.thread⟩
  | assign src todo =>
    have h := sameTraffic_reconnectAssign s reply src todo
    exact ⟨h.service, h.thread⟩

/-! ## What `HandleExecSQL` leaves alone -/

omit [DecidableEq W] in
/-- `route` keeps the number and the kind of a message. -/
theorem route_message (info : CDBProcInfo W) (utm : UserTransferMessage) :
    (route info utm).2.2.serial = utm.serial ∧
      (route info utm).2.2.messageId = utm.messageId := by
  unfold route
  dsimp only
  split
  · exact ⟨rfl, rfl⟩
  · dsimp only
    split <;> exact ⟨rfl, rfl⟩

omit [DecidableEq W] in
/-- The worker that `HandleExecSQL` chooses is one of the source's. -/
theorem route_mem {info : CDBProcInfo W} {utm : UserTransferMessage} {w : W}
    (h : (route info utm).1 = some w) : w ∈ info.m_vctProcess := by
  unfold route at h
  dsimp only at h
  split at h
  · simp only [CDBProcInfo.getProcess] at h
    split at h
    · exact List.mem_of_getElem? h
    · cases h
  · simp only [CDBProcInfo.getProcessAt] at h
    split at h
    · exact List.mem_of_getElem? h
    · cases h

omit [DecidableEq W] in
/-- `route` changes neither the workers of a source nor its flag. -/
theorem route_info (info : CDBProcInfo W) (utm : UserTransferMessage) :
    (route info utm).2.1.m_vctProcess = info.m_vctProcess ∧
      (route info utm).2.1.m_connected = info.m_connected := by
  unfold route
  dsimp only
  split
  · simp only [CDBProcInfo.getProcess]
    split <;> exact ⟨rfl, rfl⟩
  · exact ⟨rfl, rfl⟩

/-- `HandleExecSQL` leaves the service thread nothing to do but a `reconnect`. -/
theorem handleExecSQL_service (cfg : Cfg) {s : State W} (sender : ServiceIdentifier)
    (utm : UserTransferMessage) (h : s.service = .serving []) :
    ∃ todo, (handleExecSQL cfg s sender utm).service = .serving todo ∧ ∀ t ∈ todo, t.Silent := by
  unfold handleExecSQL
  split
  · exact ⟨[], h, by simp⟩
  · dsimp only
    split
    · exact ⟨[], h, by simp⟩
    · split
      · split <;> exact ⟨[], h, by simp⟩
      · exact ⟨_, rfl, by simp [Task.Silent]⟩

/-! ## What is written for a source -/

/-- The source that a task is for. -/
def Task.sourceName : Task → String
  | .postMessage _ utm | .process utm => utm.sourceName
  | .errProcess _ src | .reconnect src _ | .connect src _ | .assign src _ => src

/-- The workers of a source. -/
def State.workersOf (s : State W) (src : String) : List W :=
  match s.m_mapProcess src with
  | some info => info.m_vctProcess
  | none => []

/-- Releasing handles leaves the map alone. -/
theorem releaseAll_m_mapProcess (ws : List W) : ∀ (s : State W) (answers : List Bool),
    (releaseAll s ws answers).1.m_mapProcess = s.m_mapProcess := by
  induction ws with
  | nil => exact fun _ _ => rfl
  | cons w ws ih =>
    intro s answers
    rw [releaseAll]
    split
    · exact ih s answers
    · split
      · rfl
      · exact ih _ _

/-- So does assigning them. -/
theorem assignAll_m_mapProcess (ws : List W) : ∀ (s : State W) (answers : List Granted),
    (assignAll s ws answers).1.m_mapProcess = s.m_mapProcess := by
  induction ws with
  | nil => exact fun _ _ => rfl
  | cons w ws ih =>
    intro s answers
    rw [assignAll]
    split
    · rfl
    · exact ih _ _
    · exact ih _ _

/-- The writes to the shared state that requests and reconnects of a source make. -/
inductive Writes (src : String) : State W → State W → Prop
  | arrive {s : State W} {received : Nat} : Writes src s { s with received := received }
  | post {s : State W} {dest : ServiceIdentifier} {utm : UserTransferMessage} :
      utm.sourceName = src → Writes src s (s.post dest utm)
  | info {s : State W} {info info' : CDBProcInfo W} : s.m_mapProcess src = some info →
      info'.m_vctProcess = info.m_vctProcess → Writes src s (s.setInfo src info')
  | queue {s : State W} {w : W} {p : TDBProcess} {utm : UserTransferMessage} :
      w ∈ s.workersOf src → (s.workers w).tryPut utm = some p → utm.sourceName = src →
      Writes src s (s.setWorker w p)
  | clear {s : State W} {w : W} {released : List Handle} : w ∈ s.workersOf src →
      Writes src s ({ s with released := released }.setWorker w
        { s.workers w with m_pDbQuery := none })
  | grant {s : State W} {w : W} : w ∈ s.workersOf src →
      Writes src s ({ s with issued := s.issued + 1 }.setWorker w
        { s.workers w with m_pDbQuery := some s.issued })

section
variable {src : String} {s t : State W}

omit [DecidableEq W] in
/-- The workers of a source are those of its entry in the map. -/
theorem workersOf_of_info {info : CDBProcInfo W} (h : s.m_mapProcess src = some info) :
    s.workersOf src = info.m_vctProcess := by
  rw [State.workersOf, h]

/-- No write moves a worker to another source. -/
theorem Writes.workersOf (h : Writes src s t) : t.workersOf = s.workersOf := by
  cases h with
  | @info info info' hinfo hvct =>
    funext x
    rcases eq_or_ne x src with rfl | hne
    · rw [workersOf_of_info hinfo, ← hvct]
      exact workersOf_of_info (Function.update_self ..)
    · simp only [State.workersOf, State.setInfo_m_mapProcess, Function.update_of_ne hne]
  | arrive | post | queue | clear | grant => rfl

/-- A write of a source does not touch the service thread. -/
theorem Writes.service (h : Writes src s t) : t.service = s.service := by
  cases h <;> rfl

/-- No write sets or clears a worker's flag. -/
theorem Writes.m_bStop (h : Writes src s t) (w : W) :
    (t.workers w).m_bStop = (s.workers w).m_bStop := by
  cases h with
  | arrive | post | info => rfl
  | @queue v _ _ _ hput =>
    obtain ⟨-, rfl⟩ := tryPut_some hput
    rcases eq_or_ne w v with rfl | hv
    · simp
    · simp [hv]
  | @clear v | @grant v =>
    rcases eq_or_ne w v with rfl | hv
    · simp
    · simp [hv]

/-- No number of writes moves a worker to another source. -/
theorem writes_workersOf (h : ReflTransGen (Writes src) s t) : t.workersOf = s.workersOf := by
  induction h with
  | refl => rfl
  | tail _ hw ih => rw [hw.workersOf, ih]

/-- Nor do they touch the service thread. -/
theorem writes_service (h : ReflTransGen (Writes src) s t) : t.service = s.service := by
  induction h with
  | refl => rfl
  | tail _ hw ih => rw [hw.service, ih]

/-- Nor the stop flag of a worker. -/
theorem writes_m_bStop (h : ReflTransGen (Writes src) s t) (w : W) :
    (t.workers w).m_bStop = (s.workers w).m_bStop := by
  induction h with
  | refl => rfl
  | tail _ hw ih => rw [hw.m_bStop, ih]

/-- Releasing the handles of a source is a number of writes of it. -/
theorem writes_releaseAll (ws : List W) : ∀ {s : State W}, (∀ w ∈ ws, w ∈ s.workersOf src) →
    ∀ answers : List Bool, ReflTransGen (Writes src) s (releaseAll s ws answers).1 := by
  induction ws with
  | nil => exact fun _ _ => .refl
  | cons w ws ih =>
    intro s hws answers
    rw [releaseAll]
    split
    · exact ih (fun v hv => hws v (.tail _ hv)) answers
    · split
      · exact .refl
      · refine .head ?_ (ih ?_ _)
        · exact .clear (hws w (.head _))
        · intro v hv
          exact hws v (.tail _ hv)

/-- So is assigning them. -/
theorem writes_assignAll (ws : List W) : ∀ {s : State W}, (∀ w ∈ ws, w ∈ s.workersOf src) →
    ∀ answers : List Granted, ReflTransGen (Writes src) s (assignAll s ws answers).1 := by
  induction ws with
  | nil => exact fun _ _ => .refl
  | cons w ws ih =>
    intro s hws answers
    rw [assignAll]
    split
    · exact .refl
    · refine .head ?_ (ih ?_ _)
      · exact .clear (hws w (.head _))
      · intro v hv
        exact hws v (.tail _ hv)
    · refine .head ?_ (ih ?_ _)
      · exact .grant (hws w (.head _))
      · intro v hv
        exact hws v (.tail _ hv)

/-- So is the first half of a reconnect. -/
theorem writes_reconnectRelease (s : State W) (reply : Reply) (src : String)
    (todo : List CConnectionCfg) :
    ReflTransGen (Writes src) s (reconnectRelease s reply src todo).1 := by
  rcases reconnectRelease_cases s reply src todo with h | ⟨info, s₁, hinfo, hs₁, h⟩
  · rw [h]
  · have hw : Writes src s s₁ := hs₁ ▸ .info hinfo rfl
    rcases h with ⟨-, h⟩ | ⟨-, rest, h⟩
    · rw [h]
      exact .single hw
    · rw [h]
      refine .head hw (writes_releaseAll _ ?_ _)
      intro w hmem
      rwa [hw.workersOf, workersOf_of_info hinfo]

/-- And the second half. -/
theorem writes_reconnectAssign (s : State W) (reply : Reply) (src : String)
    (todo : List CConnectionCfg) :
    ReflTransGen (Writes src) s (reconnectAssign s reply src todo).1 := by
  unfold reconnectAssign
  split
  · exact .refl
  · next info hinfo =>
    have hmem : ∀ w ∈ info.m_vctProcess, w ∈ s.workersOf src := by
      rw [workersOf_of_info hinfo]
      exact fun _ h => h
    have hw := writes_assignAll info.m_vctProcess hmem reply.handles
    dsimp only
    split
    · have hinfo' : (assignAll s info.m_vctProcess reply.handles).1.m_mapProcess src =
          some info := by
        rw [assignAll_m_mapProcess, hinfo]
      exact hw.tail (.info hinfo' rfl)
    · exact hw

/-- A task writes for its source. -/
theorem writes_perform (cfg : Cfg) {own : Option W} (s : State W) (reply : Reply) {t : Task}
    (hown : ∀ w, own = some w → w ∈ s.workersOf t.sourceName) :
    ReflTransGen (Writes t.sourceName) s (perform cfg own s reply t).1 := by
  cases t with
  | postMessage dest utm => exact .single (.post rfl)
  | process utm =>
    cases own with
    | none => exact .refl
    | some w =>
      simp only [perform]
      split
      · next hput => exact .single (.queue (hown w rfl) hput rfl)
      · exact .refl
  | errProcess | connect => exact .refl
  | reconnect src todo => exact writes_reconnectRelease s reply src todo
  | assign src todo => exact writes_reconnectAssign s reply src todo

/-- What is left of a task is for the same source. -/
theorem perform_sourceName (cfg : Cfg) (own : Option W) (s : State W) (reply : Reply) (t : Task) :
    ∀ t' ∈ (perform cfg own s reply t).2, t'.sourceName = t.sourceName := by
  cases t with
  | postMessage => simp [perform]
  | process utm =>
    cases own with
    | none => simp [perform]
    | some w => simp only [perform]; split <;> simp
  | errProcess | connect =>
    simp only [perform]
    split <;> simp [Task.sourceName]
  | reconnect src todo =>
    rcases reconnectRelease_cases s reply src todo with h | ⟨info, s₁, -, -, h⟩
    · simp [perform, h]
    · rcases h with ⟨-, h⟩ | ⟨-, rest, h⟩
      · simp [perform, h]
      · simp only [perform, h]
        split <;> simp [Task.sourceName]
  | assign src todo =>
    simp only [perform, reconnectAssign]
    split
    · simp
    · split <;> simp [Task.sourceName]

omit [DecidableEq W] in
/-- `route` keeps the name of the source. -/
theorem route_sourceName (info : CDBProcInfo W) (utm : UserTransferMessage) :
    (route info utm).2.2.sourceName = utm.sourceName := by
  unfold route
  dsimp only
  split
  · rfl
  · dsimp only
    split <;> rfl

/-- `HandleExecSQL` writes for the source of the request, and may leave a `reconnect` to do. -/
theorem writes_handleExecSQL (cfg : Cfg) (s : State W) (sender : ServiceIdentifier)
    (utm : UserTransferMessage) : ∃ t, ReflTransGen (Writes utm.sourceName) s t ∧
      (handleExecSQL cfg s sender utm = t ∨ handleExecSQL cfg s sender utm =
        { t with service := .serving [.reconnect utm.sourceName cfg.m_vctConnection] }) := by
  unfold handleExecSQL
  split
  · exact ⟨s.post sender (utm.respond (-1)), .single (.post rfl), .inl rfl⟩
  · next info hinfo =>
    have hw : Writes utm.sourceName s (s.setInfo utm.sourceName (route info utm).2.1) :=
      .info hinfo (route_info info utm).1
    have hpost : ∀ t : State W, Writes utm.sourceName t
        (t.post sender ((route info utm).2.2.respond (-1))) :=
      fun _ => .post (route_sourceName info utm)
    dsimp only
    split
    · exact ⟨_, .tail (.single hw) (hpost _), .inl rfl⟩
    · next w hroute =>
      have hmem : w ∈ (s.setInfo utm.sourceName (route info utm).2.1).workersOf utm.sourceName := by
        rw [hw.workersOf, workersOf_of_info hinfo]
        exact route_mem hroute
      split
      · split
        · next hput =>
          exact ⟨_, .tail (.single hw) (.queue hmem hput (route_sourceName info utm)), .inl rfl⟩
        · exact ⟨_, .tail (.single hw) (hpost _), .inl rfl⟩
      · exact ⟨_, .tail (.single hw) (hpost _), .inr rfl⟩

/-- A request that arrives. -/
theorem writes_receive (cfg : Cfg) (s : State W) (sender : ServiceIdentifier)
    (utm : UserTransferMessage) : ∃ t, ReflTransGen (Writes utm.sourceName) s t ∧
      (handleExecSQL cfg { s with received := s.received + 1 } sender
          { utm with serial := s.received } = t ∨
        handleExecSQL cfg { s with received := s.received + 1 } sender
          { utm with serial := s.received } =
            { t with service := .serving [.reconnect utm.sourceName cfg.m_vctConnection] }) := by
  obtain ⟨t, hw, ht⟩ := writes_handleExecSQL cfg { s with received := s.received + 1 } sender
    { utm with serial := s.received }
  exact ⟨t, .head .arrive hw, ht⟩

end

end

end TelecomSuite.Dagw
