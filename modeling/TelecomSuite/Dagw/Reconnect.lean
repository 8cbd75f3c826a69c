import TelecomSuite.Dagw.Frame

/-!
# A sequence of reconnects

`TDBGWService::reconnect` as one call, for one thread alone: the loop over the configuration entries
with the error counter, the release of the handles, the connect and the requests for new handles
(`reconnect`). It is what the service thread does in the stages of `Dagw.Service` when no other
thread runs in between (`serve_reconnect`).

The counter lets every `DAGW_MAX_COUNT_MSG`-th call through to the connect. A call that has
connected goes on with the rest of the list, and there a second entry of the same source counts the
error once more and takes the flag back. `reconnects_regular_iff` says when this, an exception of
`releaseQueryConnection` and a NULL handle do not get in the way.
-/

namespace TelecomSuite.Dagw

open Transition

section
variable {W : Type} [DecidableEq W]

/-! ## One call -/

/-- The body of the loop of `reconnect` at an entry of the source, with the answers to the calls of
the database layer: the gateway after it, how often it has called `connect`, and whether the loop
goes on. -/
def reconnectEntry (s : State W) (reply : Reply) (src : String) (info : CDBProcInfo W) :
    State W × Nat × Bool :=
  let s := s.setInfo src { info with m_countMsg := info.m_countMsg + 1, m_connected := false }
  if (info.m_countMsg + 1) % dagwMaxCountMsg ≠ 0 then (s, 0, false)
  else
    let released := releaseAll s info.m_vctProcess reply.releases
    if released.2 then
      if reply.connects then
        let assigned := assignAll released.1 info.m_vctProcess reply.handles
        if assigned.2 then
          (assigned.1.setInfo src
            { info with m_countMsg := info.m_countMsg + 1, m_connected := true }, 1, true)
        else (assigned.1, 1, false)
      else (released.1, 1, false)
    else (released.1, 0, false)

/-- The loop of `reconnect` over the configuration entries. -/
def reconnectEntries (s : State W) (reply : Reply) (src : String) :
    List CConnectionCfg → State W × Nat
  | [] => (s, 0)
  | c :: todo =>
    if c.m_SourceName = src then
      match s.m_mapProcess src with
      | none => reconnectEntries s reply src todo
      | some info =>
        let r := reconnectEntry s reply src info
        if r.2.2 then
          let r' := reconnectEntries r.1 reply src todo
          (r'.1, r.2.1 + r'.2)
        else (r.1, r.2.1)
    else reconnectEntries s reply src todo

/-- `TDBGWService::reconnect`. -/
def reconnect (l : List CConnectionCfg) (s : State W) (reply : Reply) (src : String) :
    State W × Nat :=
  reconnectEntries s reply src l

/-! ## The loops over the workers -/

/-- Releasing handles does not depend on what the service thread is doing. -/
theorem releaseAll_service (service : Service W) (ws : List W) :
    ∀ (s : State W) (answers : List Bool), releaseAll { s with service := service } ws answers =
      ({ (releaseAll s ws answers).1 with service := service }, (releaseAll s ws answers).2) := by
  induction ws with
  | nil => exact fun _ _ => rfl
  | cons w ws ih =>
    intro s answers
    simp only [releaseAll]
    split
    · exact ih s answers
    · next h _ =>
      split
      · rfl
      · exact ih ({ s with released := h :: s.released }.setWorker w
          { s.workers w with m_pDbQuery := none }) answers.tail

/-- Nor does assigning them. -/
theorem assignAll_service (service : Service W) (ws : List W) :
    ∀ (s : State W) (answers : List Granted), assignAll { s with service := service } ws answers =
      ({ (assignAll s ws answers).1 with service := service }, (assignAll s ws answers).2) := by
  induction ws with
  | nil => exact fun _ _ => rfl
  | cons w ws ih =>
    intro s answers
    simp only [assignAll]
    split
    · rfl
    · exact ih (s.setWorker w { s.workers w with m_pDbQuery := none }) answers.tail
    · exact ih ({ s with issued := s.issued + 1 }.setWorker w
        { s.workers w with m_pDbQuery := some s.issued }) answers.tail

/-- The release loop comes to its end if none of its calls throws: there is one for each worker that
holds a handle. -/
theorem releaseAll_done_iff (ws : List W) : ∀ {s : State W} {answers : List Bool}, ws.Nodup →
    ((releaseAll s ws answers).2 = true ↔
      ∀ j < ws.countP fun w => (s.workers w).m_pDbQuery.isSome, answers[j]? ≠ some false) := by
  induction ws with
  | nil => exact fun _ => ⟨fun _ j hj => absurd hj (Nat.not_lt_zero j), fun _ => rfl⟩
  | cons w ws ih =>
    intro s answers hnodup
    obtain ⟨hw, hws⟩ := List.nodup_cons.1 hnodup
    rw [releaseAll]
    cases hquery : (s.workers w).m_pDbQuery with
    | none =>
      dsimp only
      rw [ih hws, List.countP_cons_of_neg (by simp [hquery])]
    | some h =>
      have hcount : ws.countP (fun v => ((Function.update s.workers w
          { s.workers w with m_pDbQuery := none }) v).m_pDbQuery.isSome) =
          ws.countP fun v => (s.workers v).m_pDbQuery.isSome := by
        refine List.countP_congr ?_
        intro v hv
        have hne : v ≠ w := fun heq => hw (heq ▸ hv)
        rw [Function.update_of_ne hne]
      rw [List.countP_cons_of_pos (by simp [hquery])]
      dsimp only
      split
      · next hhead =>
        refine ⟨fun h => absurd h Bool.false_ne_true,
          fun hall => absurd ?_ (hall 0 (Nat.succ_pos _))⟩
        rwa [← List.head?_eq_getElem?]
      · next hhead =>
        rw [ih hws, State.setWorker_workers, hcount]
        refine ⟨?_, ?_⟩
        · intro hall j hj
          cases j with
          | zero => rwa [← List.head?_eq_getElem?]
          | succ j =>
            rw [← List.getElem?_tail]
            exact hall j (Nat.lt_of_succ_lt_succ hj)
        · intro hall j hj
          rw [List.getElem?_tail]
          exact hall (j + 1) (Nat.succ_lt_succ hj)

/-- The request loop comes to its end if none of its calls throws. -/
theorem assignAll_done_iff (ws : List W) : ∀ {s : State W} {answers : List Granted},
    (assignAll s ws answers).2 = true ↔
      ∀ j < ws.length, answers[j]?.getD .handle ≠ .thrown := by
  induction ws with
  | nil => exact ⟨fun _ j hj => absurd hj (Nat.not_lt_zero j), fun _ => rfl⟩
  | cons w ws ih =>
    intro s answers
    have hzero : answers.head?.getD .handle = answers[0]?.getD .handle := by
      rw [List.head?_eq_getElem?]
    have htail : (∀ j < ws.length, answers.tail[j]?.getD .handle ≠ .thrown) →
        answers.head?.getD .handle ≠ .thrown →
        ∀ j < (w :: ws).length, answers[j]?.getD .handle ≠ .thrown := by
      intro hall hhead j hj
      cases j with
      | zero => rwa [← hzero]
      | succ j =>
        rw [← List.getElem?_tail]
        exact hall j (Nat.lt_of_succ_lt_succ hj)
    have hrest : (∀ j < (w :: ws).length, answers[j]?.getD .handle ≠ .thrown) →
        ∀ j < ws.length, answers.tail[j]?.getD .handle ≠ .thrown := by
      intro hall j hj
      rw [List.getElem?_tail]
      exact hall (j + 1) (Nat.succ_lt_succ hj)
    rw [assignAll]
    split
    · next hhead =>
      exact ⟨fun h => absurd h Bool.false_ne_true,
        fun hall => absurd (hzero.symm.trans hhead) (hall 0 (Nat.succ_pos _))⟩
    · next hhead => exact ih.trans ⟨fun h => htail h (by simp [hhead]), hrest⟩
    · next hhead => exact ih.trans ⟨fun h => htail h (by simp [hhead]), hrest⟩

/-! ## The service thread alone -/

omit [DecidableEq W] in
/-- A change of the data of a source does not depend on what the service thread is doing. -/
theorem setInfo_service (service : Service W) (s : State W) (src : String) (info : CDBProcInfo W) :
    { s with service := service }.setInfo src info =
      { s.setInfo src info with service := service } := rfl

/-- The source's first entry in the list is the first one that `reconnect` looks at. -/
theorem reconnectRelease_skip {c : CConnectionCfg} {src : String} (hc : c.m_SourceName ≠ src)
    (s : State W) (reply : Reply) (todo : List CConnectionCfg) :
    reconnectRelease s reply src (c :: todo) = reconnectRelease s reply src todo := by
  unfold reconnectRelease
  rw [List.dropWhile_cons_of_pos (by simpa using hc)]

/-- A task does not look at the service thread. -/
theorem perform_service (service : Service W) (cfg : Cfg) (own : Option W) (s : State W)
    (reply : Reply) (t : Task) : perform cfg own { s with service := service } reply t =
      ({ (perform cfg own s reply t).1 with service := service },
        (perform cfg own s reply t).2) := by
  cases t with
  | postMessage | errProcess | connect => rfl
  | process utm =>
    cases own with
    | none => rfl
    | some w =>
      simp only [perform]
      split <;> rfl
  | reconnect src todo =>
    simp only [perform, reconnectRelease, setInfo_service, releaseAll_service]
    split
    · rfl
    · rfl
    · split <;> rfl
  | assign src todo =>
    simp only [perform, reconnectAssign, assignAll_service]
    split
    · rfl
    · split <;> rfl

/-- A run of the service thread in which the database layer gives these answers. -/
def Serves (cfg : Cfg) (reply : Reply) (s t : State W) : Prop :=
  ∃ as, (system cfg).Run s as t ∧ ∀ a ∈ as, a = .serve reply

/-- The run without a step. -/
theorem Serves.refl (cfg : Cfg) (reply : Reply) (s : State W) : Serves cfg reply s s :=
  ⟨[], .nil s, fun _ ha => absurd ha List.not_mem_nil⟩

/-- The next task of the service thread. -/
theorem Serves.step {cfg : Cfg} {reply : Reply} {s t : State W} {task : Task}
    (h : Serves cfg reply { (perform cfg none s reply task).1 with
      service := .serving (perform cfg none s reply task).2 } t) :
    Serves cfg reply { s with service := .serving [task] } t := by
  obtain ⟨as, hrun, has⟩ := h
  have hstep : Step cfg { s with service := .serving [task] } (.serve reply)
      { (perform cfg none s reply task).1 with
        service := .serving (perform cfg none s reply task).2 } := by
    have hserve : Step cfg { s with service := .serving [task] } (.serve reply) _ := .serve rfl
    rwa [perform_service, List.append_nil] at hserve
  exact ⟨.serve reply :: as, .cons hstep hrun, List.forall_mem_cons.2 ⟨rfl, has⟩⟩

/-- The first stage of `reconnect`, at an entry of the source. -/
theorem reconnectRelease_at {s : State W} {reply : Reply} {c : CConnectionCfg}
    {info : CDBProcInfo W} {todo : List CConnectionCfg}
    (hinfo : s.m_mapProcess c.m_SourceName = some info) :
    reconnectRelease s reply c.m_SourceName (c :: todo) =
      let s₁ := s.setInfo c.m_SourceName
        { info with m_countMsg := info.m_countMsg + 1, m_connected := false }
      if (info.m_countMsg + 1) % dagwMaxCountMsg ≠ 0 then (s₁, [])
      else ((releaseAll s₁ info.m_vctProcess reply.releases).1,
        if (releaseAll s₁ info.m_vctProcess reply.releases).2 then [.connect c.m_SourceName todo]
        else []) := by
  have hdrop : (c :: todo).dropWhile (·.m_SourceName ≠ c.m_SourceName) = c :: todo :=
    List.dropWhile_cons_of_neg (by simp)
  rw [reconnectRelease, hdrop, hinfo]

/-- The stages of `reconnect` after the first one, at one entry of the source. -/
theorem serves_entry (cfg : Cfg) {s t : State W} {reply : Reply} {c : CConnectionCfg}
    {info : CDBProcInfo W} {todo : List CConnectionCfg}
    (hinfo : s.m_mapProcess c.m_SourceName = some info)
    (h : Serves cfg reply { (reconnectEntry s reply c.m_SourceName info).1 with
      service := .serving (if (reconnectEntry s reply c.m_SourceName info).2.2 then
        [.reconnect c.m_SourceName todo] else []) } t) :
    Serves cfg reply { (reconnectRelease s reply c.m_SourceName (c :: todo)).1 with
      service := .serving (reconnectRelease s reply c.m_SourceName (c :: todo)).2 } t := by
  rw [reconnectRelease_at hinfo]
  simp only [reconnectEntry] at h
  generalize hs₁ : s.setInfo c.m_SourceName { info with
    m_countMsg := info.m_countMsg + 1, m_connected := false } = s₁ at h ⊢
  dsimp only
  by_cases hcount : (info.m_countMsg + 1) % dagwMaxCountMsg ≠ 0
  · rw [if_pos hcount] at h ⊢
    exact h
  · rw [if_neg hcount] at h ⊢
    have hinfo₂ : (releaseAll s₁ info.m_vctProcess reply.releases).1.m_mapProcess c.m_SourceName =
        some { info with m_countMsg := info.m_countMsg + 1, m_connected := false } := by
      rw [releaseAll_m_mapProcess, ← hs₁, State.setInfo_m_mapProcess, Function.update_self]
    generalize releaseAll s₁ info.m_vctProcess reply.releases = released at h hinfo₂ ⊢
    obtain ⟨s₂, done⟩ := released
    cases done with
    | false => exact h
    | true =>
      refine .step ?_
      cases hconn : reply.connects with
      | false =>
        rw [hconn] at h
        simp only [perform, hconn]
        exact h
      | true =>
        rw [hconn] at h
        simp only [perform, hconn, if_true] at h ⊢
        refine .step ?_
        simp only [perform, reconnectAssign]
        rw [hinfo₂]
        cases hdone : (assignAll s₂ info.m_vctProcess reply.handles).2 with
        | false | true =>
          simp only [hdone] at h ⊢
          exact h

/-- A source that is not in the map is not reconnected. -/
theorem reconnectRelease_none {s : State W} {src : String} (h : s.m_mapProcess src = none)
    (reply : Reply) (todo : List CConnectionCfg) :
    reconnectRelease s reply src todo = (s, []) := by
  rw [reconnectRelease, h]
  generalize todo.dropWhile _ = rest
  cases rest <;> rfl

/-- The loop finds nothing for it either. -/
theorem reconnectEntries_none {s : State W} {src : String} (h : s.m_mapProcess src = none)
    (reply : Reply) (l : List CConnectionCfg) : reconnectEntries s reply src l = (s, 0) := by
  induction l with
  | nil => rfl
  | cons c todo ih => simp only [reconnectEntries, h, ih, ite_self]

/-- **One thread.** The stages of `reconnect` on the service thread, with no step of another thread
in between, are one call of it. -/
theorem serve_reconnect (cfg : Cfg) (reply : Reply) (src : String) (l : List CConnectionCfg)
    (s : State W) : Serves cfg reply { s with service := .serving [.reconnect src l] }
      { (reconnect l s reply src).1 with service := .serving [] } := by
  refine .step ?_
  show Serves cfg reply { (reconnectRelease s reply src l).1 with
    service := .serving (reconnectRelease s reply src l).2 } _
  induction l generalizing s with
  | nil => exact .refl ..
  | cons c todo ih =>
    rcases eq_or_ne c.m_SourceName src with rfl | hc
    · cases hinfo : s.m_mapProcess c.m_SourceName with
      | none =>
        rw [reconnect, reconnectEntries_none hinfo, reconnectRelease_none hinfo]
        exact .refl ..
      | some info =>
        refine serves_entry cfg hinfo ?_
        simp only [reconnect, reconnectEntries, if_true, hinfo]
        cases hgo : (reconnectEntry s reply c.m_SourceName info).2.2 with
        | false => exact .refl ..
        | true => exact .step (ih (reconnectEntry s reply c.m_SourceName info).1)
    · rw [reconnectRelease_skip hc]
      simp only [reconnect, reconnectEntries, if_neg hc]
      exact ih s

/-! ## What a call does -/

/-- No call of `releaseQueryConnection` throws: one is made for each worker with a handle. -/
def Releases (s : State W) (m_vctProcess : List W) (reply : Reply) : Prop :=
  ∀ j < m_vctProcess.countP fun w => (s.workers w).m_pDbQuery.isSome,
    reply.releases[j]? ≠ some false

/-- `connect` returns, and so do the requests for the handles of this many workers. -/
def Connects (workers : Nat) (reply : Reply) : Prop :=
  reply.connects = true ∧ ∀ j < workers, reply.handles[j]?.getD .handle ≠ .thrown

/-- `connect` and all requests for handles succeed. -/
def Succeeds (workers : Nat) (reply : Reply) : Prop :=
  reply.connects = true ∧ ∀ j < workers, reply.handles[j]?.getD .handle = .handle

/-- How often the source is configured. -/
def configured (l : List CConnectionCfg) (src : String) : Nat :=
  l.countP fun c => c.m_SourceName = src

/-- What a call can do to a source with this data: how often it connects, and the flag and the
counter then. -/
inductive Called (entries : Nat) (s : State W) (info : CDBProcInfo W) (reply : Reply) :
    Nat → Bool → Nat → Prop
  | counted : (info.m_countMsg + 1) % dagwMaxCountMsg ≠ 0 →
      Called entries s info reply 0 false (info.m_countMsg + 1)
  | releaseThrows : (info.m_countMsg + 1) % dagwMaxCountMsg = 0 →
      ¬ Releases s info.m_vctProcess reply →
      Called entries s info reply 0 false (info.m_countMsg + 1)
  | fails : (info.m_countMsg + 1) % dagwMaxCountMsg = 0 → Releases s info.m_vctProcess reply →
      ¬ Connects info.m_vctProcess.length reply →
      Called entries s info reply 1 false (info.m_countMsg + 1)
  | connects : (info.m_countMsg + 1) % dagwMaxCountMsg = 0 → Releases s info.m_vctProcess reply →
      Connects info.m_vctProcess.length reply → entries = 1 →
      Called entries s info reply 1 true (info.m_countMsg + 1)
  -- the next entry of the source counts once more
  | repeated : (info.m_countMsg + 1) % dagwMaxCountMsg = 0 → Releases s info.m_vctProcess reply →
      Connects info.m_vctProcess.length reply → entries ≠ 1 →
      Called entries s info reply 1 false (info.m_countMsg + 2)

/-- One entry of the source: the loop goes on after it has connected. -/
theorem reconnectEntry_called {s : State W} {src : String} {info : CDBProcInfo W} (reply : Reply)
    (hnodup : info.m_vctProcess.Nodup) :
    ∃ info', (reconnectEntry s reply src info).1.m_mapProcess src = some info' ∧
      info'.m_vctProcess = info.m_vctProcess ∧
      Called 1 s info reply (reconnectEntry s reply src info).2.1 info'.m_connected
        info'.m_countMsg ∧
      (reconnectEntry s reply src info).2.2 = info'.m_connected := by
  have hrel : (releaseAll (s.setInfo src { info with
      m_countMsg := info.m_countMsg + 1, m_connected := false }) info.m_vctProcess
        reply.releases).2 = true ↔ Releases s info.m_vctProcess reply :=
    releaseAll_done_iff _ hnodup
  have hmap : ∀ {t : State W}, t.m_mapProcess = (s.setInfo src { info with
      m_countMsg := info.m_countMsg + 1, m_connected := false }).m_mapProcess →
      t.m_mapProcess src = some { info with
        m_countMsg := info.m_countMsg + 1, m_connected := false } := by
    intro t ht
    rw [ht, State.setInfo_m_mapProcess, Function.update_self]
  simp only [reconnectEntry]
  split
  · next hcount => exact ⟨_, hmap rfl, rfl, .counted hcount, rfl⟩
  · next hcount =>
    have hcount := not_not.1 hcount
    split
    · next hdone =>
      have hrel := hrel.1 hdone
      split
      · next hconn =>
        split
        · next hassigned =>
          refine ⟨{ info with m_countMsg := info.m_countMsg + 1, m_connected := true }, ?_, rfl,
            .connects hcount hrel ⟨hconn, (assignAll_done_iff _).1 hassigned⟩ rfl, rfl⟩
          rw [State.setInfo_m_mapProcess, Function.update_self]
        · next hassigned =>
          refine ⟨_, hmap ?_, rfl, .fails hcount hrel fun h =>
            hassigned ((assignAll_done_iff _).2 h.2), rfl⟩
          rw [assignAll_m_mapProcess, releaseAll_m_mapProcess]
      · next hconn =>
        refine ⟨_, hmap ?_, rfl, .fails hcount hrel fun h => hconn h.1, rfl⟩
        rw [releaseAll_m_mapProcess]
    · next hdone =>
      refine ⟨_, hmap ?_, rfl, .releaseThrows hcount fun h => hdone (hrel.2 h), rfl⟩
      rw [releaseAll_m_mapProcess]

/-- A source that is not configured is left alone. -/
theorem reconnectEntries_absent (s : State W) (reply : Reply) {src : String}
    {l : List CConnectionCfg} (h : configured l src = 0) :
    reconnectEntries s reply src l = (s, 0) := by
  induction l with
  | nil => rfl
  | cons c todo ih =>
    have hc : c.m_SourceName ≠ src := fun hc => by simp [configured, hc] at h
    rw [configured, List.countP_cons_of_neg (by simpa using hc)] at h
    rw [reconnectEntries, if_neg hc, ih h]

/-- The loop goes through to the first entry of the source. -/
theorem reconnectEntries_first {src : String} {l : List CConnectionCfg}
    (h : configured l src ≠ 0) : ∃ c todo, c.m_SourceName = src ∧
      configured l src = configured todo src + 1 ∧ ∀ (s : State W) (reply : Reply),
        reconnectEntries s reply src l = reconnectEntries s reply src (c :: todo) := by
  induction l with
  | nil => exact absurd rfl h
  | cons c todo ih =>
    by_cases hc : c.m_SourceName = src
    · exact ⟨c, todo, hc, by simp [configured, hc], fun _ _ => rfl⟩
    · have hskip : configured (c :: todo) src = configured todo src :=
        List.countP_cons_of_neg (by simpa using hc)
      rw [hskip] at h ⊢
      obtain ⟨c', todo', hc', hcount, heq⟩ := ih h
      refine ⟨c', todo', hc', hcount, ?_⟩
      intro s reply
      rw [reconnectEntries, if_neg hc, heq]

/-- **What `reconnect` can do** to the source's data. -/
theorem reconnect_called {l : List CConnectionCfg} {s : State W} {src : String}
    {info : CDBProcInfo W} (reply : Reply) (hinfo : s.m_mapProcess src = some info)
    (hsrc : configured l src ≠ 0) (hnodup : info.m_vctProcess.Nodup) :
    ∃ info', (reconnect l s reply src).1.m_mapProcess src = some info' ∧
      info'.m_vctProcess = info.m_vctProcess ∧
      Called (configured l src) s info reply (reconnect l s reply src).2 info'.m_connected
        info'.m_countMsg := by
  obtain ⟨c, todo, hc, hcount, heq⟩ := reconnectEntries_first (W := W) hsrc
  obtain ⟨info', hinfo', hvct, hcalled, hgo⟩ : ∃ info',
      (reconnectEntry s reply src info).1.m_mapProcess src = some info' ∧
      info'.m_vctProcess = info.m_vctProcess ∧
      Called 1 s info reply (reconnectEntry s reply src info).2.1 info'.m_connected
        info'.m_countMsg ∧
      (reconnectEntry s reply src info).2.2 = info'.m_connected :=
    reconnectEntry_called reply hnodup
  rw [reconnect, heq, reconnectEntries, if_pos hc, hinfo]
  dsimp only
  generalize reconnectEntry s reply src info = r at hinfo' hcalled hgo ⊢
  obtain ⟨s', n, goes⟩ := r
  obtain ⟨currIndex, connected, count, vct⟩ := info'
  simp only at hinfo' hvct hcalled hgo ⊢
  subst hgo
  cases hcalled with
  | counted h => exact ⟨_, hinfo', hvct, .counted h⟩
  | releaseThrows h hrel => exact ⟨_, hinfo', hvct, .releaseThrows h hrel⟩
  | fails h hrel hconn => exact ⟨_, hinfo', hvct, .fails h hrel hconn⟩
  | repeated _ _ _ hne => exact absurd rfl hne
  | connects h hrel hconn =>
    rw [if_pos rfl]
    by_cases hrest : configured todo src = 0
    · rw [reconnectEntries_absent s' reply hrest]
      exact ⟨_, hinfo', hvct, .connects h hrel hconn (by rw [hcount, hrest])⟩
    · obtain ⟨c', todo', hc', -, heq'⟩ := reconnectEntries_first (W := W) hrest
      have hodd : (info.m_countMsg + 1 + 1) % dagwMaxCountMsg ≠ 0 := by
        simp only [dagwMaxCountMsg] at h ⊢
        omega
      have hentry : reconnectEntry s' reply src ⟨currIndex, true, info.m_countMsg + 1, vct⟩ =
          (s'.setInfo src ⟨currIndex, false, info.m_countMsg + 1 + 1, vct⟩, 0, false) := if_pos hodd
      have hentries : reconnectEntries s' reply src todo =
          (s'.setInfo src ⟨currIndex, false, info.m_countMsg + 1 + 1, vct⟩, 0) := by
        rw [heq', reconnectEntries, if_pos hc', hinfo']
        dsimp only
        rw [hentry]
        rfl
      have hne : configured l src ≠ 1 := by omega
      rw [hentries]
      refine ⟨⟨currIndex, false, info.m_countMsg + 1 + 1, vct⟩, ?_, hvct,
        .repeated h hrel hconn hne⟩
      rw [State.setInfo_m_mapProcess, Function.update_self]

/-! ## A sequence of calls -/

/-- The gateway after `n` calls of `reconnect`; call `n + 1` gets the answers `calls n`. -/
def reconnects (l : List CConnectionCfg) (src : String) (calls : Nat → Reply) (s : State W) :
    Nat → State W
  | 0 => s
  | n + 1 => (reconnect l (reconnects l src calls s n) (calls n) src).1

/-- What a call of `reconnect` should do that is the `n`-th one: connect if `n` is a multiple of
`DAGW_MAX_COUNT_MSG`, once, and set the flag if it has connected and got all handles. -/
structure Regular (src : String) (n : Nat) (reply : Reply) (r : State W × Nat) : Prop where
  attempts : 1 ≤ r.2 ↔ dagwMaxCountMsg ∣ n
  once : r.2 ≤ 1
  flag : ∀ info, r.1.m_mapProcess src = some info →
    (info.m_connected = true ↔ 1 ≤ r.2 ∧ Succeeds info.m_vctProcess.length reply)

/-- In a call that is due, the releases return, and if the connect and the requests return too, then
no handle is NULL and the source is configured once. -/
structure Undisturbed (entries : Nat) (s : State W) (m_vctProcess : List W) (reply : Reply) :
    Prop where
  releases : Releases s m_vctProcess reply
  connects : Connects m_vctProcess.length reply →
    Succeeds m_vctProcess.length reply ∧ entries = 1

/-- What succeeds returns. -/
theorem Succeeds.connects {workers : Nat} {reply : Reply} (h : Succeeds workers reply) :
    Connects workers reply :=
  ⟨h.1, fun j hj => by simp [h.2 j hj]⟩

section
variable {entries : Nat} {s : State W} {info : CDBProcInfo W} {reply : Reply} {n count : Nat}
  {connected : Bool}

omit [DecidableEq W] in
/-- A call that is not due counts the error. -/
theorem Called.odd (h : Called entries s info reply n connected count)
    (hodd : (info.m_countMsg + 1) % dagwMaxCountMsg ≠ 0) :
    n = 0 ∧ connected = false ∧ count = info.m_countMsg + 1 := by
  cases h with
  | counted => exact ⟨rfl, rfl, rfl⟩
  | releaseThrows h | fails h | connects h | repeated h => exact absurd h hodd

omit [DecidableEq W] in
/-- A call that does not connect counts one message more. -/
theorem Called.count_of_zero (h : Called entries s info reply 0 connected count) :
    count = info.m_countMsg + 1 := by
  cases h <;> rfl

omit [DecidableEq W] in
/-- A call that is due and undisturbed connects, and sets the flag if it succeeds. -/
theorem Called.undisturbed (h : Called entries s info reply n connected count)
    (heven : (info.m_countMsg + 1) % dagwMaxCountMsg = 0)
    (hu : Undisturbed entries s info.m_vctProcess reply) :
    n = 1 ∧ (connected = true ↔ Succeeds info.m_vctProcess.length reply) ∧
      count = info.m_countMsg + 1 := by
  cases h with
  | counted h => exact absurd heven h
  | releaseThrows _ h => exact absurd hu.releases h
  | fails _ _ h => exact ⟨rfl, ⟨nofun, fun hs => absurd hs.connects h⟩, rfl⟩
  | connects _ _ h => exact ⟨rfl, ⟨fun _ => (hu.connects h).1, fun _ => rfl⟩, rfl⟩
  | repeated _ _ h hne => exact absurd (hu.connects h).2 hne

end

section
variable {l : List CConnectionCfg} {src : String} {calls : Nat → Reply} {s : State W}
  {info : CDBProcInfo W}

/-- What there is of the source before the call that follows on `n` calls. -/
structure After (l : List CConnectionCfg) (src : String) (calls : Nat → Reply) (s : State W)
    (ws : List W) (n count : Nat) : Prop where
  nodup : ws.Nodup
  info : ∃ info, (reconnects l src calls s n).m_mapProcess src = some info ∧
    info.m_vctProcess = ws ∧ info.m_countMsg = count

/-- The call that follows on `n` calls. -/
theorem After.called {ws : List W} {n count : Nat} (h : After l src calls s ws n count)
    (hsrc : configured l src ≠ 0) : ∃ info, info.m_vctProcess = ws ∧ info.m_countMsg = count ∧
      ∃ info', (reconnects l src calls s (n + 1)).m_mapProcess src = some info' ∧
        info'.m_vctProcess = ws ∧ After l src calls s ws (n + 1) info'.m_countMsg ∧
        Called (configured l src) (reconnects l src calls s n) info (calls n)
          (reconnect l (reconnects l src calls s n) (calls n) src).2 info'.m_connected
          info'.m_countMsg := by
  obtain ⟨hnodup, info, hinfo, hvct, hcount⟩ := h
  obtain ⟨info', hinfo', hvct', hcalled⟩ :=
    reconnect_called (calls n) hinfo hsrc (hvct ▸ hnodup)
  exact ⟨info, hvct, hcount, info', hinfo', hvct'.trans hvct,
    ⟨hnodup, info', hinfo', hvct'.trans hvct, rfl⟩, hcalled⟩

/-- An undisturbed call is regular, and counts once. -/
theorem After.regular {ws : List W} {n : Nat} (h : After l src calls s ws n n)
    (hsrc : configured l src ≠ 0)
    (hu : dagwMaxCountMsg ∣ n + 1 →
      Undisturbed (configured l src) (reconnects l src calls s n) ws (calls n)) :
    Regular src (n + 1) (calls n) (reconnect l (reconnects l src calls s n) (calls n) src) ∧
      After l src calls s ws (n + 1) (n + 1) := by
  obtain ⟨info, hvct, hcount, info', hinfo', hvct', hafter, hcalled⟩ := h.called hsrc
  by_cases hdvd : dagwMaxCountMsg ∣ n + 1
  · have heven : (info.m_countMsg + 1) % dagwMaxCountMsg = 0 := by
      rw [hcount]
      exact Nat.mod_eq_zero_of_dvd hdvd
    obtain ⟨hone, hflag, hnext⟩ := hcalled.undisturbed heven (hvct.symm ▸ hu hdvd)
    rw [hnext, hcount] at hafter
    refine ⟨⟨?_, hone.le, ?_⟩, hafter⟩
    · exact ⟨fun _ => hdvd, fun _ => hone.ge⟩
    · intro info₁ hinfo₁
      cases Option.some.inj (hinfo'.symm.trans hinfo₁)
      rw [hflag, hvct, hvct']
      exact ⟨fun hs => ⟨hone.ge, hs⟩, And.right⟩
  · have hodd : (info.m_countMsg + 1) % dagwMaxCountMsg ≠ 0 := by
      rw [hcount]
      exact fun hmod => hdvd (Nat.dvd_of_mod_eq_zero hmod)
    obtain ⟨hzero, hflag, hnext⟩ := hcalled.odd hodd
    rw [hnext, hcount] at hafter
    refine ⟨⟨?_, by omega, ?_⟩, hafter⟩
    · exact ⟨fun hle => by omega, fun h => absurd h hdvd⟩
    · intro info₁ hinfo₁
      cases Option.some.inj (hinfo'.symm.trans hinfo₁)
      rw [hflag]
      exact ⟨nofun, fun h => by omega⟩

/-- A regular call that is due, and that two regular calls follow, was undisturbed: a source that is
configured twice gets out of step. -/
theorem After.undisturbed {ws : List W} {n : Nat} (h : After l src calls s ws n n)
    (hsrc : configured l src ≠ 0) (hdvd : dagwMaxCountMsg ∣ n + 1)
    (hreg : ∀ m, Regular src (m + 1) (calls m)
      (reconnect l (reconnects l src calls s m) (calls m) src)) :
    Undisturbed (configured l src) (reconnects l src calls s n) ws (calls n) := by
  obtain ⟨info, hvct, hcount, info', hinfo', hvct', hafter, hcalled⟩ := h.called hsrc
  have hone := (hreg n).attempts.2 hdvd
  have hflag := (hreg n).flag info' hinfo'
  subst hvct
  generalize hr : (reconnect l (reconnects l src calls s n) (calls n) src).2 = r
    at hcalled hone hflag
  obtain ⟨currIndex, connected, count, vct⟩ := info'
  simp only at hvct' hafter hcalled hflag
  subst hvct'
  cases hcalled with
  | counted | releaseThrows => exact absurd hone (by omega)
  | fails _ hrel hconn => exact ⟨hrel, fun hc => absurd hc hconn⟩
  | connects _ hrel hconn hent => exact ⟨hrel, fun _ => ⟨(hflag.1 rfl).2, hent⟩⟩
  | repeated heven hrel hconn hent =>
    exfalso
    rw [hcount] at heven hafter
    -- the counter is one ahead, so the next call that may connect is not one that is due
    obtain ⟨info₁, -, hcount₁, info₂, -, -, hafter₂, hcalled₁⟩ := hafter.called hsrc
    have hzero₁ := (hreg (n + 1)).attempts
    have hnot : ¬ dagwMaxCountMsg ∣ n + 1 + 1 := by
      simp only [dagwMaxCountMsg] at hdvd ⊢
      omega
    have hidle : (reconnect l (reconnects l src calls s (n + 1)) (calls (n + 1)) src).2 = 0 :=
      Nat.eq_zero_of_not_pos fun hpos => hnot (hzero₁.1 hpos)
    rw [hidle] at hcalled₁
    have hcount₂ : info₂.m_countMsg = n + 2 + 1 := hcount₁ ▸ hcalled₁.count_of_zero
    obtain ⟨info₃, -, hcount₃, info₄, -, -, -, hcalled₂⟩ := hafter₂.called hsrc
    have hodd : (info₃.m_countMsg + 1) % dagwMaxCountMsg ≠ 0 := by
      simp only [dagwMaxCountMsg] at hdvd ⊢
      omega
    have hdue : dagwMaxCountMsg ∣ n + 1 + 1 + 1 := by
      simp only [dagwMaxCountMsg] at hdvd ⊢
      omega
    have hone₂ := (hreg (n + 1 + 1)).attempts.2 hdue
    rw [(hcalled₂.odd hodd).1] at hone₂
    omega

/-- **Every `DAGW_MAX_COUNT_MSG`-th call connects.** For every configuration list, every source of
the map and every sequence of calls: the `n`-th call connects exactly when `n` is a multiple of
`DAGW_MAX_COUNT_MSG`, and then once, and it leaves the flag set exactly when it has connected and
got all handles, if and only if the calls that are due are undisturbed. -/
theorem reconnects_regular_iff (hs : Initial s) (hinfo : s.m_mapProcess src = some info)
    (hsrc : configured l src ≠ 0) :
    (∀ n, Regular src (n + 1) (calls n)
      (reconnect l (reconnects l src calls s n) (calls n) src)) ↔
    ∀ n, dagwMaxCountMsg ∣ n + 1 → Undisturbed (configured l src) (reconnects l src calls s n)
      info.m_vctProcess (calls n) := by
  have hstart : After l src calls s info.m_vctProcess 0 0 :=
    ⟨hs.nodup src info hinfo, info, hinfo, rfl, hs.counted src info hinfo⟩
  refine ⟨?_, ?_⟩
  · intro hreg n
    have hafter : After l src calls s info.m_vctProcess n n := by
      induction n with
      | zero => exact hstart
      | succ n ih => exact (ih.regular hsrc fun hdvd => ih.undisturbed hsrc hdvd hreg).2
    exact fun hdvd => hafter.undisturbed hsrc hdvd hreg
  · intro hu n
    have hafter : After l src calls s info.m_vctProcess n n := by
      induction n with
      | zero => exact hstart
      | succ n ih => exact (ih.regular hsrc (hu n)).2
    exact (hafter.regular hsrc (hu n)).1

/-- `reconnect` leaves the other sources alone. -/
theorem reconnect_other {t : String} (ht : t ≠ src) (reply : Reply) :
    (reconnect l s reply src).1.m_mapProcess t = s.m_mapProcess t := by
  have hset : ∀ (s : State W) (info : CDBProcInfo W),
      (s.setInfo src info).m_mapProcess t = s.m_mapProcess t :=
    fun _ _ => Function.update_of_ne ht _ _
  rw [reconnect]
  induction l generalizing s with
  | nil => rfl
  | cons c todo ih =>
    rw [reconnectEntries]
    split
    · split
      · exact ih
      · next info' _ =>
        have hentry : (reconnectEntry s reply src info').1.m_mapProcess t = s.m_mapProcess t := by
          simp only [reconnectEntry]
          split_ifs <;> simp only [hset, assignAll_m_mapProcess, releaseAll_m_mapProcess]
        dsimp only
        split
        · rw [ih, hentry]
        · exact hentry
    · exact ih

end

end

/-! ## A source that is configured twice -/

namespace ConfiguredTwice

open Sample

/-- Every call of the database layer succeeds. -/
def calls (_ : Nat) : Reply := ⟨[], true, []⟩

/-- The second call connects and gets a handle, and the second entry takes the flag back. -/
theorem not_regular : ¬ ∀ n, Regular "bill" (n + 1) (calls n)
    (reconnect [⟨"bill", 1⟩, ⟨"bill", 1⟩]
      (reconnects [⟨"bill", 1⟩, ⟨"bill", 1⟩] "bill" calls start n) (calls n) "bill") := by
  intro h
  have hflag := (h 1).flag ⟨0, false, 3, [()]⟩ rfl
  have hgranted : Succeeds 1 (calls 1) := ⟨rfl, fun _ _ => rfl⟩
  exact Bool.false_ne_true (hflag.2 ⟨le_rfl, hgranted⟩)

/-- The theorem above on a source that is configured once. -/
theorem reconnects_regular_once : configured [⟨"bill", 1⟩] "bill" = 1 ∧
    ∀ n, Regular "bill" (n + 1) (calls n) (reconnect [⟨"bill", 1⟩]
      (reconnects [⟨"bill", 1⟩] "bill" calls start n) (calls n) "bill") := by
  have hinfo : start.m_mapProcess "bill" = some ⟨0, true, 0, [()]⟩ := rfl
  refine ⟨by decide, ?_⟩
  refine (reconnects_regular_iff start_initial hinfo (by decide)).2 fun n _ => ⟨?_, ?_⟩
  · intro j _
    exact nofun
  · exact fun _ => ⟨⟨rfl, fun _ _ => rfl⟩, by decide⟩

end ConfiguredTwice

end TelecomSuite.Dagw
