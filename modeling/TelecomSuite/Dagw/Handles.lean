import Mathlib.Data.List.TakeWhile
import TelecomSuite.Dagw.Frame

/-!
# No statement through a dead handle

A query handle is dead once it was given back to its connection; NULL is no handle at all. A worker
executes a request with the handle it has at that moment, and `m_connected` is looked at only when
the request is queued. The invariant `Live` therefore speaks about every request that is still
ahead of its execution: a worker with a pending request holds a live handle, and so does every
worker of a connected source as long as the service takes requests.

The invariant is kept by every step except a release of handles that catches a worker with a
pending request, and a `requestQueryConnection` that returns NULL to a reconnect (`Calm`).
`QueuedBehindReconnect.not_live_handle` is a run of the `_DB_ORACLE_` build into the first case.
-/

namespace TelecomSuite.Dagw

open Transition

section
variable {W : Type}

/-! ## Pending requests and live handles -/

/-- The thread has a request in its hands that it will execute or queue again. -/
def Running.Pending : Running → Prop
  | .idle | .ended => False
  | .got utm => utm.messageId = .reqExecSQL
  | .doing todo => ∃ utm, .process utm ∈ todo

/-- The worker has a request ahead of its execution. -/
def TDBProcess.Pending (p : TDBProcess) : Prop :=
  (∃ utm ∈ p.m_queue, utm.messageId = .reqExecSQL) ∨ p.thread.Pending

/-- The worker holds a handle that was not given back. -/
def State.Holds (s : State W) (w : W) : Prop :=
  ∃ h, (s.workers w).m_pDbQuery = some h ∧ h ∉ s.released

/-- Handles are given out once, to one worker, and sources do not share workers. -/
structure Owned (s : State W) : Prop where
  issued : ∀ w h, (s.workers w).m_pDbQuery = some h → h < s.issued
  released : ∀ h ∈ s.released, h < s.issued
  distinct : ∀ w w' h, (s.workers w).m_pDbQuery = some h → (s.workers w').m_pDbQuery = some h →
    w = w'
  apart : ∀ src src' info info', s.m_mapProcess src = some info →
    s.m_mapProcess src' = some info' → ∀ w ∈ info.m_vctProcess, w ∈ info'.m_vctProcess → src = src'

/-- The handles behind pending requests, and those of connected sources, are live. -/
structure Live (s : State W) : Prop extends Owned s where
  pending : ∀ w, (s.workers w).Pending → s.Holds w
  connected : (∃ todo, s.service = .serving todo) → ∀ src info, s.m_mapProcess src = some info →
    info.m_connected = true → ∀ w ∈ info.m_vctProcess, s.Holds w

/-- The same messages in the same places: the same workers have a request. -/
theorem SameTraffic.pending {s s' : State W} (h : SameTraffic s s') {w : W} :
    (s'.workers w).Pending ↔ (s.workers w).Pending := by
  rw [TDBProcess.Pending, TDBProcess.Pending, h.queue w, h.thread w]

/-- A thread that goes on has a request if one is left to be queued again. -/
theorem Running.pending_resume {todo : List Task} :
    (Running.resume todo).Pending ↔ ∃ utm, .process utm ∈ todo := by
  cases todo with
  | nil => simp [Running.resume, Running.Pending]
  | cons t todo => rfl

/-! ## Releasing and requesting -/

variable [DecidableEq W]

/-- A worker's handle is given back: nothing changes for the others. -/
theorem Owned.release {s : State W} (h : Owned s) {w : W} {hd : Handle}
    (hw : (s.workers w).m_pDbQuery = some hd) :
    Owned ({ s with released := hd :: s.released }.setWorker w
        { s.workers w with m_pDbQuery := none }) ∧
      ∀ v, v ≠ w → s.Holds v → ({ s with released := hd :: s.released }.setWorker w
        { s.workers w with m_pDbQuery := none }).Holds v := by
  refine ⟨⟨?_, ?_, ?_, h.apart⟩,
    fun v hvw ⟨k, hv, hk⟩ => ⟨k, ?_, ?_⟩⟩
  · intro v k hv
    rcases eq_or_ne v w with rfl | hvw
    · simp at hv
    · exact h.issued v k (by simpa [hvw] using hv)
  · intro k hk
    rcases List.mem_cons.1 hk with rfl | hk
    · exact h.issued w _ hw
    · exact h.released k hk
  · intro v v' k hv hv'
    rcases eq_or_ne v w with rfl | hvw
    · simp at hv
    · rcases eq_or_ne v' w with rfl | hvw'
      · simp at hv'
      · exact h.distinct v v' k (by simpa [hvw] using hv) (by simpa [hvw'] using hv')
  · simpa [hvw] using hv
  · intro hmem
    rcases List.mem_cons.1 hmem with rfl | hmem
    · exact hvw (h.distinct v w k hv hw)
    · exact hk hmem

/-- What the release loop keeps: the handles of all other workers. -/
theorem Owned.releaseAll (ws : List W) : ∀ {s : State W}, Owned s → ∀ answers : List Bool,
    Owned (releaseAll s ws answers).1 ∧
      (Dagw.releaseAll s ws answers).1.m_mapProcess = s.m_mapProcess ∧
      ∀ v ∉ ws, s.Holds v → (Dagw.releaseAll s ws answers).1.Holds v := by
  induction ws with
  | nil => exact fun h _ => ⟨h, rfl, fun _ _ hv => hv⟩
  | cons w ws ih =>
    intro s h answers
    rw [Dagw.releaseAll]
    split
    · obtain ⟨howned, hmap, hholds⟩ := ih h answers
      exact ⟨howned, hmap, fun v hv => hholds v fun hmem => hv (List.mem_cons_of_mem _ hmem)⟩
    · next hd hw =>
      split
      · exact ⟨h, rfl, fun _ _ hv => hv⟩
      · obtain ⟨h₁, hholds₁⟩ := h.release hw
        obtain ⟨howned, hmap, hholds⟩ := ih h₁ answers.tail
        refine ⟨howned, hmap, fun v hv hs => hholds v ?_ (hholds₁ v ?_ hs)⟩
        · intro hmem
          exact hv (List.mem_cons_of_mem _ hmem)
        · exact fun hvw => hv (hvw ▸ List.mem_cons_self ..)

/-- A worker gets a new handle: it is live, and so is every handle that was. -/
theorem Owned.assign {s : State W} (h : Owned s) (w : W) :
    Owned ({ s with issued := s.issued + 1 }.setWorker w
        { s.workers w with m_pDbQuery := some s.issued }) ∧
      ∀ v, v = w ∨ s.Holds v → ({ s with issued := s.issued + 1 }.setWorker w
        { s.workers w with m_pDbQuery := some s.issued }).Holds v := by
  have hnew : s.issued ∉ s.released := fun hmem => lt_irrefl _ (h.released _ hmem)
  refine ⟨⟨?_, ?_, ?_, h.apart⟩, ?_⟩
  · intro v k hv
    rcases eq_or_ne v w with rfl | hvw
    · simp at hv
      exact hv ▸ Nat.lt_succ_self _
    · exact Nat.lt_succ_of_lt (h.issued v k (by simpa [hvw] using hv))
  · intro k hk
    exact Nat.lt_succ_of_lt (h.released k hk)
  · intro v v' k hv hv'
    by_cases hvw : v = w <;> by_cases hvw' : v' = w
    · rw [hvw, hvw']
    · subst hvw
      simp [hvw'] at hv hv'
      exact absurd (h.issued v' k hv') (hv ▸ lt_irrefl _)
    · subst hvw'
      simp [hvw] at hv hv'
      exact absurd (h.issued v k hv) (hv' ▸ lt_irrefl _)
    · exact h.distinct v v' k (by simpa [hvw] using hv) (by simpa [hvw'] using hv')
  · intro v hv
    rcases eq_or_ne v w with rfl | hvw
    · exact ⟨s.issued, by simp, hnew⟩
    · obtain ⟨k, hk, hfree⟩ := hv.resolve_left hvw
      exact ⟨k, by simpa [hvw] using hk, hfree⟩

/-- What the request loop keeps when no answer is NULL: every live handle; and at its end every
worker of the source holds one. -/
theorem Owned.assignAll (ws : List W) : ∀ {s : State W}, Owned s → ∀ answers : List Granted,
    .null ∉ answers →
    Owned (assignAll s ws answers).1 ∧
      (Dagw.assignAll s ws answers).1.m_mapProcess = s.m_mapProcess ∧
      (∀ v, s.Holds v → (Dagw.assignAll s ws answers).1.Holds v) ∧
      ((Dagw.assignAll s ws answers).2 = true →
        ∀ v ∈ ws, (Dagw.assignAll s ws answers).1.Holds v) := by
  induction ws with
  | nil => exact fun h _ _ => ⟨h, rfl, fun _ hv => hv, fun _ v hv => absurd hv List.not_mem_nil⟩
  | cons w ws ih =>
    intro s h answers hnull
    rw [Dagw.assignAll]
    split
    · exact ⟨h, rfl, fun _ hv => hv, fun hfalse => absurd hfalse Bool.false_ne_true⟩
    · next hhead =>
      cases answers with
      | nil => cases hhead
      | cons a answers => exact absurd (List.mem_cons.2 (.inl hhead.symm)) hnull
    · obtain ⟨h₁, hholds₁⟩ := h.assign w
      obtain ⟨howned, hmap, hkeep, hall⟩ := ih h₁ answers.tail
        fun hmem => hnull (List.mem_of_mem_tail hmem)
      refine ⟨howned, hmap, fun v hv => hkeep v (hholds₁ v (.inr hv)), ?_⟩
      intro hdone v hv
      rcases List.mem_cons.1 hv with rfl | hv
      · exact hkeep v (hholds₁ v (.inl rfl))
      · exact hall hdone v hv

/-! ## The condition on a step -/

/-- A stage of `reconnect` that releases handles finds no pending request at the source's workers,
and one that requests handles is not given NULL. -/
def CalmTask (s : State W) (reply : Reply) : Task → Prop
  | .reconnect src todo => ∀ info, s.m_mapProcess src = some info →
      (∃ c ∈ todo, c.m_SourceName = src) → (info.m_countMsg + 1) % dagwMaxCountMsg = 0 →
      ∀ w ∈ info.m_vctProcess, ¬ (s.workers w).Pending
  | .assign _ _ => .null ∉ reply.handles
  | .postMessage _ _ | .process _ | .errProcess _ _ | .connect _ _ => True

/-- The same for a step, and `uninit` releases the handle of a worker without pending requests. -/
def Calm (s : State W) : Label W → Prop
  | .serve reply => ∀ t todo, s.service = .serving (t :: todo) → CalmTask s reply t
  | .act w reply => ∀ t todo, (s.workers w).thread = .doing (t :: todo) → CalmTask s reply t
  | .uninit => ∀ w todo, s.service = .uninit (.release w :: todo) → ¬ (s.workers w).Pending
  | .receive _ _ | .take _ | .exec _ _ | .skip _ | .quit _ | .shutdown _ => True

/-! ## The steps keep the invariant -/

/-- A step of one worker that leaves its handle alone. -/
theorem Live.setWorker {s : State W} (h : Live s) {w : W} {p : TDBProcess}
    (hhandle : p.m_pDbQuery = (s.workers w).m_pDbQuery) (hp : p.Pending → s.Holds w) :
    Live (s.setWorker w p) := by
  have hsame : ∀ v, ((s.setWorker w p).workers v).m_pDbQuery = (s.workers v).m_pDbQuery := by
    intro v
    rcases eq_or_ne v w with rfl | hv
    · simpa using hhandle
    · simp [hv]
  have hholds : ∀ v, s.Holds v → (s.setWorker w p).Holds v :=
    fun v ⟨k, hk, hfree⟩ => ⟨k, (hsame v).trans hk, hfree⟩
  refine ⟨⟨?_, h.released, ?_, h.apart⟩, ?_,
    fun hs src info hi hc v hv => hholds v (h.connected hs src info hi hc v hv)⟩
  · intro v k hv
    exact h.issued v k ((hsame v).symm.trans hv)
  · intro v v' k hv hv'
    exact h.distinct v v' k ((hsame v).symm.trans hv) ((hsame v').symm.trans hv')
  · intro v hv
    rcases eq_or_ne v w with rfl | hvw
    · exact hholds v (hp (by simpa using hv))
    · exact hholds v (h.pending v (by simpa [hvw] using hv))

omit [DecidableEq W] in
/-- Counting an error, or looking at the round-robin index, moves no worker and no handle. -/
theorem Live.setInfo {s : State W} (h : Live s) {src : String} {info : CDBProcInfo W}
    (info' : CDBProcInfo W) (hinfo : s.m_mapProcess src = some info)
    (hws : info'.m_vctProcess = info.m_vctProcess)
    (hc : info'.m_connected = true →
      (∃ todo, s.service = .serving todo) → ∀ w ∈ info.m_vctProcess, s.Holds w) :
    Live (s.setInfo src info') := by
  have hmap : ∀ src₁ info₁, (s.setInfo src info').m_mapProcess src₁ = some info₁ →
      ∃ info₀, s.m_mapProcess src₁ = some info₀ ∧ info₁.m_vctProcess = info₀.m_vctProcess ∧
        (info₁ = info₀ ∨ src₁ = src ∧ info₁ = info') := by
    intro src₁ info₁ h₁
    rcases eq_or_ne src₁ src with rfl | hsrc
    · simp at h₁
      subst h₁
      exact ⟨info, hinfo, hws, .inr ⟨rfl, rfl⟩⟩
    · exact ⟨info₁, by simpa [hsrc] using h₁, rfl, .inl rfl⟩
  refine ⟨⟨h.issued, h.released, h.distinct, ?_⟩,
    h.pending, ?_⟩
  · intro src₁ src₂ info₁ info₂ h₁ h₂ w hw₁ hw₂
    obtain ⟨i₁, hi₁, hws₁, -⟩ := hmap src₁ info₁ h₁
    obtain ⟨i₂, hi₂, hws₂, -⟩ := hmap src₂ info₂ h₂
    exact h.apart src₁ src₂ i₁ i₂ hi₁ hi₂ w (hws₁ ▸ hw₁) (hws₂ ▸ hw₂)
  · intro hs src₁ info₁ h₁ hc₁ w hw
    obtain ⟨i₁, hi₁, hws₁, rfl | ⟨rfl, rfl⟩⟩ := hmap src₁ info₁ h₁
    · exact h.connected hs src₁ info₁ hi₁ hc₁ w hw
    · rw [hinfo] at hi₁
      cases hi₁
      exact hc hc₁ hs w (hws₁ ▸ hw)

/-- The first stage of `reconnect`. -/
theorem Live.reconnectRelease {s : State W} (h : Live s) (reply : Reply) {src : String}
    {todo : List CConnectionCfg} (hcalm : CalmTask s reply (.reconnect src todo)) :
    Live (reconnectRelease s reply src todo).1 := by
  unfold Dagw.reconnectRelease
  split
  · exact h
  · exact h
  · next c rest info hdrop hinfo =>
    have hmem : ∃ c ∈ todo, c.m_SourceName = src := by
      by_contra hne
      have : todo.dropWhile (·.m_SourceName ≠ src) = [] :=
        List.dropWhile_eq_nil_iff.2 fun c hc => by simpa using fun hs => hne ⟨c, hc, hs⟩
      rw [this] at hdrop
      cases hdrop
    have h₁ := h.setInfo { info with
      m_countMsg := info.m_countMsg + 1, m_connected := false } hinfo rfl nofun
    dsimp only
    split
    · exact h₁
    · next hcount =>
      have hidle := hcalm info hinfo hmem (not_not.1 hcount)
      obtain ⟨howned, hmap, hholds⟩ := h₁.toOwned.releaseAll info.m_vctProcess reply.releases
      have htraffic := sameTraffic_releaseAll info.m_vctProcess
        (s.setInfo src { info with m_countMsg := info.m_countMsg + 1, m_connected := false })
        reply.releases
      refine ⟨howned, ?_, ?_⟩
      · intro w hw
        have hpending := htraffic.pending.1 hw
        exact hholds w (fun hmem => hidle w hmem hpending) (h₁.pending w hpending)
      · intro hs src₁ info₁ hi₁ hc₁ w hw
        rw [htraffic.service] at hs
        rw [hmap] at hi₁
        refine hholds w ?_ (h₁.connected hs src₁ info₁ hi₁ hc₁ w hw)
        intro hmem
        have hsrc : src₁ = src := h₁.apart src₁ src info₁ _ hi₁ (Function.update_self ..) w hw hmem
        subst hsrc
        simp at hi₁
        subst hi₁
        cases hc₁

/-- The last stage of `reconnect`. -/
theorem Live.reconnectAssign {s : State W} (h : Live s) {reply : Reply} (src : String)
    (todo : List CConnectionCfg) (hnull : .null ∉ reply.handles) :
    Live (reconnectAssign s reply src todo).1 := by
  unfold Dagw.reconnectAssign
  split
  · exact h
  · next info hinfo =>
    obtain ⟨howned, hmap, hkeep, hall⟩ :=
      h.toOwned.assignAll info.m_vctProcess reply.handles hnull
    have htraffic := sameTraffic_assignAll info.m_vctProcess s reply.handles
    have h₁ : Live (assignAll s info.m_vctProcess reply.handles).1 := by
      refine ⟨howned, fun w hw => hkeep w (h.pending w (htraffic.pending.1 hw)),
        ?_⟩
      intro hs src₁ info₁ hi₁ hc₁ w hw
      rw [htraffic.service] at hs
      rw [hmap] at hi₁
      exact hkeep w (h.connected hs src₁ info₁ hi₁ hc₁ w hw)
    dsimp only
    split
    · next hdone =>
      have hinfo₁ :
          (assignAll s info.m_vctProcess reply.handles).1.m_mapProcess src = some info := by
        rw [hmap, hinfo]
      exact h₁.setInfo _ hinfo₁ rfl fun _ _ => hall hdone
    · exact h₁

/-- A task, on whichever thread. -/
theorem Live.perform {cfg : Cfg} {s : State W} (h : Live s) {own : Option W} {reply : Reply}
    {t : Task} (hcalm : CalmTask s reply t)
    (hown : ∀ utm w, t = .process utm → own = some w → s.Holds w) :
    Live (perform cfg own s reply t).1 := by
  cases t with
  | postMessage dest utm =>
    exact ⟨⟨h.issued, h.released, h.distinct, h.apart⟩, h.pending, h.connected⟩
  | process utm =>
    cases own with
    | none => exact h
    | some w =>
      simp only [Dagw.perform]
      split
      · next hput =>
        obtain ⟨-, rfl⟩ := tryPut_some hput
        exact h.setWorker rfl fun _ => hown utm w rfl rfl
      · exact h
  | errProcess | connect => exact h
  | reconnect src todo => exact h.reconnectRelease reply hcalm
  | assign src todo => exact h.reconnectAssign src todo hcalm

/-- `HandleExecSQL` queues only at a worker of a connected source. -/
theorem Live.handleExecSQL {s : State W} (h : Live s) (cfg : Cfg) (sender : ServiceIdentifier)
    (utm : UserTransferMessage) (hs : s.service = .serving []) :
    Live (handleExecSQL cfg s sender utm) := by
  unfold Dagw.handleExecSQL
  split
  · exact ⟨⟨h.issued, h.released, h.distinct, h.apart⟩, h.pending, h.connected⟩
  · next info hinfo =>
    obtain ⟨hws, hconn⟩ := route_info info utm
    have h₁ := h.setInfo _ hinfo hws
      fun hc hserving => h.connected hserving _ info hinfo (hconn ▸ hc)
    dsimp only
    split
    · exact ⟨⟨h₁.issued, h₁.released, h₁.distinct, h₁.apart⟩, h₁.pending, h₁.connected⟩
    · next w hw =>
      split
      · next hc =>
        split
        · next hput =>
          obtain ⟨-, rfl⟩ := tryPut_some hput
          exact h₁.setWorker rfl fun _ => h.connected ⟨[], hs⟩ _ info hinfo hc w (route_mem hw)
        · exact ⟨⟨h₁.issued, h₁.released, h₁.distinct, h₁.apart⟩, h₁.pending, h₁.connected⟩
      · exact ⟨⟨h₁.issued, h₁.released, h₁.distinct, h₁.apart⟩, h₁.pending,
          fun _ => h₁.connected ⟨[], hs⟩⟩

/-- A worker carries out a task. -/
theorem Live.act {cfg : Cfg} {s : State W} (h : Live s) {w : W} {reply : Reply} {t : Task}
    {todo : List Task} (ht : (s.workers w).thread = .doing (t :: todo))
    (hcalm : CalmTask s reply t) :
    Live ((Dagw.perform cfg (some w) s reply t).1.setThread w
      (.resume ((Dagw.perform cfg (some w) s reply t).2 ++ todo))) := by
  have hprocess : ∀ utm, .process utm ∈ t :: todo → (s.workers w).Pending := fun utm hmem => by
    rw [TDBProcess.Pending, ht]
    exact .inr ⟨utm, hmem⟩
  have h₁ : Live (Dagw.perform cfg (some w) s reply t).1 := by
    refine h.perform hcalm ?_
    intro utm v hutm hv
    cases hv
    exact h.pending w (hprocess utm (hutm ▸ List.mem_cons_self ..))
  have hthread := (perform_threads cfg (some w) s reply t).2 w
  have hleft := perform_left cfg (some w) s reply t
  refine h₁.setWorker rfl fun hp => h₁.pending w ?_
  rcases hp with hqueue | hp
  · exact .inl hqueue
  · obtain ⟨utm, hmem⟩ := Running.pending_resume.1 hp
    rcases List.mem_append.1 hmem with hmem | hmem
    · exact (hleft _ hmem).elim
    · rw [TDBProcess.Pending, hthread, ht]
      exact .inr ⟨utm, List.mem_cons_of_mem _ hmem⟩

omit [DecidableEq W] in
/-- In `uninit` no source has to be connected. -/
theorem Live.uninit {s : State W} (h : Live s) (todo : List (Uninit W)) :
    Live { s with service := .uninit todo } :=
  ⟨⟨h.issued, h.released, h.distinct, h.apart⟩, h.pending, nofun⟩

omit [DecidableEq W] in
/-- `uninit` releases the handle of a worker without pending requests. -/
theorem Live.release {s : State W} (h : Live s) {w : W} {todo : List (Uninit W)}
    (hw : ¬ (s.workers w).Pending) :
    Live { s with service := .uninit todo
                  released := (s.workers w).m_pDbQuery.toList ++ s.released } := by
  refine ⟨⟨h.issued, ?_, h.distinct, h.apart⟩, ?_, ?_⟩
  · intro k hk
    rcases List.mem_append.1 hk with hk | hk
    · exact h.issued w k (Option.mem_toList.1 hk)
    · exact h.released k hk
  · intro v hv
    obtain ⟨k, hk, hfree⟩ := h.pending v hv
    refine ⟨k, hk, ?_⟩
    intro hmem
    rcases List.mem_append.1 hmem with hmem | hmem
    · have hvw : v = w := h.distinct v w k hk (Option.mem_toList.1 hmem)
      exact hw (hvw ▸ hv)
    · exact hfree hmem
  · intro hs
    obtain ⟨_, hs⟩ := hs
    cases hs

/-- **Live handles.** Every step that meets `Calm` keeps the invariant. -/
theorem live_inductive (cfg : Cfg) : ((system (W := W) cfg).restrict Calm).Inductive Live where
  init s h := by
    have hholds : ∀ w, s.Holds w := fun w => by
      obtain ⟨k, hk, -⟩ := h.handle w
      exact ⟨k, hk, by simp [h.released]⟩
    refine ⟨⟨?_, by simp [h.released], ?_, h.apart⟩,
      fun w _ => hholds w, fun _ _ _ _ _ w _ => hholds w⟩
    · intro w k hk
      obtain ⟨k', hk', hlt⟩ := h.handle w
      rw [hk] at hk'
      cases hk'
      exact hlt
    · intro w w' k hk hk'
      exact h.distinct w w' (hk.trans hk'.symm)
  step s a s' := by
    rintro ⟨hstep, hcalm⟩ h
    cases hstep with
    | receive hs hu =>
      have h₁ : Live { s with received := s.received + 1 } :=
        ⟨⟨h.issued, h.released, h.distinct, h.apart⟩, h.pending, h.connected⟩
      exact h₁.handleExecSQL cfg _ _ hs
    | @serve reply t todo hs =>
      have h₁ : Live (perform cfg none s reply t).1 := h.perform (hcalm t todo hs) nofun
      have hservice := (perform_threads cfg none s reply t).1
      exact ⟨⟨h₁.issued, h₁.released, h₁.distinct, h₁.apart⟩, h₁.pending,
        fun _ => h₁.connected ⟨_, hservice.trans hs⟩⟩
    | @take w utm rest hidle _ hqueue =>
      refine h.setWorker rfl fun hp => h.pending w (.inl ?_)
      rw [hqueue]
      rcases hp with ⟨u, hmem, hu⟩ | hu
      · exact ⟨u, List.mem_cons_of_mem _ hmem, hu⟩
      · exact ⟨utm, List.mem_cons_self .., hu⟩
    | @exec w utm db hgot hu _ =>
      refine h.setWorker rfl fun _ => h.pending w (.inr ?_)
      rw [hgot]
      exact hu
    | @skip w utm hgot _ =>
      exact h.setWorker rfl fun hp => h.pending w (.inl (hp.resolve_right nofun))
    | @act w reply t todo hdoing => exact h.act hdoing (hcalm t todo hdoing)
    | @quit w hidle _ => exact h.setWorker rfl fun hp => h.pending w (.inl (hp.resolve_right nofun))
    | shutdown => exact h.uninit _
    | @release w todo hs => exact h.release (hcalm w todo hs)
    | @stop w todo hs => exact (h.uninit todo).setWorker rfl fun hp => h.pending w hp
    | @wake w todo p hs hput =>
      obtain ⟨-, rfl⟩ := tryPut_some hput
      refine (h.uninit todo).setWorker rfl fun hp => h.pending w ?_
      refine hp.imp_left fun ⟨u, hmem, hu⟩ => ?_
      rcases List.mem_append.1 hmem with hmem | hmem
      · exact ⟨u, hmem, hu⟩
      · rw [List.mem_singleton.1 hmem] at hu
        cases hu
    | join => exact h.uninit _

/-- **No statement through a dead handle.** In every run whose steps meet `Calm`, a worker that
executes a request does so through a handle that is neither NULL nor given back. -/
theorem exec_through_live_handle (cfg : Cfg) {s s' : State W} {w : W} {db : Db}
    (hs : ((system cfg).restrict Calm).Reachable s) (hstep : (system cfg).step s (.exec w db) s') :
    ∃ h, (s.workers w).m_pDbQuery = some h ∧ h ∉ s.released := by
  have hlive := (live_inductive cfg).reachable hs
  cases hstep with
  | @exec _ utm _ hgot hu _ =>
    refine hlive.pending w (.inr ?_)
    rw [hgot]
    exact hu

end

/-! ## A request queued behind a reconnect -/

namespace QueuedBehindReconnect

open LostConnection (request)
open Sample

/-- The `_DB_ORACLE_` build with one source. -/
def cfg : Cfg := ⟨.oracle, LostConnection.code, 200, [⟨"bill", 1⟩]⟩

/-- A connection that is gone: `command` throws. -/
def gone : Db where
  σ := Unit
  query := { LostConnection.query with
    command := fun _ s => (.error ⟨.notConnected, "", "NOT_CONNECTED", "not connected"⟩, s) }
  session := ()
  fuel := 1

/-- Everything the database layer is asked for succeeds. -/
def reply : Reply := ⟨[], true, []⟩

/-- Two requests are queued, and the first one fails because the connection is gone. The worker
counts the error and the source is no longer connected. A third request makes the service thread
count a second one and release the handle. The second request is executed with a NULL handle. -/
theorem not_live_handle :
    ¬ ∀ (s s' : State Unit) (w : Unit) (db : Db), (system cfg).Reachable s →
      (system cfg).step s (.exec w db) s' →
      ∃ h, (s.workers w).m_pDbQuery = some h ∧ h ∉ s.released := by
  intro hall
  have hrun : ∃ s as, (system cfg).Run start as s ∧
      (s.workers ()).thread = .got (numbered 1) ∧ (s.workers ()).m_pDbQuery = none ∧
      (s.workers ()).m_rowCount = 0 := by
    refine ⟨_, [.receive 7 request, .receive 7 request, .take (), .exec () gone, .act () reply,
      .act () reply, .act () reply, .receive 7 request, .serve reply, .take ()],
      .cons (.receive rfl rfl) (.cons (.receive rfl rfl)
        (.cons (.take (u := numbered 0) (q := [numbered 1]) rfl rfl rfl)
          (.cons (.exec (u := numbered 0) rfl rfl nofun)
            (.cons (.act (l := [.postMessage 7 { numbered 0 with
              messageId := .resExecSQL, res := 7, ret := -1 }]) rfl)
              (.cons (.act (t := .reconnect "bill" cfg.m_vctConnection) rfl)
                (.cons (.act (l := []) rfl)
                  (.cons (.receive rfl rfl)
                    (.cons (.serve (t := .reconnect "bill" cfg.m_vctConnection) rfl)
                      (.cons (.take (u := numbered 1) (q := []) rfl rfl rfl)
                        (.nil _)))))))))), rfl, rfl, rfl⟩
  obtain ⟨s, as, hrun, hgot, hnull, hrc⟩ := hrun
  obtain ⟨h, hh, -⟩ := hall s _ () gone ⟨start, as, start_initial, hrun⟩
    (.exec hgot rfl (by rw [hrc]; exact nofun))
  rw [hnull] at hh
  cases hh

end QueuedBehindReconnect

/-- The theorem above at the first request of a run. -/
theorem exec_through_live_handle_delete :
    ∃ s s' : State Unit, ((system QueuedBehindReconnect.cfg).restrict Calm).Reachable s ∧
      (system QueuedBehindReconnect.cfg).step s (.exec () QueuedBehindReconnect.gone) s' ∧
      ∃ h, (s.workers ()).m_pDbQuery = some h ∧ h ∉ s.released := by
  have hreach : ∃ s, ((system QueuedBehindReconnect.cfg).restrict Calm).Reachable s ∧
      (s.workers ()).thread = .got (Sample.numbered 0) ∧ (s.workers ()).m_rowCount = 0 := by
    refine ⟨_, ⟨Sample.start, [.receive 7 LostConnection.request, .take ()], Sample.start_initial,
      .cons ⟨.receive rfl rfl, trivial⟩
        (.cons ⟨.take (u := Sample.numbered 0) (q := []) rfl rfl rfl, trivial⟩ (.nil _))⟩,
      rfl, rfl⟩
  obtain ⟨s, hs, hgot, hrc⟩ := hreach
  have hstep : (system QueuedBehindReconnect.cfg).step s (.exec () QueuedBehindReconnect.gone) _ :=
    .exec hgot rfl (by rw [hrc]; exact nofun)
  exact ⟨s, _, hs, hstep, exec_through_live_handle QueuedBehindReconnect.cfg hs hstep⟩

end TelecomSuite.Dagw
