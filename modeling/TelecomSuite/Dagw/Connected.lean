import TelecomSuite.Dagw.Handles
import TelecomSuite.Dagw.Reconnect

/-!
# The connection flag and the handles

`m_connected` of a source says that its workers can execute statements. The flag, the counter and
the handles are changed one after the other, on the way through `init` and the stages of
`reconnect`. To say of a handle that it was requested after the source's connection was closed last,
the gateway is run with a log of the calls of `disconnect` and `requestQueryConnection` (`logged`).

`init` does not start a source that gets a NULL handle, but `reconnect` does not look at what
`requestQueryConnection` returns, and sets the flag (`NullHandle.not_connected_handles`). As long as
no such NULL comes, the flag is right in every state (`connected_handles`).
-/

namespace TelecomSuite.Dagw

open Transition

section
variable {W : Type}

/-! ## The log -/

/-- A call on the connection of a source: `disconnect`, or `requestQueryConnection` for a worker
with what it returned. -/
inductive Event (W : Type)
  | disconnect (src : String)
  | request (src : String) (w : W) (h : Option Handle)
  deriving DecidableEq

/-- The calls of the request loop of `reconnect` up to one that throws. -/
def requests (src : String) : (issued : Nat) → List W → List Granted → List (Event W)
  | _, [], _ => []
  | issued, w :: ws, answers =>
    match answers.head?.getD .handle with
    | .thrown => []
    | .null => .request src w none :: requests src issued ws answers.tail
    | .handle => .request src w (some issued) :: requests src (issued + 1) ws answers.tail

/-- The task that a step carries out, the thread it runs on and the answers it gets. -/
def State.performs (s : State W) : Label W → Option (Option W × Reply × Task)
  | .serve reply =>
    match s.service with
    | .serving (t :: _) => some (none, reply, t)
    | .serving [] | .uninit _ => none
  | .act w reply =>
    match (s.workers w).thread with
    | .doing (t :: _) => some (some w, reply, t)
    | .doing [] | .idle | .got _ | .ended => none
  | .receive .. | .take _ | .exec .. | .skip _ | .quit _ | .shutdown _ | .uninit => none

variable [DecidableEq W]

/-- The calls of a task. `reconnect` disconnects when it has released the handles, before it
connects; an exception of `disconnect` is caught. -/
def Task.events (s : State W) (reply : Reply) : Task → List (Event W)
  | .reconnect src todo =>
    if (reconnectRelease s reply src todo).2 = [] then [] else [.disconnect src]
  | .assign src _ =>
    match s.m_mapProcess src with
    | some info => requests src s.issued info.m_vctProcess reply.handles
    | none => []
  | .postMessage .. | .process _ | .errProcess .. | .connect .. => []

/-- The calls of a step. -/
def State.events (s : State W) (a : Label W) : List (Event W) :=
  match s.performs a with
  | some (_, reply, t) => t.events s reply
  | none => []

/-- The handle of the worker was requested from the connection of the source, and the connection has
not been closed since. -/
def Fresh (s : State W) (log : List (Event W)) (src : String) (w : W) : Prop :=
  ∃ h, (s.workers w).m_pDbQuery = some h ∧
    ∃ before after, log = before ++ .request src w (some h) :: after ∧ .disconnect src ∉ after

/-- `init` has requested the handles of the workers. -/
structure InitLog (s : State W) (log : List (Event W)) : Prop where
  requests : ∀ src info, s.m_mapProcess src = some info → ∀ w ∈ info.m_vctProcess,
    ∀ h, (s.workers w).m_pDbQuery = some h → .request src w (some h) ∈ log
  disconnects : ∀ src, .disconnect src ∉ log

/-- The gateway with the log. -/
def logged (cfg : Cfg) : LTS (State W × List (Event W)) (Label W) where
  init p := Initial p.1 ∧ InitLog p.1 p.2
  step p a q := Step cfg p.1 a q.1 ∧ q.2 = p.2 ++ p.1.events a

/-- The log keeps no run from happening. -/
theorem run_logged {cfg : Cfg} {G : State W → Label W → Prop} {s t : State W}
    {as : List (Label W)} (h : ((system cfg).restrict G).Run s as t) (log : List (Event W)) :
    ∃ log', ((logged cfg).restrict fun p a => G p.1 a).Run (s, log) as (t, log') := by
  induction h generalizing log with
  | nil s => exact ⟨log, .nil _⟩
  | @cons s t u a as hs _ ih =>
    obtain ⟨log', hr⟩ := ih (log ++ s.events a)
    exact ⟨log', .cons (t := (t, log ++ s.events a)) ⟨⟨hs.1, rfl⟩, hs.2⟩ hr⟩

/-! ## The handles of a step -/

/-- The sources and the handles are the same, up to the round robin. -/
structure SameHandles (s t : State W) : Prop where
  info : ∀ src info', t.m_mapProcess src = some info' → ∃ info, s.m_mapProcess src = some info ∧
    info.m_connected = info'.m_connected ∧ info.m_vctProcess = info'.m_vctProcess
  handle : ∀ w, (t.workers w).m_pDbQuery = (s.workers w).m_pDbQuery

omit [DecidableEq W] in
/-- Nothing changed in the map and in the handles. -/
theorem SameHandles.of_map {s t : State W} (hmap : t.m_mapProcess = s.m_mapProcess)
    (hhandle : ∀ w, (t.workers w).m_pDbQuery = (s.workers w).m_pDbQuery) : SameHandles s t :=
  ⟨fun _ info' h => ⟨info', hmap ▸ h, rfl, rfl⟩, hhandle⟩

omit [DecidableEq W] in
/-- A state has its own handles. -/
theorem SameHandles.refl (s : State W) : SameHandles s s := .of_map rfl fun _ => rfl

omit [DecidableEq W] in
/-- The handles stay over two parts of a run. -/
theorem SameHandles.trans {s t u : State W} (h : SameHandles s t) (h' : SameHandles t u) :
    SameHandles s u := by
  refine ⟨?_, fun w => (h'.handle w).trans (h.handle w)⟩
  intro src info'' hu
  obtain ⟨info', ht, hc', hv'⟩ := h'.info src info'' hu
  obtain ⟨info, hs, hc, hv⟩ := h.info src info' ht
  exact ⟨info, hs, hc.trans hc', hv.trans hv'⟩

/-- A worker that keeps its handle. -/
theorem sameHandles_setWorker {s : State W} {w : W} {p : TDBProcess}
    (hp : p.m_pDbQuery = (s.workers w).m_pDbQuery) : SameHandles s (s.setWorker w p) := by
  refine .of_map rfl ?_
  intro v
  rcases eq_or_ne v w with rfl | hne
  · rw [State.setWorker_workers, Function.update_self, hp]
  · rw [State.setWorker_workers, Function.update_of_ne hne]

/-- A task other than the stages of `reconnect` that change handles. -/
theorem sameHandles_perform (cfg : Cfg) (own : Option W) (s : State W) (reply : Reply) {t : Task}
    (ht : ∀ src todo, t ≠ .reconnect src todo ∧ t ≠ .assign src todo) :
    SameHandles s (perform cfg own s reply t).1 := by
  cases t with
  | postMessage | errProcess | connect => exact .of_map rfl fun _ => rfl
  | process utm =>
    cases own with
    | none => exact .refl s
    | some w =>
      simp only [perform]
      split
      · next hput =>
        obtain ⟨-, rfl⟩ := tryPut_some hput
        exact sameHandles_setWorker rfl
      · exact .refl s
  | reconnect src todo => exact absurd rfl (ht src todo).1
  | assign src todo => exact absurd rfl (ht src todo).2

/-! ## The loops of `reconnect` -/

section
variable {s t : State W} {log : List (Event W)} {src : String} {w : W}

omit [DecidableEq W] in
/-- A handle that is kept stays fresh while the connection is not closed. -/
theorem Fresh.append {events : List (Event W)} (h : Fresh s log src w)
    (hhandle : (t.workers w).m_pDbQuery = (s.workers w).m_pDbQuery)
    (hevents : .disconnect src ∉ events) : Fresh t (log ++ events) src w := by
  obtain ⟨hd, hw, before, after, rfl, hafter⟩ := h
  refine ⟨hd, hhandle.trans hw, before, after ++ events, by simp, ?_⟩
  exact fun hmem => (List.mem_append.1 hmem).elim hafter hevents

omit [DecidableEq W] in
/-- The request loop does not disconnect. -/
theorem disconnect_notMem_requests (src' : String) (ws : List W) :
    ∀ (issued : Nat) (answers : List Granted),
      .disconnect src' ∉ requests src issued ws answers := by
  induction ws with
  | nil => exact fun _ _ => List.not_mem_nil
  | cons w ws ih =>
    intro issued answers
    unfold requests
    split
    · exact List.not_mem_nil
    · simpa using ih issued answers.tail
    · simpa using ih (issued + 1) answers.tail

/-- The release loop leaves the other workers alone. -/
theorem releaseAll_workers {v : W} (ws : List W) (hv : v ∉ ws) :
    ∀ (s : State W) (answers : List Bool),
      (releaseAll s ws answers).1.workers v = s.workers v := by
  induction ws with
  | nil => exact fun _ _ => rfl
  | cons w ws ih =>
    obtain ⟨hne, hv⟩ : v ≠ w ∧ v ∉ ws := by simpa using hv
    intro s answers
    rw [releaseAll]
    split
    · exact ih hv s answers
    · split
      · rfl
      · rw [ih hv, State.setWorker_workers, Function.update_of_ne hne]

/-- The request loop leaves the other workers alone. -/
theorem assignAll_workers {v : W} (ws : List W) (hv : v ∉ ws) :
    ∀ (s : State W) (answers : List Granted),
      (assignAll s ws answers).1.workers v = s.workers v := by
  induction ws with
  | nil => exact fun _ _ => rfl
  | cons w ws ih =>
    obtain ⟨hne, hv⟩ : v ≠ w ∧ v ∉ ws := by simpa using hv
    intro s answers
    rw [assignAll]
    split
    · rfl
    all_goals rw [ih hv, State.setWorker_workers, Function.update_of_ne hne]

/-- No `requestQueryConnection` for this many workers returns NULL before one throws. -/
def NoNull (workers : Nat) (answers : List Granted) : Prop :=
  .null ∉ (answers.take workers).takeWhile (· ≠ .thrown)

/-- Without a NULL the request loop keeps fresh handles fresh, and at its end all are. -/
theorem assignAll_fresh (ws : List W) :
    ∀ (s : State W) (log : List (Event W)) (answers : List Granted), NoNull ws.length answers →
      (∀ v, Fresh s log src v →
        Fresh (assignAll s ws answers).1 (log ++ requests src s.issued ws answers) src v) ∧
      ((assignAll s ws answers).2 = true → ∀ v ∈ ws,
        Fresh (assignAll s ws answers).1 (log ++ requests src s.issued ws answers) src v) := by
  induction ws with
  | nil =>
    intro s log answers _
    refine ⟨?_, fun _ v hv => absurd hv List.not_mem_nil⟩
    intro v hv
    rw [requests, List.append_nil]
    exact hv
  | cons w ws ih =>
    intro s log answers hnull
    have htail : answers.head?.getD .handle = .handle → NoNull ws.length answers.tail := by
      cases answers with
      | nil => exact fun _ => by simp [NoNull]
      | cons a answers =>
        intro ha
        obtain rfl : a = .handle := ha
        simpa [NoNull, List.takeWhile_cons] using hnull
    rw [assignAll, requests]
    cases hhead : answers.head?.getD .handle with
    | thrown =>
      refine ⟨?_, fun h => absurd h Bool.false_ne_true⟩
      intro v hv
      rwa [List.append_nil]
    | null =>
      cases answers with
      | nil => cases hhead
      | cons a answers =>
        obtain rfl : a = .null := hhead
        simp [NoNull] at hnull
    | handle =>
      -- the first worker has a fresh handle, and the rest of the loop keeps it so
      obtain ⟨hkeep, hall⟩ := ih ({ s with issued := s.issued + 1 }.setWorker w
        { s.workers w with m_pDbQuery := some s.issued })
        (log ++ [.request src w (some s.issued)]) answers.tail (htail hhead)
      rw [List.append_assoc, List.singleton_append] at hkeep hall
      have hfirst : Fresh ({ s with issued := s.issued + 1 }.setWorker w
          { s.workers w with m_pDbQuery := some s.issued })
          (log ++ [.request src w (some s.issued)]) src w := by
        refine ⟨s.issued, ?_, log, [], rfl, List.not_mem_nil⟩
        rw [State.setWorker_workers, Function.update_self]
      refine ⟨fun v hv => hkeep v ?_, ?_⟩
      · rcases eq_or_ne v w with rfl | hne
        · exact hfirst
        · refine hv.append ?_ (by simp)
          rw [State.setWorker_workers, Function.update_of_ne hne]
      · intro hdone v hv
        rcases List.mem_cons.1 hv with rfl | hv
        · exact hkeep v hfirst
        · exact hall hdone v hv

/-! ## The invariant -/

/-- The sources share no worker, and where the flag is set all handles are fresh. -/
structure Flagged (s : State W) (log : List (Event W)) : Prop where
  apart : ∀ src src' info info', s.m_mapProcess src = some info →
    s.m_mapProcess src' = some info' → ∀ w ∈ info.m_vctProcess, w ∈ info'.m_vctProcess → src = src'
  fresh : ∀ src info, s.m_mapProcess src = some info → info.m_connected = true →
    ∀ w ∈ info.m_vctProcess, Fresh s log src w

omit [DecidableEq W] in
/-- What the log says stays true while the handles stay. -/
theorem Flagged.same (h : Flagged s log) (hs : SameHandles s t) : Flagged t log where
  apart src src' info info' hm hm' w hw hw' := by
    obtain ⟨i, hi, -, hv⟩ := hs.info src info hm
    obtain ⟨i', hi', -, hv'⟩ := hs.info src' info' hm'
    exact h.apart src src' i i' hi hi' w (hv ▸ hw) (hv' ▸ hw')
  fresh src info hm hc w hw := by
    obtain ⟨i, hi, hconn, hv⟩ := hs.info src info hm
    have hfresh := h.fresh src i hi (hconn.trans hc) w (hv ▸ hw)
    obtain ⟨hd, hhandle, hlog⟩ := hfresh
    exact ⟨hd, (hs.handle w).trans hhandle, hlog⟩

omit [DecidableEq W] in
/-- The data and the workers of one source change; the others keep their handles, and only the
connection of this source is closed. -/
theorem Flagged.change {info : CDBProcInfo W} {events : List (Event W)} (h : Flagged s log)
    (info' : CDBProcInfo W) (hinfo : s.m_mapProcess src = some info)
    (hmap : t.m_mapProcess = Function.update s.m_mapProcess src (some info'))
    (hvct : info'.m_vctProcess = info.m_vctProcess)
    (hworkers : ∀ v ∉ info.m_vctProcess, t.workers v = s.workers v)
    (hevents : ∀ src' ≠ src, .disconnect src' ∉ events)
    (hfresh : info'.m_connected = true →
      ∀ w ∈ info.m_vctProcess, Fresh t (log ++ events) src w) :
    Flagged t (log ++ events) where
  apart src₁ src₂ info₁ info₂ hm₁ hm₂ := by
    have hold : ∀ {src₃ info₃}, t.m_mapProcess src₃ = some info₃ →
        ∃ info₀, s.m_mapProcess src₃ = some info₀ ∧ info₀.m_vctProcess = info₃.m_vctProcess := by
      intro src₃ info₃ hm
      rw [hmap] at hm
      rcases eq_or_ne src₃ src with rfl | hne
      · rw [Function.update_self, Option.some.injEq] at hm
        subst hm
        exact ⟨info, hinfo, hvct.symm⟩
      · rw [Function.update_of_ne hne] at hm
        exact ⟨info₃, hm, rfl⟩
    obtain ⟨i₁, hi₁, hv₁⟩ := hold hm₁
    obtain ⟨i₂, hi₂, hv₂⟩ := hold hm₂
    rw [← hv₁, ← hv₂]
    exact h.apart src₁ src₂ i₁ i₂ hi₁ hi₂
  fresh src₁ info₁ hm hc w hw := by
    rw [hmap] at hm
    rcases eq_or_ne src₁ src with rfl | hne
    · rw [Function.update_self, Option.some.injEq] at hm
      subst hm
      exact hfresh hc w (hvct ▸ hw)
    · rw [Function.update_of_ne hne] at hm
      have hout : w ∉ info.m_vctProcess := fun hmem =>
        hne (h.apart src₁ src info₁ info hm hinfo w hw hmem)
      exact (h.fresh src₁ info₁ hm hc w hw).append (by rw [hworkers w hout]) (hevents src₁ hne)

/-- The first stage of `reconnect` takes the flag away. -/
theorem Flagged.reconnectRelease (h : Flagged s log) (reply : Reply) (src : String)
    (todo : List CConnectionCfg) : Flagged (reconnectRelease s reply src todo).1
      (log ++ (Task.reconnect src todo).events s reply) := by
  have hevents : ∀ src' ≠ src, .disconnect src' ∉ (Task.reconnect src todo).events s reply := by
    intro src' hne
    simp only [Task.events]
    split
    · exact List.not_mem_nil
    · simpa using hne
  rcases reconnectRelease_cases s reply src todo with hr | ⟨info, s₁, hinfo, rfl, hr⟩
  · simpa [Task.events, hr] using h
  · rcases hr with ⟨-, hr⟩ | ⟨-, rest, hr⟩
    · rw [hr]
      exact h.change { info with m_countMsg := info.m_countMsg + 1, m_connected := false } hinfo rfl
        rfl (fun _ _ => rfl) hevents nofun
    · rw [hr]
      refine h.change { info with m_countMsg := info.m_countMsg + 1, m_connected := false } hinfo
        ?_ rfl ?_ hevents nofun
      · exact releaseAll_m_mapProcess ..
      · intro v hv
        rw [releaseAll_workers _ hv]
        rfl

/-- A NULL that `reconnect` gets is harmless only if a later request of the loop throws and the
source is not connected anyway. -/
def Task.Granting (s : State W) (reply : Reply) : Task → Prop
  | .assign src _ => ∀ info, s.m_mapProcess src = some info →
      (info.m_connected = true ∨
        ∀ j < info.m_vctProcess.length, reply.handles[j]?.getD .handle ≠ .thrown) →
      NoNull info.m_vctProcess.length reply.handles
  | .postMessage .. | .process _ | .errProcess .. | .reconnect .. | .connect .. => True

/-- The last stage of `reconnect` sets the flag when all handles are fresh. -/
theorem Flagged.reconnectAssign {reply : Reply} (h : Flagged s log) (src : String)
    (todo : List CConnectionCfg) (hgrant : (Task.assign src todo).Granting s reply) :
    Flagged (reconnectAssign s reply src todo).1
      (log ++ (Task.assign src todo).events s reply) := by
  cases hinfo : s.m_mapProcess src with
  | none => simpa [Dagw.reconnectAssign, Task.events, hinfo] using h
  | some info =>
    have hself : s.m_mapProcess = Function.update s.m_mapProcess src (some info) := by
      rw [← hinfo, Function.update_eq_self]
    have hevents : ∀ src' ≠ src, .disconnect src' ∉
        requests src s.issued info.m_vctProcess reply.handles :=
      fun src' _ => disconnect_notMem_requests src' _ _ _
    have hworkers : ∀ v ∉ info.m_vctProcess,
        (assignAll s info.m_vctProcess reply.handles).1.workers v = s.workers v :=
      fun v hv => assignAll_workers _ hv _ _
    have hmap := assignAll_m_mapProcess info.m_vctProcess s reply.handles
    simp only [Dagw.reconnectAssign, Task.events, hinfo]
    cases hdone : (assignAll s info.m_vctProcess reply.handles).2 with
    | true =>
      have hnull := hgrant info hinfo (.inr ((assignAll_done_iff _).1 hdone))
      refine h.change { info with m_connected := true } hinfo ?_ rfl hworkers hevents
        ?_
      · exact congrArg (Function.update · src _) hmap
      · intro _ w hw
        exact (assignAll_fresh _ s log _ hnull).2 hdone w hw
    | false =>
      refine h.change info hinfo (hmap.trans hself) rfl hworkers hevents ?_
      intro hc w hw
      have hnull := hgrant info hinfo (.inl hc)
      exact (assignAll_fresh _ s log _ hnull).1 w (h.fresh src info hinfo hc w hw)

/-- A task, on whichever thread. -/
theorem Flagged.perform {cfg : Cfg} {own : Option W} {reply : Reply} {task : Task}
    (h : Flagged s log) (hgrant : task.Granting s reply) :
    Flagged (perform cfg own s reply task).1 (log ++ task.events s reply) := by
  have hnone : (∀ src todo, task ≠ .reconnect src todo ∧ task ≠ .assign src todo) →
      task.events s reply = [] →
      Flagged (Dagw.perform cfg own s reply task).1 (log ++ task.events s reply) := by
    intro htask hevents
    rw [hevents, List.append_nil]
    exact h.same (sameHandles_perform cfg own s reply htask)
  cases task with
  | postMessage | process | errProcess | connect => exact hnone (fun _ _ => ⟨nofun, nofun⟩) rfl
  | reconnect src todo => exact h.reconnectRelease reply src todo
  | assign src todo => exact h.reconnectAssign src todo hgrant

omit [DecidableEq W] in
/-- The data of a source changes, but not its flag and its workers. -/
theorem sameHandles_setInfo {info info' : CDBProcInfo W} (hinfo : s.m_mapProcess src = some info)
    (hconn : info'.m_connected = info.m_connected)
    (hvct : info'.m_vctProcess = info.m_vctProcess) : SameHandles s (s.setInfo src info') := by
  refine ⟨?_, fun _ => rfl⟩
  intro src₁ info₁ hm
  rw [State.setInfo_m_mapProcess] at hm
  rcases eq_or_ne src₁ src with rfl | hne
  · rw [Function.update_self, Option.some.injEq] at hm
    subst hm
    exact ⟨info, hinfo, hconn.symm, hvct.symm⟩
  · rw [Function.update_of_ne hne] at hm
    exact ⟨info₁, hm, rfl, rfl⟩

/-- `HandleExecSQL` leaves the handles alone. -/
theorem sameHandles_handleExecSQL (cfg : Cfg) (s : State W) (sender : ServiceIdentifier)
    (utm : UserTransferMessage) : SameHandles s (handleExecSQL cfg s sender utm) := by
  unfold handleExecSQL
  split
  · exact .of_map rfl fun _ => rfl
  · next info hinfo =>
    have hset := sameHandles_setInfo hinfo (route_info info utm).2 (route_info info utm).1
    dsimp only
    split
    · exact hset.trans (.of_map rfl fun _ => rfl)
    · split
      · split
        · next hput =>
          obtain ⟨-, rfl⟩ := tryPut_some hput
          exact hset.trans (sameHandles_setWorker rfl)
        · exact hset.trans (.of_map rfl fun _ => rfl)
      · exact hset.trans (.of_map rfl fun _ => rfl)

/-- Up to `uninit`, and no NULL is taken for a handle. -/
def Granting (s : State W) (a : Label W) : Prop :=
  (∀ order, a ≠ .shutdown order) ∧
    ∀ own reply t, s.performs a = some (own, reply, t) → t.Granting s reply

omit [DecidableEq W] in
/-- Every `requestQueryConnection` gives a handle. -/
theorem Granting.of_handles {a : Label W} (ha : ∀ order, a ≠ .shutdown order)
    (h : ∀ own reply t, s.performs a = some (own, reply, t) → reply.handles = []) :
    Granting s a := by
  refine ⟨ha, ?_⟩
  intro own reply t ht
  have hnil := h own reply t ht
  cases t with
  | assign src todo =>
    intro info _ _
    simp [NoNull, hnil]
  | postMessage | process | errProcess | reconnect | connect => trivial

/-- What the log says is true in every state that is reached by granting steps. -/
theorem flagged_inductive (cfg : Cfg) :
    ((logged (W := W) cfg).restrict fun p a => Granting p.1 a).Inductive
      fun p => Flagged p.1 p.2 where
  init p h := by
    obtain ⟨hinit, hlog⟩ := h
    refine ⟨hinit.apart, ?_⟩
    intro src info hm _ w hw
    obtain ⟨hd, hhandle, -⟩ := hinit.handle w
    obtain ⟨before, after, hsplit⟩ := List.append_of_mem (hlog.requests src info hm w hw hd hhandle)
    refine ⟨hd, hhandle, before, after, hsplit, fun hmem => hlog.disconnects src ?_⟩
    rw [hsplit]
    exact List.mem_append_right _ (List.mem_cons_of_mem _ hmem)
  step p a q hstep h := by
    obtain ⟨s, log⟩ := p
    obtain ⟨t, log'⟩ := q
    obtain ⟨⟨hstep, hlog⟩, -, hgrant⟩ := hstep
    simp only at hstep hlog hgrant h ⊢
    have hsame : SameHandles s t → s.events a = [] → Flagged t log' := by
      intro hs hevents
      rw [hlog, hevents, List.append_nil]
      exact h.same hs
    cases hstep with
    | receive =>
      have hreceived : SameHandles s { s with received := s.received + 1 } :=
        .of_map rfl fun _ => rfl
      exact hsame (hreceived.trans (sameHandles_handleExecSQL cfg _ _ _)) rfl
    | @serve reply task l hs =>
      have hperf : s.performs (.serve reply) = some (none, reply, task) := by
        simp [State.performs, hs]
      have hevents : s.events (.serve reply) = task.events s reply := by
        simp [State.events, hperf]
      rw [hlog, hevents]
      exact (h.perform (hgrant none reply task hperf)).same (.of_map rfl fun _ => rfl)
    | @act w reply task l hw =>
      have hperf : s.performs (.act w reply) = some (some w, reply, task) := by
        simp [State.performs, hw]
      have hevents : s.events (.act w reply) = task.events s reply := by
        simp [State.events, hperf]
      rw [hlog, hevents]
      exact (h.perform (hgrant (some w) reply task hperf)).same (sameHandles_setWorker rfl)
    | take | exec | skip | quit => exact hsame (sameHandles_setWorker rfl) rfl
    | shutdown | release | join => exact hsame (.of_map rfl fun _ => rfl) rfl
    | @stop w todo =>
      have huninit : SameHandles s { s with service := .uninit todo } := .of_map rfl fun _ => rfl
      exact hsame (huninit.trans (sameHandles_setWorker rfl)) rfl
    | @wake w todo p _ hput =>
      obtain ⟨-, rfl⟩ := tryPut_some hput
      have huninit : SameHandles s { s with service := .uninit todo } := .of_map rfl fun _ => rfl
      exact hsame (huninit.trans (sameHandles_setWorker rfl)) rfl

/-- **A set flag means fresh handles.** In every state of every run up to `uninit` in which no
NULL is taken for a handle: if `m_connected` of a source is set, then each of its workers has a
handle, and it was requested from the source's connection after the connection was closed last. -/
theorem connected_handles {cfg : Cfg}
    (hs : ((logged cfg).restrict fun p a => Granting p.1 a).Reachable (s, log)) :
    ∀ src info, s.m_mapProcess src = some info → info.m_connected = true →
      ∀ w ∈ info.m_vctProcess, Fresh s log src w :=
  ((flagged_inductive cfg).reachable hs).fresh

end

end

/-! ## A NULL in `reconnect` -/

namespace NullHandle

open Sample
open LostConnection (request)
open QueuedBehindReconnect (cfg gone reply)

/-- The one request for a handle. -/
def log : List (Event Unit) := [.request "bill" () (some 0)]

/-- It is the request by which `init` got the handle of the worker. -/
theorem start_log : InitLog start log where
  requests src info hm w hw h hhandle := by
    rcases eq_or_ne src "bill" with rfl | hsrc
    · cases hhandle
      exact List.mem_singleton.2 rfl
    · simp [start, hsrc] at hm
  disconnects src hmem := by
    cases List.mem_singleton.1 hmem

/-- The service thread gets every handle that it requests. -/
theorem granting_serve (s : State Unit) : Granting s (.serve reply) := by
  refine .of_handles nofun ?_
  intro own r t h
  simp only [State.performs] at h
  split at h <;> cases h
  rfl

/-- So does the worker. -/
theorem granting_act (s : State Unit) : Granting s (.act () reply) := by
  refine .of_handles nofun ?_
  intro own r t h
  simp only [State.performs] at h
  split at h <;> cases h
  rfl

/-- A request finds the connection gone, and the worker counts the error. The next request makes
the service thread count a second one, release the handle and connect again. -/
theorem reconnecting : ∃ s as, ((system cfg).restrict Granting).Run start as s ∧
    s.service = .serving [.assign "bill" []] ∧
    s.m_mapProcess "bill" = some ⟨2, false, 2, [()]⟩ := by
  refine ⟨_, [.receive 7 request, .take (), .exec () gone, .act () reply, .act () reply,
    .act () reply, .receive 7 request, .serve reply, .serve reply],
    .cons ⟨.receive rfl rfl, .of_handles nofun nofun⟩
      (.cons ⟨.take (u := numbered 0) (q := []) rfl rfl rfl, .of_handles nofun nofun⟩
        (.cons ⟨.exec (u := numbered 0) rfl rfl nofun, .of_handles nofun nofun⟩
          (.cons ⟨.act (l := [.postMessage 7 { numbered 0 with
            messageId := .resExecSQL, res := 7, ret := -1 }]) rfl, granting_act _⟩
            (.cons ⟨.act (t := .reconnect "bill" cfg.m_vctConnection) rfl, granting_act _⟩
              (.cons ⟨.act (l := []) rfl, granting_act _⟩
                (.cons ⟨.receive rfl rfl, .of_handles nofun nofun⟩
                  (.cons ⟨.serve (t := .reconnect "bill" cfg.m_vctConnection) rfl,
                    granting_serve _⟩
                    (.cons ⟨.serve (t := .connect "bill" []) rfl, granting_serve _⟩
                      (.nil _))))))))), rfl, rfl⟩

/-- The connection has no query handle to give, and the source counts as connected all the same. -/
theorem not_connected_handles :
    ¬ ∀ (s : State Unit) (log : List (Event Unit)), (logged cfg).Reachable (s, log) →
      ∀ src info, s.m_mapProcess src = some info → info.m_connected = true →
        ∀ w ∈ info.m_vctProcess, Fresh s log src w := by
  intro hall
  obtain ⟨s, as, hrun, hserving, hmap⟩ := reconnecting
  obtain ⟨log', hlogged⟩ := run_logged hrun log
  let null : Reply := ⟨[], true, [.null]⟩
  have hstep : (logged cfg).step (s, log') (.serve null) (_, log' ++ s.events (.serve null)) :=
    ⟨.serve hserving, rfl⟩
  have hlast := hlogged.of_restrict.append (.cons hstep (.nil _))
  obtain ⟨h, hh, -⟩ := hall _ _ ⟨(start, log), _, ⟨start_initial, start_log⟩, hlast⟩ "bill"
    ⟨2, true, 2, [()]⟩ (by simp [null, perform, reconnectAssign, hmap, assignAll]) rfl ()
    (List.mem_singleton.2 rfl)
  simp [null, perform, reconnectAssign, hmap, assignAll, State.setInfo] at hh

/-- The theorem above when the reconnect gets a handle. -/
theorem connected_handles_again :
    ∃ (s : State Unit) (log' : List (Event Unit)),
      ((logged cfg).restrict fun p a => Granting p.1 a).Reachable (s, log') ∧
      s.m_mapProcess "bill" = some ⟨2, true, 2, [()]⟩ ∧ Fresh s log' "bill" () := by
  obtain ⟨s, as, hrun, hserving, hmap⟩ := reconnecting
  have hstep : ((system cfg).restrict Granting).step s (.serve reply) _ :=
    ⟨.serve hserving, granting_serve s⟩
  have hlast := hrun.append (.cons hstep (.nil _))
  obtain ⟨log', hlogged⟩ := run_logged hlast log
  have hs : ((logged cfg).restrict fun p a => Granting p.1 a).Reachable (_, log') :=
    ⟨(start, log), _, ⟨start_initial, start_log⟩, hlogged⟩
  have hmap' : ((perform cfg none s reply (.assign "bill" [])).1).m_mapProcess "bill" =
      some ⟨2, true, 2, [()]⟩ := by
    simp [perform, reconnectAssign, hmap, assignAll, reply]
  exact ⟨_, log', hs, hmap', connected_handles hs "bill" _ hmap' rfl () (List.mem_singleton.2 rfl)⟩

end NullHandle

end TelecomSuite.Dagw
