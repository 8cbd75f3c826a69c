import TelecomSuite.Lib.Unwinding
import TelecomSuite.Dagw.Frame
import TelecomSuite.Dagw.Reconnect
import TelecomSuite.Dagw.Trace

/-!
# What a source sees of the gateway

The observer of a source (`observer`) sees the steps that concern it, among them the answers of the
database layer to its calls, and of a state the data of the source, its workers and its responses
(`State.view`). Query handles and arrival numbers are counted over the whole gateway, so the view
does not show them as they are: a handle appears as its place among the handles that the source was
given, which the run carries along (`granting`), and arrival numbers are left out.

What a request or a reconnect writes, it writes for one source (`Writes`). It follows that a worker
only ever holds requests of its own source (`Placed`), and that the steps which do not concern a
source leave its view as it was (`Step.view_unseen`).
-/

namespace TelecomSuite.Dagw

open Transition
open Relation (ReflTransGen)

/-! ## The view of a source -/

/-- The message without its arrival number. -/
def UserTransferMessage.unnumbered (u : UserTransferMessage) : UserTransferMessage :=
  u.renumber fun _ => 0

/-- The task without the number of its message. -/
def Task.unnumbered : Task → Task
  | .postMessage dest utm => .postMessage dest utm.unnumbered
  | .process utm => .process utm.unnumbered
  | .errProcess err src => .errProcess err src
  | .reconnect src todo => .reconnect src todo
  | .connect src todo => .connect src todo
  | .assign src todo => .assign src todo

/-- What the thread does, without the numbers of its messages. -/
def Running.unnumbered : Running → Running
  | .idle => .idle
  | .got utm => .got utm.unnumbered
  | .doing todo => .doing (todo.map Task.unnumbered)
  | .ended => .ended

/-- The worker, its handle given by its place in `names`. -/
def TDBProcess.view (names : List Handle) (p : TDBProcess) : TDBProcess where
  m_queue := p.m_queue.map UserTransferMessage.unnumbered
  m_pDbQuery := p.m_pDbQuery.map names.idxOf
  m_rowCount := p.m_rowCount
  m_bStop := p.m_bStop
  thread := p.thread.unnumbered

section
variable {W : Type}

/-- The worker that a step of `uninit` is about. -/
def Uninit.worker : Uninit W → W
  | .release w | .stop w | .wake w | .join w => w

/-- What the observer of a source sees of a state: the source's data with its connection flag and
error counter, its workers with their handles and queues, what the service thread has to do for it,
the responses to its requests, and how many handles it was given. -/
structure View (W : Type) where
  info : Option (CDBProcInfo W)
  workers : List TDBProcess
  service : Service W
  responses : List (ServiceIdentifier × UserTransferMessage)
  granted : Nat

variable [DecidableEq W]

/-- The part of the service thread's work that is for a source with these workers. -/
def Service.view (src : String) (ws : List W) : Service W → Service W
  | .serving todo => .serving ((todo.filter (·.sourceName = src)).map Task.unnumbered)
  | .uninit todo => .uninit (todo.filter (·.worker ∈ ws))

/-- The responses for the source, without their numbers. -/
def State.responsesOf (s : State W) (src : String) :
    List (ServiceIdentifier × UserTransferMessage) :=
  (s.posted.filter (·.2.sourceName = src)).map fun r => (r.1, r.2.unnumbered)

/-- What the source sees of the state. -/
def State.view (s : State W) (src : String) (names : List Handle) : View W where
  info := s.m_mapProcess src
  workers := (s.workersOf src).map fun w => (s.workers w).view names
  service := s.service.view src (s.workersOf src)
  responses := s.responsesOf src
  granted := names.length

/-! ## The steps of a source -/

/-- The steps that concern a source: the requests addressed to it, what the service thread does for
it, the steps of its workers, and the end of the gateway. -/
def State.concerns (s : State W) (src : String) : Label W → Bool
  | .receive _ utm => utm.sourceName = src
  | .serve _ =>
    match s.service with
    | .serving (t :: _) => t.sourceName = src
    | .serving [] | .uninit _ => false
  | .take w | .exec w _ | .skip w | .act w _ | .quit w => w ∈ s.workersOf src
  | .shutdown _ => true
  | .uninit =>
    match s.service with
    | .uninit (u :: _) => u.worker ∈ s.workersOf src
    | .uninit [] | .serving _ => false

/-- A step as the observer of a source with these workers sees it. -/
def Label.seen (ws : List W) : Label W → Label W
  | .receive sender utm => .receive sender utm.unnumbered
  | .shutdown order => .shutdown (order.filter (· ∈ ws))
  | a => a

/-- The observer of a source. -/
def observer (src : String) : Observer (State W × List Handle) (Label W) (Label W) (View W) where
  event p a := if p.1.concerns src a then some (a.seen (p.1.workersOf src)) else none
  view p := p.1.view src p.2

/-- The handles that were given out between two states are added. -/
def extend (names : List Handle) (s t : State W) : List Handle :=
  names ++ List.range' s.issued (t.issued - s.issued)

/-- The handles of a source after a step. -/
def grant (src : String) (names : List Handle) (s : State W) (a : Label W) (t : State W) :
    List Handle :=
  if s.concerns src a then extend names s t else names

/-- The gateway with the handles that the source was given so far. -/
def granting (cfg : Cfg) (src : String) : LTS (State W × List Handle) (Label W) :=
  (system cfg).ghost
    (fun s => (s.workersOf src).filterMap fun w => (s.workers w).m_pDbQuery) (grant src)

/-! ## What a worker holds -/

/-- The message and the tasks of a thread are for sources that satisfy `P`. -/
def Running.Serves (P : String → Prop) : Running → Prop
  | .idle | .ended => True
  | .got utm => utm.messageId = .reqExecSQL → P utm.sourceName
  | .doing todo => ∀ t ∈ todo, P t.sourceName

/-- The requests and the tasks of a worker are for sources that satisfy `P`. -/
structure TDBProcess.Serves (P : String → Prop) (p : TDBProcess) : Prop where
  queue : ∀ u ∈ p.m_queue, u.messageId = .reqExecSQL → P u.sourceName
  thread : p.thread.Serves P

/-- Every worker holds requests and tasks of its own source, and no worker has two sources. -/
structure Placed (s : State W) : Prop where
  serves : ∀ w, (s.workers w).Serves fun x => w ∈ s.workersOf x
  apart : ∀ w x y, w ∈ s.workersOf x → w ∈ s.workersOf y → x = y

section
variable {P : String → Prop} {src : String} {s t : State W}

/-- A thread that goes on serves the sources of its tasks. -/
theorem Running.serves_resume {todo : List Task} (h : ∀ t ∈ todo, P t.sourceName) :
    (Running.resume todo).Serves P := by
  cases todo with
  | nil => trivial
  | cons => exact h

/-- A request of a source that the worker serves may go into its queue. -/
theorem tryPut_serves {p p' : TDBProcess} {u : UserTransferMessage} (h : p.Serves P)
    (hput : p.tryPut u = some p') (hu : u.messageId = .reqExecSQL → P u.sourceName) :
    p'.Serves P := by
  obtain ⟨-, rfl⟩ := tryPut_some hput
  refine ⟨?_, h.thread⟩
  intro v hv hid
  rcases List.mem_append.1 hv with hv | hv
  · exact h.queue v hv hid
  · rw [List.mem_singleton] at hv
    subst hv
    exact hu hid

/-- What `OnExecSQL` leaves to do is for the source of the request. -/
theorem after_serves (db : Db) (cfg : Cfg) (rc : Nat) {u : UserTransferMessage}
    (hu : P u.sourceName) : (Running.after (db.exec cfg rc u)).Serves P := by
  obtain ⟨acts, hacts, hh⟩ := onExecSQL_handled cfg.build cfg.code cfg.m_MaxRowCount db.query
    db.fuel u.req ⟨db.session, u, rc, []⟩
  rw [List.nil_append] at hacts
  change (db.exec cfg rc u).2.actions = acts at hacts
  have hsource : ∀ a ∈ acts, P a.task.sourceName := by
    generalize attemptResult cfg.build cfg.code cfg.m_MaxRowCount db.query db.fuel u.req _ = r at hh
    generalize (onExecSQL _ _ _ _ _ _ _).1 = out at hh
    cases hh with
    | escaped | running => simp
    | rejected h | completed h | ignored _ _ _ h =>
      simpa [Action.task, Task.sourceName, h.same.sourceName] using hu
    | failed _ h => simpa [Action.task, Task.sourceName, h.same.sourceName] using hu
    | retried _ _ _ h => simpa [Action.task, Task.sourceName, h.sourceName] using hu
  unfold Running.after
  split
  · refine Running.serves_resume ?_
    intro t ht
    obtain ⟨a, ha, rfl⟩ := List.mem_map.1 ht
    exact hsource a (hacts ▸ ha)
  · trivial

omit [DecidableEq W] in
/-- Nothing has changed in the workers and in the map. -/
theorem Placed.of_eq (h : Placed s) (hworkers : t.workers = s.workers)
    (hof : t.workersOf = s.workersOf) : Placed t := by
  refine ⟨?_, ?_⟩
  · rw [hworkers, hof]
    exact h.serves
  · rw [hof]
    exact h.apart

/-- One worker has changed, and still serves its own sources. -/
theorem Placed.update (h : Placed s) {w : W} {p : TDBProcess}
    (hworkers : t.workers = Function.update s.workers w p) (hof : t.workersOf = s.workersOf)
    (hp : p.Serves fun x => w ∈ s.workersOf x) : Placed t := by
  refine ⟨?_, hof ▸ h.apart⟩
  intro v
  rw [hworkers, hof]
  rcases eq_or_ne v w with rfl | hne
  · rw [Function.update_self]
    exact hp
  · rw [Function.update_of_ne hne]
    exact h.serves v

/-- Writes of a source leave all requests with its workers. -/
theorem Placed.writes (h : Placed s) (hw : ReflTransGen (Writes src) s t) : Placed t := by
  induction hw with
  | refl => exact h
  | tail _ hw ih =>
    cases hw with
    | arrive | post => exact ih.of_eq rfl rfl
    | info hinfo hvct => exact ih.of_eq rfl (Writes.info hinfo hvct).workersOf
    | queue hmem hput hu =>
      exact ih.update rfl rfl (tryPut_serves (ih.serves _) hput fun _ => hu ▸ hmem)
    | clear | grant => exact ih.update rfl rfl ⟨(ih.serves _).queue, (ih.serves _).thread⟩

omit [DecidableEq W] in
/-- The task that a worker carries out is for its source. -/
theorem Placed.task (h : Placed s) {w : W} {t : Task} {l : List Task}
    (hthread : (s.workers w).thread = .doing (t :: l)) : w ∈ s.workersOf t.sourceName := by
  have hserves := (h.serves w).thread
  rw [hthread] at hserves
  exact hserves t (.head _)

/-- A task on a worker's thread. -/
theorem writes_act (cfg : Cfg) (h : Placed s) {w : W} {t : Task} {l : List Task}
    (hthread : (s.workers w).thread = .doing (t :: l)) (reply : Reply) :
    ReflTransGen (Writes t.sourceName) s (perform cfg (some w) s reply t).1 := by
  refine writes_perform cfg s reply ?_
  intro v hv
  cases hv
  exact h.task hthread

/-- A task on the service thread. -/
theorem writes_serve (cfg : Cfg) (s : State W) (reply : Reply) (t : Task) :
    ReflTransGen (Writes t.sourceName) s (perform cfg none s reply t).1 :=
  writes_perform cfg s reply fun _ hv => nomatch hv

/-- A step moves no worker to another source. -/
theorem Step.workersOf {cfg : Cfg} {a : Label W} (h : Placed s) (hstep : Step cfg s a t) :
    t.workersOf = s.workersOf := by
  cases hstep with
  | @receive sender utm =>
    obtain ⟨t, hw, ht | ht⟩ := writes_receive cfg s sender utm
    all_goals
      rw [ht]
      exact (rfl : _ = t.workersOf).trans (writes_workersOf hw)
  | @serve reply task =>
    have hof := writes_workersOf (writes_serve cfg s reply task)
    exact hof
  | @act w reply task _ hthread =>
    have hof := writes_workersOf (writes_act cfg h hthread reply)
    exact hof
  | take | exec | skip | quit | shutdown | release | stop | wake | join => rfl

omit [DecidableEq W] in
/-- All requests are in their places at first, as there are none. -/
theorem placed_init (h : Initial s) : Placed s := by
  refine ⟨fun w => ⟨?_, ?_⟩, ?_⟩
  · simp [h.queue w]
  · rw [h.thread w]
    trivial
  · intro w x y hx hy
    unfold State.workersOf at hx hy
    split at hx
    · next info hinfo =>
      split at hy
      · next info' hinfo' => exact h.apart x y info info' hinfo hinfo' w hx hy
      · cases hy
    · cases hx

/-- Every step leaves them with workers of their source. -/
theorem Step.placed {cfg : Cfg} {a : Label W} (h : Placed s) (hstep : Step cfg s a t) :
    Placed t := by
  have hof := hstep.workersOf h
  cases hstep with
  | @receive sender utm =>
    obtain ⟨t, hw, ht | ht⟩ := writes_receive cfg s sender utm
    all_goals
      rw [ht]
      exact (h.writes hw).of_eq rfl rfl
  | @serve reply task => exact (h.writes (writes_serve cfg s reply task)).of_eq rfl rfl
  | @take w u q _ _ hq =>
    refine h.update rfl hof ⟨fun v hv => (h.serves w).queue v ?_, ?_⟩
    · rw [hq]
      exact .tail _ hv
    · intro hid
      refine (h.serves w).queue u ?_ hid
      rw [hq]
      exact .head _
  | @exec w u db hthread hid =>
    refine h.update rfl hof ⟨(h.serves w).queue, after_serves db cfg _ ?_⟩
    have hserves := (h.serves w).thread
    rw [hthread] at hserves
    exact hserves hid
  | @skip w | @quit w => exact h.update rfl hof ⟨(h.serves w).queue, trivial⟩
  | @act w reply task l hthread =>
    have hw := h.writes (writes_act cfg h hthread reply)
    refine hw.update rfl rfl ⟨(hw.serves w).queue, ?_⟩
    rw [writes_workersOf (writes_act cfg h hthread reply)]
    refine Running.serves_resume ?_
    intro t' ht'
    rcases List.mem_append.1 ht' with ht' | ht'
    · rw [perform_sourceName cfg _ s reply task t' ht']
      exact h.task hthread
    · have hserves := (h.serves w).thread
      rw [hthread] at hserves
      exact hserves t' (.tail _ ht')
  | shutdown | release | join => exact h.of_eq rfl rfl
  | @stop w => exact h.update rfl hof ⟨(h.serves w).queue, (h.serves w).thread⟩
  | @wake w todo p hservice hput =>
    exact h.update rfl hof (tryPut_serves (h.serves w) hput fun hid => nomatch hid)

end

/-! ## The handles of a source -/

/-- Handles are numbered on, and a worker has the handle it had or one that was given out since. -/
structure Grants (s t : State W) : Prop where
  issued : s.issued ≤ t.issued
  handle : ∀ w h, (t.workers w).m_pDbQuery = some h →
    (s.workers w).m_pDbQuery = some h ∨ s.issued ≤ h ∧ h < t.issued

/-- `names` are handles that were given out, and those of the source's workers are among them. -/
structure Named (src : String) (s : State W) (names : List Handle) : Prop where
  lt : ∀ h ∈ names, h < s.issued
  mem : ∀ w ∈ s.workersOf src, ∀ h, (s.workers w).m_pDbQuery = some h → h ∈ names

section
variable {src : String} {s t u : State W} {names : List Handle}

omit [DecidableEq W] in
/-- Nothing has been issued. -/
theorem Grants.of_eq (hissued : t.issued = s.issued)
    (hhandle : ∀ w, (t.workers w).m_pDbQuery = (s.workers w).m_pDbQuery) : Grants s t :=
  ⟨hissued.ge, fun w _ h => .inl (hhandle w ▸ h)⟩

omit [DecidableEq W] in
/-- `Grants` over two parts of a run. -/
theorem Grants.trans (h : Grants s t) (h' : Grants t u) : Grants s u := by
  refine ⟨h.issued.trans h'.issued, ?_⟩
  intro w k hk
  rcases h'.handle w k hk with hk | ⟨hle, hlt⟩
  · rcases h.handle w k hk with hk | ⟨hle, hlt⟩
    · exact .inl hk
    · exact .inr ⟨hle, hlt.trans_le h'.issued⟩
  · exact .inr ⟨h.issued.trans hle, hlt⟩

/-- A worker is changed, its handle at most to one that is given out. -/
theorem Grants.update {w : W} {p : TDBProcess} (hissued : s.issued ≤ t.issued)
    (hworkers : t.workers = Function.update s.workers w p)
    (hp : ∀ h, p.m_pDbQuery = some h →
      (s.workers w).m_pDbQuery = some h ∨ s.issued ≤ h ∧ h < t.issued) : Grants s t := by
  refine ⟨hissued, ?_⟩
  intro v k hk
  rw [hworkers] at hk
  rcases eq_or_ne v w with rfl | hne
  · rw [Function.update_self] at hk
    exact hp k hk
  · rw [Function.update_of_ne hne] at hk
    exact .inl hk

/-- The writes of a source give handles that are new. -/
theorem grants_writes (hw : ReflTransGen (Writes src) s t) : Grants s t := by
  induction hw with
  | refl => exact .of_eq rfl fun _ => rfl
  | @tail t _ _ hw ih =>
    refine ih.trans ?_
    cases hw with
    | arrive | post | info => exact .of_eq rfl fun _ => rfl
    | queue _ hput =>
      obtain ⟨-, rfl⟩ := tryPut_some hput
      exact .update le_rfl rfl fun _ h => .inl h
    | clear => exact .update le_rfl rfl fun _ h => nomatch h
    | grant => exact .update (Nat.le_succ _) rfl fun k h =>
        Option.some.inj h ▸ .inr ⟨le_rfl, Nat.lt_succ_self _⟩

/-- So does every step. -/
theorem Step.grants {cfg : Cfg} {a : Label W} (h : Placed s) (hstep : Step cfg s a t) :
    Grants s t := by
  cases hstep with
  | @receive sender utm =>
    obtain ⟨t, hw, ht | ht⟩ := writes_receive cfg s sender utm
    all_goals
      rw [ht]
      exact (grants_writes hw).trans (.of_eq rfl fun _ => rfl)
  | @serve reply task =>
    exact (grants_writes (writes_serve cfg s reply task)).trans (.of_eq rfl fun _ => rfl)
  | @act w reply task l hthread =>
    exact (grants_writes (writes_act cfg h hthread reply)).trans
      (.update le_rfl rfl fun _ h => .inl h)
  | take | exec | skip | quit | stop => exact .update le_rfl rfl fun _ h => .inl h
  | shutdown | release | join => exact .of_eq rfl fun _ => rfl
  | @wake w todo p hservice hput =>
    obtain ⟨-, rfl⟩ := tryPut_some hput
    exact .update le_rfl rfl fun _ h => .inl h

omit [DecidableEq W] in
/-- In a step of the source, the handles that are given out are added. -/
theorem Named.extend (h : Named src s names) (hg : Grants s t)
    (hof : t.workersOf = s.workersOf) : Named src t (extend names s t) := by
  refine ⟨?_, ?_⟩
  · intro k hk
    rcases List.mem_append.1 hk with hk | hk
    · exact (h.lt k hk).trans_le hg.issued
    · rw [List.mem_range'_1] at hk
      exact hk.2.trans_eq (Nat.add_sub_of_le hg.issued)
  · intro w hw k hk
    rw [hof] at hw
    refine List.mem_append.2 ?_
    rcases hg.handle w k hk with hk | ⟨hle, hlt⟩
    · exact .inl (h.mem w hw k hk)
    · refine .inr (List.mem_range'_1.2 ⟨hle, ?_⟩)
      exact hlt.trans_eq (Nat.add_sub_of_le hg.issued).symm

end

/-! ## Steps of other sources -/

/-- The source has the same data, the same workers and the same responses in two states, with
handles seen by their places in `n₁` and `n₂`. -/
structure Alike (src : String) (n₁ n₂ : List Handle) (s₁ s₂ : State W) : Prop where
  info : s₁.m_mapProcess src = s₂.m_mapProcess src
  workers : ∀ w ∈ s₁.workersOf src, (s₁.workers w).view n₁ = (s₂.workers w).view n₂
  responses : s₁.responsesOf src = s₂.responsesOf src
  granted : n₁.length = n₂.length

section
variable {src : String} {n₁ n₂ names : List Handle} {s s₁ s₂ t : State W}

omit [DecidableEq W] in
/-- The source has the same workers in both runs. -/
theorem Alike.workersOf (h : Alike src n₁ n₂ s₁ s₂) : s₁.workersOf src = s₂.workersOf src := by
  rw [State.workersOf, State.workersOf, h.info]

/-- The views are the same if the runs look alike and the service thread is at the same place. -/
theorem view_eq_iff : s₁.view src n₁ = s₂.view src n₂ ↔ Alike src n₁ n₂ s₁ s₂ ∧
    s₁.service.view src (s₁.workersOf src) = s₂.service.view src (s₂.workersOf src) := by
  constructor
  · intro h
    have hinfo : s₁.m_mapProcess src = s₂.m_mapProcess src := congrArg View.info h
    have hof : s₁.workersOf src = s₂.workersOf src := by
      rw [State.workersOf, State.workersOf, hinfo]
    have hworkers := congrArg View.workers h
    simp only [State.view, ← hof, List.map_inj_left] at hworkers
    exact ⟨⟨hinfo, hworkers, congrArg View.responses h, congrArg View.granted h⟩,
      congrArg View.service h⟩
  · rintro ⟨h, hservice⟩
    simp only [State.view, View.mk.injEq]
    refine ⟨h.info, ?_, hservice, h.responses, h.granted⟩
    rw [← h.workersOf, List.map_inj_left]
    exact h.workers

omit [DecidableEq W] in
/-- Nothing of the source has changed. -/
theorem Alike.of_eq (hinfo : t.m_mapProcess src = s.m_mapProcess src)
    (hworkers : ∀ w ∈ s.workersOf src, t.workers w = s.workers w)
    (hposted : t.posted = s.posted) : Alike src names names s t := by
  refine ⟨hinfo.symm, ?_, ?_, rfl⟩
  · intro w hw
    rw [hworkers w hw]
  · rw [State.responsesOf, State.responsesOf, hposted]

omit [DecidableEq W] in
/-- The runs stay alike over two parts. -/
theorem Alike.trans {n₃ : List Handle} {s₃ : State W} (h : Alike src n₁ n₂ s₁ s₂)
    (h' : Alike src n₂ n₃ s₂ s₃) : Alike src n₁ n₃ s₁ s₃ := by
  refine ⟨h.info.trans h'.info, fun w hw => (h.workers w hw).trans (h'.workers w ?_),
    h.responses.trans h'.responses, h.granted.trans h'.granted⟩
  rwa [← h.workersOf]

/-- A worker of another source is changed. -/
theorem Alike.update {w : W} {p : TDBProcess} (hw : w ∉ s.workersOf src)
    (hinfo : t.m_mapProcess src = s.m_mapProcess src)
    (hworkers : t.workers = Function.update s.workers w p)
    (hposted : t.posted = s.posted) : Alike src names names s t := by
  refine .of_eq hinfo ?_ hposted
  intro v hv
  rw [hworkers, Function.update_of_ne]
  rintro rfl
  exact hw hv

/-- What is written for another source does not show. -/
theorem alike_writes {x : String} (h : Placed s) (hne : x ≠ src)
    (hw : ReflTransGen (Writes x) s t) : Alike src names names s t := by
  induction hw with
  | refl => exact .of_eq rfl (fun _ _ => rfl) rfl
  | @tail t _ hws hw ih =>
    have hother : ∀ w ∈ t.workersOf x, w ∉ t.workersOf src :=
      fun w hx hsrc => hne ((h.writes hws).apart w x src hx hsrc)
    refine ih.trans ?_
    cases hw with
    | arrive => exact .of_eq rfl (fun _ _ => rfl) rfl
    | @post dest utm hu =>
      refine ⟨rfl, fun _ _ => rfl, ?_, rfl⟩
      simp [State.responsesOf, State.post, List.filter_append, hu, hne]
    | info => exact .of_eq (Function.update_of_ne hne.symm _ _) (fun _ _ => rfl) rfl
    | queue hmem => exact .update (hother _ hmem) rfl rfl rfl
    | clear hmem | grant hmem => exact .update (hother _ hmem) rfl rfl rfl

omit [DecidableEq W] in
/-- In a step of another source, no handle is given to the source. -/
theorem Named.alike (h : Named src s names) (hg : Grants s t) (ha : Alike src names names s t) :
    Named src t names := by
  refine ⟨fun k hk => (h.lt k hk).trans_le hg.issued, ?_⟩
  intro w hw k hk
  rw [← ha.workersOf] at hw
  have hview : ((s.workers w).m_pDbQuery).map names.idxOf = some (names.idxOf k) := by
    rw [show ((s.workers w).m_pDbQuery).map names.idxOf = ((t.workers w).m_pDbQuery).map names.idxOf
      from congrArg TDBProcess.m_pDbQuery (ha.workers w hw), hk, Option.map_some]
  obtain ⟨k', hk', heq⟩ := Option.map_eq_some_iff.1 hview
  rw [← List.idxOf_lt_length_iff, ← heq, List.idxOf_lt_length_iff]
  exact h.mem w hw k' hk'

/-- A task of another source leaves nothing to do for this one. -/
theorem filter_left (cfg : Cfg) (own : Option W) (s : State W) (reply : Reply) {t : Task}
    (ht : t.sourceName ≠ src) (l : List Task) :
    ((perform cfg own s reply t).2 ++ l).filter (·.sourceName = src) =
      (t :: l).filter (·.sourceName = src) := by
  have hleft : (perform cfg own s reply t).2.filter (·.sourceName = src) = [] := by
    refine List.filter_eq_nil_iff.2 ?_
    intro t' ht'
    simpa [perform_sourceName cfg own s reply t t' ht'] using ht
  rw [List.filter_append, hleft, List.nil_append, List.filter_cons_of_neg (by simpa using ht)]

/-- The end of another source's worker does not show. -/
theorem service_uninit {u : Uninit W} {todo : List (Uninit W)} {ws : List W}
    (hu : u.worker ∉ ws) : (Service.uninit (u :: todo)).view src ws =
      (Service.uninit todo).view src ws := by
  rw [Service.view, Service.view, List.filter_cons_of_neg (by simpa using hu)]

/-- **A step that does not concern the source does not show.** -/
theorem Step.view_unseen {cfg : Cfg} {a : Label W} (h : Placed s) (hstep : Step cfg s a t)
    (ha : s.concerns src a = false) : s.view src names = t.view src names := by
  refine view_eq_iff.2 ?_
  cases hstep with
  | @receive sender utm hservice =>
    have hne : utm.sourceName ≠ src := by simpa [State.concerns] using ha
    obtain ⟨t, hw, ht⟩ := writes_receive cfg s sender utm
    have halike : Alike src names names s t := alike_writes h hne hw
    have hserving : t.service = .serving [] := (writes_service hw).trans hservice
    rcases ht with ht | ht
    all_goals rw [ht]
    · exact ⟨halike, by rw [hservice, hserving]; rfl⟩
    · refine ⟨halike.trans (.of_eq rfl (fun _ _ => rfl) rfl), ?_⟩
      simp [hservice, Service.view, Task.sourceName, hne]
  | @serve reply task l hservice =>
    have hne : task.sourceName ≠ src := by simpa [State.concerns, hservice] using ha
    have halike : Alike src names names s _ := alike_writes h hne (writes_serve cfg s reply task)
    refine ⟨halike.trans (.of_eq rfl (fun _ _ => rfl) rfl), ?_⟩
    rw [hservice, Service.view, Service.view, filter_left cfg none s reply hne]
  | @take w | @exec w | @skip w | @quit w =>
    have hw : w ∉ s.workersOf src := by simpa [State.concerns] using ha
    exact ⟨.update hw rfl rfl rfl, rfl⟩
  | @act w reply task l hthread =>
    have hw : w ∉ s.workersOf src := by simpa [State.concerns] using ha
    have hne : task.sourceName ≠ src := fun hsrc => hw (hsrc ▸ h.task hthread)
    have hwrites := writes_act cfg h hthread reply
    have halike : Alike src names names s _ := alike_writes h hne hwrites
    refine ⟨halike.trans (.update (halike.workersOf ▸ hw) rfl rfl rfl), ?_⟩
    have hservice := writes_service hwrites
    exact congrArg₂ (Service.view src) halike.workersOf hservice.symm
  | shutdown => cases ha
  | @release w _ hservice | @join w _ hservice =>
    have hw : w ∉ s.workersOf src := by
      simp only [State.concerns, hservice] at ha
      exact of_decide_eq_false ha
    refine ⟨.of_eq rfl (fun _ _ => rfl) rfl, ?_⟩
    rw [hservice, service_uninit hw]
    rfl
  | @stop w _ hservice | @wake w _ _ hservice =>
    have hw : w ∉ s.workersOf src := by
      simp only [State.concerns, hservice] at ha
      exact of_decide_eq_false ha
    refine ⟨.update hw rfl rfl rfl, ?_⟩
    rw [hservice, service_uninit hw]
    rfl

end

end

end TelecomSuite.Dagw
