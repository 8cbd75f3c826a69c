import Mathlib.Logic.Function.Basic
import TelecomSuite.Lib.Transition
import TelecomSuite.Dagw.ExecSql

/-!
# The gateway: service thread, workers and reconnects

`TDBGWService` and its `TDBProcess` workers as one transition system. The service thread handles
one request at a time (`handleExecSQL`); a worker takes a message from its bounded queue, runs
`OnExecSQL` on it (`Dagw.ExecSql`) and then carries out the resulting actions one by one. A
`reconnect`, on whichever thread it runs, is three atomic steps: counting the error and, every
`DAGW_MAX_COUNT_MSG` errors, releasing and clearing the handles of the source's workers;
connecting; and requesting new handles. `uninit` releases a worker's handle and then stops the
worker. Any interleaving of these steps is a run of `system`.

Workers are addressed by the elements of a type `W`, the pointers `TDBProcess *` of the source.
Query handles are numbered in the order in which the database layer gives them out, and a handle
that was given back to its connection is remembered in `released`.
-/

namespace TelecomSuite.Dagw

open Transition

/-! ## Data -/

/-- `DAGW_PROCESS_QUEUE_LEN`. -/
def dagwProcessQueueLen : Nat := 512

/-- `DAGW_MAX_COUNT_MSG`. -/
def dagwMaxCountMsg : Nat := 2

/-- An entry of the connection list. The server, user, password, database and character set are
only handed to `connect`. -/
structure CConnectionCfg where
  m_SourceName : String
  m_ThreadCount : Nat
  deriving DecidableEq, Repr

/-- `CDAGWCfgData`, with the build and the error codes the program is compiled with. -/
structure Cfg where
  build : Build
  code : SxCode
  m_MaxRowCount : Nat
  m_vctConnection : List CConnectionCfg

/-- What a thread still has to do of an action. The three stages of `reconnect` carry the
configuration entries its loop has not looked at yet. -/
inductive Task
  | postMessage (dest : ServiceIdentifier) (utm : UserTransferMessage)
  | process (utm : UserTransferMessage)
  | errProcess (err : BaseException) (sourceName : String)
  | reconnect (sourceName : String) (todo : List CConnectionCfg)
  | connect (sourceName : String) (todo : List CConnectionCfg)
  | assign (sourceName : String) (todo : List CConnectionCfg)
  deriving DecidableEq, Repr

/-- Where `TDBProcess::run` is: between two messages, with a message that `tryGet` returned,
carrying out what `OnExecSQL` does, or at its end. -/
inductive Running
  | idle
  | got (utm : UserTransferMessage)
  | doing (todo : List Task)
  | ended
  deriving DecidableEq, Repr

/-- A query handle of the database layer. -/
abbrev Handle := Nat

/-- `TDBProcess`. -/
structure TDBProcess where
  m_queue : List UserTransferMessage
  m_pDbQuery : Option Handle
  m_rowCount : Nat
  m_bStop : Bool
  thread : Running
  deriving DecidableEq, Repr

/-- `CDBProcInfo`. -/
structure CDBProcInfo (W : Type) where
  m_currIndex : Nat
  m_connected : Bool
  m_countMsg : Nat
  m_vctProcess : List W

/-- A step of `uninit` at one worker: release its handle, then the three statements of `Stop`. -/
inductive Uninit (W : Type)
  | release (w : W)
  | stop (w : W)
  | wake (w : W)
  | join (w : W)
  deriving DecidableEq

/-- The service thread: waiting for a message when it has nothing to do, or in `uninit`. -/
inductive Service (W : Type)
  | serving (todo : List Task)
  | uninit (todo : List (Uninit W))
  deriving DecidableEq

/-- The gateway. `received` counts the requests that arrived. -/
structure State (W : Type) where
  m_mapProcess : String → Option (CDBProcInfo W)
  workers : W → TDBProcess
  service : Service W
  posted : List (ServiceIdentifier × UserTransferMessage)
  issued : Nat
  released : List Handle
  received : Nat

/-- The answer to one `requestQueryConnection`. -/
inductive Granted
  | handle
  | null
  | thrown
  deriving DecidableEq, Repr

/-- The answers of the database layer to a stage of `reconnect`: to each
`releaseQueryConnection` whether it returned (a missing answer stands for a return), whether
`connect` returned, and what each `requestQueryConnection` gave (a missing answer stands for a
handle). -/
structure Reply where
  releases : List Bool
  connects : Bool
  handles : List Granted
  deriving DecidableEq, Repr

section
variable {W : Type} [DecidableEq W]

/-! ## Routing of a request -/

/-- `toupper` of a `char`, which is signed, as an `int`. -/
def toupper (c : Char) : BitVec 32 :=
  if 'a' ≤ c ∧ c ≤ 'z' then .ofNat 32 (c.toNat - 32) else (BitVec.ofNat 8 c.toNat).signExtend 32

/-- The backward walk of `dbfindex` from position `i`: it stops at a blank, at a tab and at the
first character of the text. -/
def dbfWalk (src : List Char) : Nat → BitVec 32
  | 0 => 0
  | i + 1 =>
    match src[i + 1]? with
    | some c => if c = ' ' ∨ c = '\t' then 0 else toupper c + dbfWalk src i
    | none => 0

/-- `dbfindex`: the first of the three spellings of the extension that occurs, and the sum of the
upper-case characters from there back to the start of the token. -/
def dbfindex (src : List Char) : BitVec 32 :=
  match (strstr ".dbf".toList src).or
      ((strstr ".DBF".toList src).or (strstr ".Dbf".toList src)) with
  | none => 0
  | some pc => dbfWalk src (src.length - pc.length)

/-- The text after a leading number and its semicolon, if the text starts so. -/
def stripNumber (sql : List Char) : Option (List Char) :=
  match sql.dropWhile fun c => c = ' ' || c = '\t' with
  | [] => none
  | c :: cs =>
    if '0' ≤ c ∧ c ≤ '9' then ((c :: cs).dropWhile (· ≠ ';')).tail? else none

/-- `CDBProcInfo::GetProcess()`: round robin. -/
def CDBProcInfo.getProcess (info : CDBProcInfo W) : Option W × CDBProcInfo W :=
  if info.m_vctProcess.length ≠ 0 then
    (info.m_vctProcess[info.m_currIndex % info.m_vctProcess.length]?,
      { info with m_currIndex := (info.m_currIndex + 1) % 2 ^ 32 })
  else (none, info)

/-- `CDBProcInfo::GetProcess(idx)`. -/
def CDBProcInfo.getProcessAt (info : CDBProcInfo W) (idx : BitVec 32) : Option W :=
  if info.m_vctProcess.length ≠ 0 then info.m_vctProcess[idx.toNat % info.m_vctProcess.length]?
  else none

/-- The routing part of `HandleExecSQL`: the worker, the source's data and the message. -/
def route (info : CDBProcInfo W) (utm : UserTransferMessage) :
    Option W × CDBProcInfo W × UserTransferMessage :=
  let dbfidx := dbfindex utm.sql.toList
  if dbfidx = 0 then (info.getProcess.1, info.getProcess.2, utm)
  else
    (info.getProcessAt dbfidx, info,
      match stripNumber utm.sql.toList with
      | some ps => { utm with sql := String.ofList ps }
      | none => utm)

/-! ## Statements on the shared state -/

/-- `BoundedQueue::tryPut` on the worker's queue. -/
def TDBProcess.tryPut (p : TDBProcess) (utm : UserTransferMessage) : Option TDBProcess :=
  if p.m_queue.length < dagwProcessQueueLen then some { p with m_queue := p.m_queue ++ [utm] }
  else none

/-- `postMessage`. -/
def State.post (s : State W) (dest : ServiceIdentifier) (utm : UserTransferMessage) : State W :=
  { s with posted := s.posted ++ [(dest, utm)] }

/-- The state with another worker `w`. -/
def State.setWorker (s : State W) (w : W) (p : TDBProcess) : State W :=
  { s with workers := Function.update s.workers w p }

/-- The state with other data for the source. -/
def State.setInfo (s : State W) (src : String) (info : CDBProcInfo W) : State W :=
  { s with m_mapProcess := Function.update s.m_mapProcess src (some info) }

/-- A thread goes on with what is left to do. -/
def Running.resume : List Task → Running
  | [] => .idle
  | t :: todo => .doing (t :: todo)

/-- The state in which the thread of `w` is elsewhere. -/
def State.setThread (s : State W) (w : W) (t : Running) : State W :=
  s.setWorker w { s.workers w with thread := t }

section
variable (s : State W) (w : W) (p : TDBProcess) (src : String) (info : CDBProcInfo W)

/-- The workers after a change of one. -/
@[simp] theorem State.setWorker_workers :
    (s.setWorker w p).workers = Function.update s.workers w p := rfl

omit [DecidableEq W] in
/-- The map after a change of one source. -/
@[simp] theorem State.setInfo_m_mapProcess :
    (s.setInfo src info).m_mapProcess = Function.update s.m_mapProcess src (some info) := rfl

end

/-- `TDBGWService::HandleExecSQL`. The `reconnect` of a disconnected source is left to do. -/
def handleExecSQL (cfg : Cfg) (s : State W) (sender : ServiceIdentifier)
    (utm : UserTransferMessage) : State W :=
  match s.m_mapProcess utm.sourceName with
  | none => s.post sender (utm.respond (-1))
  | some info =>
    let r := route info utm
    let s := s.setInfo utm.sourceName r.2.1
    match r.1 with
    | none => s.post sender (r.2.2.respond (-1))
    | some w =>
      if info.m_connected then
        match (s.workers w).tryPut r.2.2 with
        | some p => s.setWorker w p
        | none => s.post sender (r.2.2.respond (-1))
      else
        { s.post sender (r.2.2.respond (-1)) with
          service := .serving [.reconnect utm.sourceName cfg.m_vctConnection] }

/-- The errors after which `TDBProcess::errProcess` calls `reconnect`. -/
def errProcess (err : BaseException) : Bool :=
  match err.code with
  | .dbError => !contains err.description "ORA-00942"
  | .notConnected | .errorConnecting | .queryConnectionTimeout | .errorPingingConnection => true
  | .errorQuerying => err.description.length ≠ 31
  | .other _ => false

/-- The release loop of `reconnect`: every handle the workers hold is given back and cleared, up
to a call that throws. The second component says whether the loop came to its end. -/
def releaseAll (s : State W) : List W → List Bool → State W × Bool
  | [], _ => (s, true)
  | w :: ws, answers =>
    match (s.workers w).m_pDbQuery with
    | none => releaseAll s ws answers
    | some h =>
      if answers.head? = some false then (s, false)
      else
        releaseAll ({ s with released := h :: s.released }.setWorker w
          { s.workers w with m_pDbQuery := none }) ws answers.tail

/-- The request loop of `reconnect`: a new handle, or NULL, for every worker, up to a call that
throws. -/
def assignAll (s : State W) : List W → List Granted → State W × Bool
  | [], _ => (s, true)
  | w :: ws, answers =>
    match answers.head?.getD .handle with
    | .thrown => (s, false)
    | .null => assignAll (s.setWorker w { s.workers w with m_pDbQuery := none }) ws answers.tail
    | .handle =>
      assignAll ({ s with issued := s.issued + 1 }.setWorker w
        { s.workers w with m_pDbQuery := some s.issued }) ws answers.tail

/-- The first stage of `TDBGWService::reconnect` at the next configuration entry of the source:
count the error, and release the handles every `DAGW_MAX_COUNT_MSG` errors. -/
def reconnectRelease (s : State W) (reply : Reply) (src : String) (todo : List CConnectionCfg) :
    State W × List Task :=
  match todo.dropWhile (·.m_SourceName ≠ src), s.m_mapProcess src with
  | [], _ | _, none => (s, [])
  | _ :: rest, some info =>
    let s := s.setInfo src { info with m_countMsg := info.m_countMsg + 1, m_connected := false }
    if (info.m_countMsg + 1) % dagwMaxCountMsg ≠ 0 then (s, [])
    else
      let r := releaseAll s info.m_vctProcess reply.releases
      (r.1, if r.2 then [.connect src rest] else [])

/-- The last stage of `reconnect`: request the handles and set `m_connected`; the loop over the
configuration entries goes on. -/
def reconnectAssign (s : State W) (reply : Reply) (src : String) (todo : List CConnectionCfg) :
    State W × List Task :=
  match s.m_mapProcess src with
  | none => (s, [])
  | some info =>
    let r := assignAll s info.m_vctProcess reply.handles
    if r.2 then (r.1.setInfo src { info with m_connected := true }, [.reconnect src todo])
    else (r.1, [])

/-- One step of a task on the thread of worker `own` or, without `own`, on the service thread: the
shared state after it, and what is left of the task. -/
def perform (cfg : Cfg) (own : Option W) (s : State W) (reply : Reply) : Task → State W × List Task
  | .postMessage dest utm => (s.post dest utm, [])
  | .process utm =>
    match own with
    | none => (s, [])
    | some w =>
      match (s.workers w).tryPut utm with
      | some p => (s.setWorker w p, [])
      | none => (s, [])
  | .errProcess err src =>
    (s, if errProcess err then [.reconnect src cfg.m_vctConnection] else [])
  | .reconnect src todo => reconnectRelease s reply src todo
  | .connect src todo => (s, if reply.connects then [.assign src todo] else [])
  | .assign src todo => reconnectAssign s reply src todo

/-! ## The transition system -/

/-- An action of `OnExecSQL` as something to do. -/
def Action.task : Action → Task
  | .postMessage dest utm => .postMessage dest utm
  | .errProcess err src => .errProcess err src
  | .process utm => .process utm

/-- The database layer behind a handle while one request is executed: its calls, the state of the
session, and the iterations allowed for the loops of `OnExecSQL`. -/
structure Db where
  σ : Type
  query : BaseQuery σ
  session : σ
  fuel : Nat

/-- `OnExecSQL` on a worker whose `m_rowCount` is `rc`: how it ends, and the variables then. -/
def Db.exec (db : Db) (cfg : Cfg) (rc : Nat) (utm : UserTransferMessage) :
    Except Fault Unit × Ctx db.σ :=
  onExecSQL cfg.build cfg.code cfg.m_MaxRowCount db.query db.fuel utm.req ⟨db.session, utm, rc, []⟩

/-- The thread after `OnExecSQL`: it has to carry out the actions, or an exception ends it. -/
def Running.after {σ : Type} (r : Except Fault Unit × Ctx σ) : Running :=
  match r.1 with
  | .ok _ => .resume (r.2.actions.map Action.task)
  | .error _ => .ended

/-- The steps of the gateway. -/
inductive Label (W : Type)
  | receive (sender : ServiceIdentifier) (utm : UserTransferMessage)
  | serve (reply : Reply)
  | take (w : W)
  | exec (w : W) (db : Db)
  | skip (w : W)
  | act (w : W) (reply : Reply)
  | quit (w : W)
  | shutdown (order : List W)
  | uninit

/-- The wake-up message of `Stop`, default-constructed. -/
def wakeUp : UserTransferMessage := ⟨.none, 0, 0, 0, "", "", 0, 0, [], [], 0⟩

/-- The statements of `uninit` for the workers in this order. -/
def uninitSteps (order : List W) : List (Uninit W) :=
  order.flatMap fun w => [.release w, .stop w, .wake w, .join w]

/-- One step of the gateway. -/
inductive Step (cfg : Cfg) : State W → Label W → State W → Prop
  | receive {s : State W} {sender : ServiceIdentifier} {utm : UserTransferMessage} :
      s.service = .serving [] → utm.messageId = .reqExecSQL →
      Step cfg s (.receive sender utm)
        (handleExecSQL cfg { s with received := s.received + 1 } sender
          { utm with serial := s.received })
  | serve {s : State W} {reply : Reply} {t : Task} {l : List Task} :
      s.service = .serving (t :: l) →
      Step cfg s (.serve reply)
        { (perform cfg none s reply t).1 with
          service := .serving ((perform cfg none s reply t).2 ++ l) }
  | take {s : State W} {w : W} {u : UserTransferMessage} {q : List UserTransferMessage} :
      (s.workers w).thread = .idle → (s.workers w).m_bStop = false →
      (s.workers w).m_queue = u :: q →
      Step cfg s (.take w) (s.setWorker w { s.workers w with m_queue := q, thread := .got u })
  | exec {s : State W} {w : W} {u : UserTransferMessage} {db : Db} :
      (s.workers w).thread = .got u → u.messageId = .reqExecSQL →
      (db.exec cfg (s.workers w).m_rowCount u).1 ≠ .error .hang →
      Step cfg s (.exec w db)
        (s.setWorker w { s.workers w with
          m_rowCount := (db.exec cfg (s.workers w).m_rowCount u).2.m_rowCount
          thread := .after (db.exec cfg (s.workers w).m_rowCount u) })
  | skip {s : State W} {w : W} {u : UserTransferMessage} :
      (s.workers w).thread = .got u → u.messageId ≠ .reqExecSQL →
      Step cfg s (.skip w) (s.setThread w .idle)
  | act {s : State W} {w : W} {reply : Reply} {t : Task} {l : List Task} :
      (s.workers w).thread = .doing (t :: l) →
      Step cfg s (.act w reply)
        ((perform cfg (some w) s reply t).1.setThread w
          (.resume ((perform cfg (some w) s reply t).2 ++ l)))
  | quit {s : State W} {w : W} :
      (s.workers w).thread = .idle → (s.workers w).m_bStop = true →
      Step cfg s (.quit w) (s.setThread w .ended)
  | shutdown {s : State W} {order : List W} :
      s.service = .serving [] →
      (∀ w, w ∈ order ↔ ∃ src info, s.m_mapProcess src = some info ∧ w ∈ info.m_vctProcess) →
      Step cfg s (.shutdown order) { s with service := .uninit (uninitSteps order) }
  | release {s : State W} {w : W} {todo : List (Uninit W)} :
      s.service = .uninit (.release w :: todo) →
      Step cfg s .uninit
        { s with service := .uninit todo
                 released := (s.workers w).m_pDbQuery.toList ++ s.released }
  | stop {s : State W} {w : W} {todo : List (Uninit W)} :
      s.service = .uninit (.stop w :: todo) →
      Step cfg s .uninit
        ({ s with service := .uninit todo }.setWorker w { s.workers w with m_bStop := true })
  | wake {s : State W} {w : W} {todo : List (Uninit W)} {p : TDBProcess} :
      s.service = .uninit (.wake w :: todo) → (s.workers w).tryPut wakeUp = some p →
      Step cfg s .uninit ({ s with service := .uninit todo }.setWorker w p)
  | join {s : State W} {w : W} {todo : List (Uninit W)} :
      s.service = .uninit (.join w :: todo) → (s.workers w).thread = .ended →
      Step cfg s .uninit { s with service := .uninit todo }

/-- The gateway after a successful `init`: every source is connected and has workers of its own,
the queues are empty, and every worker waits with a handle of its own. -/
structure Initial (s : State W) : Prop where
  service : s.service = .serving []
  posted : s.posted = []
  released : s.released = []
  received : s.received = 0
  queue : ∀ w, (s.workers w).m_queue = []
  thread : ∀ w, (s.workers w).thread = .idle
  running : ∀ w, (s.workers w).m_bStop = false
  handle : ∀ w, ∃ h, (s.workers w).m_pDbQuery = some h ∧ h < s.issued
  distinct : ∀ w w', (s.workers w).m_pDbQuery = (s.workers w').m_pDbQuery → w = w'
  connected : ∀ src info, s.m_mapProcess src = some info → info.m_connected = true
  counted : ∀ src info, s.m_mapProcess src = some info → info.m_countMsg = 0
  nodup : ∀ src info, s.m_mapProcess src = some info → info.m_vctProcess.Nodup
  apart : ∀ src src' info info', s.m_mapProcess src = some info →
    s.m_mapProcess src' = some info' → ∀ w ∈ info.m_vctProcess, w ∈ info'.m_vctProcess → src = src'

/-- The gateway as a transition system. -/
def system (cfg : Cfg) : LTS (State W) (Label W) where
  init := Initial
  step := Step cfg

end

/-! ## A gateway with one worker -/

namespace Sample

/-- The gateway after `init`: one worker with one handle. -/
def start : State Unit where
  m_mapProcess := Function.update (fun _ => none) "bill" (some ⟨0, true, 0, [()]⟩)
  workers _ := ⟨[], some 0, 0, false, .idle⟩
  service := .serving []
  posted := []
  issued := 1
  released := []
  received := 0

/-- The state is an initial one. -/
theorem start_initial : Initial start where
  service := rfl
  posted := rfl
  released := rfl
  received := rfl
  queue _ := rfl
  thread _ := rfl
  running _ := rfl
  handle _ := ⟨0, rfl, by decide⟩
  distinct _ _ _ := rfl
  connected src info h := by
    rcases eq_or_ne src "bill" with rfl | hsrc
    · cases h; rfl
    · simp [start, hsrc] at h
  counted src info h := by
    rcases eq_or_ne src "bill" with rfl | hsrc
    · cases h; rfl
    · simp [start, hsrc] at h
  nodup src info h := by
    rcases eq_or_ne src "bill" with rfl | hsrc
    · cases h; simp
    · simp [start, hsrc] at h
  apart src src' info info' h h' _ _ _ := by
    by_cases hsrc : src = "bill"
    · by_cases hsrc' : src' = "bill"
      · rw [hsrc, hsrc']
      · simp [start, hsrc'] at h'
    · simp [start, hsrc] at h

/-- The request as it is numbered on arrival. -/
def numbered (i : Nat) : UserTransferMessage := { LostConnection.request with serial := i }

end Sample

end TelecomSuite.Dagw
