import TelecomSuite.Lib.Accounting
import TelecomSuite.Dagw.Service

/-!
# Flow requests in tag 2.1.0

Tag 2.1.0 of the gateway also serves an HttpServer. Its `_ReqStartFlowEx` carries a list of
parameters; `HandleStartFlowEx` makes a statement of them and posts a `_ReqExecSQL` to the service
itself, `HandleExecSQL` queues it to a worker, `OnExecSQL` executes it and posts a `_ResExecSQL` to
the service, and `HandleRespExecSQL` answers the HttpServer with a `_ResStartFlowEx`.

The handlers of this tag are their own; the data of a source, the routing of a statement, the
database layer, the statement itself and `PreExecSQL` are those of the trunk, which they equal. A
`reconnect`, on whichever thread it runs, may change the connection flag and the handles of its
source in any way.
-/

namespace TelecomSuite.Dagw.HttpServer

open Fallible Transition

/-! ## Data -/

/-- The `m_appport` of a service identifier. -/
inductive AppPort
  | httpServer
  | slee
  | other
  deriving DecidableEq

/-- The message ids of this tag. -/
inductive FlowId
  | reqStartFlowEx
  | resStartFlowEx
  | reqExecSQL
  | resExecSQL
  deriving DecidableEq

/-- The message of this tag: the tags of the trunk's, `_TagParameter` and an id of its own, in
place of `messageId`. -/
structure FlowMessage extends UserTransferMessage where
  flowId : FlowId
  parameter : List String
  deriving DecidableEq

/-- The builds of this tag: with `FOR_SYBASE` (the debug build of `dagw.vcproj`) or without it,
`_DB_ORACLE_` and `FOR_ODBC`. -/
inductive TagBuild
  | sybase (forSybase : Bool)
  | oracle
  | odbc
  deriving DecidableEq

/-- The build of the trunk with the same `PreExecSQL`: only `FOR_SYBASE` limits the rows. -/
def TagBuild.trunk : TagBuild → Build
  | .sybase true => .sybase
  | .sybase false | .odbc => .odbc
  | .oracle => .oracle

/-- An entry of the connection list, as far as the requests use it. -/
structure FlowConnectionCfg where
  m_SourceName : String
  m_query : String
  m_regmonth : String
  m_unregmonth : String

/-- The configuration, of at least one connection, with the error codes the program is compiled
with, the ports of the service identifiers and the identifier of the service. -/
structure FlowCfg where
  build : TagBuild
  code : SxCode
  m_MaxRowCount : Nat
  first : FlowConnectionCfg
  rest : List FlowConnectionCfg
  m_appport : ServiceIdentifier → AppPort
  myIdentifier : ServiceIdentifier
  myPort : m_appport myIdentifier = .other

/-- `TDBProcess`, with the message it is working on. -/
structure Worker where
  m_queue : List FlowMessage
  busy : Option FlowMessage
  m_pDbQuery : Option Handle
  m_rowCount : Nat

/-- The gateway. `inbox` holds what the service posted to itself, `flows` the flow requests that
arrived, and `received` counts all requests. After `failed` the process has ended. -/
structure State (W : Type) where
  m_mapProcess : String → Option (CDBProcInfo W)
  workers : W → Worker
  inbox : List FlowMessage
  posted : List (ServiceIdentifier × FlowMessage)
  flows : List FlowMessage
  received : Nat
  failed : Bool

section
variable {W : Type}

/-- `postMessage`. -/
def State.post (s : State W) (dest : ServiceIdentifier) (utm : FlowMessage) : State W :=
  { s with posted := s.posted ++ [(dest, utm)] }

/-- `postSelfMessage`. -/
def State.postSelf (s : State W) (utm : FlowMessage) : State W :=
  { s with inbox := s.inbox ++ [utm] }

/-- The end of the process: an index out of range, `sprintf_s` with too long a text, a NULL handle
or an exception that nothing catches. -/
def State.fail (s : State W) : State W := { s with failed := true }

/-! ## `HandleStartFlowEx` -/

/-- The refusal of a request: `_ResStartFlowEx` with -1, from the service to the sender. -/
def refused (cfg : FlowCfg) (utm : FlowMessage) : FlowMessage :=
  { utm with
    flowId := .resStartFlowEx
    res := utm.req
    req := cfg.myIdentifier
    ret := -1 }

/-- `str[2] == "" || str[3] == "" || str[4] == ""`; `none` if an index is out of range. -/
def nullParameter (str : List String) : Option Bool := do
  if (← str[2]?) = "" then return true
  if (← str[3]?) = "" then return true
  return (← str[4]?) = ""

/-- The stored procedure for the type of the operation. -/
def procedure (conn : FlowConnectionCfg) (operType : String) : Option String :=
  if operType = "1" then some conn.m_query
  else if operType = "2" then some conn.m_regmonth
  else if operType = "3" then some conn.m_unregmonth
  else none

/-- The text that `sprintf_s` writes. -/
def flowSql (proc calling callee billItem : String) : String :=
  proc ++ " '" ++ calling ++ "','" ++ callee ++ "','" ++ billItem ++ "'"

/-- The size of the buffer of the statement, with the final NUL. -/
def flowSqlSize : Nat := 1024

/-- `CDagwService::HandleStartFlowEx`: the parameters of a flow become the text of a statement,
which the service asks itself to execute. -/
def handleStartFlowEx (cfg : FlowCfg) (s : State W) (sender : ServiceIdentifier)
    (utm : FlowMessage) : State W :=
  let str := utm.parameter
  let sourceName := if str.getD 5 "" ≠ "" then str.getD 5 "" else cfg.first.m_SourceName
  match nullParameter str with
  | none => s.fail
  | some true => s.post sender (refused cfg utm)
  | some false =>
    match procedure cfg.first (str.getD 1 "") with
    | none => s.post sender (refused cfg utm)
    | some proc =>
      let sql := flowSql proc (str.getD 2 "") (str.getD 3 "") (str.getD 4 "")
      if sql.length < flowSqlSize then
        s.postSelf { utm with
          sql := sql
          sourceName := sourceName
          flowId := .reqExecSQL }
      else s.fail

/-! ## `HandleExecSQL` and `HandleRespExecSQL` -/

section
variable [DecidableEq W]

/-- The state with another worker `w`. -/
def State.setWorker (s : State W) (w : W) (p : Worker) : State W :=
  { s with workers := Function.update s.workers w p }

/-- The end of `HandleExecSQL` on each of its failures. A refusal to an HttpServer is addressed by
the message, one to an SLEE by the sender. -/
def refuse (cfg : FlowCfg) (s : State W) (sender : ServiceIdentifier) (utm : FlowMessage) :
    State W :=
  let utm := { utm with res := utm.req }
  let r :=
    if cfg.m_appport utm.res = .httpServer then
      let utm := refused cfg utm
      (s.post utm.res utm, utm)
    else (s, utm)
  if cfg.m_appport sender = .slee then
    r.1.post sender { r.2 with
      flowId := .resExecSQL
      ret := -1 }
  else r.1

/-- `TDBProcess::Process`. -/
def Worker.process (p : Worker) (utm : FlowMessage) : Option Worker :=
  if p.m_queue.length < dagwProcessQueueLen then some { p with m_queue := p.m_queue ++ [utm] }
  else none

/-- `HandleExecSQL`. The `reconnect` of a disconnected source is a step of its own. -/
def handleExecSQL (cfg : FlowCfg) (s : State W) (sender : ServiceIdentifier) (utm : FlowMessage) :
    State W :=
  match s.m_mapProcess utm.sourceName with
  | none => refuse cfg s sender utm
  | some info =>
    let r := route info utm.toUserTransferMessage
    let s := { s with m_mapProcess := Function.update s.m_mapProcess utm.sourceName (some r.2.1) }
    let utm := { utm with toUserTransferMessage := r.2.2 }
    match r.1 with
    | none => refuse cfg s sender utm
    | some w =>
      if info.m_connected then
        match (s.workers w).process utm with
        | some p => s.setWorker w p
        | none => refuse cfg s sender utm
      else refuse cfg s sender utm

/-- The digits of `atoi`. -/
def digitsValue : List Char → Int → Int
  | [], n => n
  | c :: cs, n => if c.isDigit then digitsValue cs (10 * n + (c.toNat - 48)) else n

/-- `atoi`; a number beyond `int` is not defined in C. -/
def atoi (s : String) : Int :=
  match s.toList.dropWhile Char.isWhitespace with
  | '-' :: cs => -digitsValue cs 0
  | '+' :: cs => digitsValue cs 0
  | cs => digitsValue cs 0

/-- `HandleRespExecSQL`: the first value of the result is the return value of the answer. -/
def handleRespExecSQL (s : State W) (utm : FlowMessage) : State W :=
  match utm.result with
  | [] => s.fail
  | value :: _ => s.post utm.res { utm with
      flowId := .resStartFlowEx
      ret := atoi (if value ≠ "" then value else "-1") }

/-! ## `OnExecSQL` -/

/-- What follows the `try` block: whether `_ResExecSQL` goes to the service itself. -/
def sendResult {σ : Type} (cfg : FlowCfg) (sender : ServiceIdentifier) : Exec σ Bool := do
  setUtm fun u => if cfg.build ≠ .oracle then { u with ret := 0 } else u
  let utm := (← get).utm
  if cfg.m_appport utm.res = .httpServer then return true
  if cfg.m_appport utm.res = .slee then postMessage sender
  return false

/-- The answer of the `catch` block. -/
def sendError {σ : Type} (cfg : FlowCfg) (sender : ServiceIdentifier) (sourceName : String)
    (err : BaseException) : Exec σ Bool := do
  setUtm ({ · with ret := cfg.code.errDbsError })
  if cfg.build = .oracle then
    reportError err sourceName
    modify ({ · with m_rowCount := 0 })
  postMessage sender
  return false

/-- `TDBProcess::OnExecSQL`. Outside `_DB_ORACLE_` a lost connection is no error for a request with
a return value of zero. -/
def onExecSQL {σ : Type} (cfg : FlowCfg) (q : BaseQuery σ) (fuel : Nat)
    (sender : ServiceIdentifier) : Exec σ Bool := do
  let utm := (← get).utm
  setUtm fun u => { u with res := u.req, req := cfg.myIdentifier }
  if ← preExecSQL cfg.build.trunk cfg.code cfg.m_MaxRowCount q sender utm.sql then
    match ← attempt (execBody q fuel utm.sql) with
    | .ok _ => sendResult cfg sender
    | .error err =>
      if cfg.build ≠ .oracle ∧ utm.ret = 0 ∧ lostConnection err then sendResult cfg sender
      else sendError cfg sender utm.sourceName err
  else return false

/-- The statements that `PreExecSQL` rejects before it uses the handle. -/
def rejectsText (b : TagBuild) (sql : String) : Bool :=
  sql = "" || (b = .sybase true && contains sql "rowcount" && contains sql "set")

/-- `OnExecSQL` on a worker. -/
def exec (cfg : FlowCfg) (db : Db) (rc : Nat) (utm : FlowMessage) :
    Except Fault Bool × Ctx db.σ :=
  onExecSQL cfg db.query db.fuel utm.req ⟨db.session, utm.toUserTransferMessage, rc, []⟩

/-- The message of `OnExecSQL` with these tags. -/
def FlowMessage.response (utm : FlowMessage) (tags : UserTransferMessage) : FlowMessage :=
  { utm with
    toUserTransferMessage := tags
    flowId := .resExecSQL }

/-- What a worker posts. -/
def postsOf (utm : FlowMessage) (actions : List Action) : List (ServiceIdentifier × FlowMessage) :=
  actions.filterMap fun
    | .postMessage dest tags => some (dest, utm.response tags)
    | .errProcess .. | .process _ => none

/-- The state after `OnExecSQL` on the worker `w`. -/
def State.executed (s : State W) {σ : Type} (w : W) (utm : FlowMessage)
    (r : Except Fault Bool × Ctx σ) : State W :=
  let s := s.setWorker w { s.workers w with
    busy := none
    m_rowCount := r.2.m_rowCount }
  let s := { s with posted := s.posted ++ postsOf utm r.2.actions }
  match r.1 with
  | .ok self => if self then s.postSelf (utm.response r.2.utm) else s
  | .error _ => s.fail

/-! ## The transition system -/

/-- What happens: a flow request or another one arrives, the service takes a message of its own, a
worker takes one from its queue or executes it. -/
inductive Label (W : Type)
  | startFlow (utm : FlowMessage)
  | request (utm : FlowMessage)
  | self (sender : ServiceIdentifier)
  | take (w : W)
  | exec (w : W) (db : Db)
  | reconnect (src : String) (connected : Bool) (handles : W → Option Handle)

/-- The worker with another handle. -/
def Worker.setBaseQuery (p : Worker) (h : Option Handle) : Worker := { p with m_pDbQuery := h }

/-- One step of the gateway. The HttpServer sends `_ReqStartFlowEx` and others `_ReqExecSQL`, with
their own identifier as `Req`; nothing but `_ReqExecSQL` comes into a worker's queue. A busy worker
that loses its handle to a `reconnect` fails. -/
inductive Step (cfg : FlowCfg) : State W → Label W → State W → Prop
  | startFlow {s : State W} {utm : FlowMessage} : s.failed = false →
      utm.flowId = .reqStartFlowEx → cfg.m_appport utm.req = .httpServer →
      utm.serial = s.received →
      Step cfg s (.startFlow utm)
        (handleStartFlowEx cfg
          { s with flows := s.flows ++ [utm], received := s.received + 1 } utm.req utm)
  | request {s : State W} {utm : FlowMessage} : s.failed = false →
      utm.flowId = .reqExecSQL → cfg.m_appport utm.req ≠ .httpServer →
      utm.serial = s.received →
      Step cfg s (.request utm)
        (handleExecSQL cfg { s with received := s.received + 1 } utm.req utm)
  | selfExec {s : State W} {sender : ServiceIdentifier} {utm : FlowMessage}
      {inbox : List FlowMessage} : s.failed = false → s.inbox = utm :: inbox →
      utm.flowId = .reqExecSQL → cfg.m_appport sender ≠ .slee →
      Step cfg s (.self sender) (handleExecSQL cfg { s with inbox := inbox } sender utm)
  | selfResp {s : State W} {sender : ServiceIdentifier} {utm : FlowMessage}
      {inbox : List FlowMessage} : s.failed = false → s.inbox = utm :: inbox →
      utm.flowId = .resExecSQL → cfg.m_appport sender ≠ .slee →
      Step cfg s (.self sender) (handleRespExecSQL { s with inbox := inbox } utm)
  | take {s : State W} {w : W} {utm : FlowMessage} {queue : List FlowMessage} : s.failed = false →
      (s.workers w).busy = none → (s.workers w).m_queue = utm :: queue →
      Step cfg s (.take w) (s.setWorker w { s.workers w with m_queue := queue, busy := some utm })
  | exec {s : State W} {w : W} {utm : FlowMessage} {db : Db} : s.failed = false →
      (s.workers w).busy = some utm → utm.flowId = .reqExecSQL →
      ((s.workers w).m_pDbQuery ≠ none ∨ rejectsText cfg.build utm.sql = true) →
      (HttpServer.exec cfg db (s.workers w).m_rowCount utm).1 ≠ .error .hang →
      Step cfg s (.exec w db)
        (s.executed w utm (HttpServer.exec cfg db (s.workers w).m_rowCount utm))
  | execNull {s : State W} {w : W} {utm : FlowMessage} {db : Db} : s.failed = false →
      (s.workers w).busy = some utm → (s.workers w).m_pDbQuery = none →
      rejectsText cfg.build utm.sql = false → Step cfg s (.exec w db) s.fail
  | reconnect {s : State W} {src : String} {connected : Bool} {handles : W → Option Handle}
      {info : CDBProcInfo W} : s.failed = false → s.m_mapProcess src = some info →
      (∀ w, w ∉ info.m_vctProcess → handles w = (s.workers w).m_pDbQuery) →
      Step cfg s (.reconnect src connected handles)
        { s with
          m_mapProcess := Function.update s.m_mapProcess src
            (some { info with m_connected := connected })
          workers := fun w => (s.workers w).setBaseQuery (handles w) }

/-- The gateway before its first request, whatever `init` has connected. -/
structure Initial (s : State W) : Prop where
  queue : ∀ w, (s.workers w).m_queue = []
  busy : ∀ w, (s.workers w).busy = none
  inbox : s.inbox = []
  posted : s.posted = []
  flows : s.flows = []
  running : s.failed = false

/-- The service with its workers as a transition system. -/
def system (W : Type) [DecidableEq W] (cfg : FlowCfg) : LTS (State W) (Label W) where
  init := Initial
  step := Step cfg

end

end

end TelecomSuite.Dagw.HttpServer
