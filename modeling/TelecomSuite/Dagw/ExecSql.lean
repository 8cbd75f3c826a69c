import TelecomSuite.Lib.Fallible
import TelecomSuite.Dagw.Message

/-!
# One statement of a gateway worker

`TDBProcess::OnExecSQL` and `TDBProcess::PreExecSQL` in the three builds. The database layer is a
parameter: a `BaseQuery` over a session state `σ` answers every call by returning or by throwing a
`BaseException`, and nothing else is assumed of it. What the worker does to the rest of the program
(posting a message, reporting an error to `errProcess`, queueing the request again) is recorded
in order as a list of `Action`s, which `Dagw.Service` carries out one at a time.

`onExecSQL_return_iff` says when the return value of the posted response tells whether the
statement ran: always in the `FOR_ODBC` build, in the `_DB_ORACLE_` build unless a request that
arrives with a non-zero return value succeeds, and in the `_DB_SYBASE_` build unless such a request
succeeds or a lost connection is met by a request that arrives with return value zero.
-/

namespace TelecomSuite.Dagw

open Fallible

/-! ## The database layer and the worker's monad -/

/-- The calls of the database layer that a worker makes through its query handle, over the state
`σ` of the session behind the handle. `fieldAsString i` is `getFieldByColumn(i)->asString()`,
`outParamAsString i` is `getOutParamByIndex(i)->asString()`, `fieldInfoName i` is the name of
`getFieldInfoByColumn(i)` or nothing for a NULL answer, and `odbcReconnect` is the connection's
`_odbcReconnect` at the handle's index. -/
structure BaseQuery (σ : Type) where
  command : String → σ → Except BaseException Unit × σ
  outputCount : σ → Except BaseException Nat × σ
  registerOutParam : Nat → σ → Except BaseException Unit × σ
  execute : σ → Except BaseException Unit × σ
  fieldCount : σ → Except BaseException Nat × σ
  eof : σ → Except BaseException Bool × σ
  fetchNext : σ → Except BaseException Unit × σ
  fieldAsString : Nat → σ → Except BaseException String × σ
  outParamAsString : Nat → σ → Except BaseException String × σ
  fieldInfoName : Nat → σ → Except BaseException (Option String) × σ
  effectCount : σ → Except BaseException Nat × σ
  odbcReconnect : σ → Except BaseException Unit × σ

/-- What a worker does to the rest of the program while it handles a request. -/
inductive Action
  | postMessage (dest : ServiceIdentifier) (utm : UserTransferMessage)
  | errProcess (err : BaseException) (sourceName : String)
  | process (utm : UserTransferMessage)
  deriving DecidableEq, Repr

/-- The variables of a request in progress: the session behind the handle, the message, the
worker's `m_rowCount`, and what the worker has done so far. They survive an exception. -/
structure Ctx (σ : Type) where
  session : σ
  utm : UserTransferMessage
  m_rowCount : Nat
  actions : List Action

/-- Why a computation has not come to its end: a thrown exception, or a loop of the source that is
still running when the iterations allowed for it are used up. -/
inductive Fault
  | raised (err : BaseException)
  | hang
  deriving DecidableEq, Repr

/-- Computations of a worker. -/
abbrev Exec (σ : Type) := Comp Fault (Ctx σ)

section
variable {σ : Type}

/-- A call of the database layer. -/
def call {α : Type} (f : σ → Except BaseException α × σ) : Exec σ α := fun c =>
  match f c.session with
  | (.ok a, s) => (.ok a, { c with session := s })
  | (.error e, s) => (.error (.raised e), { c with session := s })

/-- `try { body } catch (BaseException &err)`: an exception becomes a value, a loop that is still
running does not. -/
def attempt {α : Type} (body : Exec σ α) : Exec σ (Except BaseException α) := fun c =>
  match body c with
  | (.ok a, c') => (.ok (.ok a), c')
  | (.error (.raised e), c') => (.ok (.error e), c')
  | (.error .hang, c') => (.error .hang, c')

/-- An assignment to the message. -/
def setUtm (f : UserTransferMessage → UserTransferMessage) : Exec σ Unit :=
  modify fun c => { c with utm := f c.utm }

/-- `m_owner->postMessage(sender, utm)`. -/
def postMessage (sender : ServiceIdentifier) : Exec σ Unit :=
  modify fun c => { c with actions := c.actions ++ [.postMessage sender c.utm] }

/-- `errProcess(err, sourceName)`. -/
def reportError (err : BaseException) (sourceName : String) : Exec σ Unit :=
  modify fun c => { c with actions := c.actions ++ [.errProcess err sourceName] }

/-- `Process(utm)`, whose result the source does not look at. -/
def processAgain : Exec σ Unit :=
  modify fun c => { c with actions := c.actions ++ [.process c.utm] }

/-! ## `PreExecSQL` -/

/-- The row limit of a request: the requested count, or `m_MaxRowCount` when none is requested or
more is requested than that. -/
def requestedRowCount (maxRowCount : Nat) (utm : UserTransferMessage) : Nat :=
  if utm.maxRowCount = 0 ∨ utm.maxRowCount > maxRowCount then maxRowCount else utm.maxRowCount

/-- `m_pDbQuery->effectCount() > n`. -/
def effectExceeds (q : BaseQuery σ) (n : Nat) : Exec σ Bool :=
  (fun count => decide (count > n)) <$> call q.effectCount

/-- The answer of `PreExecSQL` to a statement it does not accept. -/
def reject (k : SxCode) (sender : ServiceIdentifier) : Exec σ Bool := do
  setUtm ({ · with ret := k.errDbsError })
  postMessage sender
  return false

/-- The text of the `set rowcount` statement. `%d` prints the `u32` as a signed number. -/
def setRowCountText (rowCount : Nat) : String :=
  "set rowcount " ++ toString (BitVec.ofNat 32 rowCount).toInt

/-- The `set rowcount` statement of `PreExecSQL`. `m_rowCount` is assigned before the statement
runs, and stays assigned when it fails. -/
def setRowCount (k : SxCode) (q : BaseQuery σ) (sender : ServiceIdentifier) (rowCount : Nat) :
    Exec σ Bool := do
  modify ({ · with m_rowCount := rowCount })
  let r ← attempt do
    call (q.command (setRowCountText rowCount))
    call q.execute
  match r with
  | .ok _ => return true
  | .error _ => reject k sender

/-- `PreExecSQL`: reject an empty statement, and in the Sybase build one that sets the row count;
there the session's row limit is set first when it is not the one asked for. `effectCount` is
called outside the `try` block of the source. -/
def preExecSQL (b : Build) (k : SxCode) (maxRowCount : Nat) (q : BaseQuery σ)
    (sender : ServiceIdentifier) (sql : String) : Exec σ Bool :=
  if sql = "" then reject k sender
  else match b with
    | .sybase =>
      if contains sql "rowcount" && contains sql "set" then reject k sender
      else do
        let c ← get
        let rowCount := requestedRowCount maxRowCount c.utm
        if rowCount ≠ c.m_rowCount then setRowCount k q sender rowCount
        else if ← effectExceeds q c.m_rowCount then setRowCount k q sender rowCount
        else return true
    | .oracle | .odbc => return true

/-! ## The statement -/

/-- `for (u32 i = 1; i <= outputCount(); i++) registerOutParam(i)`, the count asked for anew in
every iteration. -/
def registerOutParams (q : BaseQuery σ) : (fuel i : Nat) → Exec σ Unit
  | 0, _ => throw .hang
  | fuel + 1, i => do
    if i ≤ (← call q.outputCount) then
      call (q.registerOutParam i)
      registerOutParams q fuel (i + 1)

/-- The columns `i`, `i + 1`, ... of the current row, `n` of them. -/
def rowFields (q : BaseQuery σ) : (n i : Nat) → Exec σ (List String)
  | 0, _ => return []
  | n + 1, i => return (← call (q.fieldAsString i)) :: (← rowFields q n (i + 1))

/-- `while (!eof()) { rowcount++; fetchNext(); ... }`: the number of rows and their fields, row by
row. -/
def fetchRows (q : BaseQuery σ) (fieldcount : Nat) : (fuel : Nat) → Exec σ (Nat × List String)
  | 0 => throw .hang
  | fuel + 1 => do
    if ← call q.eof then return (0, [])
    call q.fetchNext
    let row ← rowFields q fieldcount 0
    let (rowcount, result) ← fetchRows q fieldcount fuel
    return (rowcount + 1, row ++ result)

/-- The output parameters `i`, `i + 1`, ... up to `outputCount()`. -/
def outParams (q : BaseQuery σ) : (fuel i : Nat) → Exec σ (List String)
  | 0, _ => throw .hang
  | fuel + 1, i => do
    if i ≤ (← call q.outputCount) then
      return (← call (q.outParamAsString i)) :: (← outParams q fuel (i + 1))
    else return []

/-- The names of the columns `i`, `i + 1`, ..., `n` of them, without those that have none. -/
def fieldNames (q : BaseQuery σ) : (n i : Nat) → Exec σ (List String)
  | 0, _ => return []
  | n + 1, i => do
    let name ← call (q.fieldInfoName i)
    let rest ← fieldNames q n (i + 1)
    return name.toList ++ rest

/-- What `_TagResult` gets: the fetched rows, or the output parameters when no row came, and then
`_TagFieldCount` is their number. -/
def resultOf (q : BaseQuery σ) (fuel rowcount : Nat) (rows : List String) :
    Exec σ (List String) :=
  if rowcount = 0 then do
    let outs ← outParams q fuel 1
    let outputcount ← call q.outputCount
    setUtm ({ · with fieldCount := outputcount })
    return outs
  else return rows

/-- The `try` block of `OnExecSQL`: command, execute, and everything that is fetched. -/
def execBody (q : BaseQuery σ) (fuel : Nat) (sql : String) : Exec σ Unit := do
  call (q.command sql)
  registerOutParams q fuel 1
  call q.execute
  let fieldcount ← call q.fieldCount
  setUtm ({ · with fieldCount := fieldcount })
  let (rowcount, rows) ← fetchRows q fieldcount fuel
  let result ← resultOf q fuel rowcount rows
  setUtm ({ · with result := result })
  let fieldname ← fieldNames q fieldcount 0
  setUtm ({ · with fieldName := fieldname })

/-- The SQL states after which the source wants to connect again. -/
def lostConnection (err : BaseException) : Bool :=
  err.state = "08S01" || err.state = "HY000"

/-- `utm.setReturn(ERR_DBS_ERROR)`, `errProcess` and the response, in this order. -/
def answerError (k : SxCode) (sender : ServiceIdentifier) (err : BaseException)
    (sourceName : String) : Exec σ Unit := do
  setUtm ({ · with ret := k.errDbsError })
  reportError err sourceName
  postMessage sender

/-- The three `catch` blocks. The result is `tryconnect` when control goes on after the block, and
nothing when the block has answered and returned. -/
def catchBlock (b : Build) (k : SxCode) (sender : ServiceIdentifier) (sourceName : String)
    (err : BaseException) : Exec σ (Option Bool) := do
  match b with
  | .oracle =>
    setUtm ({ · with ret := k.errDbsError })
    reportError err sourceName
    modify ({ · with m_rowCount := 0 })
    postMessage sender
    return none
  | .sybase | .odbc =>
    if (← get).utm.ret = 0 && lostConnection err then return some true
    answerError k sender err sourceName
    return none

/-- What follows the `catch` block. Only the `FOR_ODBC` build looks at `tryconnect`: it connects
the handle again and queues the request with its return value raised, and it resets the return
value of a statement that ran. -/
def afterCatch (b : Build) (k : SxCode) (q : BaseQuery σ) (sender : ServiceIdentifier)
    (sourceName : String) (tryconnect : Bool) : Exec σ Unit := do
  match b with
  | .sybase | .oracle => postMessage sender
  | .odbc =>
    if tryconnect then
      match ← attempt (call q.odbcReconnect) with
      | .error err => answerError k sender err sourceName
      | .ok _ =>
        setUtm fun u => { u with messageId := .reqExecSQL, ret := u.ret + 1 }
        processAgain
    else
      setUtm ({ · with ret := 0 })
      postMessage sender

/-- What follows the `try` block, by how it ended. -/
def afterBody (b : Build) (k : SxCode) (q : BaseQuery σ) (sender : ServiceIdentifier)
    (sourceName : String) : Except BaseException Unit → Exec σ Unit
  | .ok _ => afterCatch b k q sender sourceName false
  | .error err => do
    match ← catchBlock b k sender sourceName err with
    | some tryconnect => afterCatch b k q sender sourceName tryconnect
    | none => return

/-- `TDBProcess::OnExecSQL`. -/
def onExecSQL (b : Build) (k : SxCode) (maxRowCount : Nat) (q : BaseQuery σ) (fuel : Nat)
    (sender : ServiceIdentifier) : Exec σ Unit := do
  let utm := (← get).utm
  setUtm fun u => { u with res := u.req, messageId := .resExecSQL }
  if ← preExecSQL b k maxRowCount q sender utm.sql then
    let r ← attempt (execBody q fuel utm.sql)
    afterBody b k q sender utm.sourceName r

/-! ## Running a computation -/

section
variable {α β : Type}

/-- The message is changed, and nothing else. -/
@[simp] theorem setUtm_apply (f : UserTransferMessage → UserTransferMessage) (c : Ctx σ) :
    (setUtm f : Exec σ Unit) c = (.ok (), { c with utm := f c.utm }) := rfl

/-- The message is posted as it is. -/
@[simp] theorem postMessage_apply (sender : ServiceIdentifier) (c : Ctx σ) :
    (postMessage sender : Exec σ Unit) c =
      (.ok (), { c with actions := c.actions ++ [.postMessage sender c.utm] }) := rfl

/-- The error is reported for the source. -/
@[simp] theorem reportError_apply (err : BaseException) (src : String) (c : Ctx σ) :
    (reportError err src : Exec σ Unit) c =
      (.ok (), { c with actions := c.actions ++ [.errProcess err src] }) := rfl

/-- The message is put back into the queue. -/
@[simp] theorem processAgain_apply (c : Ctx σ) :
    (processAgain : Exec σ Unit) c =
      (.ok (), { c with actions := c.actions ++ [.process c.utm] }) := rfl

/-! ## What the calls leave alone -/

/-- Two messages carry the same request. -/
structure SameRequest (u u₀ : UserTransferMessage) : Prop where
  serial : u.serial = u₀.serial
  req : u.req = u₀.req
  sourceName : u.sourceName = u₀.sourceName
  sql : u.sql = u₀.sql
  maxRowCount : u.maxRowCount = u₀.maxRowCount

/-- What the database calls of an attempt leave alone: the request, its return value and message
id, and the actions so far. -/
structure Frame (c c' : Ctx σ) : Prop where
  same : SameRequest c'.utm c.utm
  ret : c'.utm.ret = c.utm.ret
  messageId : c'.utm.messageId = c.utm.messageId
  actions : c'.actions = c.actions

/-- A request is the same as itself. -/
theorem SameRequest.refl (u : UserTransferMessage) : SameRequest u u := ⟨rfl, rfl, rfl, rfl, rfl⟩

/-- What is kept by two changes is kept by both together. -/
theorem SameRequest.trans {u v w : UserTransferMessage} (h₁ : SameRequest v u)
    (h₂ : SameRequest w v) : SameRequest w u :=
  ⟨h₂.serial.trans h₁.serial, h₂.req.trans h₁.req, h₂.sourceName.trans h₁.sourceName,
    h₂.sql.trans h₁.sql, h₂.maxRowCount.trans h₁.maxRowCount⟩

/-- Nothing has changed. -/
theorem Frame.refl (c : Ctx σ) : Frame c c := ⟨.refl _, rfl, rfl, rfl⟩

/-- What is kept by two parts is kept by both together. -/
theorem Frame.trans {c₁ c₂ c₃ : Ctx σ} (h₁ : Frame c₁ c₂) (h₂ : Frame c₂ c₃) : Frame c₁ c₃ :=
  ⟨h₁.same.trans h₂.same, h₂.ret.trans h₁.ret, h₂.messageId.trans h₁.messageId,
    h₂.actions.trans h₁.actions⟩

/-- `Frame` is reflexive and transitive. -/
instance : IsPreorder (Ctx σ) Frame where
  refl := .refl
  trans _ _ _ := .trans

/-- A computation that keeps the frame from every state. -/
abbrev KeepsFrame (m : Exec σ α) : Prop := Keeps Frame m

/-- A call of the database touches the session only. -/
theorem keeps_call (f : σ → Except BaseException α × σ) : KeepsFrame (call f : Exec σ α) := by
  intro c
  unfold call
  rcases f c.session with ⟨e | a, s⟩ <;> exact ⟨.refl _, rfl, rfl, rfl⟩

/-- A caught error changes nothing more. -/
theorem keeps_attempt {R : Ctx σ → Ctx σ → Prop} {m : Exec σ α} (h : Keeps R m) :
    Keeps R (attempt m) := by
  intro c
  have hc := h c
  unfold Dagw.attempt
  rcases hm : m c with ⟨(e | _) | a, c'⟩ <;> simpa [hm] using hc

/-- The assignments to the result tags keep the frame. -/
theorem keeps_setUtm {f : UserTransferMessage → UserTransferMessage}
    (h : ∀ u, SameRequest (f u) u ∧ (f u).ret = u.ret ∧ (f u).messageId = u.messageId) :
    KeepsFrame (setUtm f : Exec σ Unit) :=
  fun c => ⟨(h c.utm).1, (h c.utm).2.1, (h c.utm).2.2, rfl⟩

/-- The calls of the `try` block up to `execute`. -/
def untilExecute (q : BaseQuery σ) (fuel : Nat) (sql : String) : Exec σ Unit := do
  call (q.command sql)
  registerOutParams q fuel 1
  call q.execute

/-- What the `try` block fetches after `execute`. -/
def fetchAll (q : BaseQuery σ) (fuel : Nat) : Exec σ Unit := do
  let fieldcount ← call q.fieldCount
  setUtm ({ · with fieldCount := fieldcount })
  let (rowcount, rows) ← fetchRows q fieldcount fuel
  let result ← resultOf q fuel rowcount rows
  setUtm ({ · with result := result })
  let fieldname ← fieldNames q fieldcount 0
  setUtm ({ · with fieldName := fieldname })

/-- The body is the loop up to the execution, and then the fetching. -/
theorem execBody_eq (q : BaseQuery σ) (fuel : Nat) (sql : String) :
    execBody q fuel sql = untilExecute q fuel sql >>= fun _ => fetchAll q fuel := by
  simp only [execBody, untilExecute, fetchAll, bind_assoc]

/-- The calls of the `try` block other than `command` and `execute`, and the assignments to the
result tags, keep `R`. -/
structure Fetching (R : Ctx σ → Ctx σ → Prop) (q : BaseQuery σ) : Prop where
  outputCount : Keeps R (call q.outputCount)
  registerOutParam : ∀ i, Keeps R (call (q.registerOutParam i))
  fieldCount : Keeps R (call q.fieldCount)
  eof : Keeps R (call q.eof)
  fetchNext : Keeps R (call q.fetchNext)
  fieldAsString : ∀ i, Keeps R (call (q.fieldAsString i))
  outParamAsString : ∀ i, Keeps R (call (q.outParamAsString i))
  fieldInfoName : ∀ i, Keeps R (call (q.fieldInfoName i))
  tags : ∀ f : UserTransferMessage → UserTransferMessage,
    (∀ u, SameRequest (f u) u ∧ (f u).ret = u.ret ∧ (f u).messageId = u.messageId ∧
      (f u).res = u.res) →
    Keeps R (setUtm f)

section
variable {R : Ctx σ → Ctx σ → Prop} [IsPreorder (Ctx σ) R] {q : BaseQuery σ}

/-! The loops of the `try` block keep what its calls keep. -/

/-- The loop over the out parameters. -/
theorem Fetching.registerOutParams (h : Fetching R q) (fuel i : Nat) :
    Keeps R (registerOutParams q fuel i) := by
  induction fuel generalizing i with
  | zero => exact .throw _
  | succ fuel ih =>
    refine h.outputCount.bind fun n => .ite ?_ (.pure _)
    exact (h.registerOutParam i).bind fun _ => ih (i + 1)

/-- The loop over the fields of a row. -/
theorem Fetching.rowFields (h : Fetching R q) (n i : Nat) : Keeps R (rowFields q n i) := by
  induction n generalizing i with
  | zero => exact .pure _
  | succ n ih => exact (h.fieldAsString i).bind fun _ => (ih (i + 1)).bind fun _ => .pure _

/-- The loop over the rows. -/
theorem Fetching.fetchRows (h : Fetching R q) (fieldcount fuel : Nat) :
    Keeps R (fetchRows q fieldcount fuel) := by
  induction fuel with
  | zero => exact .throw _
  | succ fuel ih =>
    refine h.eof.bind fun eof => .ite (.pure _) ?_
    exact h.fetchNext.bind fun _ => (h.rowFields _ _).bind fun _ => ih.bind fun _ => .pure _

/-- The loop over the values of the out parameters. -/
theorem Fetching.outParams (h : Fetching R q) (fuel i : Nat) : Keeps R (outParams q fuel i) := by
  induction fuel generalizing i with
  | zero => exact .throw _
  | succ fuel ih =>
    refine h.outputCount.bind fun n => .ite ?_ (.pure _)
    exact (h.outParamAsString i).bind fun _ => (ih (i + 1)).bind fun _ => .pure _

/-- The loop over the names of the fields. -/
theorem Fetching.fieldNames (h : Fetching R q) (n i : Nat) : Keeps R (fieldNames q n i) := by
  induction n generalizing i with
  | zero => exact .pure _
  | succ n ih => exact (h.fieldInfoName i).bind fun _ => (ih (i + 1)).bind fun _ => .pure _

/-- The result that is put together. -/
theorem Fetching.resultOf (h : Fetching R q) (fuel rowcount : Nat) (rows : List String) :
    Keeps R (resultOf q fuel rowcount rows) := by
  refine .ite ?_ (.pure _)
  refine (h.outParams fuel 1).bind fun _ => h.outputCount.bind ?_
  intro _
  exact Keeps.bind (h.tags _ fun u => ⟨⟨rfl, rfl, rfl, rfl, rfl⟩, rfl, rfl, rfl⟩) fun _ => .pure _

/-- All that is fetched. -/
theorem Fetching.fetchAll (h : Fetching R q) (fuel : Nat) : Keeps R (fetchAll q fuel) := by
  refine h.fieldCount.bind ?_
  intro _
  refine Keeps.bind (h.tags _ fun u => ⟨⟨rfl, rfl, rfl, rfl, rfl⟩, rfl, rfl, rfl⟩) ?_
  intro _
  refine (h.fetchRows _ fuel).bind fun rows => (h.resultOf fuel _ _).bind ?_
  intro _
  refine Keeps.bind (h.tags _ fun u => ⟨⟨rfl, rfl, rfl, rfl, rfl⟩, rfl, rfl, rfl⟩) ?_
  intro _
  refine (h.fieldNames _ 0).bind ?_
  intro _
  exact h.tags _ fun u => ⟨⟨rfl, rfl, rfl, rfl, rfl⟩, rfl, rfl, rfl⟩

end

/-- Fetching touches the session only. -/
theorem fetching_frame (q : BaseQuery σ) : Fetching Frame q where
  outputCount := keeps_call _
  registerOutParam _ := keeps_call _
  fieldCount := keeps_call _
  eof := keeps_call _
  fetchNext := keeps_call _
  fieldAsString _ := keeps_call _
  outParamAsString _ := keeps_call _
  fieldInfoName _ := keeps_call _
  tags _ h := keeps_setUtm fun u => ⟨(h u).1, (h u).2.1, (h u).2.2.1⟩

/-- The `try` block changes only the result tags of the message, however it ends. -/
theorem keeps_execBody (q : BaseQuery σ) (fuel : Nat) (sql : String) :
    KeepsFrame (execBody q fuel sql) := by
  rw [execBody_eq]
  refine Keeps.bind ?_ fun _ => (fetching_frame q).fetchAll fuel
  exact (keeps_call _).bind fun _ => ((fetching_frame q).registerOutParams fuel 1).bind fun _ =>
    keeps_call _

/-! ## What a request can lead to -/

/-- The response `u` answers the request `u₀` with return value `r`. -/
structure Answers (u u₀ : UserTransferMessage) (r : Int) : Prop where
  same : SameRequest u u₀
  messageId : u.messageId = .resExecSQL
  ret : u.ret = r

/-- What `PreExecSQL` can do: accept, reject with one response, or end in an exception. -/
inductive Prechecked (k : SxCode) (sender : ServiceIdentifier) (c : Ctx σ) :
    Except Fault Bool × Ctx σ → Prop
  | accepted {c' : Ctx σ} : Frame c c' → Prechecked k sender c (.ok true, c')
  | rejected {c' : Ctx σ} {u : UserTransferMessage} : SameRequest u c.utm →
      u.messageId = c.utm.messageId → u.ret = k.errDbsError →
      c'.actions = c.actions ++ [.postMessage sender u] → Prechecked k sender c (.ok false, c')
  | escaped {c' : Ctx σ} {f : Fault} : Frame c c' → Prechecked k sender c (.error f, c')

/-- A request that is rejected is answered. -/
theorem prechecked_reject (k : SxCode) (sender : ServiceIdentifier) {c c' : Ctx σ}
    (h : Frame c c') : Prechecked k sender c (reject k sender c') := by
  simp only [reject, Comp.bind_apply, setUtm_apply, postMessage_apply, Comp.pure_apply]
  refine .rejected (u := { c'.utm with ret := k.errDbsError }) ?_ h.messageId rfl ?_
  · exact ⟨h.same.serial, h.same.req, h.same.sourceName, h.same.sql, h.same.maxRowCount⟩
  · simp only [h.actions]

/-- The limit on rows is set, or the request is answered. -/
theorem prechecked_setRowCount (k : SxCode) (q : BaseQuery σ) (sender : ServiceIdentifier)
    (n : Nat) {c c' : Ctx σ} (h : Frame c c') :
    Prechecked k sender c (setRowCount k q sender n c') := by
  have keeps : KeepsFrame (attempt do
      call (q.command (setRowCountText n))
      call q.execute) := keeps_attempt ((keeps_call _).bind fun _ => keeps_call _)
  simp only [setRowCount, Comp.bind_apply, Comp.modify_apply]
  have h₁ : Frame c { c' with m_rowCount := n } := ⟨h.same, h.ret, h.messageId, h.actions⟩
  have h₂ := h₁.trans (keeps { c' with m_rowCount := n })
  rcases hr : attempt (do call (q.command (setRowCountText n)); call q.execute)
    { c' with m_rowCount := n } with ⟨f | (e | a), c''⟩
  all_goals rw [hr] at h₂
  · simp only
    exact .escaped h₂
  · simp only
    exact prechecked_reject k sender h₂
  · simp only
    exact .accepted h₂

/-- `preExecSQL` lets the request through unanswered, or it answers. -/
theorem preExecSQL_prechecked (b : Build) (k : SxCode) (maxRowCount : Nat) (q : BaseQuery σ)
    (sender : ServiceIdentifier) (sql : String) (c : Ctx σ) :
    Prechecked k sender c (preExecSQL b k maxRowCount q sender sql c) := by
  unfold preExecSQL
  split
  · exact prechecked_reject k sender (.refl c)
  split
  · split
    · exact prechecked_reject k sender (.refl c)
    simp only [Comp.bind_apply, Comp.get_apply]
    split
    · exact prechecked_setRowCount k q sender _ (.refl c)
    · have h := ((keeps_call q.effectCount).bind fun n =>
        Keeps.pure (decide (n > c.m_rowCount))) c
      rw [← map_eq_pure_bind] at h
      change Frame c (effectExceeds q c.m_rowCount c).2 at h
      rw [Comp.bind_apply]
      rcases hr : effectExceeds q c.m_rowCount c with ⟨f | stale, c'⟩
      all_goals rw [hr] at h
      · exact .escaped h
      · cases stale
        · exact .accepted h
        · exact prechecked_setRowCount k q sender _ h
  · exact .accepted (.refl c)
  · exact .accepted (.refl c)

/-- The variables when `OnExecSQL` calls `PreExecSQL`. -/
def entry (c : Ctx σ) : Ctx σ :=
  { c with utm := { c.utm with res := c.utm.req, messageId := .resExecSQL } }

/-- How the database calls of an attempt went: nothing when `PreExecSQL` did not accept the
statement, and otherwise how the `try` block ended. -/
def attemptResult (b : Build) (k : SxCode) (maxRowCount : Nat) (q : BaseQuery σ) (fuel : Nat)
    (sender : ServiceIdentifier) (c : Ctx σ) : Option (Except Fault Unit) :=
  match preExecSQL b k maxRowCount q sender c.utm.sql (entry c) with
  | (.ok true, c') => some (execBody q fuel c.utm.sql c').1
  | _ => none

/-- What `OnExecSQL` can do with the request `u₀`, by the outcome of its database calls: its own
outcome, and its actions. -/
inductive Handled (b : Build) (k : SxCode) (sender : ServiceIdentifier)
    (u₀ : UserTransferMessage) :
    Option (Except Fault Unit) → Except Fault Unit → List Action → Prop
  | rejected {u : UserTransferMessage} : Answers u u₀ k.errDbsError →
      Handled b k sender u₀ none (.ok ()) [.postMessage sender u]
  | escaped {f : Fault} : Handled b k sender u₀ none (.error f) []
  | running : Handled b k sender u₀ (some (.error .hang)) (.error .hang) []
  | completed {u : UserTransferMessage} : Answers u u₀ (if b = .odbc then 0 else u₀.ret) →
      Handled b k sender u₀ (some (.ok ())) (.ok ()) [.postMessage sender u]
  | failed {err err' : BaseException} {u : UserTransferMessage} :
      (b = .sybase → lostConnection err = true → u₀.ret ≠ 0) → Answers u u₀ k.errDbsError →
      Handled b k sender u₀ (some (.error (.raised err))) (.ok ())
        [.errProcess err' u₀.sourceName, .postMessage sender u]
  | ignored {err : BaseException} {u : UserTransferMessage} : b = .sybase → u₀.ret = 0 →
      lostConnection err = true → Answers u u₀ 0 →
      Handled b k sender u₀ (some (.error (.raised err))) (.ok ()) [.postMessage sender u]
  | retried {err : BaseException} {u : UserTransferMessage} : b = .odbc → u₀.ret = 0 →
      lostConnection err = true → SameRequest u u₀ → u.messageId = .reqExecSQL → u.ret = 1 →
      Handled b k sender u₀ (some (.error (.raised err))) (.ok ()) [.process u]

/-- A call whose error is caught. -/
theorem attempt_call {α : Type} (f : σ → Except BaseException α × σ) (c : Ctx σ) :
    attempt (call f) c = (.ok (f c.session).1, { c with session := (f c.session).2 }) := by
  unfold attempt call
  rcases f c.session with ⟨e | a, s⟩ <;> rfl

/-- The response to a failed attempt. -/
theorem answerError_handled (b : Build) (k : SxCode) (sender : ServiceIdentifier)
    {u₀ : UserTransferMessage} {c : Ctx σ} (hs : SameRequest c.utm u₀)
    (hid : c.utm.messageId = .resExecSQL) {err : BaseException} (err' : BaseException)
    (h : b = .sybase → lostConnection err = true → u₀.ret ≠ 0) :
    ∃ acts, (answerError k sender err' u₀.sourceName c).2.actions = c.actions ++ acts ∧
      Handled b k sender u₀ (some (.error (.raised err)))
        (answerError k sender err' u₀.sourceName c).1 acts := by
  refine ⟨[.errProcess err' u₀.sourceName,
    .postMessage sender { c.utm with ret := k.errDbsError }], by simp [answerError],
    .failed h ⟨?_, hid, rfl⟩⟩
  exact ⟨hs.serial, hs.req, hs.sourceName, hs.sql, hs.maxRowCount⟩

/-- Going on after a `catch` block that met a lost connection and did not answer. -/
theorem afterCatch_handled (b : Build) (k : SxCode) (q : BaseQuery σ)
    (sender : ServiceIdentifier) {u₀ : UserTransferMessage} {c : Ctx σ}
    (hs : SameRequest c.utm u₀) (hid : c.utm.messageId = .resExecSQL) (hret : c.utm.ret = u₀.ret)
    {err : BaseException} (hb : b ≠ .oracle) (h0 : u₀.ret = 0)
    (hl : lostConnection err = true) :
    ∃ acts, (afterCatch b k q sender u₀.sourceName true c).2.actions = c.actions ++ acts ∧
      Handled b k sender u₀ (some (.error (.raised err)))
        (afterCatch b k q sender u₀.sourceName true c).1 acts := by
  cases b with
  | oracle => exact absurd rfl hb
  | sybase =>
    refine ⟨[.postMessage sender c.utm], by simp [afterCatch], ?_⟩
    exact .ignored rfl h0 hl ⟨hs, hid, hret.trans h0⟩
  | odbc =>
    simp only [afterCatch, if_true, Comp.bind_apply, attempt_call]
    rcases q.odbcReconnect c.session with ⟨e | a, s⟩
    · exact answerError_handled .odbc k sender (c := { c with session := s }) hs hid e
        fun h => nomatch h
    · refine ⟨[.process { c.utm with messageId := .reqExecSQL, ret := c.utm.ret + 1 }],
        by simp, .retried rfl h0 hl ?_ rfl ?_⟩
      · exact ⟨hs.serial, hs.req, hs.sourceName, hs.sql, hs.maxRowCount⟩
      · simp [hret, h0]

/-- A `try` block that threw: the `catch` block answers, or control goes on after it. -/
theorem afterBody_handled (b : Build) (k : SxCode) (q : BaseQuery σ)
    (sender : ServiceIdentifier) {u₀ : UserTransferMessage} {c : Ctx σ}
    (hs : SameRequest c.utm u₀) (hid : c.utm.messageId = .resExecSQL) (hret : c.utm.ret = u₀.ret)
    (err : BaseException) :
    ∃ acts, (afterBody b k q sender u₀.sourceName (.error err) c).2.actions =
        c.actions ++ acts ∧
      Handled b k sender u₀ (some (.error (.raised err)))
        (afterBody b k q sender u₀.sourceName (.error err) c).1 acts := by
  rcases eq_or_ne b .oracle with rfl | horacle
  · refine ⟨[.errProcess err u₀.sourceName,
      .postMessage sender { c.utm with ret := k.errDbsError }],
      by simp [afterBody, catchBlock], .failed (fun h => nomatch h) ⟨?_, hid, rfl⟩⟩
    exact ⟨hs.serial, hs.req, hs.sourceName, hs.sql, hs.maxRowCount⟩
  · have hcatch : catchBlock b k sender u₀.sourceName err c =
        if c.utm.ret = 0 && lostConnection err then (.ok (some true), c)
        else (.ok none, (answerError k sender err u₀.sourceName c).2) := by
      cases b with
      | oracle => exact absurd rfl horacle
      | sybase | odbc =>
        simp only [catchBlock, Comp.bind_apply, Comp.get_apply]
        split <;> simp [answerError]
    simp only [afterBody, Comp.bind_apply, hcatch]
    by_cases hl : c.utm.ret = 0 ∧ lostConnection err = true
    · simp only [hl.1, hl.2, decide_true, Bool.and_self, if_true]
      exact afterCatch_handled b k q sender hs hid hret horacle (hret.symm.trans hl.1) hl.2
    · have hc : (decide (c.utm.ret = 0) && lostConnection err) = false := by
        simpa using hl
      simp only [hc, Bool.false_eq_true, if_false, Comp.pure_apply]
      exact answerError_handled b k sender hs hid err
        fun _ hlost h0 => hl ⟨hret.trans h0, hlost⟩

/-- `OnExecSQL` after `PreExecSQL`. -/
theorem onExecSQL_apply (b : Build) (k : SxCode) (maxRowCount : Nat) (q : BaseQuery σ)
    (fuel : Nat) (sender : ServiceIdentifier) (c : Ctx σ) :
    onExecSQL b k maxRowCount q fuel sender c =
      match preExecSQL b k maxRowCount q sender c.utm.sql (entry c) with
      | (.ok true, c') =>
        (attempt (execBody q fuel c.utm.sql) >>= afterBody b k q sender c.utm.sourceName) c'
      | (.ok false, c') => (.ok (), c')
      | (.error e, c') => (.error e, c') := by
  simp only [onExecSQL, Comp.bind_apply, Comp.get_apply, setUtm_apply, entry]
  generalize preExecSQL b k maxRowCount q sender c.utm.sql _ = p
  rcases p with ⟨e | (_ | _), c'⟩ <;> simp

/-- **What `OnExecSQL` can do.** One case for each way the database calls can go. -/
theorem onExecSQL_handled (b : Build) (k : SxCode) (maxRowCount : Nat) (q : BaseQuery σ)
    (fuel : Nat) (sender : ServiceIdentifier) (c : Ctx σ) :
    ∃ acts, (onExecSQL b k maxRowCount q fuel sender c).2.actions = c.actions ++ acts ∧
      Handled b k sender c.utm (attemptResult b k maxRowCount q fuel sender c)
        (onExecSQL b k maxRowCount q fuel sender c).1 acts := by
  have hpre := preExecSQL_prechecked b k maxRowCount q sender c.utm.sql (entry c)
  have hsame : SameRequest (entry c).utm c.utm := ⟨rfl, rfl, rfl, rfl, rfl⟩
  rw [onExecSQL_apply, attemptResult]
  generalize preExecSQL b k maxRowCount q sender c.utm.sql (entry c) = p at hpre
  cases hpre with
  | escaped h => exact ⟨[], by simp [h.actions, entry], .escaped⟩
  | @rejected c' u hs hid hret hacts =>
    exact ⟨[.postMessage sender u], by simp [hacts, entry],
      .rejected ⟨hsame.trans hs, hid, hret⟩⟩
  | @accepted c' h =>
    have hbody := h.trans (keeps_execBody q fuel c.utm.sql c')
    simp only [Comp.bind_apply, attempt]
    generalize execBody q fuel c.utm.sql c' = r at hbody
    have hacts : r.2.actions = c.actions := hbody.actions
    have hs := hsame.trans hbody.same
    have hid : r.2.utm.messageId = .resExecSQL := hbody.messageId
    have hret : r.2.utm.ret = c.utm.ret := hbody.ret
    rcases r with ⟨(err | _) | a, c''⟩
    · simp only at hacts hs hid hret ⊢
      rw [← hacts]
      exact afterBody_handled b k q sender hs hid hret err
    · exact ⟨[], by simpa using hacts, .running⟩
    · simp only at hacts hs hid hret ⊢
      refine ⟨[.postMessage sender { c''.utm with ret := if b = .odbc then 0 else c''.utm.ret }],
        ?_, ?_⟩
      · cases b <;> simp [afterBody, afterCatch, hacts]
      · have hok : (afterBody b k q sender c.utm.sourceName (.ok a) c'').1 = .ok () := by
          cases b <;> simp [afterBody, afterCatch]
        rw [hok]
        exact .completed ⟨⟨hs.serial, hs.req, hs.sourceName, hs.sql, hs.maxRowCount⟩, hid,
          by simp [hret]⟩

/-! ## How `OnExecSQL` ends -/

/-- The one database call of `PreExecSQL` outside its `try` block returns, if it is made. -/
def EffectCountReturns (b : Build) (maxRowCount : Nat) (q : BaseQuery σ) (s : σ)
    (utm : UserTransferMessage) (m_rowCount : Nat) : Prop :=
  b = .sybase → utm.sql ≠ "" → (contains utm.sql "rowcount" && contains utm.sql "set") = false →
    requestedRowCount maxRowCount utm = m_rowCount → ∃ n s', q.effectCount s = (.ok n, s')

/-- Two calls whose errors are caught. -/
theorem attempt_calls {α β : Type} (f : σ → Except BaseException α × σ)
    (g : σ → Except BaseException β × σ) (c : Ctx σ) :
    ∃ r c', attempt (do let _ ← call f; call g) c = (.ok r, c') := by
  simp only [attempt, Comp.bind_apply, call]
  rcases f c.session with ⟨e | a, s⟩
  · exact ⟨_, _, rfl⟩
  · dsimp only
    rcases g s with ⟨e | b, s'⟩ <;> exact ⟨_, _, rfl⟩

/-- `setRowCount` returns, whatever the database does. -/
theorem setRowCount_returns (k : SxCode) (q : BaseQuery σ) (sender : ServiceIdentifier) (n : Nat)
    (c : Ctx σ) : ∃ ok c', setRowCount k q sender n c = (.ok ok, c') := by
  simp only [setRowCount, Comp.bind_apply, Comp.modify_apply]
  obtain ⟨r, c', hr⟩ := attempt_calls (q.command (setRowCountText n)) q.execute
    { c with m_rowCount := n }
  rw [hr]
  cases r with
  | ok => exact ⟨_, _, rfl⟩
  | error => exact ⟨false, _, rfl⟩

/-- `preExecSQL` returns if the call for the number of affected rows does. -/
theorem preExecSQL_returns {b : Build} {maxRowCount : Nat} {q : BaseQuery σ} {c : Ctx σ}
    (h : EffectCountReturns b maxRowCount q c.session c.utm c.m_rowCount) (k : SxCode)
    (sender : ServiceIdentifier) :
    ∃ ok c', preExecSQL b k maxRowCount q sender c.utm.sql (entry c) = (.ok ok, c') := by
  unfold preExecSQL
  split
  · exact ⟨false, _, rfl⟩
  next hne =>
  split
  · split
    · exact ⟨false, _, rfl⟩
    next hset =>
    simp only [Comp.bind_apply, Comp.get_apply]
    split
    · exact setRowCount_returns k q sender _ _
    · next hrow =>
      obtain ⟨n, s', hcount⟩ := h rfl hne (by simpa using hset) (not_not.1 hrow)
      have heff : effectExceeds q c.m_rowCount (entry c) =
          (.ok (decide (n > c.m_rowCount)), { entry c with session := s' }) := by
        simp [effectExceeds, call, entry, hcount]
      simp only [Comp.bind_apply, show (entry c).m_rowCount = c.m_rowCount from rfl, heff]
      split
      · exact setRowCount_returns k q sender _ _
      · exact ⟨true, _, rfl⟩
  · exact ⟨true, _, rfl⟩
  · exact ⟨true, _, rfl⟩

/-- No exception leaves `OnExecSQL` unless `effectCount` throws. -/
theorem onExecSQL_returns {b : Build} {maxRowCount : Nat} {q : BaseQuery σ} {c : Ctx σ}
    (h : EffectCountReturns b maxRowCount q c.session c.utm c.m_rowCount) (k : SxCode)
    (fuel : Nat) (sender : ServiceIdentifier) :
    (onExecSQL b k maxRowCount q fuel sender c).1 = .ok () ∨
      (onExecSQL b k maxRowCount q fuel sender c).1 = .error .hang := by
  obtain ⟨acts, -, hh⟩ := onExecSQL_handled b k maxRowCount q fuel sender c
  obtain ⟨ok, c', hpre⟩ := preExecSQL_returns h k sender
  generalize hr : attemptResult b k maxRowCount q fuel sender c = r at hh
  generalize ho : (onExecSQL b k maxRowCount q fuel sender c).1 = out at hh ⊢
  cases hh with
  | escaped =>
    rw [onExecSQL_apply, hpre] at ho
    cases ok with
    | false => cases ho
    | true => rw [attemptResult, hpre] at hr; cases hr
  | running => exact .inr rfl
  | rejected | completed | failed | ignored | retried => exact .inl rfl

/-! ## The return value of the response -/

/-- When the return value of the response to a request that arrives with return value `ret` tells
whether the statement ran, by the outcome `r` of the database calls. -/
def ReturnTells (b : Build) (ret : Int) (r : Option (Except Fault Unit)) : Prop :=
  match b with
  | .odbc => True
  | .oracle => r = some (.ok ()) → ret = 0
  | .sybase => (r = some (.ok ()) → ret = 0) ∧
      ∀ err, r = some (.error (.raised err)) → lostConnection err = true → ret ≠ 0

/-- **The return value of the response.** For every request, session and behaviour of the database
layer: every response that `OnExecSQL` posts carries return value zero exactly when `PreExecSQL`
accepted the statement and no call of the `try` block threw, if and only if `ReturnTells`. -/
theorem onExecSQL_return_iff (b : Build) (k : SxCode) (maxRowCount : Nat) (q : BaseQuery σ)
    (fuel : Nat) (sender : ServiceIdentifier) (s : σ) (utm : UserTransferMessage)
    (m_rowCount : Nat) :
    (∀ dest u, .postMessage dest u ∈
        (onExecSQL b k maxRowCount q fuel sender ⟨s, utm, m_rowCount, []⟩).2.actions →
      u.messageId = .resExecSQL →
      (u.ret = 0 ↔ attemptResult b k maxRowCount q fuel sender ⟨s, utm, m_rowCount, []⟩ =
        some (.ok ()))) ↔
    ReturnTells b utm.ret
      (attemptResult b k maxRowCount q fuel sender ⟨s, utm, m_rowCount, []⟩) := by
  obtain ⟨acts, hacts, hh⟩ :=
    onExecSQL_handled b k maxRowCount q fuel sender ⟨s, utm, m_rowCount, []⟩
  simp only [List.nil_append] at hacts
  rw [hacts]
  generalize attemptResult b k maxRowCount q fuel sender ⟨s, utm, m_rowCount, []⟩ = r at hh ⊢
  generalize (onExecSQL b k maxRowCount q fuel sender ⟨s, utm, m_rowCount, []⟩).1 = out at hh
  have hne := k.errDbsError_ne_zero
  cases hh with
  | rejected hu => cases b <;> simp [ReturnTells, hu.messageId, hu.ret, hne]
  | escaped | running => cases b <;> simp [ReturnTells]
  | completed hu => cases b <;> simp [ReturnTells, hu.messageId, hu.ret]
  | failed hlost hu =>
    cases b with
    | sybase => simpa [ReturnTells, hu.messageId, hu.ret, hne] using hlost rfl
    | oracle | odbc => simp [ReturnTells, hu.messageId, hu.ret, hne]
  | ignored hb h0 hl hu =>
    subst hb
    simpa [ReturnTells, hu.messageId, hu.ret, hl] using h0
  | retried hb => subst hb; simp [ReturnTells]

end

end

/-! ## A lost connection in the Sybase build -/

namespace LostConnection

/-- The exception of a broken communication link. -/
def err : BaseException := ⟨.dbError, "08S01", "DBERROR", "communication link failure"⟩

/-- A session whose link is broken: `command` throws, the other calls answer nothing. -/
def query : BaseQuery Unit where
  command _ s := (.error err, s)
  outputCount s := (.ok 0, s)
  registerOutParam _ s := (.ok (), s)
  execute s := (.ok (), s)
  fieldCount s := (.ok 0, s)
  eof s := (.ok true, s)
  fetchNext s := (.ok (), s)
  fieldAsString _ s := (.ok "", s)
  outParamAsString _ s := (.ok "", s)
  fieldInfoName _ s := (.ok none, s)
  effectCount s := (.ok 0, s)
  odbcReconnect s := (.ok (), s)

/-- A request as a client sends it, with return value zero. -/
def request : UserTransferMessage :=
  ⟨.reqExecSQL, 7, 0, 0, "bill", "delete from t", 0, 0, [], [], 0⟩

/-- The code of a failed request. -/
def code : SxCode := ⟨-1, by decide⟩

/-- The link is lost, the `catch` block of the Sybase build sets `tryconnect` and nothing looks at
it, and the response of the statement that did not run carries return value zero. -/
theorem not_return_tells :
    ¬ ∀ dest u, .postMessage dest u ∈
        (onExecSQL .sybase code 200 query 1 7 ⟨(), request, 200, []⟩).2.actions →
      u.messageId = .resExecSQL →
      (u.ret = 0 ↔ attemptResult .sybase code 200 query 1 7 ⟨(), request, 200, []⟩ =
        some (.ok ())) := by
  intro h
  have hpost : .postMessage 7 { request with messageId := .resExecSQL, res := 7 } ∈
      (onExecSQL .sybase code 200 query 1 7 ⟨(), request, 200, []⟩).2.actions := by decide
  have hres : attemptResult .sybase code 200 query 1 7 ⟨(), request, 200, []⟩ =
      some (.error (.raised err)) := rfl
  have := (h 7 _ hpost rfl).1 rfl
  rw [hres] at this
  cases this

end LostConnection

end TelecomSuite.Dagw
