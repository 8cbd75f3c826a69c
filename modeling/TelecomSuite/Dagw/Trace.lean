import TelecomSuite.Dagw.Service

/-!
# The statements a worker sends

What reaches the database of one `OnExecSQL` are the calls of `command` and `execute`. A query is
run with a log of these two calls and of how each of them ended (`BaseQuery.traced`). The log
changes nothing else (`traced_exec`), so `Db.trace` is what the gateway's step `exec` sends.
`Db.trace_eq` splits it at the end of `PreExecSQL`: first the `set rowcount` statement, if one is
sent, and then the client's.
-/

namespace TelecomSuite.Dagw

open Fallible

/-! ## The log -/

/-- A call that sends something to the database, and whether it returned. -/
inductive DbCall
  | command (sql : String) (ok : Bool)
  | execute (ok : Bool)
  deriving DecidableEq, Repr

section
variable {σ τ α : Type}

/-- A call that adds `note` to the log. -/
def logCall (f : σ → Except BaseException α × σ) (note : Bool → List DbCall) :
    σ × List DbCall → Except BaseException α × σ × List DbCall := fun p =>
  ((f p.1).1, (f p.1).2, p.2 ++ note (f p.1).1.toBool)

/-- The query with the log. -/
def BaseQuery.traced (q : BaseQuery σ) : BaseQuery (σ × List DbCall) where
  command sql := logCall (q.command sql) fun ok => [.command sql ok]
  outputCount := logCall q.outputCount fun _ => []
  registerOutParam i := logCall (q.registerOutParam i) fun _ => []
  execute := logCall q.execute fun ok => [.execute ok]
  fieldCount := logCall q.fieldCount fun _ => []
  eof := logCall q.eof fun _ => []
  fetchNext := logCall q.fetchNext fun _ => []
  fieldAsString i := logCall (q.fieldAsString i) fun _ => []
  outParamAsString i := logCall (q.outParamAsString i) fun _ => []
  fieldInfoName i := logCall (q.fieldInfoName i) fun _ => []
  effectCount := logCall q.effectCount fun _ => []
  odbcReconnect := logCall q.odbcReconnect fun _ => []

/-! ## A query over a larger session -/

/-- The query over the sessions `τ` answers every call as the one over their parts `e` does. -/
structure BaseQuery.Refines (q' : BaseQuery τ) (e : τ → σ) (q : BaseQuery σ) : Prop where
  command : ∀ sql t, q.command sql (e t) = ((q'.command sql t).1, e (q'.command sql t).2)
  outputCount : ∀ t, q.outputCount (e t) = ((q'.outputCount t).1, e (q'.outputCount t).2)
  registerOutParam : ∀ i t,
    q.registerOutParam i (e t) = ((q'.registerOutParam i t).1, e (q'.registerOutParam i t).2)
  execute : ∀ t, q.execute (e t) = ((q'.execute t).1, e (q'.execute t).2)
  fieldCount : ∀ t, q.fieldCount (e t) = ((q'.fieldCount t).1, e (q'.fieldCount t).2)
  eof : ∀ t, q.eof (e t) = ((q'.eof t).1, e (q'.eof t).2)
  fetchNext : ∀ t, q.fetchNext (e t) = ((q'.fetchNext t).1, e (q'.fetchNext t).2)
  fieldAsString : ∀ i t,
    q.fieldAsString i (e t) = ((q'.fieldAsString i t).1, e (q'.fieldAsString i t).2)
  outParamAsString : ∀ i t,
    q.outParamAsString i (e t) = ((q'.outParamAsString i t).1, e (q'.outParamAsString i t).2)
  fieldInfoName : ∀ i t,
    q.fieldInfoName i (e t) = ((q'.fieldInfoName i t).1, e (q'.fieldInfoName i t).2)
  effectCount : ∀ t, q.effectCount (e t) = ((q'.effectCount t).1, e (q'.effectCount t).2)
  odbcReconnect : ∀ t, q.odbcReconnect (e t) = ((q'.odbcReconnect t).1, e (q'.odbcReconnect t).2)

/-- Writing down the calls changes nothing else. -/
theorem BaseQuery.traced_refines (q : BaseQuery σ) : q.traced.Refines Prod.fst q where
  command _ _ := rfl
  outputCount _ := rfl
  registerOutParam _ _ := rfl
  execute _ := rfl
  fieldCount _ := rfl
  eof _ := rfl
  fetchNext _ := rfl
  fieldAsString _ _ := rfl
  outParamAsString _ _ := rfl
  fieldInfoName _ _ := rfl
  effectCount _ := rfl
  odbcReconnect _ := rfl

/-- The message with another arrival number. -/
def UserTransferMessage.renumber (r : Nat → Nat) (u : UserTransferMessage) : UserTransferMessage :=
  { u with serial := r u.serial }

/-- The action with another number for its message. -/
def Action.renumber (r : Nat → Nat) : Action → Action
  | .postMessage dest u => .postMessage dest (u.renumber r)
  | .errProcess err src => .errProcess err src
  | .process u => .process (u.renumber r)

/-- The variables with the part `e` of the session and with other arrival numbers. -/
def Ctx.map (e : τ → σ) (r : Nat → Nat) (c : Ctx τ) : Ctx σ :=
  ⟨e c.session, c.utm.renumber r, c.m_rowCount, c.actions.map (Action.renumber r)⟩

section
variable {e : τ → σ} {r : Nat → Nat}

/-! Each part of `OnExecSQL` over `q'`, seen through `e` and `r`, is the same part over `q`. -/

/-- A call, where the database below does the same. -/
theorem erases_call {f' : τ → Except BaseException α × τ} {f : σ → Except BaseException α × σ}
    (h : ∀ t, f (e t) = ((f' t).1, e (f' t).2)) : Erases (Ctx.map e r) (call f') (call f) := by
  intro c
  simp only [call, Ctx.map, h]
  rcases f' c.session with ⟨err | a, t⟩ <;> rfl

/-- A call whose error is caught. -/
theorem erases_attempt {m' : Exec τ α} {m : Exec σ α} (h : Erases (Ctx.map e r) m' m) :
    Erases (Ctx.map e r) (attempt m') (attempt m) := by
  intro c
  simp only [attempt, h c]
  rcases m' c with ⟨(err | _) | a, c'⟩ <;> rfl

/-- An assignment to a tag. -/
theorem erases_setUtm {f : UserTransferMessage → UserTransferMessage}
    (h : ∀ u, f (u.renumber r) = (f u).renumber r := by exact fun _ => rfl) :
    Erases (Ctx.map e r) (setUtm f : Exec τ Unit) (setUtm f) := by
  refine .modify ?_
  intro c
  simp only [Ctx.map, h]

/-- The message is posted. -/
theorem erases_postMessage (sender : ServiceIdentifier) :
    Erases (Ctx.map e r) (postMessage sender : Exec τ Unit) (postMessage sender) := by
  refine .modify ?_
  intro c
  simp only [Ctx.map, List.map_append, List.map_singleton, Action.renumber]

/-- The error is reported. -/
theorem erases_reportError (err : BaseException) (src : String) :
    Erases (Ctx.map e r) (reportError err src : Exec τ Unit) (reportError err src) := by
  refine .modify ?_
  intro c
  simp only [Ctx.map, List.map_append, List.map_singleton, Action.renumber]

/-- The message is put back into the queue. -/
theorem erases_processAgain :
    Erases (Ctx.map e r) (processAgain : Exec τ Unit) processAgain := by
  refine .modify ?_
  intro c
  simp only [Ctx.map, List.map_append, List.map_singleton, Action.renumber]

variable {q' : BaseQuery τ} {q : BaseQuery σ}

/-- The loop over the out parameters. -/
theorem erases_registerOutParams (h : q'.Refines e q) (fuel i : Nat) :
    Erases (Ctx.map e r) (registerOutParams q' fuel i) (registerOutParams q fuel i) := by
  induction fuel generalizing i with
  | zero => exact .throw _
  | succ fuel ih =>
    refine (erases_call h.outputCount).bind fun n => .ite ?_ (.pure _)
    exact (erases_call (h.registerOutParam i)).bind fun _ => ih (i + 1)

/-- The loop over the fields of a row. -/
theorem erases_rowFields (h : q'.Refines e q) (n i : Nat) :
    Erases (Ctx.map e r) (rowFields q' n i) (rowFields q n i) := by
  induction n generalizing i with
  | zero => exact .pure _
  | succ n ih =>
    exact (erases_call (h.fieldAsString i)).bind fun _ => (ih (i + 1)).bind fun _ => .pure _

/-- The loop over the rows. -/
theorem erases_fetchRows (h : q'.Refines e q) (fieldcount fuel : Nat) :
    Erases (Ctx.map e r) (fetchRows q' fieldcount fuel) (fetchRows q fieldcount fuel) := by
  induction fuel with
  | zero => exact .throw _
  | succ fuel ih =>
    refine (erases_call h.eof).bind fun eof => .ite (.pure _) ?_
    exact (erases_call h.fetchNext).bind fun _ => (erases_rowFields h _ _).bind fun _ =>
      ih.bind fun _ => .pure _

/-- The loop over the values of the out parameters. -/
theorem erases_outParams (h : q'.Refines e q) (fuel i : Nat) :
    Erases (Ctx.map e r) (outParams q' fuel i) (outParams q fuel i) := by
  induction fuel generalizing i with
  | zero => exact .throw _
  | succ fuel ih =>
    refine (erases_call h.outputCount).bind fun n => .ite ?_ (.pure _)
    exact (erases_call (h.outParamAsString i)).bind fun _ => (ih (i + 1)).bind fun _ => .pure _

/-- The loop over the names of the fields. -/
theorem erases_fieldNames (h : q'.Refines e q) (n i : Nat) :
    Erases (Ctx.map e r) (fieldNames q' n i) (fieldNames q n i) := by
  induction n generalizing i with
  | zero => exact .pure _
  | succ n ih =>
    exact (erases_call (h.fieldInfoName i)).bind fun _ => (ih (i + 1)).bind fun _ => .pure _

/-- The result that is put together. -/
theorem erases_resultOf (h : q'.Refines e q) (fuel rowcount : Nat) (rows : List String) :
    Erases (Ctx.map e r) (resultOf q' fuel rowcount rows) (resultOf q fuel rowcount rows) := by
  refine .ite ?_ (.pure _)
  exact (erases_outParams h fuel 1).bind fun _ => (erases_call h.outputCount).bind fun _ =>
    (erases_setUtm).bind fun _ => .pure _

/-- The body up to the execution. -/
theorem erases_untilExecute (h : q'.Refines e q) (fuel : Nat) (sql : String) :
    Erases (Ctx.map e r) (untilExecute q' fuel sql) (untilExecute q fuel sql) :=
  (erases_call (h.command sql)).bind fun _ => (erases_registerOutParams h fuel 1).bind fun _ =>
    erases_call h.execute

/-- All that is fetched. -/
theorem erases_fetchAll (h : q'.Refines e q) (fuel : Nat) :
    Erases (Ctx.map e r) (fetchAll q' fuel) (fetchAll q fuel) :=
  (erases_call h.fieldCount).bind fun _ => (erases_setUtm).bind fun _ =>
    (erases_fetchRows h _ fuel).bind fun _ => (erases_resultOf h fuel _ _).bind fun _ =>
    (erases_setUtm).bind fun _ => (erases_fieldNames h _ 0).bind fun _ => erases_setUtm

/-- The whole body. -/
theorem erases_execBody (h : q'.Refines e q) (fuel : Nat) (sql : String) :
    Erases (Ctx.map e r) (execBody q' fuel sql) (execBody q fuel sql) := by
  rw [execBody_eq, execBody_eq]
  exact (erases_untilExecute h fuel sql).bind fun _ => erases_fetchAll h fuel

/-- A rejected request. -/
theorem erases_reject (k : SxCode) (sender : ServiceIdentifier) :
    Erases (Ctx.map e r) (reject k sender) (reject k sender) :=
  (erases_setUtm).bind fun _ => (erases_postMessage _).bind fun _ => .pure _

/-- The limit on rows. -/
theorem erases_setRowCount (h : q'.Refines e q) (k : SxCode) (sender : ServiceIdentifier)
    (rowCount : Nat) :
    Erases (Ctx.map e r) (setRowCount k q' sender rowCount) (setRowCount k q sender rowCount) := by
  refine Erases.bind (.modify fun _ => rfl) ?_
  intro _
  refine Erases.bind (erases_attempt ?_) ?_
  · exact (erases_call (h.command _)).bind fun _ => erases_call h.execute
  · intro out
    cases out with
    | ok => exact .pure true
    | error => exact erases_reject k sender

/-- What comes before the body. -/
theorem erases_preExecSQL (h : q'.Refines e q) (b : Build) (k : SxCode) (maxRowCount : Nat)
    (sender : ServiceIdentifier) (sql : String) :
    Erases (Ctx.map e r) (preExecSQL b k maxRowCount q' sender sql)
      (preExecSQL b k maxRowCount q sender sql) := by
  refine .ite (erases_reject k sender) ?_
  cases b with
  | oracle | odbc => exact .pure true
  | sybase =>
    refine .ite (erases_reject k sender) (.get_bind ?_)
    intro c
    refine .ite (erases_setRowCount h k sender _) ?_
    refine Erases.bind ?_ fun exceeds => .ite (erases_setRowCount h k sender _) (.pure true)
    unfold effectExceeds
    rw [map_eq_pure_bind, map_eq_pure_bind]
    exact (erases_call h.effectCount).bind fun _ => .pure _

/-- The answer to an error. -/
theorem erases_answerError (k : SxCode) (sender : ServiceIdentifier) (err : BaseException)
    (src : String) :
    Erases (Ctx.map e r) (answerError k sender err src) (answerError k sender err src) :=
  (erases_setUtm).bind fun _ => (erases_reportError err src).bind fun _ => erases_postMessage _

/-- The `catch` block of each build. -/
theorem erases_catchBlock (b : Build) (k : SxCode) (sender : ServiceIdentifier) (src : String)
    (err : BaseException) :
    Erases (Ctx.map e r) (catchBlock b k sender src err) (catchBlock b k sender src err) := by
  cases b with
  | oracle =>
    exact (erases_setUtm).bind fun _ => (erases_reportError err src).bind fun _ =>
      Erases.bind (.modify fun _ => rfl) fun _ => (erases_postMessage _).bind fun _ => .pure _
  | sybase | odbc =>
    refine .get_bind fun c => .ite (.pure _) ?_
    exact (erases_answerError k sender err src).bind fun _ => .pure _

/-- What comes after it. -/
theorem erases_afterCatch (h : q'.Refines e q) (b : Build) (k : SxCode)
    (sender : ServiceIdentifier) (src : String) (tryconnect : Bool) :
    Erases (Ctx.map e r) (afterCatch b k q' sender src tryconnect)
      (afterCatch b k q sender src tryconnect) := by
  cases b with
  | sybase | oracle => exact erases_postMessage sender
  | odbc =>
    refine .ite ?_ ((erases_setUtm).bind fun _ => erases_postMessage sender)
    refine (erases_attempt (erases_call h.odbcReconnect)).bind ?_
    intro out
    cases out with
    | error err => exact erases_answerError k sender err src
    | ok => exact (erases_setUtm).bind fun _ => erases_processAgain

/-- All that comes after the body. -/
theorem erases_afterBody (h : q'.Refines e q) (b : Build) (k : SxCode)
    (sender : ServiceIdentifier) (src : String) (out : Except BaseException Unit) :
    Erases (Ctx.map e r) (afterBody b k q' sender src out) (afterBody b k q sender src out) := by
  cases out with
  | ok => exact erases_afterCatch h b k sender src false
  | error err =>
    refine (erases_catchBlock b k sender src err).bind ?_
    intro tryconnect
    cases tryconnect with
    | none => exact .pure ()
    | some tryconnect => exact erases_afterCatch h b k sender src tryconnect

/-- `OnExecSQL` does the same with both queries. -/
theorem erases_onExecSQL (h : q'.Refines e q) (b : Build) (k : SxCode) (maxRowCount fuel : Nat)
    (sender : ServiceIdentifier) :
    Erases (Ctx.map e r) (onExecSQL b k maxRowCount q' fuel sender)
      (onExecSQL b k maxRowCount q fuel sender) := by
  refine .get_bind fun c => (erases_setUtm).bind ?_
  intro _
  refine (erases_preExecSQL h b k maxRowCount sender _).bind fun ok => .ite ?_ (.pure ())
  exact (erases_attempt (erases_execBody h fuel _)).bind fun out =>
    erases_afterBody h b k sender _ out

end

/-! ## What the calls send -/

/-- The log is the same. -/
def SameLog (c c' : Ctx (σ × List DbCall)) : Prop := c'.session.2 = c.session.2

/-- `SameLog` is reflexive and transitive. -/
instance : IsPreorder (Ctx (σ × List DbCall)) SameLog where
  refl _ := rfl
  trans _ _ _ h h' := Eq.trans h' h

/-- A call that is written down, with a note of whether it returned. -/
theorem call_logCall (f : σ → Except BaseException α × σ) (note : Bool → List DbCall)
    (c : Ctx (σ × List DbCall)) : call (logCall f note) c =
      match f c.session.1 with
      | (.ok a, s) => (.ok a, { c with session := (s, c.session.2 ++ note true) })
      | (.error e, s) =>
        (.error (.raised e), { c with session := (s, c.session.2 ++ note false) }) := by
  simp only [call, logCall]
  rcases f c.session.1 with ⟨e | a, s⟩ <;> rfl

/-- A call without a note leaves the log alone. -/
theorem sameLog_call (f : σ → Except BaseException α × σ) :
    Keeps SameLog (call (logCall f fun _ => [])) := by
  intro c
  rw [call_logCall]
  rcases f c.session.1 with ⟨e | a, s⟩ <;> exact List.append_nil _

/-- Fetching writes nothing into the log. -/
theorem fetching_sameLog (q : BaseQuery σ) : Fetching SameLog q.traced where
  outputCount := sameLog_call _
  registerOutParam _ := sameLog_call _
  fieldCount := sameLog_call _
  eof := sameLog_call _
  fetchNext := sameLog_call _
  fieldAsString _ := sameLog_call _
  outParamAsString _ := sameLog_call _
  fieldInfoName _ := sameLog_call _
  tags _ _ _ := rfl

/-- The worker's `m_rowCount` is the same. -/
def SameRowCount (c c' : Ctx σ) : Prop := c'.m_rowCount = c.m_rowCount

/-- `SameRowCount` is reflexive and transitive. -/
instance : IsPreorder (Ctx σ) SameRowCount where
  refl _ := rfl
  trans _ _ _ h h' := Eq.trans h' h

/-- A call of the database leaves the limit alone. -/
theorem sameRowCount_call (f : σ → Except BaseException α × σ) :
    Keeps SameRowCount (call f : Exec σ α) := by
  intro c
  unfold call
  rcases f c.session with ⟨e | a, s⟩ <;> rfl

/-- So does fetching. -/
theorem fetching_sameRowCount (q : BaseQuery σ) : Fetching SameRowCount q where
  outputCount := sameRowCount_call _
  registerOutParam _ := sameRowCount_call _
  fieldCount := sameRowCount_call _
  eof := sameRowCount_call _
  fetchNext := sameRowCount_call _
  fieldAsString _ := sameRowCount_call _
  outParamAsString _ := sameRowCount_call _
  fieldInfoName _ := sameRowCount_call _
  tags _ _ _ := rfl

/-- What is sent of a statement, by how the calls up to `execute` end. -/
inductive Sends (sql : String) : Except Fault Unit → List DbCall → Prop
  | refused {f : Fault} : Sends sql (.error f) [.command sql false]
  | prepared {f : Fault} : Sends sql (.error f) [.command sql true]
  | failed {f : Fault} : Sends sql (.error f) [.command sql true, .execute false]
  | executed : Sends sql (.ok ()) [.command sql true, .execute true]

/-- `command`, something that sends nothing, and `execute`. -/
theorem sends_command {m : Exec (σ × List DbCall) Unit} (hm : Keeps SameLog m) (q : BaseQuery σ)
    (sql : String) (c : Ctx (σ × List DbCall)) :
    ∃ l, ((do call (q.traced.command sql); m; call q.traced.execute) c).2.session.2 =
        c.session.2 ++ l ∧
      Sends sql ((do call (q.traced.command sql); m; call q.traced.execute) c).1 l := by
  have hcommand := call_logCall (q.command sql) (fun ok => [.command sql ok]) c
  change call (q.traced.command sql) c = _ at hcommand
  simp only [Comp.bind_apply]
  rcases hq : q.command sql c.session.1 with ⟨e | a, s⟩
  all_goals rw [hq] at hcommand; rw [hcommand]; dsimp only
  · exact ⟨_, rfl, .refused⟩
  · have hsame := hm { c with session := (s, c.session.2 ++ [.command sql true]) }
    generalize m { c with session := (s, c.session.2 ++ [.command sql true]) } = r at hsame
    have hlog : r.2.session.2 = c.session.2 ++ [.command sql true] := hsame
    rcases r with ⟨f | b, c₁⟩
    all_goals dsimp only at hlog ⊢
    · exact ⟨_, hlog, .prepared⟩
    · have hexecute := call_logCall q.execute (fun ok => [.execute ok]) c₁
      change call q.traced.execute c₁ = _ at hexecute
      rcases hq₁ : q.execute c₁.session.1 with ⟨e | a, s⟩
      all_goals
        rw [hq₁] at hexecute
        rw [hexecute]
        dsimp only
        rw [hlog, List.append_assoc]
      · exact ⟨_, rfl, .failed⟩
      · exact ⟨_, rfl, .executed⟩

/-- What the `try` block sends, by how its calls up to `execute` end. -/
theorem sends_execBody (q : BaseQuery σ) (fuel : Nat) (sql : String)
    (c : Ctx (σ × List DbCall)) :
    ∃ l, (execBody q.traced fuel sql c).2.session.2 = c.session.2 ++ l ∧
      Sends sql (untilExecute q fuel sql (c.map Prod.fst id)).1 l := by
  obtain ⟨l, hl, hsends⟩ := sends_command ((fetching_sameLog q).registerOutParams fuel 1) q sql c
  have hplain := erases_untilExecute (r := id) q.traced_refines fuel sql c
  refine ⟨l, ?_, by rw [hplain]; exact hsends⟩
  rw [execBody_eq, Comp.bind_apply]
  change (untilExecute q.traced fuel sql c).2.session.2 = _ at hl
  generalize untilExecute q.traced fuel sql c = r at hl ⊢
  rcases r with ⟨f | a, c₁⟩
  · exact hl
  · exact ((fetching_sameLog q).fetchAll fuel c₁).trans hl

/-- What `PreExecSQL` sends in each build for a request with the row limit `rowCount`, by its
outcome and the worker's `m_rowCount` before and after it. -/
inductive PreSends (b : Build) (q : BaseQuery σ) (s : σ) (sql : String) (rowCount rc : Nat) :
    Except Fault Bool → Nat → List DbCall → Prop
  | rejected : PreSends b q s sql rowCount rc (.ok false) rc []
  | escaped {f : Fault} : b = .sybase → PreSends b q s sql rowCount rc (.error f) rc []
  | unlimited : b ≠ .sybase → PreSends b q s sql rowCount rc (.ok true) rc []
  | cached {n : Nat} : b = .sybase → (contains sql "rowcount" && contains sql "set") = false →
      rowCount = rc → (q.effectCount s).1 = .ok n → n ≤ rc →
      PreSends b q s sql rowCount rc (.ok true) rc []
  | sent {r : Except Fault Unit} {l : List DbCall} : b = .sybase →
      (contains sql "rowcount" && contains sql "set") = false →
      Sends (setRowCountText rowCount) r l →
      PreSends b q s sql rowCount rc (.ok r.toBool) rowCount l

/-- What `setRowCount` sends before a statement that sets no limit itself. -/
theorem preSends_setRowCount (b : Build) (k : SxCode) (q : BaseQuery σ)
    (sender : ServiceIdentifier) {sql : String} (rowCount : Nat) (s : σ) (rc : Nat)
    (c : Ctx (σ × List DbCall)) (hb : b = .sybase)
    (hsql : (contains sql "rowcount" && contains sql "set") = false) :
    ∃ l, (setRowCount k q.traced sender rowCount c).2.session.2 = c.session.2 ++ l ∧
      PreSends b q s sql rowCount rc (setRowCount k q.traced sender rowCount c).1
        (setRowCount k q.traced sender rowCount c).2.m_rowCount l := by
  obtain ⟨l, hl, hsends⟩ := sends_command (Keeps.pure ()) q (setRowCountText rowCount)
    { c with m_rowCount := rowCount }
  refine ⟨l, ?_⟩
  have hrows : Keeps SameRowCount (do
      call (q.traced.command (setRowCountText rowCount))
      call q.traced.execute) :=
    (sameRowCount_call _).bind fun _ => sameRowCount_call _
  have hrow := hrows { c with m_rowCount := rowCount }
  obtain ⟨r', c', hr⟩ := attempt_calls (q.traced.command (setRowCountText rowCount))
    q.traced.execute { c with m_rowCount := rowCount }
  simp only [pure_bind] at hl hsends
  simp only [setRowCount, Comp.bind_apply (m := modify _), Comp.modify_apply]
  rw [Comp.bind_apply, hr]
  simp only [attempt] at hr
  generalize (do
      call (q.traced.command (setRowCountText rowCount))
      call q.traced.execute : Exec (σ × List DbCall) Unit) { c with m_rowCount := rowCount } = r
    at hl hsends hrow hr
  rcases r with ⟨(err | _) | a, c₁⟩ <;> cases hr
  all_goals
    refine ⟨hl, ?_⟩
    have hrow' : c'.m_rowCount = rowCount := hrow
  · change PreSends b q s sql rowCount rc (.ok false) c'.m_rowCount l
    rw [hrow']
    exact .sent hb hsql hsends
  · change PreSends b q s sql rowCount rc (.ok true) c'.m_rowCount l
    rw [hrow']
    exact .sent hb hsql hsends

/-- **What `PreExecSQL` sends.** -/
theorem preExecSQL_sends (b : Build) (k : SxCode) (maxRowCount : Nat) (q : BaseQuery σ)
    (sender : ServiceIdentifier) (sql : String) (c : Ctx (σ × List DbCall)) :
    ∃ l, (preExecSQL b k maxRowCount q.traced sender sql c).2.session.2 = c.session.2 ++ l ∧
      PreSends b q c.session.1 sql (requestedRowCount maxRowCount c.utm) c.m_rowCount
        (preExecSQL b k maxRowCount q.traced sender sql c).1
        (preExecSQL b k maxRowCount q.traced sender sql c).2.m_rowCount l := by
  unfold preExecSQL
  split
  · exact ⟨[], (List.append_nil _).symm, .rejected⟩
  cases b with
  | oracle | odbc => exact ⟨[], (List.append_nil _).symm, .unlimited nofun⟩
  | sybase =>
    dsimp only
    split
    · exact ⟨[], (List.append_nil _).symm, .rejected⟩
    next hset =>
    have hsql : (contains sql "rowcount" && contains sql "set") = false := by simpa using hset
    simp only [Comp.bind_apply, Comp.get_apply]
    split
    · exact preSends_setRowCount .sybase k q sender _ _ _ c rfl hsql
    · next hrow =>
      have hcount := call_logCall q.effectCount (fun _ => []) c
      change call q.traced.effectCount c = _ at hcount
      rw [Comp.bind_apply, effectExceeds, Comp.map_apply, hcount, List.append_nil]
      rcases hq : q.effectCount c.session.1 with ⟨err | n, s⟩
      · exact ⟨[], (List.append_nil _).symm, .escaped rfl⟩
      · dsimp only
        split
        · exact preSends_setRowCount .sybase k q sender (requestedRowCount maxRowCount c.utm)
            c.session.1 c.m_rowCount { c with session := (s, c.session.2) } rfl hsql
        · next hexceeds =>
          refine ⟨[], (List.append_nil _).symm, .cached rfl hsql (not_not.1 hrow) (by rw [hq]) ?_⟩
          simpa using hexceeds

/-- What follows the `try` block assigns to the variables other than the session, to `m_rowCount`
only in the Oracle build, and calls nothing but `_odbcReconnect`. -/
theorem keeps_afterBody {R : Ctx σ → Ctx σ → Prop} [IsPreorder (Ctx σ) R] (b : Build) (k : SxCode)
    (q : BaseQuery σ) (sender : ServiceIdentifier) (src : String)
    (hmodify : ∀ f : Ctx σ → Ctx σ, (∀ c, (f c).session = c.session) →
      (b = .oracle ∨ ∀ c, (f c).m_rowCount = c.m_rowCount) → Keeps R (modify f : Exec σ Unit))
    (hodbc : Keeps R (call q.odbcReconnect)) (r : Except BaseException Unit) :
    Keeps R (afterBody b k q sender src r) := by
  have hset (f : UserTransferMessage → UserTransferMessage) : Keeps R (setUtm f : Exec σ Unit) :=
    hmodify _ (fun _ => rfl) (.inr fun _ => rfl)
  have hpost : Keeps R (postMessage sender : Exec σ Unit) :=
    hmodify _ (fun _ => rfl) (.inr fun _ => rfl)
  have hreport (err : BaseException) : Keeps R (reportError err src : Exec σ Unit) :=
    hmodify _ (fun _ => rfl) (.inr fun _ => rfl)
  have hanswer (err : BaseException) : Keeps R (answerError k sender err src : Exec σ Unit) :=
    (hset _).bind fun _ => (hreport err).bind fun _ => hpost
  have hcatch (tryconnect : Bool) : Keeps R (afterCatch b k q sender src tryconnect) := by
    cases b with
    | sybase | oracle => exact hpost
    | odbc =>
      refine .ite ?_ ((hset _).bind fun _ => hpost)
      refine (keeps_attempt hodbc).bind ?_
      intro r
      cases r with
      | error err => exact hanswer err
      | ok => exact (hset _).bind fun _ => hmodify _ (fun _ => rfl) (.inr fun _ => rfl)
  cases r with
  | ok => exact hcatch false
  | error err =>
    refine Keeps.bind (m := catchBlock b k sender src err) ?_ ?_
    · cases b with
      | oracle =>
        exact (hset _).bind fun _ => (hreport err).bind fun _ =>
          Keeps.bind (hmodify _ (fun _ => rfl) (.inl rfl)) fun _ => hpost.bind fun _ => .pure _
      | sybase | odbc =>
        exact Keeps.get.bind fun c => .ite (.pure _) ((hanswer err).bind fun _ => .pure _)
    · intro r
      cases r with
      | none => exact .pure ()
      | some tryconnect => exact hcatch tryconnect

/-- Nothing is sent after the body. -/
theorem sameLog_afterBody (b : Build) (k : SxCode) (q : BaseQuery σ) (sender : ServiceIdentifier)
    (src : String) (r : Except BaseException Unit) :
    Keeps SameLog (afterBody b k q.traced sender src r) :=
  keeps_afterBody (R := SameLog) b k q.traced sender src (fun _ h _ c => congrArg Prod.snd (h c))
    (sameLog_call _) r

/-- Nor is the limit changed there, in the builds for ODBC and Sybase. -/
theorem sameRowCount_afterBody {b : Build} (hb : b ≠ .oracle) (k : SxCode) (q : BaseQuery σ)
    (sender : ServiceIdentifier) (src : String) (r : Except BaseException Unit) :
    Keeps SameRowCount (afterBody b k q sender src r) :=
  keeps_afterBody b k q sender src (fun _ _ h c => h.resolve_left hb c) (sameRowCount_call _) r

end

/-! ## What a request sends -/

/-- The database layer with the log. -/
def Db.traced (db : Db) : Db := ⟨db.σ × List DbCall, db.query.traced, (db.session, []), db.fuel⟩

/-- What a worker sends while it handles a request. -/
def Db.trace (db : Db) (cfg : Cfg) (rc : Nat) (utm : UserTransferMessage) : List DbCall :=
  (db.traced.exec cfg rc utm).2.session.2

/-- The log changes nothing. -/
theorem traced_exec (db : Db) (cfg : Cfg) (rc : Nat) (utm : UserTransferMessage) :
    db.exec cfg rc utm =
      ((db.traced.exec cfg rc utm).1, (db.traced.exec cfg rc utm).2.map Prod.fst id) :=
  erases_onExecSQL (r := id) db.query.traced_refines cfg.build cfg.code cfg.m_MaxRowCount db.fuel
    utm.req ⟨(db.session, []), utm, rc, []⟩

/-- The variables when `OnExecSQL` calls `PreExecSQL`. -/
def Db.start (db : Db) (rc : Nat) (utm : UserTransferMessage) : Ctx db.σ :=
  entry ⟨db.session, utm, rc, []⟩

/-- `PreExecSQL` as `OnExecSQL` calls it. -/
def Db.pre (db : Db) (cfg : Cfg) (rc : Nat) (utm : UserTransferMessage) :
    Except Fault Bool × Ctx db.σ :=
  preExecSQL cfg.build cfg.code cfg.m_MaxRowCount db.query utm.req utm.sql (db.start rc utm)

/-- What `PreExecSQL` sends of it. -/
def Db.preTrace (db : Db) (cfg : Cfg) (rc : Nat) (utm : UserTransferMessage) : List DbCall :=
  (db.traced.pre cfg rc utm).2.session.2

/-- **What a request sends.** First what `PreExecSQL` sends, and then, if it accepts, the client's
statement. -/
theorem Db.trace_eq (db : Db) (cfg : Cfg) (rc : Nat) (utm : UserTransferMessage) :
    PreSends cfg.build db.query db.session utm.sql (requestedRowCount cfg.m_MaxRowCount utm) rc
        (db.pre cfg rc utm).1 (db.pre cfg rc utm).2.m_rowCount (db.preTrace cfg rc utm) ∧
      ∃ l, db.trace cfg rc utm = db.preTrace cfg rc utm ++ l ∧
        ((db.pre cfg rc utm).1 = .ok true ∧
            Sends utm.sql (untilExecute db.query db.fuel utm.sql (db.pre cfg rc utm).2).1 l ∨
          (db.pre cfg rc utm).1 ≠ .ok true ∧ l = []) := by
  obtain ⟨l, hl, hpre⟩ := preExecSQL_sends cfg.build cfg.code cfg.m_MaxRowCount db.query utm.req
    utm.sql (entry ⟨(db.session, []), utm, rc, []⟩)
  have hplain := erases_preExecSQL (r := id) db.query.traced_refines cfg.build cfg.code
    cfg.m_MaxRowCount utm.req utm.sql (entry ⟨(db.session, []), utm, rc, []⟩)
  change db.pre cfg rc utm = _ at hplain
  have hpreTrace : db.preTrace cfg rc utm = (preExecSQL cfg.build cfg.code cfg.m_MaxRowCount
      db.query.traced utm.req utm.sql (entry ⟨(db.session, []), utm, rc, []⟩)).2.session.2 := rfl
  have htrace : db.trace cfg rc utm = (onExecSQL cfg.build cfg.code cfg.m_MaxRowCount
      db.query.traced db.fuel utm.req ⟨(db.session, []), utm, rc, []⟩).2.session.2 := rfl
  rw [onExecSQL_apply] at htrace
  dsimp only at htrace
  generalize preExecSQL cfg.build cfg.code cfg.m_MaxRowCount db.query.traced utm.req utm.sql
    (entry ⟨(db.session, []), utm, rc, []⟩) = r at hl hpre hplain htrace hpreTrace
  change r.2.session.2 = [] ++ l at hl
  rw [List.nil_append] at hl
  rw [hplain, hpreTrace]
  subst hl
  refine ⟨hpre, ?_⟩
  rcases r with ⟨f | (_ | _), c⟩
  · exact ⟨[], by rw [List.append_nil]; exact htrace, .inr ⟨nofun, rfl⟩⟩
  · exact ⟨[], by rw [List.append_nil]; exact htrace, .inr ⟨nofun, rfl⟩⟩
  · obtain ⟨l, hl, hsends⟩ := sends_execBody db.query db.fuel utm.sql c
    refine ⟨l, ?_, .inl ⟨rfl, hsends⟩⟩
    rw [htrace, ← hl]
    dsimp only
    rw [Comp.bind_apply, attempt]
    generalize execBody db.query.traced db.fuel utm.sql c = r
    rcases r with ⟨(err | _) | a, c₁⟩
    · exact sameLog_afterBody _ _ db.query _ _ _ c₁
    · rfl
    · exact sameLog_afterBody _ _ db.query _ _ _ c₁

/-- `m_rowCount` is what `PreExecSQL` leaves, in the builds that do not reset it. -/
theorem Db.exec_m_rowCount (db : Db) {cfg : Cfg} (hb : cfg.build ≠ .oracle) (rc : Nat)
    (utm : UserTransferMessage) :
    (db.exec cfg rc utm).2.m_rowCount = (db.pre cfg rc utm).2.m_rowCount := by
  have hexec : db.exec cfg rc utm = onExecSQL cfg.build cfg.code cfg.m_MaxRowCount db.query db.fuel
    utm.req ⟨db.session, utm, rc, []⟩ := rfl
  have hpre : db.pre cfg rc utm = preExecSQL cfg.build cfg.code cfg.m_MaxRowCount db.query utm.req
    utm.sql (entry ⟨db.session, utm, rc, []⟩) := rfl
  rw [hexec, onExecSQL_apply, hpre]
  dsimp only
  generalize preExecSQL cfg.build cfg.code cfg.m_MaxRowCount db.query utm.req utm.sql
    (entry ⟨db.session, utm, rc, []⟩) = r
  rcases r with ⟨f | (_ | _), c⟩
  · rfl
  · rfl
  · have hbody : Keeps SameRowCount (execBody db.query db.fuel utm.sql) := by
      rw [execBody_eq]
      refine Keeps.bind ?_ fun _ => (fetching_sameRowCount db.query).fetchAll db.fuel
      exact (sameRowCount_call _).bind fun _ =>
        ((fetching_sameRowCount db.query).registerOutParams db.fuel 1).bind fun _ =>
        sameRowCount_call _
    exact (keeps_attempt hbody).bind (fun r => sameRowCount_afterBody hb _ _ _ _ r) c

end TelecomSuite.Dagw
