import TelecomSuite.Dagw.ExecSql

/-!
# The result of a statement

`OnExecSQL` flattens the rows it fetches into one list, and lists the output parameters instead when
no row came. `onExecSQL_decodes` says that the columns of every row are found in the list by their
position, for whatever the database layer answers, as long as all calls return and `outputCount`
gives one number throughout.
-/

namespace TelecomSuite.Dagw

open Fallible

section
variable {σ : Type}

/-! ## What the database layer answers -/

/-- Calls `f i`, `f (i + 1)`, ... that return these values. -/
inductive Reads {α : Type} (f : ℕ → σ → Except BaseException α × σ) : ℕ → List α → σ → σ → Prop
  | nil {i : ℕ} {s : σ} : Reads f i [] s s
  | cons {i : ℕ} {a : α} {as : List α} {s s₁ s₂ : σ} : f i s = (.ok a, s₁) →
      Reads f (i + 1) as s₁ s₂ → Reads f i (a :: as) s s₂

variable (q : BaseQuery σ)

/-- Calls `f i`, `f (i + 1)`, ... up to the number that `outputCount` gives each time. -/
inductive ReadsOutput {α : Type} (f : ℕ → σ → Except BaseException α × σ) (outputcount : ℕ) :
    ℕ → List α → σ → σ → Prop
  | stop {i : ℕ} {s s₁ : σ} : q.outputCount s = (.ok outputcount, s₁) → outputcount < i →
      ReadsOutput f outputcount i [] s s₁
  | next {i : ℕ} {a : α} {as : List α} {s s₁ s₂ s₃ : σ} :
      q.outputCount s = (.ok outputcount, s₁) → i ≤ outputcount → f i s₁ = (.ok a, s₂) →
      ReadsOutput f outputcount (i + 1) as s₂ s₃ → ReadsOutput f outputcount i (a :: as) s s₃

/-- The rows that are fetched until `eof`, each with its columns. -/
inductive Fetched (fieldcount : ℕ) : List (List String) → σ → σ → Prop
  | eof {s s₁ : σ} : q.eof s = (.ok true, s₁) → Fetched fieldcount [] s s₁
  | row {row : List String} {rows : List (List String)} {s s₁ s₂ s₃ s₄ : σ} :
      q.eof s = (.ok false, s₁) → q.fetchNext s₁ = (.ok (), s₂) → row.length = fieldcount →
      Reads q.fieldAsString 0 row s₂ s₃ → Fetched fieldcount rows s₃ s₄ →
      Fetched fieldcount (row :: rows) s s₄

/-- The output parameters, which are read when no row came. -/
inductive Outputs (outputcount : ℕ) (rows : List (List String)) : List String → σ → σ → Prop
  | rows {s : σ} : rows ≠ [] → Outputs outputcount rows [] s s
  | params {outs : List String} {s s₁ s₂ : σ} : rows = [] →
      ReadsOutput q q.outParamAsString outputcount 1 outs s s₁ →
      q.outputCount s₁ = (.ok outputcount, s₂) → Outputs outputcount rows outs s s₂

end

/-- What a statement comes to: the numbers of columns and of output parameters, the rows with their
columns, the output parameters that were read, and the names of the columns where they have one. -/
structure ResultSet where
  fieldcount : ℕ
  outputcount : ℕ
  rows : List (List String)
  outs : List String
  names : List (Option String)

section
variable {σ : Type} (q : BaseQuery σ)

/-- A statement whose calls all return, with what they return. -/
inductive Returned (sql : String) (r : ResultSet) : σ → σ → Prop
  | intro {s s₁ s₂ s₃ s₄ s₅ s₆ s₇ : σ} {units : List Unit} : q.command sql s = (.ok (), s₁) →
      ReadsOutput q q.registerOutParam r.outputcount 1 units s₁ s₂ →
      q.execute s₂ = (.ok (), s₃) → q.fieldCount s₃ = (.ok r.fieldcount, s₄) →
      Fetched q r.fieldcount r.rows s₄ s₅ → Outputs q r.outputcount r.rows r.outs s₅ s₆ →
      Reads q.fieldInfoName 0 r.names s₆ s₇ → r.names.length = r.fieldcount → Returned sql r s s₇

/-- The tags of the response. -/
def ResultSet.encode (r : ResultSet) (u : UserTransferMessage) : UserTransferMessage :=
  { u with
    fieldCount := if r.rows = [] then r.outputcount else r.fieldcount
    result := if r.rows = [] then r.outs else r.rows.flatten
    fieldName := r.names.reduceOption }

/-- The result can be read by position. -/
structure ResultSet.Decodes (r : ResultSet) (u : UserTransferMessage) : Prop where
  fieldCount : r.rows ≠ [] → u.fieldCount = r.fieldcount
  length : r.rows ≠ [] → u.result.length = r.rows.length * r.fieldcount
  columns : r.rows ≠ [] → ∀ i row, r.rows[i]? = some row → ∀ j < r.fieldcount,
    u.result[i * r.fieldcount + j]? = row[j]? ∧ row[j]?.isSome
  outputCount : r.rows = [] → u.fieldCount = r.outputcount
  outs : r.rows = [] → u.result = r.outs ∧ r.outs.length = r.outputcount
  names : (∀ name ∈ r.names, name.isSome) →
    u.fieldName.map some = r.names ∧ u.fieldName.length = r.fieldcount

/-! ## The loops -/

/-- The variables, with the session in this state. -/
def Ctx.inSession (c : Ctx σ) (s : σ) : Ctx σ := { c with session := s }

variable {q} {c : Ctx σ} {s s' : σ}

/-- A call of the database moves the session on. -/
theorem call_inSession {α : Type} {f : σ → Except BaseException α × σ} {a : α}
    (h : f s = (.ok a, s')) : (call f : Exec σ α) (c.inSession s) = (.ok a, c.inSession s') := by
  have hsession : (c.inSession s).session = s := rfl
  rw [call, hsession, h]
  rfl

/-- A change of the message does not depend on the session. -/
theorem setUtm_inSession (f : UserTransferMessage → UserTransferMessage) (c : Ctx σ) (s : σ) :
    (setUtm f : Exec σ Unit) (c.inSession s) =
      (.ok (), Ctx.inSession { c with utm := f c.utm } s) := rfl

/-- The loop over a row reads all its fields. -/
theorem rowFields_reads {row : List String} {i : ℕ} (h : Reads q.fieldAsString i row s s') :
    rowFields q row.length i (c.inSession s) = (.ok row, c.inSession s') := by
  induction h with
  | nil => rfl
  | cons hcall _ ih =>
    simp only [List.length_cons, rowFields, Comp.bind_apply, call_inSession hcall, ih,
      Comp.pure_apply]

/-- The loop over the names reads all that there are. -/
theorem fieldNames_reads {names : List (Option String)} {i : ℕ}
    (h : Reads q.fieldInfoName i names s s') :
    fieldNames q names.length i (c.inSession s) = (.ok names.reduceOption, c.inSession s') := by
  induction h with
  | nil => rfl
  | @cons i name names s s₁ s₂ hcall _ ih =>
    simp only [List.length_cons, fieldNames, Comp.bind_apply, call_inSession hcall, ih,
      Comp.pure_apply]
    cases name <;> rfl

/-- The loop over the out parameters registers them all. -/
theorem registerOutParams_reads {outputcount i fuel : ℕ} {units : List Unit}
    (h : ReadsOutput q q.registerOutParam outputcount i units s s') (hfuel : units.length < fuel) :
    registerOutParams q fuel i (c.inSession s) = (.ok (), c.inSession s') := by
  induction h generalizing fuel with
  | stop hcount hlt =>
    obtain ⟨fuel, rfl⟩ := Nat.exists_eq_succ_of_ne_zero (Nat.ne_zero_of_lt hfuel)
    simp only [registerOutParams, Comp.bind_apply, call_inSession hcount,
      if_neg (Nat.not_le.2 hlt), Comp.pure_apply]
  | next hcount hle hcall _ ih =>
    obtain ⟨fuel, rfl⟩ := Nat.exists_eq_succ_of_ne_zero (Nat.ne_zero_of_lt hfuel)
    simp only [registerOutParams, Comp.bind_apply, call_inSession hcount, if_pos hle,
      call_inSession hcall]
    exact ih (Nat.lt_of_succ_lt_succ hfuel)

/-- The loop over their values reads them all. -/
theorem outParams_reads {outputcount i fuel : ℕ} {outs : List String}
    (h : ReadsOutput q q.outParamAsString outputcount i outs s s') (hfuel : outs.length < fuel) :
    outParams q fuel i (c.inSession s) = (.ok outs, c.inSession s') := by
  induction h generalizing fuel with
  | stop hcount hlt =>
    obtain ⟨fuel, rfl⟩ := Nat.exists_eq_succ_of_ne_zero (Nat.ne_zero_of_lt hfuel)
    simp only [outParams, Comp.bind_apply, call_inSession hcount, if_neg (Nat.not_le.2 hlt),
      Comp.pure_apply]
  | next hcount hle hcall _ ih =>
    obtain ⟨fuel, rfl⟩ := Nat.exists_eq_succ_of_ne_zero (Nat.ne_zero_of_lt hfuel)
    simp only [outParams, Comp.bind_apply, call_inSession hcount, if_pos hle,
      call_inSession hcall, ih (Nat.lt_of_succ_lt_succ hfuel), Comp.pure_apply]

/-- From `i` on there are as many out parameters as are left. -/
theorem length_of_readsOutput {outputcount i : ℕ} {α : Type}
    {f : ℕ → σ → Except BaseException α × σ} {as : List α}
    (h : ReadsOutput q f outputcount i as s s') : as.length = outputcount + 1 - i := by
  induction h with
  | stop _ hlt =>
    rw [List.length_nil]
    omega
  | next _ hle _ _ ih =>
    rw [List.length_cons, ih]
    omega

/-- The loop over the rows reads them all, one after the other. -/
theorem fetchRows_fetched {fieldcount fuel : ℕ} {rows : List (List String)}
    (h : Fetched q fieldcount rows s s') (hfuel : rows.length < fuel) :
    fetchRows q fieldcount fuel (c.inSession s) =
      (.ok (rows.length, rows.flatten), c.inSession s') := by
  induction h generalizing fuel with
  | eof heof =>
    obtain ⟨fuel, rfl⟩ := Nat.exists_eq_succ_of_ne_zero (Nat.ne_zero_of_lt hfuel)
    simp only [fetchRows, Comp.bind_apply, call_inSession heof, if_true, Comp.pure_apply]
    rfl
  | row heof hnext hlength hrow _ ih =>
    obtain ⟨fuel, rfl⟩ := Nat.exists_eq_succ_of_ne_zero (Nat.ne_zero_of_lt hfuel)
    have hfields := rowFields_reads (c := c) hrow
    rw [hlength] at hfields
    simp only [fetchRows, Comp.bind_apply, call_inSession heof, Bool.false_eq_true, if_false,
      call_inSession hnext, hfields, ih (Nat.lt_of_succ_lt_succ hfuel), Comp.pure_apply]
    rfl

/-- The result is the rows, or the out parameters if there are none. -/
theorem resultOf_outputs {outputcount fuel : ℕ} {rows : List (List String)} {outs : List String}
    (h : Outputs q outputcount rows outs s s') (hfuel : outputcount < fuel) :
    resultOf q fuel rows.length rows.flatten (c.inSession s) =
      (.ok (if rows = [] then outs else rows.flatten),
        Ctx.inSession { c with
          utm := { c.utm with
            fieldCount := if rows = [] then outputcount else c.utm.fieldCount } } s') := by
  cases h with
  | rows hne =>
    rw [resultOf, if_neg (mt List.length_eq_zero_iff.1 hne), if_neg hne, if_neg hne]
    rfl
  | @params _ _ s₁ _ hnil hread hcount =>
    have hlength := length_of_readsOutput hread
    have hout : outParams q fuel 1 (c.inSession s) = (.ok outs, c.inSession s₁) :=
      outParams_reads hread (by omega)
    rw [resultOf, if_pos (by rw [hnil]; rfl), if_pos hnil, if_pos hnil]
    simp only [Comp.bind_apply, hout, call_inSession hcount, setUtm_inSession, Comp.pure_apply]

/-- The `try` block fills the tags. -/
theorem execBody_returned {sql : String} {r : ResultSet} {fuel : ℕ}
    (h : Returned q sql r s s') (hrows : r.rows.length < fuel) (houts : r.outputcount < fuel) :
    execBody q fuel sql (c.inSession s) =
      (.ok (), Ctx.inSession { c with utm := r.encode c.utm } s') := by
  cases h with
  | @intro s₁ s₂ _ _ _ s₆ _ units hcommand hregister hexecute hcount hfetched houtputs hnames
      hlength =>
    have hunits := length_of_readsOutput hregister
    have hregistered : registerOutParams q fuel 1 (c.inSession s₁) = (.ok (), c.inSession s₂) :=
      registerOutParams_reads hregister (by omega)
    have hread : ∀ c : Ctx σ, fieldNames q r.fieldcount 0 (c.inSession s₆) =
        (.ok r.names.reduceOption, c.inSession s') :=
      fun c => hlength ▸ fieldNames_reads hnames
    simp only [execBody, Comp.bind_apply, call_inSession hcommand, hregistered,
      call_inSession hexecute, call_inSession hcount, setUtm_inSession,
      fetchRows_fetched hfetched hrows, resultOf_outputs houtputs houts, hread]
    rfl

/-! ## Reading by position -/

/-- Every row that is fetched has a value for each column. -/
theorem Fetched.length_row {fieldcount : ℕ} {rows : List (List String)}
    (h : Fetched q fieldcount rows s s') : ∀ row ∈ rows, row.length = fieldcount := by
  induction h with
  | eof => exact fun _ hrow => absurd hrow List.not_mem_nil
  | row _ _ hlength _ _ ih =>
    intro row hrow
    rcases List.mem_cons.1 hrow with rfl | hrow
    · exact hlength
    · exact ih row hrow

/-- The rows have as many values as there are rows times columns. -/
theorem length_flatten {n : ℕ} {rows : List (List String)} (h : ∀ row ∈ rows, row.length = n) :
    rows.flatten.length = rows.length * n := by
  rw [List.length_flatten, List.map_congr_left h, List.map_const', List.sum_replicate,
    smul_eq_mul]

/-- Rows of one length, one after the other. -/
theorem getElem?_flatten {n : ℕ} {rows : List (List String)} (h : ∀ row ∈ rows, row.length = n)
    {i j : ℕ} {row : List String} (hi : rows[i]? = some row) (hj : j < n) :
    rows.flatten[i * n + j]? = row[j]? := by
  induction rows generalizing i with
  | nil => cases hi
  | cons first rows ih =>
    have hfirst := h first List.mem_cons_self
    rw [List.flatten_cons]
    cases i with
    | zero =>
      cases hi
      rw [Nat.zero_mul, Nat.zero_add, List.getElem?_append_left (by omega)]
    | succ i =>
      have hindex : (i + 1) * n + j = n + (i * n + j) := by rw [Nat.succ_mul]; omega
      rw [hindex, List.getElem?_append_right (by omega), hfirst, Nat.add_sub_cancel_left]
      exact ih (fun row hrow => h row (List.mem_cons_of_mem _ hrow)) hi

/-- Names that are all there are all kept. -/
theorem map_some_reduceOption {α : Type} {names : List (Option α)}
    (h : ∀ name ∈ names, name.isSome) : names.reduceOption.map some = names := by
  induction names with
  | nil => rfl
  | cons name names ih =>
    obtain ⟨n, rfl⟩ := Option.isSome_iff_exists.1 (h name List.mem_cons_self)
    rw [List.reduceOption_cons_of_some, List.map_cons,
      ih fun name hname => h name (List.mem_cons_of_mem _ hname)]

/-- Without rows, each out parameter has a value. -/
theorem Outputs.length_outs {outputcount : ℕ} {rows : List (List String)} {outs : List String}
    (h : Outputs q outputcount rows outs s s') (hnil : rows = []) : outs.length = outputcount := by
  cases h with
  | rows hne => exact absurd hnil hne
  | params _ hread _ => exact length_of_readsOutput hread

/-- The message can be decoded if count, values and names are those of the encoding. -/
theorem decodes_of_returned {sql : String} {r : ResultSet} (h : Returned q sql r s s')
    {u : UserTransferMessage} (u₀ : UserTransferMessage)
    (hcount : u.fieldCount = (r.encode u₀).fieldCount)
    (hresult : u.result = (r.encode u₀).result)
    (hname : u.fieldName = (r.encode u₀).fieldName) : r.Decodes u := by
  cases h with
  | intro _ _ _ _ hfetched houtputs _ hlength =>
    have hrow := hfetched.length_row
    refine ⟨fun hne => ?_, fun hne => ?_, fun hne => ?_, fun hnil => ?_, fun hnil => ?_, ?_⟩
    · rw [hcount]
      exact if_neg hne
    · rw [hresult, ← length_flatten hrow]
      exact congrArg List.length (if_neg hne)
    · intro i row hi j hj
      have hlen := hrow row (List.mem_of_getElem? hi)
      refine ⟨?_, by rw [List.getElem?_eq_getElem (by omega)]; rfl⟩
      rw [hresult, ← getElem?_flatten hrow hi hj]
      exact congrArg (·[i * r.fieldcount + j]?) (if_neg hne)
    · rw [hcount]
      exact if_pos hnil
    · rw [hresult]
      exact ⟨if_pos hnil, houtputs.length_outs hnil⟩
    · intro hsome
      have hmap : u.fieldName.map some = r.names := by
        rw [hname]
        exact map_some_reduceOption hsome
      refine ⟨hmap, ?_⟩
      rw [← List.length_map (f := some), hmap, hlength]

/-- **The result of a statement.** When `PreExecSQL` accepts a request and every call for its
statement returns, the response holds the columns of the rows by position, or the output parameters
if no row came, and the names of the columns. -/
theorem onExecSQL_decodes (b : Build) (k : SxCode) (maxRowCount : ℕ) (q : BaseQuery σ)
    (sender : ServiceIdentifier) {c c₁ : Ctx σ}
    (haccept : preExecSQL b k maxRowCount q sender c.utm.sql (entry c) = (.ok true, c₁))
    {r : ResultSet} {s' : σ} (h : Returned q c.utm.sql r c₁.session s') {fuel : ℕ}
    (hrows : r.rows.length < fuel) (houts : r.outputcount < fuel) :
    ∃ c' u, onExecSQL b k maxRowCount q fuel sender c = (.ok (), c') ∧
      c'.actions = c₁.actions ++ [.postMessage sender u] ∧ r.Decodes u := by
  have hbody := execBody_returned (c := c₁) h hrows houts
  change execBody q fuel c.utm.sql c₁ = _ at hbody
  have hattempt : attempt (execBody q fuel c.utm.sql) c₁ =
      (.ok (.ok ()), Ctx.inSession { c₁ with utm := r.encode c₁.utm } s') := by
    rw [attempt, hbody]
  have haccept' : preExecSQL b k maxRowCount q sender c.utm.sql
      { c with utm := { c.utm with res := c.utm.req, messageId := .resExecSQL } } =
        (.ok true, c₁) := haccept
  simp only [onExecSQL, Comp.bind_apply, Comp.get_apply, setUtm_apply, haccept', if_true, hattempt,
    afterBody]
  cases b with
  | sybase | oracle | odbc => exact ⟨_, _, rfl, rfl, decodes_of_returned h c₁.utm rfl rfl rfl⟩

end

namespace TwoRows

/-- Two rows of two columns. The session counts the rows that were fetched. -/
def query : BaseQuery ℕ where
  command _ s := (.ok (), s)
  outputCount s := (.ok 0, s)
  registerOutParam _ s := (.ok (), s)
  execute s := (.ok (), s)
  fieldCount s := (.ok 2, s)
  eof s := (.ok (s = 2), s)
  fetchNext s := (.ok (), s + 1)
  fieldAsString i s := (.ok (["a", "b", "c", "d"].getD (2 * (s - 1) + i) ""), s)
  outParamAsString _ s := (.ok "", s)
  fieldInfoName i s := (.ok (["CALLER", "CALLED"][i]?), s)
  effectCount s := (.ok 0, s)
  odbcReconnect s := (.ok (), s)

/-- Two rows of two columns. -/
def result : ResultSet :=
  ⟨2, 0, [["a", "b"], ["c", "d"]], [], [some "CALLER", some "CALLED"]⟩

/-- The database returns them. -/
theorem returned (sql : String) : Returned query sql result 0 2 := by
  refine .intro rfl (.stop rfl Nat.zero_lt_one) rfl rfl ?_ (.rows (List.cons_ne_nil _ _))
    (.cons rfl (.cons rfl .nil)) rfl
  refine .row rfl rfl rfl (.cons rfl (.cons rfl .nil)) ?_
  exact .row rfl rfl rfl (.cons rfl (.cons rfl .nil)) (.eof rfl)

/-- A request for them. -/
def request : Ctx ℕ := ⟨0, ⟨.reqExecSQL, 7, 0, 0, "bill", "select", 0, 0, [], [], 0⟩, 0, []⟩

/-- The response to it can be decoded. -/
theorem query_decodes : ∃ c' u,
    onExecSQL .odbc ⟨1, one_ne_zero⟩ 100 query 3 7 request = (.ok (), c') ∧
      c'.actions = [.postMessage 7 u] ∧ result.Decodes u := by
  have haccept : preExecSQL .odbc ⟨1, one_ne_zero⟩ 100 query 7 request.utm.sql (entry request) =
      (.ok true, entry request) := rfl
  exact onExecSQL_decodes .odbc _ 100 query 7 haccept (returned "select") (Nat.lt_succ_self 2)
    (Nat.succ_pos 2)

end TwoRows

end TelecomSuite.Dagw
