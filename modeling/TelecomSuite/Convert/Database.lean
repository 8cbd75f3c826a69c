import TelecomSuite.Convert.Worker

/-!
# The two databases

What the calls of a worker do. The Oracle side has committed rows for each table and, for each
session, rows that were inserted and not committed yet. `CREATE TABLE … AS SELECT`, `DROP TABLE` and
`TRUNCATE` are atomic and commit; `INSERT` does not. Any call may throw, and a statement that throws
may have been executed all the same. The count of `all_tables` is not tied to the tables there are.

A statement is executed as it was meant, on the table with the name as Oracle spells it. A name too
long for a statement's buffer is too long for a table, so its statement fails whether it is cut or
not.
-/

namespace TelecomSuite.Convert

/-- A row of an Oracle table. One of the program's is known by the INSERT that stored it. -/
abbrev Row := String

/-- The name of the backup. -/
def bak (name : String) : String := name ++ "_BAK"

/-- The Oracle side as a session sees it: committed rows, and its own uncommitted ones. -/
structure View where
  tables : String → Option (List Row)
  pending : List (String × Row)

/-- The uncommitted rows of a table. -/
def View.pendingOf (v : View) (name : String) : List Row :=
  (v.pending.filter fun p => p.1 = name).map Prod.snd

/-- The pending rows become part of their tables. -/
def View.commit (v : View) : View where
  tables name := (v.tables name).map (· ++ v.pendingOf name)
  pending := []

/-- A table gets another content, or is dropped. -/
def View.set (v : View) (name : String) (rows : Option (List Row)) : View :=
  { v with tables := Function.update v.tables name rows }

/-- The effect of a call that is executed; `none` if it must fail. -/
def View.exec (v : View) : Call → Option View
  | .dropBak name =>
    if (v.tables (bak name)).isSome then some (v.commit.set (bak name) none) else none
  | .createBak name =>
    if (v.tables (bak name)).isNone ∧ (v.tables name).isSome then
      some (v.commit.set (bak name) (v.commit.tables name))
    else none
  | .truncate name => if (v.tables name).isSome then some (v.commit.set name (some [])) else none
  | .insert name sql =>
    if (v.tables name).isSome then some { v with pending := v.pending ++ [(name, sql)] } else none
  | .commit => some v.commit
  -- `getFieldByColumn` throws where there is no field
  | .getFields enough => if enough then some v else none
  | .getColTypeSy _ | .getColType _ | .countBak _ | .select _ | .eof | .fetchNext => some v

/-- What the workers only read. -/
structure Env where
  syColumns : String → List Tabtype
  orclColumns : String → List Tabtype
  sybase : String → List (List Field)
  /-- the fields that a SELECT gives for a row of its table -/
  project : Select → List Field → List Field

/-- The replies to a call. A SELECT that does not fit its buffer may read anything. -/
def Env.Answers (env : Env) : (c : Call) → Reply c → Prop
  | .getColTypeSy tabname, (v_type_sy : List Tabtype) => v_type_sy <+: env.syColumns tabname
  | .getColType tabname, (v_type : List Tabtype) => v_type <+: env.orclColumns tabname
  | .select q, (rows : List (List Field)) =>
    q.Fits → rows = (env.sybase q.table).map (env.project q)
  | .countBak _, _ | .dropBak _, _ | .createBak _, _ | .truncate _, _ | .eof, _ | .fetchNext, _
  | .getFields _, _ | .insert .., _ | .commit, _ => True

/-- One call through a session. -/
inductive View.Step (env : Env) (v : View) (c : Call) : Option (Reply c) → View → Prop
  | replies {a : Reply c} {v' : View} :
    env.Answers c a → v.exec c = some v' → Step env v c (some a) v'
  | throws : Step env v c none v
  | throwsAfter {v' : View} : v.exec c = some v' → Step env v c none v'

/-- The Oracle side for all sessions. -/
structure Db where
  tables : String → Option (List Row)
  pending : Nat → List (String × Row)

/-- What a session sees. -/
def Db.view (db : Db) (session : Nat) : View := ⟨db.tables, db.pending session⟩

/-- The state after a call that leaves the session's view at `v`. -/
def Db.put (db : Db) (session : Nat) (v : View) : Db :=
  ⟨v.tables, Function.update db.pending session v.pending⟩

/-! ## The part of a worker -/

/-- The tables that a call names on the Oracle side. -/
def Call.names : Call → List String
  | .dropBak name => [bak name]
  | .createBak name => [name, bak name]
  | .truncate name | .insert name _ => [name]
  | .getColTypeSy _ | .getColType _ | .countBak _ | .select _ | .eof | .fetchNext | .getFields _
  | .commit => []

/-- The view without the tables that are not in the list. -/
def View.mask (own : List String) (v : View) : View where
  tables name := if name ∈ own then v.tables name else none
  pending := v.pending

section
variable {own : List String} {v v' : View} {c : Call}

/-- A commit, seen through the tables of a job. -/
theorem View.commit_mask : (v.mask own).commit = v.commit.mask own := by
  have htables : (v.mask own).commit.tables = (v.commit.mask own).tables := by
    funext name
    by_cases h : name ∈ own <;> simp [View.commit, View.mask, View.pendingOf, h]
  exact congrArg₂ View.mk htables rfl

/-- Another content, seen through them. -/
theorem View.set_mask {name : String} (h : name ∈ own) (rows : Option (List Row)) :
    (v.mask own).set name rows = (v.set name rows).mask own := by
  have htables : ((v.mask own).set name rows).tables = ((v.set name rows).mask own).tables := by
    funext n
    by_cases hn : n = name
    · simp [View.set, View.mask, hn, h]
    · simp [View.set, View.mask, hn]
  exact congrArg₂ View.mk htables rfl

/-- The tables of the job are seen as they are. -/
theorem View.tables_mask {name : String} (h : name ∈ own) :
    (v.mask own).tables name = v.tables name :=
  if_pos h

/-- A call acts on the tables it names as it acts on all. -/
theorem View.exec_mask (hnames : ∀ n ∈ c.names, n ∈ own) (h : v.exec c = some v') :
    (v.mask own).exec c = some (v'.mask own) := by
  cases c with
  | dropBak name =>
    have hbak : bak name ∈ own := hnames _ (by simp [Call.names])
    obtain ⟨hsome, rfl⟩ := Option.ite_none_right_eq_some.1 h |>.imp id Option.some.inj
    simp only [View.exec, View.tables_mask hbak, hsome, if_true]
    rw [View.commit_mask, View.set_mask hbak]
  | createBak name =>
    have hname : name ∈ own := hnames _ (by simp [Call.names])
    have hbak : bak name ∈ own := hnames _ (by simp [Call.names])
    obtain ⟨hguard, rfl⟩ := Option.ite_none_right_eq_some.1 h |>.imp id Option.some.inj
    simp only [View.exec, View.tables_mask hbak, View.tables_mask hname]
    rw [if_pos hguard, View.commit_mask, View.set_mask hbak, View.tables_mask hname]
  | truncate name =>
    have hname : name ∈ own := hnames _ (by simp [Call.names])
    obtain ⟨hsome, rfl⟩ := Option.ite_none_right_eq_some.1 h |>.imp id Option.some.inj
    simp only [View.exec, View.tables_mask hname, hsome, if_true]
    rw [View.commit_mask, View.set_mask hname]
  | insert name sql =>
    have hname : name ∈ own := hnames _ (by simp [Call.names])
    obtain ⟨hsome, rfl⟩ := Option.ite_none_right_eq_some.1 h |>.imp id Option.some.inj
    simp only [View.exec, View.tables_mask hname, hsome, if_true]
    rfl
  | commit =>
    cases h
    exact congrArg some View.commit_mask
  | getFields enough =>
    obtain ⟨henough, rfl⟩ := Option.ite_none_right_eq_some.1 h |>.imp id Option.some.inj
    exact if_pos henough
  | getColTypeSy | getColType | countBak | select | eof | fetchNext =>
    cases h
    rfl

/-- It changes no other table, as long as the session has inserted into its own only. -/
theorem View.exec_frame (hnames : ∀ n ∈ c.names, n ∈ own) (hpending : ∀ p ∈ v.pending, p.1 ∈ own)
    (h : v.exec c = some v') {n : String} (hn : n ∉ own) : v'.tables n = v.tables n := by
  have hcommit : v.commit.tables n = v.tables n := by
    have hnil : v.pendingOf n = [] := by
      simp only [View.pendingOf, List.map_eq_nil_iff, List.filter_eq_nil_iff, decide_eq_true_eq]
      rintro p hp rfl
      exact hn (hpending p hp)
    simp [View.commit, hnil]
  have hset : ∀ {name rows}, name ∈ own → (v.commit.set name rows).tables n = v.tables n := by
    intro name rows hname
    have hne : n ≠ name := by
      rintro rfl
      exact hn hname
    rw [← hcommit]
    exact Function.update_of_ne hne _ _
  cases c with
  | dropBak name =>
    obtain ⟨-, rfl⟩ := Option.ite_none_right_eq_some.1 h |>.imp id Option.some.inj
    exact hset (hnames _ (by simp [Call.names]))
  | createBak name =>
    obtain ⟨-, rfl⟩ := Option.ite_none_right_eq_some.1 h |>.imp id Option.some.inj
    exact hset (hnames _ (by simp [Call.names]))
  | truncate name =>
    obtain ⟨-, rfl⟩ := Option.ite_none_right_eq_some.1 h |>.imp id Option.some.inj
    exact hset (hnames _ (by simp [Call.names]))
  | insert name sql =>
    obtain ⟨-, rfl⟩ := Option.ite_none_right_eq_some.1 h |>.imp id Option.some.inj
    rfl
  | commit =>
    cases h
    exact hcommit
  | getFields enough =>
    obtain ⟨-, rfl⟩ := Option.ite_none_right_eq_some.1 h |>.imp id Option.some.inj
    rfl
  | getColTypeSy | getColType | countBak | select | eof | fetchNext =>
    cases h
    rfl

variable {env : Env} {r : Option (Reply c)}

/-- A call that names tables of the job only is seen through them. -/
theorem View.Step.mask (hnames : ∀ n ∈ c.names, n ∈ own) (h : v.Step env c r v') :
    (v.mask own).Step env c r (v'.mask own) := by
  cases h with
  | replies ha he => exact .replies ha (View.exec_mask hnames he)
  | throws => exact .throws
  | throwsAfter he => exact .throwsAfter (View.exec_mask hnames he)

/-- It leaves all other tables alone. -/
theorem View.Step.frame (hnames : ∀ n ∈ c.names, n ∈ own) (hpending : ∀ p ∈ v.pending, p.1 ∈ own)
    (h : v.Step env c r v') {n : String} (hn : n ∉ own) : v'.tables n = v.tables n := by
  cases h with
  | replies _ he => exact View.exec_frame hnames hpending he hn
  | throws => rfl
  | throwsAfter he => exact View.exec_frame hnames hpending he hn

end

end TelecomSuite.Convert
