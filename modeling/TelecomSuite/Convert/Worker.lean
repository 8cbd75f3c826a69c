import TelecomSuite.Lib.Resumption
import TelecomSuite.Convert.Config
import TelecomSuite.Convert.SqlText

/-!
# The workers

`DBProcess::conversion_start` and `DBProcess::conversion_start_another` as programs that call the
two databases. A response is `none` when the call throws `BaseException`. Inside a `try` block that
ends the function with `false`; the column queries are executed outside of any, and an exception
there ends the process.

The queries for columns are one call each, answered with the columns that were collected: the fetch
loop catches an exception and keeps what it has. The fields of a row are read by one call too. Only
the statements on the Oracle side change anything, and each of them is a call of its own.
-/

namespace TelecomSuite.Convert

open Resumption

/-- `MAXCOLUMS`. -/
def MAXCOLUMS : Nat := 1000

/-- The calls of a worker. -/
inductive Call
  | getColTypeSy (tabname : String)
  | getColType (tabname : String)
  | countBak (name : String)
  | dropBak (name : String)
  | createBak (name : String)
  | truncate (name : String)
  | select (q : Select)
  | eof
  | fetchNext
  /-- the fields of the row that was fetched, if there are enough of them -/
  | getFields (enough : Bool)
  | insert (name sql : String)
  | commit

/-- What a call gives when it does not throw. -/
def Reply : Call → Type
  | .getColTypeSy _ | .getColType _ => List Tabtype
  | .countBak _ => Int
  | .select _ => List (List Field)
  | .dropBak _ | .createBak _ | .truncate _ | .eof | .fetchNext | .getFields _ | .insert ..
  | .commit => Unit

/-- A program that makes calls of the databases, each of which may throw. -/
abbrev Work := Prog Call fun c => Option (Reply c)

/-- How a thread function ends. -/
inductive Exit
  | returned (b : Bool)
  | crashed
  deriving DecidableEq

/-- A call in a `try` block whose handler returns false. -/
def attempt (c : Call) (k : Reply c → Work Bool) : Work Bool :=
  .call c fun
    | none => .ret false
    | some a => k a

/-- `droptable`. -/
def droptable (name : String) : Work Bool :=
  attempt (.countBak name) fun (count : Int) =>
    if count ≠ 0 then
      attempt (.dropBak name) fun _ => attempt (.createBak name) fun _ => .ret true
    else attempt (.createBak name) fun _ => .ret true

/-- The row loop with the last `commit`; `index` counts the rows since the `commit` before. -/
def insertRows (name : String) (sql : List Field → Option String) :
    List (List Field) → Nat → Work Bool
  | [], _ => attempt .eof fun _ => attempt .commit fun _ => .ret true
  | row :: rows, index =>
    attempt .eof fun _ => attempt .fetchNext fun _ =>
      attempt (.getFields (sql row).isSome) fun _ =>
      match sql row with
      | none => .ret false
      | some text => attempt (.insert name text) fun _ =>
        if index + 1 = MAXCOLUMS then attempt .commit fun _ => insertRows name sql rows 0
        else insertRows name sql rows (index + 1)

/-- The conversion of one table: backup, `TRUNCATE`, `SELECT`, rows. The result is false where the
function returns, also for an empty source. -/
def convertTable (name : String) (q : Select) (sql : List Field → Option String) : Work Bool := do
  if ← droptable name then
    attempt (.truncate name) fun _ => attempt (.select q) fun (rows : List (List Field)) =>
      attempt .eof fun _ => if rows = [] then .ret false else insertRows name sql rows 0
  else return false

/-- The columns of both tables, outside of any `try` block. -/
def columns (sy orcl : String) (k : List Tabtype → List Tabtype → Work Exit) : Work Exit :=
  .call (.getColTypeSy sy) fun
    | none => .ret .crashed
    | some (v_type_sy : List Tabtype) => .call (.getColType orcl) fun
      | none => .ret .crashed
      | some (v_type : List Tabtype) => k v_type_sy v_type

/-- `conversion_start` on the aligned lists of a plain worker. -/
def conversionStart : List Pair → Work Exit
  | [] => .ret (.returned true)
  | p :: rest => columns p.sy p.orcl fun v_type_sy v_type =>
    match makesql v_type v_type_sy p.sy with
    | none => .ret .crashed
    | some q => do
      if ← convertTable p.orcl q (insertSql p.orcl v_type) then conversionStart rest
      else return .returned false

/-- `conversion_start_another` on the aligned lists of a peer worker. -/
def conversionStartAnother : List Peer → Work Exit
  | [] => .ret (.returned true)
  | p :: rest => columns p.sy p.orcl fun v_type_sy v_type =>
    match makesqlSec v_type v_type_sy p.sy p.col_sy with
    | .pastEnd => .ret .crashed
    | .wrongColumns => .ret (.returned false)
    | .select q => do
      if ← convertTable p.orcl q (insertSqlAnother p.orcl p.col_orcl v_type) then
        conversionStartAnother rest
      else return .returned false

/-- What the thread of a worker runs. -/
def Job.program : Job → Work Exit
  | job@(.plain ..) => conversionStart job.pairs
  | job@(.peer ..) => conversionStartAnother job.peers

/-! ## Rules -/

section
variable {S : Type} {step : S → (c : Call) → Option (Reply c) → S → Prop} {ok : S → Call → Prop}

/-- A call in a `try` block. -/
theorem wp_attempt {Post : S → Bool → Prop} {c : Call} {k : Reply c → Work Bool} {s : S}
    (hok : ok s c) (hfail : ∀ s', step s c none s' → Post s' false)
    (hk : ∀ a s', step s c (some a) s' → (k a).wp step ok Post s') :
    (attempt c k).wp step ok Post s := by
  refine ⟨hok, ?_⟩
  intro r s' hs
  cases r with
  | none => exact hfail s' hs
  | some a => exact hk a s' hs

/-- The column queries, which change nothing. -/
theorem wp_columns {Post : S → Exit → Prop} {sy orcl : String}
    {k : List Tabtype → List Tabtype → Work Exit} {s : S}
    (hok : ∀ c, c = .getColTypeSy sy ∨ c = .getColType orcl → ok s c)
    (hstep : ∀ c r s', c = .getColTypeSy sy ∨ c = .getColType orcl → step s c r s' → s' = s)
    (hcrash : Post s .crashed)
    (hk : ∀ v_type_sy v_type, step s (.getColTypeSy sy) (some v_type_sy) s →
      (k v_type_sy v_type).wp step ok Post s) :
    (columns sy orcl k).wp step ok Post s := by
  refine ⟨hok _ (.inl rfl), ?_⟩
  intro r s' hs
  obtain rfl := hstep _ _ _ (.inl rfl) hs
  cases r with
  | none => exact hcrash
  | some v_type_sy =>
    refine ⟨hok _ (.inr rfl), ?_⟩
    intro r' s'' hs'
    obtain rfl := hstep _ _ _ (.inr rfl) hs'
    cases r' with
    | none => exact hcrash
    | some v_type => exact hk v_type_sy v_type hs

end

end TelecomSuite.Convert
