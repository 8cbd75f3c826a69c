import Mathlib.Data.List.Basic

/-!
# The statements of a worker

The texts that `DBProcess` builds from the columns of the two tables: the SELECT on the Sybase side
(`makesql`, `makesql_sec`) and the value list of an INSERT on the Oracle side. The parts of a text
are put together without a bound; `Select.Fits` says when a SELECT fits the buffer it is built in.
-/

namespace TelecomSuite.Convert

/-- A column. -/
structure Tabtype where
  col_name : String
  col_type : String
  deriving DecidableEq

/-- A field of a fetched row, as `asString` and (printed with `%f`) `asFloat` give it. -/
structure Field where
  asString : String
  asFloat : String
  deriving DecidableEq

/-- `strncmp(s, p, strlen(p)) == 0`. -/
def startsWith (s p : String) : Bool := p.toList.isPrefixOf s.toList

/-! ## Key lists -/

/-- `str.find(pattern, i)`. -/
def find (str pattern : List Char) (i : Nat) : Option Nat :=
  (List.range str.length).find? fun pos => i ≤ pos && pattern.isPrefixOf (str.drop pos)

/-- The loop of `spiltChar` from index `i` on, over the extended string. -/
def spiltLoop (str pattern : List Char) : Nat → Nat → List String
  | 0, _ => []
  | fuel + 1, i =>
    if i < str.length then
      match find str pattern i with
      | some pos => .ofList ((str.drop i).take (pos - i)) ::
          spiltLoop str pattern fuel (pos + pattern.length - 1 + 1)
      | none => spiltLoop str pattern fuel (i + 1)
    else []

/-- `spiltChar`: the pieces between the separators. -/
def spiltChar (str pattern : String) : List String :=
  let str := str.toList ++ pattern.toList
  spiltLoop str pattern.toList (str.length + 1) 0

/-! ## SELECT -/

/-- The SELECT of a table. -/
structure Select where
  exprs : List String
  table : String

/-- The text of a SELECT. -/
def Select.text (q : Select) : String :=
  "select " ++ String.intercalate " , " q.exprs ++ " from " ++ q.table

/-- The text fits `m_str` (and with it `str`). A longer one is cut. -/
def Select.Fits (q : Select) : Prop := q.text.length < 1024

/-- The expression for a Sybase column. The Oracle column of the same index is looked at unless the
type is `datetime`; `none` if there is none. -/
def selectExpr (sy : Tabtype) (orcl : Option Tabtype) : Option String :=
  if sy.col_type = "datetime" then
    some (" rtrim(convert(char," ++ sy.col_name ++ ",102))+' '+(convert(char," ++ sy.col_name ++
      ",108)) ")
  else
    orcl.map fun t =>
      if (t.col_type = "CHAR" ∨ t.col_type = "VARCHAR2") ∧
          (sy.col_type = "int" ∨ sy.col_type = "numberic") then
        " convert(char," ++ sy.col_name ++ ") "
      else " " ++ sy.col_name ++ " "

/-- `makesql`; `none` if it reads past the end of `v_type`. -/
def makesql (v_type v_type_sy : List Tabtype) (tabname : String) : Option Select := do
  let exprs ← v_type_sy.zipIdx.mapM fun (sy, i) => selectExpr sy v_type[i]?
  some ⟨exprs, tabname⟩

/-- `makesql` reads the table that it is given. -/
theorem makesql_table {v_type v_type_sy : List Tabtype} {tabname : String} {q : Select}
    (h : makesql v_type v_type_sy tabname = some q) : q.table = tabname := by
  obtain ⟨exprs, -, hq⟩ := Option.bind_eq_some_iff.1 h
  cases hq
  rfl

/-- What `makesql_sec` ends in. -/
inductive MadeSql
  | select (q : Select)
  | wrongColumns
  | pastEnd

/-- The loop of `makesql_sec` over the requested names. -/
def secExprs (v_type v_type_sy : List Tabtype) : List String → List String → String → MadeSql
  | [], exprs, tabname => .select ⟨exprs, tabname⟩
  | name :: names, exprs, tabname =>
    match v_type_sy.zipIdx.find? fun (sy, _) => startsWith sy.col_name name with
    | none => .wrongColumns
    | some (sy, i) =>
      match selectExpr sy v_type[i]? with
      | none => .pastEnd
      | some expr => secExprs v_type v_type_sy names (exprs ++ [expr]) tabname

/-- `makesqlSec`: the SELECT for the names of a key list. -/
def makesqlSec (v_type v_type_sy : List Tabtype) (tabname col : String) : MadeSql :=
  secExprs v_type v_type_sy (spiltChar col ",") [] tabname

/-- `makesqlSec` reads the table that it is given. -/
theorem makesqlSec_table {v_type v_type_sy : List Tabtype} {tabname col : String} {q : Select}
    (h : makesqlSec v_type v_type_sy tabname col = .select q) : q.table = tabname := by
  unfold makesqlSec at h
  generalize spiltChar col "," = names at h
  generalize ([] : List String) = exprs at h
  induction names generalizing exprs with
  | nil =>
    cases h
    rfl
  | cons name names ih =>
    unfold secExprs at h
    split at h
    · cases h
    · split at h
      · cases h
      · exact ih _ h

/-- Every requested name starts the name of a column. -/
def Resolves (v_type_sy : List Tabtype) (col : String) : Prop :=
  ∀ name ∈ spiltChar col ",", ∃ sy ∈ v_type_sy, startsWith sy.col_name name = true

/-- Whether all names of a list are resolved can be computed. -/
instance (v_type_sy : List Tabtype) (col : String) : Decidable (Resolves v_type_sy col) :=
  inferInstanceAs (Decidable (∀ name ∈ _, ∃ sy ∈ _, _))

/-- With such names `makesql_sec` makes a SELECT of the table, unless it reads past the end. -/
theorem makesqlSec_of_resolves (v_type : List Tabtype) {v_type_sy : List Tabtype} (tabname : String)
    {col : String} (h : Resolves v_type_sy col) :
    makesqlSec v_type v_type_sy tabname col = .pastEnd ∨
      ∃ exprs, makesqlSec v_type v_type_sy tabname col = .select ⟨exprs, tabname⟩ := by
  unfold makesqlSec Resolves at *
  generalize spiltChar col "," = names at h
  generalize ([] : List String) = exprs
  induction names generalizing exprs with
  | nil => exact .inr ⟨exprs, rfl⟩
  | cons name names ih =>
    unfold secExprs
    have hfound : (v_type_sy.zipIdx.find? fun (sy, _) => startsWith sy.col_name name).isSome := by
      obtain ⟨sy, hsy, hname⟩ := h name List.mem_cons_self
      obtain ⟨i, hi, rfl⟩ := List.mem_iff_getElem.1 hsy
      rw [List.find?_isSome]
      exact ⟨(v_type_sy[i], i), List.mem_zipIdx_iff_getElem?.2 (by simp [hi]), hname⟩
    obtain ⟨⟨sy, i⟩, hfind⟩ := Option.isSome_iff_exists.1 hfound
    rw [hfind]
    dsimp only
    cases selectExpr sy v_type[i]? with
    | none => exact .inl rfl
    | some expr => exact ih (fun n hn => h n (List.mem_cons_of_mem _ hn)) _

/-! ## INSERT -/

/-- `t.c_str()` as `%s` prints it: up to the first NUL. -/
def cString (t : String) : String := .ofList (t.toList.takeWhile (· ≠ '\x00'))

/-- A value in a row's text: what begins with `NULL` becomes the empty string. -/
def clearNull (t : String) : String := if startsWith t "NULL" then "" else cString t

/-- The text of the value for a column of this type and the next field to read; nothing for a type
that is not in the list. -/
def renderValue (col_type : String) (row : List Field) (colindex : Nat) : Option (String × Nat) :=
  if col_type = "DATE" ∨ col_type = "TIMESTAMP(6)" then
    row[colindex]?.map fun f =>
      (" to_date(trim('" ++ clearNull f.asString ++ "'),'yyyy.mm.dd hh24:mi:ss') ", colindex + 1)
  else if col_type = "CHAR" ∨ col_type = "VARCHAR2" then
    row[colindex]?.map fun f => (" TRIM('" ++ clearNull f.asString ++ " ') ", colindex + 1)
  else if col_type = "NUMBER" then
    row[colindex]?.map fun f => (" " ++ f.asFloat ++ " ", colindex + 1)
  else some ("", colindex)

/-- How the value for a type is formatted. -/
inductive Format
  | date
  | text
  | number
  | nothing
  deriving DecidableEq

/-- How the type of a column has its values written. -/
def format (col_type : String) : Format :=
  if col_type = "DATE" ∨ col_type = "TIMESTAMP(6)" then .date
  else if col_type = "CHAR" ∨ col_type = "VARCHAR2" then .text
  else if col_type = "NUMBER" then .number
  else .nothing

/-- Types with the same format have their values written alike. -/
theorem renderValue_congr {a b : String} (h : format a = format b) (row : List Field)
    (colindex : ℕ) : renderValue a row colindex = renderValue b row colindex := by
  unfold format at h
  unfold renderValue
  split_ifs at h ⊢ <;> rfl

/-- What follows a value. -/
def separator (last : Bool) : String := if last then " ) " else " , "

/-- The value loop of `conversion_start`; `none` if there is no field left to read. -/
def values (row : List Field) : List Tabtype → Nat → Option String
  | [], _ => some ""
  | t :: ts, colindex => do
    let (tmp, colindex) ← renderValue t.col_type row colindex
    let tmp_str ← values row ts colindex
    some (tmp ++ separator ts.isEmpty ++ tmp_str)

/-- The value loop of `conversion_start_another`. A name that starts no column name leaves the text
of the value before in `tmp`. -/
def valuesAnother (v_type : List Tabtype) (row : List Field) :
    List String → String → Nat → Option String
  | [], _, _ => some ""
  | name :: names, tmp, colindex => do
    let (tmp, colindex) ←
      match v_type.find? fun t => startsWith t.col_name name with
      | some t => renderValue t.col_type row colindex
      | none => some (tmp, colindex)
    let tmp := tmp ++ separator names.isEmpty
    let tmp_str ← valuesAnother v_type row names tmp colindex
    some (tmp ++ tmp_str)

/-- The INSERT of `conversion_start` for a row. -/
def insertSql (orcl : String) (v_type : List Tabtype) (row : List Field) : Option String := do
  let tmp_str ← values row v_type 0
  some ("insert into " ++ orcl ++ " values ( " ++ " " ++ tmp_str)

/-- The INSERT of `conversion_start_another` for a row. -/
def insertSqlAnother (orcl col_orcl : String) (v_type : List Tabtype) (row : List Field) :
    Option String := do
  let tmp_str ← valuesAnother v_type row (spiltChar col_orcl ",") "" 0
  some ("insert into " ++ orcl ++ " ( " ++ col_orcl ++ " ) values (  " ++ " " ++ tmp_str)

end TelecomSuite.Convert
