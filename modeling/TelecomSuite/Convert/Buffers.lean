import TelecomSuite.Lib.Buffers
import TelecomSuite.Convert.Config
import TelecomSuite.Convert.Placement

/-!
# The buffers of the statements

The same statements as in `SqlText`, built in the buffers of the source with their sizes and the
limits of the calls. Every row begins with `memset(tmp_str, 0, 1024)`, and `tmp_str` has 512 bytes,
so no row is built within its buffers (`whole_iff`). For the rest the limits fit together: with a
`memset` of the right size the texts are complete exactly when four of them fit
(`yields_build_iff`).
-/

namespace TelecomSuite.Convert

open Buffers

/-- The buffers. `tmp` stands for the one of `makesql` and for the one of the row loop. -/
inductive Buffer
  | str
  | tmp
  | m_str
  | ttmp
  | tt
  | tmp_str
  | sql
  deriving DecidableEq

/-- Their declared sizes. -/
def Buffer.size : Buffer → Nat
  | .str | .tmp | .m_str | .sql => 1024
  | .ttmp | .tmp_str => 512
  | .tt => 100

namespace Buffered

/-! ## SELECT -/

/-- The loop of `makesql` and of `makesql_sec` over the expressions. -/
def exprs (str : String) : List String → Writing Buffer String
  | [] => pure str
  | expr :: es => do
    let _ ← memset .tmp 1024
    let tmp ← snprintf .tmp 1024 expr
    let str ← strcat .str str tmp
    if es = [] then exprs str es
    else
      let str ← strcat .str str " , "
      exprs str es

/-- `makesql` and `makesql_sec`, where they come to their last line: the text in `m_str`. -/
def makesql (q : Select) : Writing Buffer String := do
  let _ ← memset .str 1024
  let str ← strcpy .str "select "
  let str ← exprs str q.exprs
  snprintf .m_str 1024 (str ++ " from " ++ q.table)

/-! ## INSERT -/

/-- The branches on the type of a column: nothing is printed for a type that is not in the list. -/
def renderValue (col_type : String) (row : List Field) (tmp : String) (colindex : Nat) :
    Writing Buffer (String × Nat) := do
  let (text, colindex) ← .ofOption (Convert.renderValue col_type row colindex)
  if format col_type = .nothing then pure (tmp, colindex)
  else
    let tmp ← snprintf .tmp 1024 text
    pure (tmp, colindex)

/-- The value loop over the columns of the values. A name that starts no column name has none. -/
def values (row : List Field) :
    List (Option Tabtype) → String → String → Nat → Writing Buffer String
  | [], _, tmp_str, _ => pure tmp_str
  | col :: cols, tmp, tmp_str, colindex => do
    let (tmp, colindex) ←
      match col with
      | some t => do
        let tmp ← memset .tmp 1024
        renderValue t.col_type row tmp colindex
      | none => pure (tmp, colindex)
    let tmp ← strncat .tmp tmp (separator cols.isEmpty) 3
    let tmp_str ← strncat .tmp_str tmp_str tmp tmp.length
    values row cols tmp tmp_str colindex

/-- What a conversion has to build for a table: the SELECT, the table on the Oracle side, the start
of an INSERT and the columns of its values. -/
structure Task where
  q : Select
  name : String
  head : String
  cols : List (Option Tabtype)

/-- The texts for a table and one of its rows, in `m_str` and `sql`, when `n` bytes of `tmp_str`
are set to 0. -/
def Task.build (task : Task) (n : Nat) (row : List Field) : Writing Buffer (String × String) := do
  let m_str ← makesql task.q
  let _ ← memset .ttmp 512
  let ttmp ← snprintf .ttmp 1024 task.head
  let _ ← memset .tt 100
  let _ ← snprintf .tt 100 ("TRUNCATE TABLE " ++ task.name)
  let tmp_str ← memset .tmp_str n
  let tmp_str ← values row task.cols "" tmp_str 0
  let sql ← snprintf .sql 1024 (ttmp ++ " " ++ tmp_str)
  pure (m_str, sql)

/-- As the source has it: `memset(tmp_str,0,1024)`. -/
def Task.texts (task : Task) (row : List Field) : Writing Buffer (String × String) :=
  task.build 1024 row

/-- `conversion_start`. -/
def conversionStart (p : Pair) (v_type : List Tabtype) (q : Select) : Task where
  q := q
  name := p.orcl
  head := "insert into " ++ p.orcl ++ " values ( "
  cols := v_type.map some

/-- `conversion_start_another`. -/
def conversionStartAnother (p : Peer) (v_type : List Tabtype) (q : Select) : Task where
  q := q
  name := p.orcl
  head := "insert into " ++ p.orcl ++ " ( " ++ p.col_orcl ++ " ) values (  "
  cols := (spiltChar p.col_orcl ",").map fun name =>
    v_type.find? fun t => startsWith t.col_name name

/-- The tasks of the two functions, with the INSERT that each makes of a row. -/
inductive Converts : Task → (List Field → Option String) → Prop
  | conversionStart {p : Pair} {v_type v_type_sy : List Tabtype} {q : Select} :
    Convert.makesql v_type v_type_sy p.sy = some q →
      Converts (conversionStart p v_type q) (insertSql p.orcl v_type)
  | conversionStartAnother {p : Peer} {v_type v_type_sy : List Tabtype} {q : Select} :
    makesqlSec v_type v_type_sy p.sy p.col_sy = .select q →
      Converts (conversionStartAnother p v_type q) (insertSqlAnother p.orcl p.col_orcl v_type)

/-! ## When the texts are complete -/

/-- The value list without a bound. -/
def valueList (row : List Field) : List (Option Tabtype) → String → Nat → Option String
  | [], _, _ => some ""
  | col :: cols, tmp, colindex => do
    let (tmp, colindex) ←
      match col with
      | some t => Convert.renderValue t.col_type row colindex
      | none => some (tmp, colindex)
    let tmp := tmp ++ separator cols.isEmpty
    let tmp_str ← valueList row cols tmp colindex
    some (tmp ++ tmp_str)

section
variable {row : List Field} {task : Task} {sql : List Field → Option String}

/-- The list of all columns is made by `values`. -/
theorem valueList_map_some (ts : List Tabtype) (tmp : String) (colindex : Nat) :
    valueList row (ts.map some) tmp colindex = Convert.values row ts colindex := by
  induction ts generalizing tmp colindex with
  | nil => rfl
  | cons t ts ih =>
    unfold Convert.values
    rw [List.map_cons, valueList]
    cases Convert.renderValue t.col_type row colindex with
    | none => rfl
    | some p => simp [ih]

/-- The list of the columns with these names is made by `valuesAnother`. -/
theorem valueList_map_find (v_type : List Tabtype) (names : List String) (tmp : String)
    (colindex : Nat) :
    valueList row (names.map fun name => v_type.find? fun t => startsWith t.col_name name) tmp
      colindex = valuesAnother v_type row names tmp colindex := by
  induction names generalizing tmp colindex with
  | nil => rfl
  | cons name names ih =>
    unfold valuesAnother
    rw [List.map_cons]
    cases v_type.find? fun t => startsWith t.col_name name with
    | none => simp [valueList, ih]
    | some t =>
      rw [valueList]
      dsimp only
      cases Convert.renderValue t.col_type row colindex with
      | none => rfl
      | some p => simp [ih]

/-- Both functions put the list of values behind their beginning of an INSERT. -/
theorem Converts.insert_eq (h : Converts task sql) (row : List Field) :
    sql row = (valueList row task.cols "" 0).map (task.head ++ " " ++ ·) := by
  cases h with
  | conversionStart =>
    rw [Buffered.conversionStart, valueList_map_some, insertSql]
    cases Convert.values row _ 0 <;> rfl
  | conversionStartAnother =>
    rw [Buffered.conversionStartAnother, valueList_map_find, insertSqlAnother]
    cases valuesAnother _ row _ "" 0 <;> rfl

/-- The loop over the expressions. If the whole text fits, so does every part. -/
theorem yields_exprs {str : String} (es : List String) {out : String} (h : str.length < 1024) :
    Yields Buffer.size (exprs str es) out ↔
      (str ++ String.intercalate " , " es).length < 1024 ∧
        str ++ String.intercalate " , " es = out := by
  induction es generalizing str with
  | nil => simp [exprs, yields_pure, h]
  | cons expr es ih =>
    simp only [exprs, yields_bind, yields_memset, yields_snprintf, yields_strcat, Buffer.size,
      and_assoc, exists_and_left, exists_eq_left']
    by_cases hnil : es = []
    · subst hnil
      simp only [if_true, String.intercalate_singleton]
      constructor
      · rintro ⟨-, -, -, hlen, hy⟩
        exact ⟨hlen, yields_pure.1 hy⟩
      · rintro ⟨hlen, hout⟩
        have hexpr : expr.length < 1024 := by
          rw [String.length_append] at hlen
          omega
        exact ⟨Nat.le_refl _, hexpr, hexpr, hlen, yields_pure.2 hout⟩
    · simp only [if_neg hnil, yields_bind, yields_strcat, String.intercalate_cons_of_ne_nil hnil,
        Buffer.size, and_assoc, exists_and_left, exists_eq_left']
      constructor
      · rintro ⟨-, -, -, -, hsep, hy⟩
        simpa [String.append_assoc] using (ih hsep).1 hy
      · rintro ⟨hlen, hout⟩
        have hparts := hlen
        simp only [String.length_append] at hparts
        have hsep : (str ++ expr ++ " , ").length < 1024 := by
          simp only [String.length_append]
          omega
        have hstr : (str ++ expr).length < 1024 := by
          rw [String.length_append]
          omega
        refine ⟨Nat.le_refl _, by omega, by omega, hstr, hsep, (ih hsep).2 ?_⟩
        simpa [String.append_assoc] using And.intro hlen hout

/-- `makesql` keeps to its buffer if the SELECT fits. -/
theorem yields_makesql {q : Select} {out : String} :
    Yields Buffer.size (makesql q) out ↔ q.Fits ∧ q.text = out := by
  have hselect : "select ".length < 1024 := by decide
  simp only [makesql, yields_bind, yields_memset, yields_strcpy, yields_snprintf,
    yields_exprs _ hselect, Buffer.size, and_assoc, exists_and_left, exists_eq_left']
  constructor
  · rintro ⟨-, -, -, hfits, -, hout⟩
    exact ⟨hfits, hout⟩
  · rintro ⟨hfits, hout⟩
    have hstr : ("select " ++ String.intercalate " , " q.exprs).length < 1024 := by
      have hlen : q.text.length < 1024 := hfits
      rw [Select.text, String.append_assoc, String.length_append] at hlen
      omega
    exact ⟨Nat.le_refl _, hselect, hstr, hfits, hfits, hout⟩

/-- A value keeps to `tmp_str` if its text fits. -/
theorem yields_renderValue {col_type tmp' : String} {colindex next : Nat} :
    Yields Buffer.size (renderValue col_type row "" colindex) (tmp', next) ↔
      tmp'.length < 1024 ∧ Convert.renderValue col_type row colindex = some (tmp', next) := by
  simp only [renderValue, yields_bind, yields_ofOption]
  rcases eq_or_ne (format col_type) .nothing with h | h
  · simp only [if_pos h, renderValue_of_nothing h, Option.some.injEq, exists_eq_left', yields_pure,
      Prod.mk.injEq]
    constructor
    · rintro ⟨rfl, rfl⟩
      exact ⟨by decide, rfl, rfl⟩
    · rintro ⟨-, rfl, rfl⟩
      exact ⟨rfl, rfl⟩
  · simp only [if_neg h, yields_bind, yields_snprintf, yields_pure, Buffer.size]
    constructor
    · rintro ⟨⟨text, n⟩, hrender, tmp, ⟨hlen, -, rfl⟩, heq⟩
      obtain ⟨rfl, rfl⟩ := Prod.mk.inj heq
      exact ⟨hlen, hrender⟩
    · rintro ⟨hlen, hrender⟩
      exact ⟨(tmp', next), hrender, tmp', ⟨hlen, hlen, rfl⟩, rfl⟩

/-- Both separators have three characters. -/
theorem separator_length (last : Bool) : (separator last).length = 3 := by
  cases last <;> rfl

/-- A value with its separator, and the rest of the loop. -/
theorem yields_tail {cols : List (Option Tabtype)} (tmp_str tmp : String) (next : Nat)
    {out sep : String} (hsep : sep.length = 3)
    (ih : ∀ {tmp_str : String}, tmp_str.length < 512 →
      (Yields Buffer.size (values row cols (tmp ++ sep) tmp_str next) out ↔
        ∃ text, valueList row cols (tmp ++ sep) next = some text ∧
          (tmp_str ++ text).length < 512 ∧ tmp_str ++ text = out)) :
    Yields Buffer.size (do
        let tmp ← strncat .tmp tmp sep 3
        let tmp_str ← strncat .tmp_str tmp_str tmp tmp.length
        values row cols tmp tmp_str next) out ↔
      ∃ text, valueList row cols (tmp ++ sep) next = some text ∧
        (tmp_str ++ (tmp ++ sep ++ text)).length < 512 ∧ tmp_str ++ (tmp ++ sep ++ text) = out := by
  simp only [yields_bind, yields_strncat hsep.le, yields_strncat (Nat.le_refl _), Buffer.size,
    and_assoc, exists_and_left, exists_eq_left']
  constructor
  · rintro ⟨-, hlen, hy⟩
    obtain ⟨text, htext, hfit, hout⟩ := (ih hlen).1 hy
    exact ⟨text, htext, by rwa [← String.append_assoc], by rwa [← String.append_assoc]⟩
  · rintro ⟨text, htext, hfit, hout⟩
    have hparts := hfit
    simp only [String.length_append] at hparts
    have hlen : (tmp_str ++ (tmp ++ sep)).length < 512 := by
      simp only [String.length_append]
      omega
    have htmp : (tmp ++ sep).length < 1024 := by
      rw [String.length_append]
      omega
    refine ⟨htmp, hlen, (ih hlen).2 ⟨text, htext, ?_, ?_⟩⟩
    · rwa [String.append_assoc]
    · rwa [String.append_assoc]

/-- A text in front of another. -/
theorem exists_bind_append {x : Option String} {a : String} {P : String → Prop} :
    (∃ text, (x.bind fun rest => some (a ++ rest)) = some text ∧ P text) ↔
      ∃ text, x = some text ∧ P (a ++ text) := by
  cases x <;> simp

/-- The value loop. A value that fits `tmp_str` fits `tmp`. -/
theorem yields_values (cols : List (Option Tabtype)) {tmp tmp_str : String} {colindex : Nat}
    {out : String} (h : tmp_str.length < 512) :
    Yields Buffer.size (values row cols tmp tmp_str colindex) out ↔
      ∃ text, valueList row cols tmp colindex = some text ∧ (tmp_str ++ text).length < 512 ∧
        tmp_str ++ text = out := by
  induction cols generalizing tmp tmp_str colindex with
  | nil => simp [values, valueList, yields_pure, h]
  | cons col cols ih =>
    have htail := fun tmp next => yields_tail tmp_str tmp next (separator_length cols.isEmpty)
      fun {_} h => ih h
    cases col with
    | none =>
      simp only [values, valueList, Option.bind_eq_bind, Option.bind_some, exists_bind_append]
      rw [← htail tmp colindex, yields_bind]
      simp only [yields_pure, exists_eq_left']
    | some t =>
      simp only [values, valueList, Option.bind_eq_bind]
      rw [yields_bind]
      simp only [yields_memset, and_assoc, exists_and_left, exists_eq_left', Buffer.size]
      rw [yields_bind]
      simp only [Prod.exists, yields_renderValue, htail]
      cases hrender : Convert.renderValue t.col_type row colindex with
      | none => simp
      | some p =>
        obtain ⟨tmp', next⟩ := p
        simp only [Option.some.injEq, Prod.mk.injEq, Option.bind_some, exists_bind_append]
        constructor
        · rintro ⟨-, _, _, ⟨-, rfl, rfl⟩, hy⟩
          exact hy
        · rintro ⟨text, htext, hfit, hout⟩
          have hparts := hfit
          simp only [String.length_append] at hparts
          exact ⟨Nat.le_refl _, tmp', next, ⟨by omega, rfl, rfl⟩, text, htext, hfit, hout⟩

/-- **The limits.** With `n` bytes of `tmp_str` set to 0, the texts for a row are the complete ones,
built within the buffers and without a cut, exactly when `n` is at most the size of `tmp_str` and
the SELECT, the start of the INSERT, the TRUNCATE and the value list fit their buffers. -/
theorem yields_build_iff (h : Converts task sql) {n : Nat} {m_str text : String} :
    Yields Buffer.size (task.build n row) (m_str, text) ↔
      n ≤ 512 ∧ task.q.Fits ∧ task.head.length < 512 ∧
        ("TRUNCATE TABLE " ++ task.name).length < 100 ∧ text.length < task.head.length + 513 ∧
          task.q.text = m_str ∧ sql row = some text := by
  have hempty : "".length < 512 := by decide
  have hblank : " ".length = 1 := rfl
  simp only [Task.build, yields_bind, yields_makesql, yields_memset, yields_snprintf, yields_pure,
    yields_values _ hempty, Buffer.size, and_assoc, exists_and_left, exists_eq_left',
    h.insert_eq row, Option.map_eq_some_iff]
  constructor
  · rintro ⟨hfits, -, -, hhead, -, htt, -, hn, out, ⟨values, hvalues, hlen, rfl⟩, -, -, heq⟩
    obtain ⟨hm, rfl⟩ := Prod.mk.inj heq
    rw [String.empty_append] at hlen ⊢
    refine ⟨hn, hfits, hhead, htt, ?_, hm, values, hvalues, rfl⟩
    simp only [String.length_append, hblank]
    omega
  · rintro ⟨hn, hfits, hhead, htt, hlen, hm, values, hvalues, rfl⟩
    simp only [String.length_append, hblank] at hlen
    refine ⟨hfits, Nat.le_refl _, by omega, hhead, Nat.le_refl _, htt, htt, hn, values, ?_, ?_, ?_,
      ?_⟩
    · exact ⟨values, hvalues, by rw [String.empty_append]; omega, String.empty_append⟩
    · simp only [String.length_append, hblank]
      omega
    · simp only [String.length_append, hblank]
      omega
    · rw [hm]

/-! ## When they are -/

/-- A column whose value takes a field of the row. -/
def reads (col : Option Tabtype) : Bool := col.any fun t => format t.col_type ≠ .nothing

/-- The fields that the values of a row are made of. -/
def Task.fields (task : Task) : Nat := task.cols.countP reads

/-- Whether a value is there does not depend on the buffers. -/
theorem result_renderValue (row : List Field) (col_type tmp : String) (colindex : Nat) :
    (renderValue col_type row tmp colindex).result.map Prod.snd =
      if format col_type = .nothing then some colindex
      else row[colindex]?.map fun _ => colindex + 1 := by
  rw [renderValue, result_bind]
  rcases eq_or_ne (format col_type) .nothing with h | h
  · simp [h, renderValue_of_nothing h, Writing.ofOption, pure]
  · simp only [Writing.ofOption, renderValue_of_format h, if_neg h]
    cases row[colindex]? <;> rfl

/-- A list of values is not there if the row is too short for its columns. -/
theorem result_values (cols : List (Option Tabtype)) (tmp tmp_str : String) {colindex : Nat}
    (h : colindex ≤ row.length) : (values row cols tmp tmp_str colindex).result = none ↔
      row.length < colindex + cols.countP reads := by
  induction cols generalizing tmp tmp_str colindex with
  | nil => simp [values, pure, h]
  | cons col cols ih =>
    cases col with
    | none =>
      simp only [values, result_bind, pure, strncat, Option.bind_some]
      rw [ih _ _ h, List.countP_cons_of_neg (by simp [reads])]
    | some t =>
      have hresult := result_renderValue row t.col_type "" colindex
      simp only [values, result_bind, memset, strncat, Option.bind_some]
      rcases eq_or_ne (format t.col_type) .nothing with hf | hf
      · rw [if_pos hf] at hresult
        obtain ⟨p, hp, hnext⟩ := Option.map_eq_some_iff.1 hresult
        rw [hp, Option.bind_some, hnext, ih _ _ h, List.countP_cons_of_neg (by simp [reads, hf])]
      · have hcount : (some t :: cols).countP reads = cols.countP reads + 1 :=
          List.countP_cons_of_pos (by simp [reads, hf])
        rw [if_neg hf] at hresult
        rw [hcount]
        cases hget : row[colindex]? with
        | none =>
          rw [hget] at hresult
          rw [Option.map_eq_none_iff.1 hresult, List.getElem?_eq_none_iff] at *
          simp only [Option.bind_none, true_iff]
          omega
        | some f =>
          rw [hget] at hresult
          obtain ⟨p, hp, hnext⟩ := Option.map_eq_some_iff.1 hresult
          have hlt := (List.getElem?_eq_some_iff.1 hget).1
          rw [hp, Option.bind_some, hnext, ih _ _ hlt]
          omega

/-- The expressions of a SELECT are there. -/
theorem exists_exprs (str : String) (es : List String) :
    ∃ out, (exprs str es).result = some out := by
  induction es generalizing str with
  | nil => exact ⟨str, rfl⟩
  | cons expr es ih =>
    simp only [exprs, result_bind, memset, snprintf, strcat, Option.bind_some]
    split
    · exact ih _
    · rw [result_bind]
      exact ih _

/-- So is the SELECT. -/
theorem exists_makesql (q : Select) : ∃ m_str, (makesql q).result = some m_str := by
  obtain ⟨str, hstr⟩ := exists_exprs "select " q.exprs
  simp only [makesql, result_bind, memset, strcpy, snprintf, Option.bind_some, hstr]
  exact ⟨_, rfl⟩

/-- The only thing that throws is a field that is not there. -/
theorem result_texts (task : Task) (row : List Field) :
    (task.texts row).result = none ↔ row.length < task.fields := by
  obtain ⟨m_str, hm⟩ := exists_makesql task.q
  have hvalues := result_values task.cols "" "" (Nat.zero_le row.length)
  rw [Nat.zero_add] at hvalues
  rw [Task.fields, ← hvalues]
  simp only [Task.texts, Task.build, result_bind, hm, memset, snprintf, Option.bind_some]
  cases (values row task.cols "" "" 0).result <;> simp [pure]

/-- A row for which the conversion does what it should: it stops before the INSERT and reports the
failure, or the texts in `m_str` and `sql` are the complete ones and every write stays in its
buffer. -/
def Task.Whole (task : Task) (sql : List Field → Option String) (row : List Field) : Prop :=
  (task.texts row).result = none ∨
    ∃ text, sql row = some text ∧ Yields Buffer.size (task.texts row) (task.q.text, text)

/-- **No row is built within its buffers.** Of every table, in either mode, the rows that are whole
are the rows with too few fields, for which `getFieldByColumn` throws. -/
theorem whole_iff (h : Converts task sql) (row : List Field) :
    task.Whole sql row ↔ row.length < task.fields := by
  constructor
  · rintro (hnone | ⟨text, -, hy⟩)
    · exact (result_texts task row).1 hnone
    · exact absurd ((yields_build_iff h).1 hy).1 (by decide)
  · intro hrow
    exact .inl ((result_texts task row).2 hrow)

/-! ## A small table -/

namespace SmallTable

/-- One column. -/
def v_type : List Tabtype := [⟨"A", "CHAR"⟩]

/-- Its SELECT. -/
def q : Select := ⟨[" a "], "t"⟩

/-- The function that converts it. -/
theorem converts : Converts (conversionStart ⟨"T", "t"⟩ v_type q) (insertSql "T" v_type) := by
  have hq : Convert.makesql v_type [⟨"a", "char"⟩] "t" = some q := rfl
  exact .conversionStart hq

/-- One column and one character: the `memset` is past the end all the same. -/
theorem not_whole : ¬ ∀ task sql, Converts task sql → ∀ row, task.Whole sql row := by
  intro hall
  rcases hall _ _ converts [⟨"x", "0.000000"⟩] with hnone | ⟨text, -, hy⟩
  · exact absurd ((result_texts _ _).1 hnone) (by decide)
  · exact absurd ((yields_build_iff converts).1 hy).1 (by decide)

/-- The theorem above on this table, with a row and with an empty one. -/
theorem whole_iff_small :
    ¬ (conversionStart ⟨"T", "t"⟩ v_type q).Whole (insertSql "T" v_type) [⟨"x", "0.000000"⟩] ∧
      (conversionStart ⟨"T", "t"⟩ v_type q).Whole (insertSql "T" v_type) [] :=
  ⟨fun h => absurd ((whole_iff converts _).1 h) (by decide), (whole_iff converts _).2 (by decide)⟩

end SmallTable

end

end Buffered

end TelecomSuite.Convert
