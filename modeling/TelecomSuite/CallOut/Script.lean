import Mathlib.Data.List.Dedup
import TelecomSuite.Lib.Fallible
import TelecomSuite.Lib.Transition
import TelecomSuite.CallOut.Calendar

/-!
# The script `gcalloutrecord.lua`

One run of the script, statement by statement, as a computation over the tables and the directory
it works on. What the run depends on besides these is a parameter: the readings of the clock, one
for each call of `os.date`, and the answers of the database and the file system (`Io`).

A run takes an index from the sequence, merges the callers of its window into the table
`RecordName` under that index, and only then opens the output file, selects the callers of the
index, writes a line for each and publishes the file by renaming it. `system` lets runs alternate
with changes of the bill table, with the end of the day and with the collection of published files.
-/

namespace TelecomSuite.CallOut

open FixedWidth Fallible Transition

/-! ## Data -/

/-- A row of the bill table; NULL is `none`. -/
structure Record where
  bCaller : Option String
  bTime : Option Timestamp
  bStatus : Option Int
  deriving DecidableEq

/-- A row of the table `RecordName`. -/
structure Mark where
  ccCaller : Option String
  ccIndexflag : Nat
  deriving DecidableEq

/-- A line of the output file, by the parts that vary. -/
structure Line where
  month : String
  caller : Option String
  areacode : String
  flag : Nat
  deriving DecidableEq

/-- The part of `config` that the script's output uses. -/
structure Config where
  stagLogo : String
  filenameprefix : String
  stageinfo : String

/-- `string.format("%s|%s|%s|%d|%s", ...)` and the line end. -/
def Line.text (cfg : Config) (l : Line) : String :=
  l.month ++ "|" ++ l.caller.getD "" ++ "|" ++ l.areacode ++ "|" ++ toString l.flag ++ "|" ++
    cfg.stageinfo ++ "\r\n"

/-- A published file. `index` is a ghost: the index of the run that wrote it. -/
structure Export where
  callerFileName : String
  lines : List Line
  index : Nat
  deriving DecidableEq

/-- The run that wrote the file wrote the caller. -/
def Export.Writes (f : Export) (c : String) : Prop :=
  ∃ l ∈ f.lines, l.caller = some c

/-- The answer to the query for an area code: nil, a cursor without a row, or the column of its
first row. -/
inductive AreaReply
  | failed
  | empty
  | row (citycode : Option String)
  deriving DecidableEq

/-- The answers a run gets: whether the database connects, the value of the sequence, whether the
merge and the select return a result, after how many rows `fetch` fails if it does, the answers to
the queries for area codes, and whether the file opens and the rename succeeds. -/
structure Io where
  connects : Bool
  nextval : Option Nat
  merges : Bool
  opens : Bool
  selects : Bool
  fetches : Option Nat
  areas : Nat → AreaReply
  renames : Bool

/-- What a run works on: the clock readings and area queries made so far, the two tables, the files
published so far, oldest first, and the names in the store directory. -/
structure Machine where
  reads : Nat
  queries : Nat
  records : List Record
  marks : List Mark
  published : List Export
  store : List String

/-- A Lua error: a method called on nil, or a string function on nil. -/
inductive LuaError
  | error
  deriving DecidableEq

/-- Computations of the script. -/
abbrev Lua := Comp LuaError Machine

/-! ## The statements of SQL -/

/-- The condition of the inner select. -/
inductive Window
  | full (lastday : String)
  | add (yesm yesa : String)
  deriving DecidableEq

/-- `where ... and B_STATUS = 2`; a comparison with NULL does not hold. -/
def Window.holds (w : Window) (r : Record) : Bool :=
  r.bStatus = some 2 && r.bTime.any fun t =>
    match w with
    | .full lastday => toChar t ≤ lastday
    | .add yesm yesa => yesm ≤ toChar t && toChar t ≤ yesa

/-- `select distinct B_CALLER ... where ...`. -/
def selectCallers (records : List Record) (w : Window) : List (Option String) :=
  ((records.filter w.holds).map (·.bCaller)).dedup

/-- `T1.CC_CALLER = T2.BCALLER` for some row of the table: never for NULL. -/
def matched (marks : List Mark) (caller : Option String) : Bool :=
  caller.isSome && marks.any (·.ccCaller = caller)

/-- The rows that the merge inserts. -/
def inserted (marks : List Mark) (callers : List (Option String)) (index : Nat) : List Mark :=
  (callers.filter fun c => !matched marks c).map (⟨·, index⟩)

/-- `select distinct cc_caller ... where CC_INDEXFLAG = ...`. -/
def selectIndex (marks : List Mark) (index : Nat) : List (Option String) :=
  ((marks.filter (·.ccIndexflag = index)).map (·.ccCaller)).dedup

/-! ## The functions of the script -/

section
variable (cfg : Config) (io : Io) (clock : Nat → Date)

/-- `os.date(...)`: a reading of the clock. -/
def osDate : Lua Date := do
  let m ← get
  modify ({ · with reads := m.reads + 1 })
  return clock m.reads

/-- `judgeDay`. -/
def judgeDay : Lua Bool := do
  let today ← osDate clock
  return today.day = 1

/-- `GetTheIndex`: an error without a connection, nothing when the sequence gives no value. -/
def getTheIndex : Lua (Option Nat) := do
  if io.connects then return io.nextval
  else throw .error

/-- `GetFileName`, with a reading of the clock for the test and for each part of the name. -/
def getFileName : Lua String := do
  let today ← osDate clock
  let y ← osDate clock
  let m ← osDate clock
  let d ← osDate clock
  let yt := if today.day = 1 then decimal 4 y.year ++ decimal 2 m.month ++ decimal 2 d.day
    else decimal 4 y.year ++ decimal 2 m.month ++ decimal 2 (d.day - 1)
  return cfg.filenameprefix ++ "_" ++ cfg.stagLogo ++ "_" ++ String.ofList yt

/-- `string.sub(s, i, j)` for positions that are not negative. -/
def luaSub (s : String) (i j : Nat) : String :=
  String.ofList ((s.toList.take j).drop (i - 1))

/-- The `elseif` branch of `GetTheAreaId`: the city code of a mobile number's prefix. -/
def lookupCity : Lua String := do
  let m ← get
  modify ({ · with queries := m.queries + 1 })
  match io.areas m.queries with
  | .failed | .empty => return ""
  | .row none => throw .error
  | .row (some citycode) => return luaSub citycode 2 4

/-- `GetTheAreaId`. -/
def getTheAreaId (caller : String) : Lua String :=
  let s := luaSub caller 0 1
  if s = "0" then return luaSub caller 2 4
  else if s = "1" then lookupCity io
  else return ""

/-- The body of the loop of `stDoWork`: the line of one row. -/
def handleRow (caller : Option String) : Lua Line := do
  let areacode ← getTheAreaId io (caller.getD "")
  let full ← judgeDay clock
  let d ← osDate clock
  return ⟨String.ofList (decimal 4 d.year ++ decimal 2 d.month), caller, areacode,
    if full then 0 else 1⟩

/-- The loop of `stDoWork`: a line for each row. -/
def handleRows : List (Option String) → Lua (List Line)
  | [] => return []
  | row :: rows => do
    let line ← handleRow io clock row
    let lines ← handleRows rows
    return line :: lines

/-- The rename that publishes the file. It fails when the name is taken. -/
def publish (callerFileName : String) (lines : List Line) (index : Nat) : Lua Unit :=
  modify fun m =>
    if io.renames = true ∧ callerFileName ∉ m.store then
      { m with
        published := m.published ++ [⟨callerFileName, lines, index⟩]
        store := callerFileName :: m.store }
    else m

/-- `stDoWork`. The result says whether there is a cursor afterwards. -/
def stDoWork (callerFileName : String) (index : Nat) : Lua Bool := do
  if io.opens && io.selects then
    let m ← get
    let rows := selectIndex m.marks index
    let lines ← handleRows io clock (match io.fetches with
      | none => rows
      | some n => rows.take n)
    publish io callerFileName lines index
    return true
  else return false

/-- The common part of `stQueryFullData` and `stQueryAddData`: the merge, and the export if it
succeeded. Without a cursor the final `close` is an error. -/
def stQueryData (callerFileName : String) (index : Nat) (w : Window) : Lua Unit := do
  if io.merges then
    modify fun m =>
      { m with marks := m.marks ++ inserted m.marks (selectCallers m.records w) index }
    if ← stDoWork io clock callerFileName index then return
    else throw .error

/-- `stQueryFullData`: all records up to the previous day. -/
def stQueryFullData (callerFileName : String) (index : Nat) (lastday : String) : Lua Unit :=
  stQueryData io clock callerFileName index (.full lastday)

/-- `stQueryAddData`: the records of the previous day. -/
def stQueryAddData (callerFileName : String) (index : Nat) (yesm yesa : String) : Lua Unit :=
  stQueryData io clock callerFileName index (.add yesm yesa)

/-- `getfulldata`: everything up to the end of the month before. -/
def getfulldata (callerFileName : String) (index : Nat) : Lua Unit := do
  let y ← osDate clock
  let m ← osDate clock
  let lastmonth := if m.month - 1 = 0 then 12 else m.month - 1
  let year := if m.month - 1 = 0 then y.year - 1 else y.year
  let y' ← osDate clock
  let m' ← osDate clock
  let lastMothDays := (mktimeDayZero y'.year m'.month).2.2
  stQueryFullData io clock callerFileName index (endOf year lastmonth lastMothDays)

/-- `getAdddata`: the day before, within the month. -/
def getAdddata (callerFileName : String) (index : Nat) : Lua Unit := do
  let year ← osDate clock
  let mon ← osDate clock
  let d ← osDate clock
  stQueryAddData io clock callerFileName index (startOf year.year mon.month (d.day - 1))
    (endOf year.year mon.month (d.day - 1))

/-- `main`. -/
def main : Lua Unit := do
  match ← getTheIndex io with
  | none => return
  | some index =>
    let callerFileName ← getFileName cfg clock
    if ← judgeDay clock then getfulldata io clock callerFileName index
    else getAdddata io clock callerFileName index

/-! ## What a run does -/

/-- The name that `GetFileName` gives, by its four readings of the clock. -/
def fileName : String :=
  cfg.filenameprefix ++ "_" ++ cfg.stagLogo ++ "_" ++ String.ofList
    (if (clock 0).day = 1 then
      decimal 4 (clock 1).year ++ decimal 2 (clock 2).month ++ decimal 2 (clock 3).day
    else decimal 4 (clock 1).year ++ decimal 2 (clock 2).month ++ decimal 2 ((clock 3).day - 1))

/-- The window of the run, by the next readings. -/
def runWindow : Window :=
  if (clock 4).day = 1 then
    .full (endOf (if (clock 6).month - 1 = 0 then (clock 5).year - 1 else (clock 5).year)
      (if (clock 6).month - 1 = 0 then 12 else (clock 6).month - 1)
      (mktimeDayZero (clock 7).year (clock 8).month).2.2)
  else .add (startOf (clock 5).year (clock 6).month ((clock 7).day - 1))
    (endOf (clock 5).year (clock 6).month ((clock 7).day - 1))

/-- `os.date` takes the next reading of the clock. -/
@[simp] theorem osDate_apply (m : Machine) :
    osDate clock m = (.ok (clock m.reads), { m with reads := m.reads + 1 }) := rfl

/-- `judgeDay` reads the clock once. -/
@[simp] theorem judgeDay_apply (m : Machine) :
    judgeDay clock m = (.ok ((clock m.reads).day = 1), { m with reads := m.reads + 1 }) := rfl

/-- Two machines with the same tables and files. -/
structure SameData (m m' : Machine) : Prop where
  records : m'.records = m.records
  marks : m'.marks = m.marks
  published : m'.published = m.published
  store : m'.store = m.store

/-- `SameData` is reflexive and transitive. -/
instance : IsPreorder Machine SameData where
  refl _ := ⟨rfl, rfl, rfl, rfl⟩
  trans _ _ _ h h' := ⟨h'.records.trans h.records, h'.marks.trans h.marks,
    h'.published.trans h.published, h'.store.trans h.store⟩

/-- Looking up the city leaves the data alone. -/
theorem keeps_lookupCity : Keeps SameData (lookupCity io) := by
  refine Keeps.bind .get fun m => Keeps.bind (fun _ => ⟨rfl, rfl, rfl, rfl⟩) ?_
  intro _
  split
  · exact .pure _
  · exact .pure _
  · exact .throw _
  · exact .pure _

/-- So does the search for the area. -/
theorem keeps_getTheAreaId (caller : String) : Keeps SameData (getTheAreaId io caller) :=
  .ite (.pure _) (.ite (keeps_lookupCity io) (.pure _))

/-- So does a row of the cursor. -/
theorem keeps_handleRow (caller : Option String) : Keeps SameData (handleRow io clock caller) :=
  (keeps_getTheAreaId io _).bind fun _ =>
    Keeps.bind (fun _ => ⟨rfl, rfl, rfl, rfl⟩) fun _ =>
      Keeps.bind (fun _ => ⟨rfl, rfl, rfl, rfl⟩) fun _ => .pure _

/-- And the loop over the rows. -/
theorem keeps_handleRows (rows : List (Option String)) :
    Keeps SameData (handleRows io clock rows) := by
  induction rows with
  | nil => exact .pure _
  | cons row rows ih =>
    exact (keeps_handleRow io clock row).bind fun _ => ih.bind fun _ => .pure _

/-- No lookup of an area code meets a NULL city code. -/
def Io.AreasAnswer : Prop := ∀ n, io.areas n ≠ .row none

/-- The search returns if the database answers. -/
theorem getTheAreaId_returns (h : io.AreasAnswer) (caller : String) (m : Machine) :
    ∃ area m', getTheAreaId io caller m = (.ok area, m') := by
  unfold getTheAreaId
  split
  · exact ⟨_, _, rfl⟩
  · split
    · simp only [lookupCity, Comp.bind_apply, Comp.get_apply, Comp.modify_apply]
      cases harea : io.areas m.queries with
      | failed | empty => exact ⟨"", _, rfl⟩
      | row citycode =>
        cases citycode with
        | none => exact absurd harea (h _)
        | some citycode => exact ⟨luaSub citycode 2 4, _, rfl⟩
    · exact ⟨_, _, rfl⟩

/-- The loop writes a line for each row, in order, unless a lookup ends it in an error. -/
theorem handleRows_returns (h : io.AreasAnswer) (rows : List (Option String)) (m : Machine) :
    ∃ lines m', handleRows io clock rows m = (.ok lines, m') := by
  induction rows generalizing m with
  | nil => exact ⟨[], m, rfl⟩
  | cons row rows ih =>
    obtain ⟨area, m₁, harea⟩ := getTheAreaId_returns io h (row.getD "") m
    obtain ⟨lines, m', hlines⟩ := ih { m₁ with reads := m₁.reads + 1 + 1 }
    simp only [handleRows, handleRow, Comp.bind_apply, harea, judgeDay_apply, osDate_apply,
      Comp.pure_apply, hlines]
    exact ⟨_, _, rfl⟩

/-- The loop writes one line for each row. -/
theorem handleRows_callers (rows : List (Option String)) (m : Machine) {lines : List Line}
    {m' : Machine} (h : handleRows io clock rows m = (.ok lines, m')) :
    lines.map (·.caller) = rows := by
  induction rows generalizing m lines m' with
  | nil =>
    cases h
    rfl
  | cons row rows ih =>
    simp only [handleRows, handleRow, Comp.bind_apply] at h
    rcases harea : getTheAreaId io (row.getD "") m with ⟨e | area, m₁⟩
    · rw [harea] at h
      cases h
    · simp only [harea, judgeDay_apply, osDate_apply, Comp.pure_apply] at h
      rcases hrest : handleRows io clock rows { m₁ with reads := m₁.reads + 1 + 1 } with
        ⟨e | rest, m₂⟩
      · rw [hrest] at h
        cases h
      · rw [hrest] at h
        cases h
        rw [List.map_cons, ih _ hrest]

/-- What one export does to the tables and the files: the merge inserts its rows, and the callers
of the index are published or not. -/
structure Ran (name : String) (index : Nat) (w : Window) (m m' : Machine) : Prop where
  records : m'.records = m.records
  marks : m'.marks = m.marks ++ inserted m.marks (selectCallers m.records w) index
  published : m'.published = m.published ∧ m'.store = m.store ∨
    ∃ lines, m'.published = m.published ++ [⟨name, lines, index⟩] ∧ m'.store = name :: m.store ∧
      (io.fetches = none → lines.map (·.caller) = selectIndex m'.marks index)

/-- No step after the merge fails. -/
structure Io.Completes (name : String) (store : List String) : Prop where
  opens : io.opens = true
  selects : io.selects = true
  fetches : io.fetches = none
  areas : io.AreasAnswer
  renames : io.renames = true
  free : name ∉ store

/-- `stDoWork` as a loop over the rows that it fetches, the first ones of the select. -/
theorem stDoWork_apply (name : String) (index : Nat) (m : Machine) :
    ∃ rows, rows <+: selectIndex m.marks index ∧
      (io.fetches = none → rows = selectIndex m.marks index) ∧
      (stDoWork io clock name index m).2 =
        if io.opens && io.selects then
          match handleRows io clock rows m with
          | (.ok lines, m') => (publish io name lines index m').2
          | (.error _, m') => m'
        else m := by
  unfold stDoWork
  refine ⟨match io.fetches with
    | none => selectIndex m.marks index
    | some n => (selectIndex m.marks index).take n, ?_, ?_, ?_⟩
  · split
    · exact List.prefix_refl _
    · exact List.take_prefix _ _
  · intro hall
    rw [hall]
  · split
    · simp only [Comp.bind_apply, Comp.get_apply]
      generalize handleRows io clock (match io.fetches with
        | none => selectIndex m.marks index
        | some n => (selectIndex m.marks index).take n) m = r
      rcases r with ⟨e | lines, m₁⟩ <;> rfl
    · rfl

/-- `stDoWork` after the merge: it publishes nothing, or the lines of its loop. -/
theorem stDoWork_published (name : String) (index : Nat) (m : Machine) :
    SameData m (stDoWork io clock name index m).2 ∨
      ∃ rows lines m', rows <+: selectIndex m.marks index ∧
        (io.fetches = none → rows = selectIndex m.marks index) ∧
        handleRows io clock rows m = (.ok lines, m') ∧ SameData m m' ∧
        (stDoWork io clock name index m).2 =
          { m' with
            published := m'.published ++ [⟨name, lines, index⟩]
            store := name :: m'.store } := by
  obtain ⟨rows, hfirst, hall, happly⟩ := stDoWork_apply io clock name index m
  rw [happly]
  split
  · have hkeep := keeps_handleRows io clock rows m
    rcases hr : handleRows io clock rows m with ⟨e | lines, m₁⟩
    · rw [hr] at hkeep
      exact .inl hkeep
    · rw [hr] at hkeep
      simp only [publish, Comp.modify_apply]
      split
      · exact .inr ⟨rows, lines, m₁, hfirst, hall, hr, hkeep, rfl⟩
      · exact .inl hkeep
  · exact .inl (refl m)

/-- The data after `stDoWork`. -/
theorem stDoWork_ran (name : String) (index : Nat) (m : Machine) :
    (stDoWork io clock name index m).2.records = m.records ∧
      (stDoWork io clock name index m).2.marks = m.marks ∧
      ((stDoWork io clock name index m).2.published = m.published ∧
          (stDoWork io clock name index m).2.store = m.store ∨
        ∃ lines, (stDoWork io clock name index m).2.published =
            m.published ++ [⟨name, lines, index⟩] ∧
          (stDoWork io clock name index m).2.store = name :: m.store ∧
          (io.fetches = none → lines.map (·.caller) = selectIndex m.marks index)) := by
  rcases stDoWork_published io clock name index m with
    hsame | ⟨rows, lines, m', -, hall, hr, hkeep, heq⟩
  · exact ⟨hsame.records, hsame.marks, .inl ⟨hsame.published, hsame.store⟩⟩
  · rw [heq]
    refine ⟨hkeep.records, hkeep.marks, .inr ⟨lines, ?_, ?_, ?_⟩⟩
    · rw [hkeep.published]
    · rw [hkeep.store]
    · intro hfetches
      rw [handleRows_callers io clock rows m hr, hall hfetches]

/-- Without a failure `stDoWork` publishes the file. -/
theorem stDoWork_completes {name : String} {m : Machine} (h : io.Completes name m.store)
    (index : Nat) : ∃ lines, (stDoWork io clock name index m).2.published =
      m.published ++ [⟨name, lines, index⟩] := by
  unfold stDoWork
  simp only [h.opens, h.selects, h.fetches, Bool.and_self, if_true, Comp.bind_apply, Comp.get_apply]
  obtain ⟨lines, m₁, hr⟩ := handleRows_returns io clock h.areas (selectIndex m.marks index) m
  have hkeep := keeps_handleRows io clock (selectIndex m.marks index) m
  rw [hr] at hkeep
  change SameData m m₁ at hkeep
  have hfree : name ∉ m₁.store := by
    rw [hkeep.store]
    exact h.free
  simp only [hr, publish, Comp.modify_apply, Comp.pure_apply]
  rw [if_pos ⟨h.renames, hfree⟩]
  exact ⟨lines, by rw [hkeep.published]⟩

/-- The variables after the export are those that `stDoWork` leaves. -/
theorem stQueryData_vars (name : String) (index : Nat) (w : Window) (m : Machine)
    (h : io.merges = true) :
    (stQueryData io clock name index w m).2 = (stDoWork io clock name index
      { m with marks := m.marks ++ inserted m.marks (selectCallers m.records w) index }).2 := by
  simp only [stQueryData, h, if_true, Comp.bind_apply, Comp.modify_apply]
  generalize stDoWork io clock name index
    { m with marks := m.marks ++ inserted m.marks (selectCallers m.records w) index } = r
  rcases r with ⟨e | (_ | _), m'⟩ <;> rfl

/-- The merge and the export after it. -/
theorem stQueryData_ran (name : String) (index : Nat) (w : Window) (m : Machine)
    (h : io.merges = true) :
    Ran io name index w m (stQueryData io clock name index w m).2 := by
  rw [stQueryData_vars io clock name index w m h]
  obtain ⟨hrecords, hmarks, hpub⟩ := stDoWork_ran io clock name index
    { m with marks := m.marks ++ inserted m.marks (selectCallers m.records w) index }
  refine ⟨hrecords, hmarks, ?_⟩
  rw [hmarks]
  exact hpub

/-- The run as a whole, from the first reading of the clock on. -/
theorem main_apply {m : Machine} (h : m.reads = 0) :
    main cfg io clock m =
      if io.connects then
        match io.nextval with
        | none => (.ok (), m)
        | some index => stQueryData io clock (fileName cfg clock) index (runWindow clock)
            { m with reads := if (clock 4).day = 1 then 9 else 8 }
      else (.error .error, m) := by
  unfold main getTheIndex
  cases io.connects with
  | false => simp
  | true =>
    cases io.nextval with
    | none => simp
    | some index =>
      simp only [if_true, Comp.bind_apply, Comp.pure_apply, getFileName, osDate_apply,
        judgeDay_apply, h]
      by_cases hday : (clock 4).day = 1
      · simp [hday, getfulldata, stQueryFullData, runWindow, fileName]
      · simp [hday, getAdddata, stQueryAddData, runWindow, fileName]

end

/-! ## Runs, days and changes of the bill table -/

/-- The database, the store directory and the day. `used` are the values the sequence has given. -/
structure State where
  today : Date
  records : List Record
  marks : List Mark
  used : List Nat
  published : List Export
  store : List String

/-- A run of the script, the next day, a change of the bill table, or a published file taken
away. -/
inductive Label
  | run (io : Io) (clock : Nat → Date)
  | nextDay (d : Date)
  | change (records : List Record)
  | collect (name : String)

/-- The state as a run of the script finds it. -/
def State.machine (s : State) : Machine :=
  ⟨0, 0, s.records, s.marks, s.published, s.store⟩

/-- The state after a run. -/
def State.after (s : State) (cfg : Config) (io : Io) (clock : Nat → Date) : State :=
  let m := (main cfg io clock s.machine).2
  { s with
    marks := m.marks
    used := io.nextval.toList ++ s.used
    published := m.published
    store := m.store }

section
variable {cfg : Config} {io : Io} {clock : Nat → Date} (s : State)

/-- A run that gets to its merge. -/
structure Io.Merges (io : Io) (index : Nat) : Prop where
  connects : io.connects = true
  nextval : io.nextval = some index
  merges : io.merges = true

/-- What a run that gets to its merge does. -/
theorem State.after_ran {index : Nat} (h : io.Merges index) :
    Ran io (fileName cfg clock) index (runWindow clock) s.machine
      (main cfg io clock s.machine).2 := by
  rw [main_apply cfg io clock (m := s.machine) rfl, h.connects, h.nextval]
  have hran := stQueryData_ran io clock (fileName cfg clock) index (runWindow clock)
    { s.machine with reads := if (clock 4).day = 1 then 9 else 8 } h.merges
  exact ⟨hran.records, hran.marks, hran.published⟩

/-- Any other run changes nothing. -/
theorem State.after_idle (h : ∀ index, ¬ io.Merges index) :
    (s.after cfg io clock).marks = s.marks ∧ (s.after cfg io clock).published = s.published := by
  simp only [State.after, main_apply cfg io clock (m := s.machine) rfl]
  cases hc : io.connects with
  | false => exact ⟨rfl, rfl⟩
  | true =>
    cases hk : io.nextval with
    | none => exact ⟨rfl, rfl⟩
    | some index =>
      have hm : io.merges = false := by
        cases hm : io.merges with
        | false => rfl
        | true => exact absurd ⟨hc, hk, hm⟩ (h index)
      simp only [if_true, stQueryData, hm, Bool.false_eq_true, if_false]
      exact ⟨rfl, rfl⟩

/-- A run without a failure after its merge publishes one file. -/
theorem State.after_completes {index : Nat} (h : io.Merges index)
    (hc : io.Completes (fileName cfg clock) s.store) : ∃ lines, (s.after cfg io clock).published =
      s.published ++ [⟨fileName cfg clock, lines, index⟩] := by
  simp only [State.after, main_apply cfg io clock (m := s.machine) rfl, h.connects, h.nextval,
    if_true]
  rw [stQueryData_vars _ _ _ _ _ _ h.merges]
  exact stDoWork_completes io clock hc index

end

/-- The record is dated before the day. -/
def Record.Past (r : Record) (d : Date) : Prop :=
  ∃ t, r.bTime = some t ∧ t.date < d

/-- The steps. The sequence never gives a value twice, and the records of past days do not
change. -/
inductive Step (cfg : Config) : State → Label → State → Prop
  | run {s : State} {io : Io} {clock : Nat → Date} : (∀ k, io.nextval = some k → k ∉ s.used) →
      Step cfg s (.run io clock) (s.after cfg io clock)
  | nextDay {s : State} {d : Date} : s.today < d → Step cfg s (.nextDay d) { s with today := d }
  | change {s : State} {records : List Record} :
      (∀ r : Record, r.Past s.today → (r ∈ records ↔ r ∈ s.records)) →
      Step cfg s (.change records) { s with records := records }
  | collect {s : State} {name : String} :
      Step cfg s (.collect name) { s with store := s.store.filter (· ≠ name) }

/-- Initially nothing was exported. -/
structure Initial (s : State) : Prop where
  marks : s.marks = []
  published : s.published = []

/-- The script in use. -/
def system (cfg : Config) : LTS State Label where
  init := Initial
  step := Step cfg

end TelecomSuite.CallOut
