import TelecomSuite.CallOut.FileNames

/-!
# The readings of the clock in one run

A run reads the clock for the name of the file, for the kind of the export, for its window, and
twice for every line. `one_export_iff` says which readings give a name, a window and lines that
belong to one export, that of a day: all of them on one day are such, and a midnight between two of
them may not be.
-/

namespace TelecomSuite.CallOut

open FixedWidth Fallible

/-- The month in a line. -/
def monthText (d : Date) : String := String.ofList (decimal 4 d.year ++ decimal 2 d.month)

/-- The name, the window and the lines are those of the export of a day. -/
structure ExportOf (cfg : Config) (d : Date) (name : String) (w : Window) (lines : List Line) :
    Prop where
  name : name = fileName cfg fun _ => d
  window : w = runWindow fun _ => d
  flag : ∀ l ∈ lines, l.flag = if d.day = 1 then 0 else 1
  month : ∀ l ∈ lines, l.month = monthText d

/-- The reading with which the loop over the rows begins. -/
def firstRead (clock : ℕ → Date) : ℕ := if (clock 4).day = 1 then 9 else 8

/-- The machine after the merge. -/
def State.merged (s : State) (clock : ℕ → Date) (index : ℕ) : Machine :=
  { s.machine with
    reads := firstRead clock
    marks := s.marks ++ inserted s.marks (selectCallers s.records (runWindow clock)) index }

/-- Lines that the run has written at some point of its loop. -/
def State.Wrote (s : State) (io : Io) (clock : ℕ → Date) (lines : List Line) : Prop :=
  ∃ index rows m', io.Merges index ∧ rows <+: selectIndex (s.merged clock index).marks index ∧
    handleRows io clock rows (s.merged clock index) = (.ok lines, m')

/-! ## The condition -/

/-- How many days the month before has. -/
def daysBefore (y m : ℕ) : ℕ := (mktimeDayZero y m).2.2

/-- The readings agree: the year and the month in the name with those of the window; the day in
the name with the first of the month in a full export, with the day of the window in an increment;
and for each line the readings of its flag and its month with the kind and the month of the
export. -/
structure InStep (clock : ℕ → Date) (n : ℕ) : Prop where
  year : (clock 1).year = (clock 5).year
  month : (clock 2).month = (clock 6).month
  full : (clock 4).day = 1 → nameDay (clock 0) (clock 3) = 1 ∧
    daysBefore (clock 7).year (clock 8).month = daysBefore (clock 5).year (clock 6).month
  add : (clock 4).day ≠ 1 → nameDay (clock 0) (clock 3) = (clock 7).day - 1 ∧
    2 ≤ (clock 7).day ∧ (clock 7).day ≤ daysInMonth (clock 5).year (clock 6).month
  flags : ∀ i < n, (clock (firstRead clock + 2 * i)).day = 1 ↔ (clock 4).day = 1
  months : ∀ i < n, (clock (firstRead clock + 2 * i + 1)).year = (clock 5).year ∧
    (clock (firstRead clock + 2 * i + 1)).month = (clock 6).month

/-- Readings on one day are in step. -/
theorem inStep_of_day (d : Date) (n : ℕ) : InStep (fun _ => d) n := by
  refine ⟨rfl, rfl, ?_, ?_, fun _ _ => Iff.rfl, fun _ _ => ⟨rfl, rfl⟩⟩
  · intro hday
    rw [nameDay, if_pos hday]
    exact ⟨hday, rfl⟩
  · intro hday
    have hpos := d.day_pos
    rw [nameDay, if_neg hday]
    exact ⟨rfl, by omega, d.day_le⟩

/-! ## The lines -/

section
variable {io : Io} {clock : ℕ → Date}

/-- The search for the area does not read the clock. -/
theorem getTheAreaId_reads (caller : String) (m : Machine) :
    (getTheAreaId io caller m).2.reads = m.reads := by
  unfold getTheAreaId
  split
  · rfl
  · split
    · simp only [lookupCity, Comp.bind_apply, Comp.get_apply, Comp.modify_apply]
      cases io.areas m.queries with
      | failed | empty => rfl
      | row citycode => cases citycode <;> rfl
    · rfl

/-- The flag and the month of a line come from two readings of its own. -/
theorem handleRows_readings {rows : List (Option String)} {m m' : Machine} {lines : List Line}
    (h : handleRows io clock rows m = (.ok lines, m')) {i : ℕ} {l : Line}
    (hl : lines[i]? = some l) :
    l.flag = (if (clock (m.reads + 2 * i)).day = 1 then 0 else 1) ∧
      l.month = monthText (clock (m.reads + 2 * i + 1)) := by
  induction rows generalizing m lines i with
  | nil =>
    cases h
    cases hl
  | cons row rows ih =>
    have hreads : (getTheAreaId io (row.getD "") m).2.reads = m.reads := getTheAreaId_reads _ _
    simp only [handleRows, handleRow, Comp.bind_apply] at h
    rcases harea : getTheAreaId io (row.getD "") m with ⟨e | area, m₁⟩
    · rw [harea] at h
      cases h
    · rw [harea] at hreads
      change m₁.reads = m.reads at hreads
      simp only [harea, judgeDay_apply, osDate_apply, Comp.pure_apply] at h
      rcases hrest : handleRows io clock rows { m₁ with reads := m₁.reads + 1 + 1 } with
        ⟨e | rest, m₂⟩
      · rw [hrest] at h
        cases h
      · rw [hrest] at h
        cases h
        cases i with
        | zero =>
          cases hl
          rw [hreads]
          simp only [monthText, Nat.mul_zero, Nat.add_zero, decide_eq_true_eq, and_self]
        | succ i =>
          have hnext := ih hrest (i := i) hl
          rw [hreads] at hnext
          have hindex : m.reads + 2 * (i + 1) = m.reads + 1 + 1 + 2 * i := by omega
          rw [hindex]
          exact hnext

/-- The lines of a run, by the readings of the clock. -/
theorem State.Wrote.readings {s : State} {lines : List Line} (h : s.Wrote io clock lines) {i : ℕ}
    {l : Line} (hl : lines[i]? = some l) :
    l.flag = (if (clock (firstRead clock + 2 * i)).day = 1 then 0 else 1) ∧
      l.month = monthText (clock (firstRead clock + 2 * i + 1)) := by
  obtain ⟨index, rows, m', -, -, hrows⟩ := h
  exact handleRows_readings hrows hl

/-- The lines of the file that a run publishes are lines that it wrote, under its name. -/
theorem State.published_wrote {cfg : Config} {s : State} {f : Export}
    (h : (s.after cfg io clock).published = s.published ++ [f]) :
    f.callerFileName = fileName cfg clock ∧ s.Wrote io clock f.lines := by
  by_cases hmerges : ∃ index, io.Merges index
  · obtain ⟨index, hm⟩ := hmerges
    simp only [State.after, main_apply cfg io clock (m := s.machine) rfl, hm.connects, hm.nextval,
      if_true] at h
    rw [stQueryData_vars _ _ _ _ _ _ hm.merges] at h
    change (stDoWork io clock (fileName cfg clock) index (s.merged clock index)).2.published =
      s.published ++ [f] at h
    rcases stDoWork_published io clock (fileName cfg clock) index (s.merged clock index) with
      hsame | ⟨rows, lines, m', hfirst, -, hr, hkeep, heq⟩
    · have hlength := congrArg List.length (hsame.published.symm.trans h)
      rw [List.length_append, List.length_singleton] at hlength
      exact absurd hlength (Nat.succ_ne_self _).symm
    · rw [heq, hkeep.published] at h
      obtain rfl := (List.cons.inj (List.append_cancel_left h)).1
      exact ⟨rfl, index, rows, m', hm, hfirst, hr⟩
  · have hidle : (s.after cfg io clock).published = s.published :=
      (s.after_idle (not_exists.1 hmerges)).2
    have hlength := congrArg List.length (hidle.symm.trans h)
    rw [List.length_append, List.length_singleton] at hlength
    exact absurd hlength (Nat.succ_ne_self _).symm

end

/-! ## The texts -/

/-- The text of a month tells year and month. -/
theorem monthText_inj {d d' : Date} :
    monthText d = monthText d' ↔ d.year = d'.year ∧ d.month = d'.month := by
  have hd := d.fits
  have hd' := d'.fits
  rw [monthText, monthText, String.ofList_inj]
  constructor
  · intro h
    obtain ⟨hy, hm⟩ := List.append_inj h
      ((length_decimal hd.1).trans (length_decimal hd'.1).symm)
    exact ⟨(decimal_inj hd.1 hd'.1).1 hy, (decimal_inj hd.2.1 hd'.2.1).1 hm⟩
  · rintro ⟨hy, hm⟩
    rw [hy, hm]

/-- The text of a time tells its date. -/
theorem stampText_inj {y m d h mi s y' m' d' : ℕ} (hy : y < 10 ^ 4) (hm : m < 10 ^ 2)
    (hd : d < 10 ^ 2) (hy' : y' < 10 ^ 4) (hm' : m' < 10 ^ 2) (hd' : d' < 10 ^ 2) :
    stampText y m d h mi s = stampText y' m' d' h mi s ↔ y = y' ∧ m = m' ∧ d = d' := by
  rw [stampText, stampText, String.ofList_inj, List.append_left_inj]
  exact triple_inj _ hy hm hd hy' hm' hd'

/-- The year of the month before. -/
def yearBefore (y m : ℕ) : ℕ := if m - 1 = 0 then y - 1 else y

/-- The month before. -/
def monthBefore (m : ℕ) : ℕ := if m - 1 = 0 then 12 else m - 1

/-- The month before tells the month. -/
theorem before_inj {y m y' m' : ℕ} (hy : 1 ≤ y) (hm : 1 ≤ m) (hm12 : m ≤ 12) (hy' : 1 ≤ y')
    (hm' : 1 ≤ m') (hm12' : m' ≤ 12) :
    yearBefore y m = yearBefore y' m' ∧ monthBefore m = monthBefore m' ↔ y = y' ∧ m = m' := by
  unfold yearBefore monthBefore
  constructor
  · rintro ⟨hyear, hmonth⟩
    split_ifs at hyear hmonth <;> omega
  · rintro ⟨rfl, rfl⟩
    exact ⟨rfl, rfl⟩

/-- The month before has at most 31 days. -/
theorem daysBefore_le (y m : ℕ) : daysBefore y m ≤ 31 := by
  unfold daysBefore mktimeDayZero
  split
  · exact le_refl 31
  · exact daysInMonth_le _ _

/-- The month before fits into the digits of the name. -/
theorem before_fits (y m : Date) :
    yearBefore y.year m.month < 10 ^ 4 ∧ monthBefore m.month < 10 ^ 2 := by
  have hy := y.year_le
  have hm := m.month_le
  unfold yearBefore monthBefore
  split_ifs <;> omega

/-! ## One export -/

/-- The window is that of a day when the readings for it are in step with the day. -/
theorem runWindow_eq_iff (clock : ℕ → Date) (d : Date) :
    (runWindow clock = runWindow fun _ => d) ↔ (clock 5).year = d.year ∧
      (clock 6).month = d.month ∧
      ((clock 4).day = 1 ∧ d.day = 1 ∧
          daysBefore (clock 7).year (clock 8).month = daysBefore d.year d.month ∨
        (clock 4).day ≠ 1 ∧ d.day ≠ 1 ∧ (clock 7).day - 1 = d.day - 1) := by
  have h5 := (clock 5).fits
  have h6 := (clock 6).fits
  have h7 := (clock 7).fits
  have hd := d.fits
  by_cases hfull : (clock 4).day = 1 <;> by_cases hday : d.day = 1
  · have hdays := daysBefore_le (clock 7).year (clock 8).month
    have hdays' := daysBefore_le d.year d.month
    have hb := before_fits (clock 5) (clock 6)
    have hb' := before_fits d d
    have hend : endOf (yearBefore (clock 5).year (clock 6).month) (monthBefore (clock 6).month)
          (daysBefore (clock 7).year (clock 8).month) =
        endOf (yearBefore d.year d.month) (monthBefore d.month) (daysBefore d.year d.month) ↔
          ((clock 5).year = d.year ∧ (clock 6).month = d.month) ∧
            daysBefore (clock 7).year (clock 8).month = daysBefore d.year d.month := by
      rw [endOf, endOf, stampText_inj hb.1 hb.2 (by omega) hb'.1 hb'.2 (by omega), ← and_assoc,
        before_inj (clock 5).year_pos (clock 6).month_pos (clock 6).month_le d.year_pos d.month_pos
          d.month_le]
    simp only [runWindow, hfull, hday, if_true, Window.full.injEq, ne_eq, not_true, false_and,
      or_false, true_and]
    rw [← and_assoc]
    exact hend
  · simp [runWindow, hfull, hday]
  · simp [runWindow, hfull, hday]
  · simp only [runWindow, hfull, hday, if_false, Window.add.injEq, ne_eq, not_false_eq_true,
      false_and, false_or, true_and]
    rw [startOf, startOf, endOf, endOf,
      stampText_inj h5.1 h6.2.1 (by omega) hd.1 hd.2.1 (by omega),
      stampText_inj h5.1 h6.2.1 (by omega) hd.1 hd.2.1 (by omega), and_self]

/-- The name is that of a day if the readings that it is made of agree with the day. -/
theorem fileName_day_iff (cfg : Config) (clock : ℕ → Date) (d : Date) :
    (fileName cfg clock = fileName cfg fun _ => d) ↔ (clock 1).year = d.year ∧
      (clock 2).month = d.month ∧ nameDay (clock 0) (clock 3) = nameDay d d :=
  fileName_inj cfg clock fun _ => d

/-- The flags of two days. -/
theorem flag_inj (a b : Date) :
    ((if a.day = 1 then 0 else 1) = if b.day = 1 then 0 else 1) ↔ (a.day = 1 ↔ b.day = 1) := by
  split_ifs with ha hb hb <;> simp [ha, hb]

section
variable {cfg : Config} {s : State} {io : Io} {clock : ℕ → Date} {lines : List Line}

/-- The lines are those of a day when the readings for them are in step with the day. -/
theorem State.Wrote.lines_iff (hw : s.Wrote io clock lines) (d : Date) :
    (∀ l ∈ lines, l.flag = (if d.day = 1 then 0 else 1) ∧ l.month = monthText d) ↔
      ∀ i < lines.length, ((clock (firstRead clock + 2 * i)).day = 1 ↔ d.day = 1) ∧
        (clock (firstRead clock + 2 * i + 1)).year = d.year ∧
        (clock (firstRead clock + 2 * i + 1)).month = d.month := by
  constructor
  · intro h i hi
    obtain ⟨hflag, hmonth⟩ := hw.readings (List.getElem?_eq_getElem hi)
    obtain ⟨hflag', hmonth'⟩ := h lines[i] (List.getElem_mem hi)
    exact ⟨(flag_inj _ _).1 (hflag.symm.trans hflag'), monthText_inj.1 (hmonth.symm.trans hmonth')⟩
  · intro h l hl
    obtain ⟨i, hi, rfl⟩ := List.getElem_of_mem hl
    obtain ⟨hflag, hmonth⟩ := hw.readings (List.getElem?_eq_getElem hi)
    obtain ⟨hday, hsame⟩ := h i hi
    exact ⟨hflag.trans ((flag_inj _ _).2 hday), hmonth.trans (monthText_inj.2 hsame)⟩

/-- What the readings say when the name, the window and the lines are those of a day. -/
theorem ExportOf.inStep (hw : s.Wrote io clock lines) {d : Date}
    (h : ExportOf cfg d (fileName cfg clock) (runWindow clock) lines) :
    InStep clock lines.length := by
  obtain ⟨hyear, hmonth, hname⟩ := (fileName_day_iff cfg clock d).1 h.name
  obtain ⟨hy, hm, hkind⟩ := (runWindow_eq_iff clock d).1 h.window
  have hlines := (hw.lines_iff d).1 fun l hl => ⟨h.flag l hl, h.month l hl⟩
  have hday : (clock 4).day = 1 ↔ d.day = 1 := by
    rcases hkind with ⟨h₁, h₂, -⟩ | ⟨h₁, h₂, -⟩
    · exact iff_of_true h₁ h₂
    · exact iff_of_false h₁ h₂
  refine ⟨hyear.trans hy.symm, hmonth.trans hm.symm, ?_, ?_, ?_, ?_⟩
  · intro hfull
    obtain ⟨-, hd, hdays⟩ | ⟨hne, -⟩ := hkind
    · rw [nameDay, nameDay, if_pos hd, hd] at hname
      rw [hy, hm]
      exact ⟨hname, hdays⟩
    · exact absurd hfull hne
  · intro hadd
    obtain ⟨hfull, -⟩ | ⟨-, hd, hlast⟩ := hkind
    · exact absurd hfull hadd
    · have hpos := d.day_pos
      have hle := d.day_le
      have heq : (clock 7).day = d.day := by omega
      rw [nameDay, nameDay, if_neg hd, ← heq] at hname
      rw [hy, hm]
      exact ⟨hname, by omega, heq ▸ hle⟩
  · intro i hi
    exact (hlines i hi).1.trans hday.symm
  · intro i hi
    rw [hy, hm]
    exact (hlines i hi).2

/-- The name, the window and the lines are those of a day that the readings are in step with. -/
theorem InStep.exportOf (hw : s.Wrote io clock lines) (h : InStep clock lines.length) {d : Date}
    (hy : (clock 5).year = d.year) (hm : (clock 6).month = d.month)
    (hkind : (clock 4).day = 1 ∧ d.day = 1 ∨ (clock 4).day ≠ 1 ∧ d.day = (clock 7).day) :
    ExportOf cfg d (fileName cfg clock) (runWindow clock) lines := by
  have hday : ((clock 4).day = 1 ↔ d.day = 1) ∧ nameDay (clock 0) (clock 3) = nameDay d d ∧
      runWindow clock = runWindow fun _ => d := by
    rw [runWindow_eq_iff]
    obtain ⟨hfull, hd⟩ | ⟨hadd, hd⟩ := hkind
    · obtain ⟨hname, hdays⟩ := h.full hfull
      rw [hy, hm] at hdays
      refine ⟨iff_of_true hfull hd, ?_, hy, hm, .inl ⟨hfull, hd, hdays⟩⟩
      rw [hname, nameDay, if_pos hd, hd]
    · obtain ⟨hname, htwo, -⟩ := h.add hadd
      have hne : d.day ≠ 1 := by omega
      refine ⟨iff_of_false hadd hne, ?_, hy, hm, .inr ⟨hadd, hne, by rw [hd]⟩⟩
      rw [hname, nameDay, if_neg hne, hd]
  obtain ⟨hfull, hname, hwindow⟩ := hday
  have hlines := (hw.lines_iff d).2 fun i hi =>
    ⟨(h.flags i hi).trans hfull, by rw [← hy, ← hm]; exact h.months i hi⟩
  refine ⟨?_, hwindow, fun l hl => (hlines l hl).1, fun l hl => (hlines l hl).2⟩
  exact (fileName_day_iff cfg clock d).2 ⟨h.year.trans hy, h.month.trans hm, hname⟩

end

/-- **One run, one export.** The name of the file, the window and the lines written so far are
those of one day exactly when the readings of the clock are in step. -/
theorem one_export_iff (cfg : Config) {s : State} {io : Io} {clock : ℕ → Date} {lines : List Line}
    (hw : s.Wrote io clock lines) :
    (∃ d, ExportOf cfg d (fileName cfg clock) (runWindow clock) lines) ↔
      InStep clock lines.length := by
  refine ⟨fun ⟨d, h⟩ => h.inStep hw, fun h => ?_⟩
  have hm := (clock 6).month_pos
  by_cases hfull : (clock 4).day = 1
  · have hone : 1 ≤ daysInMonth (clock 5).year (clock 6).month := by
      unfold daysInMonth
      split_ifs <;> omega
    let d : Date := ⟨(clock 5).year, (clock 6).month, 1, (clock 5).year_pos, (clock 5).year_le,
      (clock 6).month_pos, (clock 6).month_le, le_refl 1, hone⟩
    exact ⟨d, h.exportOf hw rfl rfl (.inl ⟨hfull, rfl⟩)⟩
  · let d : Date := ⟨(clock 5).year, (clock 6).month, (clock 7).day, (clock 5).year_pos,
      (clock 5).year_le, (clock 6).month_pos, (clock 6).month_le, (clock 7).day_pos,
      (h.add hfull).2.2⟩
    exact ⟨d, h.exportOf hw rfl rfl (.inr ⟨hfull, rfl⟩)⟩

namespace LeapDay

/-- The run of 1 March 2016, within the day. -/
theorem one_export_march1 : ∃ lines, start.Wrote io (fun _ => march1) lines ∧
    ∃ d, ExportOf cfg d (fileName cfg fun _ => march1) (runWindow fun _ => march1) lines := by
  obtain ⟨lines, hpub⟩ := start.after_completes io_merges
    (io_completes (fileName cfg fun _ => march1))
  have hw := (State.published_wrote hpub).2
  exact ⟨lines, hw, (one_export_iff cfg hw).2 (inStep_of_day march1 lines.length)⟩

/-- Midnight comes when the name is made. -/
def midnight (n : ℕ) : Date := if n < 4 then feb29 else march1

/-- The clock does not go back. -/
theorem midnight_monotone : Monotone midnight := by
  intro i j hij
  unfold midnight
  split_ifs with hi hj hj
  · exact le_refl _
  · exact feb29_lt_march1.le
  · omega
  · exact le_refl _

/-- The file of the full export of 1 March has the name of the increment of 29 February. -/
theorem midnight_mixes : Monotone midnight ∧ ∃ lines,
    (start.after cfg io midnight).published = [⟨fileName cfg midnight, lines, 7⟩] ∧
      ¬∃ d, ExportOf cfg d (fileName cfg midnight) (runWindow midnight) lines := by
  obtain ⟨lines, hpub⟩ := start.after_completes io_merges
    (io_completes (fileName cfg midnight))
  refine ⟨midnight_monotone, lines, hpub, ?_⟩
  rintro ⟨d, h⟩
  have hname : nameDay (midnight 0) (midnight 3) = 1 :=
    ((h.inStep (State.published_wrote hpub).2).full rfl).1
  exact absurd hname (by decide)

end LeapDay

end TelecomSuite.CallOut
