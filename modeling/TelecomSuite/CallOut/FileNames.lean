import TelecomSuite.CallOut.Coverage

/-!
# The names of the output files

`GetFileName` names the file after the day of the run on the first of a month and after the day
before it on all other days. Two runs on different days therefore get one name exactly when they
are on the first and on the second of a month, and the rename of the second run meets the file of
the first (`names_apart_iff`).
-/

namespace TelecomSuite.CallOut

open FixedWidth

/-- The day in the name. -/
def nameDay (today d : Date) : ℕ := if today.day = 1 then d.day else d.day - 1

/-- A date as it stands in the name. -/
def nameText (y m d : ℕ) : List Char := decimal 4 y ++ decimal 2 m ++ decimal 2 d

/-- The name, put together from the four readings of the clock. -/
theorem fileName_eq (cfg : Config) (clock : ℕ → Date) :
    fileName cfg clock = cfg.filenameprefix ++ "_" ++ cfg.stagLogo ++ "_" ++ String.ofList
      (nameText (clock 1).year (clock 2).month (nameDay (clock 0) (clock 3))) := by
  rw [fileName, nameText, nameDay]
  split_ifs <;> rfl

/-- Each part of a date fits into the digits of the name. -/
theorem Date.fits (d : Date) : d.year < 10 ^ 4 ∧ d.month < 10 ^ 2 ∧ d.day < 10 ^ 2 := by
  have hy := d.year_le
  have hm := d.month_le
  have hd := d.day_le.trans (daysInMonth_le d.year d.month)
  omega

/-- So does the day that the name has. -/
theorem nameDay_fits (today d : Date) : nameDay today d < 10 ^ 2 := by
  have hd := d.fits
  unfold nameDay
  split_ifs <;> omega

/-- The digits of the name tell year, month and day. -/
theorem nameText_inj {y m d y' m' d' : ℕ} (hy : y < 10 ^ 4) (hm : m < 10 ^ 2) (hd : d < 10 ^ 2)
    (hy' : y' < 10 ^ 4) (hm' : m' < 10 ^ 2) (hd' : d' < 10 ^ 2) :
    nameText y m d = nameText y' m' d' ↔ y = y' ∧ m = m' ∧ d = d' := by
  constructor
  · intro h
    have hlength : (decimal 4 y ++ decimal 2 m).length = (decimal 4 y' ++ decimal 2 m').length := by
      simp only [List.length_append, length_decimal hy, length_decimal hm, length_decimal hy',
        length_decimal hm']
    obtain ⟨h, hday⟩ := List.append_inj h hlength
    obtain ⟨hyear, hmonth⟩ := List.append_inj h
      ((length_decimal hy).trans (length_decimal hy').symm)
    exact ⟨(decimal_inj hy hy').1 hyear, (decimal_inj hm hm').1 hmonth, (decimal_inj hd hd').1 hday⟩
  · rintro ⟨rfl, rfl, rfl⟩
    rfl

/-- Two names are equal when the years, the months and the days in them are. -/
theorem fileName_inj (cfg : Config) (clock clock' : ℕ → Date) :
    fileName cfg clock = fileName cfg clock' ↔ (clock 1).year = (clock' 1).year ∧
      (clock 2).month = (clock' 2).month ∧
        nameDay (clock 0) (clock 3) = nameDay (clock' 0) (clock' 3) := by
  rw [fileName_eq, fileName_eq, String.append_right_inj, String.ofList_inj]
  exact nameText_inj (clock 1).fits.1 (clock 2).fits.2.1 (nameDay_fits _ _)
    (clock' 1).fits.1 (clock' 2).fits.2.1 (nameDay_fits _ _)

/-- The first and the second day of a month. -/
def FirstAndSecond (d d' : Date) : Prop :=
  d.year = d'.year ∧ d.month = d'.month ∧ (d.day = 1 ∧ d'.day = 2 ∨ d.day = 2 ∧ d'.day = 1)

/-- Runs on two days have the same name if these are the first and the second day of a month. -/
theorem fileName_eq_iff (cfg : Config) {d d' : Date} (h : d ≠ d') :
    (fileName cfg fun _ => d) = (fileName cfg fun _ => d') ↔ FirstAndSecond d d' := by
  have hd := d.day_pos
  have hd' := d'.day_pos
  have hdays : d.year = d'.year → d.month = d'.month → d.day ≠ d'.day := by
    intro hy hm hday
    refine h (Date.key_injective ?_)
    rw [Date.key, Date.key, hy, hm, hday]
  rw [fileName_inj, FirstAndSecond, nameDay, nameDay]
  refine and_congr_right fun hy => and_congr_right fun hm => ?_
  have hne := hdays hy hm
  split_ifs <;> omega

/-- **Runs on different days.** The names differ, and the second run publishes its file beside the
file of the first, unless the runs are on the first and on the second of a month. -/
theorem names_apart_iff (cfg : Config) {d d' : Date} (h : d ≠ d') :
    ((fileName cfg fun _ => d) ≠ (fileName cfg fun _ => d') ∧
        ∀ (s : State) (io : Io) (index : ℕ), s.store = [fileName cfg fun _ => d] →
          io.Merges index → io.Completes (fileName cfg fun _ => d') [] →
            ∃ lines, (s.after cfg io fun _ => d').published =
              s.published ++ [⟨fileName cfg fun _ => d', lines, index⟩]) ↔
      ¬FirstAndSecond d d' := by
  rw [← fileName_eq_iff cfg h]
  refine and_iff_left_of_imp fun hname => ?_
  intro s io index hstore hmerges hc
  refine s.after_completes hmerges ⟨hc.opens, hc.selects, hc.fetches, hc.areas, hc.renames, ?_⟩
  rw [hstore, List.mem_singleton]
  exact hname.symm

/-! ## The first and the second of March -/

/-- The day after, within a month. -/
def Date.dayAfter (d : Date) (h : d.day + 1 ≤ daysInMonth d.year d.month) : Date :=
  { d with
    day := d.day + 1
    day_pos := Nat.succ_pos _
    day_le := h }

namespace LeapDay

/-- The second of March 2016. -/
def march2 : Date := march1.dayAfter (by decide)

/-- The third. -/
def march3 : Date := march2.dayAfter (by decide)

/-- The full export of 1 March and the increment of 2 March have one name. -/
theorem names_meet : march1 ≠ march2 ∧
    (fileName cfg fun _ => march1) = (fileName cfg fun _ => march2) := by
  have hne : march1 ≠ march2 := fun h => absurd (congrArg Date.day h) (by decide)
  exact ⟨hne, (fileName_eq_iff cfg hne).2 ⟨rfl, rfl, .inl ⟨rfl, rfl⟩⟩⟩

/-- The names of these two days. -/
theorem names_apart_march3 :
    march2 ≠ march3 ∧ (fileName cfg fun _ => march2) ≠ (fileName cfg fun _ => march3) := by
  have hne : march2 ≠ march3 := fun h => absurd (congrArg Date.day h) (by decide)
  have hdays : ¬FirstAndSecond march2 march3 := by
    rintro ⟨-, -, ⟨h, -⟩ | ⟨-, h⟩⟩
    · exact absurd h (by decide)
    · exact absurd h (by decide)
  exact ⟨hne, ((names_apart_iff cfg hne).2 hdays).1⟩

end LeapDay

end TelecomSuite.CallOut
