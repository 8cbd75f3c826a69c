import TelecomSuite.CallOut.Marks

/-!
# Every caller is exported, and once

Runs in which no step fails and whose clock stays within the day. A run writes exactly the callers
it inserted, under its own index, so the published files are pairwise disjoint; and a caller that
is recorded was written when it was inserted (`Covered`). The windows reach every record they are
meant for: from the second day of a month on the window is the previous day, and on the first day
everything before it, whatever the month and the year (`runWindow_holds`).
-/

namespace TelecomSuite.CallOut

open Transition

/-! ## The windows -/

/-- The records a run on this day is meant for: those of the previous day, and on the first day of
a month all earlier ones. -/
def Record.Due (r : Record) (today : Date) : Prop :=
  r.bStatus = some 2 ∧ ∃ t, r.bTime = some t ∧
    if today.day = 1 then t.date < today else t.date ⋖ today

/-- The script's own step to the month before agrees with `mktime`. -/
theorem mktimeDayZero_eq {y m : Nat} (h : 1 ≤ m) :
    (mktimeDayZero y m).1 = (if m - 1 = 0 then y - 1 else y) ∧
      (mktimeDayZero y m).2.1 = (if m - 1 = 0 then 12 else m - 1) := by
  unfold mktimeDayZero
  by_cases hjan : m = 1
  · simp [hjan]
  · have hne : m - 1 ≠ 0 := by omega
    simp [hjan, hne]

/-- A date before the first day of a month is no later than the last day of the month before. -/
theorem not_after_mktimeDayZero {d today : Date} (h : d < today) (hday : today.day = 1) :
    ¬ ((mktimeDayZero today.year today.month).1 < d.year ∨
      (mktimeDayZero today.year today.month).1 = d.year ∧
        ((mktimeDayZero today.year today.month).2.1 < d.month ∨
          (mktimeDayZero today.year today.month).2.1 = d.month ∧
            (mktimeDayZero today.year today.month).2.2 < d.day)) := by
  have hlt := Date.lt_iff.1 h
  have hd := d.day_pos
  have hm := d.month_pos
  have hm' := d.month_le
  have hy := today.year_pos
  unfold mktimeDayZero
  split
  · have hdays : d.day ≤ 31 := d.day_le.trans (daysInMonth_le _ _)
    dsimp only
    omega
  · next hjan =>
    have hdays := d.day_le
    have hmonth := today.month_pos
    dsimp only
    rintro (hyear | ⟨hyear, hmon | ⟨hmon, hlast⟩⟩)
    · omega
    · omega
    · rw [hyear, hmon] at hlast
      omega

/-- **The windows of the two kinds of run.** With every reading of the clock on one day, the window
holds for every record that is due on this day. -/
theorem runWindow_holds {today : Date} {clock : Nat → Date} (hclock : ∀ n, clock n = today)
    {r : Record} (h : r.Due today) : (runWindow clock).holds r = true := by
  obtain ⟨hstatus, t, ht, hdate⟩ := h
  have hy := today.year_le
  have hm := today.month_le
  have hm' := today.month_pos
  have hd := today.day_le
  have hd' := daysInMonth_le today.year today.month
  have hwindow : match runWindow clock with
      | .full lastday => toChar t ≤ lastday
      | .add yesm yesa => yesm ≤ toChar t ∧ toChar t ≤ yesa := by
    simp only [runWindow, hclock]
    split at hdate
    · next hday =>
      simp only [hday, if_true]
      have hdays : (mktimeDayZero today.year today.month).2.2 ≤ 31 := by
        unfold mktimeDayZero
        split
        · exact le_refl 31
        · exact daysInMonth_le _ _
      obtain ⟨hyear, hmonth⟩ := mktimeDayZero_eq (y := today.year) hm'
      have hle := not_after_mktimeDayZero hdate hday
      rw [hyear, hmonth] at hle
      refine (toChar_le_endOf t ?_ ?_ ?_).2 hle
      · split <;> omega
      · split <;> omega
      · omega
    · next hday =>
      have hday2 : 2 ≤ today.day := by
        have := today.day_pos
        omega
      have heq := Date.eq_dayBefore hdate hday2
      simp only [hday, if_false]
      rw [startOf_le_toChar t (by omega) (by omega) (by omega),
        toChar_le_endOf t (by omega) (by omega) (by omega), heq]
      simp only [Date.dayBefore]
      omega
  unfold Window.holds
  simp only [hstatus, decide_true, Bool.true_and, ht, Option.any_some]
  generalize runWindow clock = w at hwindow
  cases w with
  | full => simpa using hwindow
  | add => simpa using hwindow

/-! ## Runs without failures -/

/-- No step of a run fails, and its clock stays within the day. -/
def Undisturbed (cfg : Config) (s : State) : Label → Prop
  | .run io clock => (∃ index, io.Merges index) ∧ io.Completes (fileName cfg clock) s.store ∧
      ∀ n, clock n = s.today
  | .nextDay _ | .change _ | .collect _ => True

/-- The files hold the recorded callers, each under the index of its file. -/
structure Covered (s : State) : Prop where
  nodup : (s.published.map (·.index)).Nodup
  issued : ∀ f ∈ s.published, f.index ∈ s.used
  writes : ∀ f ∈ s.published, ∀ c, f.Writes c ↔ (⟨some c, f.index⟩ : Mark) ∈ s.marks
  written : ∀ c k, (⟨some c, k⟩ : Mark) ∈ s.marks → ∃ f ∈ s.published, f.Writes c

section
variable {cfg : Config} {s : State}

/-- A run that gets through to its end keeps the files and the marks in step. -/
theorem Covered.run (h : Covered s) {io : Io} {clock : Nat → Date} {index : Nat}
    (hm : io.Merges index) (hc : io.Completes (fileName cfg clock) s.store)
    (hfresh : index ∉ s.used) : Covered (s.after cfg io clock) := by
  obtain ⟨f, hpub, rfl, hwrites⟩ := after_published hm hc
  have hold : ∀ g ∈ s.published, ∀ c, (⟨some c, g.index⟩ : Mark) ∈ (s.after cfg io clock).marks ↔
      (⟨some c, g.index⟩ : Mark) ∈ s.marks := by
    intro g hg c
    rw [mem_after_marks]
    refine ⟨fun hc => hc.resolve_right ?_, .inl⟩
    intro hnew
    have heq : g.index = f.index := Option.some.inj (hnew.1.nextval.symm.trans hm.nextval)
    exact hfresh (heq ▸ h.issued g hg)
  refine ⟨?_, ?_, ?_, ?_⟩
  · rw [hpub, List.map_append, List.map_singleton, List.nodup_append]
    refine ⟨h.nodup, List.nodup_singleton _, ?_⟩
    intro i hi j hj
    obtain ⟨g, hg, rfl⟩ := List.mem_map.1 hi
    rw [List.mem_singleton.1 hj]
    exact fun heq => hfresh (heq ▸ h.issued g hg)
  · intro g hg
    rw [hpub] at hg
    rcases List.mem_append.1 hg with hg | hg
    · exact mem_after_used.2 (.inr (h.issued g hg))
    · rw [List.mem_singleton.1 hg]
      exact mem_after_used.2 (.inl hm.nextval)
  · intro g hg c
    rw [hpub] at hg
    rcases List.mem_append.1 hg with hg | hg
    · rw [h.writes g hg c, hold g hg c]
    · rw [List.mem_singleton.1 hg]
      exact hwrites c
  · intro c k hmark
    rw [hpub]
    rcases mem_after_marks.1 hmark with hmark | ⟨hnew, -⟩
    · obtain ⟨g, hg, hw⟩ := h.written c k hmark
      exact ⟨g, List.mem_append_left _ hg, hw⟩
    · have heq : k = f.index := Option.some.inj (hnew.nextval.symm.trans hm.nextval)
      subst heq
      exact ⟨f, by simp, (hwrites c).2 hmark⟩

/-- The files stay in step with the table along undisturbed runs. -/
theorem covered_inductive (cfg : Config) :
    ((system cfg).restrict (Undisturbed cfg)).Inductive Covered where
  init s h := by
    refine ⟨?_, ?_, ?_, ?_⟩ <;> simp [h.published, h.marks]
  step s a s' := by
    rintro ⟨hstep, hguard⟩ h
    cases hstep with
    | run hfresh =>
      obtain ⟨⟨index, hm⟩, hc, -⟩ := hguard
      exact h.run hm hc (hfresh index hm.nextval)
    | nextDay | change | collect => exact ⟨h.nodup, h.issued, h.writes, h.written⟩

/-- A caller with a record that is due is recorded after the run. -/
theorem due_marked {io : Io} {clock : Nat → Date} {index : Nat} (hm : io.Merges index)
    (hclock : ∀ n, clock n = s.today) {r : Record} (hr : r ∈ s.records) (hdue : r.Due s.today)
    {c : String} (hcaller : r.bCaller = some c) :
    ∃ k, (⟨some c, k⟩ : Mark) ∈ (s.after cfg io clock).marks := by
  by_cases hold : ∃ k, (⟨some c, k⟩ : Mark) ∈ s.marks
  · obtain ⟨k, hk⟩ := hold
    exact ⟨k, mem_after_marks.2 (.inl hk)⟩
  · refine ⟨index, mem_after_marks.2 (.inr ⟨hm, ?_, ?_⟩)⟩
    · exact mem_selectCallers.2 ⟨r, hr, runWindow_holds hclock hdue, hcaller⟩
    · exact Bool.eq_false_iff.2 fun hmatched => hold (matched_some.1 hmatched)

/-- **Every caller is exported, and once.** Along any sequence of runs in which no step fails and
whose clocks stay within the day: no caller is written by two runs; and after a run on the second
or a later day of a month every caller with a record of status 2 dated the previous day has been
written, and after a run on the first day every caller with such a record dated before that day. -/
theorem callers_exported_once (cfg : Config)
    (hs : ((system cfg).restrict (Undisturbed cfg)).Reachable s) :
    (s.published.Pairwise fun f g => ∀ c, ¬ (f.Writes c ∧ g.Writes c)) ∧
      ∀ io clock s', ((system cfg).restrict (Undisturbed cfg)).step s (.run io clock) s' →
        ∀ r ∈ s'.records, r.bStatus = some 2 → ∀ t, r.bTime = some t →
          ∀ c, r.bCaller = some c →
            (2 ≤ s.today.day ∧ t.date ⋖ s.today ∨ s.today.day = 1 ∧ t.date < s.today) →
            ∃ f ∈ s'.published, f.Writes c := by
  have hcovered := (covered_inductive cfg).reachable hs
  have htidy := (tidy_inductive cfg).reachable hs.of_restrict
  refine ⟨?_, ?_⟩
  · have hpair := List.pairwise_map.1 hcovered.nodup
    refine hpair.imp_of_mem fun {f g} hf hg hne c => ?_
    rintro ⟨hwf, hwg⟩
    exact hne (htidy.unique c _ _ ((hcovered.writes f hf c).1 hwf) ((hcovered.writes g hg c).1 hwg))
  · intro io clock s' hstep r hr hstatus t ht c hcaller hdate
    have hcovered' := (covered_inductive cfg).step s _ s' hstep hcovered
    obtain ⟨hstep, ⟨index, hm⟩, hc, hclock⟩ := hstep
    cases hstep with
    | run =>
      have hdue : r.Due s.today := by
        refine ⟨hstatus, t, ht, ?_⟩
        rcases hdate with ⟨hday, hprev⟩ | ⟨hday, hbefore⟩
        · rw [if_neg (by omega)]
          exact hprev
        · rw [if_pos hday]
          exact hbefore
      obtain ⟨k, hk⟩ : ∃ k, (⟨some c, k⟩ : Mark) ∈ (s.after cfg io clock).marks :=
        due_marked hm hclock hr hdue hcaller
      exact hcovered'.written c k hk

end

/-! ## A leap day -/

namespace LeapDay

/-- The configuration of the files. -/
def cfg : Config := ⟨"03", "CALLER", "1"⟩

/-- The first of March 2016. -/
def march1 : Date := ⟨2016, 3, 1, by decide, by decide, by decide, by decide, by decide, by decide⟩

/-- The day before it. -/
def feb29 : Date := ⟨2016, 2, 29, by decide, by decide, by decide, by decide, by decide, by decide⟩

/-- A call on the leap day, one second before its end. -/
def call : Record :=
  ⟨some "059187654321", some ⟨feb29, ⟨23, 59, 59, by decide, by decide, by decide⟩⟩, some 2⟩

/-- Before the first run. -/
def start : State := ⟨march1, [call], [], [], [], []⟩

/-- A run in which nothing fails. -/
def io : Io := ⟨true, some 7, true, true, true, none, fun _ => .empty, true⟩

/-- The run gets to its merge. -/
theorem io_merges : io.Merges 7 := ⟨rfl, rfl, rfl⟩

/-- Nothing fails after it. -/
theorem io_completes (name : String) : io.Completes name [] :=
  ⟨rfl, rfl, rfl, fun _ => nofun, rfl, List.not_mem_nil⟩

/-- `feb29` comes before `march1`. -/
theorem feb29_lt_march1 : feb29 < march1 := Date.lt_iff.2 (by decide)

/-- The call is one that the run is meant for. -/
theorem call_due : call.Due march1 :=
  ⟨rfl, _, rfl, feb29_lt_march1⟩

end LeapDay

/-- The theorem above at the run of 1 March 2016: the caller of the leap day is written. -/
theorem callers_exported_once_leapDay :
    LeapDay.feb29 < LeapDay.march1 ∧
      ∃ f ∈ (LeapDay.start.after LeapDay.cfg LeapDay.io fun _ => LeapDay.march1).published,
        f.Writes "059187654321" := by
  refine ⟨LeapDay.feb29_lt_march1, ?_⟩
  exact (callers_exported_once LeapDay.cfg (.of_init ⟨rfl, rfl⟩)).2 LeapDay.io
    (fun _ => LeapDay.march1) _ ⟨.run fun _ _ => List.not_mem_nil,
      ⟨7, LeapDay.io_merges⟩, LeapDay.io_completes _, fun _ => rfl⟩ LeapDay.call
    (List.mem_singleton.2 rfl) rfl _ rfl _ rfl (.inr ⟨rfl, LeapDay.feb29_lt_march1⟩)

end TelecomSuite.CallOut
