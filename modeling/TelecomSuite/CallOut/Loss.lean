import TelecomSuite.CallOut.Coverage

/-!
# Callers lost by a failed export

The merge records the callers of a run before their file exists, and nothing takes the rows back
when a later step fails. A recorded caller is never selected again, so it must be in a published
file by the end of the run that recorded it. This holds along all runs in which an export that
inserts callers completes (`no_caller_lost`); `FailedOpen.caller_lost` is a run that cannot open
its output file.
-/

namespace TelecomSuite.CallOut

open Transition

/-- The caller is recorded, is in no published file, and no later run selects it. -/
def Lost (cfg : Config) (s : State) (c : String) : Prop :=
  (∃ k, (⟨some c, k⟩ : Mark) ∈ s.marks) ∧ (∀ f ∈ s.published, ¬ f.Writes c) ∧
    ∀ as t, (system cfg).Run s as t → ∀ io clock index, io.nextval = some index →
      index ∉ t.used → some c ∉ selectIndex (t.after cfg io clock).marks index

/-- A run whose merge inserts a caller does not fail afterwards: the file opens, the select gives
its rows, all of them are fetched, no city code is NULL, and the rename finds its name free and
succeeds. -/
def ExportsInserted (cfg : Config) (s : State) : Label → Prop
  | .run io clock => (∃ index, io.Merges index) →
      (∃ r ∈ s.records, (runWindow clock).holds r = true ∧
        ∃ c, r.bCaller = some c ∧ matched s.marks (some c) = false) →
      io.Completes (fileName cfg clock) s.store
  | .nextDay _ | .change _ | .collect _ => True

/-- Every recorded caller is in a published file. -/
def Written (s : State) : Prop :=
  ∀ c k, (⟨some c, k⟩ : Mark) ∈ s.marks → ∃ f ∈ s.published, f.Writes c

section
variable {cfg : Config} {s : State} {io : Io} {clock : Nat → Date}

/-- A run takes no published file away. -/
theorem mem_after_published {f : Export} (h : f ∈ s.published) :
    f ∈ (s.after cfg io clock).published := by
  by_cases hm : ∃ index, io.Merges index
  · obtain ⟨index, hm⟩ := hm
    have hran : Ran io (fileName cfg clock) index (runWindow clock) s.machine
        (main cfg io clock s.machine).2 := s.after_ran hm
    change f ∈ (main cfg io clock s.machine).2.published
    rcases hran.published with ⟨hsame, -⟩ | ⟨lines, hpub, -⟩
    · rw [hsame]
      exact h
    · rw [hpub]
      exact List.mem_append_left _ h
  · rw [(s.after_idle fun index hi => hm ⟨index, hi⟩).2]
    exact h

/-- What is recorded is published, along runs that export what they insert. -/
theorem written_inductive (cfg : Config) :
    ((system cfg).restrict (ExportsInserted cfg)).Inductive Written where
  init s h c k hc := by
    rw [h.marks] at hc
    cases hc
  step s a s' := by
    rintro ⟨hstep, hguard⟩ h
    cases hstep with
    | @run io clock hfresh =>
      intro c k hc
      rcases mem_after_marks.1 hc with hold | ⟨hm, hsel, hnew⟩
      · obtain ⟨f, hf, hw⟩ := h c k hold
        exact ⟨f, mem_after_published hf, hw⟩
      · obtain ⟨r, hr, hholds, hcaller⟩ := mem_selectCallers.1 hsel
        have hcomplete := hguard ⟨k, hm⟩ ⟨r, hr, hholds, c, hcaller, hnew⟩
        obtain ⟨f, hpub, -, hwrites⟩ := after_published hm hcomplete
        exact ⟨f, by simp [hpub], (hwrites c).2 hc⟩
    | nextDay | change | collect => exact h

/-- **No caller is lost.** In every state reached by runs that export what they insert, no caller
is recorded, unpublished and out of the reach of later runs. -/
theorem no_caller_lost (cfg : Config)
    (hs : ((system cfg).restrict (ExportsInserted cfg)).Reachable s) (c : String) :
    ¬ Lost cfg s c := by
  rintro ⟨⟨k, hk⟩, hnone, -⟩
  obtain ⟨f, hf, hw⟩ := (written_inductive cfg).reachable hs c k hk
  exact hnone f hf hw

end

/-- The theorem above after the run of 1 March 2016, which records the caller of the leap day. -/
theorem no_caller_lost_leapDay :
    (∃ k, (⟨some "059187654321", k⟩ : Mark) ∈
        (LeapDay.start.after LeapDay.cfg LeapDay.io fun _ => LeapDay.march1).marks) ∧
      ¬ Lost LeapDay.cfg (LeapDay.start.after LeapDay.cfg LeapDay.io fun _ => LeapDay.march1)
        "059187654321" := by
  refine ⟨due_marked LeapDay.io_merges (fun _ => rfl) (List.mem_singleton.2 rfl)
    LeapDay.call_due rfl, no_caller_lost LeapDay.cfg ⟨LeapDay.start,
      [.run LeapDay.io fun _ => LeapDay.march1], ⟨rfl, rfl⟩, .cons ⟨.run ?_, ?_⟩ (.nil _)⟩ _⟩
  · exact fun _ _ => List.not_mem_nil
  · exact fun _ _ => LeapDay.io_completes _

/-! ## An output file that cannot be opened -/

namespace FailedOpen

open LeapDay

/-- The same run, but `io.open` returns nil. -/
def io : Io := { LeapDay.io with opens := false }

/-- The run of 1 March 2016 records the caller of the leap day and then cannot open its file. The
script returns, and no later run selects the caller. -/
theorem caller_lost : ¬ ∀ s, (system cfg).Reachable s → ∀ c, ¬ Lost cfg s c := by
  intro hall
  have hm : io.Merges 7 := ⟨rfl, rfl, rfl⟩
  have hreach : (system cfg).Reachable (start.after cfg io fun _ => march1) :=
    ⟨start, [.run io fun _ => march1], ⟨rfl, rfl⟩,
      .cons (.run fun _ _ => List.not_mem_nil) (.nil _)⟩
  obtain ⟨k, hk⟩ : ∃ k, (⟨some "059187654321", k⟩ : Mark) ∈
      (start.after cfg io fun _ => march1).marks :=
    due_marked hm (fun _ => rfl) (List.mem_singleton.2 rfl) call_due rfl
  refine hall _ hreach "059187654321" ⟨⟨k, hk⟩, ?_, ?_⟩
  · intro f hf
    have hnone : (start.after cfg io fun _ => march1).published = [] := by
      simp only [State.after, main_apply cfg io (fun _ => march1) (m := start.machine) rfl,
        hm.connects, hm.nextval, if_true]
      rw [stQueryData_vars _ _ _ _ _ _ hm.merges]
      rfl
    rw [hnone] at hf
    cases hf
  · intro as t hrun io' clock index _ hfresh
    exact ((tidy_inductive cfg).reachable (hreach.run hrun)).not_selected (marks_run hrun hk) hfresh

end FailedOpen

end TelecomSuite.CallOut
