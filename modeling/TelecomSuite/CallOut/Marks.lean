import TelecomSuite.CallOut.Script

/-!
# The table of exported callers

What every run leaves in `RecordName`, failing or not: an index occurs there only after the
sequence gave it, and a caller is recorded under one index (`Tidy`). So a caller that is recorded is
not inserted again, and no later run selects it (`Tidy.not_selected`).
-/

namespace TelecomSuite.CallOut

open Transition

/-- The callers that are selected have a record in the window. -/
theorem mem_selectCallers {records : List Record} {w : Window} {c : Option String} :
    c ∈ selectCallers records w ↔ ∃ r ∈ records, w.holds r = true ∧ r.bCaller = c := by
  simp only [selectCallers, List.mem_dedup, List.mem_map, List.mem_filter, and_assoc]

/-- A caller is matched if it is marked with some index. -/
theorem matched_some {marks : List Mark} {c : String} :
    matched marks (some c) = true ↔ ∃ k, (⟨some c, k⟩ : Mark) ∈ marks := by
  simp only [matched, Option.isSome_some, Bool.true_and, List.any_eq_true, decide_eq_true_eq]
  constructor
  · rintro ⟨⟨caller, k⟩, hmem, rfl⟩
    exact ⟨k, hmem⟩
  · rintro ⟨k, hmem⟩
    exact ⟨_, hmem, rfl⟩

/-- The merge inserts, under its index, the callers that are not recorded. -/
theorem mem_inserted {marks : List Mark} {callers : List (Option String)} {index k : Nat}
    {c : Option String} : (⟨c, k⟩ : Mark) ∈ inserted marks callers index ↔
      k = index ∧ c ∈ callers ∧ matched marks c = false := by
  simp only [inserted, List.mem_map, List.mem_filter, Bool.not_eq_true', Mark.mk.injEq]
  constructor
  · rintro ⟨c', ⟨hc, hm⟩, rfl, rfl⟩
    exact ⟨rfl, hc, hm⟩
  · rintro ⟨rfl, hc, hm⟩
    exact ⟨c, ⟨hc, hm⟩, rfl, rfl⟩

/-- The callers of a file are those marked with its index. -/
theorem mem_selectIndex {marks : List Mark} {index : Nat} {c : Option String} :
    c ∈ selectIndex marks index ↔ (⟨c, index⟩ : Mark) ∈ marks := by
  simp only [selectIndex, List.mem_dedup, List.mem_map, List.mem_filter, decide_eq_true_eq]
  constructor
  · rintro ⟨⟨caller, k⟩, ⟨hmem, rfl⟩, rfl⟩
    exact hmem
  · intro hmem
    exact ⟨_, ⟨hmem, rfl⟩, rfl⟩

/-- Recorded indices come from the sequence, and a caller is recorded under one index. -/
structure Tidy (s : State) : Prop where
  used : ∀ c k, (⟨c, k⟩ : Mark) ∈ s.marks → k ∈ s.used
  unique : ∀ c k k', (⟨some c, k⟩ : Mark) ∈ s.marks → (⟨some c, k'⟩ : Mark) ∈ s.marks → k = k'

section
variable {cfg : Config} {io : Io} {clock : Nat → Date} {s : State}

/-- The table after a merge. -/
theorem after_marks {index : Nat} (h : io.Merges index) : (s.after cfg io clock).marks =
    s.marks ++ inserted s.marks (selectCallers s.records (runWindow clock)) index :=
  (s.after_ran h).marks

/-- A row of the table after a run was there before, or was inserted by the run. -/
theorem mem_after_marks {c : Option String} {k : Nat} :
    (⟨c, k⟩ : Mark) ∈ (s.after cfg io clock).marks ↔ (⟨c, k⟩ : Mark) ∈ s.marks ∨
      io.Merges k ∧ c ∈ selectCallers s.records (runWindow clock) ∧ matched s.marks c = false := by
  by_cases h : ∃ index, io.Merges index
  · obtain ⟨index, h⟩ := h
    rw [after_marks h, List.mem_append, mem_inserted]
    refine or_congr_right ⟨?_, ?_⟩
    · rintro ⟨rfl, hc⟩
      exact ⟨h, hc⟩
    · rintro ⟨hk, hc⟩
      exact ⟨Option.some.inj (hk.nextval.symm.trans h.nextval), hc⟩
  · rw [(s.after_idle fun index hm => h ⟨index, hm⟩).1]
    exact ⟨.inl, fun hc => hc.resolve_right fun hm => h ⟨k, hm.1⟩⟩

/-- A run uses the index that it gets from the sequence, if it gets one. -/
theorem mem_after_used {k : Nat} :
    k ∈ (s.after cfg io clock).used ↔ io.nextval = some k ∨ k ∈ s.used := by
  simp only [State.after, List.mem_append, Option.mem_toList]

/-- **The table stays tidy**, whatever fails. -/
theorem tidy_inductive (cfg : Config) : (system cfg).Inductive Tidy where
  init s h := by
    refine ⟨fun c k hc => ?_, fun c k k' hc => ?_⟩ <;>
    · rw [h.marks] at hc
      cases hc
  step s a s' hstep h := by
    cases hstep with
    | @run io clock hfresh =>
      refine ⟨?_, ?_⟩
      · intro c k hc
        rcases mem_after_marks.1 hc with hc | ⟨hm, -⟩
        · exact mem_after_used.2 (.inr (h.used c k hc))
        · exact mem_after_used.2 (.inl hm.nextval)
      · intro c k k' hc hc'
        rcases mem_after_marks.1 hc with hc | ⟨hm, -, hnew⟩ <;>
          rcases mem_after_marks.1 hc' with hc' | ⟨hm', -, hnew'⟩
        · exact h.unique c k k' hc hc'
        · rw [matched_some.2 ⟨k, hc⟩] at hnew'
          cases hnew'
        · rw [matched_some.2 ⟨k', hc'⟩] at hnew
          cases hnew
        · exact Option.some.inj (hm.nextval.symm.trans hm'.nextval)
    | nextDay | change | collect => exact ⟨h.used, h.unique⟩

/-- A recorded caller stays recorded under its index. -/
theorem marks_run {t : State} {as : List Label} (hrun : (system cfg).Run s as t) {mk : Mark}
    (h : mk ∈ s.marks) : mk ∈ t.marks := by
  induction hrun with
  | nil => exact h
  | cons hstep _ ih =>
    refine ih ?_
    cases hstep with
    | run => exact mem_after_marks.2 (.inl h)
    | nextDay | change | collect => exact h

/-- A recorded caller is not selected by a later run. -/
theorem Tidy.not_selected (h : Tidy s) {c : String} {k index : Nat}
    (hc : (⟨some c, k⟩ : Mark) ∈ s.marks) (hfresh : index ∉ s.used) :
    some c ∉ selectIndex (s.after cfg io clock).marks index := by
  rw [mem_selectIndex, mem_after_marks]
  rintro (hold | ⟨-, -, hnew⟩)
  · exact hfresh (h.used _ _ hold)
  · rw [matched_some.2 ⟨k, hc⟩] at hnew
    cases hnew

/-- A run without a failure publishes the callers it inserted. -/
theorem after_published {index : Nat} (h : io.Merges index)
    (hc : io.Completes (fileName cfg clock) s.store) :
    ∃ f : Export, (s.after cfg io clock).published = s.published ++ [f] ∧ f.index = index ∧
      ∀ c, f.Writes c ↔ (⟨some c, index⟩ : Mark) ∈ (s.after cfg io clock).marks := by
  obtain ⟨lines, hlines⟩ := s.after_completes h hc
  refine ⟨_, hlines, rfl, ?_⟩
  intro c
  have hran : Ran io (fileName cfg clock) index (runWindow clock) s.machine _ :=
    State.after_ran s h
  rcases hran.published with ⟨hsame, -⟩ | ⟨lines', hpub, -, hall⟩
  · have hlen := congrArg List.length (hlines.symm.trans hsame)
    simp [State.machine] at hlen
  · have heq : lines = lines' := by
      have := List.append_cancel_left (hlines.symm.trans hpub)
      injection this with this
      injection this
    rw [← mem_selectIndex, heq]
    change _ ↔ some c ∈ selectIndex (main cfg io clock s.machine).2.marks index
    rw [← hall hc.fetches, List.mem_map]
    rfl

end

end TelecomSuite.CallOut
