import TelecomSuite.Dagw.View

/-!
# Sources do not interfere

The workers of all sources share one service thread, one list of configuration entries and one
database layer. Nevertheless a source goes through the same states whatever the other sources do:
two runs in which the observer of a source sees the same steps show it the same states
(`sources_apart`). That the steps of other sources do not show is `Step.view_unseen`; here every
function of the gateway is run in two states that look alike to the source, with messages that
differ in their arrival numbers only.
-/

namespace TelecomSuite.Dagw

open Transition
open Relation (ReflTransGen)

section
variable {W : Type} [DecidableEq W]
variable {src : String} {n₁ n₂ : List Handle} {s₁ s₂ : State W}

/-! ## Two states that look alike -/

/-- The number of a request says nothing about its source. -/
theorem sourceName_of_unnumbered {u₁ u₂ : UserTransferMessage}
    (h : u₁.unnumbered = u₂.unnumbered) : u₁.sourceName = u₂.sourceName := by
  have hsource := congrArg UserTransferMessage.sourceName h
  exact hsource

/-- Two workers look the same if all but the numbers of their requests and the names of their
handles are the same. -/
theorem TDBProcess.view_eq_iff {p₁ p₂ : TDBProcess} : p₁.view n₁ = p₂.view n₂ ↔
    p₁.m_queue.map UserTransferMessage.unnumbered = p₂.m_queue.map UserTransferMessage.unnumbered ∧
    p₁.m_pDbQuery.map n₁.idxOf = p₂.m_pDbQuery.map n₂.idxOf ∧
    p₁.m_rowCount = p₂.m_rowCount ∧ p₁.m_bStop = p₂.m_bStop ∧
    p₁.thread.unnumbered = p₂.thread.unnumbered := by
  simp only [TDBProcess.view, TDBProcess.mk.injEq]

omit [DecidableEq W] in
/-- The rest of the state does not show. -/
theorem Alike.frame (h : Alike src n₁ n₂ s₁ s₂) {t₁ t₂ : State W}
    (h₁ : t₁.m_mapProcess = s₁.m_mapProcess ∧ t₁.workers = s₁.workers ∧ t₁.posted = s₁.posted)
    (h₂ : t₂.m_mapProcess = s₂.m_mapProcess ∧ t₂.workers = s₂.workers ∧ t₂.posted = s₂.posted) :
    Alike src n₁ n₂ t₁ t₂ := by
  obtain ⟨hinfo₁, hworkers₁, hposted₁⟩ := h₁
  obtain ⟨hinfo₂, hworkers₂, hposted₂⟩ := h₂
  refine ⟨by rw [hinfo₁, hinfo₂, h.info], ?_, ?_, h.granted⟩
  · intro w hw
    rw [State.workersOf, hinfo₁] at hw
    rw [hworkers₁, hworkers₂]
    exact h.workers w hw
  · rw [State.responsesOf, State.responsesOf, hposted₁, hposted₂]
    exact h.responses

/-- A worker changes in both runs, in the same way. -/
theorem Alike.setWorker (h : Alike src n₁ n₂ s₁ s₂) {w : W} {p₁ p₂ : TDBProcess}
    (hp : p₁.view n₁ = p₂.view n₂) : Alike src n₁ n₂ (s₁.setWorker w p₁) (s₂.setWorker w p₂) := by
  refine ⟨h.info, ?_, h.responses, h.granted⟩
  intro v hv
  rw [State.setWorker_workers, State.setWorker_workers]
  rcases eq_or_ne v w with rfl | hne
  · rw [Function.update_self, Function.update_self, hp]
  · rw [Function.update_of_ne hne, Function.update_of_ne hne]
    exact h.workers v hv

omit [DecidableEq W] in
/-- The workers of the source are found as before in both runs. -/
theorem Alike.setInfo (h : Alike src n₁ n₂ s₁ s₂) (info : CDBProcInfo W)
    (hvct : info.m_vctProcess = s₁.workersOf src) :
    Alike src n₁ n₂ (s₁.setInfo src info) (s₂.setInfo src info) := by
  refine ⟨?_, fun w hw => h.workers w ?_, h.responses, h.granted⟩
  · rw [State.setInfo_m_mapProcess, State.setInfo_m_mapProcess, Function.update_self,
      Function.update_self]
  · rwa [workersOf_of_info (Function.update_self ..), hvct] at hw

omit [DecidableEq W] in
/-- The same message is posted in both runs. -/
theorem Alike.post (h : Alike src n₁ n₂ s₁ s₂) (dest : ServiceIdentifier)
    {u₁ u₂ : UserTransferMessage} (hu : u₁.unnumbered = u₂.unnumbered) :
    Alike src n₁ n₂ (s₁.post dest u₁) (s₂.post dest u₂) := by
  have hsource := sourceName_of_unnumbered hu
  refine ⟨h.info, h.workers, ?_, h.granted⟩
  have hresponses := h.responses
  simp only [State.responsesOf] at hresponses
  simp only [State.responsesOf, State.post, List.filter_append, List.map_append, hresponses]
  congr 1
  by_cases hsrc : u₂.sourceName = src
  · simp [hsource, hsrc, hu]
  · simp [hsource, hsrc]

omit [DecidableEq W] in
/-- Handles that neither state knows are added to the names. -/
theorem Alike.names (h : Alike src n₁ n₂ s₁ s₂) (hn₁ : Named src s₁ n₁) (hn₂ : Named src s₂ n₂)
    {l₁ l₂ : List Handle} (hl : l₁.length = l₂.length) :
    Alike src (n₁ ++ l₁) (n₂ ++ l₂) s₁ s₂ := by
  have hsame : ∀ {s : State W} {n : List Handle}, Named src s n → ∀ l, ∀ w ∈ s.workersOf src,
      (s.workers w).m_pDbQuery.map (n ++ l).idxOf = (s.workers w).m_pDbQuery.map n.idxOf := by
    intro s n hn l w hw
    cases hq : (s.workers w).m_pDbQuery with
    | none => rfl
    | some k => rw [Option.map_some, Option.map_some, List.idxOf_append_of_mem (hn.mem w hw k hq)]
  refine ⟨h.info, ?_, h.responses, ?_⟩
  · intro w hw
    have hview := TDBProcess.view_eq_iff.1 (h.workers w hw)
    refine TDBProcess.view_eq_iff.2 ⟨hview.1, ?_, hview.2.2⟩
    rw [hsame hn₁ l₁ w hw, hsame hn₂ l₂ w (h.workersOf ▸ hw), hview.2.1]
  · rw [List.length_append, List.length_append, h.granted, hl]

/-! ## The stages of `reconnect` -/

/-- The workers of a source are asked for their handles in both runs, with the same answers. -/
theorem Alike.releaseAll (ws : List W) : ∀ {s₁ s₂ : State W}, Alike src n₁ n₂ s₁ s₂ →
    (∀ w ∈ ws, w ∈ s₁.workersOf src) → ∀ answers : List Bool,
    Alike src n₁ n₂ (releaseAll s₁ ws answers).1 (releaseAll s₂ ws answers).1 ∧
      (releaseAll s₁ ws answers).2 = (releaseAll s₂ ws answers).2 := by
  induction ws with
  | nil => exact fun h _ _ => ⟨h, rfl⟩
  | cons w ws ih =>
    intro s₁ s₂ h hws answers
    have hview := TDBProcess.view_eq_iff.1 (h.workers w (hws w (.head _)))
    have hws' : ∀ v ∈ ws, v ∈ s₁.workersOf src := fun v hv => hws v (.tail _ hv)
    cases hq₁ : (s₁.workers w).m_pDbQuery with
    | none =>
      have hq₂ : (s₂.workers w).m_pDbQuery = none := by
        simpa [hq₁] using hview.2.1.symm
      simp only [Dagw.releaseAll, hq₁, hq₂]
      exact ih h hws' answers
    | some k₁ =>
      obtain ⟨k₂, hq₂, -⟩ : ∃ k₂, (s₂.workers w).m_pDbQuery = some k₂ ∧
          n₂.idxOf k₂ = n₁.idxOf k₁ := by
        simpa [hq₁] using hview.2.1.symm
      simp only [Dagw.releaseAll, hq₁, hq₂]
      split
      · exact ⟨h, rfl⟩
      · refine ih ?_ ?_ _
        · refine Alike.setWorker ?_ ?_
          · exact h.frame ⟨rfl, rfl, rfl⟩ ⟨rfl, rfl, rfl⟩
          · exact TDBProcess.view_eq_iff.2 ⟨hview.1, rfl, hview.2.2⟩
        · exact hws'

/-- Releasing issues no handle. -/
theorem releaseAll_issued (ws : List W) : ∀ (s : State W) (answers : List Bool),
    (releaseAll s ws answers).1.issued = s.issued := by
  induction ws with
  | nil => exact fun _ _ => rfl
  | cons w ws ih =>
    intro s answers
    rw [releaseAll]
    split
    · exact ih s answers
    · split
      · rfl
      · exact ih _ _

omit [DecidableEq W] in
/-- Where no handle was issued, there are no new names. -/
theorem extend_of_eq {s t : State W} (names : List Handle) (h : t.issued = s.issued) :
    extend names s t = names := by
  rw [extend, h, Nat.sub_self, List.range'_zero, List.append_nil]

omit [DecidableEq W] in
/-- No handle was given out. -/
theorem Alike.issued {t₁ t₂ : State W} (h : Alike src n₁ n₂ t₁ t₂) (h₁ : t₁.issued = s₁.issued)
    (h₂ : t₂.issued = s₂.issued) : Alike src (extend n₁ s₁ t₁) (extend n₂ s₂ t₂) t₁ t₂ := by
  rw [extend_of_eq n₁ h₁, extend_of_eq n₂ h₂]
  exact h

omit [DecidableEq W] in
/-- The names of two parts of a run, one after the other. -/
theorem extend_extend {s t u : State W} (names : List Handle) (h : s.issued ≤ t.issued)
    (h' : t.issued ≤ u.issued) : extend (extend names s t) t u = extend names s u := by
  obtain ⟨m, hm⟩ := Nat.exists_eq_add_of_le h
  obtain ⟨n, hn⟩ := Nat.exists_eq_add_of_le h'
  rw [extend, extend, extend, List.append_assoc, hn, Nat.add_sub_cancel_left, hm,
    Nat.add_sub_cancel_left, List.range'_append_1, Nat.add_assoc, Nat.add_sub_cancel_left]

/-- The state in which a worker has just got a new handle. -/
def State.granted (s : State W) (w : W) : State W :=
  { s with issued := s.issued + 1 }.setWorker w { s.workers w with m_pDbQuery := some s.issued }

/-- A grant issues one handle, which is named next. -/
theorem extend_granted (names : List Handle) (s : State W) (w : W) :
    extend names s (s.granted w) = names ++ [s.issued] := by
  have hone : (s.granted w).issued - s.issued = 1 := Nat.add_sub_cancel_left ..
  rw [extend, hone, List.range'_one]

/-- The names go on with the handles that are issued. -/
theorem Named.writes {s t : State W} {names : List Handle} (h : Named src s names)
    (hw : ReflTransGen (Writes src) s t) : Named src t (Dagw.extend names s t) :=
  h.extend (grants_writes hw) (writes_workersOf hw)

/-- A new handle is the next one that the source is given. -/
theorem Alike.grant (h : Alike src n₁ n₂ s₁ s₂) (hn₁ : Named src s₁ n₁) (hn₂ : Named src s₂ n₂)
    {w : W} (hw : w ∈ s₁.workersOf src) :
    Alike src (extend n₁ s₁ (s₁.granted w)) (extend n₂ s₂ (s₂.granted w)) (s₁.granted w)
      (s₂.granted w) := by
  have hnew : ∀ {s : State W} {n : List Handle}, Named src s n →
      (n ++ [s.issued]).idxOf s.issued = n.length := by
    intro s n hn
    rw [List.idxOf_append_of_notMem fun hmem => (hn.lt _ hmem).false, List.idxOf_cons_self,
      Nat.add_zero]
  rw [extend_granted, extend_granted]
  have hnames : Alike src (n₁ ++ [s₁.issued]) (n₂ ++ [s₂.issued]) s₁ s₂ := h.names hn₁ hn₂ rfl
  refine Alike.setWorker ?_ ?_
  · exact hnames.frame ⟨rfl, rfl, rfl⟩ ⟨rfl, rfl, rfl⟩
  · have hview := TDBProcess.view_eq_iff.1 (h.workers w hw)
    refine TDBProcess.view_eq_iff.2 ⟨hview.1, ?_, hview.2.2⟩
    rw [Option.map_some, Option.map_some, hnew hn₁, hnew hn₂, h.granted]

/-- The workers of a source are given handles in both runs, with the same grants. -/
theorem Alike.assignAll (ws : List W) : ∀ {s₁ s₂ : State W} {n₁ n₂ : List Handle},
    Alike src n₁ n₂ s₁ s₂ → Named src s₁ n₁ → Named src s₂ n₂ →
    (∀ w ∈ ws, w ∈ s₁.workersOf src) → ∀ answers : List Granted,
    Alike src (extend n₁ s₁ (assignAll s₁ ws answers).1) (extend n₂ s₂ (assignAll s₂ ws answers).1)
        (assignAll s₁ ws answers).1 (assignAll s₂ ws answers).1 ∧
      (assignAll s₁ ws answers).2 = (assignAll s₂ ws answers).2 := by
  induction ws with
  | nil =>
    intro s₁ s₂ n₁ n₂ h _ _ _ answers
    refine ⟨?_, rfl⟩
    simp only [Dagw.assignAll, extend_of_eq _ rfl]
    exact h
  | cons w ws ih =>
    intro s₁ s₂ n₁ n₂ h hn₁ hn₂ hws answers
    have hw : w ∈ s₁.workersOf src := hws w (.head _)
    have hws' : ∀ v ∈ ws, v ∈ s₁.workersOf src := fun v hv => hws v (.tail _ hv)
    have hw₂ : w ∈ s₂.workersOf src := h.workersOf ▸ hw
    have hws₂ : ∀ v ∈ ws, v ∈ s₂.workersOf src := h.workersOf ▸ hws'
    simp only [Dagw.assignAll]
    cases answers.head?.getD .handle with
    | thrown =>
      refine ⟨?_, rfl⟩
      simp only [extend_of_eq _ rfl]
      exact h
    | null =>
      have hcleared : ∀ {s : State W} {n : List Handle}, Named src s n → w ∈ s.workersOf src →
          Named src (s.setWorker w { s.workers w with m_pDbQuery := none }) n := by
        intro s n hn hw
        have hw' : Writes src s (s.setWorker w { s.workers w with m_pDbQuery := none }) := .clear hw
        rw [← extend_of_eq (t := s.setWorker w { s.workers w with m_pDbQuery := none }) n rfl]
        exact hn.writes (.single hw')
      have hview := TDBProcess.view_eq_iff.1 (h.workers w hw)
      refine ih ?_ (hcleared hn₁ hw) (hcleared hn₂ hw₂) hws' _
      exact h.setWorker (TDBProcess.view_eq_iff.2 ⟨hview.1, rfl, hview.2.2⟩)
    | handle =>
      have hissued : ∀ {s : State W}, (∀ v ∈ ws, v ∈ s.workersOf src) → (s.granted w).issued ≤
          (Dagw.assignAll (s.granted w) ws answers.tail).1.issued := by
        intro s hmem
        have hmem' : ∀ v ∈ ws, v ∈ (s.granted w).workersOf src := hmem
        exact (grants_writes (writes_assignAll ws hmem' answers.tail)).issued
      have hrest := ih (h.grant hn₁ hn₂ hw) (hn₁.writes (.single (.grant hw)))
        (hn₂.writes (.single (.grant hw₂))) hws' answers.tail
      rw [extend_extend n₁ (Nat.le_succ _) (hissued hws'),
        extend_extend n₂ (Nat.le_succ _) (hissued hws₂)] at hrest
      exact hrest

/-- The first half of a reconnect in both runs. -/
theorem Alike.reconnectRelease (h : Alike src n₁ n₂ s₁ s₂) (reply : Reply)
    (todo : List CConnectionCfg) :
    Alike src n₁ n₂ (reconnectRelease s₁ reply src todo).1 (reconnectRelease s₂ reply src todo).1 ∧
      (reconnectRelease s₁ reply src todo).2 = (reconnectRelease s₂ reply src todo).2 := by
  cases hentry : todo.dropWhile (·.m_SourceName ≠ src) with
  | nil =>
    simp only [Dagw.reconnectRelease, hentry]
    exact ⟨h, trivial⟩
  | cons c rest =>
    cases hinfo : s₁.m_mapProcess src with
    | none =>
      simp only [Dagw.reconnectRelease, hentry, hinfo, h.info.symm.trans hinfo]
      exact ⟨h, trivial⟩
    | some info =>
      have hset := h.setInfo { info with m_countMsg := info.m_countMsg + 1, m_connected := false }
        (workersOf_of_info hinfo).symm
      simp only [Dagw.reconnectRelease, hentry, hinfo, h.info.symm.trans hinfo]
      split
      · exact ⟨hset, rfl⟩
      · obtain ⟨halike, hdone⟩ := hset.releaseAll info.m_vctProcess
          (by rw [workersOf_of_info (Function.update_self ..)]; exact fun _ hw => hw) reply.releases
        exact ⟨halike, by rw [hdone]⟩

/-- The first half of a reconnect issues no handle. -/
theorem reconnectRelease_issued (s : State W) (reply : Reply) (src : String)
    (todo : List CConnectionCfg) : (reconnectRelease s reply src todo).1.issued = s.issued := by
  rcases reconnectRelease_cases s reply src todo with h | ⟨info, s₁, -, rfl, h⟩
  · rw [h]
  · rcases h with ⟨-, h⟩ | ⟨-, rest, h⟩
    · rw [h]
      rfl
    · rw [h, releaseAll_issued]
      rfl

/-- The second half of a reconnect in both runs. -/
theorem Alike.reconnectAssign (h : Alike src n₁ n₂ s₁ s₂) (hn₁ : Named src s₁ n₁)
    (hn₂ : Named src s₂ n₂) (reply : Reply) (todo : List CConnectionCfg) :
    Alike src (extend n₁ s₁ (reconnectAssign s₁ reply src todo).1)
        (extend n₂ s₂ (reconnectAssign s₂ reply src todo).1)
        (reconnectAssign s₁ reply src todo).1 (reconnectAssign s₂ reply src todo).1 ∧
      (reconnectAssign s₁ reply src todo).2 = (reconnectAssign s₂ reply src todo).2 := by
  cases hinfo : s₁.m_mapProcess src with
  | none =>
    simp only [Dagw.reconnectAssign, hinfo, h.info.symm.trans hinfo, extend_of_eq _ rfl]
    exact ⟨h, trivial⟩
  | some info =>
    simp only [Dagw.reconnectAssign, hinfo, h.info.symm.trans hinfo]
    have hmem : ∀ w ∈ info.m_vctProcess, w ∈ s₁.workersOf src := by
      rw [workersOf_of_info hinfo]
      exact fun _ hw => hw
    obtain ⟨halike, hdone⟩ := h.assignAll info.m_vctProcess hn₁ hn₂ hmem reply.handles
    rw [hdone]
    split
    · refine ⟨halike.setInfo _ ?_, rfl⟩
      rw [writes_workersOf (writes_assignAll _ hmem _), workersOf_of_info hinfo]
    · exact ⟨halike, rfl⟩

/-! ## A task of the source -/

/-- The tasks that differ in arrival numbers only. -/
theorem unnumbered_cases {t₁ t₂ : Task} (h : t₁.unnumbered = t₂.unnumbered) :
    (∃ dest u₁ u₂, t₁ = .postMessage dest u₁ ∧ t₂ = .postMessage dest u₂ ∧
      u₁.unnumbered = u₂.unnumbered) ∨
    (∃ u₁ u₂, t₁ = .process u₁ ∧ t₂ = .process u₂ ∧ u₁.unnumbered = u₂.unnumbered) ∨
    t₁ = t₂ ∧ (t₁.Silent ∨ ∃ err src, t₁ = .errProcess err src) := by
  cases t₁ <;> cases t₂ <;> simp_all [Task.unnumbered, Task.Silent]

/-- A worker takes a request in both runs, or in none. -/
theorem tryPut_view {p₁ p₂ : TDBProcess} {u₁ u₂ : UserTransferMessage}
    (hp : p₁.view n₁ = p₂.view n₂) (hu : u₁.unnumbered = u₂.unnumbered) :
    (p₁.tryPut u₁).map (TDBProcess.view n₁) = (p₂.tryPut u₂).map (TDBProcess.view n₂) := by
  have hview := TDBProcess.view_eq_iff.1 hp
  have hlength : p₁.m_queue.length = p₂.m_queue.length := by
    simpa using congrArg List.length hview.1
  unfold TDBProcess.tryPut
  rw [hlength]
  split
  · rw [Option.map_some, Option.map_some, Option.some.injEq]
    refine TDBProcess.view_eq_iff.2 ⟨?_, hview.2⟩
    rw [List.map_append, List.map_append, hview.1, List.map_singleton, List.map_singleton, hu]
  · rfl

/-- Two workers that look alike take a message or refuse it. -/
theorem tryPut_alike {p₁ p₂ : TDBProcess} {u₁ u₂ : UserTransferMessage}
    (hp : p₁.view n₁ = p₂.view n₂) (hu : u₁.unnumbered = u₂.unnumbered) :
    (p₁.tryPut u₁ = none ∧ p₂.tryPut u₂ = none) ∨
      ∃ p₁' p₂', p₁.tryPut u₁ = some p₁' ∧ p₂.tryPut u₂ = some p₂' ∧ p₁'.view n₁ = p₂'.view n₂ := by
  have hput := tryPut_view hp hu
  cases h₁ : p₁.tryPut u₁ with
  | none => exact .inl ⟨rfl, by simpa [h₁] using hput.symm⟩
  | some p₁' =>
    obtain ⟨p₂', h₂, hview⟩ := Option.map_eq_some_iff.1 (hput.symm.trans (by rw [h₁]; rfl))
    exact .inr ⟨p₁', p₂', rfl, h₂, hview.symm⟩

/-- A task of the source is done in both runs, with the same answers. -/
theorem Alike.perform (h : Alike src n₁ n₂ s₁ s₂) (hn₁ : Named src s₁ n₁)
    (hn₂ : Named src s₂ n₂) (cfg : Cfg) {own : Option W}
    (hown : ∀ w, own = some w → w ∈ s₁.workersOf src) (reply : Reply) {t₁ t₂ : Task}
    (ht : t₁.unnumbered = t₂.unnumbered) (hsrc : t₁.sourceName = src) :
    Alike src (extend n₁ s₁ (perform cfg own s₁ reply t₁).1)
        (extend n₂ s₂ (perform cfg own s₂ reply t₂).1)
        (perform cfg own s₁ reply t₁).1 (perform cfg own s₂ reply t₂).1 ∧
      (perform cfg own s₁ reply t₁).2 = (perform cfg own s₂ reply t₂).2 := by
  obtain ⟨dest, u₁, u₂, rfl, rfl, hu⟩ | ⟨u₁, u₂, rfl, rfl, hu⟩ | ⟨rfl, hrest⟩ := unnumbered_cases ht
  · exact ⟨(h.post dest hu).issued rfl rfl, rfl⟩
  · cases own with
    | none => exact ⟨h.issued rfl rfl, rfl⟩
    | some w =>
      rcases tryPut_alike (h.workers w (hown w rfl)) hu with
        ⟨h₁, h₂⟩ | ⟨p₁, p₂, h₁, h₂, hview⟩
      all_goals simp only [Dagw.perform, h₁, h₂]
      · exact ⟨h.issued rfl rfl, trivial⟩
      · exact ⟨(h.setWorker hview).issued rfl rfl, trivial⟩
  · subst hsrc
    cases t₁ with
    | postMessage | process => simp [Task.Silent] at hrest
    | errProcess | connect => exact ⟨h.issued rfl rfl, rfl⟩
    | reconnect src todo =>
      obtain ⟨halike, hleft⟩ := h.reconnectRelease reply todo
      exact ⟨halike.issued (reconnectRelease_issued ..) (reconnectRelease_issued ..), hleft⟩
    | assign src todo => exact h.reconnectAssign hn₁ hn₂ reply todo

/-! ## A request of the source -/

omit [DecidableEq W] in
/-- The number of a request says nothing about where it goes. -/
theorem route_unnumbered (info : CDBProcInfo W) (u : UserTransferMessage) :
    route info u.unnumbered =
      ((route info u).1, (route info u).2.1, (route info u).2.2.unnumbered) := by
  unfold route
  dsimp only
  have hsql : u.unnumbered.sql = u.sql := rfl
  rw [hsql]
  split
  · rfl
  · split <;> rfl

/-- Nor does it about the response. -/
theorem respond_unnumbered {u₁ u₂ : UserTransferMessage} (h : u₁.unnumbered = u₂.unnumbered)
    (ret : Int) : (u₁.respond ret).unnumbered = (u₂.respond ret).unnumbered :=
  congrArg (·.respond ret) h

/-- A request for the source is handled in both runs. -/
theorem Alike.handleExecSQL (h : Alike src n₁ n₂ s₁ s₂) (cfg : Cfg) (sender : ServiceIdentifier)
    {u₁ u₂ : UserTransferMessage} (hu : u₁.unnumbered = u₂.unnumbered) (hsrc : u₁.sourceName = src)
    (hservice : s₁.service = s₂.service) :
    Alike src n₁ n₂ (handleExecSQL cfg s₁ sender u₁) (handleExecSQL cfg s₂ sender u₂) ∧
      (handleExecSQL cfg s₁ sender u₁).service = (handleExecSQL cfg s₂ sender u₂).service := by
  have hsrc₂ : u₂.sourceName = src := (sourceName_of_unnumbered hu).symm.trans hsrc
  cases hinfo : s₁.m_mapProcess src with
  | none =>
    simp only [Dagw.handleExecSQL, hsrc, hsrc₂, hinfo, h.info.symm.trans hinfo]
    exact ⟨h.post sender (respond_unnumbered hu (-1)), hservice⟩
  | some info =>
    have hroute := congrArg (route info) hu
    rw [route_unnumbered, route_unnumbered, Prod.mk.injEq, Prod.mk.injEq] at hroute
    obtain ⟨hworker, hdata, hmessage⟩ := hroute
    have hset := h.setInfo (route info u₁).2.1
      ((route_info info u₁).1.trans (workersOf_of_info hinfo).symm)
    have hpost := hset.post sender (respond_unnumbered hmessage (-1))
    simp only [Dagw.handleExecSQL, hsrc, hsrc₂, hinfo, h.info.symm.trans hinfo, ← hworker, ← hdata]
    split
    · exact ⟨hpost, hservice⟩
    · next w hw =>
      split
      · have hmem : w ∈ (s₁.setInfo src (route info u₁).2.1).workersOf src := by
          rw [workersOf_of_info (Function.update_self ..), (route_info info u₁).1]
          exact route_mem hw
        rcases tryPut_alike (hset.workers w hmem) hmessage with
          ⟨h₁, h₂⟩ | ⟨p₁, p₂, h₁, h₂, hview⟩
        all_goals simp only [h₁, h₂]
        · exact ⟨hpost, hservice⟩
        · exact ⟨hset.setWorker hview, hservice⟩
      · exact ⟨hpost.frame ⟨rfl, rfl, rfl⟩ ⟨rfl, rfl, rfl⟩, rfl⟩

/-- Handling a request issues no handle. -/
theorem handleExecSQL_issued (cfg : Cfg) (s : State W) (sender : ServiceIdentifier)
    (utm : UserTransferMessage) : (handleExecSQL cfg s sender utm).issued = s.issued := by
  unfold handleExecSQL
  split
  · rfl
  · dsimp only
    split
    · rfl
    · split
      · split <;> rfl
      · rfl

/-- A query refines itself. -/
theorem BaseQuery.refines_id {σ : Type} (q : BaseQuery σ) : q.Refines id q where
  command _ _ := rfl
  outputCount _ := rfl
  registerOutParam _ _ := rfl
  execute _ := rfl
  fieldCount _ := rfl
  eof _ := rfl
  fetchNext _ := rfl
  fieldAsString _ _ := rfl
  outParamAsString _ _ := rfl
  fieldInfoName _ _ := rfl
  effectCount _ := rfl
  odbcReconnect _ := rfl

/-- The database calls of a request do not depend on its arrival number. -/
theorem exec_unnumbered (db : Db) (cfg : Cfg) (rc : Nat) (u : UserTransferMessage) :
    db.exec cfg rc u.unnumbered =
      ((db.exec cfg rc u).1, (db.exec cfg rc u).2.map id fun _ => 0) :=
  erases_onExecSQL (r := fun _ => 0) db.query.refines_id cfg.build cfg.code cfg.m_MaxRowCount
    db.fuel u.req ⟨db.session, u, rc, []⟩

/-- The number of a request says nothing about what is still to be done. -/
theorem resume_unnumbered (todo : List Task) :
    (Running.resume todo).unnumbered = Running.resume (todo.map Task.unnumbered) := by
  cases todo <;> rfl

/-- Nor does it about what is done when the command has ended. -/
theorem after_unnumbered (db : Db) (cfg : Cfg) (rc : Nat) (u : UserTransferMessage) :
    (Running.after (db.exec cfg rc u)).unnumbered = .after (db.exec cfg rc u.unnumbered) := by
  rw [exec_unnumbered]
  unfold Running.after
  dsimp only
  split
  · rw [resume_unnumbered, Ctx.map, List.map_map, List.map_map]
    congr 1
    refine List.map_congr_left ?_
    intro a _
    cases a <;> rfl
  · rfl

/-! ## Steps of the source -/

omit [DecidableEq W] in
/-- The thread of a worker that looks alike in the two states. -/
theorem Alike.thread (h : Alike src n₁ n₂ s₁ s₂) {w : W} (hw : w ∈ s₁.workersOf src) :
    (s₁.workers w).thread.unnumbered = (s₂.workers w).thread.unnumbered :=
  (TDBProcess.view_eq_iff.1 (h.workers w hw)).2.2.2.2

/-- A worker goes on in both runs, in the same way. -/
theorem Alike.setThread (h : Alike src n₁ n₂ s₁ s₂) {w : W} (hw : w ∈ s₁.workersOf src)
    {r₁ r₂ : Running} (hr : r₁.unnumbered = r₂.unnumbered) :
    Alike src n₁ n₂ (s₁.setThread w r₁) (s₂.setThread w r₂) := by
  have hview := TDBProcess.view_eq_iff.1 (h.workers w hw)
  exact h.setWorker (TDBProcess.view_eq_iff.2 ⟨hview.1, hview.2.1, hview.2.2.1, hview.2.2.2.1, hr⟩)

section
variable {cfg : Cfg} {t₁ t₂ : State W}

/-- A step in which a worker of the source is changed and no handle is given out. -/
theorem view_setWorker (hv : s₁.view src n₁ = s₂.view src n₂) {w : W} {p₁ p₂ : TDBProcess}
    (hp : p₁.view n₁ = p₂.view n₂) :
    (s₁.setWorker w p₁).view src (extend n₁ s₁ (s₁.setWorker w p₁)) =
      (s₂.setWorker w p₂).view src (extend n₂ s₂ (s₂.setWorker w p₂)) := by
  obtain ⟨halike, hservice⟩ := view_eq_iff.1 hv
  exact view_eq_iff.2 ⟨(halike.setWorker hp).issued rfl rfl, hservice⟩

/-- The source sees the same of a request for it. -/
theorem view_receive (hv : s₁.view src n₁ = s₂.view src n₂) {sender : ServiceIdentifier}
    {u₁ u₂ : UserTransferMessage} (hu : u₁.unnumbered = u₂.unnumbered) (hsrc : u₁.sourceName = src)
    (h₁ : Step cfg s₁ (.receive sender u₁) t₁) (h₂ : Step cfg s₂ (.receive sender u₂) t₂) :
    t₁.view src (extend n₁ s₁ t₁) = t₂.view src (extend n₂ s₂ t₂) := by
  obtain ⟨halike, -⟩ := view_eq_iff.1 hv
  cases h₁ with
  | receive hservice₁ =>
  cases h₂ with
  | receive hservice₂ =>
  have harrived : Alike src n₁ n₂ { s₁ with received := s₁.received + 1 }
      { s₂ with received := s₂.received + 1 } := halike.frame ⟨rfl, rfl, rfl⟩ ⟨rfl, rfl, rfl⟩
  have hmessage : UserTransferMessage.unnumbered { u₁ with serial := s₁.received } =
      UserTransferMessage.unnumbered { u₂ with serial := s₂.received } := hu
  obtain ⟨hafter, hservice⟩ := harrived.handleExecSQL cfg sender hmessage hsrc
    (hservice₁.trans hservice₂.symm)
  refine view_eq_iff.2 ⟨hafter.issued ?_ ?_, congrArg₂ (Service.view src) hafter.workersOf hservice⟩
  · exact handleExecSQL_issued cfg { s₁ with received := s₁.received + 1 } sender _
  · exact handleExecSQL_issued cfg { s₂ with received := s₂.received + 1 } sender _

/-- The source sees the same of a step of the service that concerns it. -/
theorem view_serve (hv : s₁.view src n₁ = s₂.view src n₂) (hn₁ : Named src s₁ n₁)
    (hn₂ : Named src s₂ n₂) {reply : Reply} (h₁ : Step cfg s₁ (.serve reply) t₁)
    (h₂ : Step cfg s₂ (.serve reply) t₂) (hc₁ : s₁.concerns src (.serve reply) = true)
    (hc₂ : s₂.concerns src (.serve reply) = true) :
    t₁.view src (extend n₁ s₁ t₁) = t₂.view src (extend n₂ s₂ t₂) := by
  obtain ⟨halike, hservice⟩ := view_eq_iff.1 hv
  cases h₁ with
  | @serve _ task₁ l₁ hservice₁ =>
  cases h₂ with
  | @serve _ task₂ l₂ hservice₂ =>
  have hsrc₁ : task₁.sourceName = src := by simpa [State.concerns, hservice₁] using hc₁
  have hsrc₂ : task₂.sourceName = src := by simpa [State.concerns, hservice₂] using hc₂
  rw [hservice₁, hservice₂, Service.view, Service.view,
    List.filter_cons_of_pos (by simpa using hsrc₁), List.filter_cons_of_pos (by simpa using hsrc₂),
    Service.serving.injEq, List.map_cons, List.map_cons, List.cons.injEq] at hservice
  have hown : ∀ w, (none : Option W) = some w → w ∈ s₁.workersOf src :=
    fun _ h => by cases h
  obtain ⟨hdone, hleft⟩ := halike.perform hn₁ hn₂ cfg hown reply hservice.1 hsrc₁
  refine view_eq_iff.2 ⟨hdone.frame ⟨rfl, rfl, rfl⟩ ⟨rfl, rfl, rfl⟩, ?_⟩
  simp only [Service.view, List.filter_append, List.map_append, hservice.2, hleft]

/-- The source sees the same of a step of one of its workers. -/
theorem view_act (hv : s₁.view src n₁ = s₂.view src n₂) (hp₁ : Placed s₁) (hn₁ : Named src s₁ n₁)
    (hn₂ : Named src s₂ n₂) {w : W} {reply : Reply} (h₁ : Step cfg s₁ (.act w reply) t₁)
    (h₂ : Step cfg s₂ (.act w reply) t₂) (hw : w ∈ s₁.workersOf src) :
    t₁.view src (extend n₁ s₁ t₁) = t₂.view src (extend n₂ s₂ t₂) := by
  obtain ⟨halike, hservice⟩ := view_eq_iff.1 hv
  have hthread := halike.thread hw
  cases h₁ with
  | @act _ _ task₁ l₁ hthread₁ =>
  cases h₂ with
  | @act _ _ task₂ l₂ hthread₂ =>
  rw [hthread₁, hthread₂, Running.unnumbered, Running.unnumbered, Running.doing.injEq,
    List.map_cons, List.map_cons, List.cons.injEq] at hthread
  have hsrc : task₁.sourceName = src := hp₁.apart w _ _ (hp₁.task hthread₁) hw
  have hown : ∀ v, some w = some v → v ∈ s₁.workersOf src := fun v h => Option.some.inj h ▸ hw
  obtain ⟨hdone, hleft⟩ := halike.perform hn₁ hn₂ cfg hown reply hthread.1 hsrc
  have hof₁ := congrFun (writes_workersOf (writes_act cfg hp₁ hthread₁ reply)) src
  have hresume : (Running.resume ((perform cfg (some w) s₁ reply task₁).2 ++ l₁)).unnumbered =
      (Running.resume ((perform cfg (some w) s₂ reply task₂).2 ++ l₂)).unnumbered := by
    rw [resume_unnumbered, resume_unnumbered, List.map_append, List.map_append, hleft, hthread.2]
  have hset := hdone.setThread (hof₁ ▸ hw) hresume
  have hof₂ := hset.workersOf.symm.trans (hof₁.trans halike.workersOf)
  refine view_eq_iff.2 ⟨hset, ?_⟩
  calc Service.view src _ (perform cfg (some w) s₁ reply task₁).1.service
      = s₁.service.view src (s₁.workersOf src) :=
        congrArg₂ (Service.view src) hof₁ (perform_threads cfg (some w) s₁ reply task₁).1
    _ = s₂.service.view src (s₂.workersOf src) := hservice
    _ = Service.view src _ (perform cfg (some w) s₂ reply task₂).1.service :=
        congrArg₂ (Service.view src) hof₂.symm (perform_threads cfg (some w) s₂ reply task₂).1.symm

/-- The next step of `uninit` for a worker of the source. -/
theorem uninit_head {x₁ x₂ : Uninit W} {l₁ l₂ : List (Uninit W)} {ws₁ ws₂ : List W}
    (hx₁ : x₁.worker ∈ ws₁) (hx₂ : x₂.worker ∈ ws₂)
    (h : (Service.uninit (x₁ :: l₁)).view src ws₁ = (Service.uninit (x₂ :: l₂)).view src ws₂) :
    x₁ = x₂ ∧ (Service.uninit l₁).view src ws₁ = (Service.uninit l₂).view src ws₂ := by
  rw [Service.view, Service.view, List.filter_cons_of_pos (by simpa using hx₁),
    List.filter_cons_of_pos (by simpa using hx₂), Service.uninit.injEq, List.cons.injEq] at h
  exact ⟨h.1, congrArg Service.uninit h.2⟩

/-- A step of the shutdown that concerns the source is about one of its workers. -/
theorem uninit_concerns {s : State W} {x : Uninit W} {l : List (Uninit W)}
    (hservice : s.service = .uninit (x :: l)) (h : s.concerns src .uninit = true) :
    x.worker ∈ s.workersOf src := by
  simp only [State.concerns, hservice] at h
  exact of_decide_eq_true h

/-- The source sees the same of a step of the shutdown that concerns it. -/
theorem view_uninit (hv : s₁.view src n₁ = s₂.view src n₂) (h₁ : Step cfg s₁ .uninit t₁)
    (h₂ : Step cfg s₂ .uninit t₂) (hc₁ : s₁.concerns src .uninit = true)
    (hc₂ : s₂.concerns src .uninit = true) :
    t₁.view src (extend n₁ s₁ t₁) = t₂.view src (extend n₂ s₂ t₂) := by
  obtain ⟨halike, hservice⟩ := view_eq_iff.1 hv
  have hnext : ∀ {x₁ x₂ : Uninit W} {l₁ l₂ : List (Uninit W)}, s₁.service = .uninit (x₁ :: l₁) →
      s₂.service = .uninit (x₂ :: l₂) → x₁ = x₂ ∧
        (Service.uninit l₁).view src (s₁.workersOf src) =
          (Service.uninit l₂).view src (s₂.workersOf src) := by
    intro x₁ x₂ l₁ l₂ hs₁ hs₂
    rw [hs₁, hs₂] at hservice
    exact uninit_head (uninit_concerns hs₁ hc₁) (uninit_concerns hs₂ hc₂) hservice
  cases h₁ with
  | release hs₁ =>
    cases h₂ with
    | release hs₂ =>
      refine view_eq_iff.2 ⟨Alike.issued ?_ rfl rfl, (hnext hs₁ hs₂).2⟩
      exact halike.frame ⟨rfl, rfl, rfl⟩ ⟨rfl, rfl, rfl⟩
    | stop hs₂ | wake hs₂ | join hs₂ => cases (hnext hs₁ hs₂).1
  | join hs₁ =>
    cases h₂ with
    | join hs₂ =>
      refine view_eq_iff.2 ⟨Alike.issued ?_ rfl rfl, (hnext hs₁ hs₂).2⟩
      exact halike.frame ⟨rfl, rfl, rfl⟩ ⟨rfl, rfl, rfl⟩
    | release hs₂ | stop hs₂ | wake hs₂ => cases (hnext hs₁ hs₂).1
  | @stop w l₁ hs₁ =>
    cases h₂ with
    | @stop _ l₂ hs₂ =>
      cases (hnext hs₁ hs₂).1
      have hview := TDBProcess.view_eq_iff.1 (halike.workers w (uninit_concerns hs₁ hc₁))
      have hleft : Alike src n₁ n₂ { s₁ with service := .uninit l₁ }
          { s₂ with service := .uninit l₂ } := halike.frame ⟨rfl, rfl, rfl⟩ ⟨rfl, rfl, rfl⟩
      refine view_eq_iff.2 ⟨(hleft.setWorker ?_).issued rfl rfl, (hnext hs₁ hs₂).2⟩
      exact TDBProcess.view_eq_iff.2 ⟨hview.1, hview.2.1, hview.2.2.1, rfl, hview.2.2.2.2⟩
    | release hs₂ | wake hs₂ | join hs₂ => cases (hnext hs₁ hs₂).1
  | @wake w l₁ p₁ hs₁ hput₁ =>
    cases h₂ with
    | @wake _ l₂ p₂ hs₂ hput₂ =>
      cases (hnext hs₁ hs₂).1
      have hput := tryPut_view (halike.workers w (uninit_concerns hs₁ hc₁))
        (Eq.refl wakeUp.unnumbered)
      rw [hput₁, hput₂, Option.map_some, Option.map_some, Option.some.injEq] at hput
      have hleft : Alike src n₁ n₂ { s₁ with service := .uninit l₁ }
          { s₂ with service := .uninit l₂ } := halike.frame ⟨rfl, rfl, rfl⟩ ⟨rfl, rfl, rfl⟩
      exact view_eq_iff.2 ⟨(hleft.setWorker hput).issued rfl rfl, (hnext hs₁ hs₂).2⟩
    | release hs₂ | stop hs₂ | join hs₂ => cases (hnext hs₁ hs₂).1

/-- The part of `uninit` for some of the workers. -/
theorem filter_uninitSteps (order ws : List W) :
    (uninitSteps order).filter (·.worker ∈ ws) = uninitSteps (order.filter (· ∈ ws)) := by
  induction order with
  | nil => rfl
  | cons w order ih =>
    have hsteps : ∀ order : List W, uninitSteps (w :: order) =
        [.release w, .stop w, .wake w, .join w] ++ uninitSteps order := fun _ => rfl
    rw [hsteps, List.filter_append, ih]
    by_cases hw : w ∈ ws
    · have hkept : (w :: order).filter (· ∈ ws) = w :: order.filter (· ∈ ws) :=
        List.filter_cons_of_pos (by simpa using hw)
      rw [hkept, hsteps]
      simp [Uninit.worker, hw]
    · have hdropped : (w :: order).filter (· ∈ ws) = order.filter (· ∈ ws) :=
        List.filter_cons_of_neg (by simpa using hw)
      rw [hdropped]
      simp [Uninit.worker, hw]

/-- The source sees the same of a shutdown that takes its workers in the same order. -/
theorem view_shutdown (hv : s₁.view src n₁ = s₂.view src n₂) {order₁ order₂ : List W}
    (horder : order₁.filter (· ∈ s₁.workersOf src) = order₂.filter (· ∈ s₂.workersOf src))
    (h₁ : Step cfg s₁ (.shutdown order₁) t₁) (h₂ : Step cfg s₂ (.shutdown order₂) t₂) :
    t₁.view src (extend n₁ s₁ t₁) = t₂.view src (extend n₂ s₂ t₂) := by
  obtain ⟨halike, -⟩ := view_eq_iff.1 hv
  cases h₁ with
  | shutdown =>
  cases h₂ with
  | shutdown =>
  refine view_eq_iff.2 ⟨Alike.issued ?_ rfl rfl, ?_⟩
  · exact halike.frame ⟨rfl, rfl, rfl⟩ ⟨rfl, rfl, rfl⟩
  · rw [Service.view, Service.view, filter_uninitSteps, filter_uninitSteps]
    exact congrArg (Service.uninit ∘ uninitSteps) horder

/-- The steps that are seen as the same event. -/
theorem seen_cases {a₁ a₂ : Label W} {ws₁ ws₂ : List W} (h : a₁.seen ws₁ = a₂.seen ws₂) :
    (∃ sender u₁ u₂, a₁ = .receive sender u₁ ∧ a₂ = .receive sender u₂ ∧
      u₁.unnumbered = u₂.unnumbered) ∨
    (∃ order₁ order₂, a₁ = .shutdown order₁ ∧ a₂ = .shutdown order₂ ∧
      order₁.filter (· ∈ ws₁) = order₂.filter (· ∈ ws₂)) ∨
    a₁ = a₂ ∧ (∀ sender u, a₁ ≠ .receive sender u) ∧ ∀ order, a₁ ≠ .shutdown order := by
  cases a₁ <;> cases a₂ <;> simp_all [Label.seen]

/-- **Two steps that the source sees as the same event show it the same state.** -/
theorem Step.view_seen {a₁ a₂ : Label W} (hp₁ : Placed s₁) (hn₁ : Named src s₁ n₁)
    (hn₂ : Named src s₂ n₂) (hv : s₁.view src n₁ = s₂.view src n₂) (h₁ : Step cfg s₁ a₁ t₁)
    (h₂ : Step cfg s₂ a₂ t₂) (hc₁ : s₁.concerns src a₁ = true) (hc₂ : s₂.concerns src a₂ = true)
    (hseen : a₁.seen (s₁.workersOf src) = a₂.seen (s₂.workersOf src)) :
    t₁.view src (extend n₁ s₁ t₁) = t₂.view src (extend n₂ s₂ t₂) := by
  obtain ⟨sender, u₁, u₂, rfl, rfl, hu⟩ | ⟨order₁, order₂, rfl, rfl, horder⟩ |
    ⟨rfl, hreceive, hshutdown⟩ := seen_cases hseen
  · exact view_receive hv hu (of_decide_eq_true hc₁) h₁ h₂
  · exact view_shutdown hv horder h₁ h₂
  obtain ⟨halike, -⟩ := view_eq_iff.1 hv
  cases a₁ with
  | receive sender u => exact absurd rfl (hreceive sender u)
  | shutdown order => exact absurd rfl (hshutdown order)
  | serve reply => exact view_serve hv hn₁ hn₂ h₁ h₂ hc₁ hc₂
  | act w reply => exact view_act hv hp₁ hn₁ hn₂ h₁ h₂ (of_decide_eq_true hc₁)
  | uninit => exact view_uninit hv h₁ h₂ hc₁ hc₂
  | take w =>
    have hview := TDBProcess.view_eq_iff.1 (halike.workers w (of_decide_eq_true hc₁))
    cases h₁ with
    | take _ _ hq₁ =>
    cases h₂ with
    | take _ _ hq₂ =>
    rw [hq₁, hq₂, List.map_cons, List.map_cons, List.cons.injEq] at hview
    refine view_setWorker hv (TDBProcess.view_eq_iff.2 ⟨hview.1.2, hview.2.1, hview.2.2.1,
      hview.2.2.2.1, ?_⟩)
    exact congrArg Running.got hview.1.1
  | exec w db =>
    have hview := TDBProcess.view_eq_iff.1 (halike.workers w (of_decide_eq_true hc₁))
    cases h₁ with
    | @exec _ u₁ _ hthread₁ =>
    cases h₂ with
    | @exec _ u₂ _ hthread₂ =>
    rw [hthread₁, hthread₂, Running.unnumbered, Running.unnumbered, Running.got.injEq] at hview
    obtain ⟨hqueue, hhandle, hrow, hstop, hu⟩ := hview
    have hexec : db.exec cfg (s₁.workers w).m_rowCount u₁.unnumbered =
        db.exec cfg (s₂.workers w).m_rowCount u₂.unnumbered := by rw [hrow, hu]
    refine view_setWorker hv (TDBProcess.view_eq_iff.2 ⟨hqueue, hhandle, ?_, hstop, ?_⟩)
    · rw [exec_unnumbered, exec_unnumbered] at hexec
      exact congrArg (·.2.m_rowCount) hexec
    · rw [after_unnumbered, after_unnumbered, hexec]
  | skip w | quit w =>
    have hview := TDBProcess.view_eq_iff.1 (halike.workers w (of_decide_eq_true hc₁))
    cases h₁
    cases h₂
    exact view_setWorker hv (TDBProcess.view_eq_iff.2
      ⟨hview.1, hview.2.1, hview.2.2.1, hview.2.2.2.1, rfl⟩)

end

/-! ## Two runs -/

/-- What is used of the states of a run: where requests are, and which handles are the source's. -/
structure Known (src : String) (p : State W × List Handle) : Prop where
  placed : Placed p.1
  named : Named src p.1 p.2

/-- What is known of a source holds in every reachable state. -/
theorem known_inductive (cfg : Cfg) (src : String) :
    (granting (W := W) cfg src).Inductive (Known src) where
  init := by
    rintro ⟨s, names⟩ ⟨hs, hnames⟩
    dsimp only at hs hnames
    subst hnames
    refine ⟨placed_init hs, ?_, ?_⟩
    · intro k hk
      obtain ⟨w, -, hw⟩ := List.mem_filterMap.1 hk
      obtain ⟨k', hk', hlt⟩ := hs.handle w
      rw [hw] at hk'
      exact Option.some.inj hk' ▸ hlt
    · intro w hw k hk
      exact List.mem_filterMap.2 ⟨w, hw, hk⟩
  step := by
    rintro ⟨s, names⟩ a ⟨t, names'⟩ ⟨hstep, hnames⟩ ⟨hplaced, hnamed⟩
    dsimp only at hstep hnames hplaced hnamed
    refine ⟨hstep.placed hplaced, ?_⟩
    have hg := Step.grants hplaced hstep
    dsimp only
    rw [hnames, grant]
    split
    · exact hnamed.extend hg (hstep.workersOf hplaced)
    · next hc =>
      have hview : s.view src names = t.view src names :=
        Step.view_unseen hplaced hstep (Bool.eq_false_iff.2 hc)
      exact hnamed.alike hg (view_eq_iff.1 hview).1

/-- The three conditions of the unwinding theorem. -/
theorem unwinding (cfg : Cfg) (src : String) :
    (granting (W := W) cfg src).Unwinding (observer src) (Known src) where
  inv := known_inductive cfg src
  unseen := by
    rintro ⟨s, names⟩ ⟨t, names'⟩ a hknown ⟨hstep, hnames⟩ hevent
    have hc : s.concerns src a = false := by
      by_contra hc
      simp [observer, Bool.eq_true_of_not_eq_false hc] at hevent
    have hsame : names' = names := by
      simpa [grant, hc] using hnames
    subst hsame
    exact (Step.view_unseen hknown.placed hstep hc).symm
  seen := by
    rintro ⟨s₁, n₁⟩ ⟨s₂, n₂⟩ ⟨t₁, n₁'⟩ ⟨t₂, n₂'⟩ a₁ a₂ e hk₁ hk₂ hv ⟨hs₁, hn₁⟩ ⟨hs₂, hn₂⟩ he₁ he₂
    have hevent : ∀ {s : State W} {n : List Handle} {a : Label W},
        (observer src).event (s, n) a = some e →
        s.concerns src a = true ∧ a.seen (s.workersOf src) = e := by
      intro s n a he
      simpa [observer] using he
    obtain ⟨hc₁, hseen₁⟩ := hevent he₁
    obtain ⟨hc₂, hseen₂⟩ := hevent he₂
    simp only [grant, hc₁, hc₂, if_true] at hn₁ hn₂
    subst hn₁ hn₂
    exact Step.view_seen hk₁.placed hk₁.named hk₂.named hv hs₁ hs₂ hc₁ hc₂
      (hseen₁.trans hseen₂.symm)

/-- Every run of the gateway is observed. -/
theorem run_observed (cfg : Cfg) (src : String) {s t : State W} {as : List (Label W)}
    (h : (system cfg).Run s as t) (names : List Handle) :
    ∃ names' es vs, (granting cfg src).Observed (observer src) (s, names) as es vs (t, names') := by
  obtain ⟨names', hrun⟩ := h.ghost names
  obtain ⟨es, vs, ho⟩ := hrun.observed
  exact ⟨names', es, vs, ho⟩

/-- **Sources do not interfere.** Two runs from the same initial state in which the same steps
concern a source, with the same outcomes of its database calls, show the source the same sequence of
states, whatever the other sources do in between; and in every state that a run reaches, the source
is as after its last step. A call of `reconnect` for another source leaves the source's entry of
`m_mapProcess` as it was. -/
theorem sources_apart (cfg : Cfg) (src : String) {p₀ p₁ p₂ : State W × List Handle}
    {as₁ as₂ es : List (Label W)} {vs₁ vs₂ : List (View W)} (h₀ : (granting cfg src).init p₀)
    (h₁ : (granting cfg src).Observed (observer src) p₀ as₁ es vs₁ p₁)
    (h₂ : (granting cfg src).Observed (observer src) p₀ as₂ es vs₂ p₂) :
    vs₁ = vs₂ ∧
      p₁.1.view src p₁.2 = vs₁.getLast?.getD (p₀.1.view src p₀.2) ∧
      p₂.1.view src p₂.2 = vs₂.getLast?.getD (p₀.1.view src p₀.2) ∧
      ∀ (l : List CConnectionCfg) (s : State W) (reply : Reply) (t : String), t ≠ src →
        (reconnect l s reply t).1.m_mapProcess src = s.m_mapProcess src := by
  have hknown := (known_inductive cfg src).init p₀ h₀
  have hunwinding := unwinding (W := W) cfg src
  refine ⟨hunwinding.views_eq h₁ h₂ hknown hknown rfl, hunwinding.view_last h₁ hknown,
    hunwinding.view_last h₂ hknown, ?_⟩
  intro l s reply t ht
  exact reconnect_other ht.symm reply

end

/-! ## A connection of another source is lost -/

namespace TwoSources

open LostConnection (request)

/-- The `_DB_ORACLE_` build with two sources. -/
def cfg : Cfg := ⟨.oracle, LostConnection.code, 200, [⟨"bill", 1⟩, ⟨"user", 1⟩]⟩

/-- The gateway after `init`: each source has one worker with one handle. -/
def start : State Bool where
  m_mapProcess src :=
    if src = "bill" then some ⟨0, true, 0, [false]⟩
    else if src = "user" then some ⟨0, true, 0, [true]⟩ else none
  workers w := ⟨[], some (if w then 1 else 0), 0, false, .idle⟩
  service := .serving []
  posted := []
  issued := 2
  released := []
  received := 0

/-- The data of a source after `init`. -/
theorem start_info {src : String} {info : CDBProcInfo Bool}
    (h : start.m_mapProcess src = some info) :
    (src = "bill" ∧ info = ⟨0, true, 0, [false]⟩) ∨ src = "user" ∧ info = ⟨0, true, 0, [true]⟩ := by
  simp only [start] at h
  split at h
  · next hsrc => exact .inl ⟨hsrc, (Option.some.inj h).symm⟩
  · split at h
    · next hsrc => exact .inr ⟨hsrc, (Option.some.inj h).symm⟩
    · cases h

/-- The state is an initial one. -/
theorem start_initial : Initial start where
  service := rfl
  posted := rfl
  released := rfl
  received := rfl
  queue _ := rfl
  thread _ := rfl
  running _ := rfl
  handle w := ⟨if w then 1 else 0, rfl, by cases w <;> decide⟩
  distinct w w' h := by
    cases w <;> cases w' <;> first | rfl | cases h
  connected src info h := by
    obtain ⟨-, rfl⟩ | ⟨-, rfl⟩ := start_info h <;> rfl
  counted src info h := by
    obtain ⟨-, rfl⟩ | ⟨-, rfl⟩ := start_info h <;> rfl
  nodup src info h := by
    obtain ⟨-, rfl⟩ | ⟨-, rfl⟩ := start_info h <;> simp
  apart src src' info info' h h' w hw hw' := by
    obtain ⟨rfl, rfl⟩ | ⟨rfl, rfl⟩ := start_info h <;>
      obtain ⟨rfl, rfl⟩ | ⟨rfl, rfl⟩ := start_info h' <;> simp_all

/-- A request for the other source. -/
def other : UserTransferMessage := { request with sourceName := "user" }

/-- A connection that is gone: `command` throws. -/
def gone : Db where
  σ := Unit
  query := { LostConnection.query with
    command := fun _ s => (.error ⟨.notConnected, "", "NOT_CONNECTED", "not connected"⟩, s) }
  session := ()
  fuel := 1

/-- A request of one source, alone and after a request of the other source whose connection is
gone. -/
theorem sources_apart_bill : ∃ p₁ p₂ vs₁ vs₂,
    (granting cfg "bill").Observed (observer "bill") (start, [0]) [.receive 7 request]
      [.receive 7 request] vs₁ p₁ ∧
    (granting cfg "bill").Observed (observer "bill") (start, [0])
      [.receive 8 other, .take true, .exec true gone, .receive 7 request] [.receive 7 request]
      vs₂ p₂ ∧ vs₁ = vs₂ := by
  have h₁ : ∃ vs p, (granting cfg "bill").Observed (observer "bill") (start, [0])
      [.receive 7 request] [.receive 7 request] vs p :=
    ⟨_, _, .seen (t := (_, _)) ⟨.receive rfl rfl, Eq.refl (grant _ _ _ _ _)⟩ rfl (.nil _)⟩
  have h₂ : ∃ vs p, (granting cfg "bill").Observed (observer "bill") (start, [0])
      [.receive 8 other, .take true, .exec true gone, .receive 7 request] [.receive 7 request]
      vs p :=
    ⟨_, _, .unseen (t := (_, _)) ⟨.receive rfl rfl, Eq.refl (grant _ _ _ _ _)⟩ rfl
      (.unseen (t := (_, _)) ⟨.take (u := other) (q := []) rfl rfl rfl, rfl⟩ rfl
        (.unseen (t := (_, _)) ⟨.exec (u := other) rfl rfl nofun, rfl⟩ rfl
          (.seen (t := (_, _)) ⟨.receive rfl rfl, Eq.refl (grant _ _ _ _ _)⟩ rfl (.nil _))))⟩
  obtain ⟨vs₁, p₁, h₁⟩ := h₁
  obtain ⟨vs₂, p₂, h₂⟩ := h₂
  have h₀ : (granting cfg "bill").init (start, [0]) := ⟨start_initial, rfl⟩
  exact ⟨p₁, p₂, vs₁, vs₂, h₁, h₂, (sources_apart cfg "bill" h₀ h₁ h₂).1⟩

end TwoSources

end TelecomSuite.Dagw
