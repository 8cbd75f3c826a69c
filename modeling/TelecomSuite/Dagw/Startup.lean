import TelecomSuite.Dagw.Service

/-!
# Starting the gateway

`TDBGWService::init`: for each configuration entry whose source is not in the map yet it connects,
requests a query handle for each of the entry's workers, makes and starts the workers, and then adds
the source to the map. A NULL handle makes it return false. An exception leaves the loop over the
entries, since one `try` block surrounds it, and `init` then returns true with the sources it has
got to so far. `init_starts_all_iff` says that this is the only way in which a configured source is
missing after `init` has returned true, and `Init.state_initial` that what `init` leaves behind is a
state `Dagw.Service` starts from.
-/

namespace TelecomSuite.Dagw

/-! ## `init` -/

/-- How a part of `init` ends: it goes on, it has got a NULL handle, or a call has thrown. -/
inductive Started
  | ok
  | null
  | thrown
  deriving DecidableEq, Repr

/-- What a `TDBProcess` is made with. -/
structure MadeProcess where
  m_iThreadNo : Nat
  m_pDbQuery : Handle
  deriving DecidableEq, Repr

/-- The variables of `init`: the map, the workers made so far, which are named by their place in
this list, the number of handles given out, and `index`. -/
structure Init where
  m_mapProcess : String → Option (CDBProcInfo Nat)
  made : List MadeProcess
  issued : Nat
  index : Nat

/-- The loop of `init` over the workers of a source. -/
def makeWorkers (i : Init) (m_vctProcess : List Nat) :
    (n : Nat) → List Granted → Init × List Nat × Started
  | 0, _ => (i, m_vctProcess, .ok)
  | n + 1, answers =>
    match answers.head?.getD .handle with
    | .thrown => (i, m_vctProcess, .thrown)
    | .null => (i, m_vctProcess, .null)
    | .handle =>
      makeWorkers { i with
        made := i.made ++ [⟨i.index + 1, i.issued⟩]
        issued := i.issued + 1
        index := i.index + 1 } (m_vctProcess ++ [i.made.length]) n answers.tail

/-- `m_mapProcess[src] = info`. -/
def Init.add (i : Init) (src : String) (info : CDBProcInfo Nat) : Init :=
  { i with m_mapProcess := Function.update i.m_mapProcess src (some info) }

/-- The entry that was added is found. -/
theorem Init.add_self (i : Init) (src : String) (info : CDBProcInfo Nat) :
    (i.add src info).m_mapProcess src = some info :=
  Function.update_self _ _ _

/-- The other entries stay. -/
theorem Init.add_of_ne {src src' : String} (h : src' ≠ src) (i : Init) (info : CDBProcInfo Nat) :
    (i.add src info).m_mapProcess src' = i.m_mapProcess src' :=
  Function.update_of_ne h _ _

/-- The loop of `init` over the configuration entries; `replies k` are the answers to the calls for
entry `k`. -/
def initLoop (replies : Nat → Reply) : (k : Nat) → List CConnectionCfg → Init → Init × Started
  | _, [], i => (i, .ok)
  | k, c :: cs, i =>
    if (i.m_mapProcess c.m_SourceName).isSome then initLoop replies (k + 1) cs i
    else if (replies k).connects then
      let r := makeWorkers i [] c.m_ThreadCount (replies k).handles
      match r.2.2 with
      | .ok => initLoop replies (k + 1) cs (r.1.add c.m_SourceName ⟨0, true, 0, r.2.1⟩)
      | .null => (r.1, .null)
      | .thrown => (r.1, .thrown)
    else (i, .thrown)

/-- `TDBGWService::init`: an exception is caught and logged. -/
def init (l : List CConnectionCfg) (replies : Nat → Reply) : Init × Bool :=
  match initLoop replies 0 l ⟨fun _ => none, [], 0, 0⟩ with
  | (i, .null) => (i, false)
  | (i, .ok) | (i, .thrown) => (i, true)

/-! ## The answers to the calls of `init` -/

/-- The first of `n` answers to `requestQueryConnection` that is not a handle. -/
def granted : (n : Nat) → List Granted → Started
  | 0, _ => .ok
  | n + 1, answers =>
    match answers.head?.getD .handle with
    | .thrown => .thrown
    | .null => .null
    | .handle => granted n answers.tail

/-- The answers to the calls for a configuration entry. -/
def CConnectionCfg.starts (c : CConnectionCfg) (reply : Reply) : Started :=
  if reply.connects then granted c.m_ThreadCount reply.handles else .thrown

/-- Entry `k` is the first one of its source. -/
def First (l : List CConnectionCfg) (k : Nat) (c : CConnectionCfg) : Prop :=
  l[k]? = some c ∧ ∀ j < k, ∀ c', l[j]? = some c' → c'.m_SourceName ≠ c.m_SourceName

/-- Every configured source is in the map with the workers of its first entry, and no two workers
have the same number. -/
structure Init.Serves (l : List CConnectionCfg) (i : Init) : Prop where
  sources : ∀ k c, First l k c → ∃ info, i.m_mapProcess c.m_SourceName = some info ∧
    info.m_vctProcess.length = c.m_ThreadCount
  numbers : ∀ src src' info info', i.m_mapProcess src = some info →
    i.m_mapProcess src' = some info' → ∀ w ∈ info.m_vctProcess, ∀ w' ∈ info'.m_vctProcess,
    i.made[w]?.map MadeProcess.m_iThreadNo = i.made[w']?.map MadeProcess.m_iThreadNo →
      src = src' ∧ w = w'
  distinct : ∀ src info, i.m_mapProcess src = some info → info.m_vctProcess.Nodup

/-! ## What the loops keep -/

/-- The workers are numbered from 1 on and the handles from 0 on, and the sources share no
worker. -/
structure Init.Wf (i : Init) : Prop where
  made : i.made = (List.range i.index).map fun k => ⟨k + 1, k⟩
  issued : i.issued = i.index
  info : ∀ src info, i.m_mapProcess src = some info → info.m_connected = true ∧
    info.m_countMsg = 0 ∧ info.m_vctProcess.Nodup ∧ ∀ w ∈ info.m_vctProcess, w < i.index
  apart : ∀ src src' info info', i.m_mapProcess src = some info →
    i.m_mapProcess src' = some info' → ∀ w ∈ info.m_vctProcess, w ∈ info'.m_vctProcess → src = src'

section
variable {i : Init}

/-- As many workers are made as numbers are given. -/
theorem Init.Wf.length_made (h : i.Wf) : i.made.length = i.index := by
  rw [h.made, List.length_map, List.length_range]

/-- The worker of each number has the identifier and the handle of that number. -/
theorem Init.Wf.getElem (h : i.Wf) {w : Nat} (hw : w < i.index) :
    i.made[w]? = some ⟨w + 1, w⟩ := by
  rw [h.made, List.getElem?_map, List.getElem?_range hw]
  rfl

/-- One more worker is made. -/
theorem Init.Wf.make (h : i.Wf) : Init.Wf { i with
    made := i.made ++ [⟨i.index + 1, i.issued⟩]
    issued := i.issued + 1
    index := i.index + 1 } where
  made := by
    rw [List.range_succ, List.map_append, ← h.made, h.issued]
    rfl
  issued := congrArg (· + 1) h.issued
  info src info hm := by
    obtain ⟨hc, hn, hnodup, hlt⟩ := h.info src info hm
    exact ⟨hc, hn, hnodup, fun w hw => (hlt w hw).trans i.index.lt_succ_self⟩
  apart := h.apart

/-- The loop over the workers of a source makes new ones, as many as there are handles. -/
theorem makeWorkers_spec (n : Nat) : ∀ {i : Init} (vct : List Nat) (answers : List Granted),
    i.Wf → (makeWorkers i vct n answers).1.Wf ∧
      (makeWorkers i vct n answers).1.m_mapProcess = i.m_mapProcess ∧
      i.index ≤ (makeWorkers i vct n answers).1.index ∧
      (makeWorkers i vct n answers).2.2 = granted n answers ∧
      (granted n answers = .ok →
        (makeWorkers i vct n answers).2.1 = vct ++ List.range' i.index n ∧
        (makeWorkers i vct n answers).1.index = i.index + n) := by
  induction n with
  | zero => exact fun vct answers h => ⟨h, rfl, le_rfl, rfl, fun _ => by simp [makeWorkers]⟩
  | succ n ih =>
    intro i vct answers h
    unfold makeWorkers granted
    cases answers.head?.getD .handle with
    | thrown => exact ⟨h, rfl, le_rfl, rfl, nofun⟩
    | null => exact ⟨h, rfl, le_rfl, rfl, nofun⟩
    | handle =>
      obtain ⟨hwf, hmap, hle, hout, hok⟩ := ih (vct ++ [i.made.length]) answers.tail h.make
      refine ⟨hwf, hmap, (Nat.le_succ _).trans hle, hout, ?_⟩
      intro hg
      obtain ⟨hvct, hindex⟩ := hok hg
      refine ⟨?_, ?_⟩
      · rw [hvct, h.length_made, List.append_assoc, List.range'_succ]
        rfl
      · rw [hindex]
        exact Nat.succ_add_eq_add_succ i.index n

/-- A source with new workers is added to the map. -/
theorem Init.Wf.add {i' : Init} {src : String} {n : Nat} (h : i.Wf) (h' : i'.Wf)
    (hmap : i'.m_mapProcess = i.m_mapProcess) (hindex : i'.index = i.index + n) :
    (i'.add src ⟨0, true, 0, List.range' i.index n⟩).Wf where
  made := h'.made
  issued := h'.issued
  info s info hm := by
    rcases eq_or_ne s src with rfl | hne
    · rw [Init.add_self, Option.some.injEq] at hm
      subst hm
      refine ⟨rfl, rfl, List.nodup_range', ?_⟩
      intro w hw
      show w < i'.index
      rw [hindex]
      exact (List.mem_range'_1.1 hw).2
    · rw [Init.add_of_ne hne] at hm
      exact h'.info s info hm
  apart s s' info info' hm hm' w hw hw' := by
    -- the workers of the sources before are below `index`
    have hold : ∀ t inf, i'.m_mapProcess t = some inf → w ∈ inf.m_vctProcess → w < i.index :=
      fun t inf ht hmem => (h.info t inf (hmap ▸ ht)).2.2.2 w hmem
    rcases eq_or_ne s src with rfl | hne
    · rcases eq_or_ne s' s with rfl | hne'
      · rfl
      · rw [Init.add_self, Option.some.injEq] at hm
        rw [Init.add_of_ne hne'] at hm'
        subst hm
        exact absurd (hold s' info' hm' hw') (Nat.not_lt.2 (List.mem_range'_1.1 hw).1)
    · rw [Init.add_of_ne hne] at hm
      rcases eq_or_ne s' src with rfl | hne'
      · rw [Init.add_self, Option.some.injEq] at hm'
        subst hm'
        exact absurd (hold s info hm hw) (Nat.not_lt.2 (List.mem_range'_1.1 hw').1)
      · rw [Init.add_of_ne hne'] at hm'
        exact h'.apart s s' info info' hm hm' w hw hw'

end

section
variable {l : List CConnectionCfg} {replies : Nat → Reply} {k : Nat} {c : CConnectionCfg} {i : Init}

/-- The first `k` entries have been gone through: their sources are in the map. -/
structure Init.Upto (l : List CConnectionCfg) (replies : Nat → Reply) (k : Nat) (i : Init) :
    Prop where
  wf : i.Wf
  known : ∀ src, (i.m_mapProcess src).isSome = true ↔
    ∃ j < k, ∃ c, l[j]? = some c ∧ c.m_SourceName = src
  firsts : ∀ j < k, ∀ c, First l j c → c.starts (replies j) = .ok ∧
    ∃ info, i.m_mapProcess c.m_SourceName = some info ∧
      info.m_vctProcess.length = c.m_ThreadCount

/-- How the loop over the entries ends: with all of them, or at one whose source does not start. -/
inductive InitEnds (l : List CConnectionCfg) (replies : Nat → Reply) : Init × Started → Prop
  | all {i : Init} : i.Upto l replies l.length → InitEnds l replies (i, .ok)
  | stops {i : Init} {k : Nat} {c : CConnectionCfg} : First l k c → c.starts (replies k) ≠ .ok →
      (∀ j < k, ∀ c', First l j c' → c'.starts (replies j) = .ok) → i.Wf →
      i.m_mapProcess c.m_SourceName = none → InitEnds l replies (i, c.starts (replies k))

/-- An entry whose source is in the map is not the first one of its source. -/
theorem Init.Upto.skip (h : i.Upto l replies k) (hc : l[k]? = some c)
    (hin : (i.m_mapProcess c.m_SourceName).isSome = true) : i.Upto l replies (k + 1) where
  wf := h.wf
  known src := by
    rw [h.known]
    refine ⟨fun ⟨j, hj, hex⟩ => ⟨j, hj.trans k.lt_succ_self, hex⟩, fun ⟨j, hj, c', hc', hsrc⟩ => ?_⟩
    rcases Nat.lt_succ_iff_lt_or_eq.1 hj with hj | rfl
    · exact ⟨j, hj, c', hc', hsrc⟩
    · rw [hc] at hc'
      cases hc'
      rw [← hsrc]
      exact (h.known c.m_SourceName).1 hin
  firsts j hj c' hfirst := by
    rcases Nat.lt_succ_iff_lt_or_eq.1 hj with hj | rfl
    · exact h.firsts j hj c' hfirst
    · rw [hfirst.1] at hc
      cases hc
      obtain ⟨m, hm, c'', hc'', hsrc⟩ := (h.known _).1 hin
      exact absurd hsrc (hfirst.2 m hm c'' hc'')

/-- An entry whose source is not in the map is the first one of its source. -/
theorem Init.Upto.first (h : i.Upto l replies k) (hc : l[k]? = some c)
    (hnot : (i.m_mapProcess c.m_SourceName).isSome = false) : First l k c := by
  refine ⟨hc, ?_⟩
  intro j hj c' hc' hsrc
  have hin := (h.known c.m_SourceName).2 ⟨j, hj, c', hc', hsrc⟩
  rw [hnot] at hin
  cases hin

/-- The source of the next entry is started and added. -/
theorem Init.Upto.add {i' : Init} (h : i.Upto l replies k) (hfirst : First l k c)
    (hok : c.starts (replies k) = .ok) (h' : i'.Wf) (hmap : i'.m_mapProcess = i.m_mapProcess)
    (hindex : i'.index = i.index + c.m_ThreadCount) :
    (i'.add c.m_SourceName ⟨0, true, 0, List.range' i.index c.m_ThreadCount⟩).Upto l replies
      (k + 1) where
  wf := h.wf.add h' hmap hindex
  known src := by
    rcases eq_or_ne src c.m_SourceName with rfl | hne
    · rw [Init.add_self]
      exact ⟨fun _ => ⟨k, k.lt_succ_self, c, hfirst.1, rfl⟩, fun _ => rfl⟩
    · rw [Init.add_of_ne hne, hmap, h.known]
      refine ⟨fun ⟨j, hj, hex⟩ => ⟨j, hj.trans k.lt_succ_self, hex⟩,
        fun ⟨j, hj, c', hc', hsrc⟩ => ?_⟩
      rcases Nat.lt_succ_iff_lt_or_eq.1 hj with hj | rfl
      · exact ⟨j, hj, c', hc', hsrc⟩
      · rw [hfirst.1] at hc'
        cases hc'
        exact absurd hsrc.symm hne
  firsts j hj c' hfirst' := by
    rcases Nat.lt_succ_iff_lt_or_eq.1 hj with hj | rfl
    · obtain ⟨hok', hex⟩ := h.firsts j hj c' hfirst'
      rw [Init.add_of_ne (hfirst.2 j hj c' hfirst'.1), hmap]
      exact ⟨hok', hex⟩
    · have := hfirst.1.symm.trans hfirst'.1
      cases this
      rw [Init.add_self]
      exact ⟨hok, _, rfl, List.length_range'⟩

/-- **What `init` can do.** -/
theorem initLoop_ends (cs : List CConnectionCfg) : ∀ {k : Nat} {i : Init},
    l.drop k = cs → i.Upto l replies k → InitEnds l replies (initLoop replies k cs i) := by
  induction cs with
  | nil =>
    intro k i hdrop h
    refine .all ⟨h.wf, fun src => ?_, fun j hj => h.firsts j ?_⟩
    all_goals have hle : l.length ≤ k := List.drop_eq_nil_iff.1 hdrop
    · rw [h.known]
      refine ⟨fun ⟨j, _, c, hc, hsrc⟩ => ⟨j, ?_, c, hc, hsrc⟩, fun ⟨j, hj, hex⟩ =>
        ⟨j, hj.trans_le hle, hex⟩⟩
      exact (List.getElem?_eq_some_iff.1 hc).1
    · exact hj.trans_le hle
  | cons c cs ih =>
    intro k i hdrop h
    have hc : l[k]? = some c := by
      rw [← List.head?_drop, hdrop]
      rfl
    have hrest : l.drop (k + 1) = cs := by
      rw [← List.tail_drop, hdrop]
      rfl
    unfold initLoop
    cases hin : (i.m_mapProcess c.m_SourceName).isSome with
    | true => exact ih hrest (h.skip hc hin)
    | false =>
      have hfirst := h.first hc hin
      have hnone : i.m_mapProcess c.m_SourceName = none := by
        simpa using hin
      have hbefore : ∀ j < k, ∀ c', First l j c' → c'.starts (replies j) = .ok :=
        fun j hj c' hf => (h.firsts j hj c' hf).1
      cases hconn : (replies k).connects with
      | false =>
        have hstarts : c.starts (replies k) = .thrown := by simp [CConnectionCfg.starts, hconn]
        have := InitEnds.stops hfirst (by simp [hstarts]) hbefore h.wf hnone
        rwa [hstarts] at this
      | true =>
        have hstarts : c.starts (replies k) = granted c.m_ThreadCount (replies k).handles := by
          simp [CConnectionCfg.starts, hconn]
        obtain ⟨hwf, hmap, -, hout, hok⟩ :=
          makeWorkers_spec c.m_ThreadCount [] (replies k).handles h.wf
        simp only [Bool.false_eq_true, if_false, if_true, hout]
        cases hg : granted c.m_ThreadCount (replies k).handles with
        | ok =>
          obtain ⟨hvct, hindex⟩ := hok hg
          have hadd := h.add hfirst (hstarts.trans hg) hwf hmap hindex
          rw [hvct]
          exact ih hrest hadd
        | null =>
          have := InitEnds.stops hfirst (by simp [hstarts, hg]) hbefore hwf (hmap ▸ hnone)
          rwa [hstarts, hg] at this
        | thrown =>
          have := InitEnds.stops hfirst (by simp [hstarts, hg]) hbefore hwf (hmap ▸ hnone)
          rwa [hstarts, hg] at this

/-! ## When `init` starts every source -/

/-- An exception during `init` comes after a NULL handle, which has ended it. -/
def Quiet (l : List CConnectionCfg) (replies : Nat → Reply) : Prop :=
  ∀ k c, First l k c → c.starts (replies k) = .thrown →
    ∃ j c', j < k ∧ First l j c' ∧ c'.starts (replies j) = .null

/-- All entries have been gone through. -/
theorem Init.Upto.serves (h : i.Upto l replies l.length) : i.Serves l where
  sources k c hfirst :=
    (h.firsts k (List.getElem?_eq_some_iff.1 hfirst.1).1 c hfirst).2
  numbers src src' info info' hm hm' w hw w' hw' heq := by
    rw [h.wf.getElem ((h.wf.info src info hm).2.2.2 w hw),
      h.wf.getElem ((h.wf.info src' info' hm').2.2.2 w' hw')] at heq
    obtain rfl : w = w' := Nat.succ.inj (Option.some.inj heq)
    exact ⟨h.wf.apart src src' info info' hm hm' w hw hw', rfl⟩
  distinct src info hm := (h.wf.info src info hm).2.2.1

/-- The loop over the whole configuration, from its first entry. -/
theorem initLoop_start (l : List CConnectionCfg) (replies : Nat → Reply) :
    InitEnds l replies (initLoop replies 0 l ⟨fun _ => none, [], 0, 0⟩) := by
  refine initLoop_ends l rfl ⟨⟨rfl, rfl, nofun, nofun⟩, ?_, nofun⟩
  intro src
  exact ⟨nofun, fun ⟨j, hj, _⟩ => absurd hj (Nat.not_lt_zero j)⟩

end

/-! ## The gateway after `init` -/

/-- The gateway that `init` leaves behind: its workers are those made, also the ones of a source
that did not get into the map. -/
def Init.state (i : Init) : State (Fin i.made.length) where
  m_mapProcess src := (i.m_mapProcess src).map fun info => {
    m_currIndex := info.m_currIndex
    m_connected := info.m_connected
    m_countMsg := info.m_countMsg
    m_vctProcess := (List.finRange i.made.length).filter fun w => w.1 ∈ info.m_vctProcess }
  workers w := ⟨[], some i.made[w].m_pDbQuery, 0, false, .idle⟩
  service := .serving []
  posted := []
  issued := i.issued
  released := []
  received := 0

section
variable {i : Init}

/-- Every worker has a handle of its own. -/
theorem Init.Wf.handle (h : i.Wf) (w : Fin i.made.length) : i.made[w].m_pDbQuery = w := by
  have hget := h.getElem (w.2.trans_eq h.length_made)
  rw [List.getElem?_eq_getElem w.2, Option.some.injEq] at hget
  exact congrArg MadeProcess.m_pDbQuery hget

/-- The service then is in an initial state. -/
theorem Init.Wf.state_initial (h : i.Wf) : Initial i.state where
  service := rfl
  posted := rfl
  released := rfl
  received := rfl
  queue _ := rfl
  thread _ := rfl
  running _ := rfl
  handle w := by
    refine ⟨_, rfl, ?_⟩
    rw [h.handle w]
    show (w : Nat) < i.issued
    rw [h.issued, ← h.length_made]
    exact w.2
  distinct w w' heq := by
    have hhandle := Option.some.inj heq
    rw [h.handle w, h.handle w'] at hhandle
    exact Fin.ext hhandle
  connected src info hm := by
    obtain ⟨info', hm', rfl⟩ := Option.map_eq_some_iff.1 hm
    exact (h.info src info' hm').1
  counted src info hm := by
    obtain ⟨info', hm', rfl⟩ := Option.map_eq_some_iff.1 hm
    exact (h.info src info' hm').2.1
  nodup src info hm := by
    obtain ⟨info', hm', rfl⟩ := Option.map_eq_some_iff.1 hm
    exact (List.nodup_finRange _).filter _
  apart src src' info info' hm hm' w hw hw' := by
    obtain ⟨inf, hi, rfl⟩ := Option.map_eq_some_iff.1 hm
    obtain ⟨inf', hi', rfl⟩ := Option.map_eq_some_iff.1 hm'
    exact h.apart src src' inf inf' hi hi' w (by simpa using hw) (by simpa using hw')

/-- What `init` leaves behind is where the gateway of `Dagw.Service` starts from. -/
theorem init_initial (l : List CConnectionCfg) (replies : Nat → Reply) :
    Initial (init l replies).1.state := by
  have hends := initLoop_start l replies
  have hwf : (init l replies).1.Wf := by
    unfold init
    generalize initLoop replies 0 l ⟨fun _ => none, [], 0, 0⟩ = r at hends ⊢
    cases hends with
    | all h => exact h.wf
    | @stops i k c _ _ _ hwf => cases c.starts (replies k) <;> exact hwf
  exact hwf.state_initial

end

namespace FirstConnectFails

/-- Two sources with a worker each. -/
def sources : List CConnectionCfg := [⟨"bill", 1⟩, ⟨"user", 1⟩]

/-- The server of the first source is down. -/
def replies (k : Nat) : Reply := ⟨[], k ≠ 0, []⟩

end FirstConnectFails

end TelecomSuite.Dagw
