import TelecomSuite.Convert.Completeness

/-!
# The two session queues

`start_dbprocess` takes a session out of `m_dbsession` for each worker and puts it into
`m_m_dbsession_tmp`, and the wait loop of `run` brings the sessions back: in each pass as many as
the pass has counted finished workers more than the pass before. The flags are read one by one while
the workers go on, but a flag stays set, so the workers a pass has seen finished are seen again by
the next one, and the difference of the two counters is the number of workers newly seen
(`sessions_conserved`).

`CQueue::Get` and `CQueue::TryGet` wait without a time limit, unlike the comment in `TryGet` says.
In the wait loop there is always a session to get, but `start_dbprocess` waits for ever with more
than `MAXCONN` workers, and `uninit` always does: its loop ends only when `Get` returns false
(`stop_gets_stuck`).
-/

namespace TelecomSuite.Convert

open Transition

/-! ## What a pass has seen -/

/-- The workers the pass before has seen finished, those this pass has seen so far, and the sessions
this pass has moved. -/
structure Pass where
  before : List Nat
  seen : List Nat
  moved : Nat

/-- The workers newly seen finished. -/
def Pass.newlySeen (g : Pass) : List Nat := g.seen.filter (· ∉ g.before)

/-- The history of the passes: a sample, a session moved, the end of a pass. -/
def Pass.next (g : Pass) (s : State) (a : Label) (_ : State) : Pass :=
  match a with
  | .poll =>
    match s.main with
    | .passing k _ _ _ => if s.m_flag k then { g with seen := g.seen ++ [k] } else g
    | _ => g
  | .move => { g with moved := g.moved + 1 }
  | .moved => ⟨g.seen, [], 0⟩
  | .connect _ | .opened _ | .make | .start | .pass | .call .. | .exit _ => g

/-- The converter with the history of the passes. -/
def passes (env : Env) (ini : IniFile) (db : Db) : LTS (State × Pass) Label :=
  (system env ini db).ghost (fun _ => ⟨[], [], 0⟩) Pass.next

/-! ## The invariant -/

/-- A pass of `n` workers that has sampled the first `k` of them. -/
structure Polled (n k : Nat) (m_flag : Nat → Bool) (g : Pass) : Prop where
  le : k ≤ n
  beforeNodup : g.before.Nodup
  beforeSet : ∀ w ∈ g.before, w < n ∧ m_flag w = true
  seenNodup : g.seen.Nodup
  seenSet : ∀ w ∈ g.seen, w < k ∧ m_flag w = true
  again : ∀ w ∈ g.before, w < k → w ∈ g.seen

/-- How many sessions are lent to the `n` workers, by where the main thread is. -/
def Main.Lent (n lent : Nat) (m_flag : Nat → Bool) (g : Pass) : Main → Prop
  | .initial | .starting .. => g = ⟨[], [], 0⟩ ∧ lent = n
  | .passing k flag success tmp => Polled n k m_flag g ∧ success = g.seen.length ∧
      tmp = g.before.length ∧ g.moved = 0 ∧ lent + tmp = n ∧ (flag = false → g.seen.length = k)
  | .moving k flag success tmp => Polled n n m_flag g ∧ success = g.seen.length ∧
      tmp = g.before.length ∧ g.moved = k ∧ k ≤ success - tmp ∧ lent + tmp + k = n ∧
      (flag = false → g.seen.length = n)
  | .returned true => lent = 0
  | .returned false | .crashed => True

/-- The invariant of the sessions: each is in one of the two queues, once. -/
structure Pooled (s : State) (g : Pass) : Prop where
  sessions : (s.conv.m_dbsession ++ s.conv.m_m_dbsession_tmp).Perm (List.range MAXCONN)
  lent : s.main.Lent s.conv.m_dbProcess.length s.conv.m_m_dbsession_tmp.length s.m_flag g

section
variable {n k : Nat} {m_flag m_flag' : Nat → Bool} {g : Pass}

/-- Flags that stay set keep a pass. -/
theorem Polled.mono (h : Polled n k m_flag g) (hf : ∀ w, m_flag w = true → m_flag' w = true) :
    Polled n k m_flag' g :=
  ⟨h.le, h.beforeNodup, fun w hw => ⟨(h.beforeSet w hw).1, hf w (h.beforeSet w hw).2⟩, h.seenNodup,
    fun w hw => ⟨(h.seenSet w hw).1, hf w (h.seenSet w hw).2⟩, h.again⟩

/-- More raised flags do not change how many sessions are lent. -/
theorem Main.Lent.mono {m : Main} {lent : Nat} (h : m.Lent n lent m_flag g)
    (hf : ∀ w, m_flag w = true → m_flag' w = true) : m.Lent n lent m_flag' g := by
  cases m with
  | passing | moving => exact ⟨h.1.mono hf, h.2⟩
  | initial | starting | crashed => exact h
  | returned b => cases b <;> exact h

/-- At the end of a pass, what the pass before has seen is seen again. -/
theorem Polled.length_newlySeen (h : Polled n n m_flag g) :
    g.newlySeen.length + g.before.length = g.seen.length := by
  have hmem : ∀ w, w ∈ g.seen.filter (· ∈ g.before) ↔ w ∈ g.before := by
    intro w
    simp only [List.mem_filter, decide_eq_true_eq, and_iff_right_iff_imp]
    exact fun hw => h.again w hw (h.beforeSet w hw).1
  have hperm : (g.seen.filter (· ∈ g.before)).Perm g.before :=
    (List.perm_ext_iff_of_nodup (h.seenNodup.filter _) h.beforeNodup).2 hmem
  have hsplit := List.length_eq_countP_add_countP (fun w => decide (w ∈ g.before)) (l := g.seen)
  rw [List.countP_eq_length_filter, List.countP_eq_length_filter, hperm.length_eq] at hsplit
  rw [hsplit, Nat.add_comm]
  simp only [Pass.newlySeen, decide_eq_true_eq]

/-- A pass counts no more workers than there are. -/
theorem Polled.length_seen_le (h : Polled n k m_flag g) : g.seen.length ≤ k := by
  have hsub : g.seen ⊆ List.range k := fun w hw => List.mem_range.2 (h.seenSet w hw).1
  simpa using (h.seenNodup.subperm hsub).length_le

/-- The next flag is read. -/
theorem Polled.sample (h : Polled n k m_flag g) (hk : k < n) :
    Polled n (k + 1) m_flag (if m_flag k then { g with seen := g.seen ++ [k] } else g) := by
  cases hflag : m_flag k with
  | true =>
    refine ⟨hk, h.beforeNodup, h.beforeSet, ?_, ?_, ?_⟩
    · refine List.nodup_append.2 ⟨h.seenNodup, List.nodup_singleton k, ?_⟩
      intro v hv u hu
      rw [List.mem_singleton.1 hu]
      exact (h.seenSet v hv).1.ne
    · intro w hw
      rcases List.mem_append.1 hw with hw | hw
      · exact ⟨(h.seenSet w hw).1.trans k.lt_succ_self, (h.seenSet w hw).2⟩
      · rw [List.mem_singleton.1 hw]
        exact ⟨k.lt_succ_self, hflag⟩
    · intro w hw hlt
      rcases Nat.lt_succ_iff_lt_or_eq.1 hlt with hlt | rfl
      · exact List.mem_append_left _ (h.again w hw hlt)
      · exact List.mem_append_right _ (List.mem_singleton.2 rfl)
  | false =>
    refine ⟨hk, h.beforeNodup, h.beforeSet, h.seenNodup, ?_, ?_⟩
    · intro w hw
      exact ⟨(h.seenSet w hw).1.trans k.lt_succ_self, (h.seenSet w hw).2⟩
    · intro w hw hlt
      rcases Nat.lt_succ_iff_lt_or_eq.1 hlt with hlt | rfl
      · exact h.again w hw hlt
      · rw [(h.beforeSet w hw).2] at hflag
        cases hflag

/-- Moving sessions back does not change what was sampled. -/
theorem Polled.move (h : Polled n k m_flag g) {moved : Nat} :
    Polled n k m_flag { g with moved := moved } :=
  ⟨h.le, h.beforeNodup, h.beforeSet, h.seenNodup, h.seenSet, h.again⟩

/-- The next pass begins with what this one has seen. -/
theorem Polled.again_from (h : Polled n n m_flag g) : Polled n 0 m_flag ⟨g.seen, [], 0⟩ :=
  ⟨n.zero_le, h.seenNodup, h.seenSet, List.nodup_nil, nofun, fun _ _ hlt => absurd hlt (by omega)⟩

end

section
variable {env : Env} {ini : IniFile} {db : Db}

/-- **The sessions.** Every step keeps the count of the lent sessions. -/
theorem pooled_inductive : (passes env ini db).Inductive fun p => Pooled p.1 p.2 where
  init p h := by
    obtain ⟨⟨hmain, hconv, -, -⟩, hg⟩ := h
    refine ⟨?_, ?_⟩
    · rw [hconv]
      simp [ConverProcess.initial]
    · rw [hmain, hconv, hg]
      exact ⟨rfl, rfl⟩
  step p a q := by
    obtain ⟨s, g⟩ := p
    obtain ⟨s', g'⟩ := q
    rintro ⟨hstep, hg⟩ ⟨hses, hlent⟩
    simp only at hstep hg hses hlent ⊢
    subst hg
    cases hstep with
    | initFails | openFails | startCrashes | workerCrashes => exact ⟨hses, trivial⟩
    | configure hm =>
      rw [hm] at hlent
      exact ⟨hses, hlent⟩
    | @make job jobs ret conv hm hnew =>
      obtain ⟨dbsession, hs, htmp, hp⟩ := newDBProcess_eq hnew
      rw [hm] at hlent
      refine ⟨?_, hlent.1, ?_⟩
      · rw [hs] at hses
        refine List.Perm.trans (List.perm_iff_count.2 ?_) hses
        intro session
        simp only [htmp, List.count_append, List.count_cons, List.count_nil]
        omega
      · simp [htmp, hp, hlent.2]
    | @start ret hm =>
      rw [hm] at hlent
      obtain ⟨hg, hn⟩ := hlent
      cases ret with
      | true =>
        refine ⟨hses, ?_, ?_⟩
        · rw [hg]
          exact ⟨Nat.zero_le _, List.nodup_nil, fun _ h => absurd h List.not_mem_nil,
            List.nodup_nil, fun _ h => absurd h List.not_mem_nil,
            fun _ h => absurd h List.not_mem_nil⟩
        · simp [Pass.next, hg, hn]
      | false => exact ⟨hses, trivial⟩
    | @poll k success tmp flag hm hk =>
      rw [hm] at hlent
      obtain ⟨hpolled, hsuccess, htmp, hmoved, hn, hall⟩ := hlent
      have hnext := hpolled.sample hk
      refine ⟨hses, ?_⟩
      simp only [Pass.next, hm]
      cases hflag : s.m_flag k with
      | true =>
        rw [hflag] at hnext
        exact ⟨hnext, by simp [hsuccess], htmp, hmoved, hn, fun hf => by simp [hall hf]⟩
      | false =>
        rw [hflag] at hnext
        exact ⟨hnext, hsuccess, htmp, hmoved, hn, by simp⟩
    | @pass k success tmp flag hm hk =>
      rw [hm] at hlent
      obtain ⟨hpolled, hsuccess, htmp, hmoved, hn, hall⟩ := hlent
      subst hk
      exact ⟨hses, hpolled, hsuccess, htmp, hmoved, Nat.zero_le _, hn, hall⟩
    | @move k success tmp flag dbsession rest hm hk hqueue =>
      rw [hm] at hlent
      obtain ⟨hpolled, hsuccess, htmp, hmoved, hle, hn, hall⟩ := hlent
      rw [hqueue] at hses hn
      refine ⟨?_, hpolled.move, hsuccess, htmp, by simp [Pass.next, hmoved], hk, ?_, hall⟩
      · simpa using hses
      · simp only [List.length_cons] at hn ⊢
        omega
    | @moved k success tmp flag hm hk =>
      rw [hm] at hlent
      obtain ⟨hpolled, hsuccess, htmp, hmoved, hle, hn, hall⟩ := hlent
      have hnew := hpolled.length_newlySeen
      cases flag with
      | true =>
        refine ⟨hses, hpolled.again_from, rfl, hsuccess, rfl, ?_, fun _ => rfl⟩
        show s.conv.m_m_dbsession_tmp.length + success = s.conv.m_dbProcess.length
        omega
      | false =>
        have hseen := hall rfl
        refine ⟨hses, ?_⟩
        show s.conv.m_m_dbsession_tmp.length = 0
        omega
    | call => exact ⟨hses, hlent⟩
    | @exit w b hm hw hprog =>
      refine ⟨hses, hlent.mono ?_⟩
      intro u hu
      rcases eq_or_ne u w with rfl | hne
      · exact Function.update_self _ _ _
      · simpa [Function.update_of_ne hne] using hu

/-- **The sessions come back.** For every configuration and every interleaving: `run` returns true
only after every worker has set its flag; at the end of a pass the sessions moved are as many as the
workers newly seen finished; every session is in exactly one of the two queues, once; and when `run`
returns true all of them are in `m_dbsession`. -/
theorem sessions_conserved {s : State} {g : Pass} (hs : (passes env ini db).Reachable (s, g)) :
    (s.main = .returned true →
      (∃ t, getTabname ini = some t ∧ t.jobs = s.conv.m_dbProcess.map fun p => some p.job) ∧
      ∀ w < s.conv.m_dbProcess.length, s.m_flag w = true) ∧
    (∀ k flag success tmp, s.main = .moving k flag success tmp → ¬ k < success - tmp →
      g.moved = g.newlySeen.length) ∧
    (s.conv.m_dbsession ++ s.conv.m_m_dbsession_tmp).Perm (List.range MAXCONN) ∧
    (s.main = .returned true →
      s.conv.m_m_dbsession_tmp = [] ∧ s.conv.m_dbsession.Perm (List.range MAXCONN)) := by
  obtain ⟨pairs, peers, ht⟩ := exists_getTabname ini
  have hinv : (system env ini db).Inductive (Wired _) := wired_inductive ht
  have hwired : Wired _ s := hinv.ghost.reachable hs
  have hpool : Pooled s g := pooled_inductive.reachable hs
  refine ⟨?_, ?_, hpool.sessions, ?_⟩
  · intro hret
    obtain ⟨rest, hjobs, hmain⟩ := hwired.jobs
    have hnil : rest = [] := hmain [] (by rw [hret]; rfl)
    have hseen := hwired.seen
    rw [hret] at hseen
    exact ⟨⟨_, ht, by rw [hjobs, hnil, List.append_nil]⟩, hseen⟩
  · intro k flag success tmp hm hk
    have hlent := hpool.lent
    rw [hm] at hlent
    obtain ⟨hpolled, hsuccess, htmp, hmoved, hle, -, -⟩ := hlent
    have hnew := hpolled.length_newlySeen
    omega
  · intro hret
    have hlent := hpool.lent
    rw [hret] at hlent
    have hnil := List.length_eq_zero_iff.1 hlent
    have hses := hpool.sessions
    rw [hnil, List.append_nil] at hses
    exact ⟨hnil, hses⟩

end

namespace OneTable

/-- The theorem above after a run with one worker. -/
theorem sessions_conserved_oneWorker :
    ∃ s g, (passes env (plainFile 1) db).Reachable (s, g) ∧ s.main = .returned true ∧
      s.conv.m_m_dbsession_tmp = [] ∧ s.conv.m_dbsession.Perm (List.range MAXCONN) := by
  obtain ⟨v, htrace⟩ := calls_trace
  obtain ⟨s, hrun, hret, -⟩ := run_returns (backup db) htrace fun _ _ => trivial
  obtain ⟨g, hghost⟩ : ∃ g, (passes env (plainFile 1) db).Run (start, ⟨[], [], 0⟩) _ (s, g) :=
    hrun.of_restrict.ghost _
  have hs : (passes env (plainFile 1) db).Reachable (s, g) :=
    ⟨(start, ⟨[], [], 0⟩), _, ⟨start_initial, rfl⟩, hghost⟩
  exact ⟨s, g, hs, hret, (sessions_conserved hs).2.2.2 hret⟩

end OneTable

/-! ## Waiting for a session -/

/-- The converter, and whether `stop` was called, so that `uninit` is in its loop. -/
structure Life where
  proc : State
  stopping : Bool

/-- What happens: a step of the converter, a connection that fails, the call of `stop`, or a session
taken out by it. -/
inductive LifeLabel
  | proc (a : Label)
  | connectFails (i : Nat)
  | stop
  | get

/-- A step of the converter, or of `stop` after `run`. When the session `i` does not connect, `init`
has put `i` sessions. `Get` waits until there is a session and then returns true, so the loop of
`uninit` goes on. -/
inductive Life.Step (env : Env) (ini : IniFile) : Life → LifeLabel → Life → Prop
  | proc {s s' : State} {a : Label} {b : Bool} : a ≠ .connect false →
      Convert.Step env ini s a s' → Step env ini ⟨s, b⟩ (.proc a) ⟨s', b⟩
  | connectFails {s : State} {i : Nat} : s.main = .initial → i < MAXCONN →
      Step env ini ⟨s, false⟩ (.connectFails i) ⟨{ s with
        main := .returned false
        conv := { s.conv with m_dbsession := List.range i } }, false⟩
  | stop {s : State} {b : Bool} : s.main = .returned b →
      Step env ini ⟨s, false⟩ .stop ⟨s, true⟩
  | get {s : State} {tmp : Nat} {rest : List Nat} : s.main ≠ .crashed →
      s.conv.m_dbsession = tmp :: rest →
      Step env ini ⟨s, true⟩ .get ⟨{ s with conv := { s.conv with m_dbsession := rest } }, true⟩

/-- The converter with its `stop` as a transition system. -/
def life (env : Env) (ini : IniFile) (db : Db) : LTS Life LifeLabel where
  init l := Initial db l.proc ∧ l.stopping = false
  step := Life.Step env ini

/-- The two queues. -/
inductive SessionQueue
  | m_dbsession
  | m_m_dbsession_tmp

/-- The two queues. -/
def Life.queue (l : Life) : SessionQueue → List Nat
  | .m_dbsession => l.proc.conv.m_dbsession
  | .m_m_dbsession_tmp => l.proc.conv.m_m_dbsession_tmp

/-- The main thread is in a `Get` or `TryGet` on the queue: in `start_dbprocess`, in `uninit`, or in
the wait loop of `run`. -/
def Life.Waits (l : Life) : SessionQueue → Prop
  | .m_dbsession => (∃ job jobs ret, l.proc.main = .starting (some job :: jobs) ret) ∨
      l.stopping = true ∧ l.proc.main ≠ .crashed
  | .m_m_dbsession_tmp => ∃ k flag success tmp,
      l.proc.main = .moving k flag success tmp ∧ k < success - tmp

/-- It waits for a session that no thread will ever put. -/
def Life.Stuck (env : Env) (ini : IniFile) (db : Db) (l : Life) : Prop :=
  ∃ q, l.Waits q ∧ l.queue q = [] ∧ ∀ as l', (life env ini db).Run l as l' → l'.queue q = []

/-- `run` has returned, or the process has ended. -/
def Main.Over (m : Main) : Prop := (∃ b, m = .returned b) ∨ m = .crashed

/-- The converter is in `uninit`. -/
def Life.Stopped (l : Life) : Prop := l.stopping = true ∧ l.proc.main.Over

section
variable {env : Env} {ini : IniFile} {db : Db} {s s' : State} {l l' : Life} {as : List LifeLabel}

/-- After `run`, the workers that are left touch no session. -/
theorem Step.over {a : Label} (hstep : Step env ini s a s') (h : s.main.Over) :
    s'.main.Over ∧ s'.conv = s.conv := by
  cases hstep with
  | call | exit => exact ⟨h, rfl⟩
  | workerCrashes => exact ⟨.inr rfl, rfl⟩
  | initFails hm | openFails hm | configure hm | startCrashes hm | make hm | start hm | poll hm
  | pass hm | move hm | moved hm =>
    rcases h with ⟨b, hb⟩ | hb <;> rw [hm] at hb <;> cases hb

/-- What a step does to the sessions in `uninit`. -/
theorem Life.Stopped.step {a : LifeLabel} (h : l.Stopped) (hstep : Life.Step env ini l a l') :
    l'.Stopped ∧ l'.proc.conv.m_dbsession <:+ l.proc.conv.m_dbsession := by
  obtain ⟨hstop, hmain⟩ := h
  cases hstep with
  | proc ha hs =>
    obtain ⟨hover, hconv⟩ := hs.over hmain
    exact ⟨⟨hstop, hover⟩, by rw [hconv]⟩
  | connectFails => cases hstop
  | stop => cases hstop
  | get hm hqueue =>
    refine ⟨⟨rfl, hmain⟩, ?_⟩
    rw [hqueue]
    exact List.suffix_cons _ _

/-- A converter in `uninit` stays there, and only takes sessions out. -/
theorem Life.Stopped.run (h : l.Stopped) (hrun : (life env ini db).Run l as l') :
    l'.Stopped ∧ l'.proc.conv.m_dbsession <:+ l.proc.conv.m_dbsession := by
  induction hrun with
  | nil => exact ⟨h, List.suffix_refl _⟩
  | cons hstep _ ih =>
    obtain ⟨hstopped, hsuffix⟩ := h.step hstep
    exact ⟨(ih hstopped).1, (ih hstopped).2.trans hsuffix⟩

/-- Nobody puts a session while `uninit` waits. -/
theorem Life.Stopped.stuck (h : l.Stopped) (hmain : l.proc.main ≠ .crashed)
    (hempty : l.proc.conv.m_dbsession = []) : l.Stuck env ini db := by
  refine ⟨.m_dbsession, .inr ⟨h.1, hmain⟩, hempty, ?_⟩
  intro as l' hrun
  have hsuffix := (h.run hrun).2
  rw [hempty] at hsuffix
  exact List.suffix_nil.1 hsuffix

/-- `uninit` takes the sessions out one by one, and then waits for ever. -/
theorem Life.Stopped.drain (h : l.Stopped) (hmain : l.proc.main ≠ .crashed) :
    ∃ as l', (life env ini db).Run l as l' ∧ l'.proc.main = l.proc.main ∧
      l'.Stuck env ini db := by
  obtain ⟨s, b⟩ := l
  obtain rfl : b = true := h.1
  generalize hqueue : s.conv.m_dbsession = queue
  induction queue generalizing s with
  | nil => exact ⟨[], _, .nil _, rfl, h.stuck hmain hqueue⟩
  | cons tmp rest ih =>
    have hget : Life.Step env ini ⟨s, true⟩ .get
        ⟨{ s with conv := { s.conv with m_dbsession := rest } }, true⟩ := .get hmain hqueue
    obtain ⟨as, l', hrun, hstuck⟩ := ih _ (h.step hget).1 hmain rfl
    exact ⟨_, l', .cons hget hrun, hstuck⟩

/-- Whatever `run` returned, `stop` gets stuck. -/
theorem stuck_of_returned {b : Bool} (hret : l.proc.main = .returned b) :
    ∃ as l', (life env ini db).Run l as l' ∧ l'.proc.main = .returned b ∧
      l'.Stuck env ini db := by
  have hstopped : Life.Stopped ⟨l.proc, true⟩ := ⟨rfl, .inl ⟨b, hret⟩⟩
  have hmain : l.proc.main ≠ .crashed := by
    rw [hret]
    exact nofun
  obtain ⟨as, l', hrun, hmain', hstuck⟩ : ∃ as l', (life env ini db).Run ⟨l.proc, true⟩ as l' ∧
    l'.proc.main = l.proc.main ∧ l'.Stuck env ini db := hstopped.drain hmain
  rw [hret] at hmain'
  obtain ⟨s, stopping⟩ := l
  cases stopping with
  | true => exact ⟨as, l', hrun, hmain', hstuck⟩
  | false => exact ⟨.stop :: as, l', .cons (.stop hret) hrun, hmain', hstuck⟩

/-! ### Before `stop` -/

/-- Until `run` has returned, the converter is one whose sessions have all connected. -/
theorem life_inductive : (life env ini db).Inductive fun l =>
    (l.stopping = true → l.proc.main.Over) ∧
      (l.proc.main.Over ∨ ∃ g, (passes env ini db).Reachable (l.proc, g)) where
  init l h := by
    refine ⟨?_, .inr ⟨⟨[], [], 0⟩, .of_init ⟨h.1, rfl⟩⟩⟩
    intro hstop
    rw [h.2] at hstop
    cases hstop
  step l a l' hstep h := by
    cases hstep with
    | @proc s s' a b ha hs =>
      refine ⟨fun hstop => (hs.over (h.1 hstop)).1, ?_⟩
      rcases h.2 with hover | ⟨g, hg⟩
      · exact .inl (hs.over hover).1
      · refine .inr ⟨Pass.next g s a s', hg.run (.cons (t := (s', _)) ⟨hs, rfl⟩ (.nil _))⟩
    | connectFails => exact ⟨nofun, .inl (.inl ⟨_, rfl⟩)⟩
    | stop hm => exact ⟨fun _ => .inl ⟨_, hm⟩, h.2⟩
    | get =>
      have hover := h.1 rfl
      exact ⟨fun _ => hover, .inl hover⟩

/-- With at most `MAXCONN` workers there is a session for each `Get` of `start_dbprocess` and of the
wait loop. -/
theorem stopping_of_stuck {t : Tables} (ht : getTabname ini = some t)
    (hle : t.jobs.length ≤ MAXCONN) (hl : (life env ini db).Reachable l)
    (hstuck : l.Stuck env ini db) : l.stopping = true := by
  have hlive : ∀ m, l.proc.main = m → ¬ m.Over →
      ∃ g, Wired t l.proc ∧ Pooled l.proc g := by
    intro m hm hover
    subst hm
    obtain ⟨g, hg⟩ := (life_inductive.reachable hl).2.resolve_left hover
    have hinv : (system env ini db).Inductive (Wired t) := wired_inductive ht
    exact ⟨g, hinv.ghost.reachable hg, pooled_inductive.reachable hg⟩
  obtain ⟨q, hwaits, hempty, -⟩ := hstuck
  cases q with
  | m_dbsession =>
    rcases hwaits with ⟨job, jobs, ret, hm⟩ | ⟨hstop, -⟩
    · obtain ⟨g, hwired, hpool⟩ := hlive _ hm (by rintro (⟨b, hb⟩ | hb) <;> cases hb)
      obtain ⟨rest, hjobs, hrest⟩ := hwired.jobs
      have hlent := hpool.lent
      rw [hm] at hlent hrest
      obtain rfl : rest = some job :: jobs := hrest _ rfl
      have hcount := hpool.sessions.length_eq
      have htotal := congrArg List.length hjobs
      rw [show l.proc.conv.m_dbsession = [] from hempty] at hcount
      simp only [List.nil_append, List.length_range, List.length_append, List.length_map,
        List.length_cons] at hcount htotal
      have := hlent.2
      omega
    · exact hstop
  | m_m_dbsession_tmp =>
    obtain ⟨k, flag, success, tmp, hm, hk⟩ := hwaits
    obtain ⟨g, -, hpool⟩ := hlive _ hm (by rintro (⟨b, hb⟩ | hb) <;> cases hb)
    have hlent := hpool.lent
    rw [hm, show l.proc.conv.m_m_dbsession_tmp = [] from hempty] at hlent
    obtain ⟨hpolled, hsuccess, -, -, -, hn, -⟩ := hlent
    have hseen := hpolled.length_seen_le
    simp only [List.length_nil] at hn
    omega

/-- A `start_dbprocess` that has no session left for the next worker. -/
def Life.Starved (l : Life) : Prop :=
  l.stopping = false ∧ l.proc.conv.m_dbsession = [] ∧
    ((∃ job jobs ret, l.proc.main = .starting (some job :: jobs) ret) ∨ l.proc.main = .crashed)

/-- A `start_dbprocess` without sessions waits for ever. -/
theorem Life.Starved.step {a : LifeLabel} (h : l.Starved) (hstep : Life.Step env ini l a l') :
    l'.Starved := by
  obtain ⟨hstop, hempty, hmain⟩ := h
  cases hstep with
  | @proc s s' a b ha hs =>
    cases hs with
    | call | exit => exact ⟨hstop, hempty, hmain⟩
    | workerCrashes => exact ⟨hstop, hempty, .inr rfl⟩
    | make hm hnew =>
      obtain ⟨dbsession, hs, -⟩ := newDBProcess_eq hnew
      rw [hs] at hempty
      cases hempty
    | initFails hm | openFails hm | configure hm | startCrashes hm | start hm | poll hm
    | pass hm | move hm | moved hm =>
      rcases hmain with ⟨job, jobs, ret, hb⟩ | hb <;> rw [hm] at hb <;> cases hb
  | connectFails hm =>
    rcases hmain with ⟨job, jobs, ret, hb⟩ | hb <;> rw [hm] at hb <;> cases hb
  | stop hm =>
    rcases hmain with ⟨job, jobs, ret, hb⟩ | hb <;> rw [hm] at hb <;> cases hb
  | get => cases hstop

/-- Only the wait loop of `run` puts sessions back, and it comes after `start_dbprocess`. -/
theorem Life.Starved.stuck (h : l.Starved) (hmain : l.proc.main ≠ .crashed) :
    l.Stuck env ini db := by
  refine ⟨.m_dbsession, .inl (h.2.2.resolve_right hmain), h.2.1, ?_⟩
  intro as l' hrun
  have hstarved : l'.Starved := by
    clear hmain
    induction hrun with
    | nil => exact h
    | cons hstep _ ih => exact ih (h.step hstep)
  exact hstarved.2.1

/-- With more workers than sessions, `start_dbprocess` gets there. -/
theorem starved_of_starting {jobs : List Job} {ret : Bool}
    (hm : s.main = .starting (jobs.map some) ret) (hlt : s.conv.m_dbsession.length < jobs.length) :
    ∃ as l, (life env ini db).Run ⟨s, false⟩ as l ∧ l.Starved ∧ l.proc.main ≠ .crashed := by
  induction jobs generalizing s with
  | nil => exact absurd hlt (Nat.not_lt_zero _)
  | cons job jobs ih =>
    cases hqueue : s.conv.m_dbsession with
    | nil =>
      refine ⟨[], _, .nil _, ⟨rfl, hqueue, .inl ⟨job, _, ret, hm⟩⟩, ?_⟩
      rw [hm]
      intro h
      cases h
    | cons dbsession rest =>
      obtain ⟨conv, hconv⟩ : ∃ conv, s.conv.newDBProcess job = some conv := by
        rw [ConverProcess.newDBProcess, hqueue]
        exact ⟨_, rfl⟩
      obtain ⟨_, hs, -⟩ := newDBProcess_eq hconv
      have hlt' : conv.m_dbsession.length < jobs.length := by
        rw [hs, List.length_cons, List.length_cons] at hlt
        exact Nat.lt_of_succ_lt_succ hlt
      let s' : State := { s with
        main := .starting (jobs.map some) ret
        conv := conv
        prog := Function.update s.prog s.conv.m_dbProcess.length job.program
        m_flag := Function.update s.m_flag s.conv.m_dbProcess.length false }
      have hstep : Life.Step env ini ⟨s, false⟩ (.proc .make) ⟨s', false⟩ :=
        .proc (fun h => by cases h) (.make hm hconv)
      obtain ⟨as, l, hrun, hl⟩ := ih (s := s') rfl hlt'
      exact ⟨_, l, .cons hstep hrun, hl⟩

/-- **`stop` never ends.** On every configuration and every database: a state that waits for ever
for a session is reachable; whatever `run` returned, `stop` gets there; with at most `MAXCONN`
workers `stop` is the only place where the converter waits for ever, and with more of them
`start_dbprocess` is another one. -/
theorem stop_gets_stuck (env : Env) (ini : IniFile) (tables : String → Option (List Row)) :
    (∃ l, (life env ini ⟨tables, fun _ => []⟩).Reachable l ∧
      l.Stuck env ini ⟨tables, fun _ => []⟩) ∧
    (∀ l b, (life env ini ⟨tables, fun _ => []⟩).Reachable l → l.proc.main = .returned b →
      ∃ as l', (life env ini ⟨tables, fun _ => []⟩).Run l as l' ∧
        l'.Stuck env ini ⟨tables, fun _ => []⟩) ∧
    (∀ t l, getTabname ini = some t → t.jobs.length ≤ MAXCONN →
      (life env ini ⟨tables, fun _ => []⟩).Reachable l → l.Stuck env ini ⟨tables, fun _ => []⟩ →
      l.stopping = true) ∧
    (∀ t (jobs : List Job), getTabname ini = some t → t.jobs = jobs.map some →
      MAXCONN < jobs.length → ∃ l, (life env ini ⟨tables, fun _ => []⟩).Reachable l ∧
        l.Stuck env ini ⟨tables, fun _ => []⟩ ∧ l.stopping = false) := by
  let s : State := ⟨.initial, .initial, fun _ => .ret (.returned true), fun _ => false,
    ⟨tables, fun _ => []⟩⟩
  have hinit : (life env ini ⟨tables, fun _ => []⟩).init ⟨s, false⟩ :=
    ⟨⟨rfl, rfl, fun _ => rfl, rfl⟩, rfl⟩
  refine ⟨?_, ?_, fun t l ht hle hl hstuck => stopping_of_stuck ht hle hl hstuck,
    ?_⟩
  · have hfail : Life.Step env ini ⟨s, false⟩ (.proc (.opened false))
        ⟨{ s with main := .returned false }, false⟩ := .proc nofun (.openFails rfl)
    obtain ⟨as, l, hrun, -, hstuck⟩ : ∃ as l, (life env ini ⟨tables, fun _ => []⟩).Run
        ⟨{ s with main := .returned false }, false⟩ as l ∧ l.proc.main = .returned false ∧
          l.Stuck env ini ⟨tables, fun _ => []⟩ := stuck_of_returned rfl
    exact ⟨l, (LTS.Reachable.of_init hinit).run (.cons hfail hrun), hstuck⟩
  · intro l b _ hret
    obtain ⟨as, l', hrun, -, hstuck⟩ := stuck_of_returned hret
    exact ⟨as, l', hrun, hstuck⟩
  · intro t jobs ht hjobs hlt
    have hconf : Life.Step env ini ⟨s, false⟩ (.proc (.opened true))
        ⟨{ s with main := .starting (jobs.map some) t.started }, false⟩ := by
      rw [← hjobs]
      exact .proc nofun (.configure rfl ht)
    have hsessions : s.conv.m_dbsession.length < jobs.length := by
      rwa [show s.conv.m_dbsession = List.range MAXCONN from rfl, List.length_range]
    obtain ⟨as, l, hrun, hstarved, hmain⟩ :
        ∃ as l, (life env ini ⟨tables, fun _ => []⟩).Run
          ⟨{ s with main := .starting (jobs.map some) t.started }, false⟩ as l ∧ l.Starved ∧
          l.proc.main ≠ .crashed := starved_of_starting rfl hsessions
    exact ⟨l, (LTS.Reachable.of_init hinit).run (.cons hconf hrun), hstarved.stuck hmain,
      hstarved.1⟩

/-- A run whose sessions all connect, before `stop`. -/
theorem run_life {as : List Label} (hrun : (system env ini db).Run s as s')
    (has : ∀ a ∈ as, a ≠ .connect false) :
    (life env ini db).Run ⟨s, false⟩ (as.map .proc) ⟨s', false⟩ := by
  induction hrun with
  | nil => exact .nil _
  | cons hstep _ ih =>
    obtain ⟨ha, has⟩ := List.forall_mem_cons.1 has
    exact .cons (.proc ha hstep) (ih has)

end

namespace OneTable

/-- One plain table: `run` returns true, `stop` takes the sessions out and waits for ever. -/
theorem stop_not_free : ¬ ∀ l, (life env (plainFile 1) db).Reachable l →
    l.proc.main = .returned true → ¬ l.Stuck env (plainFile 1) db := by
  intro hall
  obtain ⟨v, htrace⟩ := calls_trace
  obtain ⟨s, hrun, hret, -⟩ := run_returns (backup db) htrace fun _ _ => trivial
  have hlife : (life env (plainFile 1) db).Run ⟨start, false⟩ ((labels calls).map .proc)
      ⟨s, false⟩ := by
    refine run_life hrun.of_restrict ?_
    simp only [labels, calls, List.map_cons, List.map_nil, List.cons_append, List.nil_append,
      List.forall_mem_cons]
    simp
  obtain ⟨as, l, hstop, hmain, hstuck⟩ : ∃ as l, (life env (plainFile 1) db).Run ⟨s, false⟩ as l ∧
    l.proc.main = .returned true ∧ l.Stuck env (plainFile 1) db := stuck_of_returned hret
  exact hall l ⟨⟨start, false⟩, _, ⟨start_initial, rfl⟩, hlife.append hstop⟩ hmain hstuck

end OneTable

end TelecomSuite.Convert
