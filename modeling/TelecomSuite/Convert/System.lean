import Mathlib.Data.List.Flatten
import Mathlib.Data.List.Nodup
import Mathlib.Data.List.Perm.Basic
import TelecomSuite.Lib.Transition
import TelecomSuite.Convert.Database

/-!
# The converter

`ConverProcess::run` with the workers it starts. The main thread connects the sessions, reads the
configuration, makes the workers one after the other and then polls their `m_flag`; every pass moves
as many sessions back as it has seen workers finish. The workers run from the moment they are made.
A run of `system` is any interleaving of the main thread's steps with the calls of the workers.
An exception that a worker does not catch ends the process.
-/

namespace TelecomSuite.Convert

open Resumption Transition

/-- Where the main thread is: before `init`; in `start_dbprocess` with the workers to make and its
result; at worker `k` in a pass of the wait loop of `run`; in the loop of this pass that moves
sessions; after `run`; after the end of the process. -/
inductive Main
  | initial
  | starting (jobs : List (Option Job)) (ret : Bool)
  | passing (k : Nat) (flag : Bool) (success_process process_tmp : Nat)
  | moving (k : Nat) (flag : Bool) (success_process process_tmp : Nat)
  | returned (b : Bool)
  | crashed

/-- The threads and the database. Worker `w` is the `w`-th of `m_dbProcess`; `prog` is what it has
still to do. -/
structure State where
  main : Main
  conv : ConverProcess
  prog : Nat → Work Exit
  m_flag : Nat → Bool
  db : Db

/-- What happens: the main thread connects, opens, makes and starts workers and polls, and the
workers make their calls. -/
inductive Label
  | connect (ok : Bool)
  | opened (ok : Bool)
  | make
  | start
  | poll
  | pass
  | move
  | moved
  | call (w : Nat) (c : Call) (r : Option (Reply c))
  | exit (w : Nat)

/-- One step of a thread. -/
inductive Step (env : Env) (ini : IniFile) : State → Label → State → Prop
  -- a session does not connect
  | initFails {s : State} : s.main = .initial →
      Step env ini s (.connect false) { s with main := .returned false }
  -- the sessions connect, but the file does not open
  | openFails {s : State} : s.main = .initial →
      Step env ini s (.opened false) { s with main := .returned false }
  | configure {s : State} {t : Tables} : s.main = .initial → getTabname ini = some t →
      Step env ini s (.opened true) { s with main := .starting t.jobs t.started }
  | startCrashes {s : State} {jobs : List (Option Job)} {ret : Bool} :
      s.main = .starting (none :: jobs) ret → Step env ini s .make { s with main := .crashed }
  | make {s : State} {job : Job} {jobs : List (Option Job)} {ret : Bool} {conv : ConverProcess} :
      s.main = .starting (some job :: jobs) ret → s.conv.newDBProcess job = some conv →
      Step env ini s .make { s with
        main := .starting jobs ret
        conv := conv
        prog := Function.update s.prog s.conv.m_dbProcess.length job.program
        m_flag := Function.update s.m_flag s.conv.m_dbProcess.length false }
  | start {s : State} {ret : Bool} : s.main = .starting [] ret →
      Step env ini s .start
        { s with main := if ret then .passing 0 false 0 0 else .returned false }
  | poll {s : State} {k success tmp : Nat} {flag : Bool} : s.main = .passing k flag success tmp →
      k < s.conv.m_dbProcess.length →
      Step env ini s .poll { s with
        main := if s.m_flag k then .passing (k + 1) flag (success + 1) tmp
          else .passing (k + 1) true success tmp }
  | pass {s : State} {k success tmp : Nat} {flag : Bool} : s.main = .passing k flag success tmp →
      k = s.conv.m_dbProcess.length →
      Step env ini s .pass { s with main := .moving 0 flag success tmp }
  | move {s : State} {k success tmp : Nat} {flag : Bool} {dbsession : Nat} {rest : List Nat} :
      s.main = .moving k flag success tmp → k < success - tmp →
      s.conv.m_m_dbsession_tmp = dbsession :: rest →
      Step env ini s .move { s with
        main := .moving (k + 1) flag success tmp
        conv := { s.conv with
          m_m_dbsession_tmp := rest
          m_dbsession := s.conv.m_dbsession ++ [dbsession] } }
  | moved {s : State} {k success tmp : Nat} {flag : Bool} : s.main = .moving k flag success tmp →
      ¬ k < success - tmp →
      Step env ini s .moved
        { s with main := if flag then .passing 0 false 0 success else .returned true }
  | call {s : State} {w : Nat} {p : DBProcess} {c : Call} {k : Option (Reply c) → Work Exit}
      {r : Option (Reply c)} {v : View} : s.main ≠ .crashed →
      s.conv.m_dbProcess[w]? = some p → s.prog w = .call c k →
      (s.db.view p.m_dbmanager).Step env c r v →
      Step env ini s (.call w c r) { s with
        prog := Function.update s.prog w (k r)
        db := s.db.put p.m_dbmanager v }
  | workerCrashes {s : State} {w : Nat} : s.main ≠ .crashed → w < s.conv.m_dbProcess.length →
      s.prog w = .ret .crashed → Step env ini s (.exit w) { s with main := .crashed }
  -- `m_flag` is set whatever the conversion returned
  | exit {s : State} {w : Nat} {b : Bool} : s.main ≠ .crashed → w < s.conv.m_dbProcess.length →
      s.prog w = .ret (.returned b) →
      Step env ini s (.exit w) { s with m_flag := Function.update s.m_flag w true }

/-- Before `run`, on this database. -/
structure Initial (db : Db) (s : State) : Prop where
  main : s.main = .initial
  conv : s.conv = .initial
  pending : ∀ session, db.pending session = []
  db : s.db = db

/-- A run of the converter on this database. -/
def system (env : Env) (ini : IniFile) (db : Db) : LTS State Label where
  init := Initial db
  step := Step env ini

/-! ## The threads -/

/-- The workers still to be made, where the main thread knows them. -/
def Main.rest (t : Tables) : Main → Option (List (Option Job))
  | .initial => some t.jobs
  | .starting jobs _ => some jobs
  | .passing .. | .moving .. | .returned true => some []
  | .returned false | .crashed => none

/-- The flags that the main thread has seen set and counts on. -/
def Main.Seen (workers : Nat) (m_flag : Nat → Bool) : Main → Prop
  | .passing k flag _ _ => flag = false → ∀ w, w < k → m_flag w = true
  | .moving _ flag _ _ => flag = false → ∀ w, w < workers → m_flag w = true
  | .returned true => ∀ w, w < workers → m_flag w = true
  | .initial | .starting .. | .returned false | .crashed => True

/-- The sessions that it can still give out. -/
def Main.Free (conv : ConverProcess) : Main → Prop
  | .initial | .starting .. =>
    (conv.m_dbProcess.map DBProcess.m_dbmanager ++ conv.m_dbsession).Nodup
  | .passing .. | .moving .. | .returned _ | .crashed => True

/-- The invariant of the threads: the workers are the first ones of the list, each has a session of
its own, a worker with its flag set is done, and the main thread has seen the flags it counts on. -/
structure Wired (t : Tables) (s : State) : Prop where
  jobs : ∃ rest, t.jobs = s.conv.m_dbProcess.map (fun p => some p.job) ++ rest ∧
    ∀ jobs, s.main.rest t = some jobs → rest = jobs
  sessions : (s.conv.m_dbProcess.map DBProcess.m_dbmanager).Nodup
  free : s.main.Free s.conv
  done : ∀ w, w < s.conv.m_dbProcess.length → s.m_flag w = true → ∃ b, s.prog w = .ret (.returned b)
  seen : s.main.Seen s.conv.m_dbProcess.length s.m_flag

/-- A new worker takes the first session, which is noted, and stands last. -/
theorem newDBProcess_eq {p p' : ConverProcess} {job : Job} (h : p.newDBProcess job = some p') :
    ∃ dbsession, p.m_dbsession = dbsession :: p'.m_dbsession ∧
      p'.m_m_dbsession_tmp = p.m_m_dbsession_tmp ++ [dbsession] ∧
      p'.m_dbProcess = p.m_dbProcess ++ [⟨job, dbsession⟩] := by
  unfold ConverProcess.newDBProcess at h
  cases hs : p.m_dbsession with
  | nil => simp [hs] at h
  | cons dbsession m_dbsession =>
    rw [hs] at h
    cases h
    exact ⟨dbsession, rfl, rfl, rfl⟩

section
variable {env : Env} {ini : IniFile} {db : Db} {t : Tables} {s s' : State} {a : Label}

/-- A step of the main thread that makes no worker. -/
theorem Wired.goto {m m' : Main} {conv : ConverProcess} (h : Wired t s) (hm : s.main = m)
    (hconv : conv.m_dbProcess = s.conv.m_dbProcess)
    (hrest : ∀ jobs, m'.rest t = some jobs → m.rest t = some jobs)
    (hfree : m.Free s.conv → m'.Free conv)
    (hseen : m.Seen s.conv.m_dbProcess.length s.m_flag →
      m'.Seen s.conv.m_dbProcess.length s.m_flag) :
    Wired t { s with main := m', conv := conv } := by
  subst hm
  obtain ⟨rest, hjobs, hmain⟩ := h.jobs
  exact ⟨⟨rest, by rw [hjobs, hconv], fun jobs hj => hmain jobs (hrest jobs hj)⟩,
    by rw [hconv]; exact h.sessions, hfree h.free, by rw [hconv]; exact h.done,
    by rw [hconv]; exact hseen h.seen⟩

/-- The main thread ends, without having seen all workers done. -/
theorem Wired.stop {m : Main} (h : Wired t s) (hm : m = .returned false ∨ m = .crashed) :
    Wired t { s with main := m } := by
  rcases hm with rfl | rfl
  · exact h.goto rfl rfl nofun (fun _ => trivial) fun _ => trivial
  · exact h.goto rfl rfl nofun (fun _ => trivial) fun _ => trivial

/-- The next worker of the list is made, with a session that no worker has. -/
theorem Wired.make {job : Job} {jobs : List (Option Job)} {ret : Bool} {conv : ConverProcess}
    (h : Wired t s) (hm : s.main = .starting (some job :: jobs) ret)
    (hnew : s.conv.newDBProcess job = some conv) :
    Wired t { s with
      main := .starting jobs ret
      conv := conv
      prog := Function.update s.prog s.conv.m_dbProcess.length job.program
      m_flag := Function.update s.m_flag s.conv.m_dbProcess.length false } := by
  obtain ⟨dbsession, hs, -, hp⟩ := newDBProcess_eq hnew
  obtain ⟨rest, hjobs, hmain⟩ := h.jobs
  have hrest : rest = some job :: jobs := hmain _ (by rw [hm]; rfl)
  have hfree : (s.conv.m_dbProcess.map DBProcess.m_dbmanager ++ s.conv.m_dbsession).Nodup := by
    have := h.free
    rwa [hm] at this
  rw [hs] at hfree
  refine ⟨⟨jobs, by simp [hjobs, hrest, hp], fun js hj => Option.some.inj hj⟩, ?_, ?_, ?_, trivial⟩
  · show (conv.m_dbProcess.map DBProcess.m_dbmanager).Nodup
    rw [hp, List.map_append, List.map_singleton]
    refine hfree.sublist (List.Sublist.append_left ?_ _)
    simp
  · show (conv.m_dbProcess.map DBProcess.m_dbmanager ++ conv.m_dbsession).Nodup
    simpa [hp] using hfree
  · show ∀ w, w < conv.m_dbProcess.length → _
    intro w hw hflag
    rw [hp, List.length_append, List.length_singleton] at hw
    have hne : w ≠ s.conv.m_dbProcess.length := by
      rintro rfl
      simp at hflag
    simp only [Function.update_of_ne hne] at hflag ⊢
    exact h.done w (by omega) hflag

/-- A worker that still has a call to make has no flag set. -/
theorem Wired.call {w : Nat} {c : Call} {k : Option (Reply c) → Work Exit} {q : Work Exit} {d : Db}
    (h : Wired t s) (hprog : s.prog w = .call c k) :
    Wired t { s with prog := Function.update s.prog w q, db := d } := by
  refine ⟨h.jobs, h.sessions, h.free, ?_, h.seen⟩
  intro u hu hflag
  obtain ⟨b, hb⟩ := h.done u hu hflag
  have hne : u ≠ w := by
    rintro rfl
    rw [hprog] at hb
    cases hb
  exact ⟨b, by simpa [Function.update_of_ne hne] using hb⟩

/-- Flags that stay set stay seen. -/
theorem Main.Seen.mono {m : Main} {n : Nat} {f f' : Nat → Bool} (h : m.Seen n f)
    (hf : ∀ w, f w = true → f' w = true) : m.Seen n f' := by
  cases m with
  | passing k flag _ _ => exact fun hflag w hw => hf w (h hflag w hw)
  | moving k flag _ _ => exact fun hflag w hw => hf w (h hflag w hw)
  | returned b =>
    cases b with
    | true => exact fun w hw => hf w (h w hw)
    | false => trivial
  | initial | starting | crashed => trivial

/-- A worker sets its flag when it is done. -/
theorem Wired.exit {w : Nat} {b : Bool} (h : Wired t s) (hprog : s.prog w = .ret (.returned b)) :
    Wired t { s with m_flag := Function.update s.m_flag w true } := by
  refine ⟨h.jobs, h.sessions, h.free, ?_, h.seen.mono ?_⟩
  · intro u hu hflag
    rcases eq_or_ne u w with rfl | hne
    · exact ⟨b, hprog⟩
    · exact h.done u hu (by simpa [Function.update_of_ne hne] using hflag)
  · intro u hu
    rcases eq_or_ne u w with rfl | hne
    · exact Function.update_self _ _ _
    · simpa [Function.update_of_ne hne] using hu

/-- Every worker has a piece and a session of its own, in every reachable state. -/
theorem wired_inductive (ht : getTabname ini = some t) :
    (system env ini db).Inductive (Wired t) where
  init s h := by
    have hnone : s.conv.m_dbProcess = [] := by rw [h.conv]; rfl
    refine ⟨⟨t.jobs, by simp [hnone], ?_⟩, by simp [hnone], ?_,
      fun w hw => by simp [hnone] at hw, ?_⟩
    · intro jobs hj
      rw [h.main] at hj
      exact Option.some.inj hj
    · rw [h.main, h.conv]
      exact List.nodup_range
    · rw [h.main]
      trivial
  step s a s' hstep h := by
    cases hstep with
    | initFails | openFails => exact h.stop (.inl rfl)
    | startCrashes | workerCrashes => exact h.stop (.inr rfl)
    | configure hm ht' =>
      cases Option.some.inj (ht'.symm.trans ht)
      exact h.goto hm rfl (fun _ hj => hj) id fun _ => trivial
    | make hm hnew => exact h.make hm hnew
    | @start ret hm =>
      cases ret with
      | true =>
        refine h.goto hm rfl (fun _ hj => hj) (fun _ => trivial) ?_
        intro _ _ w hw
        exact absurd hw (Nat.not_lt_zero w)
      | false => exact h.stop (.inl rfl)
    | @poll k success tmp flag hm hk =>
      cases hflag : s.m_flag k with
      | true =>
        refine h.goto hm rfl (fun _ hj => hj) (fun _ => trivial) ?_
        intro hseen hf w hw
        rcases Nat.lt_succ_iff_lt_or_eq.1 hw with hlt | rfl
        · exact hseen hf w hlt
        · exact hflag
      | false => exact h.goto hm rfl (fun _ hj => hj) (fun _ => trivial) fun _ => nofun
    | pass hm hk =>
      exact h.goto hm rfl (fun _ hj => hj) (fun _ => trivial) fun hseen hf w hw =>
        hseen hf w (hk ▸ hw)
    | move hm => exact h.goto hm rfl (fun _ hj => hj) (fun _ => trivial) id
    | @moved k success tmp flag hm hk =>
      cases flag with
      | true =>
        refine h.goto hm rfl (fun _ hj => hj) (fun _ => trivial) ?_
        intro _ _ w hw
        exact absurd hw (Nat.not_lt_zero w)
      | false => exact h.goto hm rfl (fun _ hj => hj) (fun _ => trivial) fun hseen => hseen rfl
    | call hm hp hprog => exact h.call hprog
    | exit hm hw hprog => exact h.exit hprog

end

/-! ## The tables of the workers -/

/-- The Oracle tables a worker fills. -/
def Job.orclNames (job : Job) : List String := job.peers.map Peer.orcl ++ job.pairs.map Pair.orcl

/-- The Oracle tables a worker touches. -/
def Job.own (job : Job) : List String := job.orclNames ++ job.orclNames.map bak

/-- The configured Oracle tables. -/
def Tables.orclNames (t : Tables) : List String := t.m_tab_orcl ++ t.m_tabname_oracl

/-- The configured Oracle tables and their backups are all different. -/
def Tables.Distinct (t : Tables) : Prop := (t.orclNames ++ t.orclNames.map bak).Nodup

/-- The workers together have no table more often than it is configured. -/
theorem flatMap_orclNames_sublist {per : Int} (hper : per ≠ 0) (pairs : List Pair)
    (peers : List Peer) : ((jobList per pairs peers).flatMap Job.orclNames).Sublist
      (peers.map Peer.orcl ++ pairs.map Pair.orcl) := by
  have hflat : ∀ {α : Type} (f : α → String) (l : List α),
      ((pieces per l).flatMap fun c => c.map f).Sublist (l.map f) := by
    intro α f l
    rcases flatten_pieces_or hper (l := l) with h | h
    · rw [List.flatMap_def, ← List.map_flatten, h]
    · simp [h]
  have hpeers : ∀ c : List Peer, (Job.ofPeers c).orclNames = c.map Peer.orcl := by
    simp [Job.orclNames]
  have hpairs : ∀ c : List Pair, (Job.ofPairs c).orclNames = c.map Pair.orcl := by
    simp [Job.orclNames]
  simp only [jobList, List.flatMap_append, List.flatMap_map, hpeers, hpairs]
  exact (hflat _ _).append (hflat _ _)

/-- The workers fill configured tables only, each at most once. -/
theorem orclNames_sublist {ini : IniFile} {t : Tables} (ht : getTabname ini = some t)
    (jobs : List Job) (hjobs : (jobs.map some).Sublist t.jobs) :
    (jobs.flatMap Job.orclNames).Sublist t.orclNames := by
  obtain ⟨pairs, peers, ht'⟩ := exists_getTabname ini
  rw [ht'] at ht
  cases ht
  by_cases hper : ini.readInt "System" "PerCount" 3 = 0
  · have hnone : ∀ job,
        some job ∉ (Tables.of (ini.readInt "System" "PerCount" 3) pairs peers).jobs := by
      intro job hjob
      simp only [Tables.jobs, Tables.loop, Tables.of, hper, if_true] at hjob
      rcases List.mem_append.1 hjob with h | h <;> split at h <;> simp at h
    cases jobs with
    | nil => exact List.nil_sublist _
    | cons job jobs => exact absurd (hjobs.subset List.mem_cons_self) (hnone job)
  · rw [jobs_eq pairs peers hper] at hjobs
    have hsub : jobs.Sublist (jobList (ini.readInt "System" "PerCount" 3) pairs peers) := by
      have := hjobs.filterMap id
      simpa [List.filterMap_map] using this
    exact (hsub.flatMap _).trans (flatMap_orclNames_sublist hper pairs peers)

/-- The tables of a worker are distinct. -/
theorem own_nodup_of_mem {ini : IniFile} {t : Tables} (ht : getTabname ini = some t)
    (hd : t.Distinct) {job : Job} (hjob : some job ∈ t.jobs) : job.own.Nodup := by
  have hsub := orclNames_sublist ht [job] (by simpa using hjob)
  rw [List.flatMap_singleton] at hsub
  exact hd.sublist (hsub.append (hsub.map bak))

section
variable {env : Env} {ini : IniFile} {db : Db} {t : Tables} {s s' : State} {a : Label}

/-- The workers that there are have their pieces in order. -/
theorem Wired.jobs_sublist (h : Wired t s) :
    ((s.conv.m_dbProcess.map DBProcess.job).map some).Sublist t.jobs := by
  obtain ⟨rest, hjobs, -⟩ := h.jobs
  rw [hjobs, List.map_map]
  exact List.sublist_append_left _ _

/-- No table is touched by two workers. -/
theorem Wired.own_nodup (h : Wired t s) (ht : getTabname ini = some t) (hd : t.Distinct) :
    ((s.conv.m_dbProcess.map DBProcess.job).flatMap Job.own).Nodup := by
  have hsub := orclNames_sublist ht _ h.jobs_sublist
  have hnodup := hd.sublist (hsub.append (hsub.map bak))
  rw [List.map_flatMap] at hnodup
  exact (List.flatMap_append_perm _ _ _).nodup_iff.1 hnodup

/-- Two workers have neither a session nor a table in common. -/
theorem Wired.apart (h : Wired t s) (ht : getTabname ini = some t) (hd : t.Distinct) {i j : Nat}
    {p q : DBProcess} (hi : s.conv.m_dbProcess[i]? = some p) (hj : s.conv.m_dbProcess[j]? = some q)
    (hij : i ≠ j) : p.m_dbmanager ≠ q.m_dbmanager ∧ ∀ n ∈ p.job.own, n ∉ q.job.own := by
  have hpair : s.conv.m_dbProcess.Pairwise fun p q =>
      p.m_dbmanager ≠ q.m_dbmanager ∧ List.Disjoint p.job.own q.job.own := by
    rw [List.pairwise_and_iff]
    have hown := (List.nodup_flatMap.1 (h.own_nodup ht hd)).2
    rw [List.pairwise_map] at hown
    exact ⟨List.pairwise_map.1 h.sessions, hown⟩
  rw [List.pairwise_iff_getElem] at hpair
  obtain ⟨hi', rfl⟩ := List.getElem?_eq_some_iff.1 hi
  obtain ⟨hj', rfl⟩ := List.getElem?_eq_some_iff.1 hj
  rcases Nat.lt_or_gt_of_ne hij with hlt | hlt
  · obtain ⟨hs, hdis⟩ := hpair i j hi' hj' hlt
    exact ⟨hs, fun n hn hn' => hdis hn hn'⟩
  · obtain ⟨hs, hdis⟩ := hpair j i hj' hi' hlt
    exact ⟨hs.symm, fun n hn hn' => hdis hn' hn⟩

end

/-! ## The workers one by one -/

/-- What is shown of a worker alone, on the part of the database that is its own: under the
assumption `may` on the responses, `always` at every moment and `post` when it is done. -/
structure Contract where
  may : Job → (c : Call) → Option (Reply c) → Prop
  always : Job → View → Prop
  post : Job → View → Exit → Prop

namespace Contract

/-- A call that the contract allows for. -/
def step (C : Contract) (env : Env) (job : Job) (v : View) (c : Call) (r : Option (Reply c))
    (v' : View) : Prop :=
  v.Step env c r v' ∧ C.may job c r

/-- At a call the worker keeps to its own tables. -/
def ok (C : Contract) (job : Job) (v : View) (c : Call) : Prop :=
  (∀ n ∈ c.names, n ∈ job.own) ∧ (∀ p ∈ v.pending, p.1 ∈ job.own) ∧ C.always job v

/-- The program keeps the contract, from this view on. -/
def Keeps (C : Contract) (env : Env) (job : Job) (v : View) (p : Work Exit) : Prop :=
  p.wp (C.step env job) (C.ok job) (fun v e => C.post job v e ∧ C.always job v) v

/-- The worker fulfils the contract from its tables in `db` on. -/
def Fulfils (C : Contract) (env : Env) (db : Db) (job : Job) : Prop :=
  C.Keeps env job (View.mask job.own ⟨db.tables, []⟩) job.program

/-- The assumption on the responses, as a guard on the steps of the system. -/
def Guard (C : Contract) (s : State) : Label → Prop
  | .call w c r => ∀ p, s.conv.m_dbProcess[w]? = some p → C.may p.job c r
  | .connect _ | .opened _ | .make | .start | .poll | .pass | .move | .moved | .exit _ => True

end Contract

/-- A worker's part of the database. -/
def State.viewOf (s : State) (p : DBProcess) : View := (s.db.view p.m_dbmanager).mask p.job.own

/-- The invariant of the database: every worker keeps its contract on its part, and what is no
worker's is as before. -/
structure Worked (C : Contract) (env : Env) (db : Db) (s : State) : Prop where
  keeps : ∀ w p, s.conv.m_dbProcess[w]? = some p → C.Keeps env p.job (s.viewOf p) (s.prog w)
  tables : ∀ n, (∀ p ∈ s.conv.m_dbProcess, n ∉ p.job.own) → s.db.tables n = db.tables n
  pending : ∀ session, (∀ p ∈ s.conv.m_dbProcess, p.m_dbmanager ≠ session) →
    s.db.pending session = []

section
variable {C : Contract} {env : Env} {ini : IniFile} {db : Db} {t : Tables} {s s' : State}

/-- What a call leaves alone: the tables of the other workers and their sessions. -/
theorem viewOf_put {p q : DBProcess} {c : Call} {r : Option (Reply c)} {v : View}
    (hstep : (s.db.view p.m_dbmanager).Step env c r v) (hok : C.ok p.job (s.viewOf p) c)
    (hses : q.m_dbmanager ≠ p.m_dbmanager) (hown : ∀ n ∈ q.job.own, n ∉ p.job.own) :
    ((s.db.put p.m_dbmanager v).view q.m_dbmanager).mask q.job.own = s.viewOf q := by
  have hpending : (s.db.put p.m_dbmanager v).pending q.m_dbmanager = s.db.pending q.m_dbmanager :=
    Function.update_of_ne hses _ _
  have htables : ∀ n ∈ q.job.own, v.tables n = (s.db.view p.m_dbmanager).tables n :=
    fun n hn => hstep.frame hok.1 (show ∀ x ∈ (s.db.view p.m_dbmanager).pending, _ from hok.2.1)
      (hown n hn)
  have hmask : (View.mask q.job.own ⟨v.tables, s.db.pending q.m_dbmanager⟩).tables =
      (s.viewOf q).tables := by
    funext n
    by_cases hn : n ∈ q.job.own
    · simp [State.viewOf, View.mask, Db.view, hn, htables n hn]
    · simp [State.viewOf, View.mask, hn]
  exact congrArg₂ View.mk hmask hpending

/-- A call of a worker keeps the invariant. -/
theorem Worked.call {w : Nat} {p : DBProcess} {c : Call} {k : Option (Reply c) → Work Exit}
    {r : Option (Reply c)} {v : View} (h : Worked C env db s)
    (hapart : ∀ {i q}, s.conv.m_dbProcess[i]? = some q → i ≠ w →
      q.m_dbmanager ≠ p.m_dbmanager ∧ ∀ n ∈ q.job.own, n ∉ p.job.own)
    (hp : s.conv.m_dbProcess[w]? = some p) (hprog : s.prog w = .call c k)
    (hstep : (s.db.view p.m_dbmanager).Step env c r v) (hmay : C.may p.job c r) :
    Worked C env db { s with
      prog := Function.update s.prog w (k r)
      db := s.db.put p.m_dbmanager v } := by
  have hkeeps := h.keeps w p hp
  rw [hprog] at hkeeps
  have hok : C.ok p.job (s.viewOf p) c := hkeeps.1
  refine ⟨?_, ?_, ?_⟩
  · intro i q hq
    rcases eq_or_ne i w with rfl | hi
    · obtain rfl : p = q := Option.some.inj (hp.symm.trans hq)
      have hview : ((s.db.put p.m_dbmanager v).view p.m_dbmanager).mask p.job.own =
          v.mask p.job.own := by
        simp [Db.put, Db.view]
      show C.Keeps env p.job (((s.db.put p.m_dbmanager v).view p.m_dbmanager).mask p.job.own)
        (Function.update s.prog i (k r) i)
      rw [Function.update_self, hview]
      exact hkeeps.2 r _ ⟨hstep.mask hok.1, hmay⟩
    · obtain ⟨hses, hown⟩ := hapart hq hi
      show C.Keeps env q.job (((s.db.put p.m_dbmanager v).view q.m_dbmanager).mask q.job.own)
        (Function.update s.prog w (k r) i)
      rw [Function.update_of_ne hi, viewOf_put hstep hok hses hown]
      exact h.keeps i q hq
  · intro n hn
    rw [← h.tables n hn]
    exact hstep.frame hok.1 (show ∀ x ∈ (s.db.view p.m_dbmanager).pending, _ from hok.2.1)
      (hn p (List.mem_of_getElem? hp))
  · intro σ hσ
    have hne : σ ≠ p.m_dbmanager := (hσ p (List.mem_of_getElem? hp)).symm
    rw [← h.pending σ hσ]
    exact Function.update_of_ne hne _ _

/-- A new worker finds its tables as they were before the run. -/
theorem Worked.make {job : Job} {conv : ConverProcess} {main : Main} {m_flag : Nat → Bool}
    (h : Worked C env db s) {dbsession : Nat}
    (hconv : conv.m_dbProcess = s.conv.m_dbProcess ++ [⟨job, dbsession⟩])
    (hses : ∀ p ∈ s.conv.m_dbProcess, p.m_dbmanager ≠ dbsession)
    (hown : ∀ p ∈ s.conv.m_dbProcess, ∀ n ∈ job.own, n ∉ p.job.own) (hjob : C.Fulfils env db job) :
    Worked C env db { s with
      main := main
      conv := conv
      prog := Function.update s.prog s.conv.m_dbProcess.length job.program
      m_flag := m_flag } := by
  refine ⟨?_, ?_, ?_⟩
  · intro i q hq
    rw [hconv] at hq
    rcases eq_or_ne i s.conv.m_dbProcess.length with rfl | hi
    · obtain rfl : ⟨job, dbsession⟩ = q := by simpa using hq
      have hview : (s.db.view dbsession).mask job.own = View.mask job.own ⟨db.tables, []⟩ := by
        have htables : ((s.db.view dbsession).mask job.own).tables =
            (View.mask job.own ⟨db.tables, []⟩).tables := by
          funext n
          by_cases hn : n ∈ job.own
          · simpa [View.mask, Db.view, hn] using h.tables n fun p hp => hown p hp n hn
          · simp [View.mask, hn]
        exact congrArg₂ View.mk htables (h.pending dbsession hses)
      show C.Keeps env job ((s.db.view dbsession).mask job.own) (Function.update s.prog _ _ _)
      rw [Function.update_self, hview]
      exact hjob
    · have hlt : i < s.conv.m_dbProcess.length := by
        have := (List.getElem?_eq_some_iff.1 hq).1
        rw [List.length_append, List.length_singleton] at this
        omega
      rw [List.getElem?_append_left hlt] at hq
      show C.Keeps env q.job (s.viewOf q) (Function.update s.prog _ _ _)
      rw [Function.update_of_ne hi]
      exact h.keeps i q hq
  · intro n hn
    exact h.tables n fun p hp => hn p (by simp [hconv, hp])
  · intro σ hσ
    exact h.pending σ fun p hp => hσ p (by simp [hconv, hp])

/-- The main thread moves on. -/
theorem Worked.goto {conv : ConverProcess} {main : Main} {m_flag : Nat → Bool}
    (h : Worked C env db s) (hconv : conv.m_dbProcess = s.conv.m_dbProcess) :
    Worked C env db { s with main := main, conv := conv, m_flag := m_flag } := by
  refine ⟨?_, ?_, ?_⟩
  · intro i q hq
    exact h.keeps i q (hconv ▸ hq)
  · intro n hn
    exact h.tables n (hconv ▸ hn)
  · intro σ hσ
    exact h.pending σ (hconv ▸ hσ)

/-- **The workers one by one.** If every worker alone fulfils the contract, then in every
interleaving they all keep it, as long as the configured tables and their backups are distinct. -/
theorem worked_inductive (ht : getTabname ini = some t) (hd : t.Distinct)
    (hjobs : ∀ job, some job ∈ t.jobs → C.Fulfils env db job) :
    ((system env ini db).restrict C.Guard).Inductive fun s => Wired t s ∧ Worked C env db s where
  init s h := by
    have hnone : s.conv.m_dbProcess = [] := by
      rw [h.conv]
      rfl
    refine ⟨(@wired_inductive env ini db t ht).init s h, ?_, ?_,
      ?_⟩
    · intro w p hp
      simp [hnone] at hp
    · intro n _
      rw [h.db]
    · intro σ _
      rw [h.db]
      exact h.pending σ
  step s a s' := by
    rintro ⟨hstep, hguard⟩ ⟨hw, h⟩
    have hw' := (wired_inductive ht).step s a s' hstep hw
    refine ⟨hw', ?_⟩
    cases hstep with
    | initFails | openFails | configure | startCrashes | start | poll | pass | moved
    | workerCrashes | exit => exact h.goto rfl
    | move => exact h.goto rfl
    | @make job jobs ret conv hm hnew =>
      obtain ⟨dbsession, hs, -, hp⟩ := newDBProcess_eq hnew
      obtain ⟨rest, hjobs', hmain⟩ := hw.jobs
      have hrest : rest = some job :: jobs := hmain _ (by rw [hm]; rfl)
      have hmem : some job ∈ t.jobs := by simp [hjobs', hrest]
      have hnew : ∀ p ∈ s.conv.m_dbProcess,
          p.m_dbmanager ≠ dbsession ∧ ∀ n ∈ job.own, n ∉ p.job.own := by
        intro p hmemp
        obtain ⟨i, hi⟩ := List.mem_iff_getElem?.1 hmemp
        have hlt := (List.getElem?_eq_some_iff.1 hi).1
        obtain ⟨h₁, h₂⟩ := hw'.apart ht hd (i := i) (j := s.conv.m_dbProcess.length) (p := p)
          (q := ⟨job, dbsession⟩) (by simp [hp, List.getElem?_append_left hlt, hi]) (by simp [hp])
          (by omega)
        exact ⟨h₁, fun n hn hn' => h₂ n hn' hn⟩
      exact h.make hp (fun p hmemp => (hnew p hmemp).1) (fun p hmemp => (hnew p hmemp).2)
        (hjobs job hmem)
    | @call w p c k r v hm hp hprog hcall =>
      exact h.call (fun hq hne => (hw.apart ht hd hq hp hne)) hp hprog hcall (hguard p hp)

end

/-! ## A worker that runs alone -/

/-- The calls of a program and the responses it gets, from one view to another. -/
inductive Trace (env : Env) : Work Exit → View → List (Sigma fun c => Option (Reply c)) →
    Work Exit → View → Prop
  | nil {p : Work Exit} {v : View} : Trace env p v [] p v
  | cons {c : Call} {k : Option (Reply c) → Work Exit} {r : Option (Reply c)} {v v' v'' : View}
      {calls : List (Sigma fun c => Option (Reply c))} {p : Work Exit} : v.Step env c r v' →
      Trace env (k r) v' calls p v'' → Trace env (.call c k) v (⟨c, r⟩ :: calls) p v''

/-- The calls of a worker as a run of the converter. -/
theorem Trace.run (C : Contract) {env : Env} (ini : IniFile) (db : Db) {s : State} {w : Nat}
    {p : DBProcess} {q : Work Exit} {v : View} {calls : List (Sigma fun c => Option (Reply c))}
    (h : Trace env (s.prog w) (s.db.view p.m_dbmanager) calls q v) (hm : s.main ≠ .crashed)
    (hp : s.conv.m_dbProcess[w]? = some p) (hmay : ∀ x ∈ calls, C.may p.job x.1 x.2) :
    ((system env ini db).restrict C.Guard).Run s (calls.map fun x => .call w x.1 x.2) { s with
      prog := Function.update s.prog w q
      db := s.db.put p.m_dbmanager v } := by
  generalize hprog : s.prog w = q₀ at h
  generalize hview : s.db.view p.m_dbmanager = v₀ at h
  induction h generalizing s with
  | nil =>
    have hs : s = { s with
        prog := Function.update s.prog w (s.prog w)
        db := s.db.put p.m_dbmanager (s.db.view p.m_dbmanager) } := by
      rw [Function.update_eq_self, Db.put]
      simp only [Db.view, Function.update_eq_self]
    rw [← hprog, ← hview, ← hs]
    exact .nil s
  | @cons c k r v v' v'' calls q hstep _ ih =>
    subst hview
    refine .cons ⟨.call hm hp hprog hstep, ?_⟩ ?_
    · intro p' hp'
      obtain rfl := Option.some.inj (hp.symm.trans hp')
      exact hmay ⟨c, r⟩ List.mem_cons_self
    · have hrest := @ih { s with
          prog := Function.update s.prog w (k r)
          db := s.db.put p.m_dbmanager v' } hm hp (fun x hx => hmay x (List.mem_cons_of_mem _ hx))
        (Function.update_self ..) (by simp [Db.put, Db.view])
      simpa only [Db.put, Function.update_idem] using hrest

end TelecomSuite.Convert
