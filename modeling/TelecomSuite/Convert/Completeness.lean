import TelecomSuite.Convert.Backup

/-!
# Completeness

`run` returns true when every worker has set its `m_flag`, and a worker sets it whatever its
conversion returned. So the result says nothing by itself: a conversion that stopped at an exception
or at an empty source table counts as well (`ThrownCount.not_complete`). It means that the tables
are complete when no call on the way throws, every source but the last of each worker has a row, and
the key lists of peer tables name columns (`run_true_complete`).
-/

namespace TelecomSuite.Convert

open Resumption Prog Transition

/-- The INSERT that a conversion makes of a row of a SELECT for the table `T`. -/
def Renders (T : String) (sql : List Field → Option String) : Prop :=
  ∃ v_type, sql = insertSql T v_type ∨ ∃ col_orcl, sql = insertSqlAnother T col_orcl v_type

/-- The table holds, committed, for each row of its source the row stored by its INSERT, once and
in order, and nothing else. -/
def Complete (env : Env) (tables : String → Option (List Row)) (p : Pair) : Prop :=
  ∃ q sql, q.table = p.sy ∧ Renders p.orcl sql ∧ ∃ rows, tables p.orcl = some rows ∧
    (env.sybase p.sy).map (fun r => sql (env.project q r)) = rows.map some

/-- Only the table itself counts. -/
theorem Complete.congr {env : Env} {tables tables' : String → Option (List Row)} {p : Pair}
    (h : Complete env tables p) (heq : tables' p.orcl = tables p.orcl) :
    Complete env tables' p := by
  obtain ⟨q, sql, hq, hsql, rows, hrows, hmap⟩ := h
  exact ⟨q, sql, hq, hsql, rows, heq.trans hrows, hmap⟩

/-- The tables of a worker with their sources. -/
def Job.entries (job : Job) : List Pair := job.peers.map (fun p => ⟨p.orcl, p.sy⟩) ++ job.pairs

/-- The Oracle tables of a job are those of its entries. -/
theorem Job.orclNames_eq (job : Job) : job.orclNames = job.entries.map Pair.orcl := by
  simp [Job.orclNames, Job.entries]

/-- No call throws that would end a conversion, a SELECT fits its buffer, and the key list of a peer
table names columns of its source. -/
def Succeeds (job : Job) : (c : Call) → Option (Reply c) → Prop
  | .getColTypeSy tabname, r => ∀ v_type_sy : List Tabtype, r = some v_type_sy →
      ∀ p ∈ job.peers, p.sy = tabname → Resolves v_type_sy p.col_sy
  | .getColType _, _ => True
  | .select q, r => q.Fits ∧ r.isSome
  | .countBak _, r | .dropBak _, r | .createBak _, r | .truncate _, r | .eof, r | .fetchNext, r
  | .getFields _, r | .insert .., r | .commit, r => r.isSome

/-- The conversions are complete when the worker is done. -/
def completes (env : Env) : Contract where
  may := Succeeds
  always _ _ := True
  post job v e := e = .crashed ∨ ∀ p ∈ job.entries, Complete env v.tables p

/-- A call in a `try` block. -/
def Call.Tried : Call → Prop
  | .getColTypeSy _ | .getColType _ => False
  | .countBak _ | .dropBak _ | .createBak _ | .truncate _ | .select _ | .eof | .fetchNext
  | .getFields _ | .insert .. | .commit => True

/-- A call in a `try` block does not succeed by throwing. -/
theorem Succeeds.ne_none {job : Job} {c : Call} (hc : c.Tried) : ¬ Succeeds job c none := by
  cases c with
  | getColTypeSy | getColType => exact hc.elim
  | select => exact fun h => nomatch h.2
  | countBak | dropBak | createBak | truncate | eof | fetchNext | getFields | insert | commit =>
    exact fun h => nomatch h

section
variable {env : Env} {job : Job} {T : String} {v₀ v : View} {c : Call}

/-- A call on the table of the worker's that it works on, which succeeds. -/
theorem wp_succeeds {k : Reply c → Work Bool} {Post : View → Bool → Prop} (hT : T ∈ job.orclNames)
    (hc : c.On T) (ht : c.Tried) (hv : Others T v₀ v)
    (hk : ∀ a v', v.exec c = some v' → Others T v₀ v' → env.Answers c a → Succeeds job c (some a) →
      (k a).wp ((completes env).step env job) ((completes env).ok job) Post v') :
    (attempt c k).wp ((completes env).step env job) ((completes env).ok job) Post v := by
  refine wp_attempt ⟨hc.names_own hT, ?_, trivial⟩
    (fun v' hs => absurd hs.2 (Succeeds.ne_none ht)) ?_
  · intro p hp
    rw [hv.pending p hp]
    exact List.mem_append_left _ hT
  · intro a v' hs
    obtain ⟨hstep, hmay⟩ := hs
    cases hstep with
    | replies ha he => exact hk a v' he (hv.exec hc he) ha hmay

/-- The rows inserted into the table since it was truncated, committed or not. -/
structure Inserted (T : String) (rows : List Row) (v : View) : Prop where
  committed : ∃ cs, v.tables T = some cs ∧ cs ++ v.pendingOf T = rows

/-- `droptable` comes to its end. -/
theorem droptable_succeeds (hT : T ∈ job.orclNames) (hv : Others T v₀ v) :
    (droptable T).wp ((completes env).step env job) ((completes env).ok job)
      (fun v' b => b = true ∧ Others T v₀ v') v := by
  refine wp_succeeds hT trivial trivial hv ?_
  intro count v₁ _ hv₁ _ _
  split
  · exact wp_succeeds hT rfl trivial hv₁ fun _ v₂ _ hv₂ _ _ =>
      wp_succeeds hT rfl trivial hv₂ fun _ v₃ _ hv₃ _ _ => ⟨rfl, hv₃⟩
  · exact wp_succeeds hT rfl trivial hv₁ fun _ v₂ _ hv₂ _ _ => ⟨rfl, hv₂⟩

/-- One row more is inserted. -/
theorem Inserted.insert {rows : List Row} {text : String} {v' : View} (h : Inserted T rows v)
    (he : v.exec (.insert T text) = some v') : Inserted T (rows ++ [text]) v' := by
  obtain ⟨cs, hcs, hrows⟩ := h.committed
  obtain ⟨-, rfl⟩ := Option.ite_none_right_eq_some.1 he |>.imp id Option.some.inj
  refine ⟨cs, hcs, ?_⟩
  simp [← hrows, View.pendingOf]

/-- A commit makes the rows part of the table. -/
theorem Inserted.commit {rows : List Row} (h : Inserted T rows v) :
    Inserted T rows v.commit ∧ v.commit.tables T = some rows := by
  obtain ⟨cs, hcs, hrows⟩ := h.committed
  have htable : v.commit.tables T = some rows := by simp [View.commit, hcs, hrows]
  exact ⟨⟨rows, htable, by simp [View.pendingOf, View.commit]⟩, htable⟩

/-- The row loop stores a row for each row it gets. -/
theorem insertRows_succeeds (hT : T ∈ job.orclNames) (sql : List Field → Option String)
    (rows : List (List Field)) (index : Nat) {done : List Row} (hv : Others T v₀ v)
    (hdone : Inserted T done v) :
    (insertRows T sql rows index).wp ((completes env).step env job) ((completes env).ok job)
      (fun v' b => b = true ∧ Others T v₀ v' ∧ v'.pending = [] ∧ ∃ new,
        v'.tables T = some (done ++ new) ∧ rows.map sql = new.map some) v := by
  induction rows generalizing v index done with
  | nil =>
    refine wp_succeeds hT trivial trivial hv ?_
    intro _ v₁ he _ _ _
    cases he
    refine wp_succeeds hT trivial trivial hv ?_
    intro _ v₂ he hv₂ _ _
    cases he
    exact ⟨rfl, hv₂, rfl, [], by simpa using hdone.commit.2, rfl⟩
  | cons row rows ih =>
    refine wp_succeeds hT trivial trivial hv ?_
    intro _ v₁ he _ _ _
    cases he
    refine wp_succeeds hT trivial trivial hv ?_
    intro _ v₂ he _ _ _
    cases he
    refine wp_succeeds hT trivial trivial hv ?_
    intro _ v₃ he _ _ _
    obtain ⟨henough, rfl⟩ := Option.ite_none_right_eq_some.1 he |>.imp id Option.some.inj
    obtain ⟨text, htext⟩ := Option.isSome_iff_exists.1 henough
    rw [htext]
    refine wp_succeeds hT rfl trivial hv ?_
    intro _ v₄ he hv₄ _ _
    have hdone' := hdone.insert he
    have hpost : ∀ v' b, (b = true ∧ Others T v₀ v' ∧ v'.pending = [] ∧ ∃ new,
        v'.tables T = some (done ++ [text] ++ new) ∧ rows.map sql = new.map some) →
        b = true ∧ Others T v₀ v' ∧ v'.pending = [] ∧ ∃ new,
          v'.tables T = some (done ++ new) ∧ (row :: rows).map sql = new.map some := by
      rintro v' b ⟨hb, hv', hidle, new, hnew, hmap⟩
      exact ⟨hb, hv', hidle, text :: new, by simp [hnew], by simp [htext, hmap]⟩
    split
    · refine wp_succeeds hT trivial trivial hv₄ ?_
      intro _ v₅ he hv₅ _ _
      cases he
      exact wp_mono (ih 0 hv₅ hdone'.commit.1) hpost
    · exact wp_mono (ih (index + 1) hv₄ hdone') hpost

/-- The conversion of a table stops only at an empty source, and fills the table from its source. -/
theorem convertTable_succeeds (hT : T ∈ job.orclNames) (hidle : v₀.pending = []) (q : Select)
    {sql : List Field → Option String} (hsql : Renders T sql) :
    (convertTable T q sql).wp ((completes env).step env job) ((completes env).ok job)
      (fun v b => Others T v₀ v ∧ v.pending = [] ∧ Complete env v.tables ⟨T, q.table⟩ ∧
        (b = false → env.sybase q.table = [])) v₀ := by
  have hstart : Others T v₀ v₀ := ⟨fun _ _ _ => rfl, by simp [hidle]⟩
  refine wp_bind (droptable_succeeds hT hstart) ?_
  intro v b hb
  obtain ⟨rfl, hv⟩ := hb
  refine wp_succeeds hT rfl trivial hv ?_
  intro _ v₁ he hv₁ _ _
  have hempty : v₁.tables T = some [] ∧ v₁.pending = [] := by
    obtain ⟨-, rfl⟩ := Option.ite_none_right_eq_some.1 he |>.imp id Option.some.inj
    exact ⟨Function.update_self _ _ _, rfl⟩
  refine wp_succeeds hT trivial trivial hv₁ fun (rows : List (List Field)) v₂ he _ hrows hfits => ?_
  cases he
  have hrows' : rows = (env.sybase q.table).map (env.project q) := hrows hfits.1
  refine wp_succeeds hT trivial trivial hv₁ ?_
  intro _ v₃ he _ _ _
  cases he
  by_cases hnil : rows = []
  · have hsource : env.sybase q.table = [] := by
      rw [hnil] at hrows'
      exact List.map_eq_nil_iff.1 hrows'.symm
    rw [if_pos hnil]
    exact ⟨hv₁, hempty.2, ⟨q, sql, rfl, hsql, [], hempty.1, by simp [hsource]⟩, fun _ => hsource⟩
  · rw [if_neg hnil]
    have hdone : Inserted T [] v₁ := ⟨[], hempty.1, by simp [View.pendingOf, hempty.2]⟩
    refine wp_mono (insertRows_succeeds hT sql rows 0 hv₁ hdone) ?_
    intro v b hb
    obtain ⟨rfl, hv', hp, new, hnew, hmap⟩ := hb
    refine ⟨hv', hp, ⟨q, sql, rfl, hsql, new, hnew, ?_⟩, fun htrue => absurd htrue.symm
      Bool.false_ne_true⟩
    rw [hrows', List.map_map] at hmap
    exact hmap

/-- What a worker knows before its next table: every other one is left or complete, and only the
last source may be empty. -/
structure Remaining (env : Env) (job : Job) (left : List Pair) (v : View) : Prop where
  nodup : job.own.Nodup
  mem : ∀ p ∈ left, p ∈ job.entries
  idle : v.pending = []
  sources : ∀ p ∈ left.dropLast, env.sybase p.sy ≠ []
  complete : ∀ p ∈ job.entries, p ∈ left ∨ Complete env v.tables p

/-- The tables that are left belong to the job. -/
theorem Remaining.orcl_mem {p : Pair} {left : List Pair} (h : Remaining env job (p :: left) v) :
    p.orcl ∈ job.orclNames := by
  rw [Job.orclNames_eq]
  exact List.mem_map_of_mem (h.mem p List.mem_cons_self)

/-- After the conversion of a table. -/
theorem Remaining.tail {p : Pair} {left : List Pair} (h : Remaining env job (p :: left) v₀)
    (hv : Others p.orcl v₀ v) (hidle : v.pending = []) (hp : Complete env v.tables p) :
    Remaining env job left v := by
  refine ⟨h.nodup, fun p' hp' => h.mem p' (List.mem_cons_of_mem p hp'), hidle, ?_,
    ?_⟩
  · intro p' hp'
    cases left with
    | nil => cases hp'
    | cons p'' left => exact h.sources p' (List.mem_cons_of_mem p hp')
  · intro p' hp'
    by_cases heq : p' = p
    · exact .inr (heq ▸ hp)
    · refine (h.complete p' hp').imp (fun hleft => (List.mem_cons.1 hleft).resolve_left heq)
        ?_
      intro hcomplete
      -- the table is neither the one converted nor its backup
      have hsplit := List.nodup_append.1 h.nodup
      have hmem' : p'.orcl ∈ job.orclNames := by
        rw [Job.orclNames_eq]
        exact List.mem_map_of_mem hp'
      have hne : p'.orcl ≠ p.orcl := by
        have hnames := hsplit.1
        rw [Job.orclNames_eq] at hnames
        exact fun he => heq (List.inj_on_of_nodup_map hnames hp' (h.mem p List.mem_cons_self) he)
      have hbak : p'.orcl ≠ bak p.orcl :=
        hsplit.2.2 _ hmem' _ (List.mem_map_of_mem h.orcl_mem)
      exact hcomplete.congr (hv.tables _ hne hbak)

/-- One table of the loop of either function, and the rest of the loop. -/
theorem table_succeeds {p : Pair} {left : List Pair} {rest : Work Exit} {q : Select}
    (h : Remaining env job (p :: left) v) (hq : q.table = p.sy)
    (hrest : ∀ v', Remaining env job left v' → (completes env).Keeps env job v' rest)
    {sql : List Field → Option String} (hsql : Renders p.orcl sql) :
    (completes env).Keeps env job v
      (do if ← convertTable p.orcl q sql then rest else return .returned false) := by
  refine wp_bind (convertTable_succeeds h.orcl_mem h.idle q hsql) ?_
  intro v' b hb
  obtain ⟨hv', hidle, hcomplete, hstop⟩ := hb
  rw [hq] at hcomplete hstop
  have htail := h.tail hv' hidle hcomplete
  cases b with
  | true => exact hrest v' htail
  | false =>
    have hlast : left = [] := by
      cases left with
      | nil => rfl
      | cons p' left => exact absurd (hstop rfl) (h.sources p List.mem_cons_self)
    subst hlast
    exact ⟨.inr fun p' hp' => (htail.complete p' hp').resolve_left List.not_mem_nil, trivial⟩

/-- The queries for the columns do not end the conversion. -/
theorem columns_succeeds {p : Pair} {left : List Pair}
    (h : Remaining env job (p :: left) v) {k : List Tabtype → List Tabtype → Work Exit}
    (hk : ∀ v_type_sy v_type, Succeeds job (.getColTypeSy p.sy) (some v_type_sy) →
      (completes env).Keeps env job v (k v_type_sy v_type)) :
    (completes env).Keeps env job v (columns p.sy p.orcl k) := by
  refine wp_columns ?_ ?_ ⟨.inl rfl, trivial⟩
    fun v_type_sy v_type hs => hk v_type_sy v_type hs.2
  · intro c hc
    rcases hc with rfl | rfl <;> exact ⟨by simp [Call.names], by simp [h.idle], trivial⟩
  · intro c r v' hc hs
    rcases hs.1.effect with he | ⟨rfl, -⟩
    · rcases hc with rfl | rfl <;> exact (Option.some.inj he).symm
    · rfl

/-- The conversion returns `true` when no table is left. -/
theorem Remaining.done (h : Remaining env job [] v) :
    (completes env).Keeps env job v (.ret (.returned true)) :=
  ⟨.inr fun p hp => (h.complete p hp).resolve_left List.not_mem_nil, trivial⟩

/-- `ConversionStart` completes the tables of its list. -/
theorem conversionStart_succeeds (ps : List Pair) (h : Remaining env job ps v) :
    (completes env).Keeps env job v (conversionStart ps) := by
  induction ps generalizing v with
  | nil => exact h.done
  | cons p ps ih =>
    refine columns_succeeds h ?_
    intro v_type_sy v_type _
    cases hq : makesql v_type v_type_sy p.sy with
    | none => exact ⟨.inl rfl, trivial⟩
    | some q => exact table_succeeds h (makesql_table hq) (fun v' hv' => ih hv') ⟨v_type, .inl rfl⟩

/-- So does `ConversionStartAnother`. -/
theorem conversionStartAnother_succeeds (ps : List Peer) (hps : ∀ p ∈ ps, p ∈ job.peers)
    (h : Remaining env job (ps.map fun p => ⟨p.orcl, p.sy⟩) v) :
    (completes env).Keeps env job v (conversionStartAnother ps) := by
  induction ps generalizing v with
  | nil => exact h.done
  | cons p ps ih =>
    refine columns_succeeds h ?_
    intro v_type_sy v_type hs
    have hresolves : Resolves v_type_sy p.col_sy :=
      hs v_type_sy rfl p (hps p List.mem_cons_self) rfl
    rcases makesqlSec_of_resolves v_type p.sy hresolves with hq | ⟨exprs, hq⟩
    · simp only [hq]
      exact ⟨.inl rfl, trivial⟩
    · simp only [hq]
      exact table_succeeds h rfl
        (fun v' hv' => ih (fun p' hp' => hps p' (List.mem_cons_of_mem p hp')) hv')
        ⟨v_type, .inr ⟨p.col_orcl, rfl⟩⟩

/-- A worker alone completes its tables. -/
theorem completes_fulfils {db : Db} (hnodup : job.own.Nodup)
    (hsources : ∀ p ∈ job.entries.dropLast, env.sybase p.sy ≠ []) :
    (completes env).Fulfils env db job := by
  have hleft : Remaining env job job.entries (View.mask job.own ⟨db.tables, []⟩) :=
    ⟨hnodup, fun _ hp => hp, rfl, hsources, fun _ hp => .inl hp⟩
  cases job with
  | plain => exact conversionStart_succeeds _ hleft
  | peer =>
    refine conversionStartAnother_succeeds _ (fun _ hp => hp) ?_
    simpa [Job.entries, Job.pairs] using hleft

end

/-! ## All workers -/

/-- The table pairs that `get_tabname` accepted. -/
def Tables.entries (t : Tables) : List Pair :=
  List.zipWith .mk t.m_tab_orcl t.m_tab_sy ++ List.zipWith .mk t.m_tabname_oracl t.m_tabname_sy

/-- `start_dbprocess` makes a worker for each of the two lists that is not empty. It makes none for
a negative `PERCOUNT` that is not below all counts. -/
def Tables.Starts (t : Tables) : Prop :=
  ∀ n : Nat, n = t.m_tab_sy.length ∨ n = t.m_tabname_sy.length → n ≠ 0 →
    0 < processCount n t.m_count

section
variable {env : Env} {ini : IniFile} {db : Db} {t : Tables} {s : State}

/-- The entries are the peer tables and the others. -/
theorem entries_of (per : Int) (pairs : List Pair) (peers : List Peer) :
    (Tables.of per pairs peers).entries = peers.map (fun p => ⟨p.orcl, p.sy⟩) ++ pairs := by
  simp [Tables.entries, Tables.of, List.zipWith_map, List.zipWith_self]

/-- Every pair is some worker's. -/
theorem exists_job (ht : getTabname ini = some t) (hstarts : t.Starts)
    (hjobs : none ∉ t.jobs) {p : Pair} (hp : p ∈ t.entries) :
    ∃ job, some job ∈ t.jobs ∧ p ∈ job.entries := by
  obtain ⟨pairs, peers, ht'⟩ := exists_getTabname ini
  rw [ht'] at ht
  cases ht
  generalize ini.readInt "System" "PerCount" 3 = per at *
  have hper : per ≠ 0 := by
    rintro rfl
    refine hjobs ?_
    rw [entries_of] at hp
    have hne : peers ≠ [] ∨ pairs ≠ [] :=
      (List.mem_append.1 hp).imp (fun h he => by simp [he] at h) List.ne_nil_of_mem
    simpa [Tables.jobs, Tables.loop, Tables.of] using hne
  have hpeers := flatten_pieces_of_pos (l := peers) hper (hstarts _ (.inl (by simp [Tables.of])))
  have hpairs := flatten_pieces_of_pos (l := pairs) hper (hstarts _ (.inr (by simp [Tables.of])))
  rw [jobs_eq pairs peers hper]
  rw [entries_of, ← hpeers, ← hpairs] at hp
  rcases List.mem_append.1 hp with hp | hp
  · obtain ⟨p', hp', rfl⟩ := List.mem_map.1 hp
    obtain ⟨c, hc, hp'⟩ := List.mem_flatten.1 hp'
    refine ⟨.ofPeers c, ?_, ?_⟩
    · exact List.mem_map_of_mem (List.mem_append_left _ (List.mem_map_of_mem hc))
    · simpa [Job.entries] using ⟨p', hp', rfl, rfl⟩
  · obtain ⟨c, hc, hp'⟩ := List.mem_flatten.1 hp
    refine ⟨.ofPairs c, ?_, ?_⟩
    · exact List.mem_map_of_mem (List.mem_append_right _ (List.mem_map_of_mem hc))
    · simpa [Job.entries] using hp'

/-- **When `run` means completeness.** For distinct tables and backups and sources that are not
empty (but for the last one of a worker): in every interleaving in which no call throws that would
end a conversion, every SELECT fits its buffer and every key list names columns, when `run` has
returned true every accepted table holds, committed, exactly one row for each row of its source. -/
theorem run_true_complete (ht : getTabname ini = some t) (hd : t.Distinct) (hstarts : t.Starts)
    (hsources : ∀ job, some job ∈ t.jobs → ∀ p ∈ job.entries.dropLast, env.sybase p.sy ≠ [])
    (hs : ((system env ini db).restrict (completes env).Guard).Reachable s)
    (hret : s.main = .returned true) : ∀ p ∈ t.entries, Complete env s.db.tables p := by
  intro p hp
  obtain ⟨hw, hk⟩ := (worked_inductive ht hd fun job hjob =>
    completes_fulfils (own_nodup_of_mem ht hd hjob) (hsources job hjob)).reachable hs
  -- all workers have been made, and all have set their flags
  have hjobs : t.jobs = s.conv.m_dbProcess.map fun p => some p.job := by
    obtain ⟨rest, hjobs, hrest⟩ := hw.jobs
    have hnil : rest = [] := hrest [] (by rw [hret]; rfl)
    rw [hjobs, hnil, List.append_nil]
  obtain ⟨job, hjob, hmem⟩ := exists_job ht hstarts (by simp [hjobs]) hp
  rw [hjobs] at hjob
  obtain ⟨q, hq, hqjob⟩ := List.mem_map.1 hjob
  obtain rfl := Option.some.inj hqjob
  obtain ⟨w, hwq⟩ := List.mem_iff_getElem?.1 hq
  have hlt := (List.getElem?_eq_some_iff.1 hwq).1
  have hseen := hw.seen
  rw [hret] at hseen
  obtain ⟨b, hb⟩ := hw.done w hlt (hseen w hlt)
  have hkeeps := hk.keeps w q hwq
  rw [hb] at hkeeps
  have hcomplete := hkeeps.1.resolve_left nofun p hmem
  have hown : p.orcl ∈ q.job.own := by
    refine List.mem_append_left _ ?_
    rw [Job.orclNames_eq]
    exact List.mem_map_of_mem hmem
  exact hcomplete.congr (if_pos hown).symm

end

/-! ## Runs with one table -/

namespace OneTable

/-- The steps of a run in which the worker makes these calls. -/
def labels (calls : List (Sigma fun c => Option (Reply c))) : List Label :=
  [.opened true, .make] ++ calls.map (fun x => .call 0 x.1 x.2) ++
    [.exit 0, .start, .poll, .pass, .move, .moved]

/-- However the conversion ends, the worker sets its flag and `run` returns true. -/
theorem run_returns (C : Contract) {calls : List (Sigma fun c => Option (Reply c))} {b : Bool}
    {v : View} (h : Trace env (working.prog 0) (working.db.view 0) calls (.ret (.returned b)) v)
    (hmay : ∀ x ∈ calls, C.may job x.1 x.2) :
    ∃ s, ((system env (plainFile 1) db).restrict C.Guard).Run start (labels calls) s ∧
      s.main = .returned true ∧ s.db.tables = v.tables := by
  have hrun := (start_run C).append (h.run C (plainFile 1) db (p := ⟨job, 0⟩) nofun rfl hmay)
  exact ⟨_, hrun.append (.cons ⟨.exit nofun (Nat.lt_succ_self 0)
    rfl, trivial⟩ (.cons ⟨.start rfl, trivial⟩
    (.cons ⟨.poll rfl (Nat.lt_succ_self 0), trivial⟩ (.cons ⟨.pass rfl rfl, trivial⟩
    (.cons ⟨.move rfl (Nat.lt_succ_self 0) rfl, trivial⟩
    (.cons ⟨.moved rfl (Nat.lt_irrefl 1), trivial⟩ (.nil _))))))), rfl, rfl⟩

/-- The SELECT of the table. -/
def q : Select := ⟨[" a "], T⟩

/-- The INSERT of its row. -/
def text : String := "insert into " ++ T ++ " values ( " ++ " " ++ " TRIM('x ')  ) "

/-- A conversion without failures. -/
def calls : List (Sigma fun c => Option (Reply c)) :=
  [⟨.getColTypeSy T, some [⟨"a", "char"⟩]⟩, ⟨.getColType T, some [⟨"A", "CHAR"⟩]⟩,
    ⟨.countBak T, some (0 : Int)⟩, ⟨.createBak T, some ()⟩, ⟨.truncate T, some ()⟩,
    ⟨.select q, some [[⟨"x", "0.000000"⟩]]⟩, ⟨.eof, some ()⟩, ⟨.eof, some ()⟩,
    ⟨.fetchNext, some ()⟩, ⟨.getFields true, some ()⟩, ⟨.insert T text, some ()⟩,
    ⟨.eof, some ()⟩, ⟨.commit, some ()⟩]

/-- The calls of the worker, to its end. -/
theorem calls_trace : ∃ v, Trace env (working.prog 0) (working.db.view 0) calls
    (.ret (.returned true)) v := by
  refine ⟨_, .cons (.replies (List.prefix_refl _) rfl) (.cons (.replies (List.prefix_refl _) rfl)
    (.cons (.replies trivial rfl) (.cons (.replies trivial rfl) (.cons (.replies trivial rfl)
    (.cons (.replies (fun _ => rfl) rfl) (.cons (.replies trivial rfl) (.cons (.replies trivial rfl)
    (.cons (.replies trivial rfl) (.cons (.replies trivial rfl) (.cons (.replies trivial rfl)
    (.cons (.replies trivial rfl) (.cons (.replies trivial rfl) .nil))))))))))))⟩

/-- All of them succeed. -/
theorem calls_succeed : ∀ x ∈ calls, Succeeds job x.1 x.2 := by
  have hfits : q.Fits := by
    show _ < _
    decide
  simp only [calls, List.forall_mem_cons, Succeeds, job, Job.peers, hfits]
  exact ⟨fun _ _ _ hp => absurd hp List.not_mem_nil, trivial, rfl, rfl, rfl, ⟨trivial, rfl⟩, rfl,
    rfl, rfl, rfl, rfl, rfl, rfl, fun _ hx => absurd hx List.not_mem_nil⟩

/-- The theorem above on a conversion of one row. -/
theorem run_true_complete_oneRow : ∃ s,
    ((system env (plainFile 1) db).restrict (completes env).Guard).Reachable s ∧
      s.main = .returned true ∧ ∀ p ∈ tables.entries, Complete env s.db.tables p := by
  obtain ⟨v, htrace⟩ := calls_trace
  obtain ⟨s, hrun, hret, -⟩ := run_returns (completes env) htrace calls_succeed
  have hreach : ((system env (plainFile 1) db).restrict (completes env).Guard).Reachable s :=
    ⟨start, _, start_initial, hrun⟩
  refine ⟨s, hreach, hret, run_true_complete getTabname_tables tables_distinct ?_ ?_ hreach hret⟩
  · rintro n (rfl | rfl) hn
    · exact absurd rfl hn
    · decide
  · intro job' hjob p hp
    rw [tables_jobs, List.mem_singleton, Option.some.injEq] at hjob
    subst hjob
    cases hp

end OneTable

/-- The text of an INSERT. -/
theorem renders_length {T : String} {sql : List Field → Option String} {row : List Field}
    {text : String} (h : Renders T sql) (ht : sql row = some text) : 12 ≤ text.length := by
  have hinsert : "insert into ".length = 12 := by decide
  obtain ⟨v_type, rfl | ⟨col_orcl, rfl⟩⟩ := h
  · obtain ⟨tmp_str, -, htext⟩ := Option.bind_eq_some_iff.1 ht
    cases htext
    simp only [String.length_append]
    omega
  · obtain ⟨tmp_str, -, htext⟩ := Option.bind_eq_some_iff.1 ht
    cases htext
    simp only [String.length_append]
    omega

/-! ## An exception in `droptable` -/

namespace ThrownCount

open OneTable

/-- The count of `all_tables` throws. The conversion returns false and the worker sets its flag:
`run` returns true, and the table still holds its old row. -/
theorem not_complete : ¬ ∀ s, (system env (plainFile 1) db).Reachable s → s.main = .returned true →
    ∀ p ∈ tables.entries, Complete env s.db.tables p := by
  intro hall
  have htrace : Trace env (working.prog 0) (working.db.view 0)
      [⟨.getColTypeSy T, some [⟨"a", "char"⟩]⟩, ⟨.getColType T, some [⟨"A", "CHAR"⟩]⟩,
        ⟨.countBak T, none⟩] (.ret (.returned false)) (working.db.view 0) :=
    .cons (.replies (List.prefix_refl _) rfl) (.cons (.replies (List.prefix_refl _) rfl)
      (.cons .throws .nil))
  obtain ⟨s, hrun, hret, htables⟩ := run_returns (backup db) htrace fun _ _ => trivial
  obtain ⟨q, sql, -, hsql, rows, hrows, hmap⟩ :=
    hall s ⟨start, _, start_initial, hrun.of_restrict⟩ hret ⟨T, T⟩ (List.mem_singleton.2 rfl)
  rw [htables] at hrows
  obtain rfl : rows = ["old"] := (Option.some.inj hrows).symm
  have hold : sql [⟨"x", "0.000000"⟩] = some "old" := (List.cons.inj hmap).1
  have hlong := renders_length hsql hold
  exact absurd hlong (by decide)

end ThrownCount

end TelecomSuite.Convert
