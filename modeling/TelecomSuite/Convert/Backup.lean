import TelecomSuite.Convert.System

/-!
# Backups

Before a worker truncates a table it makes a copy of it, and after that it leaves the copy alone. So
at every moment, in every interleaving and whatever calls fail, the rows that a configured table
held before the run are in the table or in its backup (`rows_or_backup`), if the configured tables
and their backups are distinct.
-/

namespace TelecomSuite.Convert

open Resumption Prog Transition

/-! ## One table at a time -/

/-- A call on the table `T` or its backup, or on none. -/
def Call.On (T : String) : Call → Prop
  | .dropBak name | .createBak name | .truncate name | .insert name _ => name = T
  | .getColTypeSy _ | .getColType _ | .countBak _ | .select _ | .eof | .fetchNext | .getFields _
  | .commit => True

/-- Nothing but `T` and its backup has changed. -/
structure Others (T : String) (v₀ v : View) : Prop where
  tables : ∀ n, n ≠ T → n ≠ bak T → v.tables n = v₀.tables n
  pending : ∀ p ∈ v.pending, p.1 = T

/-- The backup has a name of its own. -/
theorem bak_ne (T : String) : bak T ≠ T := by
  intro h
  have := congrArg String.length h
  simp [bak, String.length_append] at this

section
variable {T : String} {v₀ v v' : View} {c : Call} {env : Env} {r : Option (Reply c)}

/-- A commit leaves the other tables alone. -/
theorem Others.commit_tables (h : Others T v₀ v) {n : String} (hn : n ≠ T) :
    v.commit.tables n = v.tables n := by
  have hnil : v.pendingOf n = [] := by
    simp only [View.pendingOf, List.map_eq_nil_iff, List.filter_eq_nil_iff, decide_eq_true_eq]
    rintro p hp rfl
    exact hn (h.pending p hp)
  simp [View.commit, hnil]

/-- It changes nothing but the table and its backup. -/
theorem Others.commit (h : Others T v₀ v) : Others T v₀ v.commit where
  tables n hT hbak := (h.commit_tables hT).trans (h.tables n hT hbak)
  pending := nofun

/-- Nor does a new content of one of the two. -/
theorem Others.set (h : Others T v₀ v) {name : String} (hname : name = T ∨ name = bak T)
    (rows : Option (List Row)) : Others T v₀ (v.set name rows) where
  tables n hT hbak := by
    have hne : n ≠ name := by
      rintro rfl
      exact hname.elim hT hbak
    exact (Function.update_of_ne hne _ _).trans (h.tables n hT hbak)
  pending := h.pending

/-- Nor does a call on the table. -/
theorem Others.exec (h : Others T v₀ v) (hc : c.On T) (he : v.exec c = some v') :
    Others T v₀ v' := by
  cases c with
  | dropBak name =>
    cases hc
    obtain ⟨-, rfl⟩ := Option.ite_none_right_eq_some.1 he |>.imp id Option.some.inj
    exact h.commit.set (.inr rfl) _
  | createBak name =>
    cases hc
    obtain ⟨-, rfl⟩ := Option.ite_none_right_eq_some.1 he |>.imp id Option.some.inj
    exact h.commit.set (.inr rfl) _
  | truncate name =>
    cases hc
    obtain ⟨-, rfl⟩ := Option.ite_none_right_eq_some.1 he |>.imp id Option.some.inj
    exact h.commit.set (.inl rfl) _
  | insert name sql =>
    cases hc
    obtain ⟨-, rfl⟩ := Option.ite_none_right_eq_some.1 he |>.imp id Option.some.inj
    refine ⟨h.tables, ?_⟩
    intro p hp
    rcases List.mem_append.1 hp with hp | hp
    · exact h.pending p hp
    · rw [List.mem_singleton.1 hp]
  | commit =>
    cases he
    exact h.commit
  | getFields enough =>
    obtain ⟨-, rfl⟩ := Option.ite_none_right_eq_some.1 he |>.imp id Option.some.inj
    exact h
  | getColTypeSy | getColType | countBak | select | eof | fetchNext =>
    cases he
    exact h

/-- A call is executed, or it throws and nothing has happened. -/
theorem View.Step.effect (h : v.Step env c r v') : v.exec c = some v' ∨ v' = v ∧ r = none := by
  cases h with
  | replies _ he => exact .inl he
  | throws => exact .inr ⟨rfl, rfl⟩
  | throwsAfter he => exact .inl he

end

/-! ## Before and after the copy -/

/-- The table is as it was. -/
structure Untouched (T : String) (v₀ v : View) : Prop extends Others T v₀ v where
  table : v.tables T = v₀.tables T
  idle : v.pending = []

/-- The backup is as the table was. -/
structure Copied (T : String) (v₀ v : View) : Prop extends Others T v₀ v where
  copy : v.tables (bak T) = v₀.tables T

/-- One of the two. -/
def Safe (T : String) (v₀ v : View) : Prop := Untouched T v₀ v ∨ Copied T v₀ v

section
variable {T : String} {v₀ v v' : View} {c : Call} {env : Env} {r : Option (Reply c)}

/-- A session without pending rows has nothing to commit. -/
theorem Untouched.commit_eq (h : Untouched T v₀ v) : v.commit = v := by
  have htables : v.commit.tables = v.tables := by
    funext n
    simp [View.commit, View.pendingOf, h.idle]
  exact congrArg₂ View.mk htables h.idle.symm

/-- Dropping the backup leaves the table as it was. -/
theorem Untouched.drop (h : Untouched T v₀ v) (he : v.exec (.dropBak T) = some v') :
    Untouched T v₀ v' := by
  refine ⟨h.toOthers.exec (c := .dropBak T) rfl he, ?_, ?_⟩
  · obtain ⟨-, rfl⟩ := Option.ite_none_right_eq_some.1 he |>.imp id Option.some.inj
    rw [h.commit_eq]
    exact (Function.update_of_ne (bak_ne T).symm _ _).trans h.table
  · obtain ⟨-, rfl⟩ := Option.ite_none_right_eq_some.1 he |>.imp id Option.some.inj
    rfl

/-- Creating it copies the table. -/
theorem Untouched.create (h : Untouched T v₀ v) (he : v.exec (.createBak T) = some v') :
    Copied T v₀ v' ∧ v'.pending = [] := by
  refine ⟨⟨h.toOthers.exec (c := .createBak T) rfl he, ?_⟩, ?_⟩
  · obtain ⟨-, rfl⟩ := Option.ite_none_right_eq_some.1 he |>.imp id Option.some.inj
    rw [h.commit_eq]
    exact (Function.update_self _ _ _).trans h.table
  · obtain ⟨-, rfl⟩ := Option.ite_none_right_eq_some.1 he |>.imp id Option.some.inj
    rfl

/-- The statements that fill a table leave the backup alone. -/
def Call.Fills (T : String) : Call → Prop
  | .truncate name | .insert name _ => name = T
  | .select _ | .eof | .fetchNext | .getFields _ | .commit => True
  | .getColTypeSy _ | .getColType _ | .countBak _ | .dropBak _ | .createBak _ => False

/-- A call that fills the table is a call on it. -/
theorem Call.Fills.on (h : c.Fills T) : c.On T := by
  cases c <;> first | exact h | trivial

/-- Filling the table leaves the backup alone. -/
theorem Copied.fill (h : Copied T v₀ v) (hc : c.Fills T) (he : v.exec c = some v') :
    Copied T v₀ v' := by
  refine ⟨h.toOthers.exec hc.on he, ?_⟩
  have hcommit : v.commit.tables (bak T) = v₀.tables T :=
    (h.toOthers.commit_tables (bak_ne T)).trans h.copy
  cases c with
  | truncate name =>
    cases hc
    obtain ⟨-, rfl⟩ := Option.ite_none_right_eq_some.1 he |>.imp id Option.some.inj
    exact (Function.update_of_ne (bak_ne T) _ _).trans hcommit
  | insert name sql =>
    obtain ⟨-, rfl⟩ := Option.ite_none_right_eq_some.1 he |>.imp id Option.some.inj
    exact h.copy
  | commit =>
    cases he
    exact hcommit
  | getFields enough =>
    obtain ⟨-, rfl⟩ := Option.ite_none_right_eq_some.1 he |>.imp id Option.some.inj
    exact h.copy
  | select | eof | fetchNext =>
    cases he
    exact h.copy
  | getColTypeSy | getColType | countBak | dropBak | createBak => exact hc.elim

/-- So does a call that may fail, and the commit of its session. -/
theorem Copied.fill_step (h : Copied T v₀ v) (hc : c.Fills T) (hs : v.Step env c r v') :
    Copied T v₀ v' := by
  rcases hs.effect with he | ⟨rfl, -⟩
  · exact h.fill hc he
  · exact h

end

/-! ## A worker -/

/-- Whatever calls throw, the rows of each of the worker's tables are in the table or in its
backup. -/
def backup (db : Db) : Contract where
  may _ _ _ := True
  always job v := ∀ T ∈ job.orclNames, ∀ rows, db.tables T = some rows →
    v.tables T = some rows ∨ v.tables (bak T) = some rows
  post _ _ _ := True

/-- A call on a table of the job names tables of the job only. -/
theorem Call.On.names_own {c : Call} {T : String} {job : Job} (hc : c.On T)
    (hT : T ∈ job.orclNames) : ∀ n ∈ c.names, n ∈ job.own := by
  have hown : T ∈ job.own := List.mem_append_left _ hT
  have hbak : bak T ∈ job.own := List.mem_append_right _ (List.mem_map_of_mem hT)
  intro n hn
  cases c <;> simp only [Call.names, List.mem_cons, List.not_mem_nil, or_false] at hn <;> cases hc
  case dropBak => exact hn ▸ hbak
  case createBak => exact hn.elim (· ▸ hown) (· ▸ hbak)
  case truncate => exact hn ▸ hown
  case insert => exact hn ▸ hown

/-- The next table of a worker, which has not touched it yet. -/
structure Next (db : Db) (job : Job) (T : String) (v₀ : View) : Prop where
  mem : T ∈ job.orclNames
  nodup : job.own.Nodup
  saved : (backup db).always job v₀
  table : v₀.tables T = db.tables T

section
variable {env : Env} {db : Db} {job : Job} {T : String} {v₀ v : View} {c : Call}

/-- Whatever is safe for the next table is what the worker promises always. -/
theorem Next.always (h : Next db job T v₀) (hv : Safe T v₀ v) : (backup db).always job v := by
  have hothers : Others T v₀ v := hv.elim Untouched.toOthers Copied.toOthers
  intro U hU rows hrows
  rcases eq_or_ne U T with rfl | hUT
  · rw [← h.table] at hrows
    exact hv.imp (fun hu => hu.table.trans hrows) fun hc => hc.copy.trans hrows
  · -- neither `U` nor its backup is `T` or its backup
    have hdis := (List.nodup_append.1 h.nodup).2.2
    have hnames := (List.nodup_append.1 h.nodup).2.1
    have h₁ : U ≠ bak T := hdis U hU _ (List.mem_map_of_mem h.mem)
    have h₂ : bak U ≠ T := (hdis T h.mem _ (List.mem_map_of_mem hU)).symm
    have h₃ : bak U ≠ bak T := fun he =>
      hUT (List.inj_on_of_nodup_map hnames hU h.mem he)
    rw [hothers.tables U hUT h₁, hothers.tables (bak U) h₂ h₃]
    exact h.saved U hU rows hrows

/-- So is a call on this table. -/
theorem Next.ok (h : Next db job T v₀) (hc : c.On T) (hv : Safe T v₀ v) :
    (backup db).ok job v c := by
  refine ⟨hc.names_own h.mem, ?_, h.always hv⟩
  intro p hp
  rw [(hv.elim Untouched.toOthers Copied.toOthers).pending p hp]
  exact List.mem_append_left _ h.mem

/-- `droptable` returns true only after the copy. -/
theorem droptable_safe (h : Next db job T v₀) (hv : Untouched T v₀ v) :
    (droptable T).wp ((backup db).step env job) ((backup db).ok job)
      (fun v' b => Safe T v₀ v' ∧ (b = true → Copied T v₀ v' ∧ v'.pending = [])) v := by
  have hcreate : ∀ {v}, Untouched T v₀ v →
      (attempt (.createBak T) fun _ => .ret true).wp ((backup db).step env job)
        ((backup db).ok job)
        (fun v' b => Safe T v₀ v' ∧ (b = true → Copied T v₀ v' ∧ v'.pending = [])) v := by
    intro v hv
    refine wp_attempt (h.ok rfl (.inl hv)) (fun v' hs => ⟨?_, nofun⟩) ?_
    · rcases hs.1.effect with he | ⟨rfl, -⟩
      · exact .inr (hv.create he).1
      · exact .inl hv
    · intro _ v' hs
      have he := hs.1.effect.resolve_right nofun
      exact ⟨.inr (hv.create he).1, fun _ => hv.create he⟩
  refine wp_attempt (h.ok trivial (.inl hv)) (fun v' hs => ⟨?_, nofun⟩) ?_
  · rcases hs.1.effect with he | ⟨rfl, -⟩
    · cases he
      exact .inl hv
    · exact .inl hv
  · intro count v' hs
    cases hs.1.effect.resolve_right nofun
    split
    · refine wp_attempt (h.ok rfl (.inl hv)) (fun v' hs => ⟨?_, nofun⟩) ?_
      · rcases hs.1.effect with he | ⟨rfl, -⟩
        · exact .inl (hv.drop he)
        · exact .inl hv
      · intro _ v' hs
        exact hcreate (hv.drop (hs.1.effect.resolve_right nofun))
    · exact hcreate hv

/-- A call that fills the table leaves the copy alone. -/
theorem wp_fill (h : Next db job T v₀) {k : Reply c → Work Bool} (hc : c.Fills T)
    (hv : Copied T v₀ v)
    (hk : ∀ a v', v.exec c = some v' → Copied T v₀ v' →
      (k a).wp ((backup db).step env job) ((backup db).ok job)
        (fun v' b => Copied T v₀ v' ∧ (b = true → v'.pending = [])) v') :
    (attempt c k).wp ((backup db).step env job) ((backup db).ok job)
      (fun v' b => Copied T v₀ v' ∧ (b = true → v'.pending = [])) v := by
  refine wp_attempt (h.ok hc.on (.inr hv)) (fun v' hs => ⟨hv.fill_step hc hs.1, nofun⟩)
    ?_
  intro a v' hs
  exact hk a v' (hs.1.effect.resolve_right nofun) (hv.fill_step hc hs.1)

/-- The row loop returns true only after a `commit`. -/
theorem insertRows_safe (h : Next db job T v₀) (sql : List Field → Option String)
    (rows : List (List Field)) (index : Nat) (hv : Copied T v₀ v) :
    (insertRows T sql rows index).wp ((backup db).step env job) ((backup db).ok job)
      (fun v' b => Copied T v₀ v' ∧ (b = true → v'.pending = [])) v := by
  induction rows generalizing v index with
  | nil =>
    refine wp_fill h trivial hv fun _ v₁ _ hv₁ => wp_fill h trivial hv₁ fun _ v₂ he hv₂ => ⟨hv₂, ?_⟩
    cases he
    exact fun _ => rfl
  | cons row rows ih =>
    refine wp_fill h trivial hv fun _ v₁ _ hv₁ => wp_fill h trivial hv₁ fun _ v₂ _ hv₂ =>
      wp_fill h trivial hv₂ ?_
    intro _ v₃ _ hv₃
    cases sql row with
    | none => exact ⟨hv₃, nofun⟩
    | some text =>
      refine wp_fill h rfl hv₃ ?_
      intro _ v₄ _ hv₄
      split
      · exact wp_fill h trivial hv₄ fun _ v₅ _ hv₅ => ih 0 hv₅
      · exact ih (index + 1) hv₄

/-- The conversion of a table. -/
theorem convertTable_safe (h : Next db job T v₀) (hidle : v₀.pending = []) (q : Select)
    (sql : List Field → Option String) :
    (convertTable T q sql).wp ((backup db).step env job) ((backup db).ok job)
      (fun v b => Safe T v₀ v ∧ (b = true → v.pending = [])) v₀ := by
  have hstart : Untouched T v₀ v₀ := ⟨⟨fun _ _ _ => rfl, by simp [hidle]⟩, rfl, hidle⟩
  refine wp_bind (droptable_safe h hstart) ?_
  intro v b hb
  cases b with
  | false => exact ⟨hb.1, nofun⟩
  | true =>
    refine wp_mono (wp_fill h rfl (hb.2 rfl).1 ?_) fun v b hv => ⟨.inr hv.1, hv.2⟩
    intro _ v₁ _ hv₁
    refine wp_fill h trivial hv₁ fun rows v₂ _ hv₂ => wp_fill h trivial hv₂ ?_
    intro _ v₃ _ hv₃
    split
    · exact ⟨hv₃, nofun⟩
    · exact insertRows_safe h sql rows 0 hv₃

/-- What a worker knows before its next table: those that are left are as before the run. -/
structure Left (db : Db) (job : Job) (names : List String) (v : View) : Prop where
  nodup : job.own.Nodup
  mem : ∀ T ∈ names, T ∈ job.orclNames
  distinct : names.Nodup
  saved : (backup db).always job v
  idle : v.pending = []
  tables : ∀ T ∈ names, v.tables T = db.tables T

/-- The first of the tables that are left is the next one. -/
theorem Left.next {names : List String} (h : Left db job (T :: names) v) : Next db job T v :=
  ⟨h.mem T List.mem_cons_self, h.nodup, h.saved, h.tables T List.mem_cons_self⟩

/-- After the conversion of a table. -/
theorem Left.tail {names : List String} (h : Left db job (T :: names) v₀) (hv : Safe T v₀ v)
    (hidle : v.pending = []) : Left db job names v := by
  refine ⟨h.nodup, fun U hU => h.mem U (List.mem_cons_of_mem T hU),
    (List.nodup_cons.1 h.distinct).2, h.next.always hv, hidle, ?_⟩
  intro U hU
  have hT : U ≠ T := by
    rintro rfl
    exact (List.nodup_cons.1 h.distinct).1 hU
  have hbak : U ≠ bak T := (List.nodup_append.1 h.nodup).2.2 U
    (h.mem U (List.mem_cons_of_mem T hU)) _ (List.mem_map_of_mem (h.mem T List.mem_cons_self))
  rw [(hv.elim Untouched.toOthers Copied.toOthers).tables U hT hbak]
  exact h.tables U (List.mem_cons_of_mem T hU)

/-- One table of the loop of either function, and the rest of the loop. -/
theorem table_safe {names : List String} {rest : Work Exit} (h : Left db job (T :: names) v)
    (hrest : ∀ v', Left db job names v' → (backup db).Keeps env job v' rest) (q : Select)
    (sql : List Field → Option String) :
    (backup db).Keeps env job v
      (do if ← convertTable T q sql then rest else return .returned false) := by
  refine wp_bind (convertTable_safe h.next h.idle q sql) ?_
  intro v' b hb
  cases b with
  | false => exact ⟨trivial, h.next.always hb.1⟩
  | true => exact hrest v' (h.tail hb.1 (hb.2 rfl))

/-- The column queries before it. -/
theorem columns_safe {names : List String} (h : Left db job (T :: names) v) (sy : String)
    {k : List Tabtype → List Tabtype → Work Exit}
    (hk : ∀ v_type_sy v_type, (backup db).Keeps env job v (k v_type_sy v_type)) :
    (backup db).Keeps env job v (columns sy T k) := by
  have hstart : Safe T v v := .inl ⟨⟨fun _ _ _ => rfl, by simp [h.idle]⟩, rfl, h.idle⟩
  refine wp_columns (fun c hc => h.next.ok ?_ hstart) ?_
    ⟨trivial, h.saved⟩ fun v_type_sy v_type _ => hk v_type_sy v_type
  · rcases hc with rfl | rfl <;> trivial
  · intro c r v' hc hs
    rcases hs.1.effect with he | ⟨rfl, -⟩
    · rcases hc with rfl | rfl <;> exact (Option.some.inj he).symm
    · rfl

/-- `ConversionStart` keeps the rows or their backup, for each table of its list. -/
theorem conversionStart_safe (ps : List Pair) (h : Left db job (ps.map Pair.orcl) v) :
    (backup db).Keeps env job v (conversionStart ps) := by
  induction ps generalizing v with
  | nil => exact ⟨trivial, h.saved⟩
  | cons p ps ih =>
    refine columns_safe h p.sy ?_
    intro v_type_sy v_type
    cases makesql v_type v_type_sy p.sy with
    | none => exact ⟨trivial, h.saved⟩
    | some q => exact table_safe h (fun v' hv' => ih hv') q _

/-- So does `ConversionStartAnother`. -/
theorem conversionStartAnother_safe (ps : List Peer) (h : Left db job (ps.map Peer.orcl) v) :
    (backup db).Keeps env job v (conversionStartAnother ps) := by
  induction ps generalizing v with
  | nil => exact ⟨trivial, h.saved⟩
  | cons p ps ih =>
    refine columns_safe h p.sy ?_
    intro v_type_sy v_type
    cases makesqlSec v_type v_type_sy p.sy p.col_sy with
    | pastEnd => exact ⟨trivial, h.saved⟩
    | wrongColumns => exact ⟨trivial, h.saved⟩
    | select q => exact table_safe h (fun v' hv' => ih hv') q _

/-- A worker alone keeps the rows of its tables. -/
theorem backup_fulfils (hnodup : job.own.Nodup) : (backup db).Fulfils env db job := by
  have htables : ∀ T ∈ job.orclNames,
      (View.mask job.own ⟨db.tables, []⟩).tables T = db.tables T := fun T hT =>
    View.tables_mask (List.mem_append_left _ hT)
  have hleft : Left db job job.orclNames (View.mask job.own ⟨db.tables, []⟩) :=
    ⟨hnodup, fun _ hT => hT, (List.nodup_append.1 hnodup).1,
      fun T hT rows hrows => .inl ((htables T hT).trans hrows), rfl, htables⟩
  cases job with
  | plain => exact conversionStart_safe _ hleft
  | peer =>
    refine conversionStartAnother_safe _ ?_
    simpa [Job.orclNames, Job.pairs] using hleft

end

/-! ## All workers -/

section
variable {env : Env} {ini : IniFile} {db : Db} {t : Tables} {s : State}

/-- **No row is lost without a copy.** In every configuration with distinct tables and backups,
every interleaving and every pattern of failures, the rows that a configured table held before the
run are in the table or in its backup at every moment. -/
theorem rows_or_backup (ht : getTabname ini = some t) (hd : t.Distinct)
    (hs : (system env ini db).Reachable s) {T : String} (hT : T ∈ t.orclNames) {rows : List Row}
    (hrows : db.tables T = some rows) :
    s.db.tables T = some rows ∨ s.db.tables (bak T) = some rows := by
  have hreach : ((system env ini db).restrict (backup db).Guard).Reachable s := by
    refine hs.restrict ?_
    intro s a
    cases a with
    | call => exact fun _ _ => trivial
    | connect | opened | make | start | poll | pass | move | moved | exit => trivial
  obtain ⟨hw, hk⟩ := (worked_inductive ht hd fun job hjob =>
    backup_fulfils (own_nodup_of_mem ht hd hjob)).reachable hreach
  by_cases hown : ∃ p ∈ s.conv.m_dbProcess, T ∈ p.job.own
  · obtain ⟨p, hp, hTp⟩ := hown
    obtain ⟨w, hwp⟩ := List.mem_iff_getElem?.1 hp
    have hnames : ∀ U ∈ p.job.orclNames, U ∈ t.orclNames := fun U hU =>
      (orclNames_sublist ht _ hw.jobs_sublist).subset
        (List.mem_flatMap.2 ⟨p.job, List.mem_map_of_mem hp, hU⟩)
    have hT' : T ∈ p.job.orclNames := by
      rcases List.mem_append.1 hTp with h | h
      · exact h
      · obtain ⟨U, hU, rfl⟩ := List.mem_map.1 h
        exact absurd rfl ((List.nodup_append.1 hd).2.2 _ hT _ (List.mem_map_of_mem (hnames U hU)))
    have hnow : (backup db).always p.job (s.viewOf p) :=
      wp_now (hk.keeps w p hwp) (fun _ _ h => h.2.2) fun _ _ h => h.2
    have hview : ∀ n ∈ p.job.own, (s.viewOf p).tables n = s.db.tables n := fun n hn =>
      View.tables_mask hn
    rw [← hview T hTp, ← hview (bak T) (List.mem_append_right _ (List.mem_map_of_mem hT'))]
    exact hnow T hT' rows hrows
  · left
    rw [hk.tables T fun p hp hTp => hown ⟨p, hp, hTp⟩]
    exact hrows

end

/-! ## A run with one table -/

namespace OneTable

/-- One column and one row on the Sybase side. -/
def env : Env where
  syColumns _ := [⟨"a", "char"⟩]
  orclColumns _ := [⟨"A", "CHAR"⟩]
  sybase _ := [[⟨"x", "0.000000"⟩]]
  project _ row := row

/-- The first table of the configuration. -/
def T : String := tabName 1

/-- A worker with this table. -/
def job : Job := .plain [T] [T]

/-- The table holds a row, and there is no backup. -/
def db : Db := ⟨fun n => if n = T then some ["old"] else none, fun _ => []⟩

/-- The converter before it is started. -/
def start : State := ⟨.initial, .initial, fun _ => .ret (.returned false), fun _ => false, db⟩

/-- The worker is made. -/
def working : State where
  main := .starting [] true
  conv := ⟨List.range' 1 15, [0], [⟨job, 0⟩]⟩
  prog := Function.update start.prog 0 job.program
  m_flag := Function.update start.m_flag 0 false
  db := db

/-- The tables of the configuration. -/
def tables : Tables := .of 1 [⟨T, T⟩] []

/-- They are read from the file. -/
theorem getTabname_tables : getTabname (plainFile 1) = some tables := by
  rw [getTabname_eq _ (plainFile_longest 1) (plainFile_peer_longest 1)]
  simp only [tables, IniFile.pairs, IniFile.peers, List.range'_one, List.map_cons, List.map_nil,
    plainFile_pair, List.mem_singleton, if_true, T]
  rfl

/-- They make one worker. -/
theorem tables_jobs : tables.jobs = [some job] := by
  unfold tables
  rw [jobs_eq _ _ (by decide)]
  rfl

/-- No table is configured twice. -/
theorem tables_distinct : tables.Distinct := by
  show [T, bak T].Nodup
  simp [(bak_ne T).symm]

/-- The worker is made. -/
theorem start_run (C : Contract) :
    ((system env (plainFile 1) db).restrict C.Guard).Run start [.opened true, .make] working := by
  refine .cons ⟨.configure rfl getTabname_tables, trivial⟩ ?_
  rw [tables_jobs]
  exact .cons ⟨.make rfl rfl, trivial⟩ (.nil _)

/-- The state is an initial one. -/
theorem start_initial : Initial db start := ⟨rfl, rfl, fun _ => rfl, rfl⟩

/-- The theorem above after the `TRUNCATE`: the row is in the backup only. -/
theorem rows_or_backup_truncated : ∃ s, (system env (plainFile 1) db).Reachable s ∧
    s.db.tables T = some [] ∧
    (s.db.tables T = some ["old"] ∨ s.db.tables (bak T) = some ["old"]) := by
  obtain ⟨p, v, htrace, hT⟩ : ∃ p v, Trace env (working.prog 0) (working.db.view 0)
      [⟨.getColTypeSy T, some [⟨"a", "char"⟩]⟩, ⟨.getColType T, some [⟨"A", "CHAR"⟩]⟩,
        ⟨.countBak T, some (0 : Int)⟩, ⟨.createBak T, some ()⟩, ⟨.truncate T, some ()⟩] p v ∧
      v.tables T = some [] := by
    refine ⟨_, _, .cons (.replies (List.prefix_refl _) rfl) (.cons
      (.replies (List.prefix_refl _) rfl) (.cons (.replies trivial rfl) (.cons
      (.replies trivial rfl) (.cons (.replies trivial rfl) .nil)))), ?_⟩
    simp [View.set]
  have hrunning : working.main ≠ .crashed := by simp [working]
  have hrun := Trace.run (backup db) (plainFile 1) db (p := ⟨job, 0⟩) htrace hrunning rfl
    fun _ _ => trivial
  have hreach : (system env (plainFile 1) db).Reachable _ :=
    ⟨start, _, start_initial, ((start_run (backup db)).append hrun).of_restrict⟩
  exact ⟨_, hreach, hT, rows_or_backup getTabname_tables tables_distinct hreach
    (List.mem_singleton.2 rfl) rfl⟩

end OneTable

end TelecomSuite.Convert
