import TelecomSuite.Convert.Completeness

/-!
# Batches

A conversion inserts the rows of a table in batches of `MAXCOLUMS` with a `commit` after each, and
commits what is left after the last row. Every run of either conversion function, whatever the
databases reply and whichever calls throw, is bounded and complete in this sense
(`rows_committed`): its session never holds more than `MAXCOLUMS` uncommitted rows, and when the
function has returned true there are none, and the rows inserted are the rows of the SELECTs, table
by table. The bound holds for all sessions of a running converter (`pending_length_le`).
-/

namespace TelecomSuite.Convert

open Resumption Prog Transition

/-! ## What a session has done -/

/-- A worker's session: its uncommitted rows, its SELECTs with the rows they gave, and all rows it
has inserted. -/
structure Ledger where
  pending : List (String × Row)
  selected : List (Select × List (List Field))
  inserted : List (String × Row)

/-- The session of a new worker. -/
def Ledger.fresh : Ledger := ⟨[], [], []⟩

/-- The uncommitted rows after a call that is executed. -/
def Call.leaves (pending : List (String × Row)) : Call → List (String × Row)
  | .dropBak _ | .createBak _ | .truncate _ | .commit => []
  | .insert name sql => pending ++ [(name, sql)]
  | .getColTypeSy _ | .getColType _ | .countBak _ | .select _ | .eof | .fetchNext | .getFields _ =>
    pending

/-- The row that a call inserts. -/
def Call.rows : Call → List (String × Row)
  | .insert name sql => [(name, sql)]
  | .getColTypeSy _ | .getColType _ | .countBak _ | .dropBak _ | .createBak _ | .truncate _
  | .select _ | .eof | .fetchNext | .getFields _ | .commit => []

/-- The rows that a reply announces. -/
def Call.reads : (c : Call) → Reply c → List (Select × List (List Field))
  | .select q, (rows : List (List Field)) => [(q, rows)]
  | .getColTypeSy _, _ | .getColType _, _ | .countBak _, _ | .dropBak _, _ | .createBak _, _
  | .truncate _, _ | .eof, _ | .fetchNext, _ | .getFields _, _ | .insert .., _ | .commit, _ => []

/-- A call that replies, or throws before or after it is executed. The reply and the tables at that
moment are arbitrary. -/
inductive Ledger.Step (l : Ledger) (c : Call) : Option (Reply c) → Ledger → Prop
  | replies (tables : String → Option (List Row)) {v' : View} (a : Reply c) :
    View.exec ⟨tables, l.pending⟩ c = some v' →
      Step l c (some a) ⟨v'.pending, l.selected ++ c.reads a, l.inserted ++ c.rows⟩
  | throws : Step l c none l
  | throwsAfter (tables : String → Option (List Row)) {v' : View} :
    View.exec ⟨tables, l.pending⟩ c = some v' →
      Step l c none ⟨v'.pending, l.selected, l.inserted ++ c.rows⟩

section
variable {v v' : View} {l l' : Ledger} {c : Call} {r : Option (Reply c)} {env : Env}

/-- The pending rows after a call. -/
theorem View.exec_pending (h : v.exec c = some v') : v'.pending = c.leaves v.pending := by
  cases c with
  | dropBak name =>
    obtain ⟨-, rfl⟩ := Option.ite_none_right_eq_some.1 h |>.imp id Option.some.inj
    rfl
  | createBak name =>
    obtain ⟨-, rfl⟩ := Option.ite_none_right_eq_some.1 h |>.imp id Option.some.inj
    rfl
  | truncate name =>
    obtain ⟨-, rfl⟩ := Option.ite_none_right_eq_some.1 h |>.imp id Option.some.inj
    rfl
  | insert name sql =>
    obtain ⟨-, rfl⟩ := Option.ite_none_right_eq_some.1 h |>.imp id Option.some.inj
    rfl
  | getFields enough =>
    obtain ⟨-, rfl⟩ := Option.ite_none_right_eq_some.1 h |>.imp id Option.some.inj
    rfl
  | getColTypeSy | getColType | countBak | select | eof | fetchNext | commit =>
    cases h
    rfl

/-- What the databases may do to a view of a session, they may do to its ledger. -/
theorem View.Step.ledger (h : v.Step env c r v') (hl : l.pending = v.pending) :
    ∃ l', l.Step c r l' ∧ l'.pending = v'.pending := by
  have hv : ∀ v'', v.exec c = some v'' → View.exec ⟨v.tables, l.pending⟩ c = some v'' :=
    fun _ he => hl ▸ he
  cases h with
  | @replies a _ _ he => exact ⟨_, .replies v.tables a (hv _ he), rfl⟩
  | throws => exact ⟨l, .throws, hl⟩
  | throwsAfter he => exact ⟨_, .throwsAfter v.tables (hv _ he), rfl⟩

/-- The ledger after a call that replies. -/
def Ledger.after (l : Ledger) (c : Call) (a : Reply c) : Ledger :=
  ⟨c.leaves l.pending, l.selected ++ c.reads a, l.inserted ++ c.rows⟩

/-- What a call that answers makes of the ledger. -/
theorem Ledger.Step.eq_after {a : Reply c} (h : l.Step c (some a) l') : l' = l.after c a := by
  cases h with
  | replies tables a he => rw [View.exec_pending he, Ledger.after]

/-- A call that throws may have been executed. -/
theorem Ledger.Step.pending_of_none (h : l.Step c none l') :
    l'.pending = l.pending ∨ l'.pending = c.leaves l.pending := by
  cases h with
  | throws => exact .inl rfl
  | throwsAfter tables he => exact .inr (View.exec_pending he)

/-! ## One table -/

/-- At every call the uncommitted rows are at most a batch. -/
def Ledger.Within (l : Ledger) (_ : Call) : Prop := l.pending.length ≤ MAXCOLUMS

/-- The result of a part of a conversion: the bound, and `R` if the conversion goes on. -/
def Settled (R : Ledger → Prop) (l : Ledger) (b : Bool) : Prop :=
  l.pending.length ≤ MAXCOLUMS ∧ (b = true → R l)

variable {R : Ledger → Prop} {T : String}

/-- A call in a `try` block that is made, and leaves the session, within the bound. -/
theorem wp_within {k : Reply c → Work Bool} (hl : l.pending.length ≤ MAXCOLUMS)
    (hc : (c.leaves l.pending).length ≤ MAXCOLUMS)
    (hk : ∀ a, (k a).wp Ledger.Step Ledger.Within (Settled R) (l.after c a)) :
    (attempt c k).wp Ledger.Step Ledger.Within (Settled R) l := by
  refine wp_attempt hl ?_ ?_
  · intro l' hs
    refine ⟨?_, nofun⟩
    rcases hs.pending_of_none with he | he
    · exact he ▸ hl
    · exact he ▸ hc
  · intro a l' hs
    rw [hs.eq_after]
    exact hk a

/-- A call that inserts nothing, commits nothing and reads no rows. -/
theorem Ledger.Step.eq_self (hleaves : c.leaves l.pending = l.pending)
    (hreads : ∀ a, c.reads a = []) (hrows : c.rows = []) (h : l.Step c r l') : l' = l := by
  cases h with
  | replies tables a he =>
    rw [View.exec_pending he, hleaves, hreads, hrows, List.append_nil, List.append_nil]
  | throws => rfl
  | throwsAfter tables he => rw [View.exec_pending he, hleaves, hrows, List.append_nil]

/-- Such a call in a `try` block. -/
theorem wp_quiet {k : Reply c → Work Bool} (hl : l.pending.length ≤ MAXCOLUMS)
    (hleaves : c.leaves l.pending = l.pending) (hreads : ∀ a, c.reads a = []) (hrows : c.rows = [])
    (hk : ∀ a, (k a).wp Ledger.Step Ledger.Within (Settled R) l) :
    (attempt c k).wp Ledger.Step Ledger.Within (Settled R) l := by
  refine wp_attempt hl ?_ ?_
  · intro l' hs
    rw [hs.eq_self hleaves hreads hrows]
    exact ⟨hl, nofun⟩
  · intro a l' hs
    rw [hs.eq_self hleaves hreads hrows]
    exact hk a

/-- `droptable` inserts nothing. -/
theorem droptable_batched (hidle : l.pending = []) :
    (droptable T).wp Ledger.Step Ledger.Within (Settled (· = l)) l := by
  have hl : l.pending.length ≤ MAXCOLUMS := by simp [hidle]
  have hdone : (Prog.ret true : Work Bool).wp Ledger.Step Ledger.Within (Settled (· = l)) l :=
    ⟨hl, fun _ => rfl⟩
  refine wp_quiet hl rfl (fun _ => rfl) rfl ?_
  intro count
  split
  · exact wp_quiet hl hidle.symm (fun _ => rfl) rfl fun _ =>
      wp_quiet hl hidle.symm (fun _ => rfl) rfl fun _ => hdone
  · exact wp_quiet hl hidle.symm (fun _ => rfl) rfl fun _ => hdone

/-- From `l` to `l'` these texts were inserted into the table, and no SELECT was made. -/
structure Appends (T : String) (texts : List Row) (l l' : Ledger) : Prop where
  selected : l'.selected = l.selected
  inserted : l'.inserted = l.inserted ++ texts.map (Prod.mk T)

/-- One more text before the others. -/
theorem Appends.cons {text : Row} {texts : List Row} {l₁ : Ledger} (h : Appends T [text] l l₁)
    (ht : Appends T texts l₁ l') : Appends T (text :: texts) l l' where
  selected := ht.selected.trans h.selected
  inserted := by rw [ht.inserted, h.inserted, List.append_assoc, List.map_singleton,
    List.singleton_append, List.map_cons]

/-- The row loop. `index` is the number of uncommitted rows, and below the batch size. -/
theorem insertRows_batched (sql : List Field → Option String) (rows : List (List Field))
    (index : Nat) (hindex : l.pending.length = index) (hlt : index < MAXCOLUMS) :
    (insertRows T sql rows index).wp Ledger.Step Ledger.Within (Settled fun l' =>
      l'.pending = [] ∧ ∃ texts, rows.map sql = texts.map some ∧ Appends T texts l l') l := by
  have hl : l.pending.length ≤ MAXCOLUMS := by omega
  induction rows generalizing l index with
  | nil =>
    refine wp_quiet hl rfl (fun _ => rfl) rfl ?_
    intro _
    refine wp_within hl (Nat.zero_le _) ?_
    intro _
    exact ⟨Nat.zero_le _, fun _ => ⟨rfl, [], rfl, List.append_nil _, rfl⟩⟩
  | cons row rows ih =>
    refine wp_quiet hl rfl (fun _ => rfl) rfl ?_
    intro _
    refine wp_quiet hl rfl (fun _ => rfl) rfl ?_
    intro _
    refine wp_quiet hl rfl (fun _ => rfl) rfl ?_
    intro _
    cases htext : sql row with
    | none => exact ⟨hl, nofun⟩
    | some text =>
      have hlen : (Call.leaves l.pending (.insert T text)).length = index + 1 := by
        simp [Call.leaves, hindex]
      refine wp_within hl (hlen ▸ hlt) ?_
      intro a
      have happends : Appends T [text] l (l.after (.insert T text) a) :=
        ⟨List.append_nil _, rfl⟩
      have hpost : ∀ l₁, Appends T [text] l l₁ → ∀ l' b, Settled (fun l' => l'.pending = [] ∧
          ∃ texts, rows.map sql = texts.map some ∧ Appends T texts l₁ l') l' b →
          Settled (fun l' => l'.pending = [] ∧ ∃ texts, (row :: rows).map sql = texts.map some ∧
            Appends T texts l l') l' b := by
        rintro l₁ h₁ l' b ⟨hle, hb⟩
        refine ⟨hle, ?_⟩
        intro hb'
        obtain ⟨hp, texts, hmap, hst⟩ := hb hb'
        exact ⟨hp, text :: texts, by simp [htext, hmap], h₁.cons hst⟩
      split
      · -- the batch is full: the commit empties it
        refine wp_within (hlen ▸ hlt) (Nat.zero_le _) ?_
        intro a'
        have hcommit : Appends T [text] l ((l.after (.insert T text) a).after .commit a') :=
          ⟨(List.append_nil _).trans happends.selected,
            (List.append_nil _).trans happends.inserted⟩
        exact wp_mono (ih 0 rfl (by decide) (Nat.zero_le _)) (hpost _ hcommit)
      · have hlt' : index + 1 < MAXCOLUMS := by omega
        exact wp_mono (ih (index + 1) hlen hlt' (hlen ▸ hlt)) (hpost _ happends)

/-- The conversion of a table begins and ends with no uncommitted row. -/
theorem convertTable_batched (hidle : l.pending = []) (q : Select)
    (sql : List Field → Option String) :
    (convertTable T q sql).wp Ledger.Step Ledger.Within (Settled fun l' =>
      l'.pending = [] ∧ ∃ rows, ∃ texts : List Row, rows.map sql = texts.map some ∧
        l'.selected = l.selected ++ [(q, rows)] ∧
        l'.inserted = l.inserted ++ texts.map (Prod.mk T)) l := by
  have hl : l.pending.length ≤ MAXCOLUMS := by simp [hidle]
  refine wp_bind (droptable_batched hidle) ?_
  rintro l₁ b ⟨hle, hb⟩
  cases b with
  | false => exact ⟨hle, nofun⟩
  | true =>
    obtain rfl := hb rfl
    refine wp_quiet hl hidle.symm (fun _ => rfl) rfl ?_
    intro _
    refine wp_within hl hl ?_
    intro (rows : List (List Field))
    have hread : (l₁.after (.select q) rows).pending = [] := hidle
    have hle₁ : (l₁.after (.select q) rows).pending.length ≤ MAXCOLUMS := hl
    refine wp_quiet hle₁ rfl (fun _ => rfl) rfl ?_
    intro _
    split
    · exact ⟨hle₁, nofun⟩
    · refine wp_mono (insertRows_batched sql rows 0 (by simp [hread]) (by decide)) ?_
      rintro l₂ b ⟨hle₂, hb⟩
      refine ⟨hle₂, ?_⟩
      intro hb'
      obtain ⟨hp, texts, hmap, hst⟩ := hb hb'
      refine ⟨hp, rows, texts, hmap, hst.selected, ?_⟩
      rw [hst.inserted]
      exact congrArg (· ++ _) (List.append_nil _)

/-! ## All tables -/

/-- SELECTs and rows inserted, table by table: each row that was read from the source of a table is
inserted once, in order, and nothing else is. -/
inductive Converted : List Pair → List (Select × List (List Field)) → List (String × Row) → Prop
  | nil : Converted [] [] []
  | cons {p : Pair} {ps : List Pair} {q : Select} {sql : List Field → Option String}
    {rows : List (List Field)} {texts : List Row} {selected : List (Select × List (List Field))}
    {inserted : List (String × Row)} : q.table = p.sy → Renders p.orcl sql →
      rows.map sql = texts.map some → Converted ps selected inserted →
      Converted (p :: ps) ((q, rows) :: selected) (texts.map (Prod.mk p.orcl) ++ inserted)

/-- What a function makes of the tables that are left. -/
def Batched (ps : List Pair) (l l' : Ledger) (e : Exit) : Prop :=
  l'.pending.length ≤ MAXCOLUMS ∧ (e = .returned true → l'.pending = [] ∧ ∃ selected inserted,
    Converted ps selected inserted ∧ l'.selected = l.selected ++ selected ∧
      l'.inserted = l.inserted ++ inserted)

/-- No tables are left. -/
theorem Batched.nil (hidle : l.pending = []) : Batched [] l l (.returned true) :=
  ⟨by simp [hidle], fun _ => ⟨hidle, [], [], .nil, (List.append_nil _).symm,
    (List.append_nil _).symm⟩⟩

/-- A function that gives up has all its rows committed or none to commit. -/
theorem Batched.stop {ps : List Pair} {e : Exit} (hidle : l.pending = [])
    (he : e ≠ .returned true) : Batched ps l l e :=
  ⟨by simp [hidle], fun h => absurd h he⟩

/-- One table of the loop of either function, and the rest of the loop. -/
theorem table_batched {p : Pair} {ps : List Pair} {rest : Work Exit} {q : Select}
    {sql : List Field → Option String} (hidle : l.pending = []) (hq : q.table = p.sy)
    (hsql : Renders p.orcl sql)
    (hrest : ∀ l', l'.pending = [] → rest.wp Ledger.Step Ledger.Within (Batched ps l') l') :
    (do if ← convertTable p.orcl q sql then rest else return .returned false : Work Exit).wp
      Ledger.Step Ledger.Within (Batched (p :: ps) l) l := by
  refine wp_bind (convertTable_batched hidle q sql) ?_
  rintro l₁ b ⟨hle, hb⟩
  cases b with
  | false => exact ⟨hle, nofun⟩
  | true =>
    obtain ⟨hidle₁, rows, texts, hmap, hselected, hinserted⟩ := hb rfl
    refine wp_mono (hrest l₁ hidle₁) ?_
    rintro l₂ e ⟨hle₂, he⟩
    refine ⟨hle₂, ?_⟩
    intro hret
    obtain ⟨hidle₂, selected, inserted, hconv, hselected₂, hinserted₂⟩ := he hret
    refine ⟨hidle₂, _, _, .cons hq hsql hmap hconv, ?_, ?_⟩
    · rw [hselected₂, hselected, List.append_assoc, List.singleton_append]
    · rw [hinserted₂, hinserted, List.append_assoc]

/-- The queries for the columns insert nothing. -/
theorem columns_batched {ps : List Pair} {sy orcl : String} (hidle : l.pending = [])
    {k : List Tabtype → List Tabtype → Work Exit}
    (hk : ∀ v_type_sy v_type,
      (k v_type_sy v_type).wp Ledger.Step Ledger.Within (Batched ps l) l) :
    (columns sy orcl k).wp Ledger.Step Ledger.Within (Batched ps l) l := by
  have hl : l.pending.length ≤ MAXCOLUMS := by simp [hidle]
  refine wp_columns (fun _ _ => hl) ?_ (.stop hidle nofun) (fun v_type_sy v_type _ =>
    hk v_type_sy v_type)
  intro c r l' hc hs
  rcases hc with rfl | rfl
  · exact hs.eq_self rfl (fun _ => rfl) rfl
  · exact hs.eq_self rfl (fun _ => rfl) rfl

/-- `ConversionStart` commits its rows in batches. -/
theorem conversionStart_batched (ps : List Pair) (hidle : l.pending = []) :
    (conversionStart ps).wp Ledger.Step Ledger.Within (Batched ps l) l := by
  induction ps generalizing l with
  | nil => exact .nil hidle
  | cons p ps ih =>
    refine columns_batched hidle ?_
    intro v_type_sy v_type
    cases hq : makesql v_type v_type_sy p.sy with
    | none => exact .stop hidle nofun
    | some q => exact table_batched hidle (makesql_table hq) ⟨v_type, .inl rfl⟩ fun l' => ih

/-- So does `ConversionStartAnother`. -/
theorem conversionStartAnother_batched (ps : List Peer) (hidle : l.pending = []) :
    (conversionStartAnother ps).wp Ledger.Step Ledger.Within
      (Batched (ps.map fun p => ⟨p.orcl, p.sy⟩) l) l := by
  induction ps generalizing l with
  | nil => exact .nil hidle
  | cons p ps ih =>
    refine columns_batched hidle ?_
    intro v_type_sy v_type
    cases hq : makesqlSec v_type v_type_sy p.sy p.col_sy with
    | pastEnd => exact .stop hidle nofun
    | wrongColumns => exact .stop hidle nofun
    | select q =>
      exact table_batched hidle (makesqlSec_table hq) ⟨v_type, .inr ⟨p.col_orcl, rfl⟩⟩ fun l' => ih

end

/-- The program of either function, with the tables of its list. -/
inductive Conversion : List Pair → Work Exit → Prop
  | plain (ps : List Pair) : Conversion ps (conversionStart ps)
  | peer (ps : List Peer) :
    Conversion (ps.map fun p => ⟨p.orcl, p.sy⟩) (conversionStartAnother ps)

/-- The program of either function commits its rows in batches. -/
theorem Conversion.batched {ps : List Pair} {prog : Work Exit} {l : Ledger}
    (h : Conversion ps prog) (hidle : l.pending = []) :
    prog.wp Ledger.Step Ledger.Within (Batched ps l) l := by
  cases h with
  | plain => exact conversionStart_batched _ hidle
  | peer => exact conversionStartAnother_batched _ hidle

/-- **Batches.** At every moment of every run of a conversion its session holds at most `MAXCOLUMS`
uncommitted rows. When it has returned true there are none, and of every table each row that its
SELECT gave was inserted exactly once, in the order of the SELECT. -/
theorem rows_committed {ps : List Pair} {prog p : Work Exit} {l : Ledger}
    (hprog : Conversion ps prog) (h : (runs Ledger.Step .fresh prog).Reachable (l, p)) :
    l.pending.length ≤ MAXCOLUMS ∧ (p = .ret (.returned true) →
      l.pending = [] ∧ Converted ps l.selected l.inserted) := by
  have hwp := (wp_inductive (hprog.batched rfl)).reachable h
  have hwithin : ∀ s e, Batched ps .fresh s e → s.pending.length ≤ MAXCOLUMS :=
    fun _ _ hpost => hpost.1
  refine ⟨wp_now (J := fun l => l.pending.length ≤ MAXCOLUMS) hwp (fun _ _ hok => hok) hwithin, ?_⟩
  rintro rfl
  obtain ⟨hidle, selected, inserted, hconv, hselected, hinserted⟩ := hwp.2 rfl
  rw [hselected, hinserted]
  exact ⟨hidle, hconv⟩

/-! ## All sessions -/

section
variable {env : Env} {ini : IniFile} {db : Db} {t : Tables} {s : State}

/-- The program of a worker is one of the two. -/
theorem exists_conversion (job : Job) : ∃ ps, Conversion ps job.program := by
  cases job with
  | plain => exact ⟨_, .plain _⟩
  | peer => exact ⟨_, .peer _⟩

/-- What a worker has still to do keeps its session within the bound. -/
structure Bounded (s : State) : Prop where
  keeps : ∀ w p, s.conv.m_dbProcess[w]? = some p → ∃ l : Ledger,
    l.pending = s.db.pending p.m_dbmanager ∧
      (s.prog w).wp Ledger.Step Ledger.Within (fun l _ => l.pending.length ≤ MAXCOLUMS) l
  others : ∀ session, (∀ p ∈ s.conv.m_dbProcess, p.m_dbmanager ≠ session) →
    s.db.pending session = []

/-- The main thread goes on. -/
theorem Bounded.goto {conv : ConverProcess} {main : Main} {m_flag : Nat → Bool} (h : Bounded s)
    (hconv : conv.m_dbProcess = s.conv.m_dbProcess) :
    Bounded { s with main := main, conv := conv, m_flag := m_flag } := by
  refine ⟨?_, ?_⟩
  · intro w p hp
    exact h.keeps w p (hconv ▸ hp)
  · intro σ hσ
    exact h.others σ (hconv ▸ hσ)

/-- A worker makes a call. -/
theorem Bounded.call {w : Nat} {p : DBProcess} {c : Call} {k : Option (Reply c) → Work Exit}
    {r : Option (Reply c)} {v : View} (h : Bounded s)
    (hsessions : (s.conv.m_dbProcess.map DBProcess.m_dbmanager).Nodup)
    (hp : s.conv.m_dbProcess[w]? = some p) (hprog : s.prog w = .call c k)
    (hstep : (s.db.view p.m_dbmanager).Step env c r v) :
    Bounded { s with
      prog := Function.update s.prog w (k r)
      db := s.db.put p.m_dbmanager v } := by
  refine ⟨?_, ?_⟩
  · intro i q hq
    rcases eq_or_ne i w with rfl | hi
    · obtain rfl : p = q := Option.some.inj (hp.symm.trans hq)
      obtain ⟨l, hl, hwp⟩ := h.keeps i p hp
      rw [hprog] at hwp
      obtain ⟨l', hs, hl'⟩ := hstep.ledger hl
      refine ⟨l', ?_, ?_⟩
      · rw [hl']
        exact (Function.update_self p.m_dbmanager v.pending s.db.pending).symm
      · show (Function.update s.prog i (k r) i).wp _ _ _ _
        rw [Function.update_self]
        exact hwp.2 r l' hs
    · obtain ⟨l, hl, hwp⟩ := h.keeps i q hq
      have hne : q.m_dbmanager ≠ p.m_dbmanager := by
        intro heq
        have hlt : i < (s.conv.m_dbProcess.map DBProcess.m_dbmanager).length := by
          simpa using (List.getElem?_eq_some_iff.1 hq).1
        exact hi ((List.getElem?_inj hlt hsessions).1 (by simp [hq, hp, heq]))
      refine ⟨l, ?_, ?_⟩
      · rw [hl]
        exact (Function.update_of_ne hne _ _).symm
      · show (Function.update s.prog w (k r) i).wp _ _ _ _
        rwa [Function.update_of_ne hi]
  · intro σ hσ
    rw [← h.others σ hσ]
    exact Function.update_of_ne (hσ p (List.mem_of_getElem? hp)).symm _ _

/-- A worker is made. -/
theorem Bounded.make {job : Job} {conv : ConverProcess} {main : Main} {m_flag : Nat → Bool}
    (h : Bounded s) {dbsession : Nat}
    (hconv : conv.m_dbProcess = s.conv.m_dbProcess ++ [⟨job, dbsession⟩])
    (hses : ∀ p ∈ s.conv.m_dbProcess, p.m_dbmanager ≠ dbsession) :
    Bounded { s with
      main := main
      conv := conv
      prog := Function.update s.prog s.conv.m_dbProcess.length job.program
      m_flag := m_flag } := by
  refine ⟨?_, ?_⟩
  · intro i q hq
    rw [hconv] at hq
    rcases eq_or_ne i s.conv.m_dbProcess.length with rfl | hi
    · obtain rfl : ⟨job, dbsession⟩ = q := by simpa using hq
      obtain ⟨ps, hprog⟩ := exists_conversion job
      refine ⟨.fresh, (h.others dbsession hses).symm, ?_⟩
      show (Function.update s.prog _ job.program _).wp _ _ _ _
      rw [Function.update_self]
      exact wp_mono (hprog.batched rfl) fun _ _ hpost => hpost.1
    · have hlt : i < s.conv.m_dbProcess.length := by
        have := (List.getElem?_eq_some_iff.1 hq).1
        rw [List.length_append, List.length_singleton] at this
        omega
      rw [List.getElem?_append_left hlt] at hq
      obtain ⟨l, hl, hwp⟩ := h.keeps i q hq
      refine ⟨l, hl, ?_⟩
      show (Function.update s.prog _ job.program i).wp _ _ _ _
      rwa [Function.update_of_ne hi]
  · intro σ hσ
    exact h.others σ fun p hp => hσ p (by simp [hconv, hp])

/-- Every session is within the bound in every reachable state. -/
theorem bounded_inductive (ht : getTabname ini = some t) :
    (system env ini db).Inductive fun s => Wired t s ∧ Bounded s where
  init s h := by
    have hnone : s.conv.m_dbProcess = [] := by
      rw [h.conv]
      rfl
    refine ⟨(wired_inductive ht).init s h, ?_, ?_⟩
    · intro w p hp
      simp [hnone] at hp
    · intro σ _
      rw [h.db]
      exact h.pending σ
  step s a s' hstep := by
    rintro ⟨hw, h⟩
    have hw' := (wired_inductive ht).step s a s' hstep hw
    refine ⟨hw', ?_⟩
    cases hstep with
    | initFails | openFails | configure | startCrashes | start | poll | pass | moved
    | workerCrashes | exit => exact h.goto rfl
    | move => exact h.goto rfl
    | @make job jobs ret conv hm hnew =>
      obtain ⟨dbsession, hs, -, hp⟩ := newDBProcess_eq hnew
      refine h.make hp ?_
      intro p hmem heq
      have hnodup : (conv.m_dbProcess.map DBProcess.m_dbmanager).Nodup := hw'.sessions
      rw [hp, List.map_append, List.nodup_append] at hnodup
      exact hnodup.2.2 _ (List.mem_map_of_mem hmem) _ (List.mem_singleton_self _) heq
    | call hm hp hprog hcall => exact h.call hw.sessions hp hprog hcall

/-- In every interleaving of the workers every session is within the bound. -/
theorem pending_length_le (h : (system env ini db).Reachable s) (session : Nat) :
    (s.db.pending session).length ≤ MAXCOLUMS := by
  obtain ⟨pairs, peers, ht⟩ := exists_getTabname ini
  obtain ⟨-, hb⟩ := (bounded_inductive ht).reachable h
  by_cases hsession : ∀ p ∈ s.conv.m_dbProcess, p.m_dbmanager ≠ session
  · simp [hb.others session hsession]
  · push Not at hsession
    obtain ⟨p, hmem, rfl⟩ := hsession
    obtain ⟨w, hp⟩ := List.mem_iff_getElem?.1 hmem
    obtain ⟨l, hl, hwp⟩ := hb.keeps w p hp
    rw [← hl]
    exact wp_now (J := fun l => l.pending.length ≤ MAXCOLUMS) hwp (fun _ _ hok => hok)
      fun _ _ hpost => hpost

end

/-! ## A run with one row -/

/-- What a worker does alone, its ledger does. -/
theorem Trace.ledger {env : Env} {p q : Work Exit} {v v' : View}
    {calls : List (Sigma fun c => Option (Reply c))} (h : Trace env p v calls q v') {l : Ledger}
    (hl : l.pending = v.pending) {l₀ : Ledger} {p₀ : Work Exit} :
    ∃ l', (runs Ledger.Step l₀ p₀).Run (l, p) calls (l', q) := by
  induction h generalizing l with
  | nil => exact ⟨l, .nil _⟩
  | cons hs _ ih =>
    obtain ⟨l₁, hs₁, hl₁⟩ := hs.ledger hl
    obtain ⟨l', hrun⟩ := ih hl₁
    exact ⟨l', .cons ⟨_, rfl, hs₁, rfl⟩ hrun⟩

namespace OneTable

/-- The theorem above on the conversion of one row. -/
theorem rows_committed_oneRow : ∃ l : Ledger,
    (runs Ledger.Step .fresh (conversionStart [⟨T, T⟩])).Reachable (l, .ret (.returned true)) ∧
      l.pending = [] ∧ Converted [⟨T, T⟩] l.selected l.inserted := by
  obtain ⟨v, htrace⟩ := calls_trace
  obtain ⟨l, hrun⟩ := htrace.ledger (l := .fresh) rfl
  have hreach : (runs Ledger.Step .fresh (conversionStart [⟨T, T⟩])).Reachable
      (l, .ret (.returned true)) := ⟨_, _, rfl, hrun⟩
  exact ⟨l, hreach, (rows_committed (.plain _) hreach).2 rfl⟩

end OneTable

end TelecomSuite.Convert
