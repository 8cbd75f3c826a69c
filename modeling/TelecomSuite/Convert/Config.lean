import Mathlib

/-!
# The table lists and the workers

`ConverProcess::get_tabname` reads the numbered entries of four sections of the configuration into
six vectors, and `ConverProcess::start_dbprocess` cuts them into pieces of `PERCOUNT` tables, one
`DBProcess` for each. A worker takes a session out of `m_dbsession`, which holds `MAXCONN` of them,
and no session comes back before `run` waits for the workers.

The pieces are right for every file and every `PERCOUNT ≥ 1` (`jobs_eq`). They are all handed out
if and only if there are no more of them than sessions (`hands_out_iff`); `SeventeenTables` is a
file with one piece more, on which `start_dbprocess` waits for ever.
-/

namespace TelecomSuite.Convert

/-! ## The configuration file -/

/-- `cacti::IniFile`. The class is not part of the repository: which entry a name stands for is
left open, but there are finitely many. -/
structure IniFile where
  value : String → String → Option String
  readInt : String → String → Int → Int
  keys : List (String × String)
  mem_keys : ∀ {group key text}, value group key = some text → (group, key) ∈ keys

/-- `readString`: the value of a key, or the default. -/
def IniFile.readString (ini : IniFile) (group key default : String) : String :=
  (ini.value group key).getD default

/-- The keys of the tables, numbered. -/
def tabName (i : Nat) : String := "TabName" ++ Nat.repr i

/-- The keys of the column lists, with the same numbers. -/
def keyName (i : Nat) : String := "Key" ++ Nat.repr i

/-- The members that `get_tabname` fills. -/
structure Tables where
  m_count : Int
  m_tabname_oracl : List String
  m_tabname_sy : List String
  m_tab_orcl : List String
  m_tab_sy : List String
  m_col_orcl : List String
  m_col_sy : List String

/-- The first loop of `get_tabname`, from entry `i` on; `none` when the fuel runs out. -/
def readTables (ini : IniFile) : Nat → Nat → Tables → Option Tables
  | 0, _, _ => none
  | fuel + 1, i, t =>
    let tmp := ini.readString "Database_orcl" (tabName i) ""
    if tmp = "" then some t
    else
      let t := { t with m_tabname_oracl := t.m_tabname_oracl ++ [tmp] }
      let tmp := ini.readString "Database_sy" (tabName i) ""
      if tmp = "" then
        -- as many names on both sides
        some { t with m_tabname_oracl := t.m_tabname_oracl.dropLast }
      else readTables ini fuel (i + 1) { t with m_tabname_sy := t.m_tabname_sy ++ [tmp] }

/-- The second loop of `get_tabname`. -/
def readPeerTables (ini : IniFile) : Nat → Nat → Tables → Option Tables
  | 0, _, _ => none
  | fuel + 1, i, t =>
    let tmp_tab := ini.readString "PeerDatabase_orcl" (tabName i) ""
    let tmp_key := ini.readString "PeerDatabase_orcl" (keyName i) ""
    if tmp_tab = "" ∨ tmp_key = "" then some t
    else
      let t := { t with
        m_tab_orcl := t.m_tab_orcl ++ [tmp_tab]
        m_col_orcl := t.m_col_orcl ++ [tmp_key] }
      let tmp_tab := ini.readString "PeerDatabase_sy" (tabName i) ""
      let tmp_key := ini.readString "PeerDatabase_sy" (keyName i) ""
      if tmp_tab = "" ∨ tmp_key = "" then
        some { t with
          m_tab_orcl := t.m_tab_orcl.dropLast
          m_col_orcl := t.m_col_orcl.dropLast }
      else readPeerTables ini fuel (i + 1) { t with
        m_tab_sy := t.m_tab_sy ++ [tmp_tab]
        m_col_sy := t.m_col_sy ++ [tmp_key] }

/-- `get_tabname` on a file that opens. A loop reads at most one entry more than there are. -/
def getTabname (ini : IniFile) : Option Tables := do
  let t ← readTables ini (ini.keys.length + 1) 1
    ⟨ini.readInt "System" "PerCount" 3, [], [], [], [], [], []⟩
  readPeerTables ini (ini.keys.length + 1) 1 t

/-! ## Cutting the lists -/

/-- What a `DBProcess` is made with: the names of a plain worker, or the names and key lists of a
peer worker. -/
inductive Job
  | plain (m_orcl m_sy : List String)
  | peer (m_an_orcl m_an_sy m_col_orcl m_col_sy : List String)
  deriving DecidableEq

/-- `tmp.insert(tmp.begin(), v.begin() + first, v.begin() + last)` into an empty vector, with a
range inside `v`. -/
def insertRange (v : List String) (first last : Int) : Option (List String) :=
  if 0 ≤ first ∧ first ≤ last ∧ last ≤ v.length then
    some ((v.drop first.toNat).take (last - first).toNat)
  else none

/-- The number of workers for `count` tables. -/
def processCount (count PERCOUNT : Int) : Int :=
  let num := count.tdiv PERCOUNT
  if count.tmod PERCOUNT ≠ 0 then num + 1 else num

/-- The end of the `i`-th piece, as all the vectors are cut. -/
def pieceEnd (count PERCOUNT num i : Int) : Int :=
  if i = num - 1 then
    if count.tmod PERCOUNT ≠ 0 then i * PERCOUNT + count.tmod PERCOUNT
    else i * PERCOUNT + PERCOUNT
  else i * PERCOUNT + PERCOUNT

/-- The `i`-th piece of a vector when `count` tables are cut. -/
def piece (v : List String) (count PERCOUNT i : Int) : Option (List String) :=
  insertRange v (i * PERCOUNT) (pieceEnd count PERCOUNT (processCount count PERCOUNT) i)

namespace Tables

/-- The `i`-th worker for peer tables, if the four vectors have the elements. -/
def peerJob (t : Tables) (i : Int) : Option Job := do
  let tmp_orcl ← piece t.m_tab_orcl t.m_tab_sy.length t.m_count i
  let tmp_sy ← piece t.m_tab_sy t.m_tab_sy.length t.m_count i
  let col_orcl ← piece t.m_col_orcl t.m_tab_sy.length t.m_count i
  let col_sy ← piece t.m_col_sy t.m_tab_sy.length t.m_count i
  some (.peer tmp_orcl tmp_sy col_orcl col_sy)

/-- The `i`-th worker for the other tables. -/
def plainJob (t : Tables) (i : Int) : Option Job := do
  let tmp_orcl ← piece t.m_tabname_oracl t.m_tabname_sy.length t.m_count i
  let tmp_sy ← piece t.m_tabname_sy t.m_tabname_sy.length t.m_count i
  some (.plain tmp_orcl tmp_sy)

/-- The workers that one of the two loops makes; `none` stands for a crash, as the division by a
`PERCOUNT` of 0. -/
def loop (job : Int → Option Job) (count PERCOUNT : Int) : List (Option Job) :=
  if count = 0 then []
  else if PERCOUNT = 0 then [none]
  else (List.range (processCount count PERCOUNT).toNat).map fun (i : Nat) => job (i : Int)

/-- All workers in the order of their creation. -/
def jobs (t : Tables) : List (Option Job) :=
  loop t.peerJob t.m_tab_sy.length t.m_count ++ loop t.plainJob t.m_tabname_sy.length t.m_count

/-- What `start_dbprocess` returns after its loops. -/
def started (t : Tables) : Bool :=
  t.m_tabname_sy.length != 0 || !(loop t.peerJob t.m_tab_sy.length t.m_count).isEmpty

end Tables

/-! ## Handing them out -/

/-- How many sessions the queue is given at the start. -/
def MAXCONN : Nat := 16

/-- A worker and the session it works with. -/
structure DBProcess where
  job : Job
  m_dbmanager : Nat

/-- The members of `ConverProcess` that hold sessions and workers. -/
structure ConverProcess where
  m_dbsession : List Nat
  m_m_dbsession_tmp : List Nat
  m_dbProcess : List DBProcess

/-- After `init`, with all sessions connected. -/
def ConverProcess.initial : ConverProcess := ⟨List.range MAXCONN, [], []⟩

/-- A session out of the queue and a new worker; `none` while the queue is empty. -/
def ConverProcess.newDBProcess (p : ConverProcess) (job : Job) : Option ConverProcess :=
  match p.m_dbsession with
  | [] => none
  | dbsession :: m_dbsession => some {
      m_dbsession
      m_m_dbsession_tmp := p.m_m_dbsession_tmp ++ [dbsession]
      m_dbProcess := p.m_dbProcess ++ [⟨job, dbsession⟩] }

/-- How `start_dbprocess` ends. Only `run` puts sessions back, and only after it, so a wait for a
session is a wait for ever. -/
inductive Outcome
  | returned (b : Bool)
  | blocked
  | crashed

/-- The workers are made one after the other. -/
def startAll (ret : Bool) : ConverProcess → List (Option Job) → ConverProcess × Outcome
  | p, [] => (p, .returned ret)
  | p, none :: _ => (p, .crashed)
  | p, some job :: jobs =>
    match p.newDBProcess job with
    | none => (p, .blocked)
    | some p' => startAll ret p' jobs

/-- `start_dbprocess`: the workers of all pieces. -/
def startDbprocess (t : Tables) (p : ConverProcess) : ConverProcess × Outcome :=
  startAll t.started p t.jobs

/-- The workers of `get_tabname` followed by `start_dbprocess`. -/
def handedOut (ini : IniFile) : List Job :=
  match getTabname ini with
  | none => []
  | some t => (startDbprocess t .initial).1.m_dbProcess.map DBProcess.job

/-! ## What the lists should be -/

/-- An entry of the plain sections. -/
structure Pair where
  orcl : String
  sy : String

/-- An entry of the peer sections. -/
structure Peer where
  orcl : String
  col_orcl : String
  sy : String
  col_sy : String

/-- The two names of a table in the file. -/
def IniFile.pair (ini : IniFile) (i : Nat) : Pair where
  orcl := ini.readString "Database_orcl" (tabName i) ""
  sy := ini.readString "Database_sy" (tabName i) ""

/-- The two names of a peer table and its column lists. -/
def IniFile.peer (ini : IniFile) (i : Nat) : Peer where
  orcl := ini.readString "PeerDatabase_orcl" (tabName i) ""
  col_orcl := ini.readString "PeerDatabase_orcl" (keyName i) ""
  sy := ini.readString "PeerDatabase_sy" (tabName i) ""
  col_sy := ini.readString "PeerDatabase_sy" (keyName i) ""

/-- A plain entry has both names. -/
def Pair.Complete (p : Pair) : Prop := p.orcl ≠ "" ∧ p.sy ≠ ""

/-- A peer entry has both names and both column lists. -/
def Peer.Complete (p : Peer) : Prop := p.orcl ≠ "" ∧ p.col_orcl ≠ "" ∧ p.sy ≠ "" ∧ p.col_sy ≠ ""

/-- The longest prefix of the entries 1, 2, … that satisfy `P` has length `n`. -/
def LongestPrefix (P : Nat → Prop) (n : Nat) : Prop :=
  (∀ i, 1 ≤ i → i ≤ n → P i) ∧ ¬ P (n + 1)

/-- The first `n` plain entries. -/
def IniFile.pairs (ini : IniFile) (n : Nat) : List Pair := (List.range' 1 n).map ini.pair

/-- The first `m` peer entries. -/
def IniFile.peers (ini : IniFile) (m : Nat) : List Peer := (List.range' 1 m).map ini.peer

/-- The members filled from these entries. -/
def Tables.of (m_count : Int) (pairs : List Pair) (peers : List Peer) : Tables where
  m_count := m_count
  m_tabname_oracl := pairs.map Pair.orcl
  m_tabname_sy := pairs.map Pair.sy
  m_tab_orcl := peers.map Peer.orcl
  m_tab_sy := peers.map Peer.sy
  m_col_orcl := peers.map Peer.col_orcl
  m_col_sy := peers.map Peer.col_sy

/-! ## Reading the lists -/

/-- The keys differ. -/
theorem tabName_inj {i j : Nat} (h : tabName i = tabName j) : i = j := by
  have hlist := congrArg String.toList h
  simp only [tabName, String.toList_append, List.append_cancel_left_eq, Nat.toList_repr] at hlist
  have hnum := congrArg (Nat.ofDigitChars 10 · 0) hlist
  simpa [Nat.ofDigitChars_ten_toDigits] using hnum

/-- Non-empty values of different numbers are different entries of the file. -/
theorem IniFile.prefix_le (ini : IniFile) {group : String} {n : Nat}
    (h : ∀ i, 1 ≤ i → i ≤ n → ini.readString group (tabName i) "" ≠ "") : n ≤ ini.keys.length := by
  have hnodup : ((List.range' 1 n).map fun i => (group, tabName i)).Nodup := by
    refine List.Nodup.map ?_ List.nodup_range'
    intro i j hij
    exact tabName_inj (Prod.mk.inj hij).2
  have hsub : ((List.range' 1 n).map fun i => (group, tabName i)) ⊆ ini.keys := by
    intro key hkey
    obtain ⟨i, hi, rfl⟩ := List.mem_map.1 hkey
    have hrange : 1 ≤ i ∧ i ≤ n := by
      rw [List.mem_range'_1] at hi
      omega
    cases hv : ini.value group (tabName i) with
    | none => exact absurd (by simp [readString, hv]) (h i hrange.1 hrange.2)
    | some text => exact ini.mem_keys hv
  have := (List.subperm_of_subset hnodup hsub).length_le
  simpa using this

/-- The first loop collects the complete entries up to the first incomplete one. -/
theorem readTables_eq (ini : IniFile) {k fuel i : Nat} (t : Tables) (hfuel : k < fuel)
    (hk : ∀ j, i ≤ j → j < i + k → (ini.pair j).Complete) (hend : ¬ (ini.pair (i + k)).Complete) :
    readTables ini fuel i t = some { t with
      m_tabname_oracl := t.m_tabname_oracl ++ ((List.range' i k).map ini.pair).map Pair.orcl
      m_tabname_sy := t.m_tabname_sy ++ ((List.range' i k).map ini.pair).map Pair.sy } := by
  induction k generalizing fuel i t with
  | zero =>
    obtain ⟨fuel, rfl⟩ : ∃ f, fuel = f + 1 := ⟨fuel - 1, by omega⟩
    simp only [Pair.Complete, IniFile.pair, Nat.add_zero, not_and_or, not_not] at hend
    unfold readTables
    rcases eq_or_ne (ini.readString "Database_orcl" (tabName i) "") "" with hor | hor
    · simp [hor]
    · simp [hor, hend.resolve_left hor]
  | succ k ih =>
    obtain ⟨fuel, rfl⟩ : ∃ f, fuel = f + 1 := ⟨fuel - 1, by omega⟩
    obtain ⟨hor, hsy⟩ := hk i (Nat.le_refl i) (by omega)
    have hrest := @ih fuel (i + 1)
      { t with
        m_tabname_oracl := t.m_tabname_oracl ++ [ini.readString "Database_orcl" (tabName i) ""]
        m_tabname_sy := t.m_tabname_sy ++ [ini.readString "Database_sy" (tabName i) ""] }
      (by omega) (fun j h₁ h₂ => hk j (by omega) (by omega))
      (by rwa [show i + 1 + k = i + (k + 1) by omega])
    unfold readTables
    simp only [IniFile.pair] at hor hsy
    simp only [hor, hsy, if_false]
    rw [hrest]
    simp [List.range'_succ, IniFile.pair]

/-- The second loop, likewise. -/
theorem readPeerTables_eq (ini : IniFile) {k fuel i : Nat} (t : Tables) (hfuel : k < fuel)
    (hk : ∀ j, i ≤ j → j < i + k → (ini.peer j).Complete) (hend : ¬ (ini.peer (i + k)).Complete) :
    readPeerTables ini fuel i t = some { t with
      m_tab_orcl := t.m_tab_orcl ++ ((List.range' i k).map ini.peer).map Peer.orcl
      m_tab_sy := t.m_tab_sy ++ ((List.range' i k).map ini.peer).map Peer.sy
      m_col_orcl := t.m_col_orcl ++ ((List.range' i k).map ini.peer).map Peer.col_orcl
      m_col_sy := t.m_col_sy ++ ((List.range' i k).map ini.peer).map Peer.col_sy } := by
  induction k generalizing fuel i t with
  | zero =>
    obtain ⟨fuel, rfl⟩ : ∃ f, fuel = f + 1 := ⟨fuel - 1, by omega⟩
    simp only [Peer.Complete, IniFile.peer, Nat.add_zero] at hend
    unfold readPeerTables
    by_cases hor : ini.readString "PeerDatabase_orcl" (tabName i) "" = "" ∨
        ini.readString "PeerDatabase_orcl" (keyName i) "" = ""
    · simp [hor]
    · have hsy : ini.readString "PeerDatabase_sy" (tabName i) "" = "" ∨
          ini.readString "PeerDatabase_sy" (keyName i) "" = "" := by tauto
      simp [hor, hsy]
  | succ k ih =>
    obtain ⟨fuel, rfl⟩ : ∃ f, fuel = f + 1 := ⟨fuel - 1, by omega⟩
    obtain ⟨hor, hko, hsy, hks⟩ := hk i (Nat.le_refl i) (by omega)
    have hrest := @ih fuel (i + 1)
      { t with
        m_tab_orcl := t.m_tab_orcl ++ [ini.readString "PeerDatabase_orcl" (tabName i) ""]
        m_col_orcl := t.m_col_orcl ++ [ini.readString "PeerDatabase_orcl" (keyName i) ""]
        m_tab_sy := t.m_tab_sy ++ [ini.readString "PeerDatabase_sy" (tabName i) ""]
        m_col_sy := t.m_col_sy ++ [ini.readString "PeerDatabase_sy" (keyName i) ""] }
      (by omega) (fun j h₁ h₂ => hk j (by omega) (by omega))
      (by rwa [show i + 1 + k = i + (k + 1) by omega])
    unfold readPeerTables
    simp only [IniFile.peer] at hor hko hsy hks
    simp only [hor, hko, hsy, hks, or_false, if_false]
    rw [hrest]
    simp [List.range'_succ, IniFile.peer]

/-- `get_tabname` returns and fills the members with the two longest prefixes. -/
theorem getTabname_eq (ini : IniFile) {n m : Nat}
    (hn : LongestPrefix (fun i => (ini.pair i).Complete) n)
    (hm : LongestPrefix (fun i => (ini.peer i).Complete) m) :
    getTabname ini =
      some (.of (ini.readInt "System" "PerCount" 3) (ini.pairs n) (ini.peers m)) := by
  have hn' : n ≤ ini.keys.length := ini.prefix_le fun i h₁ h₂ => (hn.1 i h₁ h₂).1
  have hm' : m ≤ ini.keys.length := ini.prefix_le fun i h₁ h₂ => (hm.1 i h₁ h₂).1
  unfold getTabname
  rw [readTables_eq ini _ (Nat.lt_succ_of_le hn') (fun j h₁ h₂ => hn.1 j h₁ (by omega))
    (by rw [Nat.add_comm]; exact hn.2)]
  simp only [Option.bind_eq_bind, Option.bind_some]
  rw [readPeerTables_eq ini _ (Nat.lt_succ_of_le hm') (fun j h₁ h₂ => hm.1 j h₁ (by omega))
    (by rw [Nat.add_comm]; exact hm.2)]
  simp [Tables.of, IniFile.pairs, IniFile.peers]

/-- A property of entries that exist has a longest prefix. -/
theorem IniFile.exists_longestPrefix (ini : IniFile) {group : String} {P : Nat → Prop}
    (h : ∀ i, P i → ini.readString group (tabName i) "" ≠ "") : ∃ n, LongestPrefix P n := by
  classical
  have hex : ∃ n, ¬ P (n + 1) := by
    by_contra hall
    have hP : ∀ i, 1 ≤ i → P i := by
      intro i hi
      obtain ⟨j, rfl⟩ : ∃ j, i = j + 1 := ⟨i - 1, by omega⟩
      exact not_not.1 fun hj => hall ⟨j, hj⟩
    have := ini.prefix_le fun i (h₁ : 1 ≤ i) (_ : i ≤ ini.keys.length + 1) => h i (hP i h₁)
    omega
  refine ⟨Nat.find hex, ?_, Nat.find_spec hex⟩
  intro i h₁ h₂
  obtain ⟨j, rfl⟩ : ∃ j, i = j + 1 := ⟨i - 1, by omega⟩
  exact not_not.1 (Nat.find_min hex h₂)

/-- `get_tabname` always returns with aligned lists. -/
theorem exists_getTabname (ini : IniFile) : ∃ pairs peers,
    getTabname ini = some (.of (ini.readInt "System" "PerCount" 3) pairs peers) := by
  obtain ⟨n, hn⟩ := ini.exists_longestPrefix fun i (h : (ini.pair i).Complete) => h.1
  obtain ⟨m, hm⟩ := ini.exists_longestPrefix fun i (h : (ini.peer i).Complete) => h.1
  exact ⟨_, _, getTabname_eq ini hn hm⟩

/-! ## The pieces -/

/-- The `i`-th piece of `p` elements. -/
def chunk {α : Type*} (p : Nat) (l : List α) (i : Nat) : List α := (l.drop (i * p)).take p

/-- Pieces of a mapped list. -/
theorem map_chunk {α β : Type*} (f : α → β) (p : Nat) (l : List α) (i : Nat) :
    (chunk p l i).map f = chunk p (l.map f) i := by
  simp [chunk]

/-- The pieces one after the other are the list. -/
theorem flatten_chunks {α : Type*} (p : Nat) (num : Nat) (l : List α) (h : l.length ≤ num * p) :
    ((List.range num).map (chunk p l)).flatten = l := by
  induction num generalizing l with
  | zero =>
    rw [Nat.zero_mul] at h
    simp [List.length_eq_zero_iff.1 (Nat.le_zero.1 h)]
  | succ num ih =>
    have hrest : chunk p l ∘ Nat.succ = chunk p (l.drop p) := by
      funext i
      simp [chunk, Nat.succ_mul, Nat.add_comm]
    have hdrop : (l.drop p).length ≤ num * p := by
      rw [List.length_drop]
      rw [Nat.succ_mul] at h
      omega
    rw [List.range_succ_eq_map, List.map_cons, List.map_map, hrest, List.flatten_cons,
      ih (l.drop p) hdrop]
    simp [chunk]

/-- The number of workers for a positive `PERCOUNT`. -/
theorem processCount_natCast (count p : Nat) :
    processCount count p = (count / p + if count % p ≠ 0 then 1 else 0 : Nat) := by
  unfold processCount
  rw [Int.tdiv_eq_ediv_of_nonneg (Int.natCast_nonneg count),
    Int.tmod_eq_emod_of_nonneg (Int.natCast_nonneg count)]
  rcases eq_or_ne (count % p) 0 with h | h
  · have : ((count : Int) % p) = 0 := by exact_mod_cast h
    simp [h, this]
  · have : ((count : Int) % p) ≠ 0 := by exact_mod_cast h
    simp [h, this]

/-- The end of a piece is inside the vector, and the piece is full or goes to the end. -/
theorem pieceEnd_natCast {count p i : Nat} (hp : 0 < p) (hi : i < (processCount count p).toNat) :
    ∃ last : Nat, pieceEnd count p (processCount count p) i = last ∧ i * p ≤ last ∧
      last ≤ count ∧ (last - i * p = p ∨ last = count ∧ last - i * p ≤ p) := by
  have hnum := processCount_natCast count p
  have hdiv := Nat.div_add_mod count p
  have hmod := Nat.mod_lt count hp
  rw [Nat.mul_comm] at hdiv
  rw [hnum, Int.toNat_natCast] at hi
  unfold pieceEnd
  rw [hnum, Int.tmod_eq_emod_of_nonneg (Int.natCast_nonneg _)]
  rcases eq_or_ne (count % p) 0 with hr | hr
  · have hz : ((count : Int) % p) = 0 := by exact_mod_cast hr
    have hle : (i + 1) * p ≤ count / p * p := Nat.mul_le_mul_right p (by
      simp only [hr, ne_eq, not_true_eq_false, if_false] at hi
      omega)
    rw [Nat.succ_mul] at hle
    exact ⟨i * p + p, by simp [hz], by omega, by omega, .inl (by omega)⟩
  · have hnz : ((count : Int) % p) ≠ 0 := by exact_mod_cast hr
    simp only [hr, ne_eq, not_false_eq_true, if_true] at hi
    rcases eq_or_ne i (count / p) with hlast | hlast
    · refine ⟨i * p + count % p, ?_, by omega, by rw [hlast]; omega, .inr ⟨?_, by omega⟩⟩
      · rw [if_pos (by rw [hlast]; simp [hr]), if_pos hnz]
        push_cast
        rfl
      · rw [hlast]
        omega
    · have hle : (i + 1) * p ≤ count / p * p := Nat.mul_le_mul_right p (by omega)
      rw [Nat.succ_mul] at hle
      refine ⟨i * p + p, ?_, by omega, by omega, .inl (by omega)⟩
      rw [if_neg (by simp [hr]; omega)]
      push_cast
      rfl

/-- Every piece of a vector of `count` elements is inside it and has the elements it should have. -/
theorem piece_natCast {v : List String} {p i : Nat} (hp : 0 < p)
    (hi : i < (processCount v.length p).toNat) : piece v v.length p i = some (chunk p v i) := by
  obtain ⟨last, hlast, hfirst, hle, hlen⟩ := pieceEnd_natCast hp hi
  unfold piece insertRange
  rw [hlast, if_pos ⟨Int.natCast_nonneg (i * p), by exact_mod_cast hfirst, by exact_mod_cast hle⟩]
  have htake : ((last : Int) - (i : Int) * p).toNat = last - i * p := by
    rw [← Int.natCast_mul]
    omega
  rw [htake, ← Int.natCast_mul, Int.toNat_natCast, chunk]
  rcases hlen with heq | ⟨heq, hshort⟩
  · rw [heq]
  · have hrest : (v.drop (i * p)).length = last - i * p := by
      rw [List.length_drop, heq]
    rw [List.take_of_length_le hrest.le, List.take_of_length_le (hrest.le.trans hshort)]

/-- A negative `PERCOUNT` gives one worker with everything, or none. -/
theorem processCount_neg (count p : Nat) :
    processCount count (-p : Int) =
      -((count / p : Nat) : Int) + if count % p ≠ 0 then 1 else 0 := by
  unfold processCount
  rw [Int.tdiv_neg, Int.tmod_neg, Int.tdiv_eq_ediv_of_nonneg (Int.natCast_nonneg count),
    Int.tmod_eq_emod_of_nonneg (Int.natCast_nonneg count)]
  rcases eq_or_ne (count % p) 0 with h | h
  · have : ((count : Int) % p) = 0 := by exact_mod_cast h
    simp [h, this]
  · have : ((count : Int) % p) ≠ 0 := by exact_mod_cast h
    simp [h, this]

/-- With a negative `PERCOUNT` there is a worker only for fewer tables than its amount, and only
one. -/
theorem lt_of_processCount_neg {count p i : Nat} (hp : 0 < p)
    (hi : i < (processCount count (-p : Int)).toNat) : count % p ≠ 0 ∧ count < p ∧ i = 0 := by
  rw [processCount_neg] at hi
  have hlt : count / p = 0 → count < p := (Nat.div_eq_zero_iff_lt hp).1
  generalize count / p = q at hi hlt
  rcases eq_or_ne (count % p) 0 with hr | hr
  · simp only [hr, ne_eq, not_true_eq_false, if_false] at hi
    omega
  · simp only [hr, ne_eq, not_false_eq_true, if_true] at hi
    exact ⟨hr, hlt (by omega), by omega⟩

/-- This worker gets all the tables. -/
theorem piece_neg {v : List String} {p i : Nat} (hp : 0 < p)
    (hi : i < (processCount v.length (-p : Int)).toNat) :
    piece v v.length (-p : Int) i = some (chunk p v i) := by
  have hnum := processCount_neg v.length p
  obtain ⟨hr, hlt, rfl⟩ := lt_of_processCount_neg hp hi
  have hlast : pieceEnd v.length (-p : Int) (processCount v.length (-p : Int)) (0 : Nat) =
      v.length := by
    have hmod : (v.length : Int).tmod (-p : Int) = v.length := by
      rw [Int.tmod_neg, Int.tmod_eq_emod_of_nonneg (Int.natCast_nonneg _)]
      exact_mod_cast Nat.mod_eq_of_lt hlt
    unfold pieceEnd
    rw [hnum, hmod, Nat.div_eq_of_lt hlt, if_pos (by simp [hr]), if_pos]
    · simp
    · intro hz
      have hz' : v.length = 0 := by exact_mod_cast hz
      simp [hz'] at hr
  unfold piece insertRange
  rw [hlast]
  simp [chunk, hlt.le]

/-- The pieces of a list for a `PERCOUNT`. -/
def pieces {α : Type*} (PERCOUNT : Int) (l : List α) : List (List α) :=
  (List.range (processCount l.length PERCOUNT).toNat).map (chunk PERCOUNT.natAbs l)

section
variable {α : Type*} {l : List α} {per : Int}

/-- All vectors that a loop cuts are cut alike, whatever `PERCOUNT` is. -/
theorem piece_map {f : α → String} (hper : per ≠ 0) {i : Nat}
    (hi : i < (processCount l.length per).toNat) :
    piece (l.map f) l.length per i = some ((chunk per.natAbs l i).map f) := by
  rw [map_chunk]
  obtain ⟨p, rfl | rfl⟩ := per.eq_nat_or_neg
  · have hlen : l.length = (l.map f).length := by simp
    rw [hlen] at hi ⊢
    exact piece_natCast (by omega) hi
  · have hlen : l.length = (l.map f).length := by simp
    rw [hlen] at hi ⊢
    rw [Int.natAbs_neg]
    exact piece_neg (by omega) hi

/-- The loop makes one worker of each piece. -/
theorem loop_eq (l : List α) (job : Int → Option Job) (make : List α → Job) (hper : per ≠ 0)
    (hjob : ∀ i : Nat, i < (processCount l.length per).toNat →
      job i = some (make (chunk per.natAbs l i))) :
    Tables.loop job l.length per = ((pieces per l).map make).map some := by
  rcases eq_or_ne (l.length : Int) 0 with hzero | hzero
  · simp [Tables.loop, pieces, hzero, processCount]
  · rw [Tables.loop, if_neg hzero, if_neg hper, pieces, List.map_map, List.map_map]
    exact List.map_congr_left fun i hi => hjob i (List.mem_range.1 hi)

/-- A positive `PERCOUNT` leaves no entry out. -/
theorem flatten_pieces (hper : 1 ≤ per) : (pieces per l).flatten = l := by
  obtain ⟨p, rfl⟩ := Int.eq_ofNat_of_zero_le (Int.le_trans Int.one_nonneg hper)
  refine flatten_chunks _ _ l ?_
  rw [processCount_natCast, Int.toNat_natCast, Int.natAbs_natCast]
  have hdiv := Nat.div_add_mod l.length p
  have hmod := Nat.mod_lt l.length (by omega : 0 < p)
  rw [Nat.mul_comm] at hdiv
  rcases eq_or_ne (l.length % p) 0 with hr | hr
  · simp only [hr, ne_eq, not_true_eq_false, if_false, Nat.add_zero]
    omega
  · simp only [hr, ne_eq, not_false_eq_true, if_true, Nat.succ_mul]
    omega

/-- Any other leaves no entry out either, or makes no worker. -/
theorem flatten_pieces_or (hper : per ≠ 0) : (pieces per l).flatten = l ∨ pieces per l = [] := by
  by_cases hpos : 1 ≤ per
  · exact .inl (flatten_pieces hpos)
  obtain ⟨p, rfl⟩ : ∃ p : Nat, per = -p := ⟨per.natAbs, by omega⟩
  rcases eq_or_ne (processCount l.length (-p : Int)).toNat 0 with hnum | hnum
  · exact .inr (by simp [pieces, hnum])
  · obtain ⟨-, hlt, -⟩ := lt_of_processCount_neg (by omega) (Nat.pos_of_ne_zero hnum)
    refine .inl (flatten_chunks _ _ l ?_)
    rw [Int.natAbs_neg, Int.natAbs_natCast]
    exact hlt.le.trans (Nat.le_mul_of_pos_left p (Nat.pos_of_ne_zero hnum))

/-- So none is left out if there is a worker. -/
theorem flatten_pieces_of_pos (hper : per ≠ 0) (h : l.length ≠ 0 → 0 < processCount l.length per) :
    (pieces per l).flatten = l := by
  rcases flatten_pieces_or hper (l := l) with hflat | hnil
  · exact hflat
  · have hlen : l.length = 0 := by
      by_contra hne
      have hlen := congrArg List.length hnil
      have hpos := h hne
      simp only [pieces, List.length_map, List.length_range, List.length_nil] at hlen
      omega
    rw [hnil]
    exact (List.length_eq_zero_iff.1 hlen).symm

/-- No piece is empty or longer than `PERCOUNT`. -/
theorem length_pieces (hper : 1 ≤ per) {c : List α} (hc : c ∈ pieces per l) :
    c ≠ [] ∧ (c.length : Int) ≤ per := by
  obtain ⟨p, rfl⟩ := Int.eq_ofNat_of_zero_le (Int.le_trans Int.one_nonneg hper)
  obtain ⟨i, hi, rfl⟩ := List.mem_map.1 hc
  have hdiv := Nat.div_add_mod l.length p
  rw [Nat.mul_comm] at hdiv
  rw [List.mem_range, processCount_natCast, Int.toNat_natCast] at hi
  have hlt : i * p < l.length := by
    rcases eq_or_ne (l.length % p) 0 with hr | hr
    · simp only [hr, ne_eq, not_true_eq_false, if_false] at hi
      have := Nat.mul_le_mul_right p (show i + 1 ≤ l.length / p by omega)
      rw [Nat.succ_mul] at this
      omega
    · simp only [hr, ne_eq, not_false_eq_true, if_true] at hi
      have := Nat.mul_le_mul_right p (show i ≤ l.length / p by omega)
      omega
  have hlen : (chunk p l i).length = min p (l.length - i * p) := by simp [chunk]
  rw [Int.natAbs_natCast]
  refine ⟨?_, ?_⟩
  · intro hnil
    rw [hnil, List.length_nil] at hlen
    omega
  · rw [hlen]
    omega

end

/-! ## The workers -/

/-- The worker for these tables. -/
def Job.ofPairs (l : List Pair) : Job := .plain (l.map Pair.orcl) (l.map Pair.sy)

/-- The worker for these peer tables. -/
def Job.ofPeers (l : List Peer) : Job :=
  .peer (l.map Peer.orcl) (l.map Peer.sy) (l.map Peer.col_orcl) (l.map Peer.col_sy)

/-- The workers for these entries. -/
def jobList (per : Int) (pairs : List Pair) (peers : List Peer) : List Job :=
  (pieces per peers).map .ofPeers ++ (pieces per pairs).map .ofPairs

/-- The workers of `start_dbprocess`, for every `PERCOUNT` but 0. -/
theorem jobs_eq {per : Int} (pairs : List Pair) (peers : List Peer) (hper : per ≠ 0) :
    (Tables.of per pairs peers).jobs = (jobList per pairs peers).map some := by
  have hpeer := loop_eq peers (Tables.of per pairs peers).peerJob .ofPeers hper
    fun i hi => by
      simp [Tables.peerJob, Tables.of, piece_map hper hi, Job.ofPeers]
  have hplain := loop_eq pairs (Tables.of per pairs peers).plainJob .ofPairs hper
    fun i hi => by
      simp [Tables.plainJob, Tables.of, piece_map hper hi, Job.ofPairs]
  have hsy : (Tables.of per pairs peers).m_tab_sy.length = peers.length := by simp [Tables.of]
  have hsy' : (Tables.of per pairs peers).m_tabname_sy.length = pairs.length := by simp [Tables.of]
  rw [Tables.jobs, hsy, hsy', jobList, List.map_append]
  exact congrArg₂ _ hpeer hplain

/-- The sessions last for the first workers. -/
theorem startAll_jobs (ret : Bool) (p : ConverProcess) (jobs : List Job) :
    (startAll ret p (jobs.map some)).1.m_dbProcess.map DBProcess.job =
      p.m_dbProcess.map DBProcess.job ++ jobs.take p.m_dbsession.length := by
  induction jobs generalizing p with
  | nil => simp [startAll]
  | cons job jobs ih =>
    cases hs : p.m_dbsession with
    | nil => simp [startAll, ConverProcess.newDBProcess, hs]
    | cons dbsession m_dbsession => simp [startAll, ConverProcess.newDBProcess, hs, ih]

/-- The entries a plain worker works on. -/
def Job.pairs : Job → List Pair
  | .plain m_orcl m_sy => List.zipWith .mk m_orcl m_sy
  | .peer .. => []

/-- The entries a peer worker works on. -/
def Job.peers : Job → List Peer
  | .plain .. => []
  | .peer m_an_orcl m_an_sy m_col_orcl m_col_sy =>
    List.zipWith (fun (o, ko) (s, ks) => ⟨o, ko, s, ks⟩) (m_an_orcl.zip m_col_orcl)
      (m_an_sy.zip m_col_sy)

/-- The lists of a worker have the same length, so none of their elements is left out. -/
def Job.Aligned : Job → Prop
  | .plain m_orcl m_sy => m_orcl.length = m_sy.length
  | .peer m_an_orcl m_an_sy m_col_orcl m_col_sy => m_an_orcl.length = m_an_sy.length ∧
      m_an_orcl.length = m_col_orcl.length ∧ m_an_orcl.length = m_col_sy.length

/-- The workers get the first `n` plain and the first `m` peer entries, in this order, each once,
and none gets nothing or more than `per` tables. -/
structure HandsOut (ini : IniFile) (n m : Nat) (per : Int) (workers : List Job) : Prop where
  pairs : workers.flatMap Job.pairs = ini.pairs n
  peers : workers.flatMap Job.peers = ini.peers m
  aligned : ∀ w ∈ workers, w.Aligned
  size : ∀ w ∈ workers, w.pairs ≠ [] ∨ w.peers ≠ []
  bound : ∀ w ∈ workers, ((w.pairs.length + w.peers.length : Nat) : Int) ≤ per

/-- The worker for these tables has them. -/
@[simp] theorem Job.pairs_ofPairs (l : List Pair) : (Job.ofPairs l).pairs = l := by
  induction l with
  | nil => rfl
  | cons p l ih =>
    simp only [Job.ofPairs, Job.pairs, List.map_cons, List.zipWith_cons_cons] at ih ⊢
    rw [ih]

/-- The worker for these peer tables has them. -/
@[simp] theorem Job.peers_ofPeers (l : List Peer) : (Job.ofPeers l).peers = l := by
  induction l with
  | nil => rfl
  | cons p l ih =>
    simp only [Job.ofPeers, Job.peers, List.map_cons, List.zip_cons_cons,
      List.zipWith_cons_cons] at ih ⊢
    rw [ih]

@[simp] theorem Job.peers_ofPairs (l : List Pair) : (Job.ofPairs l).peers = [] := rfl

@[simp] theorem Job.pairs_ofPeers (l : List Peer) : (Job.ofPeers l).pairs = [] := rfl

section
variable {per : Int} {pairs : List Pair} {peers : List Peer}

/-- All workers together have all tables. -/
theorem flatMap_pairs_jobList (hper : 1 ≤ per) :
    (jobList per pairs peers).flatMap Job.pairs = pairs := by
  simp only [jobList, List.flatMap_append, List.flatMap_map, Job.pairs_ofPairs, Job.pairs_ofPeers]
  rw [List.flatMap_id', flatten_pieces hper]
  simp

/-- And all peer tables. -/
theorem flatMap_peers_jobList (hper : 1 ≤ per) :
    (jobList per pairs peers).flatMap Job.peers = peers := by
  simp only [jobList, List.flatMap_append, List.flatMap_map, Job.peers_ofPairs, Job.peers_ofPeers]
  rw [List.flatMap_id', flatten_pieces hper]
  simp

/-- The number of workers. -/
theorem length_jobList : ((jobList per pairs peers).length : Int) =
    (processCount peers.length per).toNat + (processCount pairs.length per).toNat := by
  simp [jobList, pieces]

/-- A worker is made of a piece of one of the lists. -/
theorem mem_jobList {job : Job} (h : job ∈ jobList per pairs peers) :
    (∃ c ∈ pieces per peers, job = .ofPeers c) ∨ ∃ c ∈ pieces per pairs, job = .ofPairs c := by
  rcases List.mem_append.1 h with h | h
  · obtain ⟨c, hc, rfl⟩ := List.mem_map.1 h
    exact .inl ⟨c, hc, rfl⟩
  · obtain ⟨c, hc, rfl⟩ := List.mem_map.1 h
    exact .inr ⟨c, hc, rfl⟩

/-- The vectors of a worker have the same length. -/
theorem jobList_aligned {job : Job} (h : job ∈ jobList per pairs peers) : job.Aligned := by
  rcases mem_jobList h with ⟨c, -, rfl⟩ | ⟨c, -, rfl⟩ <;>
    simp [Job.Aligned, Job.ofPeers, Job.ofPairs]

/-- A worker has at least one table and at most `PERCOUNT`. -/
theorem jobList_size (hper : 1 ≤ per) {job : Job} (h : job ∈ jobList per pairs peers) :
    (job.pairs ≠ [] ∨ job.peers ≠ []) ∧
      ((job.pairs.length + job.peers.length : Nat) : Int) ≤ per := by
  rcases mem_jobList h with ⟨c, hc, rfl⟩ | ⟨c, hc, rfl⟩
  · obtain ⟨hne, hle⟩ := length_pieces hper hc
    exact ⟨.inr (by simpa using hne), by simpa using hle⟩
  · obtain ⟨hne, hle⟩ := length_pieces hper hc
    exact ⟨.inl (by simpa using hne), by simpa using hle⟩

/-- The workers there are sessions for. -/
theorem handedOut_eq (ini : IniFile) {n m : Nat}
    (hn : LongestPrefix (fun i => (ini.pair i).Complete) n)
    (hm : LongestPrefix (fun i => (ini.peer i).Complete) m)
    (hper : ini.readInt "System" "PerCount" 3 ≠ 0) :
    handedOut ini =
      (jobList (ini.readInt "System" "PerCount" 3) (ini.pairs n) (ini.peers m)).take MAXCONN := by
  unfold handedOut
  rw [getTabname_eq ini hn hm]
  simp only [startDbprocess, jobs_eq _ _ hper, startAll_jobs]
  simp [ConverProcess.initial]

/-- The first workers get everything only if they are all: each has something to do. -/
theorem take_jobList (hper : 1 ≤ per) {k : Nat}
    (hpairs : ((jobList per pairs peers).take k).flatMap Job.pairs = pairs)
    (hpeers : ((jobList per pairs peers).take k).flatMap Job.peers = peers) :
    (jobList per pairs peers).length ≤ k := by
  have hsplit := List.take_append_drop k (jobList per pairs peers)
  have hpairs' : ((jobList per pairs peers).drop k).flatMap Job.pairs = [] := by
    have h : (jobList per pairs peers).flatMap Job.pairs = pairs := flatMap_pairs_jobList hper
    rw [← hsplit, List.flatMap_append, hpairs] at h
    simpa using h
  have hpeers' : ((jobList per pairs peers).drop k).flatMap Job.peers = [] := by
    have h : (jobList per pairs peers).flatMap Job.peers = peers := flatMap_peers_jobList hper
    rw [← hsplit, List.flatMap_append, hpeers] at h
    simpa using h
  rw [← List.drop_eq_nil_iff]
  by_contra hne
  obtain ⟨job, hjob⟩ := List.exists_mem_of_ne_nil _ hne
  rcases (jobList_size hper (List.mem_of_mem_drop hjob)).1 with h | h
  · exact h (List.flatMap_eq_nil_iff.1 hpairs' job hjob)
  · exact h (List.flatMap_eq_nil_iff.1 hpeers' job hjob)

end

/-- **When the work is handed out.** For every file and every `PerCount ≥ 1`, the workers get all
complete entries before the first incomplete one, in order and aligned, if and only if the two lists
make no more than `MAXCONN` workers. -/
theorem hands_out_iff (ini : IniFile) {n m : Nat} {per : Int}
    (hread : ini.readInt "System" "PerCount" 3 = per) (hper : 1 ≤ per)
    (hn : LongestPrefix (fun i => (ini.pair i).Complete) n)
    (hm : LongestPrefix (fun i => (ini.peer i).Complete) m) :
    HandsOut ini n m per (handedOut ini) ↔ processCount m per + processCount n per ≤ MAXCONN := by
  have hnonneg : ∀ k : Nat, 0 ≤ processCount k per := by
    intro k
    obtain ⟨p, rfl⟩ := Int.eq_ofNat_of_zero_le (Int.le_trans Int.one_nonneg hper)
    exact (processCount_natCast k p).ge.trans' (Int.natCast_nonneg _)
  have hlen : ((jobList per (ini.pairs n) (ini.peers m)).length : Int) =
      processCount m per + processCount n per := by
    rw [length_jobList]
    simp [IniFile.pairs, IniFile.peers, hnonneg]
  rw [handedOut_eq ini hn hm (by omega), hread]
  constructor
  · intro h
    have := take_jobList hper h.pairs h.peers
    omega
  · intro h
    rw [List.take_of_length_le (by omega)]
    exact ⟨flatMap_pairs_jobList hper, flatMap_peers_jobList hper, fun w hw => jobList_aligned hw,
      fun w hw => (jobList_size hper hw).1, fun w hw => (jobList_size hper hw).2⟩

/-! ## More workers than sessions -/

/-- A file with `k` plain tables that are called as their entries, and `PerCount` 1. -/
def plainFile (k : Nat) : IniFile where
  value group key :=
    if (group = "Database_orcl" ∨ group = "Database_sy") ∧ key ∈ (List.range' 1 k).map tabName then
      some key
    else none
  readInt _ _ _ := 1
  keys := ["Database_orcl", "Database_sy"].product ((List.range' 1 k).map tabName)
  mem_keys {group key text} h := by
    obtain ⟨⟨hgroup, hkey⟩, -⟩ := Option.ite_none_right_eq_some.1 h
    rw [List.pair_mem_product]
    exact ⟨by simpa using hgroup, hkey⟩

/-- The names of the tables in the file, up to the last one. -/
theorem plainFile_pair (k i : Nat) : (plainFile k).pair i =
    if i ∈ List.range' 1 k then ⟨tabName i, tabName i⟩ else ⟨"", ""⟩ := by
  have hmem : tabName i ∈ (List.range' 1 k).map tabName ↔ i ∈ List.range' 1 k := by
    refine ⟨?_, List.mem_map_of_mem⟩
    intro h
    obtain ⟨j, hj, he⟩ := List.mem_map.1 h
    exact tabName_inj he ▸ hj
  by_cases h : i ∈ List.range' 1 k
  · simp [IniFile.pair, IniFile.readString, plainFile, hmem.2 h, h]
  · simp [IniFile.pair, IniFile.readString, plainFile, mt hmem.1 h, h]

/-- The loop over the tables reads all of them. -/
theorem plainFile_longest (k : Nat) :
    LongestPrefix (fun i => ((plainFile k).pair i).Complete) k := by
  have hne : ∀ i, tabName i ≠ "" := by
    intro i h
    have := congrArg String.length h
    simp [tabName, String.length_append] at this
  refine ⟨?_, ?_⟩
  · intro i h₁ h₂
    show ((plainFile k).pair i).Complete
    rw [plainFile_pair, if_pos (by rw [List.mem_range'_1]; omega)]
    exact ⟨hne i, hne i⟩
  · show ¬ ((plainFile k).pair (k + 1)).Complete
    rw [plainFile_pair, if_neg (by rw [List.mem_range'_1]; omega)]
    exact fun h => h.1 rfl

/-- There are no peer tables in the file. -/
theorem plainFile_peer_longest (k : Nat) :
    LongestPrefix (fun i => ((plainFile k).peer i).Complete) 0 := by
  refine ⟨fun i h₁ h₂ => by omega, fun h => h.1 ?_⟩
  simp [IniFile.peer, IniFile.readString, plainFile]

/-- The theorem above on two tables. -/
theorem hands_out_two : processCount (0 : Nat) 1 + processCount (2 : Nat) 1 ≤ MAXCONN ∧
    HandsOut (plainFile 2) 2 0 1 (handedOut (plainFile 2)) :=
  have h : processCount (0 : Nat) 1 + processCount (2 : Nat) 1 ≤ MAXCONN := by decide
  ⟨h, (hands_out_iff (plainFile 2) rfl (by decide) (plainFile_longest 2)
    (plainFile_peer_longest 2)).2 h⟩

/-- Seventeen tables and `PerCount` 1: the seventeenth worker waits for a session that never comes,
and its table is given to nobody. -/
theorem SeventeenTables.not_handed_out : ¬ ∀ (ini : IniFile) (n m : Nat) (per : Int),
    ini.readInt "System" "PerCount" 3 = per → 1 ≤ per →
    LongestPrefix (fun i => (ini.pair i).Complete) n →
    LongestPrefix (fun i => (ini.peer i).Complete) m → HandsOut ini n m per (handedOut ini) := by
  intro hall
  have h := hall (plainFile 17) 17 0 1 rfl (by decide) (plainFile_longest 17)
    (plainFile_peer_longest 17)
  have hout := handedOut_eq (plainFile 17) (plainFile_longest 17) (plainFile_peer_longest 17)
    (by decide)
  rw [hout] at h
  have hlen := take_jobList (show (1 : Int) ≤ 1 by decide) h.pairs h.peers
  have hcount :
      ((jobList 1 ((plainFile 17).pairs 17) ((plainFile 17).peers 0)).length : Int) = 17 := by
    rw [length_jobList]
    simp [IniFile.pairs, IniFile.peers]
    decide
  simp only [MAXCONN] at hlen
  omega

end TelecomSuite.Convert
