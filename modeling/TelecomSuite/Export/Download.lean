import TelecomSuite.Lib.Transition
import TelecomSuite.CallOut.Calendar
import TelecomSuite.Export.FtpClient

/-!
# The files of a scan round

`DetailBillProcess::GetNeedHandleFileList` lists a directory of the FTP server, downloads and
deletes file by file, and hands on the files for which both went well. Each of the three calls makes
its directory, `%Y/%Y%m/billing/<net type>`, from a clock reading of its own.

Within one month every file on the server is handed on exactly once or is still there
(`files_handed_once`). When the month changes, files are left in a directory that is not listed any
more; `listed_files_kept_iff` says that this is avoided exactly if the next round lists the same
month.
-/

namespace TelecomSuite.Export

open CallOut FixedWidth Transition

/-- The file names on the server, by directory. -/
abbrev Server := Text → Finset Text

/-- The directory that a call addresses; the year of a clock reading has four digits. -/
def directory (nettype : NetType) (t : Date) : Text :=
  decimal 4 t.year ++ ('/' :: (decimal 4 t.year ++ (decimal 2 t.month ++
    ("/billing/".toList ++ nettype.text))))

/-- What a round meets: the answer to the listing, and at each clock reading the code of the
transfer or deletion of a file that is there. -/
structure RoundIo where
  listing : Listing
  garbage : Text
  download : ℕ → Int
  remove : ℕ → Int

/-- `CURLE_REMOTE_FILE_NOT_FOUND`. -/
def remoteFileNotFound : Int := 78

section
variable (nettype : NetType) (clock : ℕ → Date) (io : RoundIo)

/-- `downloadFixFile` at the `k`-th clock reading. -/
def downloadFixFile (server : Server) (k : ℕ) (file : Text) : Int :=
  if file ∈ server (directory nettype (clock k)) then io.download k else remoteFileNotFound

/-- `removeFixFile` at the `k`-th clock reading; a deletion that fails leaves the file. -/
def removeFixFile (server : Server) (k : ℕ) (file : Text) : Int × Server :=
  let dir := directory nettype (clock k)
  if file ∈ server dir then
    if io.remove k = 0 then (0, Function.update server dir ((server dir).erase file))
    else (io.remove k, server)
  else (remoteFileNotFound, server)

/-- The calls for one file: the directory and the code of the download, and of the deletion if there
is one. -/
structure Attempt where
  file : Text
  download : Text × Int
  remove : Option (Text × Int)

/-- Download and deletion both went well. -/
def Attempt.succeeded (a : Attempt) : Bool :=
  a.download.2 = 0 && a.remove.any (·.2 = 0)

/-- What the loop over the files leaves: the calls it made, the list with its erasures, and the
server. -/
structure Downloads where
  attempts : List Attempt
  filelist : List Text
  server : Server

/-- The loop over the files, from the `k`-th clock reading on. -/
def downloadLoop : ℕ → Server → List Text → Downloads
  | _, server, [] => ⟨[], [], server⟩
  | k, server, file :: files =>
    let code := downloadFixFile nettype clock io server k file
    let call := (directory nettype (clock k), code)
    if code = 0 then
      let removed := removeFixFile nettype clock io server (k + 1) file
      let rest := downloadLoop (k + 2) removed.2 files
      let attempt := ⟨file, call, some (directory nettype (clock (k + 1)), removed.1)⟩
      if removed.1 ≠ 0 then ⟨attempt :: rest.attempts, rest.filelist, rest.server⟩
      else ⟨attempt :: rest.attempts, file :: rest.filelist, rest.server⟩
    else
      let rest := downloadLoop (k + 1) server files
      ⟨⟨file, call, none⟩ :: rest.attempts, rest.filelist, rest.server⟩

/-- `GetNeedHandleFileList`: the listing at the first clock reading, then the loop. -/
def getNeedHandleFileList (area : Area) (server : Server) : Option (Int × Downloads) :=
  (getDirectoryFile nettype area io.garbage io.listing).map fun listed =>
    if listed.1 ≠ 0 ∨ listed.2 = [] then (-1, ⟨[], listed.2, server⟩)
    else (0, downloadLoop nettype clock io 1 server listed.2)

end

/-! ## The loop -/

section
variable {nettype : NetType} {clock : ℕ → Date} {io : RoundIo}

/-- What the loop can do with its first file. -/
inductive FirstFile (k : ℕ) (server : Server) (file : Text) (files : List Text) : Downloads → Prop
  | notDownloaded {call : Text × Int} : call.1 = directory nettype (clock k) → call.2 ≠ 0 →
      FirstFile k server file files
        ⟨⟨file, call, none⟩ :: (downloadLoop nettype clock io (k + 1) server files).attempts,
          (downloadLoop nettype clock io (k + 1) server files).filelist,
          (downloadLoop nettype clock io (k + 1) server files).server⟩
  | notRemoved {removed : Text × Int} : removed.1 = directory nettype (clock (k + 1)) →
      removed.2 ≠ 0 → file ∈ server (directory nettype (clock k)) →
      FirstFile k server file files
        ⟨⟨file, (directory nettype (clock k), 0), some removed⟩ ::
            (downloadLoop nettype clock io (k + 2) server files).attempts,
          (downloadLoop nettype clock io (k + 2) server files).filelist,
          (downloadLoop nettype clock io (k + 2) server files).server⟩
  | handedOn {server' : Server} : file ∈ server (directory nettype (clock (k + 1))) →
      server' = Function.update server (directory nettype (clock (k + 1)))
        ((server (directory nettype (clock (k + 1)))).erase file) →
      file ∈ server (directory nettype (clock k)) →
      FirstFile k server file files
        ⟨⟨file, (directory nettype (clock k), 0),
            some (directory nettype (clock (k + 1)), 0)⟩ ::
            (downloadLoop nettype clock io (k + 2) server' files).attempts,
          file :: (downloadLoop nettype clock io (k + 2) server' files).filelist,
          (downloadLoop nettype clock io (k + 2) server' files).server⟩

/-- What the loop does with its first file. -/
theorem downloadLoop_cons (k : ℕ) (server : Server) (file : Text) (files : List Text) :
    @FirstFile nettype clock io k server file files
      (downloadLoop nettype clock io k server (file :: files)) := by
  rw [downloadLoop]
  dsimp only
  split
  · next hcode =>
    have hmem : file ∈ server (directory nettype (clock k)) := by
      by_contra hnot
      rw [downloadFixFile, if_neg hnot] at hcode
      cases hcode
    rw [hcode]
    split
    · next hfail =>
      have hserver : (removeFixFile nettype clock io server (k + 1) file).2 = server := by
        unfold removeFixFile at hfail ⊢
        dsimp only at hfail ⊢
        split
        · split
          · next hmem' hok => simp [hmem', hok] at hfail
          · rfl
        · rfl
      rw [hserver]
      exact .notRemoved rfl hfail hmem
    · next hok =>
      rw [not_not] at hok
      have hremoved : file ∈ server (directory nettype (clock (k + 1))) ∧
          (removeFixFile nettype clock io server (k + 1) file).2 =
            Function.update server (directory nettype (clock (k + 1)))
              ((server (directory nettype (clock (k + 1)))).erase file) := by
        unfold removeFixFile at hok ⊢
        dsimp only at hok ⊢
        split at hok
        · next hmem' =>
          split at hok
          · next hzero => exact ⟨hmem', by rw [if_pos hmem', if_pos hzero]⟩
          · next hzero => exact absurd hok hzero
        · cases hok
      rw [hok]
      exact .handedOn hremoved.1 hremoved.2 hmem
  · next hcode => exact .notDownloaded rfl hcode

/-- The list that is left has exactly the files for which both calls went well, in order. -/
theorem filelist_downloadLoop (files : List Text) (k : ℕ) (server : Server) :
    (downloadLoop nettype clock io k server files).filelist =
        ((downloadLoop nettype clock io k server files).attempts.filter Attempt.succeeded).map
          Attempt.file ∧
      (downloadLoop nettype clock io k server files).attempts.map Attempt.file = files := by
  induction files generalizing k server with
  | nil => exact ⟨rfl, rfl⟩
  | cons file files ih =>
    have hfirst := @downloadLoop_cons nettype clock io k server file files
    generalize downloadLoop nettype clock io k server (file :: files) = r at hfirst
    cases hfirst with
    | notDownloaded hdir hcode =>
      obtain ⟨hlist, hfiles⟩ := ih (k + 1) server
      simp [Attempt.succeeded, ← hlist, hfiles]
    | notRemoved hdir hcode hmem =>
      obtain ⟨hlist, hfiles⟩ := ih (k + 2) server
      simp [Attempt.succeeded, hcode, ← hlist, hfiles]
    | @handedOn server' hmem hserver hdown =>
      obtain ⟨hlist, hfiles⟩ := ih (k + 2) server'
      simp [Attempt.succeeded, ← hlist, hfiles]

/-- How often a name is in a directory. -/
def occurs (names : Finset Text) (name : Text) : ℕ := if name ∈ names then 1 else 0

/-- A file that is deleted is not there. -/
theorem occurs_erase_self (names : Finset Text) (name : Text) :
    occurs (names.erase name) name = 0 :=
  if_neg (Finset.notMem_erase name names)

/-- The other ones stay. -/
theorem occurs_erase_of_ne {name file : Text} (h : name ≠ file) (names : Finset Text) :
    occurs (names.erase file) name = occurs names name :=
  if_congr (by rw [Finset.mem_erase, and_iff_right h]) rfl rfl

/-- While all calls address one directory, a file leaves it exactly when it is handed on. -/
theorem count_downloadLoop {dir : Text} (hdir : ∀ k, directory nettype (clock k) = dir)
    (name : Text) (files : List Text) (k : ℕ) (server : Server) :
    (downloadLoop nettype clock io k server files).filelist.count name +
        occurs ((downloadLoop nettype clock io k server files).server dir) name =
      occurs (server dir) name := by
  induction files generalizing k server with
  | nil => exact Nat.zero_add _
  | cons file files ih =>
    have hfirst := @downloadLoop_cons nettype clock io k server file files
    generalize downloadLoop nettype clock io k server (file :: files) = r at hfirst
    cases hfirst with
    | notDownloaded => exact ih (k + 1) server
    | notRemoved => exact ih (k + 2) server
    | @handedOn server' hmem hserver hdown =>
      have hrest := ih (k + 2) server'
      rw [hdir] at hmem hserver
      have hafter : server' dir = (server dir).erase file := by
        rw [hserver, Function.update_self]
      rw [hafter] at hrest
      dsimp only
      rcases eq_or_ne name file with rfl | hne
      · have hone : occurs (server dir) name = 1 := if_pos hmem
        rw [occurs_erase_self] at hrest
        rw [List.count_cons_self, hone]
        omega
      · rw [occurs_erase_of_ne hne] at hrest
        rw [List.count_cons_of_ne (Ne.symm hne)]
        exact hrest

/-- A listing that fails names no file. -/
theorem getDirectoryFile_nil {area : Area} {garbage : Text} {l : Listing} {code : Int}
    {listed : List Text} (h : getDirectoryFile nettype area garbage l = some (code, listed))
    (hcode : code ≠ 0) : listed = [] := by
  cases l with
  | fails c => exact (Prod.mk.inj (Option.some.inj h)).2.symm
  | gives bytes =>
    rw [getDirectoryFile] at h
    split at h
    · cases h
    split at h
    · exact (Prod.mk.inj (Option.some.inj h)).2.symm
    · obtain ⟨names, -, hnames⟩ := Option.map_eq_some_iff.1 h
      exact absurd (Prod.mk.inj hnames).1.symm hcode

/-- A round lists nothing and changes nothing, or runs the loop over what it lists. -/
theorem getNeedHandleFileList_cases {area : Area} {server : Server} {code ret : Int}
    {listed : List Text} {d : Downloads}
    (hlist : getDirectoryFile nettype area io.garbage io.listing = some (code, listed))
    (hneed : getNeedHandleFileList nettype clock io area server = some (ret, d)) :
    listed = [] ∧ d = ⟨[], [], server⟩ ∨ d = downloadLoop nettype clock io 1 server listed := by
  rw [getNeedHandleFileList, hlist, Option.map_some] at hneed
  have hcases := Option.some.inj hneed
  dsimp only at hcases
  split at hcases
  · next hnone =>
    obtain ⟨-, rfl⟩ := Prod.mk.inj hcases
    obtain rfl : listed = [] := hnone.elim (getDirectoryFile_nil hlist) id
    exact .inl ⟨rfl, rfl⟩
  · exact .inr (Prod.mk.inj hcases).2.symm

/-- The server answers the listing with one file, and every transfer and deletion with a code. -/
def oneFile (nettype : NetType) (area : Area) (code : Int) : RoundIo :=
  ⟨.gives (nameStart nettype area ++ (crlf ++ [])), [], fun _ => code, fun _ => code⟩

/-- The listing names the file. -/
theorem getDirectoryFile_oneFile {area : Area} (hlen : (nameStart nettype area).length < 256)
    (code : Int) : getDirectoryFile nettype area (oneFile nettype area code).garbage
      (oneFile nettype area code).listing = some (0, [nameStart nettype area]) := by
  refine getDirectoryFile_single hlen ?_
  rw [getInMemory, if_neg (List.append_ne_nil_of_left_ne_nil nameStart_ne_nil _)]
  exact cstr_of_notMem nul_notMem_nameStart_crlf

/-- So the loop has this file only. -/
theorem getNeedHandleFileList_oneFile {area : Area} (hlen : (nameStart nettype area).length < 256)
    (code : Int) (server : Server) :
    getNeedHandleFileList nettype clock (oneFile nettype area code) area server = some (0,
      downloadLoop nettype clock (oneFile nettype area code) 1 server
        [nameStart nettype area]) := by
  rw [getNeedHandleFileList, getDirectoryFile_oneFile hlen]
  rfl

end

/-- A date with its bounds in one proof. -/
def dateOf (year month day : ℕ) (h : 1 ≤ year ∧ year ≤ 9999 ∧ 1 ≤ month ∧ month ≤ 12 ∧ 1 ≤ day ∧
    day ≤ daysInMonth year month) : Date :=
  ⟨year, month, day, h.1, h.2.1, h.2.2.1, h.2.2.2.1, h.2.2.2.2.1, h.2.2.2.2.2⟩

/-- Two readings in the same month. -/
def SameMonth (t t' : Date) : Prop := t.year = t'.year ∧ t.month = t'.month

/-- The directories of two times are the same in the same month. -/
theorem directory_eq_iff (nettype : NetType) (t t' : Date) :
    directory nettype t = directory nettype t' ↔ SameMonth t t' := by
  have hyear : ∀ t : Date, t.year < 10 ^ 4 := fun t => Nat.lt_succ_of_le t.year_le
  have hmonth : ∀ t : Date, t.month < 10 ^ 2 := fun t =>
    Nat.lt_of_le_of_lt t.month_le (by decide)
  constructor
  · intro h
    obtain ⟨hy, h⟩ := List.append_inj h
      ((length_decimal (hyear t)).trans (length_decimal (hyear t')).symm)
    obtain ⟨-, h⟩ := List.append_inj (List.cons.inj h).2
      ((length_decimal (hyear t)).trans (length_decimal (hyear t')).symm)
    obtain ⟨hm, -⟩ := List.append_inj h
      ((length_decimal (hmonth t)).trans (length_decimal (hmonth t')).symm)
    exact ⟨(decimal_inj (hyear t) (hyear t')).1 hy, (decimal_inj (hmonth t) (hmonth t')).1 hm⟩
  · rintro ⟨hy, hm⟩
    rw [directory, directory, hy, hm]

/-! ## Rounds within one month -/

namespace Detail

/-- A round: the files that were listed, the calls made for them, and the files handed on. -/
structure Round where
  listed : List Text
  attempts : List Attempt
  handedOn : List Text

/-- The server, all files that were ever on it, and the rounds so far. -/
structure State where
  server : Server
  uploaded : Finset Text
  rounds : List Round

/-- What happens: the other side uploads a file, or a round is made. -/
inductive Label
  | upload (name : Text)
  | round (clock : ℕ → Date) (io : RoundIo)

section
variable (nettype : NetType) (area : Area) (month : Date)

/-- A file with a new name is uploaded to the directory of the month, or a round is made, all of its
clock readings in the month. -/
inductive Step : State → Label → State → Prop
  | upload {s : State} {name : Text} : name ∉ s.uploaded →
      Step s (.upload name) { s with
        server := Function.update s.server (directory nettype month)
          (insert name (s.server (directory nettype month)))
        uploaded := insert name s.uploaded }
  | round {s : State} {clock : ℕ → Date} {io : RoundIo} {code ret : Int} {listed : List Text}
      {d : Downloads} : (∀ k, SameMonth (clock k) month) →
      getDirectoryFile nettype area io.garbage io.listing = some (code, listed) →
      getNeedHandleFileList nettype clock io area s.server = some (ret, d) →
      Step s (.round clock io) { s with
        server := d.server
        rounds := s.rounds ++ [⟨listed, d.attempts, d.filelist⟩] }

/-- The rounds of one month, from any content of its directory. -/
def system : LTS State Label where
  init s := s.rounds = [] ∧ s.uploaded = s.server (directory nettype month)
  step := Step nettype area month

end

/-- All files handed on so far. -/
def State.handedOn (s : State) : List Text := s.rounds.flatMap Round.handedOn

/-- A round handed on exactly the listed files for which both calls went well. -/
def Round.Right (r : Round) : Prop :=
  r.handedOn = (r.attempts.filter Attempt.succeeded).map Attempt.file ∧
    r.attempts.map Attempt.file = r.listed

/-- Every round was right, and a file that was ever on the server is there or was handed on. -/
structure Inv (dir : Text) (s : State) : Prop where
  right : ∀ r ∈ s.rounds, r.Right
  count : ∀ name, s.handedOn.count name + occurs (s.server dir) name = occurs s.uploaded name

section
variable {nettype : NetType} {area : Area} {month : Date}

/-- An upload leaves the other files alone. -/
theorem occurs_insert_of_ne {name file : Text} (h : name ≠ file) (names : Finset Text) :
    occurs (insert file names) name = occurs names name :=
  if_congr (by rw [Finset.mem_insert, or_iff_right h]) rfl rfl

/-- An upload keeps the invariant. -/
theorem Inv.upload {dir name : Text} {s : State} (h : Inv dir s) (hnew : name ∉ s.uploaded) :
    Inv dir { s with
      server := Function.update s.server dir (insert name (s.server dir))
      uploaded := insert name s.uploaded } := by
  refine ⟨h.right, ?_⟩
  intro n
  have hcount := h.count n
  change s.handedOn.count n + occurs (Function.update s.server dir _ dir) n =
    occurs (insert name s.uploaded) n
  rw [Function.update_self]
  rcases eq_or_ne n name with rfl | hne
  · have hzero : occurs s.uploaded n = 0 := if_neg hnew
    have hone : ∀ names : Finset Text, occurs (insert n names) n = 1 := fun names =>
      if_pos (Finset.mem_insert_self n names)
    rw [hone, hone]
    omega
  · rw [occurs_insert_of_ne hne, occurs_insert_of_ne hne]
    exact hcount

/-- So does a round in the month of the directory. -/
theorem Inv.round {clock : ℕ → Date} {io : RoundIo} {s : State} {code ret : Int}
    {listed : List Text} {d : Downloads} (h : Inv (directory nettype month) s)
    (hmonth : ∀ k, SameMonth (clock k) month)
    (hlist : getDirectoryFile nettype area io.garbage io.listing = some (code, listed))
    (hneed : getNeedHandleFileList nettype clock io area s.server = some (ret, d)) :
    Inv (directory nettype month) { s with
      server := d.server
      rounds := s.rounds ++ [⟨listed, d.attempts, d.filelist⟩] } := by
  have hcases := getNeedHandleFileList_cases hlist hneed
  refine ⟨?_, ?_⟩
  · intro r hr
    rcases List.mem_append.1 hr with hr | hr
    · exact h.right r hr
    rw [List.mem_singleton.1 hr]
    rcases hcases with ⟨rfl, rfl⟩ | rfl
    · exact ⟨rfl, rfl⟩
    · exact filelist_downloadLoop listed 1 s.server
  · intro name
    have hdir : ∀ k, directory nettype (clock k) = directory nettype month := fun k =>
      (directory_eq_iff nettype _ _).2 (hmonth k)
    have hround : d.filelist.count name + occurs (d.server (directory nettype month)) name =
        occurs (s.server (directory nettype month)) name := by
      rcases hcases with ⟨-, rfl⟩ | rfl
      · exact Nat.zero_add _
      · exact count_downloadLoop hdir name listed 1 s.server
    have hbefore := h.count name
    rw [State.handedOn, List.flatMap_append, List.count_append, List.flatMap_singleton]
    change s.handedOn.count name + d.filelist.count name + _ = _
    dsimp only
    omega

/-- The invariant holds in every reachable state. -/
theorem inductive_inv : (system nettype area month).Inductive (Inv (directory nettype month)) where
  init s h := by
    obtain ⟨hrounds, huploaded⟩ := h
    refine ⟨?_, ?_⟩
    · rw [hrounds]
      intro r hr
      cases hr
    · intro name
      rw [State.handedOn, hrounds, huploaded]
      exact Nat.zero_add _
  step s a t hstep h := by
    cases hstep with
    | upload hnew => exact h.upload hnew
    | round hmonth hlist hneed => exact h.round hmonth hlist hneed

/-- **Files over the rounds of a month.** For any rounds and uploads and any failures of listings,
downloads and deletions: every round hands on exactly the listed files whose download and deletion
both went well, in the order of the listing; and a file that was ever on the server is there and
was never handed on, or is gone and was handed on exactly once. -/
theorem files_handed_once {s : State} (h : (system nettype area month).Reachable s) :
    (∀ r ∈ s.rounds, r.handedOn = (r.attempts.filter Attempt.succeeded).map Attempt.file ∧
        r.attempts.map Attempt.file = r.listed) ∧
      ∀ name ∈ s.uploaded,
        name ∈ s.server (directory nettype month) ∧ s.handedOn.count name = 0 ∨
          name ∉ s.server (directory nettype month) ∧ s.handedOn.count name = 1 := by
  have hinv := inductive_inv.reachable h
  refine ⟨hinv.right, ?_⟩
  intro name hname
  have hcount := hinv.count name
  have hone : occurs s.uploaded name = 1 := if_pos hname
  by_cases hmem : name ∈ s.server (directory nettype month)
  · have hthere : occurs (s.server (directory nettype month)) name = 1 := if_pos hmem
    exact .inl ⟨hmem, by omega⟩
  · have hgone : occurs (s.server (directory nettype month)) name = 0 := if_neg hmem
    exact .inr ⟨hmem, by omega⟩

end

/-! ## One round -/

namespace OneRound

/-- 21 January 2016. -/
def day : Date := dateOf 2016 1 21 (by decide)

/-- The only file on the server. -/
def file : Text := nameStart .PSTN OtherCity.area

/-- One file was uploaded. -/
def state : State := ⟨fun _ => {file}, {file}, []⟩

/-- A round in which the file is downloaded and deleted. -/
theorem files_handed_once_round : ∃ s, (system .PSTN OtherCity.area day).Reachable s ∧
    s.rounds.length = 1 ∧ file ∈ s.uploaded ∧
      (file ∈ s.server (directory .PSTN day) ∧ s.handedOn.count file = 0 ∨
        file ∉ s.server (directory .PSTN day) ∧ s.handedOn.count file = 1) := by
  have hstep := @Step.round .PSTN OtherCity.area day state (fun _ => day) _ _ _ _ _
    (fun _ => ⟨rfl, rfl⟩) (getDirectoryFile_oneFile (by decide) 0)
    (getNeedHandleFileList_oneFile (by decide) 0 state.server)
  have hreach := (LTS.Reachable.of_init (L := system .PSTN OtherCity.area day)
    (s := state) ⟨rfl, rfl⟩).run (.cons hstep (.nil _))
  refine ⟨_, hreach, rfl, Finset.mem_singleton_self file, ?_⟩
  exact (files_handed_once hreach).2 file (Finset.mem_singleton_self file)

end OneRound

end Detail

/-! ## A change of the month -/

section
variable {nettype : NetType} {clock listings : ℕ → Date} {io : RoundIo}

/-- The calls for a file address the directory. -/
def Attempt.InDirectory (dir : Text) (a : Attempt) : Prop :=
  a.download.1 = dir ∧ ∀ r ∈ a.remove, r.1 = dir

/-- What should hold of a round with these clock readings, when later rounds list at the readings
`listings`: for every answer of the server, all calls for a file address the directory that was
listed, and a file that was listed there is handed on or in a directory that a later round lists. -/
def ListedFilesKept (nettype : NetType) (area : Area) (clock listings : ℕ → Date) : Prop :=
  ∀ (io : RoundIo) (server : Server) (code ret : Int) (listed : List Text) (d : Downloads),
    getDirectoryFile nettype area io.garbage io.listing = some (code, listed) →
    getNeedHandleFileList nettype clock io area server = some (ret, d) →
    (∀ a ∈ d.attempts, a.InDirectory (directory nettype (clock 0))) ∧
      ∀ name ∈ listed, name ∈ server (directory nettype (clock 0)) →
        name ∈ d.filelist ∨ ∃ j, name ∈ d.server (directory nettype (listings j))

/-- A reading between two of the same month is in this month. -/
theorem SameMonth.between {t t' t'' : Date} (h : SameMonth t t'') (h₁ : t ≤ t') (h₂ : t' ≤ t'') :
    SameMonth t t' := by
  obtain ⟨hy, hm⟩ := h
  have h₁' := mt Date.lt_iff.2 (not_lt.2 h₁)
  have h₂' := mt Date.lt_iff.2 (not_lt.2 h₂)
  unfold SameMonth
  omega

/-- The calls of the loop address the directories of its clock readings. -/
theorem inDirectory_downloadLoop {dir : Text} (hdir : ∀ k, directory nettype (clock k) = dir)
    (files : List Text) (k : ℕ) (server : Server) :
    ∀ a ∈ (downloadLoop nettype clock io k server files).attempts, a.InDirectory dir := by
  induction files generalizing k server with
  | nil =>
    intro a ha
    cases ha
  | cons file files ih =>
    have hfirst := @downloadLoop_cons nettype clock io k server file files
    generalize downloadLoop nettype clock io k server (file :: files) = r at hfirst
    intro a ha
    cases hfirst with
    | notDownloaded hcall =>
      rcases List.mem_cons.1 ha with rfl | ha
      · exact ⟨hcall.trans (hdir k), by simp⟩
      · exact ih _ _ a ha
    | notRemoved hcall =>
      rcases List.mem_cons.1 ha with rfl | ha
      · refine ⟨hdir k, ?_⟩
        rintro r ⟨⟩
        exact hcall.trans (hdir (k + 1))
      · exact ih _ _ a ha
    | handedOn =>
      rcases List.mem_cons.1 ha with rfl | ha
      · refine ⟨hdir k, ?_⟩
        rintro r ⟨⟩
        exact hdir (k + 1)
      · exact ih _ _ a ha

/-- A round within one month whose directory is listed again loses no file. -/
theorem listedFilesKept_of_sameMonth {area : Area} (hclock : Monotone clock)
    (hlater : ∀ k, clock k ≤ listings 0) (h : SameMonth (clock 0) (listings 0)) :
    ListedFilesKept nettype area clock listings := by
  have hdir : ∀ k, directory nettype (clock k) = directory nettype (clock 0) := by
    intro k
    rw [eq_comm, directory_eq_iff]
    exact h.between (hclock (Nat.zero_le k)) (hlater k)
  have hnext := (directory_eq_iff nettype _ _).2 h
  intro io server code ret listed d hlist hneed
  rcases getNeedHandleFileList_cases hlist hneed with ⟨rfl, rfl⟩ | rfl
  · refine ⟨?_, ?_⟩
    · intro a ha
      cases ha
    · intro name hname
      cases hname
  · refine ⟨inDirectory_downloadLoop hdir listed 1 server, ?_⟩
    intro name _ hmem
    have hcount := @count_downloadLoop nettype clock io _ hdir name listed 1 server
    have hone : occurs (server (directory nettype (clock 0))) name = 1 := if_pos hmem
    rcases Nat.eq_zero_or_pos (List.count name
      (downloadLoop nettype clock io 1 server listed).filelist) with hzero | hpos
    · refine .inr ⟨0, ?_⟩
      rw [← hnext]
      by_contra hgone
      have hnone : occurs ((downloadLoop nettype clock io 1 server listed).server
        (directory nettype (clock 0))) name = 0 := if_neg hgone
      omega
    · exact .inl (List.count_pos_iff.1 hpos)

/-- A file whose download fails is lost if its directory is not listed again. -/
theorem sameMonth_of_listedFilesKept {area : Area} (hlen : (nameStart nettype area).length < 256)
    (hlist : Monotone listings) (hlater : clock 0 ≤ listings 0)
    (h : ListedFilesKept nettype area clock listings) : SameMonth (clock 0) (listings 0) := by
  let server : Server := fun dir =>
    if dir = directory nettype (clock 0) then {nameStart nettype area} else ∅
  have hcode : downloadFixFile nettype clock (oneFile nettype area 1) server 1
      (nameStart nettype area) ≠ 0 := by
    unfold downloadFixFile
    split
    · exact one_ne_zero
    · decide
  obtain ⟨attempts, hloop⟩ : ∃ attempts, downloadLoop nettype clock (oneFile nettype area 1) 1
      server [nameStart nettype area] = ⟨attempts, [], server⟩ := by
    rw [downloadLoop]
    exact ⟨_, if_neg hcode⟩
  have hmem : nameStart nettype area ∈ server (directory nettype (clock 0)) := by
    simp [server]
  have hneed := @getNeedHandleFileList_oneFile nettype clock _ hlen 1 server
  rw [hloop] at hneed
  have hkept := (h _ server 0 0 _ _ (getDirectoryFile_oneFile hlen 1) hneed).2 _
    (List.mem_singleton_self _) hmem
  rcases hkept with hhanded | ⟨j, hj⟩
  · cases hhanded
  · have hdir : directory nettype (listings j) = directory nettype (clock 0) := by
      by_contra hne
      simp [server, hne] at hj
    exact ((directory_eq_iff nettype _ _).1 hdir.symm).between hlater (hlist (Nat.zero_le j))

end

/-- **When listed files are kept.** For every non-decreasing sequence of clock readings in a round
and in the listings of the later rounds: whatever the server holds and answers, all calls for a file
address the directory that was listed, and every listed file is handed on or in a directory that is
listed later, if and only if the next round lists in the month in which this one did. -/
theorem listed_files_kept_iff (nettype : NetType) (area : Area) (clock listings : ℕ → Date)
    (hlen : (nameStart nettype area).length < 256) (hclock : Monotone clock)
    (hlist : Monotone listings) (hlater : ∀ k, clock k ≤ listings 0) :
    ListedFilesKept nettype area clock listings ↔ SameMonth (clock 0) (listings 0) :=
  ⟨sameMonth_of_listedFilesKept hlen hlist (hlater 0), listedFilesKept_of_sameMonth hclock hlater⟩

/-! ## A round at the end of January -/

namespace MonthChange

/-- The last of January 2016. -/
def jan31 : Date := dateOf 2016 1 31 (by decide)

/-- The day after. -/
def feb1 : Date := dateOf 2016 2 1 (by decide)

/-- The listing is made in January, and all later readings are in February. -/
def clock (k : ℕ) : Date := if k = 0 then jan31 else feb1

/-- The download asks for the file in the directory of February. -/
theorem listed_file_lost : ¬ ListedFilesKept .PSTN OtherCity.area clock fun _ => feb1 := by
  intro h
  have hneed := @getNeedHandleFileList_oneFile .PSTN clock OtherCity.area (by decide) 0
    fun _ => {nameStart .PSTN OtherCity.area}
  have hdirs := (h _ _ 0 0 _ _ (getDirectoryFile_oneFile (by decide) 0) hneed).1
  have hfirst := @downloadLoop_cons .PSTN clock (oneFile .PSTN OtherCity.area 0) 1
    (fun _ => {nameStart .PSTN OtherCity.area}) (nameStart .PSTN OtherCity.area) []
  have hnot : directory .PSTN (clock 1) ≠ directory .PSTN (clock 0) := by
    rw [Ne, directory_eq_iff]
    exact fun hsame => absurd hsame.2 (by decide)
  generalize downloadLoop .PSTN clock (oneFile .PSTN OtherCity.area 0) 1
    (fun _ => {nameStart .PSTN OtherCity.area}) [nameStart .PSTN OtherCity.area] = r
    at hdirs hfirst
  cases hfirst with
  | notDownloaded hcall => exact hnot (hcall.symm.trans (hdirs _ List.mem_cons_self).1)
  | notRemoved => exact hnot (hdirs _ List.mem_cons_self).1
  | handedOn => exact hnot (hdirs _ List.mem_cons_self).1

/-- Rounds within January keep all files. -/
theorem listed_files_kept_january :
    ListedFilesKept .PSTN OtherCity.area (fun _ => jan31) fun _ => jan31 :=
  (listed_files_kept_iff .PSTN OtherCity.area (fun _ => jan31) (fun _ => jan31) (by decide)
    monotone_const monotone_const fun _ => le_rfl).2 ⟨rfl, rfl⟩

end MonthChange

end TelecomSuite.Export
