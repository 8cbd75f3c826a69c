import Mathlib

/-!
# One run of the bill export

`BillProcess::onCDMABill` in line-by-line mode: every source file is read and handed to the script
line by line, its output is appended to an intermediate file, the intermediate files are delivered
and removed, and at the end all source files of the list are removed.

The files a run writes are lists of pieces. A piece that the run appends carries the name of the
source file it is the output of, and what was in a file before the run is one piece without a name;
so a statement that a file's output "is in" a destination speaks about this run. A file that does
not exist is an empty list. The answers of the file system, of the script interpreter and of the
FTP server are parameters: one `FileIo` for each source file, one `DeliverIo` for each delivery.

`onCDMABill_keeps_outputs_iff` says for which answers no output is lost. The removal at the end
does not look at which files were processed, and the local copy and the backup are not checked;
only a failed upload keeps the intermediate file.
-/

namespace TelecomSuite.Export

/-- Text of a file. -/
abbrev Text := List Char

/-- A part of a file: what was appended for a source file of this run, or what was there before. -/
structure Piece where
  source : Option String
  text : Text
  deriving DecidableEq

/-- What is in a file: pieces, each with the source file that it came from. -/
abbrev Content := List Piece

/-- `FileSystem::fileSize`; a missing file counts as empty, as the test `<= 0` does. -/
def fileSize (c : Content) : Nat := (c.map (·.text.length)).sum

/-- A name of an output file, which is never the empty text. -/
abbrev Name := { n : String // n ≠ "" }

/-- The directories a run works on: the source files in the store directory, the intermediate files
by the name of the output, and the three places where an output can go. -/
structure Disk where
  store : String → Option Text
  tmp : Name → Content
  output : Name → Content
  ftp : Name → Content
  bak : Name → Content

/-- The disk and the script's `g_outputFileName`. -/
structure World where
  disk : Disk
  g_outputFileName : Option Name

/-- How the call of `HandleOneFileOutput` goes: the file does not open and the function returns -1,
the call ends in a Lua error and assigns no result, or the first characters are written and the
function returns 0. -/
inductive Append
  | openFails
  | raises
  | writes (n : Nat)
  deriving DecidableEq

/-- The answers one source file meets: whether it opens, at which line the call of `HandleLine`
fails, whether the call of `GetOutputFileName` fails and the time it would see, and the append. -/
structure FileIo where
  opens : Bool
  lineFails : Option Nat
  nameFails : Bool
  time : String
  append : Append

/-- The answers one delivery meets: whether the copy to the output directory, the upload and the
copy to the backup directory succeed. -/
structure DeliverIo where
  copies : Bool
  uploads : Bool
  backs : Bool

/-- The configuration: the call of `HandleLine` with its result and its output line, and
`OutputDestinationType`. -/
structure Config where
  handleLine : Text → Int × Text
  destType : Nat

/-! ## Reading a source file -/

/-- The pieces that `fgets(line, 1024, fp)` returns: up to the end of a line or 1023 characters. -/
def fgetsLines (room : Nat) (line : Text) : Text → List Text
  | [] => if line = [] then [] else [line]
  | c :: cs =>
    if c = '\n' ∨ room ≤ 1 then (line ++ [c]) :: fgetsLines 1023 [] cs
    else fgetsLines (room - 1) (line ++ [c]) cs

/-- What a line adds to the output: nothing if the script rejects it. -/
def lineOutput (cfg : Config) (line : Text) : Text :=
  if (cfg.handleLine line).1 = 0 then (cfg.handleLine line).2 else []

/-- The loop over the lines, up to a call of `HandleLine` that fails. -/
def handleLines (cfg : Config) : List Text → Option Nat → Option Text
  | [], _ => some []
  | _ :: _, some 0 => none
  | line :: lines, some (n + 1) => (handleLines cfg lines (some n)).map (lineOutput cfg line ++ ·)
  | line :: lines, none => (handleLines cfg lines none).map (lineOutput cfg line ++ ·)

/-- The complete processed output of a source file. -/
def processed (cfg : Config) (text : Text) : Text :=
  (fgetsLines 1023 [] text).flatMap (lineOutput cfg)

/-- The script's `GetOutputFileName`: the name is made once, from the time of the first call. -/
def getOutputFileName (g : Option Name) (time : String) : Name :=
  g.getD ⟨"group_" ++ time ++ ".txt", fun h => by
    have := congrArg String.length h
    simp [String.length_append] at this⟩

/-- `HandleOneFileLineByLine`: a code other than 0, or the name of the output. A failed call of
`HandleOneFileOutput` leaves `ret` at the 0 of the last `HandleLine`. -/
def handleOneFileLineByLine (cfg : Config) (w : World) (file : String) (io : FileIo) :
    Except Int Name × World :=
  match w.disk.store file with
  | none => (.error (-1), w)
  | some text =>
    if io.opens = false then (.error (-1), w)
    else match handleLines cfg (fgetsLines 1023 [] text) io.lineFails with
      | none => (.error (-2), w)
      | some outputContent =>
        if io.nameFails then (.error 1, w)
        else
          let name := getOutputFileName w.g_outputFileName io.time
          let w := { w with g_outputFileName := some name }
          match io.append with
          | .openFails => (.error 2, w)
          | .raises => (.ok name, w)
          | .writes n =>
            (.ok name, { w with disk := { w.disk with
              tmp := Function.update w.disk.tmp name
                (w.disk.tmp name ++ [⟨some file, outputContent.take n⟩]) } })

/-! ## Delivery -/

/-- `(destType & eOutputDest_Local) == eOutputDest_Local`. -/
def Config.toLocal (cfg : Config) : Bool := cfg.destType &&& 1 = 1

/-- `(destType & eOutputDest_Ftp) == eOutputDest_Ftp`. -/
def Config.toFtp (cfg : Config) : Bool := cfg.destType &&& 2 = 2

/-- The backup, whose failure is only logged, and the removal of the intermediate file. -/
def backUp (io : DeliverIo) (d : Disk) (name : Name) : Disk :=
  { d with
    bak := if io.backs then Function.update d.bak name (d.tmp name) else d.bak
    tmp := Function.update d.tmp name [] }

/-- The second loop of `HandleAllBillFiles` at one output. -/
def deliver (cfg : Config) (io : DeliverIo) (d : Disk) (name : Name) : Disk :=
  if fileSize (d.tmp name) = 0 then { d with tmp := Function.update d.tmp name [] }
  else
    let d := if cfg.toLocal && io.copies then
        { d with output := Function.update d.output name (d.tmp name) }
      else d
    if cfg.toFtp then
      if io.uploads then backUp io { d with ftp := Function.update d.ftp name (d.tmp name) } name
      else d
    else backUp io d name

/-- The second loop. The `i`-th delivery meets the `i`-th answers. -/
def deliverAll (cfg : Config) (io : Nat → DeliverIo) (d : Disk) : List Name → Nat → Disk
  | [], _ => d
  | name :: names, i => deliverAll cfg io (deliver cfg (io i) d name) names (i + 1)

/-- `m_outputFileList[outputFileName] = outputFullPath`, by the keys of the map. -/
def insertKey (name : Name) (outputs : List Name) : List Name :=
  if name ∈ outputs then outputs else outputs ++ [name]

/-- The first loop of `HandleAllBillFiles`. -/
def handleFiles (cfg : Config) : World → List Name → List (String × FileIo) → World × List Name
  | w, outputs, [] => (w, outputs)
  | w, outputs, (file, io) :: files =>
    match handleOneFileLineByLine cfg w file io with
    | (.error _, w') => handleFiles cfg w' outputs files
    | (.ok name, w') => handleFiles cfg w' (insertKey name outputs) files

/-- `HandleAllBillFiles`. -/
def handleAllBillFiles (cfg : Config) (w : World) (files : List (String × FileIo))
    (io : Nat → DeliverIo) : World :=
  let r := handleFiles cfg w [] files
  { r.1 with disk := deliverAll cfg io r.1.disk r.2 0 }

/-- `onCDMABill` on the files that `GetNeedHandleFileList` gives. -/
def onCDMABill (cfg : Config) (w : World) (files : List (String × FileIo)) (io : Nat → DeliverIo) :
    World :=
  if files = [] then w
  else
    let w := handleAllBillFiles cfg w files io
    { w with disk := { w.disk with
      store := fun f => if f ∈ files.map Prod.fst then none else w.disk.store f } }

/-! ## What the first loop appends -/

section
variable (cfg : Config)

/-- The loop over the lines gives the whole output unless a call fails before the last line. -/
theorem handleLines_eq (lines : List Text) (fails : Option Nat) :
    handleLines cfg lines fails =
      if ∀ n, fails = some n → lines.length ≤ n then some (lines.flatMap (lineOutput cfg))
      else none := by
  induction lines generalizing fails with
  | nil => simp [handleLines]
  | cons line lines ih =>
    cases fails with
    | none => simp [handleLines, ih]
    | some n =>
      cases n with
      | zero => simp [handleLines]
      | succ n =>
        simp only [handleLines, ih]
        by_cases h : lines.length ≤ n
        · simp [h]
        · simp [h]

/-- The piece that the run appends for a source file. -/
def pieceOf (store : String → Option Text) (file : String × FileIo) : Option Piece :=
  match store file.1 with
  | none => none
  | some text =>
    if file.2.opens = false then none
    else match handleLines cfg (fgetsLines 1023 [] text) file.2.lineFails with
      | none => none
      | some outputContent =>
        if file.2.nameFails then none
        else match file.2.append with
          | .openFails | .raises => none
          | .writes n => some ⟨some file.1, outputContent.take n⟩

/-- What `HandleOneFileLineByLine` changes: nothing, or the name and the intermediate file of that
name. -/
inductive HandledOne (w : World) (piece : Option Piece) : Except Int Name × World → Prop
  | skipped {e : Int} : piece = none → HandledOne w piece (.error e, w)
  | named {name : Name} {r : Except Int Name} {tmp : Name → Content} :
      (∀ n, w.g_outputFileName = some n → n = name) →
      tmp = Function.update w.disk.tmp name (w.disk.tmp name ++ piece.toList) →
      (r = .ok name ∨ piece = none ∧ ∃ e, r = .error e) →
      HandledOne w piece (r, ⟨{ w.disk with tmp := tmp }, some name⟩)

/-- What the function changes, with the piece that it writes. -/
theorem handleOneFileLineByLine_handled (w : World) (file : String) (io : FileIo) :
    HandledOne w (pieceOf cfg w.disk.store (file, io))
      (handleOneFileLineByLine cfg w file io) := by
  unfold handleOneFileLineByLine pieceOf
  cases w.disk.store file with
  | none => exact .skipped rfl
  | some text =>
    dsimp only
    split
    · exact .skipped rfl
    cases handleLines cfg (fgetsLines 1023 [] text) io.lineFails with
    | none => exact .skipped rfl
    | some outputContent =>
      dsimp only
      split
      · exact .skipped rfl
      have hname : ∀ n, w.g_outputFileName = some n →
          n = getOutputFileName w.g_outputFileName io.time := by
        intro n hn
        rw [hn]
        rfl
      cases io.append with
      | openFails => exact .named hname (by simp) (.inr ⟨rfl, 2, rfl⟩)
      | raises => exact .named hname (by simp) (.inl rfl)
      | writes n => exact .named hname rfl (.inl rfl)

/-- What the first loop changes: the pieces of all files go, in order, to one intermediate file,
and that file is in the list of outputs if there is a piece. -/
inductive Gathered (w : World) (outputs : List Name) (pieces : List Piece) :
    World × List Name → Prop
  | none : pieces = [] → Gathered w outputs pieces (w, outputs)
  | named {name : Name} {tmp : Name → Content} {outputs' : List Name} :
      (∀ n, w.g_outputFileName = some n → n = name) →
      tmp = Function.update w.disk.tmp name (w.disk.tmp name ++ pieces) →
      (outputs' = insertKey name outputs ∨ pieces = [] ∧ outputs' = outputs) →
      Gathered w outputs pieces (⟨{ w.disk with tmp := tmp }, some name⟩, outputs')

/-- The list of outputs after a name was put in. -/
theorem mem_insertKey {n name : Name} {outputs : List Name} :
    n ∈ insertKey name outputs ↔ n = name ∨ n ∈ outputs := by
  unfold insertKey
  split
  · next hmem =>
    refine ⟨.inr, ?_⟩
    intro h
    rcases h with rfl | h
    · exact hmem
    · exact h
  · simp [or_comm]

/-- A name is put in once. -/
theorem insertKey_idem (name : Name) (outputs : List Name) :
    insertKey name (insertKey name outputs) = insertKey name outputs := by
  unfold insertKey
  by_cases h : name ∈ outputs <;> simp [h]

/-- One more file in front. -/
theorem Gathered.cons {w : World} {name : Name} {tmp : Name → Content} {piece : Option Piece}
    {pieces : List Piece} {outputs outputs₁ : List Name} {r : World × List Name}
    (h : Gathered ⟨{ w.disk with tmp := tmp }, some name⟩ outputs₁ pieces r)
    (hname : ∀ n, w.g_outputFileName = some n → n = name)
    (htmp : tmp = Function.update w.disk.tmp name (w.disk.tmp name ++ piece.toList))
    (hout : outputs₁ = insertKey name outputs ∨ piece = Option.none ∧ outputs₁ = outputs) :
    Gathered w outputs (piece.toList ++ pieces) r := by
  cases h with
  | none hp =>
    refine .named hname (by rw [hp, List.append_nil, htmp]) (hout.imp_right fun ⟨hn, ho⟩ => ?_)
    exact ⟨by simp [hp, hn], ho⟩
  | @named name' tmp' outputs' hname' htmp' hout' =>
    obtain rfl : name = name' := hname' name rfl
    refine .named hname ?_ ?_
    · rw [htmp', htmp]
      simp
    · rcases hout' with hout' | ⟨hp, hout'⟩
      · rcases hout with hout | ⟨-, hout⟩
        · exact .inl (by rw [hout', hout, insertKey_idem])
        · exact .inl (by rw [hout', hout])
      · rcases hout with hout | ⟨hn, hout⟩
        · exact .inl (hout'.trans hout)
        · exact .inr ⟨by simp [hp, hn], hout'.trans hout⟩

/-- The first loop gathers the pieces of all its files. -/
theorem handleFiles_gathered (files : List (String × FileIo)) (w : World) (outputs : List Name) :
    Gathered w outputs (files.filterMap (pieceOf cfg w.disk.store))
      (handleFiles cfg w outputs files) := by
  induction files generalizing w outputs with
  | nil => exact .none rfl
  | cons file files ih =>
    obtain ⟨file, io⟩ := file
    have hone := handleOneFileLineByLine_handled cfg w file io
    have hcons : ((file, io) :: files).filterMap (pieceOf cfg w.disk.store) =
        (pieceOf cfg w.disk.store (file, io)).toList ++
          files.filterMap (pieceOf cfg w.disk.store) := by
      rw [List.filterMap_cons]
      cases pieceOf cfg w.disk.store (file, io) <;> rfl
    rw [handleFiles, hcons]
    generalize handleOneFileLineByLine cfg w file io = r at hone
    generalize pieceOf cfg w.disk.store (file, io) = piece at hone
    cases hone with
    | skipped hp =>
      subst hp
      exact ih w outputs
    | @named name r tmp hname htmp hret =>
      rcases hret with rfl | ⟨hp, e, rfl⟩
      · exact (ih _ _).cons hname htmp (.inl rfl)
      · exact (ih _ _).cons hname htmp (.inr ⟨hp, rfl⟩)

/-! ## The outputs of a run -/

variable (files : List (String × FileIo)) (io : Nat → DeliverIo)

/-- What a run finds: the source files, the texts under the names of outputs, and the script's
name. -/
structure Before where
  store : String → Option Text
  tmp : Name → Text
  output : Name → Text
  ftp : Name → Text
  bak : Name → Text
  g_outputFileName : Option Name

/-- The world before the run; no piece has a name yet. -/
def Before.world (b : Before) : World where
  disk :=
    { store := b.store
      tmp := fun n => [⟨none, b.tmp n⟩]
      output := fun n => [⟨none, b.output n⟩]
      ftp := fun n => [⟨none, b.ftp n⟩]
      bak := fun n => [⟨none, b.bak n⟩] }
  g_outputFileName := b.g_outputFileName

/-- The complete processed output of a source file of the run. -/
def Before.outputOf (b : Before) (file : String) : Text :=
  processed cfg ((b.store file).getD [])

/-- A directory holds the whole output of a source file; an empty output is held anywhere. -/
def Holds (dir : Name → Content) (file : String) (out : Text) : Prop :=
  out = [] ∨ ∃ n, (⟨some file, out⟩ : Piece) ∈ dir n

/-- The source file is still there, or its output is in every selected destination or in the
intermediate file; and it is not gone while its output is nowhere. -/
structure Kept (d : Disk) (file : String) (out : Text) : Prop where
  delivered : (d.store file).isSome ∨ ((cfg.toLocal = true → Holds d.output file out) ∧
    (cfg.toFtp = true → Holds d.ftp file out)) ∨ Holds d.tmp file out
  somewhere : (d.store file).isSome ∨ Holds d.output file out ∨ Holds d.ftp file out ∨
    Holds d.bak file out ∨ Holds d.tmp file out

/-- Some occurrence of the file in the list opens, has no failing call of `HandleLine`, gets a name
and is appended completely. -/
def Processed (b : Before) (file : String) : Prop :=
  ∃ fio : FileIo, (file, fio) ∈ files ∧ fio.opens = true ∧
    (∀ n, fio.lineFails = some n →
      (fgetsLines 1023 [] ((b.store file).getD [])).length ≤ n) ∧
    fio.nameFails = false ∧ ∃ n, fio.append = .writes n ∧ (b.outputOf cfg file).length ≤ n

/-- The delivery loses nothing: the upload is selected and fails, so that the intermediate file
stays; or the local copy succeeds where it is selected, and the backup where nothing is. -/
def Delivered (dio : DeliverIo) : Prop :=
  cfg.toFtp = true ∧ dio.uploads = false ∨
    (cfg.toLocal = true → dio.copies = true) ∧
      (cfg.toLocal = false → cfg.toFtp = false → dio.backs = true)

variable {cfg files io}

/-- A piece knows its source file. -/
theorem pieceOf_source {store : String → Option Text} {file : String × FileIo} {p : Piece}
    (h : pieceOf cfg store file = some p) : p.source = some file.1 := by
  unfold pieceOf at h
  repeat' split at h
  all_goals cases h
  rfl

/-- One file gives its whole output as a piece if nothing fails on the way to the append. -/
theorem pieceOf_eq_iff {b : Before} {file : String} (hout : b.outputOf cfg file ≠ [])
    (fio : FileIo) :
    pieceOf cfg b.store (file, fio) = some ⟨some file, b.outputOf cfg file⟩ ↔ fio.opens = true ∧
      (∀ n, fio.lineFails = some n → (fgetsLines 1023 [] ((b.store file).getD [])).length ≤ n) ∧
      fio.nameFails = false ∧ ∃ n, fio.append = .writes n ∧ (b.outputOf cfg file).length ≤ n := by
  unfold pieceOf
  cases hstore : b.store file with
  | none => simp [Before.outputOf, hstore, processed, fgetsLines] at hout
  | some text =>
    have heq : b.outputOf cfg file = (fgetsLines 1023 [] text).flatMap (lineOutput cfg) := by
      simp [Before.outputOf, hstore, processed]
    simp only [Option.getD_some]
    cases fio.opens with
    | false => simp
    | true =>
      rw [handleLines_eq, ← heq]
      by_cases hfails : ∀ n, fio.lineFails = some n → (fgetsLines 1023 [] text).length ≤ n
      · simp only [if_pos hfails]
        cases fio.nameFails with
        | true => simp
        | false =>
          cases fio.append with
          | openFails | raises => simp
          | writes n =>
            rw [and_iff_right hfails]
            simp
      · simp [hfails]

/-- The pieces of the run are the outputs of the files that were processed. -/
theorem mem_pieces_iff {b : Before} {file : String} (hout : b.outputOf cfg file ≠ []) :
    (⟨some file, b.outputOf cfg file⟩ : Piece) ∈ files.filterMap (pieceOf cfg b.store) ↔
      Processed cfg files b file := by
  rw [List.mem_filterMap]
  constructor
  · rintro ⟨⟨file', fio⟩, hmem, hp⟩
    obtain rfl : file = file' := Option.some.inj (pieceOf_source hp)
    exact ⟨fio, hmem, (pieceOf_eq_iff hout fio).1 hp⟩
  · rintro ⟨fio, hmem, h⟩
    exact ⟨(file, fio), hmem, (pieceOf_eq_iff hout fio).2 h⟩

/-- No piece in the directory was written by the run. -/
def Untagged (dir : Name → Content) : Prop := ∀ n, ∀ p ∈ dir n, p.source = none

/-- A directory without a piece of the run does not hold its output. -/
theorem not_holds {dir : Name → Content} (h : Untagged dir) {file : String} {out : Text}
    (hout : out ≠ []) : ¬ Holds dir file out := by
  rintro (hnil | ⟨n, hmem⟩)
  · exact hout hnil
  · cases h n _ hmem

/-- After one file of the directory is replaced, an output is held exactly if it is in that file. -/
theorem holds_update {dir : Name → Content} (h : Untagged dir) {name : Name} {c : Content}
    {file : String} {out : Text} (hout : out ≠ []) :
    Holds (Function.update dir name c) file out ↔ (⟨some file, out⟩ : Piece) ∈ c := by
  constructor
  · rintro (hnil | ⟨n, hmem⟩)
    · exact absurd hnil hout
    · rcases eq_or_ne n name with rfl | hn
      · simpa using hmem
      · rw [Function.update_of_ne hn] at hmem
        cases h n _ hmem
  · intro hmem
    exact .inr ⟨name, by simpa using hmem⟩

/-- A file without characters holds no output. -/
theorem not_mem_of_fileSize {c : Content} (h : fileSize c = 0) {p : Piece} (hp : p.text ≠ []) :
    p ∉ c := by
  intro hmem
  have hlen := List.sum_eq_zero_iff_forall_eq_nat.1 h p.text.length (List.mem_map.2 ⟨p, hmem, rfl⟩)
  exact hp (List.length_eq_zero_iff.1 hlen)

/-- Where the delivery of an intermediate file `c` leaves an output. -/
theorem deliver_holds (cfg : Config) (dio : DeliverIo) {d : Disk} {name : Name}
    {t : Name → Content} {c : Content} (htmp : d.tmp = Function.update t name c) (ht : Untagged t)
    (hl : Untagged d.output) (hf : Untagged d.ftp) (hb : Untagged d.bak) (hsize : fileSize c ≠ 0)
    (file : String) {out : Text} (hout : out ≠ []) :
    (Holds (deliver cfg dio d name).output file out ↔
        (cfg.toLocal = true ∧ dio.copies = true) ∧ (⟨some file, out⟩ : Piece) ∈ c) ∧
      (Holds (deliver cfg dio d name).ftp file out ↔
        (cfg.toFtp = true ∧ dio.uploads = true) ∧ (⟨some file, out⟩ : Piece) ∈ c) ∧
      (Holds (deliver cfg dio d name).bak file out ↔
        ((cfg.toFtp = true → dio.uploads = true) ∧ dio.backs = true) ∧
          (⟨some file, out⟩ : Piece) ∈ c) ∧
      (Holds (deliver cfg dio d name).tmp file out ↔
        (cfg.toFtp = true ∧ dio.uploads = false) ∧ (⟨some file, out⟩ : Piece) ∈ c) := by
  have hname : d.tmp name = c := by rw [htmp, Function.update_self]
  have hgone : Function.update d.tmp name [] = Function.update t name [] := by
    rw [htmp, Function.update_idem]
  have hkeep : Holds d.tmp file out ↔ (⟨some file, out⟩ : Piece) ∈ c := by
    rw [htmp, holds_update ht hout]
  unfold deliver
  rw [hname, if_neg hsize]
  cases cfg.toLocal <;> cases dio.copies <;> cases cfg.toFtp <;> cases hu : dio.uploads <;>
    cases hbk : dio.backs <;>
    simp [backUp, hbk, hname, hgone, hkeep, holds_update ht hout, holds_update hl hout,
      holds_update hf hout, holds_update hb hout, not_holds hl hout, not_holds hf hout,
      not_holds hb hout]

/-- Nothing of the run is in any directory. -/
theorem not_kept {d : Disk} {file : String} {out : Text} (hout : out ≠ [])
    (hs : d.store file = none) (hl : Untagged d.output) (hf : Untagged d.ftp) (hb : Untagged d.bak)
    (ht : ¬ Holds d.tmp file out) : ¬ Kept cfg d file out := by
  intro hkept
  rcases hkept.somewhere with h | h | h | h | h
  · simp [hs] at h
  · exact not_holds hl hout h
  · exact not_holds hf hout h
  · exact not_holds hb hout h
  · exact ht h

/-- The delivery of an intermediate file that is not empty keeps its outputs exactly if it loses
nothing. -/
theorem kept_deliver_iff {d : Disk} {name : Name} {t : Name → Content} {c : Content}
    {dio : DeliverIo} (htmp : d.tmp = Function.update t name c) (ht : Untagged t)
    (hl : Untagged d.output) (hf : Untagged d.ftp) (hb : Untagged d.bak) (hsize : fileSize c ≠ 0)
    {file : String} {out : Text} (hout : out ≠ []) {store : String → Option Text}
    (hs : store file = none) :
    Kept cfg { deliver cfg dio d name with store := store } file out ↔
      (⟨some file, out⟩ : Piece) ∈ c ∧ Delivered cfg dio := by
  obtain ⟨hlocal, hftp, hbak, htmp'⟩ := deliver_holds cfg dio htmp ht hl hf hb hsize
    file hout
  have hkept : Kept cfg { deliver cfg dio d name with store := store } file out ↔
      (((cfg.toLocal = true → Holds (deliver cfg dio d name).output file out) ∧
          (cfg.toFtp = true → Holds (deliver cfg dio d name).ftp file out)) ∨
        Holds (deliver cfg dio d name).tmp file out) ∧
      (Holds (deliver cfg dio d name).output file out ∨
        Holds (deliver cfg dio d name).ftp file out ∨
        Holds (deliver cfg dio d name).bak file out ∨
        Holds (deliver cfg dio d name).tmp file out) := by
    constructor
    · rintro ⟨h₁, h₂⟩
      simp only [hs, Option.isSome_none, Bool.false_eq_true, false_or] at h₁ h₂
      exact ⟨h₁, h₂⟩
    · rintro ⟨h₁, h₂⟩
      exact ⟨.inr h₁, .inr h₂⟩
  rw [hkept, hlocal, hftp, hbak, htmp', Delivered]
  cases cfg.toLocal <;> cases dio.copies <;> cases cfg.toFtp <;> cases dio.uploads <;>
    cases dio.backs <;> simp

/-- Where the run leaves an output that is not empty. -/
theorem kept_onCDMABill_iff (b : Before) {file : String} (hfile : file ∈ files.map Prod.fst)
    (hout : b.outputOf cfg file ≠ []) :
    Kept cfg (onCDMABill cfg b.world files io).disk file (b.outputOf cfg file) ↔
      (⟨some file, b.outputOf cfg file⟩ : Piece) ∈ files.filterMap (pieceOf cfg b.store) ∧
        Delivered cfg (io 0) := by
  have hne : files ≠ [] := by
    rintro rfl
    cases hfile
  have hold : ∀ t : Name → Text, Untagged fun n => [⟨none, t n⟩] := by
    intro t n p hp
    rw [List.mem_singleton.1 hp]
  have htold : Untagged b.world.disk.tmp := hold b.tmp
  have hgathered := handleFiles_gathered cfg files b.world []
  rw [onCDMABill, if_neg hne]
  simp only [handleAllBillFiles]
  generalize handleFiles cfg b.world [] files = r at hgathered
  change Gathered b.world [] (files.filterMap (pieceOf cfg b.store)) r at hgathered
  generalize files.filterMap (pieceOf cfg b.store) = pieces at hgathered
  cases hgathered with
  | none hp =>
    rw [hp]
    refine iff_of_false ?_ fun h => List.not_mem_nil h.1
    exact not_kept hout (if_pos hfile) (hold _) (hold _) (hold _) (not_holds htold hout)
  | @named name tmp outputs' hname htmp hoff =>
    rcases hoff with rfl | ⟨hp, rfl⟩
    · by_cases hsize : fileSize (b.world.disk.tmp name ++ pieces) = 0
      · refine iff_of_false ?_ ?_
        · have hd : deliverAll cfg io { b.world.disk with tmp := tmp } (insertKey name []) 0 =
              { b.world.disk with tmp := Function.update b.world.disk.tmp name [] } := by
            simp [insertKey, deliverAll, deliver, htmp, hsize]
          refine not_kept hout (if_pos hfile) ?_ ?_ ?_ ?_ <;> rw [hd]
          · exact hold _
          · exact hold _
          · exact hold _
          · change ¬ Holds (Function.update b.world.disk.tmp name []) file _
            rw [holds_update htold hout]
            exact List.not_mem_nil
        · intro h
          exact not_mem_of_fileSize hsize hout (List.mem_append_right _ h.1)
      · have hmem : (⟨some file, b.outputOf cfg file⟩ : Piece) ∈ b.world.disk.tmp name ++ pieces ↔
            (⟨some file, b.outputOf cfg file⟩ : Piece) ∈ pieces := by
          rw [List.mem_append]
          refine ⟨fun h => h.resolve_left ?_, .inr⟩
          intro h
          cases htold name _ h
        rw [← hmem]
        exact kept_deliver_iff htmp htold (hold _) (hold _) (hold _) hsize hout (if_pos hfile)
    · rw [hp]
      refine iff_of_false ?_ fun h => List.not_mem_nil h.1
      refine not_kept hout (if_pos hfile) (hold _) (hold _) (hold _) ?_
      change ¬ Holds tmp file _
      rw [htmp, holds_update htold hout, hp, List.append_nil]
      exact fun h => nomatch htold name _ h

/-- **When no output is lost.** For every list of source files and every pattern of failures: when
`onCDMABill` returns every file of the list is kept, if and only if each file with an output was
processed and appended completely and the delivery lost nothing. -/
theorem onCDMABill_keeps_outputs_iff (cfg : Config) (b : Before) (files : List (String × FileIo))
    (io : Nat → DeliverIo) :
    (∀ file ∈ files.map Prod.fst,
        Kept cfg (onCDMABill cfg b.world files io).disk file (b.outputOf cfg file)) ↔
      ∀ file ∈ files.map Prod.fst, b.outputOf cfg file ≠ [] →
        Processed cfg files b file ∧ Delivered cfg (io 0) := by
  refine forall₂_congr ?_
  intro file hfile
  by_cases hout : b.outputOf cfg file = []
  · refine ⟨fun _ h => absurd hout h, fun _ => ⟨?_, ?_⟩⟩
    · exact .inr (.inr (.inl hout))
    · exact .inr (.inl (.inl hout))
  · rw [kept_onCDMABill_iff b hfile hout, mem_pieces_iff hout]
    exact ⟨fun h _ => h, fun h => h hout⟩

end

/-! ## An output file that cannot be opened -/

namespace NoOutputFile

/-- A script that keeps every line, and delivery to the output directory. -/
def cfg : Config := ⟨fun line => (0, line), 1⟩

/-- One source file with one line, and nothing else. -/
def before : Before where
  store f := if f = "a.txt" then some ['x', '\n'] else none
  tmp _ := []
  output _ := []
  ftp _ := []
  bak _ := []
  g_outputFileName := none

/-- The script cannot open its output file. -/
def files : List (String × FileIo) :=
  [("a.txt", ⟨true, none, false, "20160121000000", .openFails⟩)]

/-- Every delivery succeeds. -/
def io (_ : Nat) : DeliverIo := ⟨true, true, true⟩

/-- `HandleOneFileOutput` returns -1, the loop goes on with the next file, and `onCDMABill` removes
the source file although its output is nowhere. -/
theorem output_lost : ¬ ∀ file ∈ files.map Prod.fst,
    Kept cfg (onCDMABill cfg before.world files io).disk file (before.outputOf cfg file) := by
  intro hall
  have hold : Untagged fun _ => [⟨none, []⟩] := by
    intro n p hp
    rw [List.mem_singleton.1 hp]
  have hout : before.outputOf cfg "a.txt" ≠ [] := by decide
  exact not_kept hout rfl hold hold hold (not_holds hold hout)
    (hall "a.txt" (List.mem_singleton.2 rfl))

end NoOutputFile

end TelecomSuite.Export
