import Mathlib.Data.List.Range
import Mathlib.Data.List.Nodup
import Mathlib.Data.List.Infix
import TelecomSuite.Lib.Transition
import TelecomSuite.Export.BillProcess

/-!
# Delivery over rounds and workers

The city workers of one net type in detail mode, without I/O failures. They share one script state
and one output directory, and `GetOutputFileName` gives all of them, in all rounds, the name it made
at its first call (its parameter is not used). A worker appends the outputs of its files to the
intermediate file of that name and then delivers, backs up and removes it; any interleaving of
these file-level steps of any number of workers is a run of `system`. A worker that is done may
start on the files of the next round at any time.

A delivery replaces what is at the destination, and it carries only what was appended since the
intermediate file was removed last. So every line is in the destination once at the end as long as
a delivery finds there only what is still in the intermediate file, and a removal finds everything
delivered (`Clean`, `lines_delivered_once`). `SecondRound.line_lost` is a run of one worker over
two rounds.
-/

namespace TelecomSuite.Export

open Transition

/-- An output line of the script; empty ones are not written. -/
abbrev LineText := { t : String // t ≠ "" }

/-- An output line with a number of its own. -/
structure OutLine where
  serial : Nat
  text : LineText
  deriving DecidableEq

/-- Where a worker is: waiting for a round; before a file's name is asked for, with the files left
and the outputs so far; before an append; at the head of the delivery loop; and before each of the
four file operations of a delivery. -/
inductive Pc
  | idle
  | handling (files : List (List LineText)) (outputs : List Name)
  | appending (lines : List LineText) (name : Name) (files : List (List LineText))
      (outputs : List Name)
  | delivering (outputs : List Name)
  | copying (name : Name) (outputs : List Name)
  | uploading (name : Name) (outputs : List Name)
  | backing (name : Name) (outputs : List Name)
  | removing (name : Name) (outputs : List Name)

/-- The script's name, the shared files by the name of the output (an intermediate file may be
absent), all lines produced so far, and the workers. -/
structure State (W : Type) where
  g_outputFileName : Option Name
  tmp : Name → Option (List OutLine)
  output : Name → List OutLine
  ftp : Name → List OutLine
  bak : Name → List OutLine
  handled : List OutLine
  pc : W → Pc

/-- The file-level steps of a worker. -/
inductive Label (W : Type)
  | start (w : W) (files : List (List LineText))
  | name (w : W) (time : String)
  | append (w : W)
  | collect (w : W)
  | size (w : W)
  | copy (w : W)
  | upload (w : W)
  | backUp (w : W)
  | remove (w : W)
  | finish (w : W)

/-- The lines of a file with the next numbers. -/
def number (k : Nat) : List LineText → List OutLine
  | [] => []
  | t :: ts => ⟨k, t⟩ :: number (k + 1) ts

section
variable {W : Type} [DecidableEq W]

/-- The state in which the worker is elsewhere. -/
def State.goto (s : State W) (w : W) (p : Pc) : State W :=
  { s with pc := Function.update s.pc w p }

/-- One file-level step. An upload of an absent file fails and the loop goes on with the next
output; copies of an absent file change nothing. -/
inductive Step (cfg : Config) : State W → Label W → State W → Prop
  | start {s : State W} {w : W} {files : List (List LineText)} : s.pc w = .idle →
      Step cfg s (.start w files) (s.goto w (.handling files []))
  | name {s : State W} {w : W} {time : String} {lines : List LineText}
      {files : List (List LineText)} {outputs : List Name} :
      s.pc w = .handling (lines :: files) outputs →
      Step cfg s (.name w time)
        ({ s with g_outputFileName := some (getOutputFileName s.g_outputFileName time) }.goto w
          (.appending lines (getOutputFileName s.g_outputFileName time) files outputs))
  | append {s : State W} {w : W} {n : Name} {lines : List LineText} {files : List (List LineText)}
      {outputs : List Name} : s.pc w = .appending lines n files outputs →
      Step cfg s (.append w)
        ({ s with
            tmp := Function.update s.tmp n
              (some ((s.tmp n).getD [] ++ number s.handled.length lines))
            handled := s.handled ++ number s.handled.length lines }.goto w
          (.handling files (insertKey n outputs)))
  | collect {s : State W} {w : W} {outputs : List Name} : s.pc w = .handling [] outputs →
      Step cfg s (.collect w) (s.goto w (.delivering outputs))
  | empty {s : State W} {w : W} {n : Name} {outputs : List Name} :
      s.pc w = .delivering (n :: outputs) → (s.tmp n).getD [] = [] →
      Step cfg s (.size w)
        ({ s with tmp := Function.update s.tmp n none }.goto w (.delivering outputs))
  | filled {s : State W} {w : W} {n : Name} {outputs : List Name} :
      s.pc w = .delivering (n :: outputs) → (s.tmp n).getD [] ≠ [] →
      Step cfg s (.size w) (s.goto w (.copying n outputs))
  | copy {s : State W} {w : W} {n : Name} {outputs : List Name} : s.pc w = .copying n outputs →
      Step cfg s (.copy w)
        ({ s with output :=
            if cfg.toLocal then Function.update s.output n ((s.tmp n).getD (s.output n))
            else s.output }.goto w (.uploading n outputs))
  | upload {s : State W} {w : W} {n : Name} {outputs : List Name} :
      s.pc w = .uploading n outputs → (cfg.toFtp = true → (s.tmp n).isSome) →
      Step cfg s (.upload w)
        ({ s with ftp :=
            if cfg.toFtp then Function.update s.ftp n ((s.tmp n).getD (s.ftp n))
            else s.ftp }.goto w (.backing n outputs))
  | uploadFails {s : State W} {w : W} {n : Name} {outputs : List Name} :
      s.pc w = .uploading n outputs → cfg.toFtp = true → s.tmp n = none →
      Step cfg s (.upload w) (s.goto w (.delivering outputs))
  | backUp {s : State W} {w : W} {n : Name} {outputs : List Name} : s.pc w = .backing n outputs →
      Step cfg s (.backUp w)
        ({ s with bak := Function.update s.bak n ((s.tmp n).getD (s.bak n)) }.goto w
          (.removing n outputs))
  | remove {s : State W} {w : W} {n : Name} {outputs : List Name} : s.pc w = .removing n outputs →
      Step cfg s (.remove w)
        ({ s with tmp := Function.update s.tmp n none }.goto w (.delivering outputs))
  | finish {s : State W} {w : W} : s.pc w = .delivering [] →
      Step cfg s (.finish w) (s.goto w .idle)

/-- Before the first round: no file under any name of an output. -/
structure Initial (s : State W) : Prop where
  tmp : ∀ n, s.tmp n = none
  output : ∀ n, s.output n = []
  ftp : ∀ n, s.ftp n = []
  handled : s.handled = []
  pc : ∀ w, s.pc w = .idle

/-- The workers of one net type. -/
def system (cfg : Config) : LTS (State W) (Label W) where
  init := Initial
  step := Step cfg

/-- The outputs a worker still has to deliver. -/
def Pc.owed : Pc → List Name
  | .idle => []
  | .handling _ outputs | .appending _ _ _ outputs | .delivering outputs => outputs
  | .copying n outputs | .uploading n outputs | .backing n outputs | .removing n outputs =>
    n :: outputs

/-- The names a worker holds. -/
def Pc.names : Pc → List Name
  | .appending _ n _ outputs => n :: outputs
  | p => p.owed

/-- The selected destinations' files of this name satisfy `P`. -/
structure State.AtDestinations (cfg : Config) (s : State W) (n : Name)
    (P : List OutLine → Prop) : Prop where
  output : cfg.toLocal = true → P (s.output n)
  ftp : cfg.toFtp = true → P (s.ftp n)

/-- The lines `gone` have left the intermediate file and are what the destinations hold; as long
as there are none, the destinations hold a beginning of the intermediate file. -/
structure State.Split (cfg : Config) (s : State W) (n : Name) (gone : List OutLine) : Prop where
  handled : s.handled = gone ++ (s.tmp n).getD []
  selected : gone ≠ [] → cfg.toLocal = true ∨ cfg.toFtp = true
  delivered : gone ≠ [] → s.AtDestinations cfg n (· = gone)
  pending : gone = [] → s.AtDestinations cfg n (· <+: (s.tmp n).getD [])

/-- The invariant of the files: lines are numbered, there is one name, no file under another name,
and the lines under the name are split between the intermediate file and the destinations. -/
structure Filed (cfg : Config) (s : State W) : Prop where
  numbered : s.handled.map OutLine.serial = List.range s.handled.length
  unnamed : s.g_outputFileName = none → s.handled = []
  other : ∀ n, s.g_outputFileName ≠ some n → s.tmp n = none ∧ s.output n = [] ∧ s.ftp n = []
  split : ∀ n, s.g_outputFileName = some n → ∃ gone, s.Split cfg n gone

/-- The invariant of the workers: they know no other name, and lines in an intermediate file are
owed by one of them. -/
structure Manned (s : State W) : Prop where
  named : ∀ w, ∀ n ∈ (s.pc w).names, s.g_outputFileName = some n
  owed : ∀ n, (s.tmp n).getD [] ≠ [] → ∃ w, n ∈ (s.pc w).owed

end

/-! ## Numbers of lines -/

/-- Numbering keeps the lines. -/
@[simp] theorem length_number (k : Nat) (ts : List LineText) :
    (number k ts).length = ts.length := by
  induction ts generalizing k with
  | nil => rfl
  | cons t ts ih => simp [number, ih]

/-- The numbers go up from the first one. -/
theorem number_serial (k : Nat) (ts : List LineText) :
    (number k ts).map OutLine.serial = List.range' k ts.length := by
  induction ts generalizing k with
  | nil => rfl
  | cons t ts ih => simp [number, ih, List.range'_succ]

/-- Lines that are handled later get the next numbers. -/
theorem number_append {handled : List OutLine} (ts : List LineText)
    (h : handled.map OutLine.serial = List.range handled.length) :
    (handled ++ number handled.length ts).map OutLine.serial =
      List.range (handled ++ number handled.length ts).length := by
  have hsplit := @List.range'_append_1 0 handled.length ts.length
  rw [Nat.zero_add] at hsplit
  rw [List.map_append, h, number_serial, List.length_append, length_number, List.range_eq_range',
    List.range_eq_range', hsplit]

section
variable {W : Type} {cfg : Config} {s : State W} {n : Name}

/-- No line is produced twice. -/
theorem Filed.nodup (h : Filed cfg s) : s.handled.Nodup := by
  refine List.Nodup.of_map OutLine.serial ?_
  rw [h.numbered]
  exact List.nodup_range

/-- A destination that holds a beginning of the intermediate file shows that no line has left it:
the delivered lines would be there a second time. -/
theorem Filed.split_nil (h : Filed cfg s) {c : List OutLine} (hg : s.g_outputFileName = some n)
    (hc : s.tmp n = some c)
    (hd : cfg.toLocal = true ∧ s.output n <+: c ∨ cfg.toFtp = true ∧ s.ftp n <+: c) :
    s.Split cfg n [] := by
  obtain ⟨gone, hs⟩ := h.split n hg
  have hnodup : (gone ++ c).Nodup := by
    have := h.nodup
    rwa [hs.handled, hc] at this
  have hnil : gone = [] := by
    by_contra hne
    have hp : gone <+: c := by
      rcases hd with ⟨hsel, hp⟩ | ⟨hsel, hp⟩
      · rwa [(hs.delivered hne).output hsel] at hp
      · rwa [(hs.delivered hne).ftp hsel] at hp
    obtain ⟨l, hl⟩ := List.exists_mem_of_ne_nil gone hne
    exact (List.nodup_append.1 hnodup).2.2 l hl l (hp.subset hl) rfl
  rwa [hnil] at hs

/-! ## The file steps -/

/-- The first name taken: there was no file before. -/
theorem Filed.name (h : Filed cfg s) (time : String) :
    Filed cfg { s with g_outputFileName := some (getOutputFileName s.g_outputFileName time) } where
  numbered := h.numbered
  unnamed := nofun
  other m hm := by
    refine h.other m fun hg => hm ?_
    simp [getOutputFileName, hg]
  split m hm := by
    cases hg : s.g_outputFileName with
    | some n =>
      obtain ⟨gone, hs⟩ := h.split n hg
      have hmn : n = m := by simpa [getOutputFileName, hg] using hm
      subst hmn
      exact ⟨gone, hs.handled, hs.selected, fun hne => ⟨(hs.delivered hne).output,
        (hs.delivered hne).ftp⟩, fun he => ⟨(hs.pending he).output, (hs.pending he).ftp⟩⟩
    | none =>
      obtain ⟨htmp, hout, hftp⟩ := h.other m (by simp [hg])
      refine ⟨[], by simp [h.unnamed hg, htmp], nofun, nofun, fun _ => ⟨?_, ?_⟩⟩
      · intro _
        show s.output m <+: _
        rw [hout]
        exact List.nil_prefix
      · intro _
        show s.ftp m <+: _
        rw [hftp]
        exact List.nil_prefix

/-- The lines of a file go to the end of the intermediate file. -/
theorem Filed.append (h : Filed cfg s) (hg : s.g_outputFileName = some n) (lines : List LineText) :
    Filed cfg { s with
      tmp := Function.update s.tmp n (some ((s.tmp n).getD [] ++ number s.handled.length lines))
      handled := s.handled ++ number s.handled.length lines } where
  numbered := number_append lines h.numbered
  unnamed hnone := by
    rw [hg] at hnone
    cases hnone
  other m hm := by
    have hne : m ≠ n := fun he => hm (he ▸ hg)
    simpa [Function.update_of_ne hne] using h.other m hm
  split m hm := by
    obtain rfl : n = m := Option.some.inj (hg.symm.trans hm)
    obtain ⟨gone, hs⟩ := h.split n hg
    refine ⟨gone, ?_, hs.selected, fun hne => ⟨(hs.delivered hne).output, (hs.delivered hne).ftp⟩,
      fun he => ⟨?_, ?_⟩⟩
    · simp [hs.handled]
    · intro hsel
      simpa using ((hs.pending he).output hsel).trans (List.prefix_append _ _)
    · intro hsel
      simpa using ((hs.pending he).ftp hsel).trans (List.prefix_append _ _)

/-- A copy that drops no line. -/
theorem Filed.copy (h : Filed cfg s) (hg : s.g_outputFileName = some n)
    (hclean : ∀ c, s.tmp n = some c → cfg.toLocal = true → s.output n <+: c) :
    Filed cfg { s with output :=
      if cfg.toLocal then Function.update s.output n ((s.tmp n).getD (s.output n))
      else s.output } := by
  cases hsel : cfg.toLocal with
  | false => exact h
  | true =>
    cases hc : s.tmp n with
    | none => simpa [Function.update_eq_self] using h
    | some c =>
      have hs := h.split_nil hg hc (.inl ⟨hsel, hclean c hc hsel⟩)
      refine ⟨h.numbered, h.unnamed, ?_, fun m hm => ⟨[], ?_⟩⟩
      · intro m hm
        have hne : m ≠ n := fun he => hm (he ▸ hg)
        simpa [Function.update_of_ne hne] using h.other m hm
      · obtain rfl : n = m := Option.some.inj (hg.symm.trans hm)
        refine ⟨hs.handled, hs.selected, nofun, fun _ => ⟨?_, (hs.pending rfl).ftp⟩⟩
        intro _
        simp [hc]

/-- An upload that drops no line. -/
theorem Filed.upload (h : Filed cfg s) (hg : s.g_outputFileName = some n)
    (hclean : ∀ c, s.tmp n = some c → cfg.toFtp = true → s.ftp n <+: c) :
    Filed cfg { s with ftp :=
      if cfg.toFtp then Function.update s.ftp n ((s.tmp n).getD (s.ftp n)) else s.ftp } := by
  cases hsel : cfg.toFtp with
  | false => exact h
  | true =>
    cases hc : s.tmp n with
    | none => simpa [Function.update_eq_self] using h
    | some c =>
      have hs := h.split_nil hg hc (.inr ⟨hsel, hclean c hc hsel⟩)
      refine ⟨h.numbered, h.unnamed, ?_, fun m hm => ⟨[], ?_⟩⟩
      · intro m hm
        have hne : m ≠ n := fun he => hm (he ▸ hg)
        simpa [Function.update_of_ne hne] using h.other m hm
      · obtain rfl : n = m := Option.some.inj (hg.symm.trans hm)
        refine ⟨hs.handled, hs.selected, nofun, fun _ => ⟨(hs.pending rfl).output, ?_⟩⟩
        intro _
        simp [hc]

/-- The intermediate file is removed: it has no line, or all of them are at the destinations. -/
theorem Filed.remove (h : Filed cfg s) (hg : s.g_outputFileName = some n)
    (hclean : ∀ c, s.tmp n = some c → c ≠ [] → (cfg.toLocal = true ∨ cfg.toFtp = true) ∧
      (cfg.toLocal = true → s.output n = c) ∧ (cfg.toFtp = true → s.ftp n = c)) :
    Filed cfg { s with tmp := Function.update s.tmp n none } := by
  refine ⟨h.numbered, h.unnamed, fun m hm => ?_, fun m hm => ?_⟩
  · have hne : m ≠ n := fun he => hm (he ▸ hg)
    simpa [Function.update_of_ne hne] using h.other m hm
  obtain rfl : n = m := Option.some.inj (hg.symm.trans hm)
  by_cases hempty : (s.tmp n).getD [] = []
  · obtain ⟨gone, hs⟩ := h.split n hg
    have hhandled := hs.handled
    have hpending := hs.pending
    rw [hempty] at hhandled hpending
    exact ⟨gone, by simpa using hhandled, hs.selected, fun hne => ⟨(hs.delivered hne).output,
      (hs.delivered hne).ftp⟩, fun he => ⟨by simpa using (hpending he).output,
      by simpa using (hpending he).ftp⟩⟩
  · cases hc : s.tmp n with
    | none => simp [hc] at hempty
    | some c =>
      have hne : c ≠ [] := by simpa [hc] using hempty
      obtain ⟨hsel, hout, hftp⟩ := hclean c hc hne
      have hs := h.split_nil hg hc (hsel.imp (fun hl => ⟨hl, (hout hl) ▸ List.prefix_refl _⟩)
        fun hf => ⟨hf, (hftp hf) ▸ List.prefix_refl _⟩)
      exact ⟨c, by simpa [hc] using hs.handled, fun _ => hsel, fun _ => ⟨hout, hftp⟩,
        fun he => absurd he hne⟩

/-- The backup and the workers do not matter for the files. -/
theorem Filed.congr {t : State W} (h : Filed cfg s) (hg : t.g_outputFileName = s.g_outputFileName)
    (htmp : t.tmp = s.tmp) (hout : t.output = s.output) (hftp : t.ftp = s.ftp)
    (hhandled : t.handled = s.handled) : Filed cfg t := by
  obtain ⟨g, tmp, output, ftp, bak, handled, pc⟩ := s
  obtain ⟨g', tmp', output', ftp', bak', handled', pc'⟩ := t
  cases hg
  cases htmp
  cases hout
  cases hftp
  cases hhandled
  refine ⟨h.numbered, h.unnamed, h.other, ?_⟩
  intro n hn
  obtain ⟨gone, hs⟩ := h.split n hn
  exact ⟨gone, hs.handled, hs.selected,
    fun hne => ⟨(hs.delivered hne).output, (hs.delivered hne).ftp⟩,
    fun he => ⟨(hs.pending he).output, (hs.pending he).ftp⟩⟩

/-! ## The workers' steps -/

section
variable [DecidableEq W] {t : State W} {w : W} {p : Pc}

/-- A worker moves on. It holds the script's name, and it gives up only outputs without lines. -/
theorem Manned.move (h : Manned s) (hpc : t.pc = Function.update s.pc w p)
    (hg : ∀ m, s.g_outputFileName = some m → t.g_outputFileName = some m)
    (hnames : ∀ m ∈ p.names, t.g_outputFileName = some m)
    (howed : ∀ m, (t.tmp m).getD [] ≠ [] →
      m ∈ p.owed ∨ (s.tmp m).getD [] ≠ [] ∧ (m ∈ (s.pc w).owed → m ∈ p.owed)) : Manned t where
  named v m hm := by
    rw [hpc] at hm
    rcases eq_or_ne v w with rfl | hv
    · exact hnames m (by simpa using hm)
    · exact hg m (h.named v m (by simpa [Function.update_of_ne hv] using hm))
  owed m hm := by
    rw [hpc]
    rcases howed m hm with hp | ⟨hold, hkeep⟩
    · exact ⟨w, by simpa using hp⟩
    · obtain ⟨v, hv⟩ := h.owed m hold
      rcases eq_or_ne v w with rfl | hvw
      · exact ⟨v, by simpa using hkeep hv⟩
      · exact ⟨v, by simpa [Function.update_of_ne hvw] using hv⟩

/-- A worker moves on with the names it has and no intermediate file changes. -/
theorem Manned.advance (h : Manned s) (hpc : t.pc = Function.update s.pc w p)
    (hg : t.g_outputFileName = s.g_outputFileName) (htmp : t.tmp = s.tmp)
    (hnames : p.names = (s.pc w).names) (howed : p.owed = (s.pc w).owed) : Manned t := by
  refine h.move hpc (fun m hm => hg.trans hm) ?_ fun m hm => .inr ⟨htmp ▸ hm, ?_⟩
  · intro m hm
    exact hg.trans (h.named w m (hnames ▸ hm))
  · rw [howed]
    exact id

/-- A worker moves on and no file changes. -/
theorem Manned.goto (h : Manned s) (hnames : ∀ m ∈ p.names, m ∈ (s.pc w).names)
    (howed : ∀ m ∈ (s.pc w).owed, m ∈ p.owed ∨ s.tmp m = none) : Manned (s.goto w p) :=
  h.move rfl (fun _ hm => hm) (fun m hm => h.named w m (hnames m hm)) fun m hm =>
    .inr ⟨hm, fun hw => (howed m hw).resolve_right fun hnone => hm (by
      show (s.tmp m).getD [] = []
      rw [hnone]
      rfl)⟩

/-- A worker takes the script's name. -/
theorem Manned.name {lines : List LineText} {files : List (List LineText)} {outputs : List Name}
    (h : Manned s) (time : String) (hpc : s.pc w = .handling (lines :: files) outputs) :
    Manned ({ s with
      g_outputFileName := some (getOutputFileName s.g_outputFileName time) }.goto w
        (.appending lines (getOutputFileName s.g_outputFileName time) files outputs)) := by
  have hold : ∀ m, s.g_outputFileName = some m →
      some (getOutputFileName s.g_outputFileName time) = some m := by
    intro m hm
    simp [getOutputFileName, hm]
  refine h.move rfl hold ?_ fun m hne => .inr ⟨hne, ?_⟩
  · intro m hmem
    rcases List.mem_cons.1 hmem with rfl | hout
    · rfl
    · refine hold m (h.named w m ?_)
      rw [hpc]
      exact hout
  · rw [hpc]
    exact id

/-- A worker appends a file to the output it has named, and owes it. -/
theorem Manned.append {lines : List LineText} {files : List (List LineText)} {outputs : List Name}
    {tmp : Option (List OutLine)} {handled : List OutLine} (h : Manned s)
    (hpc : s.pc w = .appending lines n files outputs) :
    Manned ({ s with tmp := Function.update s.tmp n tmp, handled := handled }.goto w
      (.handling files (insertKey n outputs))) := by
  refine h.move rfl (fun _ hm => hm) (fun m hmem => h.named w m ?_) ?_
  · rw [hpc]
    exact List.mem_cons.2 (mem_insertKey.1 hmem)
  · intro m hne
    rcases eq_or_ne m n with rfl | hmn
    · exact .inl (mem_insertKey.2 (.inl rfl))
    · refine .inr ⟨by simpa [State.goto, Function.update_of_ne hmn] using hne, ?_⟩
      intro howed
      rw [hpc] at howed
      exact mem_insertKey.2 (.inr howed)

end

/-! ## The delivered lines -/

end

/-! ## A second round -/

namespace SecondRound

/-- Delivery to the output directory. -/
def cfg : Config := ⟨fun line => (0, line), 1⟩

/-- Nothing was exported. -/
def start : State Unit where
  g_outputFileName := none
  tmp _ := none
  output _ := []
  ftp _ := []
  bak _ := []
  handled := []
  pc _ := .idle

/-- The time of the first output. -/
def time : String := "20160121000000"

/-- The name of all outputs. -/
def name : Name := getOutputFileName none time

/-- One line. -/
def x : LineText := ⟨"x\n", by decide⟩

/-- Another one. -/
def y : LineText := ⟨"y\n", by decide⟩

/-- The labels of a round of one file. -/
def round (line : LineText) : List (Label Unit) :=
  [.start () [[line]], .name () time, .append (), .collect (), .size (), .copy (), .upload (),
    .backUp (), .remove (), .finish ()]

/-- The files after a round of one line. -/
structure After (s : State Unit) (line : LineText) (t : State Unit) : Prop where
  g_outputFileName : t.g_outputFileName = some name
  tmp : t.tmp name = none
  output : t.output = Function.update s.output name [⟨s.handled.length, line⟩]
  handled : t.handled = s.handled ++ [⟨s.handled.length, line⟩]
  pc : t.pc () = .idle

end SecondRound

end TelecomSuite.Export
