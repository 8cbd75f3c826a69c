import TelecomSuite.Lib.TextSearch
import TelecomSuite.Dagw.Service

/-!
# One DBF file, one worker

`dbfindex` looks for three spellings of the extension and sums the token before it, which decides
about the worker; 0 means that the text names no DBF file. The walk back stops at the first
character of the text without counting it. `same_worker_iff` says for which two texts the worker is
the same whatever the number of workers and the round-robin index are.
-/

namespace TelecomSuite.Dagw

/-! ## Texts with one DBF token -/

/-- A space or a tab. -/
def isBlank (c : Char) : Bool := c = ' ' || c = '\t'

/-- A character without regard to its case. -/
def upperChar (c : Char) : Char := if 'a' ≤ c ∧ c ≤ 'z' then .ofNat (c.toNat - 32) else c

/-- The extension stands somewhere in the text, in any letter case. -/
def HasDbf (s : List Char) : Prop := ".DBF".toList <:+: s.map upperChar

/-- Whether a text has a table suffix can be computed. -/
instance (s : List Char) : Decidable (HasDbf s) := inferInstanceAs (Decidable (_ <:+: _))

/-- A text with one DBF token. -/
structure DbfText where
  pre : List Char
  tok : List Char
  post : List Char
  pre_end : ∀ c ∈ pre.getLast?, isBlank c = true
  post_start : ∀ c ∈ post.head?, isBlank c = true
  tok_run : ∀ c ∈ tok, isBlank c = false
  tok_dbf : HasDbf tok
  pre_none : ¬HasDbf pre
  post_none : ¬HasDbf post

/-- The text with the word in its place. -/
def DbfText.text (d : DbfText) : List Char := d.pre ++ d.tok ++ d.post

/-- `HandleExecSQL` selects the same worker for both texts, at any source and whatever the
round-robin index is each time. -/
def SameWorker (d d' : DbfText) : Prop :=
  ∀ (W : Type) (info info' : CDBProcInfo W) (utm utm' : UserTransferMessage),
    info'.m_vctProcess = info.m_vctProcess → utm.sql.toList = d.text → utm'.sql.toList = d'.text →
      (route info utm).1 = (route info' utm').1

/-- The token from the occurrence that `dbfindex` finds on. -/
def firstDbf (s : List Char) : Option (List Char) :=
  (strstr ".dbf".toList s).or ((strstr ".DBF".toList s).or (strstr ".Dbf".toList s))

/-- The characters up to the dot, without the first one if the token begins the text. -/
def DbfText.counted (d : DbfText) (pc : List Char) : List Char :=
  (d.tok.take (d.tok.length - pc.length + 1)).drop (if d.pre = [] then 1 else 0)

/-- The sum of the characters as `toupper` gives them, in 32 bits. -/
def upperSum (s : List Char) : BitVec 32 := (s.map toupper).sum

/-- Both tokens have the extension in one of the three spellings, and what is counted of them has
the same sum, other than 0. -/
def SameCount (d d' : DbfText) : Prop :=
  ∃ pc pc', firstDbf d.tok = some pc ∧ firstDbf d'.tok = some pc' ∧
    upperSum (d.counted pc) = upperSum (d'.counted pc') ∧ upperSum (d.counted pc) ≠ 0

/-! ## The searches -/

/-- A text has the suffix if a part of it has. -/
theorem HasDbf.mono {s t : List Char} (h : HasDbf s) (hst : s <:+: t) : HasDbf t :=
  h.trans (hst.map upperChar)

/-- `strstr` is the search of the library. -/
theorem strstr_eq_find (pat s : List Char) : strstr pat s = TextSearch.find pat s := by
  induction s with
  | nil => rfl
  | cons c s ih => rw [strstr, TextSearch.find, ih]

/-- A spelling of the extension. -/
structure Spelling (pat : List Char) : Prop where
  upper : pat.map upperChar = ".DBF".toList
  run : ∀ c ∈ pat, isBlank c = false

/-- The three spellings that the code looks for. -/
theorem spellings : Spelling ".dbf".toList ∧ Spelling ".DBF".toList ∧ Spelling ".Dbf".toList :=
  ⟨⟨by decide, by simp [isBlank]⟩, ⟨by decide, by simp [isBlank]⟩, ⟨by decide, by simp [isBlank]⟩⟩

section
variable {pat : List Char} (hpat : Spelling pat)

include hpat

/-- None of them is empty. -/
theorem Spelling.ne_nil : pat ≠ [] := by
  rintro rfl
  exact absurd hpat.upper (by decide)

/-- None of them has a blank in it. -/
theorem Spelling.blank_notMem {c : Char} (hc : isBlank c = true) : c ∉ pat := by
  intro hmem
  rw [hpat.run c hmem] at hc
  cases hc

/-- What a search finds contains the extension. -/
theorem Spelling.hasDbf {s t : List Char} (h : strstr pat s = some t) : HasDbf s := by
  rw [strstr_eq_find] at h
  obtain ⟨hsuf, hpre⟩ := TextSearch.find_some h
  have hinfix := (hpre.isInfix.trans hsuf.isInfix).map upperChar
  rwa [hpat.upper] at hinfix

/-- In a text without suffix none of them is found. -/
theorem Spelling.strstr_none {s : List Char} (h : ¬HasDbf s) : strstr pat s = none :=
  Option.eq_none_iff_forall_ne_some.2 fun _ ht => h (hpat.hasDbf ht)

/-- A search goes through the text up to a blank and then through what is behind it. -/
theorem Spelling.strstr_append_cons {c : Char} (hc : isBlank c = true) (u s : List Char) :
    strstr pat (u ++ c :: s) = ((strstr pat u).map (· ++ c :: s)).or (strstr pat s) := by
  simp only [strstr_eq_find]
  exact TextSearch.find_append_cons (hpat.blank_notMem hc) hpat.ne_nil u s

/-- The extension is found in the token or not at all. -/
theorem Spelling.strstr_text (d : DbfText) :
    strstr pat d.text = (strstr pat d.tok).map (· ++ d.post) := by
  have hpost : strstr pat (d.tok ++ d.post) = (strstr pat d.tok).map (· ++ d.post) := by
    have hnone := d.post_none
    have hstart := d.post_start
    cases hd : d.post with
    | nil => simp
    | cons c post =>
      rw [hd] at hnone hstart
      rw [hpat.strstr_append_cons (hstart c rfl),
        hpat.strstr_none fun h => hnone (h.mono (List.suffix_cons c post).isInfix), Option.or_none]
  have hnone := d.pre_none
  have hend := d.pre_end
  rw [DbfText.text, List.append_assoc]
  rcases d.pre.eq_nil_or_concat' with hpre | ⟨pre, c, hpre⟩
  · rw [hpre, List.nil_append, hpost]
  · rw [hpre] at hnone hend ⊢
    rw [List.append_assoc, List.singleton_append,
      hpat.strstr_append_cons (hend c List.getLast?_concat),
      hpat.strstr_none fun h => hnone (h.mono (List.prefix_append pre [c]).isInfix), hpost]
    rfl

end

/-- The first suffix of the text is that of the word. -/
theorem firstDbf_text (d : DbfText) : firstDbf d.text = (firstDbf d.tok).map (· ++ d.post) := by
  obtain ⟨h₁, h₂, h₃⟩ := spellings
  rw [firstDbf, h₁.strstr_text, h₂.strstr_text, h₃.strstr_text, firstDbf, Option.map_or,
    Option.map_or]

/-- What is found is the end of the text from there on. -/
theorem firstDbf_suffix {s pc : List Char} (h : firstDbf s = some pc) : pc <:+ s ∧ pc ≠ [] := by
  have hfind : ∀ {pat}, Spelling pat → strstr pat s = some pc → pc <:+ s ∧ pc ≠ [] := by
    intro pat hpat hs
    rw [strstr_eq_find] at hs
    obtain ⟨hsuf, hpre⟩ := TextSearch.find_some hs
    refine ⟨hsuf, ?_⟩
    rintro rfl
    exact hpat.ne_nil (List.prefix_nil.1 hpre)
  obtain ⟨h₁, h₂, h₃⟩ := spellings
  rcases Option.or_eq_some_iff.1 h with h | ⟨-, h⟩
  · exact hfind h₁ h
  · rcases Option.or_eq_some_iff.1 h with h | ⟨-, h⟩
    · exact hfind h₂ h
    · exact hfind h₃ h

/-! ## The walk back -/

/-- A walk over a run of characters that are no blanks. -/
theorem dbfWalk_add (src : List Char) (i k : ℕ) (hk : i + k < src.length)
    (h : ∀ c ∈ (src.drop (i + 1)).take k, isBlank c = false) :
    dbfWalk src (i + k) = upperSum ((src.drop (i + 1)).take k) + dbfWalk src i := by
  induction k with
  | zero => simp [upperSum]
  | succ k ih =>
    have hget : (src.drop (i + 1))[k]? = src[i + k + 1]? := by
      rw [List.getElem?_drop, Nat.add_right_comm]
    obtain ⟨c, hc⟩ : ∃ c, src[i + k + 1]? = some c :=
      ⟨_, List.getElem?_eq_getElem (by omega)⟩
    rw [hc] at hget
    have htake : (src.drop (i + 1)).take (k + 1) = (src.drop (i + 1)).take k ++ [c] := by
      rw [List.take_add_one, hget]
      rfl
    rw [htake] at h ⊢
    have hblank := h c (List.mem_append_right _ (List.mem_singleton_self c))
    have hsum : upperSum ((src.drop (i + 1)).take k ++ [c]) =
        toupper c + upperSum ((src.drop (i + 1)).take k) := by
      rw [upperSum, List.map_append, List.sum_append, List.map_singleton, List.sum_singleton,
        add_comm, upperSum]
    rw [hsum, add_assoc, ← ih (by omega) fun c hc => h c (List.mem_append_left _ hc)]
    change dbfWalk src (i + k + 1) = _
    rw [dbfWalk, hc]
    simp only [isBlank, Bool.or_eq_false_iff, decide_eq_false_iff_not] at hblank
    exact if_neg (not_or.2 hblank)

/-- A walk stops at a blank, and at the first character of the text. -/
theorem dbfWalk_blank {src : List Char} {i : ℕ} (h : ∀ c ∈ src[i]?, isBlank c = true) :
    dbfWalk src i = 0 := by
  cases i with
  | zero => rfl
  | succ i =>
    rw [dbfWalk]
    split
    · next c hc =>
      have hblank := h c hc
      simp only [isBlank, Bool.or_eq_true, decide_eq_true_eq] at hblank
      exact if_pos hblank
    · rfl

/-- The walk from the `k`-th character of the token. -/
theorem dbfWalk_text (d : DbfText) {k : ℕ} (hk : k < d.tok.length) :
    dbfWalk d.text (d.pre.length + k) =
      upperSum ((d.tok.take (k + 1)).drop (if d.pre = [] then 1 else 0)) := by
  have hend := d.pre_end
  rcases d.pre.eq_nil_or_concat' with hpre | ⟨pre, c, hpre⟩
  · have htake : (d.text.drop (0 + 1)).take k = (d.tok.take (k + 1)).drop 1 := by
      rw [DbfText.text, hpre, List.nil_append, Nat.zero_add,
        List.drop_append_of_le_length (by omega),
        List.take_append_of_le_length (by rw [List.length_drop]; omega), List.drop_take,
        Nat.add_sub_cancel]
    have hlength : 0 + k < d.text.length := by
      rw [DbfText.text, List.length_append, List.length_append]
      omega
    rw [hpre, if_pos rfl, List.length_nil, dbfWalk_add d.text 0 k hlength, htake]
    · exact add_zero _
    · rw [htake]
      exact fun c hc => d.tok_run c (List.mem_of_mem_take (List.mem_of_mem_drop hc))
  · rw [hpre] at hend
    have hne : d.pre ≠ [] := by simp [hpre]
    have htext : d.text = pre ++ c :: (d.tok ++ d.post) := by simp [DbfText.text, hpre]
    have htake : (d.text.drop (pre.length + 1)).take (k + 1) = d.tok.take (k + 1) := by
      rw [htext, List.drop_length_add_append, List.drop_one, List.tail_cons,
        List.take_append_of_le_length hk]
    have hlength : pre.length + (k + 1) < d.text.length := by
      rw [htext, List.length_append, List.length_cons, List.length_append]
      omega
    have hstop : dbfWalk d.text pre.length = 0 := by
      refine dbfWalk_blank fun b hb => ?_
      rw [htext, List.getElem?_append_right (le_refl _), Nat.sub_self] at hb
      cases hb
      exact hend c List.getLast?_concat
    have hindex : d.pre.length + k = pre.length + (k + 1) := by
      rw [hpre, List.length_append, List.length_singleton]
      omega
    rw [hindex, if_neg hne, List.drop_zero, dbfWalk_add d.text pre.length (k + 1) hlength, htake,
      hstop, add_zero]
    rw [htake]
    exact fun c hc => d.tok_run c (List.mem_of_mem_take hc)

/-- What `dbfindex` sums. -/
theorem dbfindex_text (d : DbfText) : dbfindex d.text =
    match firstDbf d.tok with
    | none => 0
    | some pc => upperSum (d.counted pc) := by
  have hindex : dbfindex d.text = match firstDbf d.text with
      | none => 0
      | some pc => dbfWalk d.text (d.text.length - pc.length) := rfl
  rw [hindex, firstDbf_text]
  cases hpc : firstDbf d.tok with
  | none => rfl
  | some pc =>
    obtain ⟨hsuf, hne⟩ := firstDbf_suffix hpc
    have hpos := List.length_pos_iff.2 hne
    have hle := hsuf.length_le
    have hdot : d.text.length - (pc ++ d.post).length =
        d.pre.length + (d.tok.length - pc.length) := by
      simp only [DbfText.text, List.length_append]
      omega
    rw [Option.map_some]
    dsimp only
    rw [hdot, dbfWalk_text d (by omega), DbfText.counted]

/-! ## The worker -/

/-- A text without table name goes round the workers, and one with a name to the worker of its
index. -/
theorem route_worker {W : Type} (info : CDBProcInfo W) (utm : UserTransferMessage) :
    (route info utm).1 =
      if dbfindex utm.sql.toList = 0 then info.getProcess.1
      else info.getProcessAt (dbfindex utm.sql.toList) := by
  rw [route]
  split_ifs <;> rfl

/-- Workers numbered from 0, and a round-robin index. -/
def numberedWorkers (n m_currIndex : ℕ) : CDBProcInfo ℕ := ⟨m_currIndex, true, 0, List.range n⟩

/-- The worker in turn. -/
theorem getProcess_numbered {n i : ℕ} (h : i < n) :
    (numberedWorkers n i).getProcess.1 = some i := by
  have hne : (numberedWorkers n i).m_vctProcess.length ≠ 0 := by
    simp [numberedWorkers]
    omega
  rw [CDBProcInfo.getProcess, if_pos hne]
  simp [numberedWorkers, Nat.mod_eq_of_lt h, h]

/-- The worker of an index is the index modulo the number of workers. -/
theorem getProcessAt_numbered {n i : ℕ} (hn : 0 < n) (idx : BitVec 32) :
    (numberedWorkers n i).getProcessAt idx = some (idx.toNat % n) := by
  have hne : (numberedWorkers n i).m_vctProcess.length ≠ 0 := by
    simp [numberedWorkers]
    omega
  rw [CDBProcInfo.getProcessAt, if_pos hne]
  simp [numberedWorkers, Nat.mod_lt _ hn]

/-- A request with this text. -/
def asRequest (sql : List Char) : UserTransferMessage :=
  ⟨.reqExecSQL, 0, 0, 0, "", .ofList sql, 0, 0, [], [], 0⟩

/-- The worker is the same exactly when the indices agree and are not 0. -/
theorem sameWorker_iff_dbfindex (d d' : DbfText) :
    SameWorker d d' ↔ dbfindex d.text = dbfindex d'.text ∧ dbfindex d.text ≠ 0 := by
  constructor
  · intro h
    have hsame : ∀ n i j, (route (numberedWorkers n i) (asRequest d.text)).1 =
        (route (numberedWorkers n j) (asRequest d'.text)).1 := fun n i j =>
      h ℕ _ _ _ _ rfl String.toList_ofList String.toList_ofList
    simp only [route_worker, asRequest, String.toList_ofList] at hsame
    have hx : dbfindex d.text ≠ 0 := by
      intro hx
      simp only [hx, if_true] at hsame
      have h01 := (hsame 2 0 0).trans (hsame 2 1 0).symm
      rw [getProcess_numbered (by decide), getProcess_numbered (by decide)] at h01
      exact absurd h01 (by decide)
    have hy : dbfindex d'.text ≠ 0 := by
      intro hy
      simp only [hy, if_true] at hsame
      have h01 := (hsame 2 0 0).symm.trans (hsame 2 0 1)
      rw [getProcess_numbered (by decide), getProcess_numbered (by decide)] at h01
      exact absurd h01 (by decide)
    refine ⟨?_, hx⟩
    simp only [hx, hy, if_false] at hsame
    -- as many workers as tell the two indices apart
    have hlarge := hsame (2 ^ 32) 0 0
    rw [getProcessAt_numbered (by decide), getProcessAt_numbered (by decide), Option.some.injEq,
      Nat.mod_eq_of_lt (dbfindex d.text).isLt, Nat.mod_eq_of_lt (dbfindex d'.text).isLt] at hlarge
    exact BitVec.eq_of_toNat_eq hlarge
  · rintro ⟨heq, hne⟩ W info info' utm utm' hprocess hsql hsql'
    rw [route_worker, route_worker, hsql, hsql', ← heq, if_neg hne, if_neg hne,
      CDBProcInfo.getProcessAt, CDBProcInfo.getProcessAt, hprocess]

/-- **One DBF file, one worker.** Two texts with one DBF token each go to the same worker, at any
source and with any round-robin index, if and only if both tokens have the extension in one of the
three spellings and the characters counted of them have the same sum, which is not 0. -/
theorem same_worker_iff (d d' : DbfText) : SameWorker d d' ↔ SameCount d d' := by
  rw [sameWorker_iff_dbfindex, dbfindex_text, dbfindex_text]
  constructor
  · rintro ⟨heq, hne⟩
    cases hpc : firstDbf d.tok with
    | none =>
      rw [hpc] at hne
      exact absurd rfl hne
    | some pc =>
      rw [hpc] at heq hne
      cases hpc' : firstDbf d'.tok with
      | none =>
        rw [hpc'] at heq
        exact absurd heq hne
      | some pc' =>
        rw [hpc'] at heq
        exact ⟨pc, pc', hpc, hpc', heq, hne⟩
  · rintro ⟨pc, pc', hpc, hpc', heq, hne⟩
    rw [hpc, hpc']
    exact ⟨heq, hne⟩

/-! ## Tokens that differ in letter case only -/

/-- `toupper` gives an `int`, with the sign of the `char`. -/
theorem toupper_eq (c : Char) : toupper c = (BitVec.ofNat 8 (upperChar c).toNat).signExtend 32 := by
  have hletters : ∀ n < 123, 97 ≤ n → BitVec.ofNat 32 (n - 32) =
      (BitVec.ofNat 8 (Char.ofNat (n - 32)).toNat).signExtend 32 := by decide
  unfold toupper upperChar
  split_ifs with hc
  · exact hletters c.toNat (Nat.lt_succ_of_le hc.2) hc.1
  · rfl

/-- Texts that differ in case only have the same characters after `toupper`. -/
theorem map_toupper_eq {s t : List Char} (h : s.map upperChar = t.map upperChar) :
    s.map toupper = t.map toupper := by
  have hcomp : toupper = (fun c => (BitVec.ofNat 8 c.toNat).signExtend 32) ∘ upperChar :=
    funext toupper_eq
  rw [hcomp, ← List.map_map, h, List.map_map]

/-- The characters that are counted, in terms of the word. -/
theorem upperSum_counted (d : DbfText) (pc : List Char) : upperSum (d.counted pc) =
    (((d.tok.map toupper).take (d.tok.length - pc.length + 1)).drop
      (if d.pre = [] then 1 else 0)).sum := by
  rw [upperSum, DbfText.counted, List.map_drop, List.map_take]

/-- With the dot at the same place of both tokens, they go to one worker if both begin their texts
or neither does, and something is counted. -/
theorem sameCount_iff_of_case {d d' : DbfText} (h : d.tok.map upperChar = d'.tok.map upperChar)
    (hnul : ∀ c ∈ d.tok, toupper c ≠ 0) {pc pc' : List Char} (hpc : firstDbf d.tok = some pc)
    (hpc' : firstDbf d'.tok = some pc') (hdot : pc.length = pc'.length) :
    SameCount d d' ↔ (d.pre = [] ↔ d'.pre = []) ∧ upperSum (d.counted pc) ≠ 0 := by
  have hmap := map_toupper_eq h
  have hlength : d.tok.length = d'.tok.length := by
    rw [← List.length_map (f := upperChar), h, List.length_map]
  have hcounted : SameCount d d' ↔ upperSum (d.counted pc) = upperSum (d'.counted pc') ∧
      upperSum (d.counted pc) ≠ 0 := by
    constructor
    · rintro ⟨_, _, h₁, h₂, heq⟩
      rw [hpc] at h₁
      rw [hpc'] at h₂
      cases h₁
      cases h₂
      exact heq
    · exact fun heq => ⟨pc, pc', hpc, hpc', heq⟩
  rw [hcounted]
  refine and_congr_left fun _ => ?_
  rw [upperSum_counted, upperSum_counted, ← hmap, ← hlength, ← hdot]
  cases htok : d.tok with
  | nil =>
    obtain ⟨hsuf, hne⟩ := firstDbf_suffix hpc
    rw [htok] at hsuf
    exact absurd (List.suffix_nil.1 hsuf) hne
  | cons c tok =>
    have hc : toupper c ≠ 0 := hnul c (by rw [htok]; exact List.mem_cons_self)
    rw [List.map_cons, List.take_succ_cons]
    split_ifs with hpre hpre' hpre'
    · simp [hpre, hpre']
    · rw [List.drop_zero, List.drop_one, List.tail_cons, List.sum_cons]
      exact iff_of_false (fun heq => hc (add_eq_right.1 heq.symm)) (by simp [hpre, hpre'])
    · rw [List.drop_zero, List.drop_one, List.tail_cons, List.sum_cons]
      exact iff_of_false (fun heq => hc (add_eq_right.1 heq)) (by simp [hpre, hpre'])
    · simp [hpre, hpre']

namespace Spelled

/-- A text with a token behind a blank. -/
def behind : DbfText :=
  ⟨"select * from ".toList, "bill.dbf".toList, [], by simp [isBlank], by simp, by simp [isBlank],
    by decide, by decide, by decide⟩

/-- The same text with another spelling of the extension. -/
def mixed : DbfText :=
  ⟨"select * from ".toList, "bill.dBf".toList, [], by simp [isBlank], by simp, by simp [isBlank],
    by decide, by decide, by decide⟩

/-- The spelling `.dBf` is not looked for, so the text goes round robin. -/
theorem mixed_apart : behind.tok.map upperChar = mixed.tok.map upperChar ∧
    ¬SameWorker behind mixed := by
  refine ⟨by decide, fun h => ?_⟩
  obtain ⟨heq, hne⟩ := (sameWorker_iff_dbfindex behind mixed).1 h
  exact hne (heq.trans (by decide))

end Spelled

end TelecomSuite.Dagw
