import TelecomSuite.Lib.LuaPattern
import TelecomSuite.Convert.SqlText

/-!
# The pieces of a key list

`spiltChar` appends the separator to the text, so that a search always finds one, and takes piece
after piece. `spiltChar_splits` says that for a separator of one character the loop ends and gives
the pieces between the separators, empty ones included.
-/

namespace TelecomSuite.Convert

/-- The loop of `spiltChar` with its end: `none` if it is still running after so many rounds. -/
def spiltRun (str pattern : List Char) : ℕ → ℕ → Option (List String)
  | 0, _ => none
  | fuel + 1, i =>
    if i < str.length then
      match find str pattern i with
      | some pos => (spiltRun str pattern fuel (pos + pattern.length - 1 + 1)).map
          (.ofList ((str.drop i).take (pos - i)) :: ·)
      | none => spiltRun str pattern fuel (i + 1)
    else some []

/-- A loop that ends gives what `spiltChar` gives. -/
theorem spiltLoop_of_run {str pattern : List Char} {fuel i : ℕ} {pieces : List String}
    (h : spiltRun str pattern fuel i = some pieces) : spiltLoop str pattern fuel i = pieces := by
  induction fuel generalizing i pieces with
  | zero => simp [spiltRun] at h
  | succ fuel ih =>
    rw [spiltRun] at h
    rw [spiltLoop]
    split_ifs at h ⊢
    · cases hpos : find str pattern i with
      | some pos =>
        simp only [hpos] at h ⊢
        obtain ⟨rest, hrest, rfl⟩ := Option.map_eq_some_iff.1 h
        rw [ih hrest]
      | none =>
        simp only [hpos] at h ⊢
        exact ih h
    · exact Option.some.inj h

section
variable {c : Char}

/-- The search from the end of `before` finds the separator behind the next piece. -/
theorem find_piece (before : List Char) {piece : List Char} (h : c ∉ piece) (after : List Char) :
    find (before ++ piece ++ c :: after) [c] before.length =
      some (before.length + piece.length) := by
  have hdrop : ∀ k ≤ piece.length,
      (before ++ piece ++ c :: after).drop (before.length + k) = piece.drop k ++ c :: after := by
    intro k hk
    rw [List.append_assoc, List.drop_length_add_append, List.drop_append_of_le_length hk]
  unfold find
  rw [List.find?_range_eq_some]
  refine ⟨?_, ?_, ?_⟩
  · rw [hdrop _ (Nat.le_refl _), List.drop_length]
    simp
  · simp
  · intro j hj
    rcases Nat.lt_or_ge j before.length with hlt | hge
    · simp [Nat.not_le.2 hlt]
    · obtain ⟨k, rfl⟩ := Nat.exists_eq_add_of_le hge
      have hk : k < piece.length := by omega
      have hne : piece[k] ≠ c := fun heq => h (heq ▸ List.getElem_mem hk)
      rw [hdrop k (Nat.le_of_lt hk), List.drop_eq_getElem_cons hk, List.cons_append,
        List.isPrefixOf, beq_false_of_ne hne.symm, Bool.false_and, Bool.and_false]
      rfl

/-- One round of the loop takes a piece and goes on behind its separator. -/
theorem spiltRun_piece (before : List Char) {piece : List Char} (h : c ∉ piece)
    (after : List Char) (fuel : ℕ) :
    spiltRun (before ++ piece ++ c :: after) [c] (fuel + 1) before.length =
      (spiltRun (before ++ piece ++ c :: after) [c] fuel (before ++ piece ++ [c]).length).map
        (.ofList piece :: ·) := by
  have hnext : before.length + piece.length + [c].length - 1 + 1 =
      (before ++ piece ++ [c]).length := by simp [Nat.add_assoc]
  have htake : ((before ++ piece ++ c :: after).drop before.length).take
      (before.length + piece.length - before.length) = piece := by
    rw [List.append_assoc, List.drop_left, Nat.add_sub_cancel_left, List.take_left]
  have hlt : before.length < (before ++ piece ++ c :: after).length := by
    simp only [List.length_append, List.length_cons]
    omega
  rw [spiltRun, if_pos hlt, find_piece before h]
  dsimp only
  rw [hnext, htake]

/-- From the end of `before` on, the loop takes the pieces of the rest of the text. -/
theorem spiltRun_pieces (before t : List Char) (fuel : ℕ) (h : t.length + 1 < fuel) :
    spiltRun (before ++ t ++ [c]) [c] fuel before.length =
      some ((t.splitOn c).map String.ofList) := by
  induction hn : t.length using Nat.strongRecOn generalizing before t fuel with
  | ind n ih =>
    obtain ⟨fuel, rfl⟩ : ∃ k, fuel = k + 1 := ⟨fuel - 1, by omega⟩
    by_cases hmem : c ∈ t
    · -- a separator of the text ends the piece
      obtain ⟨piece, after, rfl, hpiece⟩ := List.eq_append_cons_of_mem hmem
      have hrest := ih after.length (by simp at hn; omega) (before ++ piece ++ [c]) after fuel
        (by simp at h; omega) rfl
      have htext : before ++ piece ++ [c] ++ after ++ [c] =
          before ++ piece ++ c :: (after ++ [c]) := by simp
      rw [htext] at hrest
      rw [← List.append_assoc before piece, List.append_assoc _ (c :: after) [c],
        List.cons_append, spiltRun_piece before hpiece, hrest,
        List.splitOn_append_cons_self_of_not_mem hpiece]
      rfl
    · -- the appended one does, and the loop ends
      obtain ⟨fuel, rfl⟩ : ∃ k, fuel = k + 1 := ⟨fuel - 1, by omega⟩
      rw [spiltRun_piece before hmem, spiltRun, if_neg (by simp), List.splitOn_eq_singleton hmem]
      rfl

/-- No piece has the separator in it. -/
theorem notMem_piece {t piece : List Char} (h : piece ∈ t.splitOn c) : c ∉ piece := by
  rw [LuaPattern.splitOn_eq_map] at h
  obtain ⟨rest, -, rfl⟩ := List.mem_map.1 h
  intro hmem
  simpa using List.mem_takeWhile_imp hmem

/-- There is a rest behind each separator. -/
theorem length_restsAfter (t : List Char) : (LuaPattern.restsAfter c t).length = t.count c := by
  induction t with
  | nil => rfl
  | cons d t ih =>
    rw [LuaPattern.restsAfter]
    rcases eq_or_ne d c with rfl | hne
    · rw [if_pos rfl, List.length_cons, ih, List.count_cons_self]
    · rw [if_neg hne, ih, List.count_cons_of_ne hne]

/-- With a separator of one character the loop ends, the pieces joined with it give back the text,
no piece contains it, and there is one piece more than there are separators. -/
theorem spiltChar_splits (str : String) (c : Char) :
    spiltRun (str.toList ++ [c]) [c] ((str.toList ++ [c]).length + 1) 0 =
        some (spiltChar str (.singleton c)) ∧
      (String.singleton c).intercalate (spiltChar str (.singleton c)) = str ∧
      (∀ piece ∈ spiltChar str (.singleton c), c ∉ piece.toList) ∧
      (spiltChar str (.singleton c)).length = str.toList.count c + 1 := by
  have hrun := spiltRun_pieces (c := c) [] str.toList ((str.toList ++ [c]).length + 1) (by simp)
  rw [List.nil_append, List.length_nil] at hrun
  have hpieces : spiltChar str (.singleton c) = (str.toList.splitOn c).map String.ofList := by
    rw [spiltChar, String.toList_singleton]
    exact spiltLoop_of_run hrun
  rw [hpieces]
  refine ⟨hrun, ?_, ?_, ?_⟩
  · rw [← String.toList_inj, String.toList_intercalate, String.toList_singleton, List.map_map]
    simp [Function.comp_def, List.intercalate_splitOn]
  · intro piece hmem
    obtain ⟨t, ht, rfl⟩ := List.mem_map.1 hmem
    rw [String.toList_ofList]
    exact notMem_piece ht
  · rw [List.length_map, LuaPattern.splitOn_eq_map, List.length_map, List.length_cons,
      length_restsAfter]

example : spiltChar ",ab,," "," = ["", "ab", "", ""] := by decide +kernel

end

end TelecomSuite.Convert
