import TelecomSuite.Convert.SqlText

/-!
# The places of the values

The value lists of the two INSERT loops, with every value taken as one token that tells the field it
was built from. A type that is not in the list of the loops reads no field and leaves its slot
empty; a name that starts no column name repeats the text of the value before, with its comma. Both
shift the fields of all later columns, and `insert_not_misplaced` shows that the list then also has
an empty slot, so a shifted row is never a list of values that Oracle takes.
-/

namespace TelecomSuite.Convert

/-- A token of a value list. -/
inductive Token
  /-- The value for a column of this type, built from the field with this index. -/
  | value (col_type : String) (field : ℕ)
  | comma
  | close
  deriving DecidableEq

/-- The text of a token. -/
def Token.text (row : List Field) : Token → String
  | .value col_type field => ((renderValue col_type row field).map Prod.fst).getD ""
  | .comma => " , "
  | .close => " ) "

/-- The text of all tokens. -/
def tokensText (row : List Field) : List Token → String
  | [] => ""
  | token :: tokens => token.text row ++ tokensText row tokens

/-! ## The loops -/

/-- `renderValue` in tokens. -/
def renderTokens (col_type : String) (row : List Field) (colindex : ℕ) :
    Option (List Token × ℕ) :=
  if format col_type = .nothing then some ([], colindex)
  else row[colindex]?.map fun _ => ([.value col_type colindex], colindex + 1)

/-- `separator` as a token. -/
def separatorToken (last : Bool) : Token := if last then .close else .comma

/-- `values` in tokens. -/
def valuesTokens (row : List Field) : List Tabtype → ℕ → Option (List Token)
  | [], _ => some []
  | t :: ts, colindex => do
    let (tmp, colindex) ← renderTokens t.col_type row colindex
    let tmp_str ← valuesTokens row ts colindex
    some (tmp ++ separatorToken ts.isEmpty :: tmp_str)

/-- `valuesAnother` in tokens. -/
def valuesAnotherTokens (v_type : List Tabtype) (row : List Field) :
    List String → List Token → ℕ → Option (List Token)
  | [], _, _ => some []
  | name :: names, tmp, colindex => do
    let (tmp, colindex) ←
      match v_type.find? fun t => startsWith t.col_name name with
      | some t => renderTokens t.col_type row colindex
      | none => some (tmp, colindex)
    let tmp := tmp ++ [separatorToken names.isEmpty]
    let tmp_str ← valuesAnotherTokens v_type row names tmp colindex
    some (tmp ++ tmp_str)

section
variable {row : List Field}

/-- One after the other. -/
@[simp] theorem tokensText_append (a b : List Token) :
    tokensText row (a ++ b) = tokensText row a ++ tokensText row b := by
  induction a with
  | nil => exact (String.empty_append).symm
  | cons token a ih => simp only [List.cons_append, tokensText, ih, String.append_assoc]

@[simp] theorem separatorToken_text (last : Bool) :
    (separatorToken last).text row = separator last := by
  cases last <;> rfl

/-- A type of the list reads the next field and makes its value of it. -/
theorem exists_renderValue {col_type : String} (h : format col_type ≠ .nothing) :
    ∃ text : Field → String, ∀ (row : List Field) (colindex : ℕ),
      renderValue col_type row colindex = row[colindex]?.map fun f => (text f, colindex + 1) := by
  unfold format at h
  unfold renderValue
  split_ifs at h ⊢
  · exact ⟨_, fun _ _ => rfl⟩
  · exact ⟨_, fun _ _ => rfl⟩
  · exact ⟨_, fun _ _ => rfl⟩
  · exact absurd rfl h

/-- A column with a format takes the next field. -/
theorem renderValue_of_format {col_type : String} (h : format col_type ≠ .nothing) (colindex : ℕ) :
    renderValue col_type row colindex =
      row[colindex]?.map fun _ => ((Token.value col_type colindex).text row, colindex + 1) := by
  obtain ⟨text, htext⟩ := exists_renderValue h
  rw [Token.text, htext]
  cases row[colindex]? <;> rfl

/-- A column without one takes none and writes nothing. -/
theorem renderValue_of_nothing {col_type : String} (h : format col_type = .nothing)
    (colindex : ℕ) : renderValue col_type row colindex = some ("", colindex) := by
  unfold format at h
  unfold renderValue
  split_ifs at h ⊢
  rfl

/-- The text of a value is that of its tokens. -/
theorem renderValue_eq (col_type : String) (colindex : ℕ) :
    renderValue col_type row colindex =
      (renderTokens col_type row colindex).map fun (tmp, next) => (tokensText row tmp, next) := by
  unfold renderTokens
  rcases eq_or_ne (format col_type) .nothing with h | h
  · rw [renderValue_of_nothing h, if_pos h]
    rfl
  · rw [renderValue_of_format h, if_neg h, Option.map_map]
    cases row[colindex]? with
    | none => rfl
    | some f => simp [tokensText]

/-- The tokens are those of the text. -/
theorem values_eq (cols : List Tabtype) (colindex : ℕ) :
    values row cols colindex = (valuesTokens row cols colindex).map (tokensText row) := by
  induction cols generalizing colindex with
  | nil => rfl
  | cons t ts ih =>
    unfold values valuesTokens
    rw [renderValue_eq]
    cases renderTokens t.col_type row colindex with
    | none => rfl
    | some p =>
      obtain ⟨tmp, next⟩ := p
      simp only [Option.map_some, Option.bind_eq_bind, Option.bind_some, ih]
      cases valuesTokens row ts next with
      | none => rfl
      | some tokens => simp [tokensText, String.append_assoc]

/-- So is the text of the list. -/
theorem valuesAnother_eq_tokens (v_type : List Tabtype) (names : List String) (tmp : List Token)
    (colindex : ℕ) :
    valuesAnother v_type row names (tokensText row tmp) colindex =
      (valuesAnotherTokens v_type row names tmp colindex).map (tokensText row) := by
  induction names generalizing tmp colindex with
  | nil => rfl
  | cons name names ih =>
    unfold valuesAnother valuesAnotherTokens
    -- the rest of the loop, after `tmp` has been set
    have hrest : ∀ (tmp : List Token) (next : ℕ),
        ((valuesAnother v_type row names (tokensText row tmp ++ separator names.isEmpty) next).bind
            fun tmp_str => some (tokensText row tmp ++ separator names.isEmpty ++ tmp_str)) =
          ((valuesAnotherTokens v_type row names (tmp ++ [separatorToken names.isEmpty]) next).bind
            fun tmp_str => some (tmp ++ [separatorToken names.isEmpty] ++ tmp_str)).map
              (tokensText row) := by
      intro tmp next
      have htmp : tokensText row tmp ++ separator names.isEmpty =
          tokensText row (tmp ++ [separatorToken names.isEmpty]) := by
        simp [tokensText]
      rw [htmp, ih]
      cases valuesAnotherTokens v_type row names (tmp ++ [separatorToken names.isEmpty]) next with
      | none => rfl
      | some tokens => simp [tokensText, String.append_assoc]
    cases v_type.find? fun t => startsWith t.col_name name with
    | none => exact hrest tmp colindex
    | some t =>
      dsimp only
      rw [renderValue_eq]
      cases renderTokens t.col_type row colindex with
      | none => rfl
      | some p => exact hrest p.1 p.2

end

/-! ## Value lists -/

/-- A list of values as Oracle takes it, with the closing parenthesis. -/
inductive ValueList : List Token → Prop
  | last (col_type : String) (field : ℕ) : ValueList [.value col_type field, .close]
  | cons (col_type : String) (field : ℕ) {tokens : List Token} :
      ValueList tokens → ValueList (.value col_type field :: .comma :: tokens)

/-- A slot has no value: a comma or the parenthesis comes first or right after a comma. -/
def EmptySlot (tokens : List Token) : Prop :=
  ∃ before separator after, tokens = before ++ separator :: after ∧
    (separator = .comma ∨ separator = .close) ∧ (before = [] ∨ before.getLast? = some .comma)

/-- One value for each type, from one field after the other. -/
def placed : List String → ℕ → List Token
  | [], _ => []
  | col_type :: types, field =>
    .value col_type field :: separatorToken types.isEmpty :: placed types (field + 1)

/-- The list has one value for each of `n` columns, the `i`-th from the `i`-th field, or it is no
value list, with a slot left empty or without the parenthesis. -/
def NotMisplaced (n : ℕ) (tokens : List Token) : Prop :=
  ValueList tokens ∧ (∃ types : List String, types.length = n ∧ tokens = placed types 0) ∨
    ¬ValueList tokens ∧ (EmptySlot tokens ∨ .close ∉ tokens)

/-- Without tokens no slot is empty. -/
theorem not_emptySlot_nil : ¬EmptySlot [] := by
  rintro ⟨before, separator, after, h, -⟩
  simp at h

/-- The separator is a comma or the parenthesis. -/
theorem separatorToken_eq (last : Bool) :
    separatorToken last = .comma ∨ separatorToken last = .close := by
  cases last
  · exact .inl rfl
  · exact .inr rfl

/-- A separator at the beginning or right after a comma leaves a slot empty. -/
theorem emptySlot_separator {before : List Token}
    (h : before = [] ∨ before.getLast? = some .comma) (last : Bool) (after : List Token) :
    EmptySlot (before ++ separatorToken last :: after) :=
  ⟨before, separatorToken last, after, rfl, separatorToken_eq last, h⟩

/-- An empty slot stays one behind a value and its comma. -/
theorem EmptySlot.cons {tokens : List Token} (h : EmptySlot tokens) (col_type : String)
    (field : ℕ) : EmptySlot (.value col_type field :: .comma :: tokens) := by
  obtain ⟨before, separator, after, rfl, hseparator, hbefore⟩ := h
  refine ⟨.value col_type field :: .comma :: before, separator, after, rfl, hseparator, .inr ?_⟩
  rcases hbefore with rfl | hbefore
  · rfl
  · rw [List.getLast?_cons_cons, List.getLast?_cons, hbefore]
    rfl

/-- A value and its comma do not make the empty slot. -/
theorem EmptySlot.of_cons {tokens : List Token} {col_type : String} {field : ℕ}
    (h : EmptySlot (.value col_type field :: .comma :: tokens)) : EmptySlot tokens := by
  obtain ⟨before, separator, after, htokens, hseparator, hbefore⟩ := h
  match before with
  | [] =>
    cases htokens
    simp at hseparator
  | [_] =>
    cases htokens
    simp at hbefore
  | _ :: _ :: before =>
    cases htokens
    refine ⟨before, separator, after, rfl, hseparator, ?_⟩
    cases before with
    | nil => exact .inl rfl
    | cons => simpa using hbefore

/-- A list of values has no empty slot. -/
theorem ValueList.not_emptySlot {tokens : List Token} (h : ValueList tokens) :
    ¬EmptySlot tokens := by
  induction h with
  | last col_type field =>
    rintro ⟨before, separator, after, htokens, hseparator, hbefore⟩
    match before with
    | [] =>
      cases htokens
      simp at hseparator
    | [_] =>
      cases htokens
      simp at hbefore
    | _ :: _ :: before => simp at htokens
  | cons col_type field _ ih => exact fun hempty => ih hempty.of_cons

/-- It has its parenthesis. -/
theorem ValueList.close_mem {tokens : List Token} (h : ValueList tokens) : .close ∈ tokens := by
  induction h with
  | last => exact List.mem_cons_of_mem _ List.mem_cons_self
  | cons _ _ _ ih => exact List.mem_cons_of_mem _ (List.mem_cons_of_mem _ ih)

/-- One value for each column is a list of values. -/
theorem valueList_placed {types : List String} (h : types ≠ []) (field : ℕ) :
    ValueList (placed types field) := by
  induction types generalizing field with
  | nil => exact absurd rfl h
  | cons col_type types ih =>
    cases types with
    | nil => exact .last col_type field
    | cons next types => exact .cons col_type field (ih (List.cons_ne_nil _ _) (field + 1))

/-- A list that is placed or has an empty slot is not misplaced. -/
theorem notMisplaced_of_placed_or_emptySlot {n : ℕ} {tokens : List Token}
    (h : (∃ types : List String, types.length = n ∧ tokens = placed types 0) ∨ EmptySlot tokens) :
    NotMisplaced n tokens := by
  rcases h with ⟨types, hlength, rfl⟩ | hempty
  · rcases eq_or_ne types [] with rfl | htypes
    · exact .inr ⟨fun h => List.not_mem_nil h.close_mem, .inr List.not_mem_nil⟩
    · exact .inl ⟨valueList_placed htypes 0, types, hlength, rfl⟩
  · exact .inr ⟨fun h => h.not_emptySlot hempty, .inl hempty⟩

/-! ## The lists of the loops -/

section
variable {row : List Field}

/-- What a column adds to `tmp`: nothing, or the value from the next field. -/
theorem renderTokens_cases {col_type : String} {colindex next : ℕ} {tmp : List Token}
    (h : renderTokens col_type row colindex = some (tmp, next)) :
    tmp = [] ∨ tmp = [.value col_type colindex] ∧ next = colindex + 1 := by
  unfold renderTokens at h
  split_ifs at h
  · cases h
    exact .inl rfl
  · obtain ⟨f, -, hf⟩ := Option.map_eq_some_iff.1 h
    cases hf
    exact .inr ⟨rfl, rfl⟩

/-- The first function gives each column its own value, or it leaves a slot empty. -/
theorem valuesTokens_cases {cols : List Tabtype} {colindex : ℕ} {tokens : List Token}
    (h : valuesTokens row cols colindex = some tokens) :
    tokens = placed (cols.map Tabtype.col_type) colindex ∨ EmptySlot tokens := by
  induction cols generalizing colindex tokens with
  | nil =>
    cases h
    exact .inl rfl
  | cons t ts ih =>
    unfold valuesTokens at h
    obtain ⟨⟨tmp, next⟩, hrender, h⟩ := Option.bind_eq_some_iff.1 h
    obtain ⟨rest, hrest, h⟩ := Option.bind_eq_some_iff.1 h
    cases h
    obtain rfl | ⟨rfl, rfl⟩ := renderTokens_cases hrender
    · exact .inr (emptySlot_separator (.inl rfl) _ _)
    · rcases ih hrest with rfl | hempty
      · left
        rw [List.map_cons, placed, List.isEmpty_map]
        rfl
      · cases ts with
        | nil =>
          cases hrest
          exact absurd hempty not_emptySlot_nil
        | cons => exact .inr (hempty.cons _ _)

/-- A name that is not found leaves in `tmp` the text of the name before, which ends in a comma
since it was not the last one. -/
theorem valuesAnotherTokens_cases {v_type : List Tabtype} {names : List String}
    {tmp : List Token} {colindex : ℕ} {tokens : List Token}
    (htmp : tmp = [] ∨ tmp.getLast? = some .comma)
    (h : valuesAnotherTokens v_type row names tmp colindex = some tokens) :
    (∃ types : List String, types.length = names.length ∧ tokens = placed types colindex) ∨
      EmptySlot tokens := by
  induction names generalizing tmp colindex tokens with
  | nil =>
    cases h
    exact .inl ⟨[], rfl, rfl⟩
  | cons name names ih =>
    unfold valuesAnotherTokens at h
    cases hfind : v_type.find? fun t => startsWith t.col_name name with
    | none =>
      rw [hfind] at h
      obtain ⟨⟨tmp', next⟩, hkept, h⟩ := Option.bind_eq_some_iff.1 h
      cases hkept
      obtain ⟨rest, -, h⟩ := Option.bind_eq_some_iff.1 h
      cases h
      rw [List.append_assoc]
      exact .inr (emptySlot_separator htmp _ _)
    | some t =>
      rw [hfind] at h
      obtain ⟨⟨tmp', next⟩, hrender, h⟩ := Option.bind_eq_some_iff.1 h
      obtain ⟨rest, hrest, h⟩ := Option.bind_eq_some_iff.1 h
      cases h
      obtain rfl | ⟨rfl, rfl⟩ := renderTokens_cases hrender
      · exact .inr (emptySlot_separator (.inl rfl) _ _)
      · cases names with
        | nil =>
          cases hrest
          exact .inl ⟨[t.col_type], rfl, rfl⟩
        | cons name' names =>
          rcases ih (.inr rfl) hrest with ⟨types, hlength, rfl⟩ | hempty
          · refine .inl ⟨t.col_type :: types, by simp [hlength], ?_⟩
            cases types with
            | nil => simp at hlength
            | cons => rfl
          · exact .inr (hempty.cons _ _)

end

/-- Both loops: whatever the columns, the key list and the row, an INSERT that is made has one value
for each target column, the `i`-th from the `i`-th field, or it is no valid one. -/
theorem insert_not_misplaced (orcl col_orcl : String) (v_type : List Tabtype) (row : List Field) :
    (∀ sql, insertSql orcl v_type row = some sql → ∃ tokens,
      valuesTokens row v_type 0 = some tokens ∧
        sql = "insert into " ++ orcl ++ " values ( " ++ " " ++ tokensText row tokens ∧
        NotMisplaced v_type.length tokens) ∧
    ∀ sql, insertSqlAnother orcl col_orcl v_type row = some sql → ∃ tokens,
      valuesAnotherTokens v_type row (spiltChar col_orcl ",") [] 0 = some tokens ∧
        sql = "insert into " ++ orcl ++ " ( " ++ col_orcl ++ " ) values (  " ++ " " ++
          tokensText row tokens ∧
        NotMisplaced (spiltChar col_orcl ",").length tokens := by
  constructor
  · intro sql h
    obtain ⟨tmp_str, hvalues, h⟩ := Option.bind_eq_some_iff.1 h
    cases h
    rw [values_eq] at hvalues
    obtain ⟨tokens, htokens, rfl⟩ := Option.map_eq_some_iff.1 hvalues
    refine ⟨tokens, htokens, rfl, notMisplaced_of_placed_or_emptySlot ?_⟩
    rcases valuesTokens_cases htokens with hplaced | hempty
    · exact .inl ⟨_, by simp, hplaced⟩
    · exact .inr hempty
  · intro sql h
    obtain ⟨tmp_str, hvalues, h⟩ := Option.bind_eq_some_iff.1 h
    cases h
    rw [show ("" : String) = tokensText row [] from rfl, valuesAnother_eq_tokens] at hvalues
    obtain ⟨tokens, htokens, rfl⟩ := Option.map_eq_some_iff.1 hvalues
    refine ⟨tokens, htokens, rfl, notMisplaced_of_placed_or_emptySlot ?_⟩
    exact valuesAnotherTokens_cases (.inl rfl) htokens

namespace OneNumber

/-- One column. -/
def v_type : List Tabtype := [⟨"A", "NUMBER"⟩]

/-- A row of one field. -/
def row : List Field := [⟨"1", "1.000000"⟩]

/-- The INSERT for the row. -/
theorem insertSql_row : insertSql "T" v_type row =
    some "insert into T values (   1.000000  ) " := by decide +kernel

/-- `X` is not found: the value for `A` is repeated, and the last slot is empty. -/
theorem insertSqlAnother_row : insertSqlAnother "T" "A,X" v_type row =
    some "insert into T ( A,X ) values (    1.000000  ,  1.000000  ,  ) " := by decide +kernel

/-- No value of the row is misplaced. -/
theorem row_not_misplaced :
    (∃ tokens, valuesTokens row v_type 0 = some tokens ∧ NotMisplaced 1 tokens) ∧
      ∃ tokens, valuesAnotherTokens v_type row (spiltChar "A,X" ",") [] 0 = some tokens ∧
        NotMisplaced (spiltChar "A,X" ",").length tokens := by
  obtain ⟨hall, hanother⟩ := insert_not_misplaced "T" "A,X" v_type row
  obtain ⟨tokens, htokens, -, hplaces⟩ := hall _ insertSql_row
  obtain ⟨tokens', htokens', -, hplaces'⟩ := hanother _ insertSqlAnother_row
  exact ⟨⟨tokens, htokens, hplaces⟩, tokens', htokens', hplaces'⟩

end OneNumber

end TelecomSuite.Convert
