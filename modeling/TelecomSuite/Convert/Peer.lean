import Mathlib.Data.List.Forall2
import TelecomSuite.Convert.SqlText

/-!
# The columns of the peer mode

In peer mode the columns to copy are requested by name, in two key lists. `makesql_sec` takes the
first Sybase column whose name starts with the requested one, and looks at the Oracle column of the
same index to decide about a conversion, whatever column is requested on the Oracle side;
`conversion_start_another` takes the first Oracle column whose name starts with the requested one.

`peerRight_iff` says for which columns and key lists the right columns are used in all three
places.
-/

namespace TelecomSuite.Convert

/-- The Sybase column that `makesql_sec` takes for a name, with its index. -/
def pick (v_type_sy : List Tabtype) (name : String) : Option (Tabtype × ℕ) :=
  v_type_sy.zipIdx.find? fun (sy, _) => startsWith sy.col_name name

/-- The Oracle column that `conversion_start_another` takes for a name. -/
def pickOrcl (v_type : List Tabtype) (name : String) : Option Tabtype :=
  v_type.find? fun t => startsWith t.col_name name

/-- The column with a name. -/
def named (v_type : List Tabtype) (name : String) : Option Tabtype :=
  v_type.find? (·.col_name == name)

/-- The Oracle column requested at a position of a key list. -/
def requested (v_type : List Tabtype) (names : List String) (j : ℕ) : Option Tabtype :=
  names[j]?.bind (named v_type)

/-- The right columns are used, whenever all requested names are found on the Sybase side and
`makesql_sec` returns true: no index is out of range; the `j`-th expression is made from the Sybase
column with the `j`-th name, as the type of the Oracle column requested at `j` decides; and the
values are formatted as for the Oracle columns with the requested names. -/
def PeerRight (v_type v_type_sy : List Tabtype) (tabname col_sy col_orcl : String) : Prop :=
  Resolves v_type_sy col_sy → ∃ exprs,
    makesqlSec v_type v_type_sy tabname col_sy = .select ⟨exprs, tabname⟩ ∧
      exprs.length = (spiltChar col_sy ",").length ∧
      (∀ (j : ℕ) name, (spiltChar col_sy ",")[j]? = some name → ∃ sy i,
        pick v_type_sy name = some (sy, i) ∧ sy.col_name = name ∧
          exprs[j]? = selectExpr sy (requested v_type (spiltChar col_orcl ",") j)) ∧
      ∃ cols, (spiltChar col_orcl ",").map (named v_type) = cols.map some ∧
        ∀ row, valuesAnother v_type row (spiltChar col_orcl ",") "" 0 = values row cols 0

/-! ## The condition -/

/-- A type for which an integer is converted. -/
def Tabtype.IsText (t : Tabtype) : Prop := t.col_type = "CHAR" ∨ t.col_type = "VARCHAR2"

/-- A type that is converted for a text column. -/
def Tabtype.IsInteger (sy : Tabtype) : Prop := sy.col_type = "int" ∨ sy.col_type = "numberic"

/-- Whether a column is a text can be computed. -/
instance (t : Tabtype) : Decidable t.IsText := inferInstanceAs (Decidable (_ ∨ _))

/-- And whether it is an integer. -/
instance (sy : Tabtype) : Decidable sy.IsInteger := inferInstanceAs (Decidable (_ ∨ _))

/-- A Sybase column has the requested name and no earlier name starts with it; and unless it is a
`datetime`, there are an Oracle column at its index and a requested one, for an integer both or
neither of a text type. -/
def Aligned (v_type v_type_sy : List Tabtype) (name : String) (orcl : Option Tabtype) : Prop :=
  ∃ (sy : Tabtype) (i : ℕ), v_type_sy[i]? = some sy ∧ sy.col_name = name ∧
    (∀ k < i, ∀ t, v_type_sy[k]? = some t → startsWith t.col_name name = false) ∧
      (sy.col_type = "datetime" ∨ ∃ same t, v_type[i]? = some same ∧ orcl = some t ∧
        (sy.IsInteger → (same.IsText ↔ t.IsText)))

/-- An Oracle column has the requested name, and the first one whose name starts with it is
formatted in the same way. -/
def FormatAligned (v_type : List Tabtype) (name : String) : Prop :=
  ∃ first t, pickOrcl v_type name = some first ∧ named v_type name = some t ∧
    format first.col_type = format t.col_type

/-! ## The expressions of the SELECT -/

/-- A name begins with itself. -/
theorem startsWith_self (s : String) : startsWith s s = true :=
  List.isPrefixOf_iff_prefix.2 (List.prefix_refl _)

/-- The column that is picked is the first whose name begins with the given one. -/
theorem pick_eq_some_iff {v_type_sy : List Tabtype} {name : String} {sy : Tabtype} {i : ℕ} :
    pick v_type_sy name = some (sy, i) ↔ v_type_sy[i]? = some sy ∧
      startsWith sy.col_name name = true ∧
        ∀ k < i, ∀ t, v_type_sy[k]? = some t → startsWith t.col_name name = false := by
  unfold pick
  rw [List.find?_eq_some_iff_getElem]
  constructor
  · rintro ⟨hname, i', hi', hget, hfirst⟩
    rw [List.getElem_zipIdx, Prod.mk.injEq, Nat.zero_add] at hget
    obtain ⟨rfl, rfl⟩ := hget
    have hi : i' < v_type_sy.length := by simpa using hi'
    refine ⟨List.getElem?_eq_getElem hi, hname, ?_⟩
    intro k hk t ht
    obtain ⟨hklt, rfl⟩ := List.getElem?_eq_some_iff.1 ht
    simpa using hfirst k hk
  · rintro ⟨hsy, hname, hfirst⟩
    obtain ⟨hi, rfl⟩ := List.getElem?_eq_some_iff.1 hsy
    refine ⟨hname, i, by simpa using hi, by simp, ?_⟩
    intro k hk
    have := hfirst k hk _ (List.getElem?_eq_getElem (Nat.lt_trans hk hi))
    simpa using this

/-- The expression that `makesql_sec` makes for a name. -/
def exprFor (v_type v_type_sy : List Tabtype) (name : String) : Option String :=
  (pick v_type_sy name).bind fun (sy, i) => selectExpr sy v_type[i]?

/-- A list of results that are all there, from its first element on. -/
theorem map_cons_eq_map_some {α β : Type} {f : α → Option β} {x : α} {l : List α} {ys : List β} :
    (x :: l).map f = ys.map some ↔ ∃ y zs, f x = some y ∧ l.map f = zs.map some ∧ ys = y :: zs := by
  rw [List.map_cons]
  constructor
  · intro h
    obtain ⟨y, zs, rfl, hy, hzs⟩ := List.map_eq_cons_iff.1 h.symm
    exact ⟨y, zs, hy.symm, hzs.symm, rfl⟩
  · rintro ⟨y, zs, hy, hzs, rfl⟩
    rw [hy, hzs, List.map_cons]

/-- The loop makes a SELECT if every name gives an expression. -/
theorem secExprs_eq_select_iff {v_type v_type_sy : List Tabtype} {tabname : String}
    {names acc exprs : List String} :
    secExprs v_type v_type_sy names acc tabname = .select ⟨exprs, tabname⟩ ↔
      ∃ es, names.map (exprFor v_type v_type_sy) = es.map some ∧ exprs = acc ++ es := by
  induction names generalizing acc with
  | nil =>
    constructor
    · intro h
      cases h
      exact ⟨[], rfl, (List.append_nil _).symm⟩
    · rintro ⟨es, hes, rfl⟩
      obtain rfl : es = [] := by simpa using hes.symm
      rw [List.append_nil]
      rfl
  | cons name names ih =>
    have hstep : secExprs v_type v_type_sy (name :: names) acc tabname =
        .select ⟨exprs, tabname⟩ ↔ ∃ expr, exprFor v_type v_type_sy name = some expr ∧
          secExprs v_type v_type_sy names (acc ++ [expr]) tabname =
            .select ⟨exprs, tabname⟩ := by
      rw [secExprs, exprFor, pick]
      cases v_type_sy.zipIdx.find? fun (sy, _) => startsWith sy.col_name name with
      | none => simp
      | some p =>
        dsimp only [Option.bind_some]
        cases selectExpr p.1 v_type[p.2]? <;> simp
    rw [hstep]
    simp only [ih, map_cons_eq_map_some]
    constructor
    · rintro ⟨expr, hexpr, es, hes, rfl⟩
      exact ⟨expr :: es, ⟨expr, es, hexpr, hes, rfl⟩, by simp⟩
    · rintro ⟨_, ⟨expr, es, hexpr, hes, rfl⟩, rfl⟩
      exact ⟨expr, hexpr, es, hes, by simp⟩

/-- So does `makesqlSec`, for the names of its list. -/
theorem makesqlSec_eq_select_iff {v_type v_type_sy : List Tabtype} {tabname col : String}
    {exprs : List String} :
    makesqlSec v_type v_type_sy tabname col = .select ⟨exprs, tabname⟩ ↔
      (spiltChar col ",").map (exprFor v_type v_type_sy) = exprs.map some := by
  unfold makesqlSec
  rw [secExprs_eq_select_iff]
  simp

/-- The expression for an integer or another column, if it is no `datetime`. -/
theorem selectExpr_some {sy : Tabtype} (h : sy.col_type ≠ "datetime") (t : Tabtype) :
    selectExpr sy (some t) = some (if t.IsText ∧ sy.IsInteger then
      " convert(char," ++ sy.col_name ++ ") " else " " ++ sy.col_name ++ " ") := by
  unfold selectExpr
  rw [if_neg h]
  rfl

/-- An expression with `convert` is not the plain one. -/
theorem convert_ne (name : String) : " convert(char," ++ name ++ ") " ≠ " " ++ name ++ " " := by
  intro h
  have hlength := congrArg String.length h
  simp only [String.length_append] at hlength
  have h1 : " convert(char,".length = 14 := rfl
  have h2 : ") ".length = 2 := rfl
  have h3 : " ".length = 1 := rfl
  omega

/-- One expression is made for both Oracle columns. -/
theorem selectExpr_agree_iff {sy : Tabtype} {a b : Option Tabtype} :
    (∃ e, selectExpr sy a = some e ∧ selectExpr sy b = some e) ↔ sy.col_type = "datetime" ∨
      ∃ s t, a = some s ∧ b = some t ∧ (sy.IsInteger → (s.IsText ↔ t.IsText)) := by
  rcases eq_or_ne sy.col_type "datetime" with hsy | hsy
  · simp only [selectExpr, hsy, true_or, iff_true]
    exact ⟨_, rfl, rfl⟩
  · simp only [hsy, false_or]
    have hnone : selectExpr sy none = none := by
      rw [selectExpr, if_neg hsy]
      rfl
    constructor
    · rintro ⟨e, ha, hb⟩
      cases a with
      | none => simp [hnone] at ha
      | some s =>
        cases b with
        | none => simp [hnone] at hb
        | some t =>
          refine ⟨s, t, rfl, rfl, ?_⟩
          intro hint
          rw [selectExpr_some hsy, Option.some.injEq] at ha hb
          by_contra hne
          by_cases hs : s.IsText
          · have ht : ¬t.IsText := fun ht => hne (iff_of_true hs ht)
            rw [if_pos ⟨hs, hint⟩] at ha
            rw [if_neg fun h => ht h.1] at hb
            exact convert_ne _ (ha.trans hb.symm)
          · have ht : t.IsText := by
              by_contra ht
              exact hne (iff_of_false hs ht)
            rw [if_neg fun h => hs h.1] at ha
            rw [if_pos ⟨ht, hint⟩] at hb
            exact convert_ne _ (hb.trans ha.symm)
    · rintro ⟨s, t, rfl, rfl, h⟩
      refine ⟨_, selectExpr_some hsy s, ?_⟩
      rw [selectExpr_some hsy]
      have hiff : s.IsText ∧ sy.IsInteger ↔ t.IsText ∧ sy.IsInteger :=
        and_congr_left h
      simp only [hiff]

/-- For an aligned name, and only for these, the expression that is made is the right one. -/
theorem aligned_iff {v_type v_type_sy : List Tabtype} {name : String} {orcl : Option Tabtype} :
    Aligned v_type v_type_sy name orcl ↔ ∃ sy i e, pick v_type_sy name = some (sy, i) ∧
      sy.col_name = name ∧ selectExpr sy v_type[i]? = some e ∧ selectExpr sy orcl = some e := by
  constructor
  · rintro ⟨sy, i, hsy, hname, hfirst, hagree⟩
    obtain ⟨e, hsame, horcl⟩ := selectExpr_agree_iff.2 hagree
    have hstarts : startsWith sy.col_name name = true := by
      rw [hname]
      exact startsWith_self name
    exact ⟨sy, i, e, pick_eq_some_iff.2 ⟨hsy, hstarts, hfirst⟩, hname, hsame, horcl⟩
  · rintro ⟨sy, i, e, hpick, hname, hsame, horcl⟩
    obtain ⟨hsy, -, hfirst⟩ := pick_eq_some_iff.1 hpick
    exact ⟨sy, i, hsy, hname, hfirst, selectExpr_agree_iff.1 ⟨e, hsame, horcl⟩⟩

/-- A function that gives a value for each element gives a list of values. -/
theorem exists_map_eq_map_some {α β : Type} {f : α → Option β} {l : List α}
    (h : ∀ x ∈ l, ∃ y, f x = some y) : ∃ ys : List β, l.map f = ys.map some := by
  induction l with
  | nil => exact ⟨[], rfl⟩
  | cons x l ih =>
    obtain ⟨y, hy⟩ := h x List.mem_cons_self
    obtain ⟨ys, hys⟩ := ih fun z hz => h z (List.mem_cons_of_mem _ hz)
    exact ⟨y :: ys, map_cons_eq_map_some.2 ⟨y, ys, hy, hys, rfl⟩⟩

/-- The expressions are the right ones, just for aligned names; `orcl j` is the Oracle column
requested at `j`. -/
theorem exprs_iff {v_type v_type_sy : List Tabtype} {names : List String}
    {orcl : ℕ → Option Tabtype} :
    (∃ exprs : List String, names.map (exprFor v_type v_type_sy) = exprs.map some ∧
        exprs.length = names.length ∧
        ∀ (j : ℕ) name, names[j]? = some name → ∃ sy i, pick v_type_sy name = some (sy, i) ∧
          sy.col_name = name ∧ exprs[j]? = selectExpr sy (orcl j)) ↔
      ∀ (j : ℕ) name, names[j]? = some name → Aligned v_type v_type_sy name (orcl j) := by
  -- the `j`-th expression is the one made for the `j`-th name
  have hget : ∀ {exprs : List String}, names.map (exprFor v_type v_type_sy) = exprs.map some →
      ∀ {j : ℕ} {name sy i}, names[j]? = some name → pick v_type_sy name = some (sy, i) →
        exprs[j]?.map some = some (selectExpr sy v_type[i]?) := by
    intro exprs hmap j name sy i hj hpick
    rw [← List.getElem?_map, ← hmap, List.getElem?_map, hj, Option.map_some, exprFor, hpick]
    rfl
  constructor
  · rintro ⟨exprs, hmap, hlength, hright⟩ j name hj
    obtain ⟨sy, i, hpick, hname, hexpr⟩ := hright j name hj
    obtain ⟨e, he, hmade⟩ := Option.map_eq_some_iff.1 (hget hmap hj hpick)
    exact aligned_iff.2 ⟨sy, i, e, hpick, hname, hmade.symm, by rw [← hexpr, he]⟩
  · intro h
    have hmade : ∀ name ∈ names, ∃ e, exprFor v_type v_type_sy name = some e := by
      intro name hname
      obtain ⟨j, hj⟩ := List.mem_iff_getElem?.1 hname
      obtain ⟨sy, i, e, hpick, -, he, -⟩ := aligned_iff.1 (h j name hj)
      refine ⟨e, ?_⟩
      rw [exprFor, hpick]
      exact he
    obtain ⟨exprs, hmap⟩ := exists_map_eq_map_some hmade
    refine ⟨exprs, hmap, by simpa using (congrArg List.length hmap).symm, ?_⟩
    intro j name hj
    obtain ⟨sy, i, e, hpick, hname, he, horcl⟩ := aligned_iff.1 (h j name hj)
    refine ⟨sy, i, hpick, hname, ?_⟩
    obtain ⟨e', he', hmade'⟩ := Option.map_eq_some_iff.1 (hget hmap hj hpick)
    rw [he', hmade', he, horcl]

/-! ## The values of the INSERT -/

/-- With a column for every name, the values are those of `conversion_start` for these columns. -/
theorem valuesAnother_eq {v_type cols : List Tabtype} {names : List String}
    (h : names.map (pickOrcl v_type) = cols.map some) (row : List Field) (tmp : String)
    (colindex : ℕ) : valuesAnother v_type row names tmp colindex = values row cols colindex := by
  induction names generalizing cols tmp colindex with
  | nil =>
    obtain rfl : cols = [] := by simpa using h.symm
    rfl
  | cons name names ih =>
    obtain ⟨t, cols, ht, hcols, rfl⟩ := map_cons_eq_map_some.1 h
    have hempty : names.isEmpty = cols.isEmpty := by
      rw [← List.isEmpty_map (f := pickOrcl v_type), hcols, List.isEmpty_map]
    rw [pickOrcl] at ht
    unfold valuesAnother values
    rw [ht]
    dsimp only
    simp only [ih hcols, hempty]

/-- The values depend on the formats of the columns only. -/
theorem values_congr {us ts : List Tabtype}
    (h : us.map (format ·.col_type) = ts.map (format ·.col_type)) (row : List Field)
    (colindex : ℕ) : values row us colindex = values row ts colindex := by
  induction us generalizing ts colindex with
  | nil =>
    obtain rfl : ts = [] := by simpa using h.symm
    rfl
  | cons u us ih =>
    cases ts with
    | nil => simp at h
    | cons t ts =>
      simp only [List.map_cons, List.cons.injEq] at h
      have hempty : us.isEmpty = ts.isEmpty := by
        rw [← List.isEmpty_map (f := (format ·.col_type)), h.2, List.isEmpty_map]
      unfold values
      simp only [renderValue_congr h.1, ih h.2, hempty]

/-- The text of a value whose field holds `0`. -/
def Format.zero : Format → String
  | .date => " to_date(trim('0'),'yyyy.mm.dd hh24:mi:ss') "
  | .text => " TRIM('0 ') "
  | .number => " 0 "
  | .nothing => ""

/-- The values of a row of zeros, by the formats of its columns. -/
def zeroValues : List Format → String
  | [] => ""
  | f :: fs => f.zero ++ separator fs.isEmpty ++ zeroValues fs

/-- A zero is written in its format. -/
theorem renderValue_zeros {n colindex : ℕ} (h : colindex < n) (col_type : String) :
    ∃ next ≤ colindex + 1, renderValue col_type (.replicate n ⟨"0", "0"⟩) colindex =
      some ((format col_type).zero, next) := by
  have hget : (List.replicate n (⟨"0", "0"⟩ : Field))[colindex]? = some ⟨"0", "0"⟩ :=
    List.getElem?_replicate_of_lt h
  unfold renderValue format
  rw [hget]
  split_ifs
  · exact ⟨colindex + 1, Nat.le_refl _, rfl⟩
  · exact ⟨colindex + 1, Nat.le_refl _, rfl⟩
  · exact ⟨colindex + 1, Nat.le_refl _, rfl⟩
  · exact ⟨colindex, Nat.le_succ _, rfl⟩

/-- So is a row of zeros. -/
theorem values_zeros {n colindex : ℕ} {cols : List Tabtype} (h : colindex + cols.length ≤ n) :
    values (.replicate n ⟨"0", "0"⟩) cols colindex =
      some (zeroValues (cols.map (format ·.col_type))) := by
  induction cols generalizing colindex with
  | nil => rfl
  | cons t cols ih =>
    rw [List.length_cons] at h
    obtain ⟨next, hnext, hrender⟩ := renderValue_zeros (by omega : colindex < n) t.col_type
    have hrest := ih (by omega : next + cols.length ≤ n)
    unfold values
    rw [hrender]
    simp only [Option.bind_eq_bind, Option.bind_some, hrest, List.map_cons, zeroValues,
      List.isEmpty_map]

/-- The second character tells how a value is formatted. -/
theorem Format.eq_of_zero_append {f g : Format} {b : Bool} {s t : String}
    (h : f.zero ++ separator b ++ s = g.zero ++ separator b ++ t) : f = g := by
  have hsecond := congrArg (·.toList[1]?) h
  cases f <;> cases g <;> cases b <;> simp [Format.zero, separator] at hsecond ⊢

/-- The text of a row of zeros tells the formats. -/
theorem eq_of_zeroValues_eq {fs gs : List Format} (hlength : fs.length = gs.length)
    (h : zeroValues fs = zeroValues gs) : fs = gs := by
  induction fs generalizing gs with
  | nil => exact (List.length_eq_zero_iff.1 hlength.symm).symm
  | cons f fs ih =>
    cases gs with
    | nil => simp at hlength
    | cons g gs =>
      have hrest : fs.length = gs.length := by simpa using hlength
      have hempty : fs.isEmpty = gs.isEmpty := by
        cases fs <;> cases gs <;> simp_all
      unfold zeroValues at h
      rw [hempty] at h
      obtain rfl := Format.eq_of_zero_append h
      rw [ih hrest ((String.append_right_inj _).1 h)]

/-- Two lists of columns give the same values for every row just when they are formatted in the
same way. -/
theorem values_eq_iff {us ts : List Tabtype} (hlength : us.length = ts.length) :
    (∀ row, values row us 0 = values row ts 0) ↔
      us.map (format ·.col_type) = ts.map (format ·.col_type) := by
  constructor
  · intro h
    have hzeros := h (.replicate us.length ⟨"0", "0"⟩)
    rw [values_zeros (by omega), values_zeros (by omega), Option.some.injEq] at hzeros
    exact eq_of_zeroValues_eq (by simpa using hlength) hzeros
  · intro h row
    exact values_congr h row 0

/-- The formats of the columns found for a list of names. -/
theorem map_formats {names : List String} {cols : List Tabtype} {f : String → Option Tabtype}
    (h : names.map f = cols.map some) :
    (cols.map (format ·.col_type)).map some =
      names.map fun name => (f name).map (format ·.col_type) := by
  calc (cols.map (format ·.col_type)).map some
      = (cols.map some).map (Option.map (format ·.col_type)) := by simp
    _ = (names.map f).map (Option.map (format ·.col_type)) := by rw [h]
    _ = names.map fun name => (f name).map (format ·.col_type) := by
      rw [List.map_map]
      rfl

/-- A column with the name is found, if perhaps another one first. -/
theorem exists_pickOrcl_of_named {v_type : List Tabtype} {name : String} {t : Tabtype}
    (h : named v_type name = some t) : ∃ first, pickOrcl v_type name = some first := by
  have hname : t.col_name = name := by simpa using List.find?_some h
  refine Option.isSome_iff_exists.1 (List.find?_isSome.2 ⟨t, List.mem_of_find?_eq_some h, ?_⟩)
  rw [hname]
  exact startsWith_self name

/-- Two lists of columns found for the same names, in the same formats. -/
theorem map_format_eq_iff {names : List String} {us cols : List Tabtype}
    {f g : String → Option Tabtype} (hus : names.map f = us.map some)
    (hcols : names.map g = cols.map some) :
    us.map (format ·.col_type) = cols.map (format ·.col_type) ↔ ∀ name ∈ names,
      (f name).map (format ·.col_type) = (g name).map (format ·.col_type) := by
  rw [← List.map_inj_left, ← map_formats hus, ← map_formats hcols]
  exact (List.map_injective_iff.2 fun _ _ => Option.some.inj).eq_iff.symm

/-- The values are formatted as for the requested columns, just for aligned names. -/
theorem formats_iff {v_type : List Tabtype} {names : List String} :
    (∃ cols, names.map (named v_type) = cols.map some ∧
        ∀ row, valuesAnother v_type row names "" 0 = values row cols 0) ↔
      ∀ name ∈ names, FormatAligned v_type name := by
  constructor
  · rintro ⟨cols, hcols, hvalues⟩ name hname
    have hnamed : ∀ name ∈ names, ∃ t, named v_type name = some t := by
      intro name hname
      have hmem : named v_type name ∈ cols.map some := hcols ▸ List.mem_map_of_mem hname
      obtain ⟨t, -, ht⟩ := List.mem_map.1 hmem
      exact ⟨t, ht.symm⟩
    obtain ⟨us, hus⟩ := exists_map_eq_map_some fun name hname =>
      exists_pickOrcl_of_named (hnamed name hname).choose_spec
    have hlength : us.length = cols.length := by
      have h1 := congrArg List.length hus
      have h2 := congrArg List.length hcols
      simp only [List.length_map] at h1 h2
      omega
    simp only [valuesAnother_eq hus] at hvalues
    have hsame := (map_format_eq_iff hus hcols).1 ((values_eq_iff hlength).1 hvalues) name hname
    obtain ⟨t, ht⟩ := hnamed name hname
    obtain ⟨first, hfirst⟩ := exists_pickOrcl_of_named ht
    rw [hfirst, ht] at hsame
    exact ⟨first, t, hfirst, ht, Option.some.inj hsame⟩
  · intro h
    obtain ⟨us, hus⟩ : ∃ us : List Tabtype, names.map (pickOrcl v_type) = us.map some := by
      refine exists_map_eq_map_some fun name hname => ?_
      obtain ⟨first, -, hfirst, -⟩ := h name hname
      exact ⟨first, hfirst⟩
    obtain ⟨cols, hcols⟩ : ∃ cols : List Tabtype, names.map (named v_type) = cols.map some := by
      refine exists_map_eq_map_some fun name hname => ?_
      obtain ⟨-, t, -, ht, -⟩ := h name hname
      exact ⟨t, ht⟩
    refine ⟨cols, hcols, ?_⟩
    intro row
    rw [valuesAnother_eq hus]
    refine values_congr ((map_format_eq_iff hus hcols).2 ?_) row 0
    intro name hname
    obtain ⟨first, t, hfirst, ht, hsame⟩ := h name hname
    rw [hfirst, ht]
    exact congrArg some hsame

/-! ## The three places together -/

/-- The right columns are used just when a requested name is not found on the Sybase side, or every
name of the two key lists is aligned. -/
theorem peerRight_iff (v_type v_type_sy : List Tabtype) (tabname col_sy col_orcl : String) :
    PeerRight v_type v_type_sy tabname col_sy col_orcl ↔ ¬Resolves v_type_sy col_sy ∨
      (∀ (j : ℕ) name, (spiltChar col_sy ",")[j]? = some name →
        Aligned v_type v_type_sy name (requested v_type (spiltChar col_orcl ",") j)) ∧
      ∀ name ∈ spiltChar col_orcl ",", FormatAligned v_type name := by
  unfold PeerRight
  rw [imp_iff_not_or, ← exprs_iff, ← formats_iff]
  simp only [makesqlSec_eq_select_iff]
  refine or_congr_right ?_
  constructor
  · rintro ⟨exprs, hmap, hlength, hright, hvalues⟩
    exact ⟨⟨exprs, hmap, hlength, hright⟩, hvalues⟩
  · rintro ⟨⟨exprs, hmap, hlength, hright⟩, hvalues⟩
    exact ⟨exprs, hmap, hlength, hright, hvalues⟩

/-! ### A column whose name goes on -/

namespace CallerType

/-- In Sybase a column stands before the one whose name it begins with. -/
def v_type_sy : List Tabtype := [⟨"CALLER_TYPE", "char"⟩, ⟨"CALLER", "varchar"⟩]

/-- The columns in Oracle. -/
def v_type : List Tabtype := [⟨"CALLER", "VARCHAR2"⟩, ⟨"FEE", "NUMBER"⟩]

/-- The key list has one name. -/
theorem spiltChar_caller : spiltChar "CALLER" "," = ["CALLER"] := by decide +kernel

/-- `CALLER_TYPE` is copied in the place of `CALLER`. -/
theorem caller_not_right : ¬PeerRight v_type v_type_sy "CC_BILL" "CALLER" "CALLER" := by
  intro h
  have hresolves : Resolves v_type_sy "CALLER" := by
    unfold Resolves
    rw [spiltChar_caller]
    decide
  obtain ⟨exprs, -, -, hright, -⟩ := h hresolves
  obtain ⟨sy, i, hpick, hname, -⟩ := hright 0 "CALLER" (by rw [spiltChar_caller]; rfl)
  have hsy : pick v_type_sy "CALLER" = some (⟨"CALLER_TYPE", "char"⟩, 0) := by decide
  rw [hsy] at hpick
  cases hpick
  exact absurd hname (by decide)

end CallerType

end TelecomSuite.Convert
