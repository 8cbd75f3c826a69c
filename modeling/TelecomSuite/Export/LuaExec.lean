import TelecomSuite.Export.HandleLine

/-!
# Calls of Lua functions

`CallLuaFunction` pushes the function and its arguments, calls it and takes its results. It leaves
the stack as it found it on every exit but one: when the called function raises an error, the error
object that `lua_pcall` pushed stays on the stack. `calls_kept_iff` says this for a sequence of
calls, with the room that `luaL_checkstack` asks for; where there is none, the process ends.
-/

namespace TelecomSuite.Export

open LuaPattern

/-! ## The Lua side -/

/-- A value of Lua, over the numbers of the interpreter. -/
inductive LuaValue (N : Type)
  | nil
  | boolean (b : Bool)
  | number (n : N)
  | string (s : Text)
  | function (f : ℕ)
  | reference (r : ℕ)

/-- What a protected call comes to. -/
inductive Outcome (N : Type)
  | returns (results : List (LuaValue N))
  | raises (error : LuaValue N)

/-- The interpreter and the script: conversions of numbers, the global variables, and what a call
does. -/
structure Lua (W N : Type) where
  ofInt : ℤ → N
  toInt : N → ℤ
  parse : Text → Option N
  print : N → Text
  getglobal : W → Text → LuaValue N
  call : W → LuaValue N → List (LuaValue N) → Outcome N × W

/-- What is written through a result pointer. -/
inductive Stored (N : Type)
  | double (x : N)
  | int (n : ℤ)
  | text (s : Text)

/-- A variadic parameter, as `va_arg` reads it under each of the types. -/
structure VaArg (N : Type) where
  double : N
  int : ℤ
  str : Option Text
  ptr : ℕ

/-- The interpreter between two calls, with the top of the stack first. `calls` and `stores` are
ghosts: the calls made so far and what was written through result pointers, oldest first. -/
structure LuaState (W N : Type) where
  world : W
  stack : List (LuaValue N)
  calls : List (LuaValue N × List (LuaValue N))
  stores : List (ℕ × Stored N)

/-- The limit of the stack of a C function. -/
def LUAI_MAXCSTACK : ℕ := 8000

/-- The value can be called. -/
def LuaValue.isFunction {N : Type} : LuaValue N → Bool
  | .function _ => true
  | .nil | .boolean _ | .number _ | .string _ | .reference _ => false

section
variable {W N : Type} (L : Lua W N)

/-- `lua_isnumber` and `lua_tonumber`. -/
def Lua.tonumber : LuaValue N → Option N
  | .number n => some n
  | .string s => L.parse s
  | .nil | .boolean _ | .function _ | .reference _ => none

/-- `lua_isstring` and `lua_tostring`. -/
def Lua.tostring : LuaValue N → Option Text
  | .number n => some (L.print n)
  | .string s => some s
  | .nil | .boolean _ | .function _ | .reference _ => none

/-- The results of a function as a caller that wants so many gets them. -/
def adjust (nret : ℕ) (results : List (LuaValue N)) : List (LuaValue N) :=
  results.take nret ++ List.replicate (nret - results.length) .nil

/-- `lua_pcall`: the function and its arguments are taken off the stack; the results are pushed, or
the error object. -/
def lua_pcall (narg nret : ℕ) (s : LuaState W N) : Bool × LuaState W N :=
  let f := s.stack.getD narg .nil
  let args := (s.stack.take narg).reverse
  let rest := s.stack.drop (narg + 1)
  match L.call s.world f args with
  | (.returns results, w) =>
    (true, ⟨w, (adjust nret results).reverse ++ rest, s.calls ++ [(f, args)], s.stores⟩)
  | (.raises error, w) => (false, ⟨w, error :: rest, s.calls ++ [(f, args)], s.stores⟩)

/-! ## The C++ side -/

/-- `lua_pushstring`: nil for a null pointer. -/
def pushstring : Option Text → LuaValue N
  | none => .nil
  | some s => .string s

/-- The loop over the arguments, with the number of arguments, the next parameter and the stack. It
ends with these and the rest of the format, or in the panic of `luaL_checkstack`. -/
def pushArgs (va : ℕ → VaArg N) : List Char → ℕ → ℕ → List (LuaValue N) →
    Option (ℕ × ℕ × List Char × List (LuaValue N))
  | [], narg, ap, stack => some (narg, ap, [], stack)
  | c :: fmt, narg, ap, stack =>
    if stack.length < LUAI_MAXCSTACK then
      match c with
      | 'd' => pushArgs va fmt (narg + 1) (ap + 1) (.number (va ap).double :: stack)
      | 'i' => pushArgs va fmt (narg + 1) (ap + 1) (.number (L.ofInt (va ap).int) :: stack)
      | 's' => pushArgs va fmt (narg + 1) (ap + 1) (pushstring (va ap).str :: stack)
      | '>' => some (narg, ap, fmt, stack)
      | _ => pushArgs va fmt (narg + 1) ap stack
    else none

/-- The loop over the results, with the negated index of the next one and the next parameter: the
return code, and what it writes. -/
def getResults (va : ℕ → VaArg N) (stack : List (LuaValue N)) : List Char → ℕ → ℕ →
    ℕ × List (ℕ × Stored N)
  | [], _, _ => (0, [])
  | c :: fmt, nindex, ap =>
    let v := stack.getD (nindex - 1) .nil
    let stored := match c with
      | 'd' => (L.tonumber v).map Stored.double
      | 'i' => (L.tonumber v).map fun n => Stored.int (L.toInt n)
      | 's' => (L.tostring v).map fun s => Stored.text (cstr s)
      | _ => none
    match stored with
    | some x =>
      let r := getResults va stack fmt (nindex - 1) (ap + 1)
      (r.1, ((va ap).ptr, x) :: r.2)
    | none => (1, [])

/-- `CallLuaFunction`: the return code and the state after the call, or nothing when the process
has ended. -/
def CallLuaFunction (func : Option Text) (vfmt : List Char) (va : ℕ → VaArg N)
    (s : LuaState W N) : Option (ℕ × LuaState W N) :=
  match func with
  | none | some [] => some (1, s)
  | some name =>
    let f := L.getglobal s.world name
    if f.isFunction then
      match pushArgs L va vfmt 0 0 (f :: s.stack) with
      | none => none
      | some (narg, ap, fmt, stack) =>
        let nret := fmt.length
        match lua_pcall L narg nret { s with stack := stack } with
        | (false, s') => some (1, s')
        | (true, s') =>
          let r := getResults L va s'.stack fmt nret ap
          some (r.1, { s' with stack := s'.stack.drop nret, stores := s'.stores ++ r.2 })
    else some (1, s)

end

/-! ## Calls with a format of the documented form -/

/-- A letter of the format. -/
inductive Opt
  | d
  | i
  | s
  deriving DecidableEq

/-- The letter of an option. -/
def Opt.char : Opt → Char
  | .d => 'd'
  | .i => 'i'
  | .s => 's'

/-- A format `[ids]*[>[ids]*]`. -/
structure Format where
  ins : List Opt
  outs : Option (List Opt)

/-- The text of a format: the arguments, and the results after a `>`. -/
def Format.text (f : Format) : List Char :=
  f.ins.map Opt.char ++ match f.outs with
    | none => []
    | some outs => '>' :: outs.map Opt.char

/-- The letters behind the `>`. -/
def Format.results (f : Format) : List Opt := f.outs.getD []

/-- How often the loop over the arguments asks for room. -/
def Format.checks (f : Format) : ℕ := f.ins.length + if f.outs.isSome then 1 else 0

/-- A call. -/
structure Call (N : Type) where
  func : Option Text
  fmt : Format
  va : ℕ → VaArg N

section
variable {W N : Type} (L : Lua W N)

/-- The argument that a letter stands for. -/
def Opt.push (o : Opt) (v : VaArg N) : LuaValue N :=
  match o with
  | .d => .number v.double
  | .i => .number (L.ofInt v.int)
  | .s => pushstring v.str

/-- The result that a letter stands for; none if the value has another type. -/
def Opt.get (o : Opt) (v : LuaValue N) : Option (Stored N) :=
  match o with
  | .d => (L.tonumber v).map .double
  | .i => (L.tonumber v).map fun n => .int (L.toInt n)
  | .s => (L.tostring v).map fun s => .text (cstr s)

/-- The arguments in the order of the format. -/
def Call.args (c : Call N) : List (LuaValue N) :=
  c.fmt.ins.mapIdx fun j o => o.push L (c.va j)

/-- The function that the call finds under its name. -/
def Call.target (c : Call N) (s : LuaState W N) : Option (LuaValue N) :=
  match c.func with
  | none | some [] => none
  | some name =>
    if (L.getglobal s.world name).isFunction then some (L.getglobal s.world name) else none

/-- The call as it is made. -/
def Call.run (c : Call N) (s : LuaState W N) : Option (ℕ × LuaState W N) :=
  CallLuaFunction L c.func c.fmt.text c.va s

/-- There is room for the function and its arguments, as often as the loop asks. -/
def Call.Room (c : Call N) (s : LuaState W N) : Prop :=
  c.fmt.checks = 0 ∨ s.stack.length + 1 + c.fmt.checks ≤ LUAI_MAXCSTACK

/-- The results, one for each letter, go through the pointers in order; a missing one counts as
nil. -/
structure InOrder (outs : List Opt) (results : List (LuaValue N)) (va : ℕ → VaArg N)
    (stores : List (ℕ × Stored N)) : Prop where
  length : stores.length = outs.length
  stored : ∀ j o, outs[j]? = some o → ∃ x, o.get L (results.getD j .nil) = some x ∧
    stores[j]? = some ((va j).ptr, x)

/-- A call that leaves the stack as high as it was, passes its arguments in order and, if it
succeeds, stores its results in order. -/
structure Call.Settled (c : Call N) (s : LuaState W N) (retcode : ℕ) (s' : LuaState W N) :
    Prop where
  height : s'.stack.length = s.stack.length
  calls : s'.calls = s.calls ∨ ∃ f, s'.calls = s.calls ++ [(f, c.args L)]
  results : retcode = 0 → ∃ f rs w stores, c.target L s = some f ∧
    L.call s.world f (c.args L) = (.returns rs, w) ∧ s'.stores = s.stores ++ stores ∧
      InOrder L c.fmt.results rs (fun j => c.va (c.fmt.ins.length + j)) stores

/-- The call comes back, and settled. -/
def Call.Kept (c : Call N) (s : LuaState W N) : Prop :=
  ∃ retcode s', c.run L s = some (retcode, s') ∧ c.Settled L s retcode s'

/-- If there is a function to call, there is room for the call, and the function raises no error. -/
def Call.Answers (c : Call N) (s : LuaState W N) : Prop :=
  ∀ f, c.target L s = some f →
    c.Room s ∧ ∀ error w, L.call s.world f (c.args L) ≠ (.raises error, w)

/-! ## The loops -/

/-- The format has no more arguments. -/
theorem pushArgs_nil (va : ℕ → VaArg N) (narg ap : ℕ) (stack : List (LuaValue N)) :
    pushArgs L va [] narg ap stack = some (narg, ap, [], stack) := rfl

/-- One more argument is pushed, if the stack has room. -/
theorem pushArgs_cons (va : ℕ → VaArg N) (o : Opt) (fmt : List Char) (narg ap : ℕ)
    (stack : List (LuaValue N)) : pushArgs L va (o.char :: fmt) narg ap stack =
      if stack.length < LUAI_MAXCSTACK then
        pushArgs L va fmt (narg + 1) (ap + 1) (o.push L (va ap) :: stack)
      else none := by
  cases o <;> rfl

/-- The `>` ends the arguments. -/
theorem pushArgs_end (va : ℕ → VaArg N) (fmt : List Char) (narg ap : ℕ)
    (stack : List (LuaValue N)) : pushArgs L va ('>' :: fmt) narg ap stack =
      if stack.length < LUAI_MAXCSTACK then some (narg, ap, fmt, stack) else none := rfl

/-- The loop over the letters before the `>` pushes their arguments. -/
theorem pushArgs_ins (va : ℕ → VaArg N) (ins : List Opt) (fmt : List Char) (narg ap : ℕ)
    (stack : List (LuaValue N)) :
    pushArgs L va (ins.map Opt.char ++ fmt) narg ap stack =
      if ins = [] ∨ stack.length + ins.length ≤ LUAI_MAXCSTACK then
        pushArgs L va fmt (narg + ins.length) (ap + ins.length)
          ((ins.mapIdx fun j o => o.push L (va (ap + j))).reverse ++ stack)
      else none := by
  induction ins generalizing narg ap stack with
  | nil => simp
  | cons o ins ih =>
    rw [List.map_cons, List.cons_append, pushArgs_cons, ih, List.mapIdx_cons]
    simp only [List.length_cons, reduceCtorEq, false_or, List.reverse_cons, List.append_assoc,
      List.singleton_append, Nat.add_zero, Nat.add_assoc, Nat.add_comm 1]
    by_cases hroom : stack.length + (ins.length + 1) ≤ LUAI_MAXCSTACK
    · rw [if_pos (by omega), if_pos (.inr hroom), if_pos hroom]
    · rw [if_neg hroom]
      split_ifs with hlt hins
      · rcases hins with rfl | hle
        · exact absurd hlt (by simpa using hroom)
        · exact absurd hle hroom
      · rfl
      · rfl

/-- The loop over the arguments of a whole format. -/
theorem pushArgs_text (va : ℕ → VaArg N) (f : Format) (stack : List (LuaValue N)) :
    pushArgs L va f.text 0 0 stack =
      if f.checks = 0 ∨ stack.length + f.checks ≤ LUAI_MAXCSTACK then
        some (f.ins.length, f.ins.length, f.results.map Opt.char,
          (f.ins.mapIdx fun j o => o.push L (va j)).reverse ++ stack)
      else none := by
  obtain ⟨ins, outs⟩ := f
  simp only [Format.text, Format.results, Format.checks, pushArgs_ins, Nat.zero_add]
  cases outs with
  | none => simp [pushArgs_nil, List.length_eq_zero_iff]
  | some outs =>
    simp only [pushArgs_end, Option.isSome_some, if_true, Option.getD_some, List.length_append,
      List.length_reverse, List.length_mapIdx, Nat.add_eq_zero_iff, one_ne_zero, and_false,
      false_or]
    by_cases hroom : stack.length + (ins.length + 1) ≤ LUAI_MAXCSTACK
    · rw [if_pos (.inr (by omega)), if_pos (by omega), if_pos hroom]
    · rw [if_neg (by omega : ¬ins.length + stack.length < LUAI_MAXCSTACK), if_neg hroom, ite_self]

/-- One more result is stored, if it has the right type. -/
theorem getResults_cons (va : ℕ → VaArg N) (stack : List (LuaValue N)) (o : Opt)
    (fmt : List Char) (nindex ap : ℕ) : getResults L va stack (o.char :: fmt) nindex ap =
      match o.get L (stack.getD (nindex - 1) .nil) with
      | some x =>
        ((getResults L va stack fmt (nindex - 1) (ap + 1)).1,
          ((va ap).ptr, x) :: (getResults L va stack fmt (nindex - 1) (ap + 1)).2)
      | none => (1, []) := by
  cases o <;> rfl

/-- A loop over the results that ends with 0 has stored the values from the index on downwards. -/
theorem getResults_stores (va : ℕ → VaArg N) (stack : List (LuaValue N)) {outs : List Opt}
    {nindex ap : ℕ} (h : (getResults L va stack (outs.map Opt.char) nindex ap).1 = 0) :
    (getResults L va stack (outs.map Opt.char) nindex ap).2.length = outs.length ∧
      ∀ j o, outs[j]? = some o → ∃ x, o.get L (stack.getD (nindex - 1 - j) .nil) = some x ∧
        (getResults L va stack (outs.map Opt.char) nindex ap).2[j]? =
          some ((va (ap + j)).ptr, x) := by
  induction outs generalizing nindex ap with
  | nil => exact ⟨rfl, fun j o hj => by cases hj⟩
  | cons o outs ih =>
    rw [List.map_cons, getResults_cons] at h ⊢
    cases hget : o.get L (stack.getD (nindex - 1) .nil) with
    | none =>
      rw [hget] at h
      exact absurd h one_ne_zero
    | some x =>
      rw [hget] at h
      obtain ⟨hlength, hstored⟩ := ih h
      refine ⟨congrArg (· + 1) hlength, ?_⟩
      intro j o' hj
      cases j with
      | zero =>
        obtain rfl := Option.some.inj hj
        exact ⟨x, hget, rfl⟩
      | succ j =>
        obtain ⟨y, hy, hstore⟩ := hstored j o' hj
        refine ⟨y, ?_, ?_⟩
        · rw [← hy, Nat.add_comm j 1, Nat.sub_sub _ 1 j]
        · rw [← Nat.add_assoc, Nat.add_right_comm]
          exact hstore

/-- `lua_pcall` leaves as many results as it was asked for. -/
theorem length_adjust (nret : ℕ) (rs : List (LuaValue N)) : (adjust nret rs).length = nret := by
  rw [adjust, List.length_append, List.length_take, List.length_replicate]
  omega

/-- They are those of the function, filled up with `nil`. -/
theorem getD_adjust {nret j : ℕ} (h : j < nret) (rs : List (LuaValue N)) :
    (adjust nret rs).getD j .nil = rs.getD j .nil := by
  rw [adjust]
  rcases Nat.lt_or_ge j rs.length with hlt | hge
  · rw [List.getD_append _ _ _ _ (by simp; omega), List.getD_eq_getElem?_getD,
      List.getElem?_take_of_lt h, List.getD_eq_getElem?_getD]
  · rw [List.getD_append_right _ _ _ _ (by simp; omega), List.getD_eq_default rs _ hge]
    exact List.getD_replicate _ (by rw [List.length_take]; omega)

/-- The results on the stack, read from the first one on. -/
theorem getD_results {nret j : ℕ} (h : j < nret) (rs rest : List (LuaValue N)) :
    ((adjust nret rs).reverse ++ rest).getD (nret - 1 - j) .nil = rs.getD j .nil := by
  rw [List.getD_append _ _ _ _ (by rw [List.length_reverse, length_adjust]; omega),
    ← getD_adjust h, List.getD_eq_getElem?_getD,
    List.getElem?_reverse (by rw [length_adjust]; omega), length_adjust,
    List.getD_eq_getElem?_getD]
  congr 2
  omega

/-! ## One call -/

section
variable {c : Call N} {s : LuaState W N}

/-- The call of the function, with its arguments on top of the stack. -/
theorem lua_pcall_args (f : LuaValue N) (args stack : List (LuaValue N)) (nret : ℕ) :
    lua_pcall L args.length nret { s with stack := args.reverse ++ f :: stack } =
      match L.call s.world f args with
      | (.returns rs, w) =>
        (true, ⟨w, (adjust nret rs).reverse ++ stack, s.calls ++ [(f, args)], s.stores⟩)
      | (.raises error, w) => (false, ⟨w, error :: stack, s.calls ++ [(f, args)], s.stores⟩) := by
  have hf : (args.reverse ++ f :: stack).getD args.length .nil = f := by
    rw [List.getD_append_right _ _ _ _ (by simp), List.length_reverse, Nat.sub_self]
    rfl
  have htake : (args.reverse ++ f :: stack).take args.length = args.reverse :=
    List.take_left' List.length_reverse
  have hdrop : (args.reverse ++ f :: stack).drop (args.length + 1) = stack := by
    rw [← List.drop_drop, List.drop_left' List.length_reverse]
    rfl
  simp only [lua_pcall, hf, htake, hdrop, List.reverse_reverse]

/-- One argument for each letter. -/
theorem length_args : (c.args L).length = c.fmt.ins.length := List.length_mapIdx

/-- Without a function nothing changes. -/
theorem Call.run_idle (h : c.target L s = none) : c.run L s = some (1, s) := by
  unfold Call.run CallLuaFunction
  unfold Call.target at h
  split at h
  · rfl
  · rfl
  · split_ifs at h with hf
    exact if_neg hf

/-- With a function the call is made; without room for it the process ends. -/
theorem Call.run_called {f : LuaValue N} (h : c.target L s = some f) : c.run L s =
    if c.fmt.checks = 0 ∨ s.stack.length + 1 + c.fmt.checks ≤ LUAI_MAXCSTACK then
      match L.call s.world f (c.args L) with
      | (.returns rs, w) =>
        let r := getResults L c.va ((adjust c.fmt.results.length rs).reverse ++ s.stack)
          (c.fmt.results.map Opt.char) c.fmt.results.length c.fmt.ins.length
        some (r.1, ⟨w, s.stack, s.calls ++ [(f, c.args L)], s.stores ++ r.2⟩)
      | (.raises error, w) =>
        some (1, ⟨w, error :: s.stack, s.calls ++ [(f, c.args L)], s.stores⟩)
    else none := by
  have hcall : c.run L s = match pushArgs L c.va c.fmt.text 0 0 (f :: s.stack) with
      | none => none
      | some (narg, ap, fmt, stack) =>
        match lua_pcall L narg fmt.length { s with stack := stack } with
        | (false, s') => some (1, s')
        | (true, s') =>
          let r := getResults L c.va s'.stack fmt fmt.length ap
          some (r.1, { s' with
            stack := s'.stack.drop fmt.length
            stores := s'.stores ++ r.2 }) := by
    unfold Call.run CallLuaFunction
    unfold Call.target at h
    split at h
    · cases h
    · cases h
    · split_ifs at h with hf
      cases h
      exact if_pos hf
  have hargs : (c.fmt.ins.mapIdx fun j o => o.push L (c.va j)) = c.args L := rfl
  rw [hcall, pushArgs_text, List.length_cons, hargs]
  split_ifs with hroom
  · simp only [List.length_map]
    rw [← length_args L, lua_pcall_args]
    split
    · next hpcall =>
      split at hpcall
      · cases hpcall
      · cases hpcall
        rfl
    · next hpcall =>
      split at hpcall
      · next rs w hret =>
        cases hpcall
        simp only [List.drop_left' (List.length_reverse.trans (length_adjust _ rs))]
      · cases hpcall
  · rfl

/-- The stores of a call that succeeds are those of the results in order. -/
theorem inOrder_of_getResults {rs rest : List (LuaValue N)}
    (h : (getResults L c.va ((adjust c.fmt.results.length rs).reverse ++ rest)
      (c.fmt.results.map Opt.char) c.fmt.results.length c.fmt.ins.length).1 = 0) :
    InOrder L c.fmt.results rs (fun j => c.va (c.fmt.ins.length + j))
      (getResults L c.va ((adjust c.fmt.results.length rs).reverse ++ rest)
        (c.fmt.results.map Opt.char) c.fmt.results.length c.fmt.ins.length).2 := by
  obtain ⟨hlength, hstored⟩ := getResults_stores L c.va _ h
  refine ⟨hlength, fun j o hj => ?_⟩
  obtain ⟨x, hx, hstore⟩ := hstored j o hj
  have hlt : j < c.fmt.results.length := (List.getElem?_eq_some_iff.1 hj).1
  rw [getD_results hlt] at hx
  exact ⟨x, hx, hstore⟩

/-- A call that is answered comes back, and settled. -/
theorem Call.kept_of_answers (h : c.Answers L s) : c.Kept L s := by
  cases htarget : c.target L s with
  | none => exact ⟨1, s, c.run_idle L htarget, rfl, .inl rfl, fun h => absurd h one_ne_zero⟩
  | some f =>
    obtain ⟨hroom, hraises⟩ := h f htarget
    have hrun := Call.run_called L htarget
    rw [Call.Room] at hroom
    rw [if_pos hroom] at hrun
    rcases hcall : L.call s.world f (c.args L) with ⟨rs | error, w⟩
    · rw [hcall] at hrun
      refine ⟨_, _, hrun, rfl, .inr ⟨f, rfl⟩, fun hzero => ?_⟩
      exact ⟨f, rs, w, _, htarget, hcall, rfl, inOrder_of_getResults L hzero⟩
    · exact absurd hcall (hraises error w)

/-- A call that does not meet the condition ends the process or leaves the error object. -/
theorem Call.answers_of_kept (h : c.Kept L s) : c.Answers L s := by
  obtain ⟨retcode, s', hrun, hsettled⟩ := h
  intro f htarget
  rw [Call.run_called L htarget] at hrun
  split_ifs at hrun with hroom
  refine ⟨hroom, fun error w hraises => ?_⟩
  rw [hraises] at hrun
  cases hrun
  exact absurd hsettled.height (Nat.succ_ne_self _)

/-- Only such a call does. -/
theorem Call.kept_iff : c.Kept L s ↔ c.Answers L s :=
  ⟨Call.answers_of_kept L, Call.kept_of_answers L⟩

end

/-! ## Any number of calls -/

/-- Calls one after the other; nothing when the process has ended. -/
def callAll : List (Call N) → LuaState W N → Option (LuaState W N)
  | [], s => some s
  | c :: calls, s => (c.run L s).bind fun r => callAll calls r.2

/-- Each call and the state in which it is made. -/
def AtEach (P : Call N → LuaState W N → Prop) : List (Call N) → LuaState W N → Prop
  | [], _ => True
  | c :: calls, s => P c s ∧ ∀ retcode s', c.run L s = some (retcode, s') → AtEach P calls s'

section
variable {calls : List (Call N)} {s : LuaState W N}

/-- What follows at each call. -/
theorem AtEach.mono {P Q : Call N → LuaState W N → Prop} (hPQ : ∀ c s, P c s → Q c s)
    (h : AtEach L P calls s) : AtEach L Q calls s := by
  induction calls generalizing s with
  | nil => trivial
  | cons c calls ih => exact ⟨hPQ c s h.1, fun retcode s' hrun => ih (h.2 retcode s' hrun)⟩

/-- Calls that each leave the stack as high as it was. -/
theorem AtEach.height (h : AtEach L (Call.Kept L) calls s) :
    ∃ s', callAll L calls s = some s' ∧ s'.stack.length = s.stack.length := by
  induction calls generalizing s with
  | nil => exact ⟨s, rfl, rfl⟩
  | cons c calls ih =>
    obtain ⟨⟨retcode, s₁, hrun, hsettled⟩, hrest⟩ := h
    obtain ⟨s', hall, hheight⟩ := ih (hrest retcode s₁ hrun)
    refine ⟨s', ?_, hheight.trans hsettled.height⟩
    rw [callAll, hrun]
    exact hall

/-- **The Lua stack over any number of calls.** Every call leaves the stack as high as it was,
passes its arguments in the order of the format and stores its results in order, and so the stack
is as high after all of them, if and only if no call finds a function that raises an error or has
no room for its arguments. -/
theorem calls_kept_iff (calls : List (Call N)) (s : LuaState W N) :
    (AtEach L (Call.Kept L) calls s ∧
        ∃ s', callAll L calls s = some s' ∧ s'.stack.length = s.stack.length) ↔
      AtEach L (Call.Answers L) calls s := by
  constructor
  · rintro ⟨h, -⟩
    exact h.mono L fun _ _ => Call.answers_of_kept L
  · intro h
    have hkept := h.mono L fun _ _ => Call.kept_of_answers L
    exact ⟨hkept, hkept.height L⟩

/-- A function that raises an error at every call. -/
def Call.Raises (c : Call N) : Prop := ∀ s : LuaState W N, ∃ f error w,
  c.target L s = some f ∧ L.call s.world f (c.args L) = (.raises error, w)

/-- A call that fails again and again fills the stack, until one ends the process. -/
theorem callAll_raises {c : Call N} (h : c.Raises L) (hchecks : c.fmt.checks ≠ 0) (n : ℕ) :
    (callAll L (List.replicate (n + 1) c) s).isSome ↔
      s.stack.length + n + 1 + c.fmt.checks ≤ LUAI_MAXCSTACK := by
  induction n generalizing s with
  | zero =>
    obtain ⟨f, error, w, htarget, hcall⟩ := h s
    rw [List.replicate_one, callAll, Call.run_called L htarget, hcall]
    split_ifs with hroom
    · exact iff_of_true rfl (hroom.resolve_left hchecks)
    · exact iff_of_false (by simp) fun hle => hroom (.inr hle)
  | succ n ih =>
    obtain ⟨f, error, w, htarget, hcall⟩ := h s
    rw [List.replicate_succ, callAll, Call.run_called L htarget, hcall]
    split_ifs with hroom
    · change (callAll L (List.replicate (n + 1) c) _).isSome ↔ _
      rw [ih, List.length_cons]
      omega
    · refine iff_of_false (by simp) fun hle => hroom (.inr ?_)
      omega

end

end

/-! ## A function that raises an error -/

namespace RaisingScript

/-- A script in which every name is a function that raises an error. -/
def lua : Lua Unit ℤ where
  ofInt n := n
  toInt n := n
  parse _ := none
  print _ := []
  getglobal _ _ := .function 0
  call _ _ _ := (.raises (.string "attempt to index a nil value".toList), ())

/-- An empty stack. -/
def start : LuaState Unit ℤ := ⟨(), [], [], []⟩

/-- The call of a bill line, `CallLuaFunction(0, "HandleLine", "s>is", ...)`. -/
def handleLine : Call ℤ where
  func := some "HandleLine".toList
  fmt := ⟨[.s], some [.i, .s]⟩
  va _ := ⟨0, 0, some [], 0⟩

/-- The error object of the call stays on the stack. -/
theorem handleLine_leaks : handleLine.fmt.text = "s>is".toList ∧
    (∃ s', handleLine.run lua start = some (1, s') ∧ s'.stack.length = start.stack.length + 1) ∧
      ¬handleLine.Kept lua start := by
  refine ⟨rfl, ⟨_, rfl, rfl⟩, ?_⟩
  rintro ⟨retcode, s', hrun, hsettled⟩
  cases hrun
  exact absurd hsettled.height one_ne_zero

/-- 7998 bill lines that fail go by; the next one ends the process. -/
example : (callAll lua (List.replicate 7998 handleLine) start).isSome ∧
    ¬(callAll lua (List.replicate 7999 handleLine) start).isSome := by
  have hraises : handleLine.Raises lua := fun _ => ⟨_, _, _, rfl, rfl⟩
  have hchecks : handleLine.fmt.checks ≠ 0 := by decide
  constructor
  · exact (callAll_raises lua hraises hchecks 7997).2 (by decide)
  · exact fun h => absurd ((callAll_raises lua hraises hchecks 7998).1 h) (by decide)

end RaisingScript

end TelecomSuite.Export
