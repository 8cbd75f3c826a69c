import TelecomSuite.LevelDb.InternalIterator

/-!
# The iterator of the database

`db/db_iter.cc`. `DBIter` shows at a snapshot for each key the newest value, and passes over what is
hidden or deleted. Its internal iterator goes over all versions: moving forward it is at the entry
that is shown, moving back it is in front of the entries of the key that is shown. What it shows is
the map at the snapshot (`iterate_view`), wherever the way it moves changes.
-/

namespace TelecomSuite.LevelDb

open Iterators Versions MemTable

/-- `DBIter`, over the state of its internal iterator. -/
structure DBIter (σ : Type*) where
  iter : σ
  status : Status
  savedKey : Bytes
  savedValue : Bytes
  direction : Direction
  valid : Bool

namespace DBIter

variable {σ : Type*}

section
variable (it : Iterator Bytes Bytes σ) (cmp : Comparator) (sequence : ℕ)

/-- A new iterator. It is not valid yet. -/
def new (iter : σ) : DBIter σ := ⟨iter, .ok, [], [], .forward, false⟩

/-- `Valid`, `key` and `value`. -/
def entry (d : DBIter σ) : Option (Bytes × Bytes) :=
  if d.valid then
    match d.direction with
    | .forward => (it.entry d.iter).map fun e => (extractUserKey e.1, e.2)
    | .reverse => some (d.savedKey, d.savedValue)
  else none

/-- A key that `ParseInternalKey` refuses. -/
def corrupted (d : DBIter σ) : DBIter σ :=
  { d with status := .corruption "corrupted internal key in DBIter" }

/-- The next entry of the internal iterator. -/
def skip (d : DBIter σ) : DBIter σ := { d with iter := it.next d.iter }

/-- The previous entry of the internal iterator. -/
def skipBack (d : DBIter σ) : DBIter σ := { d with iter := it.prev d.iter }

/-- `FindNextUserEntry`, whose `skip` is always `saved_key_`. Each round is an entry of `iter_`. -/
def findNextUserEntry : ℕ → Bool → DBIter σ → Option (DBIter σ)
  | 0, _, _ => none
  | fuel + 1, skipping, d =>
    match it.entry d.iter with
    | none => some { d with savedKey := [], valid := false }
    | some (key, _) =>
      match parseInternalKey key with
      | none => findNextUserEntry fuel skipping (d.corrupted.skip it)
      | some ikey =>
        if ikey.sequence ≤ sequence then
          if ikey.type = ValueType.deletion.code then
            findNextUserEntry fuel true ({ d with savedKey := ikey.userKey }.skip it)
          else if skipping && (cmp ikey.userKey d.savedKey).isLE then
            findNextUserEntry fuel skipping (d.skip it)
          else some { d with savedKey := [], valid := true }
        else findNextUserEntry fuel skipping (d.skip it)

/-- The loop of `FindPrevUserEntry`. `type` is the type of the last entry that was not hidden. -/
def findPrevLoop : ℕ → ℕ → DBIter σ → Option (ℕ × DBIter σ)
  | 0, _, _ => none
  | fuel + 1, type, d =>
    match it.entry d.iter with
    | none => some (type, d)
    | some (key, value) =>
      match parseInternalKey key with
      | none => findPrevLoop fuel type (d.corrupted.skipBack it)
      | some ikey =>
        if ikey.sequence ≤ sequence then
          if type ≠ ValueType.deletion.code ∧ cmp ikey.userKey d.savedKey = .lt then some (type, d)
          else if ikey.type = ValueType.deletion.code then
            findPrevLoop fuel ikey.type ({ d with savedKey := [], savedValue := [] }.skipBack it)
          else
            findPrevLoop fuel ikey.type
              ({ d with savedKey := extractUserKey key, savedValue := value }.skipBack it)
        else findPrevLoop fuel type (d.skipBack it)

/-- `FindPrevUserEntry`. -/
def findPrevUserEntry (fuel : ℕ) (d : DBIter σ) : Option (DBIter σ) := do
  let (type, d) ← findPrevLoop it cmp sequence fuel ValueType.deletion.code d
  if type = ValueType.deletion.code then
    some { d with valid := false, savedKey := [], savedValue := [], direction := .forward }
  else some { d with valid := true }

/-- `Next` after moving back: into the entries of the key that is shown. -/
def advance (c : σ) : σ :=
  match it.entry c with
  | none => it.seekToFirst c
  | some _ => it.next c

/-- `Next`. After a move back the internal iterator is in front of the entries of the current
key. -/
def next (fuel : ℕ) (d : DBIter σ) : Option (DBIter σ) :=
  match d.direction with
  | .reverse =>
    let d := { d with iter := advance it d.iter, direction := .forward }
    match it.entry d.iter with
    | none => some { d with valid := false, savedKey := [] }
    | some _ => findNextUserEntry it cmp sequence fuel true d
  | .forward =>
    match it.entry d.iter with
    | none => none
    | some (key, _) =>
      findNextUserEntry it cmp sequence fuel true { d with savedKey := extractUserKey key }

/-- The loop of `Prev` from an entry to the entries of the keys before. -/
def leaveKey : ℕ → DBIter σ → Option (DBIter σ)
  | 0, _ => none
  | fuel + 1, d =>
    match it.entry (it.prev d.iter) with
    | none => some (d.skipBack it)
    | some (key, _) =>
      if cmp (extractUserKey key) d.savedKey = .lt then some (d.skipBack it)
      else leaveKey fuel (d.skipBack it)

/-- `Prev`. After a move forward the internal iterator is at the entry that is shown. -/
def prev (fuel : ℕ) (d : DBIter σ) : Option (DBIter σ) :=
  match d.direction with
  | .forward =>
    match it.entry d.iter with
    | none => none
    | some (key, _) => do
      let d ← leaveKey it cmp fuel { d with savedKey := extractUserKey key }
      match it.entry d.iter with
      | none => some { d with valid := false, savedKey := [], savedValue := [] }
      | some _ => findPrevUserEntry it cmp sequence fuel { d with direction := .reverse }
  | .reverse => findPrevUserEntry it cmp sequence fuel d

/-- The end of `Seek` and `SeekToFirst`. -/
def findFirst (fuel : ℕ) (d : DBIter σ) : Option (DBIter σ) :=
  match it.entry d.iter with
  | none => some { d with valid := false }
  | some _ => findNextUserEntry it cmp sequence fuel false d

/-- `Seek`. -/
def seek (fuel : ℕ) (target : Bytes) (d : DBIter σ) : Option (DBIter σ) :=
  let savedKey := appendInternalKey target sequence kValueTypeForSeek
  findFirst it cmp sequence fuel
    { d with direction := .forward, savedValue := [], savedKey := savedKey,
             iter := it.seek savedKey d.iter }

/-- `SeekToFirst`. -/
def seekToFirst (fuel : ℕ) (d : DBIter σ) : Option (DBIter σ) :=
  findFirst it cmp sequence fuel
    { d with direction := .forward, savedValue := [], iter := it.seekToFirst d.iter }

/-- `SeekToLast`. -/
def seekToLast (fuel : ℕ) (d : DBIter σ) : Option (DBIter σ) :=
  findPrevUserEntry it cmp sequence fuel
    { d with direction := .reverse, savedValue := [], iter := it.seekToLast d.iter }

/-- A move, as what the iterator does for it. -/
def move (fuel : ℕ) : Move Bytes → DBIter σ → Option (DBIter σ)
  | .seekToFirst => seekToFirst it cmp sequence fuel
  | .seekToLast => seekToLast it cmp sequence fuel
  | .seek target => seek it cmp sequence fuel target
  | .next => next it cmp sequence fuel
  | .prev => prev it cmp sequence fuel

end

/-! ## Places of the internal iterator -/

/-- The iterator is at the first of the versions behind. -/
structure At (it : Iterator Bytes Bytes σ) (states : σ → Prop) (ws pre post : List Write) (c : σ) :
    Prop where
  whole : ws = pre ++ post
  states : states c
  entry : it.entry c = post.head?.map internalEntry

/-- The iterator is at the last of the versions in front. -/
structure Behind (it : Iterator Bytes Bytes σ) (states : σ → Prop) (ws pre post : List Write)
    (c : σ) : Prop where
  whole : ws = pre ++ post
  states : states c
  entry : it.entry c = pre.getLast?.map internalEntry

section
variable {it : Iterator Bytes Bytes σ} {cmp : Comparator} {states : σ → Prop}
  {ws pre post : List Write} {v x : Write} {c : σ} {s : ℕ}

/-- The key of an entry is parsed. -/
theorem parse_internalEntry (h : Fits v) : parseInternalKey (internalEntry v).1 =
    some ⟨v.key, v.seq, (typeOf v).code⟩ := by
  rw [internalEntry]
  exact parseInternalKey_append v.key v.seq (typeOf v) h.seq

/-- The type says whether a write is a deletion. -/
theorem typeOf_code_eq : (typeOf v).code = ValueType.deletion.code ↔ v.value = none := by
  rw [typeOf]
  cases v.value <;> simp [ValueType.code]

/-- At an entry, it is the last one of those in front. -/
theorem At.behind (h : At it states ws pre (x :: post) c) :
    Behind it states ws (pre ++ [x]) post c := by
  refine ⟨?_, h.states, ?_⟩
  · rw [h.whole, List.append_assoc, List.singleton_append]
  · rw [h.entry, List.getLast?_concat, List.head?_cons]

/-- Behind an entry, it is the first one of the rest. -/
theorem Behind.at (h : Behind it states ws (pre ++ [x]) post c) :
    At it states ws pre (x :: post) c := by
  refine ⟨?_, h.states, ?_⟩
  · rw [h.whole, List.append_assoc, List.singleton_append]
  · rw [h.entry, List.getLast?_concat, List.head?_cons]

section
variable [Std.TransCmp cmp]
  (hover : Over (internalCompare cmp) (fun k => k.length < 2 ^ 32) it (ws.map internalEntry) states)

include hover

/-- The internal iterator goes on by one entry. -/
theorem At.next (h : At it states ws pre (x :: post) c) :
    At it states ws (pre ++ [x]) post (it.next c) := by
  have hentry : it.entry c = some (internalEntry x) := h.entry
  have hnext := hover.move .next c h.states (by rw [hentry]; rfl)
  have hsorted := hover.sorted
  refine ⟨h.behind.whole, hnext.1, hnext.2.trans ?_⟩
  rw [h.whole, List.map_append, List.map_cons] at hsorted ⊢
  rw [hentry, ← List.head?_map]
  exact find?_after_append hsorted

/-- The internal iterator goes back by one entry. -/
theorem Behind.prev (h : Behind it states ws (pre ++ [x]) post c) :
    Behind it states ws pre (x :: post) (it.prev c) := by
  have hentry : it.entry c = some (internalEntry x) := h.at.entry
  have hprev := hover.move .prev c h.states (by rw [hentry]; rfl)
  have hsorted := hover.sorted
  refine ⟨h.at.whole, hprev.1, hprev.2.trans ?_⟩
  rw [h.at.whole, List.map_append, List.map_cons] at hsorted ⊢
  rw [hentry, ← List.getLast?_map]
  exact find?_before_append hsorted

end

/-! ## What is shown of a version -/

/-- What comes before a version has no larger key. -/
theorem before_isLE (h : Before cmp x.key x.seq v) : (cmp v.key x.key).isLE := by
  rcases h with hlt | ⟨heq, -⟩
  · exact Ordering.isLE_of_eq_lt hlt
  · exact Ordering.isLE_of_eq_eq heq

/-- A version that the snapshot does not see is not shown. -/
theorem present_of_hidden (h : ¬ v.seq ≤ s) : present cmp s ws v = none :=
  if_neg fun hlatest => h hlatest.1

/-- A deletion is not shown. -/
theorem present_of_deletion (h : v.value = none) : present cmp s ws v = none := by
  rw [present, h]
  exact ite_self _

section
variable [Std.TransCmp cmp] (hsorted : Sorted cmp (pre ++ v :: post))

include hsorted

/-- A newer version of the key is seen. -/
theorem present_of_passed {u : Write} (hu : u ∈ pre) (hseq : u.seq ≤ s)
    (heq : cmp u.key v.key = .eq) : present cmp s (pre ++ v :: post) v = none :=
  if_neg fun hlatest => (latest_iff_of_sorted hsorted).1 hlatest |>.2 u hu hseq heq

/-- The first version of a key that the snapshot sees is shown. -/
theorem present_of_first {value : Bytes} (hseq : v.seq ≤ s) (hvalue : v.value = some value)
    (hfirst : ∀ u ∈ pre, u.seq ≤ s → cmp u.key v.key ≠ .eq) :
    present cmp s (pre ++ v :: post) v = some (v.key, value) := by
  rw [present, if_pos ((latest_iff_of_sorted hsorted).2 ⟨hseq, hfirst⟩), hvalue, Option.map_some]

/-- The versions behind one that is seen, of whose key one was passed. -/
theorem passed_iff (hseq : v.seq ≤ s) (hx : x ∈ post) :
    (∃ u ∈ pre ++ [v], u.seq ≤ s ∧ cmp u.key x.key = .eq) ↔ (cmp x.key v.key).isLE := by
  obtain ⟨-, hpost, hpre⟩ := List.pairwise_append.1 hsorted
  have hvx := before_isLE ((List.pairwise_cons.1 hpost).1 x hx)
  constructor
  · rintro ⟨u, hu, -, heq⟩
    have hxu := Ordering.isLE_of_eq_eq (Std.OrientedCmp.eq_symm heq)
    rcases List.mem_append.1 hu with hu | hu
    · exact Std.TransCmp.isLE_trans hxu (before_isLE (hpre u hu v List.mem_cons_self))
    · rwa [List.mem_singleton.1 hu] at hxu
  · intro hxv
    exact ⟨v, List.mem_append_right _ (List.mem_singleton_self v), hseq,
      Std.OrientedCmp.isLE_antisymm hvx hxv⟩

end

/-! ## Moving forward -/

/-- What the iterator shows, and where its internal iterator is. -/
inductive Shows (it : Iterator Bytes Bytes σ) (cmp : Comparator) (states : σ → Prop)
    (ws : List Write) (s : ℕ) (d : DBIter σ) : Option (Bytes × Bytes) → Prop
  | none (hstates : states d.iter) (hvalid : d.valid = false) (hstatus : d.status = .ok) :
      Shows it cmp states ws s d none
  | forward {pre post : List Write} {v : Write} {a : Bytes × Bytes}
      (hat : At it states ws pre (v :: post) d.iter) (hpresent : present cmp s ws v = some a)
      (hvalid : d.valid = true) (hdirection : d.direction = .forward) (hstatus : d.status = .ok) :
      Shows it cmp states ws s d (some a)
  | reverse {pre hidden post : List Write} {v : Write} {a : Bytes × Bytes}
      (hbehind : Behind it states ws pre (hidden ++ v :: post) d.iter)
      (hhidden : ∀ w ∈ hidden, ¬ w.seq ≤ s) (hpresent : present cmp s ws v = some a)
      (hvalid : d.valid = true) (hdirection : d.direction = .reverse)
      (hkey : d.savedKey = a.1) (hvalue : d.savedValue = a.2) (hstatus : d.status = .ok) :
      Shows it cmp states ws s d (some a)

variable {d : DBIter σ} {shown : Option (Bytes × Bytes)}

/-- The internal iterator is at a place of its own. -/
theorem Shows.placed (h : Shows it cmp states ws s d shown) : states d.iter := by
  cases h with
  | none hstates => exact hstates
  | forward hat => exact hat.states
  | reverse hbehind => exact hbehind.states

/-- Nothing was reported as corrupt. -/
theorem Shows.status (h : Shows it cmp states ws s d shown) : d.status = .ok := by
  cases h with
  | none _ _ hstatus => exact hstatus
  | forward _ _ _ _ hstatus => exact hstatus
  | reverse _ _ _ _ _ _ _ hstatus => exact hstatus

/-- `key` and `value` give what is shown. -/
theorem Shows.entry (h : Shows it cmp states ws s d shown) : d.entry it = shown := by
  rw [DBIter.entry]
  cases h with
  | none hstates hvalid => rw [hvalid, if_neg Bool.false_ne_true]
  | @forward pre post v a hat hpresent hvalid hdirection =>
    obtain ⟨-, hkey, hvalue⟩ := present_eq_some.1 hpresent
    rw [hvalid, hdirection, if_pos rfl, hat.entry]
    dsimp only [List.head?_cons, Option.map_some]
    rw [internalEntry, extractUserKey_append, hvalue, hkey]
    rfl
  | reverse hbehind hhidden hpresent hvalid hdirection hkey hvalue =>
    rw [hvalid, hdirection, if_pos rfl]
    dsimp only
    rw [hkey, hvalue]

/-- Behind the last entry nothing is shown. -/
theorem findNext_nil (h : At it states ws pre [] d.iter) (fuel : ℕ) (skipping : Bool) :
    findNextUserEntry it cmp s (fuel + 1) skipping d =
      some { d with savedKey := [], valid := false } := by
  rw [findNextUserEntry, h.entry]
  rfl

/-- One round of the loop of `FindNextUserEntry`. -/
theorem findNext_cons (h : At it states ws pre (v :: post) d.iter) (hv : Fits v) (fuel : ℕ)
    (skipping : Bool) : findNextUserEntry it cmp s (fuel + 1) skipping d =
      if v.seq ≤ s then
        if v.value = none then
          findNextUserEntry it cmp s fuel true ({ d with savedKey := v.key }.skip it)
        else if skipping && (cmp v.key d.savedKey).isLE then
          findNextUserEntry it cmp s fuel skipping (d.skip it)
        else some { d with savedKey := [], valid := true }
      else findNextUserEntry it cmp s fuel skipping (d.skip it) := by
  have hparse := parse_internalEntry hv
  rw [findNextUserEntry, h.entry, List.head?_cons, Option.map_some]
  cases hpair : internalEntry v with
  | mk key value =>
    rw [hpair] at hparse
    dsimp only at hparse ⊢
    rw [hparse]
    simp only [typeOf_code_eq]

section
variable [Std.TransCmp cmp] (hfits : ∀ v ∈ ws, Fits v)
  (hover : Over (internalCompare cmp) (fun k => k.length < 2 ^ 32) it (ws.map internalEntry) states)
  (hsorted : Versions.Sorted cmp ws)

include hfits hover hsorted

/-- `FindNextUserEntry` stops at the first version behind that is shown. What is skipped are the
keys of which a version was passed. -/
theorem findNext_spec {skipping : Bool} {fuel : ℕ} (hfuel : post.length < fuel)
    (h : At it states ws pre post d.iter) (hdirection : d.direction = .forward)
    (hstatus : d.status = .ok)
    (hskip : ∀ w ∈ post, w.seq ≤ s → ((∃ u ∈ pre, u.seq ≤ s ∧ cmp u.key w.key = .eq) ↔
      skipping = true ∧ (cmp w.key d.savedKey).isLE)) :
    ∃ d', findNextUserEntry it cmp s fuel skipping d = some d' ∧
      Shows it cmp states ws s d' (post.filterMap (present cmp s ws)).head? := by
  induction post generalizing pre d skipping fuel with
  | nil =>
    obtain ⟨fuel, rfl⟩ := Nat.exists_eq_add_one.2 hfuel
    exact ⟨_, findNext_nil h fuel skipping, .none h.states rfl hstatus⟩
  | cons v post ih =>
    obtain ⟨fuel, rfl⟩ := Nat.exists_eq_add_one.2 (Nat.zero_lt_of_lt hfuel)
    have hfuel' : post.length < fuel := Nat.lt_of_succ_lt_succ hfuel
    have hv : v ∈ ws := by simp [h.whole]
    have hwhole : Versions.Sorted cmp (pre ++ v :: post) := h.whole ▸ hsorted
    -- A version that is not shown is passed over.
    have hpass {skipping' : Bool} {d₁ : DBIter σ} (hiter : d₁.iter = d.iter)
        (hdirection₁ : d₁.direction = .forward) (hstatus₁ : d₁.status = .ok)
        (hnone : present cmp s ws v = none)
        (hskip' : ∀ w ∈ post, w.seq ≤ s → ((∃ u ∈ pre ++ [v], u.seq ≤ s ∧ cmp u.key w.key = .eq) ↔
          skipping' = true ∧ (cmp w.key d₁.savedKey).isLE)) :
        ∃ d', findNextUserEntry it cmp s fuel skipping' (d₁.skip it) = some d' ∧
          Shows it cmp states ws s d' ((v :: post).filterMap (present cmp s ws)).head? := by
      rw [List.filterMap_cons_none hnone]
      refine ih hfuel' ?_ hdirection₁ hstatus₁ hskip'
      rw [skip, hiter]
      exact h.next hover
    rw [findNext_cons h (hfits v hv)]
    split_ifs with hseq hvalue hhidden
    · refine hpass rfl hdirection hstatus (present_of_deletion hvalue) fun w hw _ => ?_
      rw [passed_iff hwhole hseq hw]
      exact (and_iff_right rfl).symm
    · rw [Bool.and_eq_true] at hhidden
      obtain ⟨u, hu, huseq, heq⟩ := (hskip v List.mem_cons_self hseq).2 hhidden
      refine hpass rfl hdirection hstatus ?_ fun w hw hwseq => ?_
      · rw [h.whole]
        exact present_of_passed hwhole hu huseq heq
      · rw [← hskip w (List.mem_cons_of_mem v hw) hwseq]
        constructor
        · rintro ⟨u', hu', huseq', heq'⟩
          rcases List.mem_append.1 hu' with hu' | hu'
          · exact ⟨u', hu', huseq', heq'⟩
          · rw [List.mem_singleton.1 hu'] at heq'
            exact ⟨u, hu, huseq, Std.TransCmp.eq_trans heq heq'⟩
        · rintro ⟨u', hu', h'⟩
          exact ⟨u', List.mem_append_left _ hu', h'⟩
    · obtain ⟨value, hvalue⟩ := Option.ne_none_iff_exists'.1 hvalue
      have hpresent : present cmp s ws v = some (v.key, value) := by
        rw [h.whole]
        refine present_of_first hwhole hseq hvalue fun u hu huseq heq => ?_
        refine hhidden ?_
        rw [Bool.and_eq_true]
        exact (hskip v List.mem_cons_self hseq).1 ⟨u, hu, huseq, heq⟩
      rw [List.filterMap_cons_some hpresent]
      exact ⟨_, rfl, .forward h hpresent rfl hdirection hstatus⟩
    · refine hpass rfl hdirection hstatus (present_of_hidden hseq) fun w hw hwseq => ?_
      rw [← hskip w (List.mem_cons_of_mem v hw) hwseq]
      constructor
      · rintro ⟨u, hu, huseq, heq⟩
        rcases List.mem_append.1 hu with hu | hu
        · exact ⟨u, hu, huseq, heq⟩
        · rw [List.mem_singleton.1 hu] at huseq
          exact absurd huseq hseq
      · rintro ⟨u, hu, h'⟩
        exact ⟨u, List.mem_append_left _ hu, h'⟩

/-- `FindNextUserEntry` from in front of the version that is shown. -/
theorem findNext_past {hidden : List Write} {a : Bytes × Bytes} {fuel : ℕ}
    (hhidden : ∀ w ∈ hidden, ¬ w.seq ≤ s) (hfuel : (hidden ++ v :: post).length < fuel)
    (h : At it states ws pre (hidden ++ v :: post) d.iter) (hdirection : d.direction = .forward)
    (hstatus : d.status = .ok) (hpresent : present cmp s ws v = some a)
    (hkey : d.savedKey = a.1) :
    ∃ d', findNextUserEntry it cmp s fuel true d = some d' ∧
      Shows it cmp states ws s d' (post.filterMap (present cmp s ws)).head? := by
  induction hidden generalizing pre d fuel with
  | nil =>
    obtain ⟨fuel, rfl⟩ := Nat.exists_eq_add_one.2 (Nat.zero_lt_of_lt hfuel)
    obtain ⟨hlatest, hkey', hvalue⟩ := present_eq_some.1 hpresent
    have hv : v ∈ ws := by simp [h.whole]
    have hle : (cmp v.key d.savedKey).isLE := by
      rw [hkey, hkey']
      exact Std.ReflCmp.isLE_rfl
    rw [List.nil_append] at h
    rw [findNext_cons h (hfits v hv), if_pos hlatest.1, if_neg (by simp [hvalue]), Bool.true_and,
      if_pos hle]
    refine findNext_spec hfits hover hsorted (Nat.lt_of_succ_lt_succ hfuel) (h.next hover)
      hdirection hstatus fun w hw _ => ?_
    rw [passed_iff (h.whole ▸ hsorted) hlatest.1 hw, skip, hkey, hkey']
    exact (and_iff_right rfl).symm
  | cons w hidden ih =>
    obtain ⟨fuel, rfl⟩ := Nat.exists_eq_add_one.2 (Nat.zero_lt_of_lt hfuel)
    have hw : w ∈ ws := by simp [h.whole]
    rw [List.cons_append] at h
    rw [findNext_cons h (hfits w hw), if_neg (hhidden w List.mem_cons_self)]
    exact ih (fun x hx => hhidden x (List.mem_cons_of_mem w hx)) (Nat.lt_of_succ_lt_succ hfuel)
      (h.next hover) hdirection hstatus hkey

end

/-! ## Moving back -/

/-- In front of the first entry the loop ends. -/
theorem findPrevLoop_nil (h : Behind it states ws [] post d.iter) (fuel type : ℕ) :
    findPrevLoop it cmp s (fuel + 1) type d = some (type, d) := by
  rw [findPrevLoop, h.entry]
  rfl

/-- One round of the loop of `FindPrevUserEntry`. -/
theorem findPrevLoop_concat (h : Behind it states ws (pre ++ [v]) post d.iter) (hv : Fits v)
    (fuel type : ℕ) : findPrevLoop it cmp s (fuel + 1) type d =
      if v.seq ≤ s then
        if type ≠ ValueType.deletion.code ∧ cmp v.key d.savedKey = .lt then some (type, d)
        else if v.value = none then
          findPrevLoop it cmp s fuel ValueType.deletion.code
            ({ d with savedKey := [], savedValue := [] }.skipBack it)
        else
          findPrevLoop it cmp s fuel ValueType.value.code
            ({ d with savedKey := v.key, savedValue := v.value.getD [] }.skipBack it)
      else findPrevLoop it cmp s fuel type (d.skipBack it) := by
  have hparse := parse_internalEntry hv
  have hkey : extractUserKey (internalEntry v).1 = v.key := extractUserKey_append _ _ _
  have hvalue : (internalEntry v).2 = v.value.getD [] := rfl
  have htype : (typeOf v).code =
      if v.value = none then ValueType.deletion.code else ValueType.value.code := by
    rw [typeOf]
    cases v.value <;> rfl
  rw [findPrevLoop, h.at.entry, List.head?_cons, Option.map_some]
  cases hpair : internalEntry v with
  | mk key value =>
    rw [hpair] at hparse hkey hvalue
    dsimp only at hparse hkey hvalue ⊢
    rw [hparse]
    simp only [typeOf_code_eq, hkey, hvalue]
    by_cases hnone : v.value = none
    · simp only [htype, if_pos hnone]
    · simp only [htype, if_neg hnone]

/-- What the loop has found in the versions that it went over: nothing that is shown, or the first
version of them that is not hidden. -/
inductive Scanned (cmp : Comparator) (ws : List Write) (s type : ℕ) (d : DBIter σ)
    (mid : List Write) : Prop
  | deletion (htype : type = ValueType.deletion.code)
      (hnone : ∀ w ∈ mid, present cmp s ws w = none)
  | value {hidden rest : List Write} {y : Write} {value : Bytes}
      (htype : type = ValueType.value.code) (hmid : mid = hidden ++ y :: rest)
      (hhidden : ∀ w ∈ hidden, ¬ w.seq ≤ s) (hnone : ∀ w ∈ rest, present cmp s ws w = none)
      (hseq : y.seq ≤ s) (hvalue : y.value = some value) (hkey : d.savedKey = y.key)
      (hsaved : d.savedValue = value)

/-- Entries none of which is shown show nothing. -/
theorem filterMap_eq_nil_of_none {mid : List Write} (h : ∀ w ∈ mid, present cmp s ws w = none) :
    mid.filterMap (present cmp s ws) = [] := List.filterMap_eq_nil_iff.2 h

/-- Once a version in front of them is seen that is not of a smaller key, none of the versions that
the loop went over is shown. -/
theorem Scanned.not_present [Std.TransCmp cmp] {type : ℕ} {mid : List Write}
    (h : Scanned cmp ws s type d mid) (hsorted : Versions.Sorted cmp ws)
    (hwhole : ws = pre ++ v :: (mid ++ post)) (hseq : v.seq ≤ s)
    (hstay : ¬ (type ≠ ValueType.deletion.code ∧ cmp v.key d.savedKey = .lt)) :
    ∀ w ∈ mid, present cmp s ws w = none := by
  cases h with
  | deletion htype hnone => exact hnone
  | @value hidden rest y value htype hmid hhidden hnone hyseq hvalue hkey hsaved =>
    subst hmid
    have hsplit : ws = (pre ++ v :: hidden) ++ y :: (rest ++ post) := by simp [hwhole]
    have hv : v ∈ pre ++ v :: hidden := List.mem_append_right _ List.mem_cons_self
    have hle : (cmp v.key y.key).isLE := by
      rw [hsplit] at hsorted
      exact before_isLE ((List.pairwise_append.1 hsorted).2.2 v hv y List.mem_cons_self)
    have heq : cmp v.key y.key = .eq := by
      refine (Ordering.isLE_iff_eq_lt_or_eq_eq.1 hle).resolve_left fun hlt => hstay ⟨?_, hkey ▸ hlt⟩
      rw [htype]
      decide
    intro w hw
    rcases List.mem_append.1 hw with hw | hw
    · exact present_of_hidden (hhidden w hw)
    rcases List.mem_cons.1 hw with rfl | hw
    · rw [hsplit]
      exact present_of_passed (hsplit ▸ hsorted) hv hseq heq
    · exact hnone w hw

/-- The version that was found is shown, if the one in front of it is of a smaller key. -/
theorem Scanned.shows [Std.TransCmp cmp] {hidden rest : List Write} {y : Write} {value : Bytes}
    (hsorted : Versions.Sorted cmp ws)
    (h : Behind it states ws pre ((hidden ++ y :: rest) ++ post) d.iter)
    (hdirection : d.direction = .reverse) (hstatus : d.status = .ok)
    (hhidden : ∀ w ∈ hidden, ¬ w.seq ≤ s)
    (hnone : ∀ w ∈ rest, present cmp s ws w = none) (hseq : y.seq ≤ s)
    (hvalue : y.value = some value) (hkey : d.savedKey = y.key) (hsaved : d.savedValue = value)
    (hfirst : ∀ u ∈ pre, u.seq ≤ s → cmp u.key y.key ≠ .eq) :
    Shows it cmp states ws s { d with valid := true }
      ((pre ++ (hidden ++ y :: rest)).filterMap (present cmp s ws)).getLast? := by
  have hsplit : ws = (pre ++ hidden) ++ y :: (rest ++ post) := by simp [h.whole]
  have hpresent : present cmp s ws y = some (y.key, value) := by
    rw [hsplit]
    refine present_of_first (hsplit ▸ hsorted) hseq hvalue fun u hu huseq => ?_
    rcases List.mem_append.1 hu with hu | hu
    · exact hfirst u hu huseq
    · exact absurd huseq (hhidden u hu)
  have hlast : ((pre ++ (hidden ++ y :: rest)).filterMap (present cmp s ws)).getLast? =
      some (y.key, value) := by
    rw [List.filterMap_append, List.filterMap_append, List.filterMap_cons_some hpresent,
      filterMap_eq_nil_of_none hnone, ← List.append_assoc, List.getLast?_concat]
  rw [hlast]
  have hbehind : Behind it states ws pre (hidden ++ y :: (rest ++ post)) d.iter := by
    rwa [List.append_assoc, List.cons_append] at h
  exact .reverse hbehind hhidden hpresent rfl hdirection hkey hsaved hstatus

section
variable [Std.TransCmp cmp] (hfits : ∀ v ∈ ws, Fits v)
  (hover : Over (internalCompare cmp) (fun k => k.length < 2 ^ 32) it (ws.map internalEntry) states)
  (hsorted : Versions.Sorted cmp ws)

include hfits hover hsorted

/-- The loop of `FindPrevUserEntry` ends at the last version in front that is shown. -/
theorem findPrevLoop_spec {mid : List Write} {fuel type : ℕ} (hfuel : pre.length < fuel)
    (hscanned : Scanned cmp ws s type d mid) (h : Behind it states ws pre (mid ++ post) d.iter)
    (hdirection : d.direction = .reverse) (hstatus : d.status = .ok) :
    ∃ type' d₁, findPrevLoop it cmp s fuel type d = some (type', d₁) ∧
      (type' = ValueType.deletion.code ∧ states d₁.iter ∧ d₁.status = .ok ∧
          ((pre ++ mid).filterMap (present cmp s ws)).getLast? = none ∨
        type' ≠ ValueType.deletion.code ∧ Shows it cmp states ws s { d₁ with valid := true }
          ((pre ++ mid).filterMap (present cmp s ws)).getLast?) := by
  have hvalueType : ValueType.value.code ≠ ValueType.deletion.code := by decide
  induction pre using List.reverseRecOn generalizing d mid type fuel with
  | nil =>
    obtain ⟨fuel, rfl⟩ := Nat.exists_eq_add_one.2 hfuel
    refine ⟨type, d, findPrevLoop_nil h fuel type, ?_⟩
    cases hscanned with
    | deletion htype hnone =>
      refine Or.inl ⟨htype, h.states, hstatus, ?_⟩
      rw [List.nil_append, filterMap_eq_nil_of_none hnone]
      rfl
    | value htype hmid hhidden hnone hseq hvalue hkey hsaved =>
      subst hmid
      refine Or.inr ⟨htype ▸ hvalueType, ?_⟩
      exact Scanned.shows hsorted h hdirection hstatus hhidden hnone hseq hvalue hkey hsaved
        fun u hu => absurd hu List.not_mem_nil
  | append_singleton pre v ih =>
    obtain ⟨fuel, rfl⟩ := Nat.exists_eq_add_one.2 (Nat.zero_lt_of_lt hfuel)
    have hfuel' : pre.length < fuel := by
      rw [List.length_append, List.length_singleton] at hfuel
      exact Nat.lt_of_succ_lt_succ hfuel
    have hwhole : ws = pre ++ v :: (mid ++ post) := h.at.whole
    have hv : v ∈ ws := by simp [hwhole]
    -- The version is taken into what the loop went over.
    have hstep {type' : ℕ} {d' : DBIter σ} (hiter : d'.iter = d.iter)
        (hdirection' : d'.direction = .reverse) (hstatus' : d'.status = .ok)
        (hscanned' : Scanned cmp ws s type' (d'.skipBack it) (v :: mid)) :
        ∃ type'' d₁, findPrevLoop it cmp s fuel type' (d'.skipBack it) = some (type'', d₁) ∧
          (type'' = ValueType.deletion.code ∧ states d₁.iter ∧ d₁.status = .ok ∧
              ((pre ++ [v] ++ mid).filterMap (present cmp s ws)).getLast? = none ∨
            type'' ≠ ValueType.deletion.code ∧ Shows it cmp states ws s { d₁ with valid := true }
              ((pre ++ [v] ++ mid).filterMap (present cmp s ws)).getLast?) := by
      rw [List.append_assoc, List.singleton_append]
      refine ih hfuel' hscanned' ?_ hdirection' hstatus'
      rw [skipBack, hiter]
      exact h.prev hover
    rw [findPrevLoop_concat h (hfits v hv)]
    split_ifs with hseq hbreak hvalue
    · cases hscanned with
      | deletion htype hnone => exact absurd htype hbreak.1
      | @value hidden rest y value htype hmid hhidden hnone hyseq hvalue hkey hsaved =>
        subst hmid
        refine ⟨type, d, rfl, Or.inr ⟨hbreak.1, ?_⟩⟩
        refine Scanned.shows hsorted h hdirection hstatus hhidden hnone hyseq hvalue hkey
          hsaved fun u hu _ heq => ?_
        have hlt : cmp v.key y.key = .lt := hkey ▸ hbreak.2
        have hle : (cmp u.key v.key).isLE := by
          rcases List.mem_append.1 hu with hu | hu
          · rw [hwhole] at hsorted
            exact before_isLE ((List.pairwise_append.1 hsorted).2.2 u hu v List.mem_cons_self)
          · rw [List.mem_singleton.1 hu]
            exact Std.ReflCmp.isLE_rfl
        have huy := Std.TransCmp.lt_of_isLE_of_lt hle hlt
        rw [heq] at huy
        cases huy
    · refine hstep rfl hdirection hstatus (.deletion rfl (List.forall_mem_cons.2 ⟨?_, ?_⟩))
      · exact present_of_deletion hvalue
      · exact hscanned.not_present hsorted hwhole hseq hbreak
    · obtain ⟨value, hvalue⟩ := Option.ne_none_iff_exists'.1 hvalue
      refine hstep rfl hdirection hstatus (.value rfl (List.nil_append _).symm ?_
        (hscanned.not_present hsorted hwhole hseq hbreak) hseq hvalue rfl ?_)
      · exact fun w hw => absurd hw List.not_mem_nil
      · rw [skipBack, hvalue]
        rfl
    · refine hstep rfl hdirection hstatus ?_
      cases hscanned with
      | deletion htype hnone =>
        exact .deletion htype (List.forall_mem_cons.2 ⟨present_of_hidden hseq, hnone⟩)
      | @value hidden rest y value htype hmid hhidden hnone hyseq hvalue hkey hsaved =>
        subst hmid
        exact .value htype (List.cons_append).symm (List.forall_mem_cons.2 ⟨hseq, hhidden⟩) hnone
          hyseq hvalue hkey hsaved

/-- `FindPrevUserEntry`. -/
theorem findPrev_spec {fuel : ℕ} (hfuel : pre.length < fuel)
    (h : Behind it states ws pre post d.iter) (hdirection : d.direction = .reverse)
    (hstatus : d.status = .ok) :
    ∃ d', findPrevUserEntry it cmp s fuel d = some d' ∧
      Shows it cmp states ws s d' (pre.filterMap (present cmp s ws)).getLast? := by
  have hscanned : Scanned cmp ws s ValueType.deletion.code d [] :=
    .deletion rfl fun w hw => absurd hw List.not_mem_nil
  obtain ⟨type, d₁, hloop, hend⟩ :=
    findPrevLoop_spec hfits hover hsorted hfuel hscanned h hdirection hstatus
  rw [List.append_nil] at hend
  rw [findPrevUserEntry, hloop]
  simp only [Option.bind_eq_bind, Option.bind_some]
  rcases hend with ⟨htype, hstates, hstatus', hnone⟩ | ⟨htype, hshows⟩
  · rw [if_pos htype, hnone]
    exact ⟨_, rfl, .none hstates rfl hstatus'⟩
  · rw [if_neg htype]
    exact ⟨_, rfl, hshows⟩

omit hfits hsorted in
/-- The loop of `Prev` passes over versions of the key that are not shown. -/
theorem leaveKey_spec {fuel : ℕ} (hfuel : pre.length < fuel)
    (h : At it states ws pre (v :: post) d.iter)
    (hsame : ∀ u ∈ pre, cmp u.key d.savedKey ≠ .lt → present cmp s ws u = none)
    (hu : ∀ u ∈ pre, Fits u) :
    ∃ c pre' passed, leaveKey it cmp fuel d = some { d with iter := c } ∧ pre = pre' ++ passed ∧
      (∀ u ∈ passed, present cmp s ws u = none) ∧
      Behind it states ws pre' (passed ++ v :: post) c := by
  induction pre using List.reverseRecOn generalizing d v post fuel with
  | nil =>
    obtain ⟨fuel, rfl⟩ := Nat.exists_eq_add_one.2 hfuel
    have hprev := h.behind.prev hover
    refine ⟨_, [], [], ?_, rfl, fun u hu => absurd hu List.not_mem_nil, hprev⟩
    rw [leaveKey, hprev.entry]
    rfl
  | append_singleton pre u ih =>
    obtain ⟨fuel, rfl⟩ := Nat.exists_eq_add_one.2 (Nat.zero_lt_of_lt hfuel)
    have hfuel' : pre.length < fuel := by
      rw [List.length_append, List.length_singleton] at hfuel
      exact Nat.lt_of_succ_lt_succ hfuel
    have hprev := h.behind.prev hover
    have hentry : it.entry (it.prev d.iter) = some (appendInternalKey u.key u.seq (typeOf u),
        u.value.getD []) := hprev.at.entry
    have hmem : u ∈ pre ++ [u] := List.mem_append_right _ (List.mem_singleton_self u)
    rw [leaveKey, hentry]
    dsimp only
    rw [extractUserKey_append]
    split_ifs with hlt
    · exact ⟨_, pre ++ [u], [], rfl, (List.append_nil _).symm,
        fun u hu => absurd hu List.not_mem_nil, hprev⟩
    · obtain ⟨c, pre', passed, hleave, rfl, hpassed, hbehind⟩ :=
        ih (d := d.skipBack it) hfuel' hprev.at
          (fun x hx => hsame x (List.mem_append_left _ hx))
          fun x hx => hu x (List.mem_append_left _ hx)
      refine ⟨c, pre', passed ++ [u], hleave, List.append_assoc _ _ _, fun x hx => ?_, ?_⟩
      · rcases List.mem_append.1 hx with hx | hx
        · exact hpassed x hx
        · rw [List.mem_singleton.1 hx]
          exact hsame u hmem hlt
      · rwa [List.append_assoc, List.singleton_append]

end

/-! ## One move -/

section
variable [Std.TransCmp cmp] (hfits : ∀ v ∈ ws, Fits v)
  (hover : Over (internalCompare cmp) (fun k => k.length < 2 ^ 32) it (ws.map internalEntry) states)
  (hsorted : Versions.Sorted cmp ws)

include hfits hover hsorted

/-- From a place in front of which no version of a key behind is seen. -/
theorem findFirst_spec {fuel : ℕ} (hfuel : ws.length < fuel) (h : At it states ws pre post d.iter)
    (hdirection : d.direction = .forward) (hstatus : d.status = .ok)
    (hapart : ∀ w ∈ post, ∀ u ∈ pre, u.seq ≤ s → cmp u.key w.key ≠ .eq) :
    ∃ d', findFirst it cmp s fuel d = some d' ∧
      Shows it cmp states ws s d' (post.filterMap (present cmp s ws)).head? := by
  have hlength : post.length ≤ ws.length := by
    rw [h.whole, List.length_append]
    exact Nat.le_add_left _ _
  have hentry := h.entry
  rw [findFirst]
  cases post with
  | nil =>
    rw [hentry]
    exact ⟨_, rfl, .none h.states rfl hstatus⟩
  | cons v post =>
    rw [hentry]
    refine findNext_spec hfits hover hsorted (Nat.lt_of_le_of_lt hlength hfuel) h hdirection hstatus
      ?_
    intro w hw _
    refine iff_of_false ?_ fun hskip => Bool.false_ne_true hskip.1
    rintro ⟨u, hu, hseq, heq⟩
    exact hapart w hw u hu hseq heq

omit hover hsorted in
/-- The versions in front of the place that is sought. -/
theorem seek_before {target : Bytes} (htarget : target.length + 8 < 2 ^ 32)
    (hs : s ≤ kMaxSequenceNumber) (hv : v ∈ ws) :
    (internalCompare cmp (appendInternalKey target s kValueTypeForSeek) (internalEntry v).1).isLE =
      !decide (Before cmp target s v) := by
  have hbefore : keyComparator cmp (entryOf v) (lookupKey target s) = .lt ↔
      Before cmp target s v := before_lookupKey (hfits v hv) htarget hs
  rw [keyComparator, entrySlice_entryOf (hfits v hv), entrySlice_lookupKey htarget] at hbefore
  rw [Bool.eq_iff_iff, Bool.not_eq_true', decide_eq_false_iff_not, ← hbefore]
  exact ⟨fun hle hlt => Std.OrientedCmp.not_isLE_of_lt hlt hle, fun hnot => by
    by_contra hle
    exact hnot (Std.OrientedCmp.lt_of_not_isLE hle)⟩

omit hsorted in
/-- A search goes to the first entry that is not before the key and the snapshot. -/
theorem seek_at {target : Bytes} (htarget : target.length + 8 < 2 ^ 32)
    (hs : s ≤ kMaxSequenceNumber) (hc : states c) :
    At it states ws (ws.takeWhile (Before cmp target s ·)) (ws.dropWhile (Before cmp target s ·))
      (it.seek (appendInternalKey target s kValueTypeForSeek) c) := by
  have hseek := hover.move (.seek (appendInternalKey target s kValueTypeForSeek)) c hc
    (by rw [Move.Allowed, appendInternalKey_length]; exact htarget)
  refine ⟨List.takeWhile_append_dropWhile.symm, hseek.1, hseek.2.trans ?_⟩
  rw [Move.place, List.find?_map, ← List.find?_not_eq_head?_dropWhile]
  exact congrArg _ (find?_congr fun v hv => seek_before hfits htarget hs hv)

omit hfits hsorted in
/-- From in front of some entries to the first of them. -/
theorem advance_at (h : Behind it states ws pre post c) :
    At it states ws pre post (advance it c) := by
  rw [advance, h.entry]
  rcases List.eq_nil_or_concat pre with rfl | ⟨pre, u, rfl⟩
  · have hfirst := hover.move .seekToFirst c h.states trivial
    refine ⟨h.whole, hfirst.1, hfirst.2.trans ?_⟩
    rw [Move.place, h.whole, List.nil_append, List.head?_map]
  · rw [List.concat_eq_append] at h ⊢
    rw [List.getLast?_concat]
    exact h.at.next hover

omit hfits hover in
/-- The map around a version that is shown. -/
theorem view_around {a : Bytes × Bytes} (hwhole : ws = pre ++ v :: post)
    (hpresent : present cmp s ws v = some a) :
    Iterators.Sorted cmp (pre.filterMap (present cmp s ws) ++
        a :: post.filterMap (present cmp s ws)) ∧
      view cmp s ws = pre.filterMap (present cmp s ws) ++
        a :: post.filterMap (present cmp s ws) := by
  have hview : view cmp s ws = pre.filterMap (present cmp s ws) ++
      a :: post.filterMap (present cmp s ws) := by
    have hsplit := congrArg (List.filterMap (present cmp s ws)) hwhole
    rwa [List.filterMap_append, List.filterMap_cons_some hpresent] at hsplit
  exact ⟨hview ▸ view_sorted hsorted, hview⟩

omit hfits hover in
/-- From the place of a search on no entry is before the key and the snapshot. -/
theorem not_before_of_mem_dropWhile (target : Bytes) (s : ℕ) :
    ∀ w ∈ ws.dropWhile (Before cmp target s ·), ¬ Before cmp target s w := by
  have hmono : ws.Pairwise fun v w =>
      decide (Before cmp target s w) = true → decide (Before cmp target s v) = true := by
    refine hsorted.imp fun {v w} hvw hw => decide_eq_true ?_
    rcases of_decide_eq_true hw with hlt | ⟨heq, hlt⟩
    · exact Or.inl (Std.TransCmp.lt_of_isLE_of_lt (before_isLE hvw) hlt)
    · rcases hvw with hvw | ⟨hvw, hseq⟩
      · exact Or.inl (Std.TransCmp.lt_of_lt_of_eq hvw heq)
      · exact Or.inr ⟨Std.TransCmp.eq_trans hvw heq, Nat.lt_trans hlt hseq⟩
  intro w hw hbefore
  exact of_decide_eq_false (SkipList.dropWhile_all hmono w hw) hbefore

/-- `Next` goes to the entry of the map behind the current one. -/
theorem next_spec {fuel : ℕ} (hfuel : ws.length < fuel) {a : Bytes × Bytes}
    (h : Shows it cmp states ws s d (some a)) :
    ∃ d', next it cmp s fuel d = some d' ∧ Shows it cmp states ws s d'
      ((view cmp s ws).find? fun b => cmp a.1 b.1 = .lt) := by
  obtain ⟨iter, status, savedKey, savedValue, direction, valid⟩ := d
  cases h with
  | @forward pre post v _ hat hpresent hvalid hdirection hstatus =>
    obtain ⟨hview, heq⟩ := view_around hsorted hat.whole hpresent
    obtain ⟨-, hkey, -⟩ := present_eq_some.1 hpresent
    obtain rfl : direction = .forward := hdirection
    have hentry : it.entry iter = some (appendInternalKey v.key v.seq (typeOf v),
        v.value.getD []) := hat.entry
    rw [heq, find?_after_append hview, next]
    dsimp only
    rw [hentry]
    dsimp only
    rw [extractUserKey_append]
    have hnone : ∀ w ∈ ([] : List Write), ¬ w.seq ≤ s := fun w hw => absurd hw List.not_mem_nil
    refine findNext_past hfits hover hsorted hnone ?_ hat rfl hstatus hpresent hkey
    refine Nat.lt_of_le_of_lt ?_ hfuel
    rw [List.nil_append, hat.whole, List.length_append]
    exact Nat.le_add_left _ _
  | @reverse pre hidden post v _ hbehind hhidden hpresent hvalid hdirection hkey hvalue hstatus =>
    have hwhole : ws = (pre ++ hidden) ++ v :: post := by simp [hbehind.whole]
    obtain ⟨hview, heq⟩ := view_around hsorted hwhole hpresent
    have hat := advance_at hover hbehind
    obtain rfl : direction = .reverse := hdirection
    obtain ⟨e, he⟩ : ∃ e, it.entry (advance it iter) = some e := by
      rw [hat.entry]
      cases hidden with
      | nil => exact ⟨_, rfl⟩
      | cons w hidden => exact ⟨_, rfl⟩
    rw [heq, find?_after_append hview, next]
    dsimp only
    rw [he]
    refine findNext_past hfits hover hsorted hhidden ?_ hat rfl hstatus hpresent hkey
    refine Nat.lt_of_le_of_lt ?_ hfuel
    rw [hbehind.whole]
    exact (List.sublist_append_right pre _).length_le

/-- `Prev` goes to the entry of the map before the current one. -/
theorem prev_spec {fuel : ℕ} (hfuel : ws.length < fuel) {a : Bytes × Bytes}
    (h : Shows it cmp states ws s d (some a)) :
    ∃ d', prev it cmp s fuel d = some d' ∧ Shows it cmp states ws s d'
      ((view cmp s ws).reverse.find? fun b => cmp b.1 a.1 = .lt) := by
  obtain ⟨iter, status, savedKey, savedValue, direction, valid⟩ := d
  cases h with
  | @forward pre post v _ hat hpresent hvalid hdirection hstatus =>
    obtain ⟨hview, heq⟩ := view_around hsorted hat.whole hpresent
    obtain ⟨hlatest, hkey, -⟩ := present_eq_some.1 hpresent
    obtain rfl : direction = .forward := hdirection
    have hentry : it.entry iter = some (appendInternalKey v.key v.seq (typeOf v),
        v.value.getD []) := hat.entry
    have hwhole := hat.whole
    have hlength : pre.length < fuel := by
      refine Nat.lt_of_le_of_lt ?_ hfuel
      rw [hwhole, List.length_append]
      exact Nat.le_add_right _ _
    -- Versions of the key in front are newer than the snapshot.
    have hsame (u : Write) (hu : u ∈ pre) (hnot : cmp u.key v.key ≠ .lt) :
        present cmp s ws u = none := by
      have hsplit := hsorted
      rw [hwhole] at hlatest hsplit
      have hle := before_isLE ((List.pairwise_append.1 hsplit).2.2 u hu v List.mem_cons_self)
      exact present_of_hidden fun hseq => ((latest_iff_of_sorted hsplit).1 hlatest).2 u hu hseq
        ((Ordering.isLE_iff_eq_lt_or_eq_eq.1 hle).resolve_left hnot)
    obtain ⟨c, pre', passed, hleave, rfl, hpassed, hbehind⟩ :=
      leaveKey_spec (d := ⟨iter, status, v.key, savedValue, .forward, valid⟩) hover hlength hat
        hsame fun u hu => hfits u (by rw [hwhole]; exact List.mem_append_left _ hu)
    have hlast : ((pre' ++ passed).filterMap (present cmp s ws)).getLast? =
        (pre'.filterMap (present cmp s ws)).getLast? := by
      rw [List.filterMap_append, filterMap_eq_nil_of_none hpassed, List.append_nil]
    rw [heq, find?_before_append hview, hlast, prev]
    dsimp only
    rw [hentry]
    dsimp only
    rw [extractUserKey_append, hleave]
    simp only [Option.bind_eq_bind, Option.bind_some]
    cases hc : it.entry c with
    | none =>
      have hnil : pre' = [] := by
        have hentry' := hbehind.entry
        rw [hc] at hentry'
        exact List.getLast?_eq_none_iff.1 (Option.map_eq_none_iff.1 hentry'.symm)
      subst hnil
      exact ⟨_, rfl, .none hbehind.states rfl hstatus⟩
    | some e =>
      refine findPrev_spec hfits hover hsorted ?_ hbehind rfl hstatus
      rw [List.length_append] at hlength
      exact Nat.lt_of_le_of_lt (Nat.le_add_right _ _) hlength
  | @reverse pre hidden post v _ hbehind hhidden hpresent hvalid hdirection hkey hvalue hstatus =>
    have hwhole : ws = (pre ++ hidden) ++ v :: post := by simp [hbehind.whole]
    obtain ⟨hview, heq⟩ := view_around hsorted hwhole hpresent
    have hlast : ((pre ++ hidden).filterMap (present cmp s ws)).getLast? =
        (pre.filterMap (present cmp s ws)).getLast? := by
      rw [List.filterMap_append, filterMap_eq_nil_of_none fun w hw =>
        present_of_hidden (hhidden w hw), List.append_nil]
    obtain rfl : direction = .reverse := hdirection
    rw [heq, find?_before_append hview, hlast, prev]
    refine findPrev_spec hfits hover hsorted ?_ hbehind rfl hstatus
    refine Nat.lt_of_le_of_lt ?_ hfuel
    rw [hbehind.whole, List.length_append]
    exact Nat.le_add_right _ _

/-- **One move.** It ends, and leads where the map at the snapshot says. -/
theorem move_spec {fuel : ℕ} (hfuel : ws.length < fuel) (hs : s ≤ kMaxSequenceNumber)
    (h : Shows it cmp states ws s d shown) (m : Move Bytes)
    (hallowed : m.Allowed (fun k => k.length + 8 < 2 ^ 32) shown) :
    ∃ d', move it cmp s fuel m d = some d' ∧
      Shows it cmp states ws s d' (m.place cmp (view cmp s ws) shown) := by
  cases m with
  | seekToFirst =>
    have hfirst := hover.move .seekToFirst d.iter h.placed trivial
    have hat : At it states ws [] ws (it.seekToFirst d.iter) :=
      ⟨rfl, hfirst.1, hfirst.2.trans List.head?_map⟩
    exact findFirst_spec hfits hover hsorted hfuel hat rfl h.status fun _ _ u hu =>
      absurd hu List.not_mem_nil
  | seekToLast =>
    have hlast := hover.move .seekToLast d.iter h.placed trivial
    have hbehind : Behind it states ws ws [] (it.seekToLast d.iter) :=
      ⟨(List.append_nil ws).symm, hlast.1, hlast.2.trans List.getLast?_map⟩
    exact findPrev_spec hfits hover hsorted hfuel hbehind rfl h.status
  | seek target =>
    have hat := seek_at hfits hover hallowed hs h.placed
    have hfront (u : Write) (hu : u ∈ ws.takeWhile (Before cmp target s ·)) (hseq : u.seq ≤ s) :
        cmp u.key target = .lt := by
      have hbefore := List.mem_takeWhile_imp (p := fun u => decide (Before cmp target s u)) hu
      exact (of_decide_eq_true hbefore).resolve_right fun hlater =>
        absurd hseq (Nat.not_le.2 hlater.2)
    have hback := not_before_of_mem_dropWhile hsorted target s
    have hview : view cmp s ws =
        (ws.takeWhile (Before cmp target s ·)).filterMap (present cmp s ws) ++
          (ws.dropWhile (Before cmp target s ·)).filterMap (present cmp s ws) := by
      rw [← List.filterMap_append, List.takeWhile_append_dropWhile, view]
    have hplace : Move.place cmp (view cmp s ws) (.seek target) shown =
        ((ws.dropWhile (Before cmp target s ·)).filterMap (present cmp s ws)).head? := by
      have hnone : ((ws.takeWhile (Before cmp target s ·)).filterMap (present cmp s ws)).find?
          (fun b => (cmp target b.1).isLE) = none := by
        refine List.find?_eq_none.2 fun b hb => ?_
        obtain ⟨u, hu, hpresent⟩ := List.mem_filterMap.1 hb
        obtain ⟨hlatest, hkey, -⟩ := present_eq_some.1 hpresent
        rw [← hkey]
        exact Std.OrientedCmp.not_isLE_of_lt (hfront u hu hlatest.1)
      rw [Move.place, hview, List.find?_append, hnone, Option.none_or]
      refine find?_eq_head? fun b hb => ?_
      obtain ⟨w, hw, hpresent⟩ := List.mem_filterMap.1 hb
      obtain ⟨-, hkey, -⟩ := present_eq_some.1 hpresent
      rw [← hkey]
      by_contra hle
      exact hback w hw (Or.inl (Std.OrientedCmp.lt_of_not_isLE hle))
    rw [hplace]
    refine findFirst_spec hfits hover hsorted hfuel hat rfl h.status fun w hw u hu hseq heq => ?_
    refine hback w hw (Or.inl ?_)
    exact Std.TransCmp.lt_of_eq_of_lt (Std.OrientedCmp.eq_symm heq) (hfront u hu hseq)
  | next =>
    obtain ⟨a, rfl⟩ := Option.isSome_iff_exists.1 hallowed
    exact next_spec hfits hover hsorted hfuel h
  | prev =>
    obtain ⟨a, rfl⟩ := Option.isSome_iff_exists.1 hallowed
    exact prev_spec hfits hover hsorted hfuel h

/-- A run of moves. -/
theorem run_spec {fuel : ℕ} (hfuel : ws.length < fuel) (hs : s ≤ kMaxSequenceNumber)
    {moves : List (Move Bytes)} (h : Shows it cmp states ws s d shown)
    (hallowed : AllowedRun cmp (fun k => k.length + 8 < 2 ^ 32) (view cmp s ws) moves shown) :
    ∃ d', moves.foldlM (fun d m => move it cmp s fuel m d) d = some d' ∧
      Shows it cmp states ws s d'
        (moves.foldl (fun at_ m => m.place cmp (view cmp s ws) at_) shown) := by
  induction moves generalizing d shown with
  | nil => exact ⟨d, rfl, h⟩
  | cons m moves ih =>
    obtain ⟨d₁, hmove, hshows⟩ := move_spec hfits hover hsorted hfuel hs h m hallowed.1
    obtain ⟨d', hrun, hshows'⟩ := ih hshows hallowed.2
    refine ⟨d', ?_, hshows'⟩
    rw [List.foldlM_cons, hmove]
    exact hrun

end

end

/-- The iterator over writes in the order of their keys. -/
theorem iterate_over {σ : Type*} {cmp : Comparator} [Std.TransCmp cmp] {it : Iterator Bytes Bytes σ}
    {states : σ → Prop} {start : σ} {vs ws : List Write} (hfits : ∀ v ∈ ws, Fits v)
    (hsorted : Versions.Sorted cmp ws) (hperm : ws.Perm vs) (hstart : states start)
    (hover : Over (internalCompare cmp) (fun k => k.length < 2 ^ 32) it (ws.map internalEntry)
      states) {s : ℕ} (hs : s ≤ kMaxSequenceNumber) :
    ∃ map : List (Bytes × Bytes), Iterators.Sorted cmp map ∧
      (∀ a, a ∈ map ↔ ∃ v, newest cmp a.1 s vs = some v ∧ v.key = a.1 ∧ v.value = some a.2) ∧
      ∀ fuel > vs.length, ∀ moves,
        AllowedRun cmp (fun k => k.length + 8 < 2 ^ 32) map moves none →
        ∃ d, moves.foldlM (fun d m => move it cmp s fuel m d) (new start) = some d ∧
          d.status = .ok ∧ d.entry it = moves.foldl (fun at_ m => m.place cmp map at_) none := by
  refine ⟨view cmp s ws, view_sorted hsorted, fun a => ?_, fun fuel hfuel moves hallowed => ?_⟩
  · rw [mem_view hsorted.distinct, newest_perm hsorted.distinct hperm]
  · rw [gt_iff_lt, ← hperm.length_eq] at hfuel
    have hshows : Shows it cmp states ws s (new start) none := .none hstart rfl rfl
    obtain ⟨d, hrun, hshows⟩ := run_spec hfits hover hsorted hfuel hs hshows hallowed
    exact ⟨d, hrun, hshows.status, hshows.entry⟩

/-- **Iterating over the database.** At a snapshot the keys of several tables that are not deleted
are a sorted map, each key with the value that its newest version up to the snapshot has. Every run
of moves ends, reports nothing as corrupt and shows the entry of the map to which they lead. -/
theorem iterate_view {cmp : Comparator} [Std.TransCmp cmp] {n : ℕ} (vs : Fin n → List Write)
    (hfits : ∀ i, ∀ v ∈ vs i, Fits v) (hdistinct : Distinct cmp ((List.finRange n).flatMap vs))
    (s : ℕ) (hs : s ≤ kMaxSequenceNumber) :
    let it := MergingIterator.merging (internalCompare cmp) fun i =>
      ((vs i).foldl MemTable.addWrite (MemTable.empty : MemTable cmp)).iterator
    ∃ map : List (Bytes × Bytes), Iterators.Sorted cmp map ∧
      (∀ a, a ∈ map ↔ ∃ v, newest cmp a.1 s ((List.finRange n).flatMap vs) = some v ∧
        v.key = a.1 ∧ v.value = some a.2) ∧
      ∀ fuel > ((List.finRange n).flatMap vs).length, ∀ moves,
        AllowedRun cmp (fun k => k.length + 8 < 2 ^ 32) map moves none →
        ∃ d, moves.foldlM (fun d m => move it cmp s fuel m d) (new (.new fun _ => none)) = some d ∧
          d.status = .ok ∧ d.entry it = moves.foldl (fun at_ m => m.place cmp map at_) none := by
  intro it
  have hempty : (MemTable.empty : MemTable cmp).Holds [] := empty_holds
  have hholds (i : Fin n) := (addWrite_foldl_holds hempty (vs i)).perm
    (.of_eq (List.nil_append _))
  have hall (v : Write) (hv : v ∈ (List.finRange n).flatMap vs) : Fits v := by
    obtain ⟨i, -, hi⟩ := List.mem_flatMap.1 hv
    exact hfits i v hi
  obtain ⟨ws, hperm, hsorted⟩ := exists_sorted hall hdistinct
  obtain ⟨ls, states, hnone, hover, hmerged⟩ := tables_merged hholds hfits hperm hsorted
  exact iterate_over (fun v hv => hall v (hperm.mem_iff.1 hv)) hsorted hperm
    (MergingIterator.new_ready hnone) (MergingIterator.merging_over hover hmerged) hs

/-- A key is deleted in the newer one of two tables. -/
theorem iterate_view_deleted :
    let vs : Fin 2 → List Write :=
      Fin.cons [⟨[7], 3, none⟩] (Fin.cons [⟨[7], 1, some [9]⟩, ⟨[5], 2, some [8]⟩] Fin.elim0)
    let it := MergingIterator.merging (internalCompare Slice.compare) fun i =>
      ((vs i).foldl MemTable.addWrite (MemTable.empty : MemTable Slice.compare)).iterator
    ∃ map : List (Bytes × Bytes), ([5], [8]) ∈ map ∧ ([7], [9]) ∉ map ∧
      ∃ d, [Move.seekToFirst, .seekToLast].foldlM
        (fun d m => move it Slice.compare 3 4 m d) (new (.new fun _ => none)) = some d ∧
        d.entry it = map.getLast? := by
  intro vs it
  have hvs : (List.finRange 2).flatMap vs =
      [⟨[7], 3, none⟩, ⟨[7], 1, some [9]⟩, ⟨[5], 2, some [8]⟩] := rfl
  have hfits : ∀ i, ∀ v ∈ vs i, Fits v := by
    intro i v hv
    have hmem : v ∈ (List.finRange 2).flatMap vs :=
      List.mem_flatMap.2 ⟨i, List.mem_finRange i, hv⟩
    rw [hvs] at hmem
    simp only [List.mem_cons, List.not_mem_nil, or_false] at hmem
    rcases hmem with rfl | rfl | rfl <;> exact ⟨by decide, by decide, by decide⟩
  have hdistinct : Distinct Slice.compare ((List.finRange 2).flatMap vs) := by
    rw [hvs]
    simp [Distinct, Apart]
  obtain ⟨map, -, hmem, hrun⟩ := iterate_view vs hfits hdistinct 3 (by decide)
  rw [hvs] at hmem hrun
  obtain ⟨d, hd, -, hentry⟩ :=
    hrun 4 (by decide) [.seekToFirst, .seekToLast] ⟨trivial, trivial, trivial⟩
  refine ⟨map, (hmem _).2 ⟨⟨[5], 2, some [8]⟩, rfl, rfl, rfl⟩, fun h => ?_, d, hd, hentry⟩
  obtain ⟨v, hv, -, hvalue⟩ := (hmem _).1 h
  have hnewest : newest Slice.compare [7] 3
      [(⟨[7], 3, none⟩ : Write), ⟨[7], 1, some [9]⟩, ⟨[5], 2, some [8]⟩] =
      some ⟨[7], 3, none⟩ := rfl
  rw [hnewest] at hv
  cases hv
  cases hvalue

end DBIter

end TelecomSuite.LevelDb
