import Mathlib.Data.List.Pairwise
import Mathlib.Data.List.Perm.Basic

/-!
# A map of which old versions are kept

A write puts a value under a key with a number that no write of this key had before, or deletes the
key. At a snapshot a key has the value of its newest version up to the snapshot's number (`newest`).
The order in which the versions are kept does not matter (`newest_perm`). In the order of their keys
with the new versions first, the newest one is at the first place that is not before the key and the
snapshot (`newest_of_sorted`); and in a sequence of sources each of which is newer than what
follows, the first source that has a version answers (`findSome_newest`).
-/

namespace Versions

variable {K V : Type*}

/-- A write of a value or, with `none`, a deletion. -/
structure Version (K V : Type*) where
  key : K
  seq : ℕ
  value : Option V
  deriving DecidableEq

variable (cmp : K → K → Ordering)

/-- A version of the key that a snapshot sees. -/
def Visible (k : K) (s : ℕ) (v : Version K V) : Prop := cmp v.key k = .eq ∧ v.seq ≤ s

/-- Whether a snapshot sees a version is decided from its key and its number. -/
instance (k : K) (s : ℕ) (v : Version K V) : Decidable (Visible cmp k s v) :=
  inferInstanceAs (Decidable (_ ∧ _))

/-- The newest version of a key at a snapshot. -/
def newest (k : K) (s : ℕ) : List (Version K V) → Option (Version K V)
  | [] => none
  | v :: vs =>
    if Visible cmp k s v then
      match newest k s vs with
      | some w => if v.seq ≤ w.seq then some w else some v
      | none => some v
    else newest k s vs

/-- The version with the highest number of those of the key that the snapshot sees. -/
def IsNewest (k : K) (s : ℕ) (vs : List (Version K V)) (v : Version K V) : Prop :=
  v ∈ vs ∧ Visible cmp k s v ∧ ∀ w ∈ vs, Visible cmp k s w → w.seq ≤ v.seq

/-- Two versions of the same key have different numbers. -/
def Apart (v w : Version K V) : Prop := cmp v.key w.key = .eq → v.seq ≠ w.seq

/-- No two versions of a key have the same number. -/
def Distinct (vs : List (Version K V)) : Prop := vs.Pairwise (Apart cmp)

/-- Before a key at a snapshot come the keys that are less, and the versions the snapshot does not
see. -/
def Before (k : K) (s : ℕ) (v : Version K V) : Prop :=
  cmp v.key k = .lt ∨ cmp v.key k = .eq ∧ s < v.seq

/-- The order is decided from the keys and the numbers. -/
instance (k : K) (s : ℕ) (v : Version K V) : Decidable (Before cmp k s v) :=
  inferInstanceAs (Decidable (_ ∨ _))

/-- In the order of the keys, and for each key from the newest version to the oldest. -/
def Sorted (vs : List (Version K V)) : Prop := vs.Pairwise fun v w => Before cmp w.key w.seq v

/-- A snapshot sees the version and no newer one of its key. -/
def Latest (s : ℕ) (vs : List (Version K V)) (v : Version K V) : Prop :=
  v.seq ≤ s ∧ ∀ w ∈ vs, Visible cmp v.key s w → w.seq ≤ v.seq

/-- Decided by looking at all versions. -/
instance (s : ℕ) (vs : List (Version K V)) (v : Version K V) : Decidable (Latest cmp s vs v) :=
  inferInstanceAs (Decidable (_ ∧ _))

/-- The key and the value of the latest version of a key that is not deleted. -/
def present (s : ℕ) (vs : List (Version K V)) (v : Version K V) : Option (K × V) :=
  if Latest cmp s vs v then v.value.map (v.key, ·) else none

/-- The map that a snapshot sees. -/
def view (s : ℕ) (vs : List (Version K V)) : List (K × V) := vs.filterMap (present cmp s vs)

/-- All versions of a key in one place are newer than those in the other. -/
def Newer (vs ws : List (Version K V)) : Prop :=
  ∀ v ∈ vs, ∀ w ∈ ws, cmp v.key w.key = .eq → w.seq < v.seq

variable {cmp} {k : K} {s : ℕ} {vs ws : List (Version K V)} {v w : Version K V}

/-- What is shown for a version: its key and its value, if it is the newest and no deletion. -/
theorem present_eq_some {a : K × V} :
    present cmp s vs v = some a ↔ Latest cmp s vs v ∧ v.key = a.1 ∧ v.value = some a.2 := by
  obtain ⟨k, x⟩ := a
  rw [present]
  split_ifs with hlatest
  · simp [hlatest, Option.map_eq_some_iff, and_comm]
  · exact iff_of_false (fun h => by cases h) fun h => hlatest h.1

/-- There is no newest version if the snapshot sees none. -/
theorem newest_eq_none : newest cmp k s vs = none ↔ ∀ v ∈ vs, ¬ Visible cmp k s v := by
  induction vs with
  | nil => exact iff_of_true rfl fun _ hv => absurd hv List.not_mem_nil
  | cons v vs ih =>
    rw [newest, List.forall_mem_cons]
    by_cases hv : Visible cmp k s v
    · rw [if_pos hv]
      refine iff_of_false ?_ fun h => h.1 hv
      cases newest cmp k s vs with
      | none => exact Option.some_ne_none v
      | some w =>
        by_cases hle : v.seq ≤ w.seq
        · exact (if_pos hle).trans_ne (Option.some_ne_none w)
        · exact (if_neg hle).trans_ne (Option.some_ne_none v)
    · rw [if_neg hv, ih]
      exact (and_iff_right hv).symm

/-- Versions that are newer than the snapshot make no difference. -/
theorem newest_append_hidden (h : ∀ w ∈ ws, s < w.seq) :
    newest cmp k s (vs ++ ws) = newest cmp k s vs := by
  induction vs with
  | nil => exact newest_eq_none.2 fun w hw hvis => Nat.not_le.2 (h w hw) hvis.2
  | cons v vs ih => rw [List.cons_append, newest, newest, ih]

/-- What is found is the newest version. -/
theorem newest_isNewest (h : newest cmp k s vs = some v) : IsNewest cmp k s vs v := by
  induction vs generalizing v with
  | nil => cases h
  | cons a vs ih =>
    rw [newest] at h
    split_ifs at h with ha
    · cases hrest : newest cmp k s vs with
      | none =>
        rw [hrest] at h
        obtain rfl : a = v := Option.some.inj h
        have hnone := newest_eq_none.1 hrest
        refine ⟨List.mem_cons_self, ha, fun w hw hvis => ?_⟩
        rcases List.mem_cons.1 hw with rfl | hw
        · exact Nat.le_refl _
        · exact absurd hvis (hnone w hw)
      | some b =>
        obtain ⟨hmem, hvis, hmax⟩ := ih hrest
        rw [hrest] at h
        dsimp only at h
        split_ifs at h with hle
        · obtain rfl : b = v := Option.some.inj h
          refine ⟨List.mem_cons_of_mem a hmem, hvis, fun w hw hvw => ?_⟩
          rcases List.mem_cons.1 hw with rfl | hw
          · exact hle
          · exact hmax w hw hvw
        · obtain rfl : a = v := Option.some.inj h
          refine ⟨List.mem_cons_self, ha, fun w hw hvw => ?_⟩
          rcases List.mem_cons.1 hw with rfl | hw
          · exact Nat.le_refl _
          · exact Nat.le_trans (hmax w hw hvw) (Nat.le_of_not_le hle)
    · obtain ⟨hmem, hvis, hmax⟩ := ih h
      refine ⟨List.mem_cons_of_mem a hmem, hvis, fun w hw hvw => ?_⟩
      rcases List.mem_cons.1 hw with rfl | hw
      · exact absurd hvw ha
      · exact hmax w hw hvw

/-- What comes before a key and a snapshot is not seen there. -/
theorem not_visible_of_before (h : Before cmp k s v) : ¬ Visible cmp k s v := by
  rintro ⟨hkey, hle⟩
  rcases h with hlt | ⟨-, hlt⟩
  · rw [hkey] at hlt
    cases hlt
  · exact absurd hlt (Nat.not_lt.2 hle)

section
variable [Std.TransCmp cmp]

/-- Two versions that are seen under one key have the same key. -/
theorem Visible.same (h : Visible cmp k s v) (h' : Visible cmp k s w) : cmp v.key w.key = .eq :=
  Std.TransCmp.eq_trans h.1 (Std.OrientedCmp.eq_symm h'.1)

/-- The order of the two does not matter. -/
theorem Apart.symm (h : Apart cmp v w) : Apart cmp w v :=
  fun hsame => (h (Std.OrientedCmp.eq_symm hsame)).symm

/-- `Apart` is symmetric. -/
instance : Std.Symm (Apart (V := V) cmp) := ⟨fun _ _ => Apart.symm⟩

/-- Two different versions of a key have different numbers. -/
theorem Distinct.ne (h : Distinct cmp vs) (hv : v ∈ vs) (hw : w ∈ vs) (hne : v ≠ w)
    (hsame : cmp v.key w.key = .eq) : v.seq ≠ w.seq :=
  List.Pairwise.forall h hv hw hne hsame

/-- There is one newest version. -/
theorem newest_eq_some (hdistinct : Distinct cmp vs) :
    newest cmp k s vs = some v ↔ IsNewest cmp k s vs v := by
  refine ⟨newest_isNewest, fun h => ?_⟩
  cases hnewest : newest cmp k s vs with
  | none => exact absurd h.2.1 (newest_eq_none.1 hnewest v h.1)
  | some w =>
    obtain ⟨hmem, hvis, hmax⟩ := newest_isNewest hnewest
    have hseq : w.seq = v.seq := Nat.le_antisymm (h.2.2 w hmem hvis) (hmax v h.1 h.2.1)
    by_contra hne
    exact hdistinct.ne hmem h.1 (fun heq => hne (congrArg some heq)) (hvis.same h.2.1) hseq

/-- The order of the versions does not matter. -/
theorem newest_perm (hdistinct : Distinct cmp vs) (hperm : vs.Perm ws) :
    newest cmp k s vs = newest cmp k s ws := by
  have hdistinct' : Distinct cmp ws :=
    (hperm.pairwise_iff Apart.symm).1 hdistinct
  refine Option.ext fun v => ?_
  rw [newest_eq_some hdistinct, newest_eq_some hdistinct', IsNewest, IsNewest]
  simp only [hperm.mem_iff]

/-- In the right order the newest version is at the first place that is not before it. -/
theorem newest_of_sorted (h : Sorted cmp vs) : newest cmp k s vs =
    ((vs.dropWhile (Before cmp k s ·)).head?).filter fun v => cmp v.key k = .eq := by
  induction vs with
  | nil => rfl
  | cons v vs ih =>
    obtain ⟨hv, hvs⟩ := List.pairwise_cons.1 h
    by_cases hbefore : Before cmp k s v
    · rw [newest, if_neg (not_visible_of_before hbefore), ih hvs,
        List.dropWhile_cons_of_pos (p := fun v => decide (Before cmp k s v))
          (decide_eq_true hbefore)]
    · rw [List.dropWhile_cons_of_neg (p := fun v => decide (Before cmp k s v))
        (by simpa using hbefore), List.head?_cons]
      by_cases heq : cmp v.key k = .eq
      · have hvis : Visible cmp k s v :=
          ⟨heq, Nat.le_of_not_lt fun hlt => hbefore (Or.inr ⟨heq, hlt⟩)⟩
        have hfilter : (some v).filter (fun v => decide (cmp v.key k = .eq)) = some v :=
          Option.filter_some_pos (decide_eq_true heq)
        rw [newest, if_pos hvis, hfilter]
        cases hrest : newest cmp k s vs with
        | none => rfl
        | some w =>
          obtain ⟨hmem, hvisw, -⟩ := newest_isNewest hrest
          have hlt : w.seq < v.seq := by
            rcases hv w hmem with hlt | ⟨-, hlt⟩
            · rw [hvis.same hvisw] at hlt
              cases hlt
            · exact hlt
          exact if_neg (Nat.not_le.2 hlt)
      · have hgt : cmp k v.key = .lt := by
          cases hcmp : cmp v.key k with
          | lt => exact absurd (Or.inl hcmp) hbefore
          | eq => exact absurd hcmp heq
          | gt => exact Std.OrientedCmp.lt_of_gt hcmp
        have hnone : newest cmp k s (v :: vs) = none := by
          refine newest_eq_none.2
            (List.forall_mem_cons.2 ⟨fun hvis => heq hvis.1, fun w hw hvis => ?_⟩)
          have hle : (cmp v.key w.key).isLE := by
            rcases hv w hw with hlt | ⟨hsame, -⟩
            · rw [hlt]
              rfl
            · rw [hsame]
              rfl
          have hlt := Std.TransCmp.lt_of_lt_of_isLE hgt hle
          rw [Std.OrientedCmp.eq_symm hvis.1] at hlt
          cases hlt
        rw [hnone]
        exact (Option.filter_some_neg (by simpa using heq)).symm

/-- Of two lists the one with the newer versions answers first. -/
theorem newest_append (h : Newer cmp vs ws) :
    newest cmp k s (vs ++ ws) = (newest cmp k s vs).or (newest cmp k s ws) := by
  induction vs with
  | nil => rfl
  | cons v vs ih =>
    rw [List.cons_append, newest, newest, ih fun a ha => h a (List.mem_cons_of_mem v ha)]
    by_cases hvis : Visible cmp k s v
    · rw [if_pos hvis, if_pos hvis]
      cases newest cmp k s vs with
      | none =>
        cases hws : newest cmp k s ws with
        | none => rfl
        | some w =>
          obtain ⟨hmem, hvisw, -⟩ := newest_isNewest hws
          have hlt := h v List.mem_cons_self w hmem (hvis.same hvisw)
          exact if_neg (Nat.not_le.2 hlt)
      | some u =>
        rw [Option.some_or]
        dsimp only
        split_ifs <;> rfl
    · rw [if_neg hvis, if_neg hvis]

/-- The first source that has a version has the newest one. -/
theorem findSome_newest {sources : List (List (Version K V))} (h : sources.Pairwise (Newer cmp)) :
    sources.findSome? (newest cmp k s) = newest cmp k s sources.flatten := by
  induction sources with
  | nil => rfl
  | cons vs sources ih =>
    obtain ⟨hvs, hsources⟩ := List.pairwise_cons.1 h
    have hnewer : Newer cmp vs sources.flatten := by
      intro v hv w hw
      obtain ⟨ws, hws, hw⟩ := List.mem_flatten.1 hw
      exact hvs ws hws v hv w hw
    rw [List.flatten_cons, newest_append hnewer, ← ih hsources, List.findSome?_cons]
    cases newest cmp k s vs <;> rfl

omit [Std.TransCmp cmp] in
/-- Sorted versions are apart. -/
theorem Sorted.distinct (h : Sorted cmp vs) : Distinct cmp vs := by
  refine List.Pairwise.imp (S := Apart cmp) (fun {v w} hbefore heq => ?_) h
  rcases hbefore with hlt | ⟨-, hlt⟩
  · rw [heq] at hlt
    cases hlt
  · exact Nat.ne_of_gt hlt

omit [Std.TransCmp cmp] in
/-- In the right order, a version is the latest one if none before it is seen. -/
theorem latest_iff_of_sorted [Std.OrientedCmp cmp] (h : Sorted cmp (vs ++ v :: ws)) :
    Latest cmp s (vs ++ v :: ws) v ↔
      v.seq ≤ s ∧ ∀ w ∈ vs, w.seq ≤ s → cmp w.key v.key ≠ .eq := by
  obtain ⟨-, hvws, hbefore⟩ := List.pairwise_append.1 h
  refine and_congr_right fun _ => ⟨fun hmax w hw hseq heq => ?_, fun hnone w hw hvis => ?_⟩
  · have hle := hmax w (List.mem_append_left _ hw) ⟨heq, hseq⟩
    rcases hbefore w hw v List.mem_cons_self with hlt | ⟨-, hlt⟩
    · rw [heq] at hlt
      cases hlt
    · exact absurd hle (Nat.not_le.2 hlt)
  · rcases List.mem_append.1 hw with hw | hw
    · exact absurd hvis.1 (hnone w hw hvis.2)
    rcases List.mem_cons.1 hw with rfl | hw
    · exact Nat.le_refl _
    rcases (List.pairwise_cons.1 hvws).1 w hw with hlt | ⟨-, hlt⟩
    · rw [Std.OrientedCmp.eq_symm hvis.1] at hlt
      cases hlt
    · exact Nat.le_of_lt hlt

omit [Std.TransCmp cmp] in
/-- What is shown is sorted by the keys. -/
theorem view_sorted [Std.OrientedCmp cmp] (h : Sorted cmp vs) :
    (view cmp s vs).Pairwise fun a b => cmp a.1 b.1 = .lt := by
  refine List.pairwise_filterMap.2 (h.imp_of_mem fun {v w} hv _ hbefore a ha b hb => ?_)
  obtain ⟨hlatest, hkey, -⟩ := present_eq_some.1 ha
  obtain ⟨hlatest', hkey', -⟩ := present_eq_some.1 hb
  rw [← hkey, ← hkey']
  rcases hbefore with hlt | ⟨heq, hlt⟩
  · exact hlt
  · exact absurd (hlatest'.2 v hv ⟨heq, hlatest.1⟩) (Nat.not_le.2 hlt)

/-- A key has in the view the value of its newest version. -/
theorem mem_view (hdistinct : Distinct cmp vs) {a : K × V} : a ∈ view cmp s vs ↔
    ∃ v, newest cmp a.1 s vs = some v ∧ v.key = a.1 ∧ v.value = some a.2 := by
  rw [view, List.mem_filterMap]
  refine exists_congr fun v => ?_
  rw [present_eq_some, newest_eq_some hdistinct]
  constructor
  · rintro ⟨hv, hlatest, hkey, hvalue⟩
    refine ⟨⟨hv, ⟨?_, hlatest.1⟩, fun w hw hvis => hlatest.2 w hw (hkey ▸ hvis)⟩, hkey, hvalue⟩
    rw [hkey]
    exact Std.ReflCmp.compare_self
  · rintro ⟨⟨hv, hvis, hmax⟩, hkey, hvalue⟩
    exact ⟨hv, ⟨hvis.2, fun w hw hvisw => hmax w hw (hkey ▸ hvisw)⟩, hkey, hvalue⟩

omit [Std.TransCmp cmp] in
/-- Versions with increasing numbers are apart. -/
theorem Distinct.of_increasing (h : vs.Pairwise fun v w => v.seq < w.seq) : Distinct cmp vs :=
  h.imp (S := Apart cmp) fun hlt _ => Nat.ne_of_lt hlt

/-- Sources that were filled one after the other, the last one first. -/
theorem findSome_newest_reverse {sources : List (List (Version K V))}
    (h : sources.reverse.flatten.Pairwise fun v w => v.seq < w.seq) :
    sources.findSome? (newest cmp k s) = newest cmp k s sources.reverse.flatten := by
  have hsources := h
  rw [List.pairwise_flatten, List.pairwise_reverse] at hsources
  have hnewer : sources.Pairwise (Newer cmp) :=
    hsources.2.imp fun hvw v hv w hw _ => hvw w hw v hv
  rw [findSome_newest hnewer, newest_perm (Distinct.of_increasing h)
    (List.reverse_perm sources).flatten]

end

end Versions
