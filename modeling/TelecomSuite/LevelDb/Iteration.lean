import TelecomSuite.LevelDb.DBIter
import TelecomSuite.LevelDb.Snapshots

/-!
# Iterating at a snapshot

`NewIterator` of `db/db_impl.cc` puts a `DBIter` over the iterators of the tables that there are. At
a snapshot that was taken earlier it shows the map of what was committed then (`iterate_snapshot`),
whatever was written and however the tables were switched since.
-/

namespace TelecomSuite.LevelDb

open Transition Versions Iterators

namespace DBImpl

variable {cmp : Comparator} [Std.TransCmp cmp] {s : DBImpl cmp} {env : DbEnv cmp}
  {base : List MemTable.Write}

/-- The tables that `NewInternalIterator` collects. -/
def children (s : DBImpl cmp) : List (Filled cmp) :=
  s.table s.mem :: ((s.imm.map s.table).toList ++ s.version)

/-- `NewInternalIterator`. -/
def newInternalIterator (s : DBImpl cmp) :
    Iterator Bytes Bytes (MergedState fun _ : Fin s.children.length => SkipList.Iterator) :=
  newMergingIterator (internalCompare cmp) fun i => (s.children.get i).table.iterator

omit [Std.TransCmp cmp] in
/-- The tables are those that `Get` reads. -/
theorem children_writes (s : DBImpl cmp) : s.children.map (·.writes) = s.sources := by
  rw [children, sources]
  cases s.imm <;> simp

omit [Std.TransCmp cmp] in
/-- What the tables hold is what is stored. -/
theorem children_perm (s : DBImpl cmp) :
    s.stored.Perm ((List.finRange s.children.length).flatMap fun i =>
      (s.children.get i).writes) := by
  have hflatten : ((List.finRange s.children.length).flatMap fun i =>
      (s.children.get i).writes) = s.sources.flatten := by
    rw [← children_writes, ← List.flatMap_def]
    conv_rhs => rw [← List.map_get_finRange s.children]
    rw [List.flatMap_map]
  rw [hflatten, ← sources_flatten]
  exact (List.reverse_perm s.sources).flatten

omit [Std.TransCmp cmp] in
/-- Every table is in order. -/
theorem children_ordered (h : s.Kept base) {f : Filled cmp} (hf : f ∈ s.children) :
    Ordered f.writes := by
  rw [children, List.mem_cons, List.mem_append, Option.mem_toList, Option.map_eq_some_iff] at hf
  rcases hf with rfl | ⟨i, -, rfl⟩ | hf
  · exact h.table s.mem
  · exact h.table i
  · exact h.version f hf

/-- **Iterating at a snapshot.** A snapshot is taken, and later an iterator at this snapshot is put
over the tables that there are then. It shows the sorted map of the keys that were committed and not
deleted when the snapshot was taken, each with its newest value. -/
theorem iterate_snapshot {s₀ : DBImpl cmp} (hs₀ : (promisedSystem env base).Reachable s₀)
    {es : List Event} (hrun : (promisedSystem env base).Run s₀ es s) :
    ∃ map : List (Bytes × Bytes), Iterators.Sorted cmp map ∧
      (∀ a, a ∈ map ↔ ∃ v, newest cmp a.1 s₀.lastSequence (base ++ s₀.committed) = some v ∧
        v.key = a.1 ∧ v.value = some a.2) ∧
      ∀ fuel > s.stored.length, ∀ moves,
        AllowedRun cmp (fun k => k.length + 8 < 2 ^ 32) map moves none →
        ∃ d, moves.foldlM
            (fun d m => DBIter.move s.newInternalIterator cmp s₀.lastSequence fuel m d)
            (.new (MergedState.new fun _ => none)) = some d ∧
          d.status = .ok ∧
          d.entry s.newInternalIterator = moves.foldl (fun at_ m => m.place cmp map at_) none := by
  have hinv₀ := inv_inductive.reachable hs₀
  have hinv := inv_inductive.run hrun hinv₀
  have hperm := s.children_perm
  have hstored : Distinct cmp s.stored := .of_increasing hinv.kept.increasing
  have hdistinct : Distinct cmp ((List.finRange s.children.length).flatMap fun i =>
      (s.children.get i).writes) := (hperm.pairwise_iff Apart.symm).1 hstored
  have hfits (i : Fin s.children.length) : ∀ v ∈ (s.children.get i).writes, MemTable.Fits v :=
    (children_ordered hinv.kept (List.get_mem _ _)).2
  have hall (v : MemTable.Write) (hv : v ∈ (List.finRange s.children.length).flatMap fun i =>
      (s.children.get i).writes) : MemTable.Fits v := by
    obtain ⟨i, -, hi⟩ := List.mem_flatMap.1 hv
    exact hfits i v hi
  obtain ⟨ws, hws, hsortedWs⟩ := MemTable.exists_sorted hall hdistinct
  obtain ⟨ls, states, hnone, hover, hmerged⟩ := MemTable.tables_merged
    (fun i => (s.children.get i).holds) hfits hws hsortedWs
  obtain ⟨states', hstart, hover'⟩ := newMergingIterator_over hover hmerged hnone
  obtain ⟨map, hsorted, hmem, hmoves⟩ := DBIter.iterate_over
    (fun v hv => hall v (hws.mem_iff.1 hv)) hsortedWs hws hstart hover' hinv₀.kept.max
  refine ⟨map, hsorted, fun a => ?_, ?_⟩
  · rw [hmem, newest_perm hdistinct hperm.symm, newest_stored hinv₀ hinv hrun]
  · rw [hperm.length_eq]
    exact hmoves

omit [Std.TransCmp cmp] in
/-- The snapshot is taken when the first group has left. The iterator is made when the second one
has, the tables were switched and one of them is written. -/
theorem iterate_snapshot_second :
    ∃ s₀ s, (promisedSystem smallEnv []).Run (opened .empty 0 none) firstGroup s₀ ∧
      (promisedSystem smallEnv []).Run s₀ (secondGroup ++ switching) s ∧
      s₀.lastSequence = 1 ∧ s.lastSequence = 3 ∧ s.version.length = 1 ∧
      ∃ d, [Move.seekToFirst].foldlM
          (fun d m => DBIter.move s.newInternalIterator Slice.compare 1 (s.stored.length + 1) m d)
          (.new (MergedState.new fun _ => none)) = some d ∧
        d.entry s.newInternalIterator = some ([1], [2]) := by
  obtain ⟨s₀, hs₀, hlast, hcommitted, s, hs, hlast', hversion⟩ :
      ∃ s₀, (promisedSystem smallEnv []).Run (opened .empty 0 none) firstGroup s₀ ∧
        s₀.lastSequence = 1 ∧ [] ++ s₀.committed = [⟨[1], 1, some [2]⟩] ∧
        ∃ s, (promisedSystem smallEnv []).Run s₀ (secondGroup ++ switching) s ∧
          s.lastSequence = 3 ∧ s.version.length = 1 :=
    ⟨_, promised_replay (fun e he => run_wellFormed e (by simp [he])) (by decide +kernel),
      by decide +kernel, by decide +kernel,
      _, promised_replay (fun e he => run_wellFormed e (by simp_all)) (by decide +kernel),
      by decide +kernel⟩
  obtain ⟨map, -, hmem, hmoves⟩ := iterate_snapshot ⟨_, _, empty_initial none, hs₀⟩ hs
  rw [hlast, hcommitted] at hmem
  rw [hlast] at hmoves
  obtain ⟨d, hd, -, hentry⟩ := hmoves _ (Nat.lt_succ_self _) [.seekToFirst] ⟨trivial, trivial⟩
  have hfirst : ([1], [2]) ∈ map := (hmem _).2 ⟨_, rfl, rfl, rfl⟩
  have honly (a : Bytes × Bytes) (ha : a ∈ map) : a = ([1], [2]) := by
    obtain ⟨v, hv, hkey, hvalue⟩ := (hmem a).1 ha
    obtain rfl : v = ⟨[1], 1, some [2]⟩ := List.mem_singleton.1 (newest_isNewest hv).1
    exact Prod.ext hkey.symm (Option.some.inj hvalue).symm
  have hhead : map.head? = some ([1], [2]) := by
    cases map with
    | nil => cases hfirst
    | cons a as => rw [List.head?_cons, honly a (List.mem_cons_self ..)]
  exact ⟨s₀, s, hs₀, hs, hlast, hlast', hversion, d, hd, hentry.trans hhead⟩

end DBImpl

end TelecomSuite.LevelDb
