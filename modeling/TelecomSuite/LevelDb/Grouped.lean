import TelecomSuite.LevelDb.GroupCommit

/-!
# Groups of writers

The batch of a group is made of the batches of the writers that leave the queue with the leader, in
their order, and no writer that wants a sync is in a group without one (`buildBatchGroup_ok`). This
holds from where the group is built to where it leaves (`grouped_step`).
-/

namespace TelecomSuite.LevelDb

open Transition LeaderQueue Versions

/-- The group that a call leads. -/
def Pc.group : Pc → Option Group
  | .log g => some g
  | .sync g => some g
  | .insert g _ _ _ => some g
  | .finish g _ _ => some g
  | _ => none

/-- A signal does not change who leads a group. -/
theorem Pc.group_signaled (pc : Pc) : pc.signaled.group = pc.group := by cases pc <;> rfl

/-- The writes of a call. -/
def Writer.ops (w : Writer) : List Op := (w.batch.map WriteBatch.ops).getD []

/-- The writes of a call with a batch. -/
theorem Writer.ops_of_batch {w : Writer} {b : WriteBatch} (h : w.batch = some b) :
    w.ops = b.ops := by
  rw [ops, h]
  rfl

/-- A manual compaction has no writes. -/
theorem Writer.ops_of_none {w : Writer} (h : w.batch = none) : w.ops = [] := by
  rw [ops, h]
  rfl

namespace Group

variable {writers : List ℕ} {writer : ℕ → Writer} {lastSequence t : ℕ} {g : Group}

/-- The writers that leave the queue with a group. -/
def members (g : Group) (writers : List ℕ) : List ℕ := DBImpl.upTo g.lastWriter writers

/-- The writes of all members, in their order. -/
def ops (g : Group) (writers : List ℕ) (writer : ℕ → Writer) : List Op :=
  (g.members writers).flatMap fun t => (writer t).ops

/-- What `BuildBatchGroup` made sure of. -/
structure Ok (writers : List ℕ) (writer : ℕ → Writer) (lastSequence t : ℕ) (g : Group) : Prop where
  front : writers.head? = some t
  last : g.lastWriter ∈ writers
  batch : g.updates.IsBatch (lastSequence + 1) (g.ops writers writer)
  fits : ∀ op ∈ g.ops writers writer, op.Fits
  count : (g.ops writers writer).length < 2 ^ 31
  number : g.lastSequence = lastSequence + (g.ops writers writer).length
  room : lastSequence + 2 ^ 31 ≤ kMaxSequenceNumber
  sync : ∀ w ∈ g.members writers, (writer w).sync → (writer t).sync

/-- A group gets the next number. -/
theorem Ok.sequence (h : g.Ok writers writer lastSequence t) :
    g.updates.sequence = lastSequence + 1 := by
  have hroom := h.room
  rw [kMaxSequenceNumber] at hroom
  rw [h.batch.sequence, Nat.mod_eq_of_lt (by omega)]

/-- The batch of a group has the writes of its members. -/
theorem Ok.updates_ops (h : g.Ok writers writer lastSequence t) :
    g.updates.ops = g.ops writers writer :=
  h.batch.ops_eq h.fits (h.count.trans (by decide))

end Group

namespace DBImpl

variable {cmp : Comparator} {s s' : DBImpl cmp} {t : ℕ} {g : Group}

/-! ## Building a group -/

/-- Those that leave up to the last one taken are the leader and all that were taken. -/
theorem upTo_getLastD {taken rest : List ℕ} (h : (t :: (taken ++ rest)).Nodup) :
    upTo (taken.getLastD t) (t :: (taken ++ rest)) = t :: taken := by
  induction taken generalizing t with
  | nil => exact if_pos rfl
  | cons a as ih =>
    obtain ⟨hnot, hnodup⟩ := List.nodup_cons.1 h
    have hne : t ≠ as.getLastD a := by
      intro heq
      refine hnot (List.mem_append_left rest ?_)
      rw [heq]
      exact List.getLastD_mem_cons
    have htail : upTo (as.getLastD a) (a :: as ++ rest) = a :: as := ih hnodup
    rw [List.getLastD_cons, upTo, if_neg hne, htail]

/-- The followers that the loop takes. -/
theorem joinGroup_spec (first : Writer) (batch : WriteBatch) (maxSize : ℕ) {size : ℕ} {os : List Op}
    {ts : List ℕ} (hbatches : ∀ t ∈ ts, ∀ b, (s.writer t).batch = some b → b.WellFormed)
    (hg : ∃ seq, g.updates.IsBatch seq os) (hsize : os.length ≤ size)
    (htmp : g.isTmp = false → g.updates = batch ∧ s.tmpBatch = .clear) :
    ∃ taken rest, ts = taken ++ rest ∧
      (s.joinGroup first batch maxSize size g ts).lastWriter = taken.getLastD g.lastWriter ∧
      (∃ seq, (s.joinGroup first batch maxSize size g ts).updates.IsBatch seq
        (os ++ taken.flatMap fun t => (s.writer t).ops)) ∧
      (os ++ taken.flatMap fun t => (s.writer t).ops).length ≤ max os.length maxSize ∧
      ∀ w ∈ taken, (s.writer w).sync → first.sync := by
  induction ts generalizing size g os with
  | nil =>
    refine ⟨[], [], rfl, rfl, ?_, ?_, fun w hw => by cases hw⟩
    · rw [joinGroup, List.flatMap_nil, List.append_nil]
      exact hg
    · rw [List.flatMap_nil, List.append_nil]
      exact Nat.le_max_left _ _
  | cons t ts ih =>
    have hbatches' : ∀ t ∈ ts, ∀ b, (s.writer t).batch = some b → b.WellFormed :=
      fun t' ht' => hbatches t' (List.mem_cons_of_mem t ht')
    have hstop : ∃ taken rest, t :: ts = taken ++ rest ∧ g.lastWriter = taken.getLastD g.lastWriter ∧
        (∃ seq, g.updates.IsBatch seq (os ++ taken.flatMap fun t => (s.writer t).ops)) ∧
        (os ++ taken.flatMap fun t => (s.writer t).ops).length ≤ max os.length maxSize ∧
        ∀ w ∈ taken, (s.writer w).sync → first.sync := by
      refine ⟨[], t :: ts, rfl, rfl, ?_, ?_, fun w hw => by cases hw⟩
      · rw [List.flatMap_nil, List.append_nil]
        exact hg
      · rw [List.flatMap_nil, List.append_nil]
        exact Nat.le_max_left _ _
    rw [joinGroup]
    by_cases hsync : (s.writer t).sync ∧ ¬ first.sync
    · rw [if_pos hsync]
      exact hstop
    rw [if_neg hsync]
    have hsync' : (s.writer t).sync → first.sync := fun h => by
      by_contra hnot
      exact hsync ⟨h, hnot⟩
    cases hbatch : (s.writer t).batch with
    | none =>
      obtain ⟨taken, rest, rfl, hlast, hall, hlength, hsyncs⟩ :=
        ih (g := { g with lastWriter := t }) hbatches' hg hsize htmp
      refine ⟨t :: taken, rest, rfl, ?_, ?_, ?_, List.forall_mem_cons.2 ⟨hsync', hsyncs⟩⟩
      · rw [List.getLastD_cons]
        exact hlast
      · rw [List.flatMap_cons, Writer.ops_of_none hbatch, List.nil_append]
        exact hall
      · rw [List.flatMap_cons, Writer.ops_of_none hbatch, List.nil_append]
        exact hlength
    | some b =>
      dsimp only
      by_cases hfull : maxSize < size + b.rep.length
      · rw [if_pos hfull]
        exact hstop
      rw [if_neg hfull]
      obtain ⟨⟨seqb, hb⟩, -, -⟩ := hbatches t List.mem_cons_self b hbatch
      have hresult :
          ∃ seq, (if g.isTmp then g.updates else s.tmpBatch.append batch).IsBatch seq os := by
        obtain ⟨seq, hg⟩ := hg
        cases hisTmp : g.isTmp with
        | true => exact ⟨seq, hg⟩
        | false =>
          obtain ⟨hupdates, hclear⟩ := htmp hisTmp
          rw [hupdates] at hg
          rw [hclear]
          exact ⟨0, WriteBatch.clear_isBatch.append hg⟩
      generalize (if g.isTmp then g.updates else s.tmpBatch.append batch) = result at hresult ⊢
      obtain ⟨seq, hresult⟩ := hresult
      have hsize' : (os ++ b.ops).length ≤ size + b.rep.length := by
        rw [List.length_append]
        exact Nat.add_le_add hsize hb.length_le
      obtain ⟨taken, rest, rfl, hlast, hall, hlength, hsyncs⟩ :=
        ih (g := { g with updates := result.append b, isTmp := true, lastWriter := t }) hbatches'
          ⟨seq, hresult.append hb⟩ hsize' fun h => by cases h
      refine ⟨t :: taken, rest, rfl, ?_, ?_, ?_, List.forall_mem_cons.2 ⟨hsync', hsyncs⟩⟩
      · rw [List.getLastD_cons]
        exact hlast
      · rw [List.flatMap_cons, Writer.ops_of_batch hbatch, ← List.append_assoc]
        exact hall
      · rw [List.flatMap_cons, Writer.ops_of_batch hbatch, ← List.append_assoc]
        omega

/-- The group that is built. -/
theorem buildBatchGroup_ok {batch : WriteBatch} (hnodup : s.writers.Nodup)
    (hbatches : ∀ t ∈ s.writers, ∀ b, (s.writer t).batch = some b → b.WellFormed)
    (htmp : s.tmpBatch = .clear) (hfront : s.writers.head? = some t)
    (hbatch : (s.writer t).batch = some batch)
    (hroom : s.lastSequence + 2 ^ 31 ≤ kMaxSequenceNumber) :
    (s.buildBatchGroup t batch).Ok s.writers s.writer s.lastSequence t := by
  obtain ⟨ts, hwriters⟩ : ∃ ts, s.writers = t :: ts := by
    cases hwriters : s.writers with
    | nil =>
      rw [hwriters] at hfront
      cases hfront
    | cons x ts =>
      rw [hwriters] at hfront
      cases hfront
      exact ⟨ts, rfl⟩
  have hmem : t ∈ s.writers := List.mem_of_mem_head? hfront
  obtain ⟨⟨seq, hb⟩, hfits, hcount⟩ := hbatches t hmem batch hbatch
  let maxSize := if batch.rep.length ≤ 128 * 2 ^ 10 then batch.rep.length + 128 * 2 ^ 10 else 2 ^ 20
  have hmax : maxSize ≤ 2 ^ 20 := by
    dsimp only [maxSize]
    split_ifs <;> omega
  obtain ⟨taken, rest, rfl, hlast, ⟨seq', hupdates⟩, hlength, hsync⟩ :=
    joinGroup_spec (s := s) (g := ⟨batch, false, t, 0⟩) (s.writer t) batch maxSize
      (fun t' ht' => hbatches t' (hwriters ▸ List.mem_cons_of_mem t ht')) ⟨seq, hb⟩ hb.length_le
      fun _ => ⟨rfl, htmp⟩
  have htail : s.writers.tail = taken ++ rest := by
    rw [hwriters]
    rfl
  have hbuild : s.buildBatchGroup t batch =
      let g := s.joinGroup (s.writer t) batch maxSize batch.rep.length ⟨batch, false, t, 0⟩
        (taken ++ rest)
      { g with
        updates := g.updates.setSequence (s.lastSequence + 1)
        lastSequence := (s.lastSequence + g.updates.count) % 2 ^ 64 } := by
    rw [buildBatchGroup, htail]
  dsimp only at hlast
  generalize s.joinGroup (s.writer t) batch maxSize batch.rep.length ⟨batch, false, t, 0⟩
    (taken ++ rest) = joined at hlast hupdates hbuild
  have hlast' : (s.buildBatchGroup t batch).lastWriter = taken.getLastD t := by rw [hbuild, ← hlast]
  have hmembers : (s.buildBatchGroup t batch).members s.writers = t :: taken := by
    rw [Group.members, hlast', hwriters, upTo_getLastD (hwriters ▸ hnodup)]
  have hops : (s.buildBatchGroup t batch).ops s.writers s.writer =
      batch.ops ++ taken.flatMap fun t => (s.writer t).ops := by
    rw [Group.ops, hmembers, List.flatMap_cons, Writer.ops_of_batch hbatch]
  have hlt : (batch.ops ++ taken.flatMap fun t => (s.writer t).ops).length < 2 ^ 31 := by
    omega
  refine ⟨hfront, ?last, ?updates, ?fits, hops ▸ hlt, ?number, hroom, ?sync⟩
  case last =>
    rw [hlast', hwriters, ← List.cons_append]
    exact List.mem_append_left _ List.getLastD_mem_cons
  case updates =>
    rw [hops, hbuild]
    exact hupdates.setSequence _
  case fits =>
    rw [hops]
    intro op hop
    rcases List.mem_append.1 hop with hop | hop
    · exact hfits op hop
    · obtain ⟨w, hw, hop⟩ := List.mem_flatMap.1 hop
      have hw' : w ∈ s.writers :=
        hwriters ▸ List.mem_cons_of_mem t (List.mem_append_left rest hw)
      cases hbatchw : (s.writer w).batch with
      | none =>
        rw [Writer.ops_of_none hbatchw] at hop
        cases hop
      | some b =>
        rw [Writer.ops_of_batch hbatchw] at hop
        exact (hbatches w hw' b hbatchw).fits op hop
  case number =>
    have hcount :
        joined.updates.count = (batch.ops ++ taken.flatMap fun t => (s.writer t).ops).length := by
      rw [hupdates.count, Nat.mod_eq_of_lt (by omega)]
    rw [kMaxSequenceNumber] at hroom
    rw [hops, hbuild]
    dsimp only
    rw [hcount, Nat.mod_eq_of_lt (by omega)]
  case sync =>
    rw [hmembers]
    exact List.forall_mem_cons.2 ⟨id, hsync⟩

/-! ## From the building to the leaving -/

/-- How far `InsertInto` has come. -/
def Inserting (s : DBImpl cmp) (g : Group) (input : Bytes) (sequence found : ℕ) : Prop :=
  ∃ ops₁ ops₂, g.ops s.writers s.writer = ops₁ ++ ops₂ ∧
    input = ops₂.flatMap WriteBatch.opBytes ∧ sequence = s.lastSequence + 1 + ops₁.length ∧
    found = ops₁.length

/-- What holds of the groups: a batch that waits is well formed, `tmp_batch_` is clear unless a
group has it, and what is inserted is the rest of the group's writes. -/
structure Grouped (s : DBImpl cmp) : Prop where
  batches : ∀ t ∈ s.writers, ∀ b, (s.writer t).batch = some b → b.WellFormed
  group : ∀ t g, (s.pc t).group = some g → g.Ok s.writers s.writer s.lastSequence t
  tmp : (∀ t g, (s.pc t).group = some g → g.isTmp = false) → s.tmpBatch = .clear
  inserting : ∀ t g input sequence found, s.pc t = .insert g input sequence found →
    s.Inserting g input sequence found

/-- Nobody leads a group. -/
def Quiet (s : DBImpl cmp) : Prop := ∀ t, (s.pc t).group = none

/-- With nobody at work only the batches and `tmp_batch_` matter. -/
theorem Quiet.grouped (h : s.Quiet)
    (hbatches : ∀ t ∈ s.writers, ∀ b, (s.writer t).batch = some b → b.WellFormed)
    (htmp : s.tmpBatch = .clear) : s.Grouped where
  batches := hbatches
  group := fun t g hg => by cases (h t).symm.trans hg
  tmp := fun _ => htmp
  inserting := fun t g input sequence found hpc => by
    have hnone := h t
    rw [hpc] at hnone
    cases hnone

/-- With nobody at work `tmp_batch_` is clear. -/
theorem Quiet.tmp (h : s.Quiet) (hgrouped : s.Grouped) : s.tmpBatch = .clear :=
  hgrouped.tmp fun t _ hg => by cases (h t).symm.trans hg

/-- Only the front leads a group. -/
theorem Grouped.quiet_others (h : s.Grouped) (hfront : s.writers.head? = some t) {x : ℕ}
    (hx : x ≠ t) : (s.pc x).group = none := by
  cases hg : (s.pc x).group with
  | none => rfl
  | some g => exact absurd (Option.some.inj ((h.group x g hg).front.symm.trans hfront)) hx

/-- If the front leads no group, nobody does. -/
theorem Grouped.quiet (h : s.Grouped) (hfront : s.writers.head? = some t)
    (ht : (s.pc t).group = none) : s.Quiet := by
  intro x
  rcases eq_or_ne x t with rfl | hx
  · exact ht
  · exact h.quiet_others hfront hx

/-- A call that goes where it leads no group. -/
theorem Quiet.goto {pc : Pc} (h : s.Quiet) (hpc : pc.group = none) : (s.goto t pc).Quiet := by
  intro x
  rw [DBImpl.goto]
  dsimp only
  rcases eq_or_ne x t with rfl | hx
  · rw [Function.update_self, hpc]
  · rw [Function.update_of_ne hx]
    exact h x

/-- A call that leads no group goes on without one. -/
theorem Grouped.goto_plain {pc : Pc} (h : s.Grouped) (ht : (s.pc t).group = none)
    (hpc : pc.group = none) : (s.goto t pc).Grouped := by
  have hold {x : ℕ} {g : Group} (hg : (Function.update s.pc t pc x).group = some g) :
      (s.pc x).group = some g := by
    rcases eq_or_ne x t with rfl | hx
    · rw [Function.update_self, hpc] at hg
      cases hg
    · rwa [Function.update_of_ne hx] at hg
  have hnew {x : ℕ} {g : Group} (hg : (s.pc x).group = some g) :
      (Function.update s.pc t pc x).group = some g := by
    rcases eq_or_ne x t with rfl | hx
    · rw [ht] at hg
      cases hg
    · rwa [Function.update_of_ne hx]
  refine ⟨h.batches, fun x g hg => h.group x g (hold hg), fun htmp => h.tmp fun x g hg =>
    htmp x g (hnew hg), fun x g input sequence found hinsert => ?_⟩
  rw [DBImpl.goto] at hinsert
  dsimp only at hinsert
  rcases eq_or_ne x t with rfl | hx
  · rw [Function.update_self] at hinsert
    rw [hinsert] at hpc
    cases hpc
  · rw [Function.update_of_ne hx] at hinsert
    exact h.inserting x g input sequence found hinsert

/-- The leader of a group goes on with it. -/
theorem Grouped.goto_group {pc : Pc} (h : s.Grouped) (ht : (s.pc t).group = some g)
    (hpc : pc.group = some g) (hinserting : ∀ input sequence found,
      pc = .insert g input sequence found → s.Inserting g input sequence found) :
    (s.goto t pc).Grouped := by
  have hsame (x : ℕ) : (Function.update s.pc t pc x).group = (s.pc x).group := by
    rcases eq_or_ne x t with rfl | hx
    · rw [Function.update_self, hpc, ht]
    · rw [Function.update_of_ne hx]
  refine ⟨h.batches, fun x g hg => h.group x g ((hsame x).symm.trans hg),
    fun htmp => h.tmp fun x g hg => htmp x g ((hsame x).trans hg),
    fun x g' input sequence found hinsert => ?_⟩
  rw [DBImpl.goto] at hinsert
  dsimp only at hinsert
  rcases eq_or_ne x t with rfl | hx
  · rw [Function.update_self] at hinsert
    subst hinsert
    cases hpc
    exact hinserting input sequence found rfl
  · rw [Function.update_of_ne hx] at hinsert
    exact h.inserting x g' input sequence found hinsert

/-- Nobody leads a group after one has left. -/
theorem leave_quiet {last first : ℕ} {status : Status}
    (hothers : ∀ x, x ≠ t → (s.pc x).group = none) : (s.leave t last first status).Quiet := by
  intro x
  rw [leave_eq]
  dsimp only
  rcases eq_or_ne x t with rfl | hx
  · rw [if_pos rfl]
    rfl
  · rw [if_neg hx]
    split_ifs
    · rw [Pc.group_signaled]
      exact hothers x hx
    · exact hothers x hx

/-- Leaving the queue does not touch the batches. -/
theorem leave_batch {leader last first : ℕ} {status : Status} (x : ℕ) :
    ((s.leave leader last first status).writer x).batch = (s.writer x).batch := by
  rw [leave_eq]
  dsimp only
  split_ifs <;> rfl

/-- Nobody comes into the queue when a group leaves. -/
theorem leave_writers_subset {leader last first : ℕ} {status : Status} :
    (s.leave leader last first status).writers ⊆ s.writers := by
  rw [leave_eq]
  exact List.drop_subset _ _

/-- A group leaves the queue. -/
theorem leave_grouped {last first : ℕ} {status : Status}
    (hbatches : ∀ t ∈ s.writers, ∀ b, (s.writer t).batch = some b → b.WellFormed)
    (hothers : ∀ x, x ≠ t → (s.pc x).group = none) (htmp : s.tmpBatch = .clear) :
    (s.leave t last first status).Grouped := by
  refine (leave_quiet hothers).grouped (fun x hx b hb => ?_) ?_
  · rw [leave_batch] at hb
    exact hbatches x (leave_writers_subset hx) b hb
  · rw [leave_eq]
    exact htmp

variable {env : DbEnv cmp} {newFile : Except Status (Option ℕ)} {force allowDelay : Bool}

/-- A new table does not change the groups. -/
theorem Grouped.roomy {s₁ : DBImpl cmp} (h : s.Grouped) (hroomy : s.Roomy s₁) : s₁.Grouped := by
  rcases hroomy with rfl | ⟨-, room, rfl⟩
  · exact h
  · exact ⟨h.batches, h.group, h.tmp, h.inserting⟩

/-- A new table does not put anybody to work. -/
theorem Quiet.roomy {s₁ : DBImpl cmp} (h : s.Quiet) (hroomy : s.Roomy s₁) : s₁.Quiet := by
  rcases hroomy with rfl | ⟨-, room, rfl⟩ <;> exact h

/-- The front builds a group, waits for room or leaves. -/
theorem Grouped.lead (h : s.Grouped) (hquiet : s.Quiet) (hnodup : s.writers.Nodup)
    (hfront : s.writers.head? = some t) (hroom : s.lastSequence + 2 ^ 31 ≤ kMaxSequenceNumber) :
    (s.lead env newFile force allowDelay t).Grouped := by
  obtain ⟨s₁, hs₁, hlead⟩ := lead_cases env newFile force allowDelay t s
  have h₁ := h.roomy hs₁
  have hquiet₁ := hquiet.roomy hs₁
  have htmp₁ := hquiet₁.tmp h₁
  rcases hlead with ⟨force', allowDelay', -, hlead⟩ | ⟨batch, hbatch, -, hlead⟩ | ⟨status, -, hlead⟩
  · rw [hlead]
    exact h₁.goto_plain (hquiet₁ t) rfl
  · have hok : (s₁.buildBatchGroup t batch).Ok s₁.writers s₁.writer s₁.lastSequence t := by
      rcases hs₁ with rfl | ⟨-, room, rfl⟩
      · exact buildBatchGroup_ok hnodup h₁.batches htmp₁ hfront hbatch hroom
      · exact buildBatchGroup_ok hnodup h₁.batches htmp₁ hfront hbatch hroom
    rw [hlead]
    generalize s₁.buildBatchGroup t batch = g at hok
    have hself : (Function.update s₁.pc t (.log g) t).group = some g := by
      rw [Function.update_self]
      rfl
    refine ⟨h₁.batches, fun x g' hg => ?_, fun htmp => ?_, fun x g' input sequence found hpc => ?_⟩ <;>
      dsimp only [DBImpl.goto] at *
    · rcases eq_or_ne x t with rfl | hx
      · cases hself.symm.trans hg
        exact hok
      · rw [Function.update_of_ne hx, hquiet₁ x] at hg
        cases hg
    · rw [htmp t g hself]
      exact htmp₁
    · rcases eq_or_ne x t with rfl | hx
      · rw [Function.update_self] at hpc
        cases hpc
      · rw [Function.update_of_ne hx] at hpc
        exact h₁.inserting x g' input sequence found hpc
  · rw [hlead]
    exact leave_grouped h₁.batches (fun x _ => hquiet₁ x) htmp₁

/-! ## Steps -/

/-- What callers promise: their batches are well formed, and the sequence numbers are not used
up. -/
def Promised (s : DBImpl cmp) (e : Event) : Prop :=
  s.lastSequence + 2 ^ 31 ≤ kMaxSequenceNumber ∧
    ∀ t b sync newFile, e = .enter t (some b) sync newFile → b.WellFormed

/-- Who comes later does not leave with the group. -/
theorem upTo_append_of_mem {last : ℕ} {ts : List ℕ} (h : last ∈ ts) (us : List ℕ) :
    upTo last (ts ++ us) = upTo last ts := by
  induction ts with
  | nil => cases h
  | cons t ts ih =>
    rw [List.cons_append, upTo, upTo]
    split_ifs with ht
    · rfl
    · rw [ih ((List.mem_cons.1 h).resolve_left fun heq => ht heq.symm)]

/-- Who leaves was in the queue. -/
theorem upTo_subset (last : ℕ) (ts : List ℕ) : upTo last ts ⊆ ts := by
  have happend := upTo_append last ts
  exact fun x hx => happend ▸ List.mem_append_left _ hx

/-- Another call comes behind a group. -/
theorem ok_push {writers : List ℕ} {writer : ℕ → Writer}
    {lastSequence x : ℕ} (h : g.Ok writers writer lastSequence x) (ht : t ∉ writers) (w : Writer) :
    g.members (writers ++ [t]) = g.members writers ∧
      g.ops (writers ++ [t]) (Function.update writer t w) = g.ops writers writer ∧
      g.Ok (writers ++ [t]) (Function.update writer t w) lastSequence x := by
  have hwriter {y : ℕ} (hy : y ∈ writers) : Function.update writer t w y = writer y :=
    Function.update_of_ne (fun heq : y = t => ht (heq ▸ hy)) _ _
  have hmembers : g.members (writers ++ [t]) = g.members writers := upTo_append_of_mem h.last [t]
  have hops : g.ops (writers ++ [t]) (Function.update writer t w) = g.ops writers writer := by
    rw [Group.ops, Group.ops, hmembers]
    exact List.flatMap_congr fun y hy => by rw [hwriter (upTo_subset _ _ hy)]
  have hx : x ∈ writers := List.mem_of_mem_head? h.front
  refine ⟨hmembers, hops, ?_, List.mem_append_left _ h.last, ?_, ?_, ?_, ?_, h.room, ?_⟩
  · rw [List.head?_append, h.front]
    rfl
  · rw [hops]
    exact h.batch
  · rw [hops]
    exact h.fits
  · rw [hops]
    exact h.count
  · rw [hops]
    exact h.number
  · rw [hmembers, hwriter hx]
    intro y hy
    rw [hwriter (upTo_subset _ _ hy)]
    exact h.sync y hy

/-- A call comes into the queue. -/
theorem Grouped.arrive (h : s.Grouped) (hnot : t ∉ s.writers) {batch : Option WriteBatch}
    (hbatch : ∀ b, batch = some b → b.WellFormed) (sync : Bool) :
    (s.arrive t batch sync).Grouped := by
  let w : Writer := ⟨batch, sync, .ok, false⟩
  refine ⟨fun x hx b hb => ?_, fun x g hg => (ok_push (h.group x g hg) hnot w).2.2, h.tmp,
    fun x g input sequence found hinsert => ?_⟩
  · dsimp only [DBImpl.arrive] at hx hb
    rcases List.mem_append.1 hx with hx | hx
    · have hne : x ≠ t := fun heq => hnot (heq ▸ hx)
      rw [Function.update_of_ne hne] at hb
      exact h.batches x hx b hb
    · rw [List.mem_singleton.1 hx, Function.update_self] at hb
      exact hbatch b hb
  · have hg : (s.pc x).group = some g := by
      have hpcx : s.pc x = .insert g input sequence found := hinsert
      rw [hpcx]
      rfl
    obtain ⟨ops₁, ops₂, hops, hrest⟩ := h.inserting x g input sequence found hinsert
    exact ⟨ops₁, ops₂, (ok_push (h.group x g hg) hnot w).2.1.trans hops, hrest⟩

/-- With the queue empty nobody is at work. -/
theorem Grouped.arrive_quiet (h : s.Grouped) (hempty : s.writers = []) (batch : Option WriteBatch)
    (sync : Bool) : (s.arrive t batch sync).Quiet := by
  intro x
  change (s.pc x).group = none
  cases hg : (s.pc x).group with
  | none => rfl
  | some g =>
    have hx := (h.group x g hg).front
    rw [hempty] at hx
    cases hx

/-- A call comes, and leads if the queue was empty. -/
theorem Grouped.enter (h : s.Grouped) (hinv : s.queue.Inv) (hpc : s.pc t = .idle)
    {batch : Option WriteBatch} (hbatch : ∀ b, batch = some b → b.WellFormed) (sync : Bool)
    (hroom : s.lastSequence + 2 ^ 31 ≤ kMaxSequenceNumber) :
    (s.enter env newFile t batch sync).Grouped := by
  have h₁ := h.arrive (idle_not_mem hinv hpc) hbatch sync
  rw [DBImpl.enter]
  split_ifs with hfront
  · have hempty := arrive_front hinv hpc hfront
    have hnodup : (s.arrive t batch sync).writers.Nodup := by
      change (s.writers ++ [t]).Nodup
      rw [hempty]
      exact List.nodup_singleton t
    exact h₁.lead (h.arrive_quiet hempty batch sync) hnodup hfront hroom
  · refine h₁.goto_plain ?_ rfl
    change (s.pc t).group = none
    rw [hpc]
    rfl

/-- The first entry is the next one to go into the table. -/
theorem Grouped.start (h : s.Grouped) (hg : (s.pc t).group = some g) :
    s.Inserting g (g.updates.rep.drop kHeader) g.updates.sequence 0 := by
  have hok := h.group t g hg
  exact ⟨[], _, rfl, hok.batch.body, hok.sequence, rfl⟩

/-- The group that was at work leaves. -/
theorem Grouped.finishWrite (h : s.Grouped) {status : Status} {syncError : Bool}
    (hpc : s.pc t = .finish g status syncError) :
    (s.finishWrite t g status syncError).Grouped := by
  have hg : (s.pc t).group = some g := by
    rw [hpc]
    rfl
  have hfront := (h.group t g hg).front
  have hothers (x : ℕ) (hx : x ≠ t) : (s.pc x).group = none := h.quiet_others hfront hx
  have htmp : (if g.isTmp then WriteBatch.clear else s.tmpBatch) = .clear := by
    split_ifs with hisTmp
    · rfl
    · refine h.tmp fun x g' hg' => ?_
      rcases eq_or_ne x t with rfl | hx
      · cases hg.symm.trans hg'
        exact Bool.eq_false_iff.2 hisTmp
      · rw [hothers x hx] at hg'
        cases hg'
  rw [finishWrite_eq]
  exact leave_grouped h.batches hothers htmp

variable [Std.TransCmp cmp]

/-- One write of the group goes into the table. -/
theorem Grouped.insertOne (h : s.Grouped) {input : Bytes} {sequence found : ℕ}
    (hpc : s.pc t = .insert g input sequence found) :
    (s.insertOne t g input sequence found).Grouped := by
  have hg : (s.pc t).group = some g := by
    rw [hpc]
    rfl
  have hok := h.group t g hg
  obtain ⟨ops₁, ops₂, hops, hinput, hsequence, hfound⟩ := h.inserting t g input sequence found hpc
  have hfinish (status : Status) : (s.goto t (.finish g status false)).Grouped :=
    h.goto_group hg rfl fun input sequence found heq => by cases heq
  rw [DBImpl.insertOne]
  by_cases hnil : input = []
  · rw [if_pos hnil]
    exact hfinish _
  · rw [if_neg hnil]
    cases ops₂ with
    | nil => exact absurd hinput hnil
    | cons op ops₂ =>
      have hread : WriteBatch.readOp input = .ok (op, ops₂.flatMap WriteBatch.opBytes) := by
        rw [hinput, List.flatMap_cons]
        refine WriteBatch.readOp_opBytes (hok.fits op ?_) _
        rw [hops]
        exact List.mem_append_right _ List.mem_cons_self
      have hgoto : (s.goto t (.insert g (ops₂.flatMap WriteBatch.opBytes)
          ((sequence + 1) % 2 ^ 64) (found + 1))).Grouped := by
        refine h.goto_group hg rfl fun input' sequence' found' heq => ?_
        cases heq
        have hroom := hok.room
        have hcount := hok.count
        rw [kMaxSequenceNumber] at hroom
        rw [hops, List.length_append, List.length_cons] at hcount
        refine ⟨ops₁ ++ [op], ops₂, hops.trans (List.append_cons _ _ _), rfl, ?_, ?_⟩
        · rw [hsequence, Nat.mod_eq_of_lt (by omega), List.length_append]
          rfl
        · rw [hfound, List.length_append]
          rfl
      rw [hread]
      exact ⟨hgoto.batches, hgoto.group, hgoto.tmp, hgoto.inserting⟩

/-- Every step keeps what holds of the groups. -/
theorem grouped_step {e : Event} (h : s.Grouped) (hinv : s.queue.Inv) (hpromised : s.Promised e)
    (hstep : s.step env e = some s') : s'.Grouped := by
  cases stepped hstep with
  | @enter t batch sync newFile hpc =>
    exact h.enter hinv hpc (fun b hb => hpromised.2 t b sync newFile (hb ▸ rfl)) sync hpromised.1
  | @wake t newFile signaled hpc =>
    have hnone : (s.pc t).group = none := by
      rw [hpc]
      rfl
    rw [DBImpl.wake]
    split_ifs with hdone hfront
    · exact h.goto_plain hnone rfl
    · exact h.lead (h.quiet hfront hnone) hinv.queue_nodup hfront hpromised.1
    · exact h.goto_plain hnone rfl
  | @resume t newFile force allowDelay hpc =>
    have hnone : (s.pc t).group = none := by
      rw [hpc]
      rfl
    have hfront : s.writers.head? = some t := hinv.leading t (role_queue hpc)
    exact h.lead (h.quiet hfront hnone) hinv.queue_nodup hfront hpromised.1
  | @addRecord t g error hpc herror =>
    have hg : (s.pc t).group = some g := by
      rw [hpc]
      rfl
    have hstart := h.start hg
    rw [DBImpl.addRecord]
    dsimp only
    have h₁ : Grouped { s with logfile := s.logfile.add g.updates } :=
      ⟨h.batches, h.group, h.tmp, h.inserting⟩
    split_ifs
    · exact h₁.goto_group hg rfl fun input sequence found heq => by cases heq
    · refine h₁.goto_group hg rfl fun input sequence found heq => ?_
      cases heq
      exact hstart
    · exact h₁.goto_group hg rfl fun input sequence found heq => by cases heq
  | @sync t g status hpc =>
    have hg : (s.pc t).group = some g := by
      rw [hpc]
      rfl
    have hstart := h.start hg
    rw [DBImpl.syncLog]
    split_ifs
    · have hgoto : (s.goto t (.insert g (g.updates.rep.drop kHeader) g.updates.sequence 0)).Grouped :=
        h.goto_group hg rfl fun input sequence found heq => by
          cases heq
          exact hstart
      exact ⟨hgoto.batches, hgoto.group, hgoto.tmp, hgoto.inserting⟩
    · exact h.goto_group hg rfl fun input sequence found heq => by cases heq
  | insert hpc => exact h.insertOne hpc
  | finish hpc => exact h.finishWrite hpc
  | compactMemTable himm =>
    rw [DBImpl.compactMemTable, recordBackgroundError_eq]
    split_ifs <;> exact ⟨h.batches, h.group, h.tmp, h.inserting⟩
  | background =>
    rw [recordBackgroundError_eq]
    split_ifs <;> exact ⟨h.batches, h.group, h.tmp, h.inserting⟩
  | space => exact ⟨h.batches, h.group, h.tmp, h.inserting⟩

end DBImpl

end TelecomSuite.LevelDb
