import Mathlib.Data.Finset.Card
import TelecomSuite.Lib.Ring
import TelecomSuite.Lib.Transition

/-!
# The queue

`Comm::CQueue<T>`, which holds the converter's sessions: a circular table of pointers under a lock,
and a semaphore that counts what can be taken out. A pointer in the table is `none` or the data it
points to; with a `QUEUE_IDLECOUNT` of 0, `Alloc` is `new` and `Dealloc` is `delete`.

`PutHead` moves the head before it looks at the slot there, so a slot that is not empty would
leave the queue broken. No sequence of calls gets there: one call at a time, the queue is a list
that is bounded by its size (`cqueue_refines_list`). Between the wait for the semaphore and the
lock of a `TryGet` other threads can do anything, also `Clear`, which takes out no more than the
semaphore counts; an element stays for each thread in between (`cqueue_conserves`).
-/

namespace TelecomSuite.Convert

open Transition

/-- `CSemaphore`: its count and the largest count. -/
structure CSemaphore where
  count : Nat
  maxsps : Nat

/-- `ReleaseSemaphore` by one; beyond the largest count it fails and changes nothing. -/
def CSemaphore.post (m : CSemaphore) : CSemaphore :=
  if m.count < m.maxsps then { m with count := m.count + 1 } else m

/-- `Wait` without waiting: whether it succeeds. -/
def CSemaphore.wait (m : CSemaphore) : Option CSemaphore :=
  match m.count with
  | 0 => none
  | n + 1 => some { m with count := n }

/-- `CQueue`: the slots of the ring and its semaphore. -/
structure CQueue (T : Type) where
  m_MinLock : CSemaphore
  m_MaxQueueSize : Nat
  m_Head : Nat
  m_Tail : Nat
  m_Count : Nat
  m_Table : Nat → Option T

namespace CQueue

section
variable {T : Type}

/-- The constructor. -/
def new (T : Type) (size : Nat) : CQueue T where
  m_MinLock := ⟨0, size⟩
  m_MaxQueueSize := size
  m_Head := 0
  m_Tail := 0
  m_Count := 0
  m_Table := fun _ => none

/-- `Peek`: the data, if the result is true. -/
def peek (q : CQueue T) : Option T := q.m_Table q.m_Head

/-- `Put`: the datum goes to the tail, if there is room. -/
def put (q : CQueue T) (data : T) : Bool × CQueue T :=
  if q.m_Count ≥ q.m_MaxQueueSize then (false, q)
  else if (q.m_Table q.m_Tail).isSome then (false, q)
  else (true, { q with
    m_Table := Function.update q.m_Table q.m_Tail (some data)
    m_Tail := (q.m_Tail + 1) % q.m_MaxQueueSize
    m_Count := q.m_Count + 1
    m_MinLock := q.m_MinLock.post })

/-- `TryPut` does the same. -/
def tryPut (q : CQueue T) (data : T) : Bool × CQueue T := q.put data

/-- `PutHead`: the datum goes before the head. -/
def putHead (q : CQueue T) (data : T) : Bool × CQueue T :=
  if q.m_Count ≥ q.m_MaxQueueSize then (false, q)
  else
    let q := { q with m_Head := if q.m_Head = 0 then q.m_MaxQueueSize - 1 else q.m_Head - 1 }
    if (q.m_Table q.m_Head).isSome then (false, q)
    else (true, { q with
      m_Table := Function.update q.m_Table q.m_Head (some data)
      m_Count := q.m_Count + 1
      m_MinLock := q.m_MinLock.post })

/-- The part of `TryGet` under the lock: the data, if the result is true. -/
def takeOut (q : CQueue T) : Option T × CQueue T :=
  match q.m_Table q.m_Head with
  | none => (none, q)
  | some data => (some data, { q with
      m_Table := Function.update q.m_Table q.m_Head none
      m_Head := (q.m_Head + 1) % q.m_MaxQueueSize
      m_Count := q.m_Count - 1 })

/-- `TryGet` with a `waittime` of 0. -/
def tryGet (q : CQueue T) : Option T × CQueue T :=
  match q.m_MinLock.wait with
  | none => (none, q)
  | some m => { q with m_MinLock := m }.takeOut

/-- `GetCount`. -/
def getCount (q : CQueue T) : Nat := q.m_Count

/-- Taking out leaves the semaphore alone. -/
theorem takeOut_m_MinLock (q : CQueue T) : q.takeOut.2.m_MinLock = q.m_MinLock := by
  unfold takeOut
  split <;> rfl

/-- A `TryGet` that returns true uses one count of the semaphore. -/
theorem tryGet_count {q q' : CQueue T} {data : T} (h : q.tryGet = (some data, q')) :
    q'.m_MinLock.count < q.m_MinLock.count := by
  unfold tryGet CSemaphore.wait at h
  split at h
  · cases h
  · next m hm =>
    split at hm
    · cases hm
    · next n hn =>
      cases hm
      have hlock := congrArg (fun r => r.2.m_MinLock) h
      rw [takeOut_m_MinLock] at hlock
      rw [← hlock, hn]
      exact Nat.lt_succ_self n

/-- The loop of `Clear`, with all the data it takes out; the source keeps the last. -/
def clearLoop (q : CQueue T) : List T × CQueue T :=
  match _h : q.tryGet with
  | (none, q') => ([], q')
  | (some data, q') => (data :: q'.clearLoop.1, q'.clearLoop.2)
termination_by q.m_MinLock.count
decreasing_by all_goals exact tryGet_count _h

/-- The assertions at the end of `Clear`. -/
def Cleared (q : CQueue T) : Prop := q.m_Count = 0 ∧ q.m_Head = q.m_Tail

/-- `Clear`, which returns 0. -/
def clear (q : CQueue T) : Bool × CQueue T := (false, q.clearLoop.2)

/-! ## What the table holds -/

/-- The queue holds the list, and the semaphore counts all of it but `passed` elements. -/
structure Rep (q : CQueue T) (l : List T) (passed : Nat) : Prop where
  layout : Ring.Layout q.m_MaxQueueSize q.m_Table q.m_Head l
  tail : q.m_Tail = (q.m_Head + l.length) % q.m_MaxQueueSize
  count : q.m_Count = l.length
  sem : q.m_MinLock.count + passed = l.length
  maxsps : q.m_MinLock.maxsps = q.m_MaxQueueSize

/-- A new queue holds the empty list. -/
theorem rep_new {size : Nat} (h : 0 < size) : (new T size).Rep [] 0 where
  layout := Ring.layout_empty h fun _ => rfl
  tail := (Nat.zero_mod size).symm
  count := rfl
  sem := rfl
  maxsps := rfl

section
variable {q : CQueue T} {l : List T} {passed : Nat}

/-- A queue that is not full can count one more. -/
theorem Rep.post (h : q.Rep l passed) (hlt : l.length < q.m_MaxQueueSize) :
    q.m_MinLock.post = { q.m_MinLock with count := q.m_MinLock.count + 1 } := by
  have hsem := h.sem
  rw [CSemaphore.post, if_pos]
  rw [h.maxsps]
  omega

/-- `Put` appends to a list that is not full. -/
theorem Rep.put (h : q.Rep l passed) (data : T) :
    (q.put data).1 = decide (l.length < q.m_MaxQueueSize) ∧
      (q.put data).2.Rep (if l.length < q.m_MaxQueueSize then l ++ [data] else l) passed ∧
      (q.put data).2.m_MaxQueueSize = q.m_MaxQueueSize := by
  rw [CQueue.put, h.count]
  by_cases hlt : l.length < q.m_MaxQueueSize
  · have hslot := h.layout.slot_behind hlt
    rw [if_neg (by omega), h.tail, hslot, if_neg (by simp), if_pos hlt]
    refine ⟨(decide_eq_true hlt).symm, ?_, rfl⟩
    exact
      { layout := h.layout.append hlt data
        tail := by
          rw [List.length_append, Nat.mod_add_mod]
          rfl
        count := by rw [List.length_append, List.length_singleton]
        sem := by
          have hsem := h.sem
          rw [List.length_append, List.length_singleton, h.post hlt]
          dsimp only
          omega
        maxsps := by rw [h.post hlt, h.maxsps] }
  · rw [if_pos (by omega), if_neg hlt]
    exact ⟨(decide_eq_false hlt).symm, h, rfl⟩

/-- `PutHead` puts in front of it. -/
theorem Rep.putHead (h : q.Rep l passed) (data : T) :
    (q.putHead data).1 = decide (l.length < q.m_MaxQueueSize) ∧
      (q.putHead data).2.Rep (if l.length < q.m_MaxQueueSize then data :: l else l) passed ∧
      (q.putHead data).2.m_MaxQueueSize = q.m_MaxQueueSize := by
  rw [CQueue.putHead, h.count]
  by_cases hlt : l.length < q.m_MaxQueueSize
  · have hslot := h.layout.slot_before hlt
    rw [Ring.pred] at hslot
    rw [if_neg (by omega)]
    dsimp only
    rw [hslot, if_neg (by simp), if_pos hlt]
    refine ⟨(decide_eq_true hlt).symm, ?_, rfl⟩
    exact
      { layout := h.layout.cons hlt data
        tail := by
          rw [List.length_cons]
          exact h.tail.trans (Ring.pred_add_succ_mod h.layout.head_lt _).symm
        count := (List.length_cons).symm
        sem := by
          have hsem := h.sem
          rw [List.length_cons, h.post hlt]
          dsimp only
          omega
        maxsps := by rw [h.post hlt, h.maxsps] }
  · rw [if_pos (by omega), if_neg hlt]
    exact ⟨(decide_eq_false hlt).symm, h, rfl⟩

/-- `Peek` shows the first element. -/
theorem Rep.peek (h : q.Rep l passed) : q.peek = l.head? := h.layout.slot_head

/-- A thread that has passed the wait takes out the first element. -/
theorem Rep.takeOut (h : q.Rep l (passed + 1)) : ∃ data l', l = data :: l' ∧
    q.takeOut.1 = some data ∧ q.takeOut.2.Rep l' passed ∧
      q.takeOut.2.m_MaxQueueSize = q.m_MaxQueueSize := by
  cases l with
  | nil =>
    have hsem := h.sem
    rw [List.length_nil] at hsem
    omega
  | cons data l' =>
    have hslot : q.m_Table q.m_Head = some data := h.layout.slot_head
    refine ⟨data, l', rfl, ?_⟩
    rw [CQueue.takeOut, hslot]
    refine ⟨rfl, ?_, rfl⟩
    exact
      { layout := h.layout.tail
        tail := by
          rw [h.tail, Nat.mod_add_mod, List.length_cons, Nat.add_right_comm, Nat.add_assoc]
        count := by rw [h.count, List.length_cons, Nat.add_sub_cancel]
        sem := by
          have hsem := h.sem
          rw [List.length_cons] at hsem
          dsimp only
          omega
        maxsps := h.maxsps }

/-- A wait that succeeds. -/
theorem Rep.wait (h : q.Rep l passed) {m : CSemaphore} (hw : q.m_MinLock.wait = some m) :
    { q with m_MinLock := m }.Rep l (passed + 1) := by
  unfold CSemaphore.wait at hw
  split at hw
  · cases hw
  · next n hn =>
    cases hw
    have hsem := h.sem
    exact
      { layout := h.layout
        tail := h.tail
        count := h.count
        sem := by
          dsimp only
          omega
        maxsps := h.maxsps }

/-- A wait blocks while the count is zero. -/
theorem wait_eq_none {m : CSemaphore} : m.wait = none ↔ m.count = 0 := by
  unfold CSemaphore.wait
  split <;> simp [*]

/-- `TryGet` takes the first element. -/
theorem Rep.tryGet (h : q.Rep l 0) :
    q.tryGet.1 = l.head? ∧ q.tryGet.2.Rep l.tail 0 ∧
      q.tryGet.2.m_MaxQueueSize = q.m_MaxQueueSize := by
  unfold CQueue.tryGet
  have hsem := h.sem
  cases hw : q.m_MinLock.wait with
  | none =>
    rw [wait_eq_none] at hw
    obtain rfl : l = [] := List.eq_nil_of_length_eq_zero (by omega)
    exact ⟨rfl, h, rfl⟩
  | some m =>
    obtain ⟨data, l', rfl, hdata, hrep, hsize⟩ := (h.wait hw).takeOut
    exact ⟨hdata, hrep, hsize⟩

/-- `Clear` takes out what the semaphore counts. -/
theorem Rep.clearLoop (h : q.Rep l passed) :
    q.clearLoop.1 = l.take q.m_MinLock.count ∧
      q.clearLoop.2.Rep (l.drop q.m_MinLock.count) passed ∧
      q.clearLoop.2.m_MinLock.count = 0 ∧ q.clearLoop.2.m_MaxQueueSize = q.m_MaxQueueSize := by
  generalize hn : q.m_MinLock.count = n
  induction n generalizing q l with
  | zero =>
    have hget : q.tryGet = (none, q) := by
      rw [CQueue.tryGet, wait_eq_none.2 hn]
    rw [CQueue.clearLoop]
    split
    · next q' heq =>
      obtain rfl : q = q' := (Prod.mk.inj (hget.symm.trans heq)).2
      exact ⟨rfl, h, hn, rfl⟩
    · next heq =>
      rw [hget] at heq
      cases heq
  | succ n ih =>
    have hw : q.m_MinLock.wait = some { q.m_MinLock with count := n } := by
      rw [CSemaphore.wait, hn]
    obtain ⟨data, l', rfl, hdata, hrep, hsize⟩ := (h.wait hw).takeOut
    have hget : q.tryGet =
        CQueue.takeOut { q with m_MinLock := { q.m_MinLock with count := n } } := by
      rw [CQueue.tryGet, hw]
    rw [CQueue.clearLoop]
    split
    · next heq =>
      rw [← hget, heq] at hdata
      cases hdata
    · next data' q' heq =>
      have hlock : q'.m_MinLock = { q.m_MinLock with count := n } := by
        have htake := takeOut_m_MinLock { q with m_MinLock := { q.m_MinLock with count := n } }
        rwa [← hget, heq] at htake
      rw [← hget, heq] at hdata hrep hsize
      obtain rfl : data' = data := Option.some.inj hdata
      obtain ⟨h₁, h₂, h₃, h₄⟩ := ih hrep (congrArg CSemaphore.count hlock)
      rw [h₁]
      exact ⟨rfl, h₂, h₃, h₄.trans hsize⟩

end

/-! ## One call at a time -/

/-- The calls of the interface, `TryGet` with a `waittime` of 0. -/
inductive Call (T : Type)
  | put (data : T)
  | tryPut (data : T)
  | putHead (data : T)
  | tryGet
  | peek
  | getCount
  | clear

/-- What a call gives back: a result, the data if the result is true, or a number. -/
inductive Answer (T : Type)
  | result (ok : Bool)
  | data (d : Option T)
  | count (n : Nat)
  deriving DecidableEq

/-- What a call answers, and the queue then. -/
def call (q : CQueue T) : Call T → Answer T × CQueue T
  | .put data => (.result (q.put data).1, (q.put data).2)
  | .tryPut data => (.result (q.tryPut data).1, (q.tryPut data).2)
  | .putHead data => (.result (q.putHead data).1, (q.putHead data).2)
  | .tryGet => (.data q.tryGet.1, q.tryGet.2)
  | .peek => (.data q.peek, q)
  | .getCount => (.count q.getCount, q)
  | .clear => (.result q.clear.1, q.clear.2)

/-- The calls on a list that is bounded by `n`. -/
def onList (n : Nat) (l : List T) : Call T → Answer T × List T
  | .put data | .tryPut data =>
    if l.length = n then (.result false, l) else (.result true, l ++ [data])
  | .putHead data => if l.length = n then (.result false, l) else (.result true, data :: l)
  | .tryGet => (.data l.head?, l.tail)
  | .peek => (.data l.head?, l)
  | .getCount => (.count l.length, l)
  | .clear => (.result false, [])

/-- The tests of slots inside a call succeed, those in the loop of `Clear` included, and so do the
assertions of `Clear`. -/
def Sound (q : CQueue T) : Call T → Prop
  | .put _ | .tryPut _ => q.m_Count < q.m_MaxQueueSize → q.m_Table q.m_Tail = none
  | .putHead _ => q.m_Count < q.m_MaxQueueSize →
      q.m_Table (if q.m_Head = 0 then q.m_MaxQueueSize - 1 else q.m_Head - 1) = none
  | .tryGet => q.m_MinLock.count ≠ 0 → (q.m_Table q.m_Head).isSome
  | .peek | .getCount => True
  | .clear => q.clearLoop.1.length = q.m_MinLock.count ∧ q.clearLoop.2.Cleared

section
variable {q : CQueue T} {l : List T}

/-- An empty queue passes the assertions of `Clear`. -/
theorem Rep.cleared {passed : Nat} (h : q.Rep [] passed) : q.Cleared := by
  refine ⟨h.count, ?_⟩
  rw [h.tail, List.length_nil, Nat.add_zero, Nat.mod_eq_of_lt h.layout.head_lt]

/-- With no thread between its wait and its lock, `Clear` leaves nothing. -/
theorem Rep.clearLoop_all (h : q.Rep l 0) :
    q.clearLoop.1 = l ∧ q.clearLoop.2.Rep [] 0 ∧
      q.clearLoop.2.m_MaxQueueSize = q.m_MaxQueueSize := by
  obtain ⟨hdata, hrep, -, hsize⟩ := h.clearLoop
  have hsem : q.m_MinLock.count = l.length := h.sem
  rw [hsem, List.take_length] at hdata
  rw [hsem, List.drop_length] at hrep
  exact ⟨hdata, hrep, hsize⟩

/-- No assertion fails while the queue holds a list. -/
theorem Rep.sound (h : q.Rep l 0) (c : Call T) : q.Sound c := by
  cases c with
  | put | tryPut =>
    intro hlt
    rw [h.tail]
    exact h.layout.slot_behind (h.count ▸ hlt)
  | putHead =>
    intro hlt
    exact h.layout.slot_before (h.count ▸ hlt)
  | tryGet =>
    intro hne
    have hsem : q.m_MinLock.count = l.length := h.sem
    rw [h.layout.slot_head, List.isSome_head?]
    rintro rfl
    exact hne hsem
  | peek | getCount => trivial
  | clear =>
    obtain ⟨hdata, hrep, -⟩ := h.clearLoop_all
    refine ⟨?_, hrep.cleared⟩
    rw [hdata]
    exact h.sem.symm

/-- One call on the queue is the same call on the list. -/
theorem Rep.call {n : Nat} (h : q.Rep l 0) (hn : q.m_MaxQueueSize = n) (c : Call T) :
    (q.call c).1 = (onList n l c).1 ∧
      (q.call c).2.Rep (onList n l c).2 0 ∧ (q.call c).2.m_MaxQueueSize = n := by
  subst hn
  have hle := h.layout.length_le
  have hfull : l.length = q.m_MaxQueueSize ↔ ¬ l.length < q.m_MaxQueueSize := by omega
  cases c with
  | put data | tryPut data =>
    obtain ⟨hret, hrep, hsize⟩ := h.put data
    simp only [CQueue.call, CQueue.tryPut, onList, hfull, hret]
    refine ⟨?_, ?_, hsize⟩
    · by_cases hlt : l.length < q.m_MaxQueueSize <;> simp [hlt]
    · by_cases hlt : l.length < q.m_MaxQueueSize <;> simpa [hlt] using hrep
  | putHead data =>
    obtain ⟨hret, hrep, hsize⟩ := h.putHead data
    simp only [CQueue.call, onList, hfull, hret]
    refine ⟨?_, ?_, hsize⟩
    · by_cases hlt : l.length < q.m_MaxQueueSize <;> simp [hlt]
    · by_cases hlt : l.length < q.m_MaxQueueSize <;> simpa [hlt] using hrep
  | tryGet =>
    obtain ⟨hdata, hrep, hsize⟩ := h.tryGet
    exact ⟨congrArg Answer.data hdata, hrep, hsize⟩
  | peek => exact ⟨congrArg Answer.data h.peek, h, rfl⟩
  | getCount => exact ⟨congrArg Answer.count h.count, h, rfl⟩
  | clear =>
    obtain ⟨-, hrep, hsize⟩ := h.clearLoop_all
    exact ⟨rfl, hrep, hsize⟩

end

/-- **The queue is a bounded list.** For every size and every sequence of calls on a new queue, the
answers are those of a list that is never longer than the size; in the state after it every test of
a slot and every assertion succeeds, and the semaphore counts what `m_Count` counts. -/
theorem cqueue_refines_list {size : Nat} (hsize : 0 < size) (cs : List (Call T)) :
    (calls call (new T size) cs).1 = (calls (onList size) [] cs).1 ∧
      (calls (onList size) ([] : List T) cs).2.length ≤ size ∧
      (∀ c, (calls call (new T size) cs).2.Sound c) ∧
      (calls call (new T size) cs).2.m_MinLock.count = (calls call (new T size) cs).2.m_Count := by
  have hinit : (new T size).Rep [] 0 ∧ (new T size).m_MaxQueueSize = size := ⟨rep_new hsize, rfl⟩
  obtain ⟨hanswers, hrep, hmax⟩ := calls_simulates
    (R := fun (q : CQueue T) l => q.Rep l 0 ∧ q.m_MaxQueueSize = size)
    (fun q l c h => h.1.call h.2 c) hinit cs
  exact ⟨hanswers, hrep.layout.length_le.trans_eq hmax, hrep.sound, hrep.sem.trans hrep.count.symm⟩

/-- Around the end of a table of two slots, in both directions. -/
theorem cqueue_refines_list_wraps :
    (calls call (new Nat 2) [.put 1, .putHead 0, .put 2, .tryGet, .putHead 3, .clear, .peek]).1 =
      [.result true, .result true, .result false, .data (some 0), .result true, .result false,
        .data none] :=
  (cqueue_refines_list (by decide) _).1

end

/-! ## Many threads -/

section
variable {Θ T : Type} [DecidableEq Θ]

/-- The queue and the threads that have passed the wait of `TryGet` and have not taken the lock. -/
structure Shared (Θ T : Type) where
  queue : CQueue T
  passed : Finset Θ

/-- A step of a thread; the part of `TryGet` under the lock with what it gives back. -/
inductive Label (Θ T : Type)
  | put (θ : Θ) (data : T)
  | putHead (θ : Θ) (data : T)
  | timeout (θ : Θ)
  | wait (θ : Θ)
  | takeOut (θ : Θ) (d : Option T)
  | clear (θ : Θ)

/-- One atomic step. Without its assertions, `Clear` goes on with what it leaves. -/
inductive Step : Shared Θ T → Label Θ T → Shared Θ T → Prop
  | put {s : Shared Θ T} {θ : Θ} {data : T} : θ ∉ s.passed →
      Step s (.put θ data) { s with queue := (s.queue.put data).2 }
  | putHead {s : Shared Θ T} {θ : Θ} {data : T} : θ ∉ s.passed →
      Step s (.putHead θ data) { s with queue := (s.queue.putHead data).2 }
  | timeout {s : Shared Θ T} {θ : Θ} : θ ∉ s.passed → s.queue.m_MinLock.wait = none →
      Step s (.timeout θ) s
  | wait {s : Shared Θ T} {θ : Θ} {m : CSemaphore} : θ ∉ s.passed →
      s.queue.m_MinLock.wait = some m →
      Step s (.wait θ) ⟨{ s.queue with m_MinLock := m }, insert θ s.passed⟩
  | takeOut {s : Shared Θ T} {θ : Θ} : θ ∈ s.passed →
      Step s (.takeOut θ s.queue.takeOut.1) ⟨s.queue.takeOut.2, s.passed.erase θ⟩
  | clear {s : Shared Θ T} {θ : Θ} : θ ∉ s.passed →
      Step s (.clear θ) { s with queue := s.queue.clear.2 }

/-- The threads on a new queue. -/
def threads (Θ T : Type) [DecidableEq Θ] (size : Nat) : LTS (Shared Θ T) (Label Θ T) where
  init s := s = ⟨new T size, ∅⟩
  step := Step

/-- What has been put, what each `TryGet` that returned true has delivered, and what was
discarded. -/
structure History (Θ T : Type) where
  put : List T
  delivered : List (Θ × T)
  discarded : List T

/-- What a step adds to the history; a `Put` that returns false adds nothing. -/
def History.add (g : History Θ T) (s : Shared Θ T) : Label Θ T → History Θ T
  | .put _ data => if (s.queue.put data).1 then { g with put := g.put ++ [data] } else g
  | .putHead _ data => if (s.queue.putHead data).1 then { g with put := g.put ++ [data] } else g
  | .takeOut θ (some data) => { g with delivered := g.delivered ++ [(θ, data)] }
  | .clear _ => { g with discarded := g.discarded ++ s.queue.clearLoop.1 }
  | .timeout _ | .wait _ | .takeOut _ none => g

/-- The threads, with a history of what went in and out. -/
def recorded (Θ T : Type) [DecidableEq Θ] (size : Nat) :
    LTS (Shared Θ T × History Θ T) (Label Θ T) :=
  (threads Θ T size).ghost (fun _ => ⟨[], [], []⟩) fun g s a _ => g.add s a

/-- What is in the table, slot by slot. -/
def contents (q : CQueue T) : List T := (List.range q.m_MaxQueueSize).filterMap q.m_Table

/-- Some list is in the queue, each thread in between has an element that the semaphore does not
count, and what was put is delivered, discarded or in the list. -/
structure Accounted (s : Shared Θ T) (g : History Θ T) (l : List T) : Prop where
  rep : s.queue.Rep l s.passed.card
  perm : g.put.Perm (g.delivered.map Prod.snd ++ g.discarded ++ l)

/-- Every step keeps the account. -/
theorem Accounted.step {s t : Shared Θ T} {g : History Θ T} {a : Label Θ T} {l : List T}
    (h : Accounted s g l) (hstep : Step s a t) : ∃ l', Accounted t (g.add s a) l' := by
  obtain ⟨hrep, hperm⟩ := h
  cases hstep with
  | @put θ data hθ =>
    obtain ⟨hret, hrep', -⟩ := hrep.put data
    refine ⟨_, hrep', ?_⟩
    rw [History.add, hret]
    by_cases hlt : l.length < s.queue.m_MaxQueueSize
    · rw [decide_eq_true hlt, if_pos rfl, if_pos hlt, ← List.append_assoc]
      exact hperm.append_right _
    · rw [decide_eq_false hlt, if_neg Bool.false_ne_true, if_neg hlt]
      exact hperm
  | @putHead θ data hθ =>
    obtain ⟨hret, hrep', -⟩ := hrep.putHead data
    refine ⟨_, hrep', ?_⟩
    rw [History.add, hret]
    by_cases hlt : l.length < s.queue.m_MaxQueueSize
    · rw [decide_eq_true hlt, if_pos rfl, if_pos hlt]
      refine (List.perm_append_singleton _ _).trans ((hperm.cons data).trans ?_)
      exact List.perm_middle.symm
    · rw [decide_eq_false hlt, if_neg Bool.false_ne_true, if_neg hlt]
      exact hperm
  | timeout => exact ⟨l, hrep, hperm⟩
  | @wait θ m hθ hw =>
    refine ⟨l, ?_, hperm⟩
    rw [Finset.card_insert_of_notMem hθ]
    exact hrep.wait hw
  | @takeOut θ hθ =>
    rw [← Finset.card_erase_add_one hθ] at hrep
    obtain ⟨data, l', rfl, hdata, hrep', -⟩ := hrep.takeOut
    refine ⟨l', hrep', ?_⟩
    rw [hdata, History.add]
    refine hperm.trans ?_
    rw [List.map_append, List.append_assoc, List.append_assoc, List.append_assoc]
    exact List.Perm.append_left _ (@List.perm_middle _ _ g.discarded _)
  | @clear θ hθ =>
    obtain ⟨hdata, hrep', -⟩ := hrep.clearLoop
    refine ⟨_, hrep', ?_⟩
    rw [History.add, hdata, List.append_assoc, List.append_assoc, List.take_append_drop,
      ← List.append_assoc]
    exact hperm

/-- The account holds in every reachable state. -/
theorem accounted_inductive {size : Nat} (hsize : 0 < size) :
    (recorded Θ T size).Inductive fun p => ∃ l, Accounted p.1 p.2 l where
  init := by
    rintro ⟨s, g⟩ ⟨hs, hg⟩
    cases hs
    cases hg
    exact ⟨[], rep_new hsize, .refl _⟩
  step := by
    rintro ⟨s, g⟩ a ⟨t, g'⟩ ⟨hstep, hg⟩ ⟨l, h⟩
    cases hg
    exact h.step hstep

/-- **No element is lost or delivered twice.** For any threads and every interleaving of their
steps on a new queue: the semaphore counts `m_Count` less the threads between their wait and their
lock, so each of these takes out an element; and what has been put is, element by element, what was
delivered to one `TryGet`, what was discarded by a `Clear` and what is still in the table. -/
theorem cqueue_conserves {size : Nat} (hsize : 0 < size) {s : Shared Θ T} {g : History Θ T}
    (h : (recorded Θ T size).Reachable (s, g)) :
    s.queue.m_MinLock.count + s.passed.card = s.queue.m_Count ∧
      (∀ θ ∈ s.passed, ∃ data, s.queue.takeOut.1 = some data) ∧
      g.put.Perm (g.delivered.map Prod.snd ++ g.discarded ++ s.queue.contents) := by
  obtain ⟨l, hrep, hperm⟩ := (accounted_inductive hsize).reachable h
  refine ⟨hrep.sem.trans hrep.count.symm, ?_, ?_⟩
  · intro θ hθ
    rw [← Finset.card_erase_add_one hθ] at hrep
    obtain ⟨data, -, -, hdata, -⟩ := hrep.takeOut
    exact ⟨data, hdata⟩
  · exact hperm.trans (hrep.layout.perm.symm.append_left _)

/-- A `Clear` while one thread is between its wait and its lock leaves the element of this
thread. -/
theorem cqueue_conserves_clear : ∃ (s : Shared Bool Nat) (g : History Bool Nat),
    (recorded Bool Nat 1).Reachable (s, g) ∧ s.passed = {true} ∧ s.queue.m_MinLock.count = 0 ∧
      s.queue.m_Count = 1 ∧ (∃ data, s.queue.takeOut.1 = some data) ∧
      g.put.Perm (g.delivered.map Prod.snd ++ g.discarded ++ s.queue.contents) := by
  have hinit : (recorded Bool Nat 1).Reachable (⟨new Nat 1, ∅⟩, ⟨[], [], []⟩) :=
    .of_init ⟨rfl, rfl⟩
  have hput : Step ⟨new Nat 1, ∅⟩ (.put false 7) ⟨((new Nat 1).put 7).2, ∅⟩ :=
    .put (Finset.notMem_empty false)
  have hwait : Step ⟨((new Nat 1).put 7).2, ∅⟩ (.wait true)
      ⟨{ ((new Nat 1).put 7).2 with m_MinLock := ⟨0, 1⟩ }, insert true ∅⟩ :=
    .wait (Finset.notMem_empty true) rfl
  have hclear := @Step.clear Bool Nat _
    ⟨{ ((new Nat 1).put 7).2 with m_MinLock := ⟨0, 1⟩ }, insert true ∅⟩ false (by decide)
  have hreach := hinit.run (.cons (t := (_, _)) ⟨hput, rfl⟩
    (.cons (t := (_, _)) ⟨hwait, rfl⟩ (.cons (t := (_, _)) ⟨hclear, rfl⟩ (.nil _))))
  obtain ⟨hsem, htake, hperm⟩ := cqueue_conserves Nat.one_pos hreach
  have hcount : (CQueue.clear
      { ((new Nat 1).put 7).2 with m_MinLock := ⟨0, 1⟩ }).2.m_MinLock.count = 0 := by
    simp [CQueue.clear, CQueue.clearLoop, CQueue.tryGet, CSemaphore.wait]
  exact ⟨_, _, hreach, rfl, hcount, hsem.symm.trans (by rw [hcount]; rfl),
    htake true (Finset.mem_insert_self _ _), hperm⟩

end

end CQueue

end TelecomSuite.Convert
