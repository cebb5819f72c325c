import GreenCloud.MmapStorage
import GreenCloud.Transition
import GreenCloud.WPriorityQueue

/-! The pool of a slave with one thread: `RequestEngine::Run` pushes the tasks of the requests it
receives, and `ThreadFunc` pops one and executes it, in turn. -/

namespace GreenCloud

open CLib
open scoped List

/-- `SlaveRead` and `SlaveWrite`. -/
inductive SlaveTask
  | read (data : DriverData)
  | write (data : DriverData)
  deriving DecidableEq

/-- `RETask` is `MEDIUM` unless it is told otherwise, which neither class does. -/
instance : TPTask SlaveTask where
  priority _ := .medium

namespace SlaveTask

def execute (fresh : Fresh) (m : MmapStorage) : SlaveTask → Option (MmapStorage × Bytes)
  | read data => (m.read fresh data).map fun data => (m, data.buff.take data.len.toNat)
  | write data => (m.write data).map fun m => (m, [])

def executeAll (fresh : Fresh) (m : MmapStorage) : List SlaveTask → Option (MmapStorage × List Bytes)
  | [] => some (m, [])
  | task :: tasks => do
    let (m, bytes) ← task.execute fresh m
    let (m, results) ← executeAll fresh m tasks
    return (m, bytes :: results)

theorem lt_eq_false (a b : SlaveTask) : TPTask.lt a b = false := rfl

theorem execute_fresh (fresh fresh' : Fresh) (m : MmapStorage) (task : SlaveTask) :
    task.execute fresh m = task.execute fresh' m := by
  cases task with
  | write data => rfl
  | read data =>
    simp only [execute, MmapStorage.read_eq]
    split
    · rename_i hrange
      have hlen : data.len.toNat ≤ (m.mmap.drop data.offset.toNat).length := by
        rw [MmapStorage.getSize] at hrange
        rw [List.length_drop]
        omega
      simp only [Option.map_some, take_take_append hlen]
    · rfl

theorem executeAll_append (fresh : Fresh) (m : MmapStorage) (tasks : List SlaveTask)
    (task : SlaveTask) :
    executeAll fresh m (tasks ++ [task]) = do
      let (m, results) ← executeAll fresh m tasks
      let (m, bytes) ← task.execute fresh m
      return (m, results ++ [bytes]) := by
  induction tasks generalizing m with
  | nil => simp [executeAll]
  | cons first tasks ih =>
    simp only [List.cons_append, executeAll, ih]
    cases first.execute fresh m with
    | none => rfl
    | some result =>
      obtain ⟨m, bytes⟩ := result
      simp only [Option.bind_eq_bind, Option.bind_some, Option.bind_assoc, Option.pure_def]
      rfl

end SlaveTask

namespace SlavePool

/-- `task` is what the thread has in its hands. -/
structure State where
  queue : List SlaveTask
  task : Option SlaveTask
  storage : MmapStorage

/-- `waiting` is the number of tasks in the queue before the pop. -/
inductive Event
  | pushed (task : SlaveTask)
  | popped (task : SlaveTask) (waiting : Nat)
  | executed (task : SlaveTask) (bytes : Bytes)

def pool (m : MmapStorage) : Transition State Event where
  init s := s = ⟨[], none, m⟩
  step s e t := match e with
    | .pushed task => t = { s with queue := WPriorityQueue.push s.queue task }
    | .popped task waiting => s.task = none ∧ waiting = s.queue.length ∧
        ∃ queue, WPriorityQueue.lockAndPop s.queue = some (task, queue) ∧
          t = { s with queue := queue, task := some task }
    | .executed task bytes => s.task = some task ∧
        ∃ fresh storage, task.execute fresh s.storage = some (storage, bytes) ∧
          t = { s with task := none, storage := storage }

/-! What a run has done so far, the oldest first. -/

def received : List Event → List SlaveTask
  | [] => []
  | .pushed task :: es => received es ++ [task]
  | _ :: es => received es

def popped : List Event → List SlaveTask
  | [] => []
  | .popped task _ :: es => popped es ++ [task]
  | _ :: es => popped es

def executed : List Event → List SlaveTask
  | [] => []
  | .executed task _ :: es => executed es ++ [task]
  | _ :: es => executed es

def results : List Event → List Bytes
  | [] => []
  | .executed _ bytes :: es => results es ++ [bytes]
  | _ :: es => results es

def Short : List Event → Prop
  | [] => True
  | .popped _ waiting :: es => waiting ≤ 3 ∧ Short es
  | _ :: es => Short es

/-- The pops so far: the tasks come out in the order received while the queue is short, and from
the first pop of a longer queue on one of them is ahead of its turn. -/
structure Follows (m : MmapStorage) (es : List Event) (s : State) : Prop where
  effect : ∀ fresh, SlaveTask.executeAll fresh m (executed es) = some (s.storage, results es)
  hand : popped es = executed es ++ s.task.toList
  perm : (popped es ++ s.queue).Perm (received es)
  inOrder : Short es → popped es ++ s.queue = received es
  ahead : ¬ Short es → ∃ i, i ≤ (popped es).length ∧ i + 1 < (received es).length ∧
    (popped es ++ s.queue)[i]? = (received es)[i + 1]?

namespace Follows

variable {m : MmapStorage} {es : List Event} {s : State}

theorem empty (m : MmapStorage) : Follows m [] ⟨[], none, m⟩ where
  effect _ := rfl
  hand := rfl
  perm := .refl _
  inOrder _ := rfl
  ahead h := absurd trivial h

theorem pushed (h : Follows m es s) (task : SlaveTask) :
    Follows m (.pushed task :: es) { s with queue := WPriorityQueue.push s.queue task } := by
  have hpush : WPriorityQueue.push s.queue task = s.queue ++ [task] :=
    Heap.push_of_not_less SlaveTask.lt_eq_false s.queue task
  rw [hpush]
  constructor
  · exact h.effect
  · exact h.hand
  · simp only [popped, received, ← List.append_assoc]
    exact h.perm.append_right [task]
  · intro hshort
    simp only [popped, received, ← List.append_assoc, h.inOrder hshort]
  · intro hlong
    obtain ⟨i, hle, hlt, hget⟩ := h.ahead hlong
    have hi : i < (popped es ++ s.queue).length := by
      rw [h.perm.length_eq]
      omega
    refine ⟨i, hle, ?_, ?_⟩
    · simp only [received, List.length_append]
      omega
    · simp only [popped, received]
      rw [← List.append_assoc, List.getElem?_append_left hi, List.getElem?_append_left hlt, hget]

theorem executed (h : Follows m es s) (htask : s.task = some task)
    (hexec : task.execute fresh s.storage = some (storage, bytes)) :
    Follows m (.executed task bytes :: es) { s with task := none, storage := storage } := by
  constructor
  · intro fresh'
    rw [SlavePool.executed, SlaveTask.executeAll_append, h.effect]
    simp only [Option.bind_eq_bind, Option.bind_some]
    rw [SlaveTask.execute_fresh fresh' fresh, hexec]
    rfl
  · simpa [popped, SlavePool.executed, htask] using h.hand
  · exact h.perm
  · exact h.inOrder
  · exact h.ahead

theorem popped (h : Follows m es s) (htask : s.task = none) (hqueue : s.queue = task :: rest) :
    Follows m (.popped task s.queue.length :: es)
      { s with queue := Heap.pop TPTask.lt s.queue, task := some task } := by
  have hsplit : SlavePool.popped es ++ task :: rest = (SlavePool.popped es ++ [task]) ++ rest := by
    simp
  constructor
  · exact h.effect
  · simp [SlavePool.popped, SlavePool.executed, h.hand, htask]
  · calc SlavePool.popped es ++ [task] ++ Heap.pop TPTask.lt s.queue
      _ ~ SlavePool.popped es ++ [task] ++ rest := by
        rw [hqueue]
        exact (Heap.pop_perm _ task rest).append_left _
      _ ~ received es := by
        rw [← hsplit, ← hqueue]
        exact h.perm
  · rintro ⟨hle, hshort⟩
    have hrest : rest.length ≤ 2 := by
      rw [hqueue, List.length_cons] at hle
      omega
    simp only [SlavePool.popped, received, hqueue]
    rw [Heap.pop_of_le SlaveTask.lt_eq_false task rest hrest, ← hsplit, ← hqueue]
    exact h.inOrder hshort
  · intro hlong
    by_cases hshort : Short es
    · -- The first pop of a long queue: the third task comes to the top.
      have hlen : 4 ≤ s.queue.length := by
        by_contra hlt
        exact hlong ⟨by omega, hshort⟩
      have horder := h.inOrder hshort
      have htop := Heap.head?_pop SlaveTask.lt_eq_false hlen
      refine ⟨(SlavePool.popped es).length + 1, by simp [SlavePool.popped], ?_, ?_⟩
      · rw [show received (.popped task s.queue.length :: es) = received es from rfl, ← horder,
          List.length_append]
        omega
      · simp only [SlavePool.popped, received, ← horder]
        rw [List.getElem?_append_right (by simp), List.getElem?_append_right (by omega)]
        simpa [List.head?_eq_getElem?, Nat.add_sub_cancel_left, Nat.add_assoc] using htop
    · -- What is ahead already stays there.
      obtain ⟨i, hle, hlt, hget⟩ := h.ahead hshort
      refine ⟨i, ?_, hlt, ?_⟩
      · simp only [SlavePool.popped, List.length_append, List.length_singleton]
        omega
      · have hi : i < (SlavePool.popped es ++ [task]).length := by
          rw [List.length_append, List.length_singleton]
          omega
        rw [hqueue, hsplit, List.getElem?_append_left hi] at hget
        simp only [SlavePool.popped, received]
        rw [List.getElem?_append_left hi, hget]

end Follows

theorem follows_of_run (h : (pool m).Run es s) : Follows m es s := by
  apply h.invariant
  · rintro _ rfl
    exact .empty m
  · intro es s e t hs hstep
    cases e with
    | pushed task =>
      subst hstep
      exact hs.pushed task
    | popped task waiting =>
      obtain ⟨htask, rfl, queue, hpop, rfl⟩ := hstep
      cases hqueue : s.queue with
      | nil => simp [WPriorityQueue.lockAndPop, hqueue] at hpop
      | cons first rest =>
        obtain ⟨rfl, rfl⟩ : first = task ∧ Heap.pop TPTask.lt s.queue = queue := by
          simpa [WPriorityQueue.lockAndPop, hqueue] using hpop
        rw [← hqueue]
        exact hs.popped htask hqueue
    | executed task bytes =>
      obtain ⟨htask, fresh, storage, hexec, rfl⟩ := hstep
      exact hs.executed htask hexec

/-- With one thread the tasks take effect one after another as they are popped, each of them
once. That is the order received as long as no pop finds more than three tasks waiting, and where
all are done and no two are the same it is that order only then. -/
theorem run_in_order (h : (pool m).Run es s) :
    (∀ fresh, SlaveTask.executeAll fresh m (executed es) = some (s.storage, results es)) ∧
    popped es = executed es ++ s.task.toList ∧ (popped es ++ s.queue).Perm (received es) ∧
    (Short es → popped es ++ s.queue = received es) ∧
    (Short es → s.queue = [] → s.task = none → ∀ fresh,
      SlaveTask.executeAll fresh m (received es) = some (s.storage, results es)) ∧
    (s.queue = [] → (received es).Nodup → (popped es = received es ↔ Short es)) := by
  have hs := follows_of_run h
  refine ⟨hs.effect, hs.hand, hs.perm, hs.inOrder, ?_, ?_⟩
  · intro hshort hqueue htask fresh
    have horder := hs.inOrder hshort
    rw [hs.hand, hqueue, htask] at horder
    simp only [Option.toList_none, List.append_nil] at horder
    rw [← horder]
    exact hs.effect fresh
  · intro hqueue hnodup
    constructor
    · intro horder
      by_contra hlong
      obtain ⟨i, -, hlt, hget⟩ := hs.ahead hlong
      rw [hqueue, List.append_nil, horder] at hget
      have hsame := (List.getElem?_inj (Nat.lt_of_succ_lt hlt) hnodup).mp hget
      omega
    · intro hshort
      have horder := hs.inOrder hshort
      rwa [hqueue, List.append_nil] at horder

theorem run_pushed (h : (pool m).Run es ⟨queue, task, storage⟩) (next : SlaveTask) :
    (pool m).Run (.pushed next :: es) ⟨queue ++ [next], task, storage⟩ := by
  apply h.step
  simp only [pool, WPriorityQueue.push, Heap.push_of_not_less SlaveTask.lt_eq_false]

theorem run_popped (h : (pool m).Run es ⟨task :: rest, none, storage⟩)
    (hpop : Heap.pop TPTask.lt (task :: rest) = queue) :
    (pool m).Run (.popped task (rest.length + 1) :: es) ⟨queue, some task, storage⟩ :=
  .step h ⟨rfl, rfl, queue, by rw [← hpop]; rfl, rfl⟩

theorem run_executed (h : (pool m).Run es ⟨queue, some task, storage⟩) (fresh : Fresh)
    (storage' : MmapStorage) (bytes : Bytes)
    (hexec : task.execute fresh storage = some (storage', bytes)) :
    (pool m).Run (.executed task bytes :: es) ⟨queue, none, storage'⟩ :=
  .step h ⟨rfl, fresh, storage', hexec, rfl⟩

def writeByte (offset : UInt64) (reqId : Int32) (byte : UInt8) : SlaveTask :=
  .write ⟨offset, reqId, .replicate 8 0, 1, .write, 0, [byte]⟩

/-- Two tasks that wait together are executed in the order received. -/
theorem run_in_order_two : ∃ es s, (pool ⟨[0, 0]⟩).Run es s ∧
    received es = [writeByte 0 1 65, writeByte 0 2 66] ∧ s.storage = ⟨[66, 0]⟩ ∧
    ∀ fresh, SlaveTask.executeAll fresh ⟨[0, 0]⟩ (received es) = some (s.storage, results es) := by
  let fresh : Fresh := ⟨⟨0, 0, .replicate 8 0, 0, .read, 0, []⟩, fun _ => 0⟩
  have hpop := Heap.pop_of_le SlaveTask.lt_eq_false
  have h := run_pushed (.start (S := pool ⟨[0, 0]⟩) rfl) (writeByte 0 1 65)
  have h := run_pushed h (writeByte 0 2 66)
  have h := run_popped h (hpop _ _ (by decide))
  have h := run_executed h fresh ⟨[65, 0]⟩ [] rfl
  have h := run_popped h (hpop _ _ (by decide))
  have h := run_executed h fresh ⟨[66, 0]⟩ [] rfl
  exact ⟨_, _, h, rfl, rfl, (run_in_order h).2.2.2.2.1 (by simp [Short]) rfl rfl⟩

/-- Four that wait together are not: the third is executed before the second, and the byte that
both write is left to the second. -/
theorem four_writes_out_of_order : ∃ es s, (pool ⟨[0, 0]⟩).Run es s ∧
    received es = [writeByte 0 1 65, writeByte 0 2 66, writeByte 0 3 67, writeByte 1 4 68] ∧
    executed es = [writeByte 0 1 65, writeByte 0 3 67, writeByte 0 2 66, writeByte 1 4 68] ∧
    s = ⟨[], none, ⟨[66, 68]⟩⟩ ∧
    ∀ fresh, (SlaveTask.executeAll fresh ⟨[0, 0]⟩ (received es)).map Prod.fst = some ⟨[67, 68]⟩ := by
  let fresh : Fresh := ⟨⟨0, 0, .replicate 8 0, 0, .read, 0, []⟩, fun _ => 0⟩
  have hpop := Heap.pop_of_le SlaveTask.lt_eq_false
  have h := run_pushed (.start (S := pool ⟨[0, 0]⟩) rfl) (writeByte 0 1 65)
  have h := run_pushed h (writeByte 0 2 66)
  have h := run_pushed h (writeByte 0 3 67)
  have h := run_pushed h (writeByte 1 4 68)
  have h := run_popped h (Heap.pop_four SlaveTask.lt_eq_false _ _ _ _)
  have h := run_executed h fresh ⟨[65, 0]⟩ [] rfl
  have h := run_popped h (hpop _ _ (by decide))
  have h := run_executed h fresh ⟨[67, 0]⟩ [] rfl
  have h := run_popped h (hpop _ _ (by decide))
  have h := run_executed h fresh ⟨[66, 0]⟩ [] rfl
  have h := run_popped h (hpop _ _ (by decide))
  have h := run_executed h fresh ⟨[66, 68]⟩ [] rfl
  exact ⟨_, _, h, rfl, rfl, rfl, fun _ => rfl⟩

end SlavePool

end GreenCloud
