import GreenCloud.SharedQueue
import Mathlib.Data.Fintype.Option
import Mathlib.Data.Fintype.Sum

/-! `ThreadPool`: the workers, which run `ThreadFunc`, one thread that suspends, resumes and stops
them, and any other threads, which add tasks. -/

namespace GreenCloud.ThreadPool

open CLib Transition
open scoped List

variable {n : Nat} {κ α : Type}

/-- `TPStop`, `TPSuspend` and the tasks of the users. -/
inductive PoolTask (α : Type)
  | stop
  | suspend
  | user (task : α)
  deriving DecidableEq

instance [TPTask α] : TPTask (PoolTask α) where
  priority
    | .stop | .suspend => .system
    | .user task => TPTask.priority task

/-- Where a worker is in `ThreadFunc`: in `Pop`, in `Execute` of a task, before the first
`m_main_sem.Post()`, in `m_thread_sem.Wait()`, before the second `Post`, or out of the loop. -/
inductive Worker (α : Type)
  | popping
  | got (task : PoolTask α)
  | suspending
  | parked
  | resuming
  | exited
  deriving DecidableEq

/-- Where a task leads that returns from `Execute`, or throws a `ThreadMsg`. -/
def PoolTask.after : PoolTask α → Worker α
  | .stop => .exited
  | .suspend => .suspending
  | .user _ => .popping

/-- What the controlling thread calls; `destroy` is `~ThreadPool`. -/
inductive Command (α : Type)
  | suspend
  | resume
  | stop
  | destroy
  | addTask (task : α)
  deriving DecidableEq

/-- Where the controlling thread is in its call, with the turns that are left of the loop. -/
inductive Controller (α : Type)
  | idle
  | adding (command : Command α) (task : PoolTask α) (left : Nat)
  | posting (left : Nat)
  | waiting (command : Command α) (left : Nat)
  | joining (command : Command α) (left : Nat)
  | done (command : Command α)
  deriving DecidableEq

/-- The first loop of a call. The destructor stops the pool only if its first thread has not been
joined yet. -/
def Command.start (n joined : Nat) : Command α → Controller α
  | suspend => .adding suspend .suspend n
  | resume => .posting n
  | stop => .adding stop .stop n
  | destroy => if joined = 0 then .adding destroy .stop n else .done destroy
  | addTask task => .adding (addTask task) (.user task) 1

def Command.next (n : Nat) : Command α → Controller α
  | suspend => .waiting suspend n
  | resume => .waiting resume n
  | stop => .joining stop n
  | destroy => .joining destroy n
  | addTask task => .done (addTask task)

inductive Controller.Looped : Controller α → Command α → Prop
  | adding : Looped (.adding command task 0) command
  | posting : Looped (.posting 0) .resume

inductive Controller.Finished : Controller α → Command α → Prop
  | waiting : Finished (.waiting command 0) command
  | joining : Finished (.joining command 0) command
  | done : Finished (.done command) command

inductive Thread (n : Nat) (κ : Type)
  | worker (i : Fin n)
  | controller
  | other (a : κ)
  deriving DecidableEq

instance [Fintype κ] [DecidableEq κ] : Fintype (Thread n κ) :=
  .ofSurjective (fun
    | .inl i => .worker i
    | .inr none => .controller
    | .inr (some a) => .other a : Fin n ⊕ Option κ → Thread n κ) fun
    | .worker i => ⟨.inl i, rfl⟩
    | .controller => ⟨.inr none, rfl⟩
    | .other a => ⟨.inr (some a), rfl⟩

structure State (n : Nat) (κ α : Type) where
  queue : SharedQueue.State (Thread n κ) (PoolTask α)
  threadSem : Nat
  mainSem : Nat
  worker : Fin n → Worker α
  controller : Controller α
  joined : Nat
  script : List (Command α)
  alive : Bool

inductive Event (n : Nat) (κ α : Type)
  | called (command : Command α)
  | looped (command : Command α)
  | returned (command : Command α)
  | pushed (thread : Thread n κ) (task : PoolTask α)
  | posted (thread : Thread n κ)
  | unlocked (thread : Thread n κ)
  | threadPost
  | mainWait
  | joined (i : Fin n)
  | popCalled (i : Fin n) (out : Option (PoolTask α))
  | popWaited (i : Fin n)
  | took (i : Fin n) (task : PoolTask α)
  | executed (i : Fin n) (task : PoolTask α)
  | suspended (i : Fin n)
  | woken (i : Fin n)
  | resumed (i : Fin n)
  | terminated (i : Fin n) (task : α)

def init (script : List (Command α)) : State n κ α where
  queue := SharedQueue.init
  threadSem := 0
  mainSem := 0
  worker _ := .popping
  controller := .idle
  joined := 0
  script := script
  alive := true

def State.move (s : State n κ α) (i : Fin n) (w : Worker α) : State n κ α :=
  { s with worker := Function.update s.worker i w }

variable [TPTask α] [DecidableEq κ]

/-- A step of `m_task_queue`. -/
abbrev QueueStep (s : State n κ α) (e : SharedQueue.Event (Thread n κ) (PoolTask α))
    (q : SharedQueue.State (Thread n κ) (PoolTask α)) : Prop :=
  SharedQueue.Step TPTask.lt s.queue e q

/-- Who may push what: the controlling thread in the loop of its call, a worker from within a
task, and any other thread. -/
def Pushes (s : State n κ α) (thread : Thread n κ) (task : PoolTask α) (c : Controller α) : Prop :=
  match thread with
  | .controller => ∃ command left, s.controller = .adding command task (left + 1) ∧
      c = .adding command task left
  | .worker i => ∃ executing added, s.worker i = .got (.user executing) ∧ task = .user added ∧
      c = s.controller
  | .other _ => ∃ added, task = .user added ∧ c = s.controller

/-- One step of a thread. `throws` are the tasks whose `Execute` throws something else than a
`ThreadMsg`, which nobody catches. -/
def Step (throws : α → Prop) (s : State n κ α) (e : Event n κ α) (t : State n κ α) : Prop :=
  match e with
  | .called command => s.controller = .idle ∧ ∃ script, s.script = command :: script ∧
      t = { s with controller := command.start n s.joined, script := script }
  | .looped command => s.controller.Looped command ∧ s.queue.position .controller = .idle ∧
      t = { s with controller := command.next n }
  | .returned command => s.controller.Finished command ∧ t = { s with controller := .idle }
  | .pushed thread task => ∃ q c, QueueStep s (.pushed thread task) q ∧ Pushes s thread task c ∧
      t = { s with queue := q, controller := c }
  | .posted thread => ∃ q, QueueStep s (.posted thread) q ∧ t = { s with queue := q }
  | .unlocked thread => ∃ q, QueueStep s (.unlocked thread) q ∧ t = { s with queue := q }
  | .threadPost => ∃ left, s.controller = .posting (left + 1) ∧
      t = { s with controller := .posting left, threadSem := s.threadSem + 1 }
  | .mainWait => ∃ command left sem, s.controller = .waiting command (left + 1) ∧
      s.mainSem = sem + 1 ∧ t = { s with controller := .waiting command left, mainSem := sem }
  | .joined i => ∃ command left, s.controller = .joining command (left + 1) ∧
      i.val + (left + 1) = n ∧ s.worker i = .exited ∧
      t = { s with controller := .joining command left, joined := s.joined + 1 }
  | .popCalled i out => s.worker i = .popping ∧
      ∃ q, QueueStep s (.called (.worker i) false out) q ∧ t = { s with queue := q }
  | .popWaited i => s.worker i = .popping ∧
      ∃ q, QueueStep s (.waited (.worker i)) q ∧ t = { s with queue := q }
  | .took i task => s.worker i = .popping ∧
      ∃ q left, QueueStep s (.popped (.worker i) task left) q ∧
        t = { s.move i (.got task) with queue := q }
  | .executed i task => s.worker i = .got task ∧ s.queue.position (.worker i) = .idle ∧
      (∀ u, task = .user u → ¬ throws u) ∧ t = s.move i task.after
  | .suspended i => s.worker i = .suspending ∧
      t = { s.move i .parked with mainSem := s.mainSem + 1 }
  | .woken i => ∃ sem, s.worker i = .parked ∧ s.threadSem = sem + 1 ∧
      t = { s.move i .resuming with threadSem := sem }
  | .resumed i => s.worker i = .resuming ∧
      t = { s.move i .popping with mainSem := s.mainSem + 1 }
  | .terminated i task => s.worker i = .got (.user task) ∧ throws task ∧
      t = { s with alive := false }

/-- An exception that nobody catches ends the program, and every thread with it. -/
def pool (throws : α → Prop) (script : List (Command α)) :
    Transition (State n κ α) (Event n κ α) where
  init s := s = init script
  step s e t := s.alive ∧ Step throws s e t

inductive Moves : Event n κ α → Fin n → Worker α → Worker α → Prop
  | took : Moves (.took i task) i .popping (.got task)
  | executed : Moves (.executed i task) i (.got task) task.after
  | suspended : Moves (.suspended i) i .suspending .parked
  | woken : Moves (.woken i) i .parked .resuming
  | resumed : Moves (.resumed i) i .resuming .popping

variable {throws : α → Prop} {script : List (Command α)} {es : List (Event n κ α)}
variable {e : Event n κ α} {s t : State n κ α}

def Event.mover : Event n κ α → Option (Fin n)
  | took i _ | executed i _ | suspended i | woken i | resumed i => some i
  | _ => none

omit [TPTask α] [DecidableEq κ] in
theorem Moves.mover_eq {e : Event n κ α} (h : Moves e i p q) : e.mover = some i := by
  cases h with
  | took | executed | suspended | woken | resumed => rfl

omit [TPTask α] [DecidableEq κ] in
theorem not_moves_of_mover {e : Event n κ α} (h : e.mover = none) (i : Fin n) (p q : Worker α) :
    ¬ Moves e i p q := by
  intro hmove
  rw [hmove.mover_eq] at h
  cases h

theorem Step.worker (hstep : Step throws s e t) :
    (∃ i p q, Moves e i p q ∧ s.worker i = p ∧ t.worker = Function.update s.worker i q) ∨
    (∀ i p q, ¬ Moves e i p q) ∧ t.worker = s.worker := by
  cases e with
  | took i task =>
    obtain ⟨hi, q, left, -, rfl⟩ := hstep
    exact .inl ⟨i, _, _, .took, hi, rfl⟩
  | executed i task =>
    obtain ⟨hi, -, -, rfl⟩ := hstep
    exact .inl ⟨i, _, _, .executed, hi, rfl⟩
  | suspended i =>
    obtain ⟨hi, rfl⟩ := hstep
    exact .inl ⟨i, _, _, .suspended, hi, rfl⟩
  | woken i =>
    obtain ⟨_, hi, -, rfl⟩ := hstep
    exact .inl ⟨i, _, _, .woken, hi, rfl⟩
  | resumed i =>
    obtain ⟨hi, rfl⟩ := hstep
    exact .inl ⟨i, _, _, .resumed, hi, rfl⟩
  | called =>
    obtain ⟨-, _, -, rfl⟩ := hstep
    exact .inr ⟨not_moves_of_mover rfl, rfl⟩
  | looped | terminated =>
    obtain ⟨-, -, rfl⟩ := hstep
    exact .inr ⟨not_moves_of_mover rfl, rfl⟩
  | returned =>
    obtain ⟨-, rfl⟩ := hstep
    exact .inr ⟨not_moves_of_mover rfl, rfl⟩
  | pushed =>
    obtain ⟨_, _, -, -, rfl⟩ := hstep
    exact .inr ⟨not_moves_of_mover rfl, rfl⟩
  | posted | unlocked | threadPost =>
    obtain ⟨_, -, rfl⟩ := hstep
    exact .inr ⟨not_moves_of_mover rfl, rfl⟩
  | mainWait | joined =>
    obtain ⟨_, _, _, _, _, rfl⟩ := hstep
    exact .inr ⟨not_moves_of_mover rfl, rfl⟩
  | popCalled | popWaited =>
    obtain ⟨-, _, -, rfl⟩ := hstep
    exact .inr ⟨not_moves_of_mover rfl, rfl⟩

theorem queueStep_pq {e : SharedQueue.Event (Thread n κ) (PoolTask α)} (h : QueueStep s e q)
    (hpush : ∀ i x, e ≠ .pushed i x) (hpop : ∀ i x left, e ≠ .popped i x left) :
    q.pq = s.queue.pq := by
  rcases h.heap with ⟨hpq, -⟩ | ⟨i, x, he, -⟩ | ⟨i, x, rest, he, -⟩
  · exact hpq
  · exact absurd he (hpush i x)
  · exact absurd he (hpop i x _)

theorem queueStep_pushed (h : QueueStep s (.pushed thread task) q) :
    q.pq ~ s.queue.pq ++ [task] := by
  obtain ⟨-, -, rfl⟩ := h
  exact Heap.push_perm _ _ _

theorem queueStep_popped (h : QueueStep s (.popped thread task left) q) :
    s.queue.pq ~ task :: q.pq := by
  obtain ⟨_, _, rest, -, -, hpq, rfl, rfl⟩ := h
  rw [hpq]
  exact ((Heap.pop_perm _ task rest).cons task).symm

def pushes : List (Event n κ α) → List (PoolTask α)
  | [] => []
  | .pushed _ task :: es => pushes es ++ [task]
  | _ :: es => pushes es

def taken : List (Event n κ α) → List (PoolTask α)
  | [] => []
  | .took _ task :: es => taken es ++ [task]
  | _ :: es => taken es

def executed : List (Event n κ α) → List (PoolTask α)
  | [] => []
  | .executed _ task :: es => executed es ++ [task]
  | _ :: es => executed es

def users : List (PoolTask α) → List α := List.filterMap fun
  | .user task => some task
  | _ => none

def Worker.hand : Worker α → Multiset (PoolTask α)
  | got task => {task}
  | _ => 0

theorem Step.queue (hstep : Step throws s e t) (es : List (Event n κ α)) :
    (∃ qe, QueueStep s qe t.queue ∧ ∀ qs, SharedQueue.pushed qs = pushes es →
      SharedQueue.popped qs = taken es →
        SharedQueue.pushed (qe :: qs) = pushes (e :: es) ∧
        SharedQueue.popped (qe :: qs) = taken (e :: es)) ∨
    t.queue = s.queue ∧ pushes (e :: es) = pushes es ∧ taken (e :: es) = taken es := by
  cases e with
  | pushed thread task =>
    obtain ⟨q, c, hq, -, rfl⟩ := hstep
    exact .inl ⟨_, hq, fun qs hpushed hpopped => ⟨congrArg (· ++ [task]) hpushed, hpopped⟩⟩
  | took i task =>
    obtain ⟨-, q, left, hq, rfl⟩ := hstep
    exact .inl ⟨_, hq, fun qs hpushed hpopped => ⟨hpushed, congrArg (· ++ [task]) hpopped⟩⟩
  | posted | unlocked =>
    obtain ⟨q, hq, rfl⟩ := hstep
    exact .inl ⟨_, hq, fun qs hpushed hpopped => ⟨hpushed, hpopped⟩⟩
  | popCalled | popWaited =>
    obtain ⟨-, q, hq, rfl⟩ := hstep
    exact .inl ⟨_, hq, fun qs hpushed hpopped => ⟨hpushed, hpopped⟩⟩
  | called =>
    obtain ⟨-, _, -, rfl⟩ := hstep
    exact .inr ⟨rfl, rfl, rfl⟩
  | looped | terminated =>
    obtain ⟨-, -, rfl⟩ := hstep
    exact .inr ⟨rfl, rfl, rfl⟩
  | returned | suspended | resumed =>
    obtain ⟨-, rfl⟩ := hstep
    exact .inr ⟨rfl, rfl, rfl⟩
  | threadPost =>
    obtain ⟨_, -, rfl⟩ := hstep
    exact .inr ⟨rfl, rfl, rfl⟩
  | mainWait | joined =>
    obtain ⟨_, _, _, _, _, rfl⟩ := hstep
    exact .inr ⟨rfl, rfl, rfl⟩
  | executed | woken =>
    obtain ⟨_, _, _, rfl⟩ := hstep
    exact .inr ⟨rfl, rfl, rfl⟩

theorem queue_of_run (h : (pool throws script).Run es s) :
    ∃ qs, (SharedQueue.queue TPTask.lt).Run qs s.queue ∧
      SharedQueue.pushed qs = pushes es ∧ SharedQueue.popped qs = taken es := by
  apply h.invariant
  · rintro _ rfl
    exact ⟨[], .start rfl, rfl, rfl⟩
  · rintro es s e t ⟨qs, hrun, hpushed, hpopped⟩ ⟨-, hstep⟩
    rcases hstep.queue es with ⟨qe, hq, hqs⟩ | ⟨hq, hpushes, htaken⟩
    · obtain ⟨hpushed, hpopped⟩ := hqs qs hpushed hpopped
      exact ⟨qe :: qs, hrun.step hq, hpushed, hpopped⟩
    · rw [hq, hpushes, htaken]
      exact ⟨qs, hrun, hpushed, hpopped⟩

omit [TPTask α] [DecidableEq κ] in
theorem hand_moves (hmove : Moves e i p q) (es : List (Event n κ α)) :
    (executed (e :: es) : Multiset (PoolTask α)) + q.hand + taken es =
      executed es + p.hand + taken (e :: es) := by
  cases hmove with
  | took =>
    rename_i task
    simp only [executed, taken, Worker.hand, ← Multiset.coe_add, Multiset.coe_singleton, add_zero]
    ac_rfl
  | executed =>
    rename_i task
    have hafter : task.after.hand = 0 := by cases task <;> rfl
    simp only [executed, taken, hafter, ← Multiset.coe_add, Multiset.coe_singleton, add_zero]
    rfl
  | suspended | woken | resumed => rfl

omit [TPTask α] [DecidableEq κ] in
theorem executed_cons (hstill : ∀ i p q, ¬ Moves e i p q) (es : List (Event n κ α)) :
    executed (e :: es) = executed es ∧ taken (e :: es) = taken es := by
  cases e with
  | took => exact absurd .took (hstill _ _ _)
  | executed => exact absurd .executed (hstill _ _ _)
  | _ => exact ⟨rfl, rfl⟩

theorem hands_of_run (h : (pool throws script).Run es s) :
    (executed es : Multiset (PoolTask α)) + Threads.total Worker.hand s.worker = taken es := by
  apply h.invariant
  · rintro _ rfl
    exact (zero_add _).trans (Threads.total_const rfl)
  · rintro es s e t hs ⟨-, hstep⟩
    rcases hstep.worker with ⟨i, p, q, hmove, hp, ht⟩ | ⟨hstill, ht⟩
    · have htotal := Threads.total_update Worker.hand s.worker i q
      have hhand := hand_moves hmove es
      rw [hp, ← ht] at htotal
      apply add_right_cancel (b := p.hand + q.hand + taken es)
      calc ↑(executed (e :: es)) + Threads.total Worker.hand t.worker + (p.hand + q.hand + taken es)
        _ = (↑(executed (e :: es)) + q.hand + taken es) +
            (Threads.total Worker.hand t.worker + p.hand) := by ac_rfl
        _ = (↑(executed es) + p.hand + taken (e :: es)) +
            (Threads.total Worker.hand s.worker + q.hand) := by rw [hhand, htotal]
        _ = ↑(taken (e :: es)) + (p.hand + q.hand +
            (↑(executed es) + Threads.total Worker.hand s.worker)) := by ac_rfl
        _ = ↑(taken (e :: es)) + (p.hand + q.hand + taken es) := by rw [hs]
    · obtain ⟨hexecuted, htaken⟩ := executed_cons hstill es
      rw [ht, hexecuted, htaken]
      exact hs

variable [Fintype κ]

/-- What was pushed has been executed or is in a hand or in the queue. -/
theorem tasks_of_run (h : (pool throws script).Run es s) :
    (executed es : Multiset (PoolTask α)) + Threads.total Worker.hand s.worker + s.queue.pq =
      pushes es := by
  obtain ⟨qs, hrun, hpushed, hpopped⟩ := queue_of_run h
  rw [hands_of_run h, Multiset.coe_add, ← hpushed, ← hpopped]
  exact Multiset.coe_eq_coe.mpr (SharedQueue.accounts_of_run hrun).kept

theorem users_of_run (h : (pool throws script).Run es s) :
    users (executed es) <+~ users (taken es) ∧ users (taken es) <+~ users (pushes es) := by
  have hexecuted : (executed es : Multiset (PoolTask α)) ≤ taken es := by
    rw [← hands_of_run h]
    exact Multiset.le_add_right ..
  have htaken : (taken es : Multiset (PoolTask α)) ≤ pushes es := by
    rw [← tasks_of_run h, hands_of_run h]
    exact Multiset.le_add_right ..
  exact ⟨Multiset.coe_le.mp (Multiset.filterMap_le_filterMap _ hexecuted),
    Multiset.coe_le.mp (Multiset.filterMap_le_filterMap _ htaken)⟩

omit [Fintype κ] in
theorem run_push (h : (pool throws script).Run es s) (halive : s.alive) (thread : Thread n κ)
    (hpushes : Pushes s thread task c) (hidle : s.queue.position thread = .idle)
    (hlocked : s.queue.locked = false) (hpush : Heap.push TPTask.lt s.queue.pq task = pq) :
    (pool throws script).Run (.unlocked thread :: .posted thread :: .pushed thread task :: es)
      { s with queue := { s.queue with pq := pq, sem := s.queue.sem + 1 }, controller := c } := by
  have h := h.then_ (.pushed thread task) ⟨halive, _, _, ⟨hidle, hlocked, rfl⟩, hpushes, rfl⟩
  have h := h.then_ (.posted thread) ⟨halive, _, ⟨by simp, rfl⟩, rfl⟩
  have h := h.then_ (.unlocked thread) ⟨halive, _, ⟨by simp, rfl⟩, rfl⟩
  simpa only [SharedQueue.State.move, Function.update_idem, ← hidle, Function.update_eq_self, hpush,
    ← hlocked] using h

omit [Fintype κ] in
theorem run_add (h : (pool throws script).Run es s) (halive : s.alive)
    (hc : s.controller = .adding command task (left + 1))
    (hidle : s.queue.position .controller = .idle) (hlocked : s.queue.locked = false)
    (hpush : Heap.push TPTask.lt s.queue.pq task = pq) :
    (pool throws script).Run
      (.unlocked .controller :: .posted .controller :: .pushed .controller task :: es)
      { s with
        queue := { s.queue with pq := pq, sem := s.queue.sem + 1 }
        controller := .adding command task left } :=
  run_push h halive .controller ⟨command, left, hc, rfl⟩ hidle hlocked hpush

omit [Fintype κ] in
theorem run_addTask (h : (pool throws script).Run es s) (halive : s.alive)
    (hc : s.controller = .idle) (hscript : s.script = .addTask task :: rest)
    (hidle : s.queue.position .controller = .idle) (hlocked : s.queue.locked = false)
    (hpush : Heap.push TPTask.lt s.queue.pq (.user task) = pq) :
    (pool throws script).Run
      (.returned (.addTask task) :: .looped (.addTask task) :: .unlocked .controller ::
        .posted .controller :: .pushed .controller (.user task) :: .called (.addTask task) :: es)
      { s with
        queue := { s.queue with pq := pq, sem := s.queue.sem + 1 }
        controller := .idle
        script := rest } := by
  have h := h.then_ (.called (.addTask task)) ⟨halive, hc, _, hscript, rfl⟩
  have h := run_add h halive rfl hidle hlocked hpush
  have h := h.then_ (.looped (.addTask task)) ⟨halive, .adding, hidle, rfl⟩
  exact h.then_ (.returned (.addTask task)) ⟨halive, .done, rfl⟩

omit [Fintype κ] in
theorem run_take (h : (pool throws script).Run es s) (halive : s.alive) (i : Fin n)
    (hi : s.worker i = .popping) (hidle : s.queue.position (.worker i) = .idle)
    (hlocked : s.queue.locked = false) (hsem : s.queue.sem = sem + 1)
    (hpq : s.queue.pq = task :: rest) (hpop : Heap.pop TPTask.lt s.queue.pq = left) :
    (pool throws script).Run (.took i task :: .popWaited i :: .popCalled i none :: es)
      { s.move i (.got task) with queue := { s.queue with pq := left, sem := sem } } := by
  have h := h.then_ (.popCalled i none) ⟨halive, hi, _, ⟨hidle, rfl⟩, rfl⟩
  have h := h.then_ (.popWaited i)
    ⟨halive, hi, _, ⟨false, none, sem, by simp, hsem, rfl⟩, rfl⟩
  have h := h.then_ (.took i task)
    ⟨halive, hi, _, left, ⟨false, none, rest, by simp, hlocked, hpq, hpop.symm, rfl⟩, rfl⟩
  simpa only [SharedQueue.State.move, State.move, Function.update_idem, ← hidle,
    Function.update_eq_self] using h

end GreenCloud.ThreadPool
