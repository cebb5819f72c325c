import GreenCloud.ThreadPool

/-! The pool without its heap, its semaphores and its mutex: a bag of tasks, of which none is before
the one that is taken, and threads of which only the number is known. The pool of `ThreadPool` refines
it. -/

namespace GreenCloud

open CLib Transition

def ThreadPool.PoolTask.user? {α : Type} : PoolTask α → Option α
  | user task => some task
  | _ => none

namespace TaskBag

variable {α : Type}

/-- `hands` are the tasks in `Execute`. -/
@[ext]
structure State (α : Type) where
  queue : Multiset (ThreadPool.PoolTask α)
  hands : Multiset (ThreadPool.PoolTask α)
  asleep : Nat
  exited : Nat

/-- `ended` is the end of a `Stop`, or of the destructor. -/
inductive Event (α : Type)
  | added (task : ThreadPool.PoolTask α)
  | took (task : ThreadPool.PoolTask α)
  | executed (task : ThreadPool.PoolTask α)
  | woken
  | ended
  | silent

def init : State α := ⟨0, 0, 0, 0⟩

def State.busy (s : State α) : Nat := s.hands.card + s.asleep + s.exited

inductive Step [TPTask α] (n : Nat) : State α → Event α → State α → Prop
  | added : Step n s (.added task) { s with queue := task ::ₘ s.queue }
  | took : s.queue = task ::ₘ queue → (∀ other ∈ queue, TPTask.lt task other = false) →
    s.busy < n → Step n s (.took task) { s with queue := queue, hands := task ::ₘ s.hands }
  | returned : s.hands = .user task ::ₘ hands →
    Step n s (.executed (.user task)) { s with hands := hands }
  | stopped : s.hands = .stop ::ₘ hands →
    Step n s (.executed .stop) { s with hands := hands, exited := s.exited + 1 }
  | suspended : s.hands = .suspend ::ₘ hands →
    Step n s (.executed .suspend) { s with hands := hands, asleep := s.asleep + 1 }
  | woken : s.asleep = asleep + 1 → Step n s .woken { s with asleep := asleep }
  | ended : s.exited = n → Step n s .ended s
  | silent : Step n s .silent s

def bag [TPTask α] (n : Nat) : Transition (State α) (Event α) where
  init s := s = init
  step := Step n

def Event.user? : Event α → Option α
  | added task | took task | executed task => task.user?
  | _ => none

def State.tasks (s : State α) : Multiset α := s.queue.filterMap ThreadPool.PoolTask.user?

def State.working (s : State α) : Multiset α := s.hands.filterMap ThreadPool.PoolTask.user?

theorem State.card_working_le (s : State α) : s.working.card ≤ s.hands.card := by
  rw [working]
  induction s.hands using Quot.inductionOn with
  | h l => exact List.length_filterMap_le ..

section

variable [TPTask α] {n : Nat} {s t : State α} {user : α}

theorem Step.added_eq (h : Step n s (.added (.user user)) t) :
    t.tasks = user ::ₘ s.tasks ∧ t.working = s.working := by
  cases h
  exact ⟨Multiset.filterMap_cons_some _ _ _ rfl, rfl⟩

theorem Step.took_eq (h : Step n s (.took (.user user)) t) :
    s.tasks = user ::ₘ t.tasks ∧ t.working = user ::ₘ s.working ∧ s.busy < n := by
  cases h with
  | took hqueue _ hbusy =>
    refine ⟨?_, Multiset.filterMap_cons_some _ _ _ rfl, hbusy⟩
    rw [State.tasks, hqueue]
    exact Multiset.filterMap_cons_some _ _ _ rfl

theorem Step.executed_eq (h : Step n s (.executed (.user user)) t) :
    t.tasks = s.tasks ∧ s.working = user ::ₘ t.working := by
  cases h with
  | returned hhands =>
    refine ⟨rfl, ?_⟩
    rw [State.working, hhands]
    exact Multiset.filterMap_cons_some _ _ _ rfl

theorem Step.exited_le (h : Step n s e t) : s.exited ≤ t.exited := by
  cases h with
  | stopped => exact Nat.le_succ _
  | _ => exact Nat.le_refl _

theorem Step.keeps (h : Step n s e t) (he : e.user? = none) :
    t.tasks = s.tasks ∧ t.working = s.working := by
  cases h with
  | added => exact ⟨Multiset.filterMap_cons_none _ _ he, rfl⟩
  | took hqueue =>
    refine ⟨?_, Multiset.filterMap_cons_none _ _ he⟩
    rw [State.tasks, State.tasks, hqueue]
    exact (Multiset.filterMap_cons_none (f := ThreadPool.PoolTask.user?) _ _ he).symm
  | returned => cases he
  | stopped hhands | suspended hhands =>
    refine ⟨rfl, ?_⟩
    rw [State.working, State.working, hhands]
    exact (Multiset.filterMap_cons_none _ _ rfl).symm
  | woken | ended | silent => exact ⟨rfl, rfl⟩

end

end TaskBag

namespace ThreadPool

variable {n : Nat} {κ α : Type}

namespace Worker

def isSleeping : Worker α → Bool
  | suspending | parked => true
  | _ => false

def isExited : Worker α → Bool
  | exited => true
  | _ => false

def isFree : Worker α → Bool
  | popping | resuming => true
  | _ => false

theorem isExited_iff {w : Worker α} : w.isExited ↔ w = .exited := by
  cases w <;> simp [isExited]

theorem counts_once (w : Worker α) :
    w.hand.card + w.isSleeping.toNat + w.isExited.toNat + w.isFree.toNat = 1 := by
  cases w <;> rfl

end Worker

def State.bag (s : State n κ α) : TaskBag.State α where
  queue := s.queue.pq
  hands := Threads.total Worker.hand s.worker
  asleep := Threads.count Worker.isSleeping s.worker
  exited := Threads.count Worker.isExited s.worker

def Event.shown : Event n κ α → TaskBag.Event α
  | .pushed _ task => .added task
  | .took _ task => .took task
  | .executed _ task => .executed task
  | .woken _ => .woken
  | .returned .stop | .returned .destroy => .ended
  | _ => .silent

theorem bag_init (script : List (Command α)) : (init script : State n κ α).bag = TaskBag.init := by
  have hhands : Threads.total Worker.hand (init script : State n κ α).worker = 0 :=
    Threads.total_const rfl
  have hasleep : Threads.count Worker.isSleeping (init script : State n κ α).worker = 0 :=
    Threads.count_const rfl
  have hexited : Threads.count Worker.isExited (init script : State n κ α).worker = 0 :=
    Threads.count_const rfl
  rw [State.bag, hhands, hasleep, hexited]
  rfl

theorem busy_bag (s : State n κ α) : s.bag.busy + Threads.count Worker.isFree s.worker = n := by
  have hcard : s.bag.hands.card = ∑ i, (s.worker i).hand.card :=
    Multiset.card_sum Finset.univ fun i => (s.worker i).hand
  have hone := Finset.sum_congr (rfl : Finset.univ = Finset.univ) fun i (_ : i ∈ Finset.univ) =>
    (s.worker i).counts_once
  rw [Finset.sum_add_distrib, Finset.sum_add_distrib, Finset.sum_add_distrib, ← hcard,
    ← Finset.card_eq_sum_ones, Finset.card_univ, Fintype.card_fin] at hone
  exact hone

variable [TPTask α] [DecidableEq κ] {throws : α → Prop} {script : List (Command α)}
variable {es : List (Event n κ α)} {e : Event n κ α} {s t : State n κ α}

omit [TPTask α] [DecidableEq κ] in
theorem bag_move (hp : s.worker i = p) (q : Worker α) (ht : t.worker = Function.update s.worker i q) :
    t.bag.hands + p.hand = s.bag.hands + q.hand ∧
    t.bag.asleep + p.isSleeping.toNat = s.bag.asleep + q.isSleeping.toNat ∧
    t.bag.exited + p.isExited.toNat = s.bag.exited + q.isExited.toNat := by
  simp only [State.bag, ht, ← hp]
  exact ⟨Threads.total_update _ _ _ _, Threads.count_update _ _ _ _, Threads.count_update _ _ _ _⟩

omit [TPTask α] [DecidableEq κ] in
theorem bag_eq (hq : t.queue.pq = s.queue.pq) (ht : t.worker = s.worker) : t.bag = s.bag := by
  simp only [State.bag, hq, ht]

omit [DecidableEq κ] in
theorem bag_still (hq : t.queue.pq = s.queue.pq) (ht : t.worker = s.worker) :
    TaskBag.Step n s.bag .silent t.bag := by
  rw [bag_eq hq ht]
  exact .silent

omit [TPTask α] [DecidableEq κ] in
theorem bag_asleep (hp : s.worker i = p) (ht : t.worker = Function.update s.worker i q)
    (hq : t.queue = s.queue) (hhand : p.hand = q.hand) (hexit : p.isExited = q.isExited) :
    t.bag = { s.bag with asleep := t.bag.asleep } ∧
      t.bag.asleep + p.isSleeping.toNat = s.bag.asleep + q.isSleeping.toNat := by
  obtain ⟨hhands, hasleep, hexited⟩ := bag_move hp q ht
  rw [hhand] at hhands
  rw [hexit] at hexited
  refine ⟨TaskBag.State.ext ?_ (add_right_cancel hhands) rfl (Nat.add_right_cancel hexited), hasleep⟩
  simp only [State.bag, hq]

theorem bag_pushed (h : QueueStep s (.pushed thread task) q) (hq : t.queue = q)
    (ht : t.worker = s.worker) : TaskBag.Step n s.bag (.added task) t.bag := by
  have hqueue : t.bag.queue = task ::ₘ s.bag.queue := by
    rw [State.bag, hq]
    exact Multiset.coe_eq_coe.mpr ((queueStep_pushed h).trans (List.perm_append_singleton _ _))
  have hbag : t.bag = { s.bag with queue := task ::ₘ s.bag.queue } := by
    apply TaskBag.State.ext
    · exact hqueue
    all_goals simp only [State.bag, ht]
  rw [hbag]
  exact .added

/-- There is a free worker where one takes a task, and nothing that it leaves behind is after it. -/
theorem bag_took (hheap : CLib.Heap.IsHeap TPTask.lt s.queue.pq) (hi : s.worker i = .popping)
    (h : QueueStep s (.popped (.worker i) task left) q) (hq : t.queue = q)
    (ht : t.worker = Function.update s.worker i (.got task)) :
    TaskBag.Step n s.bag (.took task) t.bag := by
  have hqueue : s.bag.queue = task ::ₘ t.bag.queue := by
    rw [State.bag, State.bag, hq]
    exact Multiset.coe_eq_coe.mpr (queueStep_popped h)
  obtain ⟨hhands, hasleep, hexited⟩ := bag_move hi (.got task) ht
  have hhands : t.bag.hands = task ::ₘ s.bag.hands := by
    calc t.bag.hands
      _ = t.bag.hands + (Worker.popping : Worker α).hand := (add_zero _).symm
      _ = s.bag.hands + {task} := hhands
      _ = task ::ₘ s.bag.hands := by rw [add_comm, Multiset.singleton_add]
  have hbag : t.bag = { s.bag with queue := t.bag.queue, hands := task ::ₘ s.bag.hands } :=
    TaskBag.State.ext rfl hhands hasleep hexited
  have hgreatest : ∀ other ∈ t.bag.queue, TPTask.lt task other = false := by
    intro other hother
    obtain ⟨_, _, rest, -, -, hpq, -⟩ := h
    have hmem : other ∈ s.bag.queue := by
      rw [hqueue]
      exact Multiset.mem_cons_of_mem hother
    rw [hpq] at hheap
    have hmem : other ∈ s.queue.pq := hmem
    rw [hpq] at hmem
    exact hheap.top hmem
  have hfree : 0 < Threads.count Worker.isFree s.worker := Threads.count_pos (by rw [hi]; rfl)
  have hbusy := busy_bag s
  rw [hbag]
  exact .took hqueue hgreatest (by omega)

omit [DecidableEq κ] in
theorem bag_executed (hi : s.worker i = .got task) (hq : t.queue = s.queue)
    (ht : t.worker = Function.update s.worker i task.after) :
    TaskBag.Step n s.bag (.executed task) t.bag := by
  obtain ⟨hhands, hasleep, hexited⟩ := bag_move hi task.after ht
  have hhand : task.after.hand = 0 := by cases task <;> rfl
  have htask : s.bag.hands = task ::ₘ t.bag.hands := by
    rw [hhand, add_zero] at hhands
    rw [← hhands, add_comm]
    exact Multiset.singleton_add _ _
  have hqueue : t.bag.queue = s.bag.queue := by rw [State.bag, State.bag, hq]
  cases task with
  | user task =>
    have hbag : t.bag = { s.bag with hands := t.bag.hands } :=
      TaskBag.State.ext hqueue rfl hasleep hexited
    rw [hbag]
    exact .returned htask
  | stop =>
    have hbag : t.bag = { s.bag with hands := t.bag.hands, exited := s.bag.exited + 1 } :=
      TaskBag.State.ext hqueue rfl hasleep hexited
    rw [hbag]
    exact .stopped htask
  | suspend =>
    have hbag : t.bag = { s.bag with hands := t.bag.hands, asleep := s.bag.asleep + 1 } :=
      TaskBag.State.ext hqueue rfl hasleep hexited
    rw [hbag]
    exact .suspended htask

def State.Ended (s : State n κ α) : Prop := ∀ i, s.worker i = .exited

def State.Joined (s : State n κ α) : Prop :=
  match s.controller with
  | .joining _ left => ∀ i : Fin n, i.val + left < n → s.worker i = .exited
  | .done .destroy => s.Ended
  | .done .stop | .waiting .stop _ | .waiting .destroy _ => False
  | _ => s.joined ≠ 0 → s.Ended

theorem Step.exited (hstep : Step throws s e t) (hi : s.worker i = .exited) : t.worker i = .exited := by
  rcases hstep.worker with ⟨j, p, q, hmove, hp, ht⟩ | ⟨-, ht⟩
  · have hne : i ≠ j := by
      rintro rfl
      rw [hi] at hp
      subst hp
      cases hmove
    rw [ht, Function.update_of_ne hne, hi]
  · rw [ht, hi]

omit [TPTask α] [DecidableEq κ] in
theorem State.Joined.mono (h : s.Joined) (hc : t.controller = s.controller) (hj : t.joined = s.joined)
    (hw : ∀ i, s.worker i = .exited → t.worker i = .exited) : t.Joined := by
  have hended : s.Ended → t.Ended := fun h i => hw i (h i)
  unfold State.Joined at h ⊢
  rw [hc, hj]
  generalize s.controller = c at h
  split at h
  · exact fun i hi => hw i (h i hi)
  · exact hended h
  · exact h
  · exact h
  · exact h
  · exact fun hne => hended (h hne)

theorem State.Joined.step (h : s.Joined) (hstep : Step throws s e t) : t.Joined := by
  have hexited := fun i => hstep.exited (i := i)
  cases e with
  | called command =>
    obtain ⟨hc, _, -, rfl⟩ := hstep
    rw [State.Joined, hc] at h
    cases command with
    | destroy =>
      unfold State.Joined Command.start
      by_cases hjoined : s.joined = 0
      · simp only [hjoined, ↓reduceIte]
        exact absurd rfl
      · simp only [hjoined, ↓reduceIte]
        exact h hjoined
    | suspend | resume | stop | addTask => exact h
  | looped command =>
    obtain ⟨hloop, -, rfl⟩ := hstep
    have h : s.joined ≠ 0 → s.Ended := by
      unfold State.Joined at h
      generalize s.controller = c at h hloop
      cases hloop <;> exact h
    cases command with
    | stop | destroy => exact fun i hi => absurd hi (by omega)
    | suspend | resume | addTask => exact h
  | returned command =>
    obtain ⟨hend, rfl⟩ := hstep
    unfold State.Joined at h
    generalize s.controller = c at h hend
    cases hend with
    | joining => exact fun _ i => h i i.isLt
    | waiting =>
      cases command with
      | stop | destroy => exact h.elim
      | suspend | resume | addTask => exact h
    | done =>
      cases command with
      | stop => exact h.elim
      | destroy => exact fun _ => h
      | suspend | resume | addTask => exact h
  | threadPost =>
    obtain ⟨left, hc, rfl⟩ := hstep
    rw [State.Joined, hc] at h
    exact h
  | mainWait =>
    obtain ⟨command, left, sem, hc, -, rfl⟩ := hstep
    rw [State.Joined, hc] at h
    cases command with
    | stop | destroy => exact h.elim
    | suspend | resume | addTask => exact h
  | joined i =>
    obtain ⟨command, left, hc, hi, hi', rfl⟩ := hstep
    rw [State.Joined, hc] at h
    intro j hj
    by_cases hij : j.val + (left + 1) < n
    · exact h j hij
    · have hij : j = i := Fin.ext (by omega)
      rw [hij]
      exact hi'
  | pushed thread task =>
    obtain ⟨q, c, -, hpush, rfl⟩ := hstep
    cases thread with
    | controller =>
      obtain ⟨command, left, hc, rfl⟩ := hpush
      rw [State.Joined, hc] at h
      exact h
    | worker i =>
      obtain ⟨_, _, -, -, rfl⟩ := hpush
      exact h.mono rfl rfl hexited
    | other a =>
      obtain ⟨_, -, rfl⟩ := hpush
      exact h.mono rfl rfl hexited
  | posted | unlocked =>
    obtain ⟨_, -, rfl⟩ := hstep
    exact h.mono rfl rfl hexited
  | popCalled | popWaited =>
    obtain ⟨-, _, -, rfl⟩ := hstep
    exact h.mono rfl rfl hexited
  | took =>
    obtain ⟨-, _, _, -, rfl⟩ := hstep
    exact h.mono rfl rfl hexited
  | executed | woken =>
    obtain ⟨_, _, _, rfl⟩ := hstep
    exact h.mono rfl rfl hexited
  | suspended | resumed =>
    obtain ⟨-, rfl⟩ := hstep
    exact h.mono rfl rfl hexited
  | terminated =>
    obtain ⟨-, -, rfl⟩ := hstep
    exact h.mono rfl rfl hexited

theorem joined_of_run (h : (pool throws script).Run es s) : s.Joined := by
  apply h.invariant (P := fun _ s => s.Joined)
  · rintro _ rfl
    exact absurd rfl
  · rintro es s e t hs ⟨-, hstep⟩
    exact hs.step hstep

omit [TPTask α] [DecidableEq κ] in
theorem State.Joined.ended {command : Command α} (h : s.Joined) (hend : s.controller.Finished command)
    (hjoins : command = .stop ∨ command = .destroy) : s.bag.exited = n := by
  have hended : s.Ended := by
    unfold State.Joined at h
    generalize s.controller = c at h hend
    rcases hjoins with rfl | rfl <;> cases hend with
    | joining => exact fun i => h i i.isLt
    | waiting => exact h.elim
    | done => first | exact h | exact h.elim
  have hcount : Threads.count Worker.isExited s.worker = Fintype.card (Fin n) :=
    Threads.count_eq_card.mpr fun i => Worker.isExited_iff.mpr (hended i)
  rw [Fintype.card_fin] at hcount
  exact hcount

theorem Step.bag (hstep : Step throws s e t) (hheap : CLib.Heap.IsHeap TPTask.lt s.queue.pq)
    (hjoined : s.Joined) : TaskBag.Step n s.bag e.shown t.bag := by
  cases e with
  | pushed thread task =>
    obtain ⟨q, c, hq, -, rfl⟩ := hstep
    exact bag_pushed hq rfl rfl
  | took i task =>
    obtain ⟨hi, q, left, hq, rfl⟩ := hstep
    exact bag_took hheap hi hq rfl rfl
  | executed i task =>
    obtain ⟨hi, -, -, rfl⟩ := hstep
    exact bag_executed hi rfl rfl
  | woken i =>
    obtain ⟨sem, hi, -, rfl⟩ := hstep
    obtain ⟨hbag, hasleep⟩ := bag_asleep (t := { s.move i .resuming with threadSem := sem })
      hi rfl rfl rfl rfl
    rw [hbag]
    exact .woken hasleep.symm
  | suspended i =>
    obtain ⟨hi, rfl⟩ := hstep
    obtain ⟨hbag, hasleep⟩ := bag_asleep (t := { s.move i .parked with mainSem := s.mainSem + 1 })
      hi rfl rfl rfl rfl
    rw [hbag, Nat.add_right_cancel hasleep]
    exact .silent
  | resumed i =>
    obtain ⟨hi, rfl⟩ := hstep
    obtain ⟨hbag, hasleep⟩ := bag_asleep (t := { s.move i .popping with mainSem := s.mainSem + 1 })
      hi rfl rfl rfl rfl
    rw [hbag, Nat.add_right_cancel hasleep]
    exact .silent
  | returned command =>
    obtain ⟨hend, rfl⟩ := hstep
    have hsame : ({ s with controller := .idle } : State n κ α).bag = s.bag := rfl
    rw [hsame]
    cases command with
    | stop => exact .ended (hjoined.ended hend (.inl rfl))
    | destroy => exact .ended (hjoined.ended hend (.inr rfl))
    | suspend | resume | addTask => exact .silent
  | called =>
    obtain ⟨-, _, -, rfl⟩ := hstep
    exact .silent
  | looped | terminated =>
    obtain ⟨-, -, rfl⟩ := hstep
    exact .silent
  | threadPost =>
    obtain ⟨_, -, rfl⟩ := hstep
    exact .silent
  | mainWait | joined =>
    obtain ⟨_, _, _, _, _, rfl⟩ := hstep
    exact .silent
  | posted | unlocked =>
    obtain ⟨q, hq, rfl⟩ := hstep
    exact bag_still (queueStep_pq hq (by simp) (by simp)) rfl
  | popCalled | popWaited =>
    obtain ⟨-, q, hq, rfl⟩ := hstep
    exact bag_still (queueStep_pq hq (by simp) (by simp)) rfl

variable [Fintype κ]

theorem bag_of_step (h : (pool throws script).Run es s) (hstep : Step throws s e t) :
    TaskBag.Step n s.bag e.shown t.bag := by
  obtain ⟨qs, hqueue, -⟩ := queue_of_run h
  exact hstep.bag (SharedQueue.accounts_of_run hqueue).heap (joined_of_run h)

/-- In every run of the pool, with any number of workers and of other threads that add tasks, and
whatever the controlling thread calls: what the threads do with the heap, the semaphores and the mutex
amounts to steps of the bag, one for one. A task that is taken is one of the queue with none before it;
the workers with a task, asleep or exited are fewer than all when it is; it is executed once; and a
`Stop` ends behind the last worker. -/
theorem run_refines_bag (h : (pool throws script).Run es s) :
    (TaskBag.bag n).Run (es.map Event.shown) s.bag := by
  rw [← List.filterMap_eq_map]
  apply h.refine State.bag
  · rintro _ rfl
    exact bag_init script
  · rintro es s e t - - ⟨⟩
  · rintro es s e t _ hrun ⟨-, hstep⟩ ⟨⟩
    exact bag_of_step hrun hstep

/-- Two tasks come in before the worker takes one. It takes the one that came last, and leaves the
other one. -/
theorem run_refines_bag_high : ∃ (es : List (Event 1 Empty TaskPriority)) (s : State 1 Empty TaskPriority),
    (pool (fun _ => False) [.addTask .medium, .addTask .high]).Run es s ∧
    s.bag.queue = {.user .medium} ∧ s.bag.hands = {.user .high} ∧
    (TaskBag.bag 1).Run (es.map Event.shown) s.bag := by
  have h : (pool (n := 1) (κ := Empty) (α := TaskPriority) (fun _ => False) [.addTask .medium, .addTask .high]).Run []
      (init [.addTask .medium, .addTask .high]) := .start rfl
  have h := run_addTask h rfl rfl rfl rfl rfl (Heap.push_nil _ _)
  have hpush : Heap.push TPTask.lt [PoolTask.user TaskPriority.medium] (.user .high) =
      [.user .high, .user .medium] := (Heap.push_singleton _ _ _).trans rfl
  have h := run_addTask h rfl rfl rfl rfl rfl hpush
  have h := run_take h rfl 0 rfl rfl rfl rfl rfl (Heap.pop_pair _ _ _)
  exact ⟨_, _, h, rfl, rfl, run_refines_bag h⟩

/-! A pool inside a program, and how many of its workers are at work on what they have taken. -/

section

variable {p q : State n Empty α} {e : Event n Empty α} {task : α} {atWork : Nat}

/-- A step of a thread of a pool whose tasks throw nothing. -/
abbrev PoolStep (p : State n Empty α) (e : Event n Empty α) (q : State n Empty α) : Prop :=
  p.alive ∧ Step (fun _ => False) p e q

structure Holds (p : State n Empty α) (atWork : Nat) : Prop where
  reached : ∃ script es, (pool (fun _ => False) script).Run es p
  le : atWork ≤ p.bag.working.card

namespace Holds

theorem init (script : List (Command α)) : Holds (ThreadPool.init script : State n Empty α) 0 where
  reached := ⟨script, [], .start rfl⟩
  le := Nat.zero_le _

theorem bag (h : Holds p atWork) (hstep : PoolStep p e q) :
    (∃ script es, (pool (fun _ => False) script).Run es q) ∧ TaskBag.Step n p.bag e.shown q.bag := by
  obtain ⟨script, es, hrun⟩ := h.reached
  exact ⟨⟨script, _, hrun.step hstep⟩, bag_of_step hrun hstep.2⟩

theorem mono (h : Holds p atWork) (hle : atWork' ≤ atWork) : Holds p atWork' where
  reached := h.reached
  le := hle.trans h.le

theorem added (h : Holds p atWork) (hstep : PoolStep p (.pushed thread (.user task)) q) :
    Holds q atWork ∧ q.bag.tasks = task ::ₘ p.bag.tasks := by
  obtain ⟨hreached, hbag⟩ := h.bag hstep
  obtain ⟨htasks, hworking⟩ := hbag.added_eq
  exact ⟨⟨hreached, hworking ▸ h.le⟩, htasks⟩

theorem took (h : Holds p atWork) (hstep : PoolStep p (.took i (.user task)) q) :
    Holds q (atWork + 1) ∧ p.bag.tasks = task ::ₘ q.bag.tasks ∧ atWork < n := by
  obtain ⟨hreached, hbag⟩ := h.bag hstep
  obtain ⟨htasks, hworking, hless⟩ := hbag.took_eq
  have hle := h.le.trans p.bag.card_working_le
  unfold TaskBag.State.busy at hless
  refine ⟨⟨hreached, ?_⟩, htasks, by omega⟩
  rw [hworking, Multiset.card_cons]
  exact Nat.succ_le_succ h.le

theorem returned (h : Holds p atWork) (hstep : PoolStep p (.executed i (.user task)) q)
    (hless : atWork < p.bag.working.card) : Holds q atWork ∧ q.bag.tasks = p.bag.tasks := by
  obtain ⟨hreached, hbag⟩ := h.bag hstep
  obtain ⟨htasks, hworking⟩ := hbag.executed_eq
  rw [hworking, Multiset.card_cons] at hless
  exact ⟨⟨hreached, Nat.le_of_lt_succ hless⟩, htasks⟩

theorem keeps (h : Holds p atWork) (hstep : PoolStep p e q) (he : e.shown.user? = none) :
    Holds q atWork ∧ q.bag.tasks = p.bag.tasks := by
  obtain ⟨hreached, hbag⟩ := h.bag hstep
  obtain ⟨htasks, hworking⟩ := hbag.keeps he
  exact ⟨⟨hreached, hworking ▸ h.le⟩, htasks⟩

theorem exited_le (h : Holds p atWork) (hstep : PoolStep p e q) : p.bag.exited ≤ q.bag.exited :=
  (h.bag hstep).2.exited_le

theorem exited_lt (h : Holds p atWork) (hstep : PoolStep p (.took i (.user task)) q) :
    p.bag.exited < n := by
  have hless := (h.bag hstep).2.took_eq.2.2
  unfold TaskBag.State.busy at hless
  omega

theorem ended (h : Holds p atWork) (hstep : PoolStep p (.returned .destroy) q) :
    q.bag.exited = n ∧ atWork = 0 := by
  have hended := (h.bag hstep).2
  generalize q.bag = b at hended
  cases hended with
  | ended hexited =>
    have hle := h.le.trans p.bag.card_working_le
    have hbusy := busy_bag p
    unfold TaskBag.State.busy at hbusy
    exact ⟨hexited, by omega⟩

end Holds

end

end ThreadPool

end GreenCloud
