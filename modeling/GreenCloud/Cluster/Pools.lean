import GreenCloud.Cluster.Simulation
import GreenCloud.TaskBag

/-! The master and the slave with the pools of `ThreadPool` in them, where `cluster` has multisets and
the numbers of the workers. -/

namespace GreenCloud.Cluster

open CLib Transition
open ThreadPool (PoolTask PoolStep Holds)

/-- The tasks of both programs have the priority that `RETask` has by default. -/
instance : TPTask Task := ⟨fun _ => .medium⟩

instance : TPTask DriverData := ⟨fun _ => .medium⟩

/-- The tasks that wait are those of the pools; `rest` has everything else. -/
structure Threaded (n m : Nat) where
  master : ThreadPool.State n Empty Task
  slave : ThreadPool.State m Empty DriverData
  rest : State

inductive ThreadedEvent (n m : Nat)
  | rest (e : Event)
  | master (e : ThreadPool.Event n Empty Task)
  | slave (e : ThreadPool.Event m Empty DriverData)

def Threaded.cluster (s : Threaded n m) : State :=
  { s.rest with queue := s.master.bag.tasks, slaveQueue := s.slave.bag.tasks }

/-- One step of a thread, or of the network. Where a pool takes a task, one of its workers goes on to
execute it, and `Execute` returns when it has nothing left to do. -/
inductive ThreadedStep (n m : Nat) : Threaded n m → ThreadedEvent n m → Threaded n m → Prop
  | rest : Step n m s.cluster e c → c.queue = s.cluster.queue → c.slaveQueue = s.cluster.slaveQueue →
    ThreadedStep n m s (.rest e) { s with rest := c }
  | addTask : s.rest.main = .adding task → PoolStep s.master (.pushed .controller (.user task)) p →
    ThreadedStep n m s (.master (.pushed .controller (.user task)))
      { s with master := p, rest := { s.rest with main := .waiting } }
  | pop : PoolStep s.master (.took i (.user task)) p →
    ThreadedStep n m s (.master (.took i (.user task)))
      { s with master := p, rest := { s.rest with workers := .popped task ::ₘ s.rest.workers } }
  | returned : PoolStep s.master (.executed i (.user task)) p →
    s.rest.workers.card < s.master.bag.working.card →
    ThreadedStep n m s (.master (.executed i (.user task))) { s with master := p }
  | master : PoolStep s.master e p → e.shown.user? = none →
    ThreadedStep n m s (.master e) { s with master := p }
  | slaveAddTask : s.rest.slaveMain = some data →
    PoolStep s.slave (.pushed .controller (.user data)) p →
    ThreadedStep n m s (.slave (.pushed .controller (.user data)))
      { s with slave := p, rest := { s.rest with slaveMain := none } }
  | slavePop : PoolStep s.slave (.took i (.user data)) p →
    ThreadedStep n m s (.slave (.took i (.user data)))
      { s with slave := p, rest := { s.rest with
          slaveWorkers := .popped data ::ₘ s.rest.slaveWorkers } }
  | slaveReturned : PoolStep s.slave (.executed i (.user data)) p →
    s.rest.slaveWorkers.card < s.slave.bag.working.card →
    ThreadedStep n m s (.slave (.executed i (.user data))) { s with slave := p }
  | slave : PoolStep s.slave e p → e.shown.user? = none →
    ThreadedStep n m s (.slave e) { s with slave := p }

/-- The main threads call nothing but `AddTask`, with any tasks. -/
def threaded (n m : Nat) (storage : MmapStorage) : Transition (Threaded n m) (ThreadedEvent n m) where
  init s := ∃ (tasks : List Task) (datas : List DriverData), s = ⟨ThreadPool.init (tasks.map .addTask),
    ThreadPool.init (datas.map .addTask), init storage⟩
  step := ThreadedStep n m

def poolEvent : ThreadPool.Event n Empty τ → Option Event
  | .pushed _ (.user _) | .took _ (.user _) => some .silent
  | _ => none

def ThreadedEvent.cluster : ThreadedEvent n m → Option Event
  | rest e => some e
  | master e => poolEvent e
  | slave e => poolEvent e

variable {n m : Nat} {storage : MmapStorage} {es : List (ThreadedEvent n m)} {s t : Threaded n m}

theorem cons_ne {α : Type} (a : α) (s : Multiset α) : a ::ₘ s ≠ s := by
  intro h
  have hcard := congrArg Multiset.card h
  rw [Multiset.card_cons] at hcard
  omega

theorem Step.card_le {s t : State} (h : Step n m s e t) (hqueue : t.queue = s.queue)
    (hslave : t.slaveQueue = s.slaveQueue) :
    t.workers.card ≤ s.workers.card ∧ t.slaveWorkers.card ≤ s.slaveWorkers.card := by
  cases h with
  | addTask => exact absurd hqueue (cons_ne _ _)
  | slaveAddTask => exact absurd hslave (cons_ne _ _)
  | pop hpop => exact absurd (hpop.symm.trans hqueue.symm) (cons_ne _ _)
  | slavePop hpop => exact absurd (hpop.symm.trans hslave.symm) (cons_ne _ _)
  | handlerToId hworkers | sendto hworkers | replay hworkers | slaveExecute hworkers
  | slaveCopy hworkers | slaveReturn hworkers | slaveSendReply hworkers => simp [hworkers]
  | _ => exact ⟨le_rfl, le_rfl⟩

structure Threaded.Held (s : Threaded n m) : Prop where
  master : Holds s.master s.rest.workers.card
  slave : Holds s.slave s.rest.slaveWorkers.card

theorem Threaded.Held.step (h : s.Held) (hstep : ThreadedStep n m s e t) : t.Held := by
  cases hstep with
  | rest hinner hqueue hqueue' =>
    obtain ⟨hworkers, hslaveWorkers⟩ := hinner.card_le hqueue hqueue'
    exact ⟨h.master.mono hworkers, h.slave.mono hslaveWorkers⟩
  | addTask _ hpool => exact ⟨(h.master.added hpool).1, h.slave⟩
  | pop hpool => exact ⟨Multiset.card_cons _ _ ▸ (h.master.took hpool).1, h.slave⟩
  | returned hpool hless => exact ⟨(h.master.returned hpool hless).1, h.slave⟩
  | master hpool huser => exact ⟨(h.master.keeps hpool huser).1, h.slave⟩
  | slaveAddTask _ hpool => exact ⟨h.master, (h.slave.added hpool).1⟩
  | slavePop hpool => exact ⟨h.master, Multiset.card_cons _ _ ▸ (h.slave.took hpool).1⟩
  | slaveReturned hpool hless => exact ⟨h.master, (h.slave.returned hpool hless).1⟩
  | slave hpool huser => exact ⟨h.master, (h.slave.keeps hpool huser).1⟩

theorem held_of_run (h : (threaded n m storage).Run es s) : s.Held := by
  apply h.invariant (P := fun _ s => s.Held)
  · rintro _ ⟨tasks, datas, rfl⟩
    exact ⟨.init _, .init _⟩
  · intro es s e t hs hstep
    exact hs.step hstep

theorem poolEvent_eq_none {e : ThreadPool.Event n Empty τ} (h : e.shown.user? = none) :
    poolEvent e = none := by
  cases e with
  | pushed _ task | took _ task =>
    cases task with
    | user => cases h
    | stop | suspend => rfl
  | _ => rfl

/-- `cluster` takes the same step or stands still. -/
theorem ThreadedStep.cluster (hstep : ThreadedStep n m s e t) (h : s.Held) :
    (e.cluster = none ∧ t.cluster = s.cluster) ∨
      ∃ x, e.cluster = some x ∧ Step n m s.cluster x t.cluster := by
  cases hstep with
  | rest hinner hqueue hqueue' =>
    rename_i x c
    have hqueue : c.queue = s.master.bag.tasks := hqueue
    have hqueue' : c.slaveQueue = s.slave.bag.tasks := hqueue'
    have hsame : ({ s with rest := c } : Threaded n m).cluster = c := by
      simp only [Threaded.cluster, ← hqueue, ← hqueue']
    exact .inr ⟨x, rfl, hsame.symm ▸ hinner⟩
  | addTask hmain hpool =>
    have htasks := (h.master.added hpool).2
    refine .inr ⟨.silent, rfl, ?_⟩
    simp only [Threaded.cluster, htasks]
    exact .addTask hmain
  | pop hpool =>
    obtain ⟨-, htasks, hless⟩ := h.master.took hpool
    exact .inr ⟨.silent, rfl, .pop htasks hless⟩
  | returned hpool hless =>
    have htasks := (h.master.returned hpool hless).2
    exact .inl ⟨rfl, by simp only [Threaded.cluster, htasks]⟩
  | master hpool huser =>
    have htasks := (h.master.keeps hpool huser).2
    exact .inl ⟨poolEvent_eq_none huser, by simp only [Threaded.cluster, htasks]⟩
  | slaveAddTask hmain hpool =>
    have htasks := (h.slave.added hpool).2
    refine .inr ⟨.silent, rfl, ?_⟩
    simp only [Threaded.cluster, htasks]
    exact .slaveAddTask hmain
  | slavePop hpool =>
    obtain ⟨-, htasks, hless⟩ := h.slave.took hpool
    exact .inr ⟨.silent, rfl, .slavePop htasks hless⟩
  | slaveReturned hpool hless =>
    have htasks := (h.slave.returned hpool hless).2
    exact .inl ⟨rfl, by simp only [Threaded.cluster, htasks]⟩
  | slave hpool huser =>
    have htasks := (h.slave.keeps hpool huser).2
    exact .inl ⟨poolEvent_eq_none huser, by simp only [Threaded.cluster, htasks]⟩

/-- With the threads of both pools, their heaps, semaphores and mutexes, in any number and in any order:
the two programs and the network do nothing that `cluster` does not. -/
theorem run_threaded (h : (threaded n m storage).Run es s) :
    (cluster n m storage).Run (es.filterMap ThreadedEvent.cluster) s.cluster := by
  apply h.refine Threaded.cluster
  · rintro _ ⟨tasks, datas, rfl⟩
    rw [Threaded.cluster, ThreadPool.bag_init, ThreadPool.bag_init]
    rfl
  · intro es s e t hrun hstep hnone
    rcases hstep.cluster (held_of_run hrun) with ⟨-, hsame⟩ | ⟨x, hsome, -⟩
    · exact hsame
    · rw [hnone] at hsome
      cases hsome
  · intro es s e t x hrun hstep hx
    rcases hstep.cluster (held_of_run hrun) with ⟨hnone, -⟩ | ⟨y, hsome, hstep⟩
    · rw [hnone] at hx
      cases hx
    · rw [hx] at hsome
      cases hsome
      exact hstep

def flushOne : DriverData := ⟨0, 0, .replicate handleSize 0, 0, .flush, 0, []⟩

theorem accepted_flushOne : Accepted flushOne :=
  ⟨⟨flushOne, fun _ => 0⟩, ⟨NBDDriverProxy.ntohl NBDDriverProxy.requestMagic, 0x03000000,
    .replicate handleSize 0, 0, 0⟩, [], [], by decide⟩

/-- A worker of the master gets a `FLUSH` from the queue, answers it and returns. -/
theorem run_threaded_flush : ∃ (es : List (ThreadedEvent 1 1)) (s : Threaded 1 1),
    es.filterMap ThreadedEvent.cluster =
      [.answered flushOne (NBDDriverProxy.initReply 0 flushOne.handler), .silent, .silent,
        .received flushOne] ∧
    s.cluster.queue = 0 ∧
    (cluster 1 1 ⟨[65]⟩).Run (es.filterMap ThreadedEvent.cluster) s.cluster := by
  have hleft : [] = Heap.pop TPTask.lt (Heap.push TPTask.lt [] (PoolTask.user (Task.replay flushOne))) := by
    rw [Heap.push_nil]
    rfl
  have hreplay : ∀ s : Threaded 1 1, s.rest.workers = .popped (.replay flushOne) ::ₘ 0 →
      ThreadedStep 1 1 s (.rest (.answered flushOne (NBDDriverProxy.initReply 0 flushOne.handler)))
        { s with rest := { s.cluster with workers := 0 } } :=
    fun s hworkers => .rest (.replay hworkers rfl) rfl rfl
  have h : (threaded 1 1 ⟨[65]⟩).Run [] ⟨ThreadPool.init [.addTask (.replay flushOne)],
      ThreadPool.init [], init ⟨[65]⟩⟩ := .start ⟨[.replay flushOne], [], rfl⟩
  have h := h.then_ (.rest (.received flushOne))
    (.rest (.receiveRequest rfl accepted_flushOne (by decide)) rfl rfl)
  have h := h.then_ (.master (.called (.addTask (.replay flushOne))))
    (.master ⟨rfl, rfl, [], rfl, rfl⟩ rfl)
  have h := h.then_ (.master (.pushed .controller (.user (.replay flushOne))))
    (.addTask rfl ⟨rfl, _, _, ⟨rfl, rfl, rfl⟩, ⟨_, 0, rfl, rfl⟩, rfl⟩)
  have h := h.then_ (.master (.posted .controller))
    (.master ⟨rfl, _, ⟨rfl, rfl⟩, rfl⟩ rfl)
  have h := h.then_ (.master (.popCalled 0 none)) (.master ⟨rfl, rfl, _, ⟨rfl, rfl⟩, rfl⟩ rfl)
  have h := h.then_ (.master (.popWaited 0))
    (.master ⟨rfl, rfl, _, ⟨false, none, 0, rfl, rfl, rfl⟩, rfl⟩ rfl)
  have h := h.then_ (.master (.unlocked .controller))
    (.master ⟨rfl, _, ⟨rfl, rfl⟩, rfl⟩ rfl)
  have h := h.then_ (.master (.took 0 (.user (.replay flushOne))))
    (.pop ⟨rfl, rfl, _, [], ⟨false, none, [], rfl, rfl, Heap.push_nil _ _, hleft, rfl⟩, rfl⟩)
  have h := h.then_ (.rest (.answered flushOne (NBDDriverProxy.initReply 0 flushOne.handler)))
    (hreplay _ rfl)
  have h := h.then_ (.master (.executed 0 (.user (.replay flushOne))))
    (.returned ⟨rfl, rfl, rfl, fun _ _ => not_false, rfl⟩ (by decide))
  exact ⟨_, _, rfl, rfl, run_threaded h⟩

end GreenCloud.Cluster
