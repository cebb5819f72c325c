import GreenCloud.Suspension

/-! `RequestEngine::Run`, which hands tasks to a pool, and the destructor of the pool behind it:
what has become of the tasks when it returns. -/

namespace GreenCloud

open CLib Transition
open scoped List

/-- `RETask::TaskPriority` -/
inductive RETask.TaskPriority
  | low | medium | high
  deriving DecidableEq

/-- The `static_cast` in the constructor of `RETask`. -/
instance : TPTask RETask.TaskPriority where
  priority
    | .low => .low
    | .medium => .medium
    | .high => .high

theorem RETask.priority_ne_system (task : RETask.TaskPriority) : TPTask.priority task ≠ .system := by
  cases task <;> nofun

namespace RequestEngine

variable {α : Type}

inductive Status
  | run
  | stop
  deriving DecidableEq

/-- What `Read` of a gateway has returned, as the task that the factory makes of it, and whether
`Read` has called `Stop`. -/
structure Read (α : Type) where
  task : α
  stop : Bool

structure Wake (α : Type) where
  fd : Int
  read : Nat → Read α

def reads (fds : List Int) (wake : Wake α) : List (Read α) :=
  (fds.zipIdx.filter fun gateway => gateway.1 = wake.fd).map fun gateway => wake.read gateway.2

/-- The tasks that `Run` hands to the pool, and the status behind it. A turn that times out wakes
to nothing. -/
def run (fds : List Int) : List (Option (Wake α)) → List α × Status
  | [] => ([], .run)
  | none :: wakes => run fds wakes
  | some wake :: wakes =>
    let tasks := (reads fds wake).map Read.task
    if (reads fds wake).any Read.stop then (tasks, .stop)
    else (tasks ++ (run fds wakes).1, (run fds wakes).2)

/-- What the thread of the engine calls of the pool: the destructor only behind `Run`. -/
def commands (fds : List Int) (wakes : List (Option (Wake α))) : List (ThreadPool.Command α) :=
  match run fds wakes with
  | (tasks, .run) => tasks.map .addTask
  | (tasks, .stop) => tasks.map .addTask ++ [.destroy]

theorem commands_of_stop {fds : List Int} {wakes : List (Option (Wake α))}
    (h : (run fds wakes).2 = .stop) :
    commands fds wakes = (run fds wakes).1.map .addTask ++ [.destroy] := by
  rw [commands]
  split
  · rename_i hrun
    rw [hrun] at h
    cases h
  · rename_i hrun
    rw [hrun]

end RequestEngine

namespace ThreadPool

variable {n : Nat} {κ α : Type}

/-! What the controlling thread has called and handed over, the oldest first. -/

def calls : List (Event n κ α) → List (Command α)
  | [] => []
  | .called command :: es => calls es ++ [command]
  | _ :: es => calls es

def handed : List (Event n κ α) → List α
  | [] => []
  | .pushed .controller (.user task) :: es => handed es ++ [task]
  | _ :: es => handed es

def asked : List (Command α) → List α := List.filterMap fun
  | .addTask task => some task
  | _ => none

def Controller.pending : Controller α → List α
  | .adding _ (.user task) left => List.replicate left task
  | _ => []

theorem mode_eq_foldl (es : List (Event n κ α)) :
    mode es = (calls es).foldl (fun m command => command.mode m) .running := by
  induction es with
  | nil => rfl
  | cons e es ih =>
    cases e with
    | called command =>
      rw [calls, List.foldl_append, ← ih]
      rfl
    | _ => exact ih

theorem mode_addTasks (tasks : List α) (m : Mode) :
    (tasks.map Command.addTask).foldl (fun m command => command.mode m) m = m := by
  induction tasks with
  | nil => rfl
  | cons task tasks ih => exact ih

theorem users_append (l l' : List (PoolTask α)) : users (l ++ l') = users l ++ users l' :=
  List.filterMap_append ..

theorem asked_append (l l' : List (Command α)) : asked (l ++ l') = asked l ++ asked l' :=
  List.filterMap_append ..

theorem handed_sublist (es : List (Event n κ α)) : (handed es).Sublist (users (pushes es)) := by
  induction es with
  | nil => exact .refl _
  | cons e es ih =>
    cases e with
    | pushed thread task =>
      rw [pushes, users_append]
      cases thread with
      | controller =>
        cases task with
        | user task => exact ih.append (.refl [task])
        | stop | suspend => exact ih.trans (List.sublist_append_left ..)
      | worker | other => exact ih.trans (List.sublist_append_left ..)
    | _ => exact ih

theorem pending_start (command : Command α) (n joined : Nat) :
    (command.start n joined).pending = asked [command] := by
  cases command with
  | destroy =>
    rw [Command.start]
    split <;> rfl
  | _ => rfl

theorem Controller.Looped.pending {c : Controller α} (h : c.Looped command) :
    c.pending = [] ∧ (command.next n).pending = [] := by
  cases h with
  | posting => exact ⟨rfl, rfl⟩
  | adding =>
    rename_i task
    constructor
    · cases task <;> rfl
    · cases command <;> rfl

theorem Controller.Finished.pending {c : Controller α} (h : c.Finished command) :
    c.pending = [] := by
  cases h <;> rfl

theorem handed_pushed {s : State n κ α} (h : Pushes s thread task c)
    (ih : handed es ++ s.controller.pending = l) :
    handed (.pushed thread task :: es) ++ c.pending = l := by
  rw [← ih]
  cases thread with
  | controller =>
    obtain ⟨command, left, hc, rfl⟩ := h
    rw [hc]
    cases task with
    | user task => simp only [handed, Controller.pending, List.replicate_succ, List.append_assoc,
        List.singleton_append]
    | stop | suspend => rfl
  | worker i =>
    obtain ⟨_, _, -, -, rfl⟩ := h
    rfl
  | other a =>
    obtain ⟨_, -, rfl⟩ := h
    rfl

theorem taken_grows (after before : List (Event n κ α)) :
    taken before <+: taken (after ++ before) := by
  induction after with
  | nil => exact List.prefix_refl _
  | cons e after ih =>
    cases e with
    | took i task => exact ih.trans (List.prefix_append ..)
    | _ => exact ih

theorem asked_addTasks (tasks : List α) : asked (tasks.map .addTask) = tasks := by
  induction tasks with
  | nil => rfl
  | cons task tasks ih => exact congrArg (task :: ·) ih

theorem alternates_addTasks (tasks : List α) (h : Alternates m script) :
    Alternates m (tasks.map .addTask ++ script) := by
  induction tasks with
  | nil => exact h
  | cons task tasks ih => exact ⟨trivial, ih⟩

variable [TPTask α] [DecidableEq κ] {throws : α → Prop} {script : List (Command α)}
variable {es : List (Event n κ α)} {e : Event n κ α} {s t : State n κ α}

theorem calls_of_run (h : (pool throws script).Run es s) : calls es ++ s.script = script := by
  apply h.invariant
  · rintro _ rfl
    rfl
  · rintro es s e t hs ⟨-, hstep⟩
    rcases hstep.calls with ⟨command, rfl, -, hscript⟩ | ⟨hcall, hscript⟩
    · rw [calls, List.append_assoc, ← hs, hscript]
      rfl
    · rw [hscript, ← hs]
      cases e with
      | called command => exact absurd rfl (hcall command)
      | _ => rfl

theorem handed_of_run (h : (pool throws script).Run es s) :
    handed es ++ s.controller.pending = asked (calls es) := by
  apply h.invariant
  · rintro _ rfl
    rfl
  · rintro es s e t hs ⟨-, hstep⟩
    cases e with
    | called command =>
      obtain ⟨hidle, _, -, rfl⟩ := hstep
      rw [hidle] at hs
      rw [calls, asked_append, ← hs, List.append_assoc, ← pending_start command n s.joined]
      rfl
    | looped command =>
      obtain ⟨hloop, -, rfl⟩ := hstep
      obtain ⟨hbefore, hbehind⟩ := hloop.pending (n := n)
      rw [hbefore] at hs
      rw [hbehind]
      exact hs
    | returned command =>
      obtain ⟨hend, rfl⟩ := hstep
      rw [hend.pending] at hs
      exact hs
    | pushed thread task =>
      obtain ⟨q, c, -, hpush, rfl⟩ := hstep
      exact handed_pushed hpush hs
    | threadPost =>
      obtain ⟨left, hc, rfl⟩ := hstep
      rw [hc] at hs
      exact hs
    | mainWait =>
      obtain ⟨command, left, sem, hc, -, rfl⟩ := hstep
      rw [hc] at hs
      exact hs
    | joined i =>
      obtain ⟨command, left, hc, -, -, rfl⟩ := hstep
      rw [hc] at hs
      exact hs
    | terminated =>
      obtain ⟨-, -, rfl⟩ := hstep
      exact hs
    | suspended | resumed =>
      obtain ⟨-, rfl⟩ := hstep
      exact hs
    | posted | unlocked =>
      obtain ⟨_, -, rfl⟩ := hstep
      exact hs
    | popCalled | popWaited =>
      obtain ⟨-, _, -, rfl⟩ := hstep
      exact hs
    | took =>
      obtain ⟨-, _, _, -, rfl⟩ := hstep
      exact hs
    | executed | woken =>
      obtain ⟨_, _, _, rfl⟩ := hstep
      exact hs

theorem executed_of_exited (h : (pool throws script).Run es s)
    (hexited : ∀ i, s.worker i = .exited) : executed es ~ taken es := by
  have hhands : Threads.total Worker.hand s.worker = 0 := by
    apply Threads.total_eq_zero
    intro i
    rw [hexited i]
    rfl
  have hexecuted := hands_of_run h
  rw [hhands, add_zero, Multiset.coe_eq_coe] at hexecuted
  exact hexecuted

theorem left_of_exited [Fintype κ] (h : (pool throws script).Run es s)
    (hexited : ∀ i, s.worker i = .exited) :
    users (executed es) ++ users s.queue.pq ~ users (pushes es) := by
  have htasks := tasks_of_run h
  rw [hands_of_run h, Multiset.coe_add, Multiset.coe_eq_coe] at htasks
  rw [← users_append]
  exact (((executed_of_exited h hexited).append_right _).trans htasks).filterMap _

omit [DecidableEq κ] in
theorem lt_stop {user : α} (h : TPTask.priority user ≠ .system) :
    TPTask.lt (PoolTask.user user) .stop = true := by
  have hpriority : TPTask.priority (PoolTask.user user) = TPTask.priority user := rfl
  have hstop : TPTask.priority (PoolTask.stop : PoolTask α) = .system := rfl
  rw [TPTask.lt, hpriority, hstop]
  cases huser : TPTask.priority user with
  | system => exact absurd huser h
  | low | medium | high => rfl

/-- With a `TPStop` for every worker that has none yet in the queue, a worker takes nothing else:
nothing there is before a `TPStop`. -/
theorem took_of_ended [Fintype κ] (h : (pool throws script).Run es s) (hended : s.tally.ended = n)
    (hsystem : ∀ task : α, TPTask.priority task ≠ .system) (hstep : Step throws s (.took i task) t)
    (user : α) : task ≠ .user user := by
  rintro rfl
  obtain ⟨hi, q, left, ⟨_, _, rest, -, -, hpq, -⟩, -⟩ := hstep
  obtain ⟨qs, hrun, -⟩ := queue_of_run h
  have hheap := (SharedQueue.accounts_of_run hrun).heap
  have hended : s.queue.pq.countP PoolTask.isStop + Threads.count Worker.isEnded s.worker = n :=
    hended
  have hstop : ∃ task ∈ s.queue.pq, task.isStop := by
    by_contra hnone
    have hzero : s.queue.pq.countP PoolTask.isStop = 0 :=
      List.countP_eq_zero.mpr fun task hmem hstop => hnone ⟨task, hmem, hstop⟩
    have hcard : Threads.count Worker.isEnded s.worker = Fintype.card (Fin n) := by
      rw [Fintype.card_fin]
      omega
    have hall := Threads.count_eq_card.mp hcard i
    rw [hi] at hall
    cases hall
  obtain ⟨task, hmem, hstop⟩ := hstop
  cases task with
  | stop =>
    rw [hpq] at hheap hmem
    have hless : TPTask.lt (PoolTask.user user) .stop = false := hheap.top hmem
    have hlow := lt_stop (hsystem user)
    rw [hless] at hlow
    cases hlow
  | suspend | user => cases hstop

theorem taken_of_stopping [Fintype κ] (hn : 0 < n) (hscript : Alternates .running script)
    (hsystem : ∀ task : α, TPTask.priority task ≠ .system)
    (h : (pool throws script).Run (after ++ .looped command :: before) s) (hjoins : command.Joins) :
    s.tally.ended = n ∧
      users (taken (after ++ .looped command :: before)) = users (taken before) := by
  induction after generalizing s with
  | nil =>
    have hphase := (protocol_of_run hn hscript h).phase
    cases h with
    | step hrun hstep =>
      obtain ⟨-, -, -, rfl⟩ := hstep
      cases command with
      | stop | destroy =>
        obtain ⟨-, -, -, hended, -⟩ := hphase
        exact ⟨hended, rfl⟩
      | suspend | resume | addTask => exact hjoins.elim
  | cons e after ih =>
    have hle := (protocol_of_run hn hscript h).phase.ended_le
    cases h with
    | step hrun hstep =>
      obtain ⟨hended, htaken⟩ := ih hrun
      have hmono := hstep.2.tally.ended_le
      refine ⟨by omega, ?_⟩
      rw [← htaken]
      cases e with
      | took i task =>
        have huser := took_of_ended hrun hended hsystem hstep.2
        cases task with
        | user task => exact absurd rfl (huser task)
        | stop | suspend =>
          rw [List.cons_append, taken, users_append]
          exact List.append_nil _
      | _ => rfl

theorem handed_of_destroy (hn : 0 < n) {tasks : List α}
    (h : (pool throws (tasks.map .addTask ++ [.destroy])).Run (.returned .destroy :: es) s) :
    handed (.returned .destroy :: es) = tasks := by
  have hscript : Alternates .running (tasks.map .addTask ++ [.destroy]) :=
    alternates_addTasks tasks ⟨nofun, trivial⟩
  have hmode : mode (.returned .destroy :: es) = .stopped :=
    (returned_of_run hn hscript h).1.symm
  have hcalls := calls_of_run h
  have hhanded := handed_of_run h
  have hpending : s.controller.pending = [] := by
    cases h with
    | step hrun hstep =>
      obtain ⟨-, -, rfl⟩ := hstep
      rfl
  rcases List.eq_nil_or_concat s.script with hnil | ⟨left, command, hleft⟩
  · rw [hnil, List.append_nil] at hcalls
    rw [hpending, List.append_nil, hcalls, asked_append, asked_addTasks] at hhanded
    exact hhanded.trans (List.append_nil _)
  · -- without the destructor among the calls the mode would not have changed
    rw [hleft, List.concat_eq_append, ← List.append_assoc] at hcalls
    obtain ⟨hcalls, -⟩ := List.append_inj' hcalls rfl
    obtain ⟨called, rest, -, hcalled, -⟩ := List.map_eq_append_iff.mp hcalls.symm
    rw [mode_eq_foldl, ← hcalled, mode_addTasks] at hmode
    cases hmode

end ThreadPool

namespace RequestEngine

open ThreadPool

variable {n : Nat} {κ α : Type} [TPTask α] [DecidableEq κ] [Fintype κ] {throws : α → Prop}
variable {es : List (Event n κ α)} {s : State n κ α}

/-- In every run of an engine that has stopped, once the destructor of its pool has returned: all
that was handed to the pool has been pushed, every worker has left its loop, and each task that
was pushed was either executed, once, or is left in the queue. Executed is what had been popped
when the last `TPStop` was pushed; so if everything had been popped when the destructor was
called, all was executed. -/
theorem run_shutdown (hn : 0 < n) {fds : List Int} {wakes : List (Option (Wake α))}
    (hend : (run fds wakes).2 = .stop)
    (h : (pool throws (commands fds wakes)).Run (.returned .destroy :: es) s) :
    handed (.returned .destroy :: es) = (run fds wakes).1 ∧
    (handed (.returned .destroy :: es)).Sublist (users (pushes es)) ∧
    (∀ i, s.worker i = .exited) ∧
    users (executed es) ++ users s.queue.pq ~ users (pushes es) ∧
    (∀ after before, es = after ++ .looped .destroy :: before →
      (∀ task : α, TPTask.priority task ≠ .system) → users (executed es) ~ users (taken before)) ∧
    ∀ after before, es = after ++ .called .destroy :: before →
      users (taken before) ~ users (pushes es) → users (executed es) ~ users (pushes es) := by
  rw [commands_of_stop hend] at h
  have hscript := alternates_addTasks (run fds wakes).1
    (show Alternates .running [.destroy] from ⟨nofun, trivial⟩)
  have hexited : ∀ i, s.worker i = .exited := fun i => (stopped_of_run hn hscript h rfl i).1
  have hexecuted : users (executed es) ~ users (taken es) :=
    (executed_of_exited h hexited).filterMap _
  have hleft := left_of_exited h hexited
  refine ⟨handed_of_destroy hn h, handed_sublist _, hexited, hleft, ?_, ?_⟩
  · rintro after before rfl hsystem
    rw [← List.cons_append] at h
    have htaken := (taken_of_stopping hn hscript hsystem h trivial).2
    rw [← htaken]
    exact hexecuted
  · rintro after before rfl hall
    apply hexecuted.trans
    have hgrows : users (taken before) <+: users (taken (after ++ .called .destroy :: before)) :=
      (taken_grows after (.called .destroy :: before)).filterMap _
    have hpushes := (users_of_run h).2
    exact hpushes.antisymm (hall.symm.subperm.trans hgrows.sublist.subperm)

/-- One worker that waits when the peer disconnects: the task of the disconnect is executed. -/
theorem run_shutdown_idle :
    ∃ (es : List (Event 1 Empty RETask.TaskPriority)) (s : State 1 Empty RETask.TaskPriority),
      (pool (fun _ => False) (commands [3] [some ⟨3, fun _ => ⟨.medium, true⟩⟩])).Run
        (.returned .destroy :: es) s ∧
      handed (.returned .destroy :: es) = [.medium] ∧ users (executed es) ~ users (pushes es) ∧
      ∃ after before, es = after ++ .looped .destroy :: before ∧
        users (executed es) ~ users (taken before) := by
  have h : (pool (n := 1) (κ := Empty) (fun _ : RETask.TaskPriority => False)
    (commands [3] [some ⟨3, fun _ => ⟨.medium, true⟩⟩])).Run [] (init _) := .start rfl
  have h := run_addTask h rfl rfl rfl rfl rfl (Heap.push_nil _ _)
  have h := run_take h rfl 0 rfl rfl rfl rfl rfl rfl
  have h := h.then_ (.executed 0 (.user .medium)) ⟨rfl, rfl, rfl, fun _ _ => id, rfl⟩
  have h := h.then_ (.called .destroy) ⟨rfl, rfl, _, rfl, rfl⟩
  have h := run_add h rfl rfl rfl rfl (Heap.push_nil _ _)
  have h := h.then_ (.looped .destroy) ⟨rfl, .adding, rfl, rfl⟩
  have h := run_take h rfl 0 rfl rfl rfl rfl rfl rfl
  have h := h.then_ (.executed 0 .stop) ⟨rfl, rfl, rfl, nofun, rfl⟩
  have h := h.then_ (.joined 0) ⟨rfl, _, _, rfl, rfl, rfl, rfl⟩
  have h := h.then_ (.returned .destroy) ⟨rfl, .joining, rfl⟩
  obtain ⟨hhanded, -, -, -, htaken, hall⟩ := run_shutdown Nat.zero_lt_one rfl h
  refine ⟨_, _, h, hhanded, hall [_, _, _, _, _, _, _, _, _] _ rfl (.refl _), ?_⟩
  exact ⟨[_, _, _, _, _], _, rfl, htaken [_, _, _, _, _] _ rfl RETask.priority_ne_system⟩

/-- One worker and a request on descriptor 3, behind which the peer disconnects: the destructor
returns with the task of the disconnect in the queue. -/
theorem run_shutdown_loses :
    ∃ (es : List (Event 1 Empty TaskPriority)) (s : State 1 Empty TaskPriority),
      (pool (fun _ => False) (commands [3] [some ⟨3, fun _ => ⟨.high, false⟩⟩, none,
        some ⟨3, fun _ => ⟨.medium, true⟩⟩])).Run (.returned .destroy :: es) s ∧
      handed (.returned .destroy :: es) = [.high, .medium] ∧ users (executed es) = [.high] ∧
      s.queue.pq = [.user .medium] := by
  have h : (pool (n := 1) (κ := Empty) (fun _ : TaskPriority => False) (commands [3]
    [some ⟨3, fun _ => ⟨.high, false⟩⟩, none, some ⟨3, fun _ => ⟨.medium, true⟩⟩])).Run [] (init _) :=
    .start rfl
  have h := run_addTask h rfl rfl rfl rfl rfl (Heap.push_nil _ _)
  have h := run_take h rfl 0 rfl rfl rfl rfl rfl rfl
  have h := run_addTask h rfl rfl rfl rfl rfl (Heap.push_nil _ _)
  have h := h.then_ (.called .destroy) ⟨rfl, rfl, _, rfl, rfl⟩
  have h := run_add h rfl rfl rfl rfl ((Heap.push_singleton _ _ _).trans (if_pos rfl))
  have h := h.then_ (.looped .destroy) ⟨rfl, .adding, rfl, rfl⟩
  have h := h.then_ (.executed 0 (.user .high)) ⟨rfl, rfl, rfl, fun _ _ => id, rfl⟩
  have h := run_take h rfl 0 rfl rfl rfl rfl rfl (Heap.pop_pair _ _ _)
  have h := h.then_ (.executed 0 .stop) ⟨rfl, rfl, rfl, nofun, rfl⟩
  have h := h.then_ (.joined 0) ⟨rfl, _, _, rfl, rfl, rfl, rfl⟩
  have h := h.then_ (.returned .destroy) ⟨rfl, .joining, rfl⟩
  exact ⟨_, _, h, rfl, rfl, rfl⟩

end RequestEngine

end GreenCloud
