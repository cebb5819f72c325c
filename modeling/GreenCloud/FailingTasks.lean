import GreenCloud.Deadlock
import GreenCloud.Transfer

/-! Tasks whose `Execute` throws: `ThreadFunc` catches a `ThreadMsg` and nothing else. -/

namespace GreenCloud

open CLib

/-- `NBDReplay` up to its first `WriteAll`: what `write` returns to its calls, and the memory that
the reply is written from. -/
structure NBDReplay where
  result : Nat → Int
  mem : Transfer.Memory

/-- `RETask` is `MEDIUM` unless it is told otherwise, which the class does not. -/
instance : TPTask NBDReplay where
  priority _ := .medium

/-- The `std::runtime_error` of `WriteAll` goes through `SendReply` and `Execute`. -/
def NBDReplay.Throws (task : NBDReplay) : Prop :=
  ∃ n, (Transfer.writeAll task.result task.mem).run 16 [] n = .thrown

namespace ThreadPool

open Transition
open scoped List

variable {n : Nat} {κ α : Type} [TPTask α] [DecidableEq κ]

/-- The program goes on, a worker has left its loop only for its `TPStop`, and what was popped has
been executed or will be: the worker that has it in its hand needs no other thread for that. -/
structure Survives (throws : α → Prop) (script : List (Command α)) (es : List (Event n κ α))
    (s : State n κ α) : Prop where
  alive : s.alive = true
  exited : ∀ i, s.worker i = .exited → .executed i .stop ∈ es
  popped : (executed es : Multiset (PoolTask α)) + Threads.total Worker.hand s.worker = taken es
  executes : ∀ i task, s.worker i = .got task → ∃ more t,
    (pool throws script).Run (.executed i task :: (more ++ es)) t ∧
      ∀ e ∈ more, e = .posted (.worker i) ∨ e = .unlocked (.worker i)

def Queues (tasks : List α) (es : List (Event n κ α)) : Prop :=
  ∀ task ∈ users (pushes es), task ∈ tasks

variable {throws : α → Prop} {script : List (Command α)} {es : List (Event n κ α)}
variable {e : Event n κ α} {s t : State n κ α}

omit [TPTask α] in
theorem mem_users {task : α} {l : List (PoolTask α)} : task ∈ users l ↔ .user task ∈ l := by
  rw [users, List.mem_filterMap]
  constructor
  · rintro ⟨x, hx, htask⟩
    cases x with
    | user => cases htask; exact hx
    | stop | suspend => cases htask
  · exact fun h => ⟨.user task, h, rfl⟩

theorem mem_taken_of_got (h : (pool throws script).Run es s) (hgot : s.worker i = .got task) :
    task ∈ taken es := by
  obtain ⟨others, hothers⟩ := Threads.exists_total Worker.hand s.worker i
  have hmem : task ∈ (taken es : Multiset (PoolTask α)) := by
    rw [← hands_of_run h, hothers, hgot, Multiset.mem_add, Multiset.mem_add]
    exact .inr (.inl (Multiset.mem_singleton_self task))
  exact Multiset.mem_coe.mp hmem

theorem mem_pushes_of_got [Fintype κ] (h : (pool throws script).Run es s)
    (hgot : s.worker i = .got (.user task)) : task ∈ users (pushes es) :=
  (users_of_run h).2.subset (mem_users.mpr (mem_taken_of_got h hgot))

omit [TPTask α] in
theorem Worker.after_exited {task : PoolTask α} (h : task.after = .exited) : task = .stop := by
  cases task with
  | stop => rfl
  | suspend | user => cases h

theorem exited_of_run (h : (pool throws script).Run es s) (i : Fin n)
    (hexited : s.worker i = .exited) : .executed i .stop ∈ es := by
  revert hexited
  apply h.invariant
  · rintro _ rfl hexited
    cases hexited
  · rintro es s e t hs ⟨-, hstep⟩ hexited
    rcases hstep.worker with ⟨j, p, q, hmove, -, ht⟩ | ⟨-, ht⟩
    · rw [ht] at hexited
      by_cases hij : i = j
      · subst hij
        rw [Function.update_self] at hexited
        subst hexited
        generalize hw : Worker.exited = w at hmove
        cases hmove with
        | executed =>
          rename_i task
          rw [Worker.after_exited hw.symm]
          exact List.mem_cons_self ..
        | took | suspended | woken | resumed => cases hw
      · rw [Function.update_of_ne hij] at hexited
        exact List.mem_cons_of_mem _ (hs hexited)
    · rw [ht] at hexited
      exact List.mem_cons_of_mem _ (hs hexited)

theorem Step.alive (hstep : Step throws s e t) :
    t.alive = s.alive ∨ ∃ i task, s.worker i = .got (.user task) ∧ throws task := by
  cases e with
  | terminated i task =>
    obtain ⟨hi, hthrows, -⟩ := hstep
    exact .inr ⟨i, task, hi, hthrows⟩
  | looped =>
    obtain ⟨-, -, rfl⟩ := hstep
    exact .inl rfl
  | returned | suspended | resumed =>
    obtain ⟨-, rfl⟩ := hstep
    exact .inl rfl
  | posted | unlocked | threadPost =>
    obtain ⟨_, -, rfl⟩ := hstep
    exact .inl rfl
  | called | popCalled | popWaited =>
    obtain ⟨-, _, -, rfl⟩ := hstep
    exact .inl rfl
  | took =>
    obtain ⟨-, _, _, -, rfl⟩ := hstep
    exact .inl rfl
  | pushed =>
    obtain ⟨_, _, -, -, rfl⟩ := hstep
    exact .inl rfl
  | executed | woken =>
    obtain ⟨_, _, _, rfl⟩ := hstep
    exact .inl rfl
  | mainWait | joined =>
    obtain ⟨_, _, _, _, _, rfl⟩ := hstep
    exact .inl rfl

omit [TPTask α] [DecidableEq κ] in
theorem pushes_suffix (e : Event n κ α) (es : List (Event n κ α)) :
    users (pushes es) <+: users (pushes (e :: es)) := by
  cases e with
  | pushed =>
    rw [pushes, users_append]
    exact List.prefix_append ..
  | _ => exact List.prefix_refl _

theorem alive_of_run [Fintype κ] (h : (pool throws script).Run es s)
    (hsafe : ∀ task ∈ users (pushes es), ¬ throws task) : s.alive = true := by
  induction h with
  | start hinit =>
    cases hinit
    rfl
  | step hrun hstep ih =>
    have hbefore := fun task hmem => hsafe task ((pushes_suffix _ _).subset hmem)
    rcases hstep.2.alive with halive | ⟨i, task, hgot, hthrows⟩
    · rw [halive]
      exact ih hbefore
    · exact absurd hthrows (hbefore task (mem_pushes_of_got hrun hgot))

theorem unlocked_of_run (h : (pool throws script).Run es s) (halive : s.alive = true)
    (i : Fin n) (hplace : s.queue.position (.worker i) = .idle ∨
      (s.queue.position (.worker i)).hasLock = true) :
    ∃ more t, (pool throws script).Run (more ++ es) t ∧ t.alive = true ∧
      t.worker = s.worker ∧ t.queue.position (.worker i) = .idle ∧
      ∀ e ∈ more, e = .posted (.worker i) ∨ e = .unlocked (.worker i) := by
  cases hposition : s.queue.position (.worker i) with
  | idle => exact ⟨[], s, h, halive, rfl, hposition, nofun⟩
  | posted =>
    have h := h.then_ (.unlocked (.worker i)) ⟨halive, _, ⟨hposition, rfl⟩, rfl⟩
    refine ⟨[_], _, h, halive, rfl, ?_, ?_⟩
    · exact SharedQueue.State.position_move ..
    · exact List.forall_mem_singleton.mpr (.inr rfl)
  | inserted =>
    have h := h.then_ (.posted (.worker i)) ⟨halive, _, ⟨hposition, rfl⟩, rfl⟩
    have h := h.then_ (.unlocked (.worker i))
      ⟨halive, _, ⟨SharedQueue.State.position_move .., rfl⟩, rfl⟩
    refine ⟨[_, _], _, h, halive, rfl, ?_, ?_⟩
    · exact SharedQueue.State.position_move ..
    · exact List.forall_mem_cons.mpr ⟨.inr rfl, List.forall_mem_singleton.mpr (.inl rfl)⟩
  | waiting | passed =>
    rw [hposition] at hplace
    rcases hplace with hplace | hplace <;> cases hplace

theorem executes_of_run (h : (pool throws script).Run es s) (halive : s.alive = true)
    (hgot : s.worker i = .got task) (hsafe : ∀ u, task = .user u → ¬ throws u) :
    ∃ more t, (pool throws script).Run (.executed i task :: (more ++ es)) t ∧
      ∀ e ∈ more, e = .posted (.worker i) ∨ e = .unlocked (.worker i) := by
  have hplace : s.queue.position (.worker i) = .idle ∨
      (s.queue.position (.worker i)).hasLock = true := by
    have hadmits := placed_of_run h (.worker i)
    rw [State.Admits, hgot] at hadmits
    cases task with
    | user => exact hadmits
    | stop | suspend => exact .inl hadmits
  obtain ⟨more, t, hrun, halive', hworker, hidle, hmore⟩ := unlocked_of_run h halive i hplace
  refine ⟨more, _, hrun.then_ (.executed i task) ⟨halive', ?_, hidle, hsafe, rfl⟩, hmore⟩
  rw [hworker, hgot]

theorem survives_of_run [Fintype κ] (h : (pool throws script).Run es s)
    (hsafe : ∀ task ∈ users (pushes es), ¬ throws task) : Survives throws script es s where
  alive := alive_of_run h hsafe
  exited := exited_of_run h
  popped := hands_of_run h
  executes i task hgot := executes_of_run h (alive_of_run h hsafe) hgot fun u hu => by
    subst hu
    exact hsafe u (mem_pushes_of_got h hgot)

theorem run_taken (h : (pool throws script).Run es (init (.addTask task :: rest) : State n κ α))
    (i : Fin n) : ∃ es', (pool throws script).Run es'
        ((init rest : State n κ α).move i (.got (.user task))) ∧
      users (pushes es') = users (pushes es) ++ [task] := by
  have h := run_addTask h rfl rfl rfl rfl rfl (Heap.push_nil _ _)
  have h := run_take h rfl i rfl rfl rfl rfl rfl rfl
  exact ⟨_, h, users_append ..⟩

theorem run_served (h : (pool throws script).Run es (init (.addTask task :: rest) : State n κ α))
    (i : Fin n) (htask : ¬ throws task) : ∃ es', (pool throws script).Run es'
        (init rest : State n κ α) ∧ users (pushes es') = users (pushes es) ++ [task] := by
  obtain ⟨es', hrun, hpushes⟩ := run_taken h i
  have hrun := hrun.then_ (.executed i (.user task))
    ⟨rfl, Function.update_self .., rfl, fun u hu => by cases hu; exact htask, rfl⟩
  refine ⟨.executed i (.user task) :: es', ?_, hpushes⟩
  simpa only [State.move, PoolTask.after, Function.update_idem, init, Function.update_eq_self]
    using hrun

theorem run_servedAll (h : (pool throws script).Run es
      (init (tasks.map .addTask ++ rest) : State n κ α))
    (i : Fin n) (htasks : ∀ task ∈ tasks, ¬ throws task) : ∃ es', (pool throws script).Run es'
        (init rest : State n κ α) ∧ users (pushes es') = users (pushes es) ++ tasks := by
  induction tasks generalizing es with
  | nil => exact ⟨es, h, (List.append_nil _).symm⟩
  | cons task tasks ih =>
    obtain ⟨htask, htasks⟩ := List.forall_mem_cons.mp htasks
    obtain ⟨es', hrun, hpushes⟩ := run_served h i htask
    obtain ⟨es'', hrun, hpushes'⟩ := ih hrun htasks
    exact ⟨es'', hrun, by rw [hpushes', hpushes, List.append_assoc]; rfl⟩

omit [TPTask α] [DecidableEq κ] in
theorem exists_first {tasks : List α} (h : ∃ task ∈ tasks, throws task) :
    ∃ before task after, tasks = before ++ task :: after ∧ throws task ∧
      ∀ b ∈ before, ¬ throws b := by
  classical
  have hsome : (tasks.find? fun task => throws task).isSome := by
    rw [List.find?_isSome]
    simpa using h
  obtain ⟨task, hfind⟩ := Option.isSome_iff_exists.mp hsome
  obtain ⟨hthrows, before, after, heq, hbefore⟩ := List.find?_eq_some_iff_append.mp hfind
  exact ⟨before, task, after, heq, of_decide_eq_true hthrows, by simpa using hbefore⟩

theorem run_terminated {before : List α} (i : Fin n) (htask : throws task)
    (hbefore : ∀ b ∈ before, ¬ throws b) (rest : List (Command α)) :
    ∃ (es : List (Event n κ α)) (s : State n κ α),
      (pool throws (before.map .addTask ++ .addTask task :: rest)).Run es s ∧
      users (pushes es) = before ++ [task] ∧ s.alive = false := by
  have hstart : (pool (n := n) (κ := κ) throws (before.map .addTask ++ .addTask task :: rest)).Run []
      (init (before.map .addTask ++ .addTask task :: rest)) := .start rfl
  obtain ⟨es, hrun, hpushes⟩ := run_servedAll hstart i hbefore
  obtain ⟨es', hrun, hpushes'⟩ := run_taken hrun i
  refine ⟨_, _, hrun.then_ (.terminated i task) ⟨rfl, Function.update_self .., htask, rfl⟩, ?_, rfl⟩
  exact hpushes'.trans (by rw [hpushes]; rfl)

/-- For every number of workers and every tasks, of which any may throw: the pool survives all runs
in which these tasks are queued, by the controlling thread or any other, exactly if none of them
throws. -/
theorem survives_iff_forall_not_throws [Fintype κ] (hn : 0 < n) (throws : α → Prop)
    (tasks : List α) :
    (∀ (es : List (Event n κ α)) s, (pool throws (tasks.map .addTask ++ [.stop])).Run es s →
      Queues tasks es → Survives throws (tasks.map .addTask ++ [.stop]) es s) ↔
    ∀ task ∈ tasks, ¬ throws task := by
  constructor
  · intro hsurvives
    by_contra hsome
    obtain ⟨before, task, after, rfl, htask, hbefore⟩ := exists_first (by simpa using hsome)
    obtain ⟨es, s, hrun, hpushes, hdead⟩ := run_terminated (κ := κ) ⟨0, hn⟩ htask hbefore
      (after.map .addTask ++ [.stop])
    have hscript : before.map Command.addTask ++ .addTask task ::
        (after.map .addTask ++ [.stop]) =
          (before ++ task :: after).map .addTask ++ [.stop] := by
      rw [List.map_append, List.append_assoc]
      rfl
    rw [hscript] at hrun
    have hqueues : Queues (before ++ task :: after) es := by
      intro other hother
      rw [hpushes] at hother
      rw [← List.singleton_append, ← List.append_assoc]
      exact List.mem_append_left _ hother
    have halive := (hsurvives es s hrun hqueues).alive
    rw [hdead] at halive
    cases halive
  · intro hnone es s hrun hqueues
    exact survives_of_run hrun fun task hmem => hnone task (hqueues task hmem)

def answered : NBDReplay := ⟨fun _ => 16, fun _ => 0⟩

def unanswered : NBDReplay := ⟨fun _ => -1, fun _ => 0⟩

theorem not_throws_answered : ¬ answered.Throws := by
  have hbehind : ∀ n, ∃ sent, (Transfer.writeAll answered.result answered.mem).run 16 [] (n + 2) =
      .returned sent := by
    intro n
    induction n with
    | zero => exact ⟨_, rfl⟩
    | succ n ih =>
      obtain ⟨sent, hrun⟩ := ih
      exact ⟨sent, congrArg (Transfer.Call.turn _) hrun⟩
  rintro ⟨n, hrun⟩
  match n with
  | 0 | 1 => cases hrun
  | n + 2 =>
    obtain ⟨sent, hreturned⟩ := hbehind n
    cases hreturned.symm.trans hrun

theorem throws_unanswered : unanswered.Throws := ⟨1, rfl⟩

theorem survives_answered : ∃ (es : List (Event 1 Empty NBDReplay)) (s : State 1 Empty NBDReplay),
    s.worker 0 = .got (.user answered) ∧
      Survives NBDReplay.Throws [.addTask answered, .stop] es s := by
  have hstart : (pool (n := 1) (κ := Empty) NBDReplay.Throws [.addTask answered, .stop]).Run []
      (init [.addTask answered, .stop]) := .start rfl
  obtain ⟨es, hrun, hpushes⟩ := run_taken hstart 0
  have hnone : ∀ task ∈ [answered], ¬ NBDReplay.Throws task :=
    List.forall_mem_singleton.mpr not_throws_answered
  have hsurvives := (survives_iff_forall_not_throws (κ := Empty) Nat.zero_lt_one NBDReplay.Throws
    [answered]).mpr hnone es _ hrun
  refine ⟨es, _, rfl, hsurvives fun task hmem => ?_⟩
  rwa [hpushes] at hmem

/-- The first of two replies finds the socket closed: the program ends, and no worker executes the
second one. -/
theorem not_survives_unanswered :
    ∃ (es : List (Event 1 Empty NBDReplay)) (s : State 1 Empty NBDReplay),
      (pool NBDReplay.Throws [.addTask unanswered, .addTask answered, .stop]).Run es s ∧
      Queues [unanswered, answered] es ∧ s.alive = false ∧
      (∀ e t, ¬ (pool NBDReplay.Throws [.addTask unanswered, .addTask answered, .stop]).step s e t) ∧
      ¬ Survives NBDReplay.Throws [.addTask unanswered, .addTask answered, .stop] es s := by
  have hbefore : ∀ b ∈ ([] : List NBDReplay), ¬ b.Throws := nofun
  obtain ⟨es, s, hrun, hpushes, hdead⟩ := run_terminated (κ := Empty) (0 : Fin 1)
    throws_unanswered hbefore [.addTask answered, .stop]
  refine ⟨es, s, hrun, fun task hmem => ?_, hdead, fun e t hstep => ?_, fun hsurvives => ?_⟩
  · rw [hpushes] at hmem
    exact List.mem_cons.mpr (.inl (List.mem_singleton.mp hmem))
  · cases hdead.symm.trans hstep.1
  · cases hdead.symm.trans hsurvives.alive

end ThreadPool

end GreenCloud
