import GreenCloud.ThreadPool

/-! The protocol of `Suspend`, `Resume` and `Stop`: the counters that the workers, the queue and
the two semaphores have together, an equation for each place of the controlling thread, and what
they say when a call returns. -/

namespace GreenCloud.ThreadPool

open CLib Transition
open scoped List

variable {n : Nat} {κ α : Type}

inductive Mode
  | running
  | suspended
  | stopped
  deriving DecidableEq

def Command.mode : Command α → Mode → Mode
  | suspend, _ => .suspended
  | resume, _ => .running
  | stop, _ | destroy, _ => .stopped
  | addTask _, m => m

/-- `Suspend` and `Resume` alternate, and what stops the pool is called while it is not suspended.
There may be a destructor behind `Stop`. -/
def Command.Allowed : Command α → Mode → Prop
  | suspend, m | stop, m => m = .running
  | resume, m => m = .suspended
  | destroy, m => m ≠ .suspended
  | addTask _, _ => True

def Alternates : Mode → List (Command α) → Prop
  | _, [] => True
  | m, command :: script => command.Allowed m ∧ Alternates (command.mode m) script

/-! What a run has done so far. -/

def mode : List (Event n κ α) → Mode
  | [] => .running
  | .called command :: es => command.mode (mode es)
  | _ :: es => mode es

/-- `Suspend` has returned, and `Resume` has not been called since. -/
def Suspended : List (Event n κ α) → Prop
  | [] => False
  | .returned .suspend :: _ => True
  | .called .resume :: _ => False
  | _ :: es => Suspended es

def suspends (i : Fin n) : List (Event n κ α) → Nat
  | [] => 0
  | .called .suspend :: _ => 0
  | .took j .suspend :: es => suspends i es + (if j = i then 1 else 0)
  | _ :: es => suspends i es

def stops (i : Fin n) : List (Event n κ α) → Nat
  | [] => 0
  | .took j .stop :: es => stops i es + (if j = i then 1 else 0)
  | _ :: es => stops i es

theorem mode_cons {e : Event n κ α} (he : ∀ command, e ≠ .called command)
    (es : List (Event n κ α)) :
    mode (e :: es) = mode es := by
  cases e with
  | called command => exact absurd rfl (he command)
  | _ => rfl

def PoolTask.isSuspend : PoolTask α → Bool
  | suspend => true
  | _ => false

def PoolTask.isStop : PoolTask α → Bool
  | stop => true
  | _ => false

namespace Worker

def isDue : Worker α → Bool
  | got .suspend | suspending => true
  | _ => false

def isParked : Worker α → Bool
  | parked => true
  | _ => false

def isResuming : Worker α → Bool
  | resuming => true
  | _ => false

def isEnded : Worker α → Bool
  | got .stop | exited => true
  | _ => false

def isAsleep (w : Worker α) : Bool := w.isDue || w.isParked

theorem isParked_iff {w : Worker α} : w.isParked ↔ w = .parked := by
  cases w <;> simp [isParked]

end Worker

/-- `due` and `ended` count what is in the queue together with the workers that have it. -/
@[ext]
structure Tally where
  due : Nat
  parked : Nat
  resuming : Nat
  ended : Nat
  main : Nat
  thread : Nat
  joined : Nat

def State.tally (s : State n κ α) : Tally where
  due := s.queue.pq.countP PoolTask.isSuspend + Threads.count Worker.isDue s.worker
  parked := Threads.count Worker.isParked s.worker
  resuming := Threads.count Worker.isResuming s.worker
  ended := s.queue.pq.countP PoolTask.isStop + Threads.count Worker.isEnded s.worker
  main := s.mainSem
  thread := s.threadSem
  joined := s.joined

def Tally.Step (x : Tally) (e : Event n κ α) (y : Tally) : Prop :=
  match e with
  | .pushed _ .suspend => y = { x with due := x.due + 1 }
  | .pushed _ .stop => y = { x with ended := x.ended + 1 }
  | .threadPost => y = { x with thread := x.thread + 1 }
  | .mainWait => ∃ main, x.main = main + 1 ∧ y = { x with main := main }
  | .joined _ => y = { x with joined := x.joined + 1 }
  | .suspended _ => ∃ due, x.due = due + 1 ∧
      y = { x with due := due, parked := x.parked + 1, main := x.main + 1 }
  | .woken _ => ∃ parked thread, x.parked = parked + 1 ∧ x.thread = thread + 1 ∧
      y = { x with parked := parked, thread := thread, resuming := x.resuming + 1 }
  | .resumed _ => ∃ resuming, x.resuming = resuming + 1 ∧
      y = { x with resuming := resuming, main := x.main + 1 }
  | _ => y = x

def Mode.rest (n : Nat) : Mode → Tally
  | running => ⟨0, 0, 0, 0, 0, 0, 0⟩
  | suspended => ⟨0, n, 0, 0, 0, 0, 0⟩
  | stopped => ⟨0, 0, 0, n, 0, 0, n⟩

def Command.Passes : Command α → Mode → Prop
  | destroy, m => m = .stopped
  | addTask _, _ => True
  | _, _ => False

def Command.Joins : Command α → Prop
  | stop | destroy => True
  | _ => False

/-- The counters at each place of the controlling thread. -/
def Phase (n : Nat) (m : Mode) (x : Tally) : Controller α → Prop
  | .idle => x = m.rest n
  | .done command => command.Passes m ∧ x = m.rest n
  | .adding (.addTask task) task' _ => task' = .user task ∧ x = m.rest n
  | .adding .suspend task left => task = .suspend ∧ m = .suspended ∧
      x.due + x.parked + left = n ∧ x.main = x.parked ∧
      x.resuming = 0 ∧ x.ended = 0 ∧ x.thread = 0 ∧ x.joined = 0
  | .waiting .suspend left => m = .suspended ∧
      x.due + x.parked = n ∧ x.main + n = x.parked + left ∧
      x.resuming = 0 ∧ x.ended = 0 ∧ x.thread = 0 ∧ x.joined = 0
  | .posting left => m = .running ∧
      x.thread + left = x.parked ∧ x.main + x.parked + x.resuming = n ∧
      x.due = 0 ∧ x.ended = 0 ∧ x.joined = 0
  | .waiting .resume left => m = .running ∧
      x.thread = x.parked ∧ x.main + x.parked + x.resuming = left ∧
      x.due = 0 ∧ x.ended = 0 ∧ x.joined = 0
  | .adding .stop task left | .adding .destroy task left => task = .stop ∧ m = .stopped ∧
      x.ended + left = n ∧
      x.due = 0 ∧ x.parked = 0 ∧ x.resuming = 0 ∧ x.main = 0 ∧ x.thread = 0 ∧ x.joined = 0
  | .joining command left => command.Joins ∧ m = .stopped ∧ x.joined + left = n ∧ x.ended = n ∧
      x.due = 0 ∧ x.parked = 0 ∧ x.resuming = 0 ∧ x.main = 0 ∧ x.thread = 0
  | _ => False

theorem init_tally (script : List (Command α)) :
    (init script : State n κ α).tally = Mode.running.rest n := by
  have hnone : ∀ at_ : Worker α → Bool, at_ .popping = false →
      Threads.count at_ (init script : State n κ α).worker = 0 := fun _ => Threads.count_const
  apply Tally.ext
  case due => exact (Nat.zero_add _).trans (hnone Worker.isDue rfl)
  case ended => exact (Nat.zero_add _).trans (hnone Worker.isEnded rfl)
  case parked => exact hnone Worker.isParked rfl
  case resuming => exact hnone Worker.isResuming rfl
  all_goals rfl

def Event.Sleeper : Event n κ α → Prop
  | .suspended _ | .woken _ | .resumed _ => True
  | _ => False

theorem Tally.Step.sleeper {e : Event n κ α} (h : Tally.Step x e y) (he : e.Sleeper) :
    y.ended = x.ended ∧ y.joined = x.joined ∧
    (x.due = y.due + 1 ∧ y.parked = x.parked + 1 ∧ y.main = x.main + 1 ∧
        y.thread = x.thread ∧ y.resuming = x.resuming ∨
      x.parked = y.parked + 1 ∧ x.thread = y.thread + 1 ∧ y.resuming = x.resuming + 1 ∧
        y.due = x.due ∧ y.main = x.main ∨
      x.resuming = y.resuming + 1 ∧ y.main = x.main + 1 ∧
        y.due = x.due ∧ y.parked = x.parked ∧ y.thread = x.thread) := by
  cases e with
  | suspended i =>
    obtain ⟨due, hdue, rfl⟩ := h
    exact ⟨rfl, rfl, .inl ⟨hdue, rfl, rfl, rfl, rfl⟩⟩
  | woken i =>
    obtain ⟨parked, thread, hparked, hthread, rfl⟩ := h
    exact ⟨rfl, rfl, .inr (.inl ⟨hparked, hthread, rfl, rfl, rfl⟩)⟩
  | resumed i =>
    obtain ⟨resuming, hresuming, rfl⟩ := h
    exact ⟨rfl, rfl, .inr (.inr ⟨hresuming, rfl, rfl, rfl, rfl⟩)⟩
  | _ => exact he.elim

theorem Tally.Step.ended_le {e : Event n κ α} (h : Tally.Step x e y) : x.ended ≤ y.ended := by
  cases e with
  | pushed thread task =>
    cases task <;>
    · obtain rfl := h
      simp
  | suspended | resumed | mainWait =>
    obtain ⟨_, -, rfl⟩ := h
    exact le_rfl
  | woken =>
    obtain ⟨_, _, -, -, rfl⟩ := h
    exact le_rfl
  | _ =>
    obtain rfl := h
    exact le_rfl

theorem Tally.Step.joined {e : Event n κ α} (h : Tally.Step x e y) :
    (∃ i, e = .joined i) ∨ y.joined = x.joined := by
  cases e with
  | joined i => exact .inl ⟨i, rfl⟩
  | pushed thread task =>
    cases task <;>
    · obtain rfl := h
      exact .inr rfl
  | suspended | resumed | mainWait =>
    obtain ⟨_, -, rfl⟩ := h
    exact .inr rfl
  | woken =>
    obtain ⟨_, _, -, -, rfl⟩ := h
    exact .inr rfl
  | _ =>
    obtain rfl := h
    exact .inr rfl

theorem Mode.rest_sleeper {m : Mode} {e : Event n κ α} (h : Tally.Step (m.rest n) e y) :
    ¬ e.Sleeper := by
  intro he
  have h := h.sleeper he
  cases m <;> simp only [Mode.rest] at h <;> omega

theorem Phase.sleeper {e : Event n κ α} {c : Controller α} (h : Phase n m x c)
    (hstep : x.Step e y) (he : e.Sleeper) : Phase n m y c := by
  have hrest : x ≠ m.rest n := by
    rintro rfl
    exact Mode.rest_sleeper hstep he
  have hstep := hstep.sleeper he
  cases c with
  | idle => exact absurd h hrest
  | done command => exact absurd h.2 hrest
  | adding command task left =>
    cases command with
    | addTask => exact absurd h.2 hrest
    | resume => exact h.elim
    | suspend | stop | destroy =>
      obtain ⟨htask, hm, h⟩ := h
      exact ⟨htask, hm, by omega⟩
  | posting left =>
    obtain ⟨hm, h⟩ := h
    exact ⟨hm, by omega⟩
  | waiting command left =>
    cases command with
    | suspend | resume =>
      obtain ⟨hm, h⟩ := h
      exact ⟨hm, by omega⟩
    | stop | destroy | addTask => exact h.elim
  | joining command left =>
    obtain ⟨hjoins, hm, h⟩ := h
    exact ⟨hjoins, hm, by omega⟩

theorem Phase.called (h : Phase n m x (.idle : Controller α)) {command : Command α}
    (hallowed : command.Allowed m) (hn : 0 < n) :
    Phase n (command.mode m) x (command.start n x.joined) := by
  obtain rfl : x = m.rest n := h
  cases command with
  | suspend =>
    obtain rfl : m = .running := hallowed
    simp [Phase, Command.start, Command.mode, Mode.rest]
  | resume =>
    obtain rfl : m = .suspended := hallowed
    simp [Phase, Command.start, Command.mode, Mode.rest]
  | stop =>
    obtain rfl : m = .running := hallowed
    simp [Phase, Command.start, Command.mode, Mode.rest]
  | destroy =>
    cases m with
    | running => simp [Phase, Command.start, Command.mode, Mode.rest]
    | suspended => exact absurd rfl hallowed
    | stopped => simp [Phase, Command.start, Command.Passes, Command.mode, Mode.rest, hn.ne']
  | addTask task => simp [Phase, Command.start, Command.mode]

theorem Phase.looped {m : Mode} {c : Controller α} (h : Phase n m x c) (hloop : c.Looped command) :
    Phase n m x (command.next n) := by
  cases hloop with
  | posting =>
    obtain ⟨hm, h⟩ := h
    exact ⟨hm, by omega⟩
  | adding =>
    cases command with
    | suspend =>
      obtain ⟨-, hm, h⟩ := h
      exact ⟨hm, by omega⟩
    | resume => exact h.elim
    | stop | destroy =>
      obtain ⟨-, hm, h⟩ := h
      exact ⟨trivial, hm, by omega⟩
    | addTask task => exact ⟨trivial, h.2⟩

theorem Phase.returned {m : Mode} {c : Controller α} (h : Phase n m x c)
    (hend : c.Finished command) : x = m.rest n := by
  cases hend with
  | waiting =>
    cases command with
    | suspend =>
      obtain ⟨rfl, h⟩ := h
      apply Tally.ext <;> simp only [Mode.rest] <;> omega
    | resume =>
      obtain ⟨rfl, h⟩ := h
      apply Tally.ext <;> simp only [Mode.rest] <;> omega
    | stop | destroy | addTask => exact h.elim
  | joining =>
    obtain ⟨-, rfl, h⟩ := h
    apply Tally.ext <;> simp only [Mode.rest] <;> omega
  | done => exact h.2

theorem Phase.pushed {m : Mode} {s : State n κ α} (h : Phase n m s.tally s.controller)
    (htally : s.tally.Step (.pushed thread task : Event n κ α) y)
    (hpush : Pushes s thread task c) : Phase n m y c := by
  cases thread with
  | controller =>
    obtain ⟨command, left, hc, rfl⟩ := hpush
    rw [hc] at h
    cases command with
    | suspend | stop | destroy =>
      obtain ⟨rfl, hm, h⟩ := h
      obtain rfl := htally
      exact ⟨rfl, hm, by dsimp only; omega⟩
    | resume => exact h.elim
    | addTask user =>
      obtain ⟨rfl, h⟩ := h
      obtain rfl := htally
      exact ⟨rfl, h⟩
  | worker i =>
    obtain ⟨executing, added, -, rfl, rfl⟩ := hpush
    obtain rfl := htally
    exact h
  | other a =>
    obtain ⟨added, rfl, rfl⟩ := hpush
    obtain rfl := htally
    exact h

theorem Moves.suspends {e : Event n κ α} {s : State n κ α} (hmove : Moves e i p q)
    (hp : s.worker i = p)
    (hwake : e ≠ .woken i) (h : suspends j es = (s.worker j).isAsleep.toNat) :
    suspends j (e :: es) = (Function.update s.worker i q j).isAsleep.toNat := by
  by_cases hj : i = j
  · subst hj
    rw [hp] at h
    rw [Function.update_self]
    cases hmove with
    | took =>
      rename_i task
      cases task <;> simp_all [ThreadPool.suspends, Worker.isAsleep, Worker.isDue, Worker.isParked]
    | executed =>
      rename_i task
      cases task <;> exact h
    | suspended | resumed => exact h
    | woken => exact absurd rfl hwake
  · rw [Function.update_of_ne (Ne.symm hj), ← h]
    cases hmove with
    | took =>
      rename_i task
      cases task <;> simp [ThreadPool.suspends, hj]
    | _ => rfl

theorem Moves.stops {e : Event n κ α} {s : State n κ α} (hmove : Moves e i p q)
    (hp : s.worker i = p)
    (h : stops j es = (s.worker j).isEnded.toNat) :
    stops j (e :: es) = (Function.update s.worker i q j).isEnded.toNat := by
  by_cases hj : i = j
  · subst hj
    rw [hp] at h
    rw [Function.update_self]
    cases hmove with
    | took =>
      rename_i task
      cases task <;> simp_all [ThreadPool.stops, Worker.isEnded]
    | executed =>
      rename_i task
      cases task <;> exact h
    | suspended | resumed | woken => exact h
  · rw [Function.update_of_ne (Ne.symm hj), ← h]
    cases hmove with
    | took =>
      rename_i task
      cases task <;> simp [ThreadPool.stops, hj]
    | _ => rfl

theorem suspends_cons {e : Event n κ α} (hstill : ∀ i p q, ¬ Moves e i p q)
    (hcall : e ≠ .called .suspend) (j : Fin n) (es : List (Event n κ α)) :
    suspends j (e :: es) = suspends j es := by
  cases e with
  | took => exact absurd .took (hstill _ _ _)
  | called command =>
    cases command with
    | suspend => exact absurd rfl hcall
    | _ => rfl
  | _ => rfl

theorem stops_cons {e : Event n κ α} (hstill : ∀ i p q, ¬ Moves e i p q) (j : Fin n)
    (es : List (Event n κ α)) : stops j (e :: es) = stops j es := by
  cases e with
  | took => exact absurd .took (hstill _ _ _)
  | _ => rfl

theorem workers_update {worker : Fin n → Worker α} (h : worker i = p) (q : Worker α) :
    Threads.count Worker.isDue (Function.update worker i q) + p.isDue.toNat =
      Threads.count Worker.isDue worker + q.isDue.toNat ∧
    Threads.count Worker.isParked (Function.update worker i q) + p.isParked.toNat =
      Threads.count Worker.isParked worker + q.isParked.toNat ∧
    Threads.count Worker.isResuming (Function.update worker i q) + p.isResuming.toNat =
      Threads.count Worker.isResuming worker + q.isResuming.toNat ∧
    Threads.count Worker.isEnded (Function.update worker i q) + p.isEnded.toNat =
      Threads.count Worker.isEnded worker + q.isEnded.toNat := by
  rw [← h]
  exact ⟨Threads.count_update _ _ _ _, Threads.count_update _ _ _ _, Threads.count_update _ _ _ _,
    Threads.count_update _ _ _ _⟩

def Controller.AtRest : Controller α → Prop
  | idle | done _ | adding (.addTask _) _ _ => True
  | _ => False

theorem Controller.AtRest.looped {c : Controller α} (h : c.AtRest) (hloop : c.Looped command) :
    (command.next n).AtRest := by
  cases hloop with
  | posting => exact h.elim
  | adding =>
    cases command with
    | addTask task => exact trivial
    | _ => exact h.elim

theorem Phase.atRest {m : Mode} {c : Controller α} (h : Phase n m x c) (hc : c.AtRest) :
    x = m.rest n := by
  cases c with
  | idle => exact h
  | done command => exact h.2
  | adding command task left =>
    cases command with
    | addTask => exact h.2
    | _ => exact hc.elim
  | _ => exact hc.elim

theorem Phase.mode_eq {c : Controller α} (h : Phase n m x c) (hend : c.Finished command) :
    command.mode m = m := by
  cases hend with
  | waiting =>
    cases command with
    | suspend | resume => exact h.1.symm
    | stop | destroy | addTask => exact h.elim
  | joining =>
    cases command with
    | stop | destroy => exact h.2.1.symm
    | suspend | resume | addTask => exact h.1.elim
  | done =>
    cases command with
    | destroy => exact h.1.symm
    | addTask => rfl
    | suspend | resume | stop => exact h.1.elim

theorem Phase.ended_le {m : Mode} {c : Controller α} (h : Phase n m x c) : x.ended ≤ n := by
  have hrest : ∀ m : Mode, (m.rest n).ended ≤ n := by
    intro m
    cases m <;> simp [Mode.rest]
  cases c with
  | idle =>
    obtain rfl : x = m.rest n := h
    exact hrest m
  | done =>
    obtain ⟨-, rfl⟩ := h
    exact hrest m
  | adding command =>
    cases command with
    | addTask =>
      obtain ⟨-, rfl⟩ := h
      exact hrest m
    | suspend | stop | destroy =>
      obtain ⟨-, -, h⟩ := h
      omega
    | resume => exact h.elim
  | posting =>
    obtain ⟨-, h⟩ := h
    omega
  | waiting command =>
    cases command with
    | suspend | resume =>
      obtain ⟨-, h⟩ := h
      omega
    | stop | destroy | addTask => exact h.elim
  | joining =>
    obtain ⟨-, -, h⟩ := h
    omega

/-- As long as the mode is that of `Suspend`, nobody has posted `m_thread_sem`. -/
theorem Phase.thread_eq_zero {c : Controller α} (h : Phase n .suspended x c) : x.thread = 0 := by
  cases c with
  | idle =>
    obtain rfl : x = Mode.rest n .suspended := h
    rfl
  | done =>
    obtain ⟨-, rfl⟩ := h
    rfl
  | adding command =>
    cases command with
    | suspend =>
      obtain ⟨-, -, h⟩ := h
      omega
    | addTask =>
      obtain ⟨-, rfl⟩ := h
      rfl
    | stop | destroy =>
      obtain ⟨-, hm, -⟩ := h
      cases hm
    | resume => exact h.elim
  | posting =>
    obtain ⟨hm, -⟩ := h
    cases hm
  | waiting command =>
    cases command with
    | suspend =>
      obtain ⟨-, h⟩ := h
      omega
    | resume =>
      obtain ⟨hm, -⟩ := h
      cases hm
    | stop | destroy | addTask => exact h.elim
  | joining =>
    obtain ⟨-, hm, -⟩ := h
    cases hm

variable [TPTask α] [DecidableEq κ] {throws : α → Prop} {script : List (Command α)}
variable {es : List (Event n κ α)} {e : Event n κ α} {s t : State n κ α}

theorem Step.tally (hstep : Step throws s e t) : s.tally.Step e t.tally := by
  cases e with
  | called command =>
    obtain ⟨-, script, -, rfl⟩ := hstep
    rfl
  | looped command =>
    obtain ⟨-, -, rfl⟩ := hstep
    rfl
  | returned command =>
    obtain ⟨-, rfl⟩ := hstep
    rfl
  | pushed thread task =>
    obtain ⟨q, c, hq, -, rfl⟩ := hstep
    have hpq := queueStep_pushed hq
    have hdue := hpq.countP_eq PoolTask.isSuspend
    have hended := hpq.countP_eq PoolTask.isStop
    rw [List.countP_append, List.countP_singleton] at hdue hended
    cases task <;>
    · simp only [PoolTask.isSuspend, PoolTask.isStop, if_true, Bool.false_eq_true, if_false]
        at hdue hended
      apply Tally.ext <;> simp only [State.tally] <;> omega
  | posted thread =>
    obtain ⟨q, hq, rfl⟩ := hstep
    simp only [Tally.Step, State.tally, queueStep_pq hq nofun nofun]
  | unlocked thread =>
    obtain ⟨q, hq, rfl⟩ := hstep
    simp only [Tally.Step, State.tally, queueStep_pq hq nofun nofun]
  | threadPost =>
    obtain ⟨left, -, rfl⟩ := hstep
    rfl
  | mainWait =>
    obtain ⟨command, left, sem, -, hsem, rfl⟩ := hstep
    exact ⟨sem, hsem, rfl⟩
  | joined i =>
    obtain ⟨command, left, -, -, -, rfl⟩ := hstep
    rfl
  | popCalled i out =>
    obtain ⟨-, q, hq, rfl⟩ := hstep
    simp only [Tally.Step, State.tally, queueStep_pq hq nofun nofun]
  | popWaited i =>
    obtain ⟨-, q, hq, rfl⟩ := hstep
    simp only [Tally.Step, State.tally, queueStep_pq hq nofun nofun]
  | took i task =>
    obtain ⟨hi, q, left, hq, rfl⟩ := hstep
    have hpq := queueStep_popped hq
    have hdue := hpq.countP_eq PoolTask.isSuspend
    have hended := hpq.countP_eq PoolTask.isStop
    have hworkers := workers_update hi (.got task)
    rw [List.countP_cons] at hdue hended
    cases task <;>
    · simp only [PoolTask.isSuspend, PoolTask.isStop, if_true, Bool.false_eq_true, if_false,
        Worker.isDue, Worker.isParked, Worker.isResuming, Worker.isEnded, Bool.toNat_true,
        Bool.toNat_false] at hdue hended hworkers
      apply Tally.ext <;> simp only [State.tally, State.move] <;> omega
  | executed i task =>
    obtain ⟨hi, -, -, rfl⟩ := hstep
    have hworkers := workers_update hi task.after
    cases task <;>
    · simp only [PoolTask.after, Worker.isDue, Worker.isParked, Worker.isResuming, Worker.isEnded,
        Bool.toNat_true, Bool.toNat_false] at hworkers
      apply Tally.ext <;> simp only [State.tally, State.move, PoolTask.after] <;> omega
  | suspended i =>
    obtain ⟨hi, rfl⟩ := hstep
    have hworkers := workers_update hi .parked
    have hpos : 0 < Threads.count Worker.isDue s.worker :=
      Threads.count_pos (i := i) (by rw [hi]; rfl)
    simp only [Worker.isDue, Worker.isParked, Worker.isResuming, Worker.isEnded,
      Bool.toNat_true, Bool.toNat_false] at hworkers
    refine ⟨s.tally.due - 1, ?_, ?_⟩
    · simp only [State.tally]
      omega
    · apply Tally.ext <;> simp only [State.tally, State.move] <;> omega
  | woken i =>
    obtain ⟨sem, hi, hsem, rfl⟩ := hstep
    have hworkers := workers_update hi .resuming
    simp only [Worker.isDue, Worker.isParked, Worker.isResuming, Worker.isEnded,
      Bool.toNat_true, Bool.toNat_false] at hworkers
    refine ⟨Threads.count Worker.isParked (Function.update s.worker i .resuming), sem, ?_, hsem, ?_⟩
    · simp only [State.tally]
      omega
    · apply Tally.ext <;> simp only [State.tally, State.move] <;> omega
  | resumed i =>
    obtain ⟨hi, rfl⟩ := hstep
    have hworkers := workers_update hi .popping
    simp only [Worker.isDue, Worker.isParked, Worker.isResuming, Worker.isEnded,
      Bool.toNat_true, Bool.toNat_false] at hworkers
    refine ⟨Threads.count Worker.isResuming (Function.update s.worker i .popping), ?_, ?_⟩
    · simp only [State.tally]
      omega
    · apply Tally.ext <;> simp only [State.tally, State.move] <;> omega
  | terminated i task =>
    obtain ⟨-, -, rfl⟩ := hstep
    rfl

theorem Phase.step (h : Phase n (mode es) s.tally s.controller)
    (hscript : Alternates (mode es) s.script) (hn : 0 < n) (hstep : Step throws s e t) :
    Phase n (mode (e :: es)) t.tally t.controller := by
  have htally := hstep.tally
  cases e with
  | called command =>
    obtain ⟨hidle, script, hs, rfl⟩ := hstep
    rw [hs] at hscript
    rw [hidle] at h
    exact h.called hscript.1 hn
  | looped command =>
    obtain ⟨hloop, -, rfl⟩ := hstep
    exact h.looped hloop
  | returned command =>
    obtain ⟨hend, rfl⟩ := hstep
    exact h.returned hend
  | pushed thread task =>
    obtain ⟨q, c, -, hpush, rfl⟩ := hstep
    exact h.pushed htally hpush
  | threadPost =>
    obtain ⟨left, hc, rfl⟩ := hstep
    rw [hc] at h
    obtain ⟨hm, h⟩ := h
    exact ⟨hm, by simp only [State.tally] at h ⊢; omega⟩
  | mainWait =>
    obtain ⟨command, left, sem, hc, hsem, rfl⟩ := hstep
    rw [hc] at h
    cases command with
    | suspend | resume =>
      obtain ⟨hm, h⟩ := h
      exact ⟨hm, by simp only [State.tally] at h ⊢; omega⟩
    | stop | destroy | addTask => exact h.elim
  | joined i =>
    obtain ⟨command, left, hc, -, -, rfl⟩ := hstep
    rw [hc] at h
    obtain ⟨hjoins, hm, h⟩ := h
    exact ⟨hjoins, hm, by simp only [State.tally] at h ⊢; omega⟩
  | suspended i =>
    obtain ⟨-, rfl⟩ := hstep
    exact h.sleeper htally trivial
  | woken i =>
    obtain ⟨_, -, -, rfl⟩ := hstep
    exact h.sleeper htally trivial
  | resumed i =>
    obtain ⟨-, rfl⟩ := hstep
    exact h.sleeper htally trivial
  | posted | unlocked =>
    obtain ⟨q, -, rfl⟩ := hstep
    rw [htally]
    exact h
  | popCalled | popWaited =>
    obtain ⟨-, q, -, rfl⟩ := hstep
    rw [htally]
    exact h
  | took i task =>
    obtain ⟨-, q, left, -, rfl⟩ := hstep
    rw [htally]
    exact h
  | executed i task =>
    obtain ⟨-, -, -, rfl⟩ := hstep
    rw [htally]
    exact h
  | terminated i task =>
    obtain ⟨-, -, rfl⟩ := hstep
    exact h

theorem Step.calls (hstep : Step throws s e t) :
    (∃ command, e = .called command ∧ s.controller = .idle ∧ s.script = command :: t.script) ∨
    (∀ command, e ≠ .called command) ∧ t.script = s.script := by
  cases e with
  | called command =>
    obtain ⟨hidle, _, hs, rfl⟩ := hstep
    exact .inl ⟨command, rfl, hidle, hs⟩
  | looped | terminated =>
    obtain ⟨-, -, rfl⟩ := hstep
    exact .inr ⟨nofun, rfl⟩
  | returned | suspended | resumed =>
    obtain ⟨-, rfl⟩ := hstep
    exact .inr ⟨nofun, rfl⟩
  | pushed =>
    obtain ⟨_, _, -, -, rfl⟩ := hstep
    exact .inr ⟨nofun, rfl⟩
  | posted | unlocked | threadPost =>
    obtain ⟨_, -, rfl⟩ := hstep
    exact .inr ⟨nofun, rfl⟩
  | mainWait | joined | took =>
    obtain ⟨_, _, _, _, _, rfl⟩ := hstep
    exact .inr ⟨nofun, rfl⟩
  | popCalled | popWaited =>
    obtain ⟨-, _, -, rfl⟩ := hstep
    exact .inr ⟨nofun, rfl⟩
  | executed | woken =>
    obtain ⟨_, _, _, rfl⟩ := hstep
    exact .inr ⟨nofun, rfl⟩

theorem Alternates.step (h : Alternates (mode es) s.script) (hstep : Step throws s e t) :
    Alternates (mode (e :: es)) t.script := by
  rcases hstep.calls with ⟨command, rfl, -, hs⟩ | ⟨he, hs⟩
  · rw [hs] at h
    exact h.2
  · rw [hs, mode_cons he]
    exact h

/-- What `Suspend` leaves behind lasts until `Resume` is called. -/
theorem Suspended.step (hsuspended : Suspended (e :: es))
    (h : Suspended es → mode es = .suspended ∧ s.controller.AtRest)
    (hphase : Phase n (mode es) s.tally s.controller)
    (hscript : Alternates (mode es) s.script) (hstep : Step throws s e t) :
    mode (e :: es) = .suspended ∧ t.controller.AtRest := by
  cases e with
  | returned command =>
    obtain ⟨hend, rfl⟩ := hstep
    cases command with
    | suspend => exact ⟨(hphase.mode_eq hend).symm, trivial⟩
    | _ => exact ⟨(h hsuspended).1, trivial⟩
  | called command =>
    obtain ⟨-, script, hs, rfl⟩ := hstep
    rw [hs] at hscript
    cases command with
    | resume => exact hsuspended.elim
    | addTask task => exact ⟨(h hsuspended).1, trivial⟩
    | suspend | stop =>
      have hrunning : mode es = .running := hscript.1
      rw [(h hsuspended).1] at hrunning
      cases hrunning
    | destroy => exact absurd (h hsuspended).1 hscript.1
  | looped command =>
    obtain ⟨hloop, -, rfl⟩ := hstep
    obtain ⟨hmode, hrest⟩ := h hsuspended
    exact ⟨hmode, hrest.looped hloop⟩
  | pushed thread task =>
    obtain ⟨q, c, -, hpush, rfl⟩ := hstep
    obtain ⟨hmode, hrest⟩ := h hsuspended
    cases thread with
    | controller =>
      obtain ⟨command, left, hc, rfl⟩ := hpush
      rw [hc] at hrest
      cases command with
      | addTask task => exact ⟨hmode, trivial⟩
      | _ => exact hrest.elim
    | worker i =>
      obtain ⟨_, _, -, -, rfl⟩ := hpush
      exact ⟨hmode, hrest⟩
    | other a =>
      obtain ⟨_, -, rfl⟩ := hpush
      exact ⟨hmode, hrest⟩
  | threadPost =>
    obtain ⟨left, hc, -⟩ := hstep
    have hrest := (h hsuspended).2
    rw [hc] at hrest
    exact hrest.elim
  | mainWait =>
    obtain ⟨command, left, sem, hc, -⟩ := hstep
    have hrest := (h hsuspended).2
    rw [hc] at hrest
    exact hrest.elim
  | joined i =>
    obtain ⟨command, left, hc, -⟩ := hstep
    have hrest := (h hsuspended).2
    rw [hc] at hrest
    exact hrest.elim
  | terminated =>
    obtain ⟨-, -, rfl⟩ := hstep
    exact h hsuspended
  | suspended | resumed =>
    obtain ⟨-, rfl⟩ := hstep
    exact h hsuspended
  | posted | unlocked =>
    obtain ⟨_, -, rfl⟩ := hstep
    exact h hsuspended
  | popCalled | popWaited =>
    obtain ⟨-, _, -, rfl⟩ := hstep
    exact h hsuspended
  | took =>
    obtain ⟨-, _, _, -, rfl⟩ := hstep
    exact h hsuspended
  | executed | woken =>
    obtain ⟨_, _, _, rfl⟩ := hstep
    exact h hsuspended

/-- The equations, and what the workers have to do with them. -/
structure Protocol (es : List (Event n κ α)) (s : State n κ α) : Prop where
  script : Alternates (mode es) s.script
  phase : Phase n (mode es) s.tally s.controller
  suspends : mode es = .suspended → ∀ i, suspends i es = (s.worker i).isAsleep.toNat
  stops : ∀ i, stops i es = (s.worker i).isEnded.toNat
  exited : ∀ i, i.val < s.joined → s.worker i = .exited
  suspended : Suspended es → mode es = .suspended ∧ s.controller.AtRest

namespace Protocol

omit [TPTask α] [DecidableEq κ] in
theorem start (h : Alternates .running script) :
    Protocol [] (init script : State n κ α) where
  script := h
  phase := init_tally script
  suspends := by simp [mode]
  stops i := rfl
  exited i hi := absurd hi (Nat.not_lt_zero _)
  suspended := False.elim

omit [TPTask α] [DecidableEq κ] in
theorem awake (h : Protocol es s) (hidle : s.controller = .idle) (hmode : mode es = .running)
    (i : Fin n) : (s.worker i).isAsleep = false := by
  have hphase := h.phase
  rw [hidle, hmode] at hphase
  have hrest : s.tally = Mode.rest n .running := hphase
  have hdue : _ + Threads.count Worker.isDue s.worker = 0 := congrArg Tally.due hrest
  have hparked : Threads.count Worker.isParked s.worker = 0 := congrArg Tally.parked hrest
  have hdue := Threads.count_eq_zero.mp (Nat.eq_zero_of_add_eq_zero_left hdue) i
  have hparked := Threads.count_eq_zero.mp hparked i
  rw [Worker.isAsleep, hdue, hparked, Bool.or_false]

theorem step_suspends (h : Protocol es s) (hstep : Step throws s e t)
    (hmode : mode (e :: es) = .suspended) (i : Fin n) :
    ThreadPool.suspends i (e :: es) = (t.worker i).isAsleep.toNat := by
  rcases hstep.worker with ⟨j, p, q, hmove, hp, ht⟩ | ⟨hstill, ht⟩
  · have hbefore : mode es = .suspended := by
      rw [mode_cons (by cases hmove <;> nofun)] at hmode
      exact hmode
    rw [ht]
    apply hmove.suspends hp _ (h.suspends hbefore i)
    rintro rfl
    obtain ⟨sem, -, hsem, -⟩ := hstep
    have hphase := h.phase
    rw [hbefore] at hphase
    exact Nat.succ_ne_zero sem (hsem.symm.trans hphase.thread_eq_zero)
  · rw [ht]
    rcases hstep.calls with ⟨command, rfl, hidle, hs⟩ | ⟨hcall, -⟩
    · have hallowed := h.script
      rw [hs] at hallowed
      cases command with
      | suspend =>
        rw [h.awake hidle hallowed.1]
        rfl
      | addTask task => exact h.suspends hmode i
      | resume | stop | destroy => cases hmode
    · rw [suspends_cons hstill (hcall _)]
      rw [mode_cons hcall] at hmode
      exact h.suspends hmode i

theorem step_exited (h : Protocol es s) (hstep : Step throws s e t) (i : Fin n)
    (hi : i.val < t.joined) : t.worker i = .exited := by
  have hstays : s.worker i = .exited → t.worker i = .exited := by
    intro hexited
    rcases hstep.worker with ⟨j, p, q, hmove, hp, ht⟩ | ⟨-, ht⟩
    · have hne : i ≠ j := by
        rintro rfl
        rw [hexited] at hp
        subst hp
        cases hmove
      rw [ht, Function.update_of_ne hne, hexited]
    · rw [ht, hexited]
  rcases hstep.tally.joined with ⟨j, rfl⟩ | hjoined
  · obtain ⟨command, left, hc, hj, hexited, rfl⟩ := hstep
    have hphase := h.phase
    rw [hc] at hphase
    obtain ⟨-, -, hcount, -⟩ := hphase
    have hcount : s.joined + (left + 1) = n := hcount
    have hi : i.val < s.joined + 1 := hi
    by_cases hij : i = j
    · rw [hij]
      exact hexited
    · have hne : i.val ≠ j.val := fun hval => hij (Fin.ext hval)
      exact h.exited i (by omega)
  · have hjoined : t.joined = s.joined := hjoined
    rw [hjoined] at hi
    exact hstays (h.exited i hi)

theorem step (h : Protocol es s) (hn : 0 < n) (hstep : Step throws s e t) :
    Protocol (e :: es) t where
  script := h.script.step hstep
  phase := h.phase.step h.script hn hstep
  suspends := h.step_suspends hstep
  exited := h.step_exited hstep
  suspended hs := hs.step h.suspended h.phase h.script hstep
  stops i := by
    rcases hstep.worker with ⟨j, p, q, hmove, hp, ht⟩ | ⟨hstill, ht⟩
    · rw [ht]
      exact hmove.stops hp (h.stops i)
    · rw [stops_cons hstill, ht]
      exact h.stops i

end Protocol

theorem protocol_of_run (hn : 0 < n) (hscript : Alternates .running script)
    (h : (pool throws script).Run es s) : Protocol es s := by
  apply h.invariant
  · rintro _ rfl
    exact .start hscript
  · rintro es s e t hs ⟨-, hstep⟩
    exact hs.step hn hstep

theorem returned_of_run (hn : 0 < n) (hscript : Alternates .running script)
    (h : (pool throws script).Run (.returned command :: es) s) :
    command.mode (mode es) = mode es ∧ s.tally = (mode es).rest n := by
  cases h with
  | step hrun hstep =>
    obtain ⟨-, hend, rfl⟩ := hstep
    have hphase := (protocol_of_run hn hscript hrun).phase
    exact ⟨hphase.mode_eq hend, hphase.returned hend⟩

theorem suspended_of_run (hn : 0 < n) (hscript : Alternates .running script)
    (h : (pool throws script).Run es s) (hs : Suspended es) :
    (∀ i, s.worker i = .parked ∧ suspends i es = 1) ∧
    ∀ e t, Step throws s e t → ∀ i task, e ≠ .took i task ∧ e ≠ .executed i task := by
  have hprotocol := protocol_of_run hn hscript h
  obtain ⟨hmode, hrest⟩ := hprotocol.suspended hs
  have htally := hprotocol.phase.atRest hrest
  rw [hmode] at htally
  have hcount : Threads.count Worker.isParked s.worker = Fintype.card (Fin n) :=
    (congrArg Tally.parked htally).trans (Fintype.card_fin n).symm
  have hparked : ∀ i, s.worker i = .parked := fun i =>
    Worker.isParked_iff.mp (Threads.count_eq_card.mp hcount i)
  constructor
  · intro i
    refine ⟨hparked i, ?_⟩
    rw [hprotocol.suspends hmode i, hparked i]
    rfl
  · intro e t hstep i task
    constructor <;>
    · rintro rfl
      have hi := hstep.1
      rw [hparked i] at hi
      cases hi

theorem resumed_of_run (hn : 0 < n) (hscript : Alternates .running script)
    (h : (pool throws script).Run (.returned .resume :: es) s) :
    s.threadSem = 0 ∧ s.mainSem = 0 ∧ .suspend ∉ s.queue.pq ∧ ∀ i, s.worker i ≠ .parked := by
  obtain ⟨hmode, htally⟩ := returned_of_run hn hscript h
  rw [← hmode] at htally
  have hdue : s.queue.pq.countP PoolTask.isSuspend + _ = 0 := congrArg Tally.due htally
  have hparked : Threads.count Worker.isParked s.worker = 0 := congrArg Tally.parked htally
  refine ⟨congrArg Tally.thread htally, congrArg Tally.main htally, ?_, ?_⟩
  · intro hmem
    have hnone := List.countP_eq_zero.mp (Nat.eq_zero_of_add_eq_zero_right hdue)
    exact hnone _ hmem rfl
  · intro i hi
    have hnone := Threads.count_eq_zero.mp hparked i
    rw [hi] at hnone
    cases hnone

theorem stopped_of_run (hn : 0 < n) (hscript : Alternates .running script)
    (h : (pool throws script).Run (.returned command :: es) s)
    (hcommand : command.mode (mode es) = .stopped) (i : Fin n) :
    s.worker i = .exited ∧ stops i (.returned command :: es) = 1 := by
  have hprotocol := protocol_of_run hn hscript h
  obtain ⟨hmode, htally⟩ := returned_of_run hn hscript h
  rw [← hmode, hcommand] at htally
  have hjoined : s.joined = n := congrArg Tally.joined htally
  have hexited := hprotocol.exited i (by rw [hjoined]; exact i.isLt)
  refine ⟨hexited, ?_⟩
  rw [hprotocol.stops i, hexited]
  rfl

variable [Fintype κ]

/-- In every run of a pool, for any number of workers and of threads that add tasks, where the
controlling thread suspends and resumes and at the end stops: from when `Suspend` has returned,
every worker is parked, has taken one `TPSuspend` for it, and none executes a task or starts one
before `Resume` is called; when `Resume` has returned, both semaphores are 0, no `TPSuspend` is
left and nobody is parked; when `Stop` has returned, each worker has taken one `TPStop` and left
the loop; and no task is started, or ends, more often than it was added. -/
theorem run_protocol (hn : 0 < n) (hscript : Alternates .running script)
    (h : (pool throws script).Run es s) :
    (Suspended es → (∀ i, s.worker i = .parked ∧ suspends i es = 1) ∧
      ∀ e t, Step throws s e t → ∀ i task, e ≠ .took i task ∧ e ≠ .executed i task) ∧
    (∀ es', es = .returned .resume :: es' →
      s.threadSem = 0 ∧ s.mainSem = 0 ∧ .suspend ∉ s.queue.pq ∧ ∀ i, s.worker i ≠ .parked) ∧
    (∀ es', es = .returned .stop :: es' → ∀ i, s.worker i = .exited ∧ stops i es = 1) ∧
    users (executed es) <+~ users (taken es) ∧ users (taken es) <+~ users (pushes es) := by
  refine ⟨suspended_of_run hn hscript h, ?_, ?_, users_of_run h⟩
  · rintro es' rfl
    exact resumed_of_run hn hscript h
  · rintro es' rfl
    exact stopped_of_run hn hscript h rfl

/-- Two workers are suspended, resumed and stopped. Meanwhile another thread adds a task, which is
executed behind the `Resume`. -/
theorem run_protocol_two : ∃ (es : List (Event 2 Unit TaskPriority)) (s : State 2 Unit TaskPriority),
    (pool (fun _ => False) [.suspend, .resume, .stop]).Run (.returned .stop :: es) s ∧
    .pushed (.other ()) (.user .medium) ∈ es ∧ users (executed es) = [.medium] ∧
    ∀ i, s.worker i = .exited ∧ stops i (.returned .stop :: es) = 1 := by
  have h : (pool (n := 2) (κ := Unit) (fun _ : TaskPriority => False)
    [.suspend, .resume, .stop]).Run [] (init _) := .start rfl
  have h := h.then_ (.called .suspend) ⟨rfl, rfl, _, rfl, rfl⟩
  have h := run_add h rfl rfl rfl rfl (Heap.push_nil _ _)
  have h := run_take h rfl 0 rfl rfl rfl rfl rfl rfl
  have h := run_add h rfl rfl rfl rfl (Heap.push_nil _ _)
  have h := run_take h rfl 1 rfl rfl rfl rfl rfl rfl
  have h := h.then_ (.looped .suspend) ⟨rfl, .adding, rfl, rfl⟩
  have h := h.then_ (.executed 0 .suspend) ⟨rfl, rfl, rfl, nofun, rfl⟩
  have h := h.then_ (.suspended 0) ⟨rfl, rfl, rfl⟩
  have h := h.then_ (.executed 1 .suspend) ⟨rfl, rfl, rfl, nofun, rfl⟩
  have h := h.then_ (.suspended 1) ⟨rfl, rfl, rfl⟩
  have h := h.then_ .mainWait ⟨rfl, _, _, _, rfl, rfl, rfl⟩
  have h := h.then_ .mainWait ⟨rfl, _, _, _, rfl, rfl, rfl⟩
  have h := h.then_ (.returned .suspend) ⟨rfl, .waiting, rfl⟩
  have h := run_push h rfl (.other ()) ⟨TaskPriority.medium, rfl, rfl⟩ rfl rfl
    (Heap.push_nil _ _)
  have h := h.then_ (.called .resume) ⟨rfl, rfl, _, rfl, rfl⟩
  have h := h.then_ .threadPost ⟨rfl, _, rfl, rfl⟩
  have h := h.then_ .threadPost ⟨rfl, _, rfl, rfl⟩
  have h := h.then_ (.looped .resume) ⟨rfl, .posting, rfl, rfl⟩
  have h := h.then_ (.woken 0) ⟨rfl, _, rfl, rfl, rfl⟩
  have h := h.then_ (.woken 1) ⟨rfl, _, rfl, rfl, rfl⟩
  have h := h.then_ (.resumed 0) ⟨rfl, rfl, rfl⟩
  have h := h.then_ (.resumed 1) ⟨rfl, rfl, rfl⟩
  have h := h.then_ .mainWait ⟨rfl, _, _, _, rfl, rfl, rfl⟩
  have h := h.then_ .mainWait ⟨rfl, _, _, _, rfl, rfl, rfl⟩
  have h := h.then_ (.returned .resume) ⟨rfl, .waiting, rfl⟩
  have h := run_take h rfl 0 rfl rfl rfl rfl rfl rfl
  have h := h.then_ (.executed 0 (.user .medium)) ⟨rfl, rfl, rfl, fun _ _ => id, rfl⟩
  have h := h.then_ (.called .stop) ⟨rfl, rfl, _, rfl, rfl⟩
  have h := run_add h rfl rfl rfl rfl (Heap.push_nil _ _)
  have h := run_take h rfl 0 rfl rfl rfl rfl rfl rfl
  have h := run_add h rfl rfl rfl rfl (Heap.push_nil _ _)
  have h := run_take h rfl 1 rfl rfl rfl rfl rfl rfl
  have h := h.then_ (.looped .stop) ⟨rfl, .adding, rfl, rfl⟩
  have h := h.then_ (.executed 0 .stop) ⟨rfl, rfl, rfl, nofun, rfl⟩
  have h := h.then_ (.executed 1 .stop) ⟨rfl, rfl, rfl, nofun, rfl⟩
  have h := h.then_ (.joined 0) ⟨rfl, _, 1, rfl, rfl, rfl, rfl⟩
  have h := h.then_ (.joined 1) ⟨rfl, _, 0, rfl, rfl, rfl, rfl⟩
  have h := h.then_ (.returned .stop) ⟨rfl, .joining, rfl⟩
  have hscript : Alternates .running ([.suspend, .resume, .stop] : List (Command TaskPriority)) :=
    ⟨rfl, rfl, rfl, trivial⟩
  have hstopped := (run_protocol Nat.two_pos hscript h).2.2.1 _ rfl
  exact ⟨_, _, h, by simp, rfl, hstopped⟩

end GreenCloud.ThreadPool
