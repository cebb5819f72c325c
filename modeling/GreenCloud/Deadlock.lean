import GreenCloud.Shutdown

/-! When `Suspend`, `Resume`, `Stop` and the destructor get stuck: the controlling thread waits and
no worker can go on. -/

namespace GreenCloud.ThreadPool

open CLib Transition

variable {n : Nat} {κ α : Type}

namespace State

/-- The controlling thread is in `m_main_sem.Wait()` at 0, or in `join` of a worker that has not
left its loop. -/
inductive Waits (s : State n κ α) : Prop
  | main (command : Command α) (left : Nat) :
      s.controller = .waiting command (left + 1) → s.mainSem = 0 → Waits s
  | join (command : Command α) (left : Nat) (i : Fin n) :
      s.controller = .joining command (left + 1) → i.val + (left + 1) = n →
        s.worker i ≠ .exited → Waits s

/-- The worker is in `Wait` of `m_sem` or of `m_thread_sem` at 0, or the mutex of the queue is
locked. -/
inductive Blocked (s : State n κ α) (i : Fin n) : Prop
  | sem (timed : Bool) (out : Option (PoolTask α)) : s.worker i = .popping →
      s.queue.position (.worker i) = .waiting timed out → s.queue.sem = 0 → Blocked s i
  | mutex (timed : Bool) (out : Option (PoolTask α)) : s.worker i = .popping →
      s.queue.position (.worker i) = .passed timed out → s.queue.locked = true → Blocked s i
  | parked : s.worker i = .parked → s.threadSem = 0 → Blocked s i

/-- No thread of the pool can go on, and no thread that adds a task has the mutex. -/
structure Stuck (s : State n κ α) : Prop where
  alive : s.alive = true
  controller : s.Waits
  workers : ∀ i, s.worker i ≠ .exited → s.Blocked i
  others : ∀ a, (s.queue.position (.other a)).hasLock = false

end State

def Worker.Admits : Worker α → SharedQueue.Position (PoolTask α) → Prop
  | popping, p => p.hasLock = false
  | got (.user _), p => p = .idle ∨ p.hasLock = true
  | _, p => p = .idle

def Controller.Admits : Controller α → SharedQueue.Position (PoolTask α) → Prop
  | adding .., p => p = .idle ∨ p.hasLock = true
  | _, p => p = .idle

/-- What the place of a thread in the program says of its place in the queue. -/
def State.Admits (s : State n κ α) : Thread n κ → SharedQueue.Position (PoolTask α) → Prop
  | .worker i, p => (s.worker i).Admits p
  | .controller, p => s.controller.Admits p
  | .other _, p => p = .idle ∨ p.hasLock = true

def State.Placed (s : State n κ α) : Prop :=
  ∀ thread, s.Admits thread (s.queue.position thread)

theorem Worker.admits_idle (w : Worker α) : w.Admits .idle := by
  cases w with
  | got task => cases task <;> simp [Worker.Admits]
  | _ => rfl

theorem State.admits_idle (s : State n κ α) (thread : Thread n κ) : s.Admits thread .idle := by
  cases thread with
  | worker i => exact Worker.admits_idle _
  | other a => exact .inl rfl
  | controller =>
    rw [State.Admits]
    cases s.controller <;> simp [Controller.Admits]

theorem State.Admits.locked {s : State n κ α} {p q : SharedQueue.Position (PoolTask α)}
    (h : s.Admits thread p) (hp : p.hasLock = true) (hq : q.hasLock = true) :
    s.Admits thread q := by
  have hne : p ≠ .idle := by
    rintro rfl
    cases hp
  cases thread with
  | other a => exact .inr hq
  | controller =>
    rw [State.Admits] at h ⊢
    cases hc : s.controller with
    | adding => exact .inr hq
    | _ =>
      rw [hc] at h
      exact absurd h hne
  | worker i =>
    rw [State.Admits] at h ⊢
    cases hw : s.worker i with
    | popping =>
      rw [hw] at h
      exact nomatch hp.symm.trans h
    | got task =>
      rw [hw] at h
      cases task with
      | user => exact .inr hq
      | stop | suspend => exact absurd h hne
    | _ =>
      rw [hw] at h
      exact absurd h hne

variable [DecidableEq κ] {s t : State n κ α}

theorem State.Placed.move (h : s.Placed) (thread : Thread n κ)
    (hq : t.queue.position = Function.update s.queue.position thread p)
    (hworker : ∀ i, thread ≠ .worker i → t.worker i = s.worker i)
    (hcontroller : thread ≠ .controller → t.controller = s.controller)
    (hp : t.Admits thread p) : t.Placed := by
  intro other
  rw [hq]
  by_cases hother : other = thread
  · rw [hother, Function.update_self]
    exact hp
  · rw [Function.update_of_ne hother]
    have hs := h other
    cases other with
    | worker i =>
      rw [State.Admits, hworker i (Ne.symm hother)]
      exact hs
    | controller =>
      rw [State.Admits, hcontroller (Ne.symm hother)]
      exact hs
    | other a => exact hs

theorem State.Placed.stay (h : s.Placed) (thread : Thread n κ) (hq : t.queue = s.queue)
    (hidle : s.queue.position thread = .idle)
    (hworker : ∀ i, thread ≠ .worker i → t.worker i = s.worker i)
    (hcontroller : thread ≠ .controller → t.controller = s.controller) : t.Placed := by
  refine h.move thread ?_ hworker hcontroller (t.admits_idle thread)
  rw [hq, ← hidle, Function.update_eq_self]

omit [DecidableEq κ] in
theorem State.worker_move (s : State n κ α) (i : Fin n) (w : Worker α) (j : Fin n)
    (h : (.worker i : Thread n κ) ≠ .worker j) : (s.move i w).worker j = s.worker j :=
  Function.update_of_ne (fun heq => h (congrArg Thread.worker heq.symm)) ..

theorem State.Placed.moveWorker (h : s.Placed) (i : Fin n) (w : Worker α)
    (hidle : (s.worker i).Admits = (· = .idle)) (ht : t.queue = s.queue)
    (hworker : t.worker = (s.move i w).worker) (hcontroller : t.controller = s.controller) :
    t.Placed := by
  have hi := h (.worker i)
  rw [State.Admits, hidle] at hi
  refine h.stay (.worker i) ht hi (fun j hj => ?_) fun _ => hcontroller
  rw [hworker]
  exact s.worker_move i w j hj

variable [TPTask α] {throws : α → Prop} {script : List (Command α)} {es : List (Event n κ α)}

theorem State.Placed.step (h : s.Placed) (hstep : Step throws s e t) : t.Placed := by
  cases e with
  | called command =>
    obtain ⟨hc, _, -, rfl⟩ := hstep
    have hidle := h .controller
    rw [State.Admits, hc] at hidle
    exact h.stay .controller rfl hidle (fun _ _ => rfl) (absurd rfl)
  | looped command =>
    obtain ⟨-, hidle, rfl⟩ := hstep
    exact h.stay .controller rfl hidle (fun _ _ => rfl) (absurd rfl)
  | returned command =>
    obtain ⟨hend, rfl⟩ := hstep
    have hidle := h .controller
    rw [State.Admits] at hidle
    generalize s.controller = c at hend hidle
    refine h.stay .controller rfl ?_ (fun _ _ => rfl) (absurd rfl)
    cases hend <;> exact hidle
  | threadPost =>
    obtain ⟨left, hc, rfl⟩ := hstep
    have hidle := h .controller
    rw [State.Admits, hc] at hidle
    exact h.stay .controller rfl hidle (fun _ _ => rfl) (absurd rfl)
  | mainWait =>
    obtain ⟨command, left, sem, hc, -, rfl⟩ := hstep
    have hidle := h .controller
    rw [State.Admits, hc] at hidle
    exact h.stay .controller rfl hidle (fun _ _ => rfl) (absurd rfl)
  | joined i =>
    obtain ⟨command, left, hc, -, -, rfl⟩ := hstep
    have hidle := h .controller
    rw [State.Admits, hc] at hidle
    exact h.stay .controller rfl hidle (fun _ _ => rfl) (absurd rfl)
  | pushed thread task =>
    obtain ⟨q, c, ⟨-, -, rfl⟩, hpush, rfl⟩ := hstep
    cases thread with
    | controller =>
      obtain ⟨command, left, -, rfl⟩ := hpush
      exact h.move .controller rfl (fun _ _ => rfl) (absurd rfl) (.inr rfl)
    | worker i =>
      obtain ⟨executing, added, hi, -, rfl⟩ := hpush
      refine h.move (.worker i) rfl (fun _ _ => rfl) (fun _ => rfl) ?_
      simp [State.Admits, hi, Worker.Admits, SharedQueue.Position.hasLock]
    | other a =>
      obtain ⟨added, -, rfl⟩ := hpush
      exact h.move (.other a) rfl (fun _ _ => rfl) (fun _ => rfl) (.inr rfl)
  | posted thread =>
    obtain ⟨q, ⟨hinserted, rfl⟩, rfl⟩ := hstep
    have hadmits := h thread
    rw [hinserted] at hadmits
    exact h.move thread rfl (fun _ _ => rfl) (fun _ => rfl) (hadmits.locked rfl rfl)
  | unlocked thread =>
    obtain ⟨q, ⟨-, rfl⟩, rfl⟩ := hstep
    exact h.move thread rfl (fun _ _ => rfl) (fun _ => rfl) (State.admits_idle _ thread)
  | popCalled i out =>
    obtain ⟨hi, q, ⟨-, rfl⟩, rfl⟩ := hstep
    refine h.move (.worker i) rfl (fun _ _ => rfl) (fun _ => rfl) ?_
    simp [State.Admits, hi, Worker.Admits, SharedQueue.Position.hasLock]
  | popWaited i =>
    obtain ⟨hi, q, ⟨timed, out, sem, -, -, rfl⟩, rfl⟩ := hstep
    refine h.move (.worker i) rfl (fun _ _ => rfl) (fun _ => rfl) ?_
    simp [State.Admits, hi, Worker.Admits, SharedQueue.Position.hasLock]
  | took i task =>
    obtain ⟨-, q, left, ⟨timed, out, rest, -, -, -, -, rfl⟩, rfl⟩ := hstep
    exact h.move (.worker i) rfl (s.worker_move i _) (fun _ => rfl) (State.admits_idle _ _)
  | executed i task =>
    obtain ⟨-, hidle, -, rfl⟩ := hstep
    exact h.stay (.worker i) rfl hidle (s.worker_move i _) fun _ => rfl
  | suspended i =>
    obtain ⟨hi, rfl⟩ := hstep
    exact h.moveWorker i .parked (by rw [hi]; rfl) rfl rfl rfl
  | woken i =>
    obtain ⟨sem, hi, -, rfl⟩ := hstep
    exact h.moveWorker i .resuming (by rw [hi]; rfl) rfl rfl rfl
  | resumed i =>
    obtain ⟨hi, rfl⟩ := hstep
    exact h.moveWorker i .popping (by rw [hi]; rfl) rfl rfl rfl
  | terminated i task =>
    obtain ⟨-, -, rfl⟩ := hstep
    exact h

theorem placed_of_run (h : (pool throws script).Run es s) : s.Placed := by
  apply h.invariant (P := fun _ s => s.Placed)
  · rintro _ rfl thread
    exact State.admits_idle _ thread
  · intro es s e t hs hstep
    exact hs.step hstep.2

omit [DecidableEq κ] [TPTask α] in
theorem State.Waits.controller_idle (h : s.Waits) (hplaced : s.Placed) :
    s.queue.position .controller = .idle := by
  have hadmits := hplaced .controller
  rw [State.Admits] at hadmits
  cases h with
  | main command left hc | join command left i hc =>
    rw [hc] at hadmits
    exact hadmits

/-- In a stuck state the mutex of the queue is free, as a thread with the mutex can go on. -/
theorem State.Stuck.unlocked [Fintype κ] (h : s.Stuck) (hplaced : s.Placed)
    (haccounts : SharedQueue.Accounts TPTask.lt qs s.queue) : s.queue.locked = false := by
  have hnone : SharedQueue.holders s.queue.position = 0 := by
    refine Threads.count_eq_zero.mpr fun thread => ?_
    cases thread with
    | controller =>
      rw [h.controller.controller_idle hplaced]
      rfl
    | other a => exact h.others a
    | worker i =>
      have hadmits := hplaced (.worker i)
      rw [State.Admits] at hadmits
      by_cases hexited : s.worker i = .exited
      · rw [hexited] at hadmits
        rw [show _ = _ from hadmits]
        rfl
      · cases h.workers i hexited with
        | sem timed out hi hposition | mutex timed out hi hposition =>
          rw [hposition]
          rfl
        | parked hi =>
          rw [hi] at hadmits
          rw [show _ = _ from hadmits]
          rfl
  have hlock := haccounts.lock
  rw [hnone] at hlock
  exact Bool.toNat_eq_zero.mp hlock

omit [DecidableEq κ] [TPTask α] in
theorem State.Stuck.worker (h : s.Stuck) (hfree : s.queue.locked = false) (i : Fin n) :
    s.worker i = .exited ∨
    s.worker i = .popping ∧ s.queue.sem = 0 ∧ (s.queue.position (.worker i)).isPassed = false ∨
    s.worker i = .parked ∧ s.threadSem = 0 := by
  by_cases hexited : s.worker i = .exited
  · exact .inl hexited
  · cases h.workers i hexited with
    | sem timed out hi hposition hsem => exact .inr (.inl ⟨hi, hsem, by rw [hposition]; rfl⟩)
    | mutex timed out hi hposition hlocked => exact nomatch hfree.symm.trans hlocked
    | parked hi hthread => exact .inr (.inr ⟨hi, hthread⟩)

theorem State.Stuck.length_pq [Fintype κ] (h : s.Stuck) (hplaced : s.Placed)
    (haccounts : SharedQueue.Accounts TPTask.lt qs s.queue) :
    s.queue.pq.length = s.queue.sem := by
  have hfree := h.unlocked hplaced haccounts
  have hpassed : SharedQueue.passed s.queue.position = 0 := by
    refine Threads.count_eq_zero.mpr fun thread => ?_
    have hadmits := hplaced thread
    cases thread with
    | controller =>
      rw [h.controller.controller_idle hplaced]
      rfl
    | other a =>
      rcases hadmits with hidle | hlock
      · rw [hidle]
        rfl
      · cases hp : s.queue.position (.other a) <;> rw [hp] at hlock <;> first | rfl | cases hlock
    | worker i =>
      rw [State.Admits] at hadmits
      rcases h.worker hfree i with hi | ⟨-, -, hnot⟩ | ⟨hi, -⟩
      · rw [hi] at hadmits
        rw [show _ = _ from hadmits]
        rfl
      · exact hnot
      · rw [hi] at hadmits
        rw [show _ = _ from hadmits]
        rfl
  have hinserted : SharedQueue.inserted s.queue.position = 0 := by
    have hlock := haccounts.lock
    rw [hfree] at hlock
    refine Threads.count_eq_zero.mpr fun thread => ?_
    have hnone := Threads.count_eq_zero.mp hlock.symm thread
    cases hp : s.queue.position thread <;> rw [hp] at hnone <;> first | rfl | cases hnone
  have hsize := haccounts.size
  rw [hpassed, hinserted] at hsize
  exact hsize

omit [DecidableEq κ] [TPTask α] in
theorem State.Stuck.tally (h : s.Stuck) (hfree : s.queue.locked = false) :
    s.tally.due = s.queue.pq.countP PoolTask.isSuspend ∧ s.tally.resuming = 0 := by
  have hdue : Threads.count Worker.isDue s.worker = 0 := by
    refine Threads.count_eq_zero.mpr fun i => ?_
    rcases h.worker hfree i with hi | ⟨hi, -⟩ | ⟨hi, -⟩ <;> rw [hi] <;> rfl
  have hresuming : Threads.count Worker.isResuming s.worker = 0 := by
    refine Threads.count_eq_zero.mpr fun i => ?_
    rcases h.worker hfree i with hi | ⟨hi, -⟩ | ⟨hi, -⟩ <;> rw [hi] <;> rfl
  exact ⟨congrArg (s.queue.pq.countP PoolTask.isSuspend + ·) hdue, hresuming⟩

omit [DecidableEq κ] [TPTask α] in
/-- While `Suspend` waits, a worker is still to take a `TPSuspend`, which is in the queue. -/
theorem State.Stuck.not_suspending (h : s.Stuck) (hfree : s.queue.locked = false)
    (hlength : s.queue.pq.length = s.queue.sem) (hmain : s.mainSem = 0) :
    ¬ Phase n m s.tally (.waiting (.suspend : Command α) (left + 1)) := by
  rintro ⟨-, hdue, hposts, -, hended, -⟩
  have hmain : s.tally.main = 0 := hmain
  obtain ⟨hqueued, -⟩ := h.tally hfree
  have hsem : s.queue.sem ≠ 0 := by
    intro hzero
    rw [hzero] at hlength
    rw [List.eq_nil_of_length_eq_zero hlength, List.countP_nil] at hqueued
    omega
  have hparked : ∀ i, (s.worker i).isParked = true := fun i => by
    have hended : s.queue.pq.countP PoolTask.isStop + Threads.count Worker.isEnded s.worker = 0 :=
      hended
    have hnone := Threads.count_eq_zero.mp (Nat.eq_zero_of_add_eq_zero_left hended) i
    rcases h.worker hfree i with hi | ⟨-, hzero, -⟩ | ⟨hi, -⟩
    · rw [hi] at hnone
      cases hnone
    · exact absurd hzero hsem
    · rw [hi]
      rfl
  have hcount : s.tally.parked = Fintype.card (Fin n) := Threads.count_eq_card.mpr hparked
  rw [Fintype.card_fin] at hcount
  omega

omit [DecidableEq κ] [TPTask α] in
theorem State.Stuck.not_resuming (h : s.Stuck) (hfree : s.queue.locked = false)
    (hmain : s.mainSem = 0) :
    ¬ Phase n m s.tally (.waiting (.resume : Command α) (left + 1)) := by
  rintro ⟨-, hthread, hleft, -⟩
  have hmain : s.tally.main = 0 := hmain
  obtain ⟨-, hresuming⟩ := h.tally hfree
  have hzero : s.tally.thread = 0 := by
    by_contra hposted
    have hnone : Threads.count Worker.isParked s.worker = 0 := by
      refine Threads.count_eq_zero.mpr fun i => ?_
      rcases h.worker hfree i with hi | ⟨hi, -⟩ | ⟨hi, hthread⟩
      · rw [hi]
        rfl
      · rw [hi]
        rfl
      · exact absurd hthread hposted
    have hnone : s.tally.parked = 0 := hnone
    omega
  omega

omit [DecidableEq κ] [TPTask α] in
theorem State.Stuck.not_joining (h : s.Stuck) (hfree : s.queue.locked = false)
    (hlength : s.queue.pq.length = s.queue.sem) (hi : s.worker i ≠ .exited) :
    ¬ Phase n m s.tally (.joining (command : Command α) (left + 1)) := by
  rintro ⟨-, -, -, hended, -, hparked, -⟩
  have hparked : Threads.count Worker.isParked s.worker = 0 := hparked
  have hzero : s.queue.sem = 0 := by
    have hnone := Threads.count_eq_zero.mp hparked i
    rcases h.worker hfree i with hexited | ⟨-, hzero, -⟩ | ⟨hworker, -⟩
    · exact absurd hexited hi
    · exact hzero
    · rw [hworker] at hnone
      cases hnone
  rw [hzero] at hlength
  have hended : s.queue.pq.countP PoolTask.isStop + Threads.count Worker.isEnded s.worker = n :=
    hended
  rw [List.eq_nil_of_length_eq_zero hlength, List.countP_nil, Nat.zero_add] at hended
  have hall := Threads.count_eq_card.mp (hended.trans (Fintype.card_fin n).symm) i
  rcases h.worker hfree i with hexited | ⟨hworker, -⟩ | ⟨hworker, -⟩
  · exact hi hexited
  · rw [hworker] at hall
    cases hall
  · rw [hworker] at hall
    cases hall

theorem not_stuck_of_run [Fintype κ] (hn : 0 < n) (hscript : Alternates .running script)
    (h : (pool throws script).Run es s) : ¬ s.Stuck := by
  intro hstuck
  have hplaced := placed_of_run h
  obtain ⟨qs, hrun, -⟩ := queue_of_run h
  have haccounts := SharedQueue.accounts_of_run hrun
  have hfree := hstuck.unlocked hplaced haccounts
  have hlength := hstuck.length_pq hplaced haccounts
  have hphase := (protocol_of_run hn hscript h).phase
  cases hstuck.controller with
  | main command left hc hmain =>
    rw [hc] at hphase
    cases command with
    | suspend => exact hstuck.not_suspending hfree hlength hmain hphase
    | resume => exact hstuck.not_resuming hfree hmain hphase
    | stop | destroy | addTask => exact hphase
  | join command left i hc _ hi =>
    rw [hc] at hphase
    exact hstuck.not_joining hfree hlength hi hphase

theorem Step.withScript (hstep : Step throws s e t) (hcall : ∀ command, e ≠ .called command)
    (script : List (Command α)) :
    Step throws { s with script := script } e { t with script := script } := by
  cases e with
  | called command => exact absurd rfl (hcall command)
  | looped | terminated =>
    obtain ⟨h, h', rfl⟩ := hstep
    exact ⟨h, h', rfl⟩
  | returned | suspended | resumed =>
    obtain ⟨h, rfl⟩ := hstep
    exact ⟨h, rfl⟩
  | pushed =>
    obtain ⟨q, c, hq, hpush, rfl⟩ := hstep
    refine ⟨q, c, hq, ?_, rfl⟩
    rename_i thread task
    cases thread <;> exact hpush
  | posted | unlocked | threadPost =>
    obtain ⟨_, h, rfl⟩ := hstep
    exact ⟨_, h, rfl⟩
  | mainWait =>
    obtain ⟨_, _, _, h, h', rfl⟩ := hstep
    exact ⟨_, _, _, h, h', rfl⟩
  | joined =>
    obtain ⟨_, _, h, h', h'', rfl⟩ := hstep
    exact ⟨_, _, h, h', h'', rfl⟩
  | took =>
    obtain ⟨h, _, _, h', rfl⟩ := hstep
    exact ⟨h, _, _, h', rfl⟩
  | popCalled | popWaited =>
    obtain ⟨h, _, h', rfl⟩ := hstep
    exact ⟨h, _, h', rfl⟩
  | executed =>
    obtain ⟨h, h', h'', rfl⟩ := hstep
    exact ⟨h, h', h'', rfl⟩
  | woken =>
    obtain ⟨_, h, h', rfl⟩ := hstep
    exact ⟨_, h, h', rfl⟩

theorem run_shorter (h : (pool throws script).Run es s) (left rest : List (Command α))
    (hs : s.script = left ++ rest) :
    ∃ pre, script = pre ++ rest ∧ (pool throws pre).Run es { s with script := left } := by
  induction h generalizing left with
  | start h =>
    cases h
    exact ⟨left, hs, .start rfl⟩
  | step h hstep ih =>
    obtain ⟨halive, hstep⟩ := hstep
    rcases hstep.calls with ⟨command, rfl, hidle, hscript⟩ | ⟨hcall, hscript⟩
    · obtain ⟨pre, hpre, hrun⟩ := ih (command :: left) (by rw [hscript, hs]; rfl)
      obtain ⟨-, _, -, rfl⟩ := hstep
      exact ⟨pre, hpre, hrun.then_ (.called command) ⟨halive, hidle, left, rfl, rfl⟩⟩
    · obtain ⟨pre, hpre, hrun⟩ := ih left (by rw [← hscript, hs])
      exact ⟨pre, hpre, hrun.step ⟨halive, hstep.withScript hcall left⟩⟩

/-- Every worker is parked, and the controlling thread, which alone could post for them, is on its
way to join them. -/
structure Trapped (command : Command α) (s : State n κ α) : Prop where
  parked : ∀ i, s.worker i = .parked
  threadSem : s.threadSem = 0
  controller : (∃ left, s.controller = .adding command .stop left) ∨
    s.controller = .joining command n

theorem Trapped.step (h : Trapped command s) (hn : 0 < n) (hjoins : command.Joins)
    (hstep : Step throws s e t) : Trapped command t ∧ e ≠ .returned command := by
  have hno : ∀ i w, w ≠ .parked → s.worker i ≠ w := fun i w hw hi => hw (hi.symm.trans (h.parked i))
  cases e with
  | called =>
    obtain ⟨hidle, -⟩ := hstep
    rcases h.controller with ⟨left, hc⟩ | hc <;> exact nomatch hidle.symm.trans hc
  | looped command' =>
    obtain ⟨hloop, -, rfl⟩ := hstep
    refine ⟨⟨h.parked, h.threadSem, ?_⟩, nofun⟩
    rcases h.controller with ⟨left, hc⟩ | hc <;> rw [hc] at hloop <;> cases hloop
    right
    cases command with
    | stop | destroy => rfl
    | suspend | resume | addTask => exact hjoins.elim
  | returned command' =>
    obtain ⟨hend, -⟩ := hstep
    rcases h.controller with ⟨left, hc⟩ | hc <;> rw [hc] at hend <;> cases hend
    exact absurd hn (Nat.lt_irrefl 0)
  | pushed thread task =>
    obtain ⟨q, c, -, hpush, rfl⟩ := hstep
    refine ⟨⟨h.parked, h.threadSem, ?_⟩, nofun⟩
    cases thread with
    | controller =>
      obtain ⟨command', left, hc, rfl⟩ := hpush
      rcases h.controller with ⟨left', hc'⟩ | hc'
      · cases hc.symm.trans hc'
        exact .inl ⟨left, rfl⟩
      · exact nomatch hc.symm.trans hc'
    | worker i =>
      obtain ⟨executing, added, hi, -⟩ := hpush
      exact absurd hi (hno i _ nofun)
    | other a =>
      obtain ⟨added, -, rfl⟩ := hpush
      exact h.controller
  | posted | unlocked =>
    obtain ⟨q, -, rfl⟩ := hstep
    exact ⟨⟨h.parked, h.threadSem, h.controller⟩, nofun⟩
  | threadPost =>
    obtain ⟨left, hposting, -⟩ := hstep
    rcases h.controller with ⟨left, hc⟩ | hc <;> exact nomatch hposting.symm.trans hc
  | mainWait =>
    obtain ⟨command', left, sem, hwaiting, -⟩ := hstep
    rcases h.controller with ⟨left, hc⟩ | hc <;> exact nomatch hwaiting.symm.trans hc
  | joined i =>
    obtain ⟨command', left, -, -, hexited, -⟩ := hstep
    exact absurd hexited (hno i _ nofun)
  | popCalled i | popWaited i | took i | executed i | suspended i | resumed i | terminated i =>
    exact absurd hstep.1 (hno i _ nofun)
  | woken i =>
    obtain ⟨sem, -, hsem, -⟩ := hstep
    exact nomatch hsem.symm.trans h.threadSem

theorem trapped_of_called (hn : 0 < n) (h : (pool throws script).Run (.called command :: es) s)
    (hjoins : command.Joins) (hcalls : Alternates .running (calls es))
    (hmode : mode es = .suspended) : Trapped command s := by
  cases h with
  | step h hstep =>
    rename_i s
    obtain ⟨pre, hpre, hrun⟩ := run_shorter h [] s.script rfl
    obtain rfl : calls es = pre := List.append_cancel_right ((calls_of_run h).trans hpre)
    obtain ⟨-, hidle, _, -, rfl⟩ := hstep
    have hphase : Phase n (mode es) s.tally s.controller := (protocol_of_run hn hcalls hrun).phase
    rw [hmode, hidle] at hphase
    have htally : s.tally = Mode.suspended.rest n := hphase
    have hparked : Threads.count Worker.isParked s.worker = Fintype.card (Fin n) :=
      (congrArg Tally.parked htally).trans (Fintype.card_fin n).symm
    have hjoined : s.joined = 0 := congrArg Tally.joined htally
    refine ⟨fun i => Worker.isParked_iff.mp (Threads.count_eq_card.mp hparked i),
      congrArg Tally.thread htally, .inl ⟨n, ?_⟩⟩
    cases command with
    | stop => rfl
    | destroy => exact if_pos hjoined
    | suspend | resume | addTask => exact hjoins.elim

theorem trapped_of_run (hn : 0 < n) (after before : List (Event n κ α))
    (h : (pool throws script).Run (after ++ .called command :: before) s) (hjoins : command.Joins)
    (hcalls : Alternates .running (calls before)) (hmode : mode before = .suspended) :
    Trapped command s ∧ .returned command ∉ after := by
  induction after generalizing s with
  | nil => exact ⟨trapped_of_called hn h hjoins hcalls hmode, nofun⟩
  | cons e after ih =>
    cases h with
    | step h hstep =>
      obtain ⟨htrapped, hnone⟩ := ih h
      obtain ⟨htrapped, hne⟩ := htrapped.step hn hjoins hstep.2
      refine ⟨htrapped, fun hmem => ?_⟩
      rcases List.mem_cons.mp hmem with heq | hmem
      · exact hne heq.symm
      · exact hnone hmem

/-- In every run whose calls alternate and which is not suspended when `Stop` or the destructor is
called, the pool never gets stuck. Where it is suspended then, the workers stay parked and the call
does not return. -/
theorem stop_never_stuck [Fintype κ] (hn : 0 < n) (throws : α → Prop) (script : List (Command α)) :
    (Alternates .running script → ∀ (es : List (Event n κ α)) (s : State n κ α),
      (pool throws script).Run es s → ¬ s.Stuck) ∧
    ∀ (after before : List (Event n κ α)) (command : Command α) (s : State n κ α),
      (pool throws script).Run (after ++ .called command :: before) s → command.Joins →
      Alternates .running (calls before) → mode before = .suspended →
      (∀ i, s.worker i = .parked) ∧ .returned command ∉ after := by
  refine ⟨fun hscript es s h => not_stuck_of_run hn hscript h,
    fun after before command s h hjoins hcalls hmode => ?_⟩
  obtain ⟨htrapped, hnone⟩ := trapped_of_run hn after before h hjoins hcalls hmode
  exact ⟨htrapped.parked, hnone⟩

/-- `Stop` of a pool with one worker waits in `join`, while the worker has its `TPStop` to take. -/
theorem stop_never_stuck_joining :
    ∃ (es : List (Event 1 Empty TaskPriority)) (s : State 1 Empty TaskPriority),
      (pool (fun _ => False) [.stop]).Run es s ∧ s.Waits ∧ s.worker 0 = .popping ∧ ¬ s.Stuck := by
  have h : (pool (n := 1) (κ := Empty) (fun _ : TaskPriority => False) [.stop]).Run [] (init _) :=
    .start rfl
  have h := h.then_ (.called .stop) ⟨rfl, rfl, _, rfl, rfl⟩
  have h := run_add h rfl rfl rfl rfl (Heap.push_nil _ _)
  have h := h.then_ (.looped .stop) ⟨rfl, .adding, rfl, rfl⟩
  have hscript : Alternates .running [(.stop : Command TaskPriority)] := ⟨rfl, trivial⟩
  obtain ⟨hnever, -⟩ := stop_never_stuck (n := 1) (κ := Empty) Nat.zero_lt_one
    (fun _ : TaskPriority => False) [.stop]
  exact ⟨_, _, h, .join .stop 0 0 rfl rfl nofun, rfl, hnever hscript _ _ h⟩

/-- One worker, which is suspended: `Stop` pushes a `TPStop` that nobody takes. -/
theorem stop_stuck :
    ∃ (es : List (Event 1 Empty TaskPriority)) (s : State 1 Empty TaskPriority),
      (pool (fun _ => False) [.suspend, .stop]).Run es s ∧ s.controller = .joining .stop 1 ∧
      s.worker 0 = .parked ∧ s.Stuck := by
  have h : (pool (n := 1) (κ := Empty) (fun _ : TaskPriority => False) [.suspend, .stop]).Run []
    (init _) := .start rfl
  have h := h.then_ (.called .suspend) ⟨rfl, rfl, _, rfl, rfl⟩
  have h := run_add h rfl rfl rfl rfl (Heap.push_nil _ _)
  have h := h.then_ (.looped .suspend) ⟨rfl, .adding, rfl, rfl⟩
  have h := run_take h rfl 0 rfl rfl rfl rfl rfl rfl
  have h := h.then_ (.executed 0 .suspend) ⟨rfl, rfl, rfl, nofun, rfl⟩
  have h := h.then_ (.suspended 0) ⟨rfl, rfl, rfl⟩
  have h := h.then_ .mainWait ⟨rfl, _, _, _, rfl, rfl, rfl⟩
  have h := h.then_ (.returned .suspend) ⟨rfl, .waiting, rfl⟩
  have h := h.then_ (.called .stop) ⟨rfl, rfl, _, rfl, rfl⟩
  have h := run_add h rfl rfl rfl rfl (Heap.push_nil _ _)
  have h := h.then_ (.looped .stop) ⟨rfl, .adding, rfl, rfl⟩
  obtain ⟨htrapped, -⟩ := trapped_of_run Nat.zero_lt_one [_, _, _, _] _ h trivial ⟨rfl, trivial⟩
    rfl
  refine ⟨_, _, h, rfl, htrapped.parked 0, rfl, ?_, fun i _ => ?_, fun a => a.elim⟩
  · refine .join .stop 0 0 rfl rfl ?_
    rw [htrapped.parked 0]
    exact nofun
  · exact .parked (htrapped.parked i) htrapped.threadSem

end GreenCloud.ThreadPool
