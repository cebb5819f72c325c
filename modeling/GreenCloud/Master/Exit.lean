import GreenCloud.Master.Lifetime

/-! How the master ends: every thread comes to an end, and a reply that comes too late for the socket
ends all of them. -/

namespace GreenCloud.Master

open CLib EventLoop Transition

variable {n : Nat} {reqFd : Int32} {fds : List Int32} {es more : List Event} {e : Event} {s t : State}

/-- A task is popped, started and returns; one that disconnects makes up to 7 calls. -/
def Task.toDo (task : Task) : Nat := if task.script.isSome then 10 else 3

def Worker.toDo : Worker → Nat
  | popped task => task.toDo - 1
  | replying _ => 1
  | calling left => left.length + 1

/-- `Stop` takes two steps for each worker, and `Disconnect` one for each call. -/
def Main.toDo (n : Nat) : Main → Nat
  | .waiting | .finished => 0
  | .adding task stops => task.toDo + 1 + if stops then 2 * n + 10 else 0
  | .catching left => left.length + 2 * n + 11
  | .releasing => 2 * n + 10
  | .stopping left => 2 * left + 9
  | .returning => 8
  | .destroying left => left.length + 1

def State.toDo (n : Nat) (s : State) : Nat :=
  s.main.toDo n + (s.queue.map Task.toDo).sum + (s.workers.map Worker.toDo).sum + s.stops +
    s.driver.thread.toNat

def isRead : Event → Bool
  | .read _ => true
  | _ => false

theorem thread_perform {driver driver' : Driver} (h : driver.perform action = some driver') :
    driver'.thread = driver.thread := by
  cases action with
  | join =>
    simp only [Driver.perform] at h
    split at h
    · cases h
    · cases h
      rfl
  | _ =>
    cases h
    rfl

theorem toDo_pos (task : Task) : 3 ≤ task.toDo := by
  unfold Task.toDo
  split <;> omega

theorem length_script_le (tells : Bool) : (script tells).length ≤ 7 := by
  cases tells <;> decide

theorem Worker.toDo_pos (worker : Worker) : 0 < worker.toDo := by
  cases worker with
  | popped task =>
    have htask := Master.toDo_pos task
    simp only [Worker.toDo]
    omega
  | replying | calling => exact Nat.succ_pos _

theorem sum_toDo (h : s.workers = worker ::ₘ workers) :
    (s.workers.map Worker.toDo).sum = worker.toDo + (workers.map Worker.toDo).sum := by
  rw [h, Multiset.map_cons, Multiset.sum_cons]

theorem toDo_drop (h : s.workers = worker ::ₘ workers) :
    { s with workers := workers }.toDo n < s.toDo n := by
  have hsum := sum_toDo h
  have hworker := worker.toDo_pos
  unfold State.toDo
  dsimp only
  omega

theorem toDo_replace (h : s.workers = worker ::ₘ workers) (hlt : worker'.toDo < worker.toDo)
    (hthread : driver.thread = s.driver.thread) :
    { s with workers := worker' ::ₘ workers, driver := driver }.toDo n < s.toDo n := by
  have hsum := sum_toDo h
  unfold State.toDo
  dsimp only
  rw [Multiset.map_cons, Multiset.sum_cons, hthread]
  omega

theorem toDo_pop (h : s.queue = task ::ₘ queue) :
    { s with queue := queue, workers := .popped task ::ₘ s.workers }.toDo n < s.toDo n := by
  have htask := toDo_pos task
  have hsum : (s.queue.map Task.toDo).sum = task.toDo + (queue.map Task.toDo).sum := by
    rw [h, Multiset.map_cons, Multiset.sum_cons]
  have hworker : (Worker.popped task).toDo = task.toDo - 1 := rfl
  unfold State.toDo
  dsimp only
  rw [Multiset.map_cons, Multiset.sum_cons]
  omega

theorem toDo_addTask (h : s.main = .adding task stops) :
    { s with main := if stops then .releasing else .waiting, queue := task ::ₘ s.queue }.toDo n <
      s.toDo n := by
  have hmain : s.main.toDo n = task.toDo + 1 + if stops then 2 * n + 10 else 0 := by
    rw [h, Main.toDo]
  unfold State.toDo
  dsimp only
  rw [Multiset.map_cons, Multiset.sum_cons, hmain]
  cases stops with
  | false =>
    rw [if_neg Bool.false_ne_true, if_neg Bool.false_ne_true, Main.toDo]
    omega
  | true =>
    rw [if_pos rfl, if_pos rfl, Main.toDo]
    omega

theorem toDo_step (h : Step n reqFd fds s e t) (hread : isRead e = false) (hsignal : e ≠ .interrupted)
    (halive : t.alive = true) : t.toDo n < s.toDo n := by
  cases h with
  | read => cases hread
  | interrupted => exact absurd rfl hsignal
  | badkey | fails | crash | writeAllThrows | writePayloadThrows => cases halive
  | addTask hmain => exact toDo_addTask hmain
  | caught hmain | release hmain | addStop hmain | destroyed hmain | finish hmain =>
    simp only [State.toDo, hmain, Main.toDo, List.length_nil]
    omega
  | destroy hmain =>
    simp only [State.toDo, hmain, Main.toDo, Master.disconnect, List.length_cons, List.length_nil]
    omega
  | joined hmain =>
    simp only [State.toDo, hmain, Main.toDo, Multiset.map_zero, Multiset.sum_zero]
    omega
  | catching hmain hperform | destroying hmain hperform =>
    simp only [State.toDo, hmain, Main.toDo, thread_perform hperform, List.length_cons]
    omega
  | pop hqueue => exact toDo_pop hqueue
  | popStop hstops =>
    simp only [State.toDo, hstops]
    omega
  | ignore hworkers | storage hworkers | sendReply hworkers | writePayload hworkers
  | called hworkers => exact toDo_drop hworkers
  | writeAll hworkers =>
    refine toDo_replace hworkers ?_ rfl
    exact Nat.lt_sub_of_add_lt (toDo_pos _)
  | disconnect hworkers hexecute =>
    refine toDo_replace hworkers ?_ rfl
    simp only [Worker.toDo, Task.toDo, script_disconnect hexecute, Option.isSome_some, ↓reduceIte]
    exact Nat.lt_succ_of_le (Nat.succ_le_succ (length_script_le _))
  | calling hworkers hperform =>
    exact toDo_replace hworkers (Nat.lt_succ_self _) (thread_perform hperform)
  | threadEnds hthread =>
    simp only [State.toDo, hthread, Bool.toNat_true, Bool.toNat_false]
    omega

def Main.goesOn : Main → Bool
  | .waiting | .adding _ false => true
  | _ => false

theorem Step.goesOn (h : Step n reqFd fds s e t) (ht : t.main.goesOn = true) :
    s.main.goesOn = true ∧ e ≠ .interrupted := by
  cases h with
  | read hmain => exact ⟨by rw [hmain]; rfl, by simp⟩
  | addTask hmain =>
    rename_i stops _
    cases stops with
    | false => exact ⟨by rw [hmain]; rfl, by simp⟩
    | true => cases ht
  | interrupted | catching | caught | release | addStop | joined | destroy | destroying | destroyed
  | finish => cases ht
  | _ => exact ⟨ht, by simp⟩

theorem Step.of_read (h : Step n reqFd fds s (.read task) t) :
    s.main = .waiting ∧ ∃ stops, t = { s with main := .adding task stops } := by
  cases h with
  | read hmain => exact ⟨hmain, _, rfl⟩

theorem Step.of_interrupted (h : Step n reqFd fds s .interrupted t) :
    s.main = .waiting ∧ t = { s with main := .catching Master.disconnect } := by
  cases h with
  | interrupted hmain => exact ⟨hmain, rfl⟩

theorem toDo_read (h : Step n reqFd fds s (.read task) t) (hinv : Inv n (.read task :: es) t) :
    t.toDo n ≤ s.toDo n + if t.main.goesOn then 4 else 2 * n + 21 := by
  obtain ⟨hmain, stops, rfl⟩ := h.of_read
  obtain ⟨-, -, hstops⟩ := hinv.stage
  cases stops with
  | false =>
    have hscript : ¬ task.script.isSome = true := by simp [hstops]
    simp only [State.toDo, hmain, Main.toDo, Task.toDo, if_neg hscript, Main.goesOn, ↓reduceIte,
      Bool.false_eq_true]
    omega
  | true =>
    have hscript : task.script.isSome = true := hstops.mpr rfl
    simp only [State.toDo, hmain, Main.toDo, Task.toDo, if_pos hscript, Main.goesOn, ↓reduceIte,
      Bool.false_eq_true]
    omega

theorem length_le_of_run (h : (master n reqFd fds).Run es s) (halive : s.alive = true) :
    es.length + s.toDo n ≤ 5 * es.countP isRead + if s.main.goesOn then 1 else 2 * n + 19 := by
  induction h with
  | start hinit =>
    cases hinit
    exact Nat.le_refl 1
  | @step es s e t hrun hstep ih =>
    have ih := ih hstep.1
    rw [List.length_cons, List.countP_cons]
    by_cases hread : isRead e = true
    · cases e with
      | read task =>
        have htoDo := toDo_read hstep.2 ((inv_of_run hrun).step hstep.2)
        obtain ⟨hmain, -⟩ := hstep.2.of_read
        rw [hmain, Main.goesOn, if_pos rfl] at ih
        rw [if_pos hread]
        by_cases ht : t.main.goesOn = true
        · rw [if_pos ht] at htoDo ⊢
          omega
        · rw [if_neg ht] at htoDo ⊢
          omega
      | _ => cases hread
    · rw [if_neg hread, Nat.add_zero]
      by_cases hsignal : e = .interrupted
      · subst hsignal
        obtain ⟨hmain, rfl⟩ := hstep.2.of_interrupted
        rw [hmain, Main.goesOn, if_pos rfl] at ih
        simp only [State.toDo, hmain, Main.toDo, Main.goesOn, Master.disconnect, List.length_cons,
          List.length_nil, Bool.false_eq_true, ↓reduceIte] at ih ⊢
        omega
      · have hlt := toDo_step hstep.2 (Bool.eq_false_iff.mpr hread) hsignal halive
        by_cases ht : t.main.goesOn = true
        · rw [if_pos (hstep.2.goesOn ht).1] at ih
          rw [if_pos ht]
          omega
        · rw [if_neg ht]
          split at ih <;> omega

/-- Every worker has its `TPStop`, still to be pushed, in the queue, or behind it. -/
def Accounts (n : Nat) (s : State) : Main → Prop
  | .waiting | .adding .. | .catching _ | .releasing => s.stops = 0 ∧ s.exited = 0
  | .stopping left => left + s.stops + s.exited = n
  | _ => True

theorem Accounts.popStop (h : Accounts n s main) (hstops : s.stops = stops + 1) :
    Accounts n { s with stops := stops, exited := s.exited + 1 } main := by
  cases main with
  | waiting | adding | catching | releasing =>
    rw [h.1] at hstops
    cases hstops
  | stopping left =>
    have h : left + s.stops + s.exited = n := h
    show left + stops + (s.exited + 1) = n
    omega
  | returning | destroying | finished => trivial

theorem accounts_of_run (h : (master n reqFd fds).Run es s) : Accounts n s s.main := by
  apply h.invariant (P := fun _ s => Accounts n s s.main)
  · rintro _ rfl
    exact ⟨rfl, rfl⟩
  · rintro _ s e t haccounts ⟨-, hstep⟩
    cases hstep with
    | read hmain | interrupted hmain | catching hmain | caught hmain =>
      rw [hmain] at haccounts
      exact haccounts
    | addTask hmain =>
      rw [hmain] at haccounts
      rename_i stops _
      cases stops <;> exact haccounts
    | release hmain =>
      rw [hmain] at haccounts
      obtain ⟨hstops, hexited⟩ := haccounts
      show n + s.stops + s.exited = n
      omega
    | addStop hmain =>
      rw [hmain] at haccounts
      rename_i left
      have haccounts : left + 1 + s.stops + s.exited = n := haccounts
      show left + (s.stops + 1) + s.exited = n
      omega
    | popStop hstops => exact haccounts.popStop hstops
    | joined | destroy | destroying | destroyed | finish => trivial
    | _ => exact haccounts

theorem exists_perform (driver : Driver) (action : Action) :
    (∃ driver', driver.perform action = some driver') ∨ driver.thread = true := by
  cases action with
  | join =>
    cases hthread : driver.thread with
    | true => exact .inr rfl
    | false => exact .inl ⟨driver, by simp [Driver.perform, hthread]⟩
  | _ => exact .inl ⟨_, rfl⟩

theorem exists_step_worker (h : s.workers = worker ::ₘ workers) :
    ∃ e t, Step n reqFd fds s e t ∧ e ≠ .failed := by
  cases worker with
  | popped task =>
    cases hexecute : task.execute with
    | none => exact ⟨_, _, .crash h hexecute, by simp⟩
    | some execution =>
      cases execution with
      | nothing => exact ⟨_, _, .ignore h hexecute, by simp⟩
      | disconnect tells => exact ⟨_, _, .disconnect h hexecute, by simp⟩
      | storage data => exact ⟨_, _, .storage h hexecute, by simp⟩
      | sendReply data =>
        cases hreq : s.driver.req with
        | false => exact ⟨_, _, .writeAllThrows h hexecute hreq, by simp⟩
        | true =>
          by_cases hkey : data.key = .read
          · exact ⟨_, _, .writeAll h hexecute hreq hkey, by simp⟩
          · exact ⟨_, _, .sendReply h hexecute hreq hkey, by simp⟩
  | replying data =>
    cases hreq : s.driver.req with
    | false => exact ⟨_, _, .writePayloadThrows h hreq, by simp⟩
    | true => exact ⟨_, _, .writePayload h hreq, by simp⟩
  | calling left =>
    cases left with
    | nil => exact ⟨_, _, .called h, by simp⟩
    | cons action left =>
      rcases exists_perform s.driver action with ⟨driver, hperform⟩ | hthread
      · exact ⟨_, _, .calling h hperform, by simp⟩
      · exact ⟨_, _, .threadEnds hthread, by simp⟩

/-- The threads never all wait for each other. -/
theorem exists_step (h : (master n reqFd fds).Run es s) (hmain : s.main ≠ .finished) :
    ∃ e t, Step n reqFd fds s e t ∧ e ≠ .failed := by
  have haccounts := accounts_of_run h
  cases hplace : s.main with
  | waiting => exact ⟨_, _, .interrupted hplace, by simp⟩
  | adding task stops => exact ⟨_, _, .addTask hplace, by simp⟩
  | catching left =>
    cases left with
    | nil => exact ⟨_, _, .caught hplace, by simp⟩
    | cons action left =>
      rcases exists_perform s.driver action with ⟨driver, hperform⟩ | hthread
      · exact ⟨_, _, .catching hplace hperform, by simp⟩
      · exact ⟨_, _, .threadEnds hthread, by simp⟩
  | releasing => exact ⟨_, _, .release hplace, by simp⟩
  | stopping left =>
    cases left with
    | succ left => exact ⟨_, _, .addStop hplace, by simp⟩
    | zero =>
      rw [hplace] at haccounts
      have haccounts : 0 + s.stops + s.exited = n := haccounts
      by_cases hexited : s.exited = n
      · exact ⟨_, _, .joined hplace hexited, by simp⟩
      · -- A worker that has not left its loop has a task, or there is a `TPStop` for it.
        rcases Multiset.empty_or_exists_mem s.workers with hworkers | ⟨worker, hworker⟩
        · obtain ⟨stops, hstops⟩ := Nat.exists_eq_succ_of_ne_zero (show s.stops ≠ 0 by omega)
          refine ⟨_, _, .popStop hstops ?_, by simp⟩
          rw [hworkers, Multiset.card_zero]
          omega
        · obtain ⟨workers, hworkers⟩ := Multiset.exists_cons_of_mem hworker
          exact exists_step_worker hworkers
  | returning =>
    cases hconnected : s.driver.connected with
    | true => exact ⟨_, _, .destroy hplace hconnected, by simp⟩
    | false => exact ⟨_, _, .finish hplace hconnected, by simp⟩
  | destroying left =>
    cases left with
    | nil => exact ⟨_, _, .destroyed hplace, by simp⟩
    | cons action left =>
      rcases exists_perform s.driver action with ⟨driver, hperform⟩ | hthread
      · exact ⟨_, _, .destroying hplace hperform, by simp⟩
      · exact ⟨_, _, .threadEnds hthread, by simp⟩
  | finished => exact absurd hplace hmain

theorem finished_mem (h : (master n reqFd fds).Run es s) (hmain : s.main = .finished) :
    .finished ∈ es := by
  induction h with
  | start hinit =>
    cases hinit
    cases hmain
  | @step es s e t hrun hstep ih =>
    by_cases hs : s.main = .finished
    · exact List.mem_cons_of_mem e (ih hs)
    · cases hstep.2 with
      | destroyed | finish => exact List.mem_cons_self
      | addTask =>
        rename_i stops _ _
        cases stops <;> cases hmain
      | read | interrupted | catching | caught | release | addStop | joined | destroy | destroying =>
        cases hmain
      | _ => exact absurd hmain hs

def isOwed : Event → Bool
  | .read task => task.owes
  | _ => false

def State.owed (s : State) : Nat := s.tasks.countP (fun task => task.owes = true) + s.replies

theorem countP_owes_cons (task : Task) (tasks : Multiset Task) :
    (task ::ₘ tasks).countP (fun task => task.owes = true) =
      tasks.countP (fun task => task.owes = true) + task.owes.toNat := by
  cases howes : task.owes with
  | true =>
    rw [Multiset.countP_cons_of_pos (p := fun task : Task => task.owes = true) _ howes,
      Bool.toNat_true]
  | false =>
    rw [Multiset.countP_cons_of_neg (p := fun task : Task => task.owes = true) _ (by simp [howes]),
      Bool.toNat_false, Nat.add_zero]

theorem Serves.owed (h : Serves s t e) :
    t.owed + (isReplied e).toNat = s.owed + (isOwed e).toNat ∨
      e = .silent ∧ t.main = .returning ∧ t.owed ≤ s.owed := by
  unfold State.owed
  cases h with
  | reads _ htasks hreplies =>
    refine .inl ?_
    rw [htasks, hreplies, countP_owes_cons]
    simp only [isReplied, isOwed, Bool.toNat_false]
    omega
  | stays htasks hreplies hread hreplied =>
    refine .inl ?_
    have howed : isOwed e = false := by
      cases e with
      | read task => exact absurd rfl (hread task)
      | _ => rfl
    rw [htasks, hreplies, hreplied, howed]
  | drops hle hreplies hmain =>
    refine .inr ⟨rfl, hmain, ?_⟩
    rw [hreplies]
    exact Nat.add_le_add_right (Multiset.countP_le_of_le _ hle) _
  | does htasks hreplies howes hread hreplied =>
    refine .inl ?_
    have howed : isOwed e = false := by
      cases e with
      | read task => exact absurd rfl (hread task)
      | _ => rfl
    rw [htasks, hreplies, hreplied, howed, countP_owes_cons, howes]
    rfl
  | begins htasks hreplies howes =>
    refine .inl ?_
    rw [htasks, hreplies, countP_owes_cons, howes]
    simp only [isReplied, isOwed, Bool.toNat_false, Bool.toNat_true]
    omega
  | replies htasks hreplies howes =>
    refine .inl ?_
    rw [htasks, hreplies, countP_owes_cons, howes]
    simp only [isReplied, isOwed, Bool.toNat_false, Bool.toNat_true]
    omega
  | ends htasks hreplies =>
    refine .inl ?_
    rw [htasks, hreplies]
    simp only [isReplied, isOwed, Bool.toNat_false, Bool.toNat_true]
    omega

theorem countP_cons_toNat (p : Event → Bool) (e : Event) (es : List Event) :
    (e :: es).countP p = es.countP p + (p e).toNat := by
  rw [List.countP_cons]
  cases p e <;> rfl

theorem owed_of_run (h : (master n reqFd fds).Run es s) :
    s.owed + es.countP isReplied ≤ es.countP isOwed := by
  induction h with
  | start hinit =>
    cases hinit
    exact Nat.le_refl 0
  | @step es s e t hrun hstep ih =>
    rw [countP_cons_toNat, countP_cons_toNat]
    rcases hstep.2.serves.owed with howed | ⟨rfl, -, hle⟩
    · omega
    · exact (Nat.add_le_add_right hle _).trans ih

theorem owed_of_goesOn (h : (master n reqFd fds).Run es s) (hgoes : s.main.goesOn = true) :
    s.owed + es.countP isReplied = es.countP isOwed := by
  induction h with
  | start hinit =>
    cases hinit
    rfl
  | @step es s e t hrun hstep ih =>
    have ih := ih (hstep.2.goesOn hgoes).1
    rw [countP_cons_toNat, countP_cons_toNat]
    rcases hstep.2.serves.owed with howed | ⟨-, hmain, -⟩
    · omega
    · rw [hmain] at hgoes
      cases hgoes

theorem owes_of_execute {task : Task} (h : task.execute = some (.sendReply data)) :
    task.owes = true := by
  rw [Task.owes, h]

theorem owed_of_late (h : Step n reqFd fds s (.late data) t) : 0 < s.owed := by
  unfold State.owed
  cases h with
  | writeAllThrows hworkers hexecute =>
    have hpos : 0 < s.tasks.countP fun task => task.owes = true :=
      Multiset.countP_pos.mpr ⟨_, mem_tasks_popped hworkers, owes_of_execute hexecute⟩
    omega
  | writePayloadThrows hworkers =>
    have hpos : 0 < s.replies := by
      simp [State.replies, hworkers, Worker.reply]
    omega

/-- What ends the reading: a signal, or the read of a task that disconnects. -/
inductive Ends : Event → Prop
  | interrupted : Ends .interrupted
  | read : task.script.isSome = true → Ends (.read task)

theorem Ends.not_owed (h : Ends e) : isOwed e = false := by
  cases h with
  | interrupted => rfl
  | read hscript =>
    unfold Task.script at hscript
    split at hscript
    · rename_i hexecute
      simp only [isOwed, Task.owes, hexecute]
    · cases hscript

theorem ended_of_run (h : (master n reqFd fds).Run (more ++ e :: es) s) (he : Ends e) :
    s.main.goesOn = false ∧ more.countP isRead = 0 ∧ more.countP isOwed = 0 := by
  induction more generalizing s with
  | nil =>
    refine ⟨?_, rfl, rfl⟩
    cases h with
    | step hrun hstep =>
      cases he with
      | interrupted =>
        obtain ⟨-, rfl⟩ := hstep.2.of_interrupted
        rfl
      | read hscript =>
        have hinv := (inv_of_run hrun).step hstep.2
        obtain ⟨-, stops, rfl⟩ := hstep.2.of_read
        obtain ⟨-, -, hstops⟩ := hinv.stage
        rw [hstops.mp hscript]
        rfl
  | cons x more ih =>
    cases h with
    | step hrun hstep =>
      obtain ⟨hgone, hread, howed⟩ := ih hrun
      have hx : isRead x = false ∧ isOwed x = false := by
        cases x with
        | read task =>
          obtain ⟨hmain, -⟩ := hstep.2.of_read
          rw [hmain] at hgone
          cases hgone
        | _ => exact ⟨rfl, rfl⟩
      refine ⟨?_, ?_, ?_⟩
      · by_contra hgoes
        have hbefore := (hstep.2.goesOn (by simpa using hgoes)).1
        rw [hgone] at hbefore
        cases hbefore
      · rw [countP_cons_toNat, hread, hx.1]
        rfl
      · rw [countP_cons_toNat, howed, hx.2]
        rfl

theorem Step.alive (h : Step n reqFd fds s e t) (hs : s.alive = true) :
    t.alive = true ∨ e = .badkey ∨ e = .crashed ∨ e = .failed ∨ ∃ data, e = .late data := by
  cases h with
  | badkey | crash | fails | writeAllThrows | writePayloadThrows => simp
  | _ => exact .inl hs

theorem alive_of_run (h : (master n reqFd fds).Run (more ++ e :: es) s) (he : Ends e)
    (hreplied : es.countP isOwed = es.countP isReplied) (hfailed : .failed ∉ more) :
    s.alive = true := by
  cases more with
  | nil =>
    cases h with
    | step hrun hstep =>
      have halive := hstep.2.alive hstep.1
      cases he <;> simpa using halive
  | cons x more =>
    cases h with
    | @step _ u _ _ hrun hstep =>
      obtain ⟨-, -, howed⟩ := ended_of_run hrun he
      have hsent := owed_of_run hrun
      rw [List.append_eq, List.countP_append, List.countP_append, countP_cons_toNat,
        countP_cons_toNat, he.not_owed] at hsent
      have hnone : u.owed = 0 := by
        simp only [Bool.toNat_false] at hsent
        omega
      rcases hstep.2.alive hstep.1 with halive | rfl | rfl | rfl | ⟨data, rfl⟩
      · exact halive
      · exact absurd List.mem_cons_self (inv_of_run (hrun.step hstep)).badkey
      · exact absurd List.mem_cons_self (not_crashed_of_run (hrun.step hstep))
      · exact absurd List.mem_cons_self hfailed
      · have hpos := owed_of_late hstep.2
        omega

/-- From a signal, a `DISC` or a `q` on, when all replies to what was read before have been sent and no
call fails: whatever the order of the threads, nothing ends the program before its time, the whole run
takes at most 5 steps for each read and 2 for each worker, and 19 more, and when no thread can go on,
the program has ended, with the driver disconnected. -/
theorem run_exits (h : (master n reqFd fds).Run (more ++ e :: es) s) (he : Ends e)
    (hreplied : es.countP isOwed = es.countP isReplied) (hfailed : .failed ∉ more) :
    s.alive = true ∧
    (more ++ e :: es).length ≤ 5 * (e :: es).countP isRead + 2 * n + 19 ∧
    ((∀ x t, Step n reqFd fds s x t → x = .failed) →
      .finished ∈ more ++ e :: es ∧ Complete (dids (more ++ e :: es))) := by
  have halive := alive_of_run h he hreplied hfailed
  obtain ⟨hgone, hread, -⟩ := ended_of_run h he
  refine ⟨halive, ?_, fun hstuck => ?_⟩
  · have hlength := length_le_of_run h halive
    rw [hgone, if_neg Bool.false_ne_true, List.countP_append, hread] at hlength
    omega
  · have hmain : s.main = .finished := by
      by_contra hmain
      obtain ⟨x, t, hstep, hne⟩ := exists_step h hmain
      exact hne (hstuck x t hstep)
    have hstage := (inv_of_run h).stage
    rw [hmain] at hstage
    exact ⟨finished_mem h hmain, hstage.2⟩

theorem run_exits_interrupted : ∃ more s, (master 1 3 []).Run (more ++ [.interrupted]) s ∧
    .finished ∈ more ∧ s.alive = true ∧ (more ++ [.interrupted]).length ≤ 21 := by
  obtain ⟨more, s, hrun, hfinished, hfailed⟩ := exists_run_interrupted
  obtain ⟨halive, hlength, -⟩ := run_exits hrun .interrupted rfl hfailed
  exact ⟨more, s, hrun, hfinished, halive, hlength⟩

/-- A run can go on to a reply that comes too late. -/
def CanBeLate (n : Nat) (reqFd : Int32) (fds : List Int32) (es : List Event) : Prop :=
  ∃ more t, (master n reqFd fds).Run (more ++ es) t ∧ .failed ∉ more ∧ t.alive = false

theorem CanBeLate.of_step (h : CanBeLate n reqFd fds (e :: es)) (he : e ≠ .failed) :
    CanBeLate n reqFd fds es := by
  obtain ⟨more, t, hrun, hfailed, hdead⟩ := h
  refine ⟨more ++ [e], t, by simpa using hrun, ?_, hdead⟩
  simp [hfailed, he.symm]

theorem exists_of_owes {task : Task} (h : task.owes = true) :
    ∃ data, task.execute = some (.sendReply data) := by
  unfold Task.owes at h
  split at h
  · exact ⟨_, by assumption⟩
  · cases h

theorem canBeLate_popped (h : (master n reqFd fds).Run es s) (halive : s.alive = true)
    (hreq : s.driver.req = false) (hworkers : s.workers = .popped task ::ₘ workers)
    (howes : task.owes = true) : CanBeLate n reqFd fds es := by
  obtain ⟨data, hexecute⟩ := exists_of_owes howes
  exact ⟨[.late data], _, h.step ⟨halive, .writeAllThrows hworkers hexecute hreq⟩, by simp, rfl⟩

theorem canBeLate_replying (h : (master n reqFd fds).Run es s) (halive : s.alive = true)
    (hreq : s.driver.req = false) (hworkers : s.workers = .replying data ::ₘ workers) :
    CanBeLate n reqFd fds es :=
  ⟨[.late data], _, h.step ⟨halive, .writePayloadThrows hworkers hreq⟩, by simp, rfl⟩

theorem canBeLate_queue (h : (master n reqFd fds).Run es s) (halive : s.alive = true)
    (hreq : s.driver.req = false) (hqueue : task ∈ s.queue) (howes : task.owes = true)
    (hstops : s.stops = 0) (hroom : s.workers.card + s.exited < n) : CanBeLate n reqFd fds es := by
  obtain ⟨queue, hqueue⟩ := Multiset.exists_cons_of_mem hqueue
  have hpopped := h.step (e := .silent) ⟨halive, .pop hqueue hstops hroom⟩
  exact (canBeLate_popped hpopped halive hreq rfl howes).of_step (by simp)

theorem canBeLate_busy (h : (master n reqFd fds).Run es s) (halive : s.alive = true)
    (hreq : s.driver.req = false) (hfree : s.Free) (hworkers : s.workers = worker ::ₘ workers)
    (hroom : ∀ es, (master n reqFd fds).Run es { s with workers := workers } →
      CanBeLate n reqFd fds es) : CanBeLate n reqFd fds es := by
  cases worker with
  | popped task =>
    cases hexecute : task.execute with
    | none => exact absurd hexecute (held_of_run h _ (mem_tasks_popped hworkers)).2
    | some execution =>
      cases execution with
      | nothing => exact (hroom _ (h.step ⟨halive, .ignore hworkers hexecute⟩)).of_step (by simp)
      | storage data =>
        exact (hroom _ (h.step ⟨halive, .storage hworkers hexecute⟩)).of_step (by simp)
      | sendReply data => exact canBeLate_popped h halive hreq hworkers (owes_of_execute hexecute)
      | disconnect tells =>
        have hpending := hfree.pending
        have hscript : (Worker.popped task).pending = some (script tells) :=
          script_disconnect hexecute
        rw [State.pending, hworkers, Multiset.filterMap_cons_some _ _ _ hscript,
          Multiset.add_cons] at hpending
        exact absurd hpending (Multiset.cons_ne_zero)
  | replying data => exact canBeLate_replying h halive hreq hworkers
  | calling left =>
    have hcalls := hfree.calls
    rw [State.calls, hworkers, Multiset.filterMap_cons_some Worker.calls _ _ rfl] at hcalls
    exact absurd hcalls (Multiset.cons_ne_zero)

/-- Behind the close of the socket, whatever is still owed can be late. -/
theorem canBeLate_owed (h : (master (n + 1) reqFd fds).Run es s) (halive : s.alive = true)
    (hreq : s.driver.req = false) (hmain : s.main = .catching left) (howed : 0 < s.owed) :
    CanBeLate (n + 1) reqFd fds es := by
  have hstage := (inv_of_run h).stage
  have haccounts := accounts_of_run h
  rw [hmain] at hstage haccounts
  obtain ⟨hfree, -⟩ := hstage
  obtain ⟨hstops, hexited⟩ := haccounts
  by_cases hreplies : 0 < s.replies
  · obtain ⟨data, hdata⟩ := Multiset.card_pos_iff_exists_mem.mp hreplies
    obtain ⟨worker, hworker, hreply⟩ := (Multiset.mem_filterMap _ _).mp hdata
    obtain ⟨workers, hworkers⟩ := Multiset.exists_cons_of_mem hworker
    cases worker with
    | replying data => exact canBeLate_replying h halive hreq hworkers
    | popped | calling => cases hreply
  · have hpos : 0 < s.tasks.countP fun task => task.owes = true := by
      unfold State.owed at howed
      omega
    obtain ⟨task, htask, howes⟩ := Multiset.countP_pos.mp hpos
    have hnone : (Main.catching left).tasks = 0 := rfl
    rw [State.tasks, hmain, hnone, zero_add] at htask
    rcases Multiset.mem_add.mp htask with hqueue | hpopped
    · by_cases hroom : s.workers.card < n + 1
      · exact canBeLate_queue h halive hreq hqueue howes hstops (by omega)
      · -- All workers have tasks: one of them is done with its task first.
        obtain ⟨worker, hworker⟩ := Multiset.card_pos_iff_exists_mem.mp (show 0 < s.workers.card by omega)
        obtain ⟨workers, hworkers⟩ := Multiset.exists_cons_of_mem hworker
        refine canBeLate_busy h halive hreq hfree hworkers fun es hrun => ?_
        refine canBeLate_queue hrun halive hreq hqueue howes hstops ?_
        have hplaces := (inv_of_run h).places
        rw [hworkers, Multiset.card_cons] at hplaces
        show workers.card + s.exited < n + 1
        omega
    · obtain ⟨worker, hworker, hsome⟩ := (Multiset.mem_filterMap _ _).mp hpopped
      obtain ⟨workers, hworkers⟩ := Multiset.exists_cons_of_mem hworker
      cases worker with
      | popped task =>
        cases hsome
        exact canBeLate_popped h halive hreq hworkers howes
      | replying | calling => cases hsome

/-- A signal ends the master in its time, whatever the order of the threads, exactly if every reply to
what was read before it has been sent: one that has not can find the socket closed, and the exception
that it throws ends the program. -/
theorem interrupted_alive_iff (h : (master (n + 1) reqFd fds).Run es s) (hmain : s.main = .waiting)
    (halive : s.alive = true) :
    (∀ more t, (master (n + 1) reqFd fds).Run (more ++ .interrupted :: es) t → .failed ∉ more →
      t.alive = true) ↔ es.countP isOwed = es.countP isReplied := by
  constructor
  · intro hall
    by_contra hne
    have howed : 0 < s.owed := by
      have hbalance := owed_of_goesOn h (by rw [hmain]; rfl)
      omega
    have hinterrupted := h.step ⟨halive, .interrupted hmain⟩
    have hioctl := hinterrupted.step (e := .did .ioctlDisconnect) ⟨halive, .catching rfl rfl⟩
    have hclosed := hioctl.step (e := .did .closeReq) ⟨halive, .catching rfl rfl⟩
    have hlate : CanBeLate (n + 1) reqFd fds (.interrupted :: es) := by
      refine ((canBeLate_owed hclosed halive rfl rfl ?_).of_step (by simp)).of_step (by simp)
      simpa [State.owed, State.tasks, State.replies, hmain, Main.tasks] using howed
    obtain ⟨more, t, hrun, hfailed, hdead⟩ := hlate
    rw [hall more t hrun hfailed] at hdead
    cases hdead
  · exact fun hreplied more t hrun hfailed => alive_of_run hrun .interrupted hreplied hfailed

def flushWorld : World where
  input _ := 0
  stdin := none
  fresh := ⟨⟨0, 0, .replicate handleSize 0, 0, .ignore, 0, []⟩, fun _ => 0⟩
  request := some ⟨NBDDriverProxy.ntohl NBDDriverProxy.requestMagic, 0x03000000,
    .replicate handleSize 0, 0, 0⟩
  stream := []
  table := .empty
  datagram := none

def flush : DriverData := ⟨0, 0, .replicate handleSize 0, 0, .flush, 0, []⟩

/-- A `FLUSH` that has been read when the signal comes. -/
theorem interrupted_alive_iff_flush : ∃ es more t, (master 1 3 []).Run (more ++ .interrupted :: es) t ∧
    .failed ∉ more ∧ t.alive = false := by
  have h : (master 1 3 []).Run [] init := .start rfl
  have hread : ((nbdGateWay 3).read flushWorld).1 = ⟨.ok (.flush, some ⟨some flush⟩), false⟩ := rfl
  have h := h.then_ (.read (.nbdFlush (some ⟨some flush⟩)))
    ⟨rfl, .read rfl (List.mem_cons_of_mem _ List.mem_cons_self) hread rfl⟩
  have h := h.then_ .silent ⟨rfl, .addTask rfl⟩
  have hiff := interrupted_alive_iff h rfl rfl
  by_contra hnone
  have howed := hiff.mp fun more t hrun hfailed => by
    by_contra hdead
    exact hnone ⟨_, more, t, hrun, hfailed, by simpa using hdead⟩
  cases howed

end GreenCloud.Master
