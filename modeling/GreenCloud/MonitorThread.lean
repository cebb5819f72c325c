import GreenCloud.DirMonitor
import GreenCloud.Transition

/-! The thread of a `DirMonitor` and the destructor that ends it. They tell each other where they are
by `m_thread_stt`, which either of them sets whatever is there. -/

namespace GreenCloud.DirMonitor

open CLib Transition

inductive ThreadStatus
  | runing
  | init
  | error
  | endThread
  | success
  deriving DecidableEq

/-- Where the thread is in `Monitor`, from `new Epoll(1)` on: which of the calls of the set-up it has
behind it, in or before `WaitTimeOut`, or behind its loop. `fd` is whether there is a descriptor. -/
inductive Place
  | created
  | initFailed
  | opened (fd : Bool)
  | watchFailed (fd : Bool)
  | watching (fd : Bool)
  | added
  | checking
  | waiting
  | left
  | closed
  | exited
  deriving DecidableEq

/-- Where the destructor is: in its first loop, behind it, or in `join`. -/
inductive Destructor
  | notCalled
  | spinning
  | ending
  | joining
  | returned
  deriving DecidableEq

structure State where
  status : ThreadStatus
  place : Place
  destructor : Destructor
  vars : Variables
  alive : Bool

/-- `failed`, `ran`, `ended` and `succeeded` are the calls of `SetThreadStatus`. -/
inductive LifeEvent
  | failed
  | ran
  | notified (batch : Batch) (message : Bytes)
  | ended
  | succeeded
  | returned
  | threw
  | silent

def initial (buf : Bytes) : State := ⟨.init, .created, .notCalled, ⟨buf, []⟩, true⟩

/-- One step of a thread. `inotify_add_watch` and `epoll_ctl` fail without a descriptor, and nobody
catches what `Epoll` throws in the thread. -/
inductive Step (dirPath : Bytes) : State → LifeEvent → State → Prop
  | newEpollThrows : s.place = .created → Step dirPath s .threw { s with alive := false }
  | inotifyInit1 : s.place = .created → Step dirPath s .silent { s with place := .opened true }
  | inotifyInit1Fails : s.place = .created → Step dirPath s .silent { s with place := .initFailed }
  | setInitError : s.place = .initFailed →
    Step dirPath s .failed { s with status := .error, place := .opened false }
  | addWatch : s.place = .opened true → Step dirPath s .silent { s with place := .watching true }
  | addWatchFails : s.place = .opened fd →
    Step dirPath s .silent { s with place := .watchFailed fd }
  | setWatchError : s.place = .watchFailed fd →
    Step dirPath s .failed { s with status := .error, place := .watching fd }
  | add : s.place = .watching true → Step dirPath s .silent { s with place := .added }
  | addThrows : s.place = .watching fd → Step dirPath s .threw { s with alive := false }
  | setRuning : s.place = .added →
    Step dirPath s .ran { s with status := .runing, place := .checking }
  | goOn : s.place = .checking → s.status = .runing →
    Step dirPath s .silent { s with place := .waiting }
  | leave : s.place = .checking → s.status ≠ .runing →
    Step dirPath s .silent { s with place := .left }
  | timeOut : s.place = .waiting → Step dirPath s .silent { s with place := .checking }
  | notifyAll : s.place = .waiting → turn dirPath s.vars batch = some vars →
    Step dirPath s (.notified batch vars.fullName) { s with vars := vars, place := .checking }
  | waitTimeOutThrows : s.place = .waiting → Step dirPath s .threw { s with alive := false }
  | close : s.place = .left → Step dirPath s .silent { s with place := .closed }
  | setSuccess : s.place = .closed →
    Step dirPath s .succeeded { s with status := .success, place := .exited }
  | destroy : s.destructor = .notCalled → Step dirPath s .silent { s with destructor := .spinning }
  | spin : s.destructor = .spinning → s.status = .init → Step dirPath s .silent s
  | goBehind : s.destructor = .spinning → s.status ≠ .init →
    Step dirPath s .silent { s with destructor := .ending }
  | setEndThread : s.destructor = .ending →
    Step dirPath s .ended { s with status := .endThread, destructor := .joining }
  | join : s.destructor = .joining → s.place = .exited →
    Step dirPath s .returned { s with destructor := .returned }

/-- An exception that leaves the thread ends the program. -/
def monitoring (dirPath buf : Bytes) : Transition State LifeEvent where
  init s := s = initial buf
  step s e t := s.alive ∧ Step dirPath s e t

def batches : List LifeEvent → List Batch
  | [] => []
  | .notified batch _ :: es => batches es ++ [batch]
  | _ :: es => batches es

def messages : List LifeEvent → List Bytes
  | [] => []
  | .notified _ message :: es => messages es ++ [message]
  | _ :: es => messages es

variable {dirPath buf : Bytes} {es : List LifeEvent} {s t : State}

theorem accumulate_append (fullName : Bytes) (paths : List Bytes) (p : Bytes) :
    accumulate fullName (paths ++ [p]) =
      accumulate fullName paths ++ [fullName ++ paths.flatten ++ p] := by
  induction paths generalizing fullName with
  | nil => simp [accumulate]
  | cons q paths ih =>
    rw [List.cons_append, accumulate, accumulate, ih, List.cons_append, List.flatten_cons]
    simp only [List.append_assoc]

/-- Whatever the destructor does meanwhile, the messages are those of `Monitor` for the batches that
were read. -/
theorem run_messages (h : (monitoring dirPath buf).Run es s) :
    monitor dirPath ⟨buf, []⟩ ((batches es).map some) = some (messages es) := by
  have hmessages : s.vars.fullName = ((batches es).map fun batch => path dirPath batch.first).flatten ∧
      messages es = accumulate [] ((batches es).map fun batch => path dirPath batch.first) := by
    apply h.invariant
    · rintro _ rfl
      exact ⟨rfl, rfl⟩
    · rintro es s e t ⟨hname, hmessages⟩ ⟨-, hstep⟩
      cases hstep with
      | notifyAll hplace hturn =>
        rename_i batch vars
        rw [turn_eq] at hturn
        cases hturn
        constructor
        · rw [batches, List.map_append, List.flatten_append, ← hname]
          simp
        · rw [batches, messages, List.map_append, hmessages, List.map_singleton, accumulate_append,
            ← hname, List.nil_append]
      | newEpollThrows | inotifyInit1 | inotifyInit1Fails | setInitError | addWatch | addWatchFails
      | setWatchError | add | addThrows | setRuning | goOn | leave | timeOut | waitTimeOutThrows
      | close | setSuccess | destroy | spin | goBehind | setEndThread | join => exact ⟨hname, hmessages⟩
  rw [monitor_eq, hmessages.2, List.reduceOption, List.filterMap_map, Function.id_comp,
    List.filterMap_some]

def Place.Before : Place → Prop
  | created | initFailed | opened _ | watchFailed _ | watching _ | added => True
  | checking | waiting | left | closed | exited => False

def Place.Looping : Place → Prop
  | checking | waiting => True
  | created | initFailed | opened _ | watchFailed _ | watching _ | added | left | closed
  | exited => False

/-- The thread had set `RUNING` before the destructor set `END_THREAD`. -/
def RanFirst (es : List LifeEvent) : Prop :=
  ∃ after before, es = after ++ .ended :: before ∧ .ran ∈ before

structure Opening (es : List LifeEvent) (s : State) : Prop where
  ended : .ended ∉ es
  destructor : s.destructor ≠ .joining ∧ s.destructor ≠ .returned
  place : s.place.Before ∧ .ran ∉ es ∧
      (s.status = .init ∧ s.destructor ≠ .ending ∨ .failed ∈ es) ∨
    s.place.Looping ∧ s.status = .runing ∧ .ran ∈ es

structure Joining (es : List LifeEvent) (s : State) : Prop where
  ranFirst : RanFirst es
  place : ¬ s.place.Before ∧ s.status ≠ .runing
  exited : s.destructor = .joining ∨ s.destructor = .returned ∧ s.place = .exited

structure Hanging (es : List LifeEvent) (s : State) : Prop where
  ranFirst : ¬ RanFirst es
  failed : .failed ∈ es
  destructor : s.destructor = .joining
  place : s.place.Before ∨ s.place.Looping ∧ s.status = .runing

theorem ranFirst_cons (he : e ≠ .ended) : RanFirst (e :: es) ↔ RanFirst es := by
  constructor
  · rintro ⟨after, before, heq, hran⟩
    cases after with
    | nil => exact absurd (List.cons_eq_cons.mp heq).1 he
    | cons x after => exact ⟨after, before, (List.cons_eq_cons.mp heq).2, hran⟩
  · rintro ⟨after, before, rfl, hran⟩
    exact ⟨e :: after, before, rfl, hran⟩

theorem ranFirst_ended (hended : .ended ∉ es) : RanFirst (.ended :: es) ↔ .ran ∈ es := by
  constructor
  · rintro ⟨after, before, heq, hran⟩
    cases after with
    | nil => rwa [(List.cons_eq_cons.mp heq).2]
    | cons x after =>
      rw [(List.cons_eq_cons.mp heq).2] at hended
      exact absurd (List.mem_append_right _ List.mem_cons_self) hended
  · exact fun hran => ⟨[], es, rfl, hran⟩

theorem Opening.step (h : Opening es s) (hstep : Step dirPath s e t) :
    Opening (e :: es) t ∨ Joining (e :: es) t ∨ Hanging (e :: es) t := by
  obtain ⟨hended, hdestructor, hplace⟩ := h
  cases hstep with
  | setEndThread hending =>
    rcases hplace with ⟨hbefore, hran, hset⟩ | ⟨hlooping, -, hran⟩
    · have hfailed : .failed ∈ es := by
        rcases hset with ⟨-, hnot⟩ | hfailed
        · exact absurd hending hnot
        · exact hfailed
      refine .inr (.inr ⟨?_, List.mem_cons_of_mem _ hfailed, rfl, .inl hbefore⟩)
      rw [ranFirst_ended hended]
      exact hran
    · refine .inr (.inl ⟨(ranFirst_ended hended).mpr hran, ⟨?_, by simp⟩, .inl rfl⟩)
      cases hp : s.place <;> simp_all [Place.Looping, Place.Before]
  | join hjoining => exact absurd hjoining hdestructor.1
  | newEpollThrows hp | inotifyInit1 hp | inotifyInit1Fails hp | setInitError hp | addWatch hp
  | addWatchFails hp | setWatchError hp | add hp | addThrows hp | setRuning hp | goOn hp | leave hp
  | timeOut hp | notifyAll hp | waitTimeOutThrows hp | close hp | setSuccess hp =>
    refine .inl ⟨by simpa using hended, hdestructor, ?_⟩
    simp_all [Place.Looping, Place.Before]
  | destroy hd | spin hd | goBehind hd =>
    refine .inl ⟨by simpa using hended, by simp_all, ?_⟩
    simp_all

theorem Joining.step (h : Joining es s) (hstep : Step dirPath s e t) : Joining (e :: es) t := by
  obtain ⟨hran, hplace, hexited⟩ := h
  cases hstep with
  | setEndThread hending | destroy hd | spin hd | goBehind hd => simp_all
  | join hjoining hp =>
    exact ⟨(ranFirst_cons (by simp)).mpr hran, hplace, .inr ⟨rfl, hp⟩⟩
  | newEpollThrows hp | inotifyInit1 hp | inotifyInit1Fails hp | setInitError hp | addWatch hp
  | addWatchFails hp | setWatchError hp | add hp | addThrows hp | setRuning hp | goOn hp | leave hp
  | timeOut hp | notifyAll hp | waitTimeOutThrows hp | close hp | setSuccess hp =>
    refine ⟨(ranFirst_cons (by simp)).mpr hran, ?_, ?_⟩ <;> simp_all [Place.Before]

theorem Hanging.step (h : Hanging es s) (hstep : Step dirPath s e t) : Hanging (e :: es) t := by
  obtain ⟨hran, hfailed, hdestructor, hplace⟩ := h
  have hfailed : .failed ∈ e :: es := List.mem_cons_of_mem _ hfailed
  cases hstep with
  | setEndThread hd | destroy hd | spin hd | goBehind hd => simp_all
  | join hd hp => simp_all [Place.Before, Place.Looping]
  | newEpollThrows hp | inotifyInit1 hp | inotifyInit1Fails hp | setInitError hp | addWatch hp
  | addWatchFails hp | setWatchError hp | add hp | addThrows hp | setRuning hp | goOn hp | leave hp
  | timeOut hp | notifyAll hp | waitTimeOutThrows hp | close hp | setSuccess hp =>
    refine ⟨(ranFirst_cons (by simp)).not.mpr hran, hfailed, hdestructor, ?_⟩
    simp_all [Place.Before, Place.Looping]

theorem phase_of_run (h : (monitoring dirPath buf).Run es s) :
    Opening es s ∨ Joining es s ∨ Hanging es s := by
  apply h.invariant
  · rintro _ rfl
    exact .inl ⟨by simp, by simp [initial], .inl ⟨trivial, by simp, .inl ⟨rfl, by simp [initial]⟩⟩⟩
  · rintro es s e t (hopening | hjoining | hhanging) ⟨-, hstep⟩
    · exact hopening.step hstep
    · exact .inr (.inl (hjoining.step hstep))
    · exact .inr (.inr (hhanging.step hstep))

def State.toDo (s : State) : Nat :=
  if s.alive then
    (match s.place with
      | .waiting => 4
      | .checking => 3
      | .left => 2
      | .closed => 1
      | _ => 0) + if s.destructor = .returned then 0 else 1
  else 0

theorem Joining.toDo_lt (h : Joining es s) (halive : s.alive) (hstep : Step dirPath s e t) :
    t.toDo < s.toDo := by
  obtain ⟨-, ⟨hbefore, hstatus⟩, hexited⟩ := h
  cases hstep with
  | newEpollThrows hp | inotifyInit1 hp | inotifyInit1Fails hp | setInitError hp | addWatch hp
  | addWatchFails hp | setWatchError hp | add hp | addThrows hp | setRuning hp =>
    rw [hp] at hbefore
    exact absurd trivial hbefore
  | goOn _ hruning => exact absurd hruning hstatus
  | leave hp | timeOut hp | notifyAll hp | waitTimeOutThrows hp | close hp | setSuccess hp =>
    simp only [State.toDo, halive, hp, ↓reduceIte, Bool.false_eq_true]
    omega
  | setEndThread hd | destroy hd | spin hd | goBehind hd => simp [hd] at hexited
  | join hd hp => simp [State.toDo, halive, hd, hp]

theorem Joining.exists_step (h : Joining es s) (hd : s.destructor ≠ .returned) :
    ∃ e t, Step dirPath s e t ∧ t.alive = s.alive := by
  obtain ⟨-, ⟨hbefore, hstatus⟩, hexited⟩ := h
  have hjoining : s.destructor = .joining := by
    rcases hexited with hjoining | ⟨hreturned, -⟩
    · exact hjoining
    · exact absurd hreturned hd
  cases hp : s.place with
  | created | initFailed | opened | watchFailed | watching | added =>
    rw [hp] at hbefore
    exact absurd trivial hbefore
  | checking => exact ⟨_, _, .leave hp hstatus, rfl⟩
  | waiting => exact ⟨_, _, .timeOut hp, rfl⟩
  | left => exact ⟨_, _, .close hp, rfl⟩
  | closed => exact ⟨_, _, .setSuccess hp, rfl⟩
  | exited => exact ⟨_, _, .join hjoining hp, rfl⟩

theorem Joining.of_run (h : (monitoring dirPath buf).Run (more ++ es) t) (hran : RanFirst es) :
    Joining (more ++ es) t := by
  have hran : RanFirst (more ++ es) := by
    obtain ⟨after, before, rfl, hran⟩ := hran
    exact ⟨more ++ after, before, by rw [List.append_assoc], hran⟩
  rcases phase_of_run h with hopening | hjoining | hhanging
  · obtain ⟨after, before, heq, -⟩ := hran
    have hended := hopening.ended
    rw [heq] at hended
    exact absurd (List.mem_append_right _ List.mem_cons_self) hended
  · exact hjoining
  · exact absurd hran hhanging.ranFirst

theorem exists_run_returned (h : (monitoring dirPath buf).Run es s) (hran : RanFirst es)
    (halive : s.alive) :
    ∃ more t, (monitoring dirPath buf).Run (more ++ es) t ∧ t.destructor = .returned := by
  induction hleft : s.toDo using Nat.strong_induction_on generalizing es s with
  | h k ih =>
    have hjoining : Joining es s :=
      .of_run (show (monitoring dirPath buf).Run ([] ++ es) s from h) hran
    by_cases hd : s.destructor = .returned
    · exact ⟨[], s, h, hd⟩
    · obtain ⟨e, t, hstep, halive'⟩ : ∃ e t, Step dirPath s e t ∧ t.alive = s.alive :=
        hjoining.exists_step hd
      rw [halive] at halive'
      have hlt := hjoining.toDo_lt halive hstep
      have hran' : RanFirst (e :: es) := by
        obtain ⟨after, before, rfl, hran⟩ := hran
        exact ⟨e :: after, before, rfl, hran⟩
      obtain ⟨more, u, hrun, hreturned⟩ :=
        ih t.toDo (by omega) (h.step ⟨halive, hstep⟩) hran' halive' rfl
      refine ⟨more ++ [e], u, ?_, hreturned⟩
      rw [List.append_assoc]
      exact hrun

theorem Hanging.of_run (h : (monitoring dirPath buf).Run (more ++ es) t) (hended : .ended ∈ es)
    (hran : ¬ RanFirst es) : Hanging (more ++ es) t := by
  induction more generalizing t with
  | nil =>
    rcases phase_of_run h with hopening | hjoining | hhanging
    · exact absurd hended hopening.ended
    · exact absurd hjoining.ranFirst hran
    · exact hhanging
  | cons e more ih =>
    cases h with
    | step hrun hstep => exact (ih hrun).step hstep.2

theorem toDo_le (s : State) : s.toDo ≤ 5 := by
  unfold State.toDo
  split
  · split <;> split <;> omega
  · omega

/-- In every run, once the destructor has set `END_THREAD`: it can still return exactly if the thread
had set `RUNING` before, which is so if no call of the set-up failed; and then it does, within 5 steps
of the two threads whatever their order, unless `WaitTimeOut` throws. -/
theorem run_returns (h : (monitoring dirPath buf).Run es s) (hended : .ended ∈ es) (halive : s.alive) :
    ((∃ more t, (monitoring dirPath buf).Run (more ++ es) t ∧ t.destructor = .returned) ↔
      RanFirst es) ∧
    (.failed ∉ es → RanFirst es) ∧
    (RanFirst es → ∀ more t, (monitoring dirPath buf).Run (more ++ es) t → more.length ≤ 5 ∧
      (t.alive → (∀ e u, ¬ Step dirPath t e u) → t.destructor = .returned)) := by
  refine ⟨⟨?_, fun hran => exists_run_returned h hran halive⟩, fun hfailed => ?_, fun hran more t hrun => ?_⟩
  · rintro ⟨more, t, hrun, hreturned⟩
    by_contra hran
    have hjoining := (Hanging.of_run hrun hended hran).destructor
    rw [hreturned] at hjoining
    cases hjoining
  · by_contra hran
    exact hfailed (Hanging.of_run (show (monitoring dirPath buf).Run ([] ++ es) s from h) hended hran).failed
  · constructor
    · obtain ⟨u, -, hle⟩ := hrun.length_le (m := State.toDo) fun e newer u v _ hrun hstep =>
        (Joining.of_run hrun hran).toDo_lt hstep.1 hstep.2
      have hfew := toDo_le u
      omega
    · intro _ hstuck
      by_contra hd
      obtain ⟨e, u, hstep, -⟩ : ∃ e u, Step dirPath t e u ∧ u.alive = t.alive :=
        (Joining.of_run hrun hran).exists_step hd
      exact hstuck e u hstep

/-- The directory is not there: the thread sets `ERROR`, the destructor takes that for a thread that
runs, and `RUNING` overwrites its `END_THREAD`. -/
theorem run_returns_never : ∃ (es : List LifeEvent) (s : State),
    (monitoring [46] []).Run es s ∧ .ended ∈ es ∧
    ∀ more t, (monitoring [46] []).Run (more ++ es) t → t.destructor ≠ .returned := by
  have h : (monitoring [46] []).Run [] (initial []) := .start rfl
  have h := h.then_ .silent ⟨rfl, .inotifyInit1 rfl⟩
  have h := h.then_ .silent ⟨rfl, .addWatchFails rfl⟩
  have h := h.then_ .failed ⟨rfl, .setWatchError rfl⟩
  have h := h.then_ .silent ⟨rfl, .destroy rfl⟩
  have h := h.then_ .silent ⟨rfl, .goBehind rfl (show ThreadStatus.error ≠ .init by decide)⟩
  have h := h.then_ .ended ⟨rfl, .setEndThread rfl⟩
  have hran : ¬ RanFirst [.ended, .silent, .silent, .failed, .silent, .silent] := by
    rw [ranFirst_ended (by simp)]
    simp
  refine ⟨_, _, h, List.mem_cons_self, fun more t hrun hreturned => hran ?_⟩
  exact (run_returns h List.mem_cons_self rfl).1.mp ⟨more, t, hrun, hreturned⟩

end GreenCloud.DirMonitor
