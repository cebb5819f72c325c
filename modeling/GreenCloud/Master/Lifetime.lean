import GreenCloud.Master.Gateways
import GreenCloud.Transition
import Mathlib.Data.Multiset.Filter

/-! The end of the master: whoever disconnects the driver, it is done once. -/

namespace GreenCloud.Master

open CLib EventLoop Transition

/-- `CloudStorage::Disconnect`, and the calls of `NBDDriverProxy::Disconnect`. -/
inductive Action
  | tellSlaves
  | ioctlDisconnect
  | closeReq
  | closeNbd
  | join
  | closeFile
  | setOff
  deriving DecidableEq

/-- `NBDDriverProxy::Disconnect` -/
def disconnect : List Action := [.ioctlDisconnect, .closeReq, .closeNbd, .join, .closeFile, .setOff]

/-- `Execute` of a task that disconnects, with the storage before the driver or without. -/
def script (tells : Bool) : List Action := if tells then .tellSlaves :: disconnect else disconnect

/-- `NBDDriverProxy`: `m_connected`, which of its descriptors are open, and whether its thread runs. -/
structure Driver where
  connected : Bool
  req : Bool
  nbd : Bool
  file : Bool
  thread : Bool

/-- `none` where `join` has to wait. -/
def Driver.perform (driver : Driver) : Action → Option Driver
  | .tellSlaves | .ioctlDisconnect => some driver
  | .closeReq => some { driver with req := false }
  | .closeNbd => some { driver with nbd := false }
  | .join => if driver.thread then none else some driver
  | .closeFile => some { driver with file := false }
  | .setOff => some { driver with connected := false }

/-- The main thread: in `WaitTimeOut`, behind a `Read`, in `Disconnect` behind `EINTR`, in the
destructors of the engine, which push a `TPStop` for each worker, and behind them in the destructor of
the driver. -/
inductive Main
  | waiting
  | adding (task : Task) (stops : Bool)
  | catching (left : List Action)
  | releasing
  | stopping (left : Nat)
  | returning
  | destroying (left : List Action)
  | finished

/-- A worker with a task, between the two `WriteAll` of a `READ`, or in a task that disconnects. -/
inductive Worker
  | popped (task : Task)
  | replying (data : DriverData)
  | calling (left : List Action)

/-- `stops` is the number of `TPStop`s in the queue, and `exited` that of the workers that have left
their loop. -/
structure State where
  main : Main
  queue : Multiset Task
  stops : Nat
  workers : Multiset Worker
  exited : Nat
  driver : Driver
  alive : Bool

/-- `failed` is a call that fails and ends the program, `late` a `SendReply` on the closed socket, and
`crashed` an access through a null pointer. -/
inductive Event
  | read (task : Task)
  | badkey
  | interrupted
  | did (action : Action)
  | sent (data : DriverData)
  | replied (data : DriverData)
  | late (data : DriverData)
  | crashed
  | failed
  | finished
  | silent

def init : State where
  main := .waiting
  queue := 0
  stops := 0
  workers := 0
  exited := 0
  driver := ⟨true, true, true, true, true⟩
  alive := true

/-- One step of a thread of a master with `n` workers. Nobody catches what the tasks throw, nor what
`Disconnect` throws behind `EINTR`. -/
inductive Step (n : Nat) (reqFd : Int32) (fds : List Int32) : State → Event → State → Prop
  | read : s.main = .waiting → gateway ∈ gateways reqFd fds →
    (gateway.read world).1 = ⟨.ok (key, args), stops⟩ → Factory.create factory key args = .ok task →
    Step n reqFd fds s (.read task) { s with main := .adding task stops }
  | badkey : s.main = .waiting → gateway ∈ gateways reqFd fds →
    (gateway.read world).1 = ⟨.ok (key, args), stops⟩ → Factory.create factory key args = .error e →
    Step n reqFd fds s .badkey { s with alive := false }
  | addTask : s.main = .adding task stops →
    Step n reqFd fds s .silent
      { s with main := if stops then .releasing else .waiting, queue := task ::ₘ s.queue }
  | interrupted : s.main = .waiting →
    Step n reqFd fds s .interrupted { s with main := .catching disconnect }
  | catching : s.main = .catching (action :: left) → s.driver.perform action = some driver →
    Step n reqFd fds s (.did action) { s with main := .catching left, driver := driver }
  | caught : s.main = .catching [] → Step n reqFd fds s .silent { s with main := .releasing }
  | release : s.main = .releasing → Step n reqFd fds s .silent { s with main := .stopping n }
  | addStop : s.main = .stopping (left + 1) →
    Step n reqFd fds s .silent { s with main := .stopping left, stops := s.stops + 1 }
  | joined : s.main = .stopping 0 → s.exited = n →
    Step n reqFd fds s .silent { s with main := .returning, queue := 0 }
  | destroy : s.main = .returning → s.driver.connected = true →
    Step n reqFd fds s .silent { s with main := .destroying disconnect }
  | destroying : s.main = .destroying (action :: left) → s.driver.perform action = some driver →
    Step n reqFd fds s (.did action) { s with main := .destroying left, driver := driver }
  | destroyed : s.main = .destroying [] →
    Step n reqFd fds s .finished { s with main := .finished }
  | finish : s.main = .returning → s.driver.connected = false →
    Step n reqFd fds s .finished { s with main := .finished }
  | pop : s.queue = task ::ₘ queue → s.stops = 0 → s.workers.card + s.exited < n →
    Step n reqFd fds s .silent { s with queue := queue, workers := .popped task ::ₘ s.workers }
  | popStop : s.stops = stops + 1 → s.workers.card + s.exited < n →
    Step n reqFd fds s .silent { s with stops := stops, exited := s.exited + 1 }
  | ignore : s.workers = .popped task ::ₘ workers → task.execute = some .nothing →
    Step n reqFd fds s .silent { s with workers := workers }
  | crash : s.workers = .popped task ::ₘ workers → task.execute = none →
    Step n reqFd fds s .crashed { s with alive := false }
  | storage : s.workers = .popped task ::ₘ workers → task.execute = some (.storage data) →
    Step n reqFd fds s (.sent data) { s with workers := workers }
  | writeAll : s.workers = .popped task ::ₘ workers → task.execute = some (.sendReply data) →
    s.driver.req = true → data.key = .read →
    Step n reqFd fds s .silent { s with workers := .replying data ::ₘ workers }
  | sendReply : s.workers = .popped task ::ₘ workers → task.execute = some (.sendReply data) →
    s.driver.req = true → data.key ≠ .read →
    Step n reqFd fds s (.replied data) { s with workers := workers }
  | writePayload : s.workers = .replying data ::ₘ workers → s.driver.req = true →
    Step n reqFd fds s (.replied data) { s with workers := workers }
  | writeAllThrows : s.workers = .popped task ::ₘ workers → task.execute = some (.sendReply data) →
    s.driver.req = false → Step n reqFd fds s (.late data) { s with alive := false }
  | writePayloadThrows : s.workers = .replying data ::ₘ workers → s.driver.req = false →
    Step n reqFd fds s (.late data) { s with alive := false }
  | disconnect : s.workers = .popped task ::ₘ workers → task.execute = some (.disconnect tells) →
    Step n reqFd fds s .silent { s with workers := .calling (script tells) ::ₘ workers }
  | calling : s.workers = .calling (action :: left) ::ₘ workers →
    s.driver.perform action = some driver →
    Step n reqFd fds s (.did action) { s with workers := .calling left ::ₘ workers, driver := driver }
  | called : s.workers = .calling [] ::ₘ workers →
    Step n reqFd fds s .silent { s with workers := workers }
  | threadEnds : s.driver.thread = true →
    Step n reqFd fds s .silent { s with driver := { s.driver with thread := false } }
  | fails : Step n reqFd fds s .failed { s with alive := false }

def master (n : Nat) (reqFd : Int32) (fds : List Int32) : Transition State Event where
  init s := s = init
  step s e t := s.alive = true ∧ Step n reqFd fds s e t

def dids : List Event → List Action
  | [] => []
  | .did action :: es => dids es ++ [action]
  | _ :: es => dids es

def Task.script (task : Task) : Option (List Action) :=
  match task.execute with
  | some (.disconnect tells) => some (Master.script tells)
  | _ => none

def Worker.pending : Worker → Option (List Action)
  | popped task => task.script
  | _ => none

def Worker.calls : Worker → Option (List Action)
  | calling left => some left
  | _ => none

def State.pending (s : State) : Multiset (List Action) :=
  s.queue.filterMap Task.script + s.workers.filterMap Worker.pending

def State.calls (s : State) : Multiset (List Action) := s.workers.filterMap Worker.calls

def Complete (actions : List Action) : Prop := ∃ tells, actions = script tells

/-- `Disconnect` is up to a task that waits, to a worker that has called some of it, or done. -/
inductive Progress (s : State) (actions : List Action) : Prop
  | waits : s.pending = {script tells} → s.calls = 0 → actions = [] → Progress s actions
  | calls : s.pending = 0 → s.calls = {left} → Complete (actions ++ left) → Progress s actions
  | done : s.pending = 0 → s.calls = 0 → Complete actions → Progress s actions

structure State.Free (s : State) : Prop where
  pending : s.pending = 0
  calls : s.calls = 0

/-- What has been called by the place of the main thread. -/
def Stage (s : State) (actions : List Action) : Main → Prop
  | .waiting => s.Free ∧ actions = []
  | .adding task stops => s.Free ∧ actions = [] ∧ (task.script.isSome ↔ stops = true)
  | .catching left | .destroying left => s.Free ∧ actions ++ left = disconnect
  | .releasing | .stopping _ => Progress s actions
  | .returning => s.Free ∧ (actions = [] ∨ Complete actions)
  | .finished => s.Free ∧ Complete actions

variable {n : Nat} {reqFd : Int32} {fds : List Int32} {es : List Event} {e : Event} {s t : State}

theorem script_of_execute {task : Task} (h : task.execute = some execution)
    (hcalls : execution.disconnects = false) : task.script = none := by
  cases execution with
  | disconnect tells => cases hcalls
  | _ => simp [Task.script, h]

theorem script_disconnect {task : Task} (h : task.execute = some (.disconnect tells)) :
    task.script = some (Master.script tells) := by
  simp [Task.script, h]

theorem exists_of_script {task : Task} (h : task.script = some actions) :
    ∃ tells, actions = Master.script tells := by
  unfold Task.script at h
  split at h
  · cases h
    exact ⟨_, rfl⟩
  · cases h

inductive Moves (s t : State) : Event → Prop
  | stays : t.pending = s.pending → t.calls = s.calls → dids [x] = [] → Moves s t x
  | starts : s.pending = script tells ::ₘ t.pending → t.calls = script tells ::ₘ s.calls →
    Moves s t .silent
  | calls : t.pending = s.pending → s.calls = (action :: left) ::ₘ calls →
    t.calls = left ::ₘ calls → Moves s t (.did action)
  | returns : t.pending = s.pending → s.calls = [] ::ₘ t.calls → Moves s t .silent

theorem moves_drop (hworkers : s.workers = worker ::ₘ workers) (hpending : worker.pending = none)
    (hcalls : worker.calls = none) (he : dids [e] = []) :
    Moves s { s with workers := workers } e := by
  refine .stays ?_ ?_ he
  · simp only [State.pending, hworkers, Multiset.filterMap_cons_none _ _ hpending]
  · simp only [State.calls, hworkers, Multiset.filterMap_cons_none _ _ hcalls]

theorem moves_replace (hworkers : s.workers = worker ::ₘ workers) (hpending : worker.pending = none)
    (hcalls : worker.calls = none) (hpending' : worker'.pending = none)
    (hcalls' : worker'.calls = none) (he : dids [e] = []) :
    Moves s { s with workers := worker' ::ₘ workers } e := by
  refine .stays ?_ ?_ he
  · simp only [State.pending, hworkers, Multiset.filterMap_cons_none _ _ hpending,
      Multiset.filterMap_cons_none _ _ hpending']
  · simp only [State.calls, hworkers, Multiset.filterMap_cons_none _ _ hcalls,
      Multiset.filterMap_cons_none _ _ hcalls']

theorem moves_pop (hqueue : s.queue = task ::ₘ queue) :
    Moves s { s with queue := queue, workers := .popped task ::ₘ s.workers } .silent := by
  have hcalls : (Worker.popped task).calls = none := rfl
  refine .stays ?_ (by simp only [State.calls, Multiset.filterMap_cons_none _ _ hcalls]) rfl
  simp only [State.pending, hqueue]
  cases hscript : task.script with
  | none =>
    have hpending : (Worker.popped task).pending = none := hscript
    rw [Multiset.filterMap_cons_none _ _ hscript, Multiset.filterMap_cons_none _ _ hpending]
  | some actions =>
    have hpending : (Worker.popped task).pending = some actions := hscript
    rw [Multiset.filterMap_cons_some _ _ _ hscript, Multiset.filterMap_cons_some _ _ _ hpending,
      Multiset.cons_add, Multiset.add_cons]

theorem moves_disconnect (hworkers : s.workers = .popped task ::ₘ workers)
    (hexecute : task.execute = some (.disconnect tells)) :
    Moves s { s with workers := .calling (script tells) ::ₘ workers } .silent := by
  have hpending : (Worker.popped task).pending = some (script tells) := script_disconnect hexecute
  have hcalls : (Worker.popped task).calls = none := rfl
  have hpending' : (Worker.calling (script tells)).pending = none := rfl
  have hcalls' : (Worker.calling (script tells)).calls = some (script tells) := rfl
  have hbefore : s.pending = script tells ::ₘ
      { s with workers := .calling (script tells) ::ₘ workers }.pending := by
    simp only [State.pending, hworkers, Multiset.filterMap_cons_some _ _ _ hpending,
      Multiset.filterMap_cons_none _ _ hpending', Multiset.add_cons]
  have hafter : { s with workers := .calling (script tells) ::ₘ workers }.calls =
      script tells ::ₘ s.calls := by
    simp only [State.calls, hworkers, Multiset.filterMap_cons_none _ _ hcalls,
      Multiset.filterMap_cons_some _ _ _ hcalls']
  exact .starts hbefore hafter

theorem moves_calling (hworkers : s.workers = .calling (action :: left) ::ₘ workers) (driver : Driver) :
    Moves s { s with workers := .calling left ::ₘ workers, driver := driver } (.did action) := by
  have hpending : ∀ left, (Worker.calling left).pending = none := fun _ => rfl
  have hcalls : ∀ left, (Worker.calling left).calls = some left := fun _ => rfl
  apply Moves.calls
  · simp only [State.pending, hworkers, Multiset.filterMap_cons_none _ _ (hpending _)]
  · simp only [State.calls, hworkers, Multiset.filterMap_cons_some _ _ _ (hcalls _)]
    rfl
  · simp only [State.calls, Multiset.filterMap_cons_some _ _ _ (hcalls _)]

theorem moves_called (hworkers : s.workers = .calling [] ::ₘ workers) :
    Moves s { s with workers := workers } .silent := by
  have hpending : (Worker.calling []).pending = none := rfl
  have hcalls : (Worker.calling []).calls = some [] := rfl
  refine .returns ?_ ?_
  · simp only [State.pending, hworkers, Multiset.filterMap_cons_none _ _ hpending]
  · simp only [State.calls, hworkers, Multiset.filterMap_cons_some _ _ _ hcalls]

theorem Step.moves (h : Step n reqFd fds s e t) (hmain : t.main = s.main) : Moves s t e := by
  cases h with
  | read hwaiting | interrupted hwaiting | caught hwaiting | release hwaiting | joined hwaiting
  | destroy hwaiting | destroyed hwaiting | finish hwaiting =>
    rw [hwaiting] at hmain
    cases hmain
  | addTask hadding =>
    rw [hadding] at hmain
    dsimp only at hmain
    split at hmain <;> cases hmain
  | catching hleft | destroying hleft =>
    rw [hleft] at hmain
    injection hmain with hleft
    exact absurd hleft (List.cons_ne_self _ _).symm
  | addStop hleft =>
    rw [hleft] at hmain
    injection hmain with hleft
    exact absurd hleft (Nat.succ_ne_self _).symm
  | badkey | fails | popStop | threadEnds => exact .stays rfl rfl rfl
  | crash hworkers | writeAllThrows hworkers | writePayloadThrows hworkers =>
    exact .stays rfl rfl rfl
  | pop hqueue => exact moves_pop hqueue
  | ignore hworkers hexecute =>
    exact moves_drop hworkers (script_of_execute hexecute rfl) rfl rfl
  | storage hworkers hexecute =>
    exact moves_drop hworkers (script_of_execute hexecute rfl) rfl rfl
  | sendReply hworkers hexecute =>
    exact moves_drop hworkers (script_of_execute hexecute rfl) rfl rfl
  | writeAll hworkers hexecute =>
    exact moves_replace hworkers (script_of_execute hexecute rfl) rfl rfl rfl rfl
  | writePayload hworkers => exact moves_drop hworkers rfl rfl rfl
  | disconnect hworkers hexecute => exact moves_disconnect hworkers hexecute
  | calling hworkers => exact moves_calling hworkers _
  | called hworkers => exact moves_called hworkers

theorem dids_cons (e : Event) (es : List Event) : dids (e :: es) = dids es ++ dids [e] := by
  cases e with
  | did action => rfl
  | _ => exact (List.append_nil _).symm

theorem State.Free.moves (h : s.Free) (hmoves : Moves s t e) : t.Free ∧ dids [e] = [] := by
  cases hmoves with
  | stays hpending hcalls he => exact ⟨⟨hpending.trans h.pending, hcalls.trans h.calls⟩, he⟩
  | starts hpending =>
    rw [h.pending] at hpending
    exact absurd hpending (Multiset.zero_ne_cons)
  | calls _ hcalls | returns _ hcalls =>
    rw [h.calls] at hcalls
    exact absurd hcalls (Multiset.zero_ne_cons)

theorem Progress.moves (h : Progress s actions) (hmoves : Moves s t e) :
    Progress t (actions ++ dids [e]) := by
  cases hmoves with
  | stays hpending hcalls he =>
    rw [he, List.append_nil]
    cases h with
    | waits hwaits hnone hactions =>
      exact .waits (hpending.trans hwaits) (hcalls.trans hnone) hactions
    | calls hnone hleft hcomplete =>
      exact .calls (hpending.trans hnone) (hcalls.trans hleft) hcomplete
    | done hpending' hcalls' hcomplete =>
      exact .done (hpending.trans hpending') (hcalls.trans hcalls') hcomplete
  | starts hpending hcalls =>
    cases h with
    | waits hwaits hnone hactions =>
      rw [hwaits, Multiset.singleton_eq_cons_iff] at hpending
      exact .calls hpending.2 (hcalls.trans (congrArg (_ ::ₘ ·) hnone))
        ⟨_, by rw [hactions]; exact List.nil_append _⟩
    | calls hnone | done hnone =>
      rw [hnone] at hpending
      exact absurd hpending (Multiset.zero_ne_cons)
  | calls hpending hcalls hcalls' =>
    cases h with
    | waits _ hnone | done _ hnone =>
      rw [hnone] at hcalls
      exact absurd hcalls (Multiset.zero_ne_cons)
    | calls hnone hleft hcomplete =>
      rw [hleft, Multiset.singleton_eq_cons_iff] at hcalls
      obtain ⟨rfl, rfl⟩ := hcalls
      refine .calls (hpending.trans hnone) hcalls' ?_
      rw [List.append_assoc]
      exact hcomplete
  | returns hpending hcalls =>
    cases h with
    | waits _ hnone | done _ hnone =>
      rw [hnone] at hcalls
      exact absurd hcalls (Multiset.zero_ne_cons)
    | calls hnone hleft hcomplete =>
      rw [hleft, Multiset.singleton_eq_cons_iff] at hcalls
      obtain ⟨rfl, hcalls⟩ := hcalls
      exact .done (hpending.trans hnone) hcalls hcomplete

theorem Stage.moves (h : Stage s actions main) (hmoves : Moves s t e) :
    Stage t (actions ++ dids [e]) main := by
  cases main with
  | waiting | adding | catching | destroying | returning | finished =>
    obtain ⟨hfree, hactions⟩ := h
    obtain ⟨hfree', he⟩ := hfree.moves hmoves
    rw [he, List.append_nil]
    exact ⟨hfree', hactions⟩
  | releasing | stopping => exact Progress.moves h hmoves

structure Inv (n : Nat) (es : List Event) (s : State) : Prop where
  stage : Stage s (dids es) s.main
  places : s.workers.card + s.exited ≤ n
  connected : s.driver.connected = true ↔ .setOff ∉ dids es
  badkey : .badkey ∉ es

theorem free_init : init.Free := ⟨rfl, rfl⟩

theorem inv_init : Inv n [] init where
  stage := ⟨free_init, rfl⟩
  places := Nat.zero_le n
  connected := by simp [init, dids]
  badkey := List.not_mem_nil

theorem setOff_mem_script (tells : Bool) : .setOff ∈ script tells := by
  cases tells <;> decide

theorem connected_perform {driver driver' : Driver} (h : driver.perform action = some driver') :
    driver'.connected = true ↔ driver.connected = true ∧ action ≠ .setOff := by
  cases action with
  | join =>
    simp only [Driver.perform] at h
    split at h
    · cases h
    · cases h
      simp
  | _ =>
    cases h
    simp

theorem Step.connected (h : Step n reqFd fds s e t) :
    t.driver.connected = true ↔ s.driver.connected = true ∧ .setOff ∉ dids [e] := by
  cases h with
  | catching _ hperform | destroying _ hperform | calling _ hperform =>
    rw [connected_perform hperform]
    exact and_congr_right fun _ => (not_congr (List.mem_singleton.trans eq_comm)).symm
  | _ => simp [dids]

theorem card_le (h : s.workers = worker ::ₘ workers) : workers.card ≤ s.workers.card :=
  Multiset.card_le_card (h ▸ Multiset.le_cons_self workers worker)

theorem card_replace (h : s.workers = worker ::ₘ workers) (worker' : Worker) :
    (worker' ::ₘ workers).card = s.workers.card := by
  rw [h, Multiset.card_cons, Multiset.card_cons]

theorem Step.places (h : Step n reqFd fds s e t) (hplaces : s.workers.card + s.exited ≤ n) :
    t.workers.card + t.exited ≤ n := by
  cases h with
  | pop _ _ hlt =>
    show (_ ::ₘ s.workers).card + s.exited ≤ n
    rw [Multiset.card_cons]
    omega
  | popStop _ hlt =>
    show s.workers.card + (s.exited + 1) ≤ n
    omega
  | ignore hworkers | storage hworkers | sendReply hworkers | writePayload hworkers
  | called hworkers =>
    exact (Nat.add_le_add_right (card_le hworkers) _).trans hplaces
  | writeAll hworkers | disconnect hworkers | calling hworkers =>
    exact (Nat.add_le_add_right (card_replace hworkers _).le _).trans hplaces
  | _ => exact hplaces

theorem script_iff_disconnects {task : Task} (h : task.execute = some execution) :
    task.script.isSome ↔ execution.disconnects = true := by
  cases execution with
  | disconnect tells => simp [Task.script, h, Execution.disconnects]
  | _ => simp [Task.script, h, Execution.disconnects]

theorem stage_addTask (hfree : s.Free) (hstops : task.script.isSome ↔ stops = true) :
    Stage { s with main := if stops then .releasing else .waiting, queue := task ::ₘ s.queue } []
      (if stops then .releasing else .waiting) := by
  have hnone := hfree.pending
  rw [State.pending] at hnone
  cases stops with
  | false =>
    have hscript : task.script = none := Option.not_isSome_iff_eq_none.mp (by simp [hstops])
    refine ⟨⟨?_, hfree.calls⟩, rfl⟩
    rw [State.pending, Multiset.filterMap_cons_none _ _ hscript, hnone]
  | true =>
    obtain ⟨actions, hscript⟩ := Option.isSome_iff_exists.mp (hstops.mpr rfl)
    obtain ⟨tells, rfl⟩ := exists_of_script hscript
    have hpending : { s with main := .releasing, queue := task ::ₘ s.queue }.pending =
        {script tells} := by
      rw [State.pending, Multiset.filterMap_cons_some _ _ _ hscript, Multiset.cons_add, hnone]
      rfl
    exact .waits hpending hfree.calls rfl

/-- When the workers are joined, nobody will call what waits in the queue. -/
theorem stage_joined (hworkers : s.workers = 0) (h : Progress s actions) :
    Stage { s with main := .returning, queue := 0 } actions .returning := by
  have hcalls : s.calls = 0 := by
    rw [State.calls, hworkers]
    rfl
  refine ⟨⟨?_, hcalls⟩, ?_⟩
  · rw [State.pending, hworkers]
    rfl
  · cases h with
    | waits _ _ hactions => exact .inl hactions
    | calls _ hleft =>
      rw [hcalls] at hleft
      exact absurd hleft.symm (Multiset.singleton_ne_zero _)
    | done _ _ hcomplete => exact .inr hcomplete

theorem Step.stage (h : Step n reqFd fds s e t) (hmain : t.main ≠ s.main) (hinv : Inv n es s) :
    Stage t (dids es ++ dids [e]) t.main := by
  have hstage := hinv.stage
  cases h with
  | read hwaiting hgateway hread hcreate =>
    rw [hwaiting] at hstage
    obtain ⟨hfree, hdids⟩ := hstage
    obtain ⟨task, execution, hcreate', hexecute, hstops⟩ := handled_of_read hgateway hread
    cases hcreate.symm.trans hcreate'
    refine ⟨⟨hfree.pending, hfree.calls⟩, by rw [hdids]; rfl, ?_⟩
    rw [script_iff_disconnects hexecute, hstops]
  | addTask hadding =>
    rw [hadding] at hstage
    obtain ⟨hfree, hdids, hstops⟩ := hstage
    rw [hdids]
    exact stage_addTask hfree hstops
  | interrupted hwaiting =>
    rw [hwaiting] at hstage
    obtain ⟨hfree, hdids⟩ := hstage
    exact ⟨⟨hfree.pending, hfree.calls⟩, by rw [hdids]; rfl⟩
  | catching hleft =>
    rw [hleft] at hstage
    obtain ⟨hfree, hdids⟩ := hstage
    exact ⟨⟨hfree.pending, hfree.calls⟩, by rw [← hdids]; exact List.append_assoc ..⟩
  | destroying hleft =>
    rw [hleft] at hstage
    obtain ⟨hfree, hdids⟩ := hstage
    exact ⟨⟨hfree.pending, hfree.calls⟩, by rw [← hdids]; exact List.append_assoc ..⟩
  | caught hleft =>
    rw [hleft] at hstage
    obtain ⟨hfree, hdids⟩ := hstage
    exact .done hfree.pending hfree.calls ⟨false, hdids⟩
  | release hreleasing =>
    rw [hreleasing] at hstage
    exact Progress.moves hstage (.stays rfl rfl rfl)
  | addStop hleft =>
    rw [hleft] at hstage
    exact Progress.moves hstage (.stays rfl rfl rfl)
  | joined hleft hexited =>
    rw [hleft] at hstage
    have hplaces := hinv.places
    have hworkers : s.workers = 0 := Multiset.card_eq_zero.mp (by omega)
    exact stage_joined hworkers (Progress.moves hstage (.stays (t := s) (x := .silent) rfl rfl rfl))
  | destroy hreturning hconnected =>
    rw [hreturning] at hstage
    obtain ⟨hfree, hdids | ⟨tells, htells⟩⟩ := hstage
    · exact ⟨⟨hfree.pending, hfree.calls⟩, by rw [hdids]; rfl⟩
    · have hsetOff := hinv.connected.mp hconnected
      rw [htells] at hsetOff
      exact absurd (setOff_mem_script tells) hsetOff
  | destroyed hleft =>
    rw [hleft] at hstage
    obtain ⟨hfree, hdids⟩ := hstage
    exact ⟨⟨hfree.pending, hfree.calls⟩, false, hdids⟩
  | finish hreturning hconnected =>
    rw [hreturning] at hstage
    obtain ⟨hfree, hdids | hcomplete⟩ := hstage
    · have hsetOff : .setOff ∉ dids es := by
        rw [hdids]
        exact List.not_mem_nil
      rw [hinv.connected.mpr hsetOff] at hconnected
      cases hconnected
    · exact ⟨⟨hfree.pending, hfree.calls⟩, by rwa [show dids [Event.finished] = [] from rfl, List.append_nil]⟩
  | _ => exact absurd rfl hmain

theorem Inv.step (hinv : Inv n es s) (h : Step n reqFd fds s e t) : Inv n (e :: es) t where
  stage := by
    rw [dids_cons]
    by_cases hmain : t.main = s.main
    · rw [hmain]
      exact hinv.stage.moves (h.moves hmain)
    · exact h.stage hmain hinv
  places := h.places hinv.places
  connected := by
    rw [h.connected, hinv.connected, dids_cons e es, List.mem_append, not_or]
  badkey := by
    intro hmem
    rcases List.mem_cons.mp hmem with rfl | hmem
    · cases h with
      | badkey _ hgateway hread hcreate =>
        obtain ⟨task, execution, hcreate', -⟩ := handled_of_read hgateway hread
        cases hcreate.symm.trans hcreate'
    · exact hinv.badkey hmem

theorem inv_of_run (h : (master n reqFd fds).Run es s) : Inv n es s := by
  apply h.invariant
  · rintro _ rfl
    exact inv_init
  · rintro es s e t hinv ⟨-, hstep⟩
    exact hinv.step hstep

/-! What the main thread reads is what `Run` dispatches. -/

def reads : List Event → List Task
  | [] => []
  | .read task :: es => reads es ++ [task]
  | _ :: es => reads es

theorem dispatches_append {gateways : List (GateWay World ReadError FactoryKey Args)}
    {factory : UnorderedMap FactoryKey (Args → Task)}
    (h : Dispatches factory gateways wakes actions ended) (hended : ended = .waiting)
    (h' : Dispatches factory gateways wakes' actions' ended') :
    Dispatches factory gateways (wakes ++ wakes') (actions ++ actions') ended' := by
  induction h with
  | waiting => exact h'
  | timeout hready _ ih => exact .timeout hready (ih hended)
  | served hi hready hread hfunc _ ih => exact .served hi hready hread hfunc (ih hended)
  | stopped | threw => cases hended

def Main.ended : Main → Ended ReadError FactoryKey → Prop
  | .waiting, ended => ended = .waiting
  | .adding _ stops, ended => ended = if stops then .stopped else .waiting
  | _, _ => True

theorem dispatches_of_run (h : (master n reqFd fds).Run es s) : ∃ wakes actions ended,
    Dispatches factory (gateways reqFd fds) wakes actions ended ∧ s.main.ended ended ∧
      EventLoop.tasks actions = reads es := by
  induction h with
  | start hinit =>
    cases hinit
    exact ⟨[], [], .waiting, .waiting, rfl, rfl⟩
  | @step es s e t hrun hstep ih =>
    obtain ⟨wakes, actions, ended, hdispatches, hended, htasks⟩ := ih
    by_cases hread : ∃ task, e = .read task
    · obtain ⟨task, rfl⟩ := hread
      cases hstep.2 with
      | read hwaiting hgateway hread hcreate =>
        rename_i gateway world key args stops
        rw [hwaiting] at hended
        obtain ⟨i, hi⟩ := List.mem_iff_getElem?.mp hgateway
        obtain ⟨func, hfunc, rfl⟩ := exists_of_create hcreate
        refine ⟨wakes ++ [⟨.ok [gateway.getFd world], world⟩],
          actions ++ [.waited 1, .read i (.ok (key, args)), .added (func args)],
          if stops then .stopped else .waiting, dispatches_append hdispatches hended ?_, rfl, ?_⟩
        · cases stops with
          | false => exact .served hi rfl hread hfunc .waiting
          | true => exact .stopped hi rfl hread hfunc
        · rw [EventLoop.tasks, List.filterMap_append]
          exact congrArg (· ++ [func args]) htasks
    · have hreads : reads (e :: es) = reads es := by
        cases e with
        | read task => exact absurd ⟨task, rfl⟩ hread
        | _ => rfl
      refine ⟨wakes, actions, ended, hdispatches, ?_, htasks.trans hreads.symm⟩
      by_cases hmain : t.main = s.main
      · rwa [hmain]
      · cases hstep.2 with
        | read => exact absurd ⟨_, rfl⟩ hread
        | addTask hadding =>
          rw [hadding] at hended
          rename_i stops _
          cases stops with
          | false => exact hended
          | true => trivial
        | interrupted | catching | caught | release | addStop | joined | destroy | destroying
        | destroyed | finish => trivial
        | _ => exact absurd rfl hmain

def Main.tasks : Main → Multiset Task
  | adding task _ => {task}
  | _ => 0

def Worker.task : Worker → Option Task
  | popped task => some task
  | _ => none

def Worker.reply : Worker → Option DriverData
  | replying data => some data
  | _ => none

def State.tasks (s : State) : Multiset Task :=
  s.main.tasks + s.queue + s.workers.filterMap Worker.task

def State.replies (s : State) : Nat := (s.workers.filterMap Worker.reply).card

def Task.owes (task : Task) : Bool :=
  match task.execute with
  | some (.sendReply _) => true
  | _ => false

def isReplied : Event → Bool
  | .replied _ => true
  | _ => false

inductive Serves (s t : State) : Event → Prop
  | reads : task.execute ≠ none → t.tasks = task ::ₘ s.tasks → t.replies = s.replies →
    Serves s t (.read task)
  | stays : t.tasks = s.tasks → t.replies = s.replies → (∀ task, x ≠ .read task) →
    isReplied x = false → Serves s t x
  | drops : t.tasks ≤ s.tasks → t.replies = s.replies → t.main = .returning → Serves s t .silent
  | does : s.tasks = task ::ₘ t.tasks → t.replies = s.replies → task.owes = false →
    (∀ task, x ≠ .read task) → isReplied x = false → Serves s t x
  | begins : s.tasks = task ::ₘ t.tasks → t.replies = s.replies + 1 → task.owes = true →
    Serves s t .silent
  | replies : s.tasks = task ::ₘ t.tasks → t.replies = s.replies → task.owes = true →
    Serves s t (.replied data)
  | ends : t.tasks = s.tasks → s.replies = t.replies + 1 → Serves s t (.replied data)

theorem Step.serves (h : Step n reqFd fds s e t) : Serves s t e := by
  cases h with
  | read hwaiting hgateway hread hcreate =>
    obtain ⟨task, execution, hcreate', hexecute, -⟩ := handled_of_read hgateway hread
    cases hcreate.symm.trans hcreate'
    refine .reads (by rw [hexecute]; simp) ?_ rfl
    simp [State.tasks, hwaiting, Main.tasks]
  | addTask hadding =>
    refine .stays ?_ rfl (by simp) rfl
    simp only [State.tasks, hadding]
    split <;> simp [Main.tasks]
  | interrupted hmain | catching hmain | caught hmain | release hmain | addStop hmain | destroy hmain
  | destroying hmain | destroyed hmain | finish hmain =>
    refine .stays ?_ rfl (by simp) rfl
    simp only [State.tasks, hmain, Main.tasks]
  | joined hmain =>
    refine .drops ?_ rfl rfl
    simp only [State.tasks, hmain, Main.tasks]
    exact add_le_add (add_le_add le_rfl (Multiset.zero_le _)) le_rfl
  | badkey | fails | popStop | threadEnds => exact .stays rfl rfl (by simp) rfl
  | crash | writeAllThrows | writePayloadThrows => exact .stays rfl rfl (by simp) rfl
  | pop hqueue =>
    refine .stays ?_ ?_ (by simp) rfl
    · simp [State.tasks, hqueue, Worker.task]
    · simp [State.replies, Multiset.filterMap_cons, Worker.reply]
  | ignore hworkers hexecute | storage hworkers hexecute =>
    refine .does ?_ ?_ (by rw [Task.owes, hexecute]) (by simp) rfl
    · simp [State.tasks, hworkers, Worker.task]
    · simp [State.replies, hworkers, Multiset.filterMap_cons, Worker.reply]
  | disconnect hworkers hexecute =>
    refine .does ?_ ?_ (by rw [Task.owes, hexecute]) (by simp) rfl
    · simp [State.tasks, hworkers, Multiset.filterMap_cons, Worker.task]
    · simp [State.replies, hworkers, Multiset.filterMap_cons, Worker.reply]
  | writeAll hworkers hexecute =>
    refine .begins ?_ ?_ (by rw [Task.owes, hexecute])
    · simp [State.tasks, hworkers, Multiset.filterMap_cons, Worker.task]
    · simp [State.replies, hworkers, Multiset.filterMap_cons, Worker.reply]
  | sendReply hworkers hexecute =>
    refine .replies ?_ ?_ (by rw [Task.owes, hexecute])
    · simp [State.tasks, hworkers, Worker.task]
    · simp [State.replies, hworkers, Multiset.filterMap_cons, Worker.reply]
  | writePayload hworkers =>
    refine .ends ?_ ?_
    · simp [State.tasks, hworkers, Multiset.filterMap_cons, Worker.task]
    · simp [State.replies, hworkers, Worker.reply]
  | calling hworkers | called hworkers =>
    refine .stays ?_ ?_ (by simp) rfl
    · simp [State.tasks, hworkers, Multiset.filterMap_cons, Worker.task]
    · simp [State.replies, hworkers, Multiset.filterMap_cons, Worker.reply]

theorem held_of_run (h : (master n reqFd fds).Run es s) :
    ∀ task ∈ s.tasks, .read task ∈ es ∧ task.execute ≠ none := by
  apply h.invariant
  · rintro _ rfl task htask
    exact absurd htask (Multiset.notMem_zero task)
  · rintro es s e t hheld ⟨-, hstep⟩ task htask
    have hold : task ∈ s.tasks → .read task ∈ e :: es ∧ task.execute ≠ none := fun hmem =>
      (hheld task hmem).imp_left (List.mem_cons_of_mem e)
    cases hstep.serves with
    | reads hexecute htasks =>
      rw [htasks] at htask
      rcases Multiset.mem_cons.mp htask with rfl | hmem
      · exact ⟨List.mem_cons_self, hexecute⟩
      · exact hold hmem
    | stays htasks | ends htasks =>
      rw [htasks] at htask
      exact hold htask
    | drops hle => exact hold (Multiset.mem_of_le hle htask)
    | does htasks | begins htasks | replies htasks =>
      refine hold ?_
      rw [htasks]
      exact Multiset.mem_cons_of_mem htask

theorem mem_tasks_popped (h : s.workers = .popped task ::ₘ workers) : task ∈ s.tasks := by
  have hmem : task ∈ s.workers.filterMap Worker.task := by
    rw [h]
    exact (Multiset.mem_filterMap _ _).mpr ⟨_, Multiset.mem_cons_self _ _, rfl⟩
  exact Multiset.mem_add.mpr (.inr hmem)

theorem not_crashed_of_run (h : (master n reqFd fds).Run es s) : .crashed ∉ es := by
  induction h with
  | start _ => exact List.not_mem_nil
  | step hrun hstep ih =>
    intro hmem
    rcases List.mem_cons.mp hmem with rfl | hmem
    · cases hstep.2 with
      | crash hworkers hexecute =>
        exact (held_of_run hrun _ (mem_tasks_popped hworkers)).2 hexecute
    · exact ih hmem

theorem exists_of_pending (h : actions ∈ s.pending) :
    ∃ task ∈ s.tasks, task.script = some actions := by
  rcases Multiset.mem_add.mp h with h | h
  · obtain ⟨task, hmem, hscript⟩ := (Multiset.mem_filterMap _ _).mp h
    exact ⟨task, Multiset.mem_add.mpr (.inl (Multiset.mem_add.mpr (.inr hmem))), hscript⟩
  · obtain ⟨worker, hmem, hscript⟩ := (Multiset.mem_filterMap _ _).mp h
    cases worker with
    | popped task =>
      refine ⟨task, Multiset.mem_add.mpr (.inr ?_), hscript⟩
      exact (Multiset.mem_filterMap _ _).mpr ⟨_, hmem, rfl⟩
    | replying | calling => cases hscript

def Disc (es : List Event) : Prop := ∃ task, .read task ∈ es ∧ task.execute = some (.disconnect true)

theorem Disc.cons (h : Disc es) : Disc (e :: es) := by
  obtain ⟨task, hmem, hexecute⟩ := h
  exact ⟨task, List.mem_cons_of_mem e hmem, hexecute⟩

theorem tellSlaves_mem_script (h : .tellSlaves ∈ script tells) : tells = true := by
  cases tells with
  | false => exact absurd h (by decide)
  | true => rfl

theorem disc_of_pending (h : (master n reqFd fds).Run es s) (hpending : actions ∈ s.pending)
    (hmem : .tellSlaves ∈ actions) : Disc es := by
  obtain ⟨task, htask, hscript⟩ := exists_of_pending hpending
  refine ⟨task, (held_of_run h task htask).1, ?_⟩
  unfold Task.script at hscript
  split at hscript
  · rename_i hexecute
    cases hscript
    rw [hexecute, tellSlaves_mem_script hmem]
  · cases hscript

theorem Step.of_main (h : Step n reqFd fds s e t) (hmain : t.main ≠ s.main)
    (hstage : Stage s (dids es) s.main) : t.calls = s.calls ∧ .tellSlaves ∉ dids [e] := by
  have hcall : ∀ action left, dids es ++ action :: left = Master.disconnect →
      .tellSlaves ∉ dids [.did action] := by
    rintro action left hdids hmem
    have haction : .tellSlaves = action := List.mem_singleton.mp hmem
    have hin : action ∈ Master.disconnect := by simp [← hdids]
    rw [← haction] at hin
    exact absurd hin (by decide)
  cases h with
  | catching hleft | destroying hleft =>
    rw [hleft] at hstage
    exact ⟨rfl, hcall _ _ hstage.2⟩
  | read | addTask | interrupted | caught | release | addStop | joined | destroy | destroyed
  | finish => exact ⟨rfl, List.not_mem_nil⟩
  | _ => exact absurd rfl hmain

theorem disc_of_run (h : (master n reqFd fds).Run es s) :
    (∀ left ∈ s.calls, .tellSlaves ∈ left → Disc es) ∧ (.tellSlaves ∈ dids es → Disc es) := by
  induction h with
  | start hinit =>
    cases hinit
    exact ⟨fun left hleft => absurd hleft (Multiset.notMem_zero left),
      fun hmem => absurd hmem List.not_mem_nil⟩
  | @step es s e t hrun hstep ih =>
    obtain ⟨hcalls, hdids⟩ := ih
    rw [dids_cons]
    by_cases hmain : t.main = s.main
    · cases hstep.2.moves hmain with
      | stays _ hsame he =>
        rw [hsame, he, List.append_nil]
        exact ⟨fun left hleft hmem => (hcalls left hleft hmem).cons, fun hmem => (hdids hmem).cons⟩
      | starts hpending hstarted =>
        refine ⟨fun left hleft hmem => ?_, fun hmem => ?_⟩
        · rw [hstarted] at hleft
          rcases Multiset.mem_cons.mp hleft with rfl | hleft
          · exact (disc_of_pending hrun (hpending ▸ Multiset.mem_cons_self _ _) hmem).cons
          · exact (hcalls left hleft hmem).cons
        · exact (hdids (by simpa [dids] using hmem)).cons
      | calls _ hbefore hafter =>
        rename_i action rest others _
        have hcalled : action :: rest ∈ s.calls := hbefore ▸ Multiset.mem_cons_self _ _
        refine ⟨fun left hleft hmem => ?_, fun hmem => ?_⟩
        · rw [hafter] at hleft
          rcases Multiset.mem_cons.mp hleft with rfl | hleft
          · exact (hcalls _ hcalled (List.mem_cons_of_mem _ hmem)).cons
          · exact (hcalls left (hbefore ▸ Multiset.mem_cons_of_mem hleft) hmem).cons
        · rcases List.mem_append.mp hmem with hmem | hmem
          · exact (hdids hmem).cons
          · rw [← List.mem_singleton.mp hmem] at hcalled
            exact (hcalls _ hcalled List.mem_cons_self).cons
      | returns _ hbefore =>
        refine ⟨fun left hleft hmem => ?_, fun hmem => ?_⟩
        · exact (hcalls left (hbefore ▸ Multiset.mem_cons_of_mem hleft) hmem).cons
        · exact (hdids (by simpa [dids] using hmem)).cons
    · obtain ⟨hsame, he⟩ := hstep.2.of_main hmain (inv_of_run hrun).stage
      rw [hsame]
      refine ⟨fun left hleft hmem => (hcalls left hleft hmem).cons, fun hmem => ?_⟩
      exact (hdids ((List.mem_append.mp hmem).resolve_right he)).cons

theorem dids_append (later earlier : List Event) : dids (later ++ earlier) = dids earlier ++ dids later := by
  induction later with
  | nil => exact (List.append_nil _).symm
  | cons e later ih =>
    rw [List.cons_append, dids_cons, ih, dids_cons e later, List.append_assoc]

theorem Stage.prefix_ (h : Stage s actions main) : ∃ tells, actions <+: script tells := by
  have hcomplete : Complete actions → ∃ tells, actions <+: script tells := by
    rintro ⟨tells, rfl⟩
    exact ⟨tells, List.prefix_refl _⟩
  have hprogress : Progress s actions → ∃ tells, actions <+: script tells := by
    rintro (⟨-, -, rfl⟩ | ⟨-, -, tells, htells⟩ | ⟨-, -, hdone⟩)
    · exact ⟨false, List.nil_prefix⟩
    · exact ⟨tells, htells ▸ List.prefix_append ..⟩
    · exact hcomplete hdone
  cases main with
  | waiting => exact ⟨false, h.2 ▸ List.nil_prefix⟩
  | adding => exact ⟨false, h.2.1 ▸ List.nil_prefix⟩
  | catching left | destroying left => exact ⟨false, left, h.2⟩
  | releasing | stopping => exact hprogress h
  | returning =>
    obtain ⟨-, rfl | hdone⟩ := h
    · exact ⟨false, List.nil_prefix⟩
    · exact hcomplete hdone
  | finished => exact hcomplete h.2

theorem finished_of_run (h : (master n reqFd fds).Run es s) (hfinished : .finished ∈ es) :
    s.main = .finished := by
  induction h with
  | start _ => exact absurd hfinished List.not_mem_nil
  | @step es s e t hrun hstep ih =>
    rcases List.mem_cons.mp hfinished with rfl | hfinished
    · cases hstep.2 <;> rfl
    · have hmain := ih hfinished
      by_contra hleft
      cases hstep.2 with
      | read h | addTask h | interrupted h | catching h | caught h | release h | addStop h | joined h
      | destroy h | destroying h | destroyed h | finish h =>
        rw [hmain] at h
        cases h
      | _ => exact hleft hmain

theorem dids_of_waiting (h : (master n reqFd fds).Run es s) (hwaiting : s.main = .waiting) :
    dids es = [] := by
  have hstage := (inv_of_run h).stage
  rw [hwaiting] at hstage
  exact hstage.2

theorem quiet_of_run (h : (master n reqFd fds).Run (after ++ .did action :: before) s) :
    .interrupted ∉ after ∧ ∀ task, .read task ∉ after := by
  induction after generalizing s with
  | nil => exact ⟨List.not_mem_nil, fun _ => List.not_mem_nil⟩
  | cons e after ih =>
    cases h with
    | @step _ t _ _ hrun hstep =>
      obtain ⟨hinterrupted, hread⟩ := ih hrun
      have hmain : t.main ≠ .waiting := by
        intro hwaiting
        have hnone : dids (after ++ .did action :: before) = [] := dids_of_waiting hrun hwaiting
        rw [dids_append, dids_cons] at hnone
        simp [dids] at hnone
      refine ⟨fun hmem => ?_, fun task hmem => ?_⟩
      · rcases List.mem_cons.mp hmem with rfl | hmem
        · cases hstep.2 with
          | interrupted hwaiting => exact hmain hwaiting
        · exact hinterrupted hmem
      · rcases List.mem_cons.mp hmem with rfl | hmem
        · cases hstep.2 with
          | read hwaiting => exact hmain hwaiting
        · exact hread task hmem

/-- Whichever worker, `EINTR` or destructor disconnects the driver, in every run: the calls of
`Disconnect` come in their order and none comes twice, and all have come when `main` returns; a
program that `exit` or `terminate` ends before that stays where it was. Behind the first of them
nothing is read any more, and the slaves are told only for a `DISC`. No key lacks its task, and no
task accesses what it lacks. -/
theorem run_disconnects (h : (master n reqFd fds).Run es s) :
    (∃ tells, dids es <+: script tells) ∧
    (.finished ∈ es → Complete (dids es)) ∧
    (∀ after before action, es = after ++ .did action :: before →
      .interrupted ∉ after ∧ ∀ task, .read task ∉ after) ∧
    (.tellSlaves ∈ dids es → Disc es) ∧ .badkey ∉ es ∧ .crashed ∉ es := by
  have hinv := inv_of_run h
  refine ⟨hinv.stage.prefix_, fun hfinished => ?_, fun after before action hes => ?_,
    (disc_of_run h).2, hinv.badkey, not_crashed_of_run h⟩
  · have hstage := hinv.stage
    rw [finished_of_run h hfinished] at hstage
    exact hstage.2
  · rw [hes] at h
    exact quiet_of_run h

/-- One worker that waits, and a signal: `Disconnect` is called behind `EINTR`, and the destructor of the
driver finds nothing left to do. -/
theorem exists_run_interrupted : ∃ more s, (master 1 3 []).Run (more ++ [.interrupted]) s ∧
    .finished ∈ more ∧ .failed ∉ more := by
  have h : (master 1 3 []).Run [] init := .start rfl
  have h := h.then_ .interrupted ⟨rfl, .interrupted rfl⟩
  have h := h.then_ (.did .ioctlDisconnect) ⟨rfl, .catching rfl rfl⟩
  have h := h.then_ (.did .closeReq) ⟨rfl, .catching rfl rfl⟩
  have h := h.then_ (.did .closeNbd) ⟨rfl, .catching rfl rfl⟩
  have h := h.then_ .silent ⟨rfl, .threadEnds rfl⟩
  have h := h.then_ (.did .join) ⟨rfl, .catching rfl rfl⟩
  have h := h.then_ (.did .closeFile) ⟨rfl, .catching rfl rfl⟩
  have h := h.then_ (.did .setOff) ⟨rfl, .catching rfl rfl⟩
  have h := h.then_ .silent ⟨rfl, .caught rfl⟩
  have h := h.then_ .silent ⟨rfl, .release rfl⟩
  have h := h.then_ .silent ⟨rfl, .addStop rfl⟩
  have h := h.then_ .silent ⟨rfl, .popStop rfl Nat.zero_lt_one⟩
  have h := h.then_ .silent ⟨rfl, .joined rfl rfl⟩
  have h := h.then_ .finished ⟨rfl, .finish rfl rfl⟩
  exact ⟨[.finished, .silent, .silent, .silent, .silent, .silent, .did .setOff, .did .closeFile,
    .did .join, .silent, .did .closeNbd, .did .closeReq, .did .ioctlDisconnect], _, h,
    List.mem_cons_self, by simp⟩

theorem run_disconnects_interrupted : ∃ more : List Event, .finished ∈ more ∧
    Complete (dids (more ++ [.interrupted])) := by
  obtain ⟨more, s, hrun, hfinished, -⟩ := exists_run_interrupted
  exact ⟨more, hfinished, (run_disconnects hrun).2.1 (List.mem_append_left _ hfinished)⟩

end GreenCloud.Master
