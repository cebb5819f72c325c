import GreenCloud.SlaveEngine
import GreenCloud.TaskBag

/-! The slave from its first request to its end, with the threads of its pool: who closes its socket, and
what becomes of the requests. -/

namespace GreenCloud.SlaveProcess

open CLib Transition
open SlaveEngine (addTasksToReqEngine header_of_char zeroed)
open ThreadPool (PoolTask PoolStep Holds)

/-- The tasks have the priority that `RETask` has by default. -/
instance : TPTask SlaveEngine.Task := ⟨fun _ => .medium⟩

/-- The two statements of `SlaveDriverProxy::Disconnect`. -/
inductive Action
  | close
  | setOff
  deriving DecidableEq

def disconnect : List Action := [.close, .setOff]

/-- Whether `m_socket` is open, and whether it is something else than `-1`. -/
structure Socket where
  isOpen : Bool
  isSet : Bool
  deriving DecidableEq

/-- `close(-1)` fails, and nothing comes of it. -/
def Socket.perform (socket : Socket) : Action → Socket
  | .close => if socket.isSet then { socket with isOpen := false } else socket
  | .setOff => { socket with isSet := false }

def Socket.sends (socket : Socket) : Bool := socket.isOpen && socket.isSet

/-- The main thread: in `WaitTimeOut`, behind a `Read`, in `Disconnect` behind `EINTR`, in the
destructors of the engine, and behind them. -/
inductive Main
  | waiting
  | adding (task : SlaveEngine.Task) (stops : Bool)
  | catching (left : List Action)
  | releasing
  | finished

/-- A worker with a task, behind the call of the storage, or in `SlaveDisconnect`. -/
inductive Worker
  | popped (task : SlaveEngine.Task)
  | stored (data : DriverData)
  | calling (left : List Action)

/-- `destroying` is what is left of the destructor of the driver, once it has begun. -/
structure State (n : Nat) where
  main : Main
  pool : ThreadPool.State n Empty SlaveEngine.Task
  workers : Multiset Worker
  socket : Socket
  gateways : Bool
  destroying : Option (List Action)
  alive : Bool

/-- `replied` and `dropped` are the calls of `sendto`, on the socket and on a closed one; `destroyed` has
the tasks that were left in the queue. -/
inductive Event
  | read (task : SlaveEngine.Task)
  | badkey
  | interrupted
  | did (action : Action)
  | stored (data : DriverData)
  | replied (data : DriverData)
  | dropped (data : DriverData)
  | destroyed (tasks : Multiset SlaveEngine.Task)
  | silent

def init (script : List (ThreadPool.Command SlaveEngine.Task)) : State n where
  main := .waiting
  pool := ThreadPool.init script
  workers := 0
  socket := ⟨true, true⟩
  gateways := true
  destroying := none
  alive := true

def request : SlaveEngine.Task → Option DriverData
  | .slaveRead data | .slaveWrite data => some data
  | .slaveDisconnect _ => none

/-- One step of a thread of a slave with `n` workers. The driver is destroyed when neither the gateways
nor a task have a pointer to it. -/
inductive Step (n : Nat) : State n → Event → State n → Prop
  | read : s.main = .waiting → SlaveDriverProxy.receiveRequest fresh datagram = some data →
    Factory.create (addTasksToReqEngine .empty) data.key data = .ok task →
    Step n s (.read task) { s with main := .adding task (data.key = .disconnect) }
  | badkey : s.main = .waiting → SlaveDriverProxy.receiveRequest fresh datagram = some data →
    Factory.create (addTasksToReqEngine .empty) data.key data = .error e →
    Step n s .badkey { s with alive := false }
  | addTask : s.main = .adding task stops → PoolStep s.pool (.pushed .controller (.user task)) p →
    Step n s .silent { s with pool := p, main := if stops then .releasing else .waiting }
  | interrupted : s.main = .waiting →
    Step n s .interrupted { s with main := .catching disconnect }
  | waitTimeOutThrows : s.main = .waiting → Step n s .silent { s with main := .releasing }
  | catching : s.main = .catching (action :: left) →
    Step n s (.did action) { s with main := .catching left, socket := s.socket.perform action }
  | caught : s.main = .catching [] → Step n s .silent { s with main := .releasing }
  | release : s.main = .releasing → Step n s .silent { s with gateways := false }
  | joined : s.main = .releasing → PoolStep s.pool (.returned .destroy) p →
    Step n s (.destroyed p.bag.tasks) { s with pool := p, main := .finished }
  | pop : PoolStep s.pool (.took i (.user task)) p →
    Step n s .silent { s with pool := p, workers := .popped task ::ₘ s.workers }
  | storage : s.workers = .popped task ::ₘ workers → request task = some data →
    Step n s (.stored data) { s with workers := .stored data ::ₘ workers }
  | sendReply : s.workers = .stored data ::ₘ workers → s.socket.sends = true →
    Step n s (.replied data) { s with workers := workers }
  | sendtoFails : s.workers = .stored data ::ₘ workers → s.socket.sends = false →
    Step n s (.dropped data) { s with workers := workers }
  | disconnect : s.workers = .popped (.slaveDisconnect data) ::ₘ workers →
    Step n s .silent { s with workers := .calling disconnect ::ₘ workers }
  | calling : s.workers = .calling (action :: left) ::ₘ workers →
    Step n s (.did action)
      { s with workers := .calling left ::ₘ workers, socket := s.socket.perform action }
  | called : s.workers = .calling [] ::ₘ workers → Step n s .silent { s with workers := workers }
  | returned : PoolStep s.pool (.executed i (.user task)) p →
    s.workers.card < s.pool.bag.working.card → Step n s .silent { s with pool := p }
  | pool : PoolStep s.pool e p → e.shown.user? = none →
    (e = .called .destroy → s.main = .releasing ∧ s.gateways = false) → e ≠ .returned .destroy →
    Step n s .silent { s with pool := p }
  | destroy : s.gateways = false → s.workers = 0 → (s.pool.bag.tasks = 0 ∨ s.main = .finished) →
    s.destroying = none →
    Step n s .silent { s with destroying := some (if s.socket.isSet then disconnect else []) }
  | destroying : s.destroying = some (action :: left) →
    Step n s (.did action) { s with destroying := some left, socket := s.socket.perform action }

/-- The main thread adds any tasks, and calls the destructor of the pool at the end. -/
def slave (n : Nat) : Transition (State n) Event where
  init s := ∃ tasks : List SlaveEngine.Task, s = init (tasks.map .addTask ++ [.destroy])
  step s e t := s.alive = true ∧ Step n s e t

structure State.Ended (s : State n) : Prop where
  main : s.main = .finished
  destroying : s.destroying = some []

/-! What a run has done so far, the oldest first. -/

def dids : List Event → List Action
  | [] => []
  | .did action :: es => dids es ++ [action]
  | _ :: es => dids es

def requests (es : List Event) : List DriverData := es.filterMap fun
  | .read task => request task
  | _ => none

def stored (es : List Event) : List DriverData := es.filterMap fun
  | .stored data => some data
  | _ => none

def replied (es : List Event) : List DriverData := es.filterMap fun
  | .replied data | .dropped data => some data
  | _ => none

def lost : List Event → Multiset DriverData
  | [] => 0
  | .destroyed tasks :: es => tasks.filterMap request + lost es
  | _ :: es => lost es

def script : SlaveEngine.Task → Option (List Action)
  | .slaveDisconnect _ => some disconnect
  | _ => none

def Main.calls : Main → Multiset (List Action)
  | catching left => {left}
  | _ => 0

def Worker.calls : Worker → Option (List Action)
  | popped task => script task
  | calling left => some left
  | stored _ => none

def State.queue (s : State n) : Multiset SlaveEngine.Task :=
  match s.main with
  | .finished => 0
  | .adding task _ => task ::ₘ s.pool.bag.tasks
  | _ => s.pool.bag.tasks

def State.calls (s : State n) : Multiset (List Action) :=
  s.queue.filterMap script + s.workers.filterMap Worker.calls + s.main.calls +
    (s.destroying.toList : Multiset (List Action))

/-- One `Disconnect` at most is to come or under way, and none behind a complete one. -/
inductive Progress (actions : List Action) : Multiset (List Action) → Prop
  | idle : actions = [] → Progress actions 0
  | active : actions ++ left = disconnect → Progress actions {left}
  | done : actions = disconnect → Progress actions 0

theorem Progress.call (h : Progress actions ((action :: left) ::ₘ calls)) :
    Progress (actions ++ [action]) (left ::ₘ calls) := by
  generalize hbefore : (action :: left) ::ₘ calls = before at h
  cases h with
  | idle | done => exact absurd hbefore Multiset.cons_ne_zero
  | active hleft =>
    obtain ⟨rfl, rfl⟩ := (Multiset.singleton_eq_cons_iff _).mp hbefore.symm
    refine .active ?_
    rw [List.append_assoc]
    exact hleft

theorem Progress.returned (h : Progress actions ([] ::ₘ calls)) : Progress actions calls := by
  generalize hbefore : [] ::ₘ calls = before at h
  cases h with
  | idle | done => exact absurd hbefore Multiset.cons_ne_zero
  | active hleft =>
    obtain ⟨rfl, rfl⟩ := (Multiset.singleton_eq_cons_iff _).mp hbefore.symm
    rw [List.append_nil] at hleft
    exact .done hleft

theorem Progress.drop {tasks : Multiset SlaveEngine.Task}
    (h : Progress actions (tasks.filterMap script + calls)) : Progress actions calls := by
  cases hwaiting : tasks.filterMap script using Multiset.induction with
  | empty =>
    rw [hwaiting, Multiset.zero_add] at h
    exact h
  | cons left waiting =>
    have hmem : left ∈ tasks.filterMap script := hwaiting ▸ Multiset.mem_cons_self _ _
    obtain ⟨task, -, htask⟩ := (Multiset.mem_filterMap _ _).mp hmem
    have hleft : left = disconnect := by
      cases task <;> cases htask
      rfl
    rw [hwaiting, Multiset.cons_add] at h
    generalize hbefore : left ::ₘ (waiting + calls) = before at h
    cases h with
    | idle | done => exact absurd hbefore Multiset.cons_ne_zero
    | active hactions =>
      obtain ⟨rfl, hrest⟩ := (Multiset.singleton_eq_cons_iff _).mp hbefore.symm
      have hcalls : calls = 0 := Multiset.le_zero.mp (hrest ▸ Multiset.le_add_left calls waiting)
      rw [hcalls]
      rw [hleft] at hactions
      exact .idle (List.append_left_eq_self.mp hactions)

variable {n : Nat} {es : List Event} {e : Event} {s t : State n}

theorem create_cases (h : Factory.create (addTasksToReqEngine .empty) data.key data = .ok task) :
    data.key = .disconnect ∧ task = .slaveDisconnect data ∨
      data.key ≠ .disconnect ∧ request task = some data ∧ script task = none := by
  rw [SlaveEngine.create_addTasksToReqEngine] at h
  split at h
  · rename_i hkey
    cases h
    exact .inr ⟨by rw [hkey]; decide, rfl, rfl⟩
  · split at h
    · rename_i hkey
      cases h
      exact .inr ⟨by rw [hkey]; decide, rfl, rfl⟩
    · split at h
      · rename_i hkey
        cases h
        exact .inl ⟨hkey, rfl⟩
      · cases h

theorem script_of_request {task : SlaveEngine.Task} (h : request task = some data) : script task = none := by
  cases task with
  | slaveDisconnect => cases h
  | slaveRead | slaveWrite => rfl

theorem queue_added (hmain : s.main = .adding task stops)
    (htasks : p.bag.tasks = task ::ₘ s.pool.bag.tasks) :
    ({ s with pool := p, main := if stops then .releasing else .waiting } : State n).queue = s.queue := by
  simp only [State.queue, hmain]
  cases stops <;> exact htasks

theorem queue_popped (hmain : s.main ≠ .finished) (hsame : t.main = s.main)
    (htasks : s.pool.bag.tasks = task ::ₘ t.pool.bag.tasks) : s.queue = task ::ₘ t.queue := by
  unfold State.queue
  rw [hsame]
  cases hs : s.main with
  | finished => exact absurd hs hmain
  | adding other =>
    dsimp only
    rw [htasks, Multiset.cons_swap]
  | waiting | catching | releasing => exact htasks

theorem filterMap_popped {β : Type} {f : SlaveEngine.Task → Option β} {g : Worker → Option β}
    (hsame : g (.popped task) = f task) (hqueue : s.queue = task ::ₘ t.queue)
    (hworkers : t.workers = .popped task ::ₘ s.workers) :
    t.queue.filterMap f + t.workers.filterMap g = s.queue.filterMap f + s.workers.filterMap g := by
  rw [hqueue, hworkers]
  cases htask : f task with
  | none => rw [Multiset.filterMap_cons_none _ _ htask, Multiset.filterMap_cons_none _ _ (hsame.trans htask)]
  | some b =>
    rw [Multiset.filterMap_cons_some _ _ _ htask,
      Multiset.filterMap_cons_some _ _ _ (hsame.trans htask), Multiset.cons_add, Multiset.add_cons]

theorem calls_kept (hmain : t.main = s.main) (htasks : t.pool.bag.tasks = s.pool.bag.tasks)
    (hworkers : t.workers = s.workers) (hdestroying : t.destroying = s.destroying) :
    t.calls = s.calls := by
  simp only [State.calls, State.queue, hmain, htasks, hworkers, hdestroying]

def Main.Reads : Main → Prop
  | waiting => True
  | adding _ stops => stops = false
  | _ => False

structure Inv (es : List Event) (s : State n) : Prop where
  holds : Holds s.pool s.workers.card
  finished : s.main = .finished → n ≤ s.pool.bag.exited ∧ s.workers = 0
  gateways : s.gateways = false → s.main = .releasing ∨ s.main = .finished
  destroying : s.destroying.isSome → s.gateways = false
  progress : Progress (dids es) s.calls
  fresh : s.main.Reads → s.calls = 0 ∧ dids es = []
  socket : s.socket = (dids es).foldl Socket.perform ⟨true, true⟩

theorem queue_init (script : List (ThreadPool.Command SlaveEngine.Task)) :
    (init script : State n).queue = 0 := by
  have htasks : (init script : State n).pool.bag.tasks = 0 := by
    rw [init, ThreadPool.bag_init]
    rfl
  exact htasks

theorem calls_init (script : List (ThreadPool.Command SlaveEngine.Task)) :
    (init script : State n).calls = 0 := by
  rw [State.calls, queue_init]
  rfl

theorem inv_init (script : List (ThreadPool.Command SlaveEngine.Task)) :
    Inv [] (init script : State n) where
  holds := .init script
  finished := nofun
  gateways := nofun
  destroying := nofun
  progress := by
    rw [calls_init]
    exact .idle rfl
  fresh _ := ⟨calls_init script, rfl⟩
  socket := rfl

theorem dids_cons (e : Event) (es : List Event) : dids (e :: es) = dids es ++ dids [e] := by
  cases e <;> simp [dids]

theorem Inv.quiet (h : Inv es s) (he : dids [e] = []) (hcalls : t.calls = s.calls)
    (hsocket : t.socket = s.socket) (hgateways : t.gateways = s.gateways)
    (hdestroying : t.destroying = s.destroying) (hmain : t.main = s.main)
    (hholds : Holds t.pool t.workers.card) (hexited : s.pool.bag.exited ≤ t.pool.bag.exited)
    (hworkers : s.main = .finished → s.workers = 0 → t.workers = 0) : Inv (e :: es) t where
  holds := hholds
  finished hfinished := by
    obtain ⟨hle, hnone⟩ := h.finished (hmain ▸ hfinished)
    exact ⟨hle.trans hexited, hworkers (hmain ▸ hfinished) hnone⟩
  gateways := by
    rw [hgateways, hmain]
    exact h.gateways
  destroying := by
    rw [hgateways, hdestroying]
    exact h.destroying
  progress := by
    rw [dids_cons, he, List.append_nil, hcalls]
    exact h.progress
  fresh := by
    rw [dids_cons, he, List.append_nil, hcalls, hmain]
    exact h.fresh
  socket := by
    rw [dids_cons, he, List.append_nil, hsocket]
    exact h.socket

theorem Inv.turns (h : Inv es s) (hpool : t.pool = s.pool) (hworkers : t.workers = s.workers)
    (hgateways : t.gateways = s.gateways) (hdestroying : t.destroying = s.destroying)
    (hs : s.main ≠ .releasing) (hs' : s.main ≠ .finished) (ht : t.main ≠ .finished)
    (hprogress : Progress (dids (e :: es)) t.calls)
    (hfresh : t.main.Reads → t.calls = 0 ∧ dids (e :: es) = [])
    (hsocket : t.socket = (dids (e :: es)).foldl Socket.perform ⟨true, true⟩) : Inv (e :: es) t where
  holds := by
    rw [hpool, hworkers]
    exact h.holds
  finished hfinished := absurd hfinished ht
  gateways hfalse := by
    rcases h.gateways (hgateways ▸ hfalse) with hmain | hmain
    · exact absurd hmain hs
    · exact absurd hmain hs'
  destroying := by
    rw [hgateways, hdestroying]
    exact h.destroying
  progress := hprogress
  fresh := hfresh
  socket := hsocket

theorem socket_perform (h : Inv es s) (action : Action) :
    s.socket.perform action = (dids (.did action :: es)).foldl Socket.perform ⟨true, true⟩ := by
  rw [dids, List.foldl_append, ← h.socket]
  rfl

theorem socket_same (h : Inv es s) (he : dids [e] = []) :
    s.socket = (dids (e :: es)).foldl Socket.perform ⟨true, true⟩ := by
  rw [dids_cons, he, List.append_nil]
  exact h.socket

theorem Inv.not_finished (h : Inv es s) (hpool : PoolStep s.pool (.took i (.user task)) p) :
    s.main ≠ .finished := by
  intro hfinished
  have hle := (h.finished hfinished).1
  have hlt := h.holds.exited_lt hpool
  omega

theorem inv_read (h : Inv es s) (hmain : s.main = .waiting)
    (hcreate : Factory.create (addTasksToReqEngine .empty) data.key data = .ok task) :
    Inv (.read task :: es) { s with main := .adding task (data.key = .disconnect) } := by
  obtain ⟨hnone, hdids⟩ := h.fresh (by rw [hmain]; trivial)
  rcases create_cases hcreate with ⟨hkey, rfl⟩ | ⟨hkey, -, hscript⟩
  · have hafter : ({ s with main := .adding (.slaveDisconnect data) (data.key = .disconnect) } :
        State n).calls = disconnect ::ₘ s.calls := by
      have hscript : script (.slaveDisconnect data) = some disconnect := rfl
      simp only [State.calls, State.queue, hmain, Main.calls,
        Multiset.filterMap_cons_some _ _ _ hscript, Multiset.cons_add]
    rw [hnone] at hafter
    refine h.turns rfl rfl rfl rfl (by simp [hmain]) (by simp [hmain]) nofun ?_ ?_
      (socket_same (s := s) h rfl)
    · show Progress (dids es) _
      rw [hafter, hdids]
      exact .active rfl
    · intro hreads
      rw [hkey] at hreads
      cases hreads
  · have hafter : ({ s with main := .adding task (data.key = .disconnect) } : State n).calls =
        s.calls := by
      simp only [State.calls, State.queue, hmain, Main.calls,
        Multiset.filterMap_cons_none _ _ hscript]
    refine h.turns rfl rfl rfl rfl (by simp [hmain]) (by simp [hmain]) nofun ?_ ?_
      (socket_same (s := s) h rfl)
    · rw [hafter]
      exact h.progress
    · exact fun _ => ⟨hafter.trans hnone, hdids⟩

theorem inv_destroy (h : Inv es s) (hgateways : s.gateways = false) (hworkers : s.workers = 0)
    (htasks : s.pool.bag.tasks = 0 ∨ s.main = .finished) (hnone : s.destroying = none) :
    Inv (.silent :: es)
      { s with destroying := some (if s.socket.isSet then disconnect else []) } := by
  have hmain := h.gateways hgateways
  have hqueue : s.queue = 0 := by
    rcases hmain with hmain | hmain
    · rcases htasks with htasks | hfinished
      · simp only [State.queue, hmain, htasks]
      · rw [hmain] at hfinished
        cases hfinished
    · simp only [State.queue, hmain]
  have hmaincalls : s.main.calls = 0 := by
    rcases hmain with hmain | hmain <;> rw [hmain] <;> rfl
  have hreads : ¬ s.main.Reads := by
    rcases hmain with hmain | hmain <;> rw [hmain] <;> exact id
  have hcalls : s.calls = 0 := by
    simp only [State.calls, hqueue, hworkers, hmaincalls, hnone]
    rfl
  have hafter : ∀ left, ({ s with destroying := some left } : State n).calls = {left} := by
    intro left
    have hqueue' : ({ s with destroying := some left } : State n).queue = 0 := hqueue
    rw [State.calls, hqueue', hworkers, hmaincalls]
    rfl
  have hsocket := h.socket
  have hprogress := h.progress
  rw [hcalls] at hprogress
  refine ⟨h.holds, h.finished, h.gateways, fun _ => hgateways, ?_, fun h => absurd h hreads, hsocket⟩
  rw [hafter]
  show Progress (dids es) _
  generalize hidle : (0 : Multiset (List Action)) = calls at hprogress
  cases hprogress with
  | idle hdids =>
    rw [hdids] at hsocket ⊢
    rw [hsocket]
    exact .active rfl
  | done hdids =>
    rw [hdids] at hsocket ⊢
    rw [hsocket]
    exact .active rfl
  | active => exact absurd hidle.symm (Multiset.singleton_ne_zero _)

def State.others (s : State n) : Multiset (List Action) :=
  s.pool.bag.tasks.filterMap script + s.workers.filterMap Worker.calls +
    (s.destroying.toList : Multiset (List Action))

theorem calls_catching (hmain : s.main = .catching left) : s.calls = left ::ₘ s.others := by
  simp only [State.calls, State.queue, State.others, hmain, Main.calls]
  rw [Multiset.add_comm _ {left}, Multiset.add_assoc]
  exact Multiset.singleton_add _ _

theorem calls_still (hmain : s.main = .waiting ∨ s.main = .releasing) : s.calls = s.others := by
  rcases hmain with hmain | hmain <;>
    simp only [State.calls, State.queue, State.others, hmain, Main.calls, Multiset.add_zero]

theorem calls_destroying (hleft : s.destroying = some left) : s.calls =
    left ::ₘ (s.queue.filterMap script + s.workers.filterMap Worker.calls + s.main.calls) := by
  rw [State.calls, hleft, Multiset.add_comm]
  exact Multiset.singleton_add _ _

theorem calls_worker (hworkers : s.workers = worker ::ₘ workers) (hcalls : worker.calls = some left) :
    s.calls = left ::ₘ { s with workers := workers }.calls := by
  simp only [State.calls, State.queue, hworkers, Multiset.filterMap_cons_some _ _ _ hcalls,
    Multiset.add_cons, Multiset.cons_add]

theorem calls_worker_none (hworkers : s.workers = worker ::ₘ workers) (hcalls : worker.calls = none) :
    s.calls = { s with workers := workers }.calls := by
  simp only [State.calls, State.queue, hworkers, Multiset.filterMap_cons_none _ _ hcalls]

theorem Inv.works (h : Inv es s) (he : dids [e] = []) (hworkers : s.workers = worker ::ₘ workers)
    (hcalls : s.calls = { s with workers := after }.calls) (hle : after.card ≤ s.workers.card) :
    Inv (e :: es) { s with workers := after } := by
  refine h.quiet he hcalls.symm rfl rfl rfl rfl (h.holds.mono hle) le_rfl fun _ hnone => ?_
  rw [hworkers] at hnone
  exact absurd hnone Multiset.cons_ne_zero

theorem Inv.called (h : Inv es s) (hbefore : s.calls = [] ::ₘ t.calls) (hsocket : t.socket = s.socket)
    (hpool : t.pool = s.pool) (hgateways : t.gateways = s.gateways)
    (hdestroying : t.destroying = s.destroying) (hworkers : t.workers.card ≤ s.workers.card)
    (hreads : t.main.Reads → s.main.Reads) (hreleasing : s.main = .releasing → t.main = .releasing)
    (hfinished : s.main = .finished ↔ t.main = .finished) : Inv (.silent :: es) t where
  holds := by
    rw [hpool]
    exact h.holds.mono hworkers
  finished hend := by
    obtain ⟨hle, hnone⟩ := h.finished (hfinished.mpr hend)
    rw [hnone, Multiset.card_zero] at hworkers
    exact ⟨hpool ▸ hle, Multiset.card_eq_zero.mp (Nat.le_zero.mp hworkers)⟩
  gateways hfalse := (h.gateways (hgateways ▸ hfalse)).imp hreleasing hfinished.mp
  destroying := by
    rw [hdestroying, hgateways]
    exact h.destroying
  progress := (hbefore ▸ h.progress).returned
  fresh htreads := by
    have hnone := (h.fresh (hreads htreads)).1
    rw [hbefore] at hnone
    exact absurd hnone Multiset.cons_ne_zero
  socket := by
    rw [hsocket]
    exact socket_same h rfl

theorem Inv.did (h : Inv es s) (hbefore : s.calls = (action :: left) ::ₘ calls)
    (hafter : t.calls = left ::ₘ calls) (hsocket : t.socket = s.socket.perform action)
    (hpool : t.pool = s.pool) (hgateways : t.gateways = s.gateways)
    (hdestroying : t.destroying.isSome = s.destroying.isSome)
    (hworkers : t.workers.card = s.workers.card) (hreads : t.main.Reads → s.main.Reads)
    (hreleasing : s.main = .releasing → t.main = .releasing)
    (hfinished : s.main = .finished ↔ t.main = .finished) : Inv (.did action :: es) t where
  holds := by
    rw [hpool, hworkers]
    exact h.holds
  finished hend := by
    obtain ⟨hle, hnone⟩ := h.finished (hfinished.mpr hend)
    rw [hnone, Multiset.card_zero] at hworkers
    exact ⟨hpool ▸ hle, Multiset.card_eq_zero.mp hworkers⟩
  gateways hfalse := (h.gateways (hgateways ▸ hfalse)).imp hreleasing hfinished.mp
  destroying := by
    rw [hdestroying, hgateways]
    exact h.destroying
  progress := by
    rw [hafter]
    exact (hbefore ▸ h.progress).call
  fresh htreads := by
    have hnone := (h.fresh (hreads htreads)).1
    rw [hbefore] at hnone
    exact absurd hnone Multiset.cons_ne_zero
  socket := by
    rw [hsocket]
    exact socket_perform h action

theorem Inv.step (h : Inv es s) (hstep : Step n s e t) : Inv (e :: es) t := by
  cases hstep with
  | read hmain _ hcreate => exact inv_read h hmain hcreate
  | badkey => exact h.quiet rfl rfl rfl rfl rfl rfl h.holds le_rfl fun _ => id
  | addTask hmain hpool =>
    rename_i task p stops
    obtain ⟨hholds, htasks⟩ := h.holds.added hpool
    have hcalls : ({ s with pool := p, main := if stops then .releasing else .waiting } :
        State n).calls = s.calls := by
      rw [State.calls, queue_added hmain htasks, State.calls, hmain]
      cases stops <;> rfl
    refine ⟨hholds, ?_, ?_, h.destroying, ?_, ?_, h.socket⟩
    · cases stops <;> nofun
    · intro hgateways
      have hmain' := h.gateways hgateways
      rw [hmain] at hmain'
      rcases hmain' with hmain' | hmain' <;> cases hmain'
    · rw [hcalls]
      exact h.progress
    · cases stops with
      | true => exact fun h => h.elim
      | false =>
        obtain ⟨hnone, hdids⟩ := h.fresh (by rw [hmain]; rfl)
        exact fun _ => ⟨hcalls.trans hnone, hdids⟩
  | interrupted hmain =>
    obtain ⟨hnone, hdids⟩ := h.fresh (by rw [hmain]; trivial)
    rw [calls_still (.inl hmain)] at hnone
    have hafter : ({ s with main := .catching disconnect } : State n).calls = disconnect ::ₘ s.others :=
      calls_catching rfl
    refine h.turns rfl rfl rfl rfl (by simp [hmain]) (by simp [hmain]) nofun ?_ (fun h => h.elim)
      (socket_same (s := s) h rfl)
    show Progress (dids es) _
    rw [hafter, hnone, hdids]
    exact .active rfl
  | waitTimeOutThrows hmain =>
    have hafter : ({ s with main := .releasing } : State n).calls = s.calls :=
      (calls_still (.inr rfl)).trans (calls_still (.inl hmain)).symm
    refine h.turns rfl rfl rfl rfl (by simp [hmain]) (by simp [hmain]) nofun ?_ (fun h => h.elim)
      (socket_same (s := s) h rfl)
    show Progress (dids es) _
    rw [hafter]
    exact h.progress
  | catching hmain =>
    exact h.did (calls_catching hmain) (calls_catching rfl) rfl rfl rfl rfl rfl (fun h => h.elim)
      (by simp [hmain]) (by simp [hmain])
  | caught hmain =>
    have hafter : ({ s with main := .releasing } : State n).calls = s.others := calls_still (.inr rfl)
    have hbefore := calls_catching hmain
    rw [← hafter] at hbefore
    exact h.called hbefore rfl rfl rfl rfl le_rfl (fun h => h.elim) (fun _ => rfl) (by simp [hmain])
  | release hmain =>
    refine ⟨h.holds, h.finished, fun _ => .inl hmain, fun _ => rfl, h.progress, h.fresh, h.socket⟩
  | joined hmain hpool =>
    rename_i p
    obtain ⟨hexited, hnone⟩ := h.holds.ended hpool
    obtain ⟨hholds, -⟩ := h.holds.keeps hpool rfl
    refine ⟨hholds, fun _ => ⟨hexited.ge, Multiset.card_eq_zero.mp hnone⟩, fun _ => .inr rfl,
      h.destroying, ?_, fun h => h.elim, h.socket⟩
    have hprogress : Progress (dids es) s.calls := h.progress
    rw [State.calls, add_assoc, add_assoc, hmain] at hprogress
    have hcalls : ({ s with pool := p, main := .finished } : State n).calls =
        s.workers.filterMap Worker.calls + (Main.releasing.calls +
          (s.destroying.toList : Multiset (List Action))) := by
      simp [State.calls, State.queue, Main.calls]
    show Progress (dids es) _
    rw [hcalls]
    exact hprogress.drop
  | pop hpool =>
    rename_i i task p
    obtain ⟨hholds, htasks, -⟩ := h.holds.took hpool
    have hmain := h.not_finished hpool
    have hqueue := queue_popped (t := { s with pool := p, workers := .popped task ::ₘ s.workers })
      hmain rfl htasks
    refine h.quiet rfl ?_ rfl rfl rfl rfl (Multiset.card_cons _ _ ▸ hholds)
      (h.holds.exited_le hpool) fun hfinished => absurd hfinished hmain
    have hscripts := filterMap_popped (f := script) (g := Worker.calls) rfl hqueue rfl
    rw [State.calls, hscripts, State.calls]
  | storage hworkers hrequest =>
    rename_i workers task data
    have hbefore := calls_worker_none hworkers (script_of_request hrequest)
    have hafter := calls_worker_none (s := { s with workers := .stored data ::ₘ workers }) rfl rfl
    exact h.works rfl hworkers (hbefore.trans hafter.symm) (by simp [hworkers])
  | sendReply hworkers | sendtoFails hworkers =>
    exact h.works rfl hworkers (calls_worker_none hworkers rfl) (by simp [hworkers])
  | disconnect hworkers =>
    rename_i workers data
    have hbefore := calls_worker hworkers rfl
    have hafter := calls_worker (s := { s with workers := .calling disconnect ::ₘ workers }) rfl rfl
    exact h.works rfl hworkers (hbefore.trans hafter.symm) (by simp [hworkers])
  | calling hworkers =>
    rename_i workers action left
    have hbefore := calls_worker hworkers rfl
    have hafter := calls_worker (s := { s with workers := .calling left ::ₘ workers,
                                               socket := s.socket.perform action }) rfl rfl
    exact h.did hbefore hafter rfl rfl rfl rfl (by simp [hworkers]) id id Iff.rfl
  | called hworkers =>
    exact h.called (calls_worker hworkers rfl) rfl rfl rfl rfl (by simp [hworkers]) id id Iff.rfl
  | returned hpool hless =>
    obtain ⟨hholds, htasks⟩ := h.holds.returned hpool hless
    exact h.quiet rfl (calls_kept rfl htasks rfl rfl) rfl rfl rfl rfl hholds
      (h.holds.exited_le hpool) fun _ => id
  | pool hpool huser =>
    obtain ⟨hholds, htasks⟩ := h.holds.keeps hpool huser
    exact h.quiet rfl (calls_kept rfl htasks rfl rfl) rfl rfl rfl rfl hholds
      (h.holds.exited_le hpool) fun _ => id
  | destroy hgateways hworkers htasks hnone =>
    exact inv_destroy h hgateways hworkers htasks hnone
  | destroying hleft =>
    exact h.did (calls_destroying hleft) (calls_destroying rfl) rfl rfl rfl (by simp [hleft]) rfl
      id id Iff.rfl

theorem inv_of_run (h : (slave n).Run es s) : Inv es s := by
  apply h.invariant
  · rintro _ ⟨tasks, rfl⟩
    exact inv_init _
  · rintro es s e t hs ⟨-, hstep⟩
    exact hs.step hstep

def Worker.request : Worker → Option DriverData
  | popped task => SlaveProcess.request task
  | stored data => some data
  | calling _ => none

def Worker.owes : Worker → Option DriverData
  | stored data => some data
  | _ => none

def State.held (s : State n) : Multiset DriverData :=
  s.queue.filterMap request + s.workers.filterMap Worker.request

def State.owed (s : State n) : Multiset DriverData := s.workers.filterMap Worker.owes

structure Turn (s : State n) (e : Event) (t : State n) : Prop where
  held : (requests [e] : Multiset DriverData) + s.held = replied [e] + lost [e] + t.held
  owed : (stored [e] : Multiset DriverData) + s.owed = replied [e] + t.owed

theorem turn_still (hrequests : requests [e] = []) (hreplied : replied [e] = []) (hlost : lost [e] = 0)
    (hstored : stored [e] = []) (hheld : t.held = s.held) (howed : t.owed = s.owed) : Turn s e t where
  held := by rw [hrequests, hreplied, hlost, hheld]; rfl
  owed := by rw [hstored, hreplied, howed]

theorem turn_kept (hmain : t.main = s.main) (htasks : t.pool.bag.tasks = s.pool.bag.tasks)
    (hworkers : t.workers = s.workers) : Turn s .silent t := by
  apply turn_still rfl rfl rfl rfl
  · simp only [State.held, State.queue, hmain, htasks, hworkers]
  · simp only [State.owed, hworkers]

theorem held_worker (hworkers : s.workers = worker ::ₘ workers) (hrequest : worker.request = some data) :
    s.held = data ::ₘ { s with workers := workers }.held := by
  simp only [State.held, State.queue, hworkers, Multiset.filterMap_cons_some _ _ _ hrequest,
    Multiset.add_cons]

theorem held_worker_none (hworkers : s.workers = worker ::ₘ workers) (hrequest : worker.request = none) :
    s.held = { s with workers := workers }.held := by
  simp only [State.held, State.queue, hworkers, Multiset.filterMap_cons_none _ _ hrequest]

theorem owed_worker (hworkers : s.workers = worker ::ₘ workers) (howes : worker.owes = some data) :
    s.owed = data ::ₘ { s with workers := workers }.owed := by
  simp only [State.owed, hworkers, Multiset.filterMap_cons_some _ _ _ howes]

theorem owed_worker_none (hworkers : s.workers = worker ::ₘ workers) (howes : worker.owes = none) :
    s.owed = { s with workers := workers }.owed := by
  simp only [State.owed, hworkers, Multiset.filterMap_cons_none _ _ howes]

theorem turn_disconnect (hrequests : requests [e] = []) (hreplied : replied [e] = [])
    (hlost : lost [e] = 0) (hstored : stored [e] = []) (hworkers : s.workers = worker ::ₘ workers)
    (hrequest : worker.request = none) (howes : worker.owes = none)
    (hheld : t.held = { s with workers := workers }.held)
    (howed : t.owed = { s with workers := workers }.owed) : Turn s e t :=
  turn_still hrequests hreplied hlost hstored
    (hheld.trans (held_worker_none hworkers hrequest).symm)
    (howed.trans (owed_worker_none hworkers howes).symm)

theorem turn_reply (hrequests : requests [e] = []) (hreplied : replied [e] = [data])
    (hlost : lost [e] = 0) (hstored : stored [e] = [])
    (hworkers : s.workers = .stored data ::ₘ workers) : Turn s e { s with workers := workers } where
  held := by
    rw [hrequests, hreplied, hlost, held_worker hworkers rfl, Multiset.coe_nil, Multiset.zero_add,
      Multiset.add_zero]
    exact (Multiset.singleton_add _ _).symm
  owed := by
    rw [hstored, hreplied, owed_worker hworkers rfl, Multiset.coe_nil, Multiset.zero_add]
    exact (Multiset.singleton_add _ _).symm

theorem turn_pop (hqueue : s.queue = task ::ₘ t.queue)
    (hworkers : t.workers = .popped task ::ₘ s.workers) : Turn s .silent t := by
  apply turn_still rfl rfl rfl rfl
  · exact filterMap_popped rfl hqueue hworkers
  · have howes : (Worker.popped task).owes = none := rfl
    rw [State.owed, hworkers, Multiset.filterMap_cons_none _ _ howes, State.owed]

theorem Step.turn (h : Inv es s) (hstep : Step n s e t) : Turn s e t := by
  cases hstep with
  | read hmain _ hcreate =>
    rename_i task _
    refine ⟨?_, by simp [stored, replied, State.owed]⟩
    cases hrequest : request task with
    | none =>
      simp [requests, replied, lost, State.held, State.queue, hmain,
        Multiset.filterMap_cons_none _ _ hrequest, hrequest]
    | some data =>
      simp [requests, replied, lost, State.held, State.queue, hmain,
        Multiset.filterMap_cons_some _ _ _ hrequest, hrequest]
  | badkey => exact turn_still rfl rfl rfl rfl rfl rfl
  | interrupted hmain | waitTimeOutThrows hmain | catching hmain | caught hmain =>
    exact turn_still rfl rfl rfl rfl (by simp [State.held, State.queue, hmain]) rfl
  | addTask hmain hpool =>
    have hqueue := queue_added hmain (h.holds.added hpool).2
    refine turn_still rfl rfl rfl rfl ?_ rfl
    rw [State.held, hqueue, State.held]
  | release | destroy | destroying => exact turn_still rfl rfl rfl rfl rfl rfl
  | joined hmain hpool =>
    obtain ⟨-, htasks⟩ := h.holds.keeps hpool rfl
    refine ⟨?_, by simp [stored, replied, State.owed]⟩
    simp [requests, replied, lost, State.held, State.queue, hmain, htasks]
  | pop hpool =>
    have hmain := h.not_finished hpool
    exact turn_pop (queue_popped hmain rfl (h.holds.took hpool).2.1) rfl
  | storage hworkers hrequest =>
    rename_i workers task data
    have hheld : s.held = data ::ₘ { s with workers := workers }.held := held_worker hworkers hrequest
    refine ⟨?_, ?_⟩
    · rw [hheld, held_worker (s := { s with workers := .stored data ::ₘ workers }) rfl rfl]
      rfl
    · rw [owed_worker_none hworkers rfl,
        owed_worker (s := { s with workers := .stored data ::ₘ workers }) rfl rfl]
      exact (Multiset.singleton_add _ _).trans (Multiset.zero_add _).symm
  | sendReply hworkers | sendtoFails hworkers => exact turn_reply rfl rfl rfl rfl hworkers
  | disconnect hworkers =>
    rename_i workers data
    have hafter : ({ s with workers := .calling SlaveProcess.disconnect ::ₘ workers } :
        State n).workers = .calling SlaveProcess.disconnect ::ₘ workers := rfl
    exact turn_disconnect rfl rfl rfl rfl hworkers rfl rfl (held_worker_none hafter rfl)
      (owed_worker_none hafter rfl)
  | calling hworkers =>
    rename_i workers action left
    have hafter : ({ s with workers := .calling left ::ₘ workers,
                            socket := s.socket.perform action } : State n).workers =
        .calling left ::ₘ workers := rfl
    exact turn_disconnect rfl rfl rfl rfl hworkers rfl rfl (held_worker_none hafter rfl)
      (owed_worker_none hafter rfl)
  | called hworkers => exact turn_disconnect rfl rfl rfl rfl hworkers rfl rfl rfl rfl
  | returned hpool hless => exact turn_kept rfl (h.holds.returned hpool hless).2 rfl
  | pool hpool huser => exact turn_kept rfl (h.holds.keeps hpool huser).2 rfl

/-- The requests of a run, and those whose storage was called: which have a reply, which were destroyed
in the queue, and which are under way. -/
structure Ledger (es : List Event) (s : State n) : Prop where
  held : (requests es : Multiset DriverData) = replied es + lost es + s.held
  owed : (stored es : Multiset DriverData) = replied es + s.owed

theorem requests_cons (e : Event) (es : List Event) : requests (e :: es) = requests [e] ++ requests es :=
  List.filterMap_append (l := [e])

theorem stored_cons (e : Event) (es : List Event) : stored (e :: es) = stored [e] ++ stored es :=
  List.filterMap_append (l := [e])

theorem replied_cons (e : Event) (es : List Event) : replied (e :: es) = replied [e] ++ replied es :=
  List.filterMap_append (l := [e])

theorem lost_cons (e : Event) (es : List Event) : lost (e :: es) = lost [e] + lost es := by
  cases e <;> simp [lost]

theorem Ledger.turn (h : Ledger es s) (hturn : Turn s e t) : Ledger (e :: es) t where
  held := by
    rw [requests_cons, replied_cons, lost_cons, ← Multiset.coe_add, ← Multiset.coe_add, h.held]
    calc (requests [e] + (replied es + lost es + s.held) : Multiset DriverData)
        = requests [e] + s.held + (replied es + lost es) := by ac_rfl
      _ = replied [e] + lost [e] + t.held + (replied es + lost es) := by rw [hturn.held]
      _ = replied [e] + replied es + (lost [e] + lost es) + t.held := by ac_rfl
  owed := by
    rw [stored_cons, replied_cons, ← Multiset.coe_add, ← Multiset.coe_add, h.owed]
    calc (stored [e] + (replied es + s.owed) : Multiset DriverData)
        = stored [e] + s.owed + replied es := by ac_rfl
      _ = replied [e] + t.owed + replied es := by rw [hturn.owed]
      _ = replied [e] + replied es + t.owed := by ac_rfl

theorem ledger_init (script : List (ThreadPool.Command SlaveEngine.Task)) :
    Ledger [] (init script : State n) where
  held := by
    rw [State.held, queue_init]
    rfl
  owed := rfl

theorem ledger_of_run (h : (slave n).Run es s) : Ledger es s := by
  refine (h.invariant (P := fun es s => Inv es s ∧ Ledger es s) ?_ ?_).2
  · rintro _ ⟨tasks, rfl⟩
    exact ⟨inv_init _, ledger_init _⟩
  · rintro es s e t ⟨hinv, hledger⟩ ⟨-, hstep⟩
    exact ⟨hinv.step hstep, hledger.turn (hstep.turn hinv)⟩

/-- What needs the socket: a `Read` of the main thread, a signal that it takes in `WaitTimeOut`, and a
reply that goes out. -/
inductive Event.Uses : Event → Prop
  | read : Uses (.read task)
  | badkey : Uses .badkey
  | interrupted : Uses .interrupted
  | replied : Uses (.replied data)

theorem Progress.prefix_ (h : Progress actions calls) : actions <+: disconnect := by
  cases h with
  | idle hactions => exact hactions ▸ List.nil_prefix
  | active hleft => exact ⟨_, hleft⟩
  | done hactions => exact hactions ▸ List.prefix_rfl

theorem Inv.closed (h : Inv es s) (hdids : dids es ≠ []) : s.socket.sends = false := by
  rw [h.socket]
  have hprefix : dids es <+: [.close, .setOff] := h.progress.prefix_
  obtain hnone | ⟨left, hcons, hleft⟩ := List.prefix_cons_iff.mp hprefix
  · exact absurd hnone hdids
  · rw [hcons]
    obtain hnone | ⟨left', hcons', hleft'⟩ := List.prefix_cons_iff.mp hleft
    · rw [hnone]
      rfl
    · rw [hcons', List.prefix_nil.mp hleft']
      rfl

theorem Step.not_uses (h : Inv es s) (hstep : Step n s e t) (hdids : dids es ≠ []) : ¬ e.Uses := by
  intro huses
  cases hstep with
  | read hmain | badkey hmain | interrupted hmain =>
    exact hdids (h.fresh (by rw [hmain]; trivial)).2
  | sendReply _ hsends =>
    rw [h.closed hdids] at hsends
    cases hsends
  | _ => cases huses

theorem dids_ne_nil (h : .did action ∈ es) : dids es ≠ [] := by
  induction es with
  | nil => cases h
  | cons e es ih =>
    rw [dids_cons]
    rcases List.mem_cons.mp h with rfl | hmem
    · simp [dids]
    · exact List.append_ne_nil_of_left_ne_nil (ih hmem) _

theorem not_uses_of_run (h : (slave n).Run (more ++ .did action :: es) s) (he : e ∈ more) :
    ¬ e.Uses := by
  obtain ⟨later, earlier, rfl⟩ := List.append_of_mem he
  rw [List.append_assoc, List.cons_append] at h
  obtain ⟨_, hrun⟩ := h.earlier
  have hmem : .did action ∈ earlier ++ .did action :: es := List.mem_append_right _ List.mem_cons_self
  cases hrun with
  | step hrun hstep => exact hstep.2.not_uses (inv_of_run hrun) (dids_ne_nil hmem)

theorem queue_finished (h : s.main = .finished) : s.queue = 0 := by
  simp only [State.queue, h]

theorem Inv.ended (h : Inv es s) (hend : s.Ended) : dids es = disconnect := by
  have hcalls : s.calls = {[]} := by
    rw [State.calls, queue_finished hend.main, (h.finished hend.main).2, hend.main, hend.destroying]
    rfl
  have hprogress := h.progress
  rw [hcalls] at hprogress
  generalize hbefore : ({[]} : Multiset (List Action)) = calls at hprogress
  cases hprogress with
  | idle | done => exact absurd hbefore (Multiset.singleton_ne_zero _)
  | active hleft =>
    rw [← Multiset.singleton_inj.mp hbefore, List.append_nil] at hleft
    exact hleft

theorem Inv.nothing_held (h : Inv es s) (hend : s.Ended) : s.held = 0 ∧ s.owed = 0 := by
  have hworkers := (h.finished hend.main).2
  refine ⟨?_, ?_⟩
  · rw [State.held, queue_finished hend.main, hworkers]
    rfl
  · rw [State.owed, hworkers]
    rfl

theorem run_pool (h : (slave n).Run es s) (halive : s.alive = true)
    (e : ThreadPool.Event n Empty SlaveEngine.Task) (hpool : PoolStep s.pool e p)
    (huser : e.shown.user? = none) (hcalled : e ≠ .called .destroy)
    (hreturned : e ≠ .returned .destroy) : (slave n).Run (.silent :: es) { s with pool := p } :=
  h.then_ .silent ⟨halive, .pool hpool huser (fun he => absurd he hcalled) hreturned⟩

theorem run_took (h : (slave n).Run es s) (halive : s.alive = true) (i : Fin n) (task : SlaveEngine.Task)
    (hpool : PoolStep s.pool (.took i (.user task)) p) :
    (slave n).Run (.silent :: es) { s with pool := p, workers := .popped task ::ₘ s.workers } :=
  h.then_ .silent ⟨halive, .pop hpool⟩

theorem run_returned (h : (slave n).Run es s) (halive : s.alive = true) (i : Fin n)
    (task : SlaveEngine.Task) (hpool : PoolStep s.pool (.executed i (.user task)) p)
    (hless : s.workers.card < s.pool.bag.working.card) :
    (slave n).Run (.silent :: es) { s with pool := p } :=
  h.then_ .silent ⟨halive, .returned hpool hless⟩

/-- `SlaveDisconnect::Execute` from its start to its end. -/
theorem run_execute (h : (slave n).Run es s) (halive : s.alive = true) (data : DriverData)
    (workers : Multiset Worker) (hworkers : s.workers = .popped (.slaveDisconnect data) ::ₘ workers) :
    (slave n).Run (.silent :: .did .setOff :: .did .close :: .silent :: es)
      { s with workers := workers, socket := (s.socket.perform .close).perform .setOff } := by
  have h := h.then_ .silent ⟨halive, .disconnect hworkers⟩
  have h := h.then_ (.did .close) ⟨halive, .calling rfl⟩
  have h := h.then_ (.did .setOff) ⟨halive, .calling rfl⟩
  exact h.then_ .silent ⟨halive, .called rfl⟩

theorem run_read (h : (slave n).Run es s) (halive : s.alive = true) (hmain : s.main = .waiting)
    (hdata : SlaveDriverProxy.receiveRequest fresh datagram = some data)
    (hcreate : Factory.create (addTasksToReqEngine .empty) data.key data = .ok task)
    (hstops : decide (data.key = .disconnect) = stops) :
    (slave n).Run (.read task :: es) { s with main := .adding task stops } := by
  rw [← hstops]
  exact h.then_ (.read task) ⟨halive, .read hmain hdata hcreate⟩

theorem run_replied (h : (slave n).Run es s) (halive : s.alive = true) (task : SlaveEngine.Task)
    (workers : Multiset Worker) (hworkers : s.workers = .popped task ::ₘ workers)
    (hrequest : request task = some data) (hsends : s.socket.sends = true) :
    (slave n).Run (.replied data :: .stored data :: es) { s with workers := workers } := by
  have h := h.then_ (.stored data) ⟨halive, .storage hworkers hrequest⟩
  exact h.then_ (.replied data) ⟨halive, .sendReply rfl hsends⟩

theorem pop_push_nil (task : PoolTask SlaveEngine.Task) :
    [] = Heap.pop TPTask.lt (Heap.push TPTask.lt [] task) := by
  rw [Heap.push_nil]
  rfl

theorem run_handed {s : State 1} (h : (slave 1).Run es s) (halive : s.alive = true)
    (hmain : s.main = .adding task stops) (hworkers : s.workers = 0)
    (hpool : s.pool = ThreadPool.init (.addTask task :: rest)) :
    (slave 1).Run (List.replicate 9 .silent ++ es) { s with
      main := if stops then .releasing else .waiting
      pool := (ThreadPool.init rest).move 0 (.got (.user task))
      workers := .popped task ::ₘ 0 } := by
  have hidle : ∀ thread : ThreadPool.Thread 1 Empty, Function.update
      (fun _ => .idle : _ → SharedQueue.Position (PoolTask SlaveEngine.Task)) thread .idle =
        fun _ => .idle :=
    fun thread => Function.update_eq_self thread _
  obtain ⟨main, pool, workers, socket, gateways, destroying, alive⟩ := s
  subst hpool hworkers
  have h := run_pool h halive (.called (.addTask task)) ⟨rfl, rfl, _, rfl, rfl⟩ rfl nofun nofun
  have h := h.then_ .silent
    ⟨halive, .addTask hmain ⟨rfl, _, _, ⟨rfl, rfl, rfl⟩, ⟨_, 0, rfl, rfl⟩, rfl⟩⟩
  have h := run_pool h halive (.posted .controller) ⟨rfl, _, ⟨rfl, rfl⟩, rfl⟩ rfl nofun nofun
  have h := run_pool h halive (.unlocked .controller) ⟨rfl, _, ⟨rfl, rfl⟩, rfl⟩ rfl nofun nofun
  have h := run_pool h halive (.looped (.addTask task)) ⟨rfl, .adding, rfl, rfl⟩ rfl nofun nofun
  have h := run_pool h halive (.returned (.addTask task)) ⟨rfl, .done, rfl⟩ rfl nofun nofun
  have h := run_pool h halive (.popCalled 0 none) ⟨rfl, rfl, _, ⟨rfl, rfl⟩, rfl⟩ rfl nofun nofun
  have h := run_pool h halive (.popWaited 0) ⟨rfl, rfl, _, ⟨false, none, 0, rfl, rfl, rfl⟩, rfl⟩
    rfl nofun nofun
  have h := run_took h halive 0 task
    ⟨rfl, rfl, _, [], ⟨false, none, [], rfl, rfl, Heap.push_nil _ _, pop_push_nil _, rfl⟩, rfl⟩
  simp only [SharedQueue.State.move, Function.update_idem, ThreadPool.init, SharedQueue.init,
    hidle] at h
  exact h

theorem run_executed {s : State 1} (h : (slave 1).Run es s) (halive : s.alive = true)
    (hworkers : s.workers = 0)
    (hpool : s.pool = (ThreadPool.init rest).move 0 (.got (.user task))) :
    (slave 1).Run (.silent :: es) { s with pool := ThreadPool.init rest } := by
  have hworking : s.workers.card < s.pool.bag.working.card := by
    rw [hworkers, hpool]
    exact Nat.zero_lt_one
  have h := run_returned h halive 0 task (by
    rw [hpool]
    exact ⟨rfl, rfl, rfl, fun _ _ => not_false, rfl⟩) hworking
  simpa only [ThreadPool.State.move, PoolTask.after, Function.update_idem, ThreadPool.init,
    Function.update_eq_self] using h

/-- In every run of a slave, with any number of workers and whatever comes in: `Disconnect` is called at
most once to its end, and never while another call of it is under way. Behind its `close` nothing is read
and no reply goes out. Every request that was read has one reply, or is still under way, or was
destroyed in the queue with its storage not called. Where the slave has ended, `Disconnect` was called,
and no request is under way. -/
theorem run_closes (h : (slave n).Run es s) :
    dids es <+: disconnect ∧
    (∀ more action before, es = more ++ .did action :: before → ∀ e ∈ more, ¬ e.Uses) ∧
    (requests es : Multiset DriverData) = replied es + lost es + s.held ∧
    (stored es : Multiset DriverData) = replied es + s.owed ∧
    (s.Ended → dids es = disconnect ∧ s.held = 0 ∧ s.owed = 0) := by
  have hinv := inv_of_run h
  obtain ⟨hheld, howed⟩ := ledger_of_run h
  refine ⟨hinv.progress.prefix_, ?_, hheld, howed, fun hend => ⟨hinv.ended hend, hinv.nothing_held hend⟩⟩
  rintro more action before rfl e he
  exact not_uses_of_run h he

/-- A `READ`, which the worker replies to, and a `DISCONNECT`, whose task it executes before the engine
is destroyed. The destructor of the driver has nothing left to close. -/
theorem run_closes_readDisconnect : ∃ (es : List Event) (s : State 1) (data : DriverData),
    (slave 1).Run es s ∧ s.Ended ∧ data.key = .read ∧ requests es = [data] ∧ stored es = [data] ∧
    (replied es : Multiset DriverData) = {data} ∧ dids es = disconnect := by
  obtain ⟨read, hread, hreadKey⟩ := (header_of_char 48).receive nofun zeroed
  have hreadKey : read.key = .read := hreadKey
  obtain ⟨data, hdata, hkey⟩ := (header_of_char 50).receive nofun zeroed
  have hkey : data.key = .disconnect := hkey
  have hreadTask : Factory.create (addTasksToReqEngine .empty) read.key read = .ok (.slaveRead read) := by
    rw [SlaveEngine.create_addTasksToReqEngine, hreadKey]
    rfl
  have htask : Factory.create (addTasksToReqEngine .empty) data.key data = .ok (.slaveDisconnect data) := by
    rw [SlaveEngine.create_addTasksToReqEngine, hkey]
    rfl
  have h : (slave 1).Run []
      (init [.addTask (.slaveRead read), .addTask (.slaveDisconnect data), .destroy]) :=
    .start ⟨[.slaveRead read, .slaveDisconnect data], rfl⟩
  have h := run_read h rfl rfl hread hreadTask (by rw [hreadKey]; rfl : _ = false)
  have h := run_handed h rfl rfl rfl rfl
  have h := run_replied h rfl (.slaveRead read) 0 rfl rfl rfl
  have h := run_executed h rfl rfl rfl
  have h := run_read h rfl rfl hdata htask (by rw [hkey]; rfl : _ = true)
  have h := run_handed h rfl rfl rfl rfl
  have h := run_execute h rfl data 0 rfl
  have h := run_executed h rfl rfl rfl
  -- the engine and its pool are destroyed
  have h := h.then_ .silent ⟨rfl, .release rfl⟩
  have h := h.then_ .silent
    ⟨rfl, .pool (e := .called .destroy) ⟨rfl, rfl, _, rfl, rfl⟩ rfl (fun _ => ⟨rfl, rfl⟩) nofun⟩
  have h := run_pool h rfl (.pushed .controller .stop)
    ⟨rfl, _, _, ⟨rfl, rfl, rfl⟩, ⟨_, 0, rfl, rfl⟩, rfl⟩ rfl nofun nofun
  have h := run_pool h rfl (.posted .controller) ⟨rfl, _, ⟨rfl, rfl⟩, rfl⟩ rfl nofun nofun
  have h := run_pool h rfl (.unlocked .controller) ⟨rfl, _, ⟨rfl, rfl⟩, rfl⟩ rfl nofun nofun
  have h := run_pool h rfl (.looped .destroy) ⟨rfl, .adding, rfl, rfl⟩ rfl nofun nofun
  have h := run_pool h rfl (.popCalled 0 none) ⟨rfl, rfl, _, ⟨rfl, rfl⟩, rfl⟩ rfl nofun nofun
  have h := run_pool h rfl (.popWaited 0) ⟨rfl, rfl, _, ⟨false, none, 0, rfl, rfl, rfl⟩, rfl⟩
    rfl nofun nofun
  have h := run_pool h rfl (.took 0 .stop)
    ⟨rfl, rfl, _, [], ⟨false, none, [], rfl, rfl, Heap.push_nil _ _, pop_push_nil _, rfl⟩, rfl⟩
    rfl nofun nofun
  have h := run_pool h rfl (.executed 0 .stop) ⟨rfl, rfl, rfl, nofun, rfl⟩ rfl nofun nofun
  have h := run_pool h rfl (.joined 0) ⟨rfl, _, 0, rfl, rfl, rfl, rfl⟩ rfl nofun nofun
  have h := h.then_ (.destroyed _) ⟨rfl, .joined rfl ⟨rfl, .joining, rfl⟩⟩
  have h := h.then_ .silent ⟨rfl, .destroy rfl rfl (.inr rfl) rfl⟩
  obtain ⟨-, -, -, hreplied, hended⟩ := run_closes h
  obtain ⟨hdids, -, howed⟩ := hended ⟨rfl, rfl⟩
  have hreplied := hreplied.trans ((congrArg (_ + ·) howed).trans (add_zero _))
  exact ⟨_, _, read, h, ⟨rfl, rfl⟩, hreadKey, rfl, rfl, hreplied.symm, hdids⟩

end GreenCloud.SlaveProcess
