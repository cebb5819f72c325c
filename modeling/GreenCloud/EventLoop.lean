import GreenCloud.Shutdown
import GreenCloud.SlaveEngine

/-! `RequestEngine::Run` over any gateways: the wait for a descriptor, the scan for its gateway, and
the task that goes to the pool. -/

namespace GreenCloud

open CLib

structure EpollError where
  what : String
  errno : Int32
  deriving DecidableEq

/-- `Epoll`, with the descriptor in each of its `m_events`. -/
structure Epoll (maxEvents : Nat) where
  events : Vector Int32 maxEvents

namespace Epoll

variable {maxEvents : Nat}

/-- `m_events(max_events, {0, 0})` -/
def init : Epoll maxEvents := ⟨.replicate maxEvents 0⟩

/-- `ready` is what `epoll_wait` gives: the descriptors it fills in, or `errno`. -/
def waitTimeOut (epoll : Epoll maxEvents) (ready : Except Int32 (List Int32)) :
    Except EpollError (Int32 × Epoll maxEvents) :=
  match ready with
  | .error errno => .error ⟨"Epoll::WaitTimeOut() - epoll_wait()", errno⟩
  | .ok fds => .ok (.ofNat fds.length, ⟨.ofFn fun i => fds[i.val]?.getD epoll.events[i]⟩)

end Epoll

namespace EventLoop

/-- `MAX_EVENTS_TO_WAKE` -/
abbrev maxEventsToWake : Nat := 1

inductive Status
  | init
  | run
  | stop
  deriving DecidableEq

/-- What `Read` comes to: the pair it returns or what it throws, and whether it has called
`Stop`. -/
structure Answer (ε κ α : Type) where
  ret : Except ε (κ × α)
  stops : Bool

/-- The virtual functions of a gateway, over all that they look at and change. -/
structure GateWay (σ ε κ α : Type) where
  getFd : σ → Int32
  read : σ → Answer ε κ α × σ

/-- `reqFd` is what `GetReqFd` of the driver returns, and `receive` its `ReceiveRequest`. -/
def driverProxyGateWay {σ ε : Type} (reqFd : Int32) (receive : σ → Except ε DriverData × σ) :
    GateWay σ ε FactoryKey DriverData where
  getFd _ := reqFd
  read world :=
    match receive world with
    | (.error e, world) => (⟨.error e, false⟩, world)
    | (.ok data, world) => (⟨.ok (data.key, data), data.key = .disconnect⟩, world)

structure Engine (σ ε κ α τ : Type) where
  status : Status
  monitor : Epoll maxEventsToWake
  factory : UnorderedMap κ (α → τ)
  gateways : List (GateWay σ ε κ α)

/-- What `Run` does, one after another. -/
inductive Action (ε κ α τ : Type)
  | waited (stt : Int32)
  | read (i : Nat) (ret : Except ε (κ × α))
  | added (task : τ)

/-- Where `Run` is in the end: in `WaitTimeOut`, behind its loop, or left by an exception of
`WaitTimeOut`, of `Read` or of the factory. -/
inductive Ended (ε κ : Type)
  | waiting
  | stopped
  | epollError (e : EpollError)
  | threw (e : ε)
  | badkey (e : Badkey κ)

/-- One return of `epoll_wait`, and what there is for the gateways to look at then. -/
structure Wake (σ : Type) where
  ready : Except Int32 (List Int32)
  world : σ

variable {σ ε κ α τ : Type} [BEq κ] [Hashable κ]

namespace Engine

def init : Engine σ ε κ α τ := ⟨.init, .init, .empty, []⟩

def addTask (engine : Engine σ ε κ α τ) (key : κ) (func : α → τ) : Engine σ ε κ α τ :=
  { engine with factory := (Factory.add engine.factory key func).2 }

/-- `errno` is that of `epoll_ctl`, where it fails. -/
def addGateWay (engine : Engine σ ε κ α τ) (errno : Option Int32) (gateway : GateWay σ ε κ α) :
    Except EpollError (Engine σ ε κ α τ) :=
  match errno with
  | some errno => .error ⟨" Epoll::Add() - epoll_ctl()", errno⟩
  | none => .ok { engine with gateways := engine.gateways ++ [gateway] }

/-- `AddTask` for each key and its creator. -/
def addTasks (engine : Engine σ ε κ α τ) (creators : List (κ × (α → τ))) : Engine σ ε κ α τ :=
  creators.foldl (fun engine creator => engine.addTask creator.1 creator.2) engine

end Engine

/-- The loop over the gateways, from number `i` on. -/
def scan (factory : UnorderedMap κ (α → τ)) (fd : Int32) (i : Nat) (status : Status) (world : σ) :
    List (GateWay σ ε κ α) → List (Action ε κ α τ) × Except (Ended ε κ) Status
  | [] => ([], .ok status)
  | gateway :: gateways =>
    if gateway.getFd world = fd then
      let (answer, world) := gateway.read world
      let status := if answer.stops then .stop else status
      match answer.ret with
      | .error e => ([.read i answer.ret], .error (.threw e))
      | .ok (key, args) =>
        match Factory.create factory key args with
        | .error e => ([.read i answer.ret], .error (.badkey e))
        | .ok task =>
          let (actions, next) := scan factory fd (i + 1) status world gateways
          (.read i answer.ret :: .added task :: actions, next)
    else scan factory fd (i + 1) status world gateways

/-- The loop of `Run`, for as long as `epoll_wait` returns. -/
def loop (engine : Engine σ ε κ α τ) : List (Wake σ) → List (Action ε κ α τ) × Ended ε κ
  | [] => ([], if engine.status = .run then .waiting else .stopped)
  | wake :: wakes =>
    if engine.status = .run then
      match engine.monitor.waitTimeOut wake.ready with
      | .error e => ([], .epollError e)
      | .ok (stt, monitor) =>
        if stt ≠ 0 then
          match scan engine.factory monitor.events[0] 0 engine.status wake.world engine.gateways with
          | (actions, .error ended) => (.waited stt :: actions, ended)
          | (actions, .ok status) =>
            let (later, ended) := loop { engine with monitor := monitor, status := status } wakes
            (.waited stt :: (actions ++ later), ended)
        else
          let (later, ended) := loop { engine with monitor := monitor } wakes
          (.waited stt :: later, ended)
    else ([], .stopped)

def run (engine : Engine σ ε κ α τ) (wakes : List (Wake σ)) :
    List (Action ε κ α τ) × Ended ε κ :=
  loop { engine with status := .run } wakes

/-- The descriptors never change, and no two gateways share one. -/
structure Separate (gateways : List (GateWay σ ε κ α)) : Prop where
  unchanging : ∀ gateway ∈ gateways, ∀ w w', gateway.getFd w = gateway.getFd w'
  distinct : gateways.Pairwise fun gateway gateway' => ∀ w, gateway.getFd w ≠ gateway'.getFd w

/-- Each key that a gateway can return has a creator. -/
def Registered (factory : UnorderedMap κ (α → τ)) (gateways : List (GateWay σ ε κ α)) : Prop :=
  ∀ gateway ∈ gateways, ∀ w key args, (gateway.read w).1.ret = .ok (key, args) →
    ∃ func, UnorderedMap.find key factory.nodes = some func

def Reports (gateways : List (GateWay σ ε κ α)) (wake : Wake σ) : Prop :=
  wake.ready = .ok [] ∨ ∃ gateway ∈ gateways, wake.ready = .ok [gateway.getFd wake.world]

/-- What comes of the reports, one after another: each report is read by the one gateway that has
its descriptor, and the creator of the key that this `Read` returns makes one task of what it
returns with it. Behind a `Read` that calls `Stop`, or throws, nothing comes any more. -/
inductive Dispatches (factory : UnorderedMap κ (α → τ)) (gateways : List (GateWay σ ε κ α)) :
    List (Wake σ) → List (Action ε κ α τ) → Ended ε κ → Prop
  | waiting : Dispatches factory gateways [] [] .waiting
  | timeout : wake.ready = .ok [] → Dispatches factory gateways wakes actions ended →
      Dispatches factory gateways (wake :: wakes) (.waited 0 :: actions) ended
  | served : gateways[i]? = some gateway → wake.ready = .ok [gateway.getFd wake.world] →
      (gateway.read wake.world).1 = ⟨.ok (key, args), false⟩ →
      UnorderedMap.find key factory.nodes = some func →
      Dispatches factory gateways wakes actions ended →
      Dispatches factory gateways (wake :: wakes)
        (.waited 1 :: .read i (.ok (key, args)) :: .added (func args) :: actions) ended
  | stopped : gateways[i]? = some gateway → wake.ready = .ok [gateway.getFd wake.world] →
      (gateway.read wake.world).1 = ⟨.ok (key, args), true⟩ →
      UnorderedMap.find key factory.nodes = some func →
      Dispatches factory gateways (wake :: wakes)
        [.waited 1, .read i (.ok (key, args)), .added (func args)] .stopped
  | threw : gateways[i]? = some gateway → wake.ready = .ok [gateway.getFd wake.world] →
      (gateway.read wake.world).1.ret = .error e →
      Dispatches factory gateways (wake :: wakes) [.waited 1, .read i (.error e)] (.threw e)

def tasks : List (Action ε κ α τ) → List τ := List.filterMap fun
  | .added task => some task
  | _ => none

/-- A wake as the one model has it and as the other: the gateway with the descriptor reads the task
that the factory makes. -/
inductive Describes (factory : UnorderedMap κ (α → τ)) (gateways : List (GateWay σ ε κ α)) :
    Wake σ → Option (RequestEngine.Wake τ) → Prop
  | timeout : wake.ready = .ok [] → Describes factory gateways wake none
  | ready : wake.ready = .ok [fd] → w.fd = fd.toInt →
      (∀ (i : Nat) gateway, gateways[i]? = some gateway → gateway.getFd wake.world = fd →
        ∃ key args func, (gateway.read wake.world).1 = ⟨.ok (key, args), (w.read i).stop⟩ ∧
          UnorderedMap.find key factory.nodes = some func ∧ (w.read i).task = func args) →
      Describes factory gateways wake (some w)

def Ended.status : Ended ε κ → RequestEngine.Status
  | stopped => .stop
  | _ => .run

def fds (gateways : List (GateWay σ ε κ α)) (world : σ) : List Int :=
  gateways.map fun gateway => (gateway.getFd world).toInt

variable {factory : UnorderedMap κ (α → τ)} {gateways : List (GateWay σ ε κ α)}
variable {gateway : GateWay σ ε κ α} {wake : Wake σ} {wakes : List (Wake σ)} {fd : Int32}

theorem find_addTask [LawfulBEq κ] (engine : Engine σ ε κ α τ) (key : κ) (func : α → τ) (key' : κ) :
    UnorderedMap.find key' (engine.addTask key func).factory.nodes =
      if key' == key then some func else UnorderedMap.find key' engine.factory.nodes :=
  UnorderedMap.find_assign engine.factory key func key'

theorem find_addTasks [LawfulBEq κ] {engine : Engine σ ε κ α τ} {creators : List (κ × (α → τ))}
    (h : key ∈ creators.map Prod.fst ∨ ∃ func, UnorderedMap.find key engine.factory.nodes = some func) :
    ∃ func, UnorderedMap.find key (engine.addTasks creators).factory.nodes = some func := by
  induction creators generalizing engine with
  | nil => exact h.resolve_left List.not_mem_nil
  | cons creator creators ih =>
    refine ih ?_
    rw [find_addTask]
    by_cases hkey : key == creator.1
    · exact .inr ⟨creator.2, if_pos hkey⟩
    · rw [if_neg hkey]
      refine h.imp_left fun hmem => (List.mem_cons.mp hmem).resolve_left fun heq => ?_
      exact hkey (beq_of_eq heq)

theorem registered_addTasks [LawfulBEq κ] (engine : Engine σ ε κ α τ)
    {creators : List (κ × (α → τ))}
    (h : ∀ gateway ∈ gateways, ∀ w key args, (gateway.read w).1.ret = .ok (key, args) →
      key ∈ creators.map Prod.fst) :
    Registered (engine.addTasks creators).factory gateways :=
  fun gateway hgateway w key args hret => find_addTasks (.inl (h gateway hgateway w key args hret))

theorem scan_of_ne (factory : UnorderedMap κ (α → τ))
    (h : ∀ gateway ∈ gateways, gateway.getFd world ≠ fd) (i : Nat) (status : Status) :
    scan factory fd i status world gateways = ([], .ok status) := by
  induction gateways generalizing i with
  | nil => rfl
  | cons gateway gateways ih =>
    obtain ⟨hgateway, hgateways⟩ := List.forall_mem_cons.mp h
    rw [scan, if_neg hgateway]
    exact ih hgateways (i + 1)

omit [BEq κ] [Hashable κ] in
theorem Separate.of_cons (h : Separate (gateway :: gateways)) : Separate gateways where
  unchanging := (List.forall_mem_cons.mp h.unchanging).2
  distinct := (List.pairwise_cons.mp h.distinct).2

def serve (factory : UnorderedMap κ (α → τ)) (i : Nat) (status : Status) (answer : Answer ε κ α) :
    List (Action ε κ α τ) × Except (Ended ε κ) Status :=
  match answer.ret with
  | .error e => ([.read i (.error e)], .error (.threw e))
  | .ok (key, args) =>
    match Factory.create factory key args with
    | .error e => ([.read i (.ok (key, args))], .error (.badkey e))
    | .ok task => ([.read i (.ok (key, args)), .added task],
        .ok (if answer.stops then .stop else status))

/-- The scan reads the gateway with the descriptor, and goes on past all others: what the `Read`
changes makes none of them the one. -/
theorem scan_eq (h : Separate gateways) (hi : gateways[i]? = some gateway) (k : Nat)
    (status : Status) (world : σ) :
    scan factory (gateway.getFd world) k status world gateways =
      serve factory (k + i) status (gateway.read world).1 := by
  induction gateways generalizing i k with
  | nil => cases hi
  | cons first gateways ih =>
    have hfirst := (List.pairwise_cons.mp h.distinct).1
    cases i with
    | zero =>
      cases hi
      have hothers : ∀ other ∈ gateways,
          other.getFd (gateway.read world).2 ≠ gateway.getFd world := by
        intro other hother heq
        rw [h.unchanging other (List.mem_cons_of_mem _ hother) _ world] at heq
        exact hfirst other hother world heq.symm
      have hscan := scan_of_ne factory hothers (k + 1)
      rw [scan, if_pos rfl, serve]
      generalize gateway.read world = read at hscan ⊢
      obtain ⟨⟨ret, stops⟩, world'⟩ := read
      cases ret with
      | error e => rfl
      | ok pair =>
        obtain ⟨key, args⟩ := pair
        cases hcreate : Factory.create factory key args with
        | error e => simp only [hcreate, Nat.add_zero]
        | ok task => simp only [hcreate, hscan, Nat.add_zero]
    | succ i =>
      have hmem : gateway ∈ gateways := List.mem_of_getElem? hi
      rw [scan, if_neg (hfirst gateway hmem world), ih h.of_cons hi, Nat.add_right_comm,
        Nat.add_assoc]

variable {engine : Engine σ ε κ α τ}

theorem loop_timeout (hrun : engine.status = .run) (hready : wake.ready = .ok [])
    (wakes : List (Wake σ)) : ∃ monitor, loop engine (wake :: wakes) =
      (.waited 0 :: (loop { engine with monitor := monitor } wakes).1,
        (loop { engine with monitor := monitor } wakes).2) := by
  refine ⟨⟨.ofFn fun i => engine.monitor.events[i]⟩, ?_⟩
  rw [loop, if_pos hrun, hready]
  rfl

theorem loop_ready (hrun : engine.status = .run) (hready : wake.ready = .ok [fd])
    (wakes : List (Wake σ)) : ∃ monitor, loop engine (wake :: wakes) =
      match scan engine.factory fd 0 engine.status wake.world engine.gateways with
      | (actions, .error ended) => (.waited 1 :: actions, ended)
      | (actions, .ok status) =>
        (.waited 1 ::
            (actions ++ (loop { engine with monitor := monitor, status := status } wakes).1),
          (loop { engine with monitor := monitor, status := status } wakes).2) := by
  refine ⟨⟨.ofFn fun i => [fd][i.val]?.getD engine.monitor.events[i]⟩, ?_⟩
  rw [loop, if_pos hrun, hready]
  rfl

theorem loop_stopped (hstop : engine.status = .stop) (wakes : List (Wake σ)) :
    loop engine wakes = ([], .stopped) := by
  have hrun : engine.status ≠ .run := by
    rw [hstop]
    exact nofun
  cases wakes with
  | nil => rw [loop, if_neg hrun]
  | cons wake wakes => rw [loop, if_neg hrun]

theorem loop_dispatches (hrun : engine.status = .run) (hseparate : Separate engine.gateways)
    (hregistered : Registered engine.factory engine.gateways)
    (hreports : ∀ wake ∈ wakes, Reports engine.gateways wake) :
    Dispatches engine.factory engine.gateways wakes (loop engine wakes).1 (loop engine wakes).2 := by
  induction wakes generalizing engine with
  | nil =>
    rw [loop, if_pos hrun]
    exact .waiting
  | cons wake wakes ih =>
    obtain ⟨hwake, hreports⟩ := List.forall_mem_cons.mp hreports
    rcases hwake with hready | ⟨gateway, hgateway, hready⟩
    · obtain ⟨monitor, hloop⟩ := loop_timeout hrun hready wakes
      rw [hloop]
      exact .timeout hready
        (@ih { engine with monitor := monitor } hrun hseparate hregistered hreports)
    · obtain ⟨i, hi⟩ := List.mem_iff_getElem?.mp hgateway
      obtain ⟨monitor, hloop⟩ := loop_ready hrun hready wakes
      rw [hloop, scan_eq hseparate hi, serve, Nat.zero_add]
      cases hanswer : (gateway.read wake.world).1 with
      | mk ret stops =>
        cases ret with
        | error e => exact .threw hi hready (by rw [hanswer])
        | ok pair =>
          obtain ⟨key, args⟩ := pair
          obtain ⟨func, hfunc⟩ := hregistered gateway hgateway wake.world key args
            (by rw [hanswer])
          have hcreate : Factory.create engine.factory key args = .ok (func args) := by
            rw [Factory.create, hfunc]
          simp only [hcreate]
          cases stops with
          | true =>
            rw [if_pos rfl, loop_stopped rfl]
            exact .stopped hi hready hanswer hfunc
          | false =>
            rw [if_neg Bool.false_ne_true]
            exact .served hi hready hanswer hfunc
              (@ih { engine with monitor := monitor } hrun hseparate hregistered hreports)

/-- For any gateways with descriptors of their own, any creators for their keys and any reports of
`WaitTimeOut`: `Run` dispatches them. -/
theorem run_dispatches (engine : Engine σ ε κ α τ) (hseparate : Separate engine.gateways)
    (hregistered : Registered engine.factory engine.gateways)
    (hreports : ∀ wake ∈ wakes, Reports engine.gateways wake) :
    Dispatches engine.factory engine.gateways wakes (run engine wakes).1 (run engine wakes).2 := by
  have hrun : ({ engine with status := .run } : Engine σ ε κ α τ).status = .run := rfl
  exact loop_dispatches hrun hseparate hregistered hreports

def slaveTasks : Engine DriverData Unit FactoryKey DriverData SlaveEngine.Task :=
  Engine.init.addTasks
    [(.read, .slaveRead), (.write, .slaveWrite), (.disconnect, .slaveDisconnect)]

def pairEngine : Engine DriverData Unit FactoryKey DriverData SlaveEngine.Task :=
  { slaveTasks with gateways := [driverProxyGateWay 3 receive, driverProxyGateWay 4 receive] }
where
  receive data :=
    (if data.key = .read ∨ data.key = .write ∨ data.key = .disconnect then .ok data else .error (),
      data)

theorem registered_pairEngine : Registered pairEngine.factory pairEngine.gateways := by
  have hreceive : ∀ fd w key args,
      ((driverProxyGateWay fd pairEngine.receive).read w).1.ret = .ok (key, args) →
        key ∈ [FactoryKey.read, .write, .disconnect] := by
    intro fd w key args hret
    by_cases hkey : w.key = .read ∨ w.key = .write ∨ w.key = .disconnect
    · simp only [driverProxyGateWay, pairEngine.receive, if_pos hkey] at hret
      cases hret
      simpa using hkey
    · simp only [driverProxyGateWay, pairEngine.receive, if_neg hkey] at hret
      cases hret
  refine registered_addTasks _ fun gateway hgateway w key args hret => ?_
  rcases List.mem_pair.mp hgateway with rfl | rfl
  · exact hreceive 3 w key args hret
  · exact hreceive 4 w key args hret

theorem separate_pairEngine : Separate pairEngine.gateways where
  unchanging := by
    intro gateway hgateway _ _
    rcases List.mem_pair.mp hgateway with rfl | rfl
    · rfl
    · rfl
  distinct := by
    have hne : (3 : Int32) ≠ 4 := by decide
    exact List.pairwise_pair.mpr fun _ => hne

def emptyRequest (key : FactoryKey) : DriverData := ⟨0, 0, .replicate handleSize 0, 0, key, 0, []⟩

def pairWakes : List (Wake DriverData) :=
  [⟨.ok [4], emptyRequest .read⟩, ⟨.ok [], emptyRequest .read⟩,
    ⟨.ok [3], emptyRequest .disconnect⟩, ⟨.ok [4], emptyRequest .read⟩]

theorem run_dispatches_pair : Dispatches pairEngine.factory pairEngine.gateways pairWakes
    [.waited 1, .read 1 (.ok (.read, emptyRequest .read)),
      .added (.slaveRead (emptyRequest .read)), .waited 0, .waited 1,
      .read 0 (.ok (.disconnect, emptyRequest .disconnect)),
      .added (.slaveDisconnect (emptyRequest .disconnect))] .stopped := by
  have hreports : ∀ wake ∈ pairWakes, Reports pairEngine.gateways wake := by
    have hfour : Reports pairEngine.gateways ⟨.ok [4], emptyRequest .read⟩ :=
      .inr ⟨_, List.mem_pair.mpr (.inr rfl), rfl⟩
    have hthree : Reports pairEngine.gateways ⟨.ok [3], emptyRequest .disconnect⟩ :=
      .inr ⟨_, List.mem_pair.mpr (.inl rfl), rfl⟩
    simp only [pairWakes, List.forall_mem_cons]
    exact ⟨hfour, .inl rfl, hthree, hfour, List.forall_mem_nil _⟩
  exact run_dispatches pairEngine separate_pairEngine registered_pairEngine hreports

theorem filter_zipIdx {l : List Int} (h : l.Nodup) (hi : l[i]? = some x) (k : Nat) :
    (l.zipIdx k).filter (fun y => y.1 = x) = [(x, k + i)] := by
  induction l generalizing i k with
  | nil => cases hi
  | cons a l ih =>
    obtain ⟨ha, hl⟩ := List.nodup_cons.mp h
    cases i with
    | zero =>
      cases hi
      have hnone : (l.zipIdx (k + 1)).filter (fun y => y.1 = x) = [] := by
        rw [List.filter_eq_nil_iff]
        intro y hy hx
        have hmem := List.fst_mem_of_mem_zipIdx hy
        rw [of_decide_eq_true hx] at hmem
        exact ha hmem
      rw [List.zipIdx_cons, List.filter_cons_of_pos (by simp), hnone]
      rfl
    | succ i =>
      have hne : a ≠ x := by
        rintro rfl
        exact ha (List.mem_of_getElem? hi)
      rw [List.zipIdx_cons, List.filter_cons_of_neg (by simpa using hne), ih hl hi,
        Nat.add_right_comm, Nat.add_assoc]

omit [BEq κ] [Hashable κ] in
theorem Separate.nodup_fds (h : Separate gateways) (world : σ) : (fds gateways world).Nodup := by
  rw [fds, List.Nodup, List.pairwise_map]
  exact h.distinct.imp fun hne heq => hne world (Int32.toInt_inj.mp heq)

omit [BEq κ] [Hashable κ] in
theorem reads_eq (h : Separate gateways) (hi : gateways[i]? = some gateway) (world : σ)
    (w : RequestEngine.Wake τ) (hw : w.fd = (gateway.getFd world).toInt) :
    RequestEngine.reads (fds gateways world) w = [w.read i] := by
  have hfd : (fds gateways world)[i]? = some w.fd := by
    rw [fds, List.getElem?_map, hi, hw]
    rfl
  rw [RequestEngine.reads, filter_zipIdx (h.nodup_fds world) hfd, List.map_singleton, Nat.zero_add]

omit [BEq κ] [Hashable κ] in
theorem run_ready (h : Separate gateways) (hi : gateways[i]? = some gateway) (world : σ)
    (w : RequestEngine.Wake τ) (hw : w.fd = (gateway.getFd world).toInt)
    (ws : List (Option (RequestEngine.Wake τ))) :
    RequestEngine.run (fds gateways world) (some w :: ws) =
      if (w.read i).stop then ([(w.read i).task], .stop)
      else ((w.read i).task :: (RequestEngine.run (fds gateways world) ws).1,
        (RequestEngine.run (fds gateways world) ws).2) := by
  simp only [RequestEngine.run, reads_eq h hi world w hw, List.any_cons, List.any_nil, Bool.or_false]
  rfl

theorem Describes.read (h : Describes factory gateways wake v) (hseparate : Separate gateways)
    (hi : gateways[i]? = some gateway) (hready : wake.ready = .ok [gateway.getFd wake.world])
    (world : σ) : ∃ w key args func, v = some w ∧ w.fd = (gateway.getFd world).toInt ∧
      (gateway.read wake.world).1 = ⟨.ok (key, args), (w.read i).stop⟩ ∧
      UnorderedMap.find key factory.nodes = some func ∧ (w.read i).task = func args := by
  cases h with
  | timeout hready' => cases hready.symm.trans hready'
  | ready hready' hw hreads =>
    rename_i w
    cases hready.symm.trans hready'
    obtain ⟨key, args, func, hread⟩ := hreads i gateway hi rfl
    refine ⟨w, key, args, func, rfl, ?_, hread⟩
    rw [hw, hseparate.unchanging gateway (List.mem_of_getElem? hi) wake.world world]

theorem Describes.serves (h : Describes factory gateways wake v) (hseparate : Separate gateways)
    (hi : gateways[i]? = some gateway) (hready : wake.ready = .ok [gateway.getFd wake.world])
    (world : σ) (hread : (gateway.read wake.world).1 = ⟨.ok (key, args), stops⟩)
    (hfunc : UnorderedMap.find key factory.nodes = some func) :
    ∃ w, v = some w ∧ w.fd = (gateway.getFd world).toInt ∧ (w.read i).stop = stops ∧
      (w.read i).task = func args := by
  obtain ⟨w, _, _, _, hv, hw, hread', hfunc', htask⟩ := h.read hseparate hi hready world
  injection hread.symm.trans hread' with hret hstop
  cases hret
  cases hfunc.symm.trans hfunc'
  exact ⟨w, hv, hw, hstop.symm, htask⟩

/-- Both models hand the same tasks to the pool. -/
theorem Dispatches.run_eq (h : Dispatches factory gateways wakes actions ended)
    (hseparate : Separate gateways) (hwakes : List.Forall₂ (Describes factory gateways) wakes ws)
    (world : σ) : RequestEngine.run (fds gateways world) ws = (tasks actions, ended.status) := by
  induction h generalizing ws with
  | waiting =>
    cases hwakes
    rfl
  | timeout hready _ ih =>
    cases hwakes with
    | cons hwake hwakes =>
      cases hwake with
      | timeout =>
        rw [RequestEngine.run, ih hwakes]
        rfl
      | ready hready' => cases hready.symm.trans hready'
  | served hi hready hread hfunc _ ih =>
    cases hwakes with
    | cons hwake hwakes =>
      obtain ⟨w, rfl, hw, hstop, htask⟩ := hwake.serves hseparate hi hready world hread hfunc
      rw [run_ready hseparate hi world w hw, hstop, if_neg Bool.false_ne_true, htask, ih hwakes]
      rfl
  | stopped hi hready hread hfunc =>
    cases hwakes with
    | cons hwake hwakes =>
      obtain ⟨w, rfl, hw, hstop, htask⟩ := hwake.serves hseparate hi hready world hread hfunc
      rw [run_ready hseparate hi world w hw, hstop, if_pos rfl, htask]
      rfl
  | threw hi hready hret =>
    cases hwakes with
    | cons hwake hwakes =>
      obtain ⟨w, _, _, _, -, -, hread', -⟩ := hwake.read hseparate hi hready world
      rw [hread'] at hret
      cases hret

/-- The gateway of a slave, that looks at the datagram that comes. `Unit` stands for a
`ReceiveRequest` that reads outside its buffer. -/
def slaveGateWay (reqFd : Int32) : GateWay (Fresh × Bytes) Unit FactoryKey DriverData :=
  driverProxyGateWay reqFd fun d =>
    (match SlaveDriverProxy.receiveRequest d.1 d.2 with
      | none => .error ()
      | some data => .ok data, d)

def slaveEngine (factory : SlaveEngine.TaskFactory) (reqFd : Int32) :
    Engine (Fresh × Bytes) Unit FactoryKey DriverData SlaveEngine.Task where
  status := .init
  monitor := .init
  factory := factory
  gateways := [slaveGateWay reqFd]

def slaveWakes (reqFd : Int32) (datagrams : List (Fresh × Bytes)) : List (Wake (Fresh × Bytes)) :=
  datagrams.map fun d => ⟨.ok [reqFd], d⟩

theorem separate_slaveGateWay (reqFd : Int32) : Separate [slaveGateWay reqFd] where
  unchanging := by
    intro gateway hgateway _ _
    rw [List.mem_singleton.mp hgateway]
    rfl
  distinct := List.pairwise_singleton _ _

theorem read_slaveGateWay (reqFd : Int32) (d : Fresh × Bytes) :
    ((slaveGateWay reqFd).read d).1 =
      match SlaveDriverProxy.receiveRequest d.1 d.2 with
      | none => ⟨.error (), false⟩
      | some data => ⟨.ok (data.key, data), data.key = .disconnect⟩ := by
  simp only [slaveGateWay, driverProxyGateWay]
  cases SlaveDriverProxy.receiveRequest d.1 d.2 with
  | none => rfl
  | some data => rfl

theorem loop_slaveWakes
    {engine : Engine (Fresh × Bytes) Unit FactoryKey DriverData SlaveEngine.Task}
    (hrun : engine.status = .run) (hgateways : engine.gateways = [slaveGateWay reqFd])
    (datagrams : List (Fresh × Bytes)) :
    tasks (loop engine (slaveWakes reqFd datagrams)).1 =
      (SlaveEngine.run engine.factory datagrams).2 := by
  induction datagrams generalizing engine with
  | nil => rfl
  | cons d datagrams ih =>
    have hseparate : Separate engine.gateways := hgateways ▸ separate_slaveGateWay reqFd
    have hi : engine.gateways[0]? = some (slaveGateWay reqFd) := by
      rw [hgateways]
      rfl
    have hscan : scan engine.factory reqFd 0 engine.status d engine.gateways =
        serve engine.factory 0 engine.status ((slaveGateWay reqFd).read d).1 :=
      scan_eq hseparate hi 0 engine.status d
    have hready : (⟨.ok [reqFd], d⟩ : Wake (Fresh × Bytes)).ready = .ok [reqFd] := rfl
    obtain ⟨monitor, hloop⟩ := loop_ready hrun hready (slaveWakes reqFd datagrams)
    rw [slaveWakes, List.map_cons, ← slaveWakes, hloop, hscan, read_slaveGateWay, serve,
      SlaveEngine.run]
    cases SlaveDriverProxy.receiveRequest d.1 d.2 with
    | none => rfl
    | some data =>
      cases hcreate : Factory.create engine.factory data.key data with
      | error e =>
        simp only [hcreate]
        rfl
      | ok task =>
        simp only [hcreate]
        by_cases hstop : data.key = .disconnect
        · rw [if_pos (decide_eq_true hstop), if_pos hstop, loop_stopped rfl]
          rfl
        · rw [if_neg (by simpa using hstop), if_neg hstop]
          have hlater := @ih { engine with monitor := monitor } hrun hgateways
          exact congrArg (task :: ·) hlater

theorem tasks_slaveEngine (factory : SlaveEngine.TaskFactory) (reqFd : Int32)
    (datagrams : List (Fresh × Bytes)) :
    tasks (run (slaveEngine factory reqFd) (slaveWakes reqFd datagrams)).1 =
      (SlaveEngine.run factory datagrams).2 := by
  have hrun : ({ slaveEngine factory reqFd with status := .run } :
      Engine (Fresh × Bytes) Unit FactoryKey DriverData SlaveEngine.Task).status = .run := rfl
  exact loop_slaveWakes hrun rfl datagrams

end EventLoop

end GreenCloud
