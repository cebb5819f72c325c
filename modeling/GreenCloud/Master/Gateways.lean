import GreenCloud.EventLoop
import GreenCloud.NBDDriverProxy

/-! What the master reads from and what it makes of it: the gateways of `RunGreenCloude`, and the tasks
of `AddTasksToReqEngine`. -/

namespace GreenCloud.Master

open CLib EventLoop

/-- `TaskInfo`, whose driver and storage are those of the program. -/
structure TaskInfo where
  data : Option DriverData
  deriving DecidableEq

/-- What the calls of a `Read` find: the uninitialized `input` and what `read` puts into it, the
request on the NBD socket with what follows it, and a datagram of a slave. `none` is a call that
fails. -/
structure World where
  input : Nat → UInt8
  stdin : Option Bytes
  fresh : Fresh
  request : Option NBDDriverProxy.NbdRequest
  stream : Bytes
  table : PendingTable
  datagram : Option Bytes

/-- What a `Read` throws, or how it ends the program. -/
inductive ReadError
  | stdin
  | request
  | receive (e : NBDDriverProxy.ReceiveError)
  | slave (halt : Halt)

abbrev Args := Option TaskInfo

namespace StdinGateWay

/-- `BUFF_SIZE` -/
abbrev buffSize : Nat := 100

/-- `char input[BUFF_SIZE]` behind `read`. -/
def input (world : World) (bytes : Bytes) : Bytes :=
  bytes.take buffSize ++ uninit world.input (buffSize - bytes.length)

def read (world : World) : Answer ReadError FactoryKey Args :=
  match world.stdin with
  | none => ⟨.error .stdin, false⟩
  | some bytes =>
    if (input world bytes)[0]? = some 113 then ⟨.ok (.qExit, some ⟨none⟩), true⟩
    else ⟨.ok (.ignore, none), false⟩

end StdinGateWay

def receive (world : World) : Except ReadError DriverData :=
  match world.request with
  | none => .error .request
  | some request =>
    match NBDDriverProxy.receiveRequest world.fresh request world.stream with
    | .error e => .error (.receive e)
    | .ok (data, _) => .ok data

/-- `STDIN_FILENO` is 0. -/
def stdinGateWay : GateWay World ReadError FactoryKey Args where
  getFd _ := 0
  read world := (StdinGateWay.read world, world)

def nbdGateWay (fd : Int32) : GateWay World ReadError FactoryKey Args where
  getFd := (driverProxyGateWay fd fun world => (receive world, world)).getFd
  read world :=
    let (answer, world) := (driverProxyGateWay fd fun world => (receive world, world)).read world
    (⟨answer.ret.map fun (key, data) => (key, some ⟨some data⟩), answer.stops⟩, world)

def slaveGateWay (fd : Int32) : GateWay World ReadError FactoryKey Args where
  getFd _ := fd
  read world :=
    match SlaveGateway.read world.fresh world.table world.datagram with
    | .error halt => (⟨.error (.slave halt), false⟩, world)
    | .ok (key, data, table) => (⟨.ok (key, some ⟨some data⟩), false⟩, { world with table := table })

/-- The gateways of `RunGreenCloude`, where `fds` is what `GetAllFds` returns. -/
def gateways (reqFd : Int32) (fds : List Int32) : List (GateWay World ReadError FactoryKey Args) :=
  stdinGateWay :: nbdGateWay reqFd :: fds.map slaveGateWay

/-- The tasks of `stdin_tasks.hpp` and `nbd_tasks.hpp`. -/
inductive Task
  | stdinExit (info : Args)
  | stdinIgnore (info : Args)
  | nbdRead (info : Args)
  | nbdWrite (info : Args)
  | nbdDisconnect (info : Args)
  | nbdFlush (info : Args)
  | nbdTrim (info : Args)
  | nbdBadRequest (info : Args)
  | nbdReplay (info : Args)
  deriving DecidableEq

/-- What `Execute` does: nothing, `Disconnect` of the driver with that of the storage before it or
not, `Read` or `Write` of the storage, or `SendReply` of the driver. -/
inductive Execution
  | nothing
  | disconnect (tells : Bool)
  | storage (data : DriverData)
  | sendReply (data : DriverData)
  deriving DecidableEq

/-- `none` is an access through a pointer that is null. -/
def Task.execute : Task → Option Execution
  | stdinExit info => info.map fun _ => .disconnect false
  | stdinIgnore _ => some .nothing
  | nbdRead info | nbdWrite info => do return .storage (← (← info).data)
  | nbdDisconnect info => info.map fun _ => .disconnect true
  | nbdFlush info | nbdTrim info | nbdBadRequest info | nbdReplay info => do
    return .sendReply (← (← info).data)

/-- `AddTasksToReqEngine` -/
def creators : List (FactoryKey × (Args → Task)) :=
  [(.qExit, .stdinExit), (.ignore, .stdinIgnore), (.read, .nbdRead), (.write, .nbdWrite),
    (.disconnect, .nbdDisconnect), (.flush, .nbdFlush), (.trim, .nbdTrim),
    (.badRequest, .nbdBadRequest), (.replay, .nbdReplay)]

def factory : UnorderedMap FactoryKey (Args → Task) :=
  (Engine.init.addTasks creators : Engine World ReadError FactoryKey Args Task).factory

def Execution.disconnects : Execution → Bool
  | disconnect _ => true
  | _ => false

variable {reqFd : Int32} {fds : List Int32} {gateway : GateWay World ReadError FactoryKey Args}

theorem create_creators (h : (key, func) ∈ creators) (args : Args) :
    Factory.create factory key args = .ok (func args) := by
  simp only [creators, List.mem_cons, List.not_mem_nil, or_false, Prod.mk.injEq] at h
  rcases h with ⟨rfl, rfl⟩ | ⟨rfl, rfl⟩ | ⟨rfl, rfl⟩ | ⟨rfl, rfl⟩ | ⟨rfl, rfl⟩ | ⟨rfl, rfl⟩ |
    ⟨rfl, rfl⟩ | ⟨rfl, rfl⟩ | ⟨rfl, rfl⟩ <;> rfl

theorem exists_of_create (h : Factory.create factory key args = .ok task) :
    ∃ func, UnorderedMap.find key factory.nodes = some func ∧ func args = task := by
  unfold Factory.create at h
  split at h
  · cases h
  · rename_i hfunc
    cases h
    exact ⟨_, hfunc, rfl⟩

theorem receiveRequest_key
    (h : NBDDriverProxy.receiveRequest fresh request stream = .ok (data, rest)) :
    data.key ∈ [FactoryKey.read, .write, .disconnect, .flush, .trim, .badRequest] := by
  unfold NBDDriverProxy.receiveRequest at h
  split at h
  · cases h
  · dsimp only at h
    split at h
    case h_2 =>
      split at h
      · cases h
      · cases h
        simp
    all_goals
      cases h
      simp

/-- A read has a task, its task has all that it accesses, and `Stop` was called exactly for the task
that disconnects. -/
def Handled (key : FactoryKey) (args : Args) (stops : Bool) : Prop :=
  ∃ task execution, Factory.create factory key args = .ok task ∧
    task.execute = some execution ∧ execution.disconnects = stops

theorem handled_at (i : Nat) {func : Args → Task} (h : creators[i]? = some (key, func))
    (hexecute : (func args).execute = some execution) (hstops : execution.disconnects = stops) :
    Handled key args stops :=
  ⟨func args, execution, create_creators (List.mem_of_getElem? h) args, hexecute, hstops⟩

theorem handled_stdin (h : StdinGateWay.read world = ⟨.ok (key, args), stops⟩) :
    Handled key args stops := by
  unfold StdinGateWay.read at h
  split at h
  · cases h
  · split at h
    · cases h
      exact handled_at 0 rfl rfl rfl
    · cases h
      exact handled_at 1 rfl rfl rfl

theorem handled_request
    (hkey : key ∈ [FactoryKey.read, .write, .disconnect, .flush, .trim, .badRequest])
    (data : DriverData) : Handled key (some ⟨some data⟩) (key = .disconnect) := by
  simp only [List.mem_cons, List.not_mem_nil, or_false] at hkey
  rcases hkey with rfl | rfl | rfl | rfl | rfl | rfl
  · exact handled_at 2 rfl rfl rfl
  · exact handled_at 3 rfl rfl rfl
  · exact handled_at 4 rfl rfl rfl
  · exact handled_at 5 rfl rfl rfl
  · exact handled_at 6 rfl rfl rfl
  · exact handled_at 7 rfl rfl rfl

theorem handled_nbd (h : ((nbdGateWay reqFd).read world).1 = ⟨.ok (key, args), stops⟩) :
    Handled key args stops := by
  simp only [nbdGateWay, driverProxyGateWay] at h
  cases hreceive : receive world with
  | error e =>
    rw [hreceive] at h
    cases h
  | ok data =>
    rw [hreceive] at h
    cases h
    unfold receive at hreceive
    split at hreceive
    · cases hreceive
    · split at hreceive
      · cases hreceive
      · rename_i hreq
        cases hreceive
        exact handled_request (receiveRequest_key hreq) data

theorem handled_slave (h : ((slaveGateWay fd).read world).1 = ⟨.ok (key, args), stops⟩) :
    Handled key args stops := by
  unfold slaveGateWay at h
  dsimp only at h
  split at h
  · cases h
  · rename_i hread
    cases h
    have hkey : key = .replay := by
      unfold SlaveGateway.read at hread
      split at hread
      · cases hread
      · simp only [bind, Except.bind, pure, Except.pure] at hread
        split at hread
        · cases hread
        · cases hread
          rfl
    subst hkey
    exact handled_at 8 rfl rfl rfl

theorem handled_of_read (hgateway : gateway ∈ gateways reqFd fds)
    (h : (gateway.read world).1 = ⟨.ok (key, args), stops⟩) : Handled key args stops := by
  simp only [gateways, List.mem_cons, List.mem_map] at hgateway
  rcases hgateway with rfl | rfl | ⟨fd, -, rfl⟩
  · exact handled_stdin h
  · exact handled_nbd h
  · exact handled_slave h

end GreenCloud.Master
