import GreenCloud.Copies
import GreenCloud.System

/-! The master and the slave with everything between the NBD socket and the mapping: all kinds of
requests but `DISC`, and the copies of the slave's workers byte by byte. -/

namespace GreenCloud.Cluster

open CLib Transition
open GreenCloud.System (Main Worker)

/-- What `ReceiveRequest` can return. -/
def Accepted (data : DriverData) : Prop :=
  ∃ fresh request stream rest,
    NBDDriverProxy.receiveRequest fresh request stream = .ok (data, rest)

/-- The task of the master for a request. `NBDRead` and `NBDWrite` run the storage; `NBDFlush`,
`NBDTrim` and `NBDBadRequest` send the reply themselves. -/
def createTask (data : DriverData) : Task :=
  if data.key = .read ∨ data.key = .write then .storage data else .replay data

/-- The task of the slave for a request, where the factory has one that runs the storage. -/
def createSlaveTask (data : DriverData) : Option SlaveTask :=
  if data.key = .read then some (.read data)
  else if data.key = .write then some (.write data)
  else none

/-- A worker of the slave with a task, with the bytes that are left to copy and the buffer, and with
what the storage returned. -/
inductive SlaveWorker
  | popped (data : DriverData)
  | copying (task : SlaveTask) (left : Finset Nat) (buff : Bytes)
  | executed (data : DriverData)

structure State where
  main : Main
  queue : Multiset Task
  workers : Multiset Worker
  table : PendingTable
  requests : Multiset Bytes
  slaveMain : Option DriverData
  slaveQueue : Multiset DriverData
  slaveWorkers : Multiset SlaveWorker
  storage : MmapStorage
  replies : Multiset Bytes

def init (storage : MmapStorage) : State where
  main := .waiting
  queue := 0
  workers := 0
  table := .empty
  requests := 0
  slaveMain := none
  slaveQueue := 0
  slaveWorkers := 0
  storage := storage
  replies := 0

/-- One step of a thread, or of the network. The master has `n` workers and the slave `m`. -/
inductive Step (n m : Nat) : State → Event → State → Prop
  | receiveRequest : s.main = .waiting → Accepted data → data.key ≠ .disconnect →
    Step n m s (.received data) { s with main := .adding (createTask data) }
  | recvfrom : s.main = .waiting → s.replies = datagram ::ₘ replies →
    Step n m s .silent
      { s with main := .parsing (SlaveGateway.recvBuffer datagram), replies := replies }
  | createDataFromBuff : s.main = .parsing buf →
    SlaveGateway.createDataFromBuff fresh s.table buf = .ok (data, table) →
    Step n m s .silent { s with main := .adding (.replay data), table := table }
  | exit : s.main = .parsing buf →
    SlaveGateway.createDataFromBuff fresh s.table buf = .error (.exit status) →
    Step n m s .exited { s with main := .exited }
  | addTask : s.main = .adding task →
    Step n m s .silent { s with main := .waiting, queue := task ::ₘ s.queue }
  | pop : s.queue = task ::ₘ queue → s.workers.card < n →
    Step n m s .silent { s with queue := queue, workers := .popped task ::ₘ s.workers }
  | handlerToId : s.workers = .popped (.storage data) ::ₘ workers →
    (∀ n ∈ s.table.list, n.addr ≠ addr) → s.table.handlerToId addr data.handler = (rid, table) →
    Step n m s (.registered rid)
      { s with workers := .registered data rid ::ₘ workers, table := table }
  | sendto : s.workers = .registered data rid ::ₘ workers →
    CloudStorage.requestDatagram data rid = some datagram →
    Step n m s .silent { s with workers := workers, requests := datagram ::ₘ s.requests }
  | replay : s.workers = .popped (.replay data) ::ₘ workers →
    NBDDriverProxy.sendReply data = some bytes →
    Step n m s (.answered data bytes) { s with workers := workers }
  | loseRequest : s.requests = datagram ::ₘ requests →
    Step n m s .silent { s with requests := requests }
  | loseReply : s.replies = datagram ::ₘ replies →
    Step n m s .silent { s with replies := replies }
  | slaveReceiveRequest : s.slaveMain = none → s.requests = datagram ::ₘ requests →
    SlaveDriverProxy.receiveRequest fresh datagram = some data →
    Step n m s .silent { s with slaveMain := some data, requests := requests }
  | slaveAddTask : s.slaveMain = some data →
    Step n m s .silent { s with slaveMain := none, slaveQueue := data ::ₘ s.slaveQueue }
  | slavePop : s.slaveQueue = data ::ₘ queue → s.slaveWorkers.card < m →
    Step n m s .silent
      { s with slaveQueue := queue, slaveWorkers := .popped data ::ₘ s.slaveWorkers }
  | slaveExecute : s.slaveWorkers = .popped data ::ₘ workers → createSlaveTask data = some task →
    Step n m s .silent
      { s with slaveWorkers := .copying task (.range data.len.toNat) (task.buffer fresh) ::ₘ workers }
  | slaveCopy : s.slaveWorkers = .copying task left buff ::ₘ workers → i ∈ left →
    task.copyByte i s.storage buff = some (storage, buff') →
    Step n m s .silent
      { s with slaveWorkers := .copying task (left.erase i) buff' ::ₘ workers, storage := storage }
  | slaveReturn : s.slaveWorkers = .copying task ∅ buff ::ₘ workers →
    Step n m s .silent
      { s with slaveWorkers := .executed { task.data with buff := buff } ::ₘ workers }
  | slaveSendReply : s.slaveWorkers = .executed data ::ₘ workers →
    SlaveDriverProxy.sendReply data after = some datagram →
    Step n m s .silent { s with slaveWorkers := workers, replies := datagram ::ₘ s.replies }

def cluster (n m : Nat) (storage : MmapStorage) : Transition State Event where
  init s := s = init storage
  step := Step n m

theorem createSlaveTask_data (h : createSlaveTask data = some task) : task.data = data := by
  unfold createSlaveTask at h
  split at h
  · cases h
    rfl
  · split at h
    · cases h
      rfl
    · cases h

theorem Accepted.status (h : Accepted data) : data.status = 0 := by
  obtain ⟨fresh, request, stream, rest, hr⟩ := h
  unfold NBDDriverProxy.receiveRequest at hr
  split at hr
  · cases hr
  · dsimp only at hr
    split at hr
    case h_2 =>
      split at hr
      · cases hr
      · cases hr
        rfl
    all_goals
      cases hr
      rfl

theorem Accepted.length_buff (h : Accepted data) (hkey : data.key = .write) :
    data.buff.length = data.len.toNat :=
  NBDDriverProxy.Admitted.length_buff ⟨.inr hkey, h⟩ hkey

end GreenCloud.Cluster
