import GreenCloud.System

/-! What becomes of a reply at the master when its id is not pending, and what goes to the NBD
socket from memory that nobody wrote. -/

namespace GreenCloud.Replay

open CLib

/-- `MAGIC_STR` -/
def magicStr : Bytes := ascii "Yoav's Master - I surrender to you..."

/-- The reply a slave starts with, which no request asked for: `RunSlave`. -/
def hello (fresh : Fresh) : Option DriverData := do
  let buff ← strcpy (fresh.reserve (magicStr.length + 1) []) (magicStr ++ [0])
  return { fresh.driverData with len := 0, reqId := 0, key := .read, buff := buff }

variable {fresh : Fresh} {table : PendingTable}

def helloDatagram : Bytes := SlaveDriverProxy.replyHeader 0 0 .read ++
  0 :: (magicStr ++ zeros (buffSize - (6 + magicStr.length)))

theorem cstr_magicStr (after : Bytes) : cstr (magicStr ++ [0] ++ after) = some magicStr := by
  rw [List.append_assoc]
  exact cstr_append (by decide) after

theorem hello_eq (fresh : Fresh) : hello fresh = some { fresh.driverData with
    len := 0, reqId := 0, key := .read, buff := magicStr ++ [0] } := by
  have hcstr : cstr (magicStr ++ [0]) = some magicStr := cstr_magicStr []
  simp [hello, strcpy_eq hcstr]

theorem sendReply_hello (h : hello fresh = some data) (after : Bytes) :
    SlaveDriverProxy.sendReply data after = some helloDatagram := by
  rw [hello_eq, Option.some.injEq] at h
  subst h
  have hheader : (SlaveDriverProxy.replyHeader 0 0 .read).length = 6 := by decide
  have hroom : 6 + magicStr.length ≤ buffSize := by decide
  simp only [SlaveDriverProxy.sendReply_eq, SlaveDriverProxy.message, ↓reduceIte, cstr_magicStr,
    Option.bind_some, hheader, hroom]
  rfl

theorem exists_hello (fresh : Fresh) : ∃ data datagram, hello fresh = some data ∧
    SlaveDriverProxy.sendReply data [] = some datagram ∧ Wire.IsReply datagram 0 0 .read := by
  have hsend := sendReply_hello (hello_eq fresh) []
  exact ⟨_, _, hello_eq fresh, hsend, Wire.isReply_of_sendReply hsend⟩

theorem createDataFromBuff_unknown (fresh : Fresh) (hreply : Wire.IsReply datagram len rid key)
    (h : ∀ m ∈ table.list, m.first ≠ rid) :
    SlaveGateway.createDataFromBuff fresh table (SlaveGateway.recvBuffer datagram) =
      .error (.exit 1) := by
  obtain ⟨hlen, q, rfl⟩ := hreply
  have hparse := Wire.parseReply_replyHeader len rid key (0 :: q.dropLast)
  rw [← Wire.master_recvBuffer_reply len rid hlen] at hparse
  exact SlaveGateway.createDataFromBuff_exit hparse (PendingTable.idToHandler_of_notMem h)

theorem read_unknown (hreply : Wire.IsReply datagram len rid key)
    (h : ∀ m ∈ table.list, m.first ≠ rid) :
    SlaveGateway.read fresh table (some datagram) = .error (.exit 1) := by
  rw [SlaveGateway.read, createDataFromBuff_unknown _ hreply h]
  rfl

theorem step_unknown {s t : System.State} (hreply : Wire.IsReply datagram len rid key)
    (h : ∀ m ∈ s.table.list, m.first ≠ rid)
    (hmain : s.main = .parsing (SlaveGateway.recvBuffer datagram)) (hstep : System.Step n m s e t) :
    t.main = s.main ∨ (e = .exited ∧ t = { s with main := .exited }) := by
  cases hstep with
  | receiveRequest hwaiting | recvfrom hwaiting =>
    rw [hmain] at hwaiting
    cases hwaiting
  | addTask hadding =>
    rw [hmain] at hadding
    cases hadding
  | createDataFromBuff hparsing hcreated =>
    rw [hmain] at hparsing
    cases hparsing
    rw [createDataFromBuff_unknown _ hreply h] at hcreated
    cases hcreated
  | exit => exact .inr ⟨rfl, rfl⟩
  | _ => exact .inl rfl

/-- A reply whose id is not pending leaves the list alone and comes to no task, so to nothing on
the NBD socket: the master exits over it, and its main thread has no other step. -/
theorem unknown_reply (hreply : Wire.IsReply datagram len rid key)
    (h : ∀ m ∈ table.list, m.first ≠ rid) :
    table.idToHandler rid = none ∧ table.afterLookup rid = table ∧
    (∀ fresh, SlaveGateway.read fresh table (some datagram) = .error (.exit 1)) ∧
    ∀ n m (s : System.State), s.table = table →
      s.main = .parsing (SlaveGateway.recvBuffer datagram) →
      System.Step n m s .exited { s with main := .exited } ∧
      ∀ e t, System.Step n m s e t → t.main = s.main ∨ (e = .exited ∧ t = { s with main := .exited }) := by
  have hnone := PendingTable.idToHandler_of_notMem h
  refine ⟨hnone, by simp [PendingTable.afterLookup, hnone], fun fresh => read_unknown hreply h, ?_⟩
  rintro n m s rfl hmain
  let fresh : Fresh := ⟨⟨0, 0, .replicate 8 0, 0, .read, 0, []⟩, fun _ => 0⟩
  exact ⟨.exit hmain (createDataFromBuff_unknown fresh hreply h),
    fun e t hstep => step_unknown hreply h hmain hstep⟩

/-- The message of a slave that starts again while the request 5 is pending. -/
theorem unknown_reply_hello : ∃ datagram, Wire.IsReply datagram 0 0 .read ∧
    ∀ fresh, SlaveGateway.read fresh ⟨[⟨0, 5, .replicate 8 0⟩], 5⟩ (some datagram) =
      .error (.exit 1) := by
  obtain ⟨_, datagram, -, -, hreply⟩ := exists_hello ⟨⟨0, 0, .replicate 8 0, 0, .read, 0, []⟩, fun _ => 0⟩
  exact ⟨datagram, hreply, (unknown_reply hreply (by decide)).2.2.1⟩

/-- With no request pending the message of a slave makes the search read through `end()`, and
the master exits. -/
theorem hello_reads_end : ∃ data datagram,
    hello ⟨⟨0, 0, .replicate 8 0, 0, .read, 0, []⟩, fun _ => 0⟩ = some data ∧
    SlaveDriverProxy.sendReply data [] = some datagram ∧
    (PendingTable.search 0 PendingTable.empty.list).readEnd = true ∧
    ∀ fresh, SlaveGateway.read fresh .empty (some datagram) = .error (.exit 1) := by
  obtain ⟨data, datagram, hdata, hsend, hreply⟩ :=
    exists_hello ⟨⟨0, 0, .replicate 8 0, 0, .read, 0, []⟩, fun _ => 0⟩
  exact ⟨data, datagram, hdata, hsend, rfl, fun fresh =>
    read_unknown hreply (by simp [PendingTable.empty])⟩

def nbdReply (fresh : Fresh) (table : PendingTable) (datagram : Bytes) : Except Halt Bytes := do
  let (data, _) ← SlaveGateway.createDataFromBuff fresh table (SlaveGateway.recvBuffer datagram)
  orFault (NBDDriverProxy.sendReply data)

theorem nbdReply_status (h : nbdReply fresh table datagram = .ok bytes) :
    (bytes.drop 4).take 4 = NBDDriverProxy.intBytes fresh.data.status := by
  unfold nbdReply at h
  cases hcreated : SlaveGateway.createDataFromBuff fresh table (SlaveGateway.recvBuffer datagram) with
  | error e => simp [hcreated] at h
  | ok result =>
    obtain ⟨data, table'⟩ := result
    rw [hcreated, ok_bind] at h
    cases hsend : NBDDriverProxy.sendReply data with
    | none => simp [hsend] at h
    | some sent =>
      simp only [hsend, orFault_some, Except.ok.injEq] at h
      subst h
      rw [NBDDriverProxy.drop_take_sendReply hsend,
        SlaveGateway.createDataFromBuff_status hcreated]

theorem nbdReply_write (hreply : Wire.IsReply datagram len rid .write)
    (hid : table.idToHandler rid = some (handler, table')) :
    nbdReply fresh table datagram =
      .ok (NBDDriverProxy.initReply fresh.data.status handler) := by
  obtain ⟨hlen, q, rfl⟩ := hreply
  rw [nbdReply, Wire.createDataFromBuff_reply_write len rid hid hlen, ok_bind]
  rfl

theorem bytes_ne_of_status_ne (h : nbdReply fresh table datagram = .ok bytes)
    (h' : nbdReply fresh' table datagram = .ok bytes')
    (hstatus : fresh.data.status ≠ fresh'.data.status) : bytes ≠ bytes' := by
  rintro rfl
  exact hstatus (NBDDriverProxy.intBytes_injective
    ((nbdReply_status h).symm.trans (nbdReply_status h')))

/-- For no pending list and no datagram are the bytes on the NBD socket independent of what the
new `DriverData` held: its `m_status` is never assigned and goes out as the error, so two of them
with different ones put different bytes there. -/
theorem nbdReply_depends (table : PendingTable) (datagram : Bytes) :
    (¬ ∃ bytes, ∀ fresh, nbdReply fresh table datagram = .ok bytes) ∧
    ∀ fresh fresh' bytes bytes', nbdReply fresh table datagram = .ok bytes →
      nbdReply fresh' table datagram = .ok bytes' → fresh.data.status ≠ fresh'.data.status →
      bytes ≠ bytes' := by
  constructor
  · rintro ⟨bytes, h⟩
    exact bytes_ne_of_status_ne (h ⟨⟨0, 0, .replicate 8 0, 0, .read, 0, []⟩, fun _ => 0⟩)
      (h ⟨⟨0, 0, .replicate 8 0, 0, .read, 1, []⟩, fun _ => 0⟩) (by decide) rfl
  · intro fresh fresh' bytes bytes' h h' hstatus
    exact bytes_ne_of_status_ne h h' hstatus

/-- A `WRITE` the slave carried out: the error is 0 or 5, as the memory of the new `DriverData`
was. -/
theorem nbdReply_write_depends : ∃ datagram,
    SlaveDriverProxy.sendReply ⟨0, 1, .replicate 8 0, 0, .write, 0, []⟩ [] = some datagram ∧
    nbdReply ⟨⟨0, 0, .replicate 8 0, 0, .read, 0, []⟩, fun _ => 0⟩
      ⟨[⟨0, 1, .replicate 8 7⟩], 1⟩ datagram =
        .ok [0x67, 0x44, 0x66, 0x98, 0, 0, 0, 0, 7, 7, 7, 7, 7, 7, 7, 7] ∧
    nbdReply ⟨⟨0, 0, .replicate 8 0, 0, .read, 5, []⟩, fun _ => 0⟩
      ⟨[⟨0, 1, .replicate 8 7⟩], 1⟩ datagram =
        .ok [0x67, 0x44, 0x66, 0x98, 5, 0, 0, 0, 7, 7, 7, 7, 7, 7, 7, 7] := by
  have hsend := SlaveDriverProxy.sendReply_eq ⟨0, 1, .replicate 8 0, 0, .write, 0, []⟩ []
  rw [show SlaveDriverProxy.message ⟨0, 1, .replicate 8 0, 0, .write, 0, []⟩ [] = some [] from rfl,
    Option.bind_some, if_pos (by decide)] at hsend
  have hreply := Wire.isReply_of_sendReply hsend
  have hid : PendingTable.idToHandler ⟨[⟨0, 1, .replicate 8 7⟩], 1⟩ 1 =
    some (.replicate 8 7, ⟨[], 1⟩) := rfl
  refine ⟨_, hsend, ?_, ?_⟩
  all_goals
    rw [nbdReply_write hreply hid]
    rfl

end GreenCloud.Replay
