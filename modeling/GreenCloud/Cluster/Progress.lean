import GreenCloud.Cluster.Simulation
import GreenCloud.Wire.Bounds
import Mathlib.Data.Finset.Basic
import Mathlib.Data.Fintype.EquivFin

/-! The cluster never wedges: once nothing is on its way any more, whatever was lost before, a request
that fits can be served. -/

namespace GreenCloud.Cluster

open CLib Transition

variable {storage : MmapStorage} {es : List Event} {req data : DriverData} {s t : State}
variable {rid : Int32} {task : SlaveTask} {left : Finset Nat} {buff : Bytes} {n m : Nat}

def idle (table : PendingTable) (storage : MmapStorage) : State :=
  { init storage with table := table }

/-- The request is one that the cluster answers: a `READ` or a `WRITE` has at most 4096 bytes, all of
them in the mapping. For a `READ` of none the slave's `m_buff` has no memory, and `AddMessage` would
read from a null pointer. -/
structure Servable (size : Nat) (req : DriverData) : Prop where
  accepted : Accepted req
  connected : req.key ≠ .disconnect
  len : req.key = .read ∨ req.key = .write → req.len.toNat ≤ 4096
  nonempty : req.key = .read → 0 < req.len.toNat
  inside : req.key = .read ∨ req.key = .write → req.offset.toNat + req.len.toNat ≤ size

/-- Steps that the NBD socket does not show, and that issue at most `k` ids. -/
structure Quiet (k : Nat) (es : List Event) : Prop where
  shown : ∀ e ∈ es, shown e = none
  issues : Lifecycle.issues es ≤ k

structure Room (size : Nat) (data : DriverData) (buff : Bytes) : Prop where
  inside : data.offset.toNat + data.len.toNat ≤ size
  room : data.len.toNat ≤ buff.length

theorem issues_append (after before : List Event) :
    Lifecycle.issues (after ++ before) = Lifecycle.issues after + Lifecycle.issues before := by
  induction after with
  | nil => exact (Nat.zero_add _).symm
  | cons e after ih =>
    cases e with
    | registered => rw [List.cons_append, Lifecycle.issues, ih, Lifecycle.issues, Nat.add_right_comm]
    | received | answered | exited | silent => exact ih

theorem Quiet.append (h : Quiet k es) (h' : Quiet l es') : Quiet (k + l) (es ++ es') where
  shown e he := (List.mem_append.mp he).elim (h.shown e) (h'.shown e)
  issues := by
    rw [issues_append]
    exact Nat.add_le_add h.issues h'.issues

theorem quiet_silent (n : Nat) : Quiet 0 (List.replicate n .silent) where
  shown e he := by
    rw [List.eq_of_mem_replicate he]
    rfl
  issues := by
    induction n with
    | zero => exact Nat.le_refl 0
    | succ n ih => exact ih

structure Storable (size : Nat) (data : DriverData) : Prop where
  key : data.key = .read ∨ data.key = .write
  len : data.len.toNat ≤ 4096
  inside : data.offset.toNat + data.len.toNat ≤ size
  read : data.key = .read → data.buff = []
  write : data.key = .write → data.len.toNat ≤ data.buff.length

structure Sendable (data : DriverData) : Prop where
  key : data.key = .read ∨ data.key = .write
  len : data.key = .read → data.len.toNat ≤ 4096
  buff : data.key = .read → data.buff.length ≤ 4096

theorem exists_received (h : Servable size req) (hkey : req.key = .read ∨ req.key = .write)
    (hrid : 0 < rid.toInt) (fresh : Fresh) : ∃ datagram data,
      CloudStorage.requestDatagram req rid = some datagram ∧
      SlaveDriverProxy.receiveRequest fresh datagram = some data ∧ data.reqId = rid ∧
      Storable size data := by
  have hlen := h.len hkey
  have hinside := h.inside hkey
  rcases hkey with hkey | hkey
  · obtain ⟨datagram, p, hprint, hdecoded, -⟩ :=
      Wire.request_roundtrip_header req.offset req.len rid 48
    have hsent : CloudStorage.requestDatagram req rid = some datagram := by
      rw [CloudStorage.requestDatagram, if_pos hkey, CloudStorage.readDatagram, hprint]
    have hdata := Wire.receiveRequest_of_ne_write _ _ _ fresh (by decide) hdecoded.parsed
    refine ⟨datagram, _, hsent, hdata, rfl, .inl rfl, hlen, hinside, fun _ => rfl, fun hwrite => ?_⟩
    cases hwrite
  · have hbuff := h.accepted.length_buff hkey
    have hle := Nat.le_of_eq hbuff.symm
    obtain ⟨datagram, p, hwrite, hnul, hp, -, -, hreceive⟩ :=
      Wire.receiveRequest_writeDatagram hle (Wire.header_fits hlen hrid)
    have hsent : CloudStorage.requestDatagram req rid = some datagram := by
      rw [CloudStorage.requestDatagram, if_neg (by rw [hkey]; decide), hwrite]
    obtain ⟨buff, hcopy, hlength⟩ := Wire.exists_strcpy_recvBuffer hnul hp fresh.block
    have hdata := hreceive fresh
    rw [hcopy, Option.map_some] at hdata
    refine ⟨datagram, _, hsent, hdata, rfl, .inr rfl, hlen, hinside, fun hread => ?_, fun _ => ?_⟩
    · cases hread
    · simp only [hlength, buffSize]
      omega

theorem Storable.exists_task (h : Storable size data) : ∃ task, createSlaveTask data = some task := by
  rcases h.key with hkey | hkey
  · exact ⟨.read data, by rw [createSlaveTask, if_pos hkey]⟩
  · exact ⟨.write data, by rw [createSlaveTask, if_neg (by rw [hkey]; decide), if_pos hkey]⟩

theorem Storable.room (h : Storable size data) (htask : createSlaveTask data = some task)
    (fresh : Fresh) : Room size task.data (task.buffer fresh) ∧
      Sendable { task.data with buff := task.buffer fresh } := by
  rcases createSlaveTask_cases htask with ⟨hkey, rfl⟩ | ⟨hkey, rfl⟩
  · have hlength : (SlaveTask.buffer fresh (.read data)).length = data.len.toNat := by
      rw [SlaveTask.buffer, h.read hkey, Fresh.reserve_nil, length_uninit]
    refine ⟨⟨h.inside, Nat.le_of_eq hlength.symm⟩, h.key, fun _ => h.len, fun _ => ?_⟩
    rw [hlength]
    exact h.len
  · exact ⟨⟨h.inside, h.write hkey⟩, h.key, fun _ => h.len, fun hread => by cases hkey.symm.trans hread⟩

theorem exists_copyByte (h : Room storage.getSize task.data buff) (hi : i < task.data.len.toNat) :
    ∃ storage' buff', task.copyByte i storage buff = some (storage', buff') ∧
      storage'.getSize = storage.getSize ∧ buff'.length = buff.length := by
  have hbuff : i < buff.length := Nat.lt_of_lt_of_le hi h.room
  have hmmap : task.data.offset.toNat + i < storage.mmap.length := by
    have := h.inside
    rw [MmapStorage.getSize] at this
    omega
  cases task with
  | read data =>
    have hmmap : data.offset.toNat + i < storage.mmap.length := hmmap
    refine ⟨storage, buff.set i storage.mmap[data.offset.toNat + i], ?_, rfl, List.length_set⟩
    rw [SlaveTask.copyByte, List.getElem?_eq_getElem hmmap, Option.bind_eq_bind, Option.bind_some,
      if_pos hbuff]
  | write data =>
    have hmmap : data.offset.toNat + i < storage.getSize := hmmap
    refine ⟨⟨storage.mmap.set (data.offset.toNat + i) buff[i]⟩, buff, ?_, List.length_set, rfl⟩
    rw [SlaveTask.copyByte, List.getElem?_eq_getElem hbuff, Option.bind_eq_bind, Option.bind_some,
      if_pos hmmap]

theorem exists_run_copies (h : (cluster n m storage₀).Run es s)
    (hworkers : s.slaveWorkers = .copying task left buff ::ₘ workers)
    (hleft : ∀ i ∈ left, i < task.data.len.toNat)
    (hroom : Room s.storage.getSize task.data buff) :
    ∃ more storage' buff', Quiet 0 more ∧ (cluster n m storage₀).Run (more ++ es)
        { s with slaveWorkers := .copying task ∅ buff' ::ₘ workers, storage := storage' } ∧
      storage'.getSize = s.storage.getSize ∧ buff'.length = buff.length := by
  induction left using Finset.induction_on generalizing es s buff with
  | empty =>
    refine ⟨[], s.storage, buff, quiet_silent 0, ?_, rfl, rfl⟩
    rw [← hworkers]
    exact h
  | insert i left hi ih =>
    obtain ⟨storage', buff', hcopy, hsize, hlen⟩ :=
      exists_copyByte hroom (hleft i (Finset.mem_insert_self ..))
    have hcopied := h.then_ .silent (.slaveCopy hworkers (Finset.mem_insert_self ..) hcopy)
    rw [Finset.erase_insert hi] at hcopied
    obtain ⟨more, storage'', buff'', hquiet, hrun, hsize', hlen'⟩ := ih hcopied rfl
      (fun j hj => hleft j (Finset.mem_insert_of_mem hj))
      ⟨by rw [hsize]; exact hroom.inside, by rw [hlen]; exact hroom.room⟩
    refine ⟨more ++ [.silent], storage'', buff'', hquiet.append (quiet_silent 1), ?_,
      hsize'.trans hsize, hlen'.trans hlen⟩
    rw [List.append_assoc]
    exact hrun

theorem Sendable.exists_sent (h : Sendable data) : ∃ message, 0 ∉ message ∧ message.length ≤ 4096 ∧
    SlaveDriverProxy.sendReply data [0] = some
      (SlaveDriverProxy.replyHeader data.len data.reqId data.key ++ 0 :: (message ++ zeros (buffSize -
        ((SlaveDriverProxy.replyHeader data.len data.reqId data.key).length + message.length)))) := by
  have hheader := SlaveDriverProxy.length_replyHeader_le data.len data.reqId data.key
  have hsend := SlaveDriverProxy.sendReply_eq data [0]
  rcases h.key with hkey | hkey
  · have hbuff := h.buff hkey
    obtain ⟨message, hmessage, hlt⟩ := exists_cstr (p := data.buff ++ [0]) (by simp)
    rw [List.length_append, List.length_singleton] at hlt
    rw [SlaveDriverProxy.message, if_pos hkey, hmessage, Option.bind_some,
      if_pos (by rw [buffSize]; omega)] at hsend
    exact ⟨message, (cstr_eq_some.mp hmessage).1, by omega, hsend⟩
  · rw [SlaveDriverProxy.message, if_neg (by rw [hkey]; decide), Option.bind_some,
      if_pos (by rw [buffSize, List.length_nil]; omega)] at hsend
    exact ⟨[], by simp, by simp, hsend⟩

theorem exists_replay (h : Sendable data) (hsent : SlaveDriverProxy.sendReply data [0] = some datagram)
    (fresh : Fresh) (hid : table.idToHandler data.reqId = some (handler, table')) :
    ∃ replay, SlaveGateway.createDataFromBuff fresh table (SlaveGateway.recvBuffer datagram) =
        .ok (replay, table') ∧ replay.handler = handler ∧
      (NBDDriverProxy.sendReply replay).isSome := by
  obtain ⟨message, hnul, hle, hmessage⟩ := h.exists_sent
  have hheader := SlaveDriverProxy.length_replyHeader_le data.len data.reqId data.key
  have hreply := (Wire.isReply_of_sendReply hsent).1
  cases hmessage.symm.trans hsent
  rcases h.key with hkey | hkey
  · have hlen := h.len hkey
    rw [hkey] at hheader ⊢
    have hroom : data.len.toNat ≤ (message ++
        0 :: (uninit fresh.block (buffSize + 1)).drop (message.length + 1)).length := by
      simp only [List.length_append, List.length_cons, List.length_drop, length_uninit, buffSize]
      omega
    refine ⟨_, (Wire.createDataFromBuff_message data.len data.reqId hid hnul
      (by rw [buffSize]; omega)).trans (if_pos (by rw [buffSize]; omega)), rfl, ?_⟩
    exact (Wire.sendReply_isSome_iff rfl).mpr hroom
  · rw [hkey] at hreply ⊢
    refine ⟨_, Wire.createDataFromBuff_reply_write data.len data.reqId hid hreply, rfl, ?_⟩
    rw [NBDDriverProxy.sendReply_of_ne_read (by simp)]
    rfl

theorem exists_addr (table : PendingTable) : ∃ addr, ∀ n ∈ table.list, n.addr ≠ addr := by
  obtain ⟨addr, haddr⟩ := Infinite.exists_notMem_finset (table.list.map Node.addr).toFinset
  refine ⟨addr, fun n hn heq => haddr ?_⟩
  rw [List.mem_toFinset, ← heq]
  exact List.mem_map_of_mem hn

theorem exists_run_reply (h : (cluster (n + 1) m storage₀).Run es
      ⟨.adding (.replay data), 0, 0, table, 0, none, 0, 0, storage, 0⟩)
    (hbytes : NBDDriverProxy.sendReply data = some bytes) :
    ∃ more, Quiet 0 more ∧ (cluster (n + 1) m storage₀).Run (.answered data bytes :: (more ++ es))
      (idle table storage) := by
  have hqueued : (cluster (n + 1) m storage₀).Run _
      ⟨.waiting, .replay data ::ₘ 0, 0, table, 0, none, 0, 0, storage, 0⟩ := .step h (.addTask rfl)
  have hpopped : (cluster (n + 1) m storage₀).Run _
      ⟨.waiting, 0, .popped (.replay data) ::ₘ 0, table, 0, none, 0, 0, storage, 0⟩ :=
    .step hqueued (.pop rfl (by simp))
  exact ⟨[.silent, .silent], quiet_silent 2, .step hpopped (.replay rfl hbytes)⟩

theorem exists_run_storage (h : (cluster (n + 1) (m + 1) storage₀).Run es
      ⟨.adding (.storage req), 0, 0, table, 0, none, 0, 0, storage, 0⟩)
    (hreq : Servable storage.getSize req) (hkey : req.key = .read ∨ req.key = .write)
    (htable : table.Registers 0) (hlt : table.reqId.toInt < 2 ^ 31 - 1) :
    ∃ more data bytes table' storage', Quiet 1 more ∧ data.handler = req.handler ∧
      (cluster (n + 1) (m + 1) storage₀).Run (.answered data bytes :: (more ++ es))
        (idle table' storage') := by
  let fresh : Fresh := ⟨req, fun _ => 0⟩
  obtain ⟨addr, haddr⟩ := exists_addr table
  let rid := (table.handlerToId addr req.handler).1
  let table₁ := (table.handlerToId addr req.handler).2
  have hissued : table.handlerToId addr req.handler = (rid, table₁) := rfl
  obtain ⟨hregisters, hsucc⟩ := htable.handlerToId hlt haddr hissued
  obtain ⟨table₂, hlookup, -⟩ := hregisters.idToHandler
  have hrid : 0 < rid.toInt := by
    have := htable.wf.nonneg
    have hid : rid.toInt = table.reqId.toInt + 1 := hsucc
    omega
  obtain ⟨request, data, hrequest, hdata, hid, hstorable⟩ := exists_received hreq hkey hrid fresh
  have hqueued : (cluster (n + 1) (m + 1) storage₀).Run _
      ⟨.waiting, .storage req ::ₘ 0, 0, table, 0, none, 0, 0, storage, 0⟩ := .step h (.addTask rfl)
  have hpopped : (cluster (n + 1) (m + 1) storage₀).Run _
      ⟨.waiting, 0, .popped (.storage req) ::ₘ 0, table, 0, none, 0, 0, storage, 0⟩ :=
    .step hqueued (.pop rfl (by simp))
  have hregistered : (cluster (n + 1) (m + 1) storage₀).Run _
      ⟨.waiting, 0, .registered req rid ::ₘ 0, table₁, 0, none, 0, 0, storage, 0⟩ :=
    .step hpopped (.handlerToId rfl haddr hissued)
  have hsent : (cluster (n + 1) (m + 1) storage₀).Run _
      ⟨.waiting, 0, 0, table₁, request ::ₘ 0, none, 0, 0, storage, 0⟩ :=
    .step hregistered (.sendto rfl hrequest)
  have hparsed : (cluster (n + 1) (m + 1) storage₀).Run _
      ⟨.waiting, 0, 0, table₁, 0, some data, 0, 0, storage, 0⟩ :=
    .step hsent (.slaveReceiveRequest rfl rfl hdata)
  have hslaveQueued : (cluster (n + 1) (m + 1) storage₀).Run _
      ⟨.waiting, 0, 0, table₁, 0, none, data ::ₘ 0, 0, storage, 0⟩ :=
    .step hparsed (.slaveAddTask rfl)
  have hslavePopped : (cluster (n + 1) (m + 1) storage₀).Run _
      ⟨.waiting, 0, 0, table₁, 0, none, 0, .popped data ::ₘ 0, storage, 0⟩ :=
    .step hslaveQueued (.slavePop rfl (by simp))
  obtain ⟨task, htask⟩ := hstorable.exists_task
  obtain ⟨hin, hsmall⟩ := hstorable.room htask fresh
  obtain rfl := createSlaveTask_data htask
  let worker := SlaveWorker.copying task (.range task.data.len.toNat) (task.buffer fresh)
  have hcopying : (cluster (n + 1) (m + 1) storage₀).Run _
      ⟨.waiting, 0, 0, table₁, 0, none, 0, worker ::ₘ 0, storage, 0⟩ :=
    .step hslavePopped (.slaveExecute rfl htask)
  obtain ⟨copies, storage', buff, hcopies, hcopied, -, hlength⟩ :=
    exists_run_copies hcopying (Eq.refl (worker ::ₘ 0)) (fun i hi => Finset.mem_range.mp hi) hin
  let executed : DriverData := { task.data with buff := buff }
  have hexecuted : (cluster (n + 1) (m + 1) storage₀).Run _
      ⟨.waiting, 0, 0, table₁, 0, none, 0, .executed executed ::ₘ 0, storage', 0⟩ :=
    .step hcopied (.slaveReturn rfl)
  have hsendable : Sendable executed :=
    ⟨hsmall.key, hsmall.len, fun hread => by rw [hlength]; exact hsmall.buff hread⟩
  rw [← hid] at hlookup
  obtain ⟨message, -, -, hreply⟩ := hsendable.exists_sent
  obtain ⟨replay, hcreated, hhandler, hbytes⟩ := exists_replay hsendable hreply fresh hlookup
  have hreplied : (cluster (n + 1) (m + 1) storage₀).Run _
      ⟨.waiting, 0, 0, table₁, 0, none, 0, 0, storage', _ ::ₘ 0⟩ :=
    .step hexecuted (.slaveSendReply rfl hreply)
  have harrived : (cluster (n + 1) (m + 1) storage₀).Run _
      ⟨.parsing (SlaveGateway.recvBuffer _), 0, 0, table₁, 0, none, 0, 0, storage', 0⟩ :=
    .step hreplied (.recvfrom rfl rfl)
  have hlookedUp : (cluster (n + 1) (m + 1) storage₀).Run _
      ⟨.adding (.replay replay), 0, 0, table₂, 0, none, 0, 0, storage', 0⟩ :=
    .step harrived (.createDataFromBuff rfl hcreated)
  obtain ⟨bytes, hbytes⟩ := Option.isSome_iff_exists.mp hbytes
  obtain ⟨more, hmore, hrun⟩ := exists_run_reply hlookedUp hbytes
  have hregistration : Quiet 1 [.silent, .silent, .silent, .silent, .silent, .registered rid,
      .silent, .silent] := ⟨by simp [shown], Nat.le_refl 1⟩
  refine ⟨more ++ ([.silent, .silent, .silent, .silent] ++ (copies ++ [.silent, .silent, .silent,
    .silent, .silent, .registered rid, .silent, .silent])), replay, bytes, table₂, storage', ?_,
    hhandler, ?_⟩
  · exact hmore.append ((quiet_silent 4).append (hcopies.append hregistration))
  · simpa only [List.append_assoc, List.cons_append, List.nil_append] using hrun

theorem idle_of_run (h : (cluster n m storage).Run es s) (hidle : s = idle s.table s.storage)
    (hfew : Lifecycle.issues es < 2 ^ 31 - 1) : s.table.Registers 0 ∧
      s.storage.getSize = storage.getSize ∧ s.table.reqId.toInt = Lifecycle.issues es := by
  obtain ⟨_, a, -, -, toks, htracked⟩ := simulated_of_run (run_work h) hfew
  have hitems : s.work.items = 0 := by
    rw [hidle]
    rfl
  have htoks : toks = 0 := by
    have hrel := htracked.items
    rw [hitems] at hrel
    exact Multiset.rel_zero_right.mp hrel
  subst htoks
  exact ⟨htracked.table, htracked.size, htracked.counter⟩

theorem exists_run_next (h : (cluster (n + 1) (m + 1) storage).Run es s)
    (hidle : s = idle s.table s.storage) (hfew : Lifecycle.issues es + 1 < 2 ^ 31 - 1)
    (hreq : Servable storage.getSize req) (hkey : req.key = .read ∨ req.key = .write) :
    ∃ more data bytes t, Quiet 1 more ∧ data.handler = req.handler ∧
      (cluster (n + 1) (m + 1) storage).Run (.answered data bytes :: (more ++ .received req :: es)) t ∧
      t = idle t.table t.storage := by
  obtain ⟨htable, hsize, hcounter⟩ := idle_of_run h hidle (Nat.lt_of_succ_lt hfew)
  rw [hidle] at h
  have hreceived : (cluster (n + 1) (m + 1) storage).Run (.received req :: es)
      ⟨.adding (createTask req), 0, 0, s.table, 0, none, 0, 0, s.storage, 0⟩ :=
    .step h (.receiveRequest rfl hreq.accepted hreq.connected)
  rw [createTask, if_pos hkey] at hreceived
  rw [← hsize] at hreq
  obtain ⟨more, data, bytes, table', storage', hquiet, hhandler, hrun⟩ :=
    exists_run_storage hreceived hreq hkey htable (by omega)
  exact ⟨more, data, bytes, _, hquiet, hhandler, hrun, rfl⟩

/-- In every run with fewer than 2^31 - 2 ids issued, whatever overlapped and whatever was lost in
it: when nothing is on its way any more, a request that fits can come in and be answered, in steps
that leave nothing on its way. -/
theorem exists_run_served (h : (cluster (n + 1) (m + 1) storage).Run es s)
    (hidle : s = idle s.table s.storage) (hfew : Lifecycle.issues es + 1 < 2 ^ 31 - 1)
    (hreq : Servable storage.getSize req) :
    ∃ more data bytes t, Quiet 1 more ∧ data.handler = req.handler ∧
      (cluster (n + 1) (m + 1) storage).Run (.answered data bytes :: (more ++ .received req :: es)) t ∧
      t = idle t.table t.storage := by
  by_cases hkey : req.key = .read ∨ req.key = .write
  · exact exists_run_next h hidle hfew hreq hkey
  · rw [hidle] at h
    have hreceived : (cluster (n + 1) (m + 1) storage).Run (.received req :: es)
        ⟨.adding (createTask req), 0, 0, s.table, 0, none, 0, 0, s.storage, 0⟩ :=
      .step h (.receiveRequest rfl hreq.accepted hreq.connected)
    rw [createTask, if_neg hkey] at hreceived
    obtain ⟨more, hquiet, hrun⟩ := exists_run_reply hreceived
      (NBDDriverProxy.sendReply_of_ne_read (not_or.mp hkey).1)
    exact ⟨more, req, _, _, ⟨hquiet.shown, Nat.le_succ_of_le hquiet.issues⟩, rfl, hrun, rfl⟩

def readOne : DriverData := ⟨0, 0, .replicate 8 7, 1, .read, 0, []⟩

theorem servable_readOne : Servable 1 readOne where
  accepted := ⟨⟨readOne, fun _ => 0⟩, ⟨NBDDriverProxy.ntohl NBDDriverProxy.requestMagic, 0,
    .replicate 8 7, 0, 0x01000000⟩, [], [], by decide⟩
  connected := by decide
  len _ := by decide
  nonempty _ := by decide
  inside _ := by decide

theorem exists_run_served_first : ∃ more data bytes t, Quiet 1 more ∧
    data.handler = readOne.handler ∧
    (cluster 1 1 ⟨[65]⟩).Run (.answered data bytes :: (more ++ [.received readOne])) t ∧
    t = idle t.table t.storage :=
  exists_run_served (.start rfl) (Eq.refl (init ⟨[65]⟩)) (by decide) servable_readOne

end GreenCloud.Cluster
