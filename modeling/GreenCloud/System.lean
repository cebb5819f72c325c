import GreenCloud.Lifecycle

/-! The master, the slave and the network between them, with the pools of both programs and
every interleaving of their steps. -/

namespace GreenCloud.System

open CLib Transition

/-- The main thread of the master: in `WaitTimeOut`, in `SlaveGateway::Read` behind `recvfrom`,
or with a task for the pool. -/
inductive Main
  | waiting
  | parsing (buf : Bytes)
  | adding (task : Task)
  | exited

/-- A worker of the master with a task, before and behind `HandlerToId`. -/
inductive Worker
  | popped (task : Task)
  | registered (data : DriverData) (rid : Int32)

/-- A worker of the slave with a task, before and behind the call of the storage. -/
inductive SlaveWorker
  | popped (data : DriverData)
  | executed (data : DriverData)

/-- The queues of the pools are multisets: which task comes out is left open. So are
the datagrams under way, which may arrive in any order. -/
structure State where
  main : Main
  queue : Multiset Task
  workers : Multiset Worker
  table : PendingTable
  requests : Multiset Bytes
  slaveMain : Option DriverData
  slaveQueue : Multiset DriverData
  slaveWorkers : Multiset SlaveWorker
  replies : Multiset Bytes

def init : State where
  main := .waiting
  queue := 0
  workers := 0
  table := .empty
  requests := 0
  slaveMain := none
  slaveQueue := 0
  slaveWorkers := 0
  replies := 0

/-- `Read` puts `m_len` bytes into the buffer and `Write` changes nothing in `data`. The bytes
are left open, since the workers do not lock the mapping. -/
def Executed (data data' : DriverData) : Prop :=
  ∃ buff, data' = { data with buff := buff } ∧
    if data.key = .read then buff.length = data.len.toNat else buff = data.buff

/-- One step of a thread, or of the network. The master has `n` workers and the slave `m`. -/
inductive Step (n m : Nat) : State → Event → State → Prop
  | receiveRequest : s.main = .waiting → NBDDriverProxy.Admitted data →
    Step n m s (.received data) { s with main := .adding (.storage data) }
  | recvfrom : s.main = .waiting → s.replies = datagram ::ₘ replies →
    Step n m s .silent
      { s with main := .parsing (SlaveGateway.recvBuffer datagram), replies := replies }
  | createDataFromBuff : s.main = .parsing buf →
    SlaveGateway.createDataFromBuff fresh s.table buf = .ok (data, table) →
    Step n m s .silent { s with main := .adding (.replay data), table := table }
  | exit : s.main = .parsing buf →
    SlaveGateway.createDataFromBuff fresh s.table buf = .error (.exit status) →
    Step n m s .exited { s with main := .exited }
  | addTask : s.main = .adding task →
    Step n m s .silent { s with main := .waiting, queue := task ::ₘ s.queue }
  | pop : s.queue = task ::ₘ queue → s.workers.card < n →
    Step n m s .silent { s with queue := queue, workers := .popped task ::ₘ s.workers }
  | handlerToId : s.workers = .popped (.storage data) ::ₘ workers →
    (∀ n ∈ s.table.list, n.addr ≠ addr) → s.table.handlerToId addr data.handler = (rid, table) →
    Step n m s (.registered rid)
      { s with workers := .registered data rid ::ₘ workers, table := table }
  | sendto : s.workers = .registered data rid ::ₘ workers →
    CloudStorage.requestDatagram data rid = some datagram →
    Step n m s .silent { s with workers := workers, requests := datagram ::ₘ s.requests }
  | replay : s.workers = .popped (.replay data) ::ₘ workers →
    NBDDriverProxy.sendReply data = some bytes →
    Step n m s (.answered data bytes) { s with workers := workers }
  | loseRequest : s.requests = datagram ::ₘ requests →
    Step n m s .silent { s with requests := requests }
  | loseReply : s.replies = datagram ::ₘ replies →
    Step n m s .silent { s with replies := replies }
  | slaveReceiveRequest : s.slaveMain = none → s.requests = datagram ::ₘ requests →
    SlaveDriverProxy.receiveRequest fresh datagram = some data →
    Step n m s .silent { s with slaveMain := some data, requests := requests }
  | slaveAddTask : s.slaveMain = some data →
    Step n m s .silent { s with slaveMain := none, slaveQueue := data ::ₘ s.slaveQueue }
  | slavePop : s.slaveQueue = data ::ₘ queue → s.slaveWorkers.card < m →
    Step n m s .silent
      { s with slaveQueue := queue, slaveWorkers := .popped data ::ₘ s.slaveWorkers }
  | slaveStorage : s.slaveWorkers = .popped data ::ₘ workers → Executed data data' →
    Step n m s .silent { s with slaveWorkers := .executed data' ::ₘ workers }
  | slaveSendReply : s.slaveWorkers = .executed data ::ₘ workers →
    SlaveDriverProxy.sendReply data after = some datagram →
    Step n m s .silent { s with slaveWorkers := workers, replies := datagram ::ₘ s.replies }

def system (n m : Nat) : Transition State Event where
  init s := s = init
  step := Step n m

open Lifecycle (Item Work)

def Main.items : Main → Multiset Item
  | .waiting | .exited => 0
  | .parsing buf => .buffer buf ::ₘ 0
  | .adding task => .task task ::ₘ 0

def Worker.item : Worker → Item
  | .popped task => .task task
  | .registered data rid => .registered data rid

def SlaveWorker.item : SlaveWorker → Item
  | .popped data | .executed data => .slave data

def slaveItems : Option DriverData → Multiset Item
  | none => 0
  | some data => .slave data ::ₘ 0

def State.work (s : State) : Work where
  items := s.main.items + s.queue.map .task + s.workers.map Worker.item + s.requests.map .request +
    slaveItems s.slaveMain + s.slaveQueue.map .slave + s.slaveWorkers.map SlaveWorker.item +
    s.replies.map .reply
  table := s.table

/-- Handing a task from one thread to another is no step in the life of its request. -/
theorem step_work (h : Step n m s e t) : Lifecycle.Step s.work e t.work := by
  obtain ⟨main, queue, workers, table, requests, slaveMain, slaveQueue, slaveWorkers, replies⟩ := s
  cases h with
  | receiveRequest hmain hdata =>
    cases hmain
    simp only [State.work, Main.items, Multiset.zero_add, Multiset.cons_add]
    exact .received hdata
  | recvfrom hmain hreplies =>
    subst hmain hreplies
    simp only [State.work, Main.items, Multiset.zero_add, Multiset.cons_add,
      Multiset.map_cons, Multiset.add_cons]
    exact .arrived
  | createDataFromBuff hmain hcreated =>
    subst hmain
    simp only [State.work, Main.items, Multiset.cons_add]
    exact .lookedUp hcreated
  | exit hmain hexit =>
    subst hmain
    simp only [State.work, Main.items, Multiset.zero_add, Multiset.cons_add]
    exact .exited hexit
  | addTask hmain =>
    subst hmain
    simp only [State.work, Main.items, Multiset.zero_add, Multiset.cons_add,
      Multiset.map_cons]
    exact .silent
  | pop hqueue _ =>
    subst hqueue
    simp only [State.work, Worker.item, Multiset.cons_add, Multiset.map_cons, Multiset.add_cons]
    exact .silent
  | handlerToId hworkers haddr ht =>
    subst hworkers
    simp only [State.work, Worker.item, Multiset.cons_add, Multiset.map_cons, Multiset.add_cons]
    exact .registered haddr ht
  | sendto hworkers hsent =>
    subst hworkers
    simp only [State.work, Worker.item, Multiset.cons_add, Multiset.map_cons, Multiset.add_cons]
    exact .sent hsent
  | replay hworkers hbytes =>
    subst hworkers
    simp only [State.work, Worker.item, Multiset.cons_add, Multiset.map_cons, Multiset.add_cons]
    exact .answered hbytes
  | loseRequest hrequests =>
    subst hrequests
    simp only [State.work, Multiset.cons_add, Multiset.map_cons, Multiset.add_cons]
    exact .lost
  | loseReply hreplies =>
    subst hreplies
    simp only [State.work, Multiset.map_cons, Multiset.add_cons]
    exact .lost
  | slaveReceiveRequest hslave hrequests hparsed =>
    subst hslave hrequests
    simp only [State.work, slaveItems, Multiset.cons_add, Multiset.map_cons, Multiset.add_cons,
      Multiset.add_zero]
    exact .parsed hparsed
  | slaveAddTask hslave =>
    subst hslave
    simp only [State.work, slaveItems, Multiset.cons_add, Multiset.map_cons, Multiset.add_cons,
      Multiset.add_zero]
    exact .silent
  | slavePop hqueue _ =>
    subst hqueue
    simp only [State.work, SlaveWorker.item, Multiset.cons_add, Multiset.map_cons, Multiset.add_cons]
    exact .silent
  | slaveStorage hworkers hexecuted =>
    obtain ⟨buff, rfl, -⟩ := hexecuted
    subst hworkers
    simp only [State.work, SlaveWorker.item, Multiset.cons_add, Multiset.map_cons, Multiset.add_cons]
    exact .executed
  | slaveSendReply hworkers hsent =>
    subst hworkers
    simp only [State.work, SlaveWorker.item, Multiset.cons_add, Multiset.map_cons, Multiset.add_cons]
    exact .replied hsent

theorem run_work (h : (system n m).Run es s) : Lifecycle.work.Run es s.work := by
  apply h.map State.work
  · rintro _ rfl
    rfl
  · intro s e t
    exact step_work

section

variable {n m : Nat} {es : List Event} {s : State}

theorem run_request (h : (system (n + 1) m).Run es s) (hmain : s.main = .waiting)
    (hqueue : s.queue = 0) (hworkers : s.workers = 0) (hreq : NBDDriverProxy.Admitted req)
    (haddr : ∀ node ∈ s.table.list, node.addr ≠ addr)
    (hid : s.table.handlerToId addr req.handler = (rid, table))
    (hsent : CloudStorage.requestDatagram req rid = some datagram) :
    (system (n + 1) m).Run (.silent :: .registered rid :: .silent :: .silent :: .received req :: es)
      { s with table := table, requests := datagram ::ₘ s.requests } := by
  obtain ⟨main, queue, workers, table₀, requests, slaveMain, slaveQueue, slaveWorkers, replies⟩ := s
  dsimp only at hmain hqueue hworkers haddr hid
  subst hmain hqueue hworkers
  have hreceived : (system (n + 1) m).Run _
      ⟨.adding (.storage req), 0, 0, table₀, requests, slaveMain, slaveQueue, slaveWorkers, replies⟩ :=
    .step h (.receiveRequest rfl hreq)
  have hqueued : (system (n + 1) m).Run _ ⟨.waiting, .storage req ::ₘ 0, 0, table₀, requests,
      slaveMain, slaveQueue, slaveWorkers, replies⟩ := .step hreceived (.addTask rfl)
  have hpopped : (system (n + 1) m).Run _ ⟨.waiting, 0, .popped (.storage req) ::ₘ 0, table₀, requests,
      slaveMain, slaveQueue, slaveWorkers, replies⟩ := .step hqueued (.pop rfl (Nat.succ_pos n))
  have hregistered : (system (n + 1) m).Run _ ⟨.waiting, 0, .registered req rid ::ₘ 0, table, requests,
      slaveMain, slaveQueue, slaveWorkers, replies⟩ := .step hpopped (.handlerToId rfl haddr hid)
  exact .step hregistered (.sendto rfl hsent)

theorem run_storage (h : (system n (m + 1)).Run es s) (hmain : s.slaveMain = none)
    (hqueue : s.slaveQueue = 0) (hworkers : s.slaveWorkers = 0)
    (hrequests : s.requests = datagram ::ₘ requests)
    (hdata : SlaveDriverProxy.receiveRequest fresh datagram = some data)
    (hexecuted : Executed data data') (hreply : SlaveDriverProxy.sendReply data' after = some reply) :
    (system n (m + 1)).Run (List.replicate 5 .silent ++ es)
      { s with requests := requests, replies := reply ::ₘ s.replies } := by
  obtain ⟨main, queue, workers, table, _, slaveMain, slaveQueue, slaveWorkers, replies⟩ := s
  dsimp only at hmain hqueue hworkers hrequests
  subst hmain hqueue hworkers hrequests
  have hparsed : (system n (m + 1)).Run _
      ⟨main, queue, workers, table, requests, some data, 0, 0, replies⟩ :=
    .step h (.slaveReceiveRequest rfl rfl hdata)
  have hqueued : (system n (m + 1)).Run _
      ⟨main, queue, workers, table, requests, none, data ::ₘ 0, 0, replies⟩ :=
    .step hparsed (.slaveAddTask rfl)
  have hpopped : (system n (m + 1)).Run _
      ⟨main, queue, workers, table, requests, none, 0, .popped data ::ₘ 0, replies⟩ :=
    .step hqueued (.slavePop rfl (Nat.succ_pos m))
  have hexecuted : (system n (m + 1)).Run _
      ⟨main, queue, workers, table, requests, none, 0, .executed data' ::ₘ 0, replies⟩ :=
    .step hpopped (.slaveStorage rfl hexecuted)
  exact .step hexecuted (.slaveSendReply rfl hreply)

theorem run_reply (h : (system (n + 1) m).Run es s) (hmain : s.main = .waiting) (hqueue : s.queue = 0)
    (hworkers : s.workers = 0) (hreplies : s.replies = reply ::ₘ replies)
    (hcreated : SlaveGateway.createDataFromBuff fresh s.table (SlaveGateway.recvBuffer reply) =
      .ok (data, table)) (hbytes : NBDDriverProxy.sendReply data = some bytes) :
    (system (n + 1) m).Run (.answered data bytes :: (List.replicate 4 .silent ++ es))
      { s with table := table, replies := replies } := by
  obtain ⟨main, queue, workers, table₀, requests, slaveMain, slaveQueue, slaveWorkers, _⟩ := s
  dsimp only at hmain hqueue hworkers hreplies hcreated
  subst hmain hqueue hworkers hreplies
  have harrived : (system (n + 1) m).Run _ ⟨.parsing (SlaveGateway.recvBuffer reply), 0, 0, table₀,
      requests, slaveMain, slaveQueue, slaveWorkers, replies⟩ := .step h (.recvfrom rfl rfl)
  have hlookedUp : (system (n + 1) m).Run _ ⟨.adding (.replay data), 0, 0, table, requests, slaveMain,
      slaveQueue, slaveWorkers, replies⟩ := .step harrived (.createDataFromBuff rfl hcreated)
  have hqueued : (system (n + 1) m).Run _ ⟨.waiting, .replay data ::ₘ 0, 0, table, requests, slaveMain,
      slaveQueue, slaveWorkers, replies⟩ := .step hlookedUp (.addTask rfl)
  have hpopped : (system (n + 1) m).Run _ ⟨.waiting, 0, .popped (.replay data) ::ₘ 0, table, requests,
      slaveMain, slaveQueue, slaveWorkers, replies⟩ := .step hqueued (.pop rfl (Nat.succ_pos n))
  exact .step hpopped (.replay rfl hbytes)

end

def readByte (handler : UInt8) : DriverData := ⟨0, 0, .replicate 8 handler, 1, .read, 0, []⟩

theorem admitted_readByte (handler : UInt8) : NBDDriverProxy.Admitted (readByte handler) := by
  refine ⟨.inl rfl, ⟨readByte handler, fun _ => 0⟩,
    ⟨NBDDriverProxy.ntohl NBDDriverProxy.requestMagic, 0, .replicate 8 handler, 0, 0x01000000⟩,
    [], [], ?_⟩
  have htype : (NBDDriverProxy.ntohl 0).toNat = 0 := by decide
  have hlen : NBDDriverProxy.ntohl 0x01000000 = 1 := by decide
  have hoffset : NBDDriverProxy.ntohll 0 = 0 := by decide
  rw [NBDDriverProxy.receiveRequest, if_neg (not_not.mpr rfl)]
  dsimp only
  rw [htype, hlen, hoffset]
  rfl

theorem exists_readByte (handler : UInt8) (rid : Int32) : ∃ fresh request data data' reply,
    CloudStorage.requestDatagram (readByte handler) rid = some request ∧
    SlaveDriverProxy.receiveRequest fresh request = some data ∧ Executed data data' ∧
    SlaveDriverProxy.sendReply data' [0] = some reply ∧
    ∀ table found table', table.idToHandler rid = some (found, table') → ∃ replay bytes,
      SlaveGateway.createDataFromBuff fresh table (SlaveGateway.recvBuffer reply) =
        .ok (replay, table') ∧ replay.handler = found ∧
          NBDDriverProxy.sendReply replay = some bytes := by
  let fresh : Fresh := ⟨readByte handler, fun _ => 0⟩
  let read : DriverData := { fresh.driverData with
    offset := 0, len := 1, reqId := rid, key := .read, buff := [65] }
  let header := SlaveDriverProxy.replyHeader 1 rid .read
  have hheader : header.length ≤ 25 := SlaveDriverProxy.length_replyHeader_le 1 rid .read
  have hreply := SlaveDriverProxy.sendReply_eq read [0]
  have hmessage : SlaveDriverProxy.message read [0] = some [65] := rfl
  have hfits : header.length + 1 ≤ buffSize := by
    rw [buffSize]
    omega
  have hroom : header.length + 1 + 1 < buffSize := by
    rw [buffSize]
    omega
  rw [hmessage, Option.bind_some] at hreply
  obtain ⟨request, p, hrequest, hdecoded, -⟩ := Wire.request_roundtrip_header 0 1 rid 48
  have hdata := Wire.receiveRequest_of_ne_write 0 1 rid fresh (by decide) hdecoded.parsed
  refine ⟨fresh, request, _, read, _, hrequest, hdata, ⟨[65], rfl, rfl⟩,
    hreply.trans (if_pos hfits), fun table found table' hid => ?_⟩
  have hnul : (0 : UInt8) ∉ [65] := by decide
  exact ⟨_, _, (Wire.createDataFromBuff_message 1 rid hid hnul hfits).trans (if_pos hroom), rfl,
    rfl⟩

theorem exists_run_overlapping : ∃ before after s data data' bytes bytes',
    (system 1 1).Run (after ++ before) s ∧ Lifecycle.issues (after ++ before) = 2 ∧
    .received (readByte 7) ∈ before ∧ .received (readByte 8) ∈ before ∧
    .answered data bytes ∈ after ∧ .answered data' bytes' ∈ after ∧
    data.handler = (readByte 7).handler ∧ data'.handler = (readByte 8).handler := by
  let one : PendingTable := ⟨[⟨0, 1, .replicate 8 7⟩], 1⟩
  let two : PendingTable := ⟨[⟨1, 2, .replicate 8 8⟩, ⟨0, 1, .replicate 8 7⟩], 2⟩
  obtain ⟨fresh, datagram, data, read, reply, hsent, hdata, hread, hreply, hcreate⟩ :=
    exists_readByte 7 1
  obtain ⟨fresh', datagram', data', read', reply', hsent', hdata', hread', hreply', hcreate'⟩ :=
    exists_readByte 8 2
  obtain ⟨replay, bytes, hcreated, hhandler, hbytes⟩ := hcreate ⟨[⟨0, 1, .replicate 8 7⟩], 2⟩ _ ⟨[], 2⟩
    rfl
  obtain ⟨replay', bytes', hcreated', hhandler', hbytes'⟩ := hcreate' two _
    ⟨[⟨0, 1, .replicate 8 7⟩], 2⟩ rfl
  have hfirst : (system 1 1).Run _ ⟨.waiting, 0, 0, one, datagram ::ₘ 0, none, 0, 0, 0⟩ :=
    run_request (.start rfl) rfl rfl rfl (admitted_readByte 7) (by simp [init, PendingTable.empty]) rfl
      hsent
  have hsecond : (system 1 1).Run _
      ⟨.waiting, 0, 0, two, datagram' ::ₘ datagram ::ₘ 0, none, 0, 0, 0⟩ :=
    run_request hfirst rfl rfl rfl (admitted_readByte 8) (by simp [one]) rfl hsent'
  have hserved : (system 1 1).Run _ ⟨.waiting, 0, 0, two, datagram ::ₘ 0, none, 0, 0, reply' ::ₘ 0⟩ :=
    run_storage hsecond rfl rfl rfl rfl hdata' hread' hreply'
  have hboth : (system 1 1).Run _ ⟨.waiting, 0, 0, two, 0, none, 0, 0, reply ::ₘ reply' ::ₘ 0⟩ :=
    run_storage hserved rfl rfl rfl rfl hdata hread hreply
  have hanswered : (system 1 1).Run _ ⟨.waiting, 0, 0, ⟨[⟨0, 1, .replicate 8 7⟩], 2⟩, 0, none, 0, 0,
      reply ::ₘ 0⟩ :=
    run_reply hboth rfl rfl rfl (Multiset.cons_swap reply reply' 0) hcreated' hbytes'
  let before : List Event := [.silent, .registered 2, .silent, .silent, .received (readByte 8),
    .silent, .registered 1, .silent, .silent, .received (readByte 7)]
  let after : List Event := .answered replay bytes :: (List.replicate 4 .silent ++
    .answered replay' bytes' :: List.replicate 14 .silent)
  have hdone : (system 1 1).Run (after ++ before) ⟨.waiting, 0, 0, ⟨[], 2⟩, 0, none, 0, 0, 0⟩ :=
    run_reply hanswered rfl rfl rfl rfl hcreated hbytes
  exact ⟨before, after, _, replay, replay', bytes, bytes', hdone, rfl, by simp [before],
    by simp [before], by simp [after], by simp [after], hhandler, hhandler'⟩

/-- In every run with fewer than 2^31 - 1 ids issued, for any numbers of workers, each answer on
the NBD socket is one to an earlier request, two answers are to different requests, and the
master never exits over a reply. -/
theorem run_answers (h : (system n m).Run es s) (hfew : Lifecycle.issues es < 2 ^ 31 - 1) :
    (∃ f : Nat → Nat,
      (∀ i data bytes, Occurs es i (.answered data bytes) →
        f i < i ∧ ∃ req, Occurs es (f i) (.received req) ∧ Lifecycle.Answers req data bytes) ∧
      ∀ i j, Lifecycle.Answered es i → Lifecycle.Answered es j → f i = f j → i = j) ∧
    .exited ∉ es := by
  obtain ⟨toks, f, htracked⟩ := Lifecycle.tracked_of_run (run_work h) hfew
  exact ⟨⟨f, htracked.history.answers, htracked.history.once⟩, htracked.alive⟩

/-- The second `READ` comes in before the first one is answered, and goes out and is served first. -/
theorem run_answers_overlapping : ∃ before after data data' bytes bytes',
    .received (readByte 7) ∈ before ∧ .received (readByte 8) ∈ before ∧
    .answered data bytes ∈ after ∧ .answered data' bytes' ∈ after ∧
    data.handler = (readByte 7).handler ∧ data'.handler = (readByte 8).handler ∧
    (∃ f : Nat → Nat,
      (∀ i data bytes, Occurs (after ++ before) i (.answered data bytes) →
        f i < i ∧ ∃ req, Occurs (after ++ before) (f i) (.received req) ∧
          Lifecycle.Answers req data bytes) ∧
      ∀ i j, Lifecycle.Answered (after ++ before) i → Lifecycle.Answered (after ++ before) j →
        f i = f j → i = j) ∧
    .exited ∉ after ++ before := by
  obtain ⟨before, after, _, data, data', bytes, bytes', hrun, hissues, hfirst, hsecond, hdata,
    hdata', hhandler, hhandler'⟩ := exists_run_overlapping
  exact ⟨before, after, data, data', bytes, bytes', hfirst, hsecond, hdata, hdata', hhandler,
    hhandler', run_answers hrun (by rw [hissues]; decide)⟩

end GreenCloud.System
