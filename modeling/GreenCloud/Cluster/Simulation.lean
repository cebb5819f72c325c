import GreenCloud.Cluster.BlockDevice

/-! The cluster refines the device: every run of its threads and of the network is one of the device
with the same requests and answers. As for the life of a request, a token goes with each of them. -/

namespace GreenCloud.Cluster

open CLib Transition

/-- What a request is at a moment, apart from the thread that has it. -/
inductive Item
  | task (task : Task)
  | registered (data : DriverData) (rid : Int32)
  | request (datagram : Bytes)
  | received (data : DriverData)
  | copying (task : SlaveTask) (left : Finset Nat) (buff : Bytes)
  | executed (data : DriverData)
  | reply (datagram : Bytes)
  | buffer (buf : Bytes)

structure Work where
  items : Multiset Item
  table : PendingTable
  storage : MmapStorage

inductive WorkStep : Work → Event → Work → Prop
  | received : Accepted data → WorkStep ⟨items, table, storage⟩ (.received data)
      ⟨.task (createTask data) ::ₘ items, table, storage⟩
  | silent : WorkStep w .silent w
  | registered : (∀ m ∈ table.list, m.addr ≠ addr) →
    table.handlerToId addr data.handler = (rid, table') →
    WorkStep ⟨.task (.storage data) ::ₘ items, table, storage⟩ (.registered rid)
      ⟨.registered data rid ::ₘ items, table', storage⟩
  | sent : CloudStorage.requestDatagram data rid = some datagram →
    WorkStep ⟨.registered data rid ::ₘ items, table, storage⟩ .silent
      ⟨.request datagram ::ₘ items, table, storage⟩
  | lost : WorkStep ⟨x ::ₘ items, table, storage⟩ .silent ⟨items, table, storage⟩
  | parsed : SlaveDriverProxy.receiveRequest fresh datagram = some data →
    WorkStep ⟨.request datagram ::ₘ items, table, storage⟩ .silent
      ⟨.received data ::ₘ items, table, storage⟩
  | started : createSlaveTask data = some task →
    WorkStep ⟨.received data ::ₘ items, table, storage⟩ .silent
      ⟨.copying task (.range data.len.toNat) (task.buffer fresh) ::ₘ items, table, storage⟩
  | copied : i ∈ left → task.copyByte i storage buff = some (storage', buff') →
    WorkStep ⟨.copying task left buff ::ₘ items, table, storage⟩ .silent
      ⟨.copying task (left.erase i) buff' ::ₘ items, table, storage'⟩
  | returned : WorkStep ⟨.copying task ∅ buff ::ₘ items, table, storage⟩ .silent
      ⟨.executed { task.data with buff := buff } ::ₘ items, table, storage⟩
  | replied : SlaveDriverProxy.sendReply data after = some datagram →
    WorkStep ⟨.executed data ::ₘ items, table, storage⟩ .silent
      ⟨.reply datagram ::ₘ items, table, storage⟩
  | arrived : WorkStep ⟨.reply datagram ::ₘ items, table, storage⟩ .silent
      ⟨.buffer (SlaveGateway.recvBuffer datagram) ::ₘ items, table, storage⟩
  | lookedUp : SlaveGateway.createDataFromBuff fresh table buf = .ok (data, table') →
    WorkStep ⟨.buffer buf ::ₘ items, table, storage⟩ .silent
      ⟨.task (.replay data) ::ₘ items, table', storage⟩
  | exited : SlaveGateway.createDataFromBuff fresh table buf = .error (.exit status) →
    WorkStep ⟨.buffer buf ::ₘ items, table, storage⟩ .exited ⟨items, table, storage⟩
  | answered : NBDDriverProxy.sendReply data = some bytes →
    WorkStep ⟨.task (.replay data) ::ₘ items, table, storage⟩ (.answered data bytes)
      ⟨items, table, storage⟩

open GreenCloud.System (Main Worker)

def mainItems : Main → Multiset Item
  | .waiting | .exited => 0
  | .parsing buf => .buffer buf ::ₘ 0
  | .adding task => .task task ::ₘ 0

def workerItem : Worker → Item
  | .popped task => .task task
  | .registered data rid => .registered data rid

def SlaveWorker.item : SlaveWorker → Item
  | .popped data => .received data
  | .copying task left buff => .copying task left buff
  | .executed data => .executed data

def slaveItems : Option DriverData → Multiset Item
  | none => 0
  | some data => .received data ::ₘ 0

def State.work (s : State) : Work where
  items := mainItems s.main + s.queue.map .task + s.workers.map workerItem +
    s.requests.map .request + slaveItems s.slaveMain + s.slaveQueue.map .received +
    s.slaveWorkers.map SlaveWorker.item + s.replies.map .reply
  table := s.table
  storage := s.storage

/-- Handing a task from one thread to another is no step in the life of its request. -/
theorem step_work (h : Step n m s e t) : WorkStep s.work e t.work := by
  obtain ⟨main, queue, workers, table, requests, slaveMain, slaveQueue, slaveWorkers, storage,
    replies⟩ := s
  cases h with
  | receiveRequest hmain hdata _ =>
    cases hmain
    simp only [State.work, mainItems, Multiset.zero_add, Multiset.cons_add]
    exact .received hdata
  | recvfrom hmain hreplies =>
    subst hmain hreplies
    simp only [State.work, mainItems, Multiset.zero_add, Multiset.cons_add, Multiset.map_cons,
      Multiset.add_cons]
    exact .arrived
  | createDataFromBuff hmain hcreated =>
    subst hmain
    simp only [State.work, mainItems, Multiset.cons_add]
    exact .lookedUp hcreated
  | exit hmain hexit =>
    subst hmain
    simp only [State.work, mainItems, Multiset.zero_add, Multiset.cons_add]
    exact .exited hexit
  | addTask hmain =>
    subst hmain
    simp only [State.work, mainItems, Multiset.zero_add, Multiset.cons_add, Multiset.map_cons]
    exact .silent
  | pop hqueue _ =>
    subst hqueue
    simp only [State.work, workerItem, Multiset.cons_add, Multiset.map_cons, Multiset.add_cons]
    exact .silent
  | handlerToId hworkers haddr ht =>
    subst hworkers
    simp only [State.work, workerItem, Multiset.cons_add, Multiset.map_cons, Multiset.add_cons]
    exact .registered haddr ht
  | sendto hworkers hsent =>
    subst hworkers
    simp only [State.work, workerItem, Multiset.cons_add, Multiset.map_cons, Multiset.add_cons]
    exact .sent hsent
  | replay hworkers hbytes =>
    subst hworkers
    simp only [State.work, workerItem, Multiset.cons_add, Multiset.map_cons, Multiset.add_cons]
    exact .answered hbytes
  | loseRequest hrequests =>
    subst hrequests
    simp only [State.work, Multiset.cons_add, Multiset.map_cons, Multiset.add_cons]
    exact .lost
  | loseReply hreplies =>
    subst hreplies
    simp only [State.work, Multiset.map_cons, Multiset.add_cons]
    exact .lost
  | slaveReceiveRequest hslave hrequests hparsed =>
    subst hslave hrequests
    simp only [State.work, slaveItems, Multiset.cons_add, Multiset.map_cons, Multiset.add_cons,
      Multiset.add_zero]
    exact .parsed hparsed
  | slaveAddTask hslave =>
    subst hslave
    simp only [State.work, slaveItems, Multiset.cons_add, Multiset.map_cons, Multiset.add_cons,
      Multiset.add_zero]
    exact .silent
  | slavePop hqueue _ =>
    subst hqueue
    simp only [State.work, SlaveWorker.item, Multiset.cons_add, Multiset.map_cons, Multiset.add_cons]
    exact .silent
  | slaveExecute hworkers htask =>
    subst hworkers
    simp only [State.work, SlaveWorker.item, Multiset.cons_add, Multiset.map_cons, Multiset.add_cons]
    exact .started htask
  | slaveCopy hworkers hi hcopy =>
    subst hworkers
    simp only [State.work, SlaveWorker.item, Multiset.cons_add, Multiset.map_cons, Multiset.add_cons]
    exact .copied hi hcopy
  | slaveReturn hworkers =>
    subst hworkers
    simp only [State.work, SlaveWorker.item, Multiset.cons_add, Multiset.map_cons, Multiset.add_cons]
    exact .returned
  | slaveSendReply hworkers hsent =>
    subst hworkers
    simp only [State.work, SlaveWorker.item, Multiset.cons_add, Multiset.map_cons, Multiset.add_cons]
    exact .replied hsent

def work (storage : MmapStorage) : Transition Work Event where
  init w := w = ⟨0, .empty, storage⟩
  step := WorkStep

theorem run_work (h : (cluster n m storage).Run es s) : (work storage).Run es s.work := by
  apply h.map State.work
  · rintro _ rfl
    rfl
  · intro s e t
    exact step_work

/-! One token for each request that has been neither answered nor lost. -/

inductive Shown
  | request (data : DriverData)
  | reply (bytes : Bytes)

def shown : Event → Option Shown
  | .received data => some (.request data)
  | .answered _ bytes => some (.reply bytes)
  | .registered _ | .exited | .silent => none

abbrev DeviceEvent := CellStore.Event Nat DriverData Nat UInt8 Bytes

abbrev DeviceState := CellStore.State Nat DriverData Nat UInt8

def deviceShown : DeviceEvent → Option Shown
  | .called _ req => some (.request req)
  | .answered _ bytes => some (.reply bytes)
  | .read _ _ _ | .wrote _ _ _ | .silent => none

/-- `tag` is the number of the event that brought the request in, `id` is there from `HandlerToId` to
`IdToHandler`, and `done` are the bytes that the request has read or written. -/
structure Token where
  tag : Nat
  req : DriverData
  id : Option Int32
  done : Nat → Option UInt8

namespace Token

def pending (tok : Token) : Option (Int32 × Handle) := tok.id.map fun rid => (rid, tok.req.handler)

def Untouched (tok : Token) : Prop :=
  (tok.req.key = .read ∨ tok.req.key = .write) ∧ tok.done = fun _ => none

def Replied (size : Nat) (tok : Token) (datagram : Bytes) : Prop :=
  ∃ data after, tok.id = some data.reqId ∧ (tok.req.key = .read ∨ tok.req.key = .write) ∧
    Executed size tok.req tok.done data ∧ SlaveDriverProxy.sendReply data after = some datagram

def Holds (size : Nat) (tok : Token) : Item → Prop
  | .task (.storage data) => tok.id = none ∧ tok.Untouched ∧ data = tok.req
  | .task (.replay data) => tok.id = none ∧ (device size).Complete tok.req tok.done ∧
      ∀ bytes, NBDDriverProxy.sendReply data = some bytes → (device size).replies tok.req tok.done bytes
  | .registered data rid => tok.id = some rid ∧ tok.Untouched ∧ data = tok.req
  | .request datagram => ∃ rid, tok.id = some rid ∧ tok.Untouched ∧
      CloudStorage.requestDatagram tok.req rid = some datagram
  | .received data => tok.id = some data.reqId ∧ tok.Untouched ∧ Received tok.req data
  | .copying task left buff => tok.id = some task.data.reqId ∧
      (tok.req.key = .read ∨ tok.req.key = .write) ∧ Copying size tok.req tok.done task left buff
  | .executed data => tok.id = some data.reqId ∧ (tok.req.key = .read ∨ tok.req.key = .write) ∧
      Executed size tok.req tok.done data
  | .reply datagram => tok.Replied size datagram
  | .buffer buf => ∃ datagram, tok.Replied size datagram ∧ buf = SlaveGateway.recvBuffer datagram

variable {size : Nat} {tok : Token} {data : DriverData}

theorem filterMap_pending (tok : Token) (done : Nat → Option UInt8) (toks : Multiset Token) :
    ({ tok with done := done } ::ₘ toks).filterMap pending = (tok ::ₘ toks).filterMap pending := by
  cases hp : tok.pending with
  | none =>
    rw [Multiset.filterMap_cons_none _ _ hp]
    exact Multiset.filterMap_cons_none _ _ hp
  | some p =>
    rw [Multiset.filterMap_cons_some _ _ _ hp]
    exact Multiset.filterMap_cons_some _ _ _ hp

theorem holds_task (hdata : Accepted data) (n : Nat) :
    (⟨n, data, none, fun _ => none⟩ : Token).Holds size (.task (createTask data)) := by
  unfold createTask
  split
  · exact ⟨rfl, ⟨‹_›, rfl⟩, rfl⟩
  · rename_i hkey
    obtain ⟨hread, hwrite⟩ := not_or.mp hkey
    exact ⟨rfl, complete_of_other hread hwrite, fun bytes hbytes =>
      replies_other hread hwrite hdata hbytes⟩

theorem holds_received (hreq : Accepted tok.req)
    (hparsed : SlaveDriverProxy.receiveRequest fresh datagram = some data)
    (h : tok.Holds size (.request datagram)) : tok.Holds size (.received data) := by
  obtain ⟨rid, hid, huntouched, hsent⟩ := h
  have hreceived : data.reqId = rid ∧ Received tok.req data := by
    rcases huntouched.1 with hkey | hkey
    · exact received_read hkey hsent hparsed
    · exact received_write hkey (hreq.length_buff hkey) hsent hparsed
  exact ⟨by rw [hid, hreceived.1], huntouched, hreceived.2⟩

theorem holds_copying (htask : createSlaveTask data = some task) (fresh : Fresh)
    (h : tok.Holds size (.received data)) :
    tok.Holds size (.copying task (.range data.len.toNat) (task.buffer fresh)) := by
  obtain ⟨hid, ⟨hkey, hdone⟩, hreceived⟩ := h
  refine ⟨by rw [hid, createSlaveTask_data htask], hkey, ?_⟩
  rw [hdone]
  exact copying_start hreceived htask fresh

/-- `CreateDataFromBuff` may run out of its buffer over the reply to a registered request, but it does
not exit. -/
theorem holds_replay (h : tok.Holds size (.buffer buf)) : ∃ rid, tok.id = some rid ∧
    ∀ fresh table table', table.idToHandler rid = some (tok.req.handler, table') →
      (∀ status, SlaveGateway.createDataFromBuff fresh table buf ≠ .error (.exit status)) ∧
      ∀ data u, SlaveGateway.createDataFromBuff fresh table buf = .ok (data, u) →
        u = table' ∧ { tok with id := none : Token }.Holds size (.task (.replay data)) := by
  obtain ⟨datagram, ⟨data, after, hid, hkey, hexecuted, hsent⟩, rfl⟩ := h
  refine ⟨data.reqId, hid, fun fresh table table' hhandler => ?_⟩
  obtain ⟨hexit, hcreated⟩ := replies_executed hexecuted hkey hsent hhandler
  refine ⟨hexit, fun replay u hok => ?_⟩
  obtain ⟨hu, hreplies⟩ := hcreated replay u hok
  exact ⟨hu, rfl, hexecuted.complete, hreplies⟩

end Token

structure Calls (es : List Event) (toks : Multiset Token) (a : DeviceState) : Prop where
  phase : ∀ tok ∈ toks, a.phase tok.tag = .called tok.req tok.done ∧ Accepted tok.req
  tags : (toks.map Token.tag).Nodup
  idle : ∀ tag, es.length ≤ tag → a.phase tag = .idle

namespace Calls

variable {es : List Event} {toks : Multiset Token} {a : DeviceState} {tok : Token}

theorem init (cells : Nat → UInt8) : Calls [] 0 ⟨cells, fun _ => .idle⟩ where
  phase := by simp
  tags := by simp
  idle _ _ := rfl

theorem cons (h : Calls es toks a) (e : Event) : Calls (e :: es) toks a where
  phase := h.phase
  tags := h.tags
  idle tag htag := h.idle tag (Nat.le_of_succ_le htag)

theorem forget (h : Calls es (tok ::ₘ toks) a) : Calls es toks a where
  phase tok htok := h.phase tok (Multiset.mem_cons_of_mem htok)
  tags := (nodup_map_cons.mp h.tags).2
  idle := h.idle

theorem withId (h : Calls es (tok ::ₘ toks) a) (id : Option Int32) :
    Calls es ({ tok with id := id } ::ₘ toks) a where
  phase tok' htok := by
    rcases Multiset.mem_cons.mp htok with rfl | htok
    · exact h.phase tok (Multiset.mem_cons_self _ _)
    · exact h.phase tok' (Multiset.mem_cons_of_mem htok)
  tags := nodup_map_cons.mpr ⟨(nodup_map_cons.mp h.tags).1, (nodup_map_cons.mp h.tags).2⟩
  idle := h.idle

theorem put (h : Calls es toks a) (p : Nat) (v : UInt8) : Calls es toks (a.put p v) :=
  ⟨h.phase, h.tags, h.idle⟩

theorem lt_length (h : Calls es toks a) (htok : tok ∈ toks) : tok.tag < es.length := by
  by_contra hle
  have hidle := h.idle tok.tag (Nat.le_of_not_lt hle)
  rw [(h.phase tok htok).1] at hidle
  cases hidle

theorem phase_move (h : Calls es (tok ::ₘ toks) a) (phase : CellStore.Phase DriverData Nat UInt8)
    (htok : tok' ∈ toks) : (a.move tok.tag phase).phase tok'.tag = .called tok'.req tok'.done := by
  rw [a.phase_move_of_ne phase ((nodup_map_cons.mp h.tags).1 tok' htok)]
  exact (h.phase tok' (Multiset.mem_cons_of_mem htok)).1

theorem idle_move (h : Calls es (tok ::ₘ toks) a) (phase : CellStore.Phase DriverData Nat UInt8)
    (htag : es.length ≤ tag) : (a.move tok.tag phase).phase tag = .idle := by
  have hlt := h.lt_length (Multiset.mem_cons_self tok toks)
  rw [a.phase_move_of_ne phase (by omega)]
  exact h.idle tag htag

theorem withDone (h : Calls es (tok ::ₘ toks) a) (done : Nat → Option UInt8) :
    Calls es ({ tok with done := done } ::ₘ toks) (a.move tok.tag (.called tok.req done)) where
  phase tok' htok := by
    rcases Multiset.mem_cons.mp htok with rfl | htok
    · exact ⟨a.phase_move .., (h.phase tok (Multiset.mem_cons_self _ _)).2⟩
    · exact ⟨h.phase_move _ htok, (h.phase tok' (Multiset.mem_cons_of_mem htok)).2⟩
  tags := nodup_map_cons.mpr ⟨(nodup_map_cons.mp h.tags).1, (nodup_map_cons.mp h.tags).2⟩
  idle _ htag := h.idle_move _ htag

theorem answer (h : Calls es (tok ::ₘ toks) a) : Calls es toks (a.move tok.tag .answered) where
  phase _ htok := ⟨h.phase_move _ htok, (h.phase _ (Multiset.mem_cons_of_mem htok)).2⟩
  tags := (nodup_map_cons.mp h.tags).2
  idle _ htag := h.idle_move _ htag

theorem call (h : Calls es toks a) (hdata : Accepted data) (e : Event) :
    Calls (e :: es) (⟨es.length, data, none, fun _ => none⟩ ::ₘ toks)
      (a.move es.length (.called data fun _ => none)) where
  phase tok htok := by
    rcases Multiset.mem_cons.mp htok with rfl | htok
    · exact ⟨a.phase_move .., hdata⟩
    · rw [a.phase_move_of_ne _ (Nat.ne_of_lt (h.lt_length htok))]
      exact h.phase tok htok
  tags := by
    refine nodup_map_cons.mpr ⟨fun tok htok => ?_, h.tags⟩
    exact Nat.ne_of_lt (h.lt_length htok)
  idle tag htag := by
    have hlt : es.length < tag := htag
    rw [a.phase_move_of_ne _ (Nat.ne_of_gt hlt)]
    exact h.idle tag (Nat.le_of_lt hlt)

end Calls

def initial (storage : MmapStorage) : Nat → UInt8 := fun p => storage.mmap.getD p 0

/-- The invariant: the items are those of the tokens, the table has the ids of the tokens, and the
device has their requests at work on the bytes of the mapping. -/
structure Tracked (size : Nat) (es : List Event) (w : Work) (toks : Multiset Token)
    (a : DeviceState) : Prop where
  items : Multiset.Rel (Token.Holds size) toks w.items
  table : w.table.Registers (toks.filterMap Token.pending)
  counter : w.table.reqId.toInt = Lifecycle.issues es
  calls : Calls es toks a
  size : w.storage.getSize = size
  cells : ∀ p v, w.storage.mmap[p]? = some v → a.cells p = v
  alive : .exited ∉ es

/-- The device answers the step of an item with one of its own. -/
def Simulated (size : Nat) (es : List Event) (a : DeviceState) (e : Event) (w : Work) : Prop :=
  ∃ x toks a', CellStore.Step (device size) a x a' ∧ deviceShown x = shown e ∧ Tracked size (e :: es) w toks a'

namespace Tracked

variable {size : Nat} {es : List Event} {w : Work} {toks : Multiset Token} {a : DeviceState}
variable {items : Multiset Item} {table : PendingTable} {storage : MmapStorage}

theorem init (storage : MmapStorage) :
    Tracked storage.getSize [] ⟨0, .empty, storage⟩ 0 ⟨initial storage, fun _ => .idle⟩ where
  items := .zero
  table := .empty
  counter := rfl
  calls := .init _
  size := rfl
  cells p v hv := by
    have hv : storage.mmap[p]? = some v := hv
    simp only [initial, List.getD_eq_getElem?_getD, hv, Option.getD_some]
  alive := by simp

theorem exists_token (h : Tracked size es ⟨x ::ₘ items, table, storage⟩ toks a) :
    ∃ tok toks', toks = tok ::ₘ toks' ∧ tok.Holds size x ∧ Multiset.Rel (Token.Holds size) toks' items ∧
      Accepted tok.req := by
  obtain ⟨tok, toks', hx, hrest, rfl⟩ := Multiset.rel_cons_right.mp h.items
  exact ⟨tok, toks', rfl, hx, hrest, (h.calls.phase tok (Multiset.mem_cons_self _ _)).2⟩

theorem silent (h : Tracked size es w toks a) : Tracked size (.silent :: es) w toks a where
  items := h.items
  table := h.table
  counter := h.counter
  calls := h.calls.cons _
  size := h.size
  cells := h.cells
  alive := by simpa using h.alive

theorem simulated_silent (h : Tracked size es w toks a) : Simulated size es a .silent w :=
  ⟨.silent, toks, a, rfl, rfl, h.silent⟩

theorem move (h : Tracked size es ⟨x ::ₘ items, table, storage⟩ toks a)
    (hxy : ∀ tok : Token, Accepted tok.req → tok.Holds size x → tok.Holds size y) :
    Simulated size es a .silent ⟨y ::ₘ items, table, storage⟩ := by
  obtain ⟨tok, toks', rfl, hx, hrest, hreq⟩ := h.exists_token
  exact ⟨.silent, _, a, rfl, rfl, { h.silent with items := .cons (hxy tok hreq hx) hrest }⟩

theorem received (h : Tracked size es ⟨items, table, storage⟩ toks a) (hdata : Accepted data) :
    Simulated size es a (.received data) ⟨.task (createTask data) ::ₘ items, table, storage⟩ := by
  refine ⟨.called es.length data, ⟨es.length, data, none, fun _ => none⟩ ::ₘ toks,
    a.move es.length (.called data fun _ => none), ⟨h.calls.idle _ (Nat.le_refl _), rfl⟩, rfl, ?_⟩
  constructor
  · exact .cons (Token.holds_task hdata _) h.items
  · rw [Multiset.filterMap_cons_none _ _ rfl]
    exact h.table
  · exact h.counter
  · exact h.calls.call hdata _
  · exact h.size
  · exact h.cells
  · simpa using h.alive

theorem registered (h : Tracked size es ⟨.task (.storage data) ::ₘ items, table, storage⟩ toks a)
    (hfew : Lifecycle.issues es + 1 < 2 ^ 31 - 1) (haddr : ∀ m ∈ table.list, m.addr ≠ addr)
    (ht : table.handlerToId addr data.handler = (rid, table')) :
    Simulated size es a (.registered rid) ⟨.registered data rid ::ₘ items, table', storage⟩ := by
  obtain ⟨tok, toks', rfl, ⟨hid, huntouched, rfl⟩, hrest, -⟩ := h.exists_token
  have htable := h.table
  rw [Multiset.filterMap_cons_none _ _ (by simp [Token.pending, hid])] at htable
  have hcounter : table.reqId.toInt = Lifecycle.issues es := h.counter
  have hlt : table.reqId.toInt < 2 ^ 31 - 1 := by omega
  obtain ⟨htable, hsucc⟩ := htable.handlerToId hlt haddr ht
  refine ⟨.silent, { tok with id := some rid } ::ₘ toks', a, rfl, rfl, ?_⟩
  constructor
  · exact .cons ⟨rfl, huntouched, rfl⟩ hrest
  · rw [Multiset.filterMap_cons_some _ _ _ (by rfl)]
    exact htable
  · simp only [hsucc, hcounter, Lifecycle.issues]
    omega
  · exact (h.calls.cons _).withId _
  · exact h.size
  · exact h.cells
  · simpa using h.alive

theorem lost (h : Tracked size es ⟨x ::ₘ items, table, storage⟩ toks a) :
    Simulated size es a .silent ⟨items, table, storage⟩ := by
  obtain ⟨tok, toks', rfl, -, hrest, -⟩ := h.exists_token
  have h := h.silent
  refine ⟨.silent, toks', a, rfl, rfl, hrest, ?_, h.counter, h.calls.forget, h.size, h.cells, h.alive⟩
  have htable := h.table
  cases hp : tok.pending with
  | none => rwa [Multiset.filterMap_cons_none _ _ hp] at htable
  | some p =>
    rw [Multiset.filterMap_cons_some _ _ _ hp] at htable
    exact htable.forget

theorem copied (h : Tracked size es ⟨.copying task left buff ::ₘ items, table, storage⟩ toks a)
    (hi : i ∈ left) (hcopy : task.copyByte i storage buff = some (storage', buff')) :
    Simulated size es a .silent ⟨.copying task (left.erase i) buff' ::ₘ items, table, storage'⟩ := by
  obtain ⟨tok, toks', rfl, ⟨hid, hkey, hcopying⟩, hrest, -⟩ := h.exists_token
  have hphase := (h.calls.phase tok (Multiset.mem_cons_self _ _)).1
  have huntouched := hcopying.untouched i hi
  obtain ⟨v, hcopying', hbyte⟩ := hcopying.copyByte h.size hi hcopy
  let done := Function.update tok.done (tok.req.offset.toNat + i) (some v)
  have hitems : Multiset.Rel (Token.Holds size) ({ tok with done := done } ::ₘ toks')
      (.copying task (left.erase i) buff' ::ₘ items) := .cons ⟨hid, hkey, hcopying'⟩ hrest
  have htable : table.Registers (({ tok with done := done } ::ₘ toks').filterMap Token.pending) := by
    rw [Token.filterMap_pending]
    exact h.table
  have h := h.silent
  rcases hbyte with ⟨hreads, hv, rfl⟩ | ⟨hwrites, rfl, hin⟩
  · refine ⟨.read tok.tag _ v, _, _, ⟨_, _, hphase, hreads, huntouched, (h.cells _ _ hv).symm, rfl⟩,
      rfl, hitems, htable, h.counter, h.calls.withDone _, h.size, h.cells, h.alive⟩
  · refine ⟨.wrote tok.tag _ v, _, _, ⟨_, _, hphase, hwrites, huntouched, rfl⟩,
      rfl, hitems, htable, h.counter, (h.calls.put _ v).withDone _,
      List.length_set.trans h.size, fun p w hw => ?_, h.alive⟩
    have hw : (storage.mmap.set (tok.req.offset.toNat + i) v)[p]? = some w := hw
    rw [CellStore.State.cells_move, CellStore.State.put]
    by_cases hp : p = tok.req.offset.toNat + i
    · rw [hp, List.getElem?_set_self hin] at hw
      rw [hp]
      exact (Function.update_self ..).trans (Option.some.inj hw)
    · rw [List.getElem?_set_ne (Ne.symm hp)] at hw
      exact (Function.update_of_ne hp ..).trans (h.cells p w hw)

/-- The id of a reply that came in is in the table, whatever else went on since it was sent. -/
theorem buffer (h : Tracked size es ⟨.buffer buf ::ₘ items, table, storage⟩ toks a) :
    ∃ (tok : Token) (toks' : Multiset Token) (table' : PendingTable), toks = tok ::ₘ toks' ∧
      Multiset.Rel (Token.Holds size) toks' items ∧
      table'.Registers (toks'.filterMap Token.pending) ∧ table'.reqId = table.reqId ∧
      ∀ fresh, (∀ status, SlaveGateway.createDataFromBuff fresh table buf ≠ .error (.exit status)) ∧
        ∀ data u, SlaveGateway.createDataFromBuff fresh table buf = .ok (data, u) →
          u = table' ∧ { tok with id := none : Token }.Holds size (.task (.replay data)) := by
  obtain ⟨tok, toks', rfl, hbuf, hrest, -⟩ := h.exists_token
  obtain ⟨rid, hid, hcreated⟩ := Token.holds_replay hbuf
  have htable := h.table
  rw [Multiset.filterMap_cons_some _ _ _ (show tok.pending = some (rid, tok.req.handler) by
    simp [Token.pending, hid])] at htable
  obtain ⟨table', hhandler, htable', hreqId⟩ := htable.idToHandler
  exact ⟨tok, toks', table', rfl, hrest, htable', hreqId, fun fresh =>
    hcreated fresh table table' hhandler⟩

theorem lookedUp (h : Tracked size es ⟨.buffer buf ::ₘ items, table, storage⟩ toks a)
    (hcreated : SlaveGateway.createDataFromBuff fresh table buf = .ok (data, table')) :
    Simulated size es a .silent ⟨.task (.replay data) ::ₘ items, table', storage⟩ := by
  obtain ⟨tok, toks', u, rfl, hrest, htable, hreqId, hlookup⟩ := h.buffer
  obtain ⟨rfl, hholds⟩ := (hlookup fresh).2 data table' hcreated
  have h := h.silent
  refine ⟨.silent, { tok with id := none } ::ₘ toks', a, rfl, rfl, .cons hholds hrest, ?_, ?_,
    h.calls.withId _, h.size, h.cells, h.alive⟩
  · rwa [Multiset.filterMap_cons_none _ _ rfl]
  · have := h.counter
    rwa [← hreqId] at this

theorem answered (h : Tracked size es ⟨.task (.replay data) ::ₘ items, table, storage⟩ toks a)
    (hbytes : NBDDriverProxy.sendReply data = some bytes) :
    Simulated size es a (.answered data bytes) ⟨items, table, storage⟩ := by
  obtain ⟨tok, toks', rfl, ⟨hid, hcomplete, hreplies⟩, hrest, -⟩ := h.exists_token
  have hphase := (h.calls.phase tok (Multiset.mem_cons_self _ _)).1
  refine ⟨.answered tok.tag bytes, toks', _, ⟨_, _, hphase, hcomplete, hreplies bytes hbytes, rfl⟩,
    rfl, hrest, ?_, h.counter, (h.calls.cons _).answer, h.size, h.cells, ?_⟩
  · have htable := h.table
    rwa [Multiset.filterMap_cons_none _ _ (by simp [Token.pending, hid])] at htable
  · simpa using h.alive

theorem step (h : Tracked size es w toks a) (hfew : Lifecycle.issues (e :: es) < 2 ^ 31 - 1)
    (hstep : WorkStep w e w') : Simulated size es a e w' := by
  cases hstep with
  | received hdata => exact h.received hdata
  | silent => exact h.simulated_silent
  | registered haddr ht => exact h.registered hfew haddr ht
  | sent hsent =>
    refine h.move fun tok _ hx => ?_
    obtain ⟨hid, huntouched, rfl⟩ := hx
    exact ⟨_, hid, huntouched, hsent⟩
  | lost => exact h.lost
  | parsed hparsed => exact h.move fun _ hreq hx => Token.holds_received hreq hparsed hx
  | started htask => exact h.move fun _ _ hx => Token.holds_copying htask _ hx
  | copied hi hcopy => exact h.copied hi hcopy
  | returned => exact h.move fun _ _ hx => ⟨hx.1, hx.2.1, hx.2.2.executed⟩
  | replied hsent => exact h.move fun _ _ hx => ⟨_, _, hx.1, hx.2.1, hx.2.2, hsent⟩
  | arrived => exact h.move fun _ _ hx => ⟨_, hx, rfl⟩
  | lookedUp hcreated => exact h.lookedUp hcreated
  | exited hexit =>
    obtain ⟨_, _, _, _, _, _, _, hlookup⟩ := h.buffer
    exact absurd hexit ((hlookup _).1 _)
  | answered hbytes => exact h.answered hbytes

end Tracked

theorem simulated_of_run (h : (work storage).Run es w) (hfew : Lifecycle.issues es < 2 ^ 31 - 1) :
    ∃ xs a, (CellStore.store Nat (device storage.getSize) (initial storage)).Run xs a ∧
      xs.map deviceShown = es.map shown ∧ ∃ toks, Tracked storage.getSize es w toks a := by
  refine h.simulate (R := fun es w a => ∃ toks, Tracked storage.getSize es w toks a)
    (Q := fun es => Lifecycle.issues es < 2 ^ 31 - 1) hfew ?_ ?_ ?_
  · intro e es hq
    cases e with
    | registered => exact Nat.lt_of_succ_lt hq
    | received | answered | exited | silent => exact hq
  · rintro _ rfl
    exact ⟨_, rfl, 0, .init storage⟩
  · rintro es w e w' a hq ⟨toks, htracked⟩ hstep
    obtain ⟨x, toks', a', hx, hshown, htracked'⟩ := htracked.step hq hstep
    exact ⟨x, a', hx, hshown, toks', htracked'⟩

end GreenCloud.Cluster
