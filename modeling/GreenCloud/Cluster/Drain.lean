import GreenCloud.Cluster.Consistency
import Mathlib.Algebra.BigOperators.Group.Multiset.Basic

/-! A cluster that loses nothing answers everything, whatever the order in which its threads go on. -/

namespace GreenCloud.Cluster

open CLib Transition
open GreenCloud.System (Main Worker)

variable {storage : MmapStorage} {es : List Event} {req data : DriverData} {s t : State}
variable {rid : Int32} {task : SlaveTask} {left : Finset Nat} {buff : Bytes} {n m size : Nat}

/-- The network loses nothing, and there is a NUL in the memory behind a buffer that is sent. -/
structure Regular (s t : State) : Prop where
  requests : ∀ datagram, s.requests = datagram ::ₘ t.requests → s.slaveMain ≠ t.slaveMain
  replies : ∀ datagram, s.replies = datagram ::ₘ t.replies → s.main ≠ t.main
  behind : ∀ datagram ∈ t.replies, datagram ∈ s.replies ∨
    ∃ data, .executed data ∈ s.slaveWorkers ∧ SlaveDriverProxy.sendReply data [0] = some datagram

def reliable (n m : Nat) (storage : MmapStorage) : Transition State Event where
  init s := s = init storage
  step s e t := Step n m s e t ∧ Regular s t

theorem run_reliable (h : (reliable n m storage).Run es s) : (cluster n m storage).Run es s := by
  apply h.map id
  · exact fun _ => id
  · exact fun _ _ _ hstep => hstep.1

def Fit (size : Nat) : Item → Prop
  | .task (.storage data) => Servable size data ∧ (data.key = .read ∨ data.key = .write)
  | .task (.replay data) => (NBDDriverProxy.sendReply data).isSome
  | .registered data rid =>
    Servable size data ∧ (data.key = .read ∨ data.key = .write) ∧ 0 < rid.toInt
  | .request datagram => ∀ fresh, ∃ data,
      SlaveDriverProxy.receiveRequest fresh datagram = some data ∧ Storable size data
  | .received data => Storable size data
  | .copying task left buff => (∀ i ∈ left, i < task.data.len.toNat ∧ i < 4096) ∧
      Room size task.data buff ∧ Sendable { task.data with buff := buff }
  | .executed data => Sendable data
  | .reply datagram => ∃ data, Sendable data ∧ SlaveDriverProxy.sendReply data [0] = some datagram
  | .buffer buf => ∃ data datagram, Sendable data ∧
      SlaveDriverProxy.sendReply data [0] = some datagram ∧ buf = SlaveGateway.recvBuffer datagram

theorem fit_task (h : Servable size req) : Fit size (.task (createTask req)) := by
  unfold createTask
  split
  · exact ⟨h, ‹_›⟩
  · rename_i hkey
    show (NBDDriverProxy.sendReply req).isSome
    rw [NBDDriverProxy.sendReply_of_ne_read (not_or.mp hkey).1]
    rfl

theorem fit_request (h : Fit size (.registered data rid))
    (hsent : CloudStorage.requestDatagram data rid = some datagram) : Fit size (.request datagram) := by
  obtain ⟨hservable, hkey, hrid⟩ := h
  intro fresh
  obtain ⟨datagram', received, hsent', hreceived, -, hstorable⟩ :=
    exists_received hservable hkey hrid fresh
  cases hsent'.symm.trans hsent
  exact ⟨received, hreceived, hstorable⟩

theorem fit_copying (h : Storable size data) (htask : createSlaveTask data = some task)
    (fresh : Fresh) : Fit size (.copying task (.range data.len.toNat) (task.buffer fresh)) := by
  obtain ⟨hroom, hsendable⟩ := h.room htask fresh
  refine ⟨fun i hi => ?_, hroom, hsendable⟩
  have hlt := Finset.mem_range.mp hi
  rw [createSlaveTask_data htask]
  exact ⟨hlt, Nat.lt_of_lt_of_le hlt h.len⟩

theorem fit_copied (h : Fit size (.copying task left buff))
    (hsize : storage.getSize = size) (hi : i ∈ left)
    (hcopy : task.copyByte i storage buff = some (storage', buff')) :
    Fit size (.copying task (left.erase i) buff') := by
  obtain ⟨hleft, hroom, hsendable⟩ := h
  subst hsize
  obtain ⟨storage₁, buff₁, hcopy₁, -, hlen⟩ := exists_copyByte hroom (hleft i hi).1
  cases hcopy₁.symm.trans hcopy
  refine ⟨fun j hj => hleft j (Finset.mem_of_mem_erase hj), ⟨hroom.inside, ?_⟩, hsendable.key,
    hsendable.len, fun hread => ?_⟩
  · rw [hlen]
    exact hroom.room
  · rw [hlen]
    exact hsendable.buff hread

theorem fit_replay (h : Fit size (.buffer buf))
    (hcreated : SlaveGateway.createDataFromBuff fresh table buf = .ok (data, table')) :
    Fit size (.task (.replay data)) := by
  obtain ⟨sent, datagram, hsendable, hsent, rfl⟩ := h
  cases hid : table.idToHandler sent.reqId with
  | none =>
    obtain ⟨hlen, q, rfl⟩ := Wire.isReply_of_sendReply hsent
    have hparse := Wire.parseReply_replyHeader sent.len sent.reqId sent.key (0 :: q.dropLast)
    rw [Wire.master_recvBuffer_reply sent.len sent.reqId hlen,
      SlaveGateway.createDataFromBuff_exit hparse hid] at hcreated
    cases hcreated
  | some found =>
    obtain ⟨replay, hreplay, -, hbytes⟩ := exists_replay hsendable hsent fresh hid
    cases hreplay.symm.trans hcreated
    exact hbytes

theorem fit_cons {x y : Item} (h : ∀ z ∈ x ::ₘ items, Fit size z) (hxy : Fit size x → Fit size y) :
    ∀ z ∈ y ::ₘ items, Fit size z := by
  intro z hz
  rcases Multiset.mem_cons.mp hz with rfl | hz
  · exact hxy (h x (Multiset.mem_cons_self _ _))
  · exact h z (Multiset.mem_cons_of_mem hz)

theorem fit_step (h : ∀ x ∈ w.items, Fit size x) (hstep : WorkStep w e w')
    (hsize : w.storage.getSize = size)
    (hreceived : ∀ req, e = .received req → Servable size req)
    (hrid : ∀ rid, e = .registered rid → 0 < rid.toInt)
    (hreply : ∀ datagram, .reply datagram ∈ w'.items →
      .reply datagram ∈ w.items ∨ Fit size (.reply datagram)) : ∀ x ∈ w'.items, Fit size x := by
  cases hstep with
  | received =>
    intro x hx
    rcases Multiset.mem_cons.mp hx with rfl | hx
    · exact fit_task (hreceived _ rfl)
    · exact h x hx
  | silent => exact h
  | registered => exact fit_cons h fun hx => ⟨hx.1, hx.2, hrid _ rfl⟩
  | sent hsent => exact fit_cons h fun hx => fit_request hx hsent
  | lost => exact fun x hx => h x (Multiset.mem_cons_of_mem hx)
  | parsed hparsed =>
    refine fit_cons h fun hx => ?_
    obtain ⟨data, hdata, hstorable⟩ := hx _
    cases hdata.symm.trans hparsed
    exact hstorable
  | started htask => exact fit_cons h fun hx => fit_copying hx htask _
  | copied hi hcopy => exact fit_cons h fun hx => fit_copied hx hsize hi hcopy
  | returned => exact fit_cons h fun hx => hx.2.2
  | replied =>
    intro x hx
    rcases Multiset.mem_cons.mp hx with rfl | hmem
    · rcases hreply _ (Multiset.mem_cons_self _ _) with hold | hfit
      · exact h _ hold
      · exact hfit
    · exact h x (Multiset.mem_cons_of_mem hmem)
  | arrived =>
    refine fit_cons h fun hx => ?_
    obtain ⟨data, hsendable, hsent⟩ := hx
    exact ⟨data, _, hsendable, hsent, rfl⟩
  | lookedUp hcreated => exact fit_cons h fun hx => fit_replay hx hcreated
  | exited | answered => exact fun x hx => h x (Multiset.mem_cons_of_mem hx)

theorem reply_mem_items : .reply datagram ∈ s.work.items ↔ datagram ∈ s.replies := by
  obtain ⟨main, queue, workers, table, requests, slaveMain, slaveQueue, slaveWorkers, storage,
    replies⟩ := s
  have hmain : .reply datagram ∉ mainItems main := by
    cases main <;> simp [mainItems]
  have hslaveMain : .reply datagram ∉ slaveItems slaveMain := by
    cases slaveMain <;> simp [slaveItems]
  have hworkers : ∀ worker, workerItem worker ≠ .reply datagram := by
    intro worker
    cases worker <;> simp [workerItem]
  have hslaveWorkers : ∀ worker, SlaveWorker.item worker ≠ .reply datagram := by
    intro worker
    cases worker <;> simp [SlaveWorker.item]
  simp [State.work, hmain, hslaveMain, hworkers, hslaveWorkers]

theorem worker_mem_items (h : worker ∈ s.workers) : workerItem worker ∈ s.work.items := by
  have hmem := Multiset.mem_map_of_mem workerItem h
  simp only [State.work, Multiset.mem_add, hmem, or_true, true_or]

theorem slaveWorker_mem_items (h : worker ∈ s.slaveWorkers) : worker.item ∈ s.work.items := by
  have hmem := Multiset.mem_map_of_mem SlaveWorker.item h
  simp only [State.work, Multiset.mem_add, hmem, or_true, true_or]

def taskToDo : Task → Nat
  | .storage _ => 4110
  | .replay _ => 2

def mainToDo : Main → Nat
  | .waiting | .exited => 0
  | .parsing _ => 4
  | .adding task => taskToDo task + 1

def workerToDo : Worker → Nat
  | .popped task => taskToDo task - 1
  | .registered _ _ => 4108

def slaveMainToDo : Option DriverData → Nat
  | none => 0
  | some _ => 4106

def SlaveWorker.toDo : SlaveWorker → Nat
  | .popped _ => 4104
  | .copying _ left _ => left.card + 7
  | .executed _ => 6

def State.toDo (s : State) : Nat :=
  mainToDo s.main + (s.queue.map taskToDo).sum + (s.workers.map workerToDo).sum +
    4107 * s.requests.card + slaveMainToDo s.slaveMain + 4105 * s.slaveQueue.card +
    (s.slaveWorkers.map SlaveWorker.toDo).sum + 5 * s.replies.card

theorem toDo_step (h : Step n m s e t) (he : isReceived e = false)
    (hfit : ∀ x ∈ s.work.items, Fit size x) : t.toDo < s.toDo := by
  cases h with
  | receiveRequest => cases he
  | recvfrom hmain hreplies =>
    simp only [State.toDo, hmain, hreplies, mainToDo, Multiset.card_cons]
    omega
  | createDataFromBuff hmain | exit hmain =>
    simp only [State.toDo, hmain, mainToDo, taskToDo]
    omega
  | addTask hmain =>
    simp only [State.toDo, hmain, mainToDo, Multiset.map_cons, Multiset.sum_cons]
    omega
  | pop hqueue =>
    rename_i task queue _
    have hpos : 0 < taskToDo task := by
      cases task <;> exact Nat.succ_pos _
    have hsum : (s.queue.map taskToDo).sum = taskToDo task + (queue.map taskToDo).sum := by
      rw [hqueue, Multiset.map_cons, Multiset.sum_cons]
    simp only [State.toDo, hsum, workerToDo, Multiset.map_cons, Multiset.sum_cons]
    omega
  | handlerToId hworkers | sendto hworkers | replay hworkers =>
    simp only [State.toDo, hworkers, workerToDo, taskToDo, Multiset.map_cons, Multiset.sum_cons,
      Multiset.card_cons]
    omega
  | loseRequest hrequests =>
    simp only [State.toDo, hrequests, Multiset.card_cons]
    omega
  | loseReply hreplies =>
    simp only [State.toDo, hreplies, Multiset.card_cons]
    omega
  | slaveReceiveRequest hslave hrequests =>
    simp only [State.toDo, hslave, hrequests, slaveMainToDo, Multiset.card_cons]
    omega
  | slaveAddTask hslave =>
    simp only [State.toDo, hslave, slaveMainToDo, Multiset.card_cons]
    omega
  | slavePop hqueue =>
    simp only [State.toDo, hqueue, SlaveWorker.toDo, Multiset.map_cons, Multiset.sum_cons,
      Multiset.card_cons]
    omega
  | slaveExecute hworkers =>
    rename_i data _ _ _
    have hlen : data.len.toNat ≤ 4096 := by
      have hworker : .popped data ∈ s.slaveWorkers := by
        rw [hworkers]
        exact Multiset.mem_cons_self _ _
      exact (hfit _ (slaveWorker_mem_items hworker)).len
    simp only [State.toDo, hworkers, SlaveWorker.toDo, Multiset.map_cons, Multiset.sum_cons,
      Finset.card_range]
    omega
  | slaveCopy hworkers hi =>
    have hcard := Finset.card_erase_lt_of_mem hi
    simp only [State.toDo, hworkers, SlaveWorker.toDo, Multiset.map_cons, Multiset.sum_cons]
    omega
  | slaveReturn hworkers | slaveSendReply hworkers =>
    simp only [State.toDo, hworkers, SlaveWorker.toDo, Multiset.map_cons, Multiset.sum_cons,
      Finset.card_empty, Multiset.card_cons]
    omega

theorem card_items (s : State) : s.work.items.card = (mainItems s.main).card + s.queue.card +
    s.workers.card + s.requests.card + (slaveItems s.slaveMain).card + s.slaveQueue.card +
    s.slaveWorkers.card + s.replies.card := by
  simp only [State.work, Multiset.card_add, Multiset.card_map]

theorem card_step (h : Step n m s e t) (hregular : Regular s t) (he : e ≠ .exited) :
    t.work.items.card + (isAnswered e).toNat = s.work.items.card + (isReceived e).toNat := by
  rw [card_items, card_items]
  cases h with
  | loseRequest hrequests => exact absurd rfl (hregular.requests _ hrequests)
  | loseReply hreplies => exact absurd rfl (hregular.replies _ hreplies)
  | exit => exact absurd rfl he
  | receiveRequest hmain =>
    simp only [hmain, mainItems, isReceived, isAnswered, Multiset.card_cons, Multiset.card_zero,
      Bool.toNat_true, Bool.toNat_false]
    omega
  | createDataFromBuff hmain =>
    simp only [hmain, mainItems, isReceived, isAnswered, Multiset.card_cons, Multiset.card_zero]
  | recvfrom hmain hreplies =>
    simp only [hmain, hreplies, mainItems, isReceived, isAnswered, Multiset.card_cons,
      Multiset.card_zero]
    omega
  | addTask hmain =>
    simp only [hmain, mainItems, isReceived, isAnswered, Multiset.card_cons, Multiset.card_zero]
    omega
  | pop hqueue =>
    simp only [hqueue, isReceived, isAnswered, Multiset.card_cons]
    omega
  | sendto hworkers | replay hworkers =>
    simp only [hworkers, isReceived, isAnswered, Multiset.card_cons, Bool.toNat_true,
      Bool.toNat_false]
    omega
  | slaveReceiveRequest hslave hrequests =>
    simp only [hslave, hrequests, slaveItems, isReceived, isAnswered, Multiset.card_cons,
      Multiset.card_zero]
    omega
  | slaveAddTask hslave =>
    simp only [hslave, slaveItems, isReceived, isAnswered, Multiset.card_cons, Multiset.card_zero]
    omega
  | slavePop hqueue =>
    simp only [hqueue, isReceived, isAnswered, Multiset.card_cons]
    omega
  | handlerToId hworkers | slaveExecute hworkers | slaveCopy hworkers | slaveReturn hworkers =>
    simp only [hworkers, isReceived, isAnswered, Multiset.card_cons]
  | slaveSendReply hworkers =>
    simp only [hworkers, isReceived, isAnswered, Multiset.card_cons]
    omega

def CanGo (n m : Nat) (s : State) : Prop :=
  ∃ e t, (Step n m s e t ∧ Regular s t) ∧ isReceived e = false

theorem regular_of_le (hrequests : s.requests.card ≤ t.requests.card) (hreplies : t.replies = s.replies) :
    Regular s t where
  requests datagram heq := by
    rw [heq, Multiset.card_cons] at hrequests
    omega
  replies datagram heq := by
    have hcard := congrArg Multiset.card heq
    rw [hreplies, Multiset.card_cons] at hcard
    omega
  behind datagram hmem := .inl (by rwa [hreplies] at hmem)

theorem canGo_worker (h : s.workers = worker ::ₘ workers) (hfit : Fit size (workerItem worker)) :
    CanGo n m s := by
  cases worker with
  | popped task =>
    cases task with
    | storage data =>
      obtain ⟨addr, haddr⟩ := exists_addr s.table
      exact ⟨_, _, ⟨.handlerToId h haddr rfl, regular_of_le (Nat.le_refl _) rfl⟩, rfl⟩
    | replay data =>
      obtain ⟨bytes, hbytes⟩ := Option.isSome_iff_exists.mp hfit
      exact ⟨_, _, ⟨.replay h hbytes, regular_of_le (Nat.le_refl _) rfl⟩, rfl⟩
  | registered data rid =>
    obtain ⟨hservable, hkey, hrid⟩ := hfit
    obtain ⟨datagram, -, hsent, -⟩ := exists_received hservable hkey hrid ⟨data, fun _ => 0⟩
    refine ⟨_, _, ⟨.sendto h hsent, regular_of_le ?_ rfl⟩, rfl⟩
    exact Multiset.card_le_card (Multiset.le_cons_self _ _)

theorem canGo_slaveWorker (h : s.slaveWorkers = worker ::ₘ workers)
    (hfit : Fit s.storage.getSize worker.item) : CanGo n m s := by
  cases worker with
  | popped data =>
    obtain ⟨task, htask⟩ := Storable.exists_task hfit
    let fresh : Fresh := ⟨data, fun _ => 0⟩
    let worker := SlaveWorker.copying task (.range data.len.toNat) (task.buffer fresh)
    have hstep : Step n m s .silent { s with slaveWorkers := worker ::ₘ workers } :=
      .slaveExecute h htask
    exact ⟨_, _, ⟨hstep, regular_of_le (Nat.le_refl _) rfl⟩, rfl⟩
  | copying task left buff =>
    obtain ⟨hleft, hroom, -⟩ := hfit
    rcases left.eq_empty_or_nonempty with rfl | ⟨i, hi⟩
    · exact ⟨_, _, ⟨.slaveReturn h, regular_of_le (Nat.le_refl _) rfl⟩, rfl⟩
    · obtain ⟨storage', buff', hcopy, -, -⟩ := exists_copyByte hroom (hleft i hi).1
      exact ⟨_, _, ⟨.slaveCopy h hi hcopy, regular_of_le (Nat.le_refl _) rfl⟩, rfl⟩
  | executed data =>
    obtain ⟨message, -, -, hsent⟩ := Sendable.exists_sent hfit
    have hmem : .executed data ∈ s.slaveWorkers := by
      rw [h]
      exact Multiset.mem_cons_self _ _
    refine ⟨_, _, ⟨.slaveSendReply h hsent, fun datagram heq => ?_, fun datagram heq => ?_,
      fun datagram hreply => ?_⟩, rfl⟩
    · have hcard := congrArg Multiset.card heq
      rw [Multiset.card_cons] at hcard
      exact absurd hcard (Nat.ne_of_lt (Nat.lt_succ_self _))
    · have hcard := congrArg Multiset.card heq
      simp only [Multiset.card_cons] at hcard
      omega
    · rcases Multiset.mem_cons.mp hreply with rfl | hreply
      · exact .inr ⟨data, hmem, hsent⟩
      · exact .inl hreply

theorem canGo_main (hfit : ∀ x ∈ s.work.items, Fit size x) (hexit : ∀ fresh buf status,
      s.main = .parsing buf → SlaveGateway.createDataFromBuff fresh s.table buf ≠ .error (.exit status))
    (hmain : s.main ≠ .waiting) (halive : s.main ≠ .exited) : CanGo n m s := by
  cases hs : s.main with
  | waiting => exact absurd hs hmain
  | exited => exact absurd hs halive
  | adding task => exact ⟨_, _, ⟨.addTask hs, regular_of_le (Nat.le_refl _) rfl⟩, rfl⟩
  | parsing buf =>
    have hmem : .buffer buf ∈ s.work.items := by
      simp [State.work, hs, mainItems]
    obtain ⟨data, datagram, hsendable, hsent, hbuf⟩ := hfit _ hmem
    cases hid : s.table.idToHandler data.reqId with
    | none =>
      obtain ⟨hlen, q, rfl⟩ := Wire.isReply_of_sendReply hsent
      have hparse := Wire.parseReply_replyHeader data.len data.reqId data.key (0 :: q.dropLast)
      rw [← Wire.master_recvBuffer_reply data.len data.reqId hlen, ← hbuf] at hparse
      exact absurd (SlaveGateway.createDataFromBuff_exit hparse hid)
        (hexit ⟨data, fun _ => 0⟩ buf 1 hs)
    | some found =>
      obtain ⟨replay, hcreated, -, -⟩ := exists_replay hsendable hsent ⟨data, fun _ => 0⟩ hid
      rw [← hbuf] at hcreated
      exact ⟨_, _, ⟨.createDataFromBuff hs hcreated, regular_of_le (Nat.le_refl _) rfl⟩, rfl⟩

/-- As long as something is on its way, some thread can go on with it. -/
theorem canGo_of_ne_idle (hfit : ∀ x ∈ s.work.items, Fit s.storage.getSize x)
    (hexit : ∀ fresh buf status, s.main = .parsing buf →
      SlaveGateway.createDataFromBuff fresh s.table buf ≠ .error (.exit status))
    (halive : s.main ≠ .exited) (hidle : s ≠ idle s.table s.storage) : CanGo (n + 1) (m + 1) s := by
  by_cases hmain : s.main = .waiting
  case neg => exact canGo_main hfit hexit hmain halive
  rcases Multiset.empty_or_exists_mem s.workers with hworkers | ⟨worker, hworker⟩
  case inr =>
    obtain ⟨workers, hworkers⟩ := Multiset.exists_cons_of_mem hworker
    exact canGo_worker hworkers (hfit _ (worker_mem_items hworker))
  rcases Multiset.empty_or_exists_mem s.slaveWorkers with hslaveWorkers | ⟨worker, hworker⟩
  case inr =>
    obtain ⟨workers, hworkers⟩ := Multiset.exists_cons_of_mem hworker
    exact canGo_slaveWorker hworkers (hfit _ (slaveWorker_mem_items hworker))
  rcases Multiset.empty_or_exists_mem s.queue with hqueue | ⟨task, htask⟩
  case inr =>
    obtain ⟨queue, hqueue⟩ := Multiset.exists_cons_of_mem htask
    have hcard : s.workers.card < n + 1 := by
      rw [hworkers]
      exact Nat.succ_pos n
    exact ⟨_, _, ⟨.pop hqueue hcard, regular_of_le (Nat.le_refl _) rfl⟩, rfl⟩
  rcases Multiset.empty_or_exists_mem s.slaveQueue with hslaveQueue | ⟨data, hdata⟩
  case inr =>
    obtain ⟨queue, hqueue⟩ := Multiset.exists_cons_of_mem hdata
    have hcard : s.slaveWorkers.card < m + 1 := by
      rw [hslaveWorkers]
      exact Nat.succ_pos m
    exact ⟨_, _, ⟨.slavePop hqueue hcard, regular_of_le (Nat.le_refl _) rfl⟩, rfl⟩
  cases hslave : s.slaveMain with
  | some data => exact ⟨_, _, ⟨.slaveAddTask hslave, regular_of_le (Nat.le_refl _) rfl⟩, rfl⟩
  | none =>
    rcases Multiset.empty_or_exists_mem s.requests with hrequests | ⟨datagram, hdatagram⟩
    case inr =>
      obtain ⟨requests, hrequests⟩ := Multiset.exists_cons_of_mem hdatagram
      have hmem : .request datagram ∈ s.work.items := by
        have hmem := Multiset.mem_map_of_mem Item.request hdatagram
        simp only [State.work, Multiset.mem_add, hmem, or_true, true_or]
      obtain ⟨data, hdata, -⟩ := hfit _ hmem ⟨readOne, fun _ => 0⟩
      refine ⟨_, _, ⟨.slaveReceiveRequest hslave hrequests hdata, fun datagram _ => ?_,
        fun datagram heq => ?_, fun datagram => .inl⟩, rfl⟩
      · simp [hslave]
      · have hcard := congrArg Multiset.card heq
        simp only [Multiset.card_cons] at hcard
        omega
    rcases Multiset.empty_or_exists_mem s.replies with hreplies | ⟨datagram, hdatagram⟩
    case inr =>
      obtain ⟨replies, hreplies⟩ := Multiset.exists_cons_of_mem hdatagram
      refine ⟨_, _, ⟨.recvfrom hmain hreplies, fun datagram heq => ?_, fun datagram _ => ?_,
        fun datagram hmem => .inl ?_⟩, rfl⟩
      · have hcard := congrArg Multiset.card heq
        simp only [Multiset.card_cons] at hcard
        omega
      · simp [hmain]
      · rw [hreplies]
        exact Multiset.mem_cons_of_mem hmem
    refine absurd ?_ hidle
    obtain ⟨main, queue, workers, table, requests, slaveMain, slaveQueue, slaveWorkers, storage,
      replies⟩ := s
    simp only at hmain hworkers hslaveWorkers hqueue hslaveQueue hslave hrequests hreplies
    subst hmain hworkers hslaveWorkers hqueue hslaveQueue hslave hrequests hreplies
    rfl

theorem exited_of_run (h : (cluster n m storage).Run es s) (hexited : s.main = .exited) :
    .exited ∈ es := by
  induction h with
  | start h =>
    cases h
    cases hexited
  | step _ hstep ih =>
    cases hstep with
    | exit => exact List.mem_cons_self
    | receiveRequest | recvfrom | createDataFromBuff | addTask => cases hexited
    | pop | handlerToId | sendto | replay | loseRequest | loseReply | slaveReceiveRequest
    | slaveAddTask | slavePop | slaveExecute | slaveCopy | slaveReturn | slaveSendReply =>
      exact List.mem_cons_of_mem _ (ih hexited)

theorem issues_of_cons (h : Lifecycle.issues (e :: es) < 2 ^ 31 - 1) :
    Lifecycle.issues es < 2 ^ 31 - 1 := by
  rw [← List.singleton_append, issues_append] at h
  omega

theorem registered_pos (h : Step n m s (.registered rid) t) (htable : s.table.Registers pending)
    (hlt : s.table.reqId.toInt < 2 ^ 31 - 1) : 0 < rid.toInt := by
  cases h with
  | handlerToId _ haddr hissued =>
    obtain ⟨-, hsucc⟩ := htable.handlerToId hlt haddr hissued
    have hnonneg := htable.wf.nonneg
    cases hissued
    have hpos := Int.lt_add_one_of_le hnonneg
    rw [← hsucc] at hpos
    exact hpos

theorem fit_of_run (h : (reliable n m storage).Run es s) (hfew : Lifecycle.issues es < 2 ^ 31 - 1)
    (hreqs : ∀ req, .received req ∈ es → Servable storage.getSize req) :
    ∀ x ∈ s.work.items, Fit storage.getSize x := by
  induction h with
  | start h =>
    cases h
    intro x hx
    cases hx
  | @step es s e t hrun hstep ih =>
    have hearlier := issues_of_cons hfew
    have hfit := ih hearlier fun req hreq => hreqs req (List.mem_cons_of_mem _ hreq)
    obtain ⟨_, _, _, _, toks, htracked⟩ := simulated_of_run (run_work (run_reliable hrun)) hearlier
    have hcounter : s.table.reqId.toInt = Lifecycle.issues es := htracked.counter
    obtain ⟨hstep, hregular⟩ := hstep
    refine fit_step hfit (step_work hstep) htracked.size ?_ ?_ fun datagram hreply => ?_
    · rintro req rfl
      exact hreqs req List.mem_cons_self
    · rintro rid rfl
      exact registered_pos hstep htracked.table (by omega)
    · rcases hregular.behind datagram (reply_mem_items.mp hreply) with hold | ⟨data, hdata, hsent⟩
      · exact .inl (reply_mem_items.mpr hold)
      · exact .inr ⟨data, hfit _ (slaveWorker_mem_items hdata), hsent⟩

theorem count_of_run (h : (reliable n m storage).Run es s) (halive : .exited ∉ es) :
    s.work.items.card + es.countP isAnswered = es.countP isReceived := by
  induction h with
  | start h =>
    cases h
    rfl
  | @step es s e t hrun hstep ih =>
    have hcount := ih fun hmem => halive (List.mem_cons_of_mem _ hmem)
    have hcard := card_step hstep.1 hstep.2 fun he => halive (by rw [he]; exact List.mem_cons_self)
    rw [List.countP_cons, List.countP_cons]
    cases hr : isReceived e <;> cases ha : isAnswered e <;> simp [hr, ha] at hcard ⊢ <;> omega

theorem sum_map_le {α : Type} {f : α → Nat} {s : Multiset α} (h : ∀ x ∈ s, f x ≤ k) :
    (s.map f).sum ≤ k * s.card := by
  induction s using Multiset.induction_on with
  | empty => simp
  | cons x s ih =>
    have hx := h x (Multiset.mem_cons_self _ _)
    have hs := ih fun y hy => h y (Multiset.mem_cons_of_mem hy)
    rw [Multiset.map_cons, Multiset.sum_cons, Multiset.card_cons, Nat.mul_succ]
    omega

theorem toDo_le (hfit : ∀ x ∈ s.work.items, Fit size x) : s.toDo ≤ 4111 * s.work.items.card := by
  have hmain : mainToDo s.main ≤ 4111 * (mainItems s.main).card := by
    cases s.main with
    | adding task => cases task <;> simp [mainToDo, mainItems, taskToDo]
    | waiting | parsing | exited => simp [mainToDo, mainItems]
  have hslaveMain : slaveMainToDo s.slaveMain ≤ 4111 * (slaveItems s.slaveMain).card := by
    cases s.slaveMain <;> simp [slaveMainToDo, slaveItems]
  have hqueue : (s.queue.map taskToDo).sum ≤ 4111 * s.queue.card := by
    refine sum_map_le fun task _ => ?_
    cases task <;> simp [taskToDo]
  have hworkers : (s.workers.map workerToDo).sum ≤ 4111 * s.workers.card := by
    refine sum_map_le fun worker _ => ?_
    cases worker with
    | popped task => cases task <;> simp [workerToDo, taskToDo]
    | registered => simp [workerToDo]
  have hslaveWorkers : (s.slaveWorkers.map SlaveWorker.toDo).sum ≤ 4111 * s.slaveWorkers.card := by
    refine sum_map_le fun worker hworker => ?_
    cases worker with
    | popped | executed => simp [SlaveWorker.toDo]
    | copying task left buff =>
      obtain ⟨hleft, -⟩ := hfit _ (slaveWorker_mem_items hworker)
      have hsubset : left ⊆ .range 4096 := fun i hi => Finset.mem_range.mpr (hleft i hi).2
      have hcard := Finset.card_le_card hsubset
      rw [Finset.card_range] at hcard
      simp only [SlaveWorker.toDo]
      omega
  rw [card_items, State.toDo]
  omega

/-- Each answer is one to an earlier request, with its handle, and each request has one answer. -/
def AnsweredOnce (es : List Event) : Prop :=
  ∃ f : Nat → Nat,
    (∀ a data bytes, Occurs es a (.answered data bytes) → f a < a ∧ ∃ req status payload,
      Occurs es (f a) (.received req) ∧
        bytes = NBDDriverProxy.initReply status req.handler ++ payload) ∧
    ∀ i req, Occurs es i (.received req) → ∃! a, Lifecycle.Answered es a ∧ f a = i

theorem initReply_of_replies (h : Replies size req done bytes) :
    ∃ status payload, bytes = NBDDriverProxy.initReply status req.handler ++ payload := by
  unfold Replies at h
  split at h
  · obtain ⟨-, status, payload, heq, -⟩ := h
    exact ⟨status, payload, heq⟩
  · split at h
    · obtain ⟨-, status, heq⟩ := h
      exact ⟨status, [], by rw [heq, List.append_nil]⟩
    · exact ⟨0, [], by rw [h, List.append_nil]⟩

theorem answeredOnce_of_count (h : (cluster n m storage).Run es s)
    (hfew : Lifecycle.issues es < 2 ^ 31 - 1) (hle : es.countP isReceived ≤ es.countP isAnswered) :
    AnsweredOnce es := by
  obtain ⟨xs, f, ⟨_, hrun⟩, hmatched, honce⟩ := exists_matched h hfew
  refine ⟨f, fun a data bytes ha => ?_, fun i req hi => ?_⟩
  · obtain ⟨hlt, req, done, hreceived, -, hreplies, -⟩ := hmatched.replies hrun ha
    obtain ⟨status, payload, heq⟩ := initReply_of_replies hreplies
    exact ⟨hlt, req, status, payload, hreceived, heq⟩
  · obtain ⟨a, ha, rfl⟩ := exists_answer hle (fun a ha => (hmatched.received ha).2) honce hi
    exact ⟨a, ⟨ha, rfl⟩, fun a' ha' => honce a' a ha'.1 ha ha'.2⟩

theorem not_exit (h : Tracked size es s.work toks a) (hmain : s.main = .parsing buf) (fresh : Fresh)
    (status : Int) : SlaveGateway.createDataFromBuff fresh s.table buf ≠ .error (.exit status) := by
  have hmem : .buffer buf ∈ s.work.items := by
    simp [State.work, hmain, mainItems]
  obtain ⟨items, hitems⟩ := Multiset.exists_cons_of_mem hmem
  have hwork : s.work = ⟨.buffer buf ::ₘ items, s.table, s.storage⟩ := by
    rw [← hitems]
    rfl
  rw [hwork] at h
  obtain ⟨_, _, _, _, _, _, _, hlookup⟩ := h.buffer
  exact (hlookup fresh).1 status

/-- When the network loses nothing and a NUL is behind every buffer sent, for at least one worker on
each side, requests that `Servable` admits and fewer ids than `2 ^ 31 - 1`, whatever the order of the
steps: the requests that are on their way take at most 4111 steps each, and when no thread can go on
with them nothing is on its way any more and each request has had one answer. -/
theorem run_drains (h : (reliable (n + 1) (m + 1) storage).Run (more ++ es) s)
    (hfew : Lifecycle.issues (more ++ es) < 2 ^ 31 - 1)
    (hreqs : ∀ req, .received req ∈ more ++ es → Servable storage.getSize req)
    (hmore : ∀ e ∈ more, isReceived e = false) :
    more.length + 4111 * es.countP isAnswered ≤ 4111 * es.countP isReceived ∧
    (¬ CanGo (n + 1) (m + 1) s → s = idle s.table s.storage ∧ AnsweredOnce (more ++ es)) := by
  obtain ⟨_, _, _, _, toks, htracked⟩ := simulated_of_run (run_work (run_reliable h)) hfew
  have hsize : s.storage.getSize = storage.getSize := htracked.size
  have hissues := issues_append more es
  constructor
  · obtain ⟨s₀, hrun, hle⟩ := h.length_le (m := State.toDo) fun e newer u v hsuffix hrun hstep => by
      obtain ⟨newest, rfl⟩ := hsuffix
      have hnewest := issues_append newest (e :: newer)
      have hnewer := issues_append (e :: newer) es
      have hfew' : Lifecycle.issues (e :: (newer ++ es)) < 2 ^ 31 - 1 := by
        rw [← List.cons_append]
        omega
      have he : e ∈ newest ++ e :: newer := List.mem_append_right _ List.mem_cons_self
      refine toDo_step hstep.1 (hmore e he) (fit_of_run hrun (issues_of_cons hfew') fun req hreq => ?_)
      refine hreqs req ?_
      rw [List.append_assoc]
      exact List.mem_append_right _ (List.mem_cons_of_mem _ hreq)
    have htodo := toDo_le (fit_of_run hrun (by omega) fun req hreq =>
      hreqs req (List.mem_append_right _ hreq))
    have hcount := count_of_run hrun fun hmem => htracked.alive (List.mem_append_right _ hmem)
    omega
  · intro hstuck
    have hidle : s = idle s.table s.storage := by
      by_contra hne
      refine hstuck (canGo_of_ne_idle ?_ (fun fresh buf status hmain => ?_) (fun hexited => ?_) hne)
      · rw [hsize]
        exact fit_of_run h hfew hreqs
      · exact not_exit htracked hmain fresh status
      · exact htracked.alive (exited_of_run (run_reliable h) hexited)
    have hcount := count_of_run h htracked.alive
    have hitems : s.work.items = 0 := by
      rw [hidle]
      rfl
    rw [hitems, Multiset.card_zero] at hcount
    exact ⟨hidle, answeredOnce_of_count (run_reliable h) hfew (by omega)⟩

theorem exists_drained (h : (reliable n m storage).Run es s)
    (hfew : Lifecycle.issues es + s.toDo < 2 ^ 31 - 1)
    (hreqs : ∀ req, .received req ∈ es → Servable storage.getSize req) :
    ∃ more t, (reliable n m storage).Run (more ++ es) t ∧ (∀ e ∈ more, isReceived e = false) ∧
      Lifecycle.issues (more ++ es) < 2 ^ 31 - 1 ∧ ¬ CanGo n m t := by
  induction hleft : s.toDo using Nat.strong_induction_on generalizing es s with
  | h k ih =>
    by_cases hgo : CanGo n m s
    case neg => exact ⟨[], s, h, by simp, Nat.lt_of_le_of_lt (Nat.le_add_right _ _) hfew, hgo⟩
    obtain ⟨e, t, hstep, he⟩ := hgo
    have hlt := toDo_step hstep.1 he (fit_of_run h (by omega) hreqs)
    have hone : Lifecycle.issues [e] ≤ 1 := by
      cases e <;> simp [Lifecycle.issues]
    have hissues := issues_append [e] es
    rw [List.singleton_append] at hissues
    have hreqs' : ∀ req, .received req ∈ e :: es → Servable storage.getSize req := by
      intro req hreq
      rcases List.mem_cons.mp hreq with rfl | hreq
      · cases he
      · exact hreqs req hreq
    obtain ⟨more, u, hrun, hmore, hfew', hstuck⟩ :=
      ih t.toDo (by omega) (h.step hstep) (by omega) hreqs' rfl
    refine ⟨more ++ [e], u, ?_, fun x hx => ?_, ?_, hstuck⟩
    · rw [List.append_assoc]
      exact hrun
    · rcases List.mem_append.mp hx with hx | hx
      · exact hmore x hx
      · rw [List.mem_singleton.mp hx]
        exact he
    · rw [List.append_assoc]
      exact hfew'

theorem run_drains_read : ∃ (more : List Event) (s : State),
    (reliable 1 1 ⟨[65]⟩).Run (more ++ [.received readOne]) s ∧ more.length ≤ 4111 ∧
    s = idle s.table s.storage ∧ AnsweredOnce (more ++ [.received readOne]) := by
  have hreqs : ∀ req, .received req ∈ [Event.received readOne] → Servable 1 req := by
    intro req hreq
    cases List.mem_singleton.mp hreq
    exact servable_readOne
  have hreceived : (reliable 1 1 ⟨[65]⟩).Run [.received readOne] _ :=
    .step (.start rfl) ⟨.receiveRequest rfl servable_readOne.accepted (by decide),
      regular_of_le (Nat.le_refl _) rfl⟩
  obtain ⟨more, s, hrun, hmore, hfew, hstuck⟩ := exists_drained hreceived (by decide) hreqs
  have hdrains := run_drains hrun hfew (fun req hreq => ?_) hmore
  · have hone : [Event.received readOne].countP isReceived = 1 := rfl
    have hnone : [Event.received readOne].countP isAnswered = 0 := rfl
    rw [hone, hnone] at hdrains
    exact ⟨more, s, hrun, hdrains.1, hdrains.2 hstuck⟩
  · rcases List.mem_append.mp hreq with hreq | hreq
    · cases hmore _ hreq
    · exact hreqs req hreq

end GreenCloud.Cluster
