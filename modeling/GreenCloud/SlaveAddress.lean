import GreenCloud.SlaveMemory
import GreenCloud.System

/-! Where the slave sends its replies. `m_servaddr` is one field of the proxy: the main thread
overwrites it with the sender of every datagram, the workers read it for every reply. -/

namespace GreenCloud.SlaveAddress

open CLib Transition

/-- `struct sockaddr_in` -/
structure SockAddr where
  port : UInt16
  addr : UInt32
  deriving DecidableEq

/-- A request with the address its datagram came from, which the program does not keep with it. -/
structure Request where
  data : DriverData
  sender : SockAddr

/-- The main thread: in `WaitTimeOut`, with a task for the pool, or behind the loop of `Run`. -/
inductive Main
  | waiting
  | adding (request : Request)
  | stopped

/-- A worker with a task, before and behind the call of the storage. -/
inductive Worker
  | popped (request : Request)
  | executed (request : Request)

structure State where
  servaddr : SockAddr
  connected : Bool
  main : Main
  queue : Multiset Request
  workers : Multiset Worker

inductive Event
  | received (sender : SockAddr) (datagram : Bytes)
  | replied (request : Request) (datagram : Bytes) (dest : SockAddr)
  | silent

def init (servaddr : SockAddr) : State where
  servaddr := servaddr
  connected := true
  main := .waiting
  queue := 0
  workers := 0

/-- The keys of the tasks that the slave adds to its engine. Another key is thrown as `Badkey`. -/
def taskKeys : List FactoryKey := [.read, .write, .disconnect]

/-- One step of a thread of the slave, which has `m` workers. -/
inductive Step (m : Nat) : State → Event → State → Prop
  | receiveRequest : s.main = .waiting → s.connected →
    SlaveDriverProxy.receiveRequest fresh datagram = some data →
    Step m s (.received sender datagram)
      { s with main := .adding ⟨data, sender⟩, servaddr := sender }
  | addTask : s.main = .adding request → request.data.key ∈ taskKeys →
    Step m s .silent
      { s with main := if request.data.key = .disconnect then .stopped else .waiting,
               queue := request ::ₘ s.queue }
  | pop : s.queue = request ::ₘ queue → s.workers.card < m →
    Step m s .silent { s with queue := queue, workers := .popped request ::ₘ s.workers }
  | storage : s.workers = .popped request ::ₘ workers → request.data.key ≠ .disconnect →
    System.Executed request.data data →
    Step m s .silent { s with workers := .executed { request with data := data } ::ₘ workers }
  | disconnect : s.workers = .popped request ::ₘ workers → request.data.key = .disconnect →
    Step m s .silent { s with workers := workers, connected := false }
  | sendReply : s.workers = .executed request ::ₘ workers → s.connected →
    SlaveDriverProxy.sendReply request.data after = some datagram →
    Step m s (.replied request datagram s.servaddr) { s with workers := workers }
  | sendtoFails : s.workers = .executed request ::ₘ workers → s.connected = false →
    Step m s .silent { s with workers := workers }

def slave (m : Nat) (servaddr : SockAddr) : Transition State Event where
  init s := s = init servaddr
  step := Step m

def RepliesReturn (es : List Event) : Prop :=
  ∀ request datagram dest, .replied request datagram dest ∈ es → dest = request.sender

/-- The sender of the latest datagram, and before the first one the address of the configuration. -/
def lastSender (servaddr : SockAddr) : List Event → SockAddr
  | [] => servaddr
  | .received sender _ :: _ => sender
  | _ :: es => lastSender servaddr es

variable {m : Nat} {servaddr : SockAddr} {es : List Event} {s t : State} {e : Event}

theorem run_servaddr (h : (slave m servaddr).Run es s) : s.servaddr = lastSender servaddr es := by
  refine h.invariant (P := fun es s => s.servaddr = lastSender servaddr es) ?_ ?_
  · rintro _ rfl
    rfl
  · intro es s e t hs hstep
    cases hstep with
    | receiveRequest => rfl
    | _ => exact hs

theorem run_replied (h : (slave m servaddr).Run es s)
    (hreplied : .replied request datagram dest :: before <:+ es) :
    dest = lastSender servaddr before := by
  induction h with
  | start => exact absurd (List.suffix_nil.mp hreplied) nofun
  | step hrun hstep ih =>
    rcases List.suffix_cons_iff.mp hreplied with heq | hsuffix
    · obtain ⟨rfl, rfl⟩ := List.cons.inj heq
      cases hstep
      exact run_servaddr hrun
    · exact ih hsuffix

/-- The replies of a run go back to their requesters exactly if each of them is sent while the
latest datagram that came is from its requester's address. -/
theorem replies_return_iff (h : (slave m servaddr).Run es s) :
    RepliesReturn es ↔ ∀ before request datagram dest,
      .replied request datagram dest :: before <:+ es →
        lastSender servaddr before = request.sender := by
  constructor
  · intro hreturn before request datagram dest hsuffix
    rw [← run_replied h hsuffix]
    exact hreturn request datagram dest (hsuffix.subset (List.mem_cons_self ..))
  · intro hlast request datagram dest hmem
    obtain ⟨after, before, rfl⟩ := List.append_of_mem hmem
    have hsuffix : .replied request datagram dest :: before <:+
        after ++ .replied request datagram dest :: before := List.suffix_append ..
    rw [run_replied h hsuffix]
    exact hlast before request datagram dest hsuffix

def Main.requests : Main → Multiset Request
  | .adding request => {request}
  | _ => 0

def Worker.request : Worker → Request
  | .popped request | .executed request => request

def State.requests (s : State) : Multiset Request :=
  s.main.requests + s.queue + s.workers.map Worker.request

def Origin (es : List Event) (request : Request) : Prop :=
  ∃ datagram fresh data, .received request.sender datagram ∈ es ∧
    SlaveDriverProxy.receiveRequest fresh datagram = some data ∧
    request.data = { data with buff := request.data.buff }

theorem Origin.cons (h : Origin es request) (e : Event) : Origin (e :: es) request := by
  obtain ⟨datagram, fresh, data, hmem, hreceive⟩ := h
  exact ⟨datagram, fresh, data, List.mem_cons_of_mem _ hmem, hreceive⟩

theorem origin_step (h : ∀ request ∈ s.requests, Origin es request) (hstep : Step m s e t) :
    ∀ request ∈ t.requests, Origin (e :: es) request := by
  obtain ⟨servaddr, connected, main, queue, workers⟩ := s
  have hcons := fun request hr => (h request hr).cons e
  simp only [State.requests, Multiset.mem_add] at hcons ⊢
  cases hstep with
  | receiveRequest hmain hconnected hreceive =>
    cases hmain
    rintro request ((hr | hr) | hr)
    · obtain rfl := Multiset.mem_singleton.mp hr
      exact ⟨_, _, _, List.mem_cons_self .., hreceive, rfl⟩
    · exact hcons request (.inl (.inr hr))
    · exact hcons request (.inr hr)
  | addTask hmain =>
    cases hmain
    rintro request ((hr | hr) | hr)
    · dsimp only at hr
      split at hr <;> cases hr
    · rcases Multiset.mem_cons.mp hr with rfl | hr
      · exact hcons request (.inl (.inl (Multiset.mem_singleton_self request)))
      · exact hcons request (.inl (.inr hr))
    · exact hcons request (.inr hr)
  | pop hqueue =>
    obtain rfl : queue = _ := hqueue
    rintro request ((hr | hr) | hr)
    · exact hcons request (.inl (.inl hr))
    · exact hcons request (.inl (.inr (Multiset.mem_cons_of_mem hr)))
    · rw [Multiset.map_cons] at hr
      rcases Multiset.mem_cons.mp hr with rfl | hr
      · exact hcons _ (.inl (.inr (Multiset.mem_cons_self ..)))
      · exact hcons request (.inr hr)
  | storage hworkers hkey hexecuted =>
    obtain rfl : workers = _ := hworkers
    rw [Multiset.map_cons] at hcons ⊢
    rintro request (hr | hr)
    · exact hcons request (.inl hr)
    · rcases Multiset.mem_cons.mp hr with rfl | hr
      · obtain ⟨datagram, fresh, data, hmem, hreceive, hdata⟩ :=
          hcons _ (.inr (Multiset.mem_cons_self ..))
        obtain ⟨buff, rfl, -⟩ := hexecuted
        exact ⟨datagram, fresh, data, hmem, hreceive,
          congrArg (fun data => { data with buff := buff }) hdata⟩
      · exact hcons request (.inr (Multiset.mem_cons_of_mem hr))
  | disconnect hworkers | sendReply hworkers | sendtoFails hworkers =>
    obtain rfl : workers = _ := hworkers
    rw [Multiset.map_cons] at hcons
    rintro request (hr | hr)
    · exact hcons request (.inl hr)
    · exact hcons request (.inr (Multiset.mem_cons_of_mem hr))

theorem run_origin (h : (slave m servaddr).Run es s)
    (hreplied : .replied request datagram dest ∈ es) : Origin es request := by
  have hinv := h.invariant
    (P := fun es s => (∀ request ∈ s.requests, Origin es request) ∧
      ∀ request datagram dest, .replied request datagram dest ∈ es → Origin es request)
    (by
      rintro _ rfl
      exact ⟨by simp [State.requests, init, Main.requests], nofun⟩)
    (by
      rintro es s e t ⟨hrequests, hreplies⟩ hstep
      refine ⟨origin_step hrequests hstep, fun request datagram dest hr => ?_⟩
      rcases List.mem_cons.mp hr with rfl | hr
      · cases hstep with
        | sendReply hworkers =>
          refine (hrequests request ?_).cons _
          simp [State.requests, hworkers, Worker.request]
      · exact (hreplies request datagram dest hr).cons e)
  exact hinv.2 request datagram dest hreplied

theorem replies_return_of_one_peer (h : (slave m servaddr).Run es s)
    (hpeer : ∀ sender datagram, .received sender datagram ∈ es → sender = servaddr) :
    RepliesReturn es := by
  have hlast : ∀ before, before <:+ es → lastSender servaddr before = servaddr := by
    intro before hsuffix
    induction before with
    | nil => rfl
    | cons e before ih =>
      cases e with
      | received sender datagram =>
        exact hpeer sender datagram (hsuffix.subset (List.mem_cons_self ..))
      | _ => exact ih ((List.suffix_cons ..).trans hsuffix)
  intro request datagram dest hmem
  obtain ⟨datagram', -, -, hreceived, -⟩ := run_origin h hmem
  obtain ⟨after, before, rfl⟩ := List.append_of_mem hmem
  have hsuffix : .replied request datagram dest :: before <:+
      after ++ .replied request datagram dest :: before := List.suffix_append ..
  rw [run_replied h hsuffix, hlast before ((List.suffix_cons ..).trans hsuffix),
    hpeer _ _ hreceived]

theorem exists_executed_reply (hkey : data.key = .read ∨ data.key = .write) :
    ∃ data' datagram, System.Executed data data' ∧
      SlaveDriverProxy.sendReply data' [0] = some datagram := by
  have hsend : ∀ data' message, SlaveDriverProxy.message data' [0] = some message →
      message = [] → ∃ datagram, SlaveDriverProxy.sendReply data' [0] = some datagram := by
    rintro data' _ hmessage rfl
    have hle := SlaveDriverProxy.length_replyHeader_le data'.len data'.reqId data'.key
    have hfit : (SlaveDriverProxy.replyHeader data'.len data'.reqId data'.key).length +
        ([] : Bytes).length ≤ buffSize := Nat.le_trans hle (by decide)
    rw [SlaveDriverProxy.sendReply_eq, hmessage, Option.bind_some, if_pos hfit]
    exact ⟨_, rfl⟩
  rcases hkey with hkey | hkey
  · let data' : DriverData := { data with buff := zeros data.len.toNat }
    have hexecuted : System.Executed data data' :=
      ⟨_, rfl, by rw [if_pos hkey]; exact List.length_replicate ..⟩
    have hmessage : SlaveDriverProxy.message data' [0] = some [] := by
      have hzeros : zeros data.len.toNat ++ [0] = 0 :: zeros data.len.toNat :=
        List.replicate_succ'.symm.trans List.replicate_succ
      rw [SlaveDriverProxy.message, if_pos hkey, hzeros]
      rfl
    obtain ⟨datagram, hsend⟩ := hsend data' [] hmessage rfl
    exact ⟨data', datagram, hexecuted, hsend⟩
  · have hexecuted : System.Executed data data := ⟨data.buff, rfl, by rw [if_neg (by simp [hkey])]⟩
    obtain ⟨datagram, hsend⟩ := hsend data [] (by simp [SlaveDriverProxy.message, hkey]) rfl
    exact ⟨data, datagram, hexecuted, hsend⟩

def overtaken (a b : SockAddr) (first second : Bytes) (request : Request) (datagram : Bytes) :
    List Event :=
  [.replied request datagram b, .received b second, .silent, .silent, .silent, .received a first]

/-- Every request of a peer and every datagram of another one can come so, and the reply to the one
goes to the other. -/
theorem exists_overtaken (hm : 0 < m) (servaddr a b : SockAddr)
    (hfirst : SlaveDriverProxy.receiveRequest fresh first = some data)
    (hkey : data.key = .read ∨ data.key = .write)
    (hsecond : SlaveDriverProxy.receiveRequest fresh' second = some other) :
    ∃ s data datagram,
      (slave m servaddr).Run (overtaken a b first second ⟨data, a⟩ datagram) s := by
  have htask : data.key ∈ taskKeys := by
    rcases hkey with h | h <;> simp [taskKeys, h]
  have hconnect : data.key ≠ .disconnect := by
    rcases hkey with h | h <;> simp [h]
  obtain ⟨data', datagram, hexecuted, hreply⟩ := exists_executed_reply hkey
  have hstart : (slave m servaddr).Run [] (init servaddr) := .start rfl
  have hreceived := hstart.then_ (.received a first) (.receiveRequest rfl rfl hfirst)
  have hadded := hreceived.then_ .silent (.addTask rfl htask)
  have hpopped := hadded.then_ .silent (.pop (show _ = (⟨data, a⟩ : Request) ::ₘ 0 from rfl) hm)
  have hdone := hpopped.then_ .silent
    (.storage (show _ = Worker.popped ⟨data, a⟩ ::ₘ 0 from rfl) hconnect hexecuted)
  have hlater := hdone.then_ (.received b second)
    (.receiveRequest (if_neg hconnect) rfl hsecond)
  have hreplied := hlater.then_ (.replied ⟨data', a⟩ datagram b)
    (.sendReply (show _ = Worker.executed ⟨data', a⟩ ::ₘ 0 from rfl) rfl hreply)
  exact ⟨_, data', datagram, hreplied⟩

/-- The second datagram comes from the requester too. -/
theorem replies_return_same : ∃ first second s data datagram,
    (slave 1 ⟨1234, 0⟩).Run
      (overtaken ⟨1111, 1⟩ ⟨1111, 1⟩ first second ⟨data, ⟨1111, 1⟩⟩ datagram) s ∧
    RepliesReturn (overtaken ⟨1111, 1⟩ ⟨1111, 1⟩ first second ⟨data, ⟨1111, 1⟩⟩ datagram) := by
  let fresh : Fresh := ⟨⟨0, 0, .replicate 8 0, 0, .ignore, 7, []⟩, fun _ => 0⟩
  obtain ⟨first, -, hfirst⟩ := SlaveDriverProxy.exists_read_datagram fresh 0 4 1
  obtain ⟨second, -, hsecond⟩ := SlaveDriverProxy.exists_read_datagram fresh 4 4 2
  obtain ⟨s, data, datagram, hrun⟩ := exists_overtaken (Nat.zero_lt_one) ⟨1234, 0⟩ ⟨1111, 1⟩
    ⟨1111, 1⟩ hfirst (.inl rfl) hsecond
  refine ⟨first, second, s, data, datagram, hrun, (replies_return_iff hrun).mpr ?_⟩
  intro before request datagram' dest hsuffix
  simp only [overtaken, List.suffix_cons_iff, List.suffix_nil, List.cons.injEq, Event.replied.injEq,
    reduceCtorEq, false_and, or_false] at hsuffix
  obtain ⟨⟨rfl, -⟩, rfl⟩ := hsuffix
  rfl

/-- It comes from another one. -/
theorem not_replies_return : ∃ es s, (slave 1 ⟨1234, 0⟩).Run es s ∧ ¬ RepliesReturn es := by
  let fresh : Fresh := ⟨⟨0, 0, .replicate 8 0, 0, .ignore, 7, []⟩, fun _ => 0⟩
  obtain ⟨first, -, hfirst⟩ := SlaveDriverProxy.exists_read_datagram fresh 0 4 1
  obtain ⟨second, -, hsecond⟩ := SlaveDriverProxy.exists_read_datagram fresh 4 4 2
  obtain ⟨s, data, datagram, hrun⟩ := exists_overtaken (Nat.zero_lt_one) ⟨1234, 0⟩ ⟨1111, 1⟩
    ⟨1111, 2⟩ hfirst (.inl rfl) hsecond
  refine ⟨_, s, hrun, fun h => ?_⟩
  have hdest : (⟨1111, 2⟩ : SockAddr) = ⟨1111, 1⟩ :=
    h ⟨data, ⟨1111, 1⟩⟩ datagram ⟨1111, 2⟩ (List.mem_cons_self ..)
  exact absurd hdest (by decide)

end GreenCloud.SlaveAddress
