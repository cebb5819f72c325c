import GreenCloud.NBDDriverProxy
import GreenCloud.Transition
import Mathlib.Logic.Function.Basic

/-! `NBDDriverProxy::SendReply` among the workers. Each of them writes its reply under `m_mutex`,
with as many writes as the socket takes for it. -/

namespace GreenCloud.NBDReplies

open CLib Transition NBDDriverProxy

variable {ι : Type}

/-- `sizeof(struct nbd_reply)` -/
abbrev replySize : Nat := 16

/-- The variables of `WriteAll`. -/
structure Writer where
  buff : Bytes
  count : Nat

/-- A turn of `WriteAll` where `write` takes `k` bytes. -/
def Writer.write (k : Nat) (w : Writer) : Option (Bytes × Writer) :=
  if 0 < w.count ∧ k ≤ w.count then
    (fetch k w.buff).map fun taken => (taken, ⟨w.buff.drop k, w.count - k⟩)
  else none

/-- Where a worker is in `SendReply`: before the lock, in the first `WriteAll` or in the second. -/
inductive Place
  | idle
  | locking (data : DriverData)
  | header (data : DriverData) (w : Writer)
  | payload (data : DriverData) (w : Writer)

def Place.data : Place → Option DriverData
  | idle => none
  | locking data | header data _ | payload data _ => some data

def Place.hasLock : Place → Bool
  | idle | locking _ => false
  | header .. | payload .. => true

def Place.write (k : Nat) : Place → Option (Bytes × Place)
  | header data w => (w.write k).map fun (taken, w) => (taken, header data w)
  | payload data w => (w.write k).map fun (taken, w) => (taken, payload data w)
  | _ => none

inductive Place.Done : Place → Prop
  | header (data : DriverData) (buff : Bytes) : data.key ≠ .read → Done (header data ⟨buff, 0⟩)
  | payload (data : DriverData) (buff : Bytes) : Done (payload data ⟨buff, 0⟩)

structure State (ι : Type) where
  lock : Option ι
  place : ι → Place
  socket : Bytes

inductive Event (ι : Type)
  | called (thread : ι) (data : DriverData)
  | locked (thread : ι)
  | wrote (thread : ι) (k : Nat)
  | wroteHeader (thread : ι)
  | returned (thread : ι)

def init : State ι := ⟨none, fun _ => .idle, []⟩

variable [DecidableEq ι]

def State.move (s : State ι) (i : ι) (p : Place) : State ι :=
  { s with place := Function.update s.place i p }

@[simp] theorem State.place_move (s : State ι) (i : ι) (p : Place) : (s.move i p).place i = p :=
  Function.update_self ..

theorem State.place_move_of_ne (s : State ι) (p : Place) (h : j ≠ i) :
    (s.move i p).place j = s.place j :=
  Function.update_of_ne h ..

def Step (s : State ι) (e : Event ι) (t : State ι) : Prop :=
  match e with
  | .called i data => s.place i = .idle ∧ t = s.move i (.locking data)
  | .locked i => ∃ data, s.place i = .locking data ∧ s.lock = none ∧
      t = { s.move i (.header data ⟨initReply data.status data.handler, replySize⟩) with
        lock := some i }
  | .wrote i k => ∃ taken p, (s.place i).write k = some (taken, p) ∧
      t = { s.move i p with socket := s.socket ++ taken }
  | .wroteHeader i => ∃ data buff, s.place i = .header data ⟨buff, 0⟩ ∧ data.key = .read ∧
      t = s.move i (.payload data ⟨data.buff, data.len.toNat⟩)
  | .returned i => (s.place i).Done ∧ t = { s.move i .idle with lock := none }

def proxy : Transition (State ι) (Event ι) where
  init s := s = init
  step := Step

def call (i : ι) : List (Event ι) → Option DriverData
  | [] => none
  | .called j data :: es => if j = i then some data else call i es
  | _ :: es => call i es

def finished : List (Event ι) → List DriverData
  | [] => []
  | .returned i :: es => finished es ++ (call i es).toList
  | _ :: es => finished es

/-- The reply of a call: a header with the magic number and the handle of the request, and behind it
`m_len` bytes of the buffer if the key is `READ`. -/
structure IsReply (data : DriverData) (reply : Bytes) : Prop where
  size : replySize ≤ reply.length
  magic : reply.take 4 = replyMagic
  error : (reply.drop 4).take 4 = intBytes data.status
  handle : (reply.drop 8).take 8 = data.handler.toList
  payload : reply.drop replySize = if data.key = .read then data.buff.take data.len.toNat else []
  length : data.key = .read → data.len.toNat ≤ data.buff.length

def Place.Wrote : Place → Bytes → Prop
  | idle, part | locking _, part => part = []
  | header data w, part =>
      part ++ w.buff = initReply data.status data.handler ∧ w.buff.length = w.count
  | payload data w, part => data.key = .read ∧ ∃ taken,
      part = initReply data.status data.handler ++ taken ∧
      taken ++ w.buff = data.buff ∧ taken.length + w.count = data.len.toNat

/-- On the socket are whole replies, and behind them what the holder of the lock has written. -/
structure Whole (es : List (Event ι)) (s : State ι) : Prop where
  holder : ∀ i, (s.place i).hasLock ↔ s.lock = some i
  own : ∀ i data, (s.place i).data = some data → call i es = some data
  socket : ∃ replies part, List.Forall₂ (fun data reply => sendReply data = some reply)
    (finished es) replies ∧ s.socket = replies.flatten ++ part ∧
    (s.lock = none → part = []) ∧ ∀ i, s.lock = some i → (s.place i).Wrote part

@[simp] theorem length_initReply (status : Int32) (handler : Handle) :
    (initReply status handler).length = replySize := by
  simp [initReply, replyMagic, intBytes]

theorem isReply_of_sendReply (h : sendReply data = some reply) : IsReply data reply := by
  obtain ⟨payload, rfl, hpayload, hlength⟩ : ∃ payload,
      reply = initReply data.status data.handler ++ payload ∧
      payload = (if data.key = .read then data.buff.take data.len.toNat else []) ∧
      (data.key = .read → data.len.toNat ≤ data.buff.length) := by
    by_cases hkey : data.key = .read
    · rw [sendReply_read hkey, Option.map_eq_some_iff] at h
      obtain ⟨payload, hfetch, rfl⟩ := h
      obtain ⟨hlen, rest, hbuff⟩ := fetch_eq_some.mp hfetch
      refine ⟨payload, rfl, ?_, fun _ => ?_⟩
      · rw [if_pos hkey, hbuff, List.take_left' hlen]
      · rw [hbuff, List.length_append, hlen]
        exact Nat.le_add_right _ _
    · rw [sendReply_of_ne_read hkey] at h
      cases h
      exact ⟨[], by simp, by rw [if_neg hkey], fun h => absurd h hkey⟩
  have hheader : initReply data.status data.handler =
      replyMagic ++ (intBytes data.status ++ data.handler.toList) := List.append_assoc ..
  have hmagic : replyMagic.length = 4 := rfl
  have herror : (intBytes data.status).length = 4 := rfl
  have hhandle : data.handler.toList.length = 8 := by simp
  refine ⟨by simp, ?_, ?_, ?_, ?_, hlength⟩
  · rw [hheader, List.append_assoc, List.take_left' hmagic]
  · rw [hheader, List.append_assoc, List.drop_left' hmagic, List.append_assoc,
      List.take_left' herror]
  · rw [hheader, ← List.append_assoc, List.append_assoc,
      List.drop_left' (by rw [List.length_append, hmagic, herror]), List.take_left' hhandle]
  · rw [List.drop_left' (length_initReply ..), hpayload]

theorem Place.Done.reply {p : Place} (hdone : p.Done) (hwrote : p.Wrote part) :
    ∃ data, p.data = some data ∧ sendReply data = some part := by
  cases hdone with
  | header data buff hkey =>
    obtain ⟨hpart, hlen⟩ := hwrote
    obtain rfl : buff = [] := List.length_eq_zero_iff.mp hlen
    refine ⟨data, rfl, ?_⟩
    rw [sendReply_of_ne_read hkey, ← hpart, List.append_nil]
  | payload data buff =>
    obtain ⟨hkey, taken, rfl, hbuff, hlen⟩ := hwrote
    refine ⟨data, rfl, ?_⟩
    rw [sendReply_read hkey, fetch_eq_some.mpr ⟨hlen, buff, hbuff.symm⟩]
    rfl

theorem Place.Done.hasLock {p : Place} (hdone : p.Done) : p.hasLock := by
  cases hdone <;> rfl

theorem Writer.write_spec {w : Writer} (h : w.write k = some (taken, w')) :
    taken ++ w'.buff = w.buff ∧ taken.length + w'.count = w.count := by
  unfold write at h
  split at h
  · rename_i hk
    rw [Option.map_eq_some_iff] at h
    obtain ⟨_, hfetch, heq⟩ := h
    cases heq
    obtain ⟨hlen, rest, hbuff⟩ := fetch_eq_some.mp hfetch
    refine ⟨?_, ?_⟩
    · rw [hbuff, List.drop_left' hlen]
    · rw [hlen]
      exact Nat.add_sub_cancel' hk.2
  · cases h

theorem Place.write_spec {p : Place} (h : p.write k = some (taken, q)) :
    p.hasLock ∧ q.hasLock ∧ q.data = p.data ∧
      ∀ part, p.Wrote part → q.Wrote (part ++ taken) := by
  cases p with
  | idle => cases h
  | locking data => cases h
  | header data w =>
    rw [write, Option.map_eq_some_iff] at h
    obtain ⟨⟨taken, w'⟩, hw, heq⟩ := h
    cases heq
    obtain ⟨hbuff, hcount⟩ := Writer.write_spec hw
    refine ⟨rfl, rfl, rfl, ?_⟩
    rintro part ⟨hpart, hlen⟩
    refine ⟨by rw [List.append_assoc, hbuff, hpart], ?_⟩
    rw [← hbuff, List.length_append] at hlen
    omega
  | payload data w =>
    rw [write, Option.map_eq_some_iff] at h
    obtain ⟨⟨taken, w'⟩, hw, heq⟩ := h
    cases heq
    obtain ⟨hbuff, hcount⟩ := Writer.write_spec hw
    refine ⟨rfl, rfl, rfl, ?_⟩
    rintro part ⟨hkey, before, rfl, hbefore, hlen⟩
    refine ⟨hkey, before ++ taken, List.append_assoc .., ?_, ?_⟩
    · rw [List.append_assoc, hbuff, hbefore]
    · rw [List.length_append]
      omega

section Runs

variable {es : List (Event ι)} {e : Event ι} {s t : State ι} {i : ι} {taken : Bytes}

theorem Whole.holder_move (h : Whole es s) {l : Option ι} (hq : q.hasLock ↔ l = some i)
    (hother : ∀ j, j ≠ i → (s.lock = some j ↔ l = some j)) (j : ι) :
    ((s.move i q).place j).hasLock ↔ l = some j := by
  rcases eq_or_ne j i with rfl | hj
  · rw [State.place_move]
    exact hq
  · rw [State.place_move_of_ne s q hj, h.holder j]
    exact hother j hj

theorem Whole.own_move (h : Whole es s)
    (hq : ∀ data, q.data = some data → call i (e :: es) = some data)
    (hcall : ∀ j, j ≠ i → call j (e :: es) = call j es) (j : ι) (data : DriverData)
    (hj : ((s.move i q).place j).data = some data) : call j (e :: es) = some data := by
  rcases eq_or_ne j i with rfl | hne
  · rw [State.place_move] at hj
    exact hq data hj
  · rw [State.place_move_of_ne s q hne] at hj
    rw [hcall j hne]
    exact h.own j data hj

theorem Whole.goes_on (h : Whole es s) (hlock : s.lock = some i) (hq : q.hasLock)
    (hdata : q.data = (s.place i).data)
    (hwrote : ∀ part, (s.place i).Wrote part → q.Wrote (part ++ taken))
    (hcall : ∀ j, call j (e :: es) = call j es) (hfinished : finished (e :: es) = finished es) :
    Whole (e :: es) { s.move i q with socket := s.socket ++ taken } := by
  obtain ⟨replies, part, hreplies, hsocket, -, hpart⟩ := h.socket
  refine ⟨h.holder_move (iff_of_true hq hlock) fun _ _ => .rfl,
    h.own_move (fun data hd => ?_) fun j _ => hcall j, replies, part ++ taken, ?_, ?_, ?_, ?_⟩
  · rw [hcall]
    exact h.own i data (hdata ▸ hd)
  · rw [hfinished]
    exact hreplies
  · rw [hsocket, List.append_assoc]
  · intro hnone
    cases hlock.symm.trans hnone
  · intro j hj
    obtain rfl : i = j := Option.some.inj (hlock.symm.trans hj)
    rw [show State.place _ i = q from State.place_move ..]
    exact hwrote part (hpart i hj)

theorem whole_step (h : Whole es s) (hstep : Step s e t) : Whole (e :: es) t := by
  cases e with
  | called i data =>
    obtain ⟨hidle, rfl⟩ := hstep
    have hfree : s.lock ≠ some i := by
      intro hi
      have hhas := (h.holder i).mpr hi
      rw [hidle] at hhas
      cases hhas
    obtain ⟨replies, part, hreplies, hsocket, hnone, hpart⟩ := h.socket
    refine ⟨h.holder_move (iff_of_false nofun hfree) fun _ _ => .rfl,
      h.own_move (fun data' hd => ?_) (fun j hj => if_neg hj.symm), replies, part, hreplies, hsocket,
      hnone, fun j hj => ?_⟩
    · rw [call, if_pos rfl]
      exact hd
    · rw [State.place_move_of_ne s _ (by rintro rfl; exact hfree hj)]
      exact hpart j hj
  | locked i =>
    obtain ⟨data, hplace, hnone, rfl⟩ := hstep
    obtain ⟨replies, part, hreplies, hsocket, hempty, -⟩ := h.socket
    refine ⟨h.holder_move (iff_of_true rfl rfl) fun j hj => ?_,
      h.own_move (fun data' hd => ?_) fun _ _ => rfl, replies, part, hreplies, hsocket, nofun, ?_⟩
    · rw [hnone]
      exact iff_of_false nofun fun heq => hj (Option.some.inj heq).symm
    · cases hd
      exact h.own i data (by rw [hplace]; rfl)
    · rintro j ⟨⟩
      rw [hempty hnone, show State.place _ i = _ from State.place_move ..]
      exact ⟨rfl, length_initReply ..⟩
  | wrote i k =>
    obtain ⟨taken, q, hwrite, rfl⟩ := hstep
    obtain ⟨hhas, hq, hdata, hwrote⟩ := Place.write_spec hwrite
    exact h.goes_on ((h.holder i).mp hhas) hq hdata hwrote (fun _ => rfl) rfl
  | wroteHeader i =>
    obtain ⟨data, buff, hplace, hkey, rfl⟩ := hstep
    have hlock : s.lock = some i := (h.holder i).mp (by rw [hplace]; rfl)
    have hwrote : ∀ part, (s.place i).Wrote part →
        Place.Wrote (.payload data ⟨data.buff, data.len.toNat⟩) (part ++ []) := by
      intro part hpart
      rw [hplace] at hpart
      obtain ⟨hpart, hlen⟩ := hpart
      obtain rfl : buff = [] := List.length_eq_zero_iff.mp hlen
      rw [List.append_nil] at hpart ⊢
      exact ⟨hkey, [], by rw [hpart, List.append_nil], rfl, Nat.zero_add _⟩
    have hnext : Whole (.wroteHeader i :: es)
        { s.move i (.payload data ⟨data.buff, data.len.toNat⟩) with socket := s.socket ++ [] } :=
      h.goes_on hlock rfl (by rw [hplace]; rfl) hwrote (fun _ => rfl) rfl
    rw [List.append_nil] at hnext
    exact hnext
  | returned i =>
    obtain ⟨hdone, rfl⟩ := hstep
    have hlock := (h.holder i).mp hdone.hasLock
    obtain ⟨replies, part, hreplies, hsocket, -, hpart⟩ := h.socket
    obtain ⟨data, hdata, hreply⟩ := hdone.reply (hpart i hlock)
    refine ⟨h.holder_move (iff_of_false nofun nofun) fun j hj => ?_,
      h.own_move nofun fun _ _ => rfl, replies ++ [part], [], ?_, ?_, fun _ => rfl, nofun⟩
    · rw [hlock]
      exact iff_of_false (fun heq => hj (Option.some.inj heq).symm) nofun
    · rw [finished, h.own i data hdata]
      exact List.rel_append hreplies (.cons hreply .nil)
    · simp [hsocket, State.move]

theorem run_whole (h : proxy.Run es s) : Whole es s :=
  h.invariant
    (by
      rintro _ rfl
      exact ⟨fun _ => iff_of_false nofun nofun, nofun, [], [], .nil, rfl, fun _ => rfl, nofun⟩)
    fun _ _ _ _ => whole_step

/-- While no worker has the lock, the replies of the calls that have returned are what has been
written, each of them whole. -/
theorem run_replies (h : proxy.Run es s) (hlock : s.lock = none) :
    ∃ replies, List.Forall₂ IsReply (finished es) replies ∧ s.socket = replies.flatten := by
  obtain ⟨replies, part, hreplies, hsocket, hempty, -⟩ := (run_whole h).socket
  refine ⟨replies, hreplies.imp fun _ _ => isReply_of_sendReply, ?_⟩
  rw [hsocket, hempty hlock, List.append_nil]

end Runs

/-- A `READ` of two bytes, whose reply is written in four pieces, one of them empty, while another
worker waits for the lock. -/
theorem run_replies_read :
    let data : DriverData := ⟨0, 0, .ofFn fun i => .ofNat i, 2, .read, 0, [7, 8]⟩
    let other : DriverData := ⟨0, 1, .ofFn fun i => .ofNat (i + 8), 2, .write, 0, [9]⟩
    let es : List (Event (Fin 2)) :=
      [.returned 0, .wrote 0 2, .wroteHeader 0, .wrote 0 6, .wrote 0 0, .wrote 0 10,
        .called 1 other, .locked 0, .called 0 data]
    ∃ s, proxy.Run es s ∧ s.lock = none ∧
      ∃ replies, List.Forall₂ IsReply [data] replies ∧ s.socket = replies.flatten := by
  intro data other es
  have hstart : proxy.Run [] (init : State (Fin 2)) := .start rfl
  have hcalled := hstart.then_ (.called 0 data) ⟨rfl, rfl⟩
  have hlocked := hcalled.then_ (.locked 0) ⟨data, rfl, rfl, rfl⟩
  have hother := hlocked.then_ (.called 1 other) ⟨rfl, rfl⟩
  have hfirst := hother.then_ (.wrote 0 10) ⟨_, _, rfl, rfl⟩
  have hempty := hfirst.then_ (.wrote 0 0) ⟨_, _, rfl, rfl⟩
  have hheader := hempty.then_ (.wrote 0 6) ⟨_, _, rfl, rfl⟩
  have hpayload := hheader.then_ (.wroteHeader 0) ⟨data, _, rfl, rfl, rfl⟩
  have hbytes := hpayload.then_ (.wrote 0 2) ⟨_, _, rfl, rfl⟩
  have hreturned := hbytes.then_ (.returned 0) ⟨.payload data _, rfl⟩
  exact ⟨_, hreturned, rfl, run_replies hreturned rfl⟩

end GreenCloud.NBDReplies
