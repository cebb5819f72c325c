import GreenCloud.CellStore
import GreenCloud.Cluster.Machine
import GreenCloud.Wire.Payload

/-! What the cluster is for: a device of bytes under requests that overlap. The strings of the wire
protocol end at a NUL, so that a payload comes over as far as its first NUL and the byte behind it may
be any. -/

namespace GreenCloud.Cluster

open CLib

/-- Byte `i` comes over if none before it is NUL. -/
def UpToNul (sent : Nat → Option UInt8) (i : Nat) (got : Option UInt8) : Prop :=
  (∀ j < i, sent j ≠ some 0) → got = sent i

/-- The answers that a request may get when `done` are the bytes it read and wrote. The error is
whatever the memory held, but for the requests that never reach the storage. -/
def Replies (size : Nat) (req : DriverData) (done : Nat → Option UInt8) (bytes : Bytes) : Prop :=
  if req.key = .read then
    (∀ p, MmapStorage.Covers req p → p < size) ∧
      ∃ status payload, bytes = NBDDriverProxy.initReply status req.handler ++ payload ∧
        payload.length = req.len.toNat ∧
        ∀ i < req.len.toNat, UpToNul (fun j => done (req.offset.toNat + j)) i payload[i]?
  else if req.key = .write then
    (∀ p, MmapStorage.Covers req p → p < size) ∧
      ∃ status, bytes = NBDDriverProxy.initReply status req.handler
  else bytes = NBDDriverProxy.initReply 0 req.handler

/-- The device of `size` bytes: the requests of the NBD socket on them. -/
def device (size : Nat) : CellStore.Spec DriverData Nat UInt8 Bytes where
  reads req p := req.key = .read ∧ MmapStorage.Covers req p
  writes req p v := req.key = .write ∧ MmapStorage.Covers req p ∧
    UpToNul (fun j => req.buff[j]?) (p - req.offset.toNat) (some v)
  replies := Replies size
  reads_only hreads hwrites := nomatch hreads.1.symm.trans hwrites.1

variable {size : Nat} {req data : DriverData} {done : Nat → Option UInt8}

theorem covers_iff : MmapStorage.Covers req p ↔ ∃ i < req.len.toNat, p = req.offset.toNat + i := by
  constructor
  · rintro ⟨hle, hlt⟩
    exact ⟨p - req.offset.toNat, by omega, by omega⟩
  · rintro ⟨i, hi, rfl⟩
    exact ⟨Nat.le_add_right .., by omega⟩

theorem complete_of_other (hread : req.key ≠ .read) (hwrite : req.key ≠ .write) :
    (device size).Complete req done := by
  rintro p (⟨hkey, -⟩ | ⟨v, hkey, -⟩)
  · exact absurd hkey hread
  · exact absurd hkey hwrite

theorem upToNul_cstr {src : Bytes} (h : cstr src = some s) (behind : Bytes) (i : Nat) :
    UpToNul (fun j => src[j]?) i (s ++ 0 :: behind)[i]? := by
  intro hnone
  have hnul : 0 ∉ src.take i := by
    intro hmem
    obtain ⟨j, hj⟩ := List.mem_iff_getElem?.mp hmem
    rw [List.getElem?_take] at hj
    split at hj
    · exact hnone j ‹_› hj
    · cases hj
  have hle := (nul_notMem_take h i).mp hnul
  have hget := congrArg (·[i]?) (take_strcpy h (Nat.succ_le_succ hle) behind)
  simpa only [List.getElem?_take, Nat.lt_succ_self, ↓reduceIte] using hget

theorem upToNul_strcpy {dest src copied : Bytes} (h : strcpy dest src = some copied) (i : Nat) :
    UpToNul (fun j => src[j]?) i copied[i]? := by
  cases hs : cstr src with
  | none =>
    rw [strcpy_eq_none_of_cstr hs] at h
    cases h
  | some s =>
    rw [strcpy_eq hs] at h
    split at h
    · cases h
      exact upToNul_cstr hs _ i
    · cases h

theorem UpToNul.congr {sent sent' : Nat → Option UInt8} (h : UpToNul sent i got)
    (hsame : ∀ j ≤ i, sent j = sent' j) : UpToNul sent' i got := by
  intro hnone
  rw [← hsame i (Nat.le_refl i)]
  refine h fun j hj => ?_
  rw [hsame j (Nat.le_of_lt hj)]
  exact hnone j hj

/-- The slave has the request, a `WRITE` with its payload as far as the first NUL. -/
structure Received (req data : DriverData) : Prop where
  offset : data.offset = req.offset
  len : data.len = req.len
  key : data.key = req.key
  payload : req.key = .write →
    ∀ i < req.len.toNat, UpToNul (fun j => req.buff[j]?) i data.buff[i]?

theorem received_read (hkey : req.key = .read)
    (hsent : CloudStorage.requestDatagram req rid = some datagram)
    (h : SlaveDriverProxy.receiveRequest fresh datagram = some data) :
    data.reqId = rid ∧ Received req data := by
  rw [CloudStorage.requestDatagram, if_pos hkey] at hsent
  obtain ⟨datagram', p, hprint, hdecoded, -⟩ :=
    Wire.request_roundtrip_header req.offset req.len rid 48
  cases hprint.symm.trans hsent
  obtain ⟨data', hdata', hoffset, hlen, hrid, hkey'⟩ := hdecoded.received fresh
  cases hdata'.symm.trans h
  exact ⟨hrid, hoffset, hlen, hkey'.trans hkey.symm, fun hwrite =>
    nomatch hkey.symm.trans hwrite⟩

theorem received_write (hkey : req.key = .write) (hbuff : req.buff.length = req.len.toNat)
    (hsent : CloudStorage.requestDatagram req rid = some datagram)
    (h : SlaveDriverProxy.receiveRequest fresh datagram = some data) :
    data.reqId = rid ∧ Received req data := by
  rw [CloudStorage.requestDatagram, if_neg (by rw [hkey]; decide)] at hsent
  have hle := Nat.le_of_eq hbuff.symm
  have hfit := CloudStorage.writeDatagram_eq rid hle
  rw [hsent] at hfit
  split at hfit
  · rename_i hfit'
    obtain ⟨datagram', p, hwrite, -, -, -, htake, hreceived⟩ :=
      Wire.receiveRequest_writeDatagram hle hfit'
    cases hwrite.symm.trans hsent
    rw [hreceived fresh, Option.map_eq_some_iff] at h
    obtain ⟨buff, hcopy, rfl⟩ := h
    refine ⟨rfl, rfl, rfl, hkey.symm, fun _ i hi => (upToNul_strcpy hcopy i).congr fun j hj => ?_⟩
    have hget := congrArg (·[j]?) htake
    simpa only [List.getElem?_take, Nat.lt_of_le_of_lt hj hi, ↓reduceIte] using hget
  · cases hfit

/-- A worker copies the bytes of the request: the ones that are not left are done. -/
structure Copying (size : Nat) (req : DriverData) (done : Nat → Option UInt8) (task : SlaveTask)
    (left : Finset Nat) (buff : Bytes) : Prop where
  received : Received req task.data
  created : createSlaveTask task.data = some task
  inRange : ∀ i ∈ left, i < req.len.toNat
  untouched : ∀ i ∈ left, done (req.offset.toNat + i) = none
  copied : ∀ i < req.len.toNat, i ∉ left →
    req.offset.toNat + i < size ∧ ∃ v, done (req.offset.toNat + i) = some v
  write : req.key = .write → buff = task.data.buff
  read : req.key = .read →
    ∀ i < req.len.toNat, i ∉ left → buff[i]? = done (req.offset.toNat + i)

structure Executed (size : Nat) (req : DriverData) (done : Nat → Option UInt8)
    (data : DriverData) : Prop where
  len : data.len = req.len
  key : data.key = req.key
  copied : ∀ i < req.len.toNat,
    req.offset.toNat + i < size ∧ ∃ v, done (req.offset.toNat + i) = some v
  read : req.key = .read → ∀ i < req.len.toNat, data.buff[i]? = done (req.offset.toNat + i)

theorem createSlaveTask_cases (h : createSlaveTask data = some task) :
    data.key = .read ∧ task = .read data ∨ data.key = .write ∧ task = .write data := by
  unfold createSlaveTask at h
  split at h
  · cases h
    exact .inl ⟨‹_›, rfl⟩
  · split at h
    · cases h
      exact .inr ⟨‹_›, rfl⟩
    · cases h

theorem copying_start (h : Received req data) (htask : createSlaveTask data = some task)
    (fresh : Fresh) :
    Copying size req (fun _ => none) task (.range data.len.toNat) (task.buffer fresh) where
  received := by rwa [createSlaveTask_data htask]
  created := by rwa [createSlaveTask_data htask]
  inRange i hi := by rwa [← h.len, ← Finset.mem_range]
  untouched _ _ := rfl
  copied i hi hleft := by
    rw [← h.len] at hi
    exact absurd (Finset.mem_range.mpr hi) hleft
  write hkey := by
    rcases createSlaveTask_cases htask with ⟨hread, -⟩ | ⟨-, rfl⟩
    · cases hread.symm.trans (h.key.trans hkey)
    · rfl
  read _ i hi hleft := by
    rw [← h.len] at hi
    exact absurd (Finset.mem_range.mpr hi) hleft

namespace Copying

variable {task : SlaveTask} {left : Finset Nat} {buff : Bytes} {storage storage' : MmapStorage}

theorem copyByte (h : Copying size req done task left buff) (hsize : storage.getSize = size)
    (hi : i ∈ left)
    (hcopy : task.copyByte i storage buff = some (storage', buff')) :
    ∃ v, Copying size req (Function.update done (req.offset.toNat + i) (some v)) task (left.erase i) buff' ∧
      ((device size).reads req (req.offset.toNat + i) ∧ storage.mmap[req.offset.toNat + i]? = some v ∧
          storage' = storage ∨
        (device size).writes req (req.offset.toNat + i) v ∧
          storage' = ⟨storage.mmap.set (req.offset.toNat + i) v⟩ ∧
          req.offset.toNat + i < storage.mmap.length) := by
  have hlen := h.inRange i hi
  have hcovers : MmapStorage.Covers req (req.offset.toNat + i) := covers_iff.mpr ⟨i, hlen, rfl⟩
  -- The bookkeeping is the same for both kinds of request.
  have hinRange : ∀ j ∈ left.erase i, j < req.len.toNat := fun j hj =>
    h.inRange j (Finset.mem_of_mem_erase hj)
  have hleft : ∀ v, ∀ j ∈ left.erase i,
      Function.update done (req.offset.toNat + i) (some v) (req.offset.toNat + j) = none := by
    intro v j hj
    obtain ⟨hne, hj⟩ := Finset.mem_erase.mp hj
    rw [Function.update_of_ne (by omega)]
    exact h.untouched j hj
  have hother : ∀ {j}, j ∉ left.erase i → j ≠ i → j ∉ left := fun hj hne hmem =>
    hj (Finset.mem_erase.mpr ⟨hne, hmem⟩)
  have hcopied : ∀ v, req.offset.toNat + i < storage.mmap.length →
      ∀ j < req.len.toNat, j ∉ left.erase i → req.offset.toNat + j < size ∧
        ∃ w, Function.update done (req.offset.toNat + i) (some v) (req.offset.toNat + j) = some w := by
    intro v hin j hj hleft
    by_cases hne : j = i
    · rw [hne, Function.update_self, ← hsize]
      exact ⟨hin, v, rfl⟩
    · rw [Function.update_of_ne (by omega)]
      exact h.copied j hj (hother hleft hne)
  have hoffset := h.received.offset
  rcases createSlaveTask_cases h.created with ⟨hkey, htask⟩ | ⟨hkey, htask⟩
  · rw [h.received.key] at hkey
    rw [htask, SlaveTask.copyByte, hoffset, Option.bind_eq_bind, Option.bind_eq_some_iff] at hcopy
    obtain ⟨v, hv, hcopy⟩ := hcopy
    split at hcopy
    · rename_i hin
      cases hcopy
      have hinside := (List.getElem?_eq_some_iff.mp hv).1
      refine ⟨v, ⟨h.received, h.created, hinRange, hleft v, hcopied v hinside, fun hwrite => ?_,
        fun _ j hj hleft => ?_⟩, .inl ⟨⟨hkey, hcovers⟩, hv, rfl⟩⟩
      · cases hkey.symm.trans hwrite
      · by_cases hne : j = i
        · rw [hne, Function.update_self, List.getElem?_set_self hin]
        · rw [Function.update_of_ne (by omega), List.getElem?_set_ne (Ne.symm hne)]
          exact h.read hkey j hj (hother hleft hne)
    · cases hcopy
  · rw [h.received.key] at hkey
    rw [htask, SlaveTask.copyByte, hoffset, Option.bind_eq_bind, Option.bind_eq_some_iff] at hcopy
    obtain ⟨v, hv, hcopy⟩ := hcopy
    split at hcopy
    · rename_i hin
      cases hcopy
      refine ⟨v, ⟨h.received, h.created, hinRange, hleft v, hcopied v hin, h.write, fun hread => ?_⟩,
        .inr ⟨⟨hkey, hcovers, ?_⟩, rfl, hin⟩⟩
      · cases hkey.symm.trans hread
      · rw [Nat.add_sub_cancel_left, ← hv, h.write hkey]
        exact h.received.payload hkey i hlen
    · cases hcopy

theorem executed (h : Copying size req done task ∅ buff) :
    Executed size req done { task.data with buff := buff } where
  len := h.received.len
  key := h.received.key
  copied i hi := h.copied i hi (Finset.notMem_empty i)
  read hkey i hi := h.read hkey i hi (Finset.notMem_empty i)

end Copying

theorem Executed.inside (h : Executed size req done data) (p : Nat)
    (hp : MmapStorage.Covers req p) : p < size := by
  obtain ⟨i, hi, rfl⟩ := covers_iff.mp hp
  exact (h.copied i hi).1

theorem Executed.complete (h : Executed size req done data) : (device size).Complete req done := by
  rintro p (⟨-, hcovers⟩ | ⟨v, -, hcovers, -⟩)
  all_goals
    obtain ⟨i, hi, rfl⟩ := covers_iff.mp hcovers
    exact (h.copied i hi).2

/-- The master does not exit over the reply, and what it makes of it answers the request. -/
def Replays (size : Nat) (req : DriverData) (done : Nat → Option UInt8) (table' : PendingTable)
    (created : Except Halt (DriverData × PendingTable)) : Prop :=
  (∀ status, created ≠ .error (.exit status)) ∧
    ∀ replay u, created = .ok (replay, u) →
      u = table' ∧ ∀ bytes, NBDDriverProxy.sendReply replay = some bytes → Replies size req done bytes

theorem replies_read (h : Executed size req done data) (hkey : req.key = .read)
    (hsent : SlaveDriverProxy.sendReply data after = some datagram)
    (hid : table.idToHandler data.reqId = some (req.handler, table')) :
    Replays size req done table' (SlaveGateway.createDataFromBuff fresh table
      (SlaveGateway.recvBuffer datagram)) := by
  have hdata : data.key = .read := h.key.trans hkey
  rw [SlaveDriverProxy.sendReply_eq, SlaveDriverProxy.message, if_pos hdata, hdata, h.len,
    Option.bind_eq_some_iff] at hsent
  obtain ⟨message, hmessage, hsent⟩ := hsent
  split at hsent
  · rename_i hfit
    cases hsent
    obtain ⟨hnul, -⟩ := cstr_eq_some.mp hmessage
    rw [Wire.createDataFromBuff_message _ _ hid hnul hfit]
    split
    · refine ⟨by simp, ?_⟩
      rintro replay u heq
      obtain ⟨rfl, rfl⟩ := Prod.mk.inj (Except.ok.inj heq)
      refine ⟨rfl, fun bytes hbytes => ?_⟩
      rw [NBDDriverProxy.sendReply_read rfl, Option.map_eq_some_iff] at hbytes
      obtain ⟨payload, hfetch, rfl⟩ := hbytes
      obtain ⟨hlen, rest, hpayload⟩ := fetch_eq_some.mp hfetch
      have hpayload : message ++ 0 :: (uninit fresh.block (buffSize + 1)).drop (message.length + 1) =
          payload ++ rest := hpayload
      have hlen : payload.length = req.len.toNat := hlen
      rw [Replies, if_pos hkey]
      refine ⟨h.inside, _, payload, rfl, hlen, fun i hi => ?_⟩
      have hget : payload[i]? = (message ++ 0 ::
          (uninit fresh.block (buffSize + 1)).drop (message.length + 1))[i]? := by
        rw [hpayload, List.getElem?_append_left (by omega)]
      rw [hget]
      refine (upToNul_cstr hmessage _ i).congr fun j hj => ?_
      obtain ⟨-, v, hv⟩ := h.copied j (Nat.lt_of_le_of_lt hj hi)
      have hbyte := (h.read hkey j (Nat.lt_of_le_of_lt hj hi)).trans hv
      rw [List.getElem?_append_left (List.getElem?_eq_some_iff.mp hbyte).1, hbyte, hv]
    · exact ⟨by simp, by simp⟩
  · cases hsent

theorem replies_write (h : Executed size req done data) (hkey : req.key = .write)
    (hsent : SlaveDriverProxy.sendReply data after = some datagram)
    (hid : table.idToHandler data.reqId = some (req.handler, table')) :
    Replays size req done table' (SlaveGateway.createDataFromBuff fresh table
      (SlaveGateway.recvBuffer datagram)) := by
  obtain ⟨hlen, q, rfl⟩ := Wire.isReply_of_sendReply hsent
  rw [h.key.trans hkey] at hlen ⊢
  rw [Wire.createDataFromBuff_reply_write _ _ hid hlen]
  refine ⟨by simp, ?_⟩
  rintro replay u heq
  obtain ⟨rfl, rfl⟩ := Prod.mk.inj (Except.ok.inj heq)
  refine ⟨rfl, fun bytes hbytes => ?_⟩
  rw [NBDDriverProxy.sendReply_of_ne_read (show FactoryKey.write ≠ .read by decide)] at hbytes
  cases hbytes
  rw [Replies, if_neg (by rw [hkey]; decide), if_pos hkey]
  exact ⟨h.inside, _, rfl⟩

theorem replies_executed (h : Executed size req done data) (hkey : req.key = .read ∨ req.key = .write)
    (hsent : SlaveDriverProxy.sendReply data after = some datagram)
    (hid : table.idToHandler data.reqId = some (req.handler, table')) :
    Replays size req done table' (SlaveGateway.createDataFromBuff fresh table
      (SlaveGateway.recvBuffer datagram)) := by
  rcases hkey with hkey | hkey
  · exact replies_read h hkey hsent hid
  · exact replies_write h hkey hsent hid

theorem replies_other (hread : req.key ≠ .read) (hwrite : req.key ≠ .write) (hreq : Accepted req)
    (hbytes : NBDDriverProxy.sendReply req = some bytes) : Replies size req done bytes := by
  rw [NBDDriverProxy.sendReply_of_ne_read hread, hreq.status] at hbytes
  cases hbytes
  rw [Replies, if_neg hread, if_neg hwrite]

end GreenCloud.Cluster
