import GreenCloud.MmapStorage
import GreenCloud.NBDDriverProxy
import GreenCloud.Wire.Codec

/-! Payloads across the wire. A `WRITE` payload goes out by its length and comes in as a C
string; a `READ` payload goes out and comes in as one. -/

namespace GreenCloud.Wire

open CLib

variable {data : DriverData} {rid : Int32} {after : Bytes}

/-- Whatever the slave's allocator hands out, the request brings the payload over and the
slave's storage is written with it. -/
def RequestDelivered (data : DriverData) (rid : Int32) : Prop :=
  ∃ datagram, CloudStorage.writeDatagram data rid = some datagram ∧
    ∀ fresh, ∃ received, SlaveDriverProxy.receiveRequest fresh datagram = some received ∧
      received.buff.take data.len.toNat = data.buff.take data.len.toNat ∧
      ∀ m : MmapStorage, data.offset.toNat + data.len.toNat ≤ m.getSize →
        m.write received = m.write data

theorem header_fits (hlen : data.len.toNat ≤ 4096) (hrid : 0 < rid.toInt) :
    (CloudStorage.header data.offset data.len rid 49).length + 1 + data.len.toNat ≤ buffSize := by
  have hle := CloudStorage.length_header_le_of_lt data.offset data.len rid
    (Nat.lt_of_le_of_lt hlen (by decide)) (Int.le_of_lt hrid) 49
  rw [buffSize]
  omega

theorem write_congr {m : MmapStorage} {d e : DriverData} (hoff : d.offset = e.offset)
    (hlen : d.len = e.len) (hd : d.len.toNat ≤ d.buff.length) (he : e.len.toNat ≤ e.buff.length)
    (htake : d.buff.take d.len.toNat = e.buff.take e.len.toNat)
    (hrange : e.offset.toNat + e.len.toNat ≤ m.getSize) : m.write d = m.write e := by
  rw [m.write_eq he, m.write_eq hd, if_pos hrange, htake, hoff, hlen, if_pos hrange]

theorem receiveRequest_writeDatagram (hbuff : data.len.toNat ≤ data.buff.length)
    (hfit : (CloudStorage.header data.offset data.len rid 49).length + 1 + data.len.toNat ≤
      buffSize) :
    ∃ datagram p, CloudStorage.writeDatagram data rid = some datagram ∧
      0 ∈ p ∧ p.length ≤ buffSize + 1 ∧ data.len.toNat ≤ p.length ∧
      p.take data.len.toNat = data.buff.take data.len.toNat ∧
      ∀ fresh, SlaveDriverProxy.receiveRequest fresh datagram =
        (strcpy (uninit fresh.block (buffSize + 1)) p).map fun buff => { fresh.driverData with
          offset := data.offset, len := data.len, reqId := rid, key := .write, buff := buff } := by
  have h := CloudStorage.writeDatagram_eq rid hbuff
  rw [if_pos hfit] at h
  have hlen := CloudStorage.length_writeDatagram rid hbuff h
  have htake : (data.buff.take data.len.toNat).length = data.len.toNat :=
    List.length_take_of_le hbuff
  refine ⟨_, _, h, ?_, ?_, ?_, ?_, fun fresh => receiveRequest_of_write _ _ _ fresh
    (requestDecoded_header _ _ _ hlen).parsed⟩
  · simp
  · simp only [List.length_append, htake, length_zeros, List.length_singleton]
    omega
  · simp only [List.length_append, htake]
    omega
  · rw [List.append_assoc, take_take_append hbuff]

theorem requestDelivered_iff_strcpy {p : Bytes} (hbuff : data.len.toNat ≤ data.buff.length)
    (h : CloudStorage.writeDatagram data rid = some datagram) (hnul : 0 ∈ p)
    (hp : p.length ≤ buffSize + 1)
    (htake : p.take data.len.toNat = data.buff.take data.len.toNat)
    (hreceived : ∀ fresh, SlaveDriverProxy.receiveRequest fresh datagram =
      (strcpy (uninit fresh.block (buffSize + 1)) p).map fun buff => { fresh.driverData with
        offset := data.offset, len := data.len, reqId := rid, key := .write, buff := buff }) :
    RequestDelivered data rid ↔ ∀ junk, ∃ buff, strcpy (uninit junk (buffSize + 1)) p = some buff ∧
      buff.take data.len.toNat = p.take data.len.toNat := by
  constructor
  · rintro ⟨datagram', h', hall⟩ junk
    rw [h, Option.some.injEq] at h'
    subst h'
    obtain ⟨received, hr, hbytes, -⟩ := hall ⟨data, junk⟩
    rw [hreceived, Option.map_eq_some_iff] at hr
    obtain ⟨buff, hcopy, rfl⟩ := hr
    exact ⟨buff, hcopy, hbytes.trans htake.symm⟩
  · intro hall
    refine ⟨datagram, h, fun fresh => ?_⟩
    obtain ⟨buff, hcopy, hbytes⟩ := hall fresh.block
    obtain ⟨_, hcopy', hlen⟩ := exists_strcpy_recvBuffer hnul hp fresh.block
    rw [hcopy, Option.some.injEq] at hcopy'
    subst hcopy'
    rw [htake] at hbytes
    refine ⟨_, by rw [hreceived, hcopy, Option.map_some], hbytes, fun m hrange => ?_⟩
    have hroom : data.len.toNat ≤ buff.length := by
      have := congrArg List.length hbytes
      simp only [List.length_take] at this
      omega
    exact write_congr rfl rfl hroom hbuff hbytes hrange

theorem requestDelivered_iff_of_fits (hbuff : data.len.toNat ≤ data.buff.length)
    (hfit : (CloudStorage.header data.offset data.len rid 49).length + 1 + data.len.toNat ≤
      buffSize) :
    RequestDelivered data rid ↔ 0 ∉ (data.buff.take data.len.toNat).dropLast := by
  obtain ⟨datagram, p, h, hnul, hp, hle, htake, hreceived⟩ := receiveRequest_writeDatagram hbuff hfit
  obtain ⟨s, hs, hlt⟩ := exists_cstr hnul
  have hroom : s.length < buffSize + 1 := Nat.lt_of_lt_of_le hlt hp
  calc RequestDelivered data rid
    _ ↔ _ := requestDelivered_iff_strcpy hbuff h hnul hp htake hreceived
    _ ↔ data.len.toNat ≤ s.length + 1 := take_strcpy_uninit_iff hs hroom hle (Nat.le_trans hle hp)
    _ ↔ 0 ∉ (p.take data.len.toNat).dropLast := (nul_notMem_dropLast_take hs hle).symm
    _ ↔ 0 ∉ (data.buff.take data.len.toNat).dropLast := by rw [htake]

/-- The payload of a `WRITE` of at most 4096 bytes comes over, and goes into the storage, exactly
when none of its bytes but the last is NUL. -/
theorem requestDelivered_iff (hbuff : data.len.toNat ≤ data.buff.length)
    (hlen : data.len.toNat ≤ 4096) (hrid : 0 < rid.toInt) :
    RequestDelivered data rid ↔ 0 ∉ (data.buff.take data.len.toNat).dropLast :=
  requestDelivered_iff_of_fits hbuff (header_fits hlen hrid)

theorem requestDelivered_trailing_nul :
    RequestDelivered ⟨0, 0, .replicate 8 0, 2, .write, 0, [65, 0]⟩ 1 :=
  (requestDelivered_iff (by decide) (by decide) (by decide)).mpr (by decide)

/-- The payload NUL, `A` does not. -/
theorem not_requestDelivered_leading_nul :
    ¬ RequestDelivered ⟨0, 0, .replicate 8 0, 2, .write, 0, [0, 65]⟩ 1 := by
  intro h
  exact (requestDelivered_iff_of_fits (by decide) (by decide)).mp h (by decide)

/-- The copy of `AddMessage` takes the `m_len` bytes of the buffer and no other, and whatever
the master's allocator hands out, the reply brings them over to the NBD socket. -/
structure ReplyDelivered (data : DriverData) (after : Bytes) : Prop where
  copied : ∀ dest : Cursor, data.len.toNat ≤ dest.after.length →
    ∃ dest', SlaveDriverProxy.addMessage (data.buff ++ after) dest = some dest' ∧
      dest'.before = dest.before ++ data.buff.take data.len.toNat
  received : ∃ datagram, SlaveDriverProxy.sendReply data after = some datagram ∧
    ∀ fresh table handler table', table.idToHandler data.reqId = some (handler, table') →
      ∃ received, SlaveGateway.createDataFromBuff fresh table (SlaveGateway.recvBuffer datagram) =
          .ok (received, table') ∧
        received.buff.take data.len.toNat = data.buff.take data.len.toNat ∧
        NBDDriverProxy.sendReply received =
          some (NBDDriverProxy.initReply received.status handler ++ data.buff.take data.len.toNat)

theorem message_of_copied
    (h : ∀ dest : Cursor, data.len.toNat ≤ dest.after.length →
      ∃ dest', SlaveDriverProxy.addMessage (data.buff ++ after) dest = some dest' ∧
        dest'.before = dest.before ++ data.buff.take data.len.toNat) :
    cstr (data.buff ++ after) = some (data.buff.take data.len.toNat) := by
  obtain ⟨dest', hcopy, hbefore⟩ := h (.start (zeros data.len.toNat)) (by simp [Cursor.start])
  cases hs : cstr (data.buff ++ after) with
  | none =>
    rw [SlaveDriverProxy.addMessage, Cursor.copyString_eq_none_of_cstr hs] at hcopy
    cases hcopy
  | some s =>
    rw [SlaveDriverProxy.addMessage, Cursor.copyString_eq_write hs, Cursor.write_eq] at hcopy
    split at hcopy
    · simp only [Option.some.injEq] at hcopy
      subst hcopy
      simpa [Cursor.start] using hbefore
    · cases hcopy

theorem cstr_append_eq_take_iff (h : k ≤ p.length) :
    cstr (p ++ after) = some (p.take k) ↔ 0 ∉ p.take k ∧ (p ++ after)[k]? = some 0 := by
  have hk : (p.take k).length = k := List.length_take_of_le h
  rw [cstr_eq_some]
  constructor
  · rintro ⟨hnul, t, ht⟩
    exact ⟨hnul, by rw [ht, List.getElem?_append_right (Nat.le_of_eq hk), hk, Nat.sub_self]; rfl⟩
  · rintro ⟨hnul, hget⟩
    obtain ⟨hlt, h0⟩ := List.getElem?_eq_some_iff.mp hget
    refine ⟨hnul, (p ++ after).drop (k + 1), ?_⟩
    rw [← h0, ← List.drop_eq_getElem_cons hlt, ← List.take_append_of_le_length h,
      List.take_append_drop]

theorem replyDelivered_of_message (hkey : data.key = .read)
    (hbuff : data.len.toNat ≤ data.buff.length) (hlen : data.len.toNat ≤ 4096)
    (h : cstr (data.buff ++ after) = some (data.buff.take data.len.toNat)) :
    ReplyDelivered data after := by
  have hm : SlaveDriverProxy.message data after = some (data.buff.take data.len.toNat) := by
    rw [SlaveDriverProxy.message, if_pos hkey, h]
  have htake : (data.buff.take data.len.toNat).length = data.len.toNat :=
    List.length_take_of_le hbuff
  have hheader := SlaveDriverProxy.length_replyHeader_le data.len data.reqId data.key
  have hnul : 0 ∉ data.buff.take data.len.toNat := (cstr_eq_some.mp h).1
  constructor
  · intro dest hroom
    rw [← htake] at hroom
    exact ⟨_, by rw [SlaveDriverProxy.addMessage, Cursor.copyString_eq_write h, Cursor.write_eq,
      if_pos hroom], rfl⟩
  · have hsend := SlaveDriverProxy.sendReply_eq data after
    rw [hm, Option.bind_some, if_pos (by rw [buffSize]; omega), hkey] at hsend
    rw [hkey] at hheader
    refine ⟨_, hsend, fun fresh table handler table' hid => ?_⟩
    rw [createDataFromBuff_message _ _ hid hnul (by rw [buffSize]; omega),
      if_pos (by rw [buffSize]; omega)]
    refine ⟨_, rfl, take_take_append hbuff _, ?_⟩
    rw [NBDDriverProxy.sendReply_read rfl, fetch_eq_some.mpr ⟨htake, _, rfl⟩]
    rfl

/-- The data of a `READ` reply of at most 4096 bytes come over exactly when none of them is NUL
and a NUL lies right behind them in memory. -/
theorem replyDelivered_iff (hkey : data.key = .read) (hbuff : data.len.toNat ≤ data.buff.length)
    (hlen : data.len.toNat ≤ 4096) :
    ReplyDelivered data after ↔
      0 ∉ data.buff.take data.len.toNat ∧ (data.buff ++ after)[data.len.toNat]? = some 0 := by
  rw [← cstr_append_eq_take_iff hbuff]
  constructor
  · intro h
    exact message_of_copied h.copied
  · exact replyDelivered_of_message hkey hbuff hlen

theorem replyDelivered_text :
    ReplyDelivered ⟨0, 1, .replicate 8 0, 2, .read, 0, [65, 66]⟩ [0] :=
  (replyDelivered_iff rfl (by decide) (by decide)).mpr (by decide)

/-- A NUL in front of them keeps them back. -/
theorem not_replyDelivered_leading_nul :
    ¬ ReplyDelivered ⟨0, 1, .replicate 8 0, 2, .read, 0, [0, 65]⟩ [0] := by
  intro h
  have hcopied := message_of_copied h.copied
  revert hcopied
  decide

end GreenCloud.Wire
