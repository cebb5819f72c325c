import GreenCloud.CloudStorage
import GreenCloud.SlaveDriverProxy
import GreenCloud.SlaveGateway

/-! The four hand-written codecs against each other: what one side prints in front of a
payload, the other side reads back. -/

namespace GreenCloud.Wire

open CLib

variable (offset : UInt64) (len : UInt32) (rid : Int32)

theorem parseHeader_header (c : UInt8) (p : Bytes) :
    SlaveDriverProxy.parseHeader (CloudStorage.header offset len rid c ++ 0 :: p) =
      some (⟨offset, len, rid, .ofChar c⟩, p) := by
  have hsplit : CloudStorage.header offset len rid c ++ 0 :: p =
      decimal offset.toNat ++ sep :: (decimal len.toNat ++ sep :: (decimalInt rid.toInt ++ sep ::
        (c :: sep :: 0 :: p))) := by
    simp [CloudStorage.header]
  rw [hsplit, SlaveDriverProxy.parseHeader, SlaveDriverProxy.getSizeT_decimal]
  simp only [Option.bind_eq_bind, Option.bind_some, SlaveDriverProxy.getUint_decimal,
    SlaveDriverProxy.getInt_decimalInt, SlaveDriverProxy.getReqKey_cons]
  rfl

theorem slave_recvBuffer (h : datagram.length = buffSize) :
    SlaveDriverProxy.recvBuffer datagram = datagram ++ [0] := by
  simp [SlaveDriverProxy.recvBuffer, receive, ← h, zeros]

theorem receiveRequest_of_write (fresh : Fresh)
    (h : SlaveDriverProxy.parseHeader (SlaveDriverProxy.recvBuffer datagram) =
      some (⟨offset, len, rid, .write⟩, p)) :
    SlaveDriverProxy.receiveRequest fresh datagram =
      (strcpy (uninit fresh.block (buffSize + 1)) p).map fun buff => { fresh.driverData with
        offset := offset, len := len, reqId := rid, key := .write, buff := buff } := by
  simp only [SlaveDriverProxy.receiveRequest, h, Option.bind_eq_bind, Option.bind_some, ↓reduceIte,
    Fresh.driverData, Fresh.reserve_nil]
  cases strcpy (uninit fresh.block (buffSize + 1)) p <;> rfl

/-- With the NUL at the end of the receive buffer the copy of a `WRITE` payload always ends
inside both buffers. -/
theorem exists_strcpy_recvBuffer (hp : 0 ∈ p) (hlen : p.length ≤ buffSize + 1)
    (junk : Nat → UInt8) : ∃ buff, strcpy (uninit junk (buffSize + 1)) p = some buff ∧
      buff.length = buffSize + 1 := by
  obtain ⟨s, hs, hlt⟩ := exists_cstr hp
  have hroom : s.length < buffSize + 1 := Nat.lt_of_lt_of_le hlt hlen
  refine ⟨_, by rw [strcpy_eq hs, length_uninit, if_pos hroom], ?_⟩
  simp only [List.length_append, List.length_cons, List.length_drop, length_uninit]
  omega

theorem receiveRequest_of_ne_write (fresh : Fresh) (hkey : key ≠ .write)
    (h : SlaveDriverProxy.parseHeader (SlaveDriverProxy.recvBuffer datagram) =
      some (⟨offset, len, rid, key⟩, p)) :
    SlaveDriverProxy.receiveRequest fresh datagram = some { fresh.driverData with
      offset := offset, len := len, reqId := rid, key := key } := by
  simp [SlaveDriverProxy.receiveRequest, h, hkey]

theorem parseReply_decimal (p : Bytes) :
    SlaveGateway.parseReply (decimal len.toNat ++ sep :: (decimalInt rid.toInt ++ sep :: p)) =
      some (len, rid, sep :: p) := by
  have hlen : len.toNat < 2 ^ 64 := Nat.lt_trans len.toNat_lt (by decide)
  have hlo : -2 ^ 63 ≤ rid.toInt := Int.le_trans (by decide) rid.le_toInt
  have hhi : rid.toInt < 2 ^ 63 := Int.lt_trans rid.toInt_lt (by decide)
  simp [SlaveGateway.parseReply, strtoul_decimal isDigit_sep hlen, advance,
    strtol_decimalInt isDigit_sep hlo hhi]

theorem parseReply_replyHeader (key : FactoryKey) (p : Bytes) :
    SlaveGateway.parseReply (SlaveDriverProxy.replyHeader len rid key ++ p) =
      some (len, rid, sep :: SlaveDriverProxy.keyChar key :: sep :: p) := by
  simpa [SlaveDriverProxy.replyHeader] using
    parseReply_decimal len rid (SlaveDriverProxy.keyChar key :: sep :: p)

theorem parseKey_cons (c : UInt8) (p : Bytes) :
    SlaveGateway.parseKey (sep :: c :: p) = some (.ofChar c) := by
  simp [SlaveGateway.parseKey, advance]

theorem ofChar_keyChar (h : key = .read ∨ key = .write) :
    FactoryKey.ofChar (SlaveDriverProxy.keyChar key) = key := by
  rcases h with rfl | rfl <;> decide

theorem readMessage_cons (fresh : Fresh) (hc : c ≠ 0) (p : Bytes) :
    SlaveGateway.readMessage fresh (sep :: c :: sep :: 0 :: p) =
      strcpy (uninit fresh.block (buffSize + 1)) p := by
  have hsep : sep ≠ 0 := by decide
  simp [SlaveGateway.readMessage, cstr, hc, hsep, advance]

theorem master_recvBuffer (h : datagram.length = buffSize + 1) :
    SlaveGateway.recvBuffer datagram = datagram.take buffSize := by
  simp [SlaveGateway.recvBuffer, receive, h, zeros]

/-- A datagram as `SendReply` lays it out, whatever its message. -/
def IsReply (datagram : Bytes) (len : UInt32) (rid : Int32) (key : FactoryKey) : Prop :=
  datagram.length = buffSize + 1 ∧ ∃ q, datagram = SlaveDriverProxy.replyHeader len rid key ++ 0 :: q

theorem isReply_of_sendReply (h : SlaveDriverProxy.sendReply data after = some datagram) :
    IsReply datagram data.len data.reqId data.key := by
  rw [SlaveDriverProxy.sendReply_eq, Option.bind_eq_some_iff] at h
  obtain ⟨message, -, h⟩ := h
  split at h
  · cases h
    refine ⟨?_, _, rfl⟩
    simp only [List.length_append, List.length_cons, length_zeros]
    omega
  · cases h

/-- `ReceiveRequest` reads the header `h` and leaves `runner` at `p`. -/
structure RequestDecoded (datagram : Bytes) (h : SlaveDriverProxy.RequestHeader) (p : Bytes) :
    Prop where
  parsed : SlaveDriverProxy.parseHeader (SlaveDriverProxy.recvBuffer datagram) = some (h, p)
  received : ∀ fresh, ∃ data, SlaveDriverProxy.receiveRequest fresh datagram = some data ∧
    data.offset = h.offset ∧ data.len = h.len ∧ data.reqId = h.reqId ∧ data.key = h.key

/-- `CreateDataFromBuff` reads the length, the id and the key, and leaves `runner + 4` at `p`. -/
structure ReplyDecoded (datagram : Bytes) (len : UInt32) (rid : Int32) (key : FactoryKey)
    (p : Bytes) : Prop where
  parsed : ∃ runner,
    SlaveGateway.parseReply (SlaveGateway.recvBuffer datagram) = some (len, rid, runner) ∧
    SlaveGateway.parseKey runner = some key ∧ advance 4 runner = some p
  created : ∀ fresh table data table',
    SlaveGateway.createDataFromBuff fresh table (SlaveGateway.recvBuffer datagram) =
      .ok (data, table') →
    data.len = len ∧ data.key = key ∧ table.idToHandler rid = some (data.handler, table')

theorem requestDecoded_header (hlen : (CloudStorage.header offset len rid c ++ 0 :: q).length = buffSize) :
    RequestDecoded (CloudStorage.header offset len rid c ++ 0 :: q)
      ⟨offset, len, rid, .ofChar c⟩ (q ++ [0]) := by
  have hparsed : SlaveDriverProxy.parseHeader (SlaveDriverProxy.recvBuffer
      (CloudStorage.header offset len rid c ++ 0 :: q)) =
      some (⟨offset, len, rid, .ofChar c⟩, q ++ [0]) := by
    rw [slave_recvBuffer hlen, List.append_assoc, List.cons_append, parseHeader_header]
  refine ⟨hparsed, fun fresh => ?_⟩
  generalize FactoryKey.ofChar c = key at *
  by_cases hkey : key = .write
  · subst hkey
    have hle : (q ++ [0]).length ≤ buffSize + 1 := by
      simp only [List.length_append, List.length_cons, List.length_nil] at hlen ⊢
      omega
    obtain ⟨buff, hbuff, -⟩ := exists_strcpy_recvBuffer (by simp) hle fresh.block
    have hreceived := receiveRequest_of_write offset len rid fresh hparsed
    rw [hbuff, Option.map_some] at hreceived
    exact ⟨_, hreceived, rfl, rfl, rfl, rfl⟩
  · exact ⟨_, receiveRequest_of_ne_write offset len rid fresh hkey hparsed, rfl, rfl, rfl, rfl⟩

theorem created_of_parsed
    (hparse : SlaveGateway.parseReply src = some (len, rid, runner))
    (hkey : SlaveGateway.parseKey runner = some key)
    (h : SlaveGateway.createDataFromBuff fresh table src = .ok (data, table')) :
    data.len = len ∧ data.key = key ∧ table.idToHandler rid = some (data.handler, table') := by
  cases hid : table.idToHandler rid with
  | none => simp [SlaveGateway.createDataFromBuff_exit hparse hid] at h
  | some found =>
    by_cases hread : key = .read
    · subst hread
      rw [SlaveGateway.createDataFromBuff_read hparse hid hkey] at h
      cases hm : SlaveGateway.readMessage fresh runner with
      | none => simp [hm] at h
      | some buff =>
        simp only [hm, Option.map_some, orFault_some, Except.ok.injEq, Prod.mk.injEq] at h
        obtain ⟨rfl, rfl⟩ := h
        exact ⟨rfl, rfl, rfl⟩
    · rw [SlaveGateway.createDataFromBuff_write hparse hid hkey hread] at h
      simp only [Except.ok.injEq, Prod.mk.injEq] at h
      obtain ⟨rfl, rfl⟩ := h
      exact ⟨rfl, rfl, rfl⟩

theorem master_recvBuffer_reply
    (hlen : (SlaveDriverProxy.replyHeader len rid key ++ 0 :: q).length = buffSize + 1) :
    SlaveGateway.recvBuffer (SlaveDriverProxy.replyHeader len rid key ++ 0 :: q) =
      SlaveDriverProxy.replyHeader len rid key ++ 0 :: q.dropLast := by
  have hle := SlaveDriverProxy.length_replyHeader_le len rid key
  rw [master_recvBuffer hlen]
  have hq : q ≠ [] := by
    rintro rfl
    simp only [List.length_append, List.length_cons, List.length_nil, buffSize] at hlen
    omega
  rw [show buffSize = (SlaveDriverProxy.replyHeader len rid key ++ 0 :: q).length - 1 by omega,
    ← List.dropLast_eq_take, List.dropLast_append_of_ne_nil (by simp), List.dropLast_cons_of_ne_nil hq]

theorem replyDecoded_header (hkey : key = .read ∨ key = .write)
    (hlen : (SlaveDriverProxy.replyHeader len rid key ++ 0 :: q).length = buffSize + 1) :
    ReplyDecoded (SlaveDriverProxy.replyHeader len rid key ++ 0 :: q) len rid key q.dropLast := by
  have hparse := parseReply_replyHeader len rid key (0 :: q.dropLast)
  rw [← master_recvBuffer_reply len rid hlen] at hparse
  have hrunner := parseKey_cons (SlaveDriverProxy.keyChar key) (sep :: 0 :: q.dropLast)
  rw [ofChar_keyChar hkey] at hrunner
  constructor
  · exact ⟨_, hparse, hrunner, by simp [advance]⟩
  · intro fresh table data table' h
    exact created_of_parsed len rid hparse hrunner h

variable {fresh : Fresh} {table table' : PendingTable} {handler : Handle}

theorem createDataFromBuff_reply_read (hid : table.idToHandler rid = some (handler, table'))
    (hlen : (SlaveDriverProxy.replyHeader len rid .read ++ 0 :: q).length = buffSize + 1) :
    SlaveGateway.createDataFromBuff fresh table (SlaveGateway.recvBuffer
        (SlaveDriverProxy.replyHeader len rid .read ++ 0 :: q)) =
      orFault ((strcpy (uninit fresh.block (buffSize + 1)) q.dropLast).map fun buff =>
        ({ fresh.driverData with
          offset := 0, len := len, handler := handler, key := .read, buff := buff }, table')) := by
  have hkey : SlaveGateway.parseKey
      (sep :: SlaveDriverProxy.keyChar .read :: sep :: 0 :: q.dropLast) = some .read := by
    rw [parseKey_cons, ofChar_keyChar (.inl rfl)]
  rw [master_recvBuffer_reply len rid hlen, SlaveGateway.createDataFromBuff_read
    (parseReply_replyHeader len rid .read _) hid hkey,
    readMessage_cons fresh (SlaveDriverProxy.keyChar_ne_zero .read)]

/-- The master takes the message of a `READ` reply when the NUL behind it is inside its buffer,
and runs out of its buffer otherwise. -/
theorem createDataFromBuff_message (hid : table.idToHandler rid = some (handler, table'))
    (hnul : 0 ∉ message)
    (hfit : (SlaveDriverProxy.replyHeader len rid .read).length + message.length ≤ buffSize) :
    SlaveGateway.createDataFromBuff fresh table (SlaveGateway.recvBuffer
        (SlaveDriverProxy.replyHeader len rid .read ++ 0 :: (message ++ zeros (buffSize -
          ((SlaveDriverProxy.replyHeader len rid .read).length + message.length))))) =
      if (SlaveDriverProxy.replyHeader len rid .read).length + message.length + 1 < buffSize then
        .ok ({ fresh.driverData with
          offset := 0, len := len, handler := handler, key := .read,
          buff := message ++ 0 :: (uninit fresh.block (buffSize + 1)).drop (message.length + 1) },
          table')
      else .error .fault := by
  rw [createDataFromBuff_reply_read len rid hid]
  · generalize (SlaveDriverProxy.replyHeader len rid .read).length = n at *
    have hcstr := cstr_dropLast hnul (buffSize - (n + message.length))
    have hiff : 1 < buffSize - (n + message.length) ↔ n + message.length + 1 < buffSize := by omega
    simp only [hiff] at hcstr
    split at hcstr
    · rename_i hlt
      rw [strcpy_eq hcstr, length_uninit, if_pos (by omega), if_pos hlt]
      rfl
    · rename_i hlt
      rw [strcpy_eq_none_of_cstr hcstr, if_neg hlt]
      rfl
  · simp only [List.length_append, List.length_cons, length_zeros]
    omega

theorem createDataFromBuff_reply_write (hid : table.idToHandler rid = some (handler, table'))
    (hlen : (SlaveDriverProxy.replyHeader len rid .write ++ 0 :: q).length = buffSize + 1) :
    SlaveGateway.createDataFromBuff fresh table (SlaveGateway.recvBuffer
        (SlaveDriverProxy.replyHeader len rid .write ++ 0 :: q)) =
      .ok ({ fresh.driverData with
        offset := 0, len := len, handler := handler, key := .write }, table') := by
  have hkey : SlaveGateway.parseKey
      (sep :: SlaveDriverProxy.keyChar .write :: sep :: 0 :: q.dropLast) = some .write := by
    rw [parseKey_cons, ofChar_keyChar (.inr rfl)]
  rw [master_recvBuffer_reply len rid hlen, SlaveGateway.createDataFromBuff_write
    (parseReply_replyHeader len rid .write _) hid hkey (by decide)]

theorem request_roundtrip_write (data : DriverData)
    (hbuff : data.len.toNat ≤ data.buff.length)
    (h : CloudStorage.writeDatagram data rid = some datagram) :
    ∃ p, RequestDecoded datagram ⟨data.offset, data.len, rid, .write⟩ p ∧
      SlaveDriverProxy.recvBuffer datagram =
        CloudStorage.header data.offset data.len rid 49 ++ 0 :: p ∧
      p.take data.len.toNat = data.buff.take data.len.toNat := by
  have hlen := CloudStorage.length_writeDatagram rid hbuff h
  rw [CloudStorage.writeDatagram_eq rid hbuff] at h
  split at h
  · simp only [Option.some.injEq] at h
    subst h
    refine ⟨_, requestDecoded_header _ _ _ hlen, ?_, ?_⟩
    · rw [slave_recvBuffer hlen, List.append_assoc, List.cons_append]
    · rw [List.append_assoc, take_take_append hbuff]
  · simp at h

theorem request_roundtrip_header (c : UInt8) :
    ∃ datagram p, CloudStorage.printHeader offset len rid c = some datagram ∧
      RequestDecoded datagram ⟨offset, len, rid, .ofChar c⟩ p ∧
      SlaveDriverProxy.recvBuffer datagram = CloudStorage.header offset len rid c ++ 0 :: p := by
  have hle := CloudStorage.length_header_le offset len rid c
  have hpos : 0 < buffSize - (CloudStorage.header offset len rid c).length := by
    rw [buffSize]
    omega
  have hprint := CloudStorage.printHeader_eq offset len rid c
  rw [eq_zeros_cons hpos] at hprint
  have hlen : (CloudStorage.header offset len rid c ++
      0 :: zeros (buffSize - (CloudStorage.header offset len rid c).length - 1)).length = buffSize := by
    simp only [List.length_append, List.length_cons, length_zeros]
    omega
  refine ⟨_, _, hprint, requestDecoded_header _ _ _ hlen, ?_⟩
  rw [slave_recvBuffer hlen, List.append_assoc, List.cons_append]

theorem take_dropLast_append (s t : Bytes) :
    (s ++ t).dropLast.take s.length = s.take (s ++ t).dropLast.length := by
  rw [List.dropLast_eq_take, List.take_take, List.take_append_of_le_length (Nat.min_le_left _ _),
    List.length_take, Nat.min_eq_left (Nat.sub_le _ 1), Nat.min_comm]
  exact List.take_eq_take_min.symm

theorem reply_roundtrip (data : DriverData) (after : Bytes)
    (hkey : data.key = .read ∨ data.key = .write)
    (h : SlaveDriverProxy.sendReply data after = some datagram) :
    ∃ message p, SlaveDriverProxy.message data after = some message ∧
      ReplyDecoded datagram data.len data.reqId data.key p ∧
      SlaveGateway.recvBuffer datagram =
        SlaveDriverProxy.replyHeader data.len data.reqId data.key ++ 0 :: p ∧
      p.take message.length = message.take p.length := by
  rw [SlaveDriverProxy.sendReply_eq] at h
  cases hm : SlaveDriverProxy.message data after with
  | none => simp [hm] at h
  | some message =>
    simp only [hm, Option.bind_some] at h
    split at h
    · rename_i hfit
      simp only [Option.some.injEq] at h
      subst h
      have hlen : (SlaveDriverProxy.replyHeader data.len data.reqId data.key ++ 0 :: (message ++
          zeros (buffSize - ((SlaveDriverProxy.replyHeader data.len data.reqId data.key).length +
            message.length)))).length = buffSize + 1 := by
        simp only [List.length_append, List.length_cons, length_zeros]
        omega
      refine ⟨message, _, rfl, replyDecoded_header _ _ hkey hlen, master_recvBuffer_reply _ _ hlen, ?_⟩
      exact take_dropLast_append message _
    · simp at h

theorem disconnectDatagram_eq_printHeader :
    CloudStorage.disconnectDatagram = CloudStorage.printHeader 0 0 0 50 := by
  have hlen : (CloudStorage.header 0 0 0 50).length = 8 := by decide
  rw [CloudStorage.disconnectDatagram_eq, CloudStorage.printHeader_eq, hlen]

/-- Offset, length, id and key of every request and of every reply come back as they were
printed, and the parse pointer stops on the byte behind the NUL of the header. -/
theorem header_codecs :
    (∀ (data : DriverData) (rid : Int32), data.len.toNat ≤ data.buff.length →
      (CloudStorage.header data.offset data.len rid 49).length + 1 + data.len.toNat ≤ buffSize →
      ∃ datagram p, CloudStorage.writeDatagram data rid = some datagram ∧
        RequestDecoded datagram ⟨data.offset, data.len, rid, .write⟩ p ∧
        SlaveDriverProxy.recvBuffer datagram =
          CloudStorage.header data.offset data.len rid 49 ++ 0 :: p ∧
        p.take data.len.toNat = data.buff.take data.len.toNat) ∧
    (∀ (data : DriverData) (rid : Int32),
      ∃ datagram p, CloudStorage.readDatagram data rid = some datagram ∧
        RequestDecoded datagram ⟨data.offset, data.len, rid, .read⟩ p ∧
        SlaveDriverProxy.recvBuffer datagram =
          CloudStorage.header data.offset data.len rid 48 ++ 0 :: p) ∧
    (∃ datagram p, CloudStorage.disconnectDatagram = some datagram ∧
      RequestDecoded datagram ⟨0, 0, 0, .disconnect⟩ p ∧
      SlaveDriverProxy.recvBuffer datagram = CloudStorage.header 0 0 0 50 ++ 0 :: p) ∧
    ∀ (data : DriverData) (after message : Bytes), data.key = .read ∨ data.key = .write →
      SlaveDriverProxy.message data after = some message →
      (SlaveDriverProxy.replyHeader data.len data.reqId data.key).length + message.length ≤
        buffSize →
      ∃ datagram p, SlaveDriverProxy.sendReply data after = some datagram ∧
        ReplyDecoded datagram data.len data.reqId data.key p ∧
        SlaveGateway.recvBuffer datagram =
          SlaveDriverProxy.replyHeader data.len data.reqId data.key ++ 0 :: p ∧
        p.take message.length = message.take p.length := by
  refine ⟨?write, ?read, ?disconnect, ?reply⟩
  case write =>
    intro data rid hbuff hfit
    have h := CloudStorage.writeDatagram_eq rid hbuff
    rw [if_pos hfit] at h
    obtain ⟨p, hp⟩ := request_roundtrip_write rid data hbuff h
    exact ⟨_, p, h, hp⟩
  case read =>
    intro data rid
    exact request_roundtrip_header data.offset data.len rid 48
  case disconnect =>
    rw [disconnectDatagram_eq_printHeader]
    exact request_roundtrip_header 0 0 0 50
  case reply =>
    intro data after message hkey hm hfit
    have h := SlaveDriverProxy.sendReply_eq data after
    rw [hm, Option.bind_some, if_pos hfit] at h
    obtain ⟨message', p, hm', hdecoded, hsrc, hp⟩ := reply_roundtrip data after hkey h
    rw [hm] at hm'
    cases hm'
    exact ⟨_, p, h, hdecoded, hsrc, hp⟩

/-- Payloads with NUL bytes: the two of a `WRITE` with the largest offset and a negative id, and
the empty one that is left of a `READ` reply. -/
theorem header_codecs_nul :
    (∃ datagram p, CloudStorage.writeDatagram
        ⟨0xffffffffffffffff, 0, .replicate 8 0, 2, .write, 0, [0, 59]⟩ (-2147483648) = some datagram ∧
      RequestDecoded datagram ⟨0xffffffffffffffff, 2, -2147483648, .write⟩ p ∧
      SlaveDriverProxy.recvBuffer datagram =
        CloudStorage.header 0xffffffffffffffff 2 (-2147483648) 49 ++ 0 :: p ∧ p.take 2 = [0, 59]) ∧
    ∃ datagram p, SlaveDriverProxy.sendReply
        ⟨0, 7, .replicate 8 0, 2, .read, 0, [0, 59]⟩ [] = some datagram ∧
      ReplyDecoded datagram 2 7 .read p ∧
      SlaveGateway.recvBuffer datagram = SlaveDriverProxy.replyHeader 2 7 .read ++ 0 :: p ∧
      p.take 0 = ([] : Bytes).take p.length :=
  ⟨header_codecs.1 ⟨0xffffffffffffffff, 0, .replicate 8 0, 2, .write, 0, [0, 59]⟩ (-2147483648)
      (by decide) (by decide),
    header_codecs.2.2.2 ⟨0, 7, .replicate 8 0, 2, .read, 0, [0, 59]⟩ [] [] (by decide) (by decide)
      (by decide)⟩

end GreenCloud.Wire
