import GreenCloud.SlaveGateway

/-! `NBDDriverProxy`: the requests the master reads from the NBD socket and the replies it
writes there. -/

namespace GreenCloud.NBDDriverProxy

open CLib

/-- `ntohl` and `htonl` of a little-endian host. -/
def ntohl (x : UInt32) : UInt32 :=
  (x <<< 24) ||| ((x &&& (0xff00 : UInt32)) <<< 8) ||| ((x >>> 8) &&& (0xff00 : UInt32)) ||| (x >>> 24)

def ntohll (a : UInt64) : UInt64 :=
  let lo := ntohl (a &&& 0xffffffff).toUInt32
  let hi := ntohl (a >>> 32).toUInt32
  (lo.toUInt64 <<< 32) ||| hi.toUInt64

/-- `struct nbd_request` as it was read: its numbers are in network order. -/
structure NbdRequest where
  magic : UInt32
  type : UInt32
  handle : Handle
  from_ : UInt64
  len : UInt32
  deriving DecidableEq

/-- `NBD_REQUEST_MAGIC` -/
def requestMagic : UInt32 := 0x25609513

inductive ReceiveError
  | badMagic (magic : UInt32)
  | readAll
  deriving DecidableEq

/-- `stream` is what comes on the socket, and the second result what is left of it. `none` where
fewer than `count` bytes come. -/
def readAll (count : Nat) (stream : Bytes) (buff : Cursor) : Option (Cursor × Bytes) := do
  let buff ← buff.write (← fetch count stream)
  return (buff, stream.drop count)

/-- `stream` is what follows the header on the socket. -/
def receiveRequest (fresh : Fresh) (request : NbdRequest) (stream : Bytes) :
    Except ReceiveError (DriverData × Bytes) :=
  if request.magic ≠ ntohl requestMagic then
    .error (.badMagic request.magic)
  else
    let len := ntohl request.len
    let ret := { fresh.driverData with handler := request.handle, status := 0 }
    match (ntohl request.type).toNat with
    | 0 => .ok ({ ret with offset := ntohll request.from_, len := len, key := .read }, stream)
    | 1 =>
      match readAll len.toNat stream (.start (fresh.reserve len.toNat ret.buff)) with
      | none => .error .readAll
      | some (buff, rest) => .ok ({ ret with
          offset := ntohll request.from_, len := len, key := .write, buff := buff.object }, rest)
    | 2 => .ok ({ ret with key := .disconnect }, stream)
    | 3 => .ok ({ ret with key := .flush }, stream)
    | 4 => .ok ({ ret with key := .trim }, stream)
    | _ => .ok ({ ret with key := .badRequest }, stream)

/-- An `int` as it lies in memory on a little-endian host. -/
def intBytes (i : Int32) : Bytes :=
  [i.toUInt32.toUInt8, (i.toUInt32 >>> 8).toUInt8, (i.toUInt32 >>> 16).toUInt8,
    (i.toUInt32 >>> 24).toUInt8]

/-- `htonl(NBD_REPLY_MAGIC)` -/
def replyMagic : Bytes := [0x67, 0x44, 0x66, 0x98]

/-- The 16 bytes of `struct nbd_reply`. -/
def initReply (status : Int32) (handler : Handle) : Bytes :=
  replyMagic ++ intBytes status ++ handler.toList

/-- The bytes that the two `WriteAll` of `SendReply` put on the socket when no write fails. -/
def sendReply (data : DriverData) : Option Bytes := do
  let reply := initReply data.status data.handler
  if data.key = .read then
    let payload ← fetch data.len.toNat data.buff
    return reply ++ payload
  return reply

/-- The `READ` and `WRITE` requests that `ReceiveRequest` can return. -/
def Admitted (data : DriverData) : Prop :=
  (data.key = .read ∨ data.key = .write) ∧
    ∃ fresh request stream rest, receiveRequest fresh request stream = .ok (data, rest)

variable {data : DriverData}

theorem length_object_readAll (h : readAll count stream buff = some (buff', rest)) :
    buff'.object.length = buff.object.length := by
  simp only [readAll, Option.bind_eq_bind, Option.bind_eq_some_iff, Option.pure_def,
    Option.some.injEq, Prod.mk.injEq] at h
  obtain ⟨payload, -, runner, hwrite, rfl, -⟩ := h
  exact Cursor.length_object_write hwrite

theorem Admitted.length_buff (h : Admitted data) (hkey : data.key = .write) :
    data.buff.length = data.len.toNat := by
  obtain ⟨-, fresh, request, stream, rest, hr⟩ := h
  unfold receiveRequest at hr
  split at hr
  · cases hr
  · dsimp only at hr
    split at hr
    case h_2 =>
      split at hr
      · cases hr
      · rename_i buff _ hread
        cases hr
        exact (length_object_readAll hread).trans (by simp [Fresh.driverData, Cursor.start, Cursor.object])
    all_goals
      cases hr
      cases hkey

theorem sendReply_read (h : data.key = .read) :
    sendReply data =
      (fetch data.len.toNat data.buff).map (initReply data.status data.handler ++ ·) := by
  simp only [sendReply, h, ↓reduceIte]
  cases fetch data.len.toNat data.buff <;> rfl

theorem sendReply_of_ne_read (h : data.key ≠ .read) :
    sendReply data = some (initReply data.status data.handler) := by
  simp only [sendReply, h, ↓reduceIte]
  rfl

theorem intBytes_injective (h : intBytes i = intBytes j) : i = j := by
  have hi := i.toUInt32.toNat_lt
  have hj := j.toUInt32.toNat_lt
  have hsame : i.toUInt32 = j.toUInt32 := by
    simp only [intBytes, List.cons.injEq, and_true, ← UInt8.toNat_inj, UInt32.toNat_toUInt8,
      UInt32.toNat_shiftRight, Nat.shiftRight_eq_div_pow, UInt32.reduceToNat, Nat.reduceMod,
      Nat.reducePow] at h
    rw [← UInt32.toNat_inj]
    omega
  exact congrArg UInt32.toInt32 hsame

theorem drop_take_sendReply (h : sendReply data = some bytes) :
    (bytes.drop 4).take 4 = intBytes data.status := by
  by_cases hkey : data.key = .read
  · rw [sendReply_read hkey, Option.map_eq_some_iff] at h
    obtain ⟨payload, -, rfl⟩ := h
    rfl
  · rw [sendReply_of_ne_read hkey] at h
    cases h
    rfl

end GreenCloud.NBDDriverProxy
