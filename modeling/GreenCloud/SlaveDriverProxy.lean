import GreenCloud.DriverData

/-! `SlaveDriverProxy`: the slave parses requests and answers them. -/

namespace GreenCloud.SlaveDriverProxy

open CLib

def getNextParse : Bytes → Option Bytes := skipPast sep

def getSizeT (src : Bytes) : Option (UInt64 × Bytes) := do
  let (l, _) ← strtoul src
  return (l, ← getNextParse src)

def getUint (src : Bytes) : Option (UInt32 × Bytes) := do
  let (ui, _) ← strtoul src
  return (ui.toUInt32, ← getNextParse src)

def getInt (src : Bytes) : Option (Int32 × Bytes) := do
  let (i, _) ← strtoul src
  return (i.toUInt32.toInt32, ← getNextParse src)

/-- Skips the key, the `;` and the NUL without a look at them: a pointer behind the buffer is as
good as one to its end until it is read through. -/
def getReqKey (src : Bytes) : Option (FactoryKey × Bytes) := do
  return (.ofChar (← src.head?), src.drop 3)

structure RequestHeader where
  offset : UInt64
  len : UInt32
  reqId : Int32
  key : FactoryKey
  deriving DecidableEq

/-- The four field parsers of `ReceiveRequest`, and where they leave `runner`. -/
def parseHeader (buf : Bytes) : Option (RequestHeader × Bytes) := do
  let (offset, runner) ← getSizeT buf
  let (len, runner) ← getUint runner
  let (reqId, runner) ← getInt runner
  let (key, runner) ← getReqKey runner
  return (⟨offset, len, reqId, key⟩, runner)

/-- `char buf[BUFF_SIZE + 1] = {0}` after `recvfrom`. A failed `recvfrom` leaves it as an
empty datagram does. -/
def recvBuffer (datagram : Bytes) : Bytes := receive (buffSize + 1) buffSize datagram

def receiveRequest (fresh : Fresh) (datagram : Bytes) : Option DriverData := do
  let (h, runner) ← parseHeader (recvBuffer datagram)
  let ret := { fresh.driverData with offset := h.offset, len := h.len, reqId := h.reqId, key := h.key }
  if h.key = .write then
    let buff ← strcpy (fresh.reserve (buffSize + 1) ret.buff) runner
    return { ret with buff := buff }
  return ret

/-- `src` is `str.c_str()`. -/
def addInt (src : Bytes) (dest : Cursor) : Option Cursor := do
  let dest ← dest.copyString src
  dest.put sep

def keyChar (key : FactoryKey) : UInt8 := if key = .read then 48 else 49

def addRequestType (key : FactoryKey) (dest : Cursor) : Option Cursor := do
  let dest ← dest.put (keyChar key)
  dest.put sep

def addMessage (src : Bytes) (dest : Cursor) : Option Cursor := dest.copyString src

/-- `after` is what lies in memory behind the storage of `m_buff`. -/
def sendReply (data : DriverData) (after : Bytes) : Option Bytes := do
  let runner ← addInt (decimal data.len.toNat ++ [0]) (.start (zeros (buffSize + 1)))
  let runner ← addInt (decimalInt data.reqId.toInt ++ [0]) runner
  let runner ← addRequestType data.key runner
  let runner ← runner.put 0
  if data.key = .read then
    let runner ← addMessage (data.buff ++ after) runner
    return runner.object
  return runner.object

theorem getNextParse_append (h : sep ∉ s) (p : Bytes) :
    getNextParse (s ++ sep :: p) = some p := skipPast_append h p

theorem getSizeT_decimal (l : UInt64) (p : Bytes) :
    getSizeT (decimal l.toNat ++ sep :: p) = some (l, p) := by
  simp [getSizeT, strtoul_decimal isDigit_sep l.toNat_lt,
    getNextParse_append (sep_not_mem_decimal _)]

theorem getUint_decimal (ui : UInt32) (p : Bytes) :
    getUint (decimal ui.toNat ++ sep :: p) = some (ui, p) := by
  have hlt : ui.toNat < 2 ^ 64 := Nat.lt_trans ui.toNat_lt (by decide)
  simp [getUint, strtoul_decimal isDigit_sep hlt, getNextParse_append (sep_not_mem_decimal _)]

/-- A negative id comes back through `strtoul` and the narrowing to `int`. -/
theorem getInt_decimalInt (i : Int32) (p : Bytes) :
    getInt (decimalInt i.toInt ++ sep :: p) = some (i, p) := by
  have habs : i.toInt.natAbs < 2 ^ 64 := by
    have := i.toInt_lt
    have := i.le_toInt
    omega
  simp [getInt, strtoul_decimalInt isDigit_sep habs, toInt32_toUInt32_ofInt,
    getNextParse_append (sep_not_mem_decimalInt _)]

theorem getReqKey_cons (c x y : UInt8) (p : Bytes) :
    getReqKey (c :: x :: y :: p) = some (.ofChar c, p) := by
  simp [getReqKey]

def replyHeader (len : UInt32) (rid : Int32) (key : FactoryKey) : Bytes :=
  decimal len.toNat ++ sep :: (decimalInt rid.toInt ++ sep :: [keyChar key, sep])

/-- The part of the buffer that goes out behind the header: the C string at
`m_buff.data()` for `READ`, nothing for another key. -/
def message (data : DriverData) (after : Bytes) : Option Bytes :=
  if data.key = .read then cstr (data.buff ++ after) else some []

variable (len : UInt32) (rid : Int32) (key : FactoryKey)

theorem keyChar_ne_zero : keyChar key ≠ 0 := by
  unfold keyChar
  split <;> decide

theorem length_replyHeader_le : (replyHeader len rid key).length ≤ 25 := by
  have h2 : (decimal len.toNat).length ≤ 10 :=
    (length_decimal_le_iff (by decide)).mpr (Nat.lt_trans len.toNat_lt (by decide))
  have h3 := length_decimalInt_le rid
  simp only [replyHeader, List.length_append, List.length_cons, List.length_nil]
  omega

theorem addInt_eq (hs : 0 ∉ s) (dest : Cursor) :
    addInt (s ++ [0]) dest = dest.write (s ++ [sep]) := by
  rw [addInt, Cursor.copyString_eq_write (cstr_append hs []), Cursor.write_append]
  cases dest.write s with
  | none => rfl
  | some runner => simp

theorem addRequestType_eq (dest : Cursor) :
    addRequestType key dest = dest.write [keyChar key, sep] := by
  rw [addRequestType, Cursor.write]
  cases dest.put (keyChar key) with
  | none => rfl
  | some runner => simp

theorem sendReply_eq_write (data : DriverData) (after : Bytes) :
    sendReply data after = (message data after).bind fun message =>
      ((Cursor.start (zeros (buffSize + 1))).write
        (replyHeader data.len data.reqId data.key ++ 0 :: message)).map Cursor.object := by
  have hsplit : ∀ message, replyHeader data.len data.reqId data.key ++ 0 :: message =
      (decimal data.len.toNat ++ [sep]) ++ ((decimalInt data.reqId.toInt ++ [sep]) ++
        ([keyChar data.key, sep] ++ ([0] ++ message))) := by
    intro message
    simp [replyHeader]
  simp only [sendReply, addInt_eq (nul_not_mem_decimal _), addInt_eq (nul_not_mem_decimalInt _),
    addRequestType_eq, ← Cursor.write_singleton, hsplit]
  by_cases hkey : data.key = .read
  · simp only [message, hkey, ↓reduceIte, addMessage]
    cases hs : cstr (data.buff ++ after) with
    | none => simp [Cursor.copyString_eq_none_of_cstr hs]
    | some message =>
      simp only [Cursor.copyString_eq_write hs, Cursor.write_append, Option.bind_assoc,
        Option.bind_eq_bind, Option.bind_some, Option.map_eq_bind]
      rfl
  · simp only [message, hkey, ↓reduceIte, Cursor.write_append, Cursor.write, Option.bind_assoc,
      Option.bind_eq_bind, Option.bind_some, Option.map_eq_bind]
    rfl

theorem sendReply_eq (data : DriverData) (after : Bytes) :
    sendReply data after = (message data after).bind fun message =>
      if (replyHeader data.len data.reqId data.key).length + message.length ≤ buffSize then
        some (replyHeader data.len data.reqId data.key ++ 0 :: (message ++
          zeros (buffSize - ((replyHeader data.len data.reqId data.key).length + message.length))))
      else none := by
  rw [sendReply_eq_write]
  congr 1
  funext message
  generalize replyHeader data.len data.reqId data.key = h
  have hiff : (h ++ 0 :: message).length ≤ buffSize + 1 ↔ h.length + message.length ≤ buffSize := by
    simp only [List.length_append, List.length_cons]
    omega
  have hrest : buffSize + 1 - (h ++ 0 :: message).length =
      buffSize - (h.length + message.length) := by
    simp only [List.length_append, List.length_cons]
    omega
  rw [Cursor.start, Cursor.write_zeros, hrest]
  simp only [hiff]
  split
  · simp [Cursor.object]
  · rfl

end GreenCloud.SlaveDriverProxy
