import GreenCloud.PendingTable

/-! `SlaveGateway`: the master parses the replies of a slave. -/

namespace GreenCloud

open CLib

/-- How a call ends that does not return: an access outside an object, or `exit`. -/
inductive Halt
  | fault
  | exit (status : Int)
  deriving DecidableEq

def orFault : Option α → Except Halt α
  | some a => .ok a
  | none => .error .fault

@[simp] theorem orFault_some (a : α) : orFault (some a) = .ok a := rfl

@[simp] theorem orFault_none : orFault (none : Option α) = .error .fault := rfl

@[simp] theorem ok_bind (a : α) (f : α → Except Halt β) : (Except.ok a >>= f) = f a := rfl

@[simp] theorem error_bind (e : Halt) (f : α → Except Halt β) :
    (Except.error e >>= f) = .error e := rfl

namespace SlaveGateway

/-- The length and the id of a reply, and `runner`, which is left on the `;` behind the id. -/
def parseReply (src : Bytes) : Option (UInt32 × Int32 × Bytes) := do
  let (len, runner) ← strtoul src
  let (rid, runner) ← strtol (← advance 1 runner)
  return (len.toUInt32, rid.toInt32, runner)

def parseKey (runner : Bytes) : Option FactoryKey := do
  return .ofChar (← (← advance 1 runner).head?)

/-- `printf("read -%s")` reads the string at `runner`, and `strcpy` the one behind it. -/
def readMessage (fresh : Fresh) (runner : Bytes) : Option Bytes := do
  let _ ← cstr runner
  strcpy (fresh.reserve (buffSize + 1) []) (← advance 4 runner)

def createDataFromBuff (fresh : Fresh) (table : PendingTable) (src : Bytes) :
    Except Halt (DriverData × PendingTable) := do
  let (len, rid, runner) ← orFault (parseReply src)
  match table.idToHandler rid with
  | none => throw (.exit 1)
  | some (handler, table) =>
    let key ← orFault (parseKey runner)
    let data := { fresh.driverData with offset := 0, len := len, handler := handler, key := key }
    if key = .read then
      let buff ← orFault (readMessage fresh runner)
      return ({ data with buff := buff }, table)
    return (data, table)

/-- `char buf[BUFF_SIZE] = {0}` after `recvfrom`. -/
def recvBuffer (datagram : Bytes) : Bytes := receive buffSize buffSize datagram

/-- `none` is a failed `recvfrom`. -/
def read (fresh : Fresh) (table : PendingTable) (datagram : Option Bytes) :
    Except Halt (FactoryKey × DriverData × PendingTable) :=
  match datagram with
  | none => throw (.exit 1)
  | some datagram => do
    let (data, table) ← createDataFromBuff fresh table (recvBuffer datagram)
    return (.replay, data, table)

variable {fresh : Fresh} {table : PendingTable}

theorem createDataFromBuff_exit (h : parseReply src = some (len, rid, runner))
    (hid : table.idToHandler rid = none) :
    createDataFromBuff fresh table src = .error (.exit 1) := by
  simp only [createDataFromBuff, h, orFault_some, ok_bind, hid]
  rfl

theorem createDataFromBuff_write (h : parseReply src = some (len, rid, runner))
    (hid : table.idToHandler rid = some (handler, table'))
    (hkey : parseKey runner = some key) (hread : key ≠ .read) :
    createDataFromBuff fresh table src = .ok ({ fresh.driverData with
      offset := 0, len := len, handler := handler, key := key }, table') := by
  simp only [createDataFromBuff, h, orFault_some, ok_bind, hid, hkey, hread, ↓reduceIte]
  rfl

theorem createDataFromBuff_read (h : parseReply src = some (len, rid, runner))
    (hid : table.idToHandler rid = some (handler, table')) (hkey : parseKey runner = some .read) :
    createDataFromBuff fresh table src =
      orFault ((readMessage fresh runner).map fun buff => ({ fresh.driverData with
        offset := 0, len := len, handler := handler, key := .read, buff := buff }, table')) := by
  simp only [createDataFromBuff, h, orFault_some, ok_bind, hid, hkey, ↓reduceIte]
  cases readMessage fresh runner <;> rfl

theorem createDataFromBuff_status (h : createDataFromBuff fresh table src = .ok (data, table')) :
    data.status = fresh.data.status := by
  cases hparse : parseReply src with
  | none => simp [createDataFromBuff, hparse] at h
  | some parsed =>
    obtain ⟨len, rid, runner⟩ := parsed
    cases hid : table.idToHandler rid with
    | none => simp [createDataFromBuff_exit hparse hid] at h
    | some found =>
      cases hkey : parseKey runner with
      | none => simp [createDataFromBuff, hparse, hid, hkey] at h
      | some key =>
        by_cases hread : key = .read
        · subst hread
          rw [createDataFromBuff_read hparse hid hkey] at h
          cases hm : readMessage fresh runner with
          | none => simp [hm] at h
          | some buff =>
            simp only [hm, Option.map_some, orFault_some, Except.ok.injEq, Prod.mk.injEq] at h
            obtain ⟨rfl, -⟩ := h
            rfl
        · rw [createDataFromBuff_write hparse hid hkey hread] at h
          simp only [Except.ok.injEq, Prod.mk.injEq] at h
          obtain ⟨rfl, -⟩ := h
          rfl

end SlaveGateway

end GreenCloud
