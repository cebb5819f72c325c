import GreenCloud.CLib.UnorderedMap
import GreenCloud.Wire.Reads

/-! `RequestEngine::Run` on a slave: every datagram becomes a task that the factory creates for its
key, or an exception. -/

namespace GreenCloud

open CLib

/-- `std::hash` of an enumeration is its number. -/
instance : Hashable FactoryKey where
  hash key := .ofInt key.value

/-- `std::logic_error` with the key that nobody registered. -/
structure Badkey (κ : Type) where
  what : String
  badKey : κ
  deriving DecidableEq

namespace Factory

inductive AddStatus
  | new
  | updated

variable {κ α β : Type} [BEq κ] [Hashable κ]

def add (umap : UnorderedMap κ (α → β)) (key : κ) (func : α → β) :
    AddStatus × UnorderedMap κ (α → β) :=
  (if (UnorderedMap.find key umap.nodes).isSome then .updated else .new, umap.assign key func)

def create (umap : UnorderedMap κ (α → β)) (key : κ) (args : α) : Except (Badkey κ) β :=
  match UnorderedMap.find key umap.nodes with
  | none => .error ⟨"Factory<>::Create() - invalid key", key⟩
  | some func => .ok (func args)

end Factory

namespace SlaveEngine

/-- `SlaveRead`, `SlaveWrite` and `SlaveDisconnect`. -/
inductive Task
  | slaveRead (data : DriverData)
  | slaveWrite (data : DriverData)
  | slaveDisconnect (data : DriverData)
  deriving DecidableEq

abbrev TaskFactory := UnorderedMap FactoryKey (DriverData → Task)

def addTask (factory : TaskFactory) (key : FactoryKey) (func : DriverData → Task) : TaskFactory :=
  (Factory.add factory key func).2

def addTasksToReqEngine (factory : TaskFactory) : TaskFactory :=
  let factory := addTask factory .read .slaveRead
  let factory := addTask factory .write .slaveWrite
  addTask factory .disconnect .slaveDisconnect

/-- How `Run` is left: not yet, behind its loop, by the exception of the factory, or by a read
outside the buffer of `ReceiveRequest`. -/
inductive Ended
  | waiting
  | stopped
  | threw (e : Badkey FactoryKey)
  | outside
  deriving DecidableEq

/-- `Run` on the datagrams that come, each with what the allocator has for it: how it ends, and the
tasks that the pool got. `Read` calls `Stop` for a `DISCONNECT`. -/
def run (factory : TaskFactory) : List (Fresh × Bytes) → Ended × List Task
  | [] => (.waiting, [])
  | (fresh, datagram) :: rest =>
    match SlaveDriverProxy.receiveRequest fresh datagram with
    | none => (.outside, [])
    | some data =>
      match Factory.create factory data.key data with
      | .error e => (.threw e, [])
      | .ok task =>
        if data.key = .disconnect then (.stopped, [task])
        else
          let (ended, tasks) := run factory rest
          (ended, task :: tasks)

def slaveRun (datagrams : List (Fresh × Bytes)) : Ended × List Task :=
  run (addTasksToReqEngine .empty) datagrams

/-- The received part of a datagram is a header of four fields with their `;`, the last of them the
key `c`, and what is behind it. -/
structure Header (datagram : Bytes) (c : UInt8) (behind : Bytes) : Prop where
  fields : ∃ offset len id, datagram.take buffSize =
      offset ++ sep :: (len ++ sep :: (id ++ sep :: (c :: sep :: behind))) ∧
    sep ∉ offset ∧ sep ∉ len ∧ sep ∉ id

def Disconnects (datagram : Bytes) : Prop := ∃ behind, Header datagram 50 behind

def Registered (datagram : Bytes) : Prop :=
  ∃ c behind, Header datagram c behind ∧ (c = 48 ∨ c = 49 ∨ c = 50)

/-- The key is registered, and a `WRITE` leaves a byte of the buffer behind its header, where its
payload would be. -/
def Handled (datagram : Bytes) : Prop :=
  ∃ c behind, Header datagram c behind ∧
    (c = 48 ∨ c = 50 ∨ c = 49 ∧ (behind ≠ [] ∨ datagram.length < buffSize))

/-- `Run` ends for a `DISCONNECT` only, and a request without a task leaves no trace. -/
structure Survives (datagrams : List (Fresh × Bytes)) : Prop where
  ended : (slaveRun datagrams).1 = .waiting ∨ (slaveRun datagrams).1 = .stopped
  disconnects : (slaveRun datagrams).1 = .stopped → ∃ d ∈ datagrams, Disconnects d.2
  dropped : ∀ before d after, datagrams = before ++ d :: after → ¬ Registered d.2 →
    slaveRun datagrams = slaveRun (before ++ after)

variable {datagram behind : Bytes} {c : UInt8} {fresh : Fresh}

theorem create_addTasksToReqEngine (key : FactoryKey) (data : DriverData) :
    Factory.create (addTasksToReqEngine .empty) key data =
      if key = .read then .ok (.slaveRead data)
      else if key = .write then .ok (.slaveWrite data)
      else if key = .disconnect then .ok (.slaveDisconnect data)
      else .error ⟨"Factory<>::Create() - invalid key", key⟩ := by
  have hnodes : (addTasksToReqEngine .empty).nodes =
      [(.disconnect, .slaveDisconnect), (.write, .slaveWrite), (.read, .slaveRead)] := rfl
  rw [Factory.create, hnodes]
  simp only [UnorderedMap.find, UnorderedMap.same_eq_beq, beq_iff_eq]
  by_cases hread : key = .read
  · simp [hread]
  · by_cases hwrite : key = .write
    · simp [hwrite]
    · by_cases hdisconnect : key = .disconnect
      · simp [hdisconnect]
      · simp [hread, hwrite, hdisconnect]

def behindThree (p : Bytes) : Option Bytes :=
  (skipPast sep p).bind fun p => (skipPast sep p).bind (skipPast sep)

theorem behindThree_append {offset len id : Bytes} (hoffset : sep ∉ offset) (hlen : sep ∉ len)
    (hid : sep ∉ id) (rest : Bytes) :
    behindThree (offset ++ sep :: (len ++ sep :: (id ++ sep :: rest))) = some rest := by
  simp only [behindThree, skipPast_append hoffset, skipPast_append hlen, skipPast_append hid,
    Option.bind_some]

theorem Header.unique (h : Header datagram c behind) (h' : Header datagram c' behind') :
    c = c' ∧ behind = behind' := by
  obtain ⟨offset, len, id, heq, hoffset, hlen, hid⟩ := h.fields
  obtain ⟨offset', len', id', heq', hoffset', hlen', hid'⟩ := h'.fields
  have hbehind := behindThree_append hoffset hlen hid (c :: sep :: behind)
  rw [← heq, heq', behindThree_append hoffset' hlen' hid'] at hbehind
  injection hbehind with hbehind
  injection hbehind with hc hbehind
  injection hbehind with _ hbehind
  exact ⟨hc.symm, hbehind.symm⟩

theorem Header.recvBuffer (h : Header datagram c behind) : ∃ offset len id,
    SlaveDriverProxy.recvBuffer datagram = offset ++ sep :: (len ++ sep :: (id ++ sep ::
      (c :: sep :: (behind ++ zeros (buffSize + 1 - min buffSize datagram.length))))) ∧
    sep ∉ offset ∧ sep ∉ len ∧ sep ∉ id := by
  obtain ⟨offset, len, id, heq, hnone⟩ := h.fields
  refine ⟨offset, len, id, ?_, hnone⟩
  rw [SlaveDriverProxy.recvBuffer, receive, heq]
  simp only [List.append_assoc, List.cons_append]

theorem Header.key (h : Header datagram c behind)
    (hdata : SlaveDriverProxy.receiveRequest fresh datagram = some data) :
    data.key = .ofChar c := by
  obtain ⟨offset, len, id, heq, hoffset, hlen, hid⟩ := h.recvBuffer
  obtain ⟨header, hparse, hkey⟩ := Wire.parseHeader_inside (Wire.slave_getLast? datagram)
    (skipPast_eq_some.mpr ⟨offset, hoffset, heq⟩) (skipPast_append hlen _) (skipPast_append hid _)
  rw [← hkey]
  simp only [SlaveDriverProxy.receiveRequest, hparse, Option.bind_eq_bind, Option.bind_some]
    at hdata
  split at hdata
  · obtain ⟨buff, -, hdata⟩ := Option.bind_eq_some_iff.mp hdata
    cases hdata
    rfl
  · cases hdata
    rfl

theorem Header.isSome_iff (h : Header datagram c behind) (fresh : Fresh) :
    (SlaveDriverProxy.receiveRequest fresh datagram).isSome ↔
      (c = 49 → behind ≠ [] ∨ datagram.length < buffSize) := by
  obtain ⟨offset, len, id, heq, hoffset, hlen, hid⟩ := h.recvBuffer
  have hroom : 3 < (c :: sep :: (behind ++
      zeros (buffSize + 1 - min buffSize datagram.length))).length ↔
        behind ≠ [] ∨ datagram.length < buffSize := by
    rw [← List.length_pos_iff]
    simp only [List.length_cons, List.length_append, length_zeros]
    omega
  rw [Wire.receiveRequest_isSome_iff, Wire.RequestInside]
  constructor
  · rintro ⟨offset', len', id', rest, heq', hoffset', hlen', hid', hwrite⟩ rfl
    have hbehind := behindThree_append hoffset' hlen' hid' rest
    rw [← heq', heq, behindThree_append hoffset hlen hid, Option.some.injEq] at hbehind
    subst hbehind
    exact hroom.mp (hwrite rfl)
  · intro hwrite
    refine ⟨offset, len, id, _, heq, hoffset, hlen, hid, fun hc => hroom.mpr (hwrite ?_)⟩
    exact Option.some.inj hc

theorem slaveRun_cons (h : SlaveDriverProxy.receiveRequest fresh datagram = some data)
    (hcreate : Factory.create (addTasksToReqEngine .empty) data.key data = .ok task)
    (rest : List (Fresh × Bytes)) :
    slaveRun ((fresh, datagram) :: rest) =
      if data.key = .disconnect then (.stopped, [task])
      else ((slaveRun rest).1, task :: (slaveRun rest).2) := by
  rw [slaveRun, run]
  simp only [h, hcreate]
  rfl

theorem Header.receive (h : Header datagram c behind)
    (hroom : c = 49 → behind ≠ [] ∨ datagram.length < buffSize) (fresh : Fresh) :
    ∃ data, SlaveDriverProxy.receiveRequest fresh datagram = some data ∧ data.key = .ofChar c := by
  obtain ⟨data, hdata⟩ := Option.isSome_iff_exists.mp ((h.isSome_iff fresh).mpr hroom)
  exact ⟨data, hdata, h.key hdata⟩

theorem slaveRun_disconnect (h : Header datagram 50 behind) (fresh : Fresh) :
    ∃ task, ∀ rest, slaveRun ((fresh, datagram) :: rest) = (.stopped, [task]) := by
  obtain ⟨data, hdata, hkey⟩ := h.receive nofun fresh
  have hkey : data.key = .disconnect := hkey
  have hcreate := create_addTasksToReqEngine data.key data
  rw [hkey] at hcreate
  refine ⟨.slaveDisconnect data, fun rest => ?_⟩
  rw [slaveRun_cons hdata (by rw [hkey]; exact hcreate), if_pos hkey]

theorem slaveRun_read_write (h : Header datagram c behind)
    (hc : c = 48 ∨ c = 49 ∧ (behind ≠ [] ∨ datagram.length < buffSize)) (fresh : Fresh) :
    ∃ task, ∀ rest, slaveRun ((fresh, datagram) :: rest) =
      ((slaveRun rest).1, task :: (slaveRun rest).2) := by
  have hroom : c = 49 → behind ≠ [] ∨ datagram.length < buffSize := by
    rintro rfl
    rcases hc with hc | ⟨-, hroom⟩
    · cases hc
    · exact hroom
  obtain ⟨data, hdata, hkey⟩ := h.receive hroom fresh
  have hcreate := create_addTasksToReqEngine data.key data
  have hkeys : data.key = .read ∨ data.key = .write := by
    rcases hc with rfl | ⟨rfl, -⟩
    · exact .inl hkey
    · exact .inr hkey
  rcases hkeys with hkey | hkey
  · rw [hkey] at hcreate
    refine ⟨.slaveRead data, fun rest => ?_⟩
    rw [slaveRun_cons hdata (by rw [hkey]; exact hcreate), hkey]
    rfl
  · rw [hkey] at hcreate
    refine ⟨.slaveWrite data, fun rest => ?_⟩
    rw [slaveRun_cons hdata (by rw [hkey]; exact hcreate), hkey]
    rfl

variable {d : Fresh × Bytes} {rest before after datagrams : List (Fresh × Bytes)}

theorem Handled.registered (h : Handled datagram) : Registered datagram := by
  obtain ⟨c, behind, hheader, hc⟩ := h
  refine ⟨c, behind, hheader, ?_⟩
  rcases hc with hc | hc | ⟨hc, -⟩
  · exact .inl hc
  · exact .inr (.inr hc)
  · exact .inr (.inl hc)

theorem Handled.turn (h : Handled d.2) :
    (Disconnects d.2 ∧ ∃ task, ∀ rest, slaveRun (d :: rest) = (.stopped, [task])) ∨
      (¬ Disconnects d.2 ∧ ∃ task, ∀ rest,
        slaveRun (d :: rest) = ((slaveRun rest).1, task :: (slaveRun rest).2)) := by
  obtain ⟨fresh, datagram⟩ := d
  obtain ⟨c, behind, hheader, hc⟩ := h
  have hother : c ≠ 50 → ¬ Disconnects datagram := by
    rintro hne ⟨behind', hheader'⟩
    exact hne (hheader.unique hheader').1
  rcases hc with rfl | rfl | hc
  · exact .inr ⟨hother (by decide), slaveRun_read_write hheader (.inl rfl) fresh⟩
  · exact .inl ⟨⟨behind, hheader⟩, slaveRun_disconnect hheader fresh⟩
  · have hne : c ≠ 50 := by
      rw [hc.1]
      decide
    exact .inr ⟨hother hne, slaveRun_read_write hheader (.inr hc) fresh⟩

theorem header_of_char (c : UInt8) : Header (ascii "0;0;0;" ++ [c, sep]) c [] :=
  ⟨[48], [48], [48], rfl, by decide, by decide, by decide⟩

def zeroed : Fresh := ⟨⟨0, 0, .replicate 8 0, 0, .read, 0, []⟩, fun _ => 0⟩

end SlaveEngine

end GreenCloud
