import GreenCloud.CLib.UnorderedMap
import GreenCloud.CloudStorage

/-! `CloudStorage::m_slaves`: the slaves a master has accepted, under offsets that the map cannot
tell apart. -/

namespace GreenCloud

open CLib

structure SockAddr where
  port : UInt16
  addr : UInt32
  deriving DecidableEq

structure SlaveData where
  socket : Int32
  cliaddr : SockAddr
  deriving DecidableEq

/-- `SlaveData()`, with the zeros that the map gives a value of its own. -/
def SlaveData.default : SlaveData := ⟨0, ⟨0, 0⟩⟩

structure Offset where
  offset : Int64

/-- `Offset::operator==` -/
instance : BEq Offset where
  beq _ _ := true

/-- `std::hash<Offset>` -/
instance : Hashable Offset where
  hash _ := 0

structure Slaves where
  slaves : UnorderedMap Offset SlaveData
  numOfSlaves : Nat

namespace Slaves

def addSlave (slaves : UnorderedMap Offset SlaveData) (offset : Offset) (slave : SlaveData) :
    UnorderedMap Offset SlaveData := slaves.assign offset slave

/-- The slaves that the constructor accepts: `connect` is `SlaveData(port)`. -/
def accepted (connect : Nat → SlaveData) (numOfSlaves : Nat) : List SlaveData :=
  (List.range numOfSlaves).map fun i => connect (6666 * (i + 1))

/-- The constructor of `CloudStorage`. -/
def init (connect : Nat → SlaveData) (numOfSlaves : Nat) : Slaves where
  slaves := (accepted connect numOfSlaves).foldl (fun slaves slave => addSlave slaves ⟨0⟩ slave) .empty
  numOfSlaves := numOfSlaves

/-- `none` is a read through the end of the map. -/
def readFds : Nat → List (Offset × SlaveData) → Option (List Int32)
  | 0, _ => some []
  | _ + 1, [] => none
  | n + 1, (_, slave) :: nodes => (readFds n nodes).map (slave.socket :: ·)

def getAllFds (s : Slaves) : Option (List Int32) := readFds s.numOfSlaves s.slaves.nodes

def disconnect (s : Slaves) : Option (List (SlaveData × Bytes)) :=
  CloudStorage.disconnectDatagram.map fun buf => s.slaves.nodes.map fun node => (node.2, buf)

def getSlaveData (s : Slaves) (offset : Int64) : SlaveData × Slaves :=
  let (slave, slaves) := s.slaves.index ⟨offset⟩ .default
  (slave, { s with slaves := slaves })

/-- The master knows each of the slaves it accepted, listens to it, takes leave of it once, and
sends every request to one of them. -/
structure Serves (s : Slaves) (accepted : List SlaveData) : Prop where
  slaves : (s.slaves.nodes.map Prod.snd).Perm accepted
  fds : ∃ fds, s.getAllFds = some fds ∧ fds.Perm (accepted.map SlaveData.socket) ∧ fds.Nodup
  disconnect : ∃ buf, CloudStorage.disconnectDatagram = some buf ∧
    ∃ sent, s.disconnect = some sent ∧ sent.Perm (accepted.map fun slave => (slave, buf))
  getSlaveData : ∀ offset, (s.getSlaveData offset).1 ∈ accepted

variable (connect : Nat → SlaveData)

theorem length_accepted (n : Nat) : (accepted connect n).length = n := by simp [accepted]

theorem accepted_succ (n : Nat) :
    accepted connect (n + 1) = accepted connect n ++ [connect (6666 * (n + 1))] := by
  simp [accepted, List.range_succ]

theorem same_offset (a b : Offset) : UnorderedMap.same a b := rfl

/-- Every slave takes the place of the one before it. -/
theorem slaves_init (n : Nat) :
    (init connect (n + 1)).slaves = ⟨[(⟨0⟩, connect (6666 * (n + 1)))]⟩ := by
  induction n with
  | zero => rfl
  | succ n ih =>
    simp only [init] at ih ⊢
    rw [accepted_succ, List.foldl_append, ih, List.foldl_cons, List.foldl_nil, addSlave,
      UnorderedMap.assign_head (same_offset _ _)]

theorem not_serves_of_lt (h : 1 < n) : ¬ Serves (init connect n) (accepted connect n) := by
  intro hs
  obtain ⟨k, rfl⟩ : ∃ k, n = k + 1 := ⟨n - 1, by omega⟩
  have hlen := hs.slaves.length_eq
  rw [length_accepted, slaves_init] at hlen
  simp only [List.map_cons, List.map_nil, List.length_cons, List.length_nil] at hlen
  omega

theorem not_serves_zero : ¬ Serves (init connect 0) (accepted connect 0) := by
  intro hs
  have hmem := hs.getSlaveData 0
  simp [accepted] at hmem

theorem serves_one : Serves (init connect 1) (accepted connect 1) := by
  have hslaves := slaves_init connect 0
  constructor
  · rw [hslaves]
    rfl
  · refine ⟨[(connect 6666).socket], ?_, List.Perm.refl _, by simp⟩
    rw [getAllFds, hslaves]
    rfl
  · refine ⟨_, CloudStorage.disconnectDatagram_eq, [(connect 6666, _)], ?_, List.Perm.refl _⟩
    rw [disconnect, hslaves, CloudStorage.disconnectDatagram_eq]
    rfl
  · intro offset
    rw [getSlaveData, hslaves, UnorderedMap.index_head (same_offset _ _)]
    exact List.mem_singleton_self _

/-- The map of slaves does what it is for with one slave, and with no other number of them. -/
theorem serves_iff (n : Nat) : Serves (init connect n) (accepted connect n) ↔ n = 1 := by
  constructor
  · intro hs
    rcases Nat.lt_trichotomy n 1 with hlt | rfl | hlt
    · obtain rfl : n = 0 := by omega
      exact absurd hs (not_serves_zero connect)
    · rfl
    · exact absurd hs (not_serves_of_lt connect hlt)
  · rintro rfl
    exact serves_one connect

/-- Two slaves: the second is alone in the map, and `GetAllFds` reads through its end. -/
theorem not_serves_two :
    (init (fun port => ⟨.ofNat port, ⟨.ofNat port, 1⟩⟩) 2).getAllFds = none ∧
    ¬ Serves (init (fun port => ⟨.ofNat port, ⟨.ofNat port, 1⟩⟩) 2)
      (accepted (fun port => ⟨.ofNat port, ⟨.ofNat port, 1⟩⟩) 2) :=
  ⟨by decide, not_serves_of_lt _ (by decide)⟩

end Slaves

end GreenCloud
