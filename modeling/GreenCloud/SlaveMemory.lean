import GreenCloud.MmapStorage
import GreenCloud.Wire.Codec

/-! The addresses that the storage of the slave reads and writes for a request, against the mapping
and the buffer of the request. -/

namespace GreenCloud

open CLib

structure Region where
  start : UInt64
  size : Nat

namespace Region

def Contains (r : Region) (a : UInt64) : Prop := ∃ i < r.size, a = r.start + UInt64.ofNat i

def touched (p : UInt64) (n : Nat) : List UInt64 := (List.range n).map fun i => p + UInt64.ofNat i

theorem contains_add (r : Region) (hsize : r.size ≤ 2 ^ 64) (offset : UInt64) :
    r.Contains (r.start + offset) ↔ offset.toNat < r.size := by
  constructor
  · rintro ⟨i, hi, heq⟩
    obtain rfl : offset = UInt64.ofNat i := (UInt64.add_right_inj r.start).mp heq
    rw [UInt64.toNat_ofNat', Nat.mod_eq_of_lt (by omega)]
    exact hi
  · intro h
    exact ⟨offset.toNat, h, by rw [UInt64.ofNat_toNat]⟩

/-- No wrap of the address brings a range back inside: on its way it would touch the last byte of
the address space, which lies outside. -/
theorem touched_inside_iff (r : Region) (hsize : r.size < 2 ^ 64) (offset : UInt64) (n : Nat) :
    (∀ a ∈ touched (r.start + offset) n, r.Contains a) ↔ n = 0 ∨ offset.toNat + n ≤ r.size := by
  have hat : ∀ i, r.Contains (r.start + offset + UInt64.ofNat i) ↔
      (offset.toNat + i % 2 ^ 64) % 2 ^ 64 < r.size := by
    intro i
    rw [UInt64.add_assoc, r.contains_add (Nat.le_of_lt hsize), UInt64.toNat_add,
      UInt64.toNat_ofNat']
  have hoffset := offset.toNat_lt
  simp only [touched, List.mem_map, List.mem_range, forall_exists_index, and_imp,
    forall_apply_eq_imp_iff₂, hat]
  constructor
  · intro h
    by_contra hnot
    by_cases hwrap : 2 ^ 64 ≤ offset.toNat + n
    · have hlast := h (2 ^ 64 - 1 - offset.toNat) (by omega)
      omega
    · have hlast := h (n - 1) (by omega)
      omega
  · intro h i hi
    omega

theorem touched_start_iff (r : Region) (hsize : r.size < 2 ^ 64) (n : Nat) :
    (∀ a ∈ touched r.start n, r.Contains a) ↔ n ≤ r.size := by
  have h := r.touched_inside_iff hsize 0 n
  rw [UInt64.add_zero, UInt64.toNat_zero] at h
  rw [h]
  omega

end Region

namespace MmapStorage

/-- The size of the storage of `m_buff` when the bytes are copied: `Read` reserves it first. -/
def room (fresh : Fresh) (data : DriverData) : Nat :=
  if data.key = .read then (fresh.reserve data.len.toNat data.buff).length else data.buff.length

/-- `memcpy` between `mmap + m_offset` and `buff`, where the mapping and the storage of `m_buff`
start, touches only bytes of the two. -/
def StaysInside (m : MmapStorage) (fresh : Fresh) (mmap buff : UInt64) (data : DriverData) : Prop :=
  (∀ a ∈ Region.touched (mmap + data.offset) data.len.toNat, Region.Contains ⟨mmap, m.getSize⟩ a) ∧
  ∀ a ∈ Region.touched buff data.len.toNat, Region.Contains ⟨buff, room fresh data⟩ a

variable {m : MmapStorage} {fresh : Fresh} {mmap buff : UInt64} {data : DriverData}

theorem staysInside_iff (hsize : m.getSize < 2 ^ 64) (hroom : room fresh data < 2 ^ 64) :
    m.StaysInside fresh mmap buff data ↔
      (data.len.toNat = 0 ∨ data.offset.toNat + data.len.toNat ≤ m.getSize) ∧
        data.len.toNat ≤ room fresh data :=
  and_congr (Region.touched_inside_iff ⟨mmap, m.getSize⟩ hsize data.offset data.len.toNat)
    (Region.touched_start_iff ⟨buff, room fresh data⟩ hroom data.len.toNat)

/-- The calls of the storage have a result where they stay inside and `mmap + m_offset` is a
pointer into the mapping, or to its end. -/
theorem read_isSome_iff (hsize : m.getSize < 2 ^ 64) (hroom : room fresh data < 2 ^ 64)
    (hkey : data.key = .read) : (m.read fresh data).isSome ↔
      data.offset.toNat ≤ m.getSize ∧ m.StaysInside fresh mmap buff data := by
  have hreserve : data.len.toNat ≤ room fresh data := by
    rw [room, if_pos hkey]
    exact length_reserve fresh data.len.toNat data.buff
  rw [staysInside_iff hsize hroom, read_eq, Option.isSome_ite]
  omega

theorem write_isSome_iff (hsize : m.getSize < 2 ^ 64) (hroom : room fresh data < 2 ^ 64)
    (hkey : data.key = .write) : (m.write data).isSome ↔
      data.offset.toNat ≤ m.getSize ∧ m.StaysInside fresh mmap buff data := by
  have hbuff : room fresh data = data.buff.length := by
    rw [room, if_neg (by rw [hkey]; nofun)]
  rw [staysInside_iff hsize hroom, hbuff]
  by_cases hlen : data.len.toNat ≤ data.buff.length
  · rw [write_eq m hlen, Option.isSome_ite]
    omega
  · have hnone : m.write data = none := by
      simp only [write, fetch, hlen, ↓reduceIte]
      cases (Cursor.start m.mmap).skip data.offset.toNat <;> rfl
    simp [hnone, hlen]

end MmapStorage

namespace SlaveDriverProxy

theorem receiveRequest_buff (h : receiveRequest fresh datagram = some data) :
    data.buff.length = if data.key = .write then buffSize + 1 else 0 := by
  cases hparse : parseHeader (recvBuffer datagram) with
  | none => simp [receiveRequest, hparse] at h
  | some parsed =>
    obtain ⟨⟨offset, len, rid, key⟩, p⟩ := parsed
    by_cases hkey : key = .write
    · subst hkey
      rw [Wire.receiveRequest_of_write offset len rid fresh hparse, Option.map_eq_some_iff] at h
      obtain ⟨buff, hcopy, rfl⟩ := h
      exact (length_strcpy hcopy).trans (length_uninit _ _)
    · rw [Wire.receiveRequest_of_ne_write offset len rid fresh hkey hparse] at h
      cases h
      rw [if_neg hkey]
      rfl

theorem exists_read_datagram (fresh : Fresh) (offset : UInt64) (len : UInt32) (rid : Int32) :
    ∃ datagram, CloudStorage.printHeader offset len rid 48 = some datagram ∧
      receiveRequest fresh datagram = some { fresh.driverData with
        offset := offset, len := len, reqId := rid, key := .read } := by
  obtain ⟨datagram, p, hprint, hdecoded, -⟩ := Wire.request_roundtrip_header offset len rid 48
  exact ⟨datagram, hprint,
    Wire.receiveRequest_of_ne_write offset len rid fresh (by decide) hdecoded.parsed⟩

theorem room_received (h : receiveRequest fresh datagram = some data)
    (hkey : data.key = .read ∨ data.key = .write) (fresh' : Fresh) :
    MmapStorage.room fresh' data = if data.key = .write then buffSize + 1 else data.len.toNat := by
  have hbuff := receiveRequest_buff h
  rcases hkey with hkey | hkey
  · rw [hkey, if_neg (by decide), List.length_eq_zero_iff] at hbuff
    rw [MmapStorage.room, if_pos hkey, if_neg (by rw [hkey]; decide), hbuff, Fresh.reserve_nil,
      length_uninit]
  · rw [hkey, if_pos rfl] at hbuff
    rw [MmapStorage.room, if_neg (by rw [hkey]; decide), if_pos hkey, hbuff]

/-- For every datagram that is accepted, and a mapping of any size: the storage call of
`SlaveRead` and `SlaveWrite` stays inside the mapping and the buffer of the request exactly if it
moves no byte, or the range lies in the mapping and, for a `WRITE`, the length in the buffer of
`BUFF_SIZE + 1` bytes that the payload was copied into. `Read` and `Write` of the storage have a
result exactly then, where `m_mmap + m_offset` is a pointer into the mapping or to its end. -/
theorem storage_inside_iff {m : MmapStorage} (hsize : m.getSize < 2 ^ 64)
    (h : receiveRequest fresh datagram = some data) (hkey : data.key = .read ∨ data.key = .write)
    (fresh' : Fresh) (mmap buff : UInt64) :
    (m.StaysInside fresh' mmap buff data ↔
      data.len.toNat = 0 ∨ data.offset.toNat + data.len.toNat ≤ m.getSize ∧
        (data.key = .write → data.len.toNat ≤ buffSize + 1)) ∧
    (data.key = .read → ((m.read fresh' data).isSome ↔
      data.offset.toNat ≤ m.getSize ∧ m.StaysInside fresh' mmap buff data)) ∧
    (data.key = .write → ((m.write data).isSome ↔
      data.offset.toNat ≤ m.getSize ∧ m.StaysInside fresh' mmap buff data)) := by
  have hroom := room_received h hkey fresh'
  have hlen := data.len.toNat_lt
  have hlt : MmapStorage.room fresh' data < 2 ^ 64 := by
    rw [hroom]
    split
    · decide
    · omega
  refine ⟨?_, MmapStorage.read_isSome_iff hsize hlt, MmapStorage.write_isSome_iff hsize hlt⟩
  rw [MmapStorage.staysInside_iff hsize hlt, hroom]
  rcases hkey with hkey | hkey
  · have hne : ¬ data.key = .write := by rw [hkey]; decide
    simp only [hne, false_imp_iff, and_true, Nat.le_refl, if_false]
  · simp only [hkey, true_imp_iff, if_true]
    omega

theorem storage_inside_second : ∃ fresh datagram data,
    CloudStorage.printHeader 1 1 7 48 = some datagram ∧
    receiveRequest fresh datagram = some data ∧
    MmapStorage.StaysInside ⟨[65, 66]⟩ fresh 4096 8192 data ∧
    (MmapStorage.read ⟨[65, 66]⟩ fresh data).isSome := by
  let fresh : Fresh := ⟨⟨0, 0, .replicate 8 0, 0, .ignore, 7, []⟩, fun _ => 0⟩
  obtain ⟨datagram, hprint, hreceive⟩ := exists_read_datagram fresh 1 1 7
  obtain ⟨hiff, hread, -⟩ := storage_inside_iff (m := ⟨[65, 66]⟩) (by decide) hreceive (.inl rfl)
    fresh 4096 8192
  have hinside := hiff.mpr (.inr ⟨Nat.le_refl 2, nofun⟩)
  exact ⟨fresh, datagram, _, hprint, hreceive, hinside, (hread rfl).mpr ⟨Nat.le_succ 1, hinside⟩⟩

/-- A `READ` of a byte behind a mapping of two. -/
theorem not_storage_inside_behind : ∃ fresh datagram data,
    CloudStorage.printHeader 2 1 7 48 = some datagram ∧
    receiveRequest fresh datagram = some data ∧
    ¬ MmapStorage.StaysInside ⟨[65, 66]⟩ fresh 4096 8192 data := by
  let fresh : Fresh := ⟨⟨0, 0, .replicate 8 0, 0, .ignore, 7, []⟩, fun _ => 0⟩
  obtain ⟨datagram, hprint, hreceive⟩ := exists_read_datagram fresh 2 1 7
  refine ⟨fresh, datagram, _, hprint, hreceive, fun h => ?_⟩
  have htouched : (4096 + 2 : UInt64) ∈ Region.touched (4096 + 2) 1 := by decide
  have hstart := h.1 (4096 + 2) htouched
  rw [Region.contains_add _ (by decide)] at hstart
  exact absurd hstart (by decide)

end SlaveDriverProxy

end GreenCloud
