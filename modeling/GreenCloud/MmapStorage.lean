import GreenCloud.DriverData

/-! `MmapStorage`: the slave's storage, one mapping. -/

namespace GreenCloud

open CLib

/-- The bytes from `m_mmap` on that can be accessed. -/
structure MmapStorage where
  mmap : Bytes
  deriving DecidableEq

namespace MmapStorage

/-- `m_size`, where all of the mapping can be accessed. -/
def getSize (m : MmapStorage) : Nat := m.mmap.length

def write (m : MmapStorage) (data : DriverData) : Option MmapStorage := do
  let offset ← (Cursor.start m.mmap).skip data.offset.toNat
  let copied ← offset.write (← fetch data.len.toNat data.buff)
  return ⟨copied.object⟩

def read (m : MmapStorage) (fresh : Fresh) (data : DriverData) : Option DriverData := do
  let buff := fresh.reserve data.len.toNat data.buff
  let offset ← advance data.offset.toNat m.mmap
  let copied ← (Cursor.start buff).write (← fetch data.len.toNat offset)
  return { data with buff := copied.object }

def Covers (data : DriverData) (p : Nat) : Prop :=
  data.offset.toNat ≤ p ∧ p < data.offset.toNat + data.len.toNat

instance (data : DriverData) (p : Nat) : Decidable (Covers data p) :=
  inferInstanceAs (Decidable (_ ∧ _))

variable {data : DriverData}

theorem write_eq (m : MmapStorage) (hbuff : data.len.toNat ≤ data.buff.length) :
    m.write data =
      if data.offset.toNat + data.len.toNat ≤ m.getSize then
        some ⟨m.mmap.take data.offset.toNat ++ data.buff.take data.len.toNat ++
          m.mmap.drop (data.offset.toNat + data.len.toNat)⟩
      else none := by
  have hmin : min data.len.toNat data.buff.length = data.len.toNat := by omega
  unfold getSize
  by_cases hoff : data.offset.toNat ≤ m.mmap.length
  · have hiff : data.len.toNat ≤ m.mmap.length - data.offset.toNat ↔
        data.offset.toNat + data.len.toNat ≤ m.mmap.length := by omega
    simp only [write, Cursor.skip, Cursor.start, hoff, ↓reduceIte, fetch, hbuff, Cursor.write_eq,
      List.length_take, List.length_drop, hmin, hiff, Option.bind_eq_bind, Option.bind_some]
    split
    · simp [Cursor.object]
    · rfl
  · have hnot : ¬ data.offset.toNat + data.len.toNat ≤ m.mmap.length := by omega
    simp [write, Cursor.skip, Cursor.start, hoff, hnot]

theorem getElem?_write {m m' : MmapStorage} (hbuff : data.len.toNat ≤ data.buff.length)
    (h : m.write data = some m') (p : Nat) :
    m'.mmap[p]? = if Covers data p then data.buff[p - data.offset.toNat]? else m.mmap[p]? := by
  rw [write_eq m hbuff] at h
  split at h
  · rename_i hin
    cases h
    rw [getSize] at hin
    have hoffset : (m.mmap.take data.offset.toNat).length = data.offset.toNat := by
      rw [List.length_take]
      omega
    have hlen : (data.buff.take data.len.toNat).length = data.len.toNat := by
      rw [List.length_take]
      omega
    rw [List.append_assoc, List.getElem?_append, hoffset, List.getElem?_append, hlen]
    split
    · rename_i hp
      rw [List.getElem?_take_of_lt hp, if_neg fun hcovers => Nat.not_le_of_lt hp hcovers.1]
    · rename_i hp
      split
      · rename_i hp'
        rw [List.getElem?_take_of_lt hp', if_pos ⟨by omega, by omega⟩]
      · rename_i hp'
        have hnot : ¬ Covers data p := by
          rintro ⟨hle, hlt⟩
          omega
        rw [List.getElem?_drop, if_neg hnot]
        congr 1
        omega
  · cases h

theorem getSize_write {m m' : MmapStorage} (hbuff : data.len.toNat ≤ data.buff.length)
    (h : m.write data = some m') : m'.getSize = m.getSize := by
  rw [write_eq m hbuff] at h
  split at h
  · rename_i hin
    cases h
    simp only [getSize, List.length_append, List.length_take, List.length_drop] at hin ⊢
    omega
  · cases h

theorem length_reserve (fresh : Fresh) (n : Nat) (buff : Bytes) :
    n ≤ (fresh.reserve n buff).length := by
  unfold Fresh.reserve
  split <;> simp_all

theorem read_eq (m : MmapStorage) (fresh : Fresh) (data : DriverData) :
    m.read fresh data =
      if data.offset.toNat + data.len.toNat ≤ m.getSize then
        some { data with buff := (m.mmap.drop data.offset.toNat).take data.len.toNat ++
          (fresh.reserve data.len.toNat data.buff).drop data.len.toNat }
      else none := by
  have hroom := length_reserve fresh data.len.toNat data.buff
  unfold getSize
  split
  · rename_i hrange
    have hoff : data.offset.toNat ≤ m.mmap.length := by omega
    have hlen : data.len.toNat ≤ m.mmap.length - data.offset.toNat := by omega
    simp [read, advance, hoff, fetch, hlen, Cursor.start, Cursor.write_eq, hroom, Cursor.object]
  · rename_i hrange
    by_cases hoff : data.offset.toNat ≤ m.mmap.length
    · have hlen : ¬ data.len.toNat ≤ m.mmap.length - data.offset.toNat := by omega
      simp [read, advance, hoff, fetch, hlen]
    · simp [read, advance, hoff]

end MmapStorage

end GreenCloud
