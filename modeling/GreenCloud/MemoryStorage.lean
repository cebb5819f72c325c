import GreenCloud.Device

/-! `MemoryStorage`, the storage of release 0.1, beside `MmapStorage`: what a `Read` returns from
each of the two after the same requests. -/

namespace GreenCloud

open CLib Device

structure MemoryStorage where
  disk : Bytes
  deriving DecidableEq

namespace MemoryStorage

/-- The elements of a vector from one iterator to another that is not before it. -/
def between (first last : Nat) (disk : Bytes) : Option Bytes :=
  if first ≤ last ∧ last ≤ disk.length then some ((disk.take last).drop first) else none

/-- `size` is `m_buff.size()`: that many bytes lie between `m_buff.begin()` and `m_buff.end()`. -/
def write (m : MemoryStorage) (size : Nat) (data : DriverData) : Option MemoryStorage := do
  let diskPtr ← (Cursor.start m.disk).skip data.offset.toNat
  let copied ← diskPtr.write (← fetch size data.buff)
  return ⟨copied.object⟩

def read (m : MemoryStorage) (fresh : Fresh) (data : DriverData) : Option DriverData := do
  let range ← between data.offset.toNat (data.len.toUInt64 + data.offset).toNat m.disk
  let buff := fresh.reserve data.len.toNat data.buff
  let copied ← (Cursor.start buff).write range
  return { data with buff := copied.object }

end MemoryStorage

structure Storage (M : Type) where
  write : M → DriverData → Option M
  read : M → Fresh → DriverData → Option DriverData

namespace Storage

/-- A `MemoryStorage` whose callers leave `m_buff` with `size` elements. -/
def memory (size : DriverData → Nat) : Storage MemoryStorage where
  write m data := m.write (size data) data
  read := MemoryStorage.read

def mmap : Storage MmapStorage where
  write := MmapStorage.write
  read := MmapStorage.read

variable {M : Type}

/-- For each `Read` the `m_len` bytes at `m_buff.data()`; `none` where an access is outside. -/
def reads (storage : Storage M) (m : M) : List Request → Option (List Bytes)
  | [] => some []
  | .write data :: requests => do
    let m ← storage.write m data
    reads storage m requests
  | .read fresh data :: requests => do
    let data' ← storage.read m fresh data
    let results ← reads storage m requests
    return data'.buff.take data'.len.toNat :: results

/-- `ReceiveRequest` reserves room in `m_buff` and stores the bytes through `data()`, which adds no
element. -/
def received (_ : DriverData) : Nat := 0

/-- Each byte that a `Read` covers has been written last with its initial value, or never. -/
def Unchanged (m : MmapStorage) (disk : Bytes) (requests : List Request) : Prop :=
  ∀ earlier fresh data later, requests = earlier ++ .read fresh data :: later →
    ∀ p, MmapStorage.Covers data p → Request.lastWritten m earlier p = disk[p]?

variable {m : MmapStorage} {disk : Bytes} {data : DriverData} {requests : List Request}

theorem read_memory (hdisk : disk.length < 2 ^ 64)
    (hrange : data.offset.toNat + data.len.toNat ≤ disk.length) (fresh : Fresh) :
    (⟨disk⟩ : MemoryStorage).read fresh data = some { data with
      buff := (disk.drop data.offset.toNat).take data.len.toNat ++
        (fresh.reserve data.len.toNat data.buff).drop data.len.toNat } := by
  have hroom := MmapStorage.length_reserve fresh data.len.toNat data.buff
  have hlast : (data.len.toUInt64 + data.offset).toNat = data.offset.toNat + data.len.toNat := by
    rw [UInt64.toNat_add, UInt32.toNat_toUInt64, Nat.add_comm]
    exact Nat.mod_eq_of_lt (by omega)
  have hbetween : MemoryStorage.between data.offset.toNat (data.offset.toNat + data.len.toNat) disk =
      some ((disk.drop data.offset.toNat).take data.len.toNat) := by
    rw [MemoryStorage.between, if_pos ⟨Nat.le_add_right .., hrange⟩, List.drop_take,
      Nat.add_sub_cancel_left]
  have hlength : ((disk.drop data.offset.toNat).take data.len.toNat).length = data.len.toNat := by
    rw [List.length_take, List.length_drop]
    omega
  simp only [MemoryStorage.read, hlast, hbetween, Option.bind_eq_bind, Option.bind_some,
    Cursor.start, Cursor.write_eq, hlength, hroom, ↓reduceIte, Option.pure_def, Cursor.object,
    List.nil_append]

theorem write_received (hrange : data.offset.toNat + data.len.toNat ≤ disk.length) :
    (memory received).write ⟨disk⟩ data = some ⟨disk⟩ := by
  have hoffset : data.offset.toNat ≤ disk.length := by omega
  simp [memory, received, MemoryStorage.write, Cursor.skip, Cursor.start, hoffset, fetch,
    Cursor.write, Cursor.object]

theorem range_eq_iff (disk other : Bytes) :
    (disk.drop data.offset.toNat).take data.len.toNat =
        (other.drop data.offset.toNat).take data.len.toNat ↔
      ∀ p, MmapStorage.Covers data p → other[p]? = disk[p]? := by
  constructor
  · rintro heq p ⟨hle, hlt⟩
    obtain ⟨i, rfl⟩ := Nat.exists_eq_add_of_le hle
    have hi : i < data.len.toNat := by omega
    have hget := congrArg (·[i]?) heq
    simp only [List.getElem?_take_of_lt hi, List.getElem?_drop] at hget
    exact hget.symm
  · intro hbytes
    apply List.ext_getElem?
    intro i
    by_cases hi : i < data.len.toNat
    · rw [List.getElem?_take_of_lt hi, List.getElem?_take_of_lt hi, List.getElem?_drop,
        List.getElem?_drop]
      exact (hbytes _ ⟨Nat.le_add_right .., by omega⟩).symm
    · rw [List.getElem?_eq_none (by rw [List.length_take]; omega),
        List.getElem?_eq_none (by rw [List.length_take]; omega)]

theorem unchanged_nil : Unchanged m disk [] := by
  intro earlier fresh data later heq
  cases earlier <;> cases heq

theorem unchanged_read (fresh : Fresh) : Unchanged m disk (.read fresh data :: requests) ↔
    (∀ p, MmapStorage.Covers data p → m.mmap[p]? = disk[p]?) ∧ Unchanged m disk requests := by
  have hcons : ∀ earlier p, Request.lastWritten m (.read fresh data :: earlier) p =
      Request.lastWritten m earlier p := fun earlier =>
    Request.lastWritten_cons fun p => (Option.none_or).symm
  constructor
  · refine fun h => ⟨fun p hp => h [] fresh data requests rfl p hp, ?_⟩
    rintro earlier fresh' data' later rfl p hp
    rw [← hcons]
    exact h (.read fresh data :: earlier) fresh' data' later rfl p hp
  · rintro ⟨hfirst, hrest⟩ earlier fresh' data' later heq p hp
    cases earlier with
    | nil =>
      cases heq
      exact hfirst p hp
    | cons r earlier =>
      cases heq
      rw [hcons]
      exact hrest earlier fresh' data' later rfl p hp

theorem unchanged_write {m' : MmapStorage} (hbuff : data.len.toNat ≤ data.buff.length)
    (hwrite : m.write data = some m') :
    Unchanged m disk (.write data :: requests) ↔ Unchanged m' disk requests := by
  have hcons : ∀ earlier p, Request.lastWritten m (.write data :: earlier) p =
      Request.lastWritten m' earlier p := fun earlier =>
    Request.lastWritten_cons (Request.byteAt_write hbuff hwrite)
  constructor
  · rintro h earlier fresh data' later rfl p hp
    rw [← hcons]
    exact h (.write data :: earlier) fresh data' later rfl p hp
  · rintro h earlier fresh data' later heq p hp
    cases earlier with
    | nil => cases heq
    | cons r earlier =>
      cases heq
      rw [hcons]
      exact h earlier fresh data' later rfl p hp

theorem exists_reads (hdisk : disk.length < 2 ^ 64) (hsize : m.getSize = disk.length)
    (hwithin : ∀ r ∈ requests, r.Within disk.length) :
    ∃ fromMemory fromMmap, (memory received).reads ⟨disk⟩ requests = some fromMemory ∧
      mmap.reads m requests = some fromMmap ∧
      (fromMemory = fromMmap ↔ Unchanged m disk requests) := by
  induction requests generalizing m with
  | nil => exact ⟨[], [], rfl, rfl, iff_of_true rfl unchanged_nil⟩
  | cons r requests ih =>
    obtain ⟨hr, hrest⟩ := List.forall_mem_cons.mp hwithin
    cases r with
    | write data =>
      obtain ⟨hrange, hbuff⟩ := hr
      have hwrite := MmapStorage.write_eq m hbuff
      rw [hsize, if_pos hrange] at hwrite
      obtain ⟨fromMemory, fromMmap, hmemory, hmmap, hiff⟩ :=
        ih ((MmapStorage.getSize_write hbuff hwrite).trans hsize) hrest
      refine ⟨fromMemory, fromMmap, ?_, ?_, hiff.trans (unchanged_write hbuff hwrite).symm⟩
      · rw [reads, write_received hrange]
        exact hmemory
      · rw [reads, show mmap.write m data = _ from hwrite]
        exact hmmap
    | read fresh data =>
      have hrange : data.offset.toNat + data.len.toNat ≤ disk.length := hr
      obtain ⟨fromMemory, fromMmap, hmemory, hmmap, hiff⟩ := ih hsize hrest
      have hreadMemory := read_memory hdisk hrange fresh
      have hreadMmap := MmapStorage.read_eq m fresh data
      rw [hsize, if_pos hrange] at hreadMmap
      have htake : ∀ bytes rest : Bytes, bytes.length = disk.length →
          ((bytes.drop data.offset.toNat).take data.len.toNat ++ rest).take data.len.toNat =
            (bytes.drop data.offset.toNat).take data.len.toNat := fun bytes rest hbytes =>
        take_take_append (by rw [List.length_drop]; omega) rest
      refine ⟨(disk.drop data.offset.toNat).take data.len.toNat :: fromMemory,
        (m.mmap.drop data.offset.toNat).take data.len.toNat :: fromMmap, ?_, ?_, ?_⟩
      · rw [reads, show (memory received).read ⟨disk⟩ fresh data = _ from hreadMemory]
        simp only [Option.bind_eq_bind, Option.bind_some, hmemory, Option.pure_def, htake _ _ rfl]
      · rw [reads, show mmap.read m fresh data = _ from hreadMmap]
        simp only [Option.bind_eq_bind, Option.bind_some, hmmap, Option.pure_def, htake _ _ hsize]
      · rw [List.cons.injEq, unchanged_read, range_eq_iff, hiff]

/-- From the same contents and for any requests in the storage, `MemoryStorage` returns what
`MmapStorage` does exactly if no `Write` has changed a byte that a later `Read` covers. -/
theorem agree_iff (hdisk : disk.length < 2 ^ 64)
    (hwithin : ∀ r ∈ requests, r.Within disk.length) :
    (∃ results, (memory received).reads ⟨disk⟩ requests = some results ∧
      mmap.reads ⟨disk⟩ requests = some results) ↔ Unchanged ⟨disk⟩ disk requests := by
  obtain ⟨fromMemory, fromMmap, hmemory, hmmap, hiff⟩ :=
    exists_reads (m := ⟨disk⟩) hdisk rfl hwithin
  rw [hmemory, hmmap, ← hiff]
  constructor
  · rintro ⟨results, hfirst, hsecond⟩
    exact Option.some.inj (hfirst.trans hsecond.symm)
  · intro heq
    exact ⟨fromMemory, rfl, by rw [heq]⟩

def readByte : Request :=
  .read ⟨⟨0, 0, .replicate 8 0, 0, .read, 0, []⟩, fun _ => 0⟩
    ⟨0, 0, .replicate 8 0, 1, .read, 0, []⟩

def writeByte (byte : UInt8) : Request :=
  .write ⟨0, 0, .replicate 8 0, 1, .write, 0, [byte]⟩

theorem within_bytes (byte : UInt8) (hdisk : 1 ≤ disk.length) :
    ∀ r ∈ [writeByte byte, readByte], r.Within disk.length :=
  List.forall_mem_cons.mpr ⟨⟨hdisk, Nat.le_refl 1⟩, List.forall_mem_singleton.mpr hdisk⟩

/-- A byte that is written again as it was. -/
theorem agree_same : ∃ results,
    (memory received).reads ⟨[65, 0]⟩ [writeByte 65, readByte] = some results ∧
      mmap.reads ⟨[65, 0]⟩ [writeByte 65, readByte] = some results := by
  have hwrite : (⟨[65, 0]⟩ : MmapStorage).write ⟨0, 0, .replicate 8 0, 1, .write, 0, [65]⟩ =
      some ⟨[65, 0]⟩ := rfl
  have hunchanged : Unchanged ⟨[65, 0]⟩ [65, 0] [writeByte 65, readByte] :=
    (unchanged_write (by decide) hwrite).mpr
      ((unchanged_read _).mpr ⟨fun _ _ => rfl, unchanged_nil⟩)
  exact (agree_iff (by decide) (within_bytes 65 (by decide))).mpr hunchanged

/-- A new byte is in the mapping and not in the vector. -/
theorem not_agree :
    (∀ r ∈ [writeByte 65, readByte], r.Within [(0 : UInt8)].length) ∧
    (memory received).reads ⟨[0]⟩ [writeByte 65, readByte] = some [[0]] ∧
    mmap.reads ⟨[0]⟩ [writeByte 65, readByte] = some [[65]] ∧
    ¬ ∃ results, (memory received).reads ⟨[0]⟩ [writeByte 65, readByte] = some results ∧
      mmap.reads ⟨[0]⟩ [writeByte 65, readByte] = some results := by
  refine ⟨within_bytes 65 (by decide), rfl, rfl, ?_⟩
  rintro ⟨results, hmemory, hmmap⟩
  cases hmemory
  cases hmmap

theorem write_of_len (disk : Bytes) (data : DriverData) :
    (⟨disk⟩ : MemoryStorage).write data.len.toNat data =
      ((⟨disk⟩ : MmapStorage).write data).map fun m => ⟨m.mmap⟩ := by
  simp only [MemoryStorage.write, MmapStorage.write, Option.bind_eq_bind, Option.map_bind,
    Function.comp_def, Option.pure_def, Option.map_some]

/-- The two agree on everything where the vectors have `m_len` elements. -/
theorem agree_of_len (hdisk : disk.length < 2 ^ 64)
    (hwithin : ∀ r ∈ requests, r.Within disk.length) :
    (memory fun data => data.len.toNat).reads ⟨disk⟩ requests = mmap.reads ⟨disk⟩ requests := by
  induction requests generalizing disk with
  | nil => rfl
  | cons r requests ih =>
    obtain ⟨hr, hrest⟩ := List.forall_mem_cons.mp hwithin
    cases r with
    | write data =>
      obtain ⟨hrange, hbuff⟩ := hr
      obtain ⟨⟨disk'⟩, hwrite⟩ : ∃ m', (⟨disk⟩ : MmapStorage).write data = some m' :=
        ⟨_, (MmapStorage.write_eq _ hbuff).trans (if_pos hrange)⟩
      have hsize : disk'.length = disk.length := MmapStorage.getSize_write hbuff hwrite
      have hmemory := write_of_len disk data
      rw [hwrite, Option.map_some] at hmemory
      rw [reads, reads, show mmap.write ⟨disk⟩ data = _ from hwrite,
        show (memory fun data => data.len.toNat).write ⟨disk⟩ data = _ from hmemory]
      rw [← hsize] at hdisk hrest
      exact ih hdisk hrest
    | read fresh data =>
      have hrange : data.offset.toNat + data.len.toNat ≤ disk.length := hr
      have hmmap := MmapStorage.read_eq ⟨disk⟩ fresh data
      rw [MmapStorage.getSize, if_pos hrange, ← read_memory hdisk hrange fresh] at hmmap
      rw [reads, reads, show mmap.read ⟨disk⟩ fresh data = _ from hmmap, ih hdisk hrest]
      rfl

end Storage

end GreenCloud
