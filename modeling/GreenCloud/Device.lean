import GreenCloud.MmapStorage

/-! The device of one configured size: the capacity that the master advertises to the kernel, and
the mapping of the slave as an array of bytes. -/

namespace GreenCloud.Device

open CLib

/-- `CONVTER_TO_MB`, in the master's program and in the slave's. -/
def converterToMb : UInt64 := 1024 * 1024

/-- `DEFAULT_NUM_BLOCKS`, which the constructor passes as the size of a block. -/
def defaultNumBlocks : UInt64 := 1024

/-- What the kernel was told with `NBD_SET_BLKSIZE` and `NBD_SET_SIZE_BLOCKS`. -/
structure Geometry where
  blkSize : Int64
  numBlks : Int64

/-- `Ioctl` takes a `ssize_t`. -/
def initDevice (blkSize numBlks : UInt64) : Geometry := ⟨blkSize.toInt64, numBlks.toInt64⟩

def nbdDriverProxy (storageSize : UInt64) : Geometry :=
  initDevice defaultNumBlocks (storageSize / defaultNumBlocks)

def Geometry.capacity (g : Geometry) : Nat := g.blkSize.toNatClampNeg * g.numBlks.toNatClampNeg

/-- The device of the master's `main`. -/
def master (storageSize : UInt64) : Geometry := nbdDriverProxy (storageSize * converterToMb)

/-- What the system calls of `InitMmap` come to: the file that `open` finds or creates, where `lseek`
moves, whether `write` stores its byte, and the lengths that `mmap` maps. A negative offset is an error,
and half of the addresses are the kernel's. -/
structure System where
  file : Option Bytes
  seeks : Int64 → Bool
  writes : Bool
  maps : UInt64 → Bool
  seeks_nonneg : seeks offset = true → 0 ≤ offset.toInt
  maps_lt : maps length = true → length.toNat < 2 ^ 63

/-- The position in a file just opened, which stays at its start where `lseek` fails. -/
def lseek (os : System) (offset : Int64) : Nat :=
  if os.seeks offset then offset.toNatClampNeg else 0

def writeAt (position : Nat) (bytes file : Bytes) : Bytes :=
  file.take position ++ zeros (position - file.length) ++ bytes ++
    file.drop (position + bytes.length)

def pageSize : Nat := 4096

def pages (n : Nat) : Nat := (n + (pageSize - 1)) / pageSize * pageSize

/-- What can be accessed of a mapping: the file, with zeros up to the end of its last page. A page
behind it raises `SIGBUS`. -/
def mapped (file : Bytes) (size : UInt64) : Bytes :=
  (file ++ zeros (pages file.length - file.length)).take size.toNat

/-- The file behind the `lseek` and the `write`, whose results nothing looks at. -/
def System.written (os : System) (size : UInt64) (file : Bytes) : Bytes :=
  if os.writes then writeAt (lseek os (size + 1).toInt64) [0] file else file

/-- `none` is `MAP_FAILED`, which `mmap` returns for the descriptor `-1` as well. -/
def initMmap (os : System) (size : UInt64) : Option Bytes := do
  let file ← os.file
  if os.maps size then some (mapped (os.written size file) size) else none

/-- The constructor keeps `MAP_FAILED` as well: nothing can be accessed there. -/
def mmapStorage (os : System) (size : UInt64) : MmapStorage := ⟨(initMmap os size).getD []⟩

/-- The storage of the slave's `main`, which `exit` leaves without one. -/
def slave (os : System) (storageSize : UInt64) : Option MmapStorage :=
  if storageSize = 0 then none else some (mmapStorage os (storageSize * converterToMb))

inductive Request
  | write (data : DriverData)
  | read (fresh : Fresh) (data : DriverData)

namespace Request

/-- `none` where an access is outside the mapping or the buffer. -/
def serve (m : MmapStorage) : Request → Option MmapStorage
  | write data => m.write data
  | read fresh data => (m.read fresh data).map fun _ => m

def serveAll (m : MmapStorage) (requests : List Request) : Option MmapStorage :=
  requests.foldlM serve m

def Within (capacity : Nat) : Request → Prop
  | write data => data.offset.toNat + data.len.toNat ≤ capacity ∧ data.len.toNat ≤ data.buff.length
  | read _ data => data.offset.toNat + data.len.toNat ≤ capacity

def byteAt (p : Nat) : Request → Option UInt8
  | write data => if MmapStorage.Covers data p then data.buff[p - data.offset.toNat]? else none
  | read _ _ => none

def lastWritten (m : MmapStorage) (earlier : List Request) (p : Nat) : Option UInt8 :=
  (earlier.reverse.findSome? (byteAt p)).or m.mmap[p]?

variable {m : MmapStorage} {r : Request} {requests : List Request}

theorem Within.mono {r : Request} (h : r.Within capacity) (hle : capacity ≤ capacity') :
    r.Within capacity' := by
  cases r with
  | read => exact Nat.le_trans h hle
  | write => exact ⟨Nat.le_trans h.1 hle, h.2⟩

theorem byteAt_write {data : DriverData} {m' : MmapStorage}
    (hbuff : data.len.toNat ≤ data.buff.length) (hwrite : m.write data = some m') (p : Nat) :
    m'.mmap[p]? = (byteAt p (.write data)).or m.mmap[p]? := by
  rw [MmapStorage.getElem?_write hbuff hwrite, byteAt]
  by_cases hp : MmapStorage.Covers data p
  · have hin : p - data.offset.toNat < data.buff.length := by
      obtain ⟨hle, hlt⟩ := hp
      omega
    rw [if_pos hp, if_pos hp, List.getElem?_eq_getElem hin, Option.some_or]
  · rw [if_neg hp, if_neg hp, Option.none_or]

theorem exists_serve (h : r.Within m.getSize) : ∃ m', r.serve m = some m' ∧
    m'.getSize = m.getSize ∧ ∀ p, m'.mmap[p]? = (r.byteAt p).or m.mmap[p]? := by
  cases r with
  | read fresh data =>
    have hrange : data.offset.toNat + data.len.toNat ≤ m.getSize := h
    refine ⟨m, ?_, rfl, fun p => (Option.none_or).symm⟩
    rw [serve, MmapStorage.read_eq, if_pos hrange, Option.map_some]
  | write data =>
    obtain ⟨hrange, hbuff⟩ := h
    have hwrite := MmapStorage.write_eq m hbuff
    rw [if_pos hrange] at hwrite
    exact ⟨_, hwrite, MmapStorage.getSize_write hbuff hwrite, byteAt_write hbuff hwrite⟩

theorem lastWritten_cons {m' : MmapStorage}
    (hbyte : ∀ p, m'.mmap[p]? = (r.byteAt p).or m.mmap[p]?) (p : Nat) :
    lastWritten m (r :: requests) p = lastWritten m' requests p := by
  rw [lastWritten, lastWritten, hbyte p, List.reverse_cons, List.findSome?_append,
    Option.or_assoc, List.findSome?_singleton]

theorem exists_serveAll (h : ∀ r ∈ requests, r.Within m.getSize) :
    ∃ m', serveAll m requests = some m' ∧ m'.getSize = m.getSize ∧
      ∀ p, m'.mmap[p]? = lastWritten m requests p := by
  induction requests generalizing m with
  | nil => exact ⟨m, rfl, rfl, fun p => (Option.none_or).symm⟩
  | cons r requests ih =>
    obtain ⟨hr, hrequests⟩ := List.forall_mem_cons.mp h
    obtain ⟨m₁, hserve, hsize₁, hbyte⟩ := exists_serve hr
    rw [← hsize₁] at hrequests
    obtain ⟨m', hserveAll, hsize, hlast⟩ := ih hrequests
    refine ⟨m', ?_, hsize.trans hsize₁, fun p => ?_⟩
    · rw [serveAll, List.foldlM_cons, hserve]
      exact hserveAll
    · rw [hlast p, lastWritten_cons hbyte]

end Request

theorem toNat_mul_converterToMb (hs : s.toNat * 2 ^ 20 < 2 ^ 64) :
    (s * converterToMb).toNat = s.toNat * 2 ^ 20 := by
  rw [UInt64.toNat_mul]
  exact Nat.mod_eq_of_lt hs

theorem toNatClampNeg_toInt64 {x : UInt64} (h : x.toNat < 2 ^ 63) :
    x.toInt64.toNatClampNeg = x.toNat := by
  have hint : x.toInt64.toInt = x.toNat :=
    BitVec.toInt_eq_toNat_of_lt (show 2 * x.toNat < 2 ^ 64 by omega)
  rw [Int64.toNatClampNeg, hint, Int.toNat_natCast]

theorem capacity_master (hs : s.toNat * 2 ^ 20 < 2 ^ 64) :
    (master s).capacity = s.toNat * 2 ^ 20 := by
  have hsize := toNat_mul_converterToMb hs
  have hblocks : (s * converterToMb / defaultNumBlocks).toNat = s.toNat * 2 ^ 10 := by
    rw [UInt64.toNat_div, hsize]
    change s.toNat * 2 ^ 20 / 1024 = _
    omega
  have hsmall : (s * converterToMb / defaultNumBlocks).toNat < 2 ^ 63 := by omega
  have hblock : defaultNumBlocks.toNat = 1024 := rfl
  change defaultNumBlocks.toInt64.toNatClampNeg *
    (s * converterToMb / defaultNumBlocks).toInt64.toNatClampNeg = _
  rw [toNatClampNeg_toInt64 hsmall, toNatClampNeg_toInt64 (by rw [hblock]; decide), hblocks, hblock]
  omega

theorem length_writeAt (position : Nat) (bytes file : Bytes) :
    position + bytes.length ≤ (writeAt position bytes file).length := by
  simp only [writeAt, List.length_append, List.length_take, length_zeros]
  omega

/-- The file reaches to the last page of the mapping: `lseek` and `write` make it so long, or it is
already. -/
structure System.Covers (os : System) (size : UInt64) : Prop where
  maps : os.maps size = true
  file : ∃ file, os.file = some file ∧
    (os.seeks (size + 1).toInt64 = true ∧ os.writes = true ∨ size.toNat ≤ pages file.length)

section

variable {os : System} {size : UInt64} {file : Bytes}

theorem le_pages (n : Nat) : n ≤ pages n := by
  simp only [pages, pageSize]
  omega

theorem lseek_of_seeks (h : os.seeks (size + 1).toInt64 = true) (hsize : size.toNat + 1 < 2 ^ 64) :
    lseek os (size + 1).toInt64 = size.toNat + 1 := by
  have hadd : (size + 1).toNat = size.toNat + 1 := by
    rw [UInt64.toNat_add]
    exact Nat.mod_eq_of_lt hsize
  have hnonneg : (size + 1).toNat < 2 ^ 63 := by
    have hint : 0 ≤ (size + 1).toBitVec.toInt := os.seeks_nonneg h
    have hlt := (size + 1).toNat_lt
    rw [BitVec.toInt_eq_toNat_cond, UInt64.toNat_toBitVec] at hint
    split at hint <;> omega
  rw [lseek, if_pos h, toNatClampNeg_toInt64 hnonneg, hadd]

theorem pages_written (h : ¬ (os.seeks (size + 1).toInt64 = true ∧ os.writes = true)) :
    pages (os.written size file).length = pages file.length ∨
      file = [] ∧ pages (os.written size file).length = pageSize := by
  unfold System.written
  by_cases hwrites : os.writes = true
  · have hseeks : ¬ os.seeks (size + 1).toInt64 = true := fun hseeks => h ⟨hseeks, hwrites⟩
    rw [if_pos hwrites, lseek, if_neg hseeks]
    cases file with
    | nil => exact .inr ⟨rfl, rfl⟩
    | cons b file =>
      left
      simp [writeAt, zeros]
  · rw [if_neg hwrites]
    exact .inl rfl

theorem le_pages_written_iff (hlarge : pageSize < size.toNat) (hsize : size.toNat + 1 < 2 ^ 64) :
    size.toNat ≤ pages (os.written size file).length ↔
      os.seeks (size + 1).toInt64 = true ∧ os.writes = true ∨ size.toNat ≤ pages file.length := by
  by_cases h : os.seeks (size + 1).toInt64 = true ∧ os.writes = true
  · have hlength := length_writeAt (lseek os (size + 1).toInt64) [0] file
    rw [lseek_of_seeks h.1 hsize, List.length_singleton] at hlength
    have hle := le_pages (os.written size file).length
    have hwritten : size.toNat + 1 + 1 ≤ (os.written size file).length := by
      rw [System.written, if_pos h.2, lseek_of_seeks h.1 hsize]
      exact hlength
    exact iff_of_true (by omega) (.inl h)
  · rw [or_iff_right h]
    obtain hpages | ⟨rfl, hpages⟩ : pages (os.written size file).length = pages file.length ∨
        file = [] ∧ pages (os.written size file).length = pageSize := pages_written h
    · rw [hpages]
    · rw [hpages]
      exact iff_of_false (by omega) (by rw [List.length_nil, pages, pageSize]; omega)

theorem getSize_mmapStorage_le (os : System) (size : UInt64) :
    (mmapStorage os size).getSize ≤ size.toNat := by
  unfold mmapStorage initMmap MmapStorage.getSize
  cases os.file with
  | none => exact Nat.zero_le _
  | some file =>
    by_cases hmaps : os.maps size = true
    · rw [Option.bind_eq_bind, Option.bind_some, if_pos hmaps, Option.getD_some, mapped,
        List.length_take]
      exact Nat.min_le_left _ _
    · rw [Option.bind_eq_bind, Option.bind_some, if_neg hmaps]
      exact Nat.zero_le _

theorem length_mapped (file : Bytes) (size : UInt64) :
    (mapped file size).length = min size.toNat (pages file.length) := by
  have hle := le_pages file.length
  rw [mapped, List.length_take, List.length_append, length_zeros]
  omega

theorem le_getSize_mmapStorage_iff (hlarge : pageSize < size.toNat) (hsize : size.toNat + 1 < 2 ^ 64) :
    size.toNat ≤ (mmapStorage os size).getSize ↔ os.Covers size := by
  have hnone : ¬ size.toNat ≤ ([] : Bytes).length := by
    rw [List.length_nil]
    omega
  unfold mmapStorage initMmap MmapStorage.getSize
  cases hfile : os.file with
  | none =>
    refine iff_of_false hnone fun hcovers => ?_
    obtain ⟨file, hsome, -⟩ := hcovers.file
    cases hfile.symm.trans hsome
  | some file =>
    by_cases hmaps : os.maps size = true
    · rw [Option.bind_eq_bind, Option.bind_some, if_pos hmaps, Option.getD_some, length_mapped,
        Nat.le_min, le_pages_written_iff hlarge hsize]
      constructor
      · exact fun h => ⟨hmaps, file, hfile, h.2⟩
      · rintro ⟨-, file', hsome, hreaches⟩
        cases hfile.symm.trans hsome
        exact ⟨Nat.le_refl _, hreaches⟩
    · rw [Option.bind_eq_bind, Option.bind_some, if_neg hmaps]
      exact iff_of_false hnone fun hcovers => hmaps hcovers.maps

end

open Request

/-- The storage is an array of `capacity` bytes. After any requests in it, all of which stay in the
mapping, a `Read` returns for each position the byte of the latest `Write` there, or the initial one, and
a `Write` changes its range only. -/
def IsArray (m : MmapStorage) (capacity : Nat) : Prop :=
  ∀ requests : List Request, (∀ r ∈ requests, r.Within capacity) →
    ∃ m', serveAll m requests = some m' ∧ m'.getSize = m.getSize ∧
      (∀ fresh data, (Request.read fresh data).Within capacity →
        ∃ data', m'.read fresh data = some data' ∧ data.len.toNat ≤ data'.buff.length ∧
          ∀ i < data.len.toNat,
            data'.buff[i]? = lastWritten m requests (data.offset.toNat + i)) ∧
      ∀ data, (Request.write data).Within capacity →
        ∃ m'', m'.write data = some m'' ∧ m''.getSize = m.getSize ∧
          ∀ p, ¬ MmapStorage.Covers data p → m''.mmap[p]? = m'.mmap[p]?

theorem isArray_of_le {m : MmapStorage} (h : capacity ≤ m.getSize) : IsArray m capacity := by
  intro requests hrequests
  have hwithin : ∀ r ∈ requests, r.Within m.getSize := fun r hr => (hrequests r hr).mono h
  obtain ⟨m', hserveAll, hsize, hlast⟩ := exists_serveAll hwithin
  refine ⟨m', hserveAll, hsize, fun fresh data hread => ?_, fun data hwrite => ?_⟩
  · have hrange : data.offset.toNat + data.len.toNat ≤ m'.getSize := by
      rw [hsize]
      exact Nat.le_trans hread h
    refine ⟨_, by rw [MmapStorage.read_eq, if_pos hrange], ?_, fun i hi => ?_⟩
    · rw [MmapStorage.getSize] at hrange
      simp only [List.length_append, List.length_take, List.length_drop]
      omega
    · rw [← hlast, List.getElem?_append_left, List.getElem?_take_of_lt hi, List.getElem?_drop]
      rw [List.length_take, List.length_drop]
      rw [MmapStorage.getSize] at hrange
      omega
  · obtain ⟨hrange, hbuff⟩ := hwrite
    have hinside : data.offset.toNat + data.len.toNat ≤ m'.getSize := by
      rw [hsize]
      exact Nat.le_trans hrange h
    have hwrite := MmapStorage.write_eq m' hbuff
    rw [if_pos hinside] at hwrite
    refine ⟨_, hwrite, (MmapStorage.getSize_write hbuff hwrite).trans hsize, fun p hp => ?_⟩
    rw [MmapStorage.getElem?_write hbuff hwrite]
    exact if_neg hp

def behind (m : MmapStorage) : DriverData :=
  ⟨.ofNat m.getSize, 0, .replicate 8 0, 1, .write, 0, [0]⟩

theorem le_of_isArray {m : MmapStorage} (hcapacity : capacity < 2 ^ 64) (h : IsArray m capacity) :
    capacity ≤ m.getSize := by
  by_contra hless
  have hoffset : (behind m).offset.toNat = m.getSize :=
    UInt64.toNat_ofNat_of_lt (show m.getSize < 2 ^ 64 by omega)
  have hlen : (behind m).len.toNat = 1 := rfl
  have hwithin : (Request.write (behind m)).Within capacity :=
    ⟨by rw [hoffset, hlen]; omega, Nat.le_refl 1⟩
  obtain ⟨m', hserve, -⟩ := h [.write (behind m)] fun r hr => by
    rw [List.mem_singleton.mp hr]
    exact hwithin
  have hbuff : (behind m).len.toNat ≤ (behind m).buff.length := Nat.le_refl 1
  have hwrite : m.write (behind m) = none := by
    rw [MmapStorage.write_eq m hbuff, hoffset, hlen, if_neg (by omega)]
  simp [serveAll, serve, hwrite] at hserve

theorem large_of_ne (hs : s.toNat * 2 ^ 20 < 2 ^ 64) (hne : s ≠ 0) :
    pageSize < (s * converterToMb).toNat := by
  have hpos : 0 < s.toNat := UInt64.pos_iff_ne_zero.mpr hne
  rw [toNat_mul_converterToMb hs, pageSize]
  omega

/-- For every size in MB whose mapping the file covers: the mapping of the slave has the bytes that the
master advertises, and is an array of them. -/
theorem slave_array {os : System} (hs : s.toNat * 2 ^ 20 < 2 ^ 64)
    (hcovers : os.Covers (s * converterToMb)) (hslave : slave os s = some m) :
    (master s).capacity = s.toNat * 2 ^ 20 ∧ m.getSize = s.toNat * 2 ^ 20 ∧
      IsArray m (master s).capacity := by
  have hcapacity := capacity_master hs
  have hsize := toNat_mul_converterToMb hs
  rw [slave] at hslave
  split at hslave
  · cases hslave
  · rename_i hne
    cases hslave
    have hle := getSize_mmapStorage_le os (s * converterToMb)
    have hge := (le_getSize_mmapStorage_iff (large_of_ne hs hne) (by omega)).mpr hcovers
    exact ⟨hcapacity, by omega, isArray_of_le (by omega)⟩

/-- The storage of the slave is an array of the bytes that the master advertises exactly if there is
none, or `open` and `mmap` succeed and `lseek` and `write` do as well, where the file was not long enough
before. -/
theorem slave_array_iff (os : System) (hs : s.toNat * 2 ^ 20 < 2 ^ 64) :
    (∀ m, slave os s = some m → IsArray m (master s).capacity) ↔
      s = 0 ∨ os.Covers (s * converterToMb) := by
  constructor
  · intro h
    by_cases hne : s = 0
    · exact .inl hne
    · right
      have hsize := toNat_mul_converterToMb hs
      have harray := h (mmapStorage os (s * converterToMb)) (if_neg hne)
      rw [capacity_master hs] at harray
      have hle := le_of_isArray hs harray
      exact (le_getSize_mmapStorage_iff (large_of_ne hs hne) (by omega)).mp (by omega)
  · rintro (rfl | hcovers) m hslave
    · cases hslave
    · exact (slave_array hs hcovers hslave).2.2

/-- A system that refuses nothing but what no process has room for, with a file that is not there yet. -/
def roomy : System where
  file := some []
  seeks offset := decide (0 ≤ offset.toInt)
  writes := true
  maps length := decide (length.toNat < 2 ^ 63)
  seeks_nonneg h := of_decide_eq_true h
  maps_lt h := of_decide_eq_true h

def twoWrites : List Request :=
  [.write ⟨0, 1, .replicate 8 0, 2, .write, 0, [7, 8]⟩,
    .write ⟨1, 2, .replicate 8 0, 1, .write, 0, [9]⟩]

theorem slave_array_twoWrites : ∃ m m' data', slave roomy 1 = some m ∧
    serveAll m twoWrites = some m' ∧
    m'.read ⟨⟨0, 0, .replicate 8 0, 0, .read, 0, []⟩, fun _ => 0⟩
      ⟨0, 3, .replicate 8 0, 2, .read, 0, []⟩ = some data' ∧
    data'.buff[0]? = some 7 ∧ data'.buff[1]? = some 9 := by
  have hcapacity : (master 1).capacity = 2 ^ 20 := capacity_master (s := 1) (by decide)
  have hrequests : ∀ r ∈ twoWrites, r.Within (master 1).capacity := by
    rw [hcapacity]
    intro r hr
    rcases List.mem_pair.mp hr with rfl | rfl
    · exact ⟨by decide, by decide⟩
    · exact ⟨by decide, by decide⟩
  have hcovers : roomy.Covers (1 * converterToMb) := ⟨by decide, [], rfl, .inl ⟨by decide, rfl⟩⟩
  obtain ⟨m', hserveAll, -, hread, -⟩ := (slave_array_iff roomy (s := 1) (by decide)).mpr
    (.inr hcovers) (mmapStorage roomy (1 * converterToMb)) rfl twoWrites hrequests
  obtain ⟨data', hdata', -, hbytes⟩ := hread ⟨⟨0, 0, .replicate 8 0, 0, .read, 0, []⟩, fun _ => 0⟩
    ⟨0, 3, .replicate 8 0, 2, .read, 0, []⟩ (by rw [hcapacity]; show 0 + 2 ≤ 2 ^ 20; decide)
  exact ⟨_, m', data', rfl, hserveAll, hdata', hbytes 0 (by decide), hbytes 1 (by decide)⟩

def unopened : System := { roomy with file := none }

/-- One MB, and a `WRITE` of its first byte. -/
theorem not_slave_array_unopened :
    ¬ ∀ m, slave unopened 1 = some m → IsArray m (master 1).capacity := by
  intro h
  have hcapacity : (master 1).capacity = 2 ^ 20 := capacity_master (s := 1) (by decide)
  obtain ⟨m', hserve, -⟩ := h ⟨[]⟩ rfl [.write (behind ⟨[]⟩)] fun r hr => by
    rw [List.mem_singleton.mp hr, hcapacity]
    exact ⟨by decide, by decide⟩
  cases hserve

end GreenCloud.Device
