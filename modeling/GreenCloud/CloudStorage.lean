import GreenCloud.PendingTable

/-! The datagrams of `CloudStorage`: requests from the master to a slave. -/

namespace GreenCloud.CloudStorage

open CLib

/-- `"%lu;%u;%d;%c;"` -/
def header (offset : UInt64) (len : UInt32) (rid : Int32) (c : UInt8) : Bytes :=
  decimal offset.toNat ++ sep :: (decimal len.toNat ++ sep :: (decimalInt rid.toInt ++ sep :: [c, sep]))

/-- `sprintf` into a zeroed `char buf[BUFF_SIZE]` -/
def printHeader (offset : UInt64) (len : UInt32) (rid : Int32) (c : UInt8) : Option Bytes := do
  let runner ← (Cursor.start (zeros buffSize)).write (header offset len rid c ++ [0])
  return runner.object

/-- The datagram of `Write` for the id that `HandlerToId` gave. -/
def writeDatagram (data : DriverData) (rid : Int32) : Option Bytes := do
  let buf ← printHeader data.offset data.len rid 49
  let runner ← (Cursor.start buf).toNul
  let runner ← runner.skip 1
  let runner ← runner.write (← fetch data.len.toNat data.buff)
  return runner.object

def readDatagram (data : DriverData) (rid : Int32) : Option Bytes :=
  printHeader data.offset data.len rid 48

/-- The datagram of the storage call that the task of a request makes. -/
def requestDatagram (data : DriverData) (rid : Int32) : Option Bytes :=
  if data.key = .read then readDatagram data rid else writeDatagram data rid

def disconnectDatagram : Option Bytes := strcpy (zeros buffSize) (ascii "0;0;0;2;" ++ [0])

variable (offset : UInt64) (len : UInt32) (rid : Int32) {c : UInt8}

theorem nul_not_mem_header (hc : c ≠ 0) : 0 ∉ header offset len rid c := by
  have hsep : (0 : UInt8) ≠ sep := by decide
  simp [header, nul_not_mem_decimal, nul_not_mem_decimalInt, hsep, hc.symm]

/-- The longest header: 20 digits, 10 digits, 11 characters, the key and four separators. -/
theorem length_header_le (c : UInt8) : (header offset len rid c).length ≤ 46 := by
  have h1 : (decimal offset.toNat).length ≤ 20 :=
    (length_decimal_le_iff (by decide)).mpr (Nat.lt_trans offset.toNat_lt (by decide))
  have h2 : (decimal len.toNat).length ≤ 10 :=
    (length_decimal_le_iff (by decide)).mpr (Nat.lt_trans len.toNat_lt (by decide))
  have h3 := length_decimalInt_le rid
  simp only [header, List.length_append, List.length_cons, List.length_nil]
  omega

/-- The header of a request of at most 9999 bytes, which leaves 4096 for the payload. -/
theorem length_header_le_of_lt (hlen : len.toNat < 10 ^ 4) (hrid : 0 ≤ rid.toInt) (c : UInt8) :
    (header offset len rid c).length ≤ 39 := by
  have h1 : (decimal offset.toNat).length ≤ 20 :=
    (length_decimal_le_iff (by decide)).mpr (Nat.lt_trans offset.toNat_lt (by decide))
  have h2 : (decimal len.toNat).length ≤ 4 := (length_decimal_le_iff (by decide)).mpr hlen
  have h3 : (decimalInt rid.toInt).length ≤ 10 := by
    have := rid.toInt_lt
    rw [decimalInt, if_neg (Int.not_lt.mpr hrid)]
    exact (length_decimal_le_iff (by decide)).mpr (by omega)
  simp only [header, List.length_append, List.length_cons, List.length_nil]
  omega

theorem printHeader_eq (c : UInt8) :
    printHeader offset len rid c =
      some (header offset len rid c ++ zeros (buffSize - (header offset len rid c).length)) := by
  have hle := length_header_le offset len rid c
  have hfit : (header offset len rid c ++ [0]).length ≤ buffSize := by
    rw [List.length_append, List.length_singleton, buffSize]
    omega
  have hpos : 0 < buffSize - (header offset len rid c).length := by
    rw [buffSize]
    omega
  simp only [printHeader, Cursor.start, Cursor.write_zeros, hfit, ↓reduceIte, Option.bind_eq_bind,
    Option.bind_some, Option.pure_def, Cursor.object]
  rw [eq_zeros_cons hpos, List.length_append, List.length_singleton, Nat.sub_sub]
  simp

/-- `Write` puts the payload behind the header and its NUL; it writes outside `buf` where
they do not fit. -/
theorem writeDatagram_eq {data : DriverData} (hbuff : data.len.toNat ≤ data.buff.length) :
    writeDatagram data rid =
      if (header data.offset data.len rid 49).length + 1 + data.len.toNat ≤ buffSize then
        some (header data.offset data.len rid 49 ++ 0 :: (data.buff.take data.len.toNat ++
          zeros (buffSize - ((header data.offset data.len rid 49).length + 1 + data.len.toNat))))
      else none := by
  have hle := length_header_le data.offset data.len rid 49
  have hnul := nul_not_mem_header data.offset data.len rid (show (49 : UInt8) ≠ 0 by decide)
  rw [writeDatagram, printHeader_eq]
  generalize header data.offset data.len rid 49 = h at *
  have hpos : 0 < buffSize - h.length := by
    rw [buffSize]
    omega
  have hlen : (data.buff.take data.len.toNat).length = data.len.toNat :=
    List.length_take_of_le hbuff
  have hiff : data.len.toNat ≤ buffSize - h.length - 1 ↔
      h.length + 1 + data.len.toNat ≤ buffSize := by
    omega
  simp only [Option.bind_eq_bind, Option.bind_some, Cursor.start, Cursor.toNul_zeros hnul _ hpos,
    Cursor.skip_one_zeros _ hpos, fetch, hbuff, ↓reduceIte, Cursor.write_zeros, hlen, hiff]
  split
  · simp [Cursor.object, Nat.sub_sub]
  · rfl

theorem length_writeDatagram {data : DriverData} (hbuff : data.len.toNat ≤ data.buff.length)
    (h : writeDatagram data rid = some datagram) : datagram.length = buffSize := by
  rw [writeDatagram_eq rid hbuff] at h
  split at h
  · simp only [Option.some.injEq] at h
    subst h
    simp only [List.length_append, List.length_cons, List.length_take, length_zeros]
    omega
  · simp at h

theorem disconnectDatagram_eq :
    disconnectDatagram = some (header 0 0 0 50 ++ zeros (buffSize - 8)) := by
  have hcstr : cstr (ascii "0;0;0;2;" ++ [0]) = some (ascii "0;0;0;2;") := by decide
  have hheader : ascii "0;0;0;2;" = header 0 0 0 50 := by decide
  have hlen : (header 0 0 0 50).length = 8 := by decide
  rw [disconnectDatagram, strcpy_eq hcstr, hheader, hlen, length_zeros, if_pos (by decide),
    drop_zeros]
  rfl

end GreenCloud.CloudStorage
