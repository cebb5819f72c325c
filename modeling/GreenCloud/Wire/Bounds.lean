import GreenCloud.Wire.Payload

/-! The buffers on the way of a request: whether each step from the NBD socket to the slave and
back stays inside the object it reads or writes. -/

namespace GreenCloud.Wire

open CLib

/-- What has to fit of a `READ` reply: the bytes up to the first NUL among those that were read,
and that NUL, in the buffer the master receives into, and the length in the one it reserves. -/
def ReplyFits (len : UInt32) (rid : Int32) (buff : Bytes) : Prop :=
  len.toNat ≤ buffSize + 1 ∧ ∃ s, cstr buff = some s ∧
    (SlaveDriverProxy.replyHeader len rid .read).length + s.length + 1 < buffSize

/-- What has to fit of a request: its range in the mapping, and for a `WRITE` the header, the
NUL and the payload in the buffer of the master. -/
def Fits (m : MmapStorage) (data : DriverData) (rid : Int32) : Prop :=
  data.offset.toNat + data.len.toNat ≤ m.getSize ∧
    if data.key = .read then
      ReplyFits data.len rid ((m.mmap.drop data.offset.toNat).take data.len.toNat)
    else (CloudStorage.header data.offset data.len rid 49).length + 1 + data.len.toNat ≤ buffSize

variable {m : MmapStorage} {data : DriverData} {rid : Int32}

theorem sendReply_isSome_iff (hkey : data.key = .read) :
    (NBDDriverProxy.sendReply data).isSome ↔ data.len.toNat ≤ data.buff.length := by
  rw [NBDDriverProxy.sendReply_read hkey, Option.isSome_map, fetch]
  split <;> simp_all

end GreenCloud.Wire
