import GreenCloud.CLib.Decimal

/-! `globals.hpp` and `driver_data.hpp`: what travels from socket to socket. -/

namespace GreenCloud

open CLib

/-- `BUFF_SIZE` of the master and of the slave. -/
abbrev buffSize : Nat := 4136

/-- `HANDLE_SIZE` -/
abbrev handleSize : Nat := 8

/-- `';'`, which ends every field of a datagram. -/
abbrev sep : UInt8 := 59

abbrev Handle := Vector UInt8 handleSize

/-- `other` stands for `KEY1` to `KEY10`, which have no task, and for the values
without a name that a cast can give. -/
inductive FactoryKey
  | read | write | disconnect | flush | trim | badRequest | ignore | qExit | replay
  | other (value : Int)
  deriving DecidableEq

/-- `static_cast<FactoryKey>` -/
def FactoryKey.ofInt (value : Int) : FactoryKey :=
  if value = 0 then .read
  else if value = 1 then .write
  else if value = 2 then .disconnect
  else if value = 3 then .flush
  else if value = 4 then .trim
  else if value = 5 then .badRequest
  else if value = 6 then .ignore
  else if value = 7 then .qExit
  else if value = 8 then .replay
  else .other value

def FactoryKey.value : FactoryKey → Int
  | read => 0
  | write => 1
  | disconnect => 2
  | flush => 3
  | trim => 4
  | badRequest => 5
  | ignore => 6
  | qExit => 7
  | replay => 8
  | other value => value

theorem FactoryKey.value_ofInt (value : Int) : (ofInt value).value = value := by
  unfold ofInt
  repeat' split
  all_goals first | exact Eq.symm ‹_› | rfl

/-- `static_cast<FactoryKey>(c - '0')`, where `char` is signed. -/
def FactoryKey.ofChar (c : UInt8) : FactoryKey := .ofInt (c.toInt8.toInt - 48)

/-- `buff` is the storage `m_buff.data()` points to, up to the vector's capacity. -/
structure DriverData where
  offset : UInt64
  reqId : Int32
  handler : Handle
  len : UInt32
  key : FactoryKey
  status : Int32
  buff : Bytes
  deriving DecidableEq

/-- What the allocator hands out: the fields of a `new DriverData` before the first
assignment, and the bytes of a block that `reserve` takes. -/
structure Fresh where
  data : DriverData
  block : Nat → UInt8

/-- `new DriverData`: only the vector has a constructor. -/
def Fresh.driverData (fresh : Fresh) : DriverData := { fresh.data with buff := [] }

/-- `m_buff.reserve(n)`: the vector has no elements, so nothing is copied to a new block. -/
def Fresh.reserve (fresh : Fresh) (n : Nat) (buff : Bytes) : Bytes :=
  if n ≤ buff.length then buff else uninit fresh.block n

@[simp] theorem Fresh.reserve_nil (fresh : Fresh) (n : Nat) :
    fresh.reserve n [] = uninit fresh.block n := by
  cases n with
  | zero => rfl
  | succ n => simp [Fresh.reserve]

/-- The bytes of an ASCII string literal, without its NUL. -/
def ascii (s : String) : Bytes := s.toList.map Char.toUInt8

@[simp] theorem isDigit_sep : isDigit sep = false := by decide

theorem sep_not_mem_decimal (n : Nat) : sep ∉ decimal n := not_mem_decimal isDigit_sep n

theorem sep_not_mem_decimalInt (i : Int) : sep ∉ decimalInt i :=
  not_mem_decimalInt isDigit_sep (by decide) i

theorem nul_not_mem_decimal (n : Nat) : 0 ∉ decimal n := not_mem_decimal (by decide) n

theorem nul_not_mem_decimalInt (i : Int) : 0 ∉ decimalInt i :=
  not_mem_decimalInt (by decide) (by decide) i

theorem length_decimalInt_le (i : Int32) : (decimalInt i.toInt).length ≤ 11 := by
  have := i.toInt_lt
  have := i.le_toInt
  have hdigits : (decimal i.toInt.natAbs).length ≤ 10 :=
    (length_decimal_le_iff (by decide)).mpr (by omega)
  unfold decimalInt
  split
  · rw [List.length_cons]
    omega
  · omega

end GreenCloud
