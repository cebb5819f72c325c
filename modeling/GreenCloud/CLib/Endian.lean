import GreenCloud.CLib.Memory
import Mathlib.Data.Nat.Bitwise

/-! Numbers as bytes in both orders, and what is left of a number whose last bytes are zeroed. -/

namespace CLib

def littleEndian : Bytes → Nat
  | [] => 0
  | b :: p => b.toNat + 256 * littleEndian p

def bigEndian : Bytes → Nat
  | [] => 0
  | b :: p => b.toNat * 256 ^ p.length + bigEndian p

def networkBytes : Nat → Nat → Bytes
  | 0, _ => []
  | count + 1, n => UInt8.ofNat (n / 256 ^ count) :: networkBytes count n

@[simp] theorem length_networkBytes (count n : Nat) : (networkBytes count n).length = count := by
  induction count with
  | zero => rfl
  | succ count ih => simp [networkBytes, ih]

theorem bigEndian_networkBytes (count n : Nat) :
    bigEndian (networkBytes count n) = n % 256 ^ count := by
  induction count with
  | zero => simp [networkBytes, bigEndian, Nat.mod_one]
  | succ count ih =>
    have hbyte : (UInt8.ofNat (n / 256 ^ count)).toNat = n / 256 ^ count % 256 :=
      UInt8.toNat_ofNat'
    have hsplit : n % 256 ^ (count + 1) =
        n % 256 ^ count + 256 ^ count * (n / 256 ^ count % 256) := by
      rw [Nat.pow_succ, Nat.mod_mul]
    rw [networkBytes, bigEndian, length_networkBytes, ih, hbyte, hsplit, Nat.mul_comm, Nat.add_comm]

theorem littleEndian_append (p q : Bytes) :
    littleEndian (p ++ q) = littleEndian p + 256 ^ p.length * littleEndian q := by
  induction p with
  | nil => simp [littleEndian]
  | cons b p ih =>
    rw [List.cons_append, littleEndian, littleEndian, ih, List.length_cons, Nat.pow_succ']
    rw [Nat.mul_add, Nat.mul_assoc, Nat.add_assoc]

theorem littleEndian_lt (p : Bytes) : littleEndian p < 256 ^ p.length := by
  induction p with
  | nil => decide
  | cons b p ih =>
    have hb := b.toNat_lt
    rw [littleEndian, List.length_cons, Nat.pow_succ]
    omega

theorem bigEndian_append (p q : Bytes) :
    bigEndian (p ++ q) = bigEndian p * 256 ^ q.length + bigEndian q := by
  induction p with
  | nil => simp [bigEndian]
  | cons b p ih =>
    rw [List.cons_append, bigEndian, bigEndian, ih, List.length_append, Nat.pow_add, Nat.add_mul,
      Nat.mul_assoc, Nat.add_assoc]

theorem bigEndian_zeros (n : Nat) : bigEndian (zeros n) = 0 := by
  induction n with
  | zero => rfl
  | succ n ih =>
    rw [eq_zeros_cons (Nat.succ_pos n), bigEndian, Nat.succ_sub_one, ih]
    exact Nat.zero_mul _

theorem littleEndian_reverse (p : Bytes) : littleEndian p.reverse = bigEndian p := by
  induction p with
  | nil => rfl
  | cons b p ih =>
    rw [List.reverse_cons, littleEndian_append, ih, bigEndian, List.length_reverse, littleEndian,
      littleEndian, Nat.mul_zero, Nat.add_zero, Nat.mul_comm, Nat.add_comm]

theorem bigEndian_lt (p : Bytes) : bigEndian p < 256 ^ p.length := by
  rw [← littleEndian_reverse, ← List.length_reverse]
  exact littleEndian_lt p.reverse

theorem networkBytes_add_mul (count n k : Nat) :
    networkBytes count (n + 256 ^ count * k) = networkBytes count n := by
  induction count generalizing k with
  | zero => rfl
  | succ count ih =>
    have hpow : 256 ^ (count + 1) * k = 256 ^ count * (256 * k) := by
      rw [Nat.pow_succ, Nat.mul_assoc]
    rw [networkBytes, networkBytes, hpow, ih, Nat.add_mul_div_left _ _ (Nat.pow_pos (by decide))]
    congr 1
    rw [← UInt8.toNat_inj, UInt8.toNat_ofNat', UInt8.toNat_ofNat']
    omega

theorem networkBytes_bigEndian (p : Bytes) : networkBytes p.length (bigEndian p) = p := by
  induction p with
  | nil => rfl
  | cons b p ih =>
    have hlt := bigEndian_lt p
    rw [List.length_cons, networkBytes, bigEndian, Nat.add_comm, Nat.mul_comm,
      networkBytes_add_mul, ih, Nat.add_mul_div_left _ _ (Nat.pow_pos (by decide)),
      Nat.div_eq_of_lt hlt, Nat.zero_add, UInt8.ofNat_toNat]

def keep (k : Nat) (p : Bytes) : Bytes := p.take k ++ zeros (p.length - k)

@[simp] theorem length_keep (k : Nat) (p : Bytes) : (keep k p).length = p.length := by
  rw [keep, List.length_append, List.length_take, length_zeros]
  omega

theorem keep_of_le {p : Bytes} (h : p.length ≤ k) : keep k p = p := by
  rw [keep, List.take_of_length_le h, Nat.sub_eq_zero_of_le h]
  exact List.append_nil p

theorem zeros_append (m n : Nat) : zeros m ++ zeros n = zeros (m + n) :=
  (List.replicate_add m n 0).symm

theorem keep_append (k : Nat) (p q : Bytes) :
    keep k (p ++ q) = keep k p ++ keep (k - p.length) q := by
  by_cases hk : k ≤ p.length
  · have hzero : k - p.length = 0 := by omega
    have hlen : p.length + q.length - k = p.length - k + q.length := by omega
    simp only [keep, hzero, List.take_append_of_le_length hk, List.length_append, hlen,
      ← zeros_append, List.take_zero, List.nil_append, Nat.sub_zero, List.append_assoc]
  · have hle : p.length ≤ k := by omega
    have hlen : p.length + q.length - k = q.length - (k - p.length) := by omega
    rw [keep_of_le hle, keep, keep, List.take_append, List.take_of_length_le hle,
      List.length_append, hlen, List.append_assoc]

theorem bigEndian_keep_le (k : Nat) (p : Bytes) : bigEndian (keep k p) ≤ bigEndian p := by
  have hsplit : bigEndian p = bigEndian (p.take k ++ p.drop k) := by rw [List.take_append_drop]
  rw [hsplit, keep, bigEndian_append, bigEndian_append, bigEndian_zeros, length_zeros,
    List.length_drop]
  exact Nat.le_add_right _ _

theorem and_second_byte (n : Nat) : n &&& 0xff00 = 2 ^ 8 * (n / 2 ^ 8 % 2 ^ 8) := by
  have hmask : 0xff00 = 2 ^ 8 * (2 ^ 8 - 1) := by decide
  rw [hmask]
  apply Nat.eq_of_testBit_eq
  intro i
  rw [Nat.testBit_and, Nat.testBit_two_pow_mul, Nat.testBit_two_pow_mul,
    Nat.testBit_two_pow_sub_one,
    Nat.testBit_mod_two_pow, Nat.testBit_div_two_pow]
  by_cases hi : 8 ≤ i
  · rw [Nat.sub_add_cancel hi]
    simp [hi, Bool.and_comm]
  · simp [hi]

theorem or_bytes (a b c d : Nat) (hb : b < 2 ^ 8) (hc : c < 2 ^ 8) (hd : d < 2 ^ 8) :
    a * 2 ^ 24 ||| b * 2 ^ 16 ||| c * 2 ^ 8 ||| d = a * 2 ^ 24 + b * 2 ^ 16 + c * 2 ^ 8 + d := by
  have hab : a * 2 ^ 24 ||| b * 2 ^ 16 = 2 ^ 16 * (a * 2 ^ 8 + b) := by
    have h := Nat.two_pow_add_eq_or_of_lt (i := 24) (b := b * 2 ^ 16) (by omega) a
    rw [Nat.mul_comm a, ← h]
    omega
  have habc : 2 ^ 16 * (a * 2 ^ 8 + b) ||| c * 2 ^ 8 = 2 ^ 8 * ((a * 2 ^ 8 + b) * 2 ^ 8 + c) := by
    have h := Nat.two_pow_add_eq_or_of_lt (i := 16) (b := c * 2 ^ 8) (by omega) (a * 2 ^ 8 + b)
    rw [← h]
    omega
  have h := Nat.two_pow_add_eq_or_of_lt (i := 8) (b := d) hd ((a * 2 ^ 8 + b) * 2 ^ 8 + c)
  rw [hab, habc, ← h]
  omega

end CLib
