import GreenCloud.CLib.Memory
import Mathlib.Algebra.Group.Int.Defs
import Mathlib.Algebra.Group.Nat.Defs
import Mathlib.Data.List.TakeWhile

/-! Decimal numbers in C strings: what `%lu`, `%u`, `%d` and `std::to_string` write,
and what `strtoul` and `strtol` read back with base 10 where `long` has 64 bits. -/

namespace CLib

def isSpace (c : UInt8) : Bool := c == 32 || (9 ≤ c && c ≤ 13)

def isDigit (c : UInt8) : Bool := 48 ≤ c && c ≤ 57

/-- `%lu`, `%u` -/
def decimal (n : Nat) : Bytes := (Nat.toDigits 10 n).map Char.toUInt8

/-- `%d` -/
def decimalInt (i : Int) : Bytes := if i < 0 then 45 :: decimal i.natAbs else decimal i.natAbs

def skipSpace : Bytes → Option Bytes
  | [] => none
  | c :: p => if isSpace c then skipSpace p else some (c :: p)

def readSign : Bytes → Option (Bool × Bytes)
  | [] => none
  | c :: p => some (if c = 45 then (true, p) else if c = 43 then (false, p) else (false, c :: p))

def readDigits (acc : Nat) : Bytes → Option (Nat × Bytes)
  | [] => none
  | c :: p => if isDigit c then readDigits (10 * acc + (c.toNat - 48)) p else some (acc, c :: p)

/-- The subject sequence of `strtoul` and `strtol`: the sign, the value of the digits and
the end pointer, which is where the scan began when there is no digit. -/
def subject (p : Bytes) : Option (Bool × Nat × Bytes) := do
  let (neg, digits) ← readSign (← skipSpace p)
  let (n, rest) ← readDigits 0 digits
  return (neg, n, if rest.length = digits.length then p else rest)

/-- The value out of range is `ULONG_MAX`, with or without a sign. -/
def toUlong (neg : Bool) (n : Nat) : UInt64 :=
  if 2 ^ 64 ≤ n then -1 else if neg then -UInt64.ofNat n else UInt64.ofNat n

/-- The value out of range is `LONG_MIN` or `LONG_MAX`. -/
def toLong (neg : Bool) (n : Nat) : Int64 :=
  if neg then (if 2 ^ 63 ≤ n then Int64.minValue else -Int64.ofNat n)
  else if 2 ^ 63 ≤ n then Int64.maxValue else Int64.ofNat n

def strtoul (p : Bytes) : Option (UInt64 × Bytes) :=
  (subject p).map fun (neg, n, rest) => (toUlong neg n, rest)

def strtol (p : Bytes) : Option (Int64 × Bytes) :=
  (subject p).map fun (neg, n, rest) => (toLong neg n, rest)

theorem toUInt8_digitChar (h : d < 10) : (Nat.digitChar d).toUInt8 = UInt8.ofNat (48 + d) :=
  (by decide : ∀ d : Fin 10, (Nat.digitChar d).toUInt8 = UInt8.ofNat (48 + d)) ⟨d, h⟩

theorem toNat_digit (h : d < 10) : (UInt8.ofNat (48 + d)).toNat = 48 + d := by
  rw [UInt8.toNat_ofNat']
  omega

theorem isDigit_digit (h : d < 10) : isDigit (UInt8.ofNat (48 + d)) :=
  (by decide : ∀ d : Fin 10, isDigit (UInt8.ofNat (48 + d))) ⟨d, h⟩

theorem decimal_of_lt (h : n < 10) : decimal n = [UInt8.ofNat (48 + n)] := by
  simp [decimal, Nat.toDigits_of_lt_base h, toUInt8_digitChar h]

theorem decimal_of_le (h : 10 ≤ n) :
    decimal n = decimal (n / 10) ++ [UInt8.ofNat (48 + n % 10)] := by
  simp [decimal, Nat.toDigits_of_base_le (by decide) h,
    toUInt8_digitChar (Nat.mod_lt n (by decide : 0 < 10))]

theorem isDigit_of_mem_decimal (h : c ∈ decimal n) : isDigit c := by
  induction n using Nat.strongRecOn with
  | ind n ih =>
    by_cases hn : n < 10
    · rw [decimal_of_lt hn, List.mem_singleton] at h
      exact h ▸ isDigit_digit hn
    · rw [decimal_of_le (by omega), List.mem_append, List.mem_singleton] at h
      rcases h with h | h
      · exact ih (n / 10) (by omega) h
      · exact h ▸ isDigit_digit (Nat.mod_lt n (by decide))

theorem decimal_ne_nil (n : Nat) : decimal n ≠ [] := by
  simp [decimal]

theorem length_decimal_le_iff (hk : 0 < k) : (decimal n).length ≤ k ↔ n < 10 ^ k := by
  simp [decimal, Nat.length_toDigits_le_iff (by decide : 1 < 10) hk]

theorem length_decimal_pos (n : Nat) : 0 < (decimal n).length :=
  List.length_pos_iff.mpr (decimal_ne_nil n)

theorem not_mem_decimalInt (hd : isDigit c = false) (hm : c ≠ 45) (i : Int) :
    c ∉ decimalInt i := by
  intro h
  unfold decimalInt at h
  split at h
  · rcases List.mem_cons.mp h with h | h
    · exact hm h
    · simp [isDigit_of_mem_decimal h] at hd
  · simp [isDigit_of_mem_decimal h] at hd

theorem not_mem_decimal (hd : isDigit c = false) (n : Nat) : c ∉ decimal n := by
  intro h
  simp [isDigit_of_mem_decimal h] at hd

theorem not_isSpace_of_isDigit (h : isDigit c) : isSpace c = false := by
  simp only [isDigit, isSpace, Bool.and_eq_true, decide_eq_true_eq, UInt8.le_iff_toNat_le,
    ← UInt8.toNat_inj, Bool.or_eq_false_iff, beq_eq_false_iff_ne, ne_eq,
    Bool.and_eq_false_imp, decide_eq_false_iff_not] at *
  simp only [UInt8.reduceToNat] at *
  omega

theorem not_sign_of_isDigit (h : isDigit c) : c ≠ 45 ∧ c ≠ 43 := by
  constructor <;> rintro rfl <;> simp [isDigit] at h

theorem readDigits_append (p : Bytes) (acc : Nat) (h : ∀ c ∈ s, isDigit c) :
    readDigits acc (s ++ p) =
      readDigits (s.foldl (fun acc c => 10 * acc + (c.toNat - 48)) acc) p := by
  induction s generalizing acc with
  | nil => rfl
  | cons c s ih =>
    have hc : isDigit c := h c (by simp)
    simpa [readDigits, hc] using ih _ fun d hd => h d (by simp [hd])

theorem foldl_decimal (n : Nat) :
    (decimal n).foldl (fun acc c => 10 * acc + (c.toNat - 48)) 0 = n := by
  induction n using Nat.strongRecOn with
  | ind n ih =>
    by_cases hn : n < 10
    · simp only [decimal_of_lt hn, List.foldl_cons, List.foldl_nil, toNat_digit hn]
      omega
    · have hd : n % 10 < 10 := Nat.mod_lt n (by decide)
      rw [decimal_of_le (by omega), List.foldl_append, ih (n / 10) (by omega)]
      simp only [List.foldl_cons, List.foldl_nil, toNat_digit hd]
      omega

theorem readDigits_decimal (hc : isDigit c = false) (n : Nat) (p : Bytes) :
    readDigits 0 (decimal n ++ c :: p) = some (n, c :: p) := by
  rw [readDigits_append _ _ fun _ => isDigit_of_mem_decimal, foldl_decimal]
  simp [readDigits, hc]

theorem subject_decimalInt (hc : isDigit c = false) (i : Int) (p : Bytes) :
    subject (decimalInt i ++ c :: p) = some (decide (i < 0), i.natAbs, c :: p) := by
  have hlen : ¬ (c :: p).length = (decimal i.natAbs ++ c :: p).length := by
    have := length_decimal_pos i.natAbs
    simp only [List.length_append]
    omega
  by_cases hi : i < 0
  · have hs : decimalInt i = 45 :: decimal i.natAbs := by simp [decimalInt, hi]
    have hspace : isSpace 45 = false := by decide
    simp only [subject, hs, List.cons_append, skipSpace, hspace, Bool.false_eq_true, ↓reduceIte,
      Option.bind_eq_bind, Option.bind_some, readSign, readDigits_decimal hc, hlen]
    simp [hi]
  · have hs : decimalInt i = decimal i.natAbs := by simp [decimalInt, hi]
    obtain ⟨d, s, hd⟩ := List.exists_cons_of_ne_nil (decimal_ne_nil i.natAbs)
    have hdig : isDigit d := isDigit_of_mem_decimal (n := i.natAbs) (by simp [hd])
    have hread := readDigits_decimal hc i.natAbs p
    rw [hd, List.cons_append] at hread hlen
    simp only [subject, hs, hd, List.cons_append, skipSpace, not_isSpace_of_isDigit hdig,
      Bool.false_eq_true, ↓reduceIte, Option.bind_eq_bind, Option.bind_some, readSign,
      not_sign_of_isDigit hdig, hread, hlen]
    simp [hi]

theorem decimal_eq_decimalInt (n : Nat) : decimal n = decimalInt n := by
  simp [decimalInt]

theorem ofInt_natCast (n : Nat) : UInt64.ofInt n = UInt64.ofNat n := by
  apply UInt64.toNat_inj.mp
  simp [UInt64.ofInt]
  omega

theorem toUlong_natAbs (hi : i.natAbs < 2 ^ 64) :
    toUlong (decide (i < 0)) i.natAbs = UInt64.ofInt i := by
  rw [toUlong, if_neg (Nat.not_le.mpr hi)]
  by_cases h : i < 0
  · obtain ⟨n, rfl⟩ := Int.exists_eq_neg_ofNat (Int.le_of_lt h)
    rw [Int.natAbs_neg, Int.natAbs_natCast, UInt64.ofInt_neg, ofInt_natCast, decide_eq_true h]
    rfl
  · obtain ⟨n, rfl⟩ := Int.eq_ofNat_of_zero_le (Int.not_lt.mp h)
    rw [Int.natAbs_natCast, ofInt_natCast, decide_eq_false h]
    rfl

theorem toLong_natAbs (hlo : -2 ^ 63 ≤ i) (hhi : i < 2 ^ 63) :
    toLong (decide (i < 0)) i.natAbs = Int64.ofInt i := by
  by_cases h : i < 0
  · obtain ⟨n, rfl⟩ := Int.exists_eq_neg_ofNat (Int.le_of_lt h)
    rw [Int.natAbs_neg, Int.natAbs_natCast, decide_eq_true h, toLong, if_pos rfl]
    split
    · obtain rfl : n = 2 ^ 63 := by omega
      decide
    · exact Int64.neg_ofNat
  · obtain ⟨n, rfl⟩ := Int.eq_ofNat_of_zero_le (Int.not_lt.mp h)
    rw [Int.natAbs_natCast, decide_eq_false h, toLong, if_neg (by simp), if_neg (by omega)]
    exact Int64.ofInt_eq_ofNat.symm

/-- A negative number wraps: `strtoul` negates it as an `unsigned long`. -/
theorem strtoul_decimalInt (hc : isDigit c = false) (hi : i.natAbs < 2 ^ 64) (p : Bytes) :
    strtoul (decimalInt i ++ c :: p) = some (UInt64.ofInt i, c :: p) := by
  simp [strtoul, subject_decimalInt hc, toUlong_natAbs hi]

theorem strtoul_decimal (hc : isDigit c = false) (hn : n < 2 ^ 64) (p : Bytes) :
    strtoul (decimal n ++ c :: p) = some (UInt64.ofNat n, c :: p) := by
  rw [decimal_eq_decimalInt, strtoul_decimalInt hc (by simpa using hn), ofInt_natCast]

theorem strtol_decimalInt (hc : isDigit c = false) (hlo : -2 ^ 63 ≤ i) (hhi : i < 2 ^ 63)
    (p : Bytes) : strtol (decimalInt i ++ c :: p) = some (Int64.ofInt i, c :: p) := by
  simp [strtol, subject_decimalInt hc, toLong_natAbs hlo hhi]

theorem toInt32_toUInt32_ofInt (i : Int) :
    (UInt64.ofInt i).toUInt32.toInt32 = Int32.ofInt i := by
  have hnat : ∀ n : Nat, (UInt64.ofInt n).toUInt32.toInt32 = Int32.ofInt n := fun n => by
    rw [ofInt_natCast, UInt64.toUInt32_ofNat', UInt32.toInt32_ofNat', Int32.ofInt_eq_ofNat]
  rcases Int.le_total 0 i with h | h
  · obtain ⟨n, rfl⟩ := Int.eq_ofNat_of_zero_le h
    exact hnat n
  · obtain ⟨n, rfl⟩ := Int.exists_eq_neg_ofNat h
    rw [UInt64.ofInt_neg, UInt64.toUInt32_neg, UInt32.toInt32_neg, hnat, Int32.neg_ofInt]

def dropSign : Bytes → Bytes
  | [] => []
  | c :: p => if c = 45 ∨ c = 43 then p else c :: p

def scanEnd (p : Bytes) : Bytes := (dropSign (p.dropWhile isSpace)).dropWhile isDigit

theorem mem_dropWhile {p : Bytes} {f : UInt8 → Bool} (hc : f c = false) (h : c ∈ p) :
    c ∈ p.dropWhile f := by
  induction p with
  | nil => cases h
  | cons d p ih =>
    by_cases hd : f d
    · have hne : c ≠ d := by
        rintro rfl
        rw [hd] at hc
        cases hc
      rw [List.dropWhile_cons_of_pos hd]
      exact ih ((List.mem_cons.mp h).resolve_left hne)
    · rw [List.dropWhile_cons_of_neg hd]
      exact h

theorem nul_mem_dropSign {p : Bytes} (h : 0 ∈ p) : 0 ∈ dropSign p := by
  cases p with
  | nil => cases h
  | cons c p =>
    by_cases hc : c = 45 ∨ c = 43
    · have hne : 0 ≠ c := by
        rintro rfl
        exact absurd hc (by decide)
      rw [dropSign, if_pos hc]
      exact (List.mem_cons.mp h).resolve_left hne
    · rw [dropSign, if_neg hc]
      exact h

theorem skipSpace_eq (p : Bytes) :
    skipSpace p = if p.dropWhile isSpace = [] then none else some (p.dropWhile isSpace) := by
  induction p with
  | nil => rfl
  | cons c p ih =>
    by_cases hc : isSpace c
    · simp [skipSpace, hc, ih]
    · simp [skipSpace, hc]

theorem readSign_eq (hp : p ≠ []) : ∃ neg, readSign p = some (neg, dropSign p) := by
  cases p with
  | nil => exact absurd rfl hp
  | cons c p =>
    by_cases hm : c = 45
    · exact ⟨true, by simp [readSign, dropSign, hm]⟩
    · by_cases hplus : c = 43
      · exact ⟨false, by simp [readSign, dropSign, hplus]⟩
      · exact ⟨false, by simp [readSign, dropSign, hm, hplus]⟩

theorem readDigits_isSome (acc : Nat) (p : Bytes) :
    (readDigits acc p).isSome ↔ p.dropWhile isDigit ≠ [] := by
  induction p generalizing acc with
  | nil => simp [readDigits]
  | cons c p ih =>
    by_cases hc : isDigit c
    · simp [readDigits, hc, ih]
    · simp [readDigits, hc]

theorem subject_isSome (p : Bytes) : (subject p).isSome ↔ scanEnd p ≠ [] := by
  rw [subject, skipSpace_eq, scanEnd]
  by_cases hspace : p.dropWhile isSpace = []
  · simp [hspace, dropSign]
  · obtain ⟨neg, hsign⟩ := readSign_eq hspace
    rw [if_neg hspace, ← readDigits_isSome 0]
    simp only [Option.bind_eq_bind, Option.bind_some, hsign]
    cases readDigits 0 (dropSign (p.dropWhile isSpace)) <;> rfl

theorem strtoul_isSome (p : Bytes) : (strtoul p).isSome ↔ scanEnd p ≠ [] := by
  rw [strtoul, Option.isSome_map, subject_isSome]

theorem scanEnd_ne_nil (h : 0 ∈ p) : scanEnd p ≠ [] := by
  have hspace : 0 ∈ p.dropWhile isSpace := mem_dropWhile (by decide) h
  have hsign := nul_mem_dropSign hspace
  exact List.ne_nil_of_mem (mem_dropWhile (by decide) hsign)

theorem dropSign_subset (p : Bytes) : dropSign p ⊆ p := by
  cases p with
  | nil => exact List.Subset.refl _
  | cons c p =>
    rw [dropSign]
    split
    · exact List.subset_cons_self c p
    · exact List.Subset.refl _

theorem scanEnd_digits {p : Bytes} (h : ∀ c ∈ p, isDigit c) : scanEnd p = [] := by
  rw [scanEnd, List.dropWhile_eq_nil_iff]
  intro c hc
  exact h c ((List.dropWhile_sublist _).subset (dropSign_subset _ hc))

theorem readDigits_length (h : readDigits acc p = some (n, rest)) : rest.length ≤ p.length := by
  induction p generalizing acc with
  | nil => cases h
  | cons c p ih =>
    by_cases hc : isDigit c
    · rw [readDigits, if_pos hc] at h
      exact Nat.le_succ_of_le (ih h)
    · rw [readDigits, if_neg hc] at h
      cases h
      exact Nat.le_refl _

theorem length_dropSign_le (p : Bytes) : (dropSign p).length ≤ p.length := by
  cases p with
  | nil => exact Nat.le_refl _
  | cons c p =>
    rw [dropSign]
    split
    · exact Nat.le_succ _
    · exact Nat.le_refl _

theorem subject_length (h : subject p = some (neg, n, rest)) : rest.length ≤ p.length := by
  have hscan : scanEnd p ≠ [] := (subject_isSome p).mp (by rw [h]; rfl)
  have hspace : p.dropWhile isSpace ≠ [] := by
    intro hnil
    rw [scanEnd, hnil] at hscan
    exact hscan rfl
  obtain ⟨neg', hsign⟩ := readSign_eq hspace
  rw [subject, skipSpace_eq, if_neg hspace] at h
  simp only [Option.bind_eq_bind, Option.bind_some, hsign, Option.bind_eq_some_iff] at h
  obtain ⟨⟨n', rest'⟩, hdigits, h⟩ := h
  have hle : rest'.length ≤ p.length :=
    calc rest'.length
      _ ≤ (dropSign (p.dropWhile isSpace)).length := readDigits_length hdigits
      _ ≤ (p.dropWhile isSpace).length := length_dropSign_le _
      _ ≤ p.length := (List.dropWhile_sublist _).length_le
  simp only [Option.pure_def, Option.some.injEq, Prod.mk.injEq] at h
  obtain ⟨-, -, rfl⟩ := h
  split
  · exact Nat.le_refl _
  · exact hle

theorem strtoul_length (h : strtoul p = some (l, rest)) : rest.length ≤ p.length := by
  rw [strtoul, Option.map_eq_some_iff] at h
  obtain ⟨⟨neg, n, rest'⟩, hsubject, h⟩ := h
  cases h
  exact subject_length hsubject

theorem strtol_length (h : strtol p = some (l, rest)) : rest.length ≤ p.length := by
  rw [strtol, Option.map_eq_some_iff] at h
  obtain ⟨⟨neg, n, rest'⟩, hsubject, h⟩ := h
  cases h
  exact subject_length hsubject

end CLib
