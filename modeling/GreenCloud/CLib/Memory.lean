import Mathlib.Data.List.Basic

/-! C objects as lists of bytes. A `char *` into an object is the list of the bytes
from the one it points at to the end of the object, so a read through it at the end
of the object has no value, and `none` is an access outside the object. -/

namespace CLib

abbrev Bytes := List UInt8

def zeros (n : Nat) : Bytes := List.replicate n 0

/-- A block fresh from the allocator: `junk` is whatever the memory held before. -/
def uninit (junk : Nat → UInt8) (n : Nat) : Bytes := (List.range n).map junk

/-- `recvfrom` of at most `n` bytes into a zeroed `char buf[size]`: a longer datagram is cut,
a shorter one leaves the zeros behind it. -/
def receive (size n : Nat) (datagram : Bytes) : Bytes :=
  datagram.take n ++ zeros (size - min n datagram.length)

@[simp] theorem length_zeros (n : Nat) : (zeros n).length = n := by simp [zeros]

@[simp] theorem length_uninit (junk : Nat → UInt8) (n : Nat) : (uninit junk n).length = n := by
  simp [uninit]

theorem length_receive {size n : Nat} (h : n ≤ size) (datagram : Bytes) :
    (receive size n datagram).length = size := by
  rw [receive, List.length_append, List.length_take, length_zeros]
  omega

theorem getElem?_uninit (junk : Nat → UInt8) {n i : Nat} (h : i < n) :
    (uninit junk n)[i]? = some (junk i) := by
  simp [uninit, h]

@[simp] theorem drop_zeros (n k : Nat) : (zeros n).drop k = zeros (n - k) := by
  simp [zeros]

theorem eq_zeros_cons {n : Nat} (h : 0 < n) : zeros n = 0 :: zeros (n - 1) := by
  cases n with
  | zero => omega
  | succ n => rfl

/-- The string a pointer points to, without its NUL; `none` when no NUL ends it
inside the object. -/
def cstr : Bytes → Option Bytes
  | [] => none
  | c :: p => if c = 0 then some [] else (cstr p).map (c :: ·)

/-- `while (*p) ++p;` -/
def strEnd : Bytes → Option Bytes
  | [] => none
  | c :: p => if c = 0 then some (c :: p) else strEnd p

/-- `while (*p != sep) ++p;` and one step more. -/
def skipPast (sep : UInt8) : Bytes → Option Bytes
  | [] => none
  | c :: p => if c = sep then some p else skipPast sep p

/-- `p + n`. -/
def advance (n : Nat) (p : Bytes) : Option Bytes :=
  if n ≤ p.length then some (p.drop n) else none

/-- The bytes `memcpy` takes from its source. -/
def fetch (n : Nat) (p : Bytes) : Option Bytes :=
  if n ≤ p.length then some (p.take n) else none

/-- `strcpy(dest, src)` for the object that starts at `dest`. -/
def strcpy : Bytes → Bytes → Option Bytes
  | _, [] => none
  | [], _ :: _ => none
  | _ :: dest, c :: src => if c = 0 then some (c :: dest) else (strcpy dest src).map (c :: ·)

/-- `strcmp`, which reads no further than the first difference. -/
def strcmp : Bytes → Bytes → Option Int
  | [], _ | _, [] => none
  | c :: p, d :: q => if c ≠ d then some (c.toNat - d.toNat) else if c = 0 then some 0 else strcmp p q

theorem cstr_append (h : 0 ∉ s) (t : Bytes) : cstr (s ++ 0 :: t) = some s := by
  induction s with
  | nil => rfl
  | cons c s ih =>
    simp only [List.mem_cons, not_or] at h
    simp [cstr, Ne.symm h.1, ih h.2]

theorem cstr_eq_some : cstr p = some s ↔ 0 ∉ s ∧ ∃ t, p = s ++ 0 :: t := by
  constructor
  · intro h
    induction p generalizing s with
    | nil => simp [cstr] at h
    | cons c p ih =>
      by_cases hc : c = 0
      · simp only [cstr, hc, ↓reduceIte, Option.some.injEq] at h
        subst h
        exact ⟨by simp, p, by simp [hc]⟩
      · simp only [cstr, hc, ↓reduceIte, Option.map_eq_some_iff] at h
        obtain ⟨s, hs, rfl⟩ := h
        obtain ⟨hn, t, rfl⟩ := ih hs
        exact ⟨by simp [Ne.symm hc, hn], t, rfl⟩
  · rintro ⟨h, t, rfl⟩
    exact cstr_append h t

theorem cstr_eq_none : cstr p = none ↔ 0 ∉ p := by
  induction p with
  | nil => simp [cstr]
  | cons c p ih =>
    by_cases hc : c = 0
    · simp [cstr, hc]
    · simp [cstr, hc, ih, Ne.symm hc]

theorem cstr_dropLast (h : 0 ∉ s) (n : Nat) :
    cstr (s ++ zeros n).dropLast = if 1 < n then some s else none := by
  split
  · rename_i hn
    have hne : zeros n ≠ [] := by
      rw [eq_zeros_cons (by omega)]
      simp
    rw [List.dropLast_append_of_ne_nil hne, zeros, List.dropLast_replicate, ← zeros,
      eq_zeros_cons (by omega)]
    exact cstr_append h _
  · rename_i hn
    rw [cstr_eq_none]
    obtain rfl | rfl : n = 0 ∨ n = 1 := by omega
    · rw [zeros, List.replicate_zero, List.append_nil]
      exact fun hmem => h (List.dropLast_subset s hmem)
    · rw [zeros, List.replicate_one, List.dropLast_concat]
      exact h

theorem exists_cstr (h : 0 ∈ p) : ∃ s, cstr p = some s ∧ s.length < p.length := by
  cases hs : cstr p with
  | none => exact absurd h (cstr_eq_none.mp hs)
  | some s =>
    obtain ⟨-, t, rfl⟩ := cstr_eq_some.mp hs
    exact ⟨s, rfl, by simp⟩

theorem strEnd_eq (h : cstr p = some s) : strEnd p = some (p.drop s.length) := by
  obtain ⟨hs, t, rfl⟩ := cstr_eq_some.mp h
  clear h
  induction s with
  | nil => rfl
  | cons c s ih =>
    simp only [List.mem_cons, not_or] at hs
    simpa [strEnd, Ne.symm hs.1] using ih hs.2

theorem skipPast_append (h : sep ∉ s) (t : Bytes) : skipPast sep (s ++ sep :: t) = some t := by
  induction s with
  | nil => simp [skipPast]
  | cons c s ih =>
    simp only [List.mem_cons, not_or] at h
    simpa [skipPast, Ne.symm h.1] using ih h.2

theorem skipPast_eq_some : skipPast sep p = some t ↔ ∃ s, sep ∉ s ∧ p = s ++ sep :: t := by
  constructor
  · intro h
    induction p with
    | nil => cases h
    | cons c p ih =>
      by_cases hc : c = sep
      · rw [skipPast, if_pos hc, Option.some.injEq] at h
        subst h
        exact ⟨[], by simp, by simp [hc]⟩
      · rw [skipPast, if_neg hc] at h
        obtain ⟨s, hs, rfl⟩ := ih h
        exact ⟨c :: s, by simp [Ne.symm hc, hs], rfl⟩
  · rintro ⟨s, hs, rfl⟩
    exact skipPast_append hs t

theorem skipPast_drop {buff : Bytes} (hle : r ≤ n) (hn : buff[n]? = some sep)
    (hscan : ∀ m, r ≤ m → m < n → buff[m]? ≠ some sep) :
    skipPast sep (buff.drop r) = some (buff.drop (n + 1)) := by
  have hlt : n < buff.length := (List.getElem?_eq_some_iff.mp hn).1
  have hsplit : buff.drop r = (buff.drop r).take (n - r) ++ sep :: buff.drop (n + 1) := by
    have hdrop : buff.drop n = sep :: buff.drop (n + 1) := by
      rw [List.drop_eq_getElem_cons hlt, (List.getElem?_eq_some_iff.mp hn).2]
    have hsum : (buff.drop r).drop (n - r) = buff.drop n := by
      rw [List.drop_drop, Nat.add_sub_cancel' hle]
    rw [← hdrop, ← hsum, List.take_append_drop]
  rw [hsplit]
  refine skipPast_append (fun hmem => ?_) _
  obtain ⟨i, hi⟩ := List.mem_iff_getElem?.mp hmem
  rw [List.getElem?_take, List.getElem?_drop] at hi
  split at hi
  · exact hscan (r + i) (Nat.le_add_right ..) (by omega) hi
  · cases hi

theorem exists_of_skipPast {buff rest : Bytes} (h : skipPast sep (buff.drop r) = some rest) :
    ∃ n, r ≤ n ∧ buff[n]? = some sep ∧ (∀ m, r ≤ m → m < n → buff[m]? ≠ some sep) ∧
      rest = buff.drop (n + 1) := by
  obtain ⟨s, hs, hdrop⟩ := skipPast_eq_some.mp h
  have hget : ∀ i, buff[r + i]? = (s ++ sep :: rest)[i]? := fun i => by
    rw [← hdrop, List.getElem?_drop]
  refine ⟨r + s.length, Nat.le_add_right .., ?_, fun m hle hlt hm => ?_, ?_⟩
  · rw [hget, List.getElem?_append_right (Nat.le_refl _), Nat.sub_self]
    rfl
  · obtain ⟨i, rfl⟩ := Nat.exists_eq_add_of_le hle
    rw [hget, List.getElem?_append_left (by omega)] at hm
    exact hs (List.mem_of_getElem? hm)
  · have hrest := congrArg (List.drop (s.length + 1)) hdrop
    rw [List.drop_drop, List.drop_length_add_append, List.drop_one, List.tail_cons] at hrest
    exact hrest.symm

theorem fetch_eq_some : fetch n p = some s ↔ s.length = n ∧ ∃ t, p = s ++ t := by
  unfold fetch
  constructor
  · intro h
    split at h
    · simp only [Option.some.injEq] at h
      subst h
      exact ⟨by simp [*], p.drop n, by simp⟩
    · simp at h
  · rintro ⟨rfl, t, rfl⟩
    simp

theorem strcpy_eq (h : cstr src = some s) (dest : Bytes) :
    strcpy dest src =
      if s.length < dest.length then some (s ++ 0 :: dest.drop (s.length + 1)) else none := by
  obtain ⟨hs, t, rfl⟩ := cstr_eq_some.mp h
  clear h
  induction s generalizing dest with
  | nil => cases dest <;> simp [strcpy]
  | cons c s ih =>
    simp only [List.mem_cons, not_or] at hs
    cases dest with
    | nil => simp [strcpy]
    | cons d dest =>
      simp only [List.cons_append, strcpy, Ne.symm hs.1, ↓reduceIte, ih dest hs.2]
      split <;> simp_all

theorem strcpy_eq_none_of_cstr (h : cstr src = none) (dest : Bytes) : strcpy dest src = none := by
  induction src generalizing dest with
  | nil => cases dest <;> rfl
  | cons c src ih =>
    by_cases hc : c = 0
    · simp [cstr, hc] at h
    · cases dest with
      | nil => rfl
      | cons d dest =>
        simp only [cstr, hc, ↓reduceIte, Option.map_eq_none_iff] at h
        simp [strcpy, hc, ih h]

theorem length_strcpy (h : strcpy dest src = some copied) : copied.length = dest.length := by
  cases hs : cstr src with
  | none =>
    rw [strcpy_eq_none_of_cstr hs] at h
    cases h
  | some s =>
    rw [strcpy_eq hs] at h
    split at h
    · rename_i hlt
      cases h
      simp only [List.length_append, List.length_cons, List.length_drop]
      omega
    · cases h

theorem strcmp_cons_of_ne (h : c ≠ d) (p q : Bytes) :
    ∃ i, strcmp (c :: p) (d :: q) = some i ∧ i ≠ 0 := by
  refine ⟨_, by rw [strcmp, if_pos h], fun hzero => h (UInt8.toNat_inj.mp ?_)⟩
  omega

theorem strcmp_eq (hq : 0 ∉ q) (h : q.length < p.length) :
    ∃ i, strcmp p (q ++ [0]) = some i ∧ (i = 0 ↔ p.take (q.length + 1) = q ++ [0]) := by
  induction q generalizing p with
  | nil =>
    obtain ⟨c, p, rfl⟩ := List.exists_cons_of_length_pos h
    by_cases hc : c = 0
    · exact ⟨0, by simp [strcmp, hc], by simp [hc]⟩
    · obtain ⟨i, hi, hne⟩ := strcmp_cons_of_ne hc p []
      exact ⟨i, hi, by simp [hne, hc]⟩
  | cons d q ih =>
    obtain ⟨c, p, rfl⟩ := List.exists_cons_of_length_pos (Nat.zero_lt_of_lt h)
    simp only [List.mem_cons, not_or] at hq
    by_cases hc : c = d
    · obtain ⟨i, hi, hiff⟩ := ih hq.2 (Nat.lt_of_succ_lt_succ h)
      refine ⟨i, ?_, by simpa [hc] using hiff⟩
      rw [List.cons_append, strcmp, if_neg (not_not.mpr hc), if_neg (by rw [hc]; exact Ne.symm hq.1), hi]
    · obtain ⟨i, hi, hne⟩ := strcmp_cons_of_ne hc p (q ++ [0])
      exact ⟨i, hi, by simp [hne, hc]⟩

theorem take_take_append {p : Bytes} (h : k ≤ p.length) (t : Bytes) :
    (p.take k ++ t).take k = p.take k := by
  rw [List.take_append_of_le_length (Nat.le_of_eq (List.length_take_of_le h).symm), List.take_take,
    Nat.min_self]

theorem nul_notMem_take (h : cstr p = some s) (k : Nat) : 0 ∉ p.take k ↔ k ≤ s.length := by
  obtain ⟨hs, t, rfl⟩ := cstr_eq_some.mp h
  constructor
  · intro hk
    apply Nat.le_of_not_lt
    intro hlt
    apply hk
    rw [List.take_append, List.mem_append]
    right
    rw [show k - s.length = k - s.length - 1 + 1 by omega, List.take_succ_cons]
    exact List.mem_cons_self
  · intro hk hmem
    rw [List.take_append_of_le_length hk] at hmem
    exact hs (List.mem_of_mem_take hmem)

theorem nul_notMem_dropLast_take (h : cstr p = some s) (hk : k ≤ p.length) :
    0 ∉ (p.take k).dropLast ↔ k ≤ s.length + 1 := by
  rw [List.dropLast_eq_take, List.take_take, List.length_take, nul_notMem_take h]
  omega

theorem take_strcpy (h : cstr p = some s) (hk : k ≤ s.length + 1) (dest : Bytes) :
    (s ++ 0 :: dest).take k = p.take k := by
  obtain ⟨-, t, rfl⟩ := cstr_eq_some.mp h
  have hle : k ≤ (s ++ [0]).length := by simpa using hk
  have hcut : ∀ u, (s ++ 0 :: u).take k = (s ++ [0]).take k := by
    intro u
    rw [← List.singleton_append, ← List.append_assoc, List.take_append_of_le_length hle]
  rw [hcut dest, hcut t]

/-- `strcpy` to a fresh block brings the first `k` bytes over, whatever the block held before,
when the NUL is not before the last of them. -/
theorem take_strcpy_uninit_iff (h : cstr p = some s) (hs : s.length < n) (hkp : k ≤ p.length)
    (hkn : k ≤ n) :
    (∀ junk, ∃ buff, strcpy (uninit junk n) p = some buff ∧ buff.take k = p.take k) ↔
      k ≤ s.length + 1 := by
  have hcopy : ∀ junk, strcpy (uninit junk n) p =
      some (s ++ 0 :: (uninit junk n).drop (s.length + 1)) := by
    intro junk
    rw [strcpy_eq h, length_uninit, if_pos hs]
  constructor
  · intro hall
    apply Nat.le_of_not_lt
    intro hlt
    -- The byte behind the NUL is left to the block, which may hold another one.
    obtain ⟨y, hy⟩ : ∃ y, p[s.length + 1]? = some y :=
      ⟨_, List.getElem?_eq_getElem (show s.length + 1 < p.length by omega)⟩
    obtain ⟨buff, hbuff, htake⟩ := hall fun _ => y + 1
    rw [hcopy, Option.some.injEq] at hbuff
    subst hbuff
    have hget := congrArg (·[s.length + 1]?) htake
    simp only [List.getElem?_take, hlt, ↓reduceIte, hy] at hget
    rw [List.getElem?_append_right (by omega), Nat.add_sub_cancel_left, List.getElem?_cons_succ,
      List.getElem?_drop, Nat.add_zero, getElem?_uninit _ (by omega)] at hget
    simp at hget
  · intro hk junk
    exact ⟨_, hcopy junk, take_strcpy h hk _⟩

/-- A `char *` into an object that is being written: the bytes of the object
before it, and the bytes from it on. -/
structure Cursor where
  before : Bytes
  after : Bytes
  deriving DecidableEq

namespace Cursor

def start (object : Bytes) : Cursor := ⟨[], object⟩

def object (c : Cursor) : Bytes := c.before ++ c.after

/-- `*p = x; ++p;` -/
def put (x : UInt8) : Cursor → Option Cursor
  | ⟨_, []⟩ => none
  | ⟨before, _ :: after⟩ => some ⟨before ++ [x], after⟩

/-- The bytes of `xs` one after another, as `memcpy` and `sprintf` write them. -/
def write : Bytes → Cursor → Option Cursor
  | [], c => some c
  | x :: xs, c => (c.put x).bind (write xs)

/-- `p + n`. -/
def skip (n : Nat) (c : Cursor) : Option Cursor :=
  if n ≤ c.after.length then some ⟨c.before ++ c.after.take n, c.after.drop n⟩ else none

/-- `while (*p) ++p;` -/
def toNul (c : Cursor) : Option Cursor := (strEnd c.after).bind fun p =>
  c.skip (c.after.length - p.length)

/-- `while (*src) { *dest = *src; ++dest; ++src; }` -/
def copyString : Bytes → Cursor → Option Cursor
  | [], _ => none
  | c :: src, dest => if c = 0 then some dest else (dest.put c).bind (copyString src)

theorem write_eq (xs : Bytes) (c : Cursor) :
    c.write xs =
      if xs.length ≤ c.after.length then some ⟨c.before ++ xs, c.after.drop xs.length⟩
      else none := by
  induction xs generalizing c with
  | nil => simp [write]
  | cons x xs ih =>
    obtain ⟨before, after⟩ := c
    cases after with
    | nil => simp [write, put]
    | cons y after => simp [write, put, ih]

@[simp] theorem write_singleton (x : UInt8) (c : Cursor) : c.write [x] = c.put x := by
  simp [write]

theorem write_append (xs ys : Bytes) (c : Cursor) :
    c.write (xs ++ ys) = (c.write xs).bind (write ys) := by
  induction xs generalizing c with
  | nil => rfl
  | cons x xs ih =>
    simp only [List.cons_append, write]
    cases c.put x with
    | none => rfl
    | some c => simpa using ih c

theorem write_zeros (before xs : Bytes) (n : Nat) :
    (⟨before, zeros n⟩ : Cursor).write xs =
      if xs.length ≤ n then some ⟨before ++ xs, zeros (n - xs.length)⟩ else none := by
  simp [write_eq]

theorem length_object_write (h : write xs c = some d) : d.object.length = c.object.length := by
  rw [write_eq] at h
  split at h
  · simp only [Option.some.injEq] at h
    subst h
    simp only [object, List.length_append, List.length_drop]
    omega
  · simp at h

/-- A copied C string is its contents written: the NUL is not copied. -/
theorem copyString_eq_write (h : cstr src = some s) (dest : Cursor) :
    dest.copyString src = dest.write s := by
  obtain ⟨hs, t, rfl⟩ := cstr_eq_some.mp h
  clear h
  induction s generalizing dest with
  | nil => simp [copyString, write]
  | cons c s ih =>
    simp only [List.mem_cons, not_or] at hs
    simp only [List.cons_append, copyString, Ne.symm hs.1, ↓reduceIte, write]
    cases dest.put c with
    | none => rfl
    | some d => exact ih d hs.2

theorem copyString_eq_none_of_cstr (h : cstr src = none) (dest : Cursor) :
    dest.copyString src = none := by
  induction src generalizing dest with
  | nil => rfl
  | cons c src ih =>
    by_cases hc : c = 0
    · simp [cstr, hc] at h
    · simp only [cstr, hc, ↓reduceIte, Option.map_eq_none_iff] at h
      simp only [copyString, hc, ↓reduceIte]
      cases dest.put c with
      | none => rfl
      | some d => exact ih h d

theorem toNul_eq {c : Cursor} (h : cstr c.after = some s) :
    c.toNul = some ⟨c.before ++ s, c.after.drop s.length⟩ := by
  obtain ⟨-, t, ht⟩ := cstr_eq_some.mp h
  simp only [toNul, strEnd_eq h, Option.bind_some]
  simp [skip, ht]

theorem toNul_zeros (hs : 0 ∉ s) (before : Bytes) (hn : 0 < n) :
    (⟨before, s ++ zeros n⟩ : Cursor).toNul = some ⟨before ++ s, zeros n⟩ := by
  have hcstr : cstr (s ++ zeros n) = some s := by
    rw [eq_zeros_cons hn]
    exact cstr_append hs _
  simp [toNul_eq (c := ⟨before, s ++ zeros n⟩) hcstr]

theorem skip_one_zeros (before : Bytes) (hn : 0 < n) :
    (⟨before, zeros n⟩ : Cursor).skip 1 = some ⟨before ++ [0], zeros (n - 1)⟩ := by
  simp [skip, eq_zeros_cons hn]

end Cursor

end CLib
