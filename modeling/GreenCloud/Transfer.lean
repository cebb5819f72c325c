import GreenCloud.NBDSocket
import Mathlib.Algebra.Group.Int.Defs

/-! `ReadAll` and `WriteAll`, call by call: `read` and `write` return what they like, from an error
to all the bytes they were asked for. -/

namespace GreenCloud.Transfer

open CLib

/-- A system call: what call number `i` returns, and what it does with so many bytes at the
position of `buff`. -/
structure Call (σ : Type) where
  result : Nat → Int
  effect : Nat → Nat → σ → σ

inductive Loop (σ : Type)
  | calling (i position : Nat) (count : UInt32) (state : σ)
  | returned (state : σ)
  | thrown

variable {σ : Type}

/-- The body of both loops, where an `int` takes the result. -/
def Call.turn (c : Call σ) : Loop σ → Loop σ
  | .calling i position count state =>
    if 0 < count then
      let bytes := Int32.ofInt (c.result i)
      if bytes < 0 then .thrown
      else .calling (i + 1) (position + bytes.toNatClampNeg) (count - bytes.toUInt32)
        (c.effect i position state)
    else .returned state
  | loop => loop

def Call.run (c : Call σ) (count : UInt32) (state : σ) : Nat → Loop σ
  | 0 => .calling 0 0 count state
  | n + 1 => c.turn (c.run count state n)

abbrev Memory := Nat → UInt8

/-- `incoming i` is what call number `i` puts at `buff`. -/
def readAll (result : Nat → Int) (incoming : Nat → Memory) : Call Memory where
  result := result
  effect i position mem q :=
    if position ≤ q ∧ q < position + (result i).toNat then incoming i (q - position) else mem q

/-- The state is what has gone out. -/
def writeAll (result : Nat → Int) (mem : Memory) : Call Bytes where
  result := result
  effect i position sent :=
    sent ++ (List.range (result i).toNat).map fun j => mem (position + j)

def moved (result : Nat → Int) : Nat → Nat
  | 0 => 0
  | n + 1 => moved result n + (result n).toNat

/-- An error, or so many bytes that an `int` cannot tell them. -/
def Fails (result : Nat → Int) (i : Nat) : Prop := Int32.ofInt (result i) < 0

def Made (result : Nat → Int) (count : UInt32) (n : Nat) : Prop :=
  (∀ i < n, ¬ Fails result i) ∧ moved result n < count.toNat

/-- What a call can return: an error, or no more bytes than it was asked for. -/
def Admissible (result : Nat → Int) (count : UInt32) : Prop :=
  ∀ n, Made result count n → -2 ^ 31 ≤ result n ∧ result n ≤ count.toNat - moved result n

/-- While bytes are missing, the peer is closed for good. -/
def ClosedEarly (result : Nat → Int) (count : UInt32) : Prop :=
  ∃ n, Made result count n ∧ ∀ m, n ≤ m → result m = 0

def Call.after (c : Call σ) (state : σ) : Nat → σ
  | 0 => state
  | n + 1 => c.effect n (moved c.result n) (c.after state n)

variable {c : Call σ} {result : Nat → Int} {count : UInt32} {state : σ}

theorem ofInt_of_not_fails (hlow : -2 ^ 31 ≤ result n) (hhigh : result n < 2 ^ 32)
    (h : ¬ Fails result n) : 0 ≤ result n ∧
      (Int32.ofInt (result n)).toNatClampNeg = (result n).toNat ∧
      (Int32.ofInt (result n)).toUInt32.toNat = (result n).toNat := by
  have hpos : 0 ≤ result n ∧ result n < 2 ^ 31 := by
    have hsize : (Int32.size : Int) = 2 ^ 32 := rfl
    have hzero : (0 : Int32).toInt = 0 := rfl
    rw [Fails, Int32.lt_iff_toInt_lt, Int32.toInt_ofInt, Int.bmod_def, hsize, hzero] at h
    split at h <;> omega
  have hself := Int32.toInt_ofInt_of_le hlow hpos.2
  refine ⟨hpos.1, congrArg Int.toNat hself, ?_⟩
  change (BitVec.ofInt 32 (result n)).toNat = _
  rw [BitVec.toNat_ofInt, Int.emod_eq_of_lt hpos.1 (by omega)]

theorem fails_of_neg (hlow : -2 ^ 31 ≤ result n) (h : result n < 0) : Fails result n := by
  rw [Fails, Int32.lt_iff_toInt_lt, Int32.toInt_ofInt_of_le hlow (by omega)]
  exact h

theorem not_fails_of_zero (h : result n = 0) : ¬ Fails result n := by
  rw [Fails, h]
  decide

theorem moved_le (result : Nat → Int) (h : n ≤ m) : moved result n ≤ moved result m := by
  induction h with
  | refl => exact Nat.le_refl _
  | step _ ih => exact Nat.le_trans ih (Nat.le_add_right ..)

theorem Made.mono (h : Made result count m) (hle : n ≤ m) : Made result count n :=
  ⟨fun i hi => h.1 i (Nat.lt_of_lt_of_le hi hle), Nat.lt_of_le_of_lt (moved_le result hle) h.2⟩

theorem Made.succ (h : Made result count n) (hfails : ¬ Fails result n)
    (hmissing : moved result (n + 1) < count.toNat) : Made result count (n + 1) := by
  refine ⟨fun i hi => ?_, hmissing⟩
  rcases Nat.lt_succ_iff_lt_or_eq.mp hi with hi | rfl
  · exact h.1 i hi
  · exact hfails

theorem turn_calling (hmade : Made c.result count n) (h : Admissible c.result count)
    (hfails : ¬ Fails c.result n) (hleft : left.toNat = count.toNat - moved c.result n)
    (state : σ) : ∃ left', c.turn (.calling n (moved c.result n) left state) =
        .calling (n + 1) (moved c.result (n + 1)) left'
          (c.effect n (moved c.result n) state) ∧
      moved c.result (n + 1) ≤ count.toNat ∧
      left'.toNat = count.toNat - moved c.result (n + 1) := by
  obtain ⟨hlow, hhigh⟩ := h n hmade
  have hcount := count.toNat_lt
  obtain ⟨hpos, hnat, huint⟩ := ofInt_of_not_fails hlow (by omega) hfails
  have hmissing : 0 < left := by
    rw [UInt32.lt_iff_toNat_lt, hleft]
    exact Nat.sub_pos_of_lt hmade.2
  have hle : (Int32.ofInt (c.result n)).toUInt32 ≤ left := by
    rw [UInt32.le_iff_toNat_le, huint, hleft]
    omega
  refine ⟨left - (Int32.ofInt (c.result n)).toUInt32, ?_, ?_, ?_⟩
  · rw [Call.turn, if_pos hmissing]
    simp only [hnat]
    exact if_neg hfails
  · rw [moved]
    omega
  · rw [UInt32.toNat_sub_of_le _ _ hle, huint, hleft, moved]
    omega

theorem run_eq (h : Admissible c.result count) (state : σ)
    (hmade : ∀ i < n, Made c.result count i ∧ ¬ Fails c.result i) :
    ∃ left, c.run count state n =
        .calling n (moved c.result n) left (c.after state n) ∧
      moved c.result n ≤ count.toNat ∧ left.toNat = count.toNat - moved c.result n := by
  induction n with
  | zero => exact ⟨count, rfl, Nat.zero_le _, rfl⟩
  | succ n ih =>
    obtain ⟨left, hrun, -, hleft⟩ := ih fun i hi => hmade i (Nat.lt_succ_of_lt hi)
    obtain ⟨hn, hfails⟩ := hmade n (Nat.lt_succ_self n)
    rw [Call.run, hrun]
    exact turn_calling hn h hfails hleft _

theorem run_of_made (h : Admissible c.result count) (hmade : Made c.result count n)
    (state : σ) : ∃ left, c.run count state n =
        .calling n (moved c.result n) left (c.after state n) ∧
      moved c.result n ≤ count.toNat ∧ left.toNat = count.toNat - moved c.result n :=
  run_eq h state fun i hi => ⟨hmade.mono (Nat.le_of_lt hi), hmade.1 i hi⟩

theorem run_thrown (h : Admissible c.result count) (hmade : Made c.result count n)
    (hfails : Fails c.result n) (state : σ) : c.run count state (n + 1) = .thrown := by
  obtain ⟨left, hrun, -, hleft⟩ := run_of_made h hmade state
  have hmissing : 0 < left := by
    rw [UInt32.lt_iff_toNat_lt, hleft]
    exact Nat.sub_pos_of_lt hmade.2
  rw [Call.run, hrun, Call.turn, if_pos hmissing]
  exact if_pos hfails

theorem run_returned (h : Admissible c.result count)
    (hmade : ∀ i < n, Made c.result count i ∧ ¬ Fails c.result i)
    (hmoved : moved c.result n = count.toNat) (state : σ) :
    c.run count state (n + 1) = .returned (c.after state n) := by
  obtain ⟨left, hrun, -, hleft⟩ := run_eq h state hmade
  have hnone : ¬ 0 < left := by
    rw [UInt32.lt_iff_toNat_lt, hleft, hmoved, Nat.sub_self]
    exact Nat.lt_irrefl 0
  rw [Call.run, hrun, Call.turn, if_neg hnone]

def Call.Ends (c : Call σ) (count : UInt32) (state : σ) : Prop :=
  ∃ n, c.run count state n = .thrown ∨
    ∃ k, moved c.result k = count.toNat ∧ c.run count state n = .returned (c.after state k)

theorem exists_next (hmade : Made result count n) (h : ∃ m, n ≤ m ∧ result m ≠ 0) :
    ∃ m, n ≤ m ∧ result m ≠ 0 ∧ Made result count m ∧ moved result m = moved result n := by
  obtain ⟨m, hle, hne⟩ := h
  obtain ⟨d, rfl⟩ := Nat.exists_eq_add_of_le hle
  induction d generalizing n with
  | zero => exact ⟨n, Nat.le_refl n, hne, hmade, rfl⟩
  | succ d ih =>
    by_cases hzero : result n = 0
    · have hmoved : moved result (n + 1) = moved result n := by
        rw [moved, hzero]
        rfl
      have hnext := hmade.succ (not_fails_of_zero hzero) (by rw [hmoved]; exact hmade.2)
      obtain ⟨m, hle, hne, hm, hmoved'⟩ :=
        ih hnext (by omega) (by rwa [Nat.add_assoc, Nat.add_comm 1])
      exact ⟨m, Nat.le_of_succ_le hle, hne, hm, hmoved'.trans hmoved⟩
    · exact ⟨n, Nat.le_refl n, hzero, hmade, rfl⟩

theorem ends_of_made (h : Admissible c.result count) (hopen : ¬ ClosedEarly c.result count)
    (state : σ) (hmade : Made c.result count n) : c.Ends count state := by
  -- The measure is the number of bytes that are missing.
  induction hleft : count.toNat - moved c.result n using Nat.strongRecOn generalizing n with
  | ind left ih =>
    have hnext : ∃ m, n ≤ m ∧ c.result m ≠ 0 := by
      by_contra hnone
      refine hopen ⟨n, hmade, fun m hm => ?_⟩
      by_contra hne
      exact hnone ⟨m, hm, hne⟩
    obtain ⟨m, hle, hne, hm, hmoved⟩ := exists_next hmade hnext
    by_cases hfails : Fails c.result m
    · exact ⟨m + 1, .inl (run_thrown h hm hfails state)⟩
    · obtain ⟨hlow, hhigh⟩ := h m hm
      have hpos : 0 < c.result m := by
        rcases Int.lt_trichotomy (c.result m) 0 with hneg | hzero | hpos
        · exact absurd (fails_of_neg hlow hneg) hfails
        · exact absurd hzero hne
        · exact hpos
      have hstep : moved c.result (m + 1) = moved c.result m + (c.result m).toNat := rfl
      have hcalls : ∀ i < m + 1, Made c.result count i ∧ ¬ Fails c.result i := by
        intro i hi
        refine ⟨hm.mono (Nat.le_of_lt_succ hi), ?_⟩
        rcases Nat.lt_succ_iff_lt_or_eq.mp hi with hi | rfl
        · exact hm.1 i hi
        · exact hfails
      by_cases hall : moved c.result (m + 1) = count.toNat
      · exact ⟨m + 2, .inr ⟨m + 1, hall, run_returned h hcalls hall state⟩⟩
      · have hmore : Made c.result count (m + 1) := hm.succ hfails (by omega)
        have hlt := hmade.2
        exact ih _ (by omega) hmore rfl

theorem not_closedEarly_of_end (h : Admissible c.result count)
    (hend : c.run count state n = .thrown ∨ ∃ t, c.run count state n = .returned t) :
    ¬ ClosedEarly c.result count := by
  rintro ⟨closed, hmade, hzero⟩
  have hcalls : ∀ m, Made c.result count (closed + m) := by
    intro m
    induction m with
    | zero => exact hmade
    | succ m ih =>
      have hzero := hzero (closed + m) (Nat.le_add_right ..)
      refine ih.succ (not_fails_of_zero hzero) ?_
      rw [moved, hzero]
      exact ih.2
  obtain ⟨left, hrun, -⟩ := run_of_made h ((hcalls n).mono (Nat.le_add_left n closed)) state
  rw [hrun] at hend
  rcases hend with hend | ⟨t, hend⟩
  · cases hend
  · cases hend

theorem ends (h : Admissible c.result count) (hopen : ¬ ClosedEarly c.result count)
    (state : σ) : c.Ends count state := by
  by_cases hmade : Made c.result count 0
  · exact ends_of_made h hopen state hmade
  · have hzero : count.toNat = 0 := by
      by_contra hne
      exact hmade ⟨nofun, Nat.pos_of_ne_zero hne⟩
    have hmoved : moved c.result 0 = count.toNat := hzero.symm
    have hrun := run_returned h (fun i hi => absurd hi (Nat.not_lt_zero i)) hmoved state
    exact ⟨1, .inr ⟨0, hmoved, hrun⟩⟩

def received (result : Nat → Int) (incoming : Nat → Memory) : Nat → Bytes
  | 0 => []
  | n + 1 => received result incoming n ++ (List.range (result n).toNat).map (incoming n)

theorem after_readAll (result : Nat → Int) (incoming : Nat → Memory) (mem : Memory) (n : Nat) :
    (List.range (moved result n)).map ((readAll result incoming).after mem n) =
        received result incoming n ∧
      ∀ q, moved result n ≤ q → (readAll result incoming).after mem n q = mem q := by
  induction n with
  | zero => exact ⟨rfl, fun _ _ => rfl⟩
  | succ n ih =>
    obtain ⟨hreceived, hframe⟩ := ih
    constructor
    · rw [moved, List.range_add, List.map_append, List.map_map, received, ← hreceived]
      congr 1
      · refine List.map_congr_left fun q hq => if_neg fun hin => ?_
        exact Nat.not_lt_of_le hin.1 (List.mem_range.mp hq)
      · refine List.map_congr_left fun j hj => ?_
        rw [Function.comp_apply]
        refine (if_pos ⟨Nat.le_add_right .., Nat.add_lt_add_left (List.mem_range.mp hj) _⟩).trans ?_
        exact congrArg (incoming n) (Nat.add_sub_cancel_left ..)
    · intro q hq
      refine (if_neg fun hin => Nat.not_lt_of_le hq hin.2).trans (hframe q ?_)
      exact Nat.le_trans (moved_le result (Nat.le_succ n)) hq

theorem after_writeAll (result : Nat → Int) (mem : Memory) (sent : Bytes) (n : Nat) :
    (writeAll result mem).after sent n = sent ++ (List.range (moved result n)).map mem := by
  induction n with
  | zero => exact (List.append_nil sent).symm
  | succ n ih =>
    rw [moved, List.range_add, List.map_append, List.map_map, ← List.append_assoc, ← ih]
    rfl

/-- `ReadAll` throws, or returns with the bytes it received one behind the other at `buff`, as many
as it was asked for. -/
def Reads (result : Nat → Int) (incoming : Nat → Memory) (count : UInt32) (mem : Memory) : Prop :=
  ∃ n, (readAll result incoming).run count mem n = .thrown ∨
    ∃ mem' k, (readAll result incoming).run count mem n = .returned mem' ∧
      (List.range count.toNat).map mem' = received result incoming k ∧
      ∀ q, count.toNat ≤ q → mem' q = mem q

/-- `WriteAll` throws, or returns with the bytes at `buff` sent in order, as many as it was asked
for. -/
def Writes (result : Nat → Int) (mem : Memory) (count : UInt32) (sent : Bytes) : Prop :=
  ∃ n, (writeAll result mem).run count sent n = .thrown ∨
    (writeAll result mem).run count sent n = .returned (sent ++ (List.range count.toNat).map mem)

theorem not_reads (h : Admissible result count) (hclosed : ClosedEarly result count)
    (incoming : Nat → Memory) (mem : Memory) : ¬ Reads result incoming count mem := by
  rintro ⟨n, hend⟩
  have hend : (readAll result incoming).run count mem n = .thrown ∨
      ∃ t, (readAll result incoming).run count mem n = .returned t :=
    hend.imp_right fun ⟨mem', _, hend, _⟩ => ⟨mem', hend⟩
  exact not_closedEarly_of_end (c := readAll result incoming) h hend hclosed

theorem not_writes (h : Admissible result count) (hclosed : ClosedEarly result count)
    (mem : Memory) (sent : Bytes) : ¬ Writes result mem count sent := by
  rintro ⟨n, hend⟩
  have hend : (writeAll result mem).run count sent n = .thrown ∨
      ∃ t, (writeAll result mem).run count sent n = .returned t :=
    hend.imp_right fun hend => ⟨_, hend⟩
  exact not_closedEarly_of_end (c := writeAll result mem) h hend hclosed

/-- Whatever the calls return, both loops end as they should if and only if the peer does not close
while bytes are missing. -/
theorem all_iff (h : Admissible result count) (incoming : Nat → Memory) (mem : Memory)
    (sent : Bytes) :
    (Reads result incoming count mem ↔ ¬ ClosedEarly result count) ∧
    (Writes result mem count sent ↔ ¬ ClosedEarly result count) := by
  refine ⟨⟨fun hreads hclosed => not_reads h hclosed incoming mem hreads, fun hopen => ?_⟩,
    fun hwrites hclosed => not_writes h hclosed mem sent hwrites, fun hopen => ?_⟩
  · obtain ⟨n, hend⟩ := ends (c := readAll result incoming) h hopen mem
    rcases hend with hend | ⟨k, hmoved, hend⟩
    · exact ⟨n, .inl hend⟩
    · obtain ⟨hreceived, hframe⟩ := after_readAll result incoming mem k
      rw [show moved result k = count.toNat from hmoved] at hreceived hframe
      exact ⟨n, .inr ⟨_, k, hend, hreceived, hframe⟩⟩
  · obtain ⟨n, hend⟩ := ends (c := writeAll result mem) h hopen sent
    rcases hend with hend | ⟨k, hmoved, hend⟩
    · exact ⟨n, .inl hend⟩
    · rw [after_writeAll, show moved result k = count.toNat from hmoved] at hend
      exact ⟨n, .inr hend⟩

def oneByOne (n i : Nat) : Int := if i < n then 1 else 0

theorem moved_oneByOne (n : Nat) (h : i ≤ n) : moved (oneByOne n) i = i := by
  induction i with
  | zero => rfl
  | succ i ih =>
    rw [moved, ih (Nat.le_of_succ_le h), oneByOne, if_pos (Nat.lt_of_succ_le h)]
    rfl

theorem admissible_oneByOne (n : Nat) (count : UInt32) : Admissible (oneByOne n) count := by
  intro i hi
  have hlt := hi.2
  rw [oneByOne]
  split
  · rename_i hin
    rw [moved_oneByOne n (Nat.le_of_lt hin)] at hlt ⊢
    omega
  · omega

theorem all_two : Reads (oneByOne 2) (fun i _ => .ofNat i) 2 (fun _ => 9) ∧
    Writes (oneByOne 2) (fun _ => 9) 2 [] := by
  have hopen : ¬ ClosedEarly (oneByOne 2) 2 := by
    rintro ⟨n, hmade, hzero⟩
    have hlt : moved (oneByOne 2) n < 2 := hmade.2
    by_cases hn : n < 2
    · have hone := hzero n (Nat.le_refl n)
      rw [oneByOne, if_pos hn] at hone
      cases hone
    · have hmoved := moved_le (oneByOne 2) (Nat.le_of_not_lt hn)
      rw [moved_oneByOne 2 (Nat.le_refl 2)] at hmoved
      omega
  have hall := all_iff (admissible_oneByOne 2 2) (fun i _ => .ofNat i) (fun _ => 9) []
  exact ⟨hall.1.mpr hopen, hall.2.mpr hopen⟩

/-- The peer closes in the middle of two bytes: neither loop ends. -/
theorem never_ends : Admissible (oneByOne 1) 2 ∧
    (∀ incoming mem, ¬ Reads (oneByOne 1) incoming 2 mem) ∧
    ∀ mem sent, ¬ Writes (oneByOne 1) mem 2 sent := by
  have hadmissible := admissible_oneByOne 1 2
  have hclosed : ClosedEarly (oneByOne 1) 2 := by
    refine ⟨1, ⟨fun i hi => ?_, by decide⟩, fun m hm => if_neg (Nat.not_lt_of_le hm)⟩
    obtain rfl : i = 0 := Nat.lt_one_iff.mp hi
    rw [Fails]
    decide
  exact ⟨hadmissible, fun incoming mem => not_reads hadmissible hclosed incoming mem,
    fun mem sent => not_writes hadmissible hclosed mem sent⟩

open NBDDriverProxy

def got (count : Nat) (socket : List Bytes) : Nat → Bytes
  | 0 => (readSocket count socket).1
  | i + 1 => got (count - (readSocket count socket).1.length) (readSocket count socket).2 i

def socketResult (count : Nat) (socket : List Bytes) (i : Nat) : Int := (got count socket i).length

def socketIncoming (count : Nat) (socket : List Bytes) (i j : Nat) : UInt8 :=
  (got count socket i).getD j 0

theorem moved_succ (result : Nat → Int) (n : Nat) :
    moved result (n + 1) = (result 0).toNat + moved (fun i => result (i + 1)) n := by
  induction n with
  | zero => exact Nat.add_comm ..
  | succ n ih => rw [moved, ih, moved, Nat.add_assoc]

theorem received_succ (result : Nat → Int) (incoming : Nat → Memory) (n : Nat) :
    received result incoming (n + 1) = (List.range (result 0).toNat).map (incoming 0) ++
      received (fun i => result (i + 1)) (fun i => incoming (i + 1)) n := by
  induction n with
  | zero => exact (List.append_nil _).symm
  | succ n ih => rw [received, ih, received, List.append_assoc]

theorem map_getD_range (p : Bytes) : (List.range p.length).map (p.getD · 0) = p := by
  apply List.ext_getElem?
  intro i
  rw [List.getElem?_map]
  by_cases hi : i < p.length
  · rw [List.getElem?_range hi, Option.map_some, List.getD_eq_getElem?_getD,
      List.getElem?_eq_getElem hi, Option.getD_some]
  · rw [List.getElem?_eq_none (by rw [List.length_range]; omega), List.getElem?_eq_none (by omega)]
    rfl

theorem moved_socket_succ (count : Nat) (socket : List Bytes) (n : Nat) :
    moved (socketResult count socket) (n + 1) = (readSocket count socket).1.length +
      moved (socketResult (count - (readSocket count socket).1.length)
        (readSocket count socket).2) n :=
  moved_succ ..

theorem received_socket_succ (count : Nat) (socket : List Bytes) (n : Nat) :
    received (socketResult count socket) (socketIncoming count socket) (n + 1) =
      (readSocket count socket).1 ++
        received (socketResult (count - (readSocket count socket).1.length)
            (readSocket count socket).2)
          (socketIncoming (count - (readSocket count socket).1.length)
            (readSocket count socket).2) n := by
  have hfirst := map_getD_range (readSocket count socket).1
  rw [received_succ]
  exact congrArg (· ++ _) hfirst

theorem moved_got_le (count : Nat) (socket : List Bytes) (n : Nat) :
    moved (socketResult count socket) n + (got count socket n).length ≤ count := by
  induction n generalizing count socket with
  | zero =>
    rw [moved, Nat.zero_add]
    exact length_readSocket_le count socket
  | succ n ih =>
    have hle := length_readSocket_le count socket
    have hrest := ih (count - (readSocket count socket).1.length) (readSocket count socket).2
    rw [moved_socket_succ, got]
    omega

theorem admissible_socket (count : UInt32) (socket : List Bytes) :
    Admissible (socketResult count.toNat socket) count := by
  intro n hmade
  have hle := moved_got_le count.toNat socket n
  rw [socketResult]
  omega

theorem not_fails_socket {count : Nat} (hcount : count < 2 ^ 31) (socket : List Bytes) (n : Nat) :
    ¬ Fails (socketResult count socket) n := by
  have hle := moved_got_le count socket n
  have hint : (Int32.ofInt (socketResult count socket n)).toInt = socketResult count socket n := by
    apply Int32.toInt_ofInt_of_le
    · rw [socketResult]
      omega
    · rw [socketResult]
      omega
  have hzero : (0 : Int32).toInt = 0 := rfl
  rw [Fails, Int32.lt_iff_toInt_lt, hint, hzero, socketResult]
  omega

theorem calls_of_some {count : Nat} (h : readAllSocket count socket = some (payload, rest)) :
    ∃ n, moved (socketResult count socket) n = count ∧
      received (socketResult count socket) (socketIncoming count socket) n = payload ∧
      ∀ i < n, moved (socketResult count socket) i < count := by
  induction count, socket using readAllSocket.induct generalizing payload with
  | case1 socket =>
    rw [readAllSocket, if_pos rfl] at h
    cases h
    exact ⟨0, rfl, rfl, fun i hi => absurd hi (Nat.not_lt_zero i)⟩
  | case2 count socket hcount rest' hread =>
    rw [readAllSocket, if_neg hcount] at h
    simp [hread] at h
  | case3 count socket hcount first rest' hread hfirst ih =>
    have hle := length_readSocket_le count socket
    have hmoved := moved_socket_succ count socket
    have hreceived := received_socket_succ count socket
    rw [readAllSocket, if_neg hcount] at h
    simp only [hread, hfirst, ↓reduceDIte, Option.map_eq_some_iff] at h
    simp only [hread] at hle hmoved hreceived
    obtain ⟨⟨more, rest''⟩, hmore, heq⟩ := h
    cases heq
    obtain ⟨n, hn, hbytes, hbefore⟩ := ih hmore
    refine ⟨n + 1, ?_, ?_, fun i hi => ?_⟩
    · rw [hmoved, hn]
      omega
    · rw [hreceived, hbytes]
    · cases i with
      | zero => exact Nat.pos_of_ne_zero hcount
      | succ i =>
        have hlt := hbefore i (Nat.lt_of_succ_lt_succ hi)
        rw [hmoved]
        omega

theorem calls_of_none {count : Nat} (hne : ∀ piece ∈ socket, piece ≠ [])
    (h : readAllSocket count socket = none) :
    ∃ n, moved (socketResult count socket) n < count ∧
      ∀ m, n ≤ m → socketResult count socket m = 0 := by
  induction count, socket using readAllSocket.induct with
  | case1 socket =>
    rw [readAllSocket, if_pos rfl] at h
    cases h
  | case2 count socket hcount rest hread =>
    have hend : socket = [] := by
      by_contra hsocket
      have hsome := readSocket_ne_nil (Nat.pos_of_ne_zero hcount) hne hsocket
      rw [hread] at hsome
      exact hsome rfl
    subst hend
    have hnone : ∀ count m, got count [] m = [] := by
      intro count m
      induction m generalizing count with
      | zero => rfl
      | succ m ih => exact ih _
    refine ⟨0, Nat.pos_of_ne_zero hcount, fun m _ => ?_⟩
    rw [socketResult, hnone]
    rfl
  | case3 count socket hcount first rest hread hfirst ih =>
    have hle := length_readSocket_le count socket
    have hmoved := moved_socket_succ count socket
    have hrest := (readSocket_consumed count socket).ne_nil hne
    rw [readAllSocket, if_neg hcount] at h
    simp only [hread, hfirst, ↓reduceDIte, Option.map_eq_none_iff] at h
    simp only [hread] at hle hmoved hrest
    obtain ⟨n, hn, hzero⟩ := ih hrest h
    refine ⟨n + 1, ?_, fun m hm => ?_⟩
    · rw [hmoved]
      omega
    · cases m with
      | zero => exact absurd hm (Nat.not_succ_le_zero n)
      | succ m =>
        have hm := hzero m (Nat.le_of_succ_le_succ hm)
        rw [socketResult, got, hread]
        exact hm

/-- The two models of `ReadAll` agree: the loop on a socket ends with the payload where there is
one, and the peer is closed early where there is none. -/
theorem readAllSocket_calls (hne : ∀ piece ∈ socket, piece ≠ []) (hcount : count.toNat < 2 ^ 31)
    (mem : Memory) :
    (∀ payload rest, readAllSocket count.toNat socket = some (payload, rest) →
      ∃ n mem', (readAll (socketResult count.toNat socket) (socketIncoming count.toNat socket)).run
        count mem n = .returned mem' ∧ (List.range count.toNat).map mem' = payload) ∧
    (readAllSocket count.toNat socket = none →
      ClosedEarly (socketResult count.toNat socket) count) := by
  have hfails := not_fails_socket hcount socket
  refine ⟨fun payload rest h => ?_, fun h => ?_⟩
  · obtain ⟨n, hmoved, hreceived, hbefore⟩ := calls_of_some h
    have hmade : ∀ i < n, Made (socketResult count.toNat socket) count i ∧
        ¬ Fails (socketResult count.toNat socket) i :=
      fun i hi => ⟨⟨fun j _ => hfails j, hbefore i hi⟩, hfails i⟩
    have hrun := run_returned
      (c := readAll (socketResult count.toNat socket) (socketIncoming count.toNat socket))
      (admissible_socket count socket) hmade hmoved mem
    refine ⟨_, _, hrun, ?_⟩
    have hafter := (after_readAll (socketResult count.toNat socket)
      (socketIncoming count.toNat socket) mem n).1
    rw [hmoved, hreceived] at hafter
    exact hafter
  · obtain ⟨n, hmissing, hzero⟩ := calls_of_none hne h
    exact ⟨n, ⟨fun i _ => hfails i, hmissing⟩, hzero⟩

end GreenCloud.Transfer
