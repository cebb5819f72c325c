import GreenCloud.Replay
import GreenCloud.Slaves
import Mathlib.Data.List.Induction

/-! The handshake in `SlaveData`: the loop that waits for the hello of a slave. -/

namespace GreenCloud.Handshake

open CLib Replay

/-- The locals of the constructor: `runner` is an index of `buff`. -/
structure State where
  buff : Bytes
  runner : Nat
  cliaddr : SockAddr

def State.init : State := ⟨zeros buffSize, 0, ⟨0, 0⟩⟩

def recvfrom (datagram buff : Bytes) : Bytes :=
  datagram.take buff.length ++ buff.drop datagram.length

/-- One turn of the loop, and whether `strcmp` ends it. `none` is a read outside `buff`. -/
def turn (s : State) (datagram : Bytes) (sender : SockAddr) : Option (Bool × State) := do
  let buff := recvfrom datagram s.buff
  let runner ← skipPast 0 (buff.drop s.runner)
  let differs ← strcmp runner (magicStr ++ [0])
  return (differs = 0, ⟨buff, buff.length - runner.length, sender⟩)

/-- What becomes of the constructor; `rest` is what the socket has not handed out. -/
inductive Outcome
  | outside
  | waiting
  | accepted (cliaddr : SockAddr) (rest : List (Bytes × SockAddr))

def slaveData (s : State) : List (Bytes × SockAddr) → Outcome
  | [] => .waiting
  | (datagram, sender) :: rest =>
    match turn s datagram sender with
    | none => .outside
    | some (true, s) => .accepted s.cliaddr rest
    | some (false, s) => slaveData s rest

/-- The datagram that `RunSlave` sends. -/
def IsHello (datagram : Bytes) : Prop :=
  ∃ fresh data after, hello fresh = some data ∧
    SlaveDriverProxy.sendReply data after = some datagram

/-- The byte of `buff` at a position: that of the latest datagram that is long enough. The newest is
the first. -/
def contents : List Bytes → Nat → UInt8
  | [], _ => 0
  | datagram :: earlier, p => datagram[p]?.getD (contents earlier p)

def MagicAt (earlier : List Bytes) (p : Nat) : Prop :=
  ∀ i c, (magicStr ++ [0])[i]? = some c → contents earlier (p + i) = c

/-- Each datagram, the newest first, has the next NUL after the one before among the bytes of the
hello's header, and no `MAGIC_STR` behind it. -/
inductive InHeader : List Bytes → Nat → Prop
  | start : InHeader [] 0
  | next (n : Nat) : InHeader earlier r → r ≤ n → n < 6 →
      contents (datagram :: earlier) n = 0 →
      (∀ m, r ≤ m → m < n → contents (datagram :: earlier) m ≠ 0) →
      ¬ MagicAt (datagram :: earlier) (n + 1) →
      InHeader (datagram :: earlier) (n + 1)

def history (before : List (Bytes × SockAddr)) : List Bytes := (before.map Prod.fst).reverse

def rejectAll (s : State) : List (Bytes × SockAddr) → Option State
  | [] => some s
  | (datagram, sender) :: rest =>
    match turn s datagram sender with
    | some (false, s) => rejectAll s rest
    | _ => none

variable {s s' : State} {earlier : List Bytes} {before rest after : List (Bytes × SockAddr)}

structure Holds (s : State) (earlier : List Bytes) : Prop where
  length : s.buff.length = buffSize
  getElem? : ∀ p < buffSize, s.buff[p]? = some (contents earlier p)

theorem holds_init : Holds .init [] where
  length := length_zeros buffSize
  getElem? _ hp := List.getElem?_replicate_of_lt hp

theorem length_recvfrom (datagram buff : Bytes) :
    (recvfrom datagram buff).length = buff.length := by
  simp only [recvfrom, List.length_append, List.length_take, List.length_drop]
  omega

theorem getElem?_recvfrom (datagram : Bytes) {buff : Bytes} {p : Nat} (hp : buff[p]? = some c) :
    (recvfrom datagram buff)[p]? = some (datagram[p]?.getD c) := by
  have hlt : p < buff.length := (List.getElem?_eq_some_iff.mp hp).1
  rw [recvfrom, List.getElem?_append, List.length_take]
  by_cases hin : p < datagram.length
  · rw [if_pos (by omega), List.getElem?_take_of_lt hlt, List.getElem?_eq_getElem hin,
      Option.getD_some]
  · have hnone : datagram[p]? = none := List.getElem?_eq_none (by omega)
    rw [if_neg (by omega), hnone, Option.getD_none, List.getElem?_drop, ← hp]
    congr 1
    omega

theorem Holds.recvfrom (h : Holds s earlier) (datagram : Bytes) (runner : Nat) (sender : SockAddr) :
    Holds ⟨Handshake.recvfrom datagram s.buff, runner, sender⟩ (datagram :: earlier) where
  length := (length_recvfrom ..).trans h.length
  getElem? p hp := getElem?_recvfrom datagram (h.getElem? p hp)

theorem Holds.magicAt_iff (h : Holds s earlier) (hp : p + magicStr.length < buffSize) :
    (s.buff.drop p).take (magicStr.length + 1) = magicStr ++ [0] ↔ MagicAt earlier p := by
  have hget : ∀ i < magicStr.length + 1, ((s.buff.drop p).take (magicStr.length + 1))[i]? =
      some (contents earlier (p + i)) := fun i hi => by
    rw [List.getElem?_take_of_lt hi, List.getElem?_drop]
    exact h.getElem? _ (by omega)
  constructor
  · intro heq i c hi
    have hlt : i < (magicStr ++ [0]).length := (List.getElem?_eq_some_iff.mp hi).1
    rw [List.length_append, List.length_singleton] at hlt
    rw [← heq, hget i hlt] at hi
    exact Option.some.inj hi
  · intro hmagic
    apply List.ext_getElem?
    intro i
    by_cases hi : i < magicStr.length + 1
    · have hlt : i < (magicStr ++ [0]).length := by
        rw [List.length_append, List.length_singleton]
        exact hi
      rw [hget i hi, hmagic i _ (List.getElem?_eq_getElem hlt), List.getElem?_eq_getElem hlt]
    · rw [List.getElem?_eq_none, List.getElem?_eq_none]
      · rw [List.length_append, List.length_singleton]
        omega
      · rw [List.length_take]
        omega

theorem exists_of_turn (h : turn s datagram sender = some (b, s')) :
    ∃ n, s.runner ≤ n ∧ (recvfrom datagram s.buff)[n]? = some 0 ∧
      (∀ m, s.runner ≤ m → m < n → (recvfrom datagram s.buff)[m]? ≠ some 0) ∧
      s' = ⟨recvfrom datagram s.buff, n + 1, sender⟩ ∧
      ∃ i, strcmp ((recvfrom datagram s.buff).drop (n + 1)) (magicStr ++ [0]) = some i ∧
        b = decide (i = 0) := by
  simp only [turn, Option.bind_eq_bind, Option.bind_eq_some_iff] at h
  obtain ⟨runner, hscan, i, hcmp, h⟩ := h
  obtain ⟨n, hle, hn, hmin, rfl⟩ := exists_of_skipPast hscan
  have hlt : n < (recvfrom datagram s.buff).length := (List.getElem?_eq_some_iff.mp hn).1
  obtain ⟨rfl, rfl⟩ := Prod.mk.inj (Option.some.inj h)
  refine ⟨n, hle, hn, hmin, ?_, i, hcmp, rfl⟩
  rw [List.length_drop, Nat.sub_sub_self (by omega)]

theorem exists_turn (datagram : Bytes) (sender : SockAddr) (hle : s.runner ≤ n)
    (hn : (recvfrom datagram s.buff)[n]? = some 0)
    (hmin : ∀ m, s.runner ≤ m → m < n → (recvfrom datagram s.buff)[m]? ≠ some 0)
    (hroom : n + 1 + magicStr.length < s.buff.length) :
    turn s datagram sender = some (decide (((recvfrom datagram s.buff).drop (n + 1)).take
      (magicStr.length + 1) = magicStr ++ [0]), ⟨recvfrom datagram s.buff, n + 1, sender⟩) := by
  have hlength := length_recvfrom datagram s.buff
  obtain ⟨i, hi, hiff⟩ := strcmp_eq (q := magicStr) (p := (recvfrom datagram s.buff).drop (n + 1))
    (by decide) (by rw [List.length_drop]; omega)
  simp only [turn, skipPast_drop hle hn hmin, hi, Option.bind_eq_bind, Option.bind_some, hiff]
  rw [List.length_drop, Nat.sub_sub_self (by omega)]
  rfl

theorem Holds.turn (h : Holds s earlier) (datagram : Bytes) (sender : SockAddr)
    (hle : s.runner ≤ n) (hroom : n + 1 + magicStr.length < buffSize)
    (hzero : contents (datagram :: earlier) n = 0)
    (hmin : ∀ m, s.runner ≤ m → m < n → contents (datagram :: earlier) m ≠ 0)
    (hmagic : ¬ MagicAt (datagram :: earlier) (n + 1)) :
    turn s datagram sender = some (false, ⟨Handshake.recvfrom datagram s.buff, n + 1, sender⟩) := by
  have hholds := h.recvfrom datagram (n + 1) sender
  have hturn := exists_turn datagram sender hle
    (by rw [hholds.getElem? n (by omega), hzero])
    (fun m hm hlt heq => by
      rw [hholds.getElem? m (by omega), Option.some.injEq] at heq
      exact hmin m hm hlt heq)
    (by rw [h.length]; exact hroom)
  rw [decide_eq_false fun heq => hmagic ((hholds.magicAt_iff hroom).mp heq)] at hturn
  exact hturn

theorem eq_of_isHello (h : IsHello datagram) : datagram = helloDatagram := by
  obtain ⟨fresh, data, after, hhello, hsend⟩ := h
  rw [sendReply_hello hhello after, Option.some.injEq] at hsend
  exact hsend.symm

/-- What the hello leaves in the buffer: its last byte does not fit. -/
theorem recvfrom_hello (h : IsHello datagram) {buff : Bytes} (hbuff : buff.length = buffSize) :
    ∃ n, 0 < n ∧ recvfrom datagram buff =
      SlaveDriverProxy.replyHeader 0 0 .read ++ 0 :: (magicStr ++ zeros n) := by
  have hfront : (SlaveDriverProxy.replyHeader 0 0 .read ++ 0 :: magicStr).length =
      7 + magicStr.length := by decide
  have hroom : 7 + magicStr.length < buffSize := by decide
  have hsplit : datagram = (SlaveDriverProxy.replyHeader 0 0 .read ++ 0 :: magicStr) ++
      zeros (buffSize - (6 + magicStr.length)) := by
    rw [eq_of_isHello h, helloDatagram, List.append_assoc, List.cons_append]
  refine ⟨buffSize - (7 + magicStr.length), by omega, ?_⟩
  rw [recvfrom, hbuff, List.drop_eq_nil_of_le, List.append_nil, hsplit, List.take_append, hfront,
    List.take_of_length_le (by omega), zeros, List.take_replicate, ← zeros, List.append_assoc,
    List.cons_append]
  · congr 4
  · rw [hbuff, hsplit, List.length_append, hfront, length_zeros]
    omega

theorem turn_hello (h : IsHello datagram) (hbuff : s.buff.length = buffSize) (hr : s.runner ≤ 6)
    (sender : SockAddr) : ∃ s', turn s datagram sender = some (true, s') ∧ s'.cliaddr = sender := by
  obtain ⟨n, hpos, hrecv⟩ := recvfrom_hello h hbuff
  have hheader : ∀ m < 6, (SlaveDriverProxy.replyHeader 0 0 .read)[m]? ≠ some 0 := by decide
  have hlen : (SlaveDriverProxy.replyHeader 0 0 .read).length = 6 := by decide
  have hturn := exists_turn (n := 6) datagram sender hr
    (by rw [hrecv, List.getElem?_append_right (by rw [hlen]), hlen]; rfl)
    (fun m _ hm => by
      rw [hrecv, List.getElem?_append_left (by rw [hlen]; exact hm)]
      exact hheader m hm)
    (by rw [hbuff]; decide)
  refine ⟨⟨recvfrom datagram s.buff, 7, sender⟩, hturn.trans ?_, rfl⟩
  have hmagic : (magicStr ++ zeros n).take (magicStr.length + 1) = magicStr ++ [0] := by
    rw [eq_zeros_cons hpos, List.append_cons]
    exact List.take_left' (List.length_append ..)
  rw [decide_eq_true]
  rw [hrecv, ← hlen, List.drop_length_add_append, List.drop_one, List.tail_cons, hmagic]

/-- Behind the header, the scan ends in the zeros behind `MAGIC_STR`. -/
theorem turn_hello_of_lt (h : IsHello datagram) (hbuff : s.buff.length = buffSize)
    (hr : 6 < s.runner) (sender : SockAddr) : turn s datagram sender ≠ some (true, s') := by
  intro hturn
  obtain ⟨k, -, hrecv⟩ := recvfrom_hello h hbuff
  obtain ⟨n, hle, hn, -, -, i, hcmp, hi⟩ := exists_of_turn hturn
  have hfront : (SlaveDriverProxy.replyHeader 0 0 .read ++ 0 :: magicStr).length =
      7 + magicStr.length := by decide
  have hmagic : ∀ m < 7 + magicStr.length, 6 < m →
      (SlaveDriverProxy.replyHeader 0 0 .read ++ 0 :: magicStr)[m]? ≠ some 0 := by decide
  rw [← List.cons_append, ← List.append_assoc] at hrecv
  have hbehind : 7 + magicStr.length ≤ n := by
    apply Nat.le_of_not_lt
    intro hlt
    rw [hrecv, List.getElem?_append_left (by rw [hfront]; exact hlt)] at hn
    exact hmagic n hlt (Nat.lt_of_lt_of_le hr hle) hn
  rw [hrecv, List.drop_append, List.drop_eq_nil_of_le (by omega), List.nil_append, drop_zeros]
    at hcmp
  cases hzeros : k - (n + 1 - (SlaveDriverProxy.replyHeader 0 0 .read ++ 0 :: magicStr).length) with
  | zero =>
    rw [hzeros] at hcmp
    cases hcmp
  | succ j =>
    rw [hzeros] at hcmp
    obtain ⟨i', hi', hne⟩ :=
      strcmp_cons_of_ne (show (0 : UInt8) ≠ 89 by decide) (zeros j) (magicStr ++ [0]).tail
    obtain rfl : i = i' := Option.some.inj (hcmp.symm.trans hi')
    rw [decide_eq_false hne] at hi
    cases hi

theorem slaveData_cons (h : turn s datagram sender = some (false, s'))
    (rest : List (Bytes × SockAddr)) :
    slaveData s ((datagram, sender) :: rest) = slaveData s' rest := by
  rw [slaveData, h]

theorem rejectAll_append (s : State) (before after : List (Bytes × SockAddr)) :
    rejectAll s (before ++ after) = (rejectAll s before).bind (rejectAll · after) := by
  induction before generalizing s with
  | nil => rfl
  | cons first before ih =>
    obtain ⟨datagram, sender⟩ := first
    simp only [List.cons_append, rejectAll]
    split
    · exact ih _
    · rfl

theorem rejectAll_concat : rejectAll s (before ++ [(datagram, sender)]) = some s' ↔
    ∃ t, rejectAll s before = some t ∧ turn t datagram sender = some (false, s') := by
  rw [rejectAll_append, Option.bind_eq_some_iff]
  refine exists_congr fun t => and_congr_right fun _ => ?_
  simp only [rejectAll]
  split
  · simp_all
  · simp_all

theorem length_rest_lt {l : List (Bytes × SockAddr)}
    (h : slaveData s l = .accepted cliaddr rest) : rest.length < l.length := by
  induction l generalizing s with
  | nil => cases h
  | cons first l ih =>
    rw [slaveData] at h
    split at h
    · cases h
    · cases h
      exact Nat.lt_succ_self _
    · exact Nat.lt_succ_of_lt (ih h)

theorem slaveData_append {l : List (Bytes × SockAddr)} (hrest : rest.length < l.length) :
    slaveData s (before ++ l) = .accepted cliaddr rest ↔
      ∃ s', rejectAll s before = some s' ∧ slaveData s' l = .accepted cliaddr rest := by
  induction before generalizing s with
  | nil => exact ⟨fun h => ⟨s, rfl, h⟩, by rintro ⟨_, ⟨⟩, h⟩; exact h⟩
  | cons first before ih =>
    obtain ⟨datagram, sender⟩ := first
    rw [List.cons_append, slaveData, rejectAll]
    rcases hturn : turn s datagram sender with _ | ⟨_ | _, s'⟩
    · exact ⟨nofun, nofun⟩
    · exact ih
    · refine ⟨fun h => ?_, nofun⟩
      cases h
      rw [List.length_append] at hrest
      omega

theorem history_concat : history (before ++ [(datagram, sender)]) = datagram :: history before := by
  simp [history]

theorem holds_of_rejectAll (h : rejectAll .init before = some s) : Holds s (history before) := by
  induction before using List.reverseRecOn generalizing s with
  | nil =>
    cases h
    exact holds_init
  | append_singleton before last ih =>
    obtain ⟨t, ht, hturn⟩ := rejectAll_concat.mp h
    obtain ⟨n, -, -, -, rfl, -⟩ := exists_of_turn hturn
    rw [history_concat]
    exact (ih ht).recvfrom ..

theorem InHeader.le_six (h : InHeader earlier r) : r ≤ 6 := by
  cases h with
  | start => exact Nat.zero_le 6
  | next n _ _ hn => exact hn

theorem InHeader.length_le (h : InHeader earlier r) : earlier.length ≤ r := by
  induction h with
  | start => exact Nat.le_refl 0
  | next n _ hle _ _ _ _ ih => exact Nat.succ_le_succ (Nat.le_trans ih hle)

theorem inHeader_of_rejectAll (h : rejectAll .init before = some s) (hr : s.runner ≤ 6) :
    InHeader (history before) s.runner := by
  induction before using List.reverseRecOn generalizing s with
  | nil =>
    cases h
    exact .start
  | append_singleton before last ih =>
    obtain ⟨datagram, sender⟩ := last
    obtain ⟨t, ht, hturn⟩ := rejectAll_concat.mp h
    obtain ⟨n, hle, hn, hmin, rfl, i, hcmp, hi⟩ := exists_of_turn hturn
    have hholds := (holds_of_rejectAll ht).recvfrom datagram (n + 1) sender
    have hroom : n + 1 + magicStr.length < buffSize :=
      Nat.lt_of_le_of_lt (Nat.add_le_add_right hr _) (by decide)
    rw [history_concat]
    refine .next n (ih ht (Nat.le_trans hle (Nat.le_of_succ_le hr))) hle hr ?_ ?_ ?_
    · rw [hholds.getElem? n (by omega)] at hn
      exact Option.some.inj hn
    · intro m hm hlt hzero
      refine hmin m hm hlt ?_
      rw [hholds.getElem? m (by omega), hzero]
    · rw [← hholds.magicAt_iff hroom]
      obtain ⟨j, hj, hiff⟩ := strcmp_eq (q := magicStr)
        (p := (recvfrom datagram t.buff).drop (n + 1)) (by decide)
        (by rw [List.length_drop, hholds.length]; omega)
      obtain rfl : i = j := Option.some.inj (hcmp.symm.trans hj)
      rw [← hiff]
      exact of_decide_eq_false hi.symm

theorem exists_rejectAll (h : InHeader (history before) r) :
    ∃ s, rejectAll .init before = some s ∧ s.runner = r := by
  induction before using List.reverseRecOn generalizing r with
  | nil =>
    cases h
    exact ⟨_, rfl, rfl⟩
  | append_singleton before last ih =>
    obtain ⟨datagram, sender⟩ := last
    rw [history_concat] at h
    cases h with
    | next n h hle hn hzero hmin hmagic =>
      obtain ⟨t, ht, rfl⟩ := ih h
      have hroom : n + 1 + magicStr.length < buffSize :=
        Nat.lt_of_le_of_lt (Nat.add_le_add_right hn _) (by decide)
      have hturn := (holds_of_rejectAll ht).turn datagram sender hle hroom hzero hmin hmagic
      exact ⟨_, rejectAll_concat.mpr ⟨t, ht, hturn⟩, rfl⟩

/-- For any datagrams, a hello, and what may follow it: the loop reads inside `buff` only, rejects
the datagrams and accepts the hello with its sender, if and only if every datagram leaves the scan
in the header of the hello. -/
theorem accepts_hello_iff (hhello : IsHello datagram) (before : List (Bytes × SockAddr))
    (sender : SockAddr) (after : List (Bytes × SockAddr)) :
    slaveData .init (before ++ (datagram, sender) :: after) = .accepted sender after ↔
      ∃ r, InHeader (history before) r := by
  rw [slaveData_append (Nat.lt_succ_self after.length)]
  constructor
  · rintro ⟨s, hs, haccepted⟩
    have hlen := (holds_of_rejectAll hs).length
    by_cases hr : s.runner ≤ 6
    · exact ⟨_, inHeader_of_rejectAll hs hr⟩
    · rw [slaveData] at haccepted
      split at haccepted
      · cases haccepted
      · rename_i s' hturn
        exact absurd hturn (turn_hello_of_lt hhello hlen (Nat.lt_of_not_le hr) sender)
      · exact absurd (length_rest_lt haccepted) (Nat.lt_irrefl _)
  · rintro ⟨r, hr⟩
    obtain ⟨s, hs, rfl⟩ := exists_rejectAll hr
    obtain ⟨s', hturn, hcliaddr⟩ :=
      turn_hello hhello (holds_of_rejectAll hs).length hr.le_six sender
    refine ⟨s, hs, ?_⟩
    rw [slaveData, hturn, ← hcliaddr]

theorem exists_isHello : ∃ datagram, IsHello datagram := by
  obtain ⟨data, datagram, hhello, hsend, -⟩ :=
    exists_hello ⟨⟨0, 0, .replicate 8 0, 0, .read, 0, []⟩, fun _ => 0⟩
  exact ⟨datagram, _, data, [], hhello, hsend⟩

/-- An empty datagram before the hello costs one byte of its header. -/
theorem accepts_hello_empty : ∃ datagram, IsHello datagram ∧
    slaveData .init [([], ⟨7, 1⟩), (datagram, ⟨9, 2⟩)] = .accepted ⟨9, 2⟩ [] := by
  obtain ⟨datagram, hhello⟩ := exists_isHello
  refine ⟨datagram, hhello, (accepts_hello_iff hhello [([], ⟨7, 1⟩)] ⟨9, 2⟩ []).mpr ⟨1, ?_⟩⟩
  exact .next 0 .start (Nat.le_refl 0) (by decide) rfl nofun
    fun hmagic => absurd (hmagic 0 89 (by decide)) (by decide)

/-- The scan goes on where it stopped: behind a stray header of six bytes it never finds the string
of the hello. Nor does it stop at the end of `buff`. -/
theorem slaveData_misses : ∃ datagram, IsHello datagram ∧
    slaveData .init [(ascii "0;1;1;", ⟨7, 1⟩), (datagram, ⟨9, 2⟩)] = .waiting ∧
    slaveData .init [(.replicate buffSize 1, ⟨7, 1⟩), (datagram, ⟨9, 2⟩)] = .outside := by
  obtain ⟨datagram, hhello⟩ := exists_isHello
  refine ⟨datagram, hhello, ?_, ?_⟩
  · have hstray := holds_init.turn (n := 6) (ascii "0;1;1;") ⟨7, 1⟩ (by decide) (by decide)
      (by decide) (by decide) fun hmagic => absurd (hmagic 0 89 (by decide)) (by decide)
    have hholds := holds_init.recvfrom (ascii "0;1;1;") 7 ⟨7, 1⟩
    obtain rfl := eq_of_isHello hhello
    have hturn := hholds.turn (n := 7 + magicStr.length) helloDatagram ⟨9, 2⟩ (by decide)
      (by decide) (by decide) (by decide) fun hmagic => absurd (hmagic 0 89 (by decide)) (by decide)
    rw [slaveData_cons hstray, slaveData_cons hturn]
    rfl
  · cases hturn : turn .init (.replicate buffSize 1) ⟨7, 1⟩ with
    | none => rw [slaveData, hturn]
    | some next =>
      obtain ⟨n, -, hn, -⟩ := exists_of_turn hturn
      have hlt : n < buffSize := by
        have hlt := (List.getElem?_eq_some_iff.mp hn).1
        rwa [length_recvfrom, State.init, length_zeros] at hlt
      have hget := (holds_init.recvfrom (.replicate buffSize 1) 0 ⟨7, 1⟩).getElem? n hlt
      rw [contents, List.getElem?_replicate_of_lt hlt] at hget
      cases hn.symm.trans hget

end GreenCloud.Handshake
