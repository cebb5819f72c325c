import GreenCloud.SlavePool
import Mathlib.Data.Finset.Erase
import Mathlib.Data.Finset.Range

/-! `MmapStorage::Read` and `Write` among the workers of a pool: no copy takes a lock, so that each
byte of it is a step of its own. -/

namespace GreenCloud

open CLib Transition

namespace SlaveTask

def data : SlaveTask → DriverData
  | read data | write data => data

def Covers (task : SlaveTask) : Nat → Prop := MmapStorage.Covers task.data

def Inside (m : MmapStorage) : SlaveTask → Prop
  | read data => data.offset.toNat + data.len.toNat ≤ m.getSize
  | write data => data.offset.toNat + data.len.toNat ≤ m.getSize ∧
      data.len.toNat ≤ data.buff.length

/-- `m_buff` before the copy. -/
def buffer (fresh : Fresh) : SlaveTask → Bytes
  | read data => fresh.reserve data.len.toNat data.buff
  | write data => data.buff

def copyByte (i : Nat) (m : MmapStorage) (buff : Bytes) : SlaveTask → Option (MmapStorage × Bytes)
  | read data => do
    let byte ← m.mmap[data.offset.toNat + i]?
    if i < buff.length then some (m, buff.set i byte) else none
  | write data => do
    let byte ← buff[i]?
    if data.offset.toNat + i < m.getSize then
      some (⟨m.mmap.set (data.offset.toNat + i) byte⟩, buff)
    else none

def returned (buff : Bytes) : SlaveTask → Bytes
  | read data => buff.take data.len.toNat
  | write _ => []

end SlaveTask

namespace Copies

variable {ω ι : Type}

/-- Where a request is: received, in the hands of a worker with the bytes that are left to copy and
its buffer, or executed with what it returned. -/
inductive Place (ω : Type)
  | waiting
  | copying (worker : ω) (left : Finset Nat) (buff : Bytes)
  | finished (bytes : Bytes)

def Place.Copied (i : Nat) : Place ω → Prop
  | waiting => False
  | copying _ left _ => i ∉ left
  | finished _ => True

def Place.bytes : Place ω → Option Bytes
  | finished bytes => some bytes
  | _ => none

structure State (ω ι : Type) where
  storage : MmapStorage
  place : ι → Place ω

inductive Event (ω ι : Type)
  | taken (worker : ω) (request : ι)
  | copied (request : ι) (i : Nat)
  | finished (request : ι)

variable [DecidableEq ι]

def State.move (s : State ω ι) (r : ι) (p : Place ω) : State ω ι :=
  { s with place := Function.update s.place r p }

/-- One step of a worker. The requests come out of the queue in any order, and a copy copies its
bytes in any order. -/
def Step (tasks : ι → SlaveTask) (s : State ω ι) (e : Event ω ι) (t : State ω ι) : Prop :=
  match e with
  | .taken w r => s.place r = .waiting ∧ (∀ r' left buff, s.place r' ≠ .copying w left buff) ∧
      ∃ fresh, t = s.move r (.copying w (.range (tasks r).data.len.toNat) ((tasks r).buffer fresh))
  | .copied r i => ∃ w left buff storage buff', s.place r = .copying w left buff ∧ i ∈ left ∧
      (tasks r).copyByte i s.storage buff = some (storage, buff') ∧
      t = { s.move r (.copying w (left.erase i) buff') with storage := storage }
  | .finished r => ∃ w buff, s.place r = .copying w ∅ buff ∧
      t = s.move r (.finished ((tasks r).returned buff))

def pool (ω : Type) (tasks : ι → SlaveTask) (m : MmapStorage) :
    Transition (State ω ι) (Event ω ι) where
  init s := s = ⟨m, fun _ => .waiting⟩
  step := Step tasks

def Disjoint (tasks : ι → SlaveTask) : Prop :=
  ∀ r r' p, (tasks r).Covers p → (tasks r').Covers p → r = r'

def Contents (m : MmapStorage) (left : Finset Nat) (buff : Bytes) : SlaveTask → Prop
  | .write data => buff = data.buff
  | .read data => data.len.toNat ≤ buff.length ∧
      ∀ i < data.len.toNat, i ∉ left → buff[i]? = m.mmap[data.offset.toNat + i]?

structure Held (m : MmapStorage) (left : Finset Nat) (buff : Bytes) (task : SlaveTask) : Prop where
  inRange : ∀ i ∈ left, i < task.data.len.toNat
  contents : Contents m left buff task

def expected (m : MmapStorage) : SlaveTask → Bytes
  | .read data => (m.mmap.drop data.offset.toNat).take data.len.toNat
  | .write _ => []

/-- The invariant: of the mapping the bytes that have been copied are written, and no others; and
the buffer of a `READ` has the first contents. -/
structure Copied (tasks : ι → SlaveTask) (m : MmapStorage) (s : State ω ι) : Prop where
  size : s.storage.getSize = m.getSize
  written : ∀ r data i, tasks r = .write data → i < data.len.toNat → (s.place r).Copied i →
    s.storage.mmap[data.offset.toNat + i]? = data.buff[i]?
  frame : ∀ p, (∀ r data i, tasks r = .write data → i < data.len.toNat →
    data.offset.toNat + i = p → ¬ (s.place r).Copied i) → s.storage.mmap[p]? = m.mmap[p]?
  held : ∀ r w left buff, s.place r = .copying w left buff → Held m left buff (tasks r)
  bytes : ∀ r bytes, s.place r = .finished bytes → bytes = expected m (tasks r)

theorem State.place_move (s : State ω ι) (r : ι) (p : Place ω) : (s.move r p).place r = p :=
  Function.update_self ..

theorem State.place_move_of_ne (s : State ω ι) (p : Place ω) (h : r' ≠ r) :
    (s.move r p).place r' = s.place r' :=
  Function.update_of_ne h ..

theorem State.of_place_move {s : State ω ι} (h : (s.move r p).place r' = q) :
    r' = r ∧ p = q ∨ s.place r' = q := by
  by_cases hr : r' = r
  · rw [hr, place_move] at h
    exact .inl ⟨hr, h⟩
  · rw [place_move_of_ne s p hr] at h
    exact .inr h

variable {tasks : ι → SlaveTask} {m : MmapStorage} {s t : State ω ι} {es : List (Event ω ι)}

omit [DecidableEq ι] in
theorem Copied.init : Copied tasks m (⟨m, fun _ => .waiting⟩ : State ω ι) where
  size := rfl
  written _ _ _ _ _ hcopied := hcopied.elim
  frame _ _ := rfl
  held := nofun
  bytes := nofun

theorem Copied.move (h : Copied tasks m s) (r : ι) (p : Place ω)
    (hsame : ∀ data, tasks r = .write data →
      ∀ i < data.len.toNat, p.Copied i ↔ (s.place r).Copied i)
    (hheld : ∀ w left buff, p = .copying w left buff → Held m left buff (tasks r))
    (hbytes : ∀ bytes, p = .finished bytes → bytes = expected m (tasks r)) :
    Copied tasks m (s.move r p) where
  size := h.size
  written r' data i htask hi hcopied := by
    by_cases hr : r' = r
    · subst hr
      rw [State.place_move, hsame data htask i hi] at hcopied
      exact h.written r' data i htask hi hcopied
    · rw [State.place_move_of_ne s p hr] at hcopied
      exact h.written r' data i htask hi hcopied
  frame q hnone := h.frame q fun r' data i htask hi hq hcopied => by
    refine hnone r' data i htask hi hq ?_
    by_cases hr : r' = r
    · subst hr
      rw [State.place_move, hsame data htask i hi]
      exact hcopied
    · rw [State.place_move_of_ne s p hr]
      exact hcopied
  held r' w left buff hp := by
    rcases State.of_place_move hp with ⟨rfl, hq⟩ | hq
    · exact hheld w left buff hq
    · exact h.held r' w left buff hq
  bytes r' bytes hp := by
    rcases State.of_place_move hp with ⟨rfl, hq⟩ | hq
    · exact hbytes bytes hq
    · exact h.bytes r' bytes hq

omit [DecidableEq ι] in
theorem held_buffer (m : MmapStorage) (fresh : Fresh) (task : SlaveTask) :
    Held m (.range task.data.len.toNat) (task.buffer fresh) task where
  inRange _ hi := Finset.mem_range.mp hi
  contents := by
    cases task with
    | write data => rfl
    | read data =>
      exact ⟨MmapStorage.length_reserve .., fun i hi hleft =>
        absurd (Finset.mem_range.mpr hi) hleft⟩

theorem returned_eq (h : Held m ∅ buff task) : task.returned buff = expected m task := by
  have hcontents := h.contents
  cases task with
  | write data => rfl
  | read data =>
    apply List.ext_getElem?
    intro i
    rw [SlaveTask.returned, expected, List.getElem?_take, List.getElem?_take, List.getElem?_drop]
    split
    · rename_i hi
      exact hcontents.2 i hi (Finset.notMem_empty i)
    · rfl

omit [DecidableEq ι] in
theorem covers (tasks : ι → SlaveTask) (r : ι) (h : i < (tasks r).data.len.toNat) :
    (tasks r).Covers ((tasks r).data.offset.toNat + i) :=
  ⟨Nat.le_add_right .., Nat.add_lt_add_left h _⟩

theorem Copied.write (h : Copied tasks m s) (hdisjoint : Disjoint tasks)
    (htask : tasks r = .write data) (hr : s.place r = .copying w left buff) (hi : i ∈ left)
    (hbyte : buff[i]? = some byte) (hin : data.offset.toNat + i < s.storage.getSize) :
    Copied tasks m { s.move r (.copying w (left.erase i) buff) with
      storage := ⟨s.storage.mmap.set (data.offset.toNat + i) byte⟩ } := by
  have hheld := h.held r w left buff hr
  have hbuff : buff = data.buff := by
    have hcontents := hheld.contents
    rw [htask] at hcontents
    exact hcontents
  have hcovers : (tasks r).Covers (data.offset.toNat + i) := by
    have hcovers := covers tasks r (hheld.inRange i hi)
    rw [htask] at hcovers ⊢
    exact hcovers
  have hgrows : ∀ r' j, (s.place r').Copied j →
      ((s.move r (.copying w (left.erase i) buff)).place r').Copied j := by
    intro r' j hcopied
    by_cases hr' : r' = r
    · rw [hr', hr] at hcopied
      rw [hr', State.place_move]
      exact fun hmem => hcopied (Finset.mem_of_mem_erase hmem)
    · rw [State.place_move_of_ne s _ hr']
      exact hcopied
  constructor
  · rw [← h.size]
    exact List.length_set
  · intro r' data' j htask' hj hcopied
    by_cases hp : data'.offset.toNat + j = data.offset.toNat + i
    · have hcovers' := covers tasks r' (by rw [htask']; exact hj)
      rw [show (tasks r').data.offset.toNat + j = data.offset.toNat + i by rw [htask']; exact hp]
        at hcovers'
      obtain rfl := hdisjoint r' r _ hcovers' hcovers
      obtain rfl : data = data' := SlaveTask.write.inj (htask.symm.trans htask')
      obtain rfl : j = i := by omega
      rw [List.getElem?_set_self hin, ← hbyte, hbuff]
    · rw [List.getElem?_set_ne (Ne.symm hp)]
      refine h.written r' data' j htask' hj ?_
      by_cases hr' : r' = r
      · subst hr'
        obtain rfl : data = data' := SlaveTask.write.inj (htask.symm.trans htask')
        rw [State.place_move] at hcopied
        rw [hr]
        exact fun hmem => hcopied (Finset.mem_erase.mpr ⟨by rintro rfl; exact hp rfl, hmem⟩)
      · rw [State.place_move_of_ne s _ hr'] at hcopied
        exact hcopied
  · intro p hnone
    have hp : data.offset.toNat + i ≠ p := by
      intro hp
      have hlen := hheld.inRange i hi
      rw [htask] at hlen
      refine hnone r data i htask hlen hp ?_
      rw [State.place_move]
      exact Finset.notMem_erase i left
    rw [List.getElem?_set_ne hp]
    exact h.frame p fun r' data' j htask' hj hq hcopied =>
      hnone r' data' j htask' hj hq (hgrows r' j hcopied)
  · intro r' w' left' buff' hp
    rcases State.of_place_move hp with ⟨rfl, ⟨⟩⟩ | hp
    · refine ⟨fun j hj => hheld.inRange j (Finset.mem_of_mem_erase hj), ?_⟩
      rw [htask]
      exact hbuff
    · exact h.held r' w' left' buff' hp
  · intro r' bytes hp
    rcases State.of_place_move hp with ⟨-, ⟨⟩⟩ | hp
    exact h.bytes r' bytes hp

theorem Copied.read (h : Copied tasks m s) (hdisjoint : Disjoint tasks)
    (htask : tasks r = .read data) (hr : s.place r = .copying w left buff) (hi : i ∈ left)
    (hbyte : s.storage.mmap[data.offset.toNat + i]? = some byte) (hin : i < buff.length) :
    Copied tasks m (s.move r (.copying w (left.erase i) (buff.set i byte))) := by
  have hheld := h.held r w left buff hr
  have hcovers : (tasks r).Covers (data.offset.toNat + i) := by
    have hcovers := covers tasks r (hheld.inRange i hi)
    rw [htask] at hcovers ⊢
    exact hcovers
  refine h.move r _ (fun data' htask' => nomatch htask.symm.trans htask') ?_ nofun
  rintro w' left' buff' ⟨⟩
  refine ⟨fun j hj => hheld.inRange j (Finset.mem_of_mem_erase hj), ?_⟩
  have hcontents := hheld.contents
  rw [htask] at hcontents ⊢
  refine ⟨by rw [List.length_set]; exact hcontents.1, fun j hj hleft => ?_⟩
  by_cases hji : j = i
  · rw [hji, List.getElem?_set_self hin, ← hbyte]
    refine h.frame _ fun r' data' k htask' hk hp _ => ?_
    have hcovers' := covers tasks r' (by rw [htask']; exact hk)
    rw [show (tasks r').data.offset.toNat + k = data.offset.toNat + i by rw [htask']; exact hp]
      at hcovers'
    obtain rfl := hdisjoint r' r _ hcovers' hcovers
    cases htask.symm.trans htask'
  · rw [List.getElem?_set_ne (Ne.symm hji)]
    exact hcontents.2 j hj fun hmem => hleft (Finset.mem_erase.mpr ⟨hji, hmem⟩)

theorem Copied.step (h : Copied tasks m s) (hdisjoint : Disjoint tasks)
    (hstep : Step tasks s e t) : Copied tasks m t := by
  cases e with
  | taken w r =>
    obtain ⟨hr, -, fresh, rfl⟩ := hstep
    refine h.move r _ (fun data htask i hi => ?_) ?_ nofun
    · have hlen : i ∈ Finset.range (tasks r).data.len.toNat := by
        rw [htask]
        exact Finset.mem_range.mpr hi
      rw [hr]
      exact ⟨fun hcopied => hcopied hlen, False.elim⟩
    · rintro w' left buff ⟨⟩
      exact held_buffer m fresh (tasks r)
  | copied r i =>
    obtain ⟨w, left, buff, storage, buff', hr, hi, hcopy, rfl⟩ := hstep
    cases htask : tasks r with
    | write data =>
      rw [htask, SlaveTask.copyByte, Option.bind_eq_bind, Option.bind_eq_some_iff] at hcopy
      obtain ⟨byte, hbyte, hcopy⟩ := hcopy
      split at hcopy
      · rename_i hin
        cases hcopy
        exact h.write hdisjoint htask hr hi hbyte hin
      · cases hcopy
    | read data =>
      rw [htask, SlaveTask.copyByte, Option.bind_eq_bind, Option.bind_eq_some_iff] at hcopy
      obtain ⟨byte, hbyte, hcopy⟩ := hcopy
      split at hcopy
      · rename_i hin
        cases hcopy
        exact h.read hdisjoint htask hr hi hbyte hin
      · cases hcopy
  | finished r =>
    obtain ⟨w, buff, hr, rfl⟩ := hstep
    refine h.move r _ (fun data htask i hi => ?_) nofun ?_
    · rw [hr]
      exact ⟨fun _ => Finset.notMem_empty i, fun _ => trivial⟩
    · rintro bytes ⟨⟩
      exact returned_eq (h.held r w ∅ buff hr)

theorem copied_of_run (hdisjoint : Disjoint tasks) (h : (pool ω tasks m).Run es s) :
    Copied tasks m s := by
  apply h.invariant (P := fun _ s => Copied tasks m s)
  · rintro _ rfl
    exact .init
  · intro es s e t hs hstep
    exact hs.step hdisjoint hstep

theorem exists_copied (hinside : ∀ r, (tasks r).Inside m) (hdisjoint : Disjoint tasks)
    (h : (pool ω tasks m).Run es s) (hr : s.place r = .copying w left buff) (hi : i ∈ left) :
    ∃ t, (pool ω tasks m).Run (.copied r i :: es) t := by
  have hcopied := copied_of_run hdisjoint h
  have hheld := hcopied.held r w left buff hr
  have hlen := hheld.inRange i hi
  have hcontents := hheld.contents
  have hsize := hcopied.size
  have hin := hinside r
  have hcopy : ∃ storage buff', (tasks r).copyByte i s.storage buff = some (storage, buff') := by
    cases htask : tasks r with
    | write data =>
      rw [htask] at hlen hcontents hin
      have hlen : i < data.len.toNat := hlen
      obtain rfl : buff = data.buff := hcontents
      have hbyte : i < data.buff.length := by have := hin.2; omega
      have hmmap : data.offset.toNat + i < s.storage.getSize := by have := hin.1; omega
      simp only [SlaveTask.copyByte, List.getElem?_eq_getElem hbyte, Option.bind_eq_bind,
        Option.bind_some, hmmap, ↓reduceIte]
      exact ⟨_, _, rfl⟩
    | read data =>
      rw [htask] at hlen hcontents hin
      have hlen : i < data.len.toNat := hlen
      have hin : data.offset.toNat + data.len.toNat ≤ m.getSize := hin
      have hbuff : i < buff.length := by have := hcontents.1; omega
      have hmmap : data.offset.toNat + i < s.storage.mmap.length := by
        rw [MmapStorage.getSize] at hsize
        omega
      simp only [SlaveTask.copyByte, List.getElem?_eq_getElem hmmap, Option.bind_eq_bind,
        Option.bind_some, hbuff, ↓reduceIte]
      exact ⟨_, _, rfl⟩
  obtain ⟨storage, buff', hcopy⟩ := hcopy
  exact ⟨_, h.then_ (.copied r i) ⟨w, left, buff, storage, buff', hr, hi, hcopy, rfl⟩⟩

omit [DecidableEq ι]

/-- What a request does that nobody disturbs. -/
theorem exists_execute {task : SlaveTask} (hinside : task.Inside m) (fresh : Fresh) :
    ∃ m', task.execute fresh m = some (m', expected m task) ∧ m'.getSize = m.getSize ∧
      (∀ data, task = .write data → ∀ i < data.len.toNat,
        m'.mmap[data.offset.toNat + i]? = data.buff[i]?) ∧
      ∀ p, (∀ data, task = .write data → ¬ task.Covers p) → m'.mmap[p]? = m.mmap[p]? := by
  cases task with
  | read data =>
    have hin : data.offset.toNat + data.len.toNat ≤ m.getSize := hinside
    refine ⟨m, ?_, rfl, nofun, fun _ _ => rfl⟩
    have hlen : data.len.toNat ≤ (m.mmap.drop data.offset.toNat).length := by
      rw [MmapStorage.getSize] at hin
      rw [List.length_drop]
      omega
    rw [SlaveTask.execute, MmapStorage.read_eq, if_pos hin, Option.map_some, expected,
      take_take_append hlen]
  | write data =>
    obtain ⟨hin, hbuff⟩ := hinside
    have hwrite := MmapStorage.write_eq m hbuff
    rw [if_pos hin] at hwrite
    refine ⟨_, by rw [SlaveTask.execute, hwrite]; rfl, MmapStorage.getSize_write hbuff hwrite,
      ?_, ?_⟩
    · rintro _ ⟨⟩ i hi
      rw [MmapStorage.getElem?_write hbuff hwrite,
        if_pos ⟨Nat.le_add_right .., Nat.add_lt_add_left hi _⟩, Nat.add_sub_cancel_left]
    · intro p hp
      rw [MmapStorage.getElem?_write hbuff hwrite]
      exact if_neg (hp data rfl)

theorem expected_of_disjoint {task : SlaveTask} {m' : MmapStorage}
    (hframe : ∀ p, task.Covers p → m'.mmap[p]? = m.mmap[p]?) :
    expected m' task = expected m task := by
  cases task with
  | write data => rfl
  | read data =>
    apply List.ext_getElem?
    intro i
    rw [expected, expected, List.getElem?_take, List.getElem?_take]
    split
    · rename_i hi
      rw [List.getElem?_drop, List.getElem?_drop]
      exact hframe _ ⟨Nat.le_add_right .., Nat.add_lt_add_left hi _⟩
    · rfl

theorem Inside.of_getSize {task : SlaveTask} {m' : MmapStorage} (h : task.Inside m)
    (hsize : m'.getSize = m.getSize) : task.Inside m' := by
  cases task with
  | read data =>
    rw [SlaveTask.Inside, hsize]
    exact h
  | write data =>
    rw [SlaveTask.Inside, hsize]
    exact h

theorem exists_executeAll (hinside : ∀ r, (tasks r).Inside m) (hdisjoint : Disjoint tasks)
    {order : List ι} (hnodup : order.Nodup) (fresh : Fresh) :
    ∃ m', SlaveTask.executeAll fresh m (order.map tasks) =
        some (m', order.map fun r => expected m (tasks r)) ∧
      (∀ r ∈ order, ∀ data, tasks r = .write data → ∀ i < data.len.toNat,
        m'.mmap[data.offset.toNat + i]? = data.buff[i]?) ∧
      ∀ p, (∀ r ∈ order, ∀ data, tasks r = .write data → ¬ (tasks r).Covers p) →
        m'.mmap[p]? = m.mmap[p]? := by
  induction order generalizing m with
  | nil => exact ⟨m, rfl, nofun, fun _ _ => rfl⟩
  | cons r order ih =>
    obtain ⟨hr, hnodup⟩ := List.nodup_cons.mp hnodup
    obtain ⟨m₁, hexecute, hsize, hwritten₁, hframe₁⟩ := exists_execute (hinside r) fresh
    obtain ⟨m', hexecuteAll, hwritten, hframe⟩ :=
      ih (fun r => Inside.of_getSize (hinside r) hsize) hnodup
    have hother : ∀ p, (tasks r).Covers p → ∀ r' ∈ order, ¬ (tasks r').Covers p := by
      intro p hp r' hr' hp'
      obtain rfl := hdisjoint r r' p hp hp'
      exact hr hr'
    have hexpected : order.map (fun r => expected m₁ (tasks r)) =
        order.map fun r => expected m (tasks r) := by
      refine List.map_congr_left fun r' hr' => expected_of_disjoint fun p hp => ?_
      exact hframe₁ p fun _ _ hcovers => hother p hcovers r' hr' hp
    refine ⟨m', ?_, ?_, fun p hp => ?_⟩
    · rw [List.map_cons, SlaveTask.executeAll, hexecute]
      simp only [Option.bind_eq_bind, Option.bind_some, hexecuteAll, hexpected]
      rfl
    · intro r' hr' data htask i hi
      rcases List.mem_cons.mp hr' with rfl | hr'
      · have hcovers := covers tasks r' (by rw [htask]; exact hi)
        rw [htask] at hcovers
        rw [hframe _ fun r'' hr'' _ _ => hother _ (by rw [htask]; exact hcovers) r'' hr'']
        exact hwritten₁ data htask i hi
      · exact hwritten r' hr' data htask i hi
    · rw [hframe p fun r' hr' => hp r' (List.mem_cons_of_mem _ hr')]
      exact hframe₁ p (hp r (List.mem_cons_self ..))

def State.Finished (s : State ω ι) : Prop := ∀ r, ∃ bytes, s.place r = .finished bytes

theorem Copied.storage_eq (h : Copied tasks m s) (hend : s.Finished) {m' : MmapStorage}
    (hwritten : ∀ r data, tasks r = .write data → ∀ i < data.len.toNat,
      m'.mmap[data.offset.toNat + i]? = data.buff[i]?)
    (hframe : ∀ p, (∀ r data, tasks r = .write data → ¬ (tasks r).Covers p) →
      m'.mmap[p]? = m.mmap[p]?) : s.storage = m' := by
  have hall : ∀ r i, (s.place r).Copied i := fun r i => by
    obtain ⟨bytes, hr⟩ := hend r
    rw [hr]
    trivial
  have hmmap : s.storage.mmap = m'.mmap := by
    apply List.ext_getElem?
    intro p
    by_cases hp : ∃ r data, tasks r = .write data ∧ (tasks r).Covers p
    · obtain ⟨r, data, htask, hcovers⟩ := hp
      rw [htask] at hcovers
      obtain ⟨hle, hlt⟩ : data.offset.toNat ≤ p ∧ p < data.offset.toNat + data.len.toNat := hcovers
      have hi : p - data.offset.toNat < data.len.toNat := by omega
      have hp : p = data.offset.toNat + (p - data.offset.toNat) := by omega
      rw [hp, h.written r data _ htask hi (hall r _), hwritten r data htask _ hi]
    · rw [hframe p fun r data htask hcovers => hp ⟨r, data, htask, hcovers⟩]
      refine h.frame p fun r data i htask hi hpi _ => hp ⟨r, data, htask, ?_⟩
      have hcovers := covers tasks r (by rw [htask]; exact hi)
      rw [htask] at hcovers ⊢
      rw [← hpi]
      exact hcovers
  cases hs : s.storage
  cases m'
  rw [hs] at hmmap
  exact congrArg MmapStorage.mk hmmap

/-- For any requests in the mapping whose ranges are disjoint, and any schedule of any number of
workers that executes them all, byte by byte: the mapping at the end and what each `READ` returns
are those of every other schedule, and of the requests one after another in any order. -/
theorem run_disjoint [DecidableEq ι] (hinside : ∀ r, (tasks r).Inside m)
    (hdisjoint : Disjoint tasks) (h : (pool ω tasks m).Run es s) (hend : s.Finished) :
    (∀ (ω' : Type) (es' : List (Event ω' ι)) (s' : State ω' ι), (pool ω' tasks m).Run es' s' →
      s'.Finished → s'.storage = s.storage ∧ ∀ r, (s'.place r).bytes = (s.place r).bytes) ∧
    ∀ order : List ι, order.Nodup → (∀ r, r ∈ order) → ∀ fresh, ∃ results,
      SlaveTask.executeAll fresh m (order.map tasks) = some (s.storage, results) ∧
      results.map some = order.map fun r => (s.place r).bytes := by
  have hcopied := copied_of_run hdisjoint h
  have hbytes : ∀ {ω : Type} {s : State ω ι}, Copied tasks m s → s.Finished →
      ∀ r, (s.place r).bytes = some (expected m (tasks r)) := fun hcopied hend r => by
    obtain ⟨bytes, hr⟩ := hend r
    rw [hr, Place.bytes, hcopied.bytes r bytes hr]
  refine ⟨fun ω' es' s' h' hend' => ?_, fun order hnodup hmem fresh => ?_⟩
  · have hcopied' := copied_of_run hdisjoint h'
    refine ⟨(hcopied.storage_eq hend ?_ ?_).symm, fun r => ?_⟩
    · intro r data htask i hi
      refine hcopied'.written r data i htask hi ?_
      obtain ⟨bytes, hr⟩ := hend' r
      rw [hr]
      trivial
    · intro p hp
      refine hcopied'.frame p fun r data i htask hi hpi _ => hp r data htask ?_
      have hcovers := covers tasks r (by rw [htask]; exact hi)
      rw [htask] at hcovers ⊢
      rw [← hpi]
      exact hcovers
    · rw [hbytes hcopied hend r, hbytes hcopied' hend' r]
  · obtain ⟨m', hexecuteAll, hwritten, hframe⟩ := exists_executeAll hinside hdisjoint hnodup fresh
    have hstorage := hcopied.storage_eq hend (fun r => hwritten r (hmem r))
      fun p hp => hframe p fun r _ => hp r
    refine ⟨_, by rw [hstorage]; exact hexecuteAll, ?_⟩
    rw [List.map_map]
    exact List.map_congr_left fun r _ => (hbytes hcopied hend r).symm

def twoRequests : Bool → SlaveTask
  | false => .write ⟨0, 1, .replicate 8 0, 1, .write, 0, [7]⟩
  | true => .read ⟨1, 2, .replicate 8 0, 1, .read, 0, []⟩

theorem disjoint_twoRequests : Disjoint twoRequests := by
  rintro (_ | _) (_ | _) p ⟨hle, hlt⟩ ⟨hle', hlt'⟩
  · rfl
  · exact absurd (Nat.lt_of_le_of_lt hle' hlt) (by decide)
  · exact absurd (Nat.lt_of_le_of_lt hle hlt') (by decide)
  · rfl

theorem inside_twoRequests : ∀ r, (twoRequests r).Inside ⟨[1, 2]⟩
  | false => ⟨by decide, by decide⟩
  | true => show 1 + 1 ≤ 2 by decide

/-- One worker takes the `WRITE`, another one the `READ`, and the `READ` copies first. -/
theorem run_disjoint_two : ∃ (es : List (Event Bool Bool)) (s : State Bool Bool),
    (pool Bool twoRequests ⟨[1, 2]⟩).Run es s ∧ s.Finished ∧ s.storage = ⟨[7, 2]⟩ ∧
    (s.place true).bytes = some [2] ∧
    (∀ (ω : Type) (es' : List (Event ω Bool)) (s' : State ω Bool),
      (pool ω twoRequests ⟨[1, 2]⟩).Run es' s' → s'.Finished →
        s'.storage = s.storage ∧ ∀ r, (s'.place r).bytes = (s.place r).bytes) ∧
    ∀ order : List Bool, order.Nodup → (∀ r, r ∈ order) → ∀ fresh, ∃ results,
      SlaveTask.executeAll fresh ⟨[1, 2]⟩ (order.map twoRequests) = some (s.storage, results) ∧
      results.map some = order.map fun r => (s.place r).bytes := by
  have fresh : Fresh := ⟨⟨0, 0, .replicate 8 0, 0, .read, 0, []⟩, fun _ => 0⟩
  have hrun : (pool Bool twoRequests ⟨[1, 2]⟩).Run [] ⟨⟨[1, 2]⟩, fun _ => .waiting⟩ := .start rfl
  have hrun := hrun.then_ (.taken false false) ⟨rfl, nofun, fresh, rfl⟩
  have hrun := hrun.then_ (.taken true true) ⟨rfl, by rintro (_ | _) <;> nofun, fresh, rfl⟩
  have hrun := hrun.then_ (.copied true 0) ⟨_, _, _, _, _, rfl, by decide, rfl, rfl⟩
  have hrun := hrun.then_ (.copied false 0) ⟨_, _, _, _, _, rfl, by decide, rfl, rfl⟩
  have hrun := hrun.then_ (.finished false) ⟨_, _, rfl, rfl⟩
  have hrun := hrun.then_ (.finished true) ⟨_, _, rfl, rfl⟩
  refine ⟨_, _, hrun, ?hend, rfl, rfl,
    run_disjoint inside_twoRequests disjoint_twoRequests hrun ?hend⟩
  rintro (_ | _)
  · exact ⟨_, rfl⟩
  · exact ⟨_, rfl⟩

end Copies

end GreenCloud
