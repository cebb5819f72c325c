import GreenCloud.CLib.HeapOrder
import GreenCloud.Threads
import GreenCloud.Transition
import GreenCloud.WPriorityQueue

/-! `WPriorityQueue` among threads. `m_mutex` guards the heap; `m_sem`, which counts its elements,
is posted behind a push and waited on before a pop. -/

namespace GreenCloud.SharedQueue

open CLib Transition
open scoped List

variable {ι α : Type}

/-- Where a thread is in its call. `out` is what it passed for `ret_val`, `none` where that is no
element yet. -/
inductive Position (α : Type)
  | idle
  | waiting (timed : Bool) (out : Option α)
  | passed (timed : Bool) (out : Option α)
  | inserted
  | posted
  deriving DecidableEq

def Position.isPassed : Position α → Bool
  | passed .. => true
  | _ => false

def Position.isInserted : Position α → Bool
  | inserted => true
  | _ => false

def Position.hasLock : Position α → Bool
  | inserted | posted => true
  | _ => false

structure State (ι α : Type) where
  pq : List α
  sem : Nat
  locked : Bool
  position : ι → Position α

/-- `popped` has the element and the heap that is left behind it. -/
inductive Event (ι α : Type)
  | called (thread : ι) (timed : Bool) (out : Option α)
  | waited (thread : ι)
  | timedOut (thread : ι) (out : Option α)
  | popped (thread : ι) (x : α) (left : List α)
  | pushed (thread : ι) (x : α)
  | posted (thread : ι)
  | unlocked (thread : ι)
  deriving DecidableEq

def Event.thread : Event ι α → ι
  | called i _ _ | waited i | timedOut i _ | popped i _ _ | pushed i _ | posted i | unlocked i => i

def init : State ι α := ⟨[], 0, false, fun _ => .idle⟩

variable [DecidableEq ι]

def State.move (s : State ι α) (i : ι) (p : Position α) : State ι α :=
  { s with position := Function.update s.position i p }

@[simp] theorem State.position_move (s : State ι α) (i : ι) (p : Position α) :
    (s.move i p).position i = p := Function.update_self ..

/-- One step of a thread. There is no top of an empty heap, so a pop there has no successor. -/
def Step (less : α → α → Bool) (s : State ι α) (e : Event ι α) (t : State ι α) : Prop :=
  match e with
  | .called i timed out => s.position i = .idle ∧ t = s.move i (.waiting timed out)
  | .waited i => ∃ timed out sem, s.position i = .waiting timed out ∧ s.sem = sem + 1 ∧
      t = { s.move i (.passed timed out) with sem := sem }
  | .timedOut i out => s.position i = .waiting true out ∧ t = s.move i .idle
  | .popped i x left => ∃ timed out rest, s.position i = .passed timed out ∧ s.locked = false ∧
      s.pq = x :: rest ∧ left = Heap.pop less s.pq ∧ t = { s.move i .idle with pq := left }
  | .pushed i x => s.position i = .idle ∧ s.locked = false ∧
      t = { s.move i .inserted with pq := Heap.push less s.pq x, locked := true }
  | .posted i => s.position i = .inserted ∧ t = { s.move i .posted with sem := s.sem + 1 }
  | .unlocked i => s.position i = .posted ∧ t = { s.move i .idle with locked := false }

def queue (less : α → α → Bool) : Transition (State ι α) (Event ι α) where
  init s := s = init
  step := Step less

/-! What a run has done so far, the oldest first. -/

def pushed : List (Event ι α) → List α
  | [] => []
  | .pushed _ x :: es => pushed es ++ [x]
  | _ :: es => pushed es

def popped : List (Event ι α) → List α
  | [] => []
  | .popped _ x _ :: es => popped es ++ [x]
  | _ :: es => popped es

def latest (i : ι) (es : List (Event ι α)) : Option (Event ι α) := es.find? (·.thread = i)

variable [Fintype ι]

def passed (position : ι → Position α) : Nat := Threads.count Position.isPassed position

def inserted (position : ι → Position α) : Nat := Threads.count Position.isInserted position

def holders (position : ι → Position α) : Nat := Threads.count Position.hasLock position

/-- The semaphore and the threads on their way account for the elements of the heap. -/
structure Accounts (less : α → α → Bool) (es : List (Event ι α)) (s : State ι α) : Prop where
  size : s.pq.length = s.sem + passed s.position + inserted s.position
  lock : s.locked.toNat = holders s.position
  heap : Heap.IsHeap less s.pq
  kept : (popped es ++ s.pq).Perm (pushed es)
  greatest : ∀ i x left, .popped i x left ∈ es → ∀ y ∈ left, less x y = false
  waiting : ∀ i timed out, s.position i = .waiting timed out →
    latest i es = some (.called i timed out)

variable {less : α → α → Bool} {es : List (Event ι α)} {e : Event ι α} {s t : State ι α}

theorem counts_update {position : ι → Position α} (h : position i = p) (q : Position α) :
    passed (Function.update position i q) + p.isPassed.toNat =
      passed position + q.isPassed.toNat ∧
    inserted (Function.update position i q) + p.isInserted.toNat =
      inserted position + q.isInserted.toNat ∧
    holders (Function.update position i q) + p.hasLock.toNat =
      holders position + q.hasLock.toNat := by
  rw [← h]
  exact ⟨Threads.count_update _ _ _ _, Threads.count_update _ _ _ _, Threads.count_update _ _ _ _⟩

omit [Fintype ι] in
/-- A step moves one thread. What it takes or gives of heap, semaphore and lock is what the
thread has at the one place and not at the other, and it waits only where it has called. -/
theorem Step.balance (hstep : Step less s e t)
    (hlock : (s.position e.thread).hasLock → s.locked) : ∃ p q, s.position e.thread = p ∧
    t.position = Function.update s.position e.thread q ∧
    t.pq.length + (s.sem + p.isPassed.toNat + p.isInserted.toNat) =
      s.pq.length + (t.sem + q.isPassed.toNat + q.isInserted.toNat) ∧
    t.locked.toNat + p.hasLock.toNat = s.locked.toNat + q.hasLock.toNat ∧
    ∀ timed out, q = .waiting timed out → e = .called e.thread timed out := by
  cases e with
  | called i timed out =>
    obtain ⟨hi, rfl⟩ := hstep
    refine ⟨_, _, hi, rfl, rfl, rfl, ?_⟩
    rintro _ _ ⟨⟩
    rfl
  | waited i =>
    obtain ⟨timed, out, sem, hi, hsem, rfl⟩ := hstep
    refine ⟨_, _, hi, rfl, ?_, rfl, nofun⟩
    simp only [State.move, hsem, Position.isPassed, Position.isInserted, Bool.toNat_true,
      Bool.toNat_false]
  | timedOut i out =>
    obtain ⟨hi, rfl⟩ := hstep
    exact ⟨_, _, hi, rfl, rfl, rfl, nofun⟩
  | popped i x left =>
    obtain ⟨timed, out, rest, hi, -, hpq, rfl, rfl⟩ := hstep
    have hlen := (Heap.pop_perm less x rest).length_eq
    refine ⟨_, _, hi, rfl, ?_, rfl, nofun⟩
    simp only [State.move, hpq, hlen, List.length_cons, Position.isPassed, Position.isInserted,
      Bool.toNat_true, Bool.toNat_false]
    omega
  | pushed i x =>
    obtain ⟨hi, hlocked, rfl⟩ := hstep
    have hlen := (Heap.push_perm less s.pq x).length_eq
    refine ⟨_, _, hi, rfl, ?_, ?_, nofun⟩
    · simp only [State.move, hlen, List.length_append, List.length_singleton, Position.isPassed,
        Position.isInserted, Bool.toNat_true, Bool.toNat_false]
      omega
    · rw [hlocked]
      rfl
  | posted i =>
    obtain ⟨hi, rfl⟩ := hstep
    refine ⟨_, _, hi, rfl, ?_, rfl, nofun⟩
    simp only [State.move, Position.isPassed, Position.isInserted, Bool.toNat_true,
      Bool.toNat_false]
  | unlocked i =>
    obtain ⟨hi, rfl⟩ := hstep
    refine ⟨_, _, hi, rfl, rfl, ?_, nofun⟩
    rw [hlock (by rw [Event.thread, hi]; rfl)]
    rfl

omit [Fintype ι] in
theorem Step.heap (hstep : Step less s e t) :
    (t.pq = s.pq ∧ ∀ es, pushed (e :: es) = pushed es ∧ popped (e :: es) = popped es ∧
      ∀ i x left, .popped i x left ∈ e :: es → .popped i x left ∈ es) ∨
    (∃ i x, e = .pushed i x ∧ t.pq = Heap.push less s.pq x) ∨
    ∃ i x rest, e = .popped i x (Heap.pop less s.pq) ∧ s.pq = x :: rest ∧
      t.pq = Heap.pop less s.pq := by
  cases e with
  | popped i x left =>
    obtain ⟨_, _, rest, -, -, hpq, rfl, rfl⟩ := hstep
    exact .inr (.inr ⟨i, x, rest, rfl, hpq, rfl⟩)
  | pushed i x =>
    obtain ⟨-, -, rfl⟩ := hstep
    exact .inr (.inl ⟨i, x, rfl, rfl⟩)
  | waited i =>
    obtain ⟨_, _, _, -, -, rfl⟩ := hstep
    exact .inl ⟨rfl, fun es => ⟨rfl, rfl, by simp⟩⟩
  | called | timedOut | posted | unlocked =>
    obtain ⟨-, rfl⟩ := hstep
    exact .inl ⟨rfl, fun es => ⟨rfl, rfl, by simp⟩⟩

omit [Fintype ι] in
theorem latest_cons (i : ι) (e : Event ι α) (es : List (Event ι α)) :
    latest i (e :: es) = if e.thread = i then some e else latest i es := by
  simp only [latest, List.find?_cons]
  split <;> simp_all

namespace Accounts

theorem empty (less : α → α → Bool) : Accounts less ([] : List (Event ι α)) init where
  size := by
    simp only [init, passed, inserted, List.length_nil]
    rw [Threads.count_const rfl, Threads.count_const rfl]
  lock := (Threads.count_const rfl).symm
  heap := Heap.isHeap_nil
  kept := .refl _
  greatest := by simp
  waiting := by simp [init]

theorem hasLock (h : Accounts less es s) (hi : (s.position i).hasLock) : s.locked := by
  have hpos : 0 < holders s.position := Threads.count_pos hi
  have hlock := h.lock
  cases hlocked : s.locked with
  | true => rfl
  | false =>
    rw [hlocked, Bool.toNat_false] at hlock
    omega

theorem pq_ne_nil (h : Accounts less es s) (hi : (s.position i).isPassed) : s.pq ≠ [] := by
  have hpos : 0 < passed s.position := Threads.count_pos hi
  have hsize := h.size
  intro hnil
  rw [hnil, List.length_nil] at hsize
  omega

variable [IsStrictWeakOrder α fun a b => less a b]

theorem step (h : Accounts less es s) (hstep : Step less s e t) : Accounts less (e :: es) t := by
  obtain ⟨p, q, hp, hq, hbalance, hlock, hcalled⟩ := hstep.balance h.hasLock
  obtain ⟨hpassed, hinserted, hholders⟩ := counts_update hp q
  have hsize := h.size
  have hlocked := h.lock
  constructor
  case size =>
    rw [hq]
    omega
  case lock =>
    rw [hq]
    omega
  case waiting =>
    intro i timed out hi
    rw [latest_cons]
    by_cases hthread : e.thread = i
    · subst hthread
      rw [hq, Function.update_self] at hi
      rw [if_pos rfl]
      exact congrArg some (hcalled timed out hi)
    · rw [hq, Function.update_of_ne (Ne.symm hthread)] at hi
      rw [if_neg hthread]
      exact h.waiting i timed out hi
  case heap =>
    rcases hstep.heap with ⟨hsame, -⟩ | ⟨i, x, -, hpush⟩ | ⟨i, x, rest, -, -, hpop⟩
    · rw [hsame]
      exact h.heap
    · rw [hpush]
      exact Heap.isHeap_push h.heap x
    · rw [hpop]
      exact Heap.isHeap_pop h.heap
  case kept =>
    rcases hstep.heap with ⟨hsame, hes⟩ | ⟨i, x, rfl, hpush⟩ | ⟨i, x, rest, rfl, hpq, hpop⟩
    · obtain ⟨hpushed, hpopped, -⟩ := hes es
      rw [hsame, hpushed, hpopped]
      exact h.kept
    · rw [hpush]
      calc popped es ++ Heap.push less s.pq x
        _ ~ popped es ++ (s.pq ++ [x]) := (Heap.push_perm less s.pq x).append_left _
        _ ~ pushed es ++ [x] := by
          rw [← List.append_assoc]
          exact h.kept.append_right [x]
    · have hkept := h.kept
      rw [hpop, hpq]
      rw [hpq] at hkept
      calc popped es ++ [x] ++ Heap.pop less (x :: rest)
        _ ~ popped es ++ [x] ++ rest := (Heap.pop_perm less x rest).append_left _
        _ ~ pushed es := by
          rw [List.append_assoc]
          exact hkept
  case greatest =>
    intro j y left hmem
    rcases hstep.heap with ⟨-, hes⟩ | ⟨i, x, rfl, -⟩ | ⟨i, x, rest, rfl, hpq, -⟩
    · exact h.greatest j y left ((hes es).2.2 j y left hmem)
    · exact h.greatest j y left (by simpa using hmem)
    · rcases List.mem_cons.mp hmem with heq | hmem
      · cases heq
        intro z hz
        have hheap := h.heap
        rw [hpq] at hz hheap
        exact hheap.top (List.mem_cons_of_mem _ ((Heap.pop_perm less y rest).mem_iff.mp hz))
      · exact h.greatest j y left hmem

end Accounts

variable [IsStrictWeakOrder α fun a b => less a b]

theorem accounts_of_run (h : (queue less).Run es s) : Accounts less es s := by
  apply h.invariant
  · rintro _ rfl
    exact .empty less
  · intro es s e t hs hstep
    exact hs.step hstep

/-- In every run, for any number of threads: the elements of the heap are those the semaphore
counts, those that threads behind it are about to pop and the one of a push that has not posted
yet, so a pop finds one; what is popped is not before anything it leaves behind; nothing that was
pushed is lost or doubled; and a timed pop that returns false has done nothing but wait, and
changes neither the heap nor the semaphore nor what it was passed. -/
theorem run_accounts (h : (queue less).Run es s) :
    s.pq.length = s.sem + passed s.position + inserted s.position ∧
    (∀ i, (s.position i).isPassed → s.pq ≠ []) ∧
    (∀ i x left, .popped i x left ∈ es → ∀ y ∈ left, less x y = false) ∧
    (popped es ++ s.pq).Perm (pushed es) ∧
    ∀ i out es', es = .timedOut i out :: es' → latest i es' = some (.called i true out) ∧
      ∃ s', (queue less).Run es' s' ∧ s.pq = s'.pq ∧ s.sem = s'.sem := by
  have hs := accounts_of_run h
  refine ⟨hs.size, fun i => hs.pq_ne_nil, hs.greatest, hs.kept, ?_⟩
  rintro i out es' rfl
  cases h with
  | step hrun hstep =>
    obtain ⟨hi, rfl⟩ := hstep
    exact ⟨(accounts_of_run hrun).waiting i true out hi, _, hrun, rfl, rfl⟩

omit [Fintype ι] [IsStrictWeakOrder α fun a b => less a b] in
theorem run_push (h : (queue less).Run es s) (hi : s.position i = .idle)
    (hlocked : s.locked = false) (hpush : Heap.push less s.pq x = pq) :
    (queue less).Run (.unlocked i :: .posted i :: .pushed i x :: es)
      { s with pq := pq, sem := s.sem + 1 } := by
  have h := h.then_ (.pushed i x) ⟨hi, hlocked, rfl⟩
  have h := h.then_ (.posted i) ⟨State.position_move .., rfl⟩
  have h := h.then_ (.unlocked i) ⟨State.position_move .., rfl⟩
  simpa only [State.move, Function.update_idem, ← hi, Function.update_eq_self, hpush, ← hlocked]
    using h

omit [Fintype ι] [IsStrictWeakOrder α fun a b => less a b] in
theorem run_pop (h : (queue less).Run es s) (hi : s.position i = .idle) (hlocked : s.locked = false)
    (timed : Bool) (out : Option α) (hsem : s.sem = sem + 1) (hpq : s.pq = x :: rest)
    (hpop : Heap.pop less s.pq = left) :
    (queue less).Run (.popped i x left :: .waited i :: .called i timed out :: es)
      { s with pq := left, sem := sem } := by
  have h := h.then_ (.called i timed out) ⟨hi, rfl⟩
  have h := h.then_ (.waited i) ⟨timed, out, sem, State.position_move .., hsem, rfl⟩
  have h := h.then_ (.popped i x left)
    ⟨timed, out, rest, State.position_move .., hlocked, hpq, hpop.symm, rfl⟩
  simpa only [State.move, Function.update_idem, ← hi, Function.update_eq_self] using h

instance int_lt : IsStrictWeakOrder Int fun a b => decide (a < b) where
  irrefl a := by simp
  trans a b c := by
    simp only [decide_eq_true_eq]
    exact Int.lt_trans
  incomp_trans a b c := by
    simp only [decide_eq_true_eq]
    omega

/-- Two threads and a queue of `int`: the one pushes 3 and 5, and the other, which has timed out
once before, pops 5. -/
theorem run_accounts_int : ∃ es s, (queue (ι := Fin 2) fun a b : Int => decide (a < b)).Run es s ∧
    popped es = [5] ∧ s.pq = [3] ∧ .timedOut 1 (some 7) ∈ es ∧
    s.pq.length = s.sem + passed s.position + inserted s.position := by
  have h : (queue (ι := Fin 2) fun a b : Int => decide (a < b)).Run [] init := .start rfl
  have h := h.then_ (.called 1 true (some 7)) ⟨rfl, rfl⟩
  have h := h.then_ (.timedOut 1 (some 7)) ⟨rfl, rfl⟩
  have h := run_push (i := 0) h rfl rfl (Heap.push_nil _ 3)
  have hpush : Heap.push (fun a b : Int => decide (a < b)) [3] 5 = [5, 3] :=
    (Heap.push_singleton _ 3 5).trans rfl
  have h := run_push (i := 0) h rfl rfl hpush
  have h := run_pop (i := 1) h rfl rfl false none rfl rfl (Heap.pop_pair _ 5 3)
  exact ⟨_, _, h, rfl, rfl, by simp, (run_accounts h).1⟩

end GreenCloud.SharedQueue
