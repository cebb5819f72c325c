import GreenCloud.Dispatcher

/-! `NotifyAll` while the handlers destroy callbacks and register new ones: the loop goes on over
the vector that they change. Another call from within a handler is to this one what its handlers
do. -/

namespace GreenCloud.Reentrancy

open Transition Dispatcher

variable {κ : Type}

/-- `m_callbacks` during a call, the turns that the loop has begun, and the distance of the `end()`
that it holds. The buffer has moved if `push_back` had to reallocate it; then the iterators of the
loop are void. A callback never has the name of another one, also not in the place of a dead one. -/
structure State (κ : Type) where
  callbacks : List κ
  capacity : Nat
  moved : Bool
  known : List κ
  turns : Nat
  stop : Nat
  running : Bool

/-- A turn, which notifies a callback or reads outside the vector, what the handler of the turn
does, and the end of the loop. -/
inductive Event (κ : Type)
  | notified (c : κ)
  | strayed
  | added (c : κ)
  | destroyed (c : κ)
  | returned
  deriving DecidableEq

def init (callbacks : List κ) (capacity : Nat) : State κ where
  callbacks := callbacks
  capacity := capacity
  moved := false
  known := callbacks
  turns := 0
  stop := callbacks.length
  running := true

/-- `push_back`, which reallocates the buffer if it is full. -/
def State.add (grow : Nat → Nat) (c : κ) (s : State κ) : State κ :=
  { s with
    callbacks := s.callbacks ++ [c]
    capacity := if s.callbacks.length < s.capacity then s.capacity else grow s.capacity
    moved := s.moved || decide (s.capacity ≤ s.callbacks.length)
    known := c :: s.known }

variable [DecidableEq κ]

def State.destroy (c : κ) (s : State κ) : State κ :=
  { s with callbacks := search c s.callbacks }

def Step (grow : Nat → Nat) (s : State κ) (e : Event κ) (t : State κ) : Prop :=
  s.running = true ∧
  match e with
  | .notified c => s.turns < s.stop ∧ s.moved = false ∧ s.callbacks[s.turns]? = some c ∧
      t = { s with turns := s.turns + 1 }
  | .strayed => s.turns < s.stop ∧ (s.moved = true ∨ s.callbacks[s.turns]? = none) ∧
      t = { s with running := false }
  | .added c => 0 < s.turns ∧ c ∉ s.known ∧ t = s.add grow c
  | .destroyed c => 0 < s.turns ∧ c ∈ s.callbacks ∧ t = s.destroy c
  | .returned => s.turns = s.stop ∧ t = { s with running := false }

/-- A call with these callbacks in the vector, each registered once. -/
def notifyAll (grow : Nat → Nat) (callbacks : List κ) (capacity : Nat) :
    Transition (State κ) (Event κ) where
  init s := callbacks.Nodup ∧ callbacks.length ≤ capacity ∧ s = init callbacks capacity
  step := Step grow

/-- What a call is for. -/
structure Correct (callbacks : List κ) (es : List (Event κ)) : Prop where
  inside : .strayed ∉ es
  once : ∀ c ∈ callbacks, .destroyed c ∉ es → es.count (.notified c) = 1
  alive : ∀ after before c, es = after ++ .notified c :: before → .destroyed c ∉ before

def State.ahead (s : State κ) : List κ := s.callbacks.drop s.turns

/-- A step of the run `es` that does not disturb the loop. Before the last turn, what is added has
room; a turn begins with more callbacks than turns; and in a place that the loop has passed nothing
is destroyed while the last place has a callback that the loop owes a turn. -/
def State.Undisturbed (callbacks : List κ) (es : List (Event κ)) (s : State κ) : Event κ → Prop
  | .added _ => s.turns = s.stop ∨ s.callbacks.length < s.capacity
  | .notified _ | .strayed => s.turns < s.callbacks.length
  | .destroyed c => c ∈ s.callbacks.take s.turns → ∀ last ∈ s.ahead, s.callbacks.getLast? = some last →
      last ∈ callbacks → .destroyed last ∈ es
  | .returned => True

def Undisturbed (grow : Nat → Nat) (callbacks : List κ) (capacity : Nat) (es : List (Event κ)) :
    Prop :=
  ∀ after before e s, es = after ++ e :: before → (notifyAll grow callbacks capacity).Run before s →
    s.Undisturbed callbacks es e

/-! Where `Remove` leaves the others: nobody goes up, and down goes only the last one. -/

omit [DecidableEq κ] in
theorem drop_swapWithLast (c : κ) (rest : List κ) (k : Nat) :
    (swapWithLast (c :: rest)).drop (k + 1) = rest.dropLast.drop k := by
  rw [swapWithLast]
  split
  · rename_i h
    obtain rfl := List.getLast?_eq_none_iff.mp h
    simp
  · rfl

omit [DecidableEq κ] in
theorem mem_drop_concat {init : List κ} : x ∈ (init ++ [last]).drop k ↔
    x ∈ init.drop k ∨ k ≤ init.length ∧ x = last := by
  rw [List.drop_append, List.mem_append]
  apply or_congr .rfl
  cases h : k - init.length with
  | zero =>
    have hle : k ≤ init.length := by omega
    simp [hle]
  | succ j =>
    have hle : ¬ k ≤ init.length := by omega
    simp [hle]

theorem mem_drop_search {callbacks : List κ} (h : x ∈ (search c callbacks).drop k) :
    x ∈ callbacks.drop k := by
  induction callbacks generalizing k with
  | nil => exact h
  | cons y rest ih =>
    cases k with
    | zero => exact List.mem_of_mem_erase ((search_perm c (y :: rest)).mem_iff.mp h)
    | succ k =>
      rw [search] at h
      split at h
      · rw [drop_swapWithLast] at h
        rcases List.eq_nil_or_concat rest with rfl | ⟨init, last, rfl⟩
        · simp at h
        · rw [List.concat_eq_append, List.dropLast_concat] at h
          rw [List.drop_succ_cons, List.concat_eq_append]
          exact mem_drop_concat.mpr (.inl h)
      · exact ih h

/-- Ahead of a place, a removal takes away what it removes, and the last one if it goes to a place
behind. -/
theorem mem_drop_search_iff {callbacks : List κ} (hnodup : callbacks.Nodup)
    (hx : x ∈ callbacks.drop k) (hne : x ≠ c) : x ∈ (search c callbacks).drop k ↔
      ¬ (c ∈ callbacks.take k ∧ callbacks.getLast? = some x) := by
  induction callbacks generalizing k with
  | nil => simp at hx
  | cons y rest ih =>
    obtain ⟨hy, hrest⟩ := List.nodup_cons.mp hnodup
    cases k with
    | zero =>
      rw [List.drop_zero, (search_perm c (y :: rest)).mem_iff, List.take_zero]
      simpa [hnodup.mem_erase_iff, hne] using hx
    | succ k =>
      rw [List.drop_succ_cons] at hx
      have hlast : (y :: rest).getLast? = rest.getLast? := by
        cases rest with
        | nil => simp at hx
        | cons z rest => rfl
      rw [search, List.take_succ_cons, hlast]
      split
      · rename_i heq
        rw [drop_swapWithLast, heq]
        rcases List.eq_nil_or_concat rest with rfl | ⟨init, last, rfl⟩
        · simp at hx
        · rw [List.concat_eq_append] at hx hrest ⊢
          rw [List.dropLast_concat, List.getLast?_concat]
          have hlast : last ∉ init := by
            rw [List.nodup_append] at hrest
            exact fun hmem => hrest.2.2 last hmem last (List.mem_singleton_self last) rfl
          rcases mem_drop_concat.mp hx with hx | ⟨-, rfl⟩
          · have hne : last ≠ x := by
              rintro rfl
              exact hlast (List.mem_of_mem_drop hx)
            simp [hx, hne]
          · simp [show x ∉ init.drop k from fun hmem => hlast (List.mem_of_mem_drop hmem)]
      · rename_i hyc
        rw [List.drop_succ_cons, ih hrest hx, List.mem_cons]
        simp [Ne.symm hyc]

section

variable {grow : Nat → Nat} {callbacks : List κ} {capacity : Nat} {es : List (Event κ)}
variable {s t : State κ}

structure Ledger (callbacks : List κ) (es : List (Event κ)) (s : State κ) : Prop where
  nodup : s.callbacks.Nodup
  known : ∀ c ∈ s.callbacks, c ∈ s.known
  kept : ∀ c ∈ callbacks, c ∈ s.known ∧ (c ∈ s.callbacks ∨ .destroyed c ∈ es)
  destroyed : ∀ c, .destroyed c ∈ es → c ∈ s.known ∧ c ∉ s.callbacks
  notified : ∀ c, .notified c ∈ es → c ∈ s.known ∧ c ∉ s.ahead
  count : ∀ c, es.count (.notified c) ≤ 1
  beyond : ∀ c ∈ callbacks, c ∉ s.callbacks.drop s.stop
  turns : s.turns ≤ s.stop

theorem Ledger.init (hnodup : callbacks.Nodup) (capacity : Nat) :
    Ledger callbacks [] (init callbacks capacity) where
  nodup := hnodup
  known _ hc := hc
  kept _ hc := ⟨hc, .inl hc⟩
  destroyed := nofun
  notified := nofun
  count _ := Nat.zero_le 1
  beyond c _ := by simp [Reentrancy.init]
  turns := Nat.zero_le _

omit [DecidableEq κ] in
theorem mem_ahead (h : s.callbacks[s.turns]? = some c) : c ∈ s.ahead := by
  rw [State.ahead, List.mem_iff_getElem?]
  exact ⟨0, by rw [List.getElem?_drop, Nat.add_zero, h]⟩

theorem Ledger.turn (h : Ledger callbacks es s) (hturn : s.turns < s.stop)
    (hc : s.callbacks[s.turns]? = some c) :
    Ledger callbacks (.notified c :: es) { s with turns := s.turns + 1 } where
  nodup := h.nodup
  known := h.known
  kept d hd := by simpa using h.kept d hd
  destroyed d hd := h.destroyed d (by simpa using hd)
  notified d hd := by
    have hdrop : s.ahead = c :: s.callbacks.drop (s.turns + 1) := by
      obtain ⟨hlt, rfl⟩ := List.getElem?_eq_some_iff.mp hc
      exact List.drop_eq_getElem_cons hlt
    rcases List.mem_cons.mp hd with hd | hd
    · cases hd
      have hnodup : s.ahead.Nodup := h.nodup.sublist (List.drop_sublist ..)
      rw [hdrop] at hnodup
      exact ⟨h.known c (List.mem_of_getElem? hc), (List.nodup_cons.mp hnodup).1⟩
    · obtain ⟨hknown, hahead⟩ := h.notified d hd
      rw [hdrop] at hahead
      exact ⟨hknown, fun hmem => hahead (List.mem_cons_of_mem _ hmem)⟩
  count d := by
    rw [List.count_cons]
    split
    · rename_i heq
      cases eq_of_beq heq
      have hnot : .notified c ∉ es := fun hmem => (h.notified c hmem).2 (mem_ahead hc)
      exact Nat.succ_le_succ (Nat.le_of_eq (List.count_eq_zero_of_not_mem hnot))
    · exact h.count d
  beyond := h.beyond
  turns := hturn

theorem Ledger.add (h : Ledger callbacks es s) (hnew : c ∉ s.known) (grow : Nat → Nat) :
    Ledger callbacks (.added c :: es) (s.add grow c) := by
  have hother : ∀ d, d ∈ s.known → d ≠ c := by
    rintro d hd rfl
    exact hnew hd
  have hnot : c ∉ s.callbacks := fun hmem => hnew (h.known c hmem)
  constructor
  · exact List.nodup_append.mpr ⟨h.nodup, List.nodup_singleton c, fun d hd x hx => by
      rw [List.mem_singleton.mp hx]
      exact hother d (h.known d hd)⟩
  · intro d hd
    rcases List.mem_append.mp hd with hd | hd
    · exact List.mem_cons_of_mem _ (h.known d hd)
    · rw [List.mem_singleton.mp hd]
      exact List.mem_cons_self ..
  · intro d hd
    obtain ⟨hknown, hkept⟩ := h.kept d hd
    exact ⟨List.mem_cons_of_mem _ hknown,
      hkept.imp (List.mem_append_left [c]) (List.mem_cons_of_mem _)⟩
  · intro d hd
    obtain ⟨hknown, hgone⟩ := h.destroyed d (by simpa using hd)
    refine ⟨List.mem_cons_of_mem _ hknown, fun hmem => ?_⟩
    rcases List.mem_append.mp hmem with hmem | hmem
    · exact hgone hmem
    · exact hother d hknown (List.mem_singleton.mp hmem)
  · intro d hd
    obtain ⟨hknown, hbehind⟩ := h.notified d (by simpa using hd)
    refine ⟨List.mem_cons_of_mem _ hknown, fun hmem => ?_⟩
    rcases mem_drop_concat.mp hmem with hmem | ⟨-, rfl⟩
    · exact hbehind hmem
    · exact hnew hknown
  · intro d
    simpa using h.count d
  · intro d hd hmem
    rcases mem_drop_concat.mp hmem with hmem | ⟨-, rfl⟩
    · exact h.beyond d hd hmem
    · exact hnew (h.kept d hd).1
  · exact h.turns

theorem Ledger.destroy (h : Ledger callbacks es s) (hc : c ∈ s.callbacks) :
    Ledger callbacks (.destroyed c :: es) (s.destroy c) where
  nodup := (search_perm c s.callbacks).nodup_iff.mpr (h.nodup.erase c)
  known d hd := h.known d (List.mem_of_mem_erase ((search_perm c s.callbacks).mem_iff.mp hd))
  kept d hd := by
    obtain ⟨hknown, hkept⟩ := h.kept d hd
    refine ⟨hknown, ?_⟩
    by_cases hdc : d = c
    · exact .inr (by rw [hdc]; exact List.mem_cons_self ..)
    · rcases hkept with hmem | hgone
      · exact .inl ((search_perm c s.callbacks).mem_iff.mpr (h.nodup.mem_erase_iff.mpr ⟨hdc, hmem⟩))
      · exact .inr (List.mem_cons_of_mem _ hgone)
  destroyed d hd := by
    have hgone : ∀ d, d ∉ s.callbacks ∨ d = c → d ∉ search c s.callbacks := by
      intro d hd hmem
      obtain ⟨hne, hmem⟩ := h.nodup.mem_erase_iff.mp ((search_perm c s.callbacks).mem_iff.mp hmem)
      exact hd.elim (· hmem) hne
    rcases List.mem_cons.mp hd with hd | hd
    · cases hd
      exact ⟨h.known c hc, hgone c (.inr rfl)⟩
    · obtain ⟨hknown, hnot⟩ := h.destroyed d hd
      exact ⟨hknown, hgone d (.inl hnot)⟩
  notified d hd := by
    obtain ⟨hknown, hbehind⟩ := h.notified d (by simpa using hd)
    exact ⟨hknown, fun hmem => hbehind (mem_drop_search hmem)⟩
  count d := by simpa using h.count d
  beyond d hd hmem := h.beyond d hd (mem_drop_search hmem)
  turns := h.turns

theorem Ledger.stop (h : Ledger callbacks es s) (he : e = .strayed ∨ e = .returned) :
    Ledger callbacks (e :: es) { s with running := false } where
  nodup := h.nodup
  known := h.known
  kept d hd := by
    obtain ⟨hknown, hkept⟩ := h.kept d hd
    exact ⟨hknown, hkept.imp_right (List.mem_cons_of_mem _)⟩
  destroyed d hd := h.destroyed d (by rcases he with rfl | rfl <;> simpa using hd)
  notified d hd := h.notified d (by rcases he with rfl | rfl <;> simpa using hd)
  count d := by rcases he with rfl | rfl <;> simpa using h.count d
  beyond := h.beyond
  turns := h.turns

theorem Ledger.step (h : Ledger callbacks es s) (hstep : Step grow s e t) :
    Ledger callbacks (e :: es) t := by
  obtain ⟨-, hstep⟩ := hstep
  cases e with
  | notified c =>
    obtain ⟨hturn, -, hc, rfl⟩ := hstep
    exact h.turn hturn hc
  | added c =>
    obtain ⟨-, hnew, rfl⟩ := hstep
    exact h.add hnew grow
  | destroyed c =>
    obtain ⟨-, hc, rfl⟩ := hstep
    exact h.destroy hc
  | strayed =>
    obtain ⟨-, -, rfl⟩ := hstep
    exact h.stop (.inl rfl)
  | returned =>
    obtain ⟨-, rfl⟩ := hstep
    exact h.stop (.inr rfl)

theorem ledger_of_run (h : (notifyAll grow callbacks capacity).Run es s) :
    Ledger callbacks es s := by
  apply h.invariant
  · rintro _ ⟨hnodup, -, rfl⟩
    exact .init hnodup capacity
  · intro es s e t hs hstep
    exact hs.step hstep

theorem run_unique (h : (notifyAll grow callbacks capacity).Run es s)
    (h' : (notifyAll grow callbacks capacity).Run es t) : s = t := by
  refine h.unique h' (fun s t hs ht => hs.2.2.trans ht.2.2.symm) fun s e t t' hstep hstep' => ?_
  obtain ⟨-, hstep⟩ := hstep
  obtain ⟨-, hstep'⟩ := hstep'
  cases e with
  | notified c => exact hstep.2.2.2.trans hstep'.2.2.2.symm
  | strayed | added c | destroyed c => exact hstep.2.2.trans hstep'.2.2.symm
  | returned => exact hstep.2.trans hstep'.2.symm

/-- What holds as long as nothing has disturbed the loop of the run `all`: the loop still owes a
turn to every callback that has had none. -/
structure Followed (callbacks : List κ) (all es : List (Event κ)) (s : State κ) : Prop where
  moved : s.moved = true → s.turns = s.stop
  owed : ∀ c ∈ callbacks, .destroyed c ∉ all → c ∈ s.ahead ∨ .notified c ∈ es
  inside : .strayed ∉ es

theorem Followed.step (h : Followed callbacks all es s) (hledger : Ledger callbacks es s)
    (hquiet : s.Undisturbed callbacks all e) (hmem : e ∈ all) (hstep : Step grow s e t) :
    Followed callbacks all (e :: es) t := by
  obtain ⟨-, hstep⟩ := hstep
  cases e with
  | notified c =>
    obtain ⟨hturn, hmoved, hc, rfl⟩ := hstep
    refine ⟨fun hm => ?_, fun d hd hkept => ?_, by simpa using h.inside⟩
    · exact nomatch hmoved.symm.trans hm
    · rcases h.owed d hd hkept with hahead | hturned
      · obtain ⟨hlt, rfl⟩ := List.getElem?_eq_some_iff.mp hc
        rw [State.ahead, List.drop_eq_getElem_cons hlt] at hahead
        rcases List.mem_cons.mp hahead with rfl | hahead
        · exact .inr (List.mem_cons_self ..)
        · exact .inl hahead
      · exact .inr (List.mem_cons_of_mem _ hturned)
  | strayed =>
    obtain ⟨hturn, hout, rfl⟩ := hstep
    rcases hout with hmoved | hout
    · exact absurd (h.moved hmoved) (by omega)
    · exact absurd hquiet (Nat.not_lt.mpr (List.getElem?_eq_none_iff.mp hout))
  | added c =>
    obtain ⟨-, -, rfl⟩ := hstep
    refine ⟨fun hm => ?_, fun d hd hkept => ?_, by simpa using h.inside⟩
    · rcases hquiet with hlast | hroom
      · exact hlast
      · have hmoved : s.moved = true := by
          simpa [State.add, Nat.not_le.mpr hroom] using hm
        exact h.moved hmoved
    · exact (h.owed d hd hkept).imp (fun hahead => mem_drop_concat.mpr (.inl hahead))
        (List.mem_cons_of_mem _)
  | destroyed c =>
    obtain ⟨-, -, rfl⟩ := hstep
    refine ⟨h.moved, fun d hd hkept => ?_, by simpa using h.inside⟩
    rcases h.owed d hd hkept with hahead | hturned
    · left
      have hne : d ≠ c := by
        rintro rfl
        exact hkept hmem
      exact (mem_drop_search_iff hledger.nodup hahead hne).mpr
        fun hlast => hkept (hquiet hlast.1 d hahead hlast.2 hd)
    · exact .inr (List.mem_cons_of_mem _ hturned)
  | returned =>
    obtain ⟨-, rfl⟩ := hstep
    exact ⟨h.moved, fun d hd hkept => (h.owed d hd hkept).imp_right (List.mem_cons_of_mem _),
      by simpa using h.inside⟩

theorem followed_of_run (h : (notifyAll grow callbacks capacity).Run es s)
    (after : List (Event κ)) (hall : all = after ++ es)
    (hquiet : Undisturbed grow callbacks capacity all) :
    Followed callbacks all es s := by
  induction h generalizing after with
  | start h =>
    obtain ⟨-, -, rfl⟩ := h
    exact ⟨nofun, fun c hc _ => .inl hc, nofun⟩
  | step h hstep ih =>
    rename_i es s e t
    refine (ih (after ++ [e]) (by rw [hall, List.append_assoc]; rfl)).step
      (ledger_of_run h) (hquiet after es e s hall h) ?_ hstep
    rw [hall]
    simp

/-- A callback behind the loop gets no turn any more. -/
theorem missed_of_run (h : (notifyAll grow callbacks capacity).Run (after ++ before) s)
    (hmissed : ∀ t, (notifyAll grow callbacks capacity).Run before t → c ∈ t.known ∧ c ∉ t.ahead) :
    (c ∈ s.known ∧ c ∉ s.ahead) ∧ .notified c ∉ after := by
  induction after generalizing s with
  | nil => exact ⟨hmissed s h, nofun⟩
  | cons e after ih =>
    cases h with
    | step h hstep =>
      obtain ⟨⟨hknown, hahead⟩, hnone⟩ := ih h
      obtain ⟨-, hstep⟩ := hstep
      cases e with
      | notified d =>
        obtain ⟨-, -, hd, rfl⟩ := hstep
        have hne : c ≠ d := by
          rintro rfl
          exact hahead (mem_ahead hd)
        refine ⟨⟨hknown, fun hmem => hahead ?_⟩, by simp [hne, hnone]⟩
        exact (List.drop_sublist_drop_left _ (Nat.le_succ _)).mem hmem
      | added d =>
        obtain ⟨-, hnew, rfl⟩ := hstep
        refine ⟨⟨List.mem_cons_of_mem _ hknown, fun hmem => ?_⟩, by simpa using hnone⟩
        rcases mem_drop_concat.mp hmem with hmem | ⟨-, rfl⟩
        · exact hahead hmem
        · exact hnew hknown
      | destroyed d =>
        obtain ⟨-, -, rfl⟩ := hstep
        exact ⟨⟨hknown, fun hmem => hahead (mem_drop_search hmem)⟩, by simpa using hnone⟩
      | strayed =>
        obtain ⟨-, -, rfl⟩ := hstep
        exact ⟨⟨hknown, hahead⟩, by simpa using hnone⟩
      | returned =>
        obtain ⟨-, rfl⟩ := hstep
        exact ⟨⟨hknown, hahead⟩, by simpa using hnone⟩

def State.Void (s : State κ) : Prop := s.moved = true ∧ s.turns < s.stop ∧ s.running = true

theorem strays_of_void (h : (notifyAll grow callbacks capacity).Run (after ++ before) s)
    (hvoid : ∀ t, (notifyAll grow callbacks capacity).Run before t → t.Void) :
    .strayed ∈ after ∨ s.Void := by
  induction after generalizing s with
  | nil => exact .inr (hvoid s h)
  | cons e after ih =>
    cases h with
    | step h hstep =>
      rcases ih h with hmem | ⟨hmoved, hturns, hrunning⟩
      · exact .inl (List.mem_cons_of_mem _ hmem)
      · obtain ⟨-, hstep⟩ := hstep
        cases e with
        | notified d => exact nomatch hmoved.symm.trans hstep.2.1
        | strayed => exact .inl (List.mem_cons_self ..)
        | added d =>
          obtain ⟨-, -, rfl⟩ := hstep
          exact .inr ⟨by simp [State.add, hmoved], hturns, hrunning⟩
        | destroyed d =>
          obtain ⟨-, -, rfl⟩ := hstep
          exact .inr ⟨hmoved, hturns, hrunning⟩
        | returned => exact absurd hstep.1 (by omega)

theorem turns_of_end (h : (notifyAll grow callbacks capacity).Run es s) (hend : s.running = false)
    (hinside : .strayed ∉ es) : s.turns = s.stop := by
  cases h with
  | start h =>
    obtain ⟨-, -, rfl⟩ := h
    cases hend
  | step h hstep =>
    rename_i es s e
    obtain ⟨hrunning, hstep⟩ := hstep
    cases e with
    | strayed => exact absurd (List.mem_cons_self ..) hinside
    | returned =>
      obtain ⟨hturns, rfl⟩ := hstep
      exact hturns
    | notified c =>
      obtain ⟨-, -, -, rfl⟩ := hstep
      exact nomatch hrunning.symm.trans hend
    | added c | destroyed c =>
      obtain ⟨-, -, rfl⟩ := hstep
      exact nomatch hrunning.symm.trans hend

theorem Undisturbed.correct (hquiet : Undisturbed grow callbacks capacity es)
    (h : (notifyAll grow callbacks capacity).Run es s) (hend : s.running = false) :
    Correct callbacks es := by
  have hfollowed := followed_of_run h [] rfl hquiet
  have hledger := ledger_of_run h
  refine ⟨hfollowed.inside, fun c hc hkept => ?_, ?_⟩
  · have hturned : .notified c ∈ es := by
      rcases hfollowed.owed c hc hkept with hahead | hturned
      · rw [State.ahead, turns_of_end h hend hfollowed.inside] at hahead
        exact absurd hahead (hledger.beyond c hc)
      · exact hturned
    have hcount := hledger.count c
    have hpos := List.count_pos_iff.mpr hturned
    omega
  · rintro after before c rfl hgone
    obtain ⟨t, hbefore⟩ := h.earlier
    cases hbefore with
    | step hbefore hstep =>
      obtain ⟨-, -, -, hc, -⟩ := hstep
      exact ((ledger_of_run hbefore).destroyed c hgone).2 (List.mem_of_getElem? hc)

theorem Correct.undisturbed (hcorrect : Correct callbacks es)
    (h : (notifyAll grow callbacks capacity).Run es s) (hend : s.running = false) :
    Undisturbed grow callbacks capacity es := by
  rintro after before e s' rfl hbefore
  obtain ⟨t, ht⟩ := h.earlier
  have hnext : ∀ t', (notifyAll grow callbacks capacity).Run (e :: before) t' → t' = t :=
    fun t' ht' => run_unique ht' ht
  have hledger := ledger_of_run hbefore
  cases ht with
  | step hrun hstep =>
    cases run_unique hbefore hrun
    obtain ⟨hrunning, hstep⟩ := hstep
    cases e with
    | notified c => exact (List.getElem?_eq_some_iff.mp hstep.2.2.1).1
    | strayed => exact absurd (List.mem_append_right _ (List.mem_cons_self ..)) hcorrect.inside
    | added c =>
      obtain ⟨-, -, rfl⟩ := hstep
      by_contra hfull
      obtain ⟨hturns, hroom⟩ := not_or.mp hfull
      have hlt : s'.turns < s'.stop := Nat.lt_of_le_of_ne hledger.turns hturns
      have hstray := strays_of_void h fun t' ht' => by
        rw [hnext t' ht']
        exact ⟨by simp [State.add, Nat.not_lt.mp hroom], hlt, hrunning⟩
      rcases hstray with hmem | ⟨-, -, hrun⟩
      · exact hcorrect.inside (List.mem_append_left _ hmem)
      · exact nomatch hrun.symm.trans hend
    | destroyed c =>
      obtain ⟨-, hc, rfl⟩ := hstep
      intro hbehind last hahead hlast horiginal
      by_contra hkept
      have hne : last ≠ c := by
        rintro rfl
        exact hkept (List.mem_append_right _ (List.mem_cons_self ..))
      -- the last callback goes to a place behind the loop
      obtain ⟨-, hafter⟩ := missed_of_run h fun t' ht' => by
        rw [hnext t' ht']
        exact ⟨hledger.known last (List.mem_of_mem_drop hahead), fun hmem =>
          (mem_drop_search_iff hledger.nodup hahead hne).mp hmem ⟨hbehind, hlast⟩⟩
      have honce := hcorrect.once last horiginal hkept
      have hturned : .notified last ∈ after ++ .destroyed c :: before :=
        List.count_pos_iff.mp (by omega)
      rcases List.mem_append.mp hturned with hmem | hmem
      · exact hafter hmem
      · exact (hledger.notified last (by simpa using hmem)).2 hahead
    | returned => trivial

/-- Of every call, whatever its handlers do: each callback that was registered before and is not
destroyed is notified once, no dead one is, and the loop stays in the vector, exactly if no step
disturbs the loop. -/
theorem notifyAll_correct_iff (h : (notifyAll grow callbacks capacity).Run es s)
    (hend : s.running = false) :
    Correct callbacks es ↔ Undisturbed grow callbacks capacity es :=
  ⟨fun hcorrect => hcorrect.undisturbed h hend, fun hquiet => hquiet.correct h hend⟩

theorem run_turns (h : (notifyAll grow callbacks capacity).Run es s) (hrunning : s.running = true)
    (hmoved : s.moved = false) (hstop : s.stop = s.callbacks.length) (before : List κ)
    (hsplit : s.callbacks = before ++ after) (hturns : s.turns = before.length) :
    (notifyAll grow callbacks capacity).Run ((after.map .notified).reverse ++ es)
      { s with turns := s.turns + after.length } := by
  induction after generalizing before es s with
  | nil => exact h
  | cons c after ih =>
    have hlt : s.turns < s.stop := by
      rw [hstop, hsplit, hturns, List.length_append, List.length_cons]
      omega
    have hget : s.callbacks[s.turns]? = some c := by
      rw [hsplit, hturns, List.getElem?_append_right (Nat.le_refl _), Nat.sub_self]
      rfl
    have h := h.then_ (.notified c) ⟨hrunning, hlt, hmoved, hget, rfl⟩
    have h := ih h hrunning hmoved hstop (before ++ [c]) (by rw [hsplit, List.append_assoc]; rfl)
      (by simp [hturns])
    simpa [Nat.add_assoc, Nat.add_comm 1] using h

theorem run_quiet (grow : Nat → Nat) (hnodup : callbacks.Nodup)
    (hcapacity : callbacks.length ≤ capacity) :
    ∃ t, (notifyAll grow callbacks capacity).Run (.returned :: (callbacks.map .notified).reverse) t ∧
      t.running = false := by
  have h : (notifyAll grow callbacks capacity).Run [] (init callbacks capacity) :=
    .start ⟨hnodup, hcapacity, rfl⟩
  have h := run_turns h rfl rfl rfl [] rfl rfl
  rw [List.append_nil] at h
  exact ⟨_, h.then_ .returned ⟨rfl, Nat.zero_add _, rfl⟩, rfl⟩

theorem undisturbed_step (h : (notifyAll grow callbacks capacity).Run es s)
    (hquiet : ∀ after before d t, es = after ++ d :: before →
      (notifyAll grow callbacks capacity).Run before t → t.Undisturbed callbacks all d)
    (he : s.Undisturbed callbacks all e) :
    ∀ after before d t, e :: es = after ++ d :: before →
      (notifyAll grow callbacks capacity).Run before t → t.Undisturbed callbacks all d := by
  rintro (_ | ⟨a, after⟩) before d t hsplit ht
  · obtain ⟨rfl, rfl⟩ := List.cons.inj hsplit
    rw [run_unique ht h]
    exact he
  · exact hquiet after before d t (List.cons.inj hsplit).2 ht

end

def Event.call? {δ μ : Type} (message : μ) : Event κ → Option (Call δ κ μ)
  | notified c => some (.notify c message)
  | _ => none

/-- With such handlers a call makes the calls of `Dispatcher.notifyAll`. -/
theorem run_notifyAll {δ μ : Type} {s : Objects δ κ} {d : δ} (h : Registered s)
    (hd : s.dispatchers d = some callbacks) (message : μ) (grow : Nat → Nat) :
    ∃ (es : List (Event κ)) (t : State κ) (calls : List (Call δ κ μ)),
      (notifyAll grow callbacks callbacks.length).Run es t ∧ t.running = false ∧
      Dispatcher.notifyAll d message s = some (s, calls) ∧
      calls = es.reverse.filterMap (Event.call? message) := by
  obtain ⟨t, hrun, hend⟩ := run_quiet grow (h.nodup d callbacks hd) (Nat.le_refl _)
  refine ⟨_, t, _, hrun, hend, notifyAll_eq h hd message, ?_⟩
  simp [Event.call?, List.filterMap_map, Function.comp_def]

/-- The first handler registers a callback, for which there is room, and the second one destroys
the callback that had the first turn. -/
theorem notifyAll_correct_busy :
    ∃ (es : List (Event Nat)) (s : State Nat), (notifyAll (2 * ·) [0, 1, 2] 4).Run es s ∧
      s.running = false ∧ es = [.returned, .notified 2, .destroyed 0, .notified 1, .added 3,
        .notified 0] ∧ s.callbacks = [3, 1, 2] ∧ Correct [0, 1, 2] es := by
  have h₀ : (notifyAll (2 * ·) [0, 1, 2] 4).Run [] (init [0, 1, 2] 4) :=
    .start ⟨by decide, by decide, rfl⟩
  have h₁ := h₀.then_ (.notified 0) ⟨rfl, by decide, rfl, rfl, rfl⟩
  have h₂ := h₁.then_ (.added 3) ⟨rfl, by decide, by decide, rfl⟩
  have h₃ := h₂.then_ (.notified 1) ⟨rfl, by decide, rfl, rfl, rfl⟩
  have h₄ := h₃.then_ (.destroyed 0) ⟨rfl, by decide, by decide, rfl⟩
  have h₅ := h₄.then_ (.notified 2) ⟨rfl, by decide, rfl, rfl, rfl⟩
  have h := h₅.then_ .returned ⟨rfl, by decide, rfl⟩
  refine ⟨_, _, h, rfl, rfl, by decide, (notifyAll_correct_iff h rfl).mpr ?_⟩
  refine undisturbed_step h₅ ?_ trivial
  refine undisturbed_step h₄ ?_ (show 2 < 3 by decide)
  refine undisturbed_step h₃ ?_ fun _ last _ hlast hmem => ?_
  · refine undisturbed_step h₂ ?_ (show 1 < 4 by decide)
    refine undisturbed_step h₁ ?_ (.inr (show 3 < 4 by decide))
    exact undisturbed_step h₀ (by simp) (show 0 < 3 by decide)
  · -- the last place has the new callback
    cases hlast
    exact absurd hmem (by decide)

/-- The handler of the first of two callbacks destroys its own: the second one gets no turn, and the
loop reads behind the end of the vector. -/
theorem notifyAll_strays :
    ∃ (es : List (Event Nat)) (s : State Nat), (notifyAll (2 * ·) [0, 1] 2).Run es s ∧
      s.running = false ∧ es = [.strayed, .destroyed 0, .notified 0] ∧ ¬ Correct [0, 1] es := by
  have h : (notifyAll (2 * ·) [0, 1] 2).Run [] (init [0, 1] 2) := .start ⟨by decide, by decide, rfl⟩
  have h := h.then_ (.notified 0) ⟨rfl, by decide, rfl, rfl, rfl⟩
  have h := h.then_ (.destroyed 0) ⟨rfl, by decide, by decide, rfl⟩
  have h := h.then_ .strayed ⟨rfl, by decide, .inr rfl, rfl⟩
  exact ⟨_, _, h, rfl, rfl, fun hcorrect => hcorrect.inside (List.mem_cons_self ..)⟩

end GreenCloud.Reentrancy
