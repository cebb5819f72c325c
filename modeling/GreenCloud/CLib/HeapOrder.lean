import GreenCloud.CLib.Heap
import Mathlib.Order.Defs.Unbundled

/-! What `std::push_heap` and `std::pop_heap` keep when the comparison is a strict weak order: no
element is before one of its children, and so none is before another one than the top. -/

namespace CLib.Heap

variable {α : Type} {less : α → α → Bool} {v : List α} {hole c : Nat} {value : α}

def InOrder (less : α → α → Bool) (v : List α) (p c : Nat) : Prop :=
  ∀ a b, v[p]? = some a → v[c]? = some b → less a b = false

def IsHeap (less : α → α → Bool) (v : List α) : Prop :=
  ∀ i, 0 < i → InOrder less v ((i - 1) / 2) i

/-- A heap but for the slot `hole`, whose children are in order with its parent. -/
structure HasHole (less : α → α → Bool) (v : List α) (hole : Nat) : Prop where
  except : ∀ i, 0 < i → i ≠ hole → (i - 1) / 2 ≠ hole → InOrder less v ((i - 1) / 2) i
  across : 0 < hole → ∀ i, 0 < i → (i - 1) / 2 = hole → InOrder less v ((hole - 1) / 2) i

def Below (less : α → α → Bool) (v : List α) (hole : Nat) (value : α) : Prop :=
  ∀ i, 0 < i → (i - 1) / 2 = hole → ∀ b, v[i]? = some b → less value b = false

theorem isHeap_nil : IsHeap less ([] : List α) := by
  intro i hi a b ha
  simp at ha

theorem IsHeap.hasHole (h : IsHeap less (v ++ [x])) : HasHole less v 0 where
  except i hi _ _ a b ha hb := by
    obtain ⟨hlt, -⟩ := List.getElem?_eq_some_iff.mp hb
    apply h i hi a b
    · rw [List.getElem?_append_left (by omega), ha]
    · rw [List.getElem?_append_left hlt, hb]
  across h0 := absurd h0 (Nat.lt_irrefl 0)

theorem IsHeap.hasHole_append (h : IsHeap less v) (x : α) : HasHole less (v ++ [x]) v.length where
  except i hi hne _ a b ha hb := by
    have hlt : i < v.length := by
      obtain ⟨hlt, -⟩ := List.getElem?_eq_some_iff.mp hb
      rw [List.length_append, List.length_singleton] at hlt
      omega
    rw [List.getElem?_append_left (by omega)] at ha hb
    exact h i hi a b ha hb
  across h0 i hi hpar a b _ hb := by
    obtain ⟨hlt, -⟩ := List.getElem?_eq_some_iff.mp hb
    rw [List.length_append, List.length_singleton] at hlt
    omega

theorem HasHole.down (h : HasHole less v hole) (hc : 0 < c) (hpar : (c - 1) / 2 = hole)
    (hlen : c < v.length) (hmax : ∀ i, 0 < i → (i - 1) / 2 = hole → InOrder less v c i) :
    HasHole less (move v hole c) c := by
  have hself := getElem?_move_self (show hole < v.length by omega) hlen
  have hother : ∀ {i}, i ≠ hole → (move v hole c)[i]? = v[i]? := fun hi => getElem?_move hi _
  constructor
  · intro i hi hne hpar' a b ha hb
    by_cases hi' : i = hole
    · subst hi'
      rw [hself] at hb
      rw [hother (by omega)] at ha
      exact h.across hi c hc hpar a b ha hb
    · rw [hother hi'] at hb
      by_cases hsib : (i - 1) / 2 = hole
      · rw [hsib, hself] at ha
        exact hmax i hi hsib a b ha hb
      · rw [hother hsib] at ha
        exact h.except i hi hi' hsib a b ha hb
  · intro _ i hi hpar' a b ha hb
    rw [hpar, hself] at ha
    rw [hother (by omega)] at hb
    have hbelow := h.except i hi (by omega) (by omega)
    rw [hpar'] at hbelow
    exact hbelow a b ha hb

theorem HasHole.fill (h : HasHole less v hole) (hbelow : Below less v hole value)
    (hlen : hole < v.length)
    (habove : 0 < hole → ∀ p, v[(hole - 1) / 2]? = some p → less p value = false) :
    IsHeap less (v.set hole value) := by
  intro i hi a b ha hb
  by_cases hi' : i = hole
  · subst hi'
    rw [List.getElem?_set_self hlen, Option.some.injEq] at hb
    subst hb
    rw [List.getElem?_set_ne (by omega)] at ha
    exact habove hi a ha
  · rw [List.getElem?_set_ne (Ne.symm hi')] at hb
    by_cases hpar : (i - 1) / 2 = hole
    · rw [hpar, List.getElem?_set_self hlen, Option.some.injEq] at ha
      subst ha
      exact hbelow i hi hpar b hb
    · rw [List.getElem?_set_ne (Ne.symm hpar)] at ha
      exact h.except i hi hi' hpar a b ha hb

variable [IsStrictWeakOrder α fun a b => less a b]

theorem less_irrefl (a : α) : less a a = false :=
  Bool.eq_false_iff.mpr (irrefl_of (fun a b => less a b = true) a)

theorem less_trans {a b c : α} (hab : less a b) (hbc : less b c) : less a c :=
  trans_of (fun a b => less a b = true) hab hbc

theorem less_asymm {a b : α} (h : less a b) : less b a = false := by
  apply Bool.eq_false_iff.mpr
  intro hba
  exact Bool.eq_false_iff.mp (less_irrefl a) (less_trans h hba)

theorem not_less_trans {a b c : α} (hab : less a b = false) (hbc : less b c = false) :
    less a c = false := by
  apply Bool.eq_false_iff.mpr
  intro hac
  have hba : less b a = false := by
    apply Bool.eq_false_iff.mpr
    intro hba
    exact Bool.eq_false_iff.mp hbc (less_trans hba hac)
  have hcb : less c b = false := by
    apply Bool.eq_false_iff.mpr
    intro hcb
    exact Bool.eq_false_iff.mp hab (less_trans hac hcb)
  have hsame := @IsStrictWeakOrder.incomp_trans _ (fun a b => less a b = true) _ a b c
    ⟨by simp [hab], by simp [hba]⟩ ⟨by simp [hbc], by simp [hcb]⟩
  exact hsame.1 hac

theorem HasHole.up (h : HasHole less v hole) (h0 : 0 < hole) (hlen : hole < v.length) :
    HasHole less (move v hole ((hole - 1) / 2)) ((hole - 1) / 2) := by
  have hself := getElem?_move_self hlen (show (hole - 1) / 2 < v.length by omega)
  have hother : ∀ {i}, i ≠ hole → (move v hole ((hole - 1) / 2))[i]? = v[i]? :=
    fun hi => getElem?_move hi _
  constructor
  · intro i hi hne hpar a b ha hb
    have hi' : i ≠ hole := by
      rintro rfl
      exact hpar rfl
    rw [hother hi'] at hb
    by_cases hchild : (i - 1) / 2 = hole
    · rw [hchild, hself] at ha
      exact h.across h0 i hi hchild a b ha hb
    · rw [hother hchild] at ha
      exact h.except i hi hi' hchild a b ha hb
  · intro hp i hi hpar a b ha hb
    rw [hother (by omega)] at ha
    have habove := h.except ((hole - 1) / 2) hp (by omega) (by omega)
    by_cases hi' : i = hole
    · rw [hi', hself] at hb
      exact habove a b ha hb
    · rw [hother hi'] at hb
      obtain ⟨p, hp'⟩ : ∃ p, v[(hole - 1) / 2]? = some p :=
        ⟨_, List.getElem?_eq_getElem (show (hole - 1) / 2 < v.length by omega)⟩
      have hbelow := h.except i hi hi' (by omega)
      rw [hpar] at hbelow
      exact not_less_trans (habove a p ha hp') (hbelow p b hp' hb)

theorem Below.up (h : HasHole less v hole) (h0 : 0 < hole) (hlen : hole < v.length)
    (hp : v[(hole - 1) / 2]? = some p) (hless : less p value) :
    Below less (move v hole ((hole - 1) / 2)) ((hole - 1) / 2) value := by
  intro i hi hpar b hb
  by_cases hi' : i = hole
  · rw [hi', getElem?_move_self hlen (by omega), hp, Option.some.injEq] at hb
    subst hb
    exact less_asymm hless
  · rw [getElem?_move hi'] at hb
    have hbelow := h.except i hi hi' (by omega)
    rw [hpar] at hbelow
    apply Bool.eq_false_iff.mpr
    intro hvb
    exact Bool.eq_false_iff.mp (hbelow p b hp hb) (less_trans hless hvb)

theorem isHeap_siftUp (h : HasHole less v hole) (hbelow : Below less v hole value)
    (hlen : hole < v.length) : IsHeap less (siftUp less v hole 0 value) := by
  induction v, hole using siftUp.induct less 0 value with
  | case1 v hole hup ih =>
    rw [siftUp, if_pos hup]
    obtain ⟨h0, hless⟩ := hup
    obtain ⟨p, hp, hless⟩ := (Option.any_eq_true ..).mp hless
    exact ih (h.up h0 hlen) (.up h h0 hlen hp hless) (by rw [length_move]; omega)
  | case2 v hole hup =>
    rw [siftUp, if_neg hup]
    apply h.fill hbelow hlen
    intro h0 p hp
    rw [hp] at hup
    simpa [h0] using hup

theorem pick_inOrder (h : hole < (v.length - 1) / 2) (hi : 0 < i) (hpar : (i - 1) / 2 = hole) :
    InOrder less v (pick less v (2 * (hole + 1))) i := by
  intro a b ha hb
  have hright : 2 * (hole + 1) < v.length := by omega
  have hleft : 2 * (hole + 1) - 1 < v.length := by omega
  unfold pick at ha
  rcases (by omega : i = 2 * (hole + 1) ∨ i = 2 * (hole + 1) - 1) with rfl | rfl
  all_goals
    simp only [List.getElem?_eq_getElem hright, List.getElem?_eq_getElem hleft, Option.any_some,
      Option.some.injEq] at ha hb
    split at ha
    all_goals
      simp only [List.getElem?_eq_getElem hright, List.getElem?_eq_getElem hleft,
        Option.some.injEq] at ha
      subst ha hb
      first
      | exact less_irrefl _
      | exact less_asymm ‹_›
      | exact Bool.eq_false_iff.mpr ‹_›

theorem hasHole_descend (h : HasHole less v hole) (hlen : v.length = len) (hhole : hole < len) :
    HasHole less (descend less v hole len).1 (descend less v hole len).2 ∧
      (len - 1) / 2 ≤ (descend less v hole len).2 := by
  induction v, hole using descend.induct less len with
  | case1 v hole hdown ih =>
    rw [descend, if_pos hdown]
    have hpick : 0 < pick less v (2 * (hole + 1)) ∧
        (pick less v (2 * (hole + 1)) - 1) / 2 = hole := by
      unfold pick
      split <;> omega
    have hlt := pick_lt (v := v) less hdown
    apply ih _ (by rw [length_move, hlen]) hlt
    exact h.down hpick.1 hpick.2 (by omega) fun i hi hpar => pick_inOrder (by omega) hi hpar
  | case2 v hole hdown =>
    rw [descend, if_neg hdown]
    exact ⟨h, by omega⟩

theorem isHeap_adjustHeap (h : HasHole less v 0) (hlen : v.length = len) (h0 : 0 < len)
    (value : α) : IsHeap less (adjustHeap less v 0 len value) := by
  obtain ⟨hchild, hlength, -⟩ := descend_perm less h0 (Nat.le_of_eq hlen.symm) value
  obtain ⟨hhole, hleaf⟩ := hasHole_descend h hlen h0
  simp only [adjustHeap]
  generalize descend less v 0 len = d at *
  have hnone : ∀ i, len ≤ i → d.1[i]? = none := fun i hi => List.getElem?_eq_none (by omega)
  split
  · -- The hole has a left child and no right one.
    rename_i hlast
    apply isHeap_siftUp
    · apply hhole.down (by omega) (by omega) (by omega)
      intro i hi hpar a b ha hb
      rcases (by omega : i = 2 * d.2 + 1 ∨ len ≤ i) with rfl | hout
      · rw [ha, Option.some.injEq] at hb
        subst hb
        exact less_irrefl a
      · rw [hnone i hout] at hb
        cases hb
    · intro i hi hpar b hb
      have hout : len ≤ i := by omega
      rw [getElem?_move (by omega), hnone i hout] at hb
      cases hb
    · rw [length_move]
      omega
  · rename_i hlast
    apply isHeap_siftUp hhole _ (by omega)
    intro i hi hpar b hb
    rw [hnone i (by omega)] at hb
    cases hb

theorem isHeap_push (h : IsHeap less v) (x : α) : IsHeap less (push less v x) := by
  apply isHeap_siftUp (h.hasHole_append x) _ (by simp)
  intro i hi hpar b hb
  rw [List.getElem?_eq_none (by rw [List.length_append, List.length_singleton]; omega)] at hb
  cases hb

theorem isHeap_pop (h : IsHeap less v) : IsHeap less (pop less v) := by
  rcases v with - | ⟨x, v⟩
  · exact isHeap_nil
  · rcases List.eq_nil_or_concat v with rfl | ⟨v, last, rfl⟩
    · exact isHeap_nil
    · rw [List.concat_eq_append] at h ⊢
      rw [pop_append]
      rw [← List.cons_append] at h
      exact isHeap_adjustHeap h.hasHole rfl (Nat.succ_pos _) last

theorem IsHeap.top (h : IsHeap less (x :: v)) (hy : y ∈ x :: v) : less x y = false := by
  obtain ⟨i, hi⟩ := List.mem_iff_getElem?.mp hy
  clear hy
  induction i using Nat.strongRecOn generalizing y with
  | ind i ih =>
    by_cases h0 : i = 0
    · subst h0
      rw [List.getElem?_cons_zero, Option.some.injEq] at hi
      subst hi
      exact less_irrefl x
    · obtain ⟨hlt, -⟩ := List.getElem?_eq_some_iff.mp hi
      obtain ⟨p, hp⟩ : ∃ p, (x :: v)[(i - 1) / 2]? = some p :=
        ⟨_, List.getElem?_eq_getElem (show (i - 1) / 2 < (x :: v).length by omega)⟩
      exact not_less_trans (ih _ (by omega) hp) (h i (by omega) p y hp hi)

end CLib.Heap
