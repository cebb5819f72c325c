import Mathlib.Algebra.BigOperators.Group.Finset.Piecewise
import Mathlib.Data.Fintype.Card

/-! Threads by their names: what they have together, how many of them are at a place of the
program, and what a step of one of them does to it. -/

namespace Threads

variable {ι β M : Type} [Fintype ι]

def total [AddCommMonoid M] (has : β → M) (f : ι → β) : M := ∑ i, has (f i)

def count (at_ : β → Bool) (f : ι → β) : Nat := total (fun b => (at_ b).toNat) f

theorem total_const [AddCommMonoid M] {has : β → M} {b : β} (h : has b = 0) :
    total has (fun _ : ι => b) = 0 :=
  Finset.sum_eq_zero fun _ _ => h

theorem total_eq_zero [AddCommMonoid M] {has : β → M} {f : ι → β} (h : ∀ i, has (f i) = 0) :
    total has f = 0 :=
  Finset.sum_eq_zero fun i _ => h i

theorem exists_total [AddCommMonoid M] (has : β → M) (f : ι → β) (i : ι) :
    ∃ others, total has f = has (f i) + others := by
  classical
  exact ⟨_, (Finset.add_sum_erase _ (fun j => has (f j)) (Finset.mem_univ i)).symm⟩

/-- A thread that goes from one place to another has what it has at the new one and no longer
what it had at the old one. -/
theorem total_update [DecidableEq ι] [AddCommMonoid M] (has : β → M) (f : ι → β) (i : ι) (b : β) :
    total has (Function.update f i b) + has (f i) = total has f + has b := by
  have hothers : ∑ j ∈ Finset.univ.erase i, has (Function.update f i b j) =
      ∑ j ∈ Finset.univ.erase i, has (f j) := by
    apply Finset.sum_congr rfl
    intro j hj
    rw [Function.update_of_ne (Finset.ne_of_mem_erase hj)]
  have hsum := fun g : ι → β => Finset.add_sum_erase _ (fun j => has (g j)) (Finset.mem_univ i)
  rw [total, total, ← hsum (Function.update f i b), ← hsum f, hothers, Function.update_self]
  ac_rfl

variable {at_ : β → Bool} {f : ι → β} {i : ι}

theorem count_const {b : β} (h : at_ b = false) : count at_ (fun _ : ι => b) = 0 :=
  total_const (by rw [h]; rfl)

theorem count_eq_filter : count at_ f = (Finset.univ.filter fun i => at_ (f i)).card := by
  rw [Finset.card_filter]
  apply Finset.sum_congr rfl
  intro i _
  cases h : at_ (f i) <;> simp [h]

theorem count_eq_zero : count at_ f = 0 ↔ ∀ i, at_ (f i) = false := by
  rw [count_eq_filter]
  simp [Finset.filter_eq_empty_iff]

theorem count_eq_card : count at_ f = Fintype.card ι ↔ ∀ i, at_ (f i) := by
  rw [count_eq_filter, ← Finset.card_univ, Finset.card_filter_eq_iff]
  simp

theorem count_pos (h : at_ (f i)) : 0 < count at_ f := by
  rw [count_eq_filter]
  exact Finset.card_pos.mpr ⟨i, by simp [h]⟩

theorem count_update [DecidableEq ι] (at_ : β → Bool) (f : ι → β) (i : ι) (b : β) :
    count at_ (Function.update f i b) + (at_ (f i)).toNat = count at_ f + (at_ b).toNat :=
  total_update _ f i b

end Threads
