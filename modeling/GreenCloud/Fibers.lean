import Mathlib.Data.List.Nodup
import Mathlib.Logic.Function.Basic

/-! Lists that enumerate the fibers of a partial function: of each point in use, the elements that
are sent there. -/

namespace Fibers

variable {δ κ : Type}

/-- The list of a point has each element of its fiber once, and a point that has a fiber is in
use. -/
structure Enumerates (lists : δ → Option (List κ)) (target : κ → Option δ) : Prop where
  nodup : ∀ d l, lists d = some l → l.Nodup
  mem_iff : ∀ d l, lists d = some l → ∀ c, c ∈ l ↔ target c = some d
  used : ∀ c d, target c = some d → lists d ≠ none

namespace Enumerates

variable {lists : δ → Option (List κ)} {target target' : κ → Option δ} {o : Option (List κ)}

theorem empty : Enumerates (fun _ : δ => none) (fun _ : κ => none) := ⟨nofun, nofun, nofun⟩

variable [DecidableEq δ]

theorem update (h : Enumerates lists target)
    (hother : ∀ c d', d' ≠ d → (target' c = some d' ↔ target c = some d'))
    (hlist : ∀ l, o = some l → l.Nodup ∧ ∀ c, c ∈ l ↔ target' c = some d)
    (hnone : o = none → ∀ c, target' c ≠ some d) :
    Enumerates (Function.update lists d o) target' := by
  refine ⟨fun d' l hl => ?_, fun d' l hl c => ?_, fun c d' hc => ?_⟩ <;>
    rcases eq_or_ne d' d with rfl | hne
  · rw [Function.update_self] at hl
    exact (hlist l hl).1
  · rw [Function.update_of_ne hne] at hl
    exact h.nodup d' l hl
  · rw [Function.update_self] at hl
    exact (hlist l hl).2 c
  · rw [Function.update_of_ne hne] at hl
    rw [hother c d' hne]
    exact h.mem_iff d' l hl c
  · rw [Function.update_self]
    exact fun ho => hnone ho c hc
  · rw [Function.update_of_ne hne]
    exact h.used c d' ((hother c d' hne).mp hc)

theorem create (h : Enumerates lists target) (hd : lists d = none) :
    Enumerates (Function.update lists d (some [])) target := by
  refine h.update (fun _ _ _ => .rfl) ?_ nofun
  rintro l ⟨⟩
  exact ⟨List.nodup_nil, fun c => iff_of_false List.not_mem_nil fun hc => h.used c d hc hd⟩

theorem drop (h : Enumerates lists target) (d : δ) : Enumerates (Function.update lists d none)
    (fun c => if target c = some d then none else target c) := by
  refine h.update (fun c d' hne => ?_) nofun fun _ c => ?_
  · split
    · rename_i hc
      rw [hc]
      exact iff_of_false nofun fun h => hne (Option.some.inj h).symm
    · exact .rfl
  · split
    · nofun
    · assumption

variable [DecidableEq κ]

theorem insert (h : Enumerates lists target) (hd : lists d = some l) (hc : target c = none)
    (hperm : l'.Perm (c :: l)) :
    Enumerates (Function.update lists d (some l')) (Function.update target c (some d)) := by
  have hnot : c ∉ l := by
    rw [h.mem_iff d l hd, hc]
    nofun
  refine h.update (fun x d' hne => ?_) ?_ nofun
  · rcases eq_or_ne x c with rfl | hx
    · rw [Function.update_self, hc]
      exact iff_of_false (fun h => hne (Option.some.inj h).symm) nofun
    · rw [Function.update_of_ne hx]
  · rintro _ ⟨⟩
    refine ⟨hperm.nodup_iff.mpr (List.nodup_cons.mpr ⟨hnot, h.nodup d l hd⟩), fun x => ?_⟩
    rw [hperm.mem_iff, List.mem_cons]
    rcases eq_or_ne x c with rfl | hx
    · rw [Function.update_self]
      exact iff_of_true (.inl rfl) rfl
    · rw [Function.update_of_ne hx, h.mem_iff d l hd]
      exact or_iff_right hx

theorem erase (h : Enumerates lists target) (hd : lists d = some l) (hc : target c = some d)
    (hperm : l'.Perm (l.erase c)) :
    Enumerates (Function.update lists d (some l')) (Function.update target c none) := by
  have hnodup := h.nodup d l hd
  refine h.update (fun x d' hne => ?_) ?_ nofun
  · rcases eq_or_ne x c with rfl | hx
    · rw [Function.update_self, hc]
      exact iff_of_false nofun fun h => hne (Option.some.inj h).symm
    · rw [Function.update_of_ne hx]
  · rintro _ ⟨⟩
    refine ⟨hperm.nodup_iff.mpr (hnodup.erase c), fun x => ?_⟩
    rw [hperm.mem_iff, hnodup.mem_erase_iff]
    rcases eq_or_ne x c with rfl | hx
    · rw [Function.update_self]
      exact iff_of_false (fun h => h.1 rfl) nofun
    · rw [Function.update_of_ne hx, h.mem_iff d l hd]
      exact and_iff_right hx

end Enumerates

end Fibers
