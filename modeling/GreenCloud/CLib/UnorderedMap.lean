import Mathlib.Data.List.Basic

/-! `std::unordered_map` with the hash and the equality of its key type, whatever they are. -/

namespace CLib

/-- The nodes in the order of iteration. -/
structure UnorderedMap (α β : Type) where
  nodes : List (α × β)

namespace UnorderedMap

variable {α β : Type} [BEq α] [Hashable α]

def empty : UnorderedMap α β := ⟨[]⟩

/-- What the map takes for one key. -/
def same (k a : α) : Bool := hash k == hash a && k == a

def find (k : α) : List (α × β) → Option β
  | [] => none
  | (a, v) :: nodes => if same k a then some v else find k nodes

/-- `find(k)->second = v`; `none` where no node has the key. -/
def replace (k : α) (v : β) : List (α × β) → Option (List (α × β))
  | [] => none
  | (a, w) :: nodes => if same k a then some ((a, v) :: nodes) else (replace k v nodes).map ((a, w) :: ·)

/-- `m[k] = v` -/
def assign (m : UnorderedMap α β) (k : α) (v : β) : UnorderedMap α β :=
  ⟨(replace k v m.nodes).getD ((k, v) :: m.nodes)⟩

/-- `m[k]`, which puts in a default value where no node has the key. -/
def index (m : UnorderedMap α β) (k : α) (default : β) : β × UnorderedMap α β :=
  match find k m.nodes with
  | some v => (v, m)
  | none => (default, ⟨(k, default) :: m.nodes⟩)

theorem assign_head {a k : α} (h : same k a) (v w : β) (nodes : List (α × β)) :
    (⟨(a, w) :: nodes⟩ : UnorderedMap α β).assign k v = ⟨(a, v) :: nodes⟩ := by
  simp [assign, replace, h]

theorem index_head {a k : α} (h : same k a) (v default : β) (nodes : List (α × β)) :
    (⟨(a, v) :: nodes⟩ : UnorderedMap α β).index k default = (v, ⟨(a, v) :: nodes⟩) := by
  simp [index, find, h]

theorem same_eq_beq [LawfulBEq α] (k a : α) : same k a = (k == a) := by
  by_cases h : k = a
  · simp [same, h]
  · have hbeq : (k == a) = false := beq_false_of_ne h
    rw [same, hbeq, Bool.and_false]

theorem find_replace [LawfulBEq α] {l l' : List (α × β)} (h : replace k v l = some l') (k' : α) :
    find k' l' = if k' == k then some v else find k' l := by
  induction l generalizing l' with
  | nil => cases h
  | cons node l ih =>
    obtain ⟨a, w⟩ := node
    simp only [replace, same_eq_beq] at h
    by_cases hk : k == a
    · rw [if_pos hk] at h
      cases h
      rw [eq_of_beq hk]
      simp only [find, same_eq_beq]
      split
      · rfl
      · rfl
    · rw [if_neg hk] at h
      obtain ⟨replaced, hreplaced, rfl⟩ := Option.map_eq_some_iff.mp h
      simp only [find, same_eq_beq, ih hreplaced]
      by_cases hk' : k' == a
      · have hne : ¬ (k' == k) := by
          rw [eq_of_beq hk', BEq.comm]
          exact hk
        rw [if_pos hk', if_pos hk', if_neg hne]
      · rw [if_neg hk', if_neg hk']

theorem find_assign [LawfulBEq α] (m : UnorderedMap α β) (k : α) (v : β) (k' : α) :
    find k' (m.assign k v).nodes = if k' == k then some v else find k' m.nodes := by
  rw [assign]
  cases hreplace : replace k v m.nodes with
  | none => rw [Option.getD_none, find, same_eq_beq]
  | some l => exact find_replace hreplace k'

end UnorderedMap

end CLib
