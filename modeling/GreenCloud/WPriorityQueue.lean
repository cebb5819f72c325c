import GreenCloud.CLib.Heap
import Mathlib.Order.Defs.Unbundled

/-! `TPTask` and the queue of a pool: `WPriorityQueue` over `std::priority_queue`. -/

namespace GreenCloud

open CLib

/-- `TPTask::TaskPriority` -/
inductive TaskPriority
  | low | medium | high | system
  deriving DecidableEq

def TaskPriority.value : TaskPriority → Nat
  | .low => 0
  | .medium => 1
  | .high => 2
  | .system => 3

/-- The priority is that which the constructor of the class sets. -/
class TPTask (α : Type) where
  priority : α → TaskPriority

instance : TPTask TaskPriority := ⟨id⟩

/-- `TPTask::operator<` -/
def TPTask.lt {α : Type} [TPTask α] (a b : α) : Bool := (priority a).value < (priority b).value

instance {α : Type} [TPTask α] : IsStrictWeakOrder α fun a b => TPTask.lt a b where
  irrefl a := by simp [TPTask.lt]
  trans a b c := by
    simp only [TPTask.lt, decide_eq_true_eq]
    exact Nat.lt_trans
  incomp_trans a b c := by
    simp only [TPTask.lt, decide_eq_true_eq]
    omega

namespace WPriorityQueue

variable {α : Type} [TPTask α]

/-- `Push` -/
def push (pq : List α) (task : α) : List α := Heap.push TPTask.lt pq task

/-- `LockAndPop`, behind the semaphore: there is no top without an element. -/
def lockAndPop (pq : List α) : Option (α × List α) :=
  pq.head?.map fun task => (task, Heap.pop TPTask.lt pq)

end WPriorityQueue

end GreenCloud
