import Mathlib.Data.List.Basic

/-! `std::push_heap` and `std::pop_heap` of libstdc++ on a vector, for any comparison. Both leave
a hole in the vector and move elements into it until a value goes in. -/

namespace CLib.Heap

open scoped List

variable {α : Type}

/-- `*(first + dest) = std::move(*(first + src));` -/
def move (v : List α) (dest src : Nat) : List α :=
  match v[src]? with
  | some x => v.set dest x
  | none => v

/-- `__push_heap` -/
def siftUp (less : α → α → Bool) (v : List α) (hole top : Nat) (value : α) : List α :=
  if top < hole ∧ v[(hole - 1) / 2]?.any (less · value) then
    siftUp less (move v hole ((hole - 1) / 2)) ((hole - 1) / 2) top value
  else v.set hole value
termination_by hole

def pick (less : α → α → Bool) (v : List α) (right : Nat) : Nat :=
  if v[right]?.any fun x => v[right - 1]?.any (less x) then right - 1 else right

/-- The loop of `__adjust_heap`, at the head of which `holeIndex` and `secondChild` are equal:
as long as the hole has two children one of them moves into it. -/
def descend (less : α → α → Bool) (v : List α) (hole len : Nat) : List α × Nat :=
  if hole < (len - 1) / 2 then
    descend less (move v hole (pick less v (2 * (hole + 1)))) (pick less v (2 * (hole + 1))) len
  else (v, hole)
termination_by len - hole
decreasing_by
  unfold pick
  split <;> omega

/-- `__adjust_heap` -/
def adjustHeap (less : α → α → Bool) (v : List α) (hole len : Nat) (value : α) : List α :=
  let (v, child) := descend less v hole len
  if len % 2 = 0 ∧ child = (len - 2) / 2 then
    siftUp less (move v child (2 * child + 1)) (2 * child + 1) hole value
  else siftUp less v child hole value

/-- `push_back` and `push_heap` -/
def push (less : α → α → Bool) (v : List α) (x : α) : List α := siftUp less (v ++ [x]) v.length 0 x

/-- `pop_heap` and `pop_back`: the slot that `pop_heap` moves the top to is the one that
`pop_back` takes away. -/
def pop (less : α → α → Bool) (v : List α) : List α :=
  match v.getLast? with
  | none => []
  | some value => if 1 < v.length then adjustHeap less v.dropLast 0 (v.length - 1) value else []

variable (less : α → α → Bool) {v : List α} {hole top len : Nat}

@[simp] theorem length_move (v : List α) (dest src : Nat) : (move v dest src).length = v.length := by
  unfold move
  split <;> simp

theorem move_set_perm (hdest : dest < v.length) (hsrc : src < v.length) (hne : dest ≠ src)
    (value : α) : ((move v dest src).set src value).Perm (v.set dest value) := by
  have hmove : move v dest src = v.set dest v[src] := by simp [move, hsrc]
  have hswap := @List.set_set_perm _ (v.set dest value) dest src (by simpa using hdest)
    (by simpa using hsrc)
  rw [List.set_set, List.getElem_set_self, List.getElem_set_ne hne] at hswap
  rw [hmove]
  exact hswap

theorem siftUp_perm (h : hole < v.length) (top : Nat) (value : α) :
    (siftUp less v hole top value).Perm (v.set hole value) := by
  induction v, hole using siftUp.induct less top value with
  | case1 v hole hup ih =>
    rw [siftUp, if_pos hup]
    have hlt : (hole - 1) / 2 < hole := by omega
    exact (ih (by simp; omega)).trans (move_set_perm h (by omega) (by omega) value)
  | case2 v hole hup => rw [siftUp, if_neg hup]

theorem push_perm (v : List α) (x : α) : (push less v x).Perm (v ++ [x]) := by
  have hperm : (siftUp less (v ++ [x]) v.length 0 x).Perm ((v ++ [x]).set v.length x) :=
    siftUp_perm less (by simp) 0 x
  rwa [List.set_append_right _ _ (Nat.le_refl _), Nat.sub_self, List.set_cons_zero] at hperm

theorem lt_pick (v : List α) (hole : Nat) :
    hole < pick less v (2 * (hole + 1)) := by
  unfold pick
  split <;> omega

theorem pick_lt (h : hole < (len - 1) / 2) : pick less v (2 * (hole + 1)) < len := by
  unfold pick
  split <;> omega

theorem descend_perm (hhole : hole < len) (hlen : len ≤ v.length) (value : α) :
    (descend less v hole len).2 < len ∧ (descend less v hole len).1.length = v.length ∧
      ((descend less v hole len).1.set (descend less v hole len).2 value).Perm
        (v.set hole value) := by
  induction v, hole using descend.induct less len with
  | case1 v hole hdown ih =>
    rw [descend, if_pos hdown]
    have hgt := lt_pick less v hole
    have hlt := pick_lt (v := v) less hdown
    obtain ⟨hhole', hlen', hperm⟩ := ih hlt (by simpa using hlen)
    exact ⟨hhole', by simpa using hlen',
      hperm.trans (move_set_perm (by omega) (by omega) (by omega) value)⟩
  | case2 v hole hdown =>
    rw [descend, if_neg hdown]
    exact ⟨hhole, rfl, .refl _⟩

theorem adjustHeap_perm (hhole : hole < len) (hlen : len ≤ v.length) (value : α) :
    (adjustHeap less v hole len value).Perm (v.set hole value) := by
  obtain ⟨hchild, hlength, hperm⟩ := descend_perm less hhole hlen value
  simp only [adjustHeap]
  generalize descend less v hole len = d at *
  split
  · rename_i hlast
    have hlt : 2 * d.2 + 1 < d.1.length := by omega
    exact ((siftUp_perm less (by simpa using hlt) hole value).trans
      (move_set_perm (by omega) hlt (by omega) value)).trans hperm
  · exact (siftUp_perm less (by omega) hole value).trans hperm

theorem pop_append (x : α) (v : List α) (value : α) :
    pop less (x :: (v ++ [value])) = adjustHeap less (x :: v) 0 (v.length + 1) value := by
  rw [pop, ← List.cons_append, List.getLast?_concat, List.dropLast_concat]
  simp

theorem pop_perm (x : α) (v : List α) : (pop less (x :: v)).Perm v := by
  rcases List.eq_nil_or_concat v with rfl | ⟨v, value, rfl⟩
  · exact .refl _
  · rw [List.concat_eq_append, pop_append]
    calc adjustHeap less (x :: v) 0 (v.length + 1) value
      _ ~ (x :: v).set 0 value := adjustHeap_perm less (Nat.succ_pos _) (Nat.le_refl _) value
      _ ~ v ++ [value] := (List.perm_append_singleton value v).symm

theorem siftUp_top (v : List α) (top : Nat) (value : α) :
    siftUp less v top top value = v.set top value := by
  rw [siftUp, if_neg (by simp)]

theorem push_nil (x : α) : push less [] x = [x] := siftUp_top less [x] 0 x

theorem push_singleton (a x : α) : push less [a] x = if less a x then [x, a] else [a, x] := by
  rw [push, siftUp]
  cases h : less a x with
  | true => simp [h, move, siftUp_top]
  | false => simp [h]

theorem pop_pair (a b : α) : pop less [a, b] = [b] := by
  have hpop := pop_append less a [] b
  simpa [adjustHeap, descend, siftUp_top] using hpop

variable {less : α → α → Bool} (h : ∀ a b, less a b = false)

include h in
theorem siftUp_of_not_less (v : List α) (hole top : Nat) (value : α) :
    siftUp less v hole top value = v.set hole value := by
  rw [siftUp, if_neg]
  cases v[(hole - 1) / 2]? <;> simp [h]

include h in
theorem push_of_not_less (v : List α) (x : α) : push less v x = v ++ [x] := by
  rw [push, siftUp_of_not_less h]
  simp

include h in
theorem pick_of_not_less (v : List α) (right : Nat) : pick less v right = right := by
  rw [pick, if_neg]
  cases v[right]? <;> cases v[right - 1]? <;> simp [h]

include h in
theorem pop_of_le (x : α) (v : List α) (hlen : v.length ≤ 2) : pop less (x :: v) = v := by
  match v, hlen with
  | [], _ => rfl
  | [a], _ =>
    have hpop := pop_append less x [] a
    simpa [adjustHeap, descend, siftUp_of_not_less h] using hpop
  | [a, b], _ =>
    have hpop := pop_append less x [a] b
    simpa [adjustHeap, descend, siftUp_of_not_less h, move] using hpop

theorem getElem?_move (hi : i ≠ dest) (src : Nat) : (move v dest src)[i]? = v[i]? := by
  unfold move
  split
  · exact List.getElem?_set_ne hi.symm
  · rfl

theorem getElem?_move_self (hdest : dest < v.length) (hsrc : src < v.length) :
    (move v dest src)[dest]? = v[src]? := by
  simp [move, hsrc, hdest]

theorem getElem?_descend (less : α → α → Bool) (v : List α) (len : Nat) (hi : i < hole) :
    (descend less v hole len).1[i]? = v[i]? ∧ hole ≤ (descend less v hole len).2 := by
  induction v, hole using descend.induct less len with
  | case1 v hole hdown ih =>
    rw [descend, if_pos hdown]
    have hgt := lt_pick less v hole
    obtain ⟨hget, hle⟩ := ih (by omega)
    exact ⟨hget.trans (getElem?_move (Nat.ne_of_lt hi) _), by omega⟩
  | case2 v hole hdown =>
    rw [descend, if_neg hdown]
    exact ⟨rfl, Nat.le_refl _⟩

include h in
theorem head?_adjustHeap (hlen : 3 ≤ len) (hv : len ≤ v.length) (value : α) :
    (adjustHeap less v 0 len value)[0]? = v[2]? := by
  have hmove : (move v 0 2)[0]? = v[2]? := getElem?_move_self (by omega) (by omega)
  have hdown : 0 < (len - 1) / 2 := by omega
  obtain ⟨hget, hle⟩ := getElem?_descend less (move v 0 2) len (show 0 < 2 by decide)
  simp only [adjustHeap]
  rw [descend, if_pos hdown, pick_of_not_less h]
  generalize descend less (move v 0 2) 2 len = d at *
  split
  · rw [siftUp_of_not_less h, List.getElem?_set_ne (by omega), getElem?_move (by omega), hget, hmove]
  · rw [siftUp_of_not_less h, List.getElem?_set_ne (by omega), hget, hmove]

include h in
/-- With four elements or more the third comes to the top, before the second. -/
theorem head?_pop (hlen : 4 ≤ v.length) : (pop less v).head? = v[2]? := by
  match v, hlen with
  | x :: a :: b :: c :: v, _ =>
    have hne : c :: v ≠ [] := by simp
    have hsplit : x :: a :: b :: c :: v =
        x :: ((a :: b :: (c :: v).dropLast) ++ [(c :: v).getLast hne]) := by
      simp [List.dropLast_append_getLast]
    rw [hsplit, pop_append, List.head?_eq_getElem?,
      head?_adjustHeap h (by simp) (by simp)]
    simp

include h in
theorem pop_four (a b c d : α) : pop less [a, b, c, d] = [c, b, d] := by
  have hpop := pop_append less a [b, c] d
  simpa [adjustHeap, descend, siftUp_of_not_less h, pick_of_not_less h, move] using hpop

end CLib.Heap
