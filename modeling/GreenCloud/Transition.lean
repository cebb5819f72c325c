import Mathlib.Data.Finset.Card
import Mathlib.Data.Finset.Range
import Mathlib.Logic.Basic

/-! Labelled transition systems, their runs, the invariant rule and simulation by a function.
A run carries the events of its steps, the newest first. -/

universe u v

structure Transition (σ : Type u) (ε : Type v) where
  init : σ → Prop
  step : σ → ε → σ → Prop

namespace Transition

variable {σ : Type u} {ε : Type v} {S : Transition σ ε}

inductive Run (S : Transition σ ε) : List ε → σ → Prop
  | start : S.init s → Run S [] s
  | step : Run S es s → S.step s e t → Run S (e :: es) t

theorem Run.then_ (h : S.Run es s) (e : ε) (hstep : S.step s e t) : S.Run (e :: es) t :=
  .step h hstep

/-- What holds at the start and is kept by every step holds after every run. -/
theorem Run.invariant {P : List ε → σ → Prop} (h : S.Run es s)
    (hinit : ∀ s, S.init s → P [] s)
    (hstep : ∀ es s e t, P es s → S.step s e t → P (e :: es) t) : P es s := by
  induction h with
  | start h => exact hinit _ h
  | step _ h ih => exact hstep _ _ _ _ ih h

/-- The invariant rule where the steps keep `P` only as long as `Q` holds of the events,
and `Q` of a run's events gives `Q` of those before them. -/
theorem Run.invariant_while {P : List ε → σ → Prop} {Q : List ε → Prop} (h : S.Run es s)
    (hq : Q es) (hcons : ∀ e es, Q (e :: es) → Q es)
    (hinit : ∀ s, S.init s → P [] s)
    (hstep : ∀ es s e t, Q (e :: es) → P es s → S.step s e t → P (e :: es) t) : P es s := by
  induction h with
  | start h => exact hinit _ h
  | step _ h ih => exact hstep _ _ _ _ hq (ih (hcons _ _ hq)) h

theorem Run.earlier (h : S.Run (after ++ before) s) : ∃ t, S.Run before t := by
  induction after generalizing s with
  | nil => exact ⟨s, h⟩
  | cons e after ih =>
    cases h with
    | step h _ => exact ih h

theorem Run.length_le {m : σ → Nat} (h : S.Run (after ++ before) t)
    (hstep : ∀ e newer s t, e :: newer <:+ after → S.Run (newer ++ before) s → S.step s e t →
      m t < m s) :
    ∃ s, S.Run before s ∧ after.length + m t ≤ m s := by
  induction after generalizing t with
  | nil => exact ⟨t, h, by simp⟩
  | cons e after ih =>
    cases h with
    | step hrun hlast =>
      obtain ⟨s, hs, hle⟩ := ih hrun fun e' newer s t hsuffix =>
        hstep e' newer s t (hsuffix.trans (List.suffix_cons e _))
      have hlt := hstep e after _ _ (List.suffix_refl _) hrun hlast
      refine ⟨s, hs, ?_⟩
      rw [List.length_cons]
      omega

theorem Run.unique (h : S.Run es s) (h' : S.Run es s')
    (hinit : ∀ s s', S.init s → S.init s' → s = s')
    (hstep : ∀ s e t t', S.step s e t → S.step s e t' → t = t') : s = s' := by
  induction h generalizing s' with
  | start h =>
    cases h' with
    | start h' => exact hinit _ _ h h'
  | step _ h ih =>
    cases h' with
    | step hrun h' =>
      cases ih hrun
      exact hstep _ _ _ _ h h'

theorem Run.map {τ : Type u} {T : Transition τ ε} (f : σ → τ) (h : S.Run es s)
    (hinit : ∀ s, S.init s → T.init (f s))
    (hstep : ∀ s e t, S.step s e t → T.step (f s) e (f t)) : T.Run es (f s) := by
  induction h with
  | start h => exact .start (hinit _ h)
  | step _ h ih => exact .step ih (hstep _ _ _ h)

/-- Where a function takes each step to a step, or to none, it takes a run to one of the steps that are
left. -/
theorem Run.refine {τ : Type*} {ε' : Type*} {T : Transition τ ε'} (f : σ → τ) (g : ε → Option ε')
    (h : S.Run es s) (hinit : ∀ s, S.init s → T.init (f s))
    (hnone : ∀ es s e t, S.Run es s → S.step s e t → g e = none → f t = f s)
    (hsome : ∀ es s e t x, S.Run es s → S.step s e t → g e = some x → T.step (f s) x (f t)) :
    T.Run (es.filterMap g) (f s) := by
  induction h with
  | start h => exact .start (hinit _ h)
  | @step es s e t hrun h ih =>
    cases hg : g e with
    | none =>
      rw [List.filterMap_cons_none hg, hnone es s e t hrun h hg]
      exact ih
    | some x =>
      rw [List.filterMap_cons_some hg]
      exact ih.step (hsome es s e t x hrun h hg)

/-- Where every step can be answered by one that shows the same, a run has a run of the other system
that shows the same event by event. `R` relates the states, as long as `Q` holds of the events. -/
theorem Run.simulate {τ : Type*} {ε' κ : Type*} {T : Transition τ ε'} {R : List ε → σ → τ → Prop}
    {Q : List ε → Prop} {shown : ε → κ} {shown' : ε' → κ} (h : S.Run es s)
    (hq : Q es) (hcons : ∀ e es, Q (e :: es) → Q es)
    (hinit : ∀ s, S.init s → ∃ t, T.init t ∧ R [] s t)
    (hstep : ∀ es s e s' t, Q (e :: es) → R es s t → S.step s e s' →
      ∃ x t', T.step t x t' ∧ shown' x = shown e ∧ R (e :: es) s' t') :
    ∃ xs t, T.Run xs t ∧ xs.map shown' = es.map shown ∧ R es s t := by
  induction h with
  | start h =>
    obtain ⟨t, ht, hr⟩ := hinit _ h
    exact ⟨[], t, .start ht, rfl, hr⟩
  | step _ h ih =>
    obtain ⟨xs, t, hrun, hshown, hr⟩ := ih (hcons _ _ hq)
    obtain ⟨x, t', ht, hx, hr'⟩ := hstep _ _ _ _ _ hq hr h
    exact ⟨x :: xs, t', hrun.step ht, by rw [List.map_cons, List.map_cons, hx, hshown], hr'⟩

/-- Event number `i` of the run, from its start, is `e`. -/
def Occurs (es : List ε) (i : Nat) (e : ε) : Prop := es.reverse[i]? = some e

theorem not_occurs_nil (i : Nat) (e : ε) : ¬ Occurs [] i e := by
  simp [Occurs]

theorem occurs_cons : Occurs (e :: es) i x ↔ Occurs es i x ∨ (i = es.length ∧ x = e) := by
  unfold Occurs
  rw [List.reverse_cons, List.getElem?_append, List.length_reverse]
  split
  · have hne : i ≠ es.length := by omega
    simp [hne]
  · have hnone : es.reverse[i]? = none := List.getElem?_eq_none (by simp; omega)
    rw [hnone]
    cases hi : i - es.length with
    | zero =>
      have : i = es.length := by omega
      simp [this, eq_comm]
    | succ k =>
      have : i ≠ es.length := by omega
      simp [this]

theorem Occurs.lt {es : List ε} (h : Occurs es i e) : i < es.length := by
  obtain ⟨hlt, -⟩ := List.getElem?_eq_some_iff.mp h
  simpa using hlt

theorem Occurs.cons {es : List ε} (h : Occurs es i x) : Occurs (e :: es) i x :=
  occurs_cons.mpr (.inl h)

theorem occurs_length (e : ε) (es : List ε) : Occurs (e :: es) es.length e :=
  occurs_cons.mpr (.inr ⟨rfl, rfl⟩)

theorem Occurs.unique {es : List ε} (h : Occurs es i e) (h' : Occurs es i e') : e = e' :=
  Option.some.inj (h.symm.trans h')

theorem occurs_map {κ : Type*} {f : ε → κ} {es : List ε} {y : κ} :
    Occurs (es.map f) i y ↔ ∃ e, Occurs es i e ∧ f e = y := by
  rw [Occurs, ← List.map_reverse, List.getElem?_map, Option.map_eq_some_iff]
  rfl

theorem occurs_append (after before : List ε) (x : ε) :
    Occurs (after ++ x :: before) before.length x := by
  rw [Occurs, List.reverse_append, List.reverse_cons, List.append_assoc,
    List.getElem?_append_right (by simp), List.length_reverse, Nat.sub_self]
  rfl

theorem occurs_append_iff {before : List ε} (after : List ε) (h : i < before.length) :
    Occurs (after ++ before) i x ↔ Occurs before i x := by
  rw [Occurs, List.reverse_append, List.getElem?_append_left (by rwa [List.length_reverse])]
  rfl

theorem Occurs.mem {after before : List ε} (h : Occurs (after ++ before) i x) (hi : before.length ≤ i) :
    x ∈ after := by
  rw [Occurs, List.reverse_append, List.getElem?_append_right (by rwa [List.length_reverse])] at h
  exact List.mem_reverse.mp (List.mem_of_getElem? h)

theorem Occurs.split {es : List ε} (h : Occurs es i x) :
    ∃ after before, es = after ++ x :: before ∧ before.length = i := by
  have hlt := h.lt
  refine ⟨es.take (es.length - 1 - i), es.drop (es.length - i), ?_, by rw [List.length_drop]; omega⟩
  have hget : es[es.length - 1 - i]? = some x := by
    rwa [Occurs, List.getElem?_reverse hlt] at h
  have hdrop : es.drop (es.length - 1 - i) = x :: es.drop (es.length - i) := by
    obtain ⟨hin, hx⟩ := List.getElem?_eq_some_iff.mp hget
    rw [List.drop_eq_getElem_cons hin, hx]
    congr 2
    omega
  rw [← hdrop, List.take_append_drop]

open Classical in
theorem card_occurs (p : ε → Bool) (es : List ε) :
    ((Finset.range es.length).filter fun i => ∃ x, Occurs es i x ∧ p x).card = es.countP p := by
  induction es with
  | nil => rfl
  | cons e es ih =>
    have hold : (Finset.range es.length).filter (fun i => ∃ x, Occurs (e :: es) i x ∧ p x) =
        (Finset.range es.length).filter fun i => ∃ x, Occurs es i x ∧ p x := by
      refine Finset.filter_congr fun i hi => exists_congr fun x => and_congr_left fun _ => ?_
      rw [occurs_cons, or_iff_left fun h => Nat.ne_of_lt (Finset.mem_range.mp hi) h.1]
    have hnew : (∃ x, Occurs (e :: es) es.length x ∧ p x) ↔ p e := by
      constructor
      · rintro ⟨x, hx, hp⟩
        rwa [hx.unique (occurs_length e es)] at hp
      · exact fun hp => ⟨e, occurs_length e es, hp⟩
    rw [List.length_cons, Finset.range_add_one, Finset.filter_insert, hold, List.countP_cons, ← ih]
    by_cases hp : p e
    · rw [if_pos (hnew.mpr hp), if_pos hp, Finset.card_insert_of_notMem (by simp)]
    · rw [if_neg (mt hnew.mp hp), if_neg hp, Nat.add_zero]

/-- Where different events of one kind have different events of another kind, and there are no more of
these, each of these has one. -/
theorem exists_of_countP_le {f : Nat → Nat} {p q : ε → Bool} {es : List ε}
    (hmap : ∀ a x, Occurs es a x → p x → ∃ y, Occurs es (f a) y ∧ q y)
    (hinj : ∀ a a' x x', Occurs es a x → p x → Occurs es a' x' → p x' → f a = f a' → a = a')
    (hle : es.countP q ≤ es.countP p) (hi : Occurs es i y) (hy : q y) :
    ∃ a x, Occurs es a x ∧ p x ∧ f a = i := by
  classical
  rw [← card_occurs, ← card_occurs] at hle
  have hsubset : ((Finset.range es.length).filter fun i => ∃ x, Occurs es i x ∧ p x).image f ⊆
      (Finset.range es.length).filter fun i => ∃ x, Occurs es i x ∧ q x := by
    intro j hj
    obtain ⟨a, ha, rfl⟩ := Finset.mem_image.mp hj
    obtain ⟨x, hx, hp⟩ := (Finset.mem_filter.mp ha).2
    obtain ⟨y, hy, hq⟩ := hmap a x hx hp
    exact Finset.mem_filter.mpr ⟨Finset.mem_range.mpr hy.lt, y, hy, hq⟩
  have hcard := Finset.card_image_of_injOn
    (s := (Finset.range es.length).filter fun i => ∃ x, Occurs es i x ∧ p x) (f := f) fun a ha a' ha' => by
      obtain ⟨x, hx, hp⟩ := (Finset.mem_filter.mp ha).2
      obtain ⟨x', hx', hp'⟩ := (Finset.mem_filter.mp ha').2
      exact hinj a a' x x' hx hp hx' hp'
  have hmem : i ∈ (Finset.range es.length).filter fun i => ∃ x, Occurs es i x ∧ q x :=
    Finset.mem_filter.mpr ⟨Finset.mem_range.mpr hi.lt, y, hi, hy⟩
  rw [← Finset.eq_of_subset_of_card_le hsubset (by omega)] at hmem
  obtain ⟨a, ha, rfl⟩ := Finset.mem_image.mp hmem
  obtain ⟨x, hx, hp⟩ := (Finset.mem_filter.mp ha).2
  exact ⟨a, x, hx, hp, rfl⟩

end Transition
