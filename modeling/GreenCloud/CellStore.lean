import GreenCloud.Transition
import Mathlib.Logic.Function.Basic
import Mathlib.Tactic.Choose

/-! A store of cells whose requests overlap. A request is called, reads or writes its cells one at a
time and in any order, and is answered. Every cell is a regular register: what a request reads there
has not been overwritten before the request was called. -/

namespace CellStore

open Transition

/-- Requests `ρ` on cells `ι` with values `α`: the cells that a request reads, the values that it may
write to a cell, and the answers `ω` it may get when `done` is what it read and wrote. -/
structure Spec (ρ ι α ω : Type*) where
  reads : ρ → ι → Prop
  writes : ρ → ι → α → Prop
  replies : ρ → (ι → Option α) → ω → Prop
  reads_only : reads req p → ¬ writes req p v

inductive Phase (ρ ι α : Type*)
  | idle
  | called (req : ρ) (done : ι → Option α)
  | answered

/-- Every call has a tag of its own. -/
structure State (τ ρ ι α : Type*) where
  cells : ι → α
  phase : τ → Phase ρ ι α

inductive Event (τ ρ ι α ω : Type*)
  | called (tag : τ) (req : ρ)
  | read (tag : τ) (cell : ι) (value : α)
  | wrote (tag : τ) (cell : ι) (value : α)
  | answered (tag : τ) (resp : ω)
  | silent

variable {τ ρ ι α ω : Type*} {D : Spec ρ ι α ω} {init : ι → α} {s t : State τ ρ ι α}
variable {es : List (Event τ ρ ι α ω)} {e : Event τ ρ ι α ω} {tag : τ} {p : ι} {v : α}

def Spec.Complete (D : Spec ρ ι α ω) (req : ρ) (done : ι → Option α) : Prop :=
  ∀ p, (D.reads req p ∨ ∃ v, D.writes req p v) → ∃ v, done p = some v

def Event.tag? : Event τ ρ ι α ω → Option τ
  | called tag _ | read tag _ _ | wrote tag _ _ | answered tag _ => some tag
  | silent => none

def Touched (es : List (Event τ ρ ι α ω)) (k : Nat) (tag : τ) (p : ι) (v : α) : Prop :=
  Occurs es k (.read tag p v) ∨ Occurs es k (.wrote tag p v)

def Latest (init : ι → α) (es : List (Event τ ρ ι α ω)) (k : Nat) (p : ι) (v : α) : Prop :=
  (∃ j tag, j < k ∧ Occurs es j (.wrote tag p v) ∧
    ∀ j' tag' v', j < j' → j' < k → ¬ Occurs es j' (.wrote tag' p v')) ∨
  v = init p ∧ ∀ j tag' v', j < k → ¬ Occurs es j (.wrote tag' p v')

def Told (es : List (Event τ ρ ι α ω)) (tag : τ) : Phase ρ ι α → Prop
  | .idle => ∀ i req, ¬ Occurs es i (.called tag req)
  | .called req done => ∃ i, Occurs es i (.called tag req) ∧
      (∀ a resp, ¬ Occurs es a (.answered tag resp)) ∧
      ∀ p v, done p = some v → ∃ k, i < k ∧ Touched es k tag p v
  | .answered => True

/-- The invariant: a tag is called once, is at work between its call and its answer, and finds the
latest values. -/
structure Recorded (D : Spec ρ ι α ω) (init : ι → α) (es : List (Event τ ρ ι α ω))
    (s : State τ ρ ι α) : Prop where
  told : ∀ tag, Told es tag (s.phase tag)
  once : ∀ i j tag req req', Occurs es i (.called tag req) → Occurs es j (.called tag req') → i = j
  wrote : ∀ k tag p v, Occurs es k (.wrote tag p v) →
    ∃ i req, i < k ∧ Occurs es i (.called tag req) ∧ D.writes req p v ∧
      ∀ a resp, Occurs es a (.answered tag resp) → k < a
  read : ∀ k tag p v, Occurs es k (.read tag p v) →
    Latest init es k p v ∧ ∃ i req, Occurs es i (.called tag req) ∧ D.reads req p
  answered : ∀ a tag resp, Occurs es a (.answered tag resp) →
    ∃ i req done, i < a ∧ Occurs es i (.called tag req) ∧ D.Complete req done ∧
      D.replies req done resp ∧
      ∀ p v, done p = some v → ∃ k, i < k ∧ k < a ∧ Touched es k tag p v
  last : ∀ a a' tag resp resp', Occurs es a (.answered tag resp) →
    Occurs es a' (.answered tag resp') → a = a'
  cells : ∀ p, Latest init es es.length p (s.cells p)

theorem Touched.cons (h : Touched es k tag p v) : Touched (e :: es) k tag p v :=
  h.imp Occurs.cons Occurs.cons

theorem Touched.lt (h : Touched es k tag p v) : k < es.length := h.elim Occurs.lt Occurs.lt

theorem occurs_of_lt (hk : k < es.length) (h : Occurs (e :: es) k x) : Occurs es k x := by
  rcases occurs_cons.mp h with h | ⟨rfl, -⟩
  · exact h
  · exact absurd hk (Nat.lt_irrefl _)

theorem occurs_of_ne (hne : x ≠ e) (h : Occurs (e :: es) k x) : Occurs es k x := by
  rcases occurs_cons.mp h with h | ⟨-, rfl⟩
  · exact h
  · exact absurd rfl hne

theorem Latest.cons (h : Latest init es k p v) (hk : k ≤ es.length) : Latest init (e :: es) k p v := by
  rcases h with ⟨j, tag, hj, hwrote, hlast⟩ | ⟨hinit, hnone⟩
  · exact .inl ⟨j, tag, hj, hwrote.cons, fun j' tag' v' hlt hlt' hwrote' =>
      hlast j' tag' v' hlt hlt' (occurs_of_lt (Nat.lt_of_lt_of_le hlt' hk) hwrote')⟩
  · exact .inr ⟨hinit, fun j tag' v' hlt hwrote' =>
      hnone j tag' v' hlt (occurs_of_lt (Nat.lt_of_lt_of_le hlt hk) hwrote')⟩

theorem Latest.succ (h : Latest init es es.length p v) (he : ∀ tag v', e ≠ .wrote tag p v') :
    Latest init (e :: es) (e :: es).length p v := by
  rcases h with ⟨j, tag, hj, hwrote, hlast⟩ | ⟨hinit, hnone⟩
  · refine .inl ⟨j, tag, Nat.lt_succ_of_lt hj, hwrote.cons, fun j' tag' v' hlt _ hwrote' => ?_⟩
    have hold := occurs_of_ne (he tag' v').symm hwrote'
    exact hlast j' tag' v' hlt hold.lt hold
  · refine .inr ⟨hinit, fun j tag' v' _ hwrote' => ?_⟩
    have hold := occurs_of_ne (he tag' v').symm hwrote'
    exact hnone j tag' v' hold.lt hold

theorem latest_wrote (init : ι → α) (es : List (Event τ ρ ι α ω)) (tag : τ) (p : ι) (v : α) :
    Latest init (.wrote tag p v :: es) (es.length + 1) p v :=
  .inl ⟨es.length, tag, Nat.lt_succ_self _, occurs_length _ _, fun _ _ _ _ _ => by omega⟩

theorem Told.cons {phase : Phase ρ ι α} (h : Told es tag phase) (hne : e.tag? ≠ some tag) :
    Told (e :: es) tag phase := by
  have hold : ∀ {i x}, Occurs (e :: es) i x → x.tag? = some tag → Occurs es i x := by
    rintro i x hx htag
    exact occurs_of_ne (by rintro rfl; exact hne htag) hx
  cases phase with
  | idle => exact fun i req hcalled => h i req (hold hcalled rfl)
  | answered => trivial
  | called req done =>
    obtain ⟨i, hcalled, hopen, hdone⟩ := h
    refine ⟨i, hcalled.cons, fun a resp hanswered => hopen a resp (hold hanswered rfl), ?_⟩
    intro p v hp
    obtain ⟨k, hik, htouched⟩ := hdone p v hp
    exact ⟨k, hik, htouched.cons⟩

variable [DecidableEq ι]

theorem Told.touch {req : ρ} {done : ι → Option α} (h : Told es tag (.called req done))
    (he : e = .read tag p v ∨ e = .wrote tag p v) :
    Told (e :: es) tag (.called req (Function.update done p (some v))) := by
  obtain ⟨i, hcalled, hopen, hdone⟩ := h
  refine ⟨i, hcalled.cons, fun a resp hanswered => ?_, fun q w hq => ?_⟩
  · exact hopen a resp (occurs_of_ne (by rcases he with rfl | rfl <;> simp) hanswered)
  · by_cases hqp : q = p
    · subst hqp
      rw [Function.update_self, Option.some.injEq] at hq
      subst hq
      refine ⟨es.length, hcalled.lt, ?_⟩
      rcases he with rfl | rfl
      · exact .inl (occurs_length _ _)
      · exact .inr (occurs_length _ _)
    · rw [Function.update_of_ne hqp] at hq
      obtain ⟨k, hik, htouched⟩ := hdone q w hq
      exact ⟨k, hik, htouched.cons⟩

variable [DecidableEq τ]

def State.move (s : State τ ρ ι α) (tag : τ) (phase : Phase ρ ι α) : State τ ρ ι α :=
  { s with phase := Function.update s.phase tag phase }

def State.put (s : State τ ρ ι α) (p : ι) (v : α) : State τ ρ ι α :=
  { s with cells := Function.update s.cells p v }

def Step (D : Spec ρ ι α ω) (s : State τ ρ ι α) (e : Event τ ρ ι α ω) (t : State τ ρ ι α) : Prop :=
  match e with
  | .called tag req => s.phase tag = .idle ∧ t = s.move tag (.called req fun _ => none)
  | .read tag p v => ∃ req done, s.phase tag = .called req done ∧ D.reads req p ∧ done p = none ∧
      v = s.cells p ∧ t = s.move tag (.called req (Function.update done p (some v)))
  | .wrote tag p v => ∃ req done, s.phase tag = .called req done ∧ D.writes req p v ∧
      done p = none ∧ t = (s.put p v).move tag (.called req (Function.update done p (some v)))
  | .answered tag resp => ∃ req done, s.phase tag = .called req done ∧ D.Complete req done ∧
      D.replies req done resp ∧ t = s.move tag .answered
  | .silent => t = s

def store (τ : Type*) [DecidableEq τ] (D : Spec ρ ι α ω) (init : ι → α) :
    Transition (State τ ρ ι α) (Event τ ρ ι α ω) where
  init s := s = ⟨init, fun _ => .idle⟩
  step := Step D

omit [DecidableEq ι] in
@[simp] theorem State.phase_move (s : State τ ρ ι α) (tag : τ) (phase : Phase ρ ι α) :
    (s.move tag phase).phase tag = phase :=
  Function.update_self ..

omit [DecidableEq ι] in
theorem State.phase_move_of_ne (s : State τ ρ ι α) (phase : Phase ρ ι α) (h : tag' ≠ tag) :
    (s.move tag phase).phase tag' = s.phase tag' :=
  Function.update_of_ne h ..

omit [DecidableEq ι] in
@[simp] theorem State.cells_move (s : State τ ρ ι α) (tag : τ) (phase : Phase ρ ι α) :
    (s.move tag phase).cells = s.cells := rfl

theorem phase_of_step (h : Step D s e t) (hne : e.tag? ≠ some tag) : t.phase tag = s.phase tag := by
  have hother : ∀ {u : State τ ρ ι α} {tag'} phase, some tag' ≠ some tag →
      (u.move tag' phase).phase tag = u.phase tag :=
    fun phase htag => State.phase_move_of_ne _ phase fun heq => htag (congrArg some heq.symm)
  cases e with
  | called tag' req =>
    obtain ⟨-, rfl⟩ := h
    exact hother _ hne
  | read tag' p v =>
    obtain ⟨_, _, -, -, -, -, rfl⟩ := h
    exact hother _ hne
  | wrote tag' p v =>
    obtain ⟨_, _, -, -, -, rfl⟩ := h
    exact hother _ hne
  | answered tag' resp =>
    obtain ⟨_, _, -, -, -, rfl⟩ := h
    exact hother _ hne
  | silent => rw [h]

theorem cells_of_step (h : Step D s e t) (hne : ∀ tag v, e ≠ .wrote tag p v) :
    t.cells p = s.cells p := by
  cases e with
  | called tag req =>
    obtain ⟨-, rfl⟩ := h
    rfl
  | read tag q v =>
    obtain ⟨_, _, -, -, -, -, rfl⟩ := h
    rfl
  | wrote tag q v =>
    obtain ⟨_, _, -, -, -, rfl⟩ := h
    exact Function.update_of_ne (by rintro rfl; exact hne tag v rfl) ..
  | answered tag resp =>
    obtain ⟨_, _, -, -, -, rfl⟩ := h
    rfl
  | silent => rw [h]

namespace Recorded

omit [DecidableEq ι] [DecidableEq τ] in
theorem start (D : Spec ρ ι α ω) (init : ι → α) :
    Recorded (τ := τ) D init [] ⟨init, fun _ => .idle⟩ where
  told _ _ _ h := absurd h (not_occurs_nil _ _)
  once _ _ _ _ _ h := absurd h (not_occurs_nil _ _)
  wrote _ _ _ _ h := absurd h (not_occurs_nil _ _)
  read _ _ _ _ h := absurd h (not_occurs_nil _ _)
  answered _ _ _ h := absurd h (not_occurs_nil _ _)
  last _ _ _ _ _ h := absurd h (not_occurs_nil _ _)
  cells _ := .inr ⟨rfl, fun _ _ _ hlt => absurd hlt (Nat.not_lt_zero _)⟩

theorem told_step (h : Recorded D init es s) (hstep : Step D s e t) (tag : τ) :
    Told (e :: es) tag (t.phase tag) := by
  by_cases hne : e.tag? = some tag
  · have htold := h.told tag
    cases e with
    | called tag' req =>
      obtain rfl := Option.some.inj hne
      obtain ⟨hidle, rfl⟩ := hstep
      rw [hidle] at htold
      rw [State.phase_move]
      refine ⟨es.length, occurs_length _ _, fun a resp hanswered => ?_, by simp⟩
      obtain ⟨i, req', -, -, hcalled, -⟩ := h.answered a tag' resp (occurs_of_ne (by simp) hanswered)
      exact htold i req' hcalled
    | read tag' p v =>
      obtain rfl := Option.some.inj hne
      obtain ⟨req, done, hcalled, -, -, -, rfl⟩ := hstep
      rw [hcalled] at htold
      rw [State.phase_move]
      exact htold.touch (.inl rfl)
    | wrote tag' p v =>
      obtain rfl := Option.some.inj hne
      obtain ⟨req, done, hcalled, -, -, rfl⟩ := hstep
      rw [hcalled] at htold
      rw [State.phase_move]
      exact htold.touch (.inr rfl)
    | answered tag' resp =>
      obtain rfl := Option.some.inj hne
      obtain ⟨_, _, -, -, -, rfl⟩ := hstep
      rw [State.phase_move]
      trivial
    | silent => cases hne
  · rw [phase_of_step hstep hne]
    exact (h.told tag).cons hne

theorem once_step (h : Recorded D init es s) (hstep : Step D s e t)
    (hi : Occurs (e :: es) i (.called tag req)) (hj : Occurs (e :: es) j (.called tag req')) :
    i = j := by
  -- The tag of a new call was not called before.
  have hfresh : ∀ {k l req req'}, Occurs es k (.called tag req) →
      ¬ (l = es.length ∧ .called tag req' = e) := by
    rintro k l req _ hold ⟨-, rfl⟩
    obtain ⟨hidle, -⟩ := hstep
    have htold := h.told tag
    rw [hidle] at htold
    exact htold k req hold
  rcases occurs_cons.mp hi with hi | hi <;> rcases occurs_cons.mp hj with hj | hj
  · exact h.once i j tag req req' hi hj
  · exact absurd hj (hfresh hi)
  · exact absurd hi (hfresh hj)
  · exact hi.1.trans hj.1.symm

theorem wrote_step (h : Recorded D init es s) (hstep : Step D s e t)
    (hk : Occurs (e :: es) k (.wrote tag p v)) :
    ∃ i req, i < k ∧ Occurs (e :: es) i (.called tag req) ∧ D.writes req p v ∧
      ∀ a resp, Occurs (e :: es) a (.answered tag resp) → k < a := by
  rcases occurs_cons.mp hk with hk | ⟨rfl, rfl⟩
  · obtain ⟨i, req, hik, hcalled, hwrites, hopen⟩ := h.wrote k tag p v hk
    refine ⟨i, req, hik, hcalled.cons, hwrites, fun a resp hanswered => ?_⟩
    rcases occurs_cons.mp hanswered with hanswered | ⟨rfl, -⟩
    · exact hopen a resp hanswered
    · exact hk.lt
  · obtain ⟨req, done, hcalled, hwrites, -, -⟩ := hstep
    have htold := h.told tag
    rw [hcalled] at htold
    obtain ⟨i, hcalled, hopen, -⟩ := htold
    exact ⟨i, req, hcalled.lt, hcalled.cons, hwrites, fun a resp hanswered =>
      absurd (occurs_of_ne (by simp) hanswered) (hopen a resp)⟩

theorem read_step (h : Recorded D init es s) (hstep : Step D s e t)
    (hk : Occurs (e :: es) k (.read tag p v)) :
    Latest init (e :: es) k p v ∧ ∃ i req, Occurs (e :: es) i (.called tag req) ∧ D.reads req p := by
  rcases occurs_cons.mp hk with hk | ⟨rfl, rfl⟩
  · obtain ⟨hlatest, i, req, hcalled, hreads⟩ := h.read k tag p v hk
    exact ⟨hlatest.cons (Nat.le_of_lt hk.lt), i, req, hcalled.cons, hreads⟩
  · obtain ⟨req, done, hcalled, hreads, -, rfl, -⟩ := hstep
    have htold := h.told tag
    rw [hcalled] at htold
    obtain ⟨i, hcalled, -⟩ := htold
    exact ⟨(h.cells p).cons (Nat.le_refl _), i, req, hcalled.cons, hreads⟩

theorem answered_step (h : Recorded D init es s) (hstep : Step D s e t)
    (ha : Occurs (e :: es) a (.answered tag resp)) :
    ∃ i req done, i < a ∧ Occurs (e :: es) i (.called tag req) ∧ D.Complete req done ∧
      D.replies req done resp ∧
      ∀ p v, done p = some v → ∃ k, i < k ∧ k < a ∧ Touched (e :: es) k tag p v := by
  rcases occurs_cons.mp ha with ha | ⟨rfl, rfl⟩
  · obtain ⟨i, req, done, hia, hcalled, hcomplete, hreplies, hdone⟩ := h.answered a tag resp ha
    refine ⟨i, req, done, hia, hcalled.cons, hcomplete, hreplies, fun p v hp => ?_⟩
    obtain ⟨k, hik, hka, htouched⟩ := hdone p v hp
    exact ⟨k, hik, hka, htouched.cons⟩
  · obtain ⟨req, done, hcalled, hcomplete, hreplies, -⟩ := hstep
    have htold := h.told tag
    rw [hcalled] at htold
    obtain ⟨i, hcalled, -, hdone⟩ := htold
    refine ⟨i, req, done, hcalled.lt, hcalled.cons, hcomplete, hreplies, fun p v hp => ?_⟩
    obtain ⟨k, hik, htouched⟩ := hdone p v hp
    exact ⟨k, hik, htouched.lt, htouched.cons⟩

theorem last_step (h : Recorded D init es s) (hstep : Step D s e t)
    (ha : Occurs (e :: es) a (.answered tag resp))
    (ha' : Occurs (e :: es) a' (.answered tag resp')) : a = a' := by
  -- The tag of a new answer was not answered before.
  have hfresh : ∀ {k l resp resp'}, Occurs es k (.answered tag resp) →
      ¬ (l = es.length ∧ .answered tag resp' = e) := by
    rintro k l resp _ hold ⟨-, rfl⟩
    obtain ⟨req, done, hcalled, -⟩ := hstep
    have htold := h.told tag
    rw [hcalled] at htold
    obtain ⟨-, -, hopen, -⟩ := htold
    exact hopen k resp hold
  rcases occurs_cons.mp ha with ha | ha <;> rcases occurs_cons.mp ha' with ha' | ha'
  · exact h.last a a' tag resp resp' ha ha'
  · exact absurd ha' (hfresh ha)
  · exact absurd ha (hfresh ha')
  · exact ha.1.trans ha'.1.symm

theorem cells_step (h : Recorded D init es s) (hstep : Step D s e t) (p : ι) :
    Latest init (e :: es) (e :: es).length p (t.cells p) := by
  by_cases he : ∃ tag v, e = .wrote tag p v
  · obtain ⟨tag, v, rfl⟩ := he
    obtain ⟨_, _, -, -, -, rfl⟩ := hstep
    have hput : (s.put p v).cells p = v := Function.update_self ..
    rw [State.cells_move, hput]
    exact latest_wrote init es tag p v
  · have hne : ∀ tag v, e ≠ .wrote tag p v := fun tag v heq => he ⟨tag, v, heq⟩
    rw [cells_of_step hstep hne]
    exact (h.cells p).succ hne

theorem step (h : Recorded D init es s) (hstep : Step D s e t) : Recorded D init (e :: es) t where
  told := h.told_step hstep
  once _ _ _ _ _ := h.once_step hstep
  wrote _ _ _ _ := h.wrote_step hstep
  read _ _ _ _ := h.read_step hstep
  answered _ _ _ := h.answered_step hstep
  last _ _ _ _ _ := h.last_step hstep
  cells := h.cells_step hstep

end Recorded

theorem recorded_of_run (h : (store τ D init).Run es s) : Recorded D init es s := by
  apply h.invariant
  · rintro _ rfl
    exact .start D init
  · intro es s e t hs hstep
    exact hs.step hstep

omit [DecidableEq ι] [DecidableEq τ] in
theorem Recorded.exists_call (h : Recorded D init es s) : ∃ f : Nat → Nat,
    (∀ a tag resp, Occurs es a (.answered tag resp) →
      f a < a ∧ ∃ req, Occurs es (f a) (.called tag req)) ∧
    ∀ a a' tag tag' resp resp', Occurs es a (.answered tag resp) →
      Occurs es a' (.answered tag' resp') → f a = f a' → a = a' := by
  have hcall : ∀ a, ∃ i, ∀ tag resp, Occurs es a (.answered tag resp) →
      i < a ∧ ∃ req, Occurs es i (.called tag req) := by
    intro a
    by_cases ha : ∃ tag resp, Occurs es a (.answered tag resp)
    · obtain ⟨tag, resp, ha⟩ := ha
      obtain ⟨i, req, -, hia, hcalled, -⟩ := h.answered a tag resp ha
      refine ⟨i, fun tag' resp' ha' => ?_⟩
      cases ha.unique ha'
      exact ⟨hia, req, hcalled⟩
    · exact ⟨0, fun tag resp hanswered => absurd ⟨tag, resp, hanswered⟩ ha⟩
  choose f hf using hcall
  refine ⟨f, hf, fun a a' tag tag' resp resp' ha ha' heq => ?_⟩
  obtain ⟨-, req, hcalled⟩ := hf a tag resp ha
  obtain ⟨-, req', hcalled'⟩ := hf a' tag' resp' ha'
  rw [← heq] at hcalled'
  cases hcalled.unique hcalled'
  exact h.last a a' tag resp resp' ha ha'

/-- Before event `i` another request was answered that writes the cell and that was called after the
answer to the request with the tag. -/
def Overwritten (D : Spec ρ ι α ω) (es : List (Event τ ρ ι α ω)) (i : Nat) (tag : τ) (p : ι) : Prop :=
  ∃ a resp j tag' req' v' a' resp', Occurs es a (.answered tag resp) ∧ a < j ∧
    Occurs es j (.called tag' req') ∧ D.writes req' p v' ∧ Occurs es a' (.answered tag' resp') ∧ a' < i

/-- The value may be read by a request that was called as event `i` and answered as event `a`: a
request wrote it that was called in time and has not been overwritten, or nobody had written. -/
def Readable (D : Spec ρ ι α ω) (init : ι → α) (es : List (Event τ ρ ι α ω)) (i a : Nat) (p : ι)
    (v : α) : Prop :=
  (∃ j tag req, Occurs es j (.called tag req) ∧ j < a ∧ D.writes req p v ∧
    ¬ Overwritten D es i tag p) ∨
  v = init p ∧ ∀ a' tag resp j req v', Occurs es a' (.answered tag resp) → a' < i →
    Occurs es j (.called tag req) → ¬ D.writes req p v'

variable {a : Nat} {req : ρ} {resp : ω}

omit [DecidableEq ι] [DecidableEq τ] in
theorem Recorded.wrote_of_answered (h : Recorded D init es s)
    (ha : Occurs es a (.answered tag resp)) (hj : Occurs es j (.called tag req))
    (hwrites : D.writes req p v) : ∃ k v', j < k ∧ k < a ∧ Occurs es k (.wrote tag p v') := by
  obtain ⟨i, req', done, -, hcalled, hcomplete, -, hdone⟩ := h.answered a tag resp ha
  obtain rfl := h.once i j tag req' req hcalled hj
  cases hcalled.unique hj
  obtain ⟨v', hv'⟩ := hcomplete p (.inr ⟨v, hwrites⟩)
  obtain ⟨k, hik, hka, htouched⟩ := hdone p v' hv'
  refine ⟨k, v', hik, hka, htouched.resolve_left fun hread => ?_⟩
  obtain ⟨-, i', req'', hcalled', hreads⟩ := h.read k tag p v' hread
  obtain rfl := h.once i' i tag req'' req hcalled' hj
  cases hcalled'.unique hj
  exact D.reads_only hreads hwrites

omit [DecidableEq ι] [DecidableEq τ] in
/-- The latest value before event `k` may be read by a request that is at work then. -/
theorem Recorded.readable (h : Recorded D init es s) (hlatest : Latest init es k p v) (hik : i < k)
    (hka : k < a) : Readable D init es i a p v := by
  rcases hlatest with ⟨j, tag, hjk, hwrote, hlast⟩ | ⟨hinit, hnone⟩
  · obtain ⟨c, req, hcj, hcalled, hwrites, hopen⟩ := h.wrote j tag p v hwrote
    refine .inl ⟨c, tag, req, hcalled, by omega, hwrites, ?_⟩
    rintro ⟨b, resp, c', tag', req', v', b', resp', hanswered, hbc, hcalled', hwrites', hanswered',
      hbi⟩
    obtain ⟨k', v'', hck, hkb, hwrote'⟩ := h.wrote_of_answered hanswered' hcalled' hwrites'
    have hjb := hopen b resp hanswered
    exact hlast k' tag' v'' (by omega) (by omega) hwrote'
  · refine .inr ⟨hinit, fun b tag' resp c req' v' hanswered hbi hcalled hwrites => ?_⟩
    obtain ⟨k', v'', -, hkb, hwrote⟩ := h.wrote_of_answered hanswered hcalled hwrites
    exact hnone k' tag' v'' (by omega) hwrote

/-- Whatever overlaps, an answer is one that its request may get for values that were readable. -/
theorem run_regular (h : (store τ D init).Run es s) (ha : Occurs es a (.answered tag resp)) :
    ∃ i req done, i < a ∧ Occurs es i (.called tag req) ∧ D.Complete req done ∧
      D.replies req done resp ∧
      ∀ p v, D.reads req p → done p = some v → Readable D init es i a p v := by
  have hs := recorded_of_run h
  obtain ⟨i, req, done, hia, hcalled, hcomplete, hreplies, hdone⟩ := hs.answered a tag resp ha
  refine ⟨i, req, done, hia, hcalled, hcomplete, hreplies, fun p v hreads hp => ?_⟩
  obtain ⟨k, hik, hka, htouched⟩ := hdone p v hp
  rcases htouched with hread | hwrote
  · exact hs.readable (hs.read k tag p v hread).1 hik hka
  · obtain ⟨j, req', -, hcalled', hwrites, -⟩ := hs.wrote k tag p v hwrote
    obtain rfl := hs.once j i tag req' req hcalled' hcalled
    cases hcalled'.unique hcalled
    exact absurd hwrites (D.reads_only hreads)

end CellStore
