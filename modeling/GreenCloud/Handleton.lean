import GreenCloud.Transition
import Mathlib.Logic.Function.Basic

/-! `Handleton`: `GetInstance`, which checks `s_instance` before and behind the lock, and
`ReleaseResources`. -/

namespace GreenCloud.Handleton

open Transition

variable {κ α : Type}

/-- What `GetInstance` returns, a null pointer as `none`, or that the constructor of `T` has
thrown. -/
inductive Outcome (α : Type)
  | returned (tmp : Option α)
  | thrown
  deriving DecidableEq

/-- The static members but for the mutex, and the addresses with a `T` that is alive. -/
structure Shared (α : Type) where
  sInstance : Option α
  sPtr : Option α
  alive : List α

def Shared.init : Shared α := ⟨none, none, []⟩

/-- `s_ptr.reset(tmp)` -/
def Shared.reset [DecidableEq α] (tmp : Option α) (s : Shared α) : Shared α where
  sInstance := s.sInstance
  sPtr := tmp
  alive := match s.sPtr with
    | none => s.alive
    | some old => s.alive.erase old

/-- Where a thread is in `GetInstance`: before the first load, the lock or the second load, in
`operator new` or in the constructor, before `reset` or the store, before the end of the guard, or
behind it. -/
inductive Position (α : Type)
  | idle
  | loading
  | locking
  | reloading
  | allocating
  | constructing (tmp : α)
  | resetting (tmp : α)
  | storing (tmp : α)
  | unlocking (out : Outcome α)
  | leaving (out : Outcome α)
  deriving DecidableEq

def Position.loaded : Option α → Position α
  | none => .locking
  | some tmp => .leaving (.returned (some tmp))

def Position.reloaded : Option α → Position α
  | none => .allocating
  | some tmp => .unlocking (.returned (some tmp))

def Position.hasLock : Position α → Bool
  | idle | loading | locking | leaving _ => false
  | reloading | allocating | constructing _ | resetting _ | storing _ | unlocking _ => true

structure State (κ α : Type) extends Shared α where
  mutex : Option κ
  position : κ → Position α

inductive Event (κ α : Type)
  | called (thread : κ)
  | loaded (thread : κ)
  | locked (thread : κ)
  | reloaded (thread : κ)
  | allocated (thread : κ) (tmp : α)
  | constructed (thread : κ) (tmp : α)
  | threw (thread : κ)
  | reset (thread : κ) (tmp : α)
  | stored (thread : κ) (tmp : α)
  | unlocked (thread : κ)
  | left (thread : κ) (out : Outcome α)

def init : State κ α := ⟨.init, none, fun _ => .idle⟩

variable [DecidableEq κ]

def State.move (s : State κ α) (i : κ) (p : Position α) : State κ α :=
  { s with position := Function.update s.position i p }

theorem State.forall_move (s : State κ α) (i : κ) (p : Position α) (P : κ → Position α → Prop) :
    (∀ j, P j ((s.move i p).position j)) ↔ P i p ∧ ∀ j, j ≠ i → P j (s.position j) :=
  Function.forall_update_iff s.position P

variable [DecidableEq α]

/-- One step of a thread. `operator new` returns no address that is in use, or throws as the
constructor may; then the guard unlocks the mutex all the same. -/
def Step (s : State κ α) (e : Event κ α) (t : State κ α) : Prop :=
  match e with
  | .called i => s.position i = .idle ∧ t = s.move i .loading
  | .loaded i => s.position i = .loading ∧ t = s.move i (.loaded s.sInstance)
  | .locked i => s.position i = .locking ∧ s.mutex = none ∧
      t = { s.move i .reloading with mutex := some i }
  | .reloaded i => s.position i = .reloading ∧ t = s.move i (.reloaded s.sInstance)
  | .allocated i tmp => s.position i = .allocating ∧ tmp ∉ s.alive ∧
      t = s.move i (.constructing tmp)
  | .constructed i tmp => s.position i = .constructing tmp ∧
      t = { s.move i (.resetting tmp) with alive := tmp :: s.alive }
  | .threw i => (s.position i = .allocating ∨ ∃ tmp, s.position i = .constructing tmp) ∧
      t = s.move i (.unlocking .thrown)
  | .reset i tmp => s.position i = .resetting tmp ∧
      t = { s.move i (.storing tmp) with toShared := s.toShared.reset (some tmp) }
  | .stored i tmp => s.position i = .storing tmp ∧
      t = { s.move i (.unlocking (.returned (some tmp))) with sInstance := some tmp }
  | .unlocked i => ∃ out, s.position i = .unlocking out ∧
      t = { s.move i (.leaving out) with mutex := none }
  | .left i out => s.position i = .leaving out ∧ t = s.move i .idle

def threads (κ α : Type) [DecidableEq κ] [DecidableEq α] : Transition (State κ α) (Event κ α) where
  init s := s = init
  step := Step

def constructed : List (Event κ α) → List α
  | [] => []
  | .constructed _ tmp :: es => tmp :: constructed es
  | _ :: es => constructed es

inductive Stage (α : Type)
  | none
  | constructed (tmp : α)
  | owned (tmp : α)
  | published (tmp : α)

def Stage.sInstance : Stage α → Option α
  | published tmp => some tmp
  | _ => .none

def Stage.sPtr : Stage α → Option α
  | owned tmp | published tmp => some tmp
  | _ => .none

def Stage.made : Stage α → List α
  | none => []
  | constructed tmp | owned tmp | published tmp => [tmp]

def Stage.between : Stage α → Bool
  | constructed _ | owned _ => true
  | none | published _ => false

def Position.Fits (stage : Stage α) : Position α → Prop
  | reloading | unlocking .thrown => stage.between = false
  | allocating | constructing _ => stage = .none
  | resetting tmp => stage = .constructed tmp
  | storing tmp => stage = .owned tmp
  | unlocking (.returned tmp) | leaving (.returned tmp) => ∃ p, tmp = some p ∧ stage = .published p
  | idle | loading | locking | leaving .thrown => True

/-- The invariant: the variables are as far as the construction, every thread is where it can be
then, and the mutex is held by the thread behind the lock, if there is one. -/
structure Invariant (made : List α) (s : State κ α) (stage : Stage α) : Prop where
  sInstance : s.sInstance = stage.sInstance
  sPtr : s.sPtr = stage.sPtr
  alive : s.alive = stage.made
  made : made = stage.made
  fits : ∀ i, (s.position i).Fits stage
  mutex : ∀ i, (s.position i).hasLock = true ↔ s.mutex = some i
  held : stage.between = true → s.mutex ≠ none

omit [DecidableEq κ] [DecidableEq α] in
theorem Position.Fits.outside {p : Position α} (h : p.Fits stage) (hlock : p.hasLock = false)
    (hstage : stage.sInstance = none) (stage' : Stage α) : p.Fits stage' := by
  cases p with
  | idle | loading | locking => trivial
  | leaving out =>
    cases out with
    | thrown => trivial
    | returned tmp =>
      obtain ⟨p, -, rfl⟩ := h
      cases hstage
  | _ => cases hlock

section

variable {made : List α} {s t : State κ α} {stage : Stage α} {es : List (Event κ α)}

omit [DecidableEq κ] [DecidableEq α] in
theorem Invariant.init : Invariant [] (init : State κ α) .none where
  sInstance := rfl
  sPtr := rfl
  alive := rfl
  made := rfl
  fits _ := trivial
  mutex _ := by simp [Handleton.init, Position.hasLock]
  held := nofun

omit [DecidableEq α] in
theorem Invariant.move (h : Invariant made s stage) (i : κ) {p : Position α} (hp : p.Fits stage)
    (hlock : p.hasLock = (s.position i).hasLock) : Invariant made (s.move i p) stage where
  sInstance := h.sInstance
  sPtr := h.sPtr
  alive := h.alive
  made := h.made
  fits := (s.forall_move i p fun _ p => p.Fits stage).mpr ⟨hp, fun j _ => h.fits j⟩
  mutex := (s.forall_move i p fun j p => p.hasLock = true ↔ s.mutex = some j).mpr
    ⟨by rw [hlock]; exact h.mutex i, fun j _ => h.mutex j⟩
  held := h.held

omit [DecidableEq κ] [DecidableEq α] in
theorem Invariant.outside (h : Invariant made s stage) (hlocked : (s.position i).hasLock = true)
    (hj : j ≠ i) : (s.position j).hasLock = false := by
  rw [← Bool.not_eq_true, h.mutex j, (h.mutex i).mp hlocked]
  exact fun heq => hj (Option.some.inj heq).symm

omit [DecidableEq α] in
/-- The thread with the lock brings the construction to another stage: the others fit every stage
while `s_instance` is not stored. -/
theorem Invariant.advance (h : Invariant made s stage) (hlocked : (s.position i).hasLock = true)
    (hstage : stage.sInstance = none) (p : Position α) (stage' : Stage α) (hp : p.Fits stage')
    (hlock : p.hasLock = true) (shared : Shared α) (hinstance : shared.sInstance = stage'.sInstance)
    (hptr : shared.sPtr = stage'.sPtr) (halive : shared.alive = stage'.made) :
    Invariant stage'.made { s.move i p with toShared := shared } stage' where
  sInstance := hinstance
  sPtr := hptr
  alive := halive
  made := rfl
  fits := (s.forall_move i p fun _ p => p.Fits stage').mpr
    ⟨hp, fun j hj => (h.fits j).outside (h.outside hlocked hj) hstage stage'⟩
  mutex := (s.forall_move i p fun j p => p.hasLock = true ↔ s.mutex = some j).mpr
    ⟨⟨fun _ => (h.mutex i).mp hlocked, fun _ => hlock⟩, fun j _ => h.mutex j⟩
  held _ := by
    have hmutex := (h.mutex i).mp hlocked
    exact fun hfree => nomatch hfree.symm.trans hmutex

omit [DecidableEq α] in
theorem Invariant.lock (h : Invariant made s stage) (i : κ) (hfree : s.mutex = none) :
    Invariant made { s.move i .reloading with mutex := some i } stage where
  sInstance := h.sInstance
  sPtr := h.sPtr
  alive := h.alive
  made := h.made
  fits := by
    have hbetween : stage.between = false := by
      rw [← Bool.not_eq_true]
      exact fun hbetween => h.held hbetween hfree
    exact (s.forall_move i .reloading fun _ p => p.Fits stage).mpr ⟨hbetween, fun j _ => h.fits j⟩
  mutex := by
    refine (s.forall_move i .reloading fun j p => p.hasLock = true ↔ some i = some j).mpr
      ⟨⟨fun _ => rfl, fun _ => rfl⟩, fun j hj => ?_⟩
    rw [h.mutex j, hfree]
    exact ⟨nofun, fun heq => absurd (Option.some.inj heq).symm hj⟩
  held _ := nofun

omit [DecidableEq α] in
theorem Invariant.unlock (h : Invariant made s stage) (hi : s.position i = .unlocking out) :
    Invariant made { s.move i (.leaving out) with mutex := none } stage where
  sInstance := h.sInstance
  sPtr := h.sPtr
  alive := h.alive
  made := h.made
  fits := by
    have hfits := h.fits i
    rw [hi] at hfits
    refine (s.forall_move i (.leaving out) fun _ p => p.Fits stage).mpr ⟨?_, fun j _ => h.fits j⟩
    cases out with
    | thrown => trivial
    | returned tmp => exact hfits
  mutex := by
    refine (s.forall_move i (.leaving out) fun j p => p.hasLock = true ↔ none = some j).mpr
      ⟨⟨nofun, nofun⟩, fun j hj => ?_⟩
    rw [h.outside (by rw [hi]; rfl) hj]
    exact ⟨nofun, nofun⟩
  held hbetween := by
    have hfits := h.fits i
    rw [hi] at hfits
    cases out with
    | thrown => exact nomatch hfits.symm.trans hbetween
    | returned tmp =>
      obtain ⟨p, -, rfl⟩ := hfits
      cases hbetween

theorem Invariant.step (h : Invariant (constructed es) s stage) (hstep : Step s e t) :
    ∃ stage, Invariant (constructed (e :: es)) t stage := by
  cases e with
  | called i =>
    obtain ⟨hi, rfl⟩ := hstep
    exact ⟨stage, h.move i trivial (by rw [hi]; rfl)⟩
  | loaded i =>
    obtain ⟨hi, rfl⟩ := hstep
    refine ⟨stage, h.move i ?_ ?_⟩
    · rw [h.sInstance]
      cases stage with
      | published tmp => exact ⟨tmp, rfl, rfl⟩
      | _ => trivial
    · rw [hi, h.sInstance]
      cases stage <;> rfl
  | locked i =>
    obtain ⟨-, hfree, rfl⟩ := hstep
    exact ⟨stage, h.lock i hfree⟩
  | reloaded i =>
    obtain ⟨hi, rfl⟩ := hstep
    have hbetween := h.fits i
    rw [hi] at hbetween
    refine ⟨stage, h.move i ?_ ?_⟩
    · rw [h.sInstance]
      cases stage with
      | none => rfl
      | published tmp => exact ⟨tmp, rfl, rfl⟩
      | constructed tmp | owned tmp => cases hbetween
    · rw [hi, h.sInstance]
      cases stage <;> rfl
  | allocated i tmp =>
    obtain ⟨hi, -, rfl⟩ := hstep
    have hstage := h.fits i
    rw [hi] at hstage
    exact ⟨stage, h.move i hstage (by rw [hi]; rfl)⟩
  | constructed i tmp =>
    obtain ⟨hi, rfl⟩ := hstep
    have hstage := h.fits i
    rw [hi] at hstage
    cases hstage
    refine ⟨.constructed tmp, ?_⟩
    rw [constructed, h.made]
    exact h.advance (by rw [hi]; rfl) rfl (.resetting tmp) (.constructed tmp) rfl rfl _ h.sInstance
      h.sPtr (congrArg (tmp :: ·) h.alive)
  | threw i =>
    obtain ⟨hi, rfl⟩ := hstep
    have hstage := h.fits i
    rcases hi with hi | ⟨tmp, hi⟩ <;> rw [hi] at hstage <;> cases hstage <;>
      exact ⟨.none, h.move i rfl (by rw [hi]; rfl)⟩
  | reset i tmp =>
    obtain ⟨hi, rfl⟩ := hstep
    have hstage := h.fits i
    rw [hi] at hstage
    cases hstage
    have hmade : constructed (.reset i tmp :: es) = [tmp] := h.made
    refine ⟨.owned tmp, ?_⟩
    rw [hmade]
    refine h.advance (by rw [hi]; rfl) rfl (.storing tmp) (.owned tmp) rfl rfl _ h.sInstance rfl ?_
    have hptr := h.sPtr
    rw [Shared.reset, hptr]
    exact h.alive
  | stored i tmp =>
    obtain ⟨hi, rfl⟩ := hstep
    have hstage := h.fits i
    rw [hi] at hstage
    cases hstage
    have hmade : constructed (.stored i tmp :: es) = [tmp] := h.made
    refine ⟨.published tmp, ?_⟩
    rw [hmade]
    exact h.advance (by rw [hi]; rfl) rfl (.unlocking (.returned (some tmp))) (.published tmp)
      ⟨tmp, rfl, rfl⟩ rfl _ rfl h.sPtr h.alive
  | unlocked i =>
    obtain ⟨out, hi, rfl⟩ := hstep
    exact ⟨stage, h.unlock hi⟩
  | left i out =>
    obtain ⟨hi, rfl⟩ := hstep
    exact ⟨stage, h.move i trivial (by rw [hi]; rfl)⟩

theorem invariant_of_run (h : (threads κ α).Run es s) :
    ∃ stage, Invariant (constructed es) s stage := by
  apply h.invariant
  · rintro _ rfl
    exact ⟨.none, .init⟩
  · rintro es s e t ⟨stage, hs⟩ hstep
    exact hs.step hstep

end
/-- `made` is what `new T` gives, `none` if it throws. -/
def getInstance (made : Option α) (s : Shared α) : Outcome α × Shared α :=
  match s.sInstance with
  | some tmp => (.returned (some tmp), s)
  | none =>
    match made with
    | none => (.thrown, s)
    | some tmp =>
      let s := Shared.reset (some tmp) { s with alive := tmp :: s.alive }
      (.returned (some tmp), { s with sInstance := some tmp })

section

variable {s : State κ α} {es : List (Event κ α)}

theorem run_again (h : (threads κ α).Run es s) (hi : s.position i = .idle)
    (hset : s.sInstance = some tmp) :
    (threads κ α).Run (.left i (.returned (some tmp)) :: .loaded i :: .called i :: es) s := by
  have h := h.then_ (.called i) ⟨hi, rfl⟩
  have h := h.then_ (.loaded i) ⟨by simp [State.move], rfl⟩
  have h := h.then_ (.left i (.returned (some tmp)))
    ⟨by simp [State.move, hset, Position.loaded], rfl⟩
  simpa only [State.move, Function.update_idem, ← hi, Function.update_eq_self] using h

theorem run_allocating (h : (threads κ α).Run es s) (hi : s.position i = .idle)
    (hfree : s.mutex = none) (hunset : s.sInstance = none) :
    (threads κ α).Run (.reloaded i :: .locked i :: .loaded i :: .called i :: es)
      { s.move i .allocating with mutex := some i } := by
  have h := h.then_ (.called i) ⟨hi, rfl⟩
  have h := h.then_ (.loaded i) ⟨by simp [State.move], rfl⟩
  have h := h.then_ (.locked i) ⟨by simp [State.move, hunset, Position.loaded], hfree, rfl⟩
  have h := h.then_ (.reloaded i) ⟨by simp [State.move], rfl⟩
  simpa only [State.move, Function.update_idem, hunset, Position.reloaded] using h

theorem run_throws (h : (threads κ α).Run es s) (hi : s.position i = .idle)
    (hfree : s.mutex = none) (hunset : s.sInstance = none) :
    (threads κ α).Run (.left i .thrown :: .unlocked i :: .threw i :: .reloaded i :: .locked i ::
      .loaded i :: .called i :: es) s := by
  have h := run_allocating h hi hfree hunset
  have h := h.then_ (.threw i) ⟨.inl (by simp [State.move]), rfl⟩
  have h := h.then_ (.unlocked i) ⟨.thrown, by simp [State.move], rfl⟩
  have h := h.then_ (.left i .thrown) ⟨by simp [State.move], rfl⟩
  simpa only [State.move, Function.update_idem, ← hi, Function.update_eq_self, ← hfree] using h

theorem run_constructs (h : (threads κ α).Run es s) (hi : s.position i = .idle)
    (hfree : s.mutex = none) (hunset : s.sInstance = none) (hnew : tmp ∉ s.alive) :
    (threads κ α).Run (.left i (.returned (some tmp)) :: .unlocked i :: .stored i tmp ::
      .reset i tmp :: .constructed i tmp :: .allocated i tmp :: .reloaded i :: .locked i ::
      .loaded i :: .called i :: es)
      { s with toShared := (getInstance (some tmp) s.toShared).2 } := by
  have h := run_allocating h hi hfree hunset
  have h := h.then_ (.allocated i tmp) ⟨by simp [State.move], hnew, rfl⟩
  have h := h.then_ (.constructed i tmp) ⟨by simp [State.move], rfl⟩
  have h := h.then_ (.reset i tmp) ⟨by simp [State.move], rfl⟩
  have h := h.then_ (.stored i tmp) ⟨by simp [State.move], rfl⟩
  have h := h.then_ (.unlocked i) ⟨.returned (some tmp), by simp [State.move], rfl⟩
  have h := h.then_ (.left i (.returned (some tmp))) ⟨by simp [State.move], rfl⟩
  simpa only [State.move, Function.update_idem, ← hi, Function.update_eq_self, ← hfree, getInstance,
    hunset] using h

/-- The steps of a call alone do what `getInstance` computes. -/
theorem run_getInstance (h : (threads κ α).Run es s) (hi : s.position i = .idle)
    (hfree : s.mutex = none) (made : Option α) (hmade : ∀ tmp, made = some tmp → tmp ∉ s.alive) :
    ∃ after, (threads κ α).Run (.left i (getInstance made s.toShared).1 :: (after ++ es))
      { s with toShared := (getInstance made s.toShared).2 } := by
  cases hinstance : s.sInstance with
  | some tmp =>
    simp only [getInstance, hinstance]
    exact ⟨[.loaded i, .called i], run_again h hi hinstance⟩
  | none =>
    cases made with
    | none =>
      simp only [getInstance, hinstance]
      exact ⟨[_, _, _, _, _, _], run_throws h hi hfree hinstance⟩
    | some tmp =>
      have h := run_constructs h hi hfree hinstance (hmade tmp rfl)
      simp only [getInstance, hinstance] at h ⊢
      exact ⟨[_, _, _, _, _, _, _, _, _], h⟩

omit [DecidableEq κ] [DecidableEq α] in
theorem constructed_append (after es : List (Event κ α)) :
    constructed (after ++ es) = constructed after ++ constructed es := by
  induction after with
  | nil => rfl
  | cons e after ih =>
    cases e with
    | constructed i tmp => exact congrArg (tmp :: ·) ih
    | _ => exact ih

theorem constructed_length (h : (threads κ α).Run es s) : (constructed es).length ≤ 1 := by
  obtain ⟨stage, hs⟩ := invariant_of_run h
  rw [hs.made]
  cases stage <;> simp [Stage.made]

theorem constructed_of_left (h : (threads κ α).Run (.left i (.returned tmp) :: es) s) :
    ∃ p, tmp = some p ∧ constructed es = [p] := by
  cases h with
  | step h hstep =>
    obtain ⟨stage, hs⟩ := invariant_of_run h
    have hfits := hs.fits i
    rw [hstep.1] at hfits
    obtain ⟨p, rfl, rfl⟩ := hfits
    exact ⟨p, rfl, hs.made⟩

theorem constructed_of_threw (h : (threads κ α).Run (.threw i :: es) s) : constructed es = [] := by
  cases h with
  | step h hstep =>
    obtain ⟨stage, hs⟩ := invariant_of_run h
    have hfits := hs.fits i
    rcases hstep.1 with hi | ⟨tmp, hi⟩ <;> rw [hi] at hfits <;> cases hfits <;> exact hs.made

theorem unset_of_run (h : (threads κ α).Run es s) (hnone : constructed es = []) :
    s.sInstance = none ∧ s.sPtr = none ∧ s.alive = [] := by
  obtain ⟨stage, hs⟩ := invariant_of_run h
  have hmade := hs.made
  rw [hnone] at hmade
  cases stage with
  | none => exact ⟨hs.sInstance, hs.sPtr, hs.alive⟩
  | constructed | owned | published => cases hmade

theorem run_retry (h : (threads κ α).Run es s) (hnone : constructed es = [])
    (hidle : ∀ j, s.position j = .idle) (i : κ) (tmp : α) :
    ∃ after t, (threads κ α).Run (.left i (.returned (some tmp)) :: (after ++ es)) t ∧
      constructed (after ++ es) = [tmp] := by
  obtain ⟨hunset, -, halive⟩ := unset_of_run h hnone
  have hfree : s.mutex = none := by
    obtain ⟨stage, hs⟩ := invariant_of_run h
    refine Option.eq_none_iff_forall_ne_some.mpr fun j hj => ?_
    have hlock := (hs.mutex j).mpr hj
    rw [hidle j] at hlock
    cases hlock
  have hnew : tmp ∉ s.alive := by
    rw [halive]
    exact List.not_mem_nil
  have h := run_constructs h (hidle i) hfree hunset hnew
  refine ⟨[_, _, _, _, _, _, _, _, _], _, h, ?_⟩
  rw [constructed_append, hnone]
  rfl

/-- In every run at most one `T` is constructed, every call that returns gives the pointer to it,
behind its construction, and where a constructor throws, `s_instance` and `s_ptr` are unset: they
stay so until a call constructs, and then the next call does. -/
theorem getInstance_once (h : (threads κ α).Run es s) :
    (constructed es).length ≤ 1 ∧
    (∀ after before i tmp, es = after ++ .left i (.returned tmp) :: before →
      ∃ p, tmp = some p ∧ constructed before = [p] ∧ constructed es = [p]) ∧
    (∀ after before i, es = after ++ .threw i :: before → constructed before = [] ∧
      ∀ t, (threads κ α).Run (.threw i :: before) t → t.sInstance = none ∧ t.sPtr = none) ∧
    (constructed es = [] → s.sInstance = none ∧ s.sPtr = none ∧
      ∀ i tmp, (∀ j, s.position j = .idle) →
        ∃ after t, (threads κ α).Run (.left i (.returned (some tmp)) :: (after ++ es)) t ∧
          constructed (after ++ es) = [tmp]) := by
  refine ⟨constructed_length h, ?_, ?_, fun hnone => ?_⟩
  · rintro after before i tmp rfl
    obtain ⟨t, hbefore⟩ := h.earlier
    obtain ⟨p, rfl, hmade⟩ := constructed_of_left hbefore
    refine ⟨p, rfl, hmade, ?_⟩
    have hle := constructed_length h
    have happend := constructed_append after (.left i (.returned (some p)) :: before)
    rw [show constructed (.left i (.returned (some p)) :: before) = [p] from hmade] at happend
    rw [happend, List.length_append, List.length_singleton] at hle
    have hnil : constructed after = [] := List.eq_nil_of_length_eq_zero (by omega)
    rw [happend, hnil, List.nil_append]
  · rintro after before i rfl
    obtain ⟨t, hbefore⟩ := h.earlier
    have hnone := constructed_of_threw hbefore
    refine ⟨hnone, fun t ht => ?_⟩
    obtain ⟨hinstance, hptr, -⟩ := unset_of_run ht hnone
    exact ⟨hinstance, hptr⟩
  · obtain ⟨hinstance, hptr, -⟩ := unset_of_run h hnone
    exact ⟨hinstance, hptr, fun i tmp hidle => run_retry h hnone hidle i tmp⟩

/-- Two threads: the constructor throws for the first and ends for the second. -/
theorem getInstance_once_retried :
    ∃ (es : List (Event (Fin 2) Nat)) (s : State (Fin 2) Nat), (threads (Fin 2) Nat).Run es s ∧
      .threw 0 ∈ es ∧ .left 1 (.returned (some 8)) ∈ es ∧ constructed es = [8] := by
  have h : (threads (Fin 2) Nat).Run [] init := .start rfl
  have h := run_throws (i := 0) h rfl rfl rfl
  have h := run_constructs (i := 1) h rfl rfl rfl (show 8 ∉ [] from nofun)
  obtain ⟨-, hleft, -⟩ := getInstance_once h
  obtain ⟨p, hp, -, hmade⟩ := hleft [] _ 1 (some 8) rfl
  cases hp
  exact ⟨_, _, h, by simp, by simp, hmade⟩

end

def releaseResources (s : Shared α) : Shared α := s.reset none

/-- The calls, `GetInstance` with what `new T` would give and what it returned. -/
inductive Call (α : Type)
  | getInstance (made : Option α) (out : Outcome α)
  | releaseResources
  deriving DecidableEq

def calls (α : Type) [DecidableEq α] : Transition (Shared α) (Call α) where
  init s := s = .init
  step s e t :=
    match e with
    | .getInstance made out => (∀ tmp, made = some tmp → tmp ∉ s.alive) ∧
        getInstance made s = (out, t)
    | .releaseResources => t = releaseResources s

/-- Each pointer that was returned pointed to a `T` that was alive then. -/
def HandsOutAlive (es : List (Call α)) : Prop :=
  ∀ after before made tmp t, es = after ++ .getInstance made (.returned tmp) :: before →
    (calls α).Run (.getInstance made (.returned tmp) :: before) t → ∃ p, tmp = some p ∧ p ∈ t.alive

def AtMostOneAlive (es : List (Call α)) : Prop :=
  ∀ after before t, es = after ++ before → (calls α).Run before t → t.alive.length ≤ 1

def acquired : List (Call α) → Bool
  | [] => false
  | .getInstance (some _) _ :: _ => true
  | .getInstance none _ :: es | .releaseResources :: es => acquired es

def released : List (Call α) → Bool
  | [] => false
  | .getInstance .. :: es => released es
  | .releaseResources :: es => acquired es || released es

def reacquired : List (Call α) → Bool
  | [] => false
  | .getInstance .. :: es => released es || reacquired es
  | .releaseResources :: es => reacquired es

/-- The invariant: once `T` is constructed `s_instance` stays, and `s_ptr` until it is released. -/
inductive Kept (es : List (Call α)) : Shared α → Prop
  | unset : acquired es = false → released es = false → Kept es ⟨none, none, []⟩
  | owned (tmp : α) : acquired es = true → released es = false →
      Kept es ⟨some tmp, some tmp, [tmp]⟩
  | stale (tmp : α) : acquired es = true → released es = true → Kept es ⟨some tmp, none, []⟩

section

variable {s t : Shared α} {es : List (Call α)}

omit [DecidableEq α] in
theorem acquired_cons (e : Call α) (h : acquired es = true) : acquired (e :: es) = true := by
  cases e with
  | releaseResources => exact h
  | getInstance made out => cases made <;> first | exact h | rfl

theorem Kept.getInstance (h : Kept es s) (hcall : getInstance made s = (out, t)) :
    Kept (.getInstance made out :: es) t := by
  cases h with
  | unset hacquired hreleased =>
    cases made with
    | none =>
      cases hcall
      exact .unset hacquired hreleased
    | some tmp =>
      cases hcall
      exact .owned tmp rfl hreleased
  | owned tmp hacquired hreleased =>
    cases hcall
    exact .owned tmp (acquired_cons _ hacquired) hreleased
  | stale tmp hacquired hreleased =>
    cases hcall
    exact .stale tmp (acquired_cons _ hacquired) hreleased

theorem Kept.releaseResources (h : Kept es s) :
    Kept (.releaseResources :: es) (releaseResources s) := by
  cases h with
  | unset hacquired hreleased =>
    exact .unset hacquired (by rw [released, hacquired, hreleased]; rfl)
  | owned tmp hacquired hreleased =>
    have halive :
        Handleton.releaseResources ⟨some tmp, some tmp, [tmp]⟩ = ⟨some tmp, none, []⟩ := by
      simp [Handleton.releaseResources, Shared.reset]
    rw [halive]
    exact .stale tmp hacquired (by rw [released, hacquired]; rfl)
  | stale tmp hacquired hreleased =>
    exact .stale tmp hacquired (by rw [released, hacquired]; rfl)

theorem kept_of_run (h : (calls α).Run es s) : Kept es s := by
  apply h.invariant
  · rintro _ rfl
    exact .unset rfl rfl
  · rintro es s e t hs hstep
    cases e with
    | getInstance made out => exact hs.getInstance hstep.2
    | releaseResources =>
      cases hstep
      exact hs.releaseResources

theorem Kept.alive (h : Kept es s) (hcall : Handleton.getInstance made s = (.returned tmp, t))
    (hreleased : released es = false) : ∃ p, tmp = some p ∧ p ∈ t.alive := by
  cases h with
  | unset =>
    cases made with
    | none => cases hcall
    | some tmp =>
      cases hcall
      exact ⟨tmp, rfl, List.mem_singleton_self tmp⟩
  | owned p =>
    cases hcall
    exact ⟨p, rfl, List.mem_singleton_self p⟩
  | stale p _ hstale => exact nomatch hreleased.symm.trans hstale

theorem Kept.dead (h : Kept es s) (hcall : Handleton.getInstance made s = (out, t))
    (hreleased : released es = true) : ∃ p, out = .returned (some p) ∧ t.alive = [] := by
  cases h with
  | unset _ hnone | owned _ _ hnone => exact nomatch hnone.symm.trans hreleased
  | stale p =>
    cases hcall
    exact ⟨p, rfl, rfl⟩

omit [DecidableEq α] in
theorem reacquired_append (after : List (Call α)) (h : reacquired es = true) :
    reacquired (after ++ es) = true := by
  induction after with
  | nil => exact h
  | cons e after ih =>
    cases e with
    | getInstance => exact Bool.or_eq_true_iff.mpr (.inr ih)
    | releaseResources => exact ih

theorem atMostOneAlive (es : List (Call α)) : AtMostOneAlive es := by
  rintro after before t - h
  cases kept_of_run h <;> simp

theorem HandsOutAlive.tail (h : HandsOutAlive (e :: es)) : HandsOutAlive es := by
  rintro after before made tmp t rfl
  exact h (e :: after) before made tmp t rfl

theorem HandsOutAlive.not_reacquired (hrun : (calls α).Run es s) (h : HandsOutAlive es) :
    reacquired es = false := by
  induction hrun with
  | start => rfl
  | step hrun hstep ih =>
    rename_i es s e t
    have ih := ih h.tail
    cases e with
    | releaseResources => exact ih
    | getInstance made out =>
      rw [reacquired, ih, Bool.or_false, ← Bool.not_eq_true]
      intro hreleased
      obtain ⟨p, rfl, hdead⟩ := (kept_of_run hrun).dead hstep.2 hreleased
      obtain ⟨q, -, halive⟩ := h [] es made (some p) t rfl (hrun.step hstep)
      rw [hdead] at halive
      cases halive

theorem handsOutAlive_of_not_reacquired (h : reacquired es = false) : HandsOutAlive es := by
  rintro after before made tmp t rfl hrun
  cases hrun with
  | step hrun hstep =>
    refine (kept_of_run hrun).alive hstep.2 ?_
    rw [← Bool.not_eq_true]
    intro hreleased
    have hagain : reacquired (.getInstance made (.returned tmp) :: before) = true := by
      rw [reacquired, hreleased]
      rfl
    rw [reacquired_append after hagain] at h
    cases h

/-- At most one `T` is alive in every run of calls. Every pointer handed out points to a `T` that
is alive exactly if no `GetInstance` comes behind a `ReleaseResources` that comes behind a
`GetInstance` whose `new T` did not throw. -/
theorem getInstance_alive_iff (h : (calls α).Run es s) :
    HandsOutAlive es ∧ AtMostOneAlive es ↔ reacquired es = false :=
  ⟨fun halive => halive.1.not_reacquired h,
    fun hnone => ⟨handsOutAlive_of_not_reacquired hnone, atMostOneAlive es⟩⟩

end

theorem getInstance_alive_twice :
    ∃ (es : List (Call Nat)) (s : Shared Nat), (calls Nat).Run es s ∧ es.length = 3 ∧
      HandsOutAlive es ∧ AtMostOneAlive es := by
  have h : (calls Nat).Run [] .init := .start rfl
  have h := h.then_ (.getInstance (some 8) (.returned (some 8))) ⟨fun _ _ => nofun, rfl⟩
  have h := h.then_ (.getInstance none (.returned (some 8))) ⟨nofun, rfl⟩
  have h := h.then_ .releaseResources rfl
  exact ⟨_, _, h, rfl, (getInstance_alive_iff h).mpr rfl⟩

/-- `GetInstance`, `ReleaseResources`, `GetInstance`: the pointer of the second call dangles. -/
theorem getInstance_dangles :
    ∃ (es : List (Call Nat)) (s : Shared Nat), (calls Nat).Run es s ∧
      es = [.getInstance (some 16) (.returned (some 8)), .releaseResources,
        .getInstance (some 8) (.returned (some 8))] ∧
      s.alive = [] ∧ ¬ (HandsOutAlive es ∧ AtMostOneAlive es) := by
  have h : (calls Nat).Run [] .init := .start rfl
  have h := h.then_ (.getInstance (some 8) (.returned (some 8))) ⟨fun _ _ => nofun, rfl⟩
  have h := h.then_ .releaseResources rfl
  have h := h.then_ (.getInstance (some 16) (.returned (some 8))) ⟨fun _ _ => nofun, rfl⟩
  refine ⟨_, _, h, rfl, rfl, fun halive => ?_⟩
  have hnone := halive.1.not_reacquired h
  cases hnone

end GreenCloud.Handleton
