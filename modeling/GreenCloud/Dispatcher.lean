import GreenCloud.Fibers
import GreenCloud.Transition

/-! `Dispatcher` and `CallBack`: objects that point at each other, of which either side may go
first. An access to an object that is not alive has no result. -/

namespace GreenCloud.Dispatcher

open Transition

variable {δ κ μ : Type}

/-- `m_stop_method`: the null pointer, or a method that destroys its own callback or does not. -/
inductive StopMethod
  | null
  | returns
  | destroys
  deriving DecidableEq

structure CallBack (δ : Type) where
  dispatcher : Option δ
  stopMethod : StopMethod

/-- The objects that are alive, by their addresses; of a dispatcher its `m_callbacks`. -/
structure Objects (δ κ : Type) where
  dispatchers : δ → Option (List κ)
  callbacks : κ → Option (CallBack δ)

inductive Call (δ κ μ : Type)
  | add (d : δ) (callback : κ)
  | remove (d : δ) (callback : κ)
  | notify (callback : κ) (message : μ)
  | outOfService (callback : κ)
  | stop (callback : κ)

abbrev Result (δ κ μ : Type) := Objects δ κ × List (Call δ κ μ)

variable [DecidableEq δ] [DecidableEq κ]

def Objects.setDispatcher (s : Objects δ κ) (d : δ) (callbacks : Option (List κ)) : Objects δ κ :=
  { s with dispatchers := Function.update s.dispatchers d callbacks }

def Objects.setCallback (s : Objects δ κ) (c : κ) (callback : Option (CallBack δ)) : Objects δ κ :=
  { s with callbacks := Function.update s.callbacks c callback }

/-- `std::swap(*iter, *(m_callbacks.end() - 1))` and `pop_back`, for what starts at `iter`. -/
def swapWithLast : List κ → List κ
  | [] => []
  | _ :: rest =>
    match rest.getLast? with
    | none => []
    | some last => last :: rest.dropLast

/-- The loop of `Remove`. -/
def search (callback : κ) : List κ → List κ
  | [] => []
  | c :: rest => if c = callback then swapWithLast (c :: rest) else c :: search callback rest

def add (d : δ) (callback : κ) (s : Objects δ κ) : Option (Result δ κ μ) := do
  let callbacks ← s.dispatchers d
  return (s.setDispatcher d (some (callbacks ++ [callback])), [.add d callback])

def remove (d : δ) (callback : κ) (s : Objects δ κ) : Option (Result δ κ μ) := do
  let callbacks ← s.dispatchers d
  return (s.setDispatcher d (some (search callback callbacks)), [.remove d callback])

/-- The constructor, at an address where nothing lives. -/
def construct (c : κ) (dispatcher : Option δ) (stopMethod : StopMethod) (s : Objects δ κ) :
    Option (Result δ κ μ) :=
  if (s.callbacks c).isSome then none
  else
    let s := s.setCallback c (some ⟨dispatcher, stopMethod⟩)
    match dispatcher with
    | none => some (s, [])
    | some d => add d c s

/-- `~CallBackBase` -/
def destruct (c : κ) (s : Objects δ κ) : Option (Result δ κ μ) := do
  let callback ← s.callbacks c
  let (s, calls) ←
    match callback.dispatcher with
    | none => some (s, [])
    | some d => remove d c s
  return (s.setCallback c none, calls)

/-- The pointer is null before the stop method runs. -/
def outOfService (c : κ) (s : Objects δ κ) : Option (Result δ κ μ) := do
  let callback ← s.callbacks c
  let s := s.setCallback c (some { callback with dispatcher := none })
  match callback.stopMethod with
  | .null => return (s, [.outOfService c])
  | .returns => return (s, [.outOfService c, .stop c])
  | .destroys =>
    let (s, calls) ← destruct c s
    return (s, .outOfService c :: .stop c :: calls)

def notify (message : μ) (c : κ) (s : Objects δ κ) : Option (Result δ κ μ) := do
  let _ ← s.callbacks c
  return (s, [.notify c message])

/-- `for (auto & iter : m_callbacks)`, where `i` elements are behind and `left` ahead. Each turn
reads the vector as it is then. -/
def forEach (d : δ) (body : κ → Objects δ κ → Option (Result δ κ μ)) (i : Nat) :
    (left : Nat) → Objects δ κ → Option (Result δ κ μ)
  | 0, s => some (s, [])
  | left + 1, s => do
    let callbacks ← s.dispatchers d
    let (s, calls) ← body (← callbacks[i]?) s
    let (s, more) ← forEach d body (i + 1) left s
    return (s, calls ++ more)

def notifyAll (d : δ) (message : μ) (s : Objects δ κ) : Option (Result δ κ μ) := do
  let callbacks ← s.dispatchers d
  forEach d (notify message) 0 callbacks.length s

/-- `~Dispatcher` -/
def destroy (d : δ) (s : Objects δ κ) : Option (Result δ κ μ) := do
  let callbacks ← s.dispatchers d
  let (s, calls) ← forEach d outOfService 0 callbacks.length s
  return (s.setDispatcher d none, calls)

inductive Operation (δ κ μ : Type)
  | create (d : δ)
  | destroy (d : δ)
  | construct (c : κ) (dispatcher : Option δ) (stopMethod : StopMethod)
  | destruct (c : κ)
  | notifyAll (d : δ) (message : μ)

def perform (s : Objects δ κ) : Operation δ κ μ → Option (Result δ κ μ)
  | .create d => if (s.dispatchers d).isSome then none else some (s.setDispatcher d (some []), [])
  | .destroy d => destroy d s
  | .construct c dispatcher stopMethod => construct c dispatcher stopMethod s
  | .destruct c => destruct c s
  | .notifyAll d message => notifyAll d message s

def registry (δ κ μ : Type) [DecidableEq δ] [DecidableEq κ] :
    Transition (Objects δ κ) (Operation δ κ μ × List (Call δ κ μ)) where
  init s := s = ⟨fun _ => none, fun _ => none⟩
  step s e t := perform s e.1 = some (t, e.2)

def Operation.Legal (s : Objects δ κ) : Operation δ κ μ → Prop
  | create d => s.dispatchers d = none
  | destroy d | notifyAll d _ => s.dispatchers d ≠ none
  | construct c dispatcher _ => s.callbacks c = none ∧ ∀ d ∈ dispatcher, s.dispatchers d ≠ none
  | destruct c => s.callbacks c ≠ none

def Objects.target (s : Objects δ κ) (c : κ) : Option δ := (s.callbacks c).bind (·.dispatcher)

def Operation.retarget (target : κ → Option δ) : Operation δ κ μ → κ → Option δ
  | create _ | notifyAll .. => target
  | destroy d => fun c => if target c = some d then none else target c
  | construct c dispatcher _ => Function.update target c dispatcher
  | destruct c => Function.update target c none

/-- The vector of a dispatcher has the callbacks that point at it, each once, and nothing points at
a dispatcher that is not alive. -/
abbrev Registered (s : Objects δ κ) : Prop := Fibers.Enumerates s.dispatchers s.target

variable {s t : Objects δ κ} {c : κ} {d : δ} {calls : List (Call δ κ μ)}

omit [DecidableEq κ] in
theorem swapWithLast_perm (c : κ) (rest : List κ) : (swapWithLast (c :: rest)).Perm rest := by
  rw [swapWithLast]
  cases h : rest.getLast? with
  | none =>
    obtain rfl := List.getLast?_eq_none_iff.mp h
    exact .refl _
  | some last =>
    obtain ⟨init, rfl⟩ := List.getLast?_eq_some_iff.mp h
    rw [List.dropLast_concat]
    exact (List.perm_append_singleton last init).symm

theorem search_perm (callback : κ) (callbacks : List κ) :
    (search callback callbacks).Perm (callbacks.erase callback) := by
  induction callbacks with
  | nil => exact .refl _
  | cons c rest ih =>
    rw [search]
    split
    · rename_i heq
      rw [heq, List.erase_cons_head]
      exact swapWithLast_perm callback rest
    · rename_i hne
      rw [List.erase_cons_tail (by simpa using hne)]
      exact ih.cons c

omit [DecidableEq δ] [DecidableEq κ]

def visit (body : κ → Objects δ κ → Option (Result δ κ μ)) :
    List κ → Objects δ κ → Option (Result δ κ μ)
  | [], s => some (s, [])
  | c :: rest, s => do
    let (s, calls) ← body c s
    let (s, more) ← visit body rest s
    return (s, calls ++ more)

theorem forEach_eq_visit (body : κ → Objects δ κ → Option (Result δ κ μ)) (before after : List κ)
    (hbody : ∀ {c s t calls}, body c s = some (t, calls) → t.dispatchers = s.dispatchers)
    (h : s.dispatchers d = some (before ++ after)) :
    forEach d body before.length after.length s = visit body after s := by
  induction after generalizing s before with
  | nil => rfl
  | cons c rest ih =>
    have hget : (before ++ c :: rest)[before.length]? = some c := by simp
    rw [List.length_cons, forEach, visit, h]
    simp only [Option.bind_eq_bind, Option.bind_some, hget]
    cases hc : body c s with
    | none => rfl
    | some result =>
      obtain ⟨t, calls⟩ := result
      have hnext := ih (s := t) (before ++ [c]) (by rw [hbody hc, h, List.append_assoc]; rfl)
      rw [List.length_append, List.length_singleton] at hnext
      simp only [Option.bind_some, hnext]

theorem visit_notify (message : μ) {callbacks : List κ}
    (hlive : ∀ c ∈ callbacks, s.callbacks c ≠ none) :
    visit (notify message) callbacks s = some (s, callbacks.map (.notify · message)) := by
  induction callbacks with
  | nil => rfl
  | cons c rest ih =>
    obtain ⟨callback, hc⟩ := Option.ne_none_iff_exists'.mp (hlive c (List.mem_cons_self ..))
    have hrest := ih fun x hx => hlive x (List.mem_cons_of_mem _ hx)
    simp [visit, notify, hc, hrest]

def CallBack.survivor (callback : CallBack δ) : Option (CallBack δ) :=
  if callback.stopMethod = .destroys then none else some { callback with dispatcher := none }

def CallBack.stopCalls (c : κ) (callback : CallBack δ) : List (Call δ κ μ) :=
  .outOfService c :: if callback.stopMethod = .null then [] else [.stop c]

def Call.outOfService? : Call δ κ μ → Option κ
  | outOfService c => some c
  | _ => none

def Call.touched : Call δ κ μ → Option δ
  | add d _ | remove d _ => some d
  | _ => none

variable [DecidableEq δ] [DecidableEq κ]

/-- A callback that is destroyed by its own stop method does not go back to the dispatcher. -/
theorem outOfService_eq {callback : CallBack δ} (h : s.callbacks c = some callback) :
    outOfService c s =
      some (s.setCallback c callback.survivor, (callback.stopCalls c : List (Call δ κ μ))) := by
  obtain ⟨dispatcher, stopMethod⟩ := callback
  cases stopMethod with
  | null | returns => simp [outOfService, h, CallBack.survivor, CallBack.stopCalls]
  | destroys =>
    have hself : (s.setCallback c (some ⟨none, .destroys⟩)).callbacks c = some ⟨none, .destroys⟩ :=
      Function.update_self ..
    have hgone : (s.setCallback c (some ⟨none, .destroys⟩)).setCallback c none =
        s.setCallback c none := by
      simp [Objects.setCallback]
    simp [outOfService, destruct, h, hself, hgone, CallBack.survivor, CallBack.stopCalls]

theorem dispatchers_outOfService (h : outOfService c s = some (t, calls)) :
    t.dispatchers = s.dispatchers := by
  cases hc : s.callbacks c with
  | none => simp [outOfService, hc] at h
  | some callback =>
    rw [outOfService_eq hc] at h
    cases h
    rfl

theorem exists_visit_outOfService {callbacks : List κ} (hnodup : callbacks.Nodup)
    (hlive : ∀ c ∈ callbacks, s.callbacks c ≠ none) :
    ∃ t, ∃ calls : List (Call δ κ μ), visit outOfService callbacks s = some (t, calls) ∧
      t.dispatchers = s.dispatchers ∧
      (∀ c, t.callbacks c =
        if c ∈ callbacks then (s.callbacks c).bind CallBack.survivor else s.callbacks c) ∧
      calls.filterMap Call.outOfService? = callbacks ∧ calls.filterMap Call.touched = [] := by
  induction callbacks generalizing s with
  | nil => exact ⟨s, [], rfl, rfl, fun c => (if_neg List.not_mem_nil).symm, rfl, rfl⟩
  | cons c rest ih =>
    obtain ⟨callback, hc⟩ := Option.ne_none_iff_exists'.mp (hlive c (List.mem_cons_self ..))
    obtain ⟨hnot, hrest⟩ := List.nodup_cons.mp hnodup
    have hother : ∀ x, x ≠ c → (s.setCallback c callback.survivor).callbacks x = s.callbacks x :=
      fun x hx => Function.update_of_ne hx ..
    obtain ⟨t, more, hvisit, hdispatchers, hcallbacks, hstopped, htouched⟩ :=
      ih (s := s.setCallback c callback.survivor) hrest fun x hx => by
        rw [hother x (by rintro rfl; exact hnot hx)]
        exact hlive x (List.mem_cons_of_mem _ hx)
    refine ⟨t, callback.stopCalls c ++ more, ?_, hdispatchers, fun x => ?_, ?_, ?_⟩
    · simp [visit, outOfService_eq hc, hvisit]
    · rw [hcallbacks x]
      rcases eq_or_ne x c with rfl | hx
      · rw [if_neg hnot, if_pos (List.mem_cons_self ..), hc]
        exact Function.update_self ..
      · simp [hother x hx, hx]
    · have hfirst :
          (callback.stopCalls c : List (Call δ κ μ)).filterMap Call.outOfService? = [c] := by
        unfold CallBack.stopCalls
        split <;> rfl
      rw [List.filterMap_append, hfirst, hstopped, List.singleton_append]
    · have hfirst : (callback.stopCalls c : List (Call δ κ μ)).filterMap Call.touched = [] := by
        unfold CallBack.stopCalls
        split <;> rfl
      rw [List.filterMap_append, hfirst, htouched, List.append_nil]

omit [DecidableEq δ] in
theorem target_setCallback (s : Objects δ κ) (c : κ) (callback : Option (CallBack δ)) :
    (s.setCallback c callback).target =
      Function.update s.target c (callback.bind (·.dispatcher)) := by
  funext x
  simp only [Objects.target, Objects.setCallback, Function.update_apply]
  split <;> rfl

omit [DecidableEq δ] [DecidableEq κ] in
theorem target_survivor (o : Option (CallBack δ)) :
    (o.bind CallBack.survivor).bind (·.dispatcher) = none := by
  cases o with
  | none => rfl
  | some callback =>
    rw [Option.bind_some, CallBack.survivor]
    split <;> rfl

omit [DecidableEq δ] [DecidableEq κ] in
theorem Registered.live (h : Registered s) (hd : s.dispatchers d = some callbacks)
    (hc : c ∈ callbacks) : s.callbacks c ≠ none := by
  intro hnone
  have htarget := (h.mem_iff d callbacks hd c).mp hc
  rw [Objects.target, hnone] at htarget
  cases htarget

omit [DecidableEq δ] [DecidableEq κ] in
theorem notifyAll_eq (h : Registered s) (hd : s.dispatchers d = some callbacks) (message : μ) :
    notifyAll d message s = some (s, callbacks.map (.notify · message)) := by
  have hbody : ∀ {c s t calls}, notify message c s = some (t, calls) →
      t.dispatchers = (s : Objects δ κ).dispatchers := by
    intro c s t calls hnotify
    cases hc : s.callbacks c with
    | none => simp [notify, hc] at hnotify
    | some callback =>
      simp only [notify, hc] at hnotify
      cases hnotify
      rfl
  have hloop := forEach_eq_visit (notify message) [] callbacks hbody hd
  rw [List.length_nil] at hloop
  simp only [notifyAll, hd, Option.bind_eq_bind, Option.bind_some, hloop]
  exact visit_notify message fun c => h.live hd

theorem exists_destroy (h : Registered s) (hd : s.dispatchers d = some callbacks) :
    ∃ t, ∃ calls : List (Call δ κ μ), destroy d s = some (t, calls) ∧
      t.dispatchers = Function.update s.dispatchers d none ∧
      (∀ c, t.callbacks c = if s.target c = some d then (s.callbacks c).bind CallBack.survivor
        else s.callbacks c) ∧
      calls.filterMap Call.outOfService? = callbacks ∧ calls.filterMap Call.touched = [] := by
  obtain ⟨t, calls, hvisit, hdispatchers, hcallbacks, hstopped, htouched⟩ :=
    exists_visit_outOfService (μ := μ) (h.nodup d callbacks hd) fun c => h.live hd
  have hloop := forEach_eq_visit (outOfService (μ := μ)) [] callbacks dispatchers_outOfService hd
  rw [List.length_nil, hvisit] at hloop
  refine ⟨t.setDispatcher d none, calls, ?_, ?_, fun c => ?_, hstopped, htouched⟩
  · simp [destroy, hd, hloop]
  · rw [Objects.setDispatcher, hdispatchers]
  · simp only [← h.mem_iff d callbacks hd c]
    exact hcallbacks c

/-- What an operation leaves behind it. The methods it calls are those of dispatchers that are
alive. -/
structure Kept (s : Objects δ κ) (op : Operation δ κ μ) (t : Objects δ κ)
    (calls : List (Call δ κ μ)) : Prop where
  target : t.target = op.retarget s.target
  registered : Registered t
  alive : ∀ d ∈ calls.filterMap Call.touched, s.dispatchers d ≠ none
  dead : ∀ d, s.dispatchers d = none → op ≠ .create d → t.dispatchers d = none

omit [DecidableEq κ] in
theorem update_dead {lists : δ → Option (List κ)} (hd : lists d ≠ none) (hdead : lists d' = none)
    (l : Option (List κ)) : Function.update lists d l d' = none := by
  rw [Function.update_of_ne (by rintro rfl; exact hd hdead), hdead]

theorem construct_kept (h : Registered s) (hc : s.callbacks c = none)
    (hdispatcher : ∀ d ∈ dispatcher, s.dispatchers d ≠ none) (stopMethod : StopMethod) :
    ∃ t, ∃ calls : List (Call δ κ μ), construct c dispatcher stopMethod s = some (t, calls) ∧
      Kept s (.construct c dispatcher stopMethod) t calls := by
  have htarget : s.target c = none := by rw [Objects.target, hc, Option.bind_none]
  cases dispatcher with
  | none =>
    refine ⟨s.setCallback c (some ⟨none, stopMethod⟩), [], by simp [construct, hc],
      target_setCallback .., ?_, nofun, fun d hd _ => hd⟩
    have hsame : Function.update s.target c none = s.target := by
      rw [← htarget, Function.update_eq_self]
    rw [Registered, target_setCallback, Option.bind_some, hsame]
    exact h
  | some d =>
    have halive := hdispatcher d rfl
    obtain ⟨callbacks, hd⟩ := Option.ne_none_iff_exists'.mp halive
    let s' := s.setCallback c (some ⟨some d, stopMethod⟩)
    have hd' : s'.dispatchers d = some callbacks := hd
    have htarget' : (s'.setDispatcher d (some (callbacks ++ [c]))).target =
        Function.update s.target c (some d) := target_setCallback ..
    refine ⟨s'.setDispatcher d (some (callbacks ++ [c])), [.add d c],
      by simp [construct, add, hc, s', hd'], htarget', ?_, ?_, fun d' hdead _ => ?_⟩
    · rw [Registered, htarget']
      exact h.insert hd htarget (List.perm_append_singleton c callbacks)
    · intro d' hd'
      obtain rfl := List.mem_singleton.mp hd'
      exact halive
    · exact update_dead halive hdead _

theorem destruct_kept (h : Registered s) (hc : s.callbacks c ≠ none) :
    ∃ t, ∃ calls : List (Call δ κ μ), destruct c s = some (t, calls) ∧
      Kept s (.destruct c) t calls := by
  obtain ⟨⟨dispatcher, stopMethod⟩, hc⟩ := Option.ne_none_iff_exists'.mp hc
  have htarget : s.target c = dispatcher := by rw [Objects.target, hc, Option.bind_some]
  cases dispatcher with
  | none =>
    refine ⟨s.setCallback c none, [], by simp [destruct, hc], target_setCallback .., ?_, nofun,
      fun d hd _ => hd⟩
    have hsame : Function.update s.target c none = s.target := by
      rw [← htarget, Function.update_eq_self]
    rw [Registered, target_setCallback, Option.bind_none, hsame]
    exact h
  | some d =>
    have halive := h.used c d htarget
    obtain ⟨callbacks, hd⟩ := Option.ne_none_iff_exists'.mp halive
    refine ⟨(s.setDispatcher d (some (search c callbacks))).setCallback c none, [.remove d c],
      by simp [destruct, remove, hc, hd], target_setCallback .., ?_, ?_, fun d' hdead _ => ?_⟩
    · rw [Registered, target_setCallback]
      exact h.erase hd htarget (search_perm c callbacks)
    · intro d' hd'
      obtain rfl := List.mem_singleton.mp hd'
      exact halive
    · exact update_dead halive hdead _

/-- Every operation on living objects goes through, does to the targets what it is for and keeps the
vectors in step. -/
theorem perform_kept (h : Registered s) (op : Operation δ κ μ) (hlegal : op.Legal s) :
    ∃ t calls, perform s op = some (t, calls) ∧ Kept s op t calls := by
  cases op with
  | create d =>
    have hd : s.dispatchers d = none := hlegal
    refine ⟨s.setDispatcher d (some []), [], by simp [perform, hd], rfl, h.create hd, nofun,
      fun d' hdead hne => ?_⟩
    have hother : d' ≠ d := by
      rintro rfl
      exact hne rfl
    exact (Function.update_of_ne hother ..).trans hdead
  | destroy d =>
    obtain ⟨callbacks, hd⟩ := Option.ne_none_iff_exists'.mp hlegal
    obtain ⟨t, calls, hdestroy, hdispatchers, hcallbacks, -, htouched⟩ :=
      exists_destroy (μ := μ) h hd
    have htarget : t.target = fun c => if s.target c = some d then none else s.target c := by
      funext c
      rw [Objects.target, hcallbacks c]
      split
      · exact target_survivor _
      · rfl
    refine ⟨t, calls, hdestroy, htarget, ?_, by rw [htouched]; nofun, fun d' hdead _ => ?_⟩
    · rw [Registered, hdispatchers, htarget]
      exact h.drop d
    · rw [hdispatchers]
      exact update_dead hlegal hdead _
  | construct c dispatcher stopMethod => exact construct_kept h hlegal.1 hlegal.2 stopMethod
  | destruct c => exact destruct_kept h hlegal
  | notifyAll d message =>
    obtain ⟨callbacks, hd⟩ := Option.ne_none_iff_exists'.mp hlegal
    refine ⟨s, _, notifyAll_eq h hd message, rfl, h, ?_, fun d' hdead _ => hdead⟩
    intro d' hd'
    simp [Call.touched, List.filterMap_map, Function.comp_def] at hd'

theorem legal_of_perform {op : Operation δ κ μ} (h : perform s op = some (t, calls)) :
    op.Legal s := by
  cases op with
  | create d =>
    rw [perform] at h
    split at h
    · cases h
    · rename_i hd
      exact Option.not_isSome_iff_eq_none.mp hd
  | destroy d =>
    intro hd
    simp [perform, destroy, hd] at h
  | construct c dispatcher stopMethod =>
    rw [perform, construct] at h
    split at h
    · cases h
    · rename_i hc
      refine ⟨Option.not_isSome_iff_eq_none.mp hc, ?_⟩
      rintro d ⟨⟩ hd
      have hd' : (s.setCallback c (some ⟨some d, stopMethod⟩)).dispatchers d = none := hd
      simp [add, hd'] at h
  | destruct c =>
    intro hc
    simp [perform, destruct, hc] at h
  | notifyAll d message =>
    intro hd
    simp [perform, notifyAll, hd] at h

theorem kept_of_perform (h : Registered s) {op : Operation δ κ μ}
    (hperform : perform s op = some (t, calls)) : Kept s op t calls := by
  obtain ⟨t', calls', hperform', hkept⟩ := perform_kept h op (legal_of_perform hperform)
  rw [hperform] at hperform'
  cases hperform'
  exact hkept

theorem registered_of_run (h : (registry δ κ μ).Run es s) : Registered s := by
  refine h.invariant (P := fun _ s => Registered s) ?_ ?_
  · rintro _ rfl
    exact .empty
  · intro es s e t hs hstep
    exact (kept_of_perform hs hstep).registered

theorem target_of_run (h : (registry δ κ μ).Run es s) :
    s.target = es.foldr (fun e target => e.1.retarget target) fun _ => none := by
  have hinv := h.invariant
    (P := fun es s => Registered s ∧
      s.target = es.foldr (fun e target => e.1.retarget target) fun _ => none)
    (by
      rintro _ rfl
      exact ⟨.empty, rfl⟩)
    (by
      rintro es s e t ⟨hregistered, htarget⟩ hstep
      have hkept := kept_of_perform hregistered hstep
      refine ⟨hkept.registered, ?_⟩
      rw [List.foldr_cons, ← htarget]
      exact hkept.target)
  exact hinv.2

theorem untouched_of_run (h : (registry δ κ μ).Run (later ++ (.destroy d, calls) :: before) s)
    (hcreate : ∀ e ∈ later, e.1 ≠ .create d) :
    s.dispatchers d = none ∧ ∀ e ∈ later, d ∉ e.2.filterMap Call.touched := by
  induction later generalizing s with
  | nil =>
    obtain - | ⟨hrun, hstep⟩ := h
    have hregistered := registered_of_run hrun
    obtain ⟨callbacks, hd⟩ := Option.ne_none_iff_exists'.mp (legal_of_perform hstep)
    obtain ⟨t, calls', hdestroy, hdispatchers, -⟩ := exists_destroy (μ := μ) hregistered hd
    obtain ⟨rfl, -⟩ := Prod.mk.inj (Option.some.inj (hdestroy.symm.trans hstep))
    exact ⟨by rw [hdispatchers, Function.update_self], nofun⟩
  | cons e later ih =>
    obtain - | ⟨hrun, hstep⟩ := h
    obtain ⟨hdead, hlater⟩ := ih hrun fun e he => hcreate e (List.mem_cons_of_mem _ he)
    have hkept := kept_of_perform (registered_of_run hrun) hstep
    refine ⟨hkept.dead d hdead (hcreate e (List.mem_cons_self ..)), fun x hx => ?_⟩
    rcases List.mem_cons.mp hx with rfl | hx
    · exact fun htouched => hkept.alive d htouched hdead
    · exact hlater x hx

structure InStep (μ : Type) (s : Objects δ κ) : Prop where
  members : ∀ d callbacks, s.dispatchers d = some callbacks → callbacks.Nodup ∧
    ∀ c, c ∈ callbacks ↔
      ∃ callback, s.callbacks c = some callback ∧ callback.dispatcher = some d
  goesThrough : ∀ op : Operation δ κ μ, op.Legal s → ∃ t calls, perform s op = some (t, calls)
  notifyAll : ∀ d callbacks, s.dispatchers d = some callbacks → ∀ message : μ,
    notifyAll d message s = some (s, callbacks.map (.notify · message))
  destroy : ∀ d callbacks, s.dispatchers d = some callbacks →
    ∃ t, ∃ calls : List (Call δ κ μ), destroy d s = some (t, calls) ∧
      calls.filterMap Call.outOfService? = callbacks ∧
      ∀ c ∈ callbacks, ∀ callback, t.callbacks c = some callback → callback.dispatcher = none

/-- In every run: the vectors have the callbacks that point at their dispatchers, each once; no
operation meets a dead object; `NotifyAll` notifies each of them once and nobody else; the
destruction of a dispatcher puts each of them out of service once and leaves no pointer to it; and
nothing touches it afterwards. -/
theorem run_registry (h : (registry δ κ μ).Run es s) : InStep μ s ∧
    ∀ d later before calls, es = later ++ (.destroy d, calls) :: before →
      (∀ e ∈ later, e.1 ≠ .create d) → ∀ e ∈ later, d ∉ e.2.filterMap Call.touched := by
  have hregistered := registered_of_run h
  refine ⟨⟨fun d callbacks hd => ⟨hregistered.nodup d callbacks hd, fun c => ?_⟩,
    fun op hlegal => ?_, fun d callbacks hd => notifyAll_eq hregistered hd,
    fun d callbacks hd => ?_⟩, ?_⟩
  · rw [hregistered.mem_iff d callbacks hd, Objects.target, Option.bind_eq_some_iff]
  · obtain ⟨t, calls, hperform, -⟩ := perform_kept hregistered op hlegal
    exact ⟨t, calls, hperform⟩
  · obtain ⟨t, calls, hdestroy, -, hcallbacks, hstopped, -⟩ :=
      exists_destroy (μ := μ) hregistered hd
    refine ⟨t, calls, hdestroy, hstopped, fun c hc callback hcallback => ?_⟩
    have hnone := target_survivor (s.callbacks c)
    rw [hcallbacks c, if_pos ((hregistered.mem_iff d callbacks hd c).mp hc)] at hcallback
    rw [hcallback] at hnone
    exact hnone
  · rintro d later before calls rfl hcreate
    exact (untouched_of_run h hcreate).2

/-- Two callbacks are there when their dispatcher goes, and one of them destroys itself then. The
other one goes afterwards, and a third one has gone before. -/
theorem run_registry_three : ∃ es s, (registry Unit (Fin 3) String).Run es s ∧
    es.map Prod.fst = [.destruct 1, .destroy (), .notifyAll () "libfoo.so", .destruct 0,
      .construct 2 (some ()) .destroys, .construct 1 (some ()) .null,
      .construct 0 (some ()) .returns, .create ()] ∧
    InStep String s ∧
      ∀ d later before calls, es = later ++ (.destroy d, calls) :: before →
        (∀ e ∈ later, e.1 ≠ .create d) → ∀ e ∈ later, d ∉ e.2.filterMap Call.touched := by
  have hstart : (registry Unit (Fin 3) String).Run [] ⟨fun _ => none, fun _ => none⟩ := .start rfl
  have hcreated := hstart.then_ (.create (), _) rfl
  have hfirst := hcreated.then_ (.construct 0 (some ()) .returns, _) rfl
  have hsecond := hfirst.then_ (.construct 1 (some ()) .null, _) rfl
  have hthird := hsecond.then_ (.construct 2 (some ()) .destroys, _) rfl
  have hgone := hthird.then_ (.destruct 0, _) rfl
  have hnotified := hgone.then_ (.notifyAll () "libfoo.so", _) rfl
  have hdestroyed := hnotified.then_ (.destroy (), _) rfl
  have hlast := hdestroyed.then_ (.destruct 1, _) rfl
  exact ⟨_, _, hlast, rfl, run_registry hlast⟩

end GreenCloud.Dispatcher
