import GreenCloud.CLib.Memory
import GreenCloud.Dispatcher
import Mathlib.Data.List.ReduceOption

/-! `DirMonitor::Monitor`: the events of the directory as they come from `read`, and the messages it
has for the dispatcher. -/

namespace GreenCloud.DirMonitor

open CLib

abbrev slash : UInt8 := 47

/-- The name of a file, of at most `NAME_MAX` bytes. -/
structure FileName where
  bytes : Bytes
  ne_nil : bytes ≠ []
  no_nul : 0 ∉ bytes
  no_slash : slash ∉ bytes
  length_le : bytes.length ≤ 255

abbrev nameOffset : Nat := 16

/-- `struct inotify_event` of `IN_CREATE`. The name is padded with zeros; what stands before it is
not looked at. -/
structure Event where
  header : Bytes
  name : FileName
  padding : Nat
  length_header : header.length = nameOffset
  padding_pos : 0 < padding

def Event.bytes (event : Event) : Bytes :=
  event.header ++ (event.name.bytes ++ zeros event.padding)

/-- `sizeof(buf)` -/
abbrev buffSize : Nat := 4096

structure Batch where
  events : List Event
  ne_nil : events ≠ []
  fits : (events.flatMap Event.bytes).length ≤ buffSize

/-- The variables of `Monitor` that outlive a turn of its loop. -/
structure Variables where
  buf : Bytes
  fullName : Bytes

def readEvents (buf : Bytes) (batch : Batch) : Bytes :=
  let got := batch.events.flatMap Event.bytes
  got ++ buf.drop got.length

def turn (dirPath : Bytes) (v : Variables) (batch : Batch) : Option Variables := do
  let buf := readEvents v.buf batch
  let name ← cstr (buf.drop nameOffset)
  return ⟨buf, v.fullName ++ dirPath ++ [slash] ++ name⟩

/-- The messages that `NotifyAll` is called with. A turn without a batch is one that timed out. -/
def monitor (dirPath : Bytes) : Variables → List (Option Batch) → Option (List Bytes)
  | _, [] => some []
  | v, none :: turns => monitor dirPath v turns
  | v, some batch :: turns => do
    let v ← turn dirPath v batch
    let messages ← monitor dirPath v turns
    return v.fullName :: messages

def files (turns : List (Option Batch)) : List FileName :=
  turns.reduceOption.flatMap fun batch => batch.events.map Event.name

def path (dirPath : Bytes) (name : FileName) : Bytes := dirPath ++ slash :: name.bytes

def Batch.first (batch : Batch) : FileName := (batch.events.head batch.ne_nil).name

def accumulate (fullName : Bytes) : List Bytes → List Bytes
  | [] => []
  | p :: paths => (fullName ++ p) :: accumulate (fullName ++ p) paths

variable {dirPath : Bytes}

theorem turn_eq (v : Variables) (batch : Batch) : turn dirPath v batch =
    some ⟨readEvents v.buf batch, v.fullName ++ path dirPath batch.first⟩ := by
  obtain ⟨events, ne_nil, fits⟩ := batch
  cases events with
  | nil => exact absurd rfl ne_nil
  | cons event events =>
    let rest := events.flatMap Event.bytes ++
      v.buf.drop ((event :: events).flatMap Event.bytes).length
    have hbuf : readEvents v.buf ⟨event :: events, ne_nil, fits⟩ =
        event.header ++ (event.name.bytes ++ (zeros event.padding ++ rest)) := by
      simp [readEvents, Event.bytes, rest]
    have hname : cstr ((readEvents v.buf ⟨event :: events, ne_nil, fits⟩).drop nameOffset) =
        some event.name.bytes := by
      rw [hbuf, List.drop_left' event.length_header, eq_zeros_cons event.padding_pos]
      exact cstr_append event.name.no_nul _
    simp [turn, hname, path, Batch.first]

theorem monitor_eq (v : Variables) (turns : List (Option Batch)) :
    monitor dirPath v turns = some (accumulate v.fullName
      (turns.reduceOption.map fun batch => path dirPath batch.first)) := by
  induction turns generalizing v with
  | nil => rfl
  | cons o turns ih =>
    cases o with
    | none =>
      rw [monitor, ih, List.reduceOption_cons_of_none]
    | some batch =>
      rw [monitor, turn_eq, List.reduceOption_cons_of_some, List.map_cons, accumulate]
      simp [ih]

/-- Two paths in one message are not the path of a file. -/
theorem path_append_ne (a b c : FileName) :
    path dirPath a ++ path dirPath b ≠ path dirPath c := by
  intro h
  rw [path, path, path, List.append_assoc, List.append_cancel_left_eq, List.cons_append,
    List.cons.injEq] at h
  obtain ⟨-, hc⟩ := h
  apply c.no_slash
  rw [← hc]
  simp

theorem Batch.length_names_pos (batch : Batch) : 0 < (batch.events.map Event.name).length := by
  rw [List.length_map]
  exact List.length_pos_of_ne_nil batch.ne_nil

/-- There is one message for each file, with its path, exactly if not more than one file is created:
the path of a second one comes behind the first, or it has no message. -/
theorem monitor_files_iff (dirPath buf : Bytes) (turns : List (Option Batch)) :
    monitor dirPath ⟨buf, []⟩ turns = some ((files turns).map (path dirPath)) ↔
      (files turns).length ≤ 1 := by
  rw [monitor_eq, Option.some.injEq, files]
  generalize turns.reduceOption = batches
  match batches with
  | [] => simp [accumulate]
  | [batch] =>
    obtain ⟨events, ne_nil, fits⟩ := batch
    match events with
    | [] => exact absurd rfl ne_nil
    | [event] => simp [accumulate, Batch.first]
    | event :: event' :: events => simp [accumulate]
  | first :: second :: batches =>
    have hlength : 2 ≤ ((first :: second :: batches).flatMap
        fun batch => batch.events.map Event.name).length := by
      rw [List.flatMap_cons, List.flatMap_cons, List.length_append, List.length_append]
      have hfirst := first.length_names_pos
      have hsecond := second.length_names_pos
      omega
    generalize (first :: second :: batches).flatMap (fun batch => batch.events.map Event.name) =
      names at hlength ⊢
    match names, hlength with
    | a :: b :: names, hlength =>
      refine iff_of_false (fun h => ?_) (Nat.not_le_of_lt hlength)
      simp only [List.map_cons, accumulate, List.nil_append, List.cons.injEq] at h
      exact path_append_ne first.first second.first b h.2.1

/-- Two files, each in a `read` of its own: the second message has both paths. -/
theorem not_monitor_files : ∃ (dirPath : Bytes) (first second : Batch),
    first.events.length = 1 ∧ second.events.length = 1 ∧
    monitor dirPath ⟨zeros buffSize, []⟩ [some first, some second] ≠
      some ((files [some first, some second]).map (path dirPath)) := by
  let a : Event := ⟨zeros 16, ⟨[97], by decide, by decide, by decide, by decide⟩, 15, by decide,
    by decide⟩
  let b : Event := ⟨zeros 16, ⟨[98], by decide, by decide, by decide, by decide⟩, 15, by decide,
    by decide⟩
  refine ⟨[46], ⟨[a], by simp, by decide⟩, ⟨[b], by simp, by decide⟩, rfl, rfl, ?_⟩
  rw [monitor_eq]
  intro h
  simp [accumulate, Batch.first, files, List.reduceOption, path, a, b] at h

section Dispatcher

open GreenCloud.Dispatcher

variable {δ κ : Type} {s : Objects δ κ} {d : δ} {callbacks : List κ}

def notifyEach (d : δ) : List Bytes → Objects δ κ → Option (Result δ κ Bytes)
  | [], s => some (s, [])
  | message :: messages, s => do
    let (s, calls) ← notifyAll d message s
    let (s, more) ← notifyEach d messages s
    return (s, calls ++ more)

theorem notifyEach_eq (h : Registered s) (hd : s.dispatchers d = some callbacks)
    (messages : List Bytes) : notifyEach d messages s =
      some (s, messages.flatMap fun message => callbacks.map (.notify · message)) := by
  induction messages with
  | nil => rfl
  | cons message messages ih => simp [notifyEach, notifyAll_eq h hd, ih]

theorem notifyEach_monitor (h : Registered s) (hd : s.dispatchers d = some callbacks)
    (v : Variables) (turns : List (Option Batch)) :
    (monitor dirPath v turns).bind (notifyEach d · s) =
      some (s, (accumulate v.fullName (turns.reduceOption.map fun batch =>
        path dirPath batch.first)).flatMap fun message => callbacks.map (.notify · message)) := by
  rw [monitor_eq, Option.bind_some, notifyEach_eq h hd]

end Dispatcher

end GreenCloud.DirMonitor
