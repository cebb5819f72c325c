import GreenCloud.Cluster.Progress

/-! What a client of the NBD socket may rely on: the cluster is the device, and each byte of the device
is a regular register. -/

namespace GreenCloud.Cluster

open CLib Transition

/-- In every run with fewer than 2^31 - 1 ids issued, for any numbers of workers and whatever the
network loses, the cluster is a run of the device that shows the same requests and answers step by
step and ends with the bytes of the mapping, and the master never exits over a reply. -/
theorem run_refines (h : (cluster n m storage).Run es s)
    (hfew : Lifecycle.issues es < 2 ^ 31 - 1) :
    (∃ xs a, (CellStore.store Nat (device storage.getSize) (initial storage)).Run xs a ∧
      xs.map deviceShown = es.map shown ∧ ∀ p v, s.storage.mmap[p]? = some v → a.cells p = v) ∧
    .exited ∉ es := by
  obtain ⟨xs, a, hrun, hshown, toks, htracked⟩ := simulated_of_run (run_work h) hfew
  exact ⟨⟨xs, a, hrun, hshown, htracked.cells⟩, htracked.alive⟩

def writeOne : DriverData := ⟨0, 0, .replicate 8 6, 1, .write, 0, [66]⟩

theorem servable_writeOne : Servable 1 writeOne where
  accepted := ⟨⟨writeOne, fun _ => 0⟩, ⟨NBDDriverProxy.ntohl NBDDriverProxy.requestMagic, 0x01000000,
    .replicate 8 6, 0, 0x01000000⟩, [66], [], by decide⟩
  connected := by decide
  len _ := by decide
  nonempty := nofun
  inside _ := by decide

inductive WriteRead : List Event → Prop
  | intro (data bytes data' bytes') : Quiet 1 first → Quiet 1 second →
    WriteRead (.answered data' bytes' :: (second ++ .received readOne ::
      .answered data bytes :: (first ++ [.received writeOne])))

theorem WriteRead.issues (h : WriteRead es) : Lifecycle.issues es ≤ 2 := by
  cases h with
  | intro data bytes data' bytes' hfirst hsecond =>
    have hle := hfirst.issues
    have hle' := hsecond.issues
    simp only [Lifecycle.issues, issues_append]
    omega

theorem WriteRead.received (h : WriteRead es) (hreq : Occurs es j (.received req)) :
    req = writeOne ∨ req = readOne := by
  have hmem := List.mem_reverse.mp (List.mem_of_getElem? hreq)
  cases h with
  | intro data bytes data' bytes' hfirst hsecond =>
    have hnone : ∀ {more : List Event}, Quiet 1 more → .received req ∉ more :=
      fun hquiet hmem => by cases hquiet.shown _ hmem
    simpa [hnone hfirst, hnone hsecond, or_comm] using hmem

theorem WriteRead.nonzero (h : WriteRead es) (hreq : Occurs es j (.received req)) : 0 ∉ req.buff := by
  rcases h.received hreq with rfl | rfl <;> decide

theorem exists_run_writeRead : ∃ es s, WriteRead es ∧ (cluster 1 1 ⟨[65]⟩).Run es s := by
  have hstart : (cluster 1 1 ⟨[65]⟩).Run [] (init ⟨[65]⟩) := .start rfl
  obtain ⟨first, data, bytes, t, hfirst, -, hrun, hidle⟩ :=
    exists_run_next hstart rfl (by decide) servable_writeOne (.inr rfl)
  have hissues : Lifecycle.issues (.answered data bytes :: (first ++ [.received writeOne])) ≤ 1 := by
    have hle := hfirst.issues
    simp only [Lifecycle.issues, issues_append]
    omega
  obtain ⟨second, data', bytes', s, hsecond, -, hrun', -⟩ := exists_run_next hrun hidle (by omega)
    servable_readOne (.inl rfl)
  exact ⟨_, s, .intro data bytes data' bytes' hfirst hsecond, hrun'⟩

theorem run_refines_writeRead : ∃ (es : List Event) (s : State), WriteRead es ∧
    (∃ xs a, (CellStore.store Nat (device 1) (initial ⟨[65]⟩)).Run xs a ∧
      xs.map deviceShown = es.map shown ∧
      ∀ p v, s.storage.mmap[p]? = some v → a.cells p = v) ∧
    .exited ∉ es := by
  obtain ⟨es, s, hes, hrun⟩ := exists_run_writeRead
  have hissues := hes.issues
  exact ⟨es, s, hes, run_refines hrun (by omega)⟩

/-- Before event `i` a `WRITE` of the byte was answered that came in after the answer to request
number `j`. `f` takes the number of an answer to that of its request. -/
def Overwritten (f : Nat → Nat) (es : List Event) (i j p : Nat) : Prop :=
  ∃ a a' w, Lifecycle.Answered es a ∧ f a = j ∧ a < f a' ∧ Occurs es (f a') (.received w) ∧
    w.key = .write ∧ MmapStorage.Covers w p ∧ Lifecycle.Answered es a' ∧ a' < i

/-- The byte may be in answer `a` to a `READ` that came in as event `i`: it is that of a `WRITE` that
came in before the answer and was not overwritten before the `READ`, or it is the first byte there and
no `WRITE` of it was answered before the `READ`. -/
def Current (storage : MmapStorage) (f : Nat → Nat) (es : List Event) (i a p : Nat) (v : UInt8) : Prop :=
  (∃ j w, Occurs es j (.received w) ∧ j < a ∧ w.key = .write ∧ MmapStorage.Covers w p ∧
    w.buff[p - w.offset.toNat]? = some v ∧ ¬ Overwritten f es i j p) ∨
  storage.mmap[p]? = some v ∧ ∀ a' w, Lifecycle.Answered es a' → a' < i →
    Occurs es (f a') (.received w) → w.key = .write → ¬ MmapStorage.Covers w p

def Answer (storage : MmapStorage) (f : Nat → Nat) (es : List Event) (a : Nat) (req : DriverData)
    (bytes : Bytes) : Prop :=
  ∃ status payload, bytes = NBDDriverProxy.initReply status req.handler ++ payload ∧
    if req.key = .read then
      payload.length = req.len.toNat ∧
        ∀ k < req.len.toNat, ∃ v, payload[k]? = some v ∧
          Current storage f es (f a) a (req.offset.toNat + k) v
    else payload = []

variable {storage : MmapStorage} {es : List Event} {xs : List DeviceEvent} {req data : DriverData}

theorem occurs_received (h : xs.map deviceShown = es.map shown) :
    Occurs es i (.received req) ↔ ∃ tag, Occurs xs i (.called tag req) := by
  have hiff : Occurs (xs.map deviceShown) i (some (.request req)) ↔
      Occurs (es.map shown) i (some (.request req)) := by rw [h]
  rw [occurs_map, occurs_map] at hiff
  constructor
  · intro hreceived
    obtain ⟨x, hx, hshown⟩ := hiff.mpr ⟨_, hreceived, rfl⟩
    cases x with
    | called tag =>
      cases hshown
      exact ⟨tag, hx⟩
    | answered | read | wrote | silent => cases hshown
  · rintro ⟨tag, hcalled⟩
    obtain ⟨e, he, hshown⟩ := hiff.mp ⟨_, hcalled, rfl⟩
    cases e with
    | received =>
      cases hshown
      exact he
    | answered | registered | exited | silent => cases hshown

theorem occurs_answered (h : xs.map deviceShown = es.map shown) :
    (∃ data, Occurs es i (.answered data bytes)) ↔ ∃ tag, Occurs xs i (.answered tag bytes) := by
  have hiff : Occurs (xs.map deviceShown) i (some (.reply bytes)) ↔
      Occurs (es.map shown) i (some (.reply bytes)) := by rw [h]
  rw [occurs_map, occurs_map] at hiff
  constructor
  · rintro ⟨data, hanswered⟩
    obtain ⟨x, hx, hshown⟩ := hiff.mpr ⟨_, hanswered, rfl⟩
    cases x with
    | answered tag =>
      cases hshown
      exact ⟨tag, hx⟩
    | called | read | wrote | silent => cases hshown
  · rintro ⟨tag, hanswered⟩
    obtain ⟨e, he, hshown⟩ := hiff.mp ⟨_, hanswered, rfl⟩
    cases e with
    | answered data =>
      cases hshown
      exact ⟨data, he⟩
    | received | registered | exited | silent => cases hshown

theorem answered_iff (h : xs.map deviceShown = es.map shown) :
    Lifecycle.Answered es i ↔ ∃ tag bytes, Occurs xs i (.answered tag bytes) := by
  constructor
  · rintro ⟨data, bytes, hanswered⟩
    obtain ⟨tag, htag⟩ := (occurs_answered h).mp ⟨data, hanswered⟩
    exact ⟨tag, bytes, htag⟩
  · rintro ⟨tag, bytes, hanswered⟩
    obtain ⟨data, hdata⟩ := (occurs_answered h).mpr ⟨tag, hanswered⟩
    exact ⟨data, bytes, hdata⟩

theorem accepted_of_run (h : (work storage).Run es w) (hreceived : Occurs es i (.received req)) :
    Accepted req := by
  induction h with
  | start => exact absurd hreceived (not_occurs_nil _ _)
  | step _ hstep ih =>
    rcases occurs_cons.mp hreceived with hreceived | ⟨-, rfl⟩
    · exact ih hreceived
    · cases hstep with
      | received hdata => exact hdata

theorem writes_iff (hnul : req.key = .write → 0 ∉ req.buff) :
    (device size).writes req p v ↔ req.key = .write ∧ MmapStorage.Covers req p ∧
      req.buff[p - req.offset.toNat]? = some v := by
  have hnone : req.key = .write → ∀ j < p - req.offset.toNat, req.buff[j]? ≠ some 0 :=
    fun hkey _ _ hj => hnul hkey (List.mem_of_getElem? hj)
  constructor
  · rintro ⟨hkey, hcovers, hbyte⟩
    exact ⟨hkey, hcovers, (hbyte (hnone hkey)).symm⟩
  · rintro ⟨hkey, hcovers, hbyte⟩
    exact ⟨hkey, hcovers, fun _ => hbyte.symm⟩

theorem exists_writes (hreq : Accepted req) (hkey : req.key = .write)
    (hcovers : MmapStorage.Covers req p) : ∃ v, (device size).writes req p v := by
  have hlen := hreq.length_buff hkey
  have hin : p - req.offset.toNat < req.buff.length := by
    obtain ⟨hle, hlt⟩ := hcovers
    omega
  exact ⟨req.buff[p - req.offset.toNat], hkey, hcovers, fun _ => (List.getElem?_eq_getElem hin).symm⟩

structure Matched (es : List Event) (xs : List DeviceEvent) (f : Nat → Nat) : Prop where
  shown : xs.map deviceShown = es.map shown
  once : ∀ i j tag req req', Occurs xs i (.called tag req) → Occurs xs j (.called tag req') → i = j
  call : ∀ a tag resp, Occurs xs a (.answered tag resp) →
    f a < a ∧ ∃ req, Occurs xs (f a) (.called tag req)
  accepted : ∀ i req, Occurs es i (.received req) → Accepted req

namespace Matched

variable {f : Nat → Nat}

theorem exists_answered (h : Matched es xs f) (ha : Lifecycle.Answered es a) :
    ∃ tag resp req, Occurs xs a (.answered tag resp) ∧ Occurs xs (f a) (.called tag req) ∧
      Occurs es (f a) (.received req) := by
  obtain ⟨tag, resp, hanswered⟩ := (answered_iff h.shown).mp ha
  obtain ⟨-, req, hcalled⟩ := h.call a tag resp hanswered
  exact ⟨tag, resp, req, hanswered, hcalled, (occurs_received h.shown).mpr ⟨tag, hcalled⟩⟩

theorem received (h : Matched es xs f) (ha : Lifecycle.Answered es a) :
    f a < a ∧ ∃ req, Occurs es (f a) (.received req) := by
  obtain ⟨tag, resp, req, hanswered, -, hreceived⟩ := h.exists_answered ha
  exact ⟨(h.call a tag resp hanswered).1, req, hreceived⟩

theorem overwritten (h : Matched es xs f) (hcalled : Occurs xs j (.called tag req))
    (hover : Overwritten f es i j p) : CellStore.Overwritten (device size) xs i tag p := by
  obtain ⟨a, a', w, ha, rfl, hlt, hreceived, hkey, hcovers, ha', hi⟩ := hover
  obtain ⟨tag₁, resp, _, hanswered, hcalled₁, -⟩ := h.exists_answered ha
  cases hcalled₁.unique hcalled
  obtain ⟨tag', resp', w', hanswered', hcalled', hreceived'⟩ := h.exists_answered ha'
  cases hreceived'.unique hreceived
  obtain ⟨v, hwrites⟩ := exists_writes (h.accepted _ _ hreceived) hkey hcovers
  exact ⟨a, resp, f a', tag', w, v, a', resp', hanswered, hlt, hcalled', hwrites, hanswered', hi⟩

theorem current (h : Matched es xs f) (hstorage : 0 ∉ storage.mmap)
    (hwrites : ∀ j w, Occurs es j (.received w) → w.key = .write → 0 ∉ w.buff)
    (hp : p < storage.getSize)
    (hreadable : CellStore.Readable (device storage.getSize) (initial storage) xs i a p v) :
    Current storage f es i a p v ∧ v ≠ 0 := by
  rcases hreadable with ⟨j, tag, w, hcalled, hja, hwrote, hnot⟩ | ⟨rfl, hnone⟩
  · have hreceived := (occurs_received h.shown).mpr ⟨tag, hcalled⟩
    obtain ⟨hkey, hcovers, hbyte⟩ := (writes_iff (hwrites j w hreceived)).mp hwrote
    refine ⟨.inl ⟨j, w, hreceived, hja, hkey, hcovers, hbyte, fun hover => ?_⟩, ?_⟩
    · exact hnot (h.overwritten hcalled hover)
    · rintro rfl
      exact hwrites j w hreceived hkey (List.mem_of_getElem? hbyte)
  · have hbyte : storage.mmap[p]? = some (initial storage p) := by
      rw [initial, List.getD_eq_getElem?_getD, List.getElem?_eq_getElem hp, Option.getD_some]
    refine ⟨.inr ⟨hbyte, fun a' w ha' hi hreceived hkey hcovers => ?_⟩, ?_⟩
    · obtain ⟨tag, resp, w', hanswered, hcalled, hreceived'⟩ := h.exists_answered ha'
      cases hreceived'.unique hreceived
      obtain ⟨v, hwrote⟩ := exists_writes (h.accepted _ _ hreceived) hkey hcovers
      exact hnone a' tag resp (f a') w v hanswered hi hcalled hwrote
    · intro hzero
      rw [hzero] at hbyte
      exact hstorage (List.mem_of_getElem? hbyte)

end Matched

theorem answer_of_replies (hreplies : Replies size req done bytes)
    (hcurrent : ∀ k < req.len.toNat, req.key = .read → req.offset.toNat + k < size →
      ∃ v, done (req.offset.toNat + k) = some v ∧
        Current storage f es (f a) a (req.offset.toNat + k) v ∧ v ≠ 0) :
    Answer storage f es a req bytes := by
  unfold Replies at hreplies
  split at hreplies
  · rename_i hkey
    obtain ⟨hinside, status, payload, rfl, hlen, hpayload⟩ := hreplies
    refine ⟨status, payload, rfl, ?_⟩
    rw [if_pos hkey]
    have hcurrent : ∀ k < req.len.toNat, ∃ v, done (req.offset.toNat + k) = some v ∧
        Current storage f es (f a) a (req.offset.toNat + k) v ∧ v ≠ 0 := fun k hk =>
      hcurrent k hk hkey (hinside _ (covers_iff.mpr ⟨k, hk, rfl⟩))
    refine ⟨hlen, fun k hk => ?_⟩
    obtain ⟨v, hv, hbyte, -⟩ := hcurrent k hk
    refine ⟨v, (hpayload k hk fun j hj hzero => ?_).trans hv, hbyte⟩
    obtain ⟨v', hv', -, hne⟩ := hcurrent j (Nat.lt_trans hj hk)
    exact hne (Option.some.inj (hv'.symm.trans hzero))
  · rename_i hread
    split at hreplies
    · obtain ⟨-, status, rfl⟩ := hreplies
      exact ⟨status, [], by rw [List.append_nil], by rw [if_neg hread]⟩
    · exact ⟨0, [], by rw [hreplies, List.append_nil], by rw [if_neg hread]⟩

theorem exists_matched (h : (cluster n m storage).Run es s)
    (hfew : Lifecycle.issues es < 2 ^ 31 - 1) :
    ∃ xs f, (∃ a, (CellStore.store Nat (device storage.getSize) (initial storage)).Run xs a) ∧
      Matched es xs f ∧
      ∀ a a', Lifecycle.Answered es a → Lifecycle.Answered es a' → f a = f a' → a = a' := by
  obtain ⟨xs, _, hrun, hshown, -⟩ := simulated_of_run (run_work h) hfew
  have hrecorded := CellStore.recorded_of_run hrun
  obtain ⟨f, hcall, honce⟩ := hrecorded.exists_call
  refine ⟨xs, f, ⟨_, hrun⟩, ⟨hshown, hrecorded.once, hcall, fun i req => accepted_of_run (run_work h)⟩,
    fun a a' ha ha' heq => ?_⟩
  obtain ⟨tag, resp, htag⟩ := (answered_iff hshown).mp ha
  obtain ⟨tag', resp', htag'⟩ := (answered_iff hshown).mp ha'
  exact honce a a' tag tag' resp resp' htag htag' heq

theorem Matched.replies {f : Nat → Nat} (h : Matched es xs f)
    (hrun : (CellStore.store Nat (device size) (initial storage)).Run xs b)
    (ha : Occurs es a (.answered data bytes)) :
    f a < a ∧ ∃ req done, Occurs es (f a) (.received req) ∧ (device size).Complete req done ∧
      Replies size req done bytes ∧ ∀ p v, (device size).reads req p → done p = some v →
        CellStore.Readable (device size) (initial storage) xs (f a) a p v := by
  obtain ⟨tag, htag⟩ := (occurs_answered h.shown).mp ⟨data, ha⟩
  obtain ⟨hlt, req, hcalled⟩ := h.call a tag bytes htag
  obtain ⟨i, req', done, -, hcalled', hcomplete, hreplies, hreadable⟩ :=
    CellStore.run_regular hrun htag
  obtain rfl := h.once i (f a) tag req' req hcalled' hcalled
  cases hcalled'.unique hcalled
  exact ⟨hlt, req, done, (occurs_received h.shown).mpr ⟨tag, hcalled⟩, hcomplete, hreplies, hreadable⟩

theorem Matched.answer {f : Nat → Nat} (h : Matched es xs f)
    (hrun : (CellStore.store Nat (device storage.getSize) (initial storage)).Run xs b)
    (hstorage : 0 ∉ storage.mmap)
    (hwrites : ∀ j w, Occurs es j (.received w) → w.key = .write → 0 ∉ w.buff)
    (ha : Occurs es a (.answered data bytes)) :
    f a < a ∧ ∃ req, Occurs es (f a) (.received req) ∧ Answer storage f es a req bytes := by
  obtain ⟨hlt, req, done, hreceived, hcomplete, hreplies, hreadable⟩ := h.replies hrun ha
  refine ⟨hlt, req, hreceived, answer_of_replies hreplies fun k hk hkey hp => ?_⟩
  have hreads : (device storage.getSize).reads req (req.offset.toNat + k) :=
    ⟨hkey, covers_iff.mpr ⟨k, hk, rfl⟩⟩
  obtain ⟨v, hv⟩ := hcomplete _ (.inl hreads)
  exact ⟨v, hv, h.current hstorage hwrites hp (hreadable _ v hreads hv)⟩

/-- In every run with fewer than 2^31 - 1 ids issued in which no byte is NUL, whatever overlaps and
whatever the network loses: every answer is one to an earlier request, no request has two, and each
byte that a `READ` gets is that of a `WRITE` that was not overwritten before the `READ` came in, or
the first byte there. -/
theorem run_consistent (h : (cluster n m storage).Run es s)
    (hfew : Lifecycle.issues es < 2 ^ 31 - 1) (hstorage : 0 ∉ storage.mmap)
    (hwrites : ∀ j w, Occurs es j (.received w) → w.key = .write → 0 ∉ w.buff) :
    ∃ f : Nat → Nat,
      (∀ a data bytes, Occurs es a (.answered data bytes) → f a < a ∧
        ∃ req, Occurs es (f a) (.received req) ∧ Answer storage f es a req bytes) ∧
      ∀ a a', Lifecycle.Answered es a → Lifecycle.Answered es a' → f a = f a' → a = a' := by
  obtain ⟨xs, f, ⟨_, hrun⟩, hmatched, honce⟩ := exists_matched h hfew
  exact ⟨f, fun _ _ _ => hmatched.answer hrun hstorage hwrites, honce⟩

theorem run_consistent_writeRead : ∃ es, WriteRead es ∧
    ∃ f : Nat → Nat,
      (∀ a data bytes, Occurs es a (.answered data bytes) → f a < a ∧
        ∃ req, Occurs es (f a) (.received req) ∧ Answer ⟨[65]⟩ f es a req bytes) ∧
      ∀ a a', Lifecycle.Answered es a → Lifecycle.Answered es a' → f a = f a' → a = a' := by
  obtain ⟨es, s, hes, hrun⟩ := exists_run_writeRead
  have hissues := hes.issues
  exact ⟨es, hes, run_consistent hrun (by omega) (by decide) fun j w hw _ => hes.nonzero hw⟩

def isReceived : Event → Bool
  | .received _ => true
  | .registered _ | .answered _ _ | .exited | .silent => false

def isAnswered : Event → Bool
  | .answered _ _ => true
  | .received _ | .registered _ | .exited | .silent => false

/-- A request comes in only when there are as many answers as requests. -/
def Waits (es : List Event) : Prop :=
  ∀ after req before, es = after ++ .received req :: before →
    before.countP isReceived = before.countP isAnswered

def Sequential (f : Nat → Nat) (es : List Event) : Prop :=
  ∀ i j req req', Occurs es i (.received req) → Occurs es j (.received req') → i < j →
    ∃ a, Lifecycle.Answered es a ∧ f a = i ∧ a < j

theorem isAnswered_iff : isAnswered e ↔ ∃ data bytes, e = .answered data bytes := by
  cases e with
  | answered data bytes => simp [isAnswered]
  | received | registered | exited | silent => simp [isAnswered]

theorem exists_answer {f : Nat → Nat} (hle : es.countP isReceived ≤ es.countP isAnswered)
    (hcall : ∀ a, Lifecycle.Answered es a → ∃ req, Occurs es (f a) (.received req))
    (honce : ∀ a a', Lifecycle.Answered es a → Lifecycle.Answered es a' → f a = f a' → a = a')
    (hi : Occurs es i (.received req)) : ∃ a, Lifecycle.Answered es a ∧ f a = i := by
  have hanswered : ∀ {a x}, Occurs es a x → isAnswered x → Lifecycle.Answered es a := by
    intro a x hx hans
    obtain ⟨data, bytes, rfl⟩ := isAnswered_iff.mp hans
    exact ⟨data, bytes, hx⟩
  obtain ⟨a, x, ha, hx, hfa⟩ := exists_of_countP_le (f := f) (p := isAnswered) (q := isReceived)
    (fun a x ha hx => by
      obtain ⟨w, hw⟩ := hcall a (hanswered ha hx)
      exact ⟨_, hw, rfl⟩)
    (fun a a' x x' ha hx ha' hx' => honce a a' (hanswered ha hx) (hanswered ha' hx')) hle hi rfl
  exact ⟨a, hanswered ha hx, hfa⟩

theorem sequential_of_waits {f : Nat → Nat} (h : Waits es)
    (hcall : ∀ a, Lifecycle.Answered es a → f a < a ∧ ∃ req, Occurs es (f a) (.received req))
    (honce : ∀ a a', Lifecycle.Answered es a → Lifecycle.Answered es a' → f a = f a' → a = a') :
    Sequential f es := by
  intro i j req req' hi hj hij
  obtain ⟨after, before, hes, rfl⟩ := hj.split
  have hsame : ∀ {k x}, k < before.length → (Occurs es k x ↔ Occurs before k x) := by
    intro k x hk
    rw [hes, ← List.singleton_append, ← List.append_assoc]
    exact occurs_append_iff _ hk
  have hanswered : ∀ {a}, Lifecycle.Answered before a → a < before.length ∧ Lifecycle.Answered es a := by
    rintro a ⟨data, bytes, ha⟩
    exact ⟨ha.lt, data, bytes, (hsame ha.lt).mpr ha⟩
  obtain ⟨a, ha, hfa⟩ := exists_answer (f := f) (Nat.le_of_eq (h after req' before hes))
    (fun a ha => by
      obtain ⟨hlt, ha⟩ := hanswered ha
      obtain ⟨hfa, w, hw⟩ := hcall a ha
      exact ⟨w, (hsame (Nat.lt_trans hfa hlt)).mp hw⟩)
    (fun a a' ha ha' => honce a a' (hanswered ha).2 (hanswered ha').2) ((hsame hij).mp hi)
  obtain ⟨hlt, ha⟩ := hanswered ha
  exact ⟨a, ha, hfa, hlt⟩

def written (p : Nat) : Event → Option UInt8
  | .received w => if w.key = .write ∧ MmapStorage.Covers w p then w.buff[p - w.offset.toNat]? else none
  | .registered _ | .answered _ _ | .exited | .silent => none

theorem written_eq_some (h : written p e = some v) :
    ∃ w, e = .received w ∧ w.key = .write ∧ MmapStorage.Covers w p := by
  cases e with
  | received w =>
    rw [written] at h
    split at h
    · rename_i hw
      exact ⟨w, rfl, hw⟩
    · cases h
  | registered | answered | exited | silent => cases h

theorem Current.last {f : Nat → Nat} (h : Current storage f es before.length a p v)
    (hes : es = after ++ .received req :: before) (hkey : req.key = .read)
    (hseq : Sequential f es) (ha : Lifecycle.Answered es a) (hfa : f a = before.length)
    (honce : ∀ a a', Lifecycle.Answered es a → Lifecycle.Answered es a' → f a = f a' → a = a') :
    some v = (before.findSome? (written p)).or storage.mmap[p]? := by
  have hread : Occurs es before.length (.received req) := by
    rw [hes]
    exact occurs_append after before _
  have hearlier : ∀ {newer x older}, before = newer ++ x :: older →
      Occurs es older.length x ∧ older.length < before.length := by
    rintro newer x older rfl
    refine ⟨?_, by simp only [List.length_append, List.length_cons]; omega⟩
    rw [hes, ← List.cons_append, ← List.append_assoc]
    exact occurs_append _ older x
  rcases h with ⟨j, w, hw, hja, hwkey, hcovers, hbyte, hnot⟩ | ⟨hbyte, hnone⟩
  · -- The `WRITE` came in before the `READ`, which was not answered before it.
    have hlt : j < before.length := by
      rcases Nat.lt_trichotomy j before.length with hlt | heq | hgt
      · exact hlt
      · rw [heq] at hw
        cases hw.unique hread
        cases hkey.symm.trans hwkey
      · obtain ⟨a', ha', hfa', hlt⟩ := hseq _ _ _ _ hread hw hgt
        have := honce a a' ha ha' (hfa.trans hfa'.symm)
        omega
    have hold : Occurs before j (.received w) := by
      rw [hes, ← List.singleton_append, ← List.append_assoc, occurs_append_iff _ hlt] at hw
      exact hw
    obtain ⟨newer, older, hsplit, hlen⟩ := hold.split
    have hfound : before.findSome? (written p) = some v := by
      refine List.findSome?_eq_some_iff.mpr ⟨newer, .received w, older, hsplit, ?_, fun x hx => ?_⟩
      · rw [written, if_pos ⟨hwkey, hcovers⟩, hbyte]
      · rw [Option.eq_none_iff_forall_ne_some]
        intro v' hv'
        obtain ⟨w', rfl, hwkey', hcovers'⟩ := written_eq_some hv'
        obtain ⟨n₁, n₂, rfl⟩ := List.append_of_mem hx
        have hsplit' : before = n₁ ++ .received w' :: (n₂ ++ .received w :: older) := by
          rw [hsplit, List.append_assoc, List.cons_append]
        obtain ⟨hw', hlt'⟩ := hearlier hsplit'
        have hjlt : j < (n₂ ++ .received w :: older).length := by
          simp only [List.length_append, List.length_cons]
          omega
        obtain ⟨a₁, ha₁, hfa₁, hlt₁⟩ := hseq _ _ _ _ hw hw' hjlt
        obtain ⟨a₂, ha₂, hfa₂, hlt₂⟩ := hseq _ _ _ _ hw' hread hlt'
        exact hnot ⟨a₁, a₂, w', ha₁, hfa₁, by omega, by rw [hfa₂]; exact hw', hwkey', hcovers', ha₂,
          hlt₂⟩
    rw [hfound, Option.some_or]
  · have hnothing : before.findSome? (written p) = none := by
      refine List.findSome?_eq_none_iff.mpr fun x hx => ?_
      rw [Option.eq_none_iff_forall_ne_some]
      intro v' hv'
      obtain ⟨w', rfl, hwkey', hcovers'⟩ := written_eq_some hv'
      obtain ⟨newer, older, hsplit⟩ := List.append_of_mem hx
      obtain ⟨hw', hlt'⟩ := hearlier hsplit
      obtain ⟨a', ha', hfa', hlt⟩ := hseq _ _ _ _ hw' hread hlt'
      exact hnone a' w' ha' hlt (by rw [hfa']; exact hw') hwkey' hcovers'
    rw [hnothing, Option.none_or, hbyte]

/-- For a client that waits for each answer, in every run with fewer than 2^31 - 1 ids issued in which
no byte is NUL, the cluster is an array: the answer that follows a `READ` has the last byte that was
written at each position before it, or the first byte there. -/
theorem run_sequential (h : (cluster n m storage).Run es s)
    (hfew : Lifecycle.issues es < 2 ^ 31 - 1) (hstorage : 0 ∉ storage.mmap)
    (hwrites : ∀ j w, Occurs es j (.received w) → w.key = .write → 0 ∉ w.buff)
    (hwaits : Waits es) (hread : req.key = .read) (hquiet : ∀ e ∈ between, shown e = none)
    (hes : es = after ++ .answered data bytes :: (between ++ .received req :: before)) :
    ∃ status payload, bytes = NBDDriverProxy.initReply status req.handler ++ payload ∧
      payload.length = req.len.toNat ∧ ∀ k < req.len.toNat, payload[k]? =
        (before.findSome? (written (req.offset.toNat + k))).or
          storage.mmap[req.offset.toNat + k]? := by
  obtain ⟨xs, f, ⟨_, hrun⟩, hmatched, honce⟩ := exists_matched h hfew
  have hseq : Sequential f es := sequential_of_waits hwaits (fun a => hmatched.received) honce
  have hsplit : es = (after ++ .answered data bytes :: between) ++ .received req :: before := by
    rw [hes, List.append_assoc, List.cons_append]
  have hreq : Occurs es before.length (.received req) := by
    rw [hsplit]
    exact occurs_append _ before _
  have ha : Occurs es (between ++ .received req :: before).length (.answered data bytes) := by
    rw [hes]
    exact occurs_append after _ _
  obtain ⟨hlt, req', hreq', status, payload, hbytes, hpayload⟩ :=
    hmatched.answer hrun hstorage hwrites ha
  -- The answer is to the `READ`: those before it are answered, and nothing came in behind it.
  have hfa : f (between ++ .received req :: before).length = before.length := by
    rcases Nat.lt_trichotomy (f (between ++ .received req :: before).length) before.length with
      hbefore | heq | hafter
    · obtain ⟨a', ha', hfa', hlt'⟩ := hseq _ _ _ _ hreq' hreq hbefore
      have hsame := honce _ _ ha' ⟨data, bytes, ha⟩ hfa'
      rw [hsame, List.length_append, List.length_cons] at hlt'
      omega
    · exact heq
    · rw [hes, ← List.singleton_append, ← List.append_assoc, occurs_append_iff _ hlt] at hreq'
      cases hquiet _ (Occurs.mem hreq' hafter)
  rw [hfa] at hreq'
  cases hreq'.unique hreq
  rw [if_pos hread, hfa] at hpayload
  refine ⟨status, payload, hbytes, hpayload.1, fun k hk => ?_⟩
  obtain ⟨v, hv, hcurrent⟩ := hpayload.2 k hk
  rw [hv]
  exact hcurrent.last hsplit hread hseq ⟨data, bytes, ha⟩ hfa honce

theorem Waits.cons (h : Waits es)
    (he : isReceived e = true → es.countP isReceived = es.countP isAnswered) : Waits (e :: es) := by
  intro after req before hes
  cases after with
  | nil =>
    cases hes
    exact he rfl
  | cons x after =>
    cases hes
    exact h after req before rfl

theorem not_of_shown (h : shown e = none) : isReceived e = false ∧ isAnswered e = false := by
  cases e with
  | received | answered => cases h
  | registered | exited | silent => exact ⟨rfl, rfl⟩

theorem Waits.append (h : Waits es) (hshown : ∀ e ∈ more, shown e = none) : Waits (more ++ es) := by
  induction more with
  | nil => exact h
  | cons e more ih =>
    obtain ⟨he, hmore⟩ := List.forall_mem_cons.mp hshown
    refine (ih hmore).cons fun hreceived => ?_
    rw [(not_of_shown he).1] at hreceived
    cases hreceived

theorem Quiet.countP (h : Quiet k more) : more.countP isReceived = 0 ∧ more.countP isAnswered = 0 := by
  simp only [List.countP_eq_zero]
  exact ⟨fun e he => by simp [not_of_shown (h.shown e he)],
    fun e he => by simp [not_of_shown (h.shown e he)]⟩

theorem WriteRead.waits (h : WriteRead es) : Waits es := by
  cases h with
  | intro data bytes data' bytes' hfirst hsecond =>
    have hnone : Waits [] := fun after req before hes => by simp at hes
    have hwrite : Waits [.received writeOne] := hnone.cons fun _ => rfl
    have hanswered := (hwrite.append hfirst.shown).cons (e := .answered data bytes) nofun
    obtain ⟨hreceived, hanswers⟩ := hfirst.countP
    have hread := hanswered.cons (e := .received readOne) fun _ => by
      simp [List.countP_cons, List.countP_append, hreceived, hanswers, isReceived, isAnswered]
    exact (hread.append hsecond.shown).cons nofun

theorem Quiet.written (h : Quiet k more) (p : Nat) : more.findSome? (written p) = none := by
  rw [List.findSome?_eq_none_iff]
  intro e he
  cases e with
  | received => cases h.shown _ he
  | registered | answered | exited | silent => rfl

/-- The `READ` gets the `B`. -/
theorem run_sequential_writeRead : ∃ (es : List Event) (s : State) (data : DriverData) (bytes : Bytes),
    WriteRead es ∧ (cluster 1 1 ⟨[65]⟩).Run es s ∧ es.head? = some (.answered data bytes) ∧
    ∃ status, bytes = NBDDriverProxy.initReply status readOne.handler ++ [66] := by
  obtain ⟨es, s, hes, hrun⟩ := exists_run_writeRead
  have hissues := hes.issues
  have hnul : ∀ j w, Occurs es j (.received w) → w.key = .write → 0 ∉ w.buff :=
    fun j w hw _ => hes.nonzero hw
  have hwaits := hes.waits
  have hwriteRead := hes
  cases hes with
  | intro data bytes data' bytes' hfirst hsecond =>
    obtain ⟨status, payload, rfl, hlength, hpayload⟩ := run_sequential hrun (by omega) (by decide) hnul
      hwaits (show readOne.key = .read from rfl) hsecond.shown (List.nil_append _).symm
    refine ⟨_, s, data', _, hwriteRead, hrun, rfl, status, ?_⟩
    have hbyte : payload[0]? = some 66 := by
      rw [hpayload 0 (by decide), List.findSome?_cons_of_isNone rfl, List.findSome?_append,
        hfirst.written]
      rfl
    obtain ⟨b, rfl⟩ := List.length_eq_one_iff.mp hlength
    cases hbyte
    rfl

end GreenCloud.Cluster
