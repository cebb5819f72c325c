import GreenCloud.DriverData
import GreenCloud.Transition
import Mathlib.Data.List.Nodup

/-! `CloudStorage::m_list`, the requests sent to a slave and not answered yet, with
`HandlerToId` and `IdToHandler`. Both run under `m_mutex`, so each is one step. -/

namespace GreenCloud

open CLib

/-- An element of `m_list`: the pair, and the address of the node that holds it. -/
structure Node where
  addr : Nat
  first : Int32
  second : Handle
  deriving DecidableEq

/-- `operator==` of `std::pair<int, char[8]>`: the arrays decay to pointers, so the second
halves are equal when they are the same array. -/
def Node.eq (x y : Node) : Bool := x.first == y.first && x.addr == y.addr

structure PendingTable where
  list : List Node
  reqId : Int32
  deriving DecidableEq

namespace PendingTable

def empty : PendingTable := ⟨[], 0⟩

/-- `push_front` puts the pair in a new node, at `addr`. -/
def handlerToId (t : PendingTable) (addr : Nat) (handler : Handle) : Int32 × PendingTable :=
  let ret := t.reqId + 1
  (ret, ⟨⟨addr, ret, handler⟩ :: t.list, ret⟩)

/-- Where the search loop of `IdToHandler` stops, and whether it has read through `end()`. -/
structure Search where
  iter : List Node
  readEnd : Bool
  deriving DecidableEq

/-- The loop reads `iter->first` before it compares `iter` with `end`. At the end of the
list it stops whatever that read gives: either half of the condition may fail. -/
def search (rid : Int32) : List Node → Search
  | [] => ⟨[], true⟩
  | n :: rest => if rid ≠ n.first then search rid rest else ⟨n :: rest, false⟩

/-- `list::remove` -/
def remove (value : Node) (list : List Node) : List Node := list.filter fun n => !n.eq value

/-- `none` is `return false`, which leaves the table alone. -/
def idToHandler (t : PendingTable) (rid : Int32) : Option (Handle × PendingTable) :=
  match (search rid t.list).iter with
  | [] => none
  | n :: _ => some (n.second, { t with list := remove n t.list })

variable {rid : Int32} {n : Node} {before after : List Node} {t u : PendingTable}

theorem search_of_notMem {list : List Node} (h : ∀ m ∈ list, m.first ≠ rid) :
    search rid list = ⟨[], true⟩ := by
  induction list with
  | nil => rfl
  | cons m rest ih =>
    have hm : rid ≠ m.first := (h m (by simp)).symm
    simpa [search, hm] using ih fun k hk => h k (by simp [hk])

theorem search_append (h : ∀ m ∈ before, m.first ≠ n.first) (after : List Node) :
    search n.first (before ++ n :: after) = ⟨n :: after, false⟩ := by
  induction before with
  | nil => simp [search]
  | cons m before ih =>
    have hm : n.first ≠ m.first := (h m (by simp)).symm
    simpa [search, hm] using ih fun k hk => h k (by simp [hk])

theorem key_ne_of_nodup {α : Type} {key : Node → α}
    (h : ((before ++ n :: after).map key).Nodup) : ∀ m ∈ before ++ after, key m ≠ key n := by
  rw [List.map_append, List.map_cons] at h
  have hn := (List.nodup_cons.mp (List.perm_middle.nodup_iff.mp h)).1
  rw [← List.map_append] at hn
  intro m hm he
  exact hn (List.mem_map.mpr ⟨m, hm, he⟩)

/-- The only node that equals `n` is `n` itself, whatever handles the others hold. -/
theorem remove_append (h : ((before ++ n :: after).map Node.addr).Nodup) :
    remove n (before ++ n :: after) = before ++ after := by
  have hne : ∀ m ∈ before ++ after, (!m.eq n) = true := by
    intro m hm
    simp [Node.eq, key_ne_of_nodup h m hm]
  have hself : (!n.eq n) = false := by simp [Node.eq]
  rw [remove, List.filter_append, List.filter_cons, hself]
  simp only [Bool.false_eq_true, ↓reduceIte]
  rw [← List.filter_append]
  exact List.filter_eq_self.mpr hne

theorem idToHandler_of_notMem (h : ∀ m ∈ t.list, m.first ≠ rid) : t.idToHandler rid = none := by
  simp [idToHandler, search_of_notMem h]

theorem search_of_nodup (hids : ((before ++ n :: after).map Node.first).Nodup) :
    search n.first (before ++ n :: after) = ⟨n :: after, false⟩ := by
  apply search_append
  intro m hm
  exact key_ne_of_nodup hids m (by simp [hm])

theorem idToHandler_append (ht : t.list = before ++ n :: after)
    (hids : (t.list.map Node.first).Nodup) (haddrs : (t.list.map Node.addr).Nodup) :
    t.idToHandler n.first = some (n.second, { t with list := before ++ after }) := by
  rw [ht] at hids haddrs
  simp [idToHandler, ht, search_of_nodup hids, remove_append haddrs]

/-- Every node has its own address and its own id, and the ids are those of past issues:
each is positive and at most `m_req_id`. -/
structure Wf (t : PendingTable) : Prop where
  addrs : (t.list.map Node.addr).Nodup
  ids : (t.list.map Node.first).Nodup
  pos : ∀ m ∈ t.list, 0 < m.first.toInt
  le : ∀ m ∈ t.list, m.first.toInt ≤ t.reqId.toInt
  nonneg : 0 ≤ t.reqId.toInt

theorem wf_empty : empty.Wf := by
  constructor <;> simp [empty]

theorem toInt_reqId_succ (hn : 0 ≤ t.reqId.toInt) (h : t.reqId.toInt < 2 ^ 31 - 1) :
    (t.reqId + 1).toInt = t.reqId.toInt + 1 := by
  rw [Int32.toInt_add, Int32.toInt_one, Int.bmod_eq_of_le] <;> omega

theorem Wf.handlerToId (h : t.Wf) (hlt : t.reqId.toInt < 2 ^ 31 - 1)
    (haddr : ∀ m ∈ t.list, m.addr ≠ addr) (handler : Handle) :
    (t.handlerToId addr handler).2.Wf := by
  have hsucc := toInt_reqId_succ h.nonneg hlt
  constructor
  · simp only [PendingTable.handlerToId, List.map_cons, List.nodup_cons, List.mem_map, not_exists,
      not_and]
    exact ⟨haddr, h.addrs⟩
  · simp only [PendingTable.handlerToId, List.map_cons, List.nodup_cons, List.mem_map, not_exists,
      not_and]
    refine ⟨fun m hm he => ?_, h.ids⟩
    have := h.le m hm
    rw [he] at this
    omega
  · intro m hm
    rcases List.mem_cons.mp hm with rfl | hm
    · have := h.nonneg
      simp only [hsucc]
      omega
    · exact h.pos m hm
  · intro m hm
    rcases List.mem_cons.mp hm with rfl | hm
    · simp [PendingTable.handlerToId]
    · have := h.le m hm
      simp only [PendingTable.handlerToId, hsucc]
      omega
  · have := h.nonneg
    simp only [PendingTable.handlerToId, hsucc]
    omega

theorem Wf.remove (h : t.Wf) (ht : t.list = before ++ n :: after) :
    { t with list := before ++ after : PendingTable }.Wf := by
  have hsub : (before ++ after).Sublist t.list := by
    rw [ht]
    exact (List.Sublist.refl before).append (List.sublist_cons_self n after)
  exact ⟨h.addrs.sublist (hsub.map _), h.ids.sublist (hsub.map _),
    fun m hm => h.pos m (hsub.subset hm), fun m hm => h.le m (hsub.subset hm), h.nonneg⟩

inductive Event
  | issued (rid : Int32) (handler : Handle)
  | lookedUp (rid : Int32)
  deriving DecidableEq

def afterLookup (t : PendingTable) (rid : Int32) : PendingTable :=
  ((t.idToHandler rid).map Prod.snd).getD t

/-- A new node may take any address that no live node has. -/
def calls : Transition PendingTable Event where
  init t := t = empty
  step t e u := match e with
    | .issued rid handler =>
      ∃ addr, (∀ m ∈ t.list, m.addr ≠ addr) ∧ t.handlerToId addr handler = (rid, u)
    | .lookedUp rid => u = t.afterLookup rid

def Issued (es : List Event) (rid : Int32) (handler : Handle) : Prop :=
  .issued rid handler ∈ es

def LookedUp (es : List Event) (rid : Int32) : Prop := .lookedUp rid ∈ es

def Pending (es : List Event) (rid : Int32) : Prop :=
  (∃ handler, Issued es rid handler) ∧ ¬ LookedUp es rid

def LookupsPending : List Event → Prop
  | [] => True
  | .issued _ _ :: es => LookupsPending es
  | .lookedUp rid :: es => Pending es rid ∧ LookupsPending es

def issues : List Event → Nat
  | [] => 0
  | .issued _ _ :: es => issues es + 1
  | .lookedUp _ :: es => issues es

/-- What the list holds after the calls `es`: the pending entries and nothing else. -/
structure Holds (es : List Event) (t : PendingTable) : Prop where
  wf : t.Wf
  counter : t.reqId.toInt = issues es
  entries : ∀ rid handler,
    (∃ m ∈ t.list, m.first = rid ∧ m.second = handler) ↔
      Issued es rid handler ∧ ¬ LookedUp es rid
  issued_le : ∀ rid handler, Issued es rid handler → rid.toInt ≤ t.reqId.toInt
  lookedUp_le : ∀ rid, LookedUp es rid → rid.toInt ≤ t.reqId.toInt

theorem holds_empty : Holds [] empty where
  wf := wf_empty
  counter := rfl
  entries := by simp [empty, Issued]
  issued_le := by simp [Issued]
  lookedUp_le := by simp [LookedUp]

theorem Holds.issued (h : Holds es t) (hfew : issues es + 1 < 2 ^ 31 - 1)
    (haddr : ∀ m ∈ t.list, m.addr ≠ addr) (ht : t.handlerToId addr handler = (rid, u)) :
    Holds (.issued rid handler :: es) u := by
  have hlt : t.reqId.toInt < 2 ^ 31 - 1 := by
    have := h.counter
    omega
  have hsucc := toInt_reqId_succ h.wf.nonneg hlt
  obtain ⟨rfl, rfl⟩ : t.reqId + 1 = rid ∧ ⟨⟨addr, t.reqId + 1, handler⟩ :: t.list, t.reqId + 1⟩ = u := by
    simpa [handlerToId] using ht
  -- The new id is above every id seen so far.
  have hnew : ∀ r : Int32, r.toInt ≤ t.reqId.toInt → r ≠ t.reqId + 1 := by
    rintro r hr rfl
    omega
  constructor
  · exact h.wf.handlerToId hlt haddr handler
  · simp only [hsucc, h.counter, issues]
    omega
  · intro r k
    have := h.entries r k
    by_cases hr : r = t.reqId + 1
    · subst hr
      have hi : ¬ Issued es (t.reqId + 1) k := fun hi => hnew _ (h.issued_le _ _ hi) rfl
      have hl : ¬ LookedUp es (t.reqId + 1) := fun hl => hnew _ (h.lookedUp_le _ hl) rfl
      have hold : ¬ ∃ m ∈ t.list, m.first = t.reqId + 1 ∧ m.second = k := by
        rw [this]
        exact fun hh => hi hh.1
      simp only [Issued, LookedUp, List.mem_cons, Event.issued.injEq, true_and, reduceCtorEq,
        false_or] at hi hl ⊢
      simp only [exists_eq_or_imp, true_and, hold, or_false, hi, hl, not_false_eq_true, and_true]
      exact eq_comm
    · have hne : ¬ t.reqId + 1 = r := fun he => hr he.symm
      simp only [Issued, LookedUp] at this
      simp [Issued, LookedUp, hr, hne, ← this]
  · intro r k hr
    simp only [Issued, List.mem_cons, Event.issued.injEq] at hr
    rcases hr with ⟨rfl, -⟩ | hr
    · exact Int.le_refl _
    · have := h.issued_le r k hr
      simp only [hsucc]
      omega
  · intro r hr
    simp only [LookedUp, List.mem_cons, reduceCtorEq, false_or] at hr
    have := h.lookedUp_le r hr
    simp only [hsucc]
    omega

/-- Looking up a pending id finds its node, never reads `end()`, copies out the handle and
takes that node out. -/
theorem Holds.lookup (h : Holds es t) (hi : Issued es rid handler) (hl : ¬ LookedUp es rid) :
    ∃ before n after, t.list = before ++ n :: after ∧ n.first = rid ∧ n.second = handler ∧
      search rid t.list = ⟨n :: after, false⟩ ∧
      t.idToHandler rid = some (handler, { t with list := before ++ after }) := by
  obtain ⟨n, hn, rfl, rfl⟩ := (h.entries rid handler).mpr ⟨hi, hl⟩
  obtain ⟨before, after, ht⟩ := List.append_of_mem hn
  refine ⟨before, n, after, ht, rfl, rfl, ?_, ?_⟩
  · have hids := h.wf.ids
    rw [ht] at hids ⊢
    exact search_of_nodup hids
  · exact idToHandler_append ht h.wf.ids h.wf.addrs

theorem Holds.lookedUp (h : Holds es t) (hp : Pending es rid) :
    Holds (.lookedUp rid :: es) (t.afterLookup rid) := by
  obtain ⟨⟨handler, hi⟩, hl⟩ := hp
  obtain ⟨before, n, after, ht, rfl, -, -, hres⟩ := h.lookup hi hl
  have hu : t.afterLookup n.first = { t with list := before ++ after } := by
    simp [afterLookup, hres]
  have hids := h.wf.ids
  rw [ht] at hids
  rw [hu]
  constructor
  · exact h.wf.remove ht
  · exact h.counter
  · intro r k
    have hrk := h.entries r k
    simp only [ht, List.mem_append, List.mem_cons] at hrk
    by_cases hr : r = n.first
    · subst hr
      simp only [LookedUp, List.mem_cons, true_or, not_true_eq_false, and_false, iff_false]
      rintro ⟨m, hm, he, -⟩
      exact key_ne_of_nodup hids m hm he
    · have hne : ¬ n.first = r := fun he => hr he.symm
      simp only [Issued, LookedUp] at hrk
      simp only [Issued, LookedUp, List.mem_cons, reduceCtorEq, false_or, Event.lookedUp.injEq, hr,
        ← hrk, List.mem_append]
      constructor
      · rintro ⟨m, hm | hm, hmr⟩
        · exact ⟨m, .inl hm, hmr⟩
        · exact ⟨m, .inr (.inr hm), hmr⟩
      · rintro ⟨m, hm | rfl | hm, hmr⟩
        · exact ⟨m, .inl hm, hmr⟩
        · exact absurd hmr.1 hne
        · exact ⟨m, .inr hm, hmr⟩
  · intro r k hr
    simp only [Issued, List.mem_cons, reduceCtorEq, false_or] at hr
    exact h.issued_le r k hr
  · intro r hr
    simp only [LookedUp, List.mem_cons, Event.lookedUp.injEq] at hr
    rcases hr with rfl | hr
    · exact h.issued_le _ _ hi
    · exact h.lookedUp_le r hr

theorem holds_of_run (h : calls.Run es t) (hlegal : LookupsPending es)
    (hfew : issues es < 2 ^ 31 - 1) : Holds es t := by
  apply h.invariant_while (Q := fun es => LookupsPending es ∧ issues es < 2 ^ 31 - 1)
    ⟨hlegal, hfew⟩
  · intro e es hq
    cases e with
    | issued => exact ⟨hq.1, Nat.lt_of_succ_lt hq.2⟩
    | lookedUp => exact ⟨hq.1.2, hq.2⟩
  · rintro _ rfl
    exact holds_empty
  · intro es s e u hq hs hstep
    cases e with
    | issued rid handler =>
      obtain ⟨addr, haddr, ht⟩ := hstep
      exact hs.issued hq.2 haddr ht
    | lookedUp rid =>
      subst hstep
      exact hs.lookedUp hq.1.1

/-- In every run with fewer than 2^31 - 1 issues whose lookups are of pending ids, the list
holds one entry for each pending id and none for another id, and looking up a pending id
returns its handle and removes its entry only. -/
theorem run_lookup (h : calls.Run es t) (hlegal : LookupsPending es)
    (hfew : issues es < 2 ^ 31 - 1) :
    (∀ rid, Pending es rid → t.list.countP (·.first == rid) = 1) ∧
    (∀ rid, ¬ Pending es rid → t.list.countP (·.first == rid) = 0) ∧
    ∀ rid handler, Issued es rid handler → ¬ LookedUp es rid →
      ∃ before n after, t.list = before ++ n :: after ∧ n.first = rid ∧ n.second = handler ∧
        search rid t.list = ⟨n :: after, false⟩ ∧
        t.idToHandler rid = some (handler, { t with list := before ++ after }) := by
  have hs := holds_of_run h hlegal hfew
  refine ⟨?_, ?_, fun rid handler hi hl => hs.lookup hi hl⟩
  · rintro rid ⟨⟨handler, hi⟩, hl⟩
    obtain ⟨n, hn, hrid, -⟩ := (hs.entries rid handler).mpr ⟨hi, hl⟩
    have hmem : rid ∈ t.list.map Node.first := List.mem_map.mpr ⟨n, hn, hrid⟩
    have hcount := List.count_eq_one_of_mem hs.wf.ids hmem
    simpa [List.count, List.countP_map, Function.comp_def] using hcount
  · intro rid hp
    rw [List.countP_eq_zero]
    intro n hn hrid
    have hrid : n.first = rid := by simpa using hrid
    obtain ⟨hi, hl⟩ := (hs.entries rid n.second).mp ⟨n, hn, hrid, rfl⟩
    exact hp ⟨⟨_, hi⟩, hl⟩

/-- Two requests with the same 8 bytes of handle, NUL bytes all of them: the older one is
looked up and the newer one stays. -/
theorem run_lookup_same_handle :
    ∃ before n after,
      (⟨[⟨2, 2, .replicate 8 0⟩, ⟨1, 1, .replicate 8 0⟩], 2⟩ : PendingTable).list =
        before ++ n :: after ∧ n.first = 1 ∧ n.second = .replicate 8 0 ∧
      search 1 [⟨2, 2, .replicate 8 0⟩, ⟨1, 1, .replicate 8 0⟩] = ⟨n :: after, false⟩ ∧
      (⟨[⟨2, 2, .replicate 8 0⟩, ⟨1, 1, .replicate 8 0⟩], 2⟩ : PendingTable).idToHandler 1 =
        some (.replicate 8 0, ⟨before ++ after, 2⟩) := by
  have hrun : calls.Run [.issued 2 (.replicate 8 0), .issued 1 (.replicate 8 0)]
      ⟨[⟨2, 2, .replicate 8 0⟩, ⟨1, 1, .replicate 8 0⟩], 2⟩ :=
    .step (.step (.start rfl) ⟨1, by decide, rfl⟩) ⟨2, by decide, rfl⟩
  exact (run_lookup hrun trivial (by decide)).2.2 1 (.replicate 8 0) (by simp [Issued])
    (by simp [LookedUp])

end PendingTable

end GreenCloud
