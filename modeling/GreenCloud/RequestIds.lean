import GreenCloud.PendingTable

/-! The ids of `HandlerToId` over runs of any length: `++m_req_id` wraps, and the entries of lost
replies stay in `m_list`. -/

namespace GreenCloud.PendingTable

open CLib Transition

def callId (k : Nat) : Int32 := .ofNat k

/-- No call returned an id that an entry in the list carried at that moment. -/
def IdsFresh (es : List Event) : Prop :=
  ∀ after rid handler before, es = after ++ .issued rid handler :: before →
    ∀ t, calls.Run before t → ∀ m ∈ t.list, m.first ≠ rid

/-- Between a call and the one 2^32 calls later, the id of the former is looked up. -/
def LookedUpInTime (es : List Event) : Prop :=
  ∀ after rid handler between rid' handler' before,
    es = after ++ .issued rid handler :: (between ++ .issued rid' handler' :: before) →
    issues between + 1 = 2 ^ 32 → .lookedUp (callId (issues before + 1)) ∈ between

variable {rid : Int32} {handler : Handle} {es between before after : List Event}
variable {t u : PendingTable}

theorem callId_eq_iff (k l : Nat) : callId k = callId l ↔ k % 2 ^ 32 = l % 2 ^ 32 := by
  rw [← Int32.toBitVec_inj, BitVec.toNat_eq]
  rfl

theorem callId_succ (k : Nat) : callId k + 1 = callId (k + 1) := by
  rw [← Int32.toBitVec_inj, BitVec.toNat_eq]
  exact Nat.mod_add_mod ..

theorem issues_append (after before : List Event) :
    issues (after ++ before) = issues after + issues before := by
  induction after with
  | nil => exact (Nat.zero_add _).symm
  | cons e after ih =>
    cases e with
    | issued => rw [List.cons_append, issues, ih, issues, Nat.add_right_comm]
    | lookedUp => exact ih

theorem exists_issued (h : k < issues es) :
    ∃ after rid handler before, es = after ++ .issued rid handler :: before ∧ issues before = k := by
  induction es with
  | nil => cases h
  | cons e es ih =>
    by_cases hk : k < issues es
    · obtain ⟨after, rid, handler, before, rfl, hbefore⟩ := ih hk
      exact ⟨e :: after, rid, handler, before, rfl, hbefore⟩
    · cases e with
      | issued rid handler =>
        rw [issues] at h
        exact ⟨[], rid, handler, es, rfl, by omega⟩
      | lookedUp => exact absurd h hk

theorem lookedUp_mem_of_cons (h : .lookedUp rid ∈ .issued rid' handler :: es) :
    .lookedUp rid ∈ es := by
  cases h with
  | tail _ h => exact h

theorem search_iter (rid : Int32) (list : List Node) :
    (search rid list).iter = [] ∧ (∀ m ∈ list, m.first ≠ rid) ∨
      ∃ n ∈ list, n.first = rid ∧ ∃ rest, (search rid list).iter = n :: rest := by
  induction list with
  | nil => exact .inl ⟨rfl, nofun⟩
  | cons m rest ih =>
    by_cases hm : rid = m.first
    · exact .inr ⟨m, List.mem_cons_self .., hm.symm, rest, by rw [search, if_neg (not_not.mpr hm)]⟩
    · rw [search, if_pos hm]
      rcases ih with ⟨hnil, hne⟩ | ⟨n, hn, hfirst, hiter⟩
      · exact .inl ⟨hnil, List.forall_mem_cons.mpr ⟨Ne.symm hm, hne⟩⟩
      · exact .inr ⟨n, List.mem_cons_of_mem _ hn, hfirst, hiter⟩

theorem afterLookup_cases (t : PendingTable) (rid : Int32) :
    t.afterLookup rid = t ∧ (∀ m ∈ t.list, m.first ≠ rid) ∨
      ∃ n ∈ t.list, n.first = rid ∧ t.afterLookup rid = { t with list := remove n t.list } := by
  rcases search_iter rid t.list with ⟨hnil, hne⟩ | ⟨n, hn, hfirst, rest, hiter⟩
  · exact .inl ⟨by rw [afterLookup, idToHandler, hnil]; rfl, hne⟩
  · exact .inr ⟨n, hn, hfirst, by rw [afterLookup, idToHandler, hiter]; rfl⟩

theorem reqId_afterLookup (t : PendingTable) (rid : Int32) : (t.afterLookup rid).reqId = t.reqId := by
  rcases t.afterLookup_cases rid with ⟨heq, -⟩ | ⟨n, -, -, heq⟩
  · rw [heq]
  · rw [heq]

theorem afterLookup_sublist (t : PendingTable) (rid : Int32) :
    (t.afterLookup rid).list.Sublist t.list := by
  rcases t.afterLookup_cases rid with ⟨heq, -⟩ | ⟨n, -, -, heq⟩
  · rw [heq]
  · rw [heq]
    exact List.filter_sublist

theorem mem_afterLookup (h : m ∈ t.list) (hm : m.first ≠ rid) : m ∈ (t.afterLookup rid).list := by
  rcases t.afterLookup_cases rid with ⟨heq, -⟩ | ⟨n, -, hfirst, heq⟩
  · rwa [heq]
  · have hne : (m.first == n.first) = false := beq_false_of_ne (by rwa [hfirst])
    rw [heq]
    exact List.mem_filter.mpr ⟨h, by rw [Node.eq, hne]; rfl⟩

theorem first_ne_of_mem_afterLookup (hids : (t.list.map Node.first).Nodup)
    (h : m ∈ (t.afterLookup rid).list) : m.first ≠ rid := by
  rcases t.afterLookup_cases rid with ⟨heq, hne⟩ | ⟨n, hn, hfirst, heq⟩
  · rw [heq] at h
    exact hne m h
  · rw [heq] at h
    obtain ⟨hmem, hkept⟩ := List.mem_filter.mp h
    rintro hm
    obtain rfl := List.inj_on_of_nodup_map hids hmem hn (hm.trans hfirst.symm)
    rw [Node.eq, beq_self_eq_true, beq_self_eq_true] at hkept
    cases hkept

theorem reqId_of_run (h : calls.Run es t) : t.reqId = callId (issues es) := by
  apply h.invariant
  · rintro _ rfl
    rfl
  · intro es s e u hs hstep
    cases e with
    | issued rid handler =>
      obtain ⟨addr, -, ht⟩ := hstep
      cases ht
      exact (congrArg (· + 1) hs).trans (callId_succ _)
    | lookedUp rid =>
      cases hstep
      exact (reqId_afterLookup s rid).trans hs

theorem id_of_run (h : calls.Run (.issued rid handler :: before) t) :
    rid = callId (issues before + 1) := by
  cases h with
  | step hbefore hstep =>
    obtain ⟨addr, -, ht⟩ := hstep
    cases ht
    rw [reqId_of_run hbefore, callId_succ]

theorem issued_of_run (h : calls.Run (after ++ .issued rid handler :: before) t) :
    rid = callId (issues before + 1) := by
  obtain ⟨u, hrun⟩ := h.earlier
  exact id_of_run hrun

theorem entry_of_run (h : calls.Run (between ++ .issued rid handler :: before) t)
    (hlost : .lookedUp rid ∉ between) : ∃ m ∈ t.list, m.first = rid := by
  induction between generalizing t with
  | nil =>
    cases h with
    | step hbefore hstep =>
      obtain ⟨addr, -, ht⟩ := hstep
      cases ht
      exact ⟨_, List.mem_cons_self .., rfl⟩
  | cons e between ih =>
    obtain ⟨he, hlost⟩ := not_or.mp (mt List.mem_cons.mpr hlost)
    cases h with
    | step hrun hstep =>
      obtain ⟨m, hm, hfirst⟩ := ih hrun hlost
      cases e with
      | issued =>
        obtain ⟨addr, -, ht⟩ := hstep
        cases ht
        exact ⟨m, List.mem_cons_of_mem _ hm, hfirst⟩
      | lookedUp rid' =>
        cases hstep
        refine ⟨m, mem_afterLookup hm fun heq => he ?_, hfirst⟩
        rw [← hfirst, heq]

structure Kept (es : List Event) (t : PendingTable) : Prop where
  ids : (t.list.map Node.first).Nodup
  entries : ∀ m ∈ t.list, ∃ newer handler older,
    es = newer ++ .issued m.first handler :: older ∧ .lookedUp m.first ∉ newer

theorem LookedUpInTime.of_cons (h : LookedUpInTime (e :: es)) : LookedUpInTime es := by
  rintro after rid handler between rid' handler' before rfl hbetween
  exact h (e :: after) rid handler between rid' handler' before rfl hbetween

/-- The next id is that of no entry: the call that the entry would be from is 2^32 or more
calls ago, and so looked up. -/
theorem Kept.fresh (h : Kept es t) (hrun : calls.Run (.issued rid handler :: es) u)
    (htime : LookedUpInTime (.issued rid handler :: es)) : ∀ m ∈ t.list, m.first ≠ rid := by
  intro m hm heq
  obtain ⟨newer, handler', older, rfl, hlost⟩ := h.entries m hm
  have hrid := id_of_run hrun
  have hall : calls.Run ((.issued rid handler :: newer) ++ .issued m.first handler' :: older) u :=
    hrun
  have hfirst := issued_of_run hall
  rw [← heq, hfirst, callId_eq_iff, issues_append, issues] at hrid
  have hlong : 2 ^ 32 - 1 < issues (.issued rid handler :: newer) := by
    rw [issues]
    omega
  obtain ⟨after, rid', handler'', between, hsplit, hbetween⟩ := exists_issued hlong
  have hlookup := htime after rid' handler'' between m.first handler' older
    (by rw [← List.cons_append, hsplit, List.append_assoc]; rfl) (by omega)
  rw [← hfirst] at hlookup
  have hmem : .lookedUp m.first ∈ (.issued rid handler :: newer : List Event) := by
    rw [hsplit]
    exact List.mem_append_right _ (List.mem_cons_of_mem _ hlookup)
  exact hlost (lookedUp_mem_of_cons hmem)

theorem kept_of_run (h : calls.Run es t) (htime : LookedUpInTime es) : Kept es t := by
  induction h with
  | start hinit =>
    cases hinit
    exact ⟨List.nodup_nil, nofun⟩
  | step hrun hstep ih =>
    rename_i es s e u
    have hkept := ih htime.of_cons
    cases e with
    | issued rid handler =>
      have hfresh := hkept.fresh (hrun.step hstep) htime
      obtain ⟨addr, -, ht⟩ := hstep
      cases ht
      constructor
      · refine List.nodup_cons.mpr ⟨fun hmem => ?_, hkept.ids⟩
        obtain ⟨m, hm, hfirst⟩ := List.mem_map.mp hmem
        exact hfresh m hm hfirst
      · refine List.forall_mem_cons.mpr ⟨⟨[], handler, es, rfl, nofun⟩, fun m hm => ?_⟩
        obtain ⟨newer, handler', older, rfl, hlost⟩ := hkept.entries m hm
        exact ⟨_ :: newer, handler', older, rfl, fun hmem => hlost (lookedUp_mem_of_cons hmem)⟩
    | lookedUp rid =>
      cases hstep
      have hsublist := s.afterLookup_sublist rid
      refine ⟨hkept.ids.sublist (hsublist.map _), fun m hm => ?_⟩
      have hne := first_ne_of_mem_afterLookup hkept.ids hm
      obtain ⟨newer, handler, older, rfl, hlost⟩ := hkept.entries m (hsublist.subset hm)
      refine ⟨_ :: newer, handler, older, rfl, fun hmem => ?_⟩
      rcases List.mem_cons.mp hmem with heq | hmem
      · cases heq
        exact hne rfl
      · exact hlost hmem

/-- In every run, whatever replies are lost, all ids are fresh exactly if none is still in the list
when the call comes that returns it again. -/
theorem idsFresh_iff (h : calls.Run es t) : IdsFresh es ↔ LookedUpInTime es := by
  constructor
  · rintro hfresh after rid handler between rid' handler' before rfl hbetween
    by_contra hlost
    have hrid := issued_of_run h
    have hrid' : rid' = callId (issues before + 1) := by
      rw [← List.cons_append, ← List.append_assoc] at h
      exact issued_of_run h
    obtain ⟨s, hrun⟩ := h.earlier
    cases hrun with
    | step hrun hstep =>
      rename_i s
      rw [← hrid'] at hlost
      obtain ⟨m, hm, hfirst⟩ := entry_of_run hrun hlost
      refine hfresh after rid handler _ rfl s hrun m hm ?_
      rw [hfirst, hrid, hrid', callId_eq_iff, issues_append, issues]
      omega
  · rintro htime after rid handler before rfl s hrun
    have htime' : LookedUpInTime (.issued rid handler :: before) := by
      clear h
      induction after with
      | nil => exact htime
      | cons e after ih => exact ih htime.of_cons
    obtain ⟨u, hissued⟩ := h.earlier
    exact (kept_of_run hrun htime'.of_cons).fresh hissued htime'

theorem lookedUpInTime_of_few (h : issues es ≤ 2 ^ 32) : LookedUpInTime es := by
  rintro after rid handler between rid' handler' before rfl hbetween
  rw [issues_append, issues, issues_append, issues] at h
  omega

def oneLost : Nat → List Event
  | 0 => [.issued (callId 1) (.replicate 8 0)]
  | n + 1 => .lookedUp (callId (n + 2)) :: .issued (callId (n + 2)) (.replicate 8 0) :: oneLost n

theorem run_oneLost (n : Nat) :
    calls.Run (oneLost n) ⟨[⟨1, callId 1, .replicate 8 0⟩], callId (n + 1)⟩ := by
  induction n with
  | zero => exact .step (.start rfl) ⟨1, nofun, rfl⟩
  | succ n ih =>
    have hissued := ih.then_ (.issued (callId (n + 2)) (.replicate 8 0))
      ⟨2, List.forall_mem_singleton.mpr (by decide), by rw [handlerToId, callId_succ]⟩
    refine hissued.then_ (.lookedUp (callId (n + 2))) ?_
    simp [calls, afterLookup, idToHandler, search, remove, Node.eq]

theorem idsFresh_oneLost : IdsFresh (oneLost 2) :=
  (idsFresh_iff (run_oneLost 2)).mpr (lookedUpInTime_of_few (by decide))

theorem run_wrapped (h : callId (n + 2) = callId 1) :
    calls.Run (.issued (callId 1) (.replicate 8 0) :: oneLost n)
      ⟨[⟨2, callId 1, .replicate 8 0⟩, ⟨1, callId 1, .replicate 8 0⟩], callId 1⟩ :=
  (run_oneLost n).then_ _
    ⟨2, List.forall_mem_singleton.mpr (by decide), by rw [handlerToId, callId_succ, h]⟩

/-- The reply to the first request is lost and all others come: the call 2^32 later returns its id
again. -/
theorem not_idsFresh :
    calls.Run (.issued (callId 1) (.replicate 8 0) :: oneLost (2 ^ 32 - 1))
      ⟨[⟨2, callId 1, .replicate 8 0⟩, ⟨1, callId 1, .replicate 8 0⟩], callId 1⟩ ∧
    ¬ IdsFresh (.issued (callId 1) (.replicate 8 0) :: oneLost (2 ^ 32 - 1)) := by
  have hwrap : callId (2 ^ 32 - 1 + 2) = callId 1 := (callId_eq_iff _ _).mpr rfl
  refine ⟨run_wrapped hwrap, fun hfresh => ?_⟩
  exact hfresh [] (callId 1) (.replicate 8 0) _ rfl _ (run_oneLost (2 ^ 32 - 1)) _
    (List.mem_cons_self ..) rfl

end GreenCloud.PendingTable
