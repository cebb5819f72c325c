import GreenCloud.Wire.Codec
import GreenCloud.NBDDriverProxy
import GreenCloud.Transition
import Mathlib.Data.Multiset.Filter
import Mathlib.Data.Multiset.MapFold

/-! The life of a request, apart from where in the two programs it is: a task of the master,
a datagram, a task of the slave, a reply, and a task of the master again. -/

namespace GreenCloud

open CLib Transition

/-- What a task of the master has in its hands: `NBDRead` and `NBDWrite` run the storage,
`NBDReplay` writes to the NBD socket. -/
inductive Task
  | storage (data : DriverData)
  | replay (data : DriverData)
  deriving DecidableEq

/-- `answered` has the bytes that went to the NBD socket. -/
inductive Event
  | received (data : DriverData)
  | registered (rid : Int32)
  | answered (data : DriverData) (bytes : Bytes)
  | exited
  | silent
  deriving DecidableEq

/-- The table has an entry for each of the pairs of an id and a handle, and no id is in two of
them. Entries of lost requests may be there as well. -/
structure PendingTable.Registers (t : PendingTable) (ids : Multiset (Int32 × Handle)) : Prop where
  wf : t.Wf
  nodup : (ids.map Prod.fst).Nodup
  held : ∀ p ∈ ids, ∃ n ∈ t.list, n.first = p.1 ∧ n.second = p.2

theorem nodup_map_cons {α β : Type} {a : α} {s : Multiset α} {f : α → β} :
    ((a ::ₘ s).map f).Nodup ↔ (∀ b ∈ s, f b ≠ f a) ∧ (s.map f).Nodup := by
  rw [Multiset.map_cons, Multiset.nodup_cons, Multiset.mem_map]
  simp only [not_exists, not_and, ne_eq]

namespace PendingTable.Registers

variable {t u : PendingTable} {ids : Multiset (Int32 × Handle)}

theorem empty : PendingTable.empty.Registers 0 where
  wf := wf_empty
  nodup := by simp
  held := by simp

theorem forget {p : Int32 × Handle} (h : t.Registers (p ::ₘ ids)) : t.Registers ids where
  wf := h.wf
  nodup := (nodup_map_cons.mp h.nodup).2
  held q hq := h.held q (Multiset.mem_cons_of_mem hq)

theorem handlerToId (h : t.Registers ids) (hlt : t.reqId.toInt < 2 ^ 31 - 1)
    (haddr : ∀ m ∈ t.list, m.addr ≠ addr) (ht : t.handlerToId addr handler = (rid, u)) :
    u.Registers ((rid, handler) ::ₘ ids) ∧ u.reqId.toInt = t.reqId.toInt + 1 := by
  have hsucc := toInt_reqId_succ h.wf.nonneg hlt
  have hwf := h.wf.handlerToId hlt haddr handler
  obtain ⟨rfl, rfl⟩ := Prod.mk.inj ht
  refine ⟨⟨hwf, ?_, ?_⟩, hsucc⟩
  · refine nodup_map_cons.mpr ⟨fun p hp hrid => ?_, h.nodup⟩
    obtain ⟨n, hn, hfirst, -⟩ := h.held p hp
    have hle := h.wf.le n hn
    rw [hfirst, hrid, hsucc] at hle
    omega
  · intro p hp
    rcases Multiset.mem_cons.mp hp with rfl | hp
    · exact ⟨_, List.mem_cons_self, rfl, rfl⟩
    · obtain ⟨n, hn, hfields⟩ := h.held p hp
      exact ⟨n, List.mem_cons_of_mem _ hn, hfields⟩

theorem idToHandler (h : t.Registers ((rid, handler) ::ₘ ids)) :
    ∃ u, t.idToHandler rid = some (handler, u) ∧ u.Registers ids ∧ u.reqId = t.reqId := by
  obtain ⟨n, hn, rfl, rfl⟩ := h.held (rid, handler) (Multiset.mem_cons_self _ _)
  obtain ⟨before, after, ht⟩ := List.append_of_mem hn
  refine ⟨_, idToHandler_append ht h.wf.ids h.wf.addrs, ⟨h.wf.remove ht, h.forget.nodup, ?_⟩, rfl⟩
  intro p hp
  obtain ⟨m, hm, hfirst, hsecond⟩ := h.forget.held p hp
  refine ⟨m, ?_, hfirst, hsecond⟩
  have hne : n.first ≠ m.first := by
    intro he
    exact (nodup_map_cons.mp h.nodup).1 p hp (he.trans hfirst).symm
  simp only [ht, List.mem_append, List.mem_cons] at hm ⊢
  rcases hm with hm | rfl | hm
  · exact .inl hm
  · exact absurd rfl hne
  · exact .inr hm

end PendingTable.Registers

namespace Lifecycle

inductive Item
  | task (task : Task)
  | registered (data : DriverData) (rid : Int32)
  | request (datagram : Bytes)
  | slave (data : DriverData)
  | reply (datagram : Bytes)
  | buffer (buf : Bytes)
  deriving DecidableEq

structure Work where
  items : Multiset Item
  table : PendingTable

/-- A step that leaves the bounds of a buffer has no successor. -/
inductive Step : Work → Event → Work → Prop
  | received : NBDDriverProxy.Admitted data →
    Step ⟨items, table⟩ (.received data) ⟨.task (.storage data) ::ₘ items, table⟩
  | silent : Step w .silent w
  | registered : (∀ m ∈ table.list, m.addr ≠ addr) →
    table.handlerToId addr data.handler = (rid, table') →
    Step ⟨.task (.storage data) ::ₘ items, table⟩ (.registered rid)
      ⟨.registered data rid ::ₘ items, table'⟩
  | sent : CloudStorage.requestDatagram data rid = some datagram →
    Step ⟨.registered data rid ::ₘ items, table⟩ .silent ⟨.request datagram ::ₘ items, table⟩
  | lost : Step ⟨x ::ₘ items, table⟩ .silent ⟨items, table⟩
  | parsed : SlaveDriverProxy.receiveRequest fresh datagram = some data →
    Step ⟨.request datagram ::ₘ items, table⟩ .silent ⟨.slave data ::ₘ items, table⟩
  | executed : Step ⟨.slave data ::ₘ items, table⟩ .silent
      ⟨.slave { data with buff := buff } ::ₘ items, table⟩
  | replied : SlaveDriverProxy.sendReply data after = some datagram →
    Step ⟨.slave data ::ₘ items, table⟩ .silent ⟨.reply datagram ::ₘ items, table⟩
  | arrived : Step ⟨.reply datagram ::ₘ items, table⟩ .silent
      ⟨.buffer (SlaveGateway.recvBuffer datagram) ::ₘ items, table⟩
  | lookedUp : SlaveGateway.createDataFromBuff fresh table buf = .ok (data, table') →
    Step ⟨.buffer buf ::ₘ items, table⟩ .silent ⟨.task (.replay data) ::ₘ items, table'⟩
  | exited : SlaveGateway.createDataFromBuff fresh table buf = .error (.exit status) →
    Step ⟨.buffer buf ::ₘ items, table⟩ .exited ⟨items, table⟩
  | answered : NBDDriverProxy.sendReply data = some bytes →
    Step ⟨.task (.replay data) ::ₘ items, table⟩ (.answered data bytes) ⟨items, table⟩

def work : Transition Work Event where
  init w := w = ⟨0, .empty⟩
  step := Step

def issues : List Event → Nat
  | [] => 0
  | .registered _ :: es => issues es + 1
  | _ :: es => issues es

/-- The reply that went to the NBD socket is one to `req`: its handle, `READ` just as it is, its
length, and so many bytes of payload. -/
structure Answers (req data : DriverData) (bytes : Bytes) : Prop where
  handler : data.handler = req.handler
  key : data.key = .read ↔ req.key = .read
  len : data.len = req.len
  bytes : ∃ payload, bytes = NBDDriverProxy.initReply data.status req.handler ++ payload ∧
    payload.length = if req.key = .read then req.len.toNat else 0

def Answered (es : List Event) (i : Nat) : Prop := ∃ data bytes, Occurs es i (.answered data bytes)

theorem Answered.lt (h : Answered es i) : i < es.length := h.choose_spec.choose_spec.lt

theorem answered_cons (he : ∀ data bytes, e ≠ .answered data bytes) :
    Answered (e :: es) i ↔ Answered es i := by
  constructor
  · rintro ⟨data, bytes, h⟩
    rcases occurs_cons.mp h with h | ⟨-, h⟩
    · exact ⟨data, bytes, h⟩
    · exact absurd h.symm (he data bytes)
  · rintro ⟨data, bytes, h⟩
    exact ⟨data, bytes, h.cons⟩

theorem answered_cons_iff :
    Answered (.answered data bytes :: es) i ↔ Answered es i ∨ i = es.length := by
  constructor
  · rintro ⟨data', bytes', h⟩
    rcases occurs_cons.mp h with h | ⟨hi, -⟩
    · exact .inl ⟨data', bytes', h⟩
    · exact .inr hi
  · rintro (⟨data', bytes', h⟩ | rfl)
    · exact ⟨data', bytes', h.cons⟩
    · exact ⟨data, bytes, occurs_length _ _⟩

/-- `under` are the requests under way, with the numbers of the events that brought them in, and
`f` takes the number of an answer to that of its request. -/
structure History (es : List Event) (under : Multiset (Nat × DriverData)) (f : Nat → Nat) :
    Prop where
  received : ∀ q ∈ under, Occurs es q.1 (.received q.2) ∧ NBDDriverProxy.Admitted q.2
  nodup : (under.map Prod.fst).Nodup
  answers : ∀ i data bytes, Occurs es i (.answered data bytes) →
    f i < i ∧ ∃ req, Occurs es (f i) (.received req) ∧ Answers req data bytes
  once : ∀ i j, Answered es i → Answered es j → f i = f j → i = j
  open_ : ∀ i, Answered es i → ∀ q ∈ under, f i ≠ q.1

namespace History

variable {es : List Event} {e : Event} {under : Multiset (Nat × DriverData)} {f : Nat → Nat}

theorem empty : History [] 0 id where
  received := by simp
  nodup := by simp
  answers _ _ _ h := absurd h (not_occurs_nil _ _)
  once _ _ h := absurd h.choose_spec.choose_spec (not_occurs_nil _ _)
  open_ := by simp

theorem cons (h : History es under f) (he : ∀ data bytes, e ≠ .answered data bytes) :
    History (e :: es) under f where
  received q hq := ⟨(h.received q hq).1.cons, (h.received q hq).2⟩
  nodup := h.nodup
  answers i data bytes hi := by
    rcases occurs_cons.mp hi with hi | ⟨-, hi⟩
    · obtain ⟨hlt, req, hreq, hans⟩ := h.answers i data bytes hi
      exact ⟨hlt, req, hreq.cons, hans⟩
    · exact absurd hi.symm (he data bytes)
  once i j hi hj := h.once i j ((answered_cons he).mp hi) ((answered_cons he).mp hj)
  open_ i hi := h.open_ i ((answered_cons he).mp hi)

theorem forget {q : Nat × DriverData} (h : History es (q ::ₘ under) f) : History es under f where
  received p hp := h.received p (Multiset.mem_cons_of_mem hp)
  nodup := (nodup_map_cons.mp h.nodup).2
  answers := h.answers
  once := h.once
  open_ i hi p hp := h.open_ i hi p (Multiset.mem_cons_of_mem hp)

theorem begin_ (h : History es under f) (hdata : NBDDriverProxy.Admitted data) :
    History (.received data :: es) ((es.length, data) ::ₘ under) f where
  received q hq := by
    rcases Multiset.mem_cons.mp hq with rfl | hq
    · exact ⟨occurs_length _ _, hdata⟩
    · exact ⟨(h.received q hq).1.cons, (h.received q hq).2⟩
  nodup := by
    refine nodup_map_cons.mpr ⟨fun q hq hlen => ?_, h.nodup⟩
    have := (h.received q hq).1.lt
    omega
  answers := (h.cons (by simp)).answers
  once := (h.cons (by simp)).once
  open_ i hi q hq := by
    have hi := (answered_cons (by simp)).mp hi
    rcases Multiset.mem_cons.mp hq with rfl | hq
    · obtain ⟨data, bytes, hi⟩ := hi
      obtain ⟨hlt, -⟩ := h.answers i data bytes hi
      have := hi.lt
      simp only
      omega
    · exact h.open_ i hi q hq

theorem answer (h : History es ((k, req) ::ₘ under) f) (hans : Answers req data bytes) :
    History (.answered data bytes :: es) under (Function.update f es.length k) := by
  obtain ⟨hk, -⟩ := h.received (k, req) (Multiset.mem_cons_self _ _)
  have hold : ∀ {i}, i < es.length → Function.update f es.length k i = f i := by
    intro i hi
    exact Function.update_of_ne (Nat.ne_of_lt hi) _ _
  have hopen : ∀ i, Answered es i → f i ≠ k := fun i hi =>
    h.open_ i hi (k, req) (Multiset.mem_cons_self _ _)
  constructor
  case received =>
    intro q hq
    exact ⟨(h.forget.received q hq).1.cons, (h.forget.received q hq).2⟩
  case nodup => exact h.forget.nodup
  case answers =>
    intro i data' bytes' hi
    rcases occurs_cons.mp hi with hi | ⟨rfl, heq⟩
    · obtain ⟨hlt, req', hreq, hans'⟩ := h.answers i data' bytes' hi
      rw [hold hi.lt]
      exact ⟨hlt, req', hreq.cons, hans'⟩
    · cases heq
      rw [Function.update_self]
      exact ⟨hk.lt, req, hk.cons, hans⟩
  case once =>
    intro i j hi hj hij
    rcases answered_cons_iff.mp hi with hi | rfl <;> rcases answered_cons_iff.mp hj with hj | rfl
    · rw [hold hi.lt, hold hj.lt] at hij
      exact h.once i j hi hj hij
    · rw [hold hi.lt, Function.update_self] at hij
      exact absurd hij (hopen i hi)
    · rw [hold hj.lt, Function.update_self] at hij
      exact absurd hij.symm (hopen j hj)
    · rfl
  case open_ =>
    intro i hi q hq
    rcases answered_cons_iff.mp hi with hi | rfl
    · rw [hold hi.lt]
      exact h.forget.open_ i hi q hq
    · rw [Function.update_self]
      exact ((nodup_map_cons.mp h.nodup).1 q hq).symm

end History

/-! One token for each request under way. -/

/-- `id` is there from `HandlerToId` to `IdToHandler`. -/
structure Token where
  time : Nat
  req : DriverData
  id : Option Int32

namespace Token

def request (tok : Token) : Nat × DriverData := (tok.time, tok.req)

def pending (tok : Token) : Option (Int32 × Handle) := tok.id.map fun rid => (rid, tok.req.handler)

def Holds (tok : Token) : Item → Prop
  | .task (.storage data) => tok.id = none ∧ data = tok.req
  | .task (.replay data) => tok.id = none ∧ data.handler = tok.req.handler ∧
      data.key = tok.req.key ∧ data.len = tok.req.len
  | .registered data rid => tok.id = some rid ∧ data = tok.req
  | .request datagram => ∃ rid p, tok.id = some rid ∧
      Wire.RequestDecoded datagram ⟨tok.req.offset, tok.req.len, rid, tok.req.key⟩ p
  | .slave data => tok.id = some data.reqId ∧ data.len = tok.req.len ∧ data.key = tok.req.key
  | .reply datagram => ∃ rid, tok.id = some rid ∧ Wire.IsReply datagram tok.req.len rid tok.req.key
  | .buffer buf => ∃ rid datagram, tok.id = some rid ∧
      Wire.IsReply datagram tok.req.len rid tok.req.key ∧ buf = SlaveGateway.recvBuffer datagram

variable {tok : Token}

theorem holds_request (hreq : NBDDriverProxy.Admitted tok.req)
    (hsent : CloudStorage.requestDatagram data rid = some datagram) (h : tok.Holds (.registered data rid)) :
    tok.Holds (.request datagram) := by
  obtain ⟨hid, rfl⟩ := h
  unfold CloudStorage.requestDatagram at hsent
  split at hsent
  · rename_i hkey
    obtain ⟨datagram', p, hprint, hdecoded, -⟩ :=
      Wire.request_roundtrip_header tok.req.offset tok.req.len rid 48
    cases hprint.symm.trans hsent
    exact ⟨rid, p, hid, by rw [hkey]; exact hdecoded⟩
  · rename_i hkey
    have hwrite := hreq.1.resolve_left hkey
    have hbuff := Nat.le_of_eq (hreq.length_buff hwrite).symm
    obtain ⟨p, hdecoded, -⟩ := Wire.request_roundtrip_write rid tok.req hbuff hsent
    exact ⟨rid, p, hid, by rwa [hwrite]⟩

theorem holds_slave (hparsed : SlaveDriverProxy.receiveRequest fresh datagram = some data)
    (h : tok.Holds (.request datagram)) : tok.Holds (.slave data) := by
  obtain ⟨rid, p, hid, hdecoded⟩ := h
  obtain ⟨data', hdata', -, hlen, hrid, hkey⟩ := hdecoded.received fresh
  cases hdata'.symm.trans hparsed
  exact ⟨by rw [hid, hrid], hlen, hkey⟩

theorem holds_reply (hsent : SlaveDriverProxy.sendReply data after = some datagram)
    (h : tok.Holds (.slave data)) : tok.Holds (.reply datagram) := by
  obtain ⟨hid, hlen, hkey⟩ := h
  exact ⟨data.reqId, hid, by rw [← hlen, ← hkey]; exact Wire.isReply_of_sendReply hsent⟩

theorem holds_buffer (h : tok.Holds (.reply datagram)) :
    tok.Holds (.buffer (SlaveGateway.recvBuffer datagram)) := by
  obtain ⟨rid, hid, hreply⟩ := h
  exact ⟨rid, datagram, hid, hreply, rfl⟩

/-- What `CreateDataFromBuff` makes of the reply to a registered request. It may run out of its
buffer, but it does not exit. -/
theorem holds_replay (hreq : NBDDriverProxy.Admitted tok.req)
    (h : tok.Holds (.buffer buf)) : ∃ rid, tok.id = some rid ∧
      ∀ fresh table table', table.idToHandler rid = some (tok.req.handler, table') →
        (∀ status, SlaveGateway.createDataFromBuff fresh table buf ≠ .error (.exit status)) ∧
        ∀ data u, SlaveGateway.createDataFromBuff fresh table buf = .ok (data, u) →
          u = table' ∧ { tok with id := none : Token }.Holds (.task (.replay data)) := by
  obtain ⟨rid, datagram, hid, ⟨hlen, q, rfl⟩, rfl⟩ := h
  refine ⟨rid, hid, fun fresh table table' hhandler => ⟨?_, ?_⟩⟩
  · intro status hexit
    rcases hreq.1 with hkey | hkey
    · rw [hkey] at hexit hlen
      rw [Wire.createDataFromBuff_reply_read _ _ hhandler hlen] at hexit
      cases hcopy : strcpy (uninit fresh.block (buffSize + 1)) q.dropLast with
      | none => simp [hcopy] at hexit
      | some buff => simp [hcopy] at hexit
    · rw [hkey] at hexit hlen
      rw [Wire.createDataFromBuff_reply_write _ _ hhandler hlen] at hexit
      cases hexit
  · intro data u hcreated
    obtain ⟨hdlen, hdkey, hdhandler⟩ :=
      (Wire.replyDecoded_header _ _ hreq.1 hlen).created fresh table data u hcreated
    rw [hhandler, Option.some.injEq, Prod.mk.injEq] at hdhandler
    exact ⟨hdhandler.2.symm, rfl, hdhandler.1.symm, hdkey, hdlen⟩

theorem answers (h : tok.Holds (.task (.replay data)))
    (hbytes : NBDDriverProxy.sendReply data = some bytes) : Answers tok.req data bytes := by
  obtain ⟨-, hhandler, hkey, hlen⟩ := h
  refine ⟨hhandler, by rw [hkey], hlen, ?_⟩
  by_cases hread : data.key = .read
  · rw [NBDDriverProxy.sendReply_read hread, Option.map_eq_some_iff] at hbytes
    obtain ⟨payload, hfetch, rfl⟩ := hbytes
    refine ⟨payload, by rw [hhandler], ?_⟩
    rw [← hkey, if_pos hread, ← hlen]
    exact (fetch_eq_some.mp hfetch).1
  · rw [NBDDriverProxy.sendReply_of_ne_read hread] at hbytes
    cases hbytes
    refine ⟨[], by rw [hhandler, List.append_nil], ?_⟩
    rw [← hkey, if_neg hread, List.length_nil]

end Token

/-- The invariant: the items are those of the tokens, the table has the ids of the tokens, and
the answers so far are matched with requests that have no token any more. -/
structure Tracked (es : List Event) (w : Work) (toks : Multiset Token) (f : Nat → Nat) : Prop where
  items : Multiset.Rel Token.Holds toks w.items
  table : w.table.Registers (toks.filterMap Token.pending)
  counter : w.table.reqId.toInt = issues es
  history : History es (toks.map Token.request) f
  alive : .exited ∉ es

namespace Tracked

variable {es : List Event} {w : Work} {toks : Multiset Token} {f : Nat → Nat}
  {items : Multiset Item} {table : PendingTable}

theorem empty : Tracked [] ⟨0, .empty⟩ 0 id where
  items := .zero
  table := .empty
  counter := rfl
  history := .empty
  alive := by simp

theorem exists_token (h : Tracked es ⟨x ::ₘ items, table⟩ toks f) :
    ∃ tok toks', toks = tok ::ₘ toks' ∧ tok.Holds x ∧ Multiset.Rel Token.Holds toks' items ∧
      NBDDriverProxy.Admitted tok.req := by
  obtain ⟨tok, toks', hx, hrest, rfl⟩ := Multiset.rel_cons_right.mp h.items
  exact ⟨tok, toks', rfl, hx, hrest,
    (h.history.received tok.request (by rw [Multiset.map_cons]; exact Multiset.mem_cons_self _ _)).2⟩

theorem silent (h : Tracked es w toks f) : Tracked (.silent :: es) w toks f where
  items := h.items
  table := h.table
  counter := h.counter
  history := h.history.cons (by simp)
  alive := by simpa using h.alive

theorem move (h : Tracked es ⟨x ::ₘ items, table⟩ toks f)
    (hxy : ∀ tok : Token, NBDDriverProxy.Admitted tok.req → tok.Holds x → tok.Holds y) :
    Tracked (.silent :: es) ⟨y ::ₘ items, table⟩ toks f := by
  obtain ⟨tok, toks', rfl, hx, hrest, hreq⟩ := h.exists_token
  exact { h.silent with items := .cons (hxy tok hreq hx) hrest }

theorem received (h : Tracked es ⟨items, table⟩ toks f) (hdata : NBDDriverProxy.Admitted data) :
    Tracked (.received data :: es) ⟨.task (.storage data) ::ₘ items, table⟩
      (⟨es.length, data, none⟩ ::ₘ toks) f where
  items := .cons ⟨rfl, rfl⟩ h.items
  table := by
    rw [Multiset.filterMap_cons_none _ _ rfl]
    exact h.table
  counter := h.counter
  history := by
    rw [Multiset.map_cons]
    exact h.history.begin_ hdata
  alive := by simpa using h.alive

theorem registered (h : Tracked es ⟨.task (.storage data) ::ₘ items, table⟩ toks f)
    (hfew : issues es + 1 < 2 ^ 31 - 1) (haddr : ∀ m ∈ table.list, m.addr ≠ addr)
    (ht : table.handlerToId addr data.handler = (rid, table')) :
    ∃ toks', Tracked (.registered rid :: es) ⟨.registered data rid ::ₘ items, table'⟩ toks' f := by
  obtain ⟨tok, toks', rfl, ⟨hid, rfl⟩, hrest, -⟩ := h.exists_token
  have htable := h.table
  rw [Multiset.filterMap_cons_none _ _ (by simp [Token.pending, hid])] at htable
  have hcounter : table.reqId.toInt = issues es := h.counter
  have hlt : table.reqId.toInt < 2 ^ 31 - 1 := by omega
  obtain ⟨htable, hsucc⟩ := htable.handlerToId hlt haddr ht
  refine ⟨{ tok with id := some rid } ::ₘ toks', ?_⟩
  constructor
  · exact .cons ⟨rfl, rfl⟩ hrest
  · rw [Multiset.filterMap_cons_some _ _ _ (by rfl)]
    exact htable
  · simp only [hsucc, hcounter, issues]
    omega
  · have hhistory := h.history.cons (e := .registered rid) (by simp)
    rw [Multiset.map_cons] at hhistory ⊢
    exact hhistory
  · simpa using h.alive

theorem lost (h : Tracked es ⟨x ::ₘ items, table⟩ toks f) :
    ∃ toks', Tracked (.silent :: es) ⟨items, table⟩ toks' f := by
  obtain ⟨tok, toks', rfl, -, hrest, -⟩ := h.exists_token
  have h := h.silent
  refine ⟨toks', hrest, ?_, h.counter, ?_, h.alive⟩
  · have htable := h.table
    cases hp : tok.pending with
    | none => rwa [Multiset.filterMap_cons_none _ _ hp] at htable
    | some p =>
      rw [Multiset.filterMap_cons_some _ _ _ hp] at htable
      exact htable.forget
  · have hhistory := h.history
    rw [Multiset.map_cons] at hhistory
    exact hhistory.forget

/-- The id of a reply that came in is in the table, whatever else went on since it was sent. -/
theorem buffer (h : Tracked es ⟨.buffer buf ::ₘ items, table⟩ toks f) :
    ∃ (tok : Token) (toks' : Multiset Token) (table' : PendingTable), toks = tok ::ₘ toks' ∧
      Multiset.Rel Token.Holds toks' items ∧
      table'.Registers (toks'.filterMap Token.pending) ∧ table'.reqId = table.reqId ∧
      ∀ fresh, (∀ status, SlaveGateway.createDataFromBuff fresh table buf ≠ .error (.exit status)) ∧
        ∀ data u, SlaveGateway.createDataFromBuff fresh table buf = .ok (data, u) →
          u = table' ∧ { tok with id := none : Token }.Holds (.task (.replay data)) := by
  obtain ⟨tok, toks', rfl, hbuf, hrest, hreq⟩ := h.exists_token
  obtain ⟨rid, hid, hcreated⟩ := Token.holds_replay hreq hbuf
  have htable := h.table
  rw [Multiset.filterMap_cons_some _ _ _ (show tok.pending = some (rid, tok.req.handler) by
    simp [Token.pending, hid])] at htable
  obtain ⟨table', hhandler, htable', hreqId⟩ := htable.idToHandler
  exact ⟨tok, toks', table', rfl, hrest, htable', hreqId, fun fresh =>
    hcreated fresh table table' hhandler⟩

theorem lookedUp (h : Tracked es ⟨.buffer buf ::ₘ items, table⟩ toks f)
    (hcreated : SlaveGateway.createDataFromBuff fresh table buf = .ok (data, table')) :
    ∃ toks', Tracked (.silent :: es) ⟨.task (.replay data) ::ₘ items, table'⟩ toks' f := by
  obtain ⟨tok, toks', u, rfl, hrest, htable, hreqId, hlookup⟩ := h.buffer
  obtain ⟨rfl, hholds⟩ := (hlookup fresh).2 data table' hcreated
  have h := h.silent
  refine ⟨{ tok with id := none } ::ₘ toks', .cons hholds hrest, ?_, ?_, ?_, h.alive⟩
  · rwa [Multiset.filterMap_cons_none _ _ rfl]
  · have := h.counter
    rwa [← hreqId] at this
  · have hhistory := h.history
    rw [Multiset.map_cons] at hhistory ⊢
    exact hhistory

theorem answered (h : Tracked es ⟨.task (.replay data) ::ₘ items, table⟩ toks f)
    (hbytes : NBDDriverProxy.sendReply data = some bytes) :
    ∃ toks' f', Tracked (.answered data bytes :: es) ⟨items, table⟩ toks' f' := by
  obtain ⟨tok, toks', rfl, hreplay, hrest, -⟩ := h.exists_token
  have hhistory := h.history
  rw [Multiset.map_cons] at hhistory
  refine ⟨toks', _, hrest, ?_, h.counter, hhistory.answer (Token.answers hreplay hbytes), ?_⟩
  · have htable := h.table
    rwa [Multiset.filterMap_cons_none _ _ (by simp [Token.pending, hreplay.1])] at htable
  · simpa using h.alive

theorem step (h : Tracked es w toks f) (hfew : issues (e :: es) < 2 ^ 31 - 1)
    (hstep : Step w e w') : ∃ toks' f', Tracked (e :: es) w' toks' f' := by
  cases hstep with
  | received hdata => exact ⟨_, _, h.received hdata⟩
  | silent => exact ⟨_, _, h.silent⟩
  | registered haddr ht =>
    obtain ⟨toks', h'⟩ := h.registered hfew haddr ht
    exact ⟨toks', f, h'⟩
  | sent hsent => exact ⟨_, _, h.move fun _ hreq hx => Token.holds_request hreq hsent hx⟩
  | lost =>
    obtain ⟨toks', h'⟩ := h.lost
    exact ⟨toks', f, h'⟩
  | parsed hparsed => exact ⟨_, _, h.move fun _ _ hx => Token.holds_slave hparsed hx⟩
  | executed => exact ⟨_, _, h.move fun _ _ hx => hx⟩
  | replied hsent => exact ⟨_, _, h.move fun _ _ hx => Token.holds_reply hsent hx⟩
  | arrived => exact ⟨_, _, h.move fun _ _ hx => Token.holds_buffer hx⟩
  | lookedUp hcreated =>
    obtain ⟨toks', h'⟩ := h.lookedUp hcreated
    exact ⟨toks', f, h'⟩
  | exited hexit =>
    obtain ⟨_, _, _, _, _, _, _, hlookup⟩ := h.buffer
    exact absurd hexit ((hlookup _).1 _)
  | answered hbytes => exact h.answered hbytes

end Tracked

theorem tracked_of_run (h : work.Run es w) (hfew : issues es < 2 ^ 31 - 1) :
    ∃ toks f, Tracked es w toks f := by
  apply h.invariant_while (Q := fun es => issues es < 2 ^ 31 - 1) hfew
  · intro e es hq
    cases e with
    | registered => exact Nat.lt_of_succ_lt hq
    | received | answered | exited | silent => exact hq
  · rintro _ rfl
    exact ⟨0, id, .empty⟩
  · rintro es w e w' hq ⟨toks, f, htracked⟩ hstep
    exact htracked.step hq hstep

end Lifecycle

end GreenCloud
