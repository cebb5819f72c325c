import GreenCloud.CLib.Endian
import GreenCloud.NBDDriverProxy

/-! The NBD requests as bytes of a stream socket, which comes in pieces: how `ReceiveRequest` reads
its headers and payloads from it. -/

namespace GreenCloud.NBDDriverProxy

open CLib

/-! The socket. A list of what arrives piece by piece. -/

/-- `read(fd, buff, count)`: no more than one piece, and of a longer one the first `count` bytes;
nothing at the end of the stream. -/
def readSocket (count : Nat) : List Bytes → Bytes × List Bytes
  | [] => ([], [])
  | piece :: socket =>
    if piece.length ≤ count then (piece, socket)
    else (piece.take count, piece.drop count :: socket)

/-- `ReadAll`. At the end of the stream its loop has no end. -/
def readAllSocket (count : Nat) (socket : List Bytes) : Option (Bytes × List Bytes) :=
  if count = 0 then some ([], socket)
  else
    let (got, rest) := readSocket count socket
    if _h : got = [] then none
    else (readAllSocket (count - got.length) rest).map fun (more, rest) => (got ++ more, rest)
termination_by count
decreasing_by
  have hpos := List.length_pos_of_ne_nil _h
  omega

/-- `sizeof(struct nbd_request)` -/
abbrev requestSize : Nat := 28

def uint32 (p : Bytes) : UInt32 := .ofNat (littleEndian p)

def uint64 (p : Bytes) : UInt64 := .ofNat (littleEndian p)

def handleOf (p : Bytes) : Handle := .ofFn fun i => p.getD i 0

def NbdRequest.ofBytes (p : Bytes) : NbdRequest where
  magic := uint32 (p.take 4)
  type := uint32 ((p.drop 4).take 4)
  handle := handleOf ((p.drop 8).take 8)
  from_ := uint64 ((p.drop 16).take 8)
  len := uint32 ((p.drop 24).take 4)

/-- The zeroed struct behind one `read`. -/
def readHeader (socket : List Bytes) : NbdRequest × List Bytes :=
  let (got, rest) := readSocket requestSize socket
  (.ofBytes (got ++ zeros (requestSize - got.length)), rest)

/-- `ReceiveRequest` on the socket. -/
def receiveSocket (fresh : Fresh) (socket : List Bytes) :
    Except ReceiveError (DriverData × List Bytes) :=
  let (request, socket) := readHeader socket
  if request.magic ≠ ntohl requestMagic then
    .error (.badMagic request.magic)
  else
    let len := ntohl request.len
    let ret := { fresh.driverData with handler := request.handle, status := 0 }
    match (ntohl request.type).toNat with
    | 0 => .ok ({ ret with offset := ntohll request.from_, len := len, key := .read }, socket)
    | 1 =>
      match readAllSocket len.toNat socket with
      | none => .error .readAll
      | some (payload, rest) => .ok ({ ret with
          offset := ntohll request.from_, len := len, key := .write,
          buff := payload ++ (fresh.reserve len.toNat ret.buff).drop len.toNat }, rest)
    | 2 => .ok ({ ret with key := .disconnect }, socket)
    | 3 => .ok ({ ret with key := .flush }, socket)
    | 4 => .ok ({ ret with key := .trim }, socket)
    | _ => .ok ({ ret with key := .badRequest }, socket)

theorem toNat_ntohl (x : UInt32) : (ntohl x).toNat =
    x.toNat % 2 ^ 8 * 2 ^ 24 + x.toNat / 2 ^ 8 % 2 ^ 8 * 2 ^ 16 + x.toNat / 2 ^ 16 % 2 ^ 8 * 2 ^ 8 +
      x.toNat / 2 ^ 24 := by
  have hx := x.toNat_lt
  have hfirst : x.toNat * 2 ^ 24 % 2 ^ 32 = x.toNat % 2 ^ 8 * 2 ^ 24 := by omega
  have hsecond : 2 ^ 8 * (x.toNat / 2 ^ 8 % 2 ^ 8) * 2 ^ 8 % 2 ^ 32 =
      x.toNat / 2 ^ 8 % 2 ^ 8 * 2 ^ 16 := by
    have hlt : x.toNat / 2 ^ 8 % 2 ^ 8 < 2 ^ 8 := Nat.mod_lt _ (by decide)
    rw [Nat.mul_comm (2 ^ 8), Nat.mul_assoc]
    exact Nat.mod_eq_of_lt (by omega)
  have hthird : 2 ^ 8 * (x.toNat / 2 ^ 8 / 2 ^ 8 % 2 ^ 8) =
      x.toNat / 2 ^ 16 % 2 ^ 8 * 2 ^ 8 := by omega
  rw [← or_bytes _ _ _ _ (by omega) (by omega) (by omega)]
  simp only [ntohl, UInt32.toNat_or, UInt32.toNat_shiftLeft, UInt32.toNat_shiftRight,
    UInt32.toNat_and, UInt32.reduceToNat, Nat.reduceMod, Nat.shiftLeft_eq,
    Nat.shiftRight_eq_div_pow,
    and_second_byte, hfirst, hsecond, hthird]

theorem toNat_ntohll (a : UInt64) : (ntohll a).toNat =
    (ntohl (a &&& 0xffffffff).toUInt32).toNat * 2 ^ 32 + (ntohl (a >>> 32).toUInt32).toNat := by
  generalize hlo : ntohl (a &&& 0xffffffff).toUInt32 = lo
  generalize hhi : ntohl (a >>> 32).toUInt32 = hi
  have hl := lo.toNat_lt
  have hh := hi.toNat_lt
  have hshift : lo.toNat * 2 ^ 32 % 2 ^ 64 = 2 ^ 32 * lo.toNat := by omega
  simp only [ntohll, hlo, hhi, UInt64.toNat_or, UInt64.toNat_shiftLeft, UInt32.toNat_toUInt64,
    UInt64.reduceToNat, Nat.reduceMod, Nat.shiftLeft_eq, hshift]
  rw [← Nat.two_pow_add_eq_or_of_lt hh, Nat.mul_comm]

theorem toNat_ntohl_uint32 (h : p.length = 4) : (ntohl (uint32 p)).toNat = bigEndian p := by
  match p, h with
  | [a, b, c, d], _ =>
    have ha := a.toNat_lt
    have hb := b.toNat_lt
    have hc := c.toNat_lt
    have hd := d.toNat_lt
    rw [toNat_ntohl]
    simp only [uint32, littleEndian, bigEndian, UInt32.toNat_ofNat', List.length_cons,
      List.length_nil]
    omega

theorem toNat_ntohll_uint64 (h : p.length = 8) : (ntohll (uint64 p)).toNat = bigEndian p := by
  have htake : (p.take 4).length = 4 := by
    rw [List.length_take]
    omega
  have hdrop : (p.drop 4).length = 4 := by
    rw [List.length_drop]
    omega
  have hsplit : littleEndian p = littleEndian (p.take 4) + 2 ^ 32 * littleEndian (p.drop 4) := by
    have happend := littleEndian_append (p.take 4) (p.drop 4)
    rw [List.take_append_drop, htake] at happend
    exact happend
  have hlow : littleEndian (p.take 4) < 2 ^ 32 := by
    have hlt := littleEndian_lt (p.take 4)
    rw [htake] at hlt
    exact hlt
  have hhigh : littleEndian (p.drop 4) < 2 ^ 32 := by
    have hlt := littleEndian_lt (p.drop 4)
    rw [hdrop] at hlt
    exact hlt
  have hlo : (uint64 p &&& 0xffffffff).toUInt32 = uint32 (p.take 4) := by
    have hmask : littleEndian p % 2 ^ 64 &&& 4294967295 = littleEndian p % 2 ^ 64 % 2 ^ 32 :=
      Nat.and_two_pow_sub_one_eq_mod _ 32
    simp only [← UInt32.toNat_inj, UInt64.toNat_toUInt32, UInt64.toNat_and, uint64, uint32,
      UInt64.toNat_ofNat', UInt32.toNat_ofNat', UInt64.reduceToNat, hmask]
    omega
  have hhi : (uint64 p >>> 32).toUInt32 = uint32 (p.drop 4) := by
    simp only [← UInt32.toNat_inj, UInt64.toNat_toUInt32, UInt64.toNat_shiftRight, uint64, uint32,
      UInt64.toNat_ofNat', UInt32.toNat_ofNat', UInt64.reduceToNat, Nat.reduceMod,
      Nat.shiftRight_eq_div_pow]
    omega
  have hpow : (2 : Nat) ^ 32 = 256 ^ 4 := by decide
  rw [toNat_ntohll, hlo, hhi, toNat_ntohl_uint32 htake, toNat_ntohl_uint32 hdrop]
  calc bigEndian (p.take 4) * 2 ^ 32 + bigEndian (p.drop 4)
    _ = bigEndian (p.take 4 ++ p.drop 4) := by rw [bigEndian_append, hdrop, hpow]
    _ = bigEndian p := by rw [List.take_append_drop]

def Ends (socket : List Bytes) (p : Nat) : Prop :=
  ∃ before after, socket = before ++ after ∧ before.flatten.length = p

theorem ends_cons :
    Ends (piece :: socket) p ↔ p = 0 ∨ ∃ q, Ends socket q ∧ p = piece.length + q := by
  constructor
  · rintro ⟨before, after, h, rfl⟩
    cases before with
    | nil => exact .inl rfl
    | cons first before =>
      obtain ⟨rfl, rfl⟩ := List.cons.inj h
      exact .inr ⟨_, ⟨before, after, rfl, rfl⟩, by simp⟩
  · rintro (rfl | ⟨q, ⟨before, after, rfl, rfl⟩, rfl⟩)
    · exact ⟨[], _, rfl, rfl⟩
    · exact ⟨piece :: before, after, rfl, by simp⟩

structure Consumed (got : Bytes) (socket rest : List Bytes) : Prop where
  flatten : socket.flatten = got ++ rest.flatten
  ends : ∀ p, 0 < p → (Ends rest p ↔ Ends socket (got.length + p))
  ne_nil : (∀ piece ∈ socket, piece ≠ []) → ∀ piece ∈ rest, piece ≠ []

theorem Consumed.refl (socket : List Bytes) : Consumed [] socket socket where
  flatten := rfl
  ends p _ := by rw [List.length_nil, Nat.zero_add]
  ne_nil h := h

theorem Consumed.trans (h : Consumed got socket rest) (h' : Consumed more rest rest') :
    Consumed (got ++ more) socket rest' where
  flatten := by rw [h.flatten, h'.flatten, List.append_assoc]
  ends p hp := by
    rw [h'.ends p hp, h.ends _ (Nat.add_pos_right _ hp), List.length_append, Nat.add_assoc]
  ne_nil hne := h'.ne_nil (h.ne_nil hne)

theorem readSocket_consumed (count : Nat) (socket : List Bytes) :
    Consumed (readSocket count socket).1 socket (readSocket count socket).2 := by
  cases socket with
  | nil => exact .refl []
  | cons piece socket =>
    rw [readSocket]
    split
    · refine ⟨by simp, fun p hp => ?_, by simp⟩
      rw [ends_cons]
      constructor
      · intro h
        exact .inr ⟨p, h, rfl⟩
      · rintro (h | ⟨q, h, heq⟩)
        · omega
        · obtain rfl : p = q := Nat.add_left_cancel heq
          exact h
    · rename_i hcount
      have htake : (piece.take count).length = count := by
        rw [List.length_take]
        omega
      refine ⟨?_, fun p hp => ?_, ?_⟩
      · rw [List.flatten_cons, List.flatten_cons, ← List.append_assoc, List.take_append_drop]
      · rw [ends_cons, ends_cons, htake, List.length_drop]
        constructor
        · rintro (h | ⟨q, h, heq⟩)
          · omega
          · exact .inr ⟨q, h, by omega⟩
        · rintro (h | ⟨q, h, heq⟩)
          · omega
          · exact .inr ⟨q, h, by omega⟩
      · intro hne other hother
        rcases List.mem_cons.mp hother with rfl | hother
        · intro hnil
          have hlen := congrArg List.length hnil
          rw [List.length_drop, List.length_nil] at hlen
          omega
        · exact hne other (List.mem_cons_of_mem _ hother)

theorem length_readSocket_le (count : Nat) (socket : List Bytes) :
    (readSocket count socket).1.length ≤ count := by
  cases socket with
  | nil => exact Nat.zero_le _
  | cons piece socket =>
    rw [readSocket]
    split
    · assumption
    · rw [List.length_take]
      exact Nat.min_le_left _ _

theorem readAllSocket_consumed (h : readAllSocket count socket = some (payload, rest)) :
    payload.length = count ∧ Consumed payload socket rest := by
  induction count, socket using readAllSocket.induct generalizing payload rest with
  | case1 socket =>
    rw [readAllSocket, if_pos rfl] at h
    cases h
    exact ⟨rfl, .refl _⟩
  | case2 count socket hcount rest' hread =>
    rw [readAllSocket, if_neg hcount] at h
    simp [hread] at h
  | case3 count socket hcount got rest' hread hgot ih =>
    rw [readAllSocket, if_neg hcount] at h
    simp only [hread, hgot, ↓reduceDIte, Option.map_eq_some_iff] at h
    obtain ⟨⟨more, rest''⟩, hmore, heq⟩ := h
    cases heq
    obtain ⟨hlen, hconsumed⟩ := ih hmore
    have hfirst := readSocket_consumed count socket
    have hle := length_readSocket_le count socket
    rw [hread] at hfirst hle
    refine ⟨?_, hfirst.trans hconsumed⟩
    rw [List.length_append, hlen]
    exact Nat.add_sub_cancel' hle

theorem readSocket_ne_nil (hcount : 0 < count) (hne : ∀ piece ∈ socket, piece ≠ [])
    (h : socket ≠ []) : (readSocket count socket).1 ≠ [] := by
  cases socket with
  | nil => exact absurd rfl h
  | cons piece socket =>
    have hpiece := hne piece (List.mem_cons_self ..)
    rw [readSocket]
    split
    · exact hpiece
    · intro hnil
      rcases List.take_eq_nil_iff.mp hnil with rfl | hnil
      · omega
      · exact hpiece hnil

theorem exists_readAllSocket (hne : ∀ piece ∈ socket, piece ≠ [])
    (h : count ≤ socket.flatten.length) : ∃ rest,
      readAllSocket count socket = some (socket.flatten.take count, rest) := by
  induction count, socket using readAllSocket.induct with
  | case1 socket => exact ⟨socket, by rw [readAllSocket, if_pos rfl, List.take_zero]⟩
  | case2 count socket hcount rest hread =>
    have hsocket : socket ≠ [] := by
      rintro rfl
      exact hcount (Nat.le_zero.mp h)
    have hsome := readSocket_ne_nil (Nat.pos_of_ne_zero hcount) hne hsocket
    rw [hread] at hsome
    exact absurd rfl hsome
  | case3 count socket hcount got rest hread hgot ih =>
    have hfirst := readSocket_consumed count socket
    have hle := length_readSocket_le count socket
    rw [hread] at hfirst hle
    have hle : got.length ≤ count := hle
    have hflatten := hfirst.flatten
    rw [hflatten, List.length_append] at h
    have h : count ≤ got.length + rest.flatten.length := h
    obtain ⟨rest', hmore⟩ := ih (hfirst.ne_nil hne) (by omega)
    refine ⟨rest', ?_⟩
    rw [readAllSocket, if_neg hcount]
    simp only [hread, hgot, ↓reduceDIte, hmore, Option.map_some]
    rw [hflatten, List.take_append, List.take_of_length_le hle]

theorem readAllSocket_flatten (hne : ∀ piece ∈ socket, piece ≠ []) (count : Nat)
    (block : Nat → UInt8) :
    (readAllSocket count socket).map (fun (payload, rest) => (payload, rest.flatten)) =
      (readAll count socket.flatten (.start (uninit block count))).map
        fun (buff, rest) => (buff.object, rest) := by
  by_cases hcount : count ≤ socket.flatten.length
  · obtain ⟨rest, hread⟩ := exists_readAllSocket hne hcount
    obtain ⟨hlen, hconsumed⟩ := readAllSocket_consumed hread
    have hrest : socket.flatten.drop count = rest.flatten := by
      rw [hconsumed.flatten, List.drop_left' hlen]
    have hfetch : fetch count socket.flatten = some (socket.flatten.take count) := if_pos hcount
    simp [hread, readAll, hfetch, Cursor.write_eq, Cursor.start, Cursor.object, hrest, hlen]
  · have hread : readAllSocket count socket = none := by
      rw [Option.eq_none_iff_forall_not_mem]
      rintro ⟨payload, rest⟩ hread
      obtain ⟨hlen, hconsumed⟩ := readAllSocket_consumed hread
      rw [hconsumed.flatten, List.length_append, hlen] at hcount
      exact hcount (Nat.le_add_right _ _)
    have hfetch : fetch count socket.flatten = none := if_neg hcount
    simp [hread, readAll, hfetch]

/-- Behind the header `ReceiveRequest` does not see the pieces. -/
theorem receiveSocket_flatten (fresh : Fresh) (hne : ∀ piece ∈ socket, piece ≠ []) :
    (receiveSocket fresh socket).map (fun (data, rest) => (data, rest.flatten)) =
      receiveRequest fresh (readHeader socket).1 (readHeader socket).2.flatten := by
  have hbehind : ∀ piece ∈ (readHeader socket).2, piece ≠ [] :=
    (readSocket_consumed requestSize socket).ne_nil hne
  unfold receiveSocket receiveRequest
  dsimp only
  split
  · rfl
  · generalize (ntohl (readHeader socket).1.type).toNat = type
    match type with
    | 0 | 2 | 3 | 4 | n + 5 => rfl
    | 1 =>
      simp only [Fresh.driverData, Fresh.reserve_nil]
      generalize (ntohl (readHeader socket).1.len).toNat = len
      have hpayload := readAllSocket_flatten hbehind len fresh.block
      cases hsocket : readAllSocket len (readHeader socket).2 with
      | none =>
        rw [hsocket, Option.map_none, eq_comm, Option.map_eq_none_iff] at hpayload
        rw [hpayload]
        rfl
      | some read =>
        obtain ⟨payload, rest⟩ := read
        rw [hsocket, Option.map_some, eq_comm, Option.map_eq_some_iff] at hpayload
        obtain ⟨⟨buff, rest'⟩, hread, heq⟩ := hpayload
        cases heq
        rw [hread]
        have hdrop : (uninit fresh.block len).drop len = [] := by simp
        simp only [hdrop, List.append_nil]
        rfl

/-- `NBD_CMD_READ` to `NBD_CMD_TRIM` -/
inductive RequestType
  | read | write | disc | flush | trim
  deriving DecidableEq

def RequestType.value : RequestType → Nat
  | read => 0
  | write => 1
  | disc => 2
  | flush => 3
  | trim => 4

def RequestType.key : RequestType → FactoryKey
  | read => .read
  | write => .write
  | disc => .disconnect
  | flush => .flush
  | trim => .trim

/-- Only a `WRITE` has a payload, of its length. -/
structure Request where
  type : RequestType
  handle : Handle
  offset : UInt64
  len : UInt32
  payload : Bytes
  length_payload : payload.length = if type = .write then len.toNat else 0

namespace Request

def header (request : Request) : Bytes :=
  networkBytes 4 requestMagic.toNat ++ (networkBytes 4 request.type.value ++
    (request.handle.toList ++ (networkBytes 8 request.offset.toNat ++
      networkBytes 4 request.len.toNat)))

def bytes (request : Request) : Bytes := request.header ++ request.payload

@[simp] theorem length_header (request : Request) : request.header.length = requestSize := by
  simp only [header, List.length_append, length_networkBytes, Vector.length_toList]
  rfl

theorem length_bytes (request : Request) :
    request.bytes.length = requestSize + request.payload.length := by
  rw [bytes, List.length_append, length_header]

end Request

theorem ofBytes_append (a b c d e : Bytes) (ha : a.length = 4) (hb : b.length = 4)
    (hc : c.length = 8) (hd : d.length = 8) (he : e.length = 4) :
    NbdRequest.ofBytes (a ++ (b ++ (c ++ (d ++ e)))) =
      ⟨uint32 a, uint32 b, handleOf c, uint64 d, uint32 e⟩ := by
  have h4 : (a ++ (b ++ (c ++ (d ++ e)))).drop 4 = b ++ (c ++ (d ++ e)) := List.drop_left' ha
  have h8 : (a ++ (b ++ (c ++ (d ++ e)))).drop 8 = c ++ (d ++ e) := by
    rw [← List.drop_drop (i := 4) (j := 4), h4, List.drop_left' hb]
  have h16 : (a ++ (b ++ (c ++ (d ++ e)))).drop 16 = d ++ e := by
    rw [← List.drop_drop (i := 8) (j := 8), h8, List.drop_left' hc]
  have h24 : (a ++ (b ++ (c ++ (d ++ e)))).drop 24 = e := by
    rw [← List.drop_drop (i := 8) (j := 16), h16, List.drop_left' hd]
  rw [NbdRequest.ofBytes, h4, h8, h16, h24, List.take_left' ha, List.take_left' hb,
    List.take_left' hc, List.take_left' hd, List.take_of_length_le (Nat.le_of_eq he)]

theorem handleOf_toList (handle : Handle) : handleOf handle.toList = handle := by
  ext i hi
  simp [handleOf]

theorem ofBytes_header (request : Request) : NbdRequest.ofBytes request.header =
    ⟨ntohl requestMagic, uint32 (networkBytes 4 request.type.value), request.handle,
      uint64 (networkBytes 8 request.offset.toNat), uint32 (networkBytes 4 request.len.toNat)⟩ := by
  have hmagic : uint32 (networkBytes 4 requestMagic.toNat) = ntohl requestMagic := by decide
  rw [Request.header, ofBytes_append _ _ _ _ _ (by simp) (by simp) (by simp) (by simp) (by simp),
    hmagic, handleOf_toList]

theorem ofBytes_keep (k : Nat) (request : Request) :
    NbdRequest.ofBytes (keep k request.header) =
      ⟨uint32 (keep k (networkBytes 4 requestMagic.toNat)),
        uint32 (keep (k - 4) (networkBytes 4 request.type.value)),
        handleOf (keep (k - 8) request.handle.toList),
        uint64 (keep (k - 16) (networkBytes 8 request.offset.toNat)),
        uint32 (keep (k - 24) (networkBytes 4 request.len.toNat))⟩ := by
  simp only [Request.header, keep_append, length_networkBytes, Vector.length_toList, Nat.sub_sub,
    Nat.reduceAdd, handleSize]
  exact ofBytes_append _ _ _ _ _ (by simp) (by simp) (by simp) (by simp) (by simp)

def Request.received (fresh : Fresh) (request : Request) : DriverData :=
  let ret := { fresh.driverData with
    handler := request.handle, status := 0, key := request.type.key }
  match request.type with
  | .read | .write =>
    { ret with offset := request.offset, len := request.len, buff := request.payload }
  | _ => ret

theorem ntohl_networkBytes (x : UInt32) : ntohl (uint32 (networkBytes 4 x.toNat)) = x := by
  have hx : x.toNat < 256 ^ 4 := x.toNat_lt
  rw [← UInt32.toNat_inj, toNat_ntohl_uint32 (length_networkBytes 4 _), bigEndian_networkBytes,
    Nat.mod_eq_of_lt hx]

theorem ntohll_networkBytes (x : UInt64) : ntohll (uint64 (networkBytes 8 x.toNat)) = x := by
  have hx : x.toNat < 256 ^ 8 := x.toNat_lt
  rw [← UInt64.toNat_inj, toNat_ntohll_uint64 (length_networkBytes 8 _), bigEndian_networkBytes,
    Nat.mod_eq_of_lt hx]

theorem toNat_ntohl_type (type : RequestType) :
    (ntohl (uint32 (networkBytes 4 type.value))).toNat = type.value := by
  have hvalue : type.value < 256 ^ 4 := by cases type <;> decide
  rw [toNat_ntohl_uint32 (length_networkBytes 4 _), bigEndian_networkBytes, Nat.mod_eq_of_lt hvalue]

section Reading

variable {request : Request} {socket : List Bytes} {tail : Bytes}

theorem readSocket_header (h : socket.flatten = request.bytes ++ tail) :
    (readSocket requestSize socket).1 =
      request.header.take (readSocket requestSize socket).1.length := by
  have hflatten := (readSocket_consumed requestSize socket).flatten
  have hle := length_readSocket_le requestSize socket
  generalize readSocket requestSize socket = read at *
  calc read.1
    _ = (read.1 ++ read.2.flatten).take read.1.length := (List.take_left' rfl).symm
    _ = (request.header ++ (request.payload ++ tail)).take read.1.length := by
      rw [← hflatten, h, Request.bytes, List.append_assoc]
    _ = request.header.take read.1.length :=
      List.take_append_of_le_length (by rw [Request.length_header]; exact hle)

theorem readHeader_eq (h : socket.flatten = request.bytes ++ tail) :
    readHeader socket =
      (.ofBytes (keep (readSocket requestSize socket).1.length request.header),
        (readSocket requestSize socket).2) := by
  have hheader := readSocket_header h
  rw [keep, ← hheader, Request.length_header]
  rfl

theorem flatten_behind_header (h : socket.flatten = request.bytes ++ tail)
    (hwhole : (readSocket requestSize socket).1.length = requestSize) :
    (readSocket requestSize socket).1 = request.header ∧
      (readSocket requestSize socket).2.flatten = request.payload ++ tail := by
  have hheader := readSocket_header h
  rw [hwhole, List.take_of_length_le (Nat.le_of_eq request.length_header)] at hheader
  have hflatten := (readSocket_consumed requestSize socket).flatten
  rw [h, hheader, Request.bytes, List.append_assoc] at hflatten
  exact ⟨hheader, (List.append_cancel_left hflatten).symm⟩

theorem receiveSocket_whole (h : socket.flatten = request.bytes ++ tail)
    (hne : ∀ piece ∈ socket, piece ≠ [])
    (hwhole : (readSocket requestSize socket).1.length = requestSize) (fresh : Fresh) :
    ∃ rest, receiveSocket fresh socket = .ok (request.received fresh, rest) ∧
      Consumed request.bytes socket rest := by
  obtain ⟨hheader, hbehind⟩ := flatten_behind_header h hwhole
  have hread := readHeader_eq h
  have hconsumed := readSocket_consumed requestSize socket
  generalize readSocket requestSize socket = read at *
  obtain ⟨got, socket'⟩ := read
  obtain rfl : got = request.header := hheader
  rw [hwhole, keep_of_le (Nat.le_of_eq request.length_header), ofBytes_header] at hread
  have htype := toNat_ntohl_type request.type
  obtain ⟨type, handle, offset, len, payload, hlen⟩ := request
  rw [receiveSocket, hread]
  simp only [ne_eq, not_true_eq_false, ↓reduceIte, htype]
  cases type with
  | write =>
    have hcount : payload.length = len.toNat := hlen
    have hle : len.toNat ≤ socket'.flatten.length := by
      rw [hbehind, List.length_append, hcount]
      exact Nat.le_add_right _ _
    obtain ⟨rest, hpayload⟩ := exists_readAllSocket (hconsumed.ne_nil hne) hle
    rw [hbehind, List.take_left' hcount] at hpayload
    obtain ⟨-, htaken⟩ := readAllSocket_consumed hpayload
    refine ⟨rest, ?_, hconsumed.trans htaken⟩
    simp [RequestType.value, Request.received, Fresh.driverData, RequestType.key,
      ntohl_networkBytes, ntohll_networkBytes, hpayload]
  | _ =>
    obtain rfl : payload = [] := List.length_eq_zero_iff.mp hlen
    refine ⟨socket', ?_, by simpa only [Request.bytes, List.append_nil] using hconsumed⟩
    simp [RequestType.value, Request.received, Fresh.driverData, RequestType.key,
      ntohl_networkBytes, ntohll_networkBytes]

theorem receiveSocket_rest (h : receiveSocket fresh socket = .ok (data, rest)) :
    rest = (readHeader socket).2 ∨ (ntohl (readHeader socket).1.type).toNat = 1 ∧
      ∃ payload, readAllSocket (ntohl (readHeader socket).1.len).toNat (readHeader socket).2 =
        some (payload, rest) := by
  unfold receiveSocket at h
  dsimp only at h
  split at h
  · cases h
  · split at h
    case h_2 htype =>
      split at h
      · cases h
      · rename_i payload rest' hread
        cases h
        exact .inr ⟨htype, payload, hread⟩
    all_goals
      cases h
      exact .inl rfl

/-- With its last byte zeroed, no type is left but `READ`. -/
theorem type_of_keep {type : RequestType}
    (h : bigEndian (keep k (networkBytes 4 type.value)) = 1) : type = .write := by
  by_cases hk : 4 ≤ k
  · rw [keep_of_le (by rw [length_networkBytes]; exact hk), bigEndian_networkBytes] at h
    cases type <;> first | rfl | cases h
  · obtain rfl | rfl | rfl | rfl : k = 0 ∨ k = 1 ∨ k = 2 ∨ k = 3 := by omega
    all_goals cases type <;> cases h

theorem receiveSocket_short (h : socket.flatten = request.bytes ++ tail)
    (hshort : (readSocket requestSize socket).1.length < requestSize)
    (hreceive : receiveSocket fresh socket = .ok (data, rest)) :
    socket.flatten.length < request.bytes.length + rest.flatten.length := by
  have hconsumed := readSocket_consumed requestSize socket
  have hlength := congrArg List.length hconsumed.flatten
  rw [List.length_append] at hlength
  rw [request.length_bytes]
  have hrest := receiveSocket_rest hreceive
  rw [readHeader_eq h, ofBytes_keep] at hrest
  rcases hrest with rfl | ⟨htype, payload, hread⟩
  · dsimp only
    omega
  · rw [toNat_ntohl_uint32 (by simp)] at htype
    have hwrite := type_of_keep htype
    have hpayload := request.length_payload
    rw [if_pos hwrite] at hpayload
    obtain ⟨hcount, htaken⟩ := readAllSocket_consumed hread
    have hle : payload.length ≤ request.len.toNat := by
      rw [hcount, toNat_ntohl_uint32 (by simp)]
      apply Nat.le_trans (bigEndian_keep_le _ _)
      rw [bigEndian_networkBytes]
      exact Nat.mod_le _ _
    have htotal := congrArg List.length htaken.flatten
    rw [List.length_append] at htotal
    dsimp only at htotal
    omega

end Reading

def Request.Same (request : Request) (data : DriverData) : Prop :=
  data.key = request.type.key ∧ data.handler = request.handle ∧ data.offset = request.offset ∧
    data.len = request.len ∧ data.buff = request.payload

def Request.Matches (request : Request) (data : DriverData) : Prop :=
  data.key = request.type.key ∧ data.handler = request.handle ∧ data.buff = request.payload ∧
    (request.type = .read ∨ request.type = .write →
      data.offset = request.offset ∧ data.len = request.len)

/-- Each call in turn returns the request that is next, and takes its bytes from the socket. -/
def Framed (is : Request → DriverData → Prop) : List Request → List Bytes → Prop
  | [], _ => True
  | request :: requests, socket => ∀ fresh, ∃ data rest,
      receiveSocket fresh socket = .ok (data, rest) ∧ is request data ∧
        socket.flatten = request.bytes ++ rest.flatten ∧ Framed is requests rest

/-- No piece ends inside a header. -/
def HeadersWhole (requests : List Request) (socket : List Bytes) : Prop :=
  ∀ before request after, requests = before ++ request :: after → ∀ p, Ends socket p →
    ¬ ((before.flatMap Request.bytes).length < p ∧
      p < (before.flatMap Request.bytes).length + requestSize)

section Framing

variable {request : Request} {requests : List Request} {socket rest : List Bytes}

theorem headersWhole_cons (h : Consumed request.bytes socket rest) :
    HeadersWhole (request :: requests) socket ↔
      (∀ p, Ends socket p → ¬ (0 < p ∧ p < requestSize)) ∧ HeadersWhole requests rest := by
  constructor
  · intro hwhole
    refine ⟨fun p hp => ?_, fun before next after hsplit p hp hin => ?_⟩
    · have hfirst := hwhole [] request requests rfl p hp
      rw [List.flatMap_nil, List.length_nil, Nat.zero_add] at hfirst
      exact hfirst
    · have hends := (h.ends p (by omega)).mp hp
      have hnext := hwhole (request :: before) next after (by rw [hsplit]; rfl) _ hends
      rw [List.flatMap_cons, List.length_append] at hnext
      omega
  · rintro ⟨hfirst, hwhole⟩ before next after hsplit p hp hin
    cases before with
    | nil =>
      rw [List.flatMap_nil, List.length_nil, Nat.zero_add] at hin
      exact hfirst p hp hin
    | cons head before =>
      obtain ⟨rfl, rfl⟩ := List.cons.inj hsplit
      rw [List.flatMap_cons, List.length_append] at hin
      have hbehind : p = request.bytes.length + (p - request.bytes.length) := by omega
      have hends : Ends rest (p - request.bytes.length) :=
        (h.ends _ (by omega)).mpr (hbehind ▸ hp)
      exact hwhole before next after rfl _ hends (by omega)

theorem readSocket_whole_iff (hne : ∀ piece ∈ socket, piece ≠ []) (hsocket : socket ≠ []) :
    (∀ p, Ends socket p → ¬ (0 < p ∧ p < requestSize)) ↔
      (readSocket requestSize socket).1.length = requestSize := by
  cases socket with
  | nil => exact absurd rfl hsocket
  | cons piece socket =>
    have hpos := List.length_pos_of_ne_nil (hne piece (List.mem_cons_self ..))
    have hread : (readSocket requestSize (piece :: socket)).1.length =
        min piece.length requestSize := by
      rw [readSocket]
      split
      · rename_i hle
        exact (Nat.min_eq_left hle).symm
      · rw [List.length_take, Nat.min_comm]
    rw [hread]
    constructor
    · intro h
      have hend := h piece.length (ends_cons.mpr (.inr ⟨0, ⟨[], socket, rfl, rfl⟩, rfl⟩))
      omega
    · rintro h p hp hin
      rcases ends_cons.mp hp with hp | ⟨q, -, hp⟩ <;> omega

theorem matches_received (request : Request) (fresh : Fresh) :
    request.Matches (request.received fresh) := by
  obtain ⟨type, handle, offset, len, payload, hlen⟩ := request
  cases type with
  | read | write => exact ⟨rfl, rfl, rfl, fun _ => ⟨rfl, rfl⟩⟩
  | disc | flush | trim =>
    obtain rfl : payload = [] := List.length_eq_zero_iff.mp hlen
    exact ⟨rfl, rfl, rfl, by simp⟩

theorem same_received_iff (request : Request) :
    (∀ fresh, request.Same (request.received fresh)) ↔
      request.type = .read ∨ request.type = .write := by
  constructor
  · intro h
    obtain ⟨-, -, hoffset, -⟩ := h
      ⟨⟨request.offset + 1, 0, .ofFn fun _ => 0, 0, .ignore, 0, []⟩, fun _ => 0⟩
    obtain ⟨type, handle, offset, len, payload, hlen⟩ := request
    cases type with
    | read => exact .inl rfl
    | write => exact .inr rfl
    | disc | flush | trim =>
      have hne : offset + 1 ≠ offset := by
        rw [ne_eq, ← UInt64.toNat_inj, UInt64.toNat_add, UInt64.toNat_one]
        have hlt := offset.toNat_lt
        omega
      exact absurd hoffset hne
  · intro h fresh
    obtain ⟨hkey, hhandler, hbuff, hrange⟩ := matches_received request fresh
    obtain ⟨hoffset, hlen⟩ := hrange h
    exact ⟨hkey, hhandler, hoffset, hlen, hbuff⟩

theorem framed_iff (is : Request → DriverData → Prop) (hne : ∀ piece ∈ socket, piece ≠ [])
    (h : socket.flatten = requests.flatMap Request.bytes) :
    Framed is requests socket ↔ HeadersWhole requests socket ∧
      ∀ request ∈ requests, ∀ fresh, is request (request.received fresh) := by
  induction requests generalizing socket with
  | nil =>
    refine iff_of_true trivial ⟨?_, by simp⟩
    intro before request after hsplit
    cases before <;> cases hsplit
  | cons request requests ih =>
    rw [List.flatMap_cons] at h
    have hpos : 0 < request.bytes.length := by
      rw [request.length_bytes]
      exact Nat.add_pos_left (by decide) _
    have hsocket : socket ≠ [] := by
      rintro rfl
      have hlen := congrArg List.length h
      rw [List.length_append, List.flatten_nil, List.length_nil] at hlen
      omega
    by_cases hwhole : (readSocket requestSize socket).1.length = requestSize
    · -- the call takes the request, so what is left is the rest of them in their pieces
      have hnext : ∀ fresh, ∃ rest, receiveSocket fresh socket =
          .ok (request.received fresh, rest) ∧ Consumed request.bytes socket rest :=
        receiveSocket_whole h hne hwhole
      have hrest : ∀ {rest}, Consumed request.bytes socket rest →
          rest.flatten = requests.flatMap Request.bytes := fun hconsumed =>
        (List.append_cancel_left (h.symm.trans hconsumed.flatten)).symm
      have hfirst := (readSocket_whole_iff hne hsocket).mpr hwhole
      constructor
      · intro hframed
        obtain ⟨fresh⟩ : Nonempty Fresh :=
          ⟨⟨⟨0, 0, request.handle, 0, .ignore, 0, []⟩, fun _ => 0⟩⟩
        obtain ⟨rest, hreceive, hconsumed⟩ := hnext fresh
        obtain ⟨data, rest', hreceive', -, -, htail⟩ := hframed fresh
        rw [hreceive] at hreceive'
        cases hreceive'
        obtain ⟨htail, his⟩ := (ih (hconsumed.ne_nil hne) (hrest hconsumed)).mp htail
        refine ⟨(headersWhole_cons hconsumed).mpr ⟨hfirst, htail⟩, ?_⟩
        intro other hother
        rcases List.mem_cons.mp hother with rfl | hother
        · intro fresh
          obtain ⟨rest, hreceive, -⟩ := hnext fresh
          obtain ⟨data, rest', hreceive', his, -⟩ := hframed fresh
          rw [hreceive] at hreceive'
          cases hreceive'
          exact his
        · exact his other hother
      · rintro ⟨hheaders, his⟩ fresh
        obtain ⟨rest, hreceive, hconsumed⟩ := hnext fresh
        have htail := ((headersWhole_cons hconsumed).mp hheaders).2
        refine ⟨request.received fresh, rest, hreceive, his request (List.mem_cons_self ..) fresh,
          hconsumed.flatten, ?_⟩
        exact (ih (hconsumed.ne_nil hne) (hrest hconsumed)).mpr
          ⟨htail, fun other hother => his other (List.mem_cons_of_mem _ hother)⟩
    · have hshort : (readSocket requestSize socket).1.length < requestSize :=
        Nat.lt_of_le_of_ne (length_readSocket_le _ _) hwhole
      constructor
      · intro hframed
        obtain ⟨data, rest, hreceive, -, hflatten, -⟩ :=
          hframed ⟨⟨0, 0, request.handle, 0, .ignore, 0, []⟩, fun _ => 0⟩
        have htaken := receiveSocket_short h hshort hreceive
        rw [hflatten, List.length_append] at htaken
        exact absurd htaken (Nat.lt_irrefl _)
      · rintro ⟨hheaders, -⟩
        refine absurd ((readSocket_whole_iff hne hsocket).mp ?_) hwhole
        intro p hends hin
        have hcut := hheaders [] request requests rfl p hends
        rw [List.flatMap_nil, List.length_nil, Nat.zero_add] at hcut
        exact hcut hin

end Framing

/-- Requests are framed on the socket exactly if none of their headers comes in two pieces. The
range of a request that is no `READ` or `WRITE` is lost in any case. -/
theorem framed_iff_headersWhole (requests : List Request) (socket : List Bytes)
    (hne : ∀ piece ∈ socket, piece ≠ [])
    (h : socket.flatten = requests.flatMap Request.bytes) :
    (Framed Request.Matches requests socket ↔ HeadersWhole requests socket) ∧
      (Framed Request.Same requests socket ↔ HeadersWhole requests socket ∧
        ∀ request ∈ requests, request.type = .read ∨ request.type = .write) := by
  constructor
  · rw [framed_iff _ hne h]
    exact and_iff_left fun request _ => matches_received request
  · rw [framed_iff _ hne h]
    simp only [same_received_iff]

def twoBytes : Request := ⟨.write, .ofFn fun i => .ofNat i, 4096, 2, [1, 2], rfl⟩

theorem framed_twoBytes : Framed Request.Same [twoBytes] [twoBytes.header ++ [1], [2]] := by
  have hframed := framed_iff_headersWhole [twoBytes] [twoBytes.header ++ [1], [2]]
    (by simp) (by simp [Request.bytes, twoBytes])
  refine hframed.2.mpr ⟨?_, by simp [twoBytes]⟩
  intro before request after hsplit p hends
  have hp : p = 0 ∨ requestSize ≤ p := by
    rw [ends_cons, List.length_append, Request.length_header] at hends
    rcases hends with h | ⟨q, -, h⟩ <;> omega
  cases before with
  | nil =>
    rw [List.flatMap_nil, List.length_nil]
    omega
  | cons head before =>
    obtain ⟨-, hnil⟩ := List.cons.inj hsplit
    simp at hnil

/-- A header of 27 bytes and one is taken for a whole one. -/
theorem not_framed_split : ∃ requests socket, (∀ piece ∈ socket, piece ≠ []) ∧
    socket.flatten = requests.flatMap Request.bytes ∧
    ¬ Framed Request.Matches requests socket := by
  let request : Request := ⟨.read, .ofFn fun i => .ofNat i, 4096, 2, [], rfl⟩
  have hsocket :
      [request.header.take 27, request.header.drop 27].flatten = request.bytes ++ [] := by
    simp [request, Request.bytes]
  refine ⟨[request], [request.header.take 27, request.header.drop 27], ?_, hsocket, ?_⟩
  · intro piece hpiece hnil
    have hlen := congrArg List.length hnil
    simp only [List.mem_cons, List.not_mem_nil, or_false] at hpiece
    rcases hpiece with rfl | rfl <;> simp at hlen
  · intro hframed
    obtain ⟨data, rest, hreceive, -, htaken, -⟩ :=
      hframed ⟨⟨0, 0, request.handle, 0, .ignore, 0, []⟩, fun _ => 0⟩
    have hshort := receiveSocket_short hsocket (by simp [readSocket, requestSize]) hreceive
    rw [htaken, List.length_append] at hshort
    exact Nat.lt_irrefl _ hshort

end GreenCloud.NBDDriverProxy
