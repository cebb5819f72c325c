import GreenCloud.NBDSocket

/-! What `ReceiveRequest` makes of a header that comes whole, for any fields. -/

namespace GreenCloud.NBDDriverProxy

open CLib

theorem networkBytes_ntohll (a : UInt64) :
    networkBytes 8 (ntohll a).toNat = (networkBytes 8 a.toNat).reverse := by
  have ha : a.toNat < 256 ^ 8 := a.toNat_lt
  have hmemory : uint64 (networkBytes 8 a.toNat).reverse = a := by
    rw [uint64, littleEndian_reverse, bigEndian_networkBytes, Nat.mod_eq_of_lt ha,
      UInt64.ofNat_toNat]
  have hlen : (networkBytes 8 a.toNat).reverse.length = 8 := by
    rw [List.length_reverse, length_networkBytes]
  have hnat := toNat_ntohll_uint64 hlen
  rw [hmemory] at hnat
  have hbytes := networkBytes_bigEndian (networkBytes 8 a.toNat).reverse
  rw [hlen] at hbytes
  rw [hnat, hbytes]

theorem networkBytes_inj {a b : UInt64} (h : networkBytes 8 a.toNat = networkBytes 8 b.toNat) :
    a = b := by
  have ha : a.toNat < 256 ^ 8 := a.toNat_lt
  have hb : b.toNat < 256 ^ 8 := b.toNat_lt
  have hnat := congrArg bigEndian h
  rw [bigEndian_networkBytes, bigEndian_networkBytes, Nat.mod_eq_of_lt ha, Nat.mod_eq_of_lt hb]
    at hnat
  exact UInt64.toNat_inj.mp hnat

theorem ntohll_ntohll (a : UInt64) : ntohll (ntohll a) = a := by
  apply networkBytes_inj
  rw [networkBytes_ntohll, networkBytes_ntohll, List.reverse_reverse]

def headerBytes (type : UInt32) (handle : Handle) (offset : UInt64) (len : UInt32) : Bytes :=
  networkBytes 4 requestMagic.toNat ++ (networkBytes 4 type.toNat ++
    (handle.toList ++ (networkBytes 8 offset.toNat ++ networkBytes 4 len.toNat)))

def commandKey : Nat → FactoryKey
  | 0 => .read
  | 1 => .write
  | 2 => .disconnect
  | 3 => .flush
  | 4 => .trim
  | _ => .badRequest

structure Decoded (type : UInt32) (handle : Handle) (offset : UInt64) (len : UInt32)
    (data : DriverData) : Prop where
  handler : data.handler = handle
  status : data.status = 0
  key : data.key = commandKey type.toNat
  range : type = 0 ∨ type = 1 → data.offset = offset ∧ data.len = len

variable {type : UInt32} {handle : Handle} {offset : UInt64} {len : UInt32}

theorem length_headerBytes : (headerBytes type handle offset len).length = requestSize := by
  simp only [headerBytes, List.length_append, length_networkBytes, Vector.length_toList]
  rfl

theorem ofBytes_headerBytes : NbdRequest.ofBytes (headerBytes type handle offset len) =
    ⟨ntohl requestMagic, uint32 (networkBytes 4 type.toNat), handle,
      uint64 (networkBytes 8 offset.toNat), uint32 (networkBytes 4 len.toNat)⟩ := by
  have hmagic : uint32 (networkBytes 4 requestMagic.toNat) = ntohl requestMagic := by decide
  rw [headerBytes, ofBytes_append _ _ _ _ _ (by simp) (by simp) (by simp) (by simp) (by simp),
    hmagic, handleOf_toList]

theorem readHeader_whole
    (hwhole : (readSocket requestSize socket).1 = headerBytes type handle offset len) :
    readHeader socket =
      (⟨ntohl requestMagic, uint32 (networkBytes 4 type.toNat), handle,
        uint64 (networkBytes 8 offset.toNat), uint32 (networkBytes 4 len.toNat)⟩,
        (readSocket requestSize socket).2) := by
  have hheader : readHeader socket = (.ofBytes ((readSocket requestSize socket).1 ++
      zeros (requestSize - (readSocket requestSize socket).1.length)),
        (readSocket requestSize socket).2) := rfl
  have hnone : headerBytes type handle offset len ++ zeros (requestSize - requestSize) =
      headerBytes type handle offset len := List.append_nil _
  rw [hheader, hwhole, length_headerBytes, hnone, ofBytes_headerBytes]

theorem decoded_of_receiveSocket
    (hwhole : (readSocket requestSize socket).1 = headerBytes type handle offset len)
    (h : receiveSocket fresh socket = .ok (data, rest)) : Decoded type handle offset len data := by
  rw [receiveSocket, readHeader_whole hwhole] at h
  simp only [ne_eq, not_true_eq_false, ↓reduceIte, ntohl_networkBytes, ntohll_networkBytes] at h
  have hrange : type = 0 ∨ type = 1 → type.toNat = 0 ∨ type.toNat = 1 := by
    rintro (rfl | rfl)
    · exact .inl rfl
    · exact .inr rfl
  split at h
  · rename_i htype
    cases h
    exact ⟨rfl, rfl, by rw [htype]; rfl, fun _ => ⟨rfl, rfl⟩⟩
  · rename_i htype
    split at h
    · cases h
    · cases h
      exact ⟨rfl, rfl, by rw [htype]; rfl, fun _ => ⟨rfl, rfl⟩⟩
  · rename_i htype
    cases h
    exact ⟨rfl, rfl, by rw [htype]; rfl, fun h => by have h := hrange h; omega⟩
  · rename_i htype
    cases h
    exact ⟨rfl, rfl, by rw [htype]; rfl, fun h => by have h := hrange h; omega⟩
  · rename_i htype
    cases h
    exact ⟨rfl, rfl, by rw [htype]; rfl, fun h => by have h := hrange h; omega⟩
  · rename_i h0 h1 h2 h3 h4
    cases h
    refine ⟨rfl, rfl, ?_, fun h => (hrange h).elim (absurd · h0) (absurd · h1)⟩
    rw [commandKey]
    · exact h0
    all_goals assumption

theorem exists_receiveSocket (hne : ∀ piece ∈ socket, piece ≠ [])
    (hwhole : (readSocket requestSize socket).1 = headerBytes type handle offset len)
    (hpayload : type = 1 → len.toNat ≤ (readSocket requestSize socket).2.flatten.length)
    (fresh : Fresh) : ∃ data rest, receiveSocket fresh socket = .ok (data, rest) := by
  rw [receiveSocket, readHeader_whole hwhole]
  simp only [ne_eq, not_true_eq_false, ↓reduceIte, ntohl_networkBytes, ntohll_networkBytes]
  split
  · exact ⟨_, _, rfl⟩
  · rename_i htype
    obtain rfl : type = 1 := UInt32.toNat_inj.mp htype
    obtain ⟨rest, hread⟩ := exists_readAllSocket
      ((readSocket_consumed requestSize socket).ne_nil hne) (hpayload rfl)
    rw [hread]
    exact ⟨_, _, rfl⟩
  all_goals exact ⟨_, _, rfl⟩

/-- For any fields of a header that comes whole: what `ReceiveRequest` returns has them, and it
returns, for a `WRITE` once the payload is there. The conversion of the offset reverses all eight
bytes, and is its own inverse. -/
theorem receiveSocket_decodes (hne : ∀ piece ∈ socket, piece ≠ [])
    (hwhole : (readSocket requestSize socket).1 = headerBytes type handle offset len)
    (fresh : Fresh) :
    (∀ data rest, receiveSocket fresh socket = .ok (data, rest) →
      Decoded type handle offset len data) ∧
    ((type = 1 → len.toNat ≤ (readSocket requestSize socket).2.flatten.length) →
      ∃ data rest, receiveSocket fresh socket = .ok (data, rest)) ∧
    ∀ a, networkBytes 8 (ntohll a).toNat = (networkBytes 8 a.toNat).reverse ∧
      ntohll (ntohll a) = a :=
  ⟨fun _ _ => decoded_of_receiveSocket hwhole,
    fun hpayload => exists_receiveSocket hne hwhole hpayload fresh,
    fun a => ⟨networkBytes_ntohll a, ntohll_ntohll a⟩⟩

theorem receiveSocket_decodes_write : ∃ data rest,
    receiveSocket ⟨⟨0, 0, .replicate 8 0, 0, .read, 5, []⟩, fun _ => 0⟩
      [headerBytes 1 (.replicate 8 9) 4096 1 ++ [7]] = .ok (data, rest) ∧
      Decoded 1 (.replicate 8 9) 4096 1 data := by
  have hne : ∀ piece ∈ [headerBytes 1 (.replicate 8 9) 4096 1 ++ [7]], piece ≠ [] := by
    intro piece hpiece
    obtain rfl := List.mem_singleton.mp hpiece
    exact List.append_ne_nil_of_right_ne_nil _ (List.cons_ne_nil _ _)
  have hwhole : (readSocket requestSize [headerBytes 1 (.replicate 8 9) 4096 1 ++ [7]]).1 =
      headerBytes 1 (.replicate 8 9) 4096 1 := by decide
  obtain ⟨hdecoded, hreturns, -⟩ := receiveSocket_decodes hne hwhole
    ⟨⟨0, 0, .replicate 8 0, 0, .read, 5, []⟩, fun _ => 0⟩
  obtain ⟨data, rest, h⟩ := hreturns fun _ => by decide
  exact ⟨data, rest, h, hdecoded data rest h⟩

end GreenCloud.NBDDriverProxy
