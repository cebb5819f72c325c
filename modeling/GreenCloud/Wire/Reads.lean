import GreenCloud.Wire.Codec

/-! Which datagrams the two parsers read without a read outside their receive buffers. -/

namespace GreenCloud.Wire

open CLib

/-- Three `;`, and for a `WRITE`, which the `1` behind them asks for, a byte of the buffer behind
the three that `GetReqKey` skips. -/
def RequestInside (datagram : Bytes) : Prop :=
  ∃ offset len id rest, SlaveDriverProxy.recvBuffer datagram =
      offset ++ sep :: (len ++ sep :: (id ++ sep :: rest)) ∧
    sep ∉ offset ∧ sep ∉ len ∧ sep ∉ id ∧ (rest.head? = some 49 → 3 < rest.length)

theorem slave_getLast? (datagram : Bytes) :
    (SlaveDriverProxy.recvBuffer datagram).getLast? = some 0 := by
  have hpos : 0 < buffSize + 1 - min buffSize datagram.length := by omega
  have hne : zeros (buffSize + 1 - min buffSize datagram.length) ≠ [] := by
    rw [eq_zeros_cons hpos]
    exact List.cons_ne_nil _ _
  rw [SlaveDriverProxy.recvBuffer, receive, List.getLast?_append_of_ne_nil _ hne, zeros,
    List.getLast?_replicate, if_neg (by omega)]

theorem getLast?_behind {s p : Bytes} (h : (s ++ sep :: p).getLast? = some 0) :
    p.getLast? = some 0 := by
  cases p with
  | nil =>
    rw [List.getLast?_concat] at h
    cases h
  | cons c p =>
    rw [List.getLast?_append_of_ne_nil _ (by simp), List.getLast?_cons_cons] at h
    exact h

theorem scanEnd_terminated {p : Bytes} (h : p.getLast? = some 0) : scanEnd p ≠ [] :=
  scanEnd_ne_nil (List.mem_of_getLast? h)

variable {p : Bytes}

/-- A number that begins before the terminator is read inside, so a field parser fails only in its
search for the `;`. -/
theorem getSizeT_eq (h : p.getLast? = some 0) :
    ∃ l, SlaveDriverProxy.getSizeT p = (skipPast sep p).map fun t => (l, t) := by
  obtain ⟨⟨l, rest⟩, hl⟩ := Option.isSome_iff_exists.mp
    ((strtoul_isSome p).mpr (scanEnd_terminated h))
  refine ⟨l, ?_⟩
  simp only [SlaveDriverProxy.getSizeT, hl, SlaveDriverProxy.getNextParse]
  cases skipPast sep p <;> rfl

theorem getUint_eq (h : p.getLast? = some 0) :
    ∃ ui, SlaveDriverProxy.getUint p = (skipPast sep p).map fun t => (ui, t) := by
  obtain ⟨⟨l, rest⟩, hl⟩ := Option.isSome_iff_exists.mp
    ((strtoul_isSome p).mpr (scanEnd_terminated h))
  refine ⟨l.toUInt32, ?_⟩
  simp only [SlaveDriverProxy.getUint, hl, SlaveDriverProxy.getNextParse]
  cases skipPast sep p <;> rfl

theorem getInt_eq (h : p.getLast? = some 0) :
    ∃ i, SlaveDriverProxy.getInt p = (skipPast sep p).map fun t => (i, t) := by
  obtain ⟨⟨l, rest⟩, hl⟩ := Option.isSome_iff_exists.mp
    ((strtoul_isSome p).mpr (scanEnd_terminated h))
  refine ⟨l.toUInt32.toInt32, ?_⟩
  simp only [SlaveDriverProxy.getInt, hl, SlaveDriverProxy.getNextParse]
  cases skipPast sep p <;> rfl

theorem parseHeader_inside (h : p.getLast? = some 0) (hoffset : skipPast sep p = some q)
    (hlen : skipPast sep q = some r) (hid : skipPast sep r = some (c :: rest)) :
    ∃ header, SlaveDriverProxy.parseHeader p = some (header, (c :: rest).drop 3) ∧
      header.key = .ofChar c := by
  obtain ⟨s, -, rfl⟩ := skipPast_eq_some.mp hoffset
  have hq := getLast?_behind h
  obtain ⟨s', -, rfl⟩ := skipPast_eq_some.mp hlen
  have hr := getLast?_behind hq
  obtain ⟨l, hl⟩ := getSizeT_eq h
  obtain ⟨ui, hui⟩ := getUint_eq hq
  obtain ⟨i, hi⟩ := getInt_eq hr
  refine ⟨⟨l, ui, i, .ofChar c⟩, ?_, rfl⟩
  simp only [SlaveDriverProxy.parseHeader, hl, hui, hi, hoffset, hlen, hid, Option.map_some,
    Option.bind_eq_bind, Option.bind_some, SlaveDriverProxy.getReqKey, List.head?_cons]
  rfl

theorem parseHeader_outside (h : p.getLast? = some 0)
    (hparse : SlaveDriverProxy.parseHeader p = some parsed) :
    ∃ q r c rest, skipPast sep p = some q ∧ skipPast sep q = some r ∧
      skipPast sep r = some (c :: rest) := by
  obtain ⟨l, hl⟩ := getSizeT_eq h
  cases hoffset : skipPast sep p with
  | none => simp [SlaveDriverProxy.parseHeader, hl, hoffset] at hparse
  | some q =>
    obtain ⟨s, -, rfl⟩ := skipPast_eq_some.mp hoffset
    have hq := getLast?_behind h
    obtain ⟨ui, hui⟩ := getUint_eq hq
    cases hlen : skipPast sep q with
    | none => simp [SlaveDriverProxy.parseHeader, hl, hui, hoffset, hlen] at hparse
    | some r =>
      obtain ⟨s', -, rfl⟩ := skipPast_eq_some.mp hlen
      have hr := getLast?_behind hq
      obtain ⟨i, hi⟩ := getInt_eq hr
      cases hid : skipPast sep r with
      | none => simp [SlaveDriverProxy.parseHeader, hl, hui, hi, hoffset, hlen, hid] at hparse
      | some key =>
        obtain ⟨s'', -, rfl⟩ := skipPast_eq_some.mp hid
        have hkey := getLast?_behind hr
        cases key with
        | nil => cases hkey
        | cons c rest => exact ⟨_, _, c, rest, rfl, hlen, hid⟩

theorem signed_eq_iff (c d : UInt8) : c.toInt8.toInt = d.toInt8.toInt ↔ c = d :=
  ⟨fun h => congrArg Int8.toUInt8 (Int8.toInt_inj.mp h), fun h => by rw [h]⟩

theorem ofChar_eq_iff (c d : UInt8) : FactoryKey.ofChar c = .ofChar d ↔ c = d := by
  constructor
  · intro h
    have hvalue := congrArg FactoryKey.value h
    rw [FactoryKey.ofChar, FactoryKey.ofChar, FactoryKey.value_ofInt, FactoryKey.value_ofInt]
      at hvalue
    exact (signed_eq_iff c d).mp (by omega)
  · rintro rfl
    rfl

theorem ofChar_eq_write (c : UInt8) : FactoryKey.ofChar c = .write ↔ c = 49 := ofChar_eq_iff c 49

theorem ofChar_eq_read (c : UInt8) : FactoryKey.ofChar c = .read ↔ c = 48 := ofChar_eq_iff c 48

theorem receiveRequest_isSome_iff (fresh : Fresh) (datagram : Bytes) :
    (SlaveDriverProxy.receiveRequest fresh datagram).isSome ↔ RequestInside datagram := by
  have hend := slave_getLast? datagram
  constructor
  · intro hsome
    cases hparse : SlaveDriverProxy.parseHeader (SlaveDriverProxy.recvBuffer datagram) with
    | none => simp [SlaveDriverProxy.receiveRequest, hparse] at hsome
    | some parsed =>
      obtain ⟨q, r, c, rest, hoffset, hlen, hid⟩ := parseHeader_outside hend hparse
      obtain ⟨header, hinside, hkey⟩ := parseHeader_inside hend hoffset hlen hid
      obtain ⟨s, hs, heq⟩ := skipPast_eq_some.mp hoffset
      obtain ⟨s', hs', rfl⟩ := skipPast_eq_some.mp hlen
      obtain ⟨s'', hs'', rfl⟩ := skipPast_eq_some.mp hid
      refine ⟨s, s', s'', c :: rest, heq, hs, hs', hs'', ?_⟩
      rintro ⟨⟩
      by_contra hshort
      have hnil : (49 :: rest).drop 3 = [] := List.drop_eq_nil_iff.mpr (by omega)
      obtain ⟨offset, len, rid, key⟩ := header
      obtain rfl : key = .write := hkey.trans ((ofChar_eq_write 49).mpr rfl)
      rw [hnil] at hinside
      rw [receiveRequest_of_write offset len rid fresh hinside, strcpy_eq_none_of_cstr rfl] at hsome
      cases hsome
  · rintro ⟨s, s', s'', key, heq, hs, hs', hs'', hwrite⟩
    have hkey : key.getLast? = some 0 := by
      rw [heq] at hend
      exact getLast?_behind (getLast?_behind (getLast?_behind hend))
    cases key with
    | nil => cases hkey
    | cons c rest =>
      obtain ⟨⟨offset, len, rid, key⟩, hinside, hc⟩ := parseHeader_inside hend
        (skipPast_eq_some.mpr ⟨s, hs, heq⟩) (skipPast_append hs' _) (skipPast_append hs'' _)
      by_cases hkeyWrite : key = .write
      · subst hkeyWrite
        have hshort := hwrite (congrArg some ((ofChar_eq_write c).mp hc.symm))
        have hnul : 0 ∈ (c :: rest).drop 3 := by
          apply List.mem_of_getLast?
          rw [List.getLast?_drop, if_neg (by omega)]
          exact hkey
        have hlen : ((c :: rest).drop 3).length ≤ buffSize + 1 := by
          have hsize : (SlaveDriverProxy.recvBuffer datagram).length = buffSize + 1 :=
            length_receive (Nat.le_succ _) datagram
          rw [heq] at hsize
          simp only [List.length_append, List.length_cons, List.length_drop] at hsize ⊢
          omega
        obtain ⟨buff, hcopy, -⟩ := exists_strcpy_recvBuffer hnul hlen fresh.block
        rw [receiveRequest_of_write offset len rid fresh hinside, hcopy]
        rfl
      · rw [receiveRequest_of_ne_write offset len rid fresh hkeyWrite hinside]
        rfl

/-- Both numbers end in the buffer, and where the id is that of a request: there is a byte for the
key behind the id, and for a `READ`, which is a `0`, a NUL behind the three that are skipped. -/
def ReplyInside (table : PendingTable) (p : Bytes) : Prop :=
  ∃ len runner rid runner', strtoul p = some (len, runner) ∧
    strtol (runner.drop 1) = some (rid, runner') ∧
    (table.idToHandler rid.toInt32 = none ∨
      ∃ c rest, runner'.drop 1 = c :: rest ∧ (c = 48 → 0 ∈ runner'.drop 4))

theorem advance_one_bind (p : Bytes) : (advance 1 p).bind strtol = strtol (p.drop 1) := by
  cases p <;> rfl

theorem parseReply_eq (h : strtoul p = some (len, runner)) :
    SlaveGateway.parseReply p =
      (strtol (runner.drop 1)).map fun (rid, runner') => (len.toUInt32, rid.toInt32, runner') := by
  simp only [SlaveGateway.parseReply, h, Option.bind_eq_bind, Option.bind_some,
    ← advance_one_bind]
  cases advance 1 runner with
  | none => rfl
  | some q =>
    cases hrid : strtol q with
    | none => simp [hrid]
    | some found => simp [hrid]

theorem parseKey_eq (p : Bytes) :
    SlaveGateway.parseKey p = (p.drop 1).head?.map FactoryKey.ofChar := by
  cases p with
  | nil => rfl
  | cons c p => cases p <;> rfl

theorem readMessage_isSome (fresh : Fresh) (hlen : p.length ≤ buffSize) :
    (SlaveGateway.readMessage fresh p).isSome ↔ 0 ∈ p.drop 4 := by
  constructor
  · intro hsome
    by_contra hnul
    have hnone : cstr (p.drop 4) = none := cstr_eq_none.mpr hnul
    rw [SlaveGateway.readMessage, advance] at hsome
    cases hs : cstr p with
    | none => simp [hs] at hsome
    | some s =>
      split at hsome
      · simp [hs, strcpy_eq_none_of_cstr hnone] at hsome
      · simp [hs] at hsome
  · intro hnul
    obtain ⟨s, hs, -⟩ := exists_cstr (List.drop_subset 4 p hnul)
    have hfour : 4 ≤ p.length := by
      have hpos := List.length_pos_of_mem hnul
      rw [List.length_drop] at hpos
      omega
    have hshort : (p.drop 4).length ≤ buffSize + 1 := by
      rw [List.length_drop]
      omega
    obtain ⟨buff, hcopy, -⟩ := exists_strcpy_recvBuffer hnul hshort fresh.block
    simp [SlaveGateway.readMessage, hs, advance, hfour, hcopy]

theorem createDataFromBuff_behind (fresh : Fresh) {table : PendingTable} {runner : Bytes}
    (hparse : SlaveGateway.parseReply p = some (len, rid, runner)) (hlen : runner.length ≤ buffSize) :
    SlaveGateway.createDataFromBuff fresh table p ≠ .error .fault ↔
      table.idToHandler rid = none ∨
        ∃ c rest, runner.drop 1 = c :: rest ∧ (c = 48 → 0 ∈ runner.drop 4) := by
  cases hid : table.idToHandler rid with
  | none => simp [SlaveGateway.createDataFromBuff_exit hparse hid]
  | some found =>
    obtain ⟨handler, table'⟩ := found
    have hkey := parseKey_eq runner
    cases hrunner : runner.drop 1 with
    | nil =>
      rw [hrunner] at hkey
      simp [SlaveGateway.createDataFromBuff, hparse, hid, hkey]
    | cons c rest =>
      rw [hrunner] at hkey
      have hkey : SlaveGateway.parseKey runner = some (.ofChar c) := hkey
      by_cases hread : c = 48
      · rw [(ofChar_eq_read c).mpr hread] at hkey
        rw [SlaveGateway.createDataFromBuff_read hparse hid hkey, ← readMessage_isSome fresh hlen]
        cases hmessage : SlaveGateway.readMessage fresh runner <;> simp [hread]
      · have hne : FactoryKey.ofChar c ≠ .read := mt (ofChar_eq_read c).mp hread
        rw [SlaveGateway.createDataFromBuff_write hparse hid hkey hne]
        simp [hread]

theorem createDataFromBuff_ne_fault_iff (fresh : Fresh) (table : PendingTable)
    (hlen : p.length ≤ buffSize) :
    SlaveGateway.createDataFromBuff fresh table p ≠ .error .fault ↔ ReplyInside table p := by
  cases hnumber : strtoul p with
  | none =>
    have hfault : SlaveGateway.createDataFromBuff fresh table p = .error .fault := by
      simp [SlaveGateway.createDataFromBuff, SlaveGateway.parseReply, hnumber]
    simp [ReplyInside, hfault, hnumber]
  | some found =>
    obtain ⟨len, runner⟩ := found
    have hparse := parseReply_eq hnumber
    cases hid : strtol (runner.drop 1) with
    | none =>
      have hfault : SlaveGateway.createDataFromBuff fresh table p = .error .fault := by
        rw [hid] at hparse
        simp [SlaveGateway.createDataFromBuff, hparse]
      refine ⟨fun h => absurd hfault h, ?_⟩
      rintro ⟨len', runner', rid, runner'', hnumber', hid', -⟩
      rw [hnumber] at hnumber'
      cases hnumber'
      rw [hid] at hid'
      cases hid'
    | some found =>
      obtain ⟨rid, runner'⟩ := found
      rw [hid] at hparse
      have hshort : runner'.length ≤ buffSize :=
        calc runner'.length
          _ ≤ (runner.drop 1).length := strtol_length hid
          _ ≤ runner.length := (List.drop_sublist 1 runner).length_le
          _ ≤ p.length := strtoul_length hnumber
          _ ≤ buffSize := hlen
      rw [createDataFromBuff_behind fresh hparse hshort]
      constructor
      · intro h
        exact ⟨len, runner, rid, runner', hnumber, hid, h⟩
      · rintro ⟨_, _, _, _, hnumber', hid', h⟩
        rw [hnumber] at hnumber'
        cases hnumber'
        rw [hid] at hid'
        cases hid'
        exact h

/-- For every datagram, and whatever a failed `recvfrom` is taken for: the two parsers read only
inside their buffers exactly where the fields they look for are there. -/
theorem parsers_inside_iff (fresh : Fresh) (table : PendingTable) (datagram : Bytes) :
    ((SlaveDriverProxy.receiveRequest fresh datagram).isSome ↔ RequestInside datagram) ∧
    (SlaveGateway.createDataFromBuff fresh table (SlaveGateway.recvBuffer datagram) ≠
        .error .fault ↔ ReplyInside table (SlaveGateway.recvBuffer datagram)) := by
  have hlen : (SlaveGateway.recvBuffer datagram).length ≤ buffSize :=
    Nat.le_of_eq (length_receive (Nat.le_refl _) datagram)
  exact ⟨receiveRequest_isSome_iff fresh datagram, createDataFromBuff_ne_fault_iff fresh table hlen⟩

/-- The empty datagram leads the slave out of its buffer, and one of 4136 digits the master. -/
theorem not_parsers_inside_empty :
    (∀ fresh, (SlaveDriverProxy.receiveRequest fresh []).isSome = false) ∧
    ∀ fresh table, SlaveGateway.createDataFromBuff fresh table
      (SlaveGateway.recvBuffer (List.replicate buffSize 49)) = .error .fault := by
  constructor
  · intro fresh
    rw [← Bool.not_eq_true, receiveRequest_isSome_iff]
    rintro ⟨offset, len, id, rest, heq, -⟩
    have hmem : sep ∈ SlaveDriverProxy.recvBuffer [] := by
      rw [heq]
      simp
    have hzero : sep ∈ zeros (buffSize + 1) := hmem
    exact absurd (List.eq_of_mem_replicate hzero) (by decide)
  · intro fresh table
    have hbuffer : SlaveGateway.recvBuffer (List.replicate buffSize 49) =
        List.replicate buffSize 49 := by
      simp [SlaveGateway.recvBuffer, receive, zeros]
    have hnone : strtoul (List.replicate buffSize 49) = none := by
      rw [← Option.not_isSome_iff_eq_none, strtoul_isSome, not_not]
      apply scanEnd_digits
      intro c hc
      rw [List.eq_of_mem_replicate hc]
      rfl
    rw [hbuffer]
    simp only [SlaveGateway.createDataFromBuff, SlaveGateway.parseReply, hnone]
    rfl

end GreenCloud.Wire
