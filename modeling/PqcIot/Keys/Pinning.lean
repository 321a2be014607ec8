import PqcIot.Crypto.Constant
import PqcIot.Keys.Der
import PqcIot.Protocol.ClientHello
import PqcIot.Server.Rules

/-!
# The pinned key

`parse_spki` of `pin_server_key.py`, which walks the DER of the server's public key, against
`MlKemPrivateKey.__init__` and `raw_public_from_der` of `pqc_server.py`, which cut off its tail.
They agree on every key of the three parameter sets (`pinned_key_agrees`), so that the server holds
the key identifier that a client pins.
-/

namespace PqcIot

open Effects Protocol

namespace Keys

/-- What a script ends with. -/
inductive ScriptError where
  /-- `sys.exit`, `SystemExit`. -/
  | exit (message : String)
  | indexError
  deriving DecidableEq, Repr

/-! ## The pinning tool -/

/-- `buf[i]`. -/
def byteAt (buf : List UInt8) (i : ℕ) : Except ScriptError UInt8 :=
  match buf[i]? with
  | some b => .ok b
  | none => .error .indexError

/-- `read_len`: a length, and where it ends. -/
def readLen (buf : List UInt8) (i : ℕ) : Except ScriptError (ℕ × ℕ) := do
  let n ← byteAt buf i
  let i := i + 1
  if n < 0x80 then
    return (n.toNat, i)
  else
    let count := (n &&& 0x7F).toNat
    return (beNat (slice i count buf), i + count)

/-- `parse_spki`. -/
def parseSpki (der : List UInt8) (expectedLen : ℤ) : Except ScriptError (List UInt8) := do
  let i := 0
  if (← byteAt der i) ≠ 0x30 then
    .error (.exit "not a DER SEQUENCE - unexpected public key format")
  else
    let (_, i) ← readLen der (i + 1)
    if (← byteAt der i) ≠ 0x30 then
      .error (.exit "expected AlgorithmIdentifier SEQUENCE")
    else
      let (algLen, i) ← readLen der (i + 1)
      let i := i + algLen
      if (← byteAt der i) ≠ 0x03 then
        .error (.exit "expected BIT STRING holding the public key")
      else
        let (bitsLen, i) ← readLen der (i + 1)
        let unused ← byteAt der i
        if unused ≠ 0 then
          .error (.exit s!"BIT STRING has {unused} unused bits, expected 0")
        else
          let raw := slice (i + 1) (bitsLen - 1) der
          if (raw.length : ℤ) ≠ expectedLen then
            .error (.exit (s!"public key is {raw.length} bytes, expected {expectedLen} - " ++
              "wrong ML-KEM parameter set?"))
          else
            return raw

/-- The choices of `--level`. -/
inductive PinLevel where
  | l512
  | l768
  | l1024
  deriving DecidableEq, Repr

/-- `RAW_PUBKEY_BYTES`. -/
def rawPubkeyBytes : PinLevel → ℕ
  | .l512 => 800
  | .l768 => 1184
  | .l1024 => 1568

/-- What `main` writes into the header: the key and `SERVER_KEY_ID`. -/
structure PinnedKey where
  raw : List UInt8
  keyId : List UInt8

variable (P : Prims UInt8)

/-- The part of `main` between the two files. -/
def pinServerKey (level : PinLevel) (der : List UInt8) : Except ScriptError PinnedKey := do
  let raw ← parseSpki der (rawPubkeyBytes level)
  return ⟨raw, (P.sha256 raw).take 4⟩

/-! ## The server -/

/-- `MlKemPrivateKey.__init__`, from the DER on. -/
def mlKemPrivateKey (der : List UInt8) : Except ScriptError (Server.PrivateKey UInt8) :=
  match [800, 1184, 1568].find? fun rawLen => der.length == rawLen + 22 with
  | some rawLen =>
    let rawPublic := der.drop (der.length - rawLen)
    .ok { rawPublic, keyId := (P.sha256 rawPublic).take 4 }
  | none => .error (.exit s!"unexpected public key DER length {der.length}")

/-! ## Walking the DER -/

section Walk

variable {buf octets : List UInt8} {i n : ℕ} (before rest : List UInt8)

private theorem byteAt_of_eq {b : UInt8} (hbuf : buf = before ++ b :: rest)
    (hi : i = before.length) : byteAt buf i = .ok b := by
  rw [byteAt, hbuf, hi, List.getElem?_append_right le_rfl, Nat.sub_self]
  rfl

/-- The number of octets is what the low bits of the first one say. -/
private theorem longForm {k : ℕ} (hk : k ≤ 126) :
    ¬ UInt8.ofNat (128 + k) < 0x80 ∧ (UInt8.ofNat (128 + k) &&& 0x7F).toNat = k := by
  have hall : ∀ k < 127, ¬ UInt8.ofNat (128 + k) < 0x80 ∧
      (UInt8.ofNat (128 + k) &&& 0x7F).toNat = k := by decide
  exact hall k (by omega)

/-- `read_len` reads a length in either form, and stops where it ends. -/
theorem readLen_of_eq (hoctets : Der.lengthOctets n = some octets)
    (hbuf : buf = before ++ octets ++ rest) (hi : i = before.length) :
    readLen buf i = .ok (n, i + octets.length) := by
  -- The short form, and the long one.
  rcases Der.lengthOctets_cases hoctets with ⟨hn, rfl⟩ | ⟨-, hwidth, rfl⟩
  · have hbyte : byteAt buf i = .ok (UInt8.ofNat n) :=
      byteAt_of_eq before _ (by rw [hbuf, List.append_assoc]; rfl) hi
    have hshort : UInt8.ofNat n < 0x80 := by
      rw [UInt8.lt_iff_toNat_lt, UInt8.toNat_ofNat']
      exact (Nat.mod_le _ _).trans_lt hn
    have hval : (UInt8.ofNat n).toNat = n := by
      rw [UInt8.toNat_ofNat']
      omega
    simp only [readLen, hbyte, bind, Except.bind, if_pos hshort, hval, List.length_singleton]
    rfl
  · set count := Der.width n
    obtain ⟨hlong, hcount⟩ := longForm hwidth
    have hbyte : byteAt buf i = .ok (UInt8.ofNat (128 + count)) :=
      byteAt_of_eq before _ (by rw [hbuf, List.append_assoc]; rfl) hi
    have hslice : slice (i + 1) count buf = beBytes count n := by
      rw [hbuf, List.append_cons]
      exact slice_append_append (by simp [hi]) (length_beBytes _ _)
    have hspell : beNat (beBytes count n) = n := beNat_beBytes_of_lt (Der.lt_pow_width n)
    simp only [readLen, hbyte, bind, Except.bind, if_neg hlong, hcount, hslice, hspell,
      List.length_cons, length_beBytes]
    exact congrArg Except.ok (by rw [Nat.add_right_comm, Nat.add_assoc])

/-- `parse_spki` finds the raw key, and compares its length. -/
theorem parseSpki_spki {algorithm raw der : List UInt8} (hder : Der.spki algorithm raw = some der)
    (n : ℤ) : parseSpki der n =
      if (raw.length : ℤ) ≠ n then
        .error (.exit (s!"public key is {raw.length} bytes, expected {n} - " ++
          "wrong ML-KEM parameter set?"))
      else .ok raw := by
  simp only [Der.spki, Option.bind_eq_bind, Option.bind_eq_some_iff] at hder
  obtain ⟨identifier, hidentifier, key, hkey, hder⟩ := hder
  obtain ⟨outerLen, houterLen, rfl⟩ := Der.tlv_eq_some hder
  obtain ⟨algLen, halgLen, rfl⟩ := Der.tlv_eq_some hidentifier
  obtain ⟨bitsLen, hbitsLen, rfl⟩ := Der.tlv_eq_some hkey
  set der := 0x30 :: outerLen ++ (0x30 :: algLen ++ algorithm ++ (0x03 :: bitsLen ++ 0 :: raw))
    with hder
  set key := 0x03 :: bitsLen ++ 0 :: raw with hkey
  set identifier := 0x30 :: algLen ++ algorithm with hidentifier
  -- The tags, the lengths and the unused bits, each behind what comes before it.
  have htag₁ : byteAt der 0 = .ok 0x30 := byteAt_of_eq [] _ rfl rfl
  have hlen₁ : readLen der 1 = .ok ((identifier ++ key).length, 1 + outerLen.length) :=
    readLen_of_eq [0x30] (identifier ++ key) houterLen rfl rfl
  set i₁ := 1 + outerLen.length with hi₁
  have htag₂ : byteAt der i₁ = .ok 0x30 :=
    byteAt_of_eq (0x30 :: outerLen) (algLen ++ algorithm ++ key) rfl
      (by simp only [List.length_cons]; omega)
  have hlen₂ : readLen der (i₁ + 1) = .ok (algorithm.length, i₁ + 1 + algLen.length) :=
    readLen_of_eq (0x30 :: outerLen ++ [0x30]) (algorithm ++ key) halgLen
      (by simp [hder, hidentifier])
      (by simp only [List.length_append, List.length_cons, List.length_nil]; omega)
  set i₂ := i₁ + 1 + algLen.length + algorithm.length with hi₂
  have htag₃ : byteAt der i₂ = .ok 0x03 :=
    byteAt_of_eq (0x30 :: outerLen ++ identifier) (bitsLen ++ 0 :: raw) (by simp [hder, hkey])
      (by simp only [hidentifier, List.length_append, List.length_cons]; omega)
  have hlen₃ : readLen der (i₂ + 1) = .ok ((0 :: raw).length, i₂ + 1 + bitsLen.length) :=
    readLen_of_eq (0x30 :: outerLen ++ identifier ++ [0x03]) (0 :: raw) hbitsLen
      (by simp [hder, hkey])
      (by simp only [hidentifier, List.length_append, List.length_cons, List.length_nil]; omega)
  set i₃ := i₂ + 1 + bitsLen.length with hi₃
  have hunused : byteAt der i₃ = .ok 0 :=
    byteAt_of_eq (0x30 :: outerLen ++ identifier ++ (0x03 :: bitsLen)) raw (by simp [hder, hkey])
      (by simp only [hidentifier, List.length_append, List.length_cons]; omega)
  have hraw : slice (i₃ + 1) ((0 :: raw).length - 1) der = raw := by
    have hsplit : der = 0x30 :: outerLen ++ identifier ++ (0x03 :: bitsLen) ++ [0] ++ raw := by
      simp [hder, hkey]
    rw [hsplit]
    refine slice_append ?_ rfl
    simp only [hidentifier, List.length_append, List.length_cons, List.length_nil]
    omega
  simp only [parseSpki, htag₁, hlen₁, htag₂, hlen₂, htag₃, hlen₃, hunused, hraw, bind, Except.bind,
    ne_eq, not_true_eq_false, if_false, Nat.zero_add, ← hi₂]
  rfl

end Walk

/-! ## Agreement -/

/-- The raw key is the tail of the DER. -/
theorem spki_suffix {algorithm raw der : List UInt8} (hder : Der.spki algorithm raw = some der) :
    raw <:+ der := by
  simp only [Der.spki, Option.bind_eq_bind, Option.bind_eq_some_iff] at hder
  obtain ⟨identifier, -, key, hkey, hder⟩ := hder
  obtain ⟨outerLen, -, rfl⟩ := Der.tlv_eq_some hder
  obtain ⟨bitsLen, -, rfl⟩ := Der.tlv_eq_some hkey
  exact ⟨0x30 :: outerLen ++ identifier ++ 0x03 :: bitsLen ++ [0], by simp⟩

/-- An algorithm identifier of 13 bytes makes a header of 22 bytes. -/
theorem length_spki {algorithm identifier raw der : List UInt8}
    (hder : Der.spki algorithm raw = some der)
    (hidentifier : Der.tlv 0x30 algorithm = some identifier) (hlen : identifier.length = 13)
    (hlow : 255 ≤ raw.length) (hhigh : raw.length < 65500) : der.length = raw.length + 22 := by
  simp only [Der.spki, Option.bind_eq_bind, Option.bind_eq_some_iff] at hder
  obtain ⟨identifier', hidentifier', key, hkey, hder⟩ := hder
  obtain rfl := Option.some.inj (hidentifier.symm.trans hidentifier')
  have hkeyLen := Der.length_tlv_of_width_two hkey (by rw [List.length_cons]; omega)
    (by rw [List.length_cons]; omega)
  rw [List.length_cons] at hkeyLen
  have hderLen := Der.length_tlv_of_width_two hder (by rw [List.length_append]; omega)
    (by rw [List.length_append]; omega)
  rw [List.length_append] at hderLen
  omega

/-- The server finds the length of a key of the three parameter sets. -/
private theorem find_rawLen {raw der : List UInt8} (hraw : raw.length ∈ [800, 1184, 1568])
    (hlen : der.length = raw.length + 22) :
    [800, 1184, 1568].find? (fun rawLen => der.length == rawLen + 22) = some raw.length := by
  simp only [List.mem_cons, List.not_mem_nil, or_false] at hraw
  rw [hlen]
  rcases hraw with h | h | h
  · rw [h]
    rfl
  · rw [h]
    rfl
  · rw [h]
    rfl

/-- The tail of that length. -/
private theorem drop_rawLen {raw der : List UInt8} (hraw : raw <:+ der) :
    der.drop (der.length - raw.length) = raw :=
  (List.suffix_iff_eq_drop.mp hraw).symm

/-- The key that the server holds, of a DER with the usual header. -/
theorem mlKemPrivateKey_spki {algorithm identifier raw der : List UInt8}
    (hder : Der.spki algorithm raw = some der)
    (hidentifier : Der.tlv 0x30 algorithm = some identifier)
    (hlen : identifier.length = 13) (hraw : raw.length ∈ [800, 1184, 1568]) :
    mlKemPrivateKey P der = .ok ⟨raw, (P.sha256 raw).take 4⟩ := by
  have hbounds : 255 ≤ raw.length ∧ raw.length < 65500 := by
    simp only [List.mem_cons, List.not_mem_nil, or_false] at hraw
    omega
  have hfind := find_rawLen hraw (length_spki hder hidentifier hlen hbounds.1 hbounds.2)
  rw [mlKemPrivateKey, hfind]
  dsimp only
  rw [drop_rawLen (spki_suffix hder)]

/-- The parameter set of a raw key. -/
theorem exists_pinLevel {n : ℕ} (hn : n ∈ [800, 1184, 1568]) :
    ∃ level, rawPubkeyBytes level = n := by
  simp only [List.mem_cons, List.not_mem_nil, or_false] at hn
  rcases hn with rfl | rfl | rfl
  · exact ⟨.l512, rfl⟩
  · exact ⟨.l768, rfl⟩
  · exact ⟨.l1024, rfl⟩

/-- A hello with the key identifier that the server holds is not turned away for it: the server goes
on to look up the device. -/
theorem acceptHello_pinned (key : Server.PrivateKey UInt8) (suite : Suite)
    {deviceId nonce kemCt : List UInt8} (psk : List UInt8) (hd : deviceId.length = 8)
    (hk : key.keyId.length = 4) (hn : nonce.length = 32) (hc : kemCt.length = suite.params.ct)
    (payload : Payload UInt8 maxFrame)
    (hpayload : payload.1 = ClientHello.build P suite deviceId key.keyId nonce kemCt psk) :
    ∃ k, Prog.Run (Server.acceptHello P key).run
      [⟨.inl (.read maxFrame), .ok (frameClientHello, payload)⟩]
      (.op (.inr (.pskFor deviceId)) k) := by
  obtain ⟨hello, hparse, -, -, hdevice, hkeyId, -⟩ := ClientHello.parse_build P psk hd hk hn hc
  have hsame : ¬ (!Server.compareDigest hello.serverKeyId key.keyId) = true := by
    simp [Server.compareDigest, hkeyId]
  obtain ⟨q, hrun, k, rfl⟩ : ∃ q, Prog.Run (Server.acceptHello P key).run
      [⟨.inl (.read maxFrame), .ok (frameClientHello, payload)⟩] q ∧
        ∃ k, q = .op (.inr (.pskFor deviceId)) k := by
    refine ⟨_, Server.run_recvFrame (.nil _), ?_⟩
    dsimp only
    rw [if_neg (not_not.mpr rfl), hpayload, hparse, Server.Py.ofExcept_ok_bind, if_neg hsame,
      hdevice]
    exact ⟨_, rfl⟩
  exact ⟨k, hrun⟩

/-- The pinning tool and the server agree on the key. For a subject public key info of any algorithm
and key, `parse_spki` returns the key if it is of the expected length and exits otherwise. If the
algorithm identifier is of 13 bytes and the key is one of the parameter sets', the tail that the
server cuts off is the same key: it holds the key identifier that the client pins, and turns no
hello with it away. -/
theorem pinned_key_agrees {algorithm raw der : List UInt8}
    (hder : Der.spki algorithm raw = some der) :
    parseSpki der raw.length = .ok raw ∧
    (∀ n : ℤ, n ≠ raw.length → ∃ message, parseSpki der n = .error (.exit message)) ∧
    ∀ identifier, Der.tlv 0x30 algorithm = some identifier → identifier.length = 13 →
      raw.length ∈ [800, 1184, 1568] →
      Server.rawPublicFromDer der = .ok raw ∧
      ∃ key level, mlKemPrivateKey P der = .ok key ∧ key.rawPublic = raw ∧
        rawPubkeyBytes level = raw.length ∧
        pinServerKey P level der = .ok ⟨raw, key.keyId⟩ ∧
        ∀ (suite : Suite) (deviceId nonce kemCt psk : List UInt8), deviceId.length = 8 →
          nonce.length = 32 → kemCt.length = suite.params.ct →
          ∀ payload : Payload UInt8 maxFrame,
            payload.1 = ClientHello.build P suite deviceId key.keyId nonce kemCt psk →
            ∃ k, Prog.Run (Server.acceptHello P key).run
              [⟨.inl (.read maxFrame), .ok (frameClientHello, payload)⟩]
              (.op (.inr (.pskFor deviceId)) k) := by
  have hparse := parseSpki_spki hder
  refine ⟨by rw [hparse, if_neg (not_not.mpr rfl)], fun n hn => ?_, ?_⟩
  · exact ⟨_, by rw [hparse, if_pos hn.symm]⟩
  · intro identifier hidentifier hlen hraw
    -- The keys of all three levels have long lengths of two octets.
    have hbounds : 255 ≤ raw.length ∧ raw.length < 65500 := by
      simp only [List.mem_cons, List.not_mem_nil, or_false] at hraw
      omega
    have hderLen := length_spki hder hidentifier hlen hbounds.1 hbounds.2
    have hfind := find_rawLen hraw hderLen
    have hdrop := drop_rawLen (spki_suffix hder)
    obtain ⟨level, hlevel⟩ := exists_pinLevel hraw
    refine ⟨?_, ⟨raw, (P.sha256 raw).take 4⟩, level, ?_, rfl, hlevel, ?_, ?_⟩
    · rw [Server.rawPublicFromDer, hfind]
      exact congrArg Except.ok hdrop
    · rw [mlKemPrivateKey, hfind]
      dsimp only
      rw [hdrop]
    · -- Both programs take the same hash of the same key.
      rw [pinServerKey, hlevel, hparse, if_neg (not_not.mpr rfl)]
      rfl
    · intro suite deviceId nonce kemCt psk hd hn hc payload hpayload
      refine acceptHello_pinned P _ suite psk hd ?_ hn hc payload hpayload
      rw [List.length_take, P.length_sha256]
      rfl

/-- The encoding of an ML-KEM-768 key. -/
theorem pinned_key_agrees_768 :
    let algorithm : List UInt8 :=
      [0x06, 0x09, 0x60, 0x86, 0x48, 0x01, 0x65, 0x03, 0x04, 0x04, 0x02]
    let raw : List UInt8 := List.replicate 1184 7
    ∃ der, Der.spki algorithm raw = some der ∧ parseSpki der 1184 = .ok raw ∧
      Server.rawPublicFromDer der = .ok raw := by
  intro algorithm raw
  have hraw : raw.length = 1184 := List.length_replicate
  clear_value raw
  have hidentifier : Der.tlv 0x30 algorithm = some (0x30 :: 11 :: algorithm) := rfl
  -- The length of such a key takes the long form, with two octets.
  have hkey : Der.tlv 0x03 (0 :: raw) = some (0x03 :: 0x82 :: beBytes 2 1185 ++ 0 :: raw) := by
    rw [Der.tlv, List.length_cons, hraw, Der.lengthOctets_of_width_two (by decide) (by decide)]
    rfl
  obtain ⟨der, hder⟩ : ∃ der, Der.tlv 0x30 (0x30 :: 11 :: algorithm ++
      (0x03 :: 0x82 :: beBytes 2 1185 ++ 0 :: raw)) = some der := by
    rw [Der.tlv, Der.lengthOctets_of_width_two]
    · exact ⟨_, rfl⟩
    · simp [hraw, algorithm]
    · simp [hraw, algorithm]
  have hspki : Der.spki algorithm raw = some der := by
    simp only [Der.spki, hidentifier, hkey, Option.bind_eq_bind, Option.bind_some]
    exact hder
  obtain ⟨hparse, -, hserver⟩ := pinned_key_agrees zeroPrims hspki
  rw [hraw] at hparse
  exact ⟨der, hspki, hparse, (hserver _ hidentifier rfl (by rw [hraw]; decide)).1⟩

end Keys

end PqcIot
