import PqcIot.Protocol.KeySchedule

/-!
# ClientHello

`ClientHello.parse` and `ClientHello.build` of `server/protocol.py`. `ClientHello.parse_ok` says
what a parsed hello is — the fields of a payload whose version, suite and length were checked — and
`clientHelloBody` is the part of it that the PSK MAC covers.
-/

namespace PqcIot

open Effects

namespace Protocol

variable {β : Type} (P : Prims β)

structure ClientHello (β : Type) where
  version : UInt8
  suite : Suite
  deviceId : List β
  serverKeyId : List β
  clientNonce : List β
  kemCt : List β
  pskMac : List β
  raw : List β

namespace ClientHello

/-- Everything the `psk_mac` covers: the payload minus the MAC itself. -/
def signedPart (hello : ClientHello β) : List β := hello.raw.take (hello.raw.length - macLen)

/-- The payload length `parse` expects for a suite. -/
def expectedLen (suite : Suite) : ℕ :=
  2 + deviceIdLen + keyIdLen + nonceLen + suite.params.ct + macLen

def parse (payload : List β) : Except PyExn (ClientHello β) :=
  match payload with
  | v :: s :: _ =>
    let version := P.val v
    let suite := P.val s
    if version ≠ Protocol.version then
      .error (.protocolError s!"unsupported version {hash04x version}")
    else
      match Suite.ofCode? suite with
      | none => .error (.protocolError s!"unsupported suite {hash04x suite}")
      | some suite =>
        let params := suite.params
        let expected := expectedLen suite
        if payload.length ≠ expected then
          .error (.protocolError
            s!"ClientHello is {payload.length} bytes, expected {expected}")
        else
          let i := 2
          let deviceId := slice i deviceIdLen payload
          let i := i + deviceIdLen
          let keyId := slice i keyIdLen payload
          let i := i + keyIdLen
          let nonce := slice i nonceLen payload
          let i := i + nonceLen
          let kemCt := slice i params.ct payload
          let i := i + params.ct
          let pskMac := slice i macLen payload
          .ok ⟨version, suite, deviceId, keyId, nonce, kemCt, pskMac, payload⟩
  | _ => .error (.protocolError "ClientHello truncated")

def build (suite : Suite) (deviceId serverKeyId clientNonce kemCt psk : List β) : List β :=
  let body := P.lits [Protocol.version, suite.code] ++ deviceId ++ serverKeyId ++ clientNonce ++
    kemCt
  body ++ helloMac P psk body

/-- The fields of a hello as slices of its payload, for a payload that passed every check. -/
structure Parsed (payload : List β) (hello : ClientHello β) : Prop where
  version : hello.version = Protocol.version
  versionByte : ∃ v s rest, payload = v :: s :: rest ∧ P.val v = Protocol.version ∧
    Suite.ofCode? (P.val s) = some hello.suite
  length : payload.length = expectedLen hello.suite
  deviceId : hello.deviceId = slice 2 8 payload
  serverKeyId : hello.serverKeyId = slice 10 4 payload
  clientNonce : hello.clientNonce = slice 14 32 payload
  kemCt : hello.kemCt = slice 46 hello.suite.params.ct payload
  pskMac : hello.pskMac = slice (46 + hello.suite.params.ct) 32 payload
  raw : hello.raw = payload

theorem parse_ok {payload : List β} {hello : ClientHello β}
    (h : parse P payload = .ok hello) : Parsed P payload hello := by
  match payload, h with
  | v :: s :: rest, h =>
    simp only [parse] at h
    split at h
    · cases h
    · rename_i hv
      split at h
      · cases h
      · rename_i suite hsuite
        split at h
        · cases h
        · rename_i hlen
          injection h with h
          subst h
          exact ⟨not_not.mp hv, ⟨v, s, rest, rfl, not_not.mp hv, hsuite⟩, not_not.mp hlen, rfl, rfl,
            rfl, rfl, rfl, rfl⟩
  | [], h => simp [parse] at h
  | [_], h => simp [parse] at h

/-- A payload with the fields of a suite in their places is parsed into them. -/
theorem parse_append {suite : Suite} {deviceId keyId nonce kemCt pskMac : List β}
    (hd : deviceId.length = 8) (hk : keyId.length = 4) (hn : nonce.length = 32)
    (hc : kemCt.length = suite.params.ct) (hm : pskMac.length = 32) :
    parse P (P.lits [Protocol.version, suite.code] ++ deviceId ++ keyId ++ nonce ++ kemCt ++ pskMac)
      = .ok ⟨Protocol.version, suite, deviceId, keyId, nonce, kemCt, pskMac,
          P.lits [Protocol.version, suite.code] ++ deviceId ++ keyId ++ nonce ++
            kemCt ++ pskMac⟩ := by
  have hlen : (P.lits [Protocol.version, suite.code] ++ deviceId ++ keyId ++ nonce ++ kemCt ++
      pskMac).length = expectedLen suite := by
    simp only [List.length_append, P.length_lits, hd, hk, hn, hc, hm, expectedLen, deviceIdLen,
      keyIdLen, nonceLen, macLen, List.length_cons, List.length_nil]
  -- Where each field stands.
  have hdev := slice_append_append (n := 2) (z := keyId ++ nonce ++ kemCt ++ pskMac)
    (P.length_lits [Protocol.version, suite.code]) hd
  have hkey := slice_append_append (n := 10) (z := nonce ++ kemCt ++ pskMac)
    (x := P.lits [Protocol.version, suite.code] ++ deviceId) (by simp [hd]) hk
  have hnon := slice_append_append (n := 14) (z := kemCt ++ pskMac)
    (x := P.lits [Protocol.version, suite.code] ++ deviceId ++ keyId) (by simp [hd, hk]) hn
  have hct := slice_append_append (n := 46) (z := pskMac)
    (x := P.lits [Protocol.version, suite.code] ++ deviceId ++ keyId ++ nonce)
    (by simp [hd, hk, hn]) hc
  have hmac := slice_append (n := 46 + suite.params.ct)
    (x := P.lits [Protocol.version, suite.code] ++ deviceId ++ keyId ++ nonce ++ kemCt)
    (by simp [hd, hk, hn, hc]; omega) hm
  simp only [List.append_assoc] at hlen hdev hkey hnon hct hmac ⊢
  have hcons : P.lits [Protocol.version, suite.code] ++
      (deviceId ++ (keyId ++ (nonce ++ (kemCt ++ pskMac)))) = P.lit Protocol.version ::
        P.lit suite.code :: (deviceId ++ (keyId ++ (nonce ++ (kemCt ++ pskMac)))) := rfl
  rw [hcons] at hlen hdev hkey hnon hct hmac ⊢
  simp only [parse, P.val_lit, ne_eq, not_true_eq_false, ↓reduceIte, Suite.ofCode?_code, hlen,
    deviceIdLen, keyIdLen, nonceLen, macLen, hdev, hkey, hnon, hct, hmac]

/-! ## The grammar -/

/-- A payload of the grammar: the version, a suite, and the length of the suite. -/
structure WellFormed (payload : List β) (suite : Suite) : Prop where
  bytes : ∃ v s rest, payload = v :: s :: rest ∧ P.val v = Protocol.version ∧ P.val s = suite.code
  length : payload.length = 2 + 8 + 4 + 32 + suite.params.ct + 32

variable {P}

theorem Parsed.wellFormed {payload : List β} {hello : ClientHello β}
    (h : Parsed P payload hello) : WellFormed P payload hello.suite := by
  obtain ⟨v, s, rest, rfl, hv, hs⟩ := h.versionByte
  exact ⟨⟨v, s, rest, rfl, hv, (Suite.code_of_ofCode? hs).symm⟩, h.length⟩

/-- Nothing else is needed to be parsed. -/
theorem WellFormed.exists_parse {payload : List β} {suite : Suite}
    (h : WellFormed P payload suite) : ∃ hello, parse P payload = .ok hello := by
  obtain ⟨⟨v, s, rest, rfl, hv, hs⟩, hlen⟩ := h
  have hlen' : (v :: s :: rest).length = expectedLen suite := hlen
  simp only [parse, hv, hs, hlen', ne_eq, not_true_eq_false, ↓reduceIte, Suite.ofCode?_code]
  exact ⟨_, rfl⟩

/-- The fields are the payload, in order. -/
theorem Parsed.append_eq {payload : List β} {hello : ClientHello β} (h : Parsed P payload hello) :
    ∃ v s, P.val v = hello.version ∧ P.val s = hello.suite.code ∧
      [v, s] ++ hello.deviceId ++ hello.serverKeyId ++ hello.clientNonce ++ hello.kemCt ++
        hello.pskMac = payload := by
  have hlen := h.length
  obtain ⟨v, s, rest, hpayload, hv, hs⟩ := h.versionByte
  refine ⟨v, s, hv.trans h.version.symm, (Suite.code_of_ofCode? hs).symm, ?_⟩
  have hhead : [v, s] = slice 0 2 payload := by
    rw [hpayload]
    rfl
  -- Each field begins where the one before it ends.
  rw [h.deviceId, h.serverKeyId, h.clientNonce, h.kemCt, h.pskMac, hhead, slice_zero_append 2 8,
    slice_zero_append 10 4, slice_zero_append 14 32, slice_zero_append, slice_zero_append]
  exact slice_of_length hlen

/-- The MAC covers everything else. -/
theorem Parsed.signedPart_append {payload : List β} {hello : ClientHello β}
    (h : Parsed P payload hello) : hello.signedPart ++ hello.pskMac = payload := by
  have hlen : payload.length = 46 + hello.suite.params.ct + 32 := h.length
  have hcut : payload.length - macLen = 46 + hello.suite.params.ct := by
    rw [hlen, macLen, Nat.add_sub_cancel]
  rw [signedPart, h.raw, h.pskMac, hcut, slice]
  have htail : (payload.drop (46 + hello.suite.params.ct)).length = 32 := by
    rw [List.length_drop, hlen, Nat.add_sub_cancel_left]
  rw [List.take_of_length_le htail.le, List.take_append_drop]

variable (P)

/-- What is not parsed raises `ProtocolError`. -/
theorem parse_error {payload : List β} {e : PyExn} (he : parse P payload = .error e) :
    ∃ message, e = .protocolError message := by
  match payload, he with
  | [], he | [_], he =>
    cases he
    exact ⟨_, rfl⟩
  | v :: s :: rest, he =>
    simp only [parse] at he
    repeat' split at he
    all_goals cases he
    all_goals exact ⟨_, rfl⟩

/-- A hello that was built is parsed into what it was built from. -/
theorem parse_build {suite : Suite} {deviceId keyId nonce kemCt : List β} (psk : List β)
    (hd : deviceId.length = 8) (hk : keyId.length = 4) (hn : nonce.length = 32)
    (hc : kemCt.length = suite.params.ct) :
    ∃ hello, parse P (build P suite deviceId keyId nonce kemCt psk) = .ok hello ∧
      hello.version = Protocol.version ∧ hello.suite = suite ∧ hello.deviceId = deviceId ∧
      hello.serverKeyId = keyId ∧ hello.clientNonce = nonce ∧ hello.kemCt = kemCt ∧
      hello.pskMac = helloMac P psk hello.signedPart := by
  have hm (body : List β) : (helloMac P psk body).length = 32 := P.length_hmac _ _
  have hparse := parse_append P hd hk hn hc
    (hm (P.lits [Protocol.version, suite.code] ++ deviceId ++
    keyId ++ nonce ++ kemCt))
  refine ⟨_, hparse, rfl, rfl, rfl, rfl, rfl, rfl, ?_⟩
  -- The part before the MAC is what the MAC was computed over.
  have hsigned := List.append_inj_left' (parse_ok P hparse).signedPart_append rfl
  rw [hsigned]

end ClientHello

end Protocol

end PqcIot
