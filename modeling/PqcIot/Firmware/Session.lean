import PqcIot.Firmware.Machine

/-!
# The firmware's session

`pqc_session.c`, function by function: the primitives' wrappers, `handshake`, `send_record` and
`pqc_session_run`, for the device configuration of `device_config.h` and `server_key.h`. Return
codes that the code does not look at are dropped here as they are there.
-/

namespace PqcIot

open Effects

namespace Firmware

variable {β : Type}

/-! ## Constants and configuration -/

def protocolVersion : UInt8 := 0x01
def suiteMlkem768 : UInt8 := 0x01
def suiteMlkem768Fs : UInt8 := 0x11

def frameClientHello : UInt8 := 0x01
def frameServerHello : UInt8 := 0x02
def frameClientFinished : UInt8 := 0x03
def frameData : UInt8 := 0x10
def frameClose : UInt8 := 0x7F

def nonceLen : ℕ := 32
def sessionIdLen : ℕ := 8
def deviceIdLen : ℕ := 8
def keyIdLen : ℕ := 4
def macLen : ℕ := 32
def pskLen : ℕ := 32
def tagLen : ℕ := 16
def ssLen : ℕ := 32
def mlkem768CiphertextBytes : ℕ := 1088
def mlkem768PublicKeyBytes : ℕ := 1184

def clientHelloLen : ℕ :=
  2 + deviceIdLen + keyIdLen + nonceLen + mlkem768CiphertextBytes + macLen
def serverHelloLen : ℕ := nonceLen + sessionIdLen + macLen
def serverHelloLenFs : ℕ := serverHelloLen + mlkem768PublicKeyBytes
def clientKeyExchangeLen : ℕ := mlkem768CiphertextBytes + macLen

/-- The bytes of a string literal. -/
def literal (s : String) : List UInt8 := s.toList.map fun c => UInt8.ofNat c.toNat

def labelHello : List UInt8 := literal "PQC-IoT-1 hello"
def labelSrvConfirm : List UInt8 := literal "PQC-IoT-1 server confirm"
def labelCliConfirm : List UInt8 := literal "PQC-IoT-1 client confirm"
def labelC2s : List UInt8 := literal "PQC-IoT-1 c2s"
def labelS2c : List UInt8 := literal "PQC-IoT-1 s2c"

/-- What the image is built with: `DEVICE_ID`, `DEVICE_PSK`, `SERVER_PUBLIC_KEY` and
`SERVER_KEY_ID`. -/
structure Config (β : Type) where
  deviceId : List β
  devicePsk : List β
  serverPublicKey : List β
  serverKeyId : List β
  length_deviceId : deviceId.length = 8
  length_devicePsk : devicePsk.length = 32
  length_serverPublicKey : serverPublicKey.length = 1184
  length_serverKeyId : serverKeyId.length = 4

/-- A device whose keys are zeros. -/
def zeroConfig : Config UInt8 :=
  ⟨List.replicate 8 0, List.replicate 32 0, List.replicate 1184 0, List.replicate 4 0,
    List.length_replicate, List.length_replicate, List.length_replicate, List.length_replicate⟩

/-- `pqc_session_t`. -/
structure Session (β : Type) where
  sessionId : List β
  c2s : List β
  sendSeq : UInt64
  forwardSecrecy : Bool
  handshakeBytes : ℕ

/-- `pqc_mode_t`. -/
inductive Mode where
  | a
  | bForwardSecrecy
  deriving DecidableEq, Repr

/-! ## Primitives -/

section Primitives

variable (P : Prims β)

/-- `ct_equal`, on arrays of the same length. -/
def ctEqual (a b : List β) : Bool :=
  let diff := (a.zip b).foldl (fun diff xy => diff ||| P.diff xy.1 xy.2) (0 : UInt8)
  diff == 0

/-- `memset(b, 0, sizeof(b))`. -/
def wipe (b : Buffer) : Code β Unit := Code.memcpy b 0 (P.lits (List.replicate b.size 0))

end Primitives

/-- `hmac_sha256`. -/
def hmacSha256 (key msg : List β) : Code β (List β) := do
  let result ← Code.mbedtls (.mdHmac key msg)
  return result.out

/-- `hmac_sha256_2`. -/
def hmacSha256Two (key a b : List β) : Code β (List β) := do
  let _ ← Code.mbedtls .mdSetup
  let _ ← Code.mbedtls (.mdHmacStarts key)
  let _ ← Code.mbedtls (.mdHmacUpdate key [] a)
  -- `mbedtls_md_hmac_update` is not called for an empty second part.
  if b.length ≠ 0 then
    let _ ← Code.mbedtls (.mdHmacUpdate key a b)
    let result ← Code.mbedtls (.mdHmacFinish key (a ++ b))
    return result.out
  else
    let result ← Code.mbedtls (.mdHmacFinish key a)
    return result.out

/-- `mbedtls_sha256_starts`: a context that has been fed nothing. -/
def sha256Starts : Code β (List β) := do
  let _ ← Code.mbedtls .sha256Starts
  return []

/-- `mbedtls_sha256_update` of a context that has been fed `fed`. -/
def sha256Update (fed input : List β) : Code β (List β) := do
  let _ ← Code.mbedtls (.sha256Update fed input)
  return fed ++ input

/-- `mbedtls_sha256_finish`. -/
def sha256Finish (fed : List β) : Code β (List β) := do
  let result ← Code.mbedtls (.sha256Finish fed)
  return result.out

/-- `mbedtls_hkdf_extract`. -/
def hkdfExtract (salt ikm : List β) : Code β (List β) := do
  let result ← Code.mbedtls (.hkdfExtract salt ikm)
  return result.out

/-- `mbedtls_gcm_setkey`. -/
def gcmSetkey (key : List β) : Code β ℤ := Code.mbedtls (.gcmSetkey key)

/-- `mbedtls_gcm_crypt_and_tag` with `MBEDTLS_GCM_ENCRYPT`. -/
def gcmCryptAndTag (key iv add input : List β) : Code β (GcmOutput β input.length) :=
  Code.mbedtls (.gcmCryptAndTag key iv add input)

/-- `mlkem768_enc`. -/
def mlkem768Enc (pk : List β) : Code β (Encapsulation β) := Code.host (.mlkem768Enc pk)

/-- `esp_fill_random`. -/
def espFillRandom (len : ℕ) : Code β { l : List β // l.length = len } :=
  Code.host (.espFillRandom len)

/-- `derive_key`. -/
def deriveKey (P : Prims β) (prk : List β) (label : List UInt8) (th2 : List β) :
    Code β (List β) := do
  let info := P.lits label ++ th2
  let result ← Code.mbedtls (.hkdfExpand prk info)
  return result.out

/-! ## Frames -/

/-- `write_frame`. -/
def sendFrame (ftype : UInt8) (payload : List β) : Code β Bool := do
  match ← Code.frame (.write ftype payload) with
  | .ok () => return true
  | .error () => return false

/-- `read_frame` into an array: the type and the length. A failed read has written part of it. -/
def receiveFrame (b : Buffer) : Code β (Option (UInt8 × ℕ)) := do
  match ← Code.frame (.read b.size) with
  -- What `recv_all` has put there before it failed; nothing, if the announced length is refused.
  | .error got =>
    Code.memcpy b 0 got.1
    return none
  | .ok (ftype, payload) =>
    Code.memcpy b 0 payload.1
    return some (ftype, payload.1.length)

/-! ## Handshake -/

section Handshake

variable (P : Prims β) (cfg : Config β)

/-- The part of `handshake` that fills `s_hello`; the final value of `i`. -/
def fillHello (suite : UInt8) (clientNonce kemCt : List β) : Code β ℕ := do
  let i := 0
  Code.memcpy .sHello i [P.lit protocolVersion]
  let i := i + 1
  Code.memcpy .sHello i [P.lit suite]
  let i := i + 1
  Code.memcpy .sHello i cfg.deviceId
  let i := i + deviceIdLen
  Code.memcpy .sHello i cfg.serverKeyId
  let i := i + keyIdLen
  Code.memcpy .sHello i clientNonce
  let i := i + nonceLen
  Code.memcpy .sHello i kemCt
  let i := i + mlkem768CiphertextBytes
  -- `psk_mac` covers the label and everything above it.
  let mac ← hmacSha256Two cfg.devicePsk (P.lits labelHello) (← Code.bytesAt .sHello 0 i)
  Code.memcpy .sHello i mac
  return i + macLen

/-- The part of `handshake` that computes `th2`. -/
def hashTranscript2 (fs : Bool) : Code β (List β) := do
  let sha ← sha256Starts
  let sha ← sha256Update sha (← Code.bytesAt .sHello 0 clientHelloLen)
  let sha ← sha256Update sha (← Code.bytesAt .sFrame 0 nonceLen)
  let sha ← sha256Update sha (← Code.bytesAt .sFrame nonceLen sessionIdLen)
  -- `TH2` covers `ek_eph`, so that the server's MAC binds it.
  if fs then
    let sha ← sha256Update sha
      (← Code.bytesAt .sFrame (nonceLen + sessionIdLen) mlkem768PublicKeyBytes)
    sha256Finish sha
  else
    sha256Finish sha

/-- `session_keys_t`. -/
structure SessionKeys (β : Type) where
  srvConfirm : List β
  cliConfirm : List β
  c2s : List β
  s2c : List β

/-- Stage 1: in mode A every key, in mode B only the server confirmation key. -/
def stage1 (fs : Bool) (salt th2 : List β) : Code β (SessionKeys β) := do
  Code.memcpy .ikm1 0 (← Code.bytesAt .ss 0 ssLen)
  Code.memcpy .ikm1 ssLen cfg.devicePsk
  Code.memcpy .prk1 0 (← hkdfExtract salt (← Code.bytesAt .ikm1 0 Buffer.ikm1.size))
  let prk1 ← Code.bytesAt .prk1 0 32
  let srvConfirm ← deriveKey P prk1 labelSrvConfirm th2
  -- In mode B the other keys depend on `ss_eph`, which there is not yet.
  if !fs then
    let cliConfirm ← deriveKey P prk1 labelCliConfirm th2
    let c2s ← deriveKey P prk1 labelC2s th2
    let s2c ← deriveKey P prk1 labelS2c th2
    wipe P .ikm1
    wipe P .prk1
    return { srvConfirm, cliConfirm, c2s, s2c }
  else
    wipe P .ikm1
    wipe P .prk1
    return { srvConfirm, cliConfirm := [], c2s := [], s2c := [] }

/-- Mode B after the server MAC was verified: encapsulate to the ephemeral key, which leaves the
ciphertext in `s_out`, and derive the keys of stage 2 with `TH3`. `none` if the key is refused. -/
def stage2 (salt th2 srvConfirm : List β) : Code β (Option (List β × SessionKeys β)) := do
  let ekEph ← Code.bytesAt .sFrame (nonceLen + sessionIdLen) mlkem768PublicKeyBytes
  let enc ← mlkem768Enc ekEph
  Code.memcpy .sOut 0 enc.ct
  Code.memcpy .ssEph 0 enc.ss
  -- `ss_eph` is left as the encapsulation has filled it.
  if enc.rc ≠ 0 then
    wipe P .ss
    return none
  else
    -- `TH3` is the hash of `TH2` and the ciphertext.
    let sha ← sha256Starts
    let sha ← sha256Update sha th2
    let sha ← sha256Update sha (← Code.bytesAt .sOut 0 mlkem768CiphertextBytes)
    let transcript ← sha256Finish sha
    Code.memcpy .ikm2 0 (← Code.bytesAt .ss 0 ssLen)
    Code.memcpy .ikm2 ssLen (← Code.bytesAt .ssEph 0 ssLen)
    Code.memcpy .ikm2 (2 * ssLen) cfg.devicePsk
    Code.memcpy .prk2 0 (← hkdfExtract salt (← Code.bytesAt .ikm2 0 Buffer.ikm2.size))
    let prk2 ← Code.bytesAt .prk2 0 32
    let cliConfirm ← deriveKey P prk2 labelCliConfirm transcript
    let c2s ← deriveKey P prk2 labelC2s transcript
    let s2c ← deriveKey P prk2 labelS2c transcript
    wipe P .ikm2
    wipe P .prk2
    wipe P .ssEph
    return some (transcript, { srvConfirm, cliConfirm, c2s, s2c })

/-- The end of `handshake`: send ClientFinished and fill in the session. -/
def finishHandshake (fs : Bool) (expectedLen : ℕ) (transcript serverMac : List β)
    (keys : SessionKeys β) : Code β (Option (Session β)) := do
  wipe P .ss
  let finishedLen := if fs then clientKeyExchangeLen else macLen
  let macSlot := if fs then mlkem768CiphertextBytes else 0
  -- In mode B the MAC goes behind the ciphertext, which is already in `s_out`.
  let mac ← hmacSha256Two keys.cliConfirm transcript serverMac
  Code.memcpy .sOut macSlot mac
  if ← sendFrame frameClientFinished (← Code.bytesAt .sOut 0 finishedLen) then
    let sessionId ← Code.bytesAt .sFrame nonceLen sessionIdLen
    return some {
      sessionId, c2s := keys.c2s, sendSeq := 0, forwardSecrecy := fs,
      handshakeBytes := 3 + clientHelloLen + 3 + expectedLen + 3 + finishedLen }
  else
    return none

/-- `handshake` from the point where a ServerHello of the expected length is in `s_frame`. -/
def afterServerHello (fs : Bool) (expectedLen : ℕ) (clientNonce : List β) :
    Code β (Option (Session β)) := do
  let th2 ← hashTranscript2 fs
  let serverNonce ← Code.bytesAt .sFrame 0 nonceLen
  let keys ← stage1 P cfg fs (clientNonce ++ serverNonce) th2
  let expectedMac ← hmacSha256 keys.srvConfirm th2
  let serverMac ← Code.bytesAt .sFrame
    (nonceLen + sessionIdLen + if fs then mlkem768PublicKeyBytes else 0) macLen
  -- The check comes before the ephemeral key is used.
  if !ctEqual P expectedMac serverMac then
    wipe P .ss
    return none
  else if fs then
    match ← stage2 P cfg (clientNonce ++ serverNonce) th2 keys.srvConfirm with
    | none => return none
    | some (transcript, keys) => finishHandshake P fs expectedLen transcript serverMac keys
  else
    finishHandshake P fs expectedLen th2 serverMac keys

/-- `handshake`: the session it sets up, or `none` when it returns `false`. -/
def handshake (suite : UInt8) : Code β (Option (Session β)) := do
  let fs := suite == suiteMlkem768Fs
  let clientNonce ← espFillRandom nonceLen
  let enc ← mlkem768Enc cfg.serverPublicKey
  Code.memcpy .ss 0 enc.ss
  -- On this exit and the four below, `ss` is not wiped.
  if enc.rc ≠ 0 then
    return none
  else
    let i ← fillHello P cfg suite clientNonce.1 enc.ct
    if i ≠ clientHelloLen then
      return none
    else if ← sendFrame frameClientHello (← Code.bytesAt .sHello 0 clientHelloLen) then
      match ← receiveFrame .sFrame with
      | none => return none
      | some (ftype, len) =>
        let expectedLen := if fs then serverHelloLenFs else serverHelloLen
        if ftype ≠ frameServerHello ∨ len ≠ expectedLen then
          return none
        else
          afterServerHello P cfg fs expectedLen clientNonce.1
    else
      return none

end Handshake

/-! ## Data records -/

section Records

variable (P : Prims β)

/-- The loop that writes `seq` most significant byte first. -/
def seqBytes (seq : UInt64) : List UInt8 :=
  (List.range 8).map fun b => (seq >>> UInt64.ofNat (56 - 8 * b)).toUInt8

/-- `send_record`; `plain_len` is a `uint16_t`. The session as it is left. -/
def sendRecord (session : Session β) (plain : Payload β 65535) : Code β (Bool × Session β) := do
  let plainLen := UInt16.ofNat plain.1.length
  if plainLen.toNat + 10 + tagLen > Buffer.sFrame.size then
    return (false, session)
  else
    let seq := session.sendSeq
    let lenBytes := [(plainLen >>> 8).toUInt8, (plainLen &&& 0xff).toUInt8]
    let nonce := P.lits ([0, 0, 0, 0] ++ seqBytes seq)
    let aad := session.sessionId ++ P.lits (seqBytes seq ++ lenBytes)
    let o := 0
    Code.memcpy .sFrame o (slice sessionIdLen 8 aad)
    let o := o + 8
    Code.memcpy .sFrame o [P.lit (plainLen >>> 8).toUInt8]
    let o := o + 1
    Code.memcpy .sFrame o [P.lit (plainLen &&& 0xff).toUInt8]
    let o := o + 1
    let rc ← gcmSetkey session.c2s
    if rc ≠ 0 then
      return (false, session)
    else
      let result ← gcmCryptAndTag session.c2s nonce aad plain.1
      Code.memcpy .sFrame o result.ciphertext
      Code.memcpy .sFrame (o + plainLen.toNat) result.tag
      if result.rc ≠ 0 then
        return (false, session)
      else
        let frameLen := UInt16.ofNat (o + plainLen.toNat + tagLen)
        if ← sendFrame frameData (← Code.bytesAt .sFrame 0 frameLen.toNat) then
          -- Only a record that has been written uses up its number.
          return (true, { session with sendSeq := session.sendSeq + 1 })
        else
          return (false, session)

/-- The text of a record. -/
def recordText (n : ℕ) : String :=
  s!"\x7b\"seq\":{n},\"co2\":{810 + n},\"t\":22.4,\"rh\":47\x7d"

/-- The loop of `pqc_session_run`: `count` records from number `n` on. `snprintf` leaves at most 79
characters in the array, which is more than any `int` formats to. -/
def sendRecords : ℕ → ℕ → Session β → Code β Bool
  | 0, _, _ => return true
  | count + 1, n, session => do
    let json := P.lits (literal (recordText n))
    let plain : Payload β 65535 := ⟨json.take 79, (List.length_take_le _ _).trans (by decide)⟩
    let (ok, session) ← sendRecord P session plain
    if ok then sendRecords count (n + 1) session else return false

end Records

/-- The suite of a mode. -/
def Mode.suite : Mode → UInt8
  | .bForwardSecrecy => suiteMlkem768Fs
  | .a => suiteMlkem768

/-- `pqc_session_run`. -/
def pqcSessionRun (P : Prims β) (cfg : Config β) (mode : Mode) (recordCount : ℤ) :
    Code β Bool := do
  if ← Code.host .connectToServer then
    match ← handshake P cfg mode.suite with
    | none =>
      Code.host .close
      return false
    | some session =>
      if ← sendRecords P recordCount.toNat 0 session then
        -- Whether Close could be written is not looked at.
        let _ ← sendFrame frameClose []
        Code.host .close
        return true
      else
        Code.host .close
        return false
  else
    return false

end Firmware

end PqcIot
