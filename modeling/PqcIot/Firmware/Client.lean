import PqcIot.Firmware.Session
import PqcIot.Protocol.ClientHello

/-!
# The client's handshake

What `handshake` of `pqc_session.c` does, as a program over the visible calls and the values of the
protocol: no arrays, no offsets, no separate hash calls. `handshake_refines` shows that the C code
performs exactly this program, from any initial memory: whatever the static buffers held, every
offset, label, length and order of concatenation is that of the specification, and no access leaves
an array.
-/

namespace PqcIot

open Effects

namespace Firmware

variable {β : Type}

/-! ## The program -/

/-- The suite of a mode, in the terms of the specification. -/
def Mode.spec : Mode → Protocol.Suite
  | .a => .mlkem768
  | .bForwardSecrecy => .mlkem768Fs

/-- Whether a mode has forward secrecy. -/
def Mode.fs (mode : Mode) : Bool := mode.spec.params.fs

/-- The suite that is sent is that of the mode. -/
@[simp]
theorem Mode.spec_code (mode : Mode) : mode.spec.code = mode.suite := by
  cases mode <;> rfl

/-- The length of a mode's ServerHello. -/
theorem serverHelloLen_spec (mode : Mode) :
    Protocol.serverHelloLen mode.spec = 72 + if mode.fs then 1184 else 0 := by
  cases mode <;> rfl

section Program

variable (P : Prims β) (cfg : Config β) (mode : Mode)

/-- The ClientHello for a nonce and a ciphertext. -/
def helloPayload (nonce kemCt : List β) : List β :=
  Protocol.ClientHello.build P mode.spec cfg.deviceId cfg.serverKeyId nonce kemCt cfg.devicePsk

/-- The values of a handshake whose static encapsulation gave `enc` and which received the
ServerHello `reply`. -/
def clientValues (nonce : List β) (enc : Encapsulation β) (reply ctEph ssEph : List β) :
    PqcIot.Handshake β where
  fs := mode.fs
  hello := helloPayload P cfg mode nonce enc.ct
  clientNonce := nonce
  serverNonce := slice 0 32 reply
  sessionId := slice 32 8 reply
  ekEph := if mode.fs then slice 40 1184 reply else []
  ctEph := ctEph
  psk := cfg.devicePsk
  ssStatic := enc.ss
  ssEph := ssEph

/-- The MAC at the end of a ServerHello. -/
def receivedMac (reply : List β) : List β := slice (40 + if mode.fs then 1184 else 0) 32 reply

/-- The session of a completed handshake. -/
def clientSession (h : PqcIot.Handshake β) : Session β where
  sessionId := h.sessionId
  c2s := h.c2s P
  sendSeq := 0
  forwardSecrecy := mode.fs
  handshakeBytes := 3 + 1166 + 3 + Protocol.serverHelloLen mode.spec + 3 +
    ((if mode.fs then 1088 else 0) + 32)

/-- Send ClientFinished. -/
def clientFinish (h : PqcIot.Handshake β) : Prog (visible β) (Option (Session β)) :=
  .op (.inl (.write frameClientFinished (h.clientFinished P))) fun
    | .error () => .ret none
    | .ok () => .ret (some (clientSession P mode h))

/-- The handshake after a ServerHello of the right type and length: check its MAC, then in mode B
encapsulate to the key it carries. -/
def clientVerify (nonce : List β) (enc : Encapsulation β) (reply : List β) :
    Prog (visible β) (Option (Session β)) :=
  let h := clientValues P cfg mode nonce enc reply [] []
  if ctEqual P (h.serverMac P) (receivedMac mode reply) then
    if mode.fs then
      .op (.inr (.mlkem768Enc h.ekEph)) fun encEph =>
        if encEph.rc ≠ 0 then
          .ret none
        else
          clientFinish P mode (clientValues P cfg mode nonce enc reply encEph.ct encEph.ss)
    else
      clientFinish P mode h
  else
    .ret none

/-- The client's handshake. -/
def clientHandshake : Prog (visible β) (Option (Session β)) :=
  .op (.inr (.espFillRandom 32)) fun nonce =>
    .op (.inr (.mlkem768Enc cfg.serverPublicKey)) fun enc =>
      if enc.rc ≠ 0 then
        .ret none
      else
        .op (.inl (.write frameClientHello (helloPayload P cfg mode nonce.1 enc.ct))) fun
          | .error () => .ret none
          | .ok () =>
            .op (.inl (.read 1256)) fun
              | .error _ => .ret none
              | .ok (ftype, reply) =>
                if ftype ≠ frameServerHello ∨
                    reply.1.length ≠ Protocol.serverHelloLen mode.spec then
                  .ret none
                else
                  clientVerify P cfg mode nonce.1 enc reply.1

end Program

/-! ## The wrappers of the primitives -/

section Wrappers

variable (P : Prims β) (m : Memory β)

/-- The loop of `ct_equal` is zero exactly if its start is and no letters differ. -/
private theorem foldl_diff_eq_zero (l : List (β × β)) (d : UInt8) :
    l.foldl (fun diff xy => diff ||| P.diff xy.1 xy.2) d = 0 ↔ d = 0 ∧ ∀ xy ∈ l, xy.1 = xy.2 := by
  induction l generalizing d with
  | nil => simp
  | cons xy l ih =>
    rw [List.foldl_cons, ih]
    have hor : d ||| P.diff xy.1 xy.2 = 0 ↔ d = 0 ∧ P.diff xy.1 xy.2 = 0 := by
      simp only [← UInt8.toNat_inj, UInt8.toNat_or, UInt8.toNat_zero, Nat.or_eq_zero_iff]
    rw [hor, P.diff_eq_zero]
    simp [and_assoc]

/-- `ct_equal` compares. -/
theorem ctEqual_iff {a b : List β} (h : a.length = b.length) : ctEqual P a b = true ↔ a = b := by
  rw [ctEqual, beq_iff_eq, foldl_diff_eq_zero]
  constructor
  · rintro ⟨-, hall⟩
    refine List.ext_getElem h fun i hi hi' => ?_
    exact hall (a[i], b[i]) (List.mem_iff_getElem.mpr ⟨i, by simpa using ⟨hi, hi'⟩, by simp⟩)
  · rintro rfl
    refine ⟨rfl, fun xy hxy => ?_⟩
    obtain ⟨i, hi, rfl⟩ := List.mem_iff_getElem.mp hxy
    simp

/-- `mbedtls_md_hmac` computes the MAC. -/
@[simp]
theorem exec_hmacSha256 (key msg : List β) :
    exec P (hmacSha256 key msg) m = .ret (P.hmac key msg, m) := rfl

/-- The five calls compute the MAC of both pieces together. -/
@[simp]
theorem exec_hmacSha256Two (key a b : List β) :
    exec P (hmacSha256Two key a b) m = .ret (P.hmac key (a ++ b), m) := by
  cases b with
  | nil => rw [List.append_nil]; rfl
  | cons x b => rfl

/-- A hash starts with nothing fed. -/
@[simp]
theorem exec_sha256Starts : exec P (sha256Starts : Code β (List β)) m = .ret ([], m) := rfl

/-- Its end gives the hash of what was fed. -/
@[simp]
theorem exec_sha256Finish (fed : List β) :
    exec P (sha256Finish fed) m = .ret (P.sha256 fed, m) := rfl

/-- `mbedtls_hkdf_extract` computes the extraction. -/
@[simp]
theorem exec_hkdfExtract (salt ikm : List β) :
    exec P (hkdfExtract salt ikm) m = .ret (P.hkdfExtract salt ikm, m) := rfl

/-- The encapsulation is left to mlkem-native. -/
@[simp]
theorem exec_mlkem768Enc (pk : List β) :
    exec P (mlkem768Enc pk) m = .op (.inr (.mlkem768Enc pk)) fun enc => .ret (enc, m) := rfl

/-- The nonce is drawn by the chip. -/
@[simp]
theorem exec_espFillRandom (len : ℕ) :
    exec P (espFillRandom len) m = .op (.inr (.espFillRandom len)) fun l => .ret (l, m) := rfl

/-- More is fed. -/
@[simp]
theorem exec_sha256Update (fed input : List β) :
    exec P (sha256Update fed input) m = .ret (fed ++ input, m) := rfl

/-- A key is expanded from the label and the hash. -/
@[simp]
theorem exec_deriveKey (prk : List β) (label : List UInt8) (th2 : List β) :
    exec P (deriveKey P prk label th2) m =
      .ret (P.hkdfExpand prk (P.lits label ++ th2) 32, m) := rfl

/-- Writing where the known bytes of an array end. -/
theorem exec_append {b : Buffer} (off : ℕ) (data : List β) {xs : List β} (hm : m.Holds b xs)
    (hoff : xs.length = off) (h : off + data.length ≤ b.size) :
    ∃ m', exec P (Code.memcpy b off data) m = .ret ((), m') ∧ m'.Holds b (xs ++ data) ∧
      Mem.Kept [b] m m' :=
  ⟨_, exec_memcpy P m h, hm.store hoff h,
    (Mem.kept_refl [b] m).store (List.mem_singleton_self b) h⟩

/-- Writing an array from the front. -/
theorem exec_fill (b : Buffer) (data : List β) (h : data.length ≤ b.size) :
    ∃ m', exec P (Code.memcpy b 0 data) m = .ret ((), m') ∧ m'.Holds b data ∧ Mem.Kept [b] m m' :=
  exec_append P m 0 data (Mem.holds_nil m b) rfl (by omega)

/-- Reading bytes that are known. -/
theorem exec_read {b : Buffer} (off len : ℕ) {xs : List β} (hm : m.Holds b xs)
    (hlen : off + len ≤ xs.length) (hsize : xs.length ≤ b.size) :
    exec P (Code.bytesAt b off len) m = .ret (slice off len xs, m) := by
  rw [exec_bytesAt P m (hlen.trans hsize), hm.load hlen]

/-- Wiping changes no other array. -/
theorem exec_wipe (b : Buffer) :
    ∃ m', exec P (wipe P b) m = .ret ((), m') ∧ Mem.Kept [b] m m' := by
  obtain ⟨m', he, -, hk⟩ := exec_fill P m b (P.lits (List.replicate b.size 0))
    (by simp)
  exact ⟨m', he, hk⟩

/-- A frame is sent or not. -/
@[simp]
theorem exec_sendFrame (ftype : UInt8) (payload : List β) :
    exec P (sendFrame ftype payload) m = .op (.inl (.write ftype payload)) fun
      | .ok () => .ret (true, m)
      | .error () => .ret (false, m) := by
  refine congrArg (Prog.op _) (funext fun a => ?_)
  match a with
  | .ok () => rfl
  | .error () => rfl

/-- The frame that is read, or the part of it, is copied into the buffer. -/
@[simp]
theorem exec_receiveFrame (b : Buffer) :
    exec P (receiveFrame b) m = .op (.inl (.read b.size)) fun
      | .error got => exec P (Code.memcpy b 0 got.1) m >>= fun r => .ret (none, r.2)
      | .ok (ftype, payload) => exec P (Code.memcpy b 0 payload.1) m >>= fun r =>
          .ret (some (ftype, payload.1.length), r.2) := by
  rw [receiveFrame, exec_bind]
  refine congrArg (Prog.op _) (funext fun a => ?_)
  match a with
  | .error got => exact exec_bind P m _ _
  | .ok (ftype, payload) => exact exec_bind P m _ _

end Wrappers

/-! ## Refinement -/

section Refinement

variable (P : Prims β) (cfg : Config β) (mode : Mode)

/-- `s_hello` is filled with the ClientHello of the specification. -/
private theorem exec_fillHello (m : Memory β) {nonce kemCt : List β} (hnonce : nonce.length = 32)
    (hct : kemCt.length = 1088) :
    ∃ m', exec P (fillHello P cfg mode.suite nonce kemCt) m = .ret (1166, m') ∧
      m'.Holds .sHello (helloPayload P cfg mode nonce kemCt) ∧ Mem.Kept [.sHello] m m' := by
  -- Field by field, each written where the one before ends.
  have hdev := cfg.length_deviceId
  have hkey := cfg.length_serverKeyId
  obtain ⟨m₁, he₁, hh₁, hk₁⟩ := exec_fill P m .sHello [P.lit protocolVersion]
    (by simp [Buffer.size])
  obtain ⟨m₂, he₂, hh₂, hk₂⟩ := exec_append P m₁ 1 [P.lit mode.suite] hh₁ rfl
    (by simp [Buffer.size])
  obtain ⟨m₃, he₃, hh₃, hk₃⟩ := exec_append P m₂ 2 cfg.deviceId hh₂ rfl
    (by simp [Buffer.size, hdev])
  obtain ⟨m₄, he₄, hh₄, hk₄⟩ := exec_append P m₃ 10 cfg.serverKeyId hh₃
    (by simp [hdev]) (by simp [Buffer.size, hkey])
  obtain ⟨m₅, he₅, hh₅, hk₅⟩ := exec_append P m₄ 14 nonce hh₄
    (by simp [hdev, hkey]) (by simp [Buffer.size, hnonce])
  obtain ⟨m₆, he₆, hh₆, hk₆⟩ := exec_append P m₅ 46 kemCt hh₅
    (by simp [hdev, hkey, hnonce]) (by simp [Buffer.size, hct])
  set body := [P.lit protocolVersion] ++ [P.lit mode.suite] ++ cfg.deviceId ++ cfg.serverKeyId ++
    nonce ++ kemCt with hbody
  have hlen : body.length = 1134 := by simp [hbody, hdev, hkey, hnonce, hct]
  -- The MAC is over what has been written so far.
  have heBody := exec_read P m₆ 0 1134 hh₆ (by omega)
    (by rw [hlen]; decide)
  rw [slice_of_length hlen] at heBody
  obtain ⟨m₇, he₇, hh₇, hk₇⟩ := exec_append P m₆ 1134
    (P.hmac cfg.devicePsk (P.lits labelHello ++ body)) hh₆ hlen (by simp [Buffer.size])
  refine ⟨m₇, ?_, ?_, ?_⟩
  · simp only [fillHello, exec_bind, Nat.zero_add, Nat.reduceAdd, deviceIdLen, keyIdLen, nonceLen,
      mlkem768CiphertextBytes, macLen, he₁, he₂, he₃, he₄, he₅, he₆, he₇, heBody,
      exec_hmacSha256Two, exec_pure, Prog.ret_bind]
  · have hbuild : helloPayload P cfg mode nonce kemCt =
        body ++ P.hmac cfg.devicePsk (P.lits labelHello ++ body) := by
      rw [helloPayload, Protocol.ClientHello.build, Protocol.helloMac, mode.spec_code]
      rfl
    rw [hbuild]
    exact hh₇
  · exact ((((((hk₁.trans hk₂).trans hk₃).trans hk₄).trans hk₅).trans hk₆).trans hk₇)

/-- The length of a ClientHello. -/
@[simp]
theorem length_helloPayload {nonce kemCt : List β} (hnonce : nonce.length = 32)
    (hct : kemCt.length = 1088) : (helloPayload P cfg mode nonce kemCt).length = 1166 := by
  simp [helloPayload, Protocol.ClientHello.build, Protocol.helloMac, cfg.length_deviceId,
    cfg.length_serverKeyId, hnonce, hct]

section ServerHello

variable {m : Memory β} {nonce : List β} {enc : Encapsulation β} {reply : List β}

/-- `th2` is computed over the ClientHello sent and the fields received. -/
private theorem exec_hashTranscript2 (hnonce : nonce.length = 32)
    (hreply : reply.length = Protocol.serverHelloLen mode.spec)
    (hhello : m.Holds .sHello (helloPayload P cfg mode nonce enc.ct))
    (hframe : m.Holds .sFrame reply) :
    exec P (hashTranscript2 mode.fs) m =
      .ret ((clientValues P cfg mode nonce enc reply [] []).th2 P, m) := by
  have hlen := length_helloPayload P cfg mode hnonce enc.length_ct
  have heHello := exec_read P m 0 1166 hhello (by omega) (by rw [hlen]; decide)
  rw [slice_of_length hlen] at heHello
  have hsize : reply.length ≤ Buffer.sFrame.size := by
    rw [hreply]
    cases mode <;> decide
  have hlong : 72 ≤ reply.length := by
    rw [hreply]
    cases mode <;> decide
  have heNonce := exec_read P m 0 32 hframe (by omega) hsize
  have heSession := exec_read P m 32 8 hframe (by omega) hsize
  cases hmode : mode.fs with
  | false =>
    simp only [hashTranscript2, clientHelloLen, deviceIdLen, keyIdLen, nonceLen, sessionIdLen,
      mlkem768CiphertextBytes, macLen, Nat.reduceAdd, exec_bind, exec_sha256Starts, heHello,
      exec_sha256Update, heNonce, heSession, Bool.false_eq_true, if_false, exec_sha256Finish,
      Prog.ret_bind, Handshake.th2, Handshake.th2Input, clientValues, hmode, List.nil_append,
      List.append_nil]
  -- Mode B hashes the ephemeral key too.
  | true =>
    have hfs : 40 + 1184 ≤ reply.length := by
      rw [hreply]
      cases mode with
      | a => cases hmode
      | bForwardSecrecy => decide
    have heKey := exec_read P m 40 1184 hframe hfs hsize
    simp only [hashTranscript2, clientHelloLen, deviceIdLen, keyIdLen, nonceLen, sessionIdLen,
      mlkem768CiphertextBytes, mlkem768PublicKeyBytes, macLen, Nat.reduceAdd, exec_bind,
      exec_sha256Starts, heHello, exec_sha256Update, heNonce, heSession, heKey, if_true,
      exec_sha256Finish, Prog.ret_bind, Handshake.th2, Handshake.th2Input, clientValues, hmode,
      List.nil_append]

/-- Stage 1 computes the keys of the specification that come from it. -/
private theorem exec_stage1 (h : PqcIot.Handshake β) (hfs : h.fs = mode.fs)
    (hpsk : h.psk = cfg.devicePsk) (hssLen : h.ssStatic.length = 32)
    (hss : m.Holds .ss h.ssStatic) :
    ∃ m' keys, exec P (stage1 P cfg mode.fs h.salt (h.th2 P)) m = .ret (keys, m') ∧
      Mem.Kept [.ikm1, .prk1] m m' ∧ keys.srvConfirm = h.srvConfirm P ∧
      (mode.fs = false → keys.cliConfirm = h.cliConfirm P ∧ keys.c2s = h.c2s P) := by
  -- `ikm1` is the static secret and the PSK.
  have heSs := exec_read P m 0 32 hss (by omega) (by rw [hssLen]; decide)
  rw [slice_of_length hssLen] at heSs
  obtain ⟨m₁, he₁, hh₁, hk₁⟩ := exec_fill P m .ikm1 h.ssStatic
    (by rw [hssLen]; decide)
  obtain ⟨m₂, he₂, hh₂, hk₂⟩ := exec_append P m₁ 32 cfg.devicePsk hh₁ hssLen
    (by rw [cfg.length_devicePsk]; decide)
  have hikm : (h.ssStatic ++ cfg.devicePsk).length = 64 := by
    rw [List.length_append, hssLen, cfg.length_devicePsk]
  have heIkm := exec_read P m₂ 0 64 hh₂ (by omega) (by rw [hikm]; decide)
  rw [slice_of_length hikm] at heIkm
  set prk := P.hkdfExtract h.salt (h.ssStatic ++ cfg.devicePsk) with hprk
  have hprkLen : prk.length = 32 := P.length_hkdfExtract _ _
  obtain ⟨m₃, he₃, hh₃, hk₃⟩ := exec_fill P m₂ .prk1 prk
    (by rw [hprkLen]; decide)
  have hePrk := exec_read P m₃ 0 32 hh₃ (by omega) (by rw [hprkLen]; decide)
  rw [slice_of_length hprkLen] at hePrk
  obtain ⟨m₄, he₄, hk₄⟩ := exec_wipe P m₃ .ikm1
  obtain ⟨m₅, he₅, hk₅⟩ := exec_wipe P m₄ .prk1
  have hkept : Mem.Kept [.ikm1, .prk1] m m₅ := by
    have hkept₁ : Mem.Kept [.ikm1, .prk1] m m₂ := (hk₁.trans hk₂).mono (by simp)
    have hkept₃ := hkept₁.trans (hk₃.mono (by simp))
    exact (hkept₃.trans (hk₄.mono (by simp))).trans (hk₅.mono (by simp))
  have hsrv : P.hkdfExpand prk (P.lits labelSrvConfirm ++ h.th2 P) 32 = h.srvConfirm P := by
    rw [Handshake.srvConfirm, Handshake.ikm1, hpsk]
    rfl
  cases hmode : mode.fs with
  -- In mode B only the confirmation key of the server comes from this stage.
  | true =>
    refine ⟨m₅, ⟨h.srvConfirm P, [], [], []⟩, ?_, hkept, rfl, fun hfalse => by cases hfalse⟩
    simp only [stage1, ssLen, Buffer.size, exec_bind, heSs, he₁, he₂, heIkm, exec_hkdfExtract,
      ← hprk, he₃, hePrk, exec_deriveKey, hsrv, Bool.not_true, Bool.false_eq_true, if_false, he₄,
      he₅, exec_pure, Prog.ret_bind]
  | false =>
    rw [hmode] at hfs
    have hkey : ∀ label, P.hkdfExpand prk (P.lits label ++ h.th2 P) 32 = h.dataKey P label := by
      intro label
      simp only [Handshake.dataKey, Handshake.dataIkm, Handshake.transcript, hfs, Handshake.ikm1,
        hpsk, hprk, Bool.false_eq_true, if_false]
    refine ⟨m₅, ⟨h.srvConfirm P, h.cliConfirm P, h.c2s P, h.s2c P⟩, ?_, hkept, rfl,
      fun _ => ⟨rfl, rfl⟩⟩
    simp only [stage1, ssLen, Buffer.size, exec_bind, heSs, he₁, he₂, heIkm, exec_hkdfExtract,
      ← hprk, he₃, hePrk, exec_deriveKey, hsrv, hkey, Bool.not_false, if_true, he₄, he₅, exec_pure,
      Prog.ret_bind]
    rfl

/-- Mode B's ephemeral part performs one encapsulation, to the key received, and computes the keys
of stage 2 from it. -/
private theorem stage2_lockstep (nonce : List β) {srvConfirm : List β} (hmode : mode.fs = true)
    (hreply : reply.length = Protocol.serverHelloLen mode.spec) (hss : m.Holds .ss enc.ss)
    (hframe : m.Holds .sFrame reply) :
    Prog.Lockstep
      (fun (r : Option (List β × SessionKeys β) × Memory β) (encEph : Encapsulation β) =>
        let h := clientValues P cfg mode nonce enc reply encEph.ct encEph.ss
        if encEph.rc ≠ 0 then
          r.1 = none
        else
          ∃ keys, r.1 = some (h.th3 P, keys) ∧ keys.cliConfirm = h.cliConfirm P ∧
            keys.c2s = h.c2s P ∧ r.2.Holds .sOut encEph.ct ∧ r.2.Holds .sFrame reply)
      (exec P (stage2 P cfg (nonce ++ slice 0 32 reply)
        ((clientValues P cfg mode nonce enc reply [] []).th2 P) srvConfirm) m)
      (Prog.call (S := visible β) (.inr (.mlkem768Enc (slice 40 1184 reply)))) := by
  have hreply' : reply.length = 1256 := by
    rw [hreply]
    cases mode with
    | a => cases hmode
    | bForwardSecrecy => rfl
  have heKey := exec_read P m 40 1184 hframe (by omega) (by rw [hreply']; decide)
  simp only [stage2, nonceLen, sessionIdLen, mlkem768PublicKeyBytes, Nat.reduceAdd, exec_bind,
    heKey, exec_mlkem768Enc, Prog.ret_bind, Prog.op_bind]
  refine .op fun encEph => ?_
  set h := clientValues P cfg mode nonce enc reply encEph.ct encEph.ss with hh
  have hfs : h.fs = true := hmode
  obtain ⟨m₁, he₁, hh₁, hk₁⟩ := exec_fill P m .sOut encEph.ct
    (by rw [encEph.length_ct]; decide)
  obtain ⟨m₂, he₂, hh₂, hk₂⟩ := exec_fill P m₁ .ssEph encEph.ss
    (by rw [encEph.length_ss]; decide)
  simp only [he₁, he₂, Prog.ret_bind]
  -- The outcome of the encapsulation is looked at after its results have been stored.
  by_cases hrc : encEph.rc = 0
  · have hss₂ : m₂.Holds .ss enc.ss := hk₂.holds (by simp) (hk₁.holds (by simp) hss)
    have heCt := exec_read P m₂ 0 1088 (hk₂.holds (by simp) hh₁)
      (by rw [encEph.length_ct]) (by rw [encEph.length_ct]; decide)
    rw [slice_of_length encEph.length_ct] at heCt
    have heSs := exec_read P m₂ 0 32 hss₂ (by rw [enc.length_ss])
      (by rw [enc.length_ss]; decide)
    rw [slice_of_length enc.length_ss] at heSs
    obtain ⟨m₃, he₃, hh₃, hk₃⟩ := exec_fill P m₂ .ikm2 enc.ss
      (by rw [enc.length_ss]; decide)
    have heSsEph := exec_read P m₃ 0 32 (hk₃.holds (by simp) hh₂)
      (by rw [encEph.length_ss]) (by rw [encEph.length_ss]; decide)
    rw [slice_of_length encEph.length_ss] at heSsEph
    obtain ⟨m₄, he₄, hh₄, hk₄⟩ := exec_append P m₃ 32 encEph.ss hh₃
      enc.length_ss (by rw [encEph.length_ss]; decide)
    obtain ⟨m₅, he₅, hh₅, hk₅⟩ := exec_append P m₄ 64 cfg.devicePsk hh₄
      (by rw [List.length_append, enc.length_ss, encEph.length_ss])
      (by rw [cfg.length_devicePsk]; decide)
    have hikm : (enc.ss ++ encEph.ss ++ cfg.devicePsk).length = 96 := by
      rw [List.length_append, List.length_append, enc.length_ss, encEph.length_ss,
        cfg.length_devicePsk]
    have heIkm := exec_read P m₅ 0 96 hh₅ (by omega) (by rw [hikm]; decide)
    rw [slice_of_length hikm] at heIkm
    have hprkLen : (P.hkdfExtract h.salt h.ikm2).length = 32 := P.length_hkdfExtract _ _
    obtain ⟨m₆, he₆, hh₆, hk₆⟩ := exec_fill P m₅ .prk2
      (P.hkdfExtract h.salt h.ikm2) (by rw [hprkLen]; decide)
    have hePrk := exec_read P m₆ 0 32 hh₆ (by omega) (by rw [hprkLen]; decide)
    rw [slice_of_length hprkLen] at hePrk
    obtain ⟨m₇, he₇, hk₇⟩ := exec_wipe P m₆ .ikm2
    obtain ⟨m₈, he₈, hk₈⟩ := exec_wipe P m₇ .prk2
    obtain ⟨m₉, he₉, hk₉⟩ := exec_wipe P m₈ .ssEph
    -- The keys come from both secrets and the PSK, under `th3`.
    have hkey : ∀ label, P.hkdfExpand (P.hkdfExtract h.salt h.ikm2)
        (P.lits label ++ h.th3 P) 32 = h.dataKey P label := by
      intro label
      simp only [Handshake.dataKey, Handshake.dataIkm, Handshake.transcript, hfs, if_true]
    have hth3 : P.sha256 ((clientValues P cfg mode nonce enc reply [] []).th2 P ++ encEph.ct) =
        h.th3 P := rfl
    have hikm2 : enc.ss ++ encEph.ss ++ cfg.devicePsk = h.ikm2 := rfl
    have hsalt : nonce ++ slice 0 32 reply = h.salt := rfl
    have hkept : Mem.Kept [.ssEph, .ikm2, .prk2] m₁ m₉ := by
      have hkept₅ : Mem.Kept [.ssEph, .ikm2, .prk2] m₂ m₅ :=
        ((hk₃.trans hk₄).trans hk₅).mono (by simp)
      have hkept₆ := ((hk₂.mono (by simp)).trans hkept₅).trans (hk₆.mono (by simp))
      exact ((hkept₆.trans (hk₇.mono (by simp))).trans (hk₈.mono (by simp))).trans
        (hk₉.mono (by simp))
    simp only [hrc, ne_eq, not_true_eq_false, if_false, exec_bind, exec_sha256Starts,
      exec_sha256Update, mlkem768CiphertextBytes, heCt, exec_sha256Finish, ssLen, heSs, he₃,
      heSsEph, he₄, Nat.reduceMul, he₅, Buffer.size, heIkm, exec_hkdfExtract, hikm2, hsalt, he₆,
      hePrk, exec_deriveKey, he₇, he₈, he₉, exec_pure, Prog.ret_bind, List.nil_append, hth3, hkey]
    refine .ret ?_
    rw [if_neg (by simp [hrc])]
    exact ⟨_, rfl, rfl, rfl, hkept.holds (by simp) hh₁,
      hkept.holds (by simp) (hk₁.holds (by simp) hframe)⟩
  · obtain ⟨m₃, he₃, -⟩ := exec_wipe P m₂ .ss
    simp only [ne_eq, hrc, not_false_eq_true, if_true, exec_bind, he₃, exec_pure, Prog.ret_bind]
    refine .ret ?_
    rw [if_pos hrc]

/-- The end of the handshake sends the ClientFinished of the specification. -/
private theorem finishHandshake_lockstep (h : PqcIot.Handshake β) {keys : SessionKeys β}
    (hctEph : h.ctEph.length = if mode.fs then 1088 else 0)
    (hreply : 40 ≤ reply.length) (hsize : reply.length ≤ 1256)
    (hsession : h.sessionId = slice 32 8 reply) (hcli : keys.cliConfirm = h.cliConfirm P)
    (hc2s : keys.c2s = h.c2s P) (hout : m.Holds .sOut h.ctEph) (hframe : m.Holds .sFrame reply) :
    Prog.Lockstep (fun r s => r.1 = s)
      (exec P (finishHandshake P mode.fs (Protocol.serverHelloLen mode.spec) (h.transcript P)
        (h.serverMac P) keys) m)
      (clientFinish P mode h) := by
  obtain ⟨m₁, he₁, hk₁⟩ := exec_wipe P m .ss
  -- In mode B the MAC goes behind the ciphertext, in mode A to the front.
  have hmacSlot : (if mode.fs then 1088 else 0) + 32 ≤ 1120 := by
    split <;> omega
  obtain ⟨m₂, he₂, hh₂, hk₂⟩ := exec_append P m₁ (if mode.fs then 1088 else 0)
    (h.clientMac P) (hk₁.holds (by simp) hout) hctEph
    (by rw [h.length_clientMac]; exact hmacSlot)
  have hfinLen : (h.clientFinished P).length = (if mode.fs then 1088 else 0) + 32 := by
    rw [Handshake.clientFinished, List.length_append, hctEph, h.length_clientMac]
  have heFin := exec_read P m₂ 0 ((if mode.fs then 1088 else 0) + 32) hh₂
    (by rw [← hfinLen]; exact (Nat.zero_add _).le)
    (by rw [← Handshake.clientFinished, hfinLen]; exact hmacSlot)
  rw [← Handshake.clientFinished, slice_of_length hfinLen] at heFin
  have heSession := exec_read P m₂ 32 8
    (hk₂.holds (by simp) (hk₁.holds (by simp) hframe)) hreply hsize
  have hfinishedLen : (if mode.fs then clientKeyExchangeLen else macLen) =
      (if mode.fs then 1088 else 0) + 32 := by
    cases mode <;> rfl
  have hmac : P.hmac (h.cliConfirm P) (h.transcript P ++ h.serverMac P) = h.clientMac P := rfl
  simp only [finishHandshake, exec_bind, he₁, hcli, exec_hmacSha256Two, hmac,
    mlkem768CiphertextBytes, he₂, hfinishedLen, heFin, exec_sendFrame, Prog.ret_bind, Prog.op_bind]
  refine .op fun a => ?_
  -- The session is filled in when the frame has been written.
  match a with
  | .error () => exact .ret rfl
  | .ok () =>
    simp only [Prog.ret_bind, if_true, exec_bind, nonceLen, sessionIdLen, heSession, exec_pure]
    refine .ret ?_
    rw [clientSession, hsession, hc2s]
    rfl

/-- From a received ServerHello on, the code is the program of the specification. -/
private theorem afterServerHello_lockstep (hnonce : nonce.length = 32)
    (hreply : reply.length = 72 + if mode.fs then 1184 else 0)
    (hhello : m.Holds .sHello (helloPayload P cfg mode nonce enc.ct)) (hss : m.Holds .ss enc.ss)
    (hframe : m.Holds .sFrame reply) :
    Prog.Lockstep (fun r s => r.1 = s)
      (exec P (afterServerHello P cfg mode.fs (Protocol.serverHelloLen mode.spec) nonce) m)
      (clientVerify P cfg mode nonce enc reply) := by
  set h := clientValues P cfg mode nonce enc reply [] [] with hh
  have hreply' : reply.length = Protocol.serverHelloLen mode.spec := by
    rw [serverHelloLen_spec, hreply]
  have hsize : reply.length ≤ 1256 := by
    rw [hreply]
    split <;> omega
  have hmacEnd : 40 + (if mode.fs then 1184 else 0) + 32 ≤ reply.length := by
    rw [hreply]
    omega
  have heTh2 := exec_hashTranscript2 P cfg mode hnonce hreply' hhello hframe
  have heNonce : exec P (Code.bytesAt .sFrame 0 nonceLen) m = .ret (slice 0 32 reply, m) :=
    exec_read P m 0 32 hframe (by omega) hsize
  obtain ⟨m₁, keys, he₁, hk₁, hsrv, hmodeA⟩ := exec_stage1 P cfg mode h rfl rfl enc.length_ss hss
  have hlen : (h.serverMac P).length = (receivedMac mode reply).length := by
    rw [h.length_serverMac, receivedMac, length_slice hmacEnd]
  have heMac : exec P (Code.bytesAt .sFrame
      (nonceLen + sessionIdLen + if mode.fs then mlkem768PublicKeyBytes else 0) macLen) m₁ =
        .ret (receivedMac mode reply, m₁) :=
    exec_read P m₁ _ _ (hk₁.holds (by simp) hframe) hmacEnd hsize
  have hsalt : nonce ++ slice 0 32 reply = h.salt := rfl
  rw [afterServerHello, exec_bind, heTh2, Prog.ret_bind, exec_bind, heNonce, Prog.ret_bind,
    exec_bind, hsalt, he₁, Prog.ret_bind, exec_bind, exec_hmacSha256, Prog.ret_bind,
      exec_bind, heMac,
    Prog.ret_bind, hsrv]
  rw [clientVerify]
  -- The check of the MAC, which is made before the ephemeral key is encapsulated to.
  by_cases hmac : ctEqual P (h.serverMac P) (receivedMac mode reply) = true
  · have hmacEq := (ctEqual_iff P hlen).mp hmac
    have hneg : ¬ (!ctEqual P (P.hmac (h.srvConfirm P) (h.th2 P)) (receivedMac mode reply)) =
        true := by
      rw [← Handshake.serverMac, hmac]
      decide
    rw [exec_ite, if_neg hneg, if_pos hmac, ← hmacEq, exec_ite]
    by_cases hfs : mode.fs = true
    · -- Mode B: one more encapsulation, after which the two programs agree or both end.
      rw [if_pos hfs, if_pos hfs, exec_bind]
      have hek : h.ekEph = slice 40 1184 reply := if_pos hfs
      rw [hek]
      refine (stage2_lockstep P cfg mode nonce hfs hreply'
        (hk₁.holds (by simp) hss) (hk₁.holds (by simp) hframe)).bind
        (g := fun encEph => if encEph.rc ≠ 0 then .ret none else
          clientFinish P mode (clientValues P cfg mode nonce enc reply encEph.ct encEph.ss)) ?_
      rintro ⟨r, m₂⟩ encEph hr
      dsimp only at hr
      by_cases hrc : encEph.rc ≠ 0
      · rw [if_pos hrc] at hr ⊢
        subst hr
        exact .ret rfl
      · rw [if_neg hrc] at hr ⊢
        obtain ⟨keys₂, rfl, hcli, hc2s, hout, hframe₂⟩ := hr
        have htr : (clientValues P cfg mode nonce enc reply encEph.ct encEph.ss).transcript P =
            (clientValues P cfg mode nonce enc reply encEph.ct encEph.ss).th3 P := if_pos hfs
        dsimp only
        rw [← htr]
        exact finishHandshake_lockstep P mode _ (by rw [hfs]; exact encEph.length_ct) (by omega)
          hsize rfl hcli hc2s hout hframe₂
    · -- Mode A: the keys of stage 1 are the ones that remain.
      rw [if_neg hfs, if_neg hfs]
      have hfalse : mode.fs = false := by simpa using hfs
      have htr : h.transcript P = h.th2 P := if_neg hfs
      rw [← htr]
      exact finishHandshake_lockstep P mode h (by rw [hfalse]; rfl) (by omega) hsize rfl
        (hmodeA hfalse).1 (hmodeA hfalse).2 (Mem.holds_nil _ _) (hk₁.holds (by simp) hframe)
  · have hpos : (!ctEqual P (P.hmac (h.srvConfirm P) (h.th2 P)) (receivedMac mode reply)) =
        true := by
      rw [← Handshake.serverMac]
      simpa using hmac
    obtain ⟨m₂, he₂, -⟩ := exec_wipe P m₁ .ss
    rw [exec_ite, if_pos hpos, if_neg hmac, exec_bind, he₂, Prog.ret_bind]
    exact .ret rfl

end ServerHello

/-- The C code performs the program of the specification, whatever the arrays held before. -/
private theorem handshake_lockstep (m : Memory β) :
    Prog.Lockstep (fun r s => r.1 = s) (exec P (handshake P cfg mode.suite) m)
      (clientHandshake P cfg mode) := by
  have hfs : (mode.suite == suiteMlkem768Fs) = mode.fs := by
    cases mode <;> rfl
  -- Along the visible calls; between two of them the code only computes.
  rw [handshake, exec_bind, exec_espFillRandom, Prog.op_bind, clientHandshake]
  refine .op fun nonce => ?_
  rw [Prog.ret_bind, exec_bind, exec_mlkem768Enc, Prog.op_bind]
  refine .op fun enc => ?_
  obtain ⟨m₁, he₁, hh₁, hk₁⟩ := exec_fill P m .ss enc.ss
    (by rw [enc.length_ss]; decide)
  rw [Prog.ret_bind, exec_bind, he₁, Prog.ret_bind, exec_ite]
  by_cases hrc : enc.rc ≠ 0
  · rw [if_pos hrc, if_pos hrc]
    exact .ret rfl
  obtain ⟨m₂, he₂, hh₂, hk₂⟩ := exec_fillHello P cfg mode m₁ nonce.2 enc.length_ct
  have hlen := length_helloPayload P cfg mode nonce.2 enc.length_ct
  have heHello : exec P (Code.bytesAt .sHello 0 clientHelloLen) m₂ =
      .ret (helloPayload P cfg mode nonce.1 enc.ct, m₂) := by
    have h := exec_read P m₂ 0 1166 hh₂ (by omega) (by rw [hlen]; decide)
    rwa [slice_of_length hlen] at h
  -- `i != CLIENT_HELLO_LEN` never holds.
  have hi : ¬ (1166 : ℕ) ≠ clientHelloLen := by decide
  rw [if_neg hrc, if_neg hrc, exec_bind, he₂, Prog.ret_bind, exec_ite, if_neg hi, exec_bind,
    heHello, Prog.ret_bind, exec_bind, exec_sendFrame, Prog.op_bind]
  refine .op fun written => ?_
  match written with
  | .error () =>
    rw [Prog.ret_bind]
    exact .ret rfl
  | .ok () =>
    rw [Prog.ret_bind]
    dsimp only
    rw [if_pos rfl, exec_bind, exec_receiveFrame, Prog.op_bind]
    refine .op fun received => ?_
    match received with
    -- What was received before the failure stays in `s_frame`.
    | .error got =>
      obtain ⟨m₃, he₃, -⟩ := exec_fill P m₂ .sFrame got.1 got.2
      dsimp only
      rw [he₃, Prog.ret_bind, Prog.ret_bind]
      exact .ret rfl
    | .ok (ftype, reply) =>
      obtain ⟨m₃, he₃, hh₃, hk₃⟩ := exec_fill P m₂ .sFrame reply.1 reply.2
      have hexpected : (if mode.fs then serverHelloLenFs else serverHelloLen) =
          Protocol.serverHelloLen mode.spec := by
        cases mode <;> rfl
      dsimp only
      rw [he₃, Prog.ret_bind, Prog.ret_bind, hfs, hexpected, exec_ite]
      -- The type and the length of ServerHello.
      by_cases hbad : ftype ≠ frameServerHello ∨
          reply.1.length ≠ Protocol.serverHelloLen mode.spec
      · rw [if_pos hbad, if_pos hbad]
        exact .ret rfl
      · rw [if_neg hbad, if_neg hbad]
        rw [not_or, not_not, not_not] at hbad
        exact afterServerHello_lockstep P cfg mode nonce.2
          (by rw [hbad.2, serverHelloLen_spec]) (hk₃.holds (by simp) hh₂)
          (hk₃.holds (by simp) (hk₂.holds (by simp) hh₁)) hh₃

/-- `handshake` of the firmware, with mbedtls as documented, is the client's handshake: from any
initial memory, and without an access outside an array. -/
theorem handshake_refines (m : Memory β) :
    Prod.fst <$> exec P (handshake P cfg mode.suite) m = clientHandshake P cfg mode :=
  (handshake_lockstep P cfg mode m).map_eq

end Refinement

end Firmware

end PqcIot
