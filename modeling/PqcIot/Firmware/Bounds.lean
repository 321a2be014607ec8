import PqcIot.Firmware.Records
import PqcIot.Firmware.Rules

/-!
# Bounds

Nothing that `pqc_session.c` calls, and nothing that a server sends, makes it leave an array:
whatever mbedtls, mlkem-native, the operating system and the network answer, every access of a
session is inside its array, and every call is given buffers of the sizes it expects
(`pqcSessionRun_inBounds`). The invariant is on the lengths of the values that are handed on.

`Code.Yields p R c` says that every call of `c` satisfies `p` and every result satisfies `R`; there
is one rule for each construct of the code, and those for arrays ask for the bounds.
-/

namespace PqcIot

open Effects

namespace Firmware

variable {β α γ : Type}

/-! ## Rules -/

namespace Code

/-- Every call of the code satisfies `p` and every result `R`, in any memory and whatever the calls
answer. -/
def Yields (p : (calls β).Op → Prop) (R : α → Prop) (c : Code β α) : Prop :=
  ∀ h m, Ensures (fun _ o => p o) (fun _ a _ => R a) h m c

variable {p : (calls β).Op → Prop} {R : α → Prop}

theorem Yields.pure {a : α} (ha : R a) : Yields p R (Pure.pure a : Code β α) := fun _ _ => ha

/-- What the first piece of code yields is what the second may rely on. -/
theorem Yields.bind {R' : γ → Prop} {c : Code β α} {f : α → Code β γ} (hc : Yields p R c)
    (hf : ∀ a, R a → Yields p R' (f a)) : Yields p R' (c >>= f) := fun h m =>
  (hc h m).bind fun l a m' ha => hf a ha (h ++ l) m'

/-- A call of mbedtls with buffers of the right sizes. -/
theorem Yields.mbedtls {o : MbedtlsOp β} (ho : p (.inl o)) :
    Yields p (fun _ => True) (Code.mbedtls o) := fun _ _ => ⟨ho, fun _ => trivial⟩

/-- A call of the framing that is in bounds. -/
theorem Yields.frame {o : FrameOp β} (ho : p (.inr (.inl o))) :
    Yields p (fun _ => True) (Code.frame o) := fun _ _ => ⟨ho, fun _ => trivial⟩

/-- A call of the operating system that is in bounds. -/
theorem Yields.host {o : HostOp β} (ho : p (.inr (.inr o))) :
    Yields p (fun _ => True) (Code.host o) := fun _ _ => ⟨ho, fun _ => trivial⟩

/-- A write inside an array. -/
theorem Yields.memcpy {b : Buffer} {off : ℕ} {data : List β}
    (hfit : off + data.length ≤ b.size) :
    Yields p (fun _ => True) (Code.memcpy b off data) := by
  intro h m
  unfold Code.memcpy
  rw [Ensures, StateT.run, dif_pos hfit]
  trivial

/-- A read inside an array gives as many bytes as were asked for. -/
theorem Yields.bytesAt {b : Buffer} {off len : ℕ} (hfit : off + len ≤ b.size) :
    Yields p (fun l => l.length = len) (Code.bytesAt b off len : Code β (List β)) := by
  intro h m
  unfold Code.bytesAt
  rw [Ensures, StateT.run, if_pos hfit]
  exact length_slice ((m.length_bytes b).symm ▸ hfit)

/-- Each branch may rely on the condition that leads to it. -/
theorem Yields.ite {q : Prop} [Decidable q] {c d : Code β α} (hc : q → Yields p R c)
    (hd : ¬ q → Yields p R d) : Yields p R (if q then c else d) := by
  split
  · exact hc ‹_›
  · exact hd ‹_›

end Code

open Code

/-! ## What the calls are given -/

/-- The access is inside its array, and the call is given buffers of the sizes it expects: keys and
PRKs of 32 bytes, `info[40 + 32]`, nonces of 12, and frames that fit `s_frame`, and with it the
`uint16_t` of their length. -/
def InBounds : (calls β).Op → Prop
  | .inl (.mdHmacStarts key) | .inl (.mdHmacUpdate key _ _) | .inl (.mdHmacFinish key _)
  | .inl (.mdHmac key _) | .inl (.gcmSetkey key) => key.length = 32
  | .inl (.hkdfExtract salt ikm) =>
    salt.length = 64 ∧ (ikm.length = Buffer.ikm1.size ∨ ikm.length = Buffer.ikm2.size)
  | .inl (.hkdfExpand prk info) => prk.length = 32 ∧ info.length ≤ 40 + 32
  | .inl (.gcmCryptAndTag key iv add input) =>
    key.length = 32 ∧ iv.length = 12 ∧ add.length = sessionIdLen + 10 ∧
      10 + input.length + tagLen ≤ Buffer.sFrame.size
  | .inl .mdSetup | .inl .sha256Starts | .inl (.sha256Update _ _) | .inl (.sha256Finish _) => True
  | .inr (.inl (.write _ payload)) => payload.length ≤ Buffer.sFrame.size
  | .inr (.inl (.read capacity)) => capacity = Buffer.sFrame.size
  | .inr (.inr (.espFillRandom len)) => len = nonceLen
  | .inr (.inr (.mlkem768Enc pk)) => pk.length = mlkem768PublicKeyBytes
  | .inr (.inr .connectToServer) | .inr (.inr .close) => True
  | .inr (.inr .trap) => False

/-- Values of `n` bytes. -/
abbrev Sized (n : ℕ) (l : List β) : Prop := l.length = n

section Primitives

variable (P : Prims β)

/-- A whole buffer is wiped, which stays inside it. -/
private theorem yields_wipe (b : Buffer) : Yields InBounds (fun _ => True) (wipe P b) :=
  .memcpy (by simp)

/-- A MAC has 32 bytes. -/
private theorem yields_hmacSha256 {key : List β} (msg : List β) (hkey : key.length = 32) :
    Yields InBounds (Sized 32) (hmacSha256 key msg) :=
  .bind (.mbedtls hkey) fun result _ => .pure result.length_out

/-- So has one over two pieces. -/
private theorem yields_hmacSha256Two {key : List β} (a b : List β) (hkey : key.length = 32) :
    Yields InBounds (Sized 32) (hmacSha256Two key a b) := by
  refine .bind (.mbedtls trivial) fun _ _ => .bind (.mbedtls hkey) fun _ _ =>
    .bind (.mbedtls hkey) fun _ _ => .ite (fun _ => .bind (.mbedtls hkey) fun _ _ => ?_) fun _ => ?_
  · exact .bind (.mbedtls hkey) fun result _ => .pure result.length_out
  · exact .bind (.mbedtls hkey) fun result _ => .pure result.length_out

/-- The start of a hash writes no buffer of the session. -/
private theorem yields_sha256Starts : Yields InBounds (fun _ => True) (sha256Starts (β := β)) :=
  .bind (.mbedtls trivial) fun _ _ => .pure trivial

/-- Neither does feeding it. -/
private theorem yields_sha256Update (fed input : List β) :
    Yields InBounds (fun _ => True) (sha256Update fed input) :=
  .bind (.mbedtls trivial) fun _ _ => .pure trivial

/-- A hash has 32 bytes. -/
private theorem yields_sha256Finish (fed : List β) :
    Yields InBounds (Sized 32) (sha256Finish fed) :=
  .bind (.mbedtls trivial) fun result _ => .pure result.length_out

/-- The salt is two nonces, and the key material is that of one of the two stages. -/
private theorem yields_hkdfExtract {salt ikm : List β} (hsalt : salt.length = 64)
    (hikm : ikm.length = Buffer.ikm1.size ∨ ikm.length = Buffer.ikm2.size) :
    Yields InBounds (Sized 32) (hkdfExtract salt ikm) :=
  .bind (.mbedtls ⟨hsalt, hikm⟩) fun result _ => .pure result.length_out

/-- The label and the hash fit the array `info`, and a key has 32 bytes. -/
private theorem yields_deriveKey {prk th2 : List β} {label : List UInt8} (hprk : prk.length = 32)
    (hlabel : label.length ≤ 40) (hth2 : th2.length = 32) :
    Yields InBounds (Sized 32) (deriveKey P prk label th2) := by
  refine .bind (.mbedtls ⟨hprk, ?_⟩) fun result _ => .pure result.length_out
  rw [List.length_append, P.length_lits, hth2]
  exact Nat.add_le_add_right hlabel 32

/-- The nonce is drawn into an array of its size. -/
private theorem yields_espFillRandom :
    Yields InBounds (fun _ => True) (espFillRandom (β := β) nonceLen) := .host rfl

/-- The public key has the size that mlkem-native reads. -/
private theorem yields_mlkem768Enc {pk : List β} (hpk : pk.length = 1184) :
    Yields InBounds (fun _ => True) (mlkem768Enc pk) := .host hpk

/-- A payload that fits the frame buffer is sent from it. -/
private theorem yields_sendFrame {ftype : UInt8} {payload : List β}
    (hlen : payload.length ≤ Buffer.sFrame.size) :
    Yields InBounds (fun _ => True) (sendFrame ftype payload) := by
  refine .bind (.frame hlen) fun written _ => ?_
  cases written with
  | ok _ => exact .pure trivial
  | error _ => exact .pure trivial

/-- A frame is read into the buffer, up to its size. -/
private theorem yields_receiveFrame :
    Yields InBounds (fun _ => True) (receiveFrame (β := β) .sFrame) := by
  refine .bind (.frame rfl) fun received _ => ?_
  cases received with
  | error got => exact .bind (.memcpy (by simpa using got.2)) fun _ _ => .pure trivial
  | ok frame => exact .bind (.memcpy (by simpa using frame.2.2)) fun _ _ => .pure trivial

end Primitives

/-! ## The handshake -/

section Handshake

variable (P : Prims β) (cfg : Config β)

/-- The ClientHello fits `s_hello`. -/
private theorem yields_fillHello (suite : UInt8) {clientNonce kemCt : List β}
    (hnonce : clientNonce.length = 32) (hct : kemCt.length = 1088) :
    Yields InBounds (fun _ => True) (fillHello P cfg suite clientNonce kemCt) := by
  have hid := cfg.length_deviceId
  have hkey := cfg.length_serverKeyId
  -- One step for each field, and the MAC over all of them.
  refine .bind (.memcpy (by simp [Buffer.size])) fun _ _ =>
    .bind (.memcpy (by simp [Buffer.size])) fun _ _ => .bind (.memcpy ?_) fun _ _ =>
    .bind (.memcpy ?_) fun _ _ => .bind (.memcpy ?_) fun _ _ => .bind (.memcpy ?_) fun _ _ =>
    .bind (.bytesAt (by decide)) fun body _ =>
    .bind (yields_hmacSha256Two _ body cfg.length_devicePsk) fun mac hmac =>
    .bind (.memcpy ?_) fun _ _ => .pure trivial
  · rw [hid]; decide
  · rw [hkey]; decide
  · rw [hnonce]; decide
  · rw [hct]; decide
  · rw [hmac]; decide

/-- The hashed parts of the ServerHello lie in the frame. -/
private theorem yields_hashTranscript2 (fs : Bool) :
    Yields InBounds (Sized 32) (hashTranscript2 (β := β) fs) := by
  refine .bind yields_sha256Starts fun _ _ => .bind (.bytesAt (by decide)) fun _ _ =>
    .bind (yields_sha256Update _ _) fun _ _ => .bind (.bytesAt (by decide)) fun _ _ =>
    .bind (yields_sha256Update _ _) fun _ _ => .bind (.bytesAt (by decide)) fun _ _ =>
    .bind (yields_sha256Update _ _) fun _ _ => .ite (fun _ => ?_) fun _ => yields_sha256Finish _
  exact .bind (.bytesAt (by decide)) fun _ _ => .bind (yields_sha256Update _ _) fun _ _ =>
    yields_sha256Finish _

/-- The keys that are used next have 32 bytes: of stage 1 in mode B, only the server's. -/
def KeysFor (fs : Bool) (keys : SessionKeys β) : Prop :=
  keys.srvConfirm.length = 32 ∧ (fs = false → keys.cliConfirm.length = 32 ∧ keys.c2s.length = 32)

/-- The keys of the first stage have 32 bytes, those that the mode goes on to use. -/
private theorem yields_stage1 (fs : Bool) {salt th2 : List β} (hsalt : salt.length = 64)
    (hth2 : th2.length = 32) :
    Yields InBounds (KeysFor fs) (stage1 P cfg fs salt th2) := by
  have hpsk := cfg.length_devicePsk
  -- Every label fits in `info` together with the hash.
  have hderive {prk1 : List β} (hprk1 : prk1.length = 32) {label : List UInt8}
      (hlabel : label.length ≤ 40) : Yields InBounds (Sized 32) (deriveKey P prk1 label th2) :=
    yields_deriveKey P hprk1 hlabel hth2
  refine .bind (.bytesAt (by decide)) fun ss hss => .bind (.memcpy (by rw [hss]; decide)) fun _ _ =>
    .bind (.memcpy (by rw [hpsk]; decide)) fun _ _ => .bind (.bytesAt (by decide)) fun ikm1 hikm1 =>
    .bind (yields_hkdfExtract hsalt (.inl hikm1)) fun prk hprk =>
    .bind (.memcpy (by rw [hprk]; decide)) fun _ _ => .bind (.bytesAt (by decide)) fun prk1 hprk1 =>
    .bind (hderive hprk1 (by decide)) fun srvConfirm hsrv => .ite (fun hfs => ?_) fun hfs => ?_
  · exact .bind (hderive hprk1 (by decide)) fun cliConfirm hcli =>
      .bind (hderive hprk1 (by decide)) fun c2s hc2s =>
      .bind (hderive hprk1 (by decide)) fun s2c _ => .bind (yields_wipe P _) fun _ _ =>
      .bind (yields_wipe P _) fun _ _ => .pure ⟨hsrv, fun _ => ⟨hcli, hc2s⟩⟩
  · -- In mode B the other keys are not derived here, and not used.
    have hfs' : fs = true := by simpa using hfs
    refine .bind (yields_wipe P _) fun _ _ => .bind (yields_wipe P _) fun _ _ => .pure ⟨hsrv, ?_⟩
    rw [hfs']
    exact fun hfalse => absurd hfalse.symm Bool.false_ne_true

/-- What stage 2 hands on. -/
def Stage2Result (result : Option (List β × SessionKeys β)) : Prop :=
  ∀ transcript keys, result = some (transcript, keys) →
    transcript.length = 32 ∧ keys.cliConfirm.length = 32 ∧ keys.c2s.length = 32

/-- So does the second. -/
private theorem yields_stage2 {salt : List β} (hsalt : salt.length = 64)
    (th2 srvConfirm : List β) :
    Yields InBounds Stage2Result (stage2 P cfg salt th2 srvConfirm) := by
  have hpsk := cfg.length_devicePsk
  refine .bind (.bytesAt (by decide)) fun ekEph hek => .bind (yields_mlkem768Enc hek) fun enc _ =>
    .bind (.memcpy (by rw [enc.length_ct]; decide)) fun _ _ =>
    .bind (.memcpy (by rw [enc.length_ss]; decide)) fun _ _ => .ite (fun _ => ?_) fun _ => ?_
  · -- The encapsulation has failed.
    exact .bind (yields_wipe P _) fun _ _ => .pure nofun
  · refine .bind yields_sha256Starts fun _ _ => .bind (yields_sha256Update _ _) fun _ _ =>
      .bind (.bytesAt (by decide)) fun _ _ => .bind (yields_sha256Update _ _) fun _ _ =>
      .bind (yields_sha256Finish _) fun transcript htranscript =>
      .bind (.bytesAt (by decide)) fun ss hss => .bind (.memcpy (by rw [hss]; decide)) fun _ _ =>
      .bind (.bytesAt (by decide)) fun ssEph hssEph =>
      .bind (.memcpy (by rw [hssEph]; decide)) fun _ _ =>
      .bind (.memcpy (by rw [hpsk]; decide)) fun _ _ =>
      .bind (.bytesAt (by decide)) fun ikm2 hikm2 =>
      .bind (yields_hkdfExtract hsalt (.inr hikm2)) fun prk hprk =>
      .bind (.memcpy (by rw [hprk]; decide)) fun _ _ =>
      .bind (.bytesAt (by decide)) fun prk2 hprk2 =>
      .bind (yields_deriveKey P hprk2 (by decide) htranscript) fun cliConfirm hcli =>
      .bind (yields_deriveKey P hprk2 (by decide) htranscript) fun c2s hc2s =>
      .bind (yields_deriveKey P hprk2 (by decide) htranscript) fun s2c _ =>
      .bind (yields_wipe P _) fun _ _ => .bind (yields_wipe P _) fun _ _ =>
      .bind (yields_wipe P _) fun _ _ => .pure ?_
    -- The lengths are those of the three derivations.
    rintro _ _ ⟨⟩
    exact ⟨htranscript, hcli, hc2s⟩

/-- The session that a handshake sets up, if it does. -/
def SessionSized (session : Option (Session β)) : Prop :=
  ∀ s, session = some s → s.sessionId.length = 8 ∧ s.c2s.length = 32

/-- There is nothing to ask of a handshake that sets up no session. -/
private theorem sessionSized_none : SessionSized (none : Option (Session β)) := nofun

/-- After the keys: the MAC is compared, and the confirmation is sent from an array of 32 bytes. -/
private theorem yields_finishHandshake (fs : Bool) (expectedLen : ℕ)
    (transcript serverMac : List β) {keys : SessionKeys β} (hcli : keys.cliConfirm.length = 32)
    (hc2s : keys.c2s.length = 32) :
    Yields InBounds SessionSized
      (finishHandshake P fs expectedLen transcript serverMac keys) := by
  refine .bind (yields_wipe P _) fun _ _ => .bind (yields_hmacSha256Two _ _ hcli) fun mac hmac =>
    .bind (.memcpy ?_) fun _ _ => .bind (.bytesAt ?_) fun payload hpayload =>
    .bind (yields_sendFrame ?_) fun _ _ => .ite (fun _ => ?_) fun _ => .pure sessionSized_none
  · -- The MAC fits behind the ciphertext, which mode A does not send.
    rw [hmac]
    cases fs <;> decide
  · cases fs <;> decide
  · rw [hpayload]
    cases fs <;> decide
  · refine .bind (.bytesAt (by decide)) fun sessionId hsid => .pure ?_
    rintro s ⟨⟩
    exact ⟨hsid, hc2s⟩

/-- After the ServerHello has been read: its length is checked before its fields are. -/
private theorem yields_afterServerHello (fs : Bool) (expectedLen : ℕ) {clientNonce : List β}
    (hnonce : clientNonce.length = 32) :
    Yields InBounds SessionSized (afterServerHello P cfg fs expectedLen clientNonce) := by
  refine .bind (yields_hashTranscript2 fs) fun th2 hth2 =>
    .bind (.bytesAt (by decide)) fun serverNonce hserver => ?_
  have hsalt : (clientNonce ++ serverNonce).length = 64 := by
    rw [List.length_append, hnonce, hserver, nonceLen]
  refine .bind (yields_stage1 P cfg fs hsalt hth2) fun keys hkeys =>
    .bind (yields_hmacSha256 _ hkeys.1) fun _ _ =>
    .bind (.bytesAt (by cases fs <;> decide)) fun serverMac _ => .ite (fun _ => ?_) fun _ =>
    .ite (fun _ => ?_) fun hfs => ?_
  · -- The MAC of the server is wrong.
    exact .bind (yields_wipe P _) fun _ _ => .pure sessionSized_none
  · refine .bind (yields_stage2 P cfg hsalt _ _) fun exchanged hexchanged => ?_
    cases exchanged with
    | none => exact .pure sessionSized_none
    | some result =>
      obtain ⟨-, hcli, hc2s⟩ := hexchanged _ _ rfl
      exact yields_finishHandshake P _ _ _ _ hcli hc2s
  · obtain ⟨hcli, hc2s⟩ := hkeys.2 (Bool.eq_false_iff.mpr hfs)
    exact yields_finishHandshake P _ _ _ _ hcli hc2s

/-- The whole handshake; the session that it returns has keys of 32 bytes and an identifier of 8. -/
private theorem yields_handshake (suite : UInt8) :
    Yields InBounds SessionSized (handshake P cfg suite) := by
  refine .bind yields_espFillRandom fun nonce _ =>
    .bind (yields_mlkem768Enc cfg.length_serverPublicKey) fun enc _ =>
    .bind (.memcpy (by rw [enc.length_ss]; decide)) fun _ _ =>
    .ite (fun _ => .pure sessionSized_none) fun _ =>
    .bind (yields_fillHello P cfg suite nonce.2 enc.length_ct) fun _ _ =>
    .ite (fun _ => .pure sessionSized_none) fun _ =>
    .bind (.bytesAt (by decide)) fun hello hhello =>
    .bind (yields_sendFrame (by rw [hhello]; decide)) fun _ _ => .ite (fun _ => ?_)
      fun _ => .pure sessionSized_none
  -- However long ServerHello is, it is in `s_frame` when its length is compared.
  refine .bind yields_receiveFrame fun received _ => ?_
  cases received with
  | none => exact .pure sessionSized_none
  | some _ =>
    exact .ite (fun _ => .pure sessionSized_none) fun _ =>
      yields_afterServerHello P cfg _ _ nonce.2

end Handshake

/-! ## Records -/

section Records

variable (P : Prims β)

/-- The record key has the size that mbedtls reads. -/
private theorem yields_gcmSetkey {key : List β} (hkey : key.length = 32) :
    Yields InBounds (fun _ => True) (gcmSetkey key) := .mbedtls hkey

/-- The nonce, the additional data and the record have the sizes of their arrays. -/
private theorem yields_gcmCryptAndTag {key iv add input : List β} (hkey : key.length = 32)
    (hiv : iv.length = 12) (hadd : add.length = 18) (hinput : 10 + input.length + 16 ≤ 1256) :
    Yields InBounds (fun _ => True) (gcmCryptAndTag key iv add input) :=
  .mbedtls ⟨hkey, hiv, hadd, hinput⟩

/-- A record is refused or fits `s_out`, and the session keeps its sizes. -/
private theorem yields_sendRecord {session : Session β} (hsid : session.sessionId.length = 8)
    (hc2s : session.c2s.length = 32) (plain : Payload β 65535) :
    Yields InBounds (fun r => r.2.sessionId.length = 8 ∧ r.2.c2s.length = 32)
      (sendRecord P session plain) := by
  have hlen := toNat_plainLen plain
  -- Every bound below comes from this check of the length.
  refine .ite (fun _ => .pure ⟨hsid, hc2s⟩) fun hfits => ?_
  rw [hlen, tagLen, Buffer.size] at hfits
  have hseq : (seqBytes session.sendSeq).length = 8 := by
    rw [seqBytes_eq, length_beBytes]
  refine .bind (.memcpy ?_) fun _ _ => .bind (.memcpy ?_) fun _ _ => .bind (.memcpy ?_) fun _ _ =>
    .bind (yields_gcmSetkey hc2s) fun _ _ => .ite (fun _ => .pure ⟨hsid, hc2s⟩) fun _ =>
    .bind (yields_gcmCryptAndTag hc2s ?_ ?_ ?_) fun result _ => .bind (.memcpy ?_) fun _ _ =>
    .bind (.memcpy ?_) fun _ _ => .ite (fun _ => .pure ⟨hsid, hc2s⟩) fun _ =>
    .bind (.bytesAt ?_) fun record hrecord => .bind (yields_sendFrame ?_) fun _ _ =>
    .ite (fun _ => .pure ⟨hsid, hc2s⟩) fun _ => .pure ⟨hsid, hc2s⟩
  · exact (Nat.zero_add _).trans_le ((List.length_take_le _ _).trans (by decide))
  · simp [Buffer.size]
  · simp [Buffer.size]
  · rw [P.length_lits, List.length_append, hseq]
    rfl
  · rw [List.length_append, P.length_lits, List.length_append, hsid, hseq]
    rfl
  · omega
  · rw [result.length_ciphertext, Buffer.size]
    omega
  · rw [hlen, result.length_tag, Buffer.size]
    omega
  · rw [hlen, toNat_frameLen (by omega), Buffer.size]
    omega
  · rw [hrecord, hlen, toNat_frameLen (by omega), Buffer.size]
    omega

/-- So it is for all records that are sent. -/
private theorem yields_sendRecords (count n : ℕ) {session : Session β}
    (hsid : session.sessionId.length = 8) (hc2s : session.c2s.length = 32) :
    Yields InBounds (fun _ => True) (sendRecords P count n session) := by
  induction count generalizing n session with
  | zero => exact .pure trivial
  | succ count ih =>
    rw [sendRecords]
    generalize (⟨(P.lits (literal (recordText n))).take 79, _⟩ : Payload β 65535) = plain
    refine (yields_sendRecord P hsid hc2s plain).bind ?_
    rintro ⟨ok, session'⟩ ⟨hsid', hc2s'⟩
    exact .ite (fun _ => ih (n + 1) hsid' hc2s') fun _ => .pure trivial

/-- Closing the connection touches no buffer. -/
private theorem yields_close : Yields InBounds (fun _ => True) (Code.host (β := β) .close) :=
  .host trivial

/-- Connecting, the handshake, the records and the wiping at the end. -/
private theorem yields_pqcSessionRun (cfg : Config β) (mode : Mode) (recordCount : ℤ) :
    Yields InBounds (fun _ => True) (pqcSessionRun P cfg mode recordCount) := by
  refine .bind (.host trivial) fun connected _ => .ite (fun _ => ?_) fun _ => .pure trivial
  refine .bind (yields_handshake P cfg mode.suite) fun s hs => ?_
  cases s with
  | none => exact .bind yields_close fun _ _ => .pure trivial
  | some session =>
    obtain ⟨hsid, hc2s⟩ := hs session rfl
    refine .bind (yields_sendRecords P recordCount.toNat 0 hsid hc2s) fun ok _ =>
      .ite (fun _ => ?_) fun _ => .bind yields_close fun _ _ => .pure trivial
    exact .bind (yields_sendFrame (Nat.zero_le _)) fun _ _ =>
      .bind yields_close fun _ _ => .pure trivial

/-- Whatever the calls of a session answer — any return codes, any contents of the output buffers,
any frames of any length — and whatever the static buffers held before, `pqc_session_run` accesses
no array out of its bounds, and every call is given buffers of the sizes it expects. -/
theorem pqcSessionRun_inBounds (cfg : Config β) (mode : Mode) (recordCount : ℤ) (m : Memory β)
    {log : CallLog β} {q : Prog (calls β) (Bool × Memory β)}
    (hrun : Prog.Run ((pqcSessionRun P cfg mode recordCount).run m) log q) :
    (∀ e ∈ log, InBounds e.1) ∧ ∀ o k, q = .op o k → InBounds o := by
  -- The specification holds of the calls of any run.
  have hspec := yields_pqcSessionRun P cfg mode recordCount [] m
  constructor
  · intro e he
    obtain ⟨l₁, l₂, rfl⟩ := List.append_of_mem he
    exact Prog.Spec.op_of_run hspec hrun
  · rintro o k rfl
    exact (Prog.Spec.of_run hspec hrun).1

end Records

end Firmware

end PqcIot
