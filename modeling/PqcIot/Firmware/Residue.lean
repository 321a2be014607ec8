import PqcIot.Firmware.Records
import PqcIot.Firmware.Rules

/-!
# What an earlier session has left in the buffers

Two runs of `pqc_session_run` from any two memories, side by side. They make the same calls, with
the same arguments, and return the same (`pqcSessionRun_uniform`), since every byte that is read of
an array was written before in the same session. `Code.Uniform k c Q` follows how far the two
memories agree: by `k` at the start of the code, and at its end as the postcondition says.
-/

namespace PqcIot

open Effects

namespace Firmware

variable {β α γ : Type}

/-- How many of the first bytes of each array have been written. -/
abbrev Written : Type := Buffer → ℕ

namespace Code

/-- From memories that agree on the bytes written so far, the code makes the same calls and returns
the same, and then the memories agree as `Q` says for the result. -/
def Uniform (k : Written) (c : Code β α) (Q : α → Written → Prop) : Prop :=
  ∀ m m' : Memory β, m.Agree k m' →
    Prog.Lockstep (fun r r' => r.1 = r'.1 ∧ ∃ k', Q r.1 k' ∧ r.2.Agree k' r'.2) (c.run m) (c.run m')

variable {k : Written} {Q : α → Written → Prop}

theorem Uniform.pure {a : α} (ha : Q a k) : Uniform k (Pure.pure a : Code β α) Q :=
  fun _ _ hagree => .ret ⟨rfl, k, ha, hagree⟩

/-- What is the same after the first piece of code is what the second needs. -/
theorem Uniform.bind {c : Code β α} {f : α → Code β γ} {R : γ → Written → Prop}
    (hc : Uniform k c Q) (hf : ∀ a k', Q a k' → Uniform k' (f a) R) : Uniform k (c >>= f) R := by
  intro m m' hagree
  refine (hc m m' hagree).bind ?_
  rintro ⟨a, m₁⟩ ⟨a', m₁'⟩ ⟨rfl, k', hQ, hagree'⟩
  exact hf a k' hQ m₁ m₁' hagree'

/-- A weaker postcondition. -/
theorem Uniform.mono {c : Code β α} {R : α → Written → Prop} (hc : Uniform k c Q)
    (hR : ∀ a k', Q a k' → R a k') : Uniform k c R := fun m m' hagree =>
  (hc m m' hagree).mono fun _ _ ⟨heq, k', hQ, hagree'⟩ => ⟨heq, k', hR _ _ hQ, hagree'⟩

/-- Each branch may rely on the condition that leads to it. -/
theorem Uniform.ite {p : Prop} [Decidable p] {c d : Code β α} (hc : p → Uniform k c Q)
    (hd : ¬ p → Uniform k d Q) : Uniform k (if p then c else d) Q := by
  split
  · exact hc ‹_›
  · exact hd ‹_›

/-- A call of mbedtls neither reads nor writes the arrays. -/
theorem Uniform.mbedtls {o : MbedtlsOp β} {Q : MbedtlsOp.Ans o → Written → Prop}
    (hQ : ∀ a, Q a k) : Uniform k (Code.mbedtls o) Q :=
  fun _ _ hagree => .op fun a => .ret ⟨rfl, k, hQ a, hagree⟩

/-- Neither does a call of the framing, whose bytes are handed on. -/
theorem Uniform.frame {o : FrameOp β} {Q : FrameOp.Ans β FrameFailure o → Written → Prop}
    (hQ : ∀ a, Q a k) : Uniform k (Code.frame o) Q :=
  fun _ _ hagree => .op fun a => .ret ⟨rfl, k, hQ a, hagree⟩

/-- Neither does a call of the operating system. -/
theorem Uniform.host {o : HostOp β} {Q : HostOp.Ans o → Written → Prop}
    (hQ : ∀ a, Q a k) : Uniform k (Code.host o) Q :=
  fun _ _ hagree => .op fun a => .ret ⟨rfl, k, hQ a, hagree⟩

/-- Bytes that have been written are read. -/
theorem Uniform.bytesAt {b : Buffer} {off len : ℕ} (hlen : off + len ≤ k b) :
    Uniform k (Code.bytesAt b off len : Code β _) fun bytes k' => bytes.length = len ∧ k' = k := by
  intro m m' hagree
  simp only [Code.bytesAt, StateT.run]
  split
  · have hload : (m.load b off len).length = len := by
      rw [Mem.load, slice, List.length_take, List.length_drop, m.length_bytes]
      omega
    exact .ret ⟨hagree.load hlen, k, ⟨hload, rfl⟩, hagree⟩
  · -- Outside the array, neither run goes on.
    exact .op fun a => Empty.elim a

/-- The written bytes of an array are continued. -/
theorem Uniform.memcpy {b : Buffer} {off n : ℕ} {data : List β} (hoff : off ≤ k b)
    (hn : off + data.length = n) :
    Uniform k (Code.memcpy b off data) fun _ k' => k ≤ k' ∧ n ≤ k' b := by
  intro m m' hagree
  simp only [Code.memcpy, StateT.run]
  split
  · refine .ret ⟨trivial, _, ⟨fun b' => ?_, ?_⟩, hagree.store hoff ‹_›⟩
    · by_cases hb : b' = b
      · subst hb
        rw [Function.update_self]
        exact le_max_left _ _
      · rw [Function.update_of_ne hb]
    · rw [Function.update_self, ← hn]
      exact le_max_right _ _
  · exact .op fun a => Empty.elim a

/-! The rules for statements, with what comes after them. -/

section Statements

variable {R : γ → Written → Prop}

/-- A call of mbedtls and what follows it. -/
theorem Uniform.mbedtls_bind {o : MbedtlsOp β} {f : MbedtlsOp.Ans o → Code β γ}
    (hf : ∀ a, Uniform k (f a) R) : Uniform k (Code.mbedtls o >>= f) R :=
  .bind (Q := fun _ k' => k' = k) (.mbedtls fun _ => rfl) fun a _ hk => hk ▸ hf a

/-- A call of the framing and what follows it. -/
theorem Uniform.frame_bind {o : FrameOp β} {f : FrameOp.Ans β FrameFailure o → Code β γ}
    (hf : ∀ a, Uniform k (f a) R) : Uniform k (Code.frame o >>= f) R :=
  .bind (Q := fun _ k' => k' = k) (.frame fun _ => rfl) fun a _ hk => hk ▸ hf a

/-- A call of the operating system and what follows it. -/
theorem Uniform.host_bind {o : HostOp β} {f : HostOp.Ans o → Code β γ}
    (hf : ∀ a, Uniform k (f a) R) : Uniform k (Code.host o >>= f) R :=
  .bind (Q := fun _ k' => k' = k) (.host fun _ => rfl) fun a _ hk => hk ▸ hf a

/-- Written bytes are read, which are as many as were asked for. -/
theorem Uniform.bytesAt_bind {b : Buffer} {off len : ℕ} {f : List β → Code β γ}
    (hlen : off + len ≤ k b) (hf : ∀ bytes : List β, bytes.length = len → Uniform k (f bytes) R) :
    Uniform k (Code.bytesAt b off len >>= f) R :=
  (Uniform.bytesAt hlen).bind fun bytes _ hbytes => hbytes.2 ▸ hf bytes hbytes.1

/-- Code that has written nothing. -/
theorem Uniform.keep_bind {c : Code β α} {f : α → Code β γ} (hc : Uniform k c fun _ k' => k' = k)
    (hf : ∀ a, Uniform k (f a) R) : Uniform k (c >>= f) R :=
  hc.bind fun a _ hk => hk ▸ hf a

/-- An array is continued, and no array has fewer bytes written then. -/
theorem Uniform.memcpy_bind {b : Buffer} {off n : ℕ} {data : List β} {f : Unit → Code β γ}
    (hoff : off ≤ k b) (hn : off + data.length = n)
    (hf : ∀ k', k ≤ k' → n ≤ k' b → Uniform k' (f ()) R) :
    Uniform k (Code.memcpy b off data >>= f) R :=
  (Uniform.memcpy hoff hn).bind fun _ k' hk => hf k' hk.1 hk.2

end Statements

end Code

/-! ## The handshake -/

section Handshake

open Code

variable (P : Prims β) (cfg : Config β) {k : Written}

/-- A MAC leaves the arrays as they are. -/
private theorem uniform_hmacSha256Two (key a b : List β) :
    Uniform k (hmacSha256Two key a b) fun mac k' => mac.length = 32 ∧ k' = k := by
  refine .mbedtls_bind fun _ => .mbedtls_bind fun _ => .mbedtls_bind fun _ => ?_
  refine .ite (fun _ => .mbedtls_bind fun _ => .mbedtls_bind fun mac => ?_) fun _ =>
    .mbedtls_bind fun mac => ?_
  · exact .pure ⟨mac.length_out, rfl⟩
  · exact .pure ⟨mac.length_out, rfl⟩

/-- So does feeding a hash. -/
private theorem uniform_sha256Update (fed input : List β) :
    Uniform k (sha256Update fed input) fun _ k' => k' = k :=
  .mbedtls_bind fun _ => .pure rfl

/-- So does its start. -/
private theorem uniform_sha256Starts : Uniform k (sha256Starts (β := β)) fun _ k' => k' = k :=
  .mbedtls_bind fun _ => .pure rfl

/-- So does its end. -/
private theorem uniform_sha256Finish (fed : List β) :
    Uniform k (sha256Finish fed) fun _ k' => k' = k :=
  .mbedtls_bind fun _ => .pure rfl

/-- So does an extraction. -/
private theorem uniform_hkdfExtract (salt ikm : List β) :
    Uniform k (hkdfExtract salt ikm) fun prk k' => prk.length = 32 ∧ k' = k :=
  .mbedtls_bind fun prk => .pure ⟨prk.length_out, rfl⟩

/-- So does the derivation of a key. -/
private theorem uniform_deriveKey (prk : List β) (label : List UInt8) (th2 : List β) :
    Uniform k (deriveKey P prk label th2) fun _ k' => k' = k :=
  .mbedtls_bind fun _ => .pure rfl

/-- A wiped array is written as a whole. -/
private theorem uniform_wipe (b : Buffer) : Uniform k (wipe P b) fun _ k' => k ≤ k' :=
  (Uniform.memcpy (Nat.zero_le _) rfl).mono fun _ _ h => h.1

/-- Sending a frame leaves the arrays as they are. -/
private theorem uniform_sendFrame (ftype : UInt8) (payload : List β) :
    Uniform k (sendFrame ftype payload) fun _ k' => k' = k := by
  refine .frame_bind fun written => ?_
  cases written with
  | error _ => exact .pure rfl
  | ok _ => exact .pure rfl

/-- What a read has left in the array is known up to the length that it returns. -/
private theorem uniform_receiveFrame (b : Buffer) :
    Uniform k (receiveFrame (β := β) b) fun r k' =>
      k ≤ k' ∧ ∀ ftype len, r = some (ftype, len) → len ≤ k' b := by
  refine .frame_bind fun received => ?_
  cases received with
  | error got =>
    exact .memcpy_bind (Nat.zero_le _) rfl fun _ hk _ => .pure ⟨hk, nofun⟩
  | ok frame =>
    refine .memcpy_bind (Nat.zero_le _) (Nat.zero_add _) fun _ hk hb => .pure ⟨hk, ?_⟩
    rintro _ _ ⟨⟩
    exact hb

/-- ClientHello is written from its first byte to its last. -/
private theorem uniform_fillHello (suite : UInt8) {clientNonce kemCt : List β}
    (hnonce : clientNonce.length = 32) (hct : kemCt.length = 1088) :
    Uniform k (fillHello P cfg suite clientNonce kemCt) fun _ k' =>
      k ≤ k' ∧ clientHelloLen ≤ k' .sHello := by
  refine .memcpy_bind (n := 1) (Nat.zero_le _) rfl fun k₁ hk₁ h₁ => ?_
  refine .memcpy_bind (n := 2) h₁ rfl fun k₂ hk₂ h₂ => ?_
  refine .memcpy_bind (n := 10) h₂ (by rw [cfg.length_deviceId]) fun k₃ hk₃ h₃ => ?_
  refine .memcpy_bind (n := 14) h₃ (by rw [cfg.length_serverKeyId]; rfl) fun k₄ hk₄ h₄ => ?_
  refine .memcpy_bind (n := 46) h₄ (by rw [hnonce]; rfl) fun k₅ hk₅ h₅ => ?_
  refine .memcpy_bind (n := 1134) h₅ (by rw [hct]; rfl) fun k₆ hk₆ h₆ => ?_
  refine .bytesAt_bind h₆ fun bytes _ => ?_
  refine (uniform_hmacSha256Two _ _ _).bind ?_
  rintro mac _ ⟨hmac, rfl⟩
  refine .memcpy_bind (n := 1166) h₆ (by rw [hmac]; rfl) fun k₇ hk₇ h₇ => .pure ⟨?_, h₇⟩
  exact hk₁.trans (hk₂.trans (hk₃.trans (hk₄.trans (hk₅.trans (hk₆.trans hk₇)))))

/-- The hash is of ClientHello and of parts of the frame, which are written by then. -/
private theorem uniform_hashTranscript2 (fs : Bool) (hhello : clientHelloLen ≤ k .sHello)
    (hreply : 40 + (if fs then 1184 else 0) ≤ k .sFrame) :
    Uniform k (hashTranscript2 (β := β) fs) fun _ k' => k' = k := by
  refine uniform_sha256Starts.keep_bind fun _ => ?_
  refine .bytesAt_bind (by rw [Nat.zero_add]; exact hhello) fun _ _ => ?_
  refine (uniform_sha256Update _ _).keep_bind fun _ => ?_
  refine .bytesAt_bind (by simp only [nonceLen]; omega) fun _ _ => ?_
  refine (uniform_sha256Update _ _).keep_bind fun _ => ?_
  refine .bytesAt_bind (by simp only [nonceLen, sessionIdLen]; omega) fun _ _ => ?_
  refine (uniform_sha256Update _ _).keep_bind fun _ => ?_
  refine .ite (fun hfs => ?_) fun _ => uniform_sha256Finish _
  rw [if_pos hfs] at hreply
  refine .bytesAt_bind hreply fun _ _ => ?_
  exact (uniform_sha256Update _ _).keep_bind fun _ => uniform_sha256Finish _

/-- The static secret is read where the encapsulation has written it. -/
private theorem uniform_stage1 (fs : Bool) (salt th2 : List β) (hss : 32 ≤ k .ss) :
    Uniform k (stage1 P cfg fs salt th2) fun _ k' => k ≤ k' := by
  refine .bytesAt_bind hss fun ss hlen => ?_
  refine .memcpy_bind (n := 32) (Nat.zero_le _) (by rw [hlen]; rfl) fun k₁ hk₁ h₁ => ?_
  refine .memcpy_bind (n := 64) h₁ (by rw [cfg.length_devicePsk]; rfl) fun k₂ hk₂ h₂ => ?_
  refine .bytesAt_bind h₂ fun ikm1 _ => ?_
  refine (uniform_hkdfExtract _ _).bind ?_
  rintro prk _ ⟨hprk, rfl⟩
  refine .memcpy_bind (n := 32) (Nat.zero_le _) (by rw [hprk]) fun k₃ hk₃ h₃ => ?_
  refine .bytesAt_bind h₃ fun prk1 _ => ?_
  have hk := hk₁.trans (hk₂.trans hk₃)
  refine (uniform_deriveKey P _ _ _).keep_bind fun _ => .ite (fun _ => ?_) fun _ => ?_
  · refine (uniform_deriveKey P _ _ _).keep_bind fun _ => ?_
    refine (uniform_deriveKey P _ _ _).keep_bind fun _ => ?_
    refine (uniform_deriveKey P _ _ _).keep_bind fun _ => ?_
    exact (uniform_wipe P _).bind fun _ _ hw => (uniform_wipe P _).bind fun _ _ hw' =>
      .pure (hk.trans (hw.trans hw'))
  · exact (uniform_wipe P _).bind fun _ _ hw => (uniform_wipe P _).bind fun _ _ hw' =>
      .pure (hk.trans (hw.trans hw'))

/-- So is the ephemeral public key, where the frame has been read. -/
private theorem uniform_stage2 (salt th2 srvConfirm : List β) (hss : 32 ≤ k .ss)
    (hreply : 1224 ≤ k .sFrame) :
    Uniform k (stage2 P cfg salt th2 srvConfirm) fun keys k' =>
      k ≤ k' ∧ (keys ≠ none → 1088 ≤ k' .sOut) := by
  refine .bytesAt_bind hreply fun ekEph _ => .host_bind fun enc => ?_
  refine .memcpy_bind (n := 1088) (Nat.zero_le _) (by rw [enc.length_ct]) fun k₁ hk₁ h₁ => ?_
  refine .memcpy_bind (n := 32) (Nat.zero_le _) (by rw [enc.length_ss]) fun k₂ hk₂ h₂ => ?_
  refine .ite (fun _ => ?_) fun _ => ?_
  · exact (uniform_wipe P _).bind fun _ _ hw => .pure ⟨hk₁.trans (hk₂.trans hw), absurd rfl⟩
  · -- Each array that is read from here on has been written before.
    have hout : 1088 ≤ k₂ .sOut := h₁.trans (hk₂ .sOut)
    refine uniform_sha256Starts.keep_bind fun _ => ?_
    refine (uniform_sha256Update _ _).keep_bind fun _ => ?_
    refine .bytesAt_bind hout fun _ _ => ?_
    refine (uniform_sha256Update _ _).keep_bind fun _ => ?_
    refine (uniform_sha256Finish _).keep_bind fun transcript => ?_
    refine .bytesAt_bind (hss.trans ((hk₁.trans hk₂) .ss)) fun ss hlen => ?_
    refine .memcpy_bind (n := 32) (Nat.zero_le _) (by rw [hlen]; rfl) fun k₃ hk₃ h₃ => ?_
    refine .bytesAt_bind (h₂.trans (hk₃ .ssEph)) fun ssEph hlenEph => ?_
    refine .memcpy_bind (n := 64) h₃ (by rw [hlenEph]; rfl) fun k₄ hk₄ h₄ => ?_
    refine .memcpy_bind (n := 96) h₄ (by rw [cfg.length_devicePsk]; rfl) fun k₅ hk₅ h₅ => ?_
    refine .bytesAt_bind h₅ fun ikm2 _ => ?_
    refine (uniform_hkdfExtract _ _).bind ?_
    rintro prk _ ⟨hprk, rfl⟩
    refine .memcpy_bind (n := 32) (Nat.zero_le _) (by rw [hprk]) fun k₆ hk₆ h₆ => ?_
    refine .bytesAt_bind h₆ fun prk2 _ => ?_
    refine (uniform_deriveKey P _ _ _).keep_bind fun _ => ?_
    refine (uniform_deriveKey P _ _ _).keep_bind fun _ => ?_
    refine (uniform_deriveKey P _ _ _).keep_bind fun _ => ?_
    refine (uniform_wipe P _).bind fun _ k₇ hk₇ => (uniform_wipe P _).bind fun _ k₈ hk₈ =>
      (uniform_wipe P _).bind fun _ k₉ hk₉ => ?_
    have hk : k₂ ≤ k₉ :=
      hk₃.trans (hk₄.trans (hk₅.trans (hk₆.trans (hk₇.trans (hk₈.trans hk₉)))))
    exact .pure ⟨hk₁.trans (hk₂.trans hk), fun _ => hout.trans (hk .sOut)⟩

/-- A session that is returned has a session identifier of the right length. -/
def Identified (session : Option (Session β)) : Prop :=
  ∀ s, session = some s → s.sessionId.length = 8

/-- A failed handshake returns no session. -/
theorem identified_none : Identified (none : Option (Session β)) := nofun

/-- The confirmation is sent from what has been written. -/
private theorem uniform_finishHandshake (fs : Bool) (expectedLen : ℕ)
    (transcript serverMac : List β) (keys : SessionKeys β) (hreply : 40 ≤ k .sFrame)
    (hout : fs = true → 1088 ≤ k .sOut) :
    Uniform k (finishHandshake P fs expectedLen transcript serverMac keys) fun session _ =>
      Identified session := by
  refine (uniform_wipe P _).bind fun _ k₁ hk₁ => ?_
  refine (uniform_hmacSha256Two _ _ _).bind ?_
  rintro mac _ ⟨hmac, rfl⟩
  -- The MAC is put behind the ciphertext of mode B, or at the front.
  refine .memcpy_bind (n := if fs then clientKeyExchangeLen else macLen) ?_ ?_ fun k₂ hk₂ h₂ => ?_
  · split
    · exact (hout ‹_›).trans (hk₁ .sOut)
    · exact Nat.zero_le _
  · rw [hmac]
    split
    · rfl
    · rfl
  refine .bytesAt_bind (by rw [Nat.zero_add]; exact h₂) fun finished _ => ?_
  refine (uniform_sendFrame _ _).keep_bind fun written => .ite (fun _ => ?_) fun _ => .pure nofun
  refine .bytesAt_bind (hreply.trans ((hk₁.trans hk₂) .sFrame)) fun sessionId hlen => .pure ?_
  rintro _ ⟨⟩
  exact hlen

/-- The length of the frame is checked before its fields are read. -/
private theorem uniform_afterServerHello (fs : Bool) (expectedLen : ℕ) (clientNonce : List β)
    (hhello : clientHelloLen ≤ k .sHello) (hss : 32 ≤ k .ss)
    (hreply : 72 + (if fs then 1184 else 0) ≤ k .sFrame) :
    Uniform k (afterServerHello P cfg fs expectedLen clientNonce) fun session _ =>
      Identified session := by
  refine (uniform_hashTranscript2 fs hhello (by omega)).keep_bind fun th2 => ?_
  refine .bytesAt_bind (by simp only [nonceLen]; omega) fun serverNonce _ => ?_
  refine (uniform_stage1 P cfg fs _ th2 hss).bind fun keys k₁ hk₁ => ?_
  -- What has been written stays written, so the bounds carry over from step to step.
  have hreply₁ := hreply.trans (hk₁ .sFrame)
  refine .keep_bind (.mbedtls_bind fun _ => .pure rfl) fun expectedMac => ?_
  refine .bytesAt_bind (le_trans ?_ hreply₁) fun serverMac _ => ?_
  · simp only [nonceLen, sessionIdLen, macLen, mlkem768PublicKeyBytes]
    omega
  refine .ite (fun _ => ?_) fun _ => .ite (fun hfs => ?_) fun hfs => ?_
  · exact (uniform_wipe P _).bind fun _ _ _ => .pure identified_none
  · rw [if_pos hfs] at hreply₁
    refine (uniform_stage2 P cfg _ th2 _ (hss.trans (hk₁ .ss)) (by omega)).bind ?_
    rintro exchanged k₂ ⟨hk₂, hout⟩
    have hreply₂ := hreply₁.trans (hk₂ .sFrame)
    cases exchanged with
    | none => exact .pure identified_none
    | some keys =>
      exact uniform_finishHandshake P fs _ _ _ _ (by omega) fun _ => hout (Option.some_ne_none _)
  · exact uniform_finishHandshake P fs _ _ _ _ (by omega) fun h => absurd h hfs

/-- The handshake starts with nothing written. -/
private theorem uniform_handshake (suite : UInt8) :
    Uniform 0 (handshake P cfg suite) fun session _ => Identified session := by
  refine .host_bind fun nonce => .host_bind fun enc => ?_
  refine .memcpy_bind (n := 32) (Nat.zero_le _) (by rw [enc.length_ss]) fun k₁ _ hss => ?_
  refine .ite (fun _ => .pure nofun) fun _ => ?_
  refine (uniform_fillHello P cfg suite nonce.2 enc.length_ct).bind ?_
  rintro i k₂ ⟨hk₂, hhello⟩
  refine .ite (fun _ => .pure nofun) fun _ => ?_
  refine .bytesAt_bind (by rw [Nat.zero_add]; exact hhello) fun hello _ => ?_
  refine (uniform_sendFrame _ _).keep_bind fun written => .ite (fun _ => ?_) fun _ => .pure nofun
  refine (uniform_receiveFrame _).bind ?_
  rintro received k₃ ⟨hk₃, hreceived⟩
  match received with
  | none => exact .pure nofun
  | some (ftype, len) =>
    refine .ite (fun _ => .pure nofun) fun hgood => ?_
    rw [not_or, not_not, not_not] at hgood
    -- The length that was compared is the length that was read.
    have hlen : 72 + (if suite == suiteMlkem768Fs then 1184 else 0) ≤ k₃ .sFrame := by
      refine le_of_eq_of_le ?_ (hreceived ftype len rfl)
      rw [hgood.2]
      split
      · rfl
      · rfl
    exact uniform_afterServerHello P cfg _ _ _ (hhello.trans (hk₃ .sHello))
      (hss.trans ((hk₂.trans hk₃) .ss)) hlen

end Handshake

/-! ## Records -/

section Records

open Code

variable (P : Prims β) {k : Written}

/-- A record is written from its first byte to its last. -/
private theorem uniform_sendRecord {session : Session β} (hsid : session.sessionId.length = 8)
    (plain : Payload β 65535) :
    Uniform k (sendRecord P session plain) fun r _ => r.2.sessionId = session.sessionId := by
  refine .ite (fun _ => .pure rfl) fun hfits => ?_
  have hplain : (UInt16.ofNat plain.1.length).toNat = plain.1.length := toNat_plainLen plain
  refine .memcpy_bind (n := 8) (Nat.zero_le _) ?_ fun k₁ hk₁ h₁ => ?_
  · -- The sequence number, copied out of the additional data.
    simp [slice, hsid, sessionIdLen, seqBytes]
  refine .memcpy_bind (n := 9) h₁ rfl fun k₂ hk₂ h₂ => ?_
  refine .memcpy_bind (n := 10) h₂ rfl fun k₃ hk₃ h₃ => ?_
  refine .mbedtls_bind fun rc => .ite (fun _ => .pure rfl) fun _ => .mbedtls_bind fun result => ?_
  refine .memcpy_bind (n := 10 + plain.1.length) h₃ (by rw [result.length_ciphertext])
    fun k₄ hk₄ h₄ => ?_
  refine .memcpy_bind (n := 10 + plain.1.length + 16) (by rw [hplain]; exact h₄)
    (by rw [hplain, result.length_tag]) fun k₅ hk₅ h₅ => ?_
  refine .ite (fun _ => .pure rfl) fun _ => ?_
  refine .bytesAt_bind ?_ fun record _ => ?_
  · rw [gt_iff_lt, not_lt, hplain, tagLen, Buffer.size] at hfits
    simp only [Nat.zero_add, Nat.reduceAdd, hplain]
    rw [toNat_frameLen (by omega)]
    exact h₅
  · exact (uniform_sendFrame _ _).keep_bind fun written => .ite (fun _ => .pure rfl) fun _ =>
      .pure rfl

/-- Each record is written before it is sent. -/
private theorem uniform_sendRecords (count n : ℕ) {session : Session β}
    (hsid : session.sessionId.length = 8) :
    Uniform k (sendRecords P count n session) fun _ _ => True := by
  induction count generalizing k n session with
  | zero => exact .pure trivial
  | succ count ih =>
    refine (uniform_sendRecord P hsid _).bind ?_
    rintro ⟨ok, session'⟩ k' hsession
    refine .ite (fun _ => ih _ ?_) fun _ => .pure trivial
    rw [hsession]
    exact hsid

end Records

/-! ## Sessions -/

/-- The whole session. -/
private theorem uniform_pqcSessionRun (P : Prims β) (cfg : Config β) (mode : Mode)
    (recordCount : ℤ) : Code.Uniform 0 (pqcSessionRun P cfg mode recordCount) fun _ _ => True := by
  refine .host_bind fun connected => .ite (fun _ => ?_) fun _ => .pure trivial
  refine (uniform_handshake P cfg mode.suite).bind fun session k hsession => ?_
  cases session with
  | none => exact .host_bind fun _ => .pure trivial
  | some session =>
    refine (uniform_sendRecords P _ _ (hsession session rfl)).bind fun ok k' _ => ?_
    refine .ite (fun _ => ?_) fun _ => .host_bind fun _ => .pure trivial
    exact (uniform_sendFrame _ _).keep_bind fun _ => .host_bind fun _ => .pure trivial

/-- The calls of the firmware, its framing calls carried out over a socket. -/
def overSocket (P : Prims β) :
    ∀ o : (calls β).Op, Prog ((sockSig β).sum ((mbedtls β).sum (host β))) ((calls β).Ans o)
  | .inl o => .op (.inr (.inl o)) .ret
  | .inr (.inl o) => framing P o
  | .inr (.inr o) => .op (.inr (.inr o)) .ret

/-- Whatever an earlier session has left in the buffers, a session makes the same calls with the
same arguments, and returns the same; call for call on the socket as well, and in the runs from the
two memories. -/
theorem pqcSessionRun_uniform (P : Prims β) (cfg : Config β) (mode : Mode) (recordCount : ℤ)
    (m m' : Memory β) :
    let session := pqcSessionRun P cfg mode recordCount
    Prod.fst <$> session.run m = Prod.fst <$> session.run m' ∧
      Prod.fst <$> Prog.interp (overSocket P) (session.run m) =
        Prod.fst <$> Prog.interp (overSocket P) (session.run m') ∧
      ∀ log ok, (∃ m₁, Prog.Run (session.run m) log (.ret (ok, m₁))) ↔
        ∃ m₁, Prog.Run (session.run m') log (.ret (ok, m₁)) := by
  intro session
  -- From two memories that need not agree anywhere.
  have hlock := uniform_pqcSessionRun P cfg mode recordCount m m' (Mem.agree_zero m m')
  have heq : Prod.fst <$> session.run m = Prod.fst <$> session.run m' :=
    (hlock.mono fun _ _ h => h.1).map_eq_map
  refine ⟨heq, ?_, fun log ok => ?_⟩
  · have := congrArg (Prog.interp (overSocket P)) heq
    simpa only [Prog.map_eq_bind, Prog.interp_bind, Prog.interp_ret] using this
  · have hruns : ∀ m₀, (∃ m₁, Prog.Run (session.run m₀) log (.ret (ok, m₁))) ↔
        Prog.Run (Prod.fst <$> session.run m₀) log (.ret ok) := by
      intro m₀
      rw [Prog.run_map_iff, Prod.exists]
      simp
    rw [hruns, hruns, heq]

end Firmware

end PqcIot
