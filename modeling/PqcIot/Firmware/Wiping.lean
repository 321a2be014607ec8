import PqcIot.Crypto.Constant
import PqcIot.Firmware.Client
import PqcIot.Firmware.Rules

/-!
# Secrets left in memory

What the locals of `handshake` that hold a secret contain when it returns, whatever the peer and the
libraries answer. `Exit` lists the exits with the calls that lead to each and the contents that are
known there, and `handshake_exits` shows that there are no others; a secret is left behind exactly
at the exits before a ServerHello of the mode's length has come (`handshake_wiped_iff`).
-/

namespace PqcIot

open Effects

namespace Firmware

variable {β α γ : Type}

/-! ## What has been filled -/

/-- An encapsulation. -/
def encEvent (pk : List β) (enc : Encapsulation β) : Event (calls β) :=
  ⟨.inr (.inr (.mlkem768Enc pk)), enc⟩

/-- An extraction. -/
def extractEvent (salt ikm : List β) (out : Output β 32) : Event (calls β) :=
  ⟨.inl (.hkdfExtract salt ikm), out⟩

/-- A frame is read into `s_frame`. -/
def readEvent (answer : FrameOp.Ans β FrameFailure (.read Buffer.sFrame.size)) :
    Event (calls β) :=
  ⟨.inr (.inl (.read Buffer.sFrame.size)), answer⟩

/-- An encapsulation that has computed a secret. -/
def isSecret : Event (calls β) → Bool
  | ⟨.inr (.inr (.mlkem768Enc _)), (enc : Encapsulation β)⟩ => enc.rc == 0
  | _ => false

/-- An extraction. -/
def isExtract : Event (calls β) → Bool
  | ⟨.inl (.hkdfExtract _ _), _⟩ => true
  | _ => false

/-- An encapsulation computes a secret exactly if it succeeds. -/
@[simp]
theorem isSecret_encEvent (pk : List β) (enc : Encapsulation β) :
    isSecret (encEvent pk enc) = (enc.rc == 0) := rfl

@[simp]
theorem isSecret_extractEvent (salt ikm : List β) (out : Output β 32) :
    isSecret (extractEvent salt ikm out) = false := rfl

@[simp]
theorem isSecret_readEvent (answer : FrameOp.Ans β FrameFailure (.read Buffer.sFrame.size)) :
    isSecret (readEvent answer) = false := rfl

@[simp]
theorem isExtract_encEvent (pk : List β) (enc : Encapsulation β) :
    isExtract (encEvent pk enc) = false := rfl

@[simp]
theorem isExtract_extractEvent (salt ikm : List β) (out : Output β 32) :
    isExtract (extractEvent salt ikm out) = true := rfl

@[simp]
theorem isExtract_readEvent (answer : FrameOp.Ans β FrameFailure (.read Buffer.sFrame.size)) :
    isExtract (readEvent answer) = false := rfl

/-- The array has been given a secret: the first one that was computed is in `ss` and the second
one in `ss_eph`, and each extraction is from one of `ikm1` and `ikm2` into `prk1` and `prk2`. -/
def Filled (h : CallLog β) : Buffer → Prop
  | .ss => 0 < h.countP isSecret
  | .ssEph => 1 < h.countP isSecret
  | .ikm1 | .prk1 => 0 < h.countP isExtract
  | .ikm2 | .prk2 => 1 < h.countP isExtract
  | .sHello | .sFrame | .sOut => False

/-- The bytes that `memset` leaves. -/
def zeros (P : Prims β) (b : Buffer) : List β := P.lits (List.replicate b.size 0)

/-- Every array that was given a secret contains only zeros. -/
def SecretsWiped (P : Prims β) (h : CallLog β) (m : Memory β) : Prop :=
  ∀ b, Filled h b → m.bytes b = zeros P b

/-- What the encapsulation to the pinned key, a handshake's second call, has returned. -/
def StaticSecret (cfg : Config β) (h : CallLog β) (enc : Encapsulation β) : Prop :=
  ∃ nonce t, h = ⟨.inr (.inr (.espFillRandom nonceLen)), nonce⟩ ::
    encEvent cfg.serverPublicKey enc :: t

/-- The length of a ServerHello. -/
def Mode.replyLen : Mode → ℕ
  | .bForwardSecrecy => serverHelloLenFs
  | .a => serverHelloLen

/-- A frame that `handshake` goes on with. -/
def InForm (mode : Mode) (reply : UInt8 × Payload β Buffer.sFrame.size) : Prop :=
  reply.1 = frameServerHello ∧ reply.2.1.length = mode.replyLen

/-- The peer's answer to ClientHello has been read, and is a ServerHello of the mode's length. -/
def ReplyInForm (mode : Mode) (h : CallLog β) : Prop :=
  ∃ reply : UInt8 × Payload β Buffer.sFrame.size, InForm mode reply ∧ readEvent (.ok reply) ∈ h

/-! ## Assertions about the memory -/

/-- The calls that decide what is filled, and when. -/
def relevant : (calls β).Op → Bool
  | .inl (.hkdfExtract _ _) => true
  | .inr (.inl (.read _)) => true
  | .inr (.inr (.mlkem768Enc _)) => true
  | _ => false

/-- The relevant part of the history, and contents that are known. -/
structure At (events : List (Event (calls β))) (known : List (Buffer × List β)) (h : CallLog β)
    (m : Memory β) : Prop where
  events_eq : h.filter (fun e => relevant e.1) = events
  bytes_eq : ∀ p ∈ known, m.bytes p.1 = p.2

section At

variable {events : List (Event (calls β))} {known : List (Buffer × List β)} {h : CallLog β}
  {m : Memory β}

/-- What computes a secret is relevant. -/
theorem relevant_of_isSecret {e : Event (calls β)} (he : isSecret e = true) :
    relevant e.1 = true := by
  match e, he with
  | ⟨.inr (.inr (.mlkem768Enc _)), _⟩, _ => rfl

/-- So is an extraction. -/
theorem relevant_of_isExtract {e : Event (calls β)} (he : isExtract e = true) :
    relevant e.1 = true := by
  match e, he with
  | ⟨.inl (.hkdfExtract _ _), _⟩, _ => rfl

/-- The relevant part of the history decides what counts relevant calls. -/
theorem At.countP_eq (hat : At events known h m) {p : Event (calls β) → Bool}
    (hp : ∀ e, p e = true → relevant e.1 = true) : h.countP p = events.countP p := by
  rw [← hat.events_eq, List.countP_filter]
  refine List.countP_congr fun e _ => ⟨fun he => ?_, fun he => ?_⟩
  · rw [he, hp e he, Bool.true_and]
  · exact (Bool.and_eq_true_iff.mp he).1

/-- What is known less precisely. -/
theorem At.mono {known' : List (Buffer × List β)} (hat : At events known h m)
    (hsub : known' ⊆ known) : At events known' h m :=
  ⟨hat.events_eq, fun p hp => hat.bytes_eq p (hsub hp)⟩

/-- A relevant call. -/
theorem At.call (hat : At events known h m) {o : (calls β).Op} (a : (calls β).Ans o)
    (ho : relevant o = true) : At (events ++ [⟨o, a⟩]) known (h ++ [⟨o, a⟩]) m := by
  refine ⟨?_, hat.bytes_eq⟩
  rw [List.filter_append, hat.events_eq,
    List.filter_cons_of_pos (p := fun e : Event (calls β) => relevant e.1) ho, List.filter_nil]

/-- Writing a whole array. -/
theorem At.store (hat : At events known h m) {b : Buffer} {data : List β}
    (hall : data.length = b.size) (hb : ∀ p ∈ known, p.1 ≠ b) (hfit : 0 + data.length ≤ b.size) :
    At events ((b, data) :: known) h (m.store b 0 data hfit) := by
  refine ⟨hat.events_eq, fun p hp => ?_⟩
  rcases List.mem_cons.mp hp with rfl | hp
  · exact m.bytes_store_all hall hfit
  · rw [← hat.bytes_eq p hp]
    exact Function.update_of_ne (hb p hp) _ _

end At

/-! ## Code between the relevant calls -/

namespace Code

/-- Code that changes no arrays but `w`, and makes no relevant call. -/
def Quiet (w : List Buffer) (c : Code β α) : Prop :=
  ∀ h m, Ensures (fun _ o => relevant o = false) (fun _ _ m' => m.Kept w m') h m c

variable {w : List Buffer}

theorem Quiet.pure (a : α) : Quiet w (Pure.pure a : Code β α) := fun _ m => Mem.kept_refl w m

/-- Quiet code after quiet code. -/
theorem Quiet.bind {c : Code β α} {f : α → Code β γ} (hc : Quiet w c) (hf : ∀ a, Quiet w (f a)) :
    Quiet w (c >>= f) := fun h m =>
  (hc h m).bind fun l a m' hkept =>
    (hf a (h ++ l) m').mono (fun _ _ ho => ho) fun _ _ _ hkept' => hkept.trans hkept'

/-- A call of mbedtls that extracts nothing. -/
theorem Quiet.mbedtls {o : MbedtlsOp β} (ho : relevant (.inl o) = false) :
    Quiet w (Code.mbedtls o) := fun _ m => ⟨ho, fun _ => Mem.kept_refl w m⟩

/-- A call of the framing that reads nothing. -/
theorem Quiet.frame {o : FrameOp β} (ho : relevant (.inr (.inl o)) = false) :
    Quiet w (Code.frame o) := fun _ m => ⟨ho, fun _ => Mem.kept_refl w m⟩

/-- A write to one of the arrays. -/
theorem Quiet.memcpy {b : Buffer} {off : ℕ} {data : List β} (hb : b ∈ w) :
    Quiet w (Code.memcpy b off data) := fun _ m =>
  ensures_memcpy_store rfl fun hfit => (Mem.kept_refl w m).store hb hfit

theorem Quiet.bytesAt {b : Buffer} {off len : ℕ} : Quiet w (Code.bytesAt b off len : Code β _) :=
  fun _ m => ensures_bytesAt rfl fun _ => Mem.kept_refl w m

/-- Whichever branch is taken. -/
theorem Quiet.ite {q : Prop} [Decidable q] {c d : Code β α} (hc : Quiet w c) (hd : Quiet w d) :
    Quiet w (if q then c else d) := by
  split
  · exact hc
  · exact hd

/-- A postcondition of code, whatever its calls answer. -/
abbrev Leaves (Q : CallLog β → α → Memory β → Prop) (h : CallLog β) (m : Memory β)
    (c : Code β α) : Prop := Ensures (fun _ _ => True) Q h m c

section Leaves

variable {events : List (Event (calls β))} {known : List (Buffer × List β)} {h : CallLog β}
  {m : Memory β} {Q : CallLog β → γ → Memory β → Prop}

/-- Quiet code keeps what is known about other arrays. -/
theorem Quiet.leaves_bind {c : Code β α} {f : α → Code β γ} (hc : Quiet w c)
    (hat : At events known h m) (hbs : ∀ p ∈ known, p.1 ∉ w)
    (hf : ∀ h' a m', At events known h' m' → Leaves Q h' m' (f a)) : Leaves Q h m (c >>= f) := by
  refine Ensures.bind (Q := fun h' _ m' => At events known h' m') ?_ fun l a m' => hf _ a m'
  refine Prog.Spec.mono (Prog.Spec.forall_events (hc h m)) (fun _ _ _ => trivial) ?_
  rintro l ⟨a, m'⟩ ⟨hkept, tail, htail, heq⟩
  -- What was called in between is not relevant.
  obtain rfl := List.append_cancel_left heq
  refine ⟨?_, fun p hp => (hkept p.1 (hbs p hp)).trans (hat.bytes_eq p hp)⟩
  have hnone : l.filter (fun e => relevant e.1) = [] :=
    List.filter_eq_nil_iff.mpr fun e he => by simp [htail e he]
  rw [List.filter_append, hnone, List.append_nil, hat.events_eq]

/-- An array is written whose contents were not known. -/
theorem leaves_memcpy_bind {b : Buffer} {data : List β} {f : Unit → Code β γ}
    (hat : At events known h m) (hall : data.length = b.size) (hb : ∀ p ∈ known, p.1 ≠ b)
    (hf : ∀ m', At events ((b, data) :: known) h m' → Leaves Q h m' (f ())) :
    Leaves Q h m (Code.memcpy b 0 data >>= f) :=
  (ensures_bind _ _).mpr (ensures_memcpy_store trivial fun hfit => hf _ (hat.store hall hb hfit))

/-- An array is wiped. -/
theorem leaves_wipe_bind (P : Prims β) {b : Buffer} {f : Unit → Code β γ}
    (hat : At events known h m) (hb : ∀ p ∈ known, p.1 ≠ b)
    (hf : ∀ m', At events ((b, zeros P b) :: known) h m' → Leaves Q h m' (f ())) :
    Leaves Q h m (wipe P b >>= f) :=
  leaves_memcpy_bind hat ((P.length_lits _).trans List.length_replicate) hb hf

end Leaves

end Code

section Handshake

open Code

variable (P : Prims β) (cfg : Config β) {w : List Buffer}

/-- A MAC extracts nothing. -/
private theorem quiet_hmacSha256Two (key a b : List β) : Quiet w (hmacSha256Two key a b) := by
  refine .bind (.mbedtls rfl) fun _ => .bind (.mbedtls rfl) fun _ =>
    .bind (.mbedtls rfl) fun _ => .ite (.bind (.mbedtls rfl) fun _ => ?_) ?_
  · exact .bind (.mbedtls rfl) fun _ => .pure _
  · exact .bind (.mbedtls rfl) fun _ => .pure _

/-- Neither does feeding a hash. -/
private theorem quiet_sha256Update (fed input : List β) : Quiet w (sha256Update fed input) :=
  .bind (.mbedtls rfl) fun _ => .pure _

/-- Neither does its start. -/
private theorem quiet_sha256Starts : Quiet w (sha256Starts (β := β)) :=
  .bind (.mbedtls rfl) fun _ => .pure _

/-- Neither does its end. -/
private theorem quiet_sha256Finish (fed : List β) : Quiet w (sha256Finish fed) :=
  .bind (.mbedtls rfl) fun _ => .pure _

/-- Keys are expanded, not extracted. -/
private theorem quiet_deriveKey (prk : List β) (label : List UInt8) (th2 : List β) :
    Quiet w (deriveKey P prk label th2) :=
  .bind (.mbedtls rfl) fun _ => .pure _

/-- Sending a frame writes no array. -/
private theorem quiet_sendFrame (ftype : UInt8) (payload : List β) :
    Quiet w (sendFrame ftype payload) := by
  refine .bind (.frame rfl) fun written => ?_
  cases written with
  | error _ => exact .pure _
  | ok _ => exact .pure _

/-- ClientHello is written into `s_hello`. -/
private theorem quiet_fillHello (suite : UInt8) (clientNonce kemCt : List β) :
    Quiet [.sHello] (fillHello P cfg suite clientNonce kemCt) :=
  .bind (.memcpy (.head _)) fun _ => .bind (.memcpy (.head _)) fun _ =>
    .bind (.memcpy (.head _)) fun _ => .bind (.memcpy (.head _)) fun _ =>
    .bind (.memcpy (.head _)) fun _ => .bind (.memcpy (.head _)) fun _ =>
    .bind .bytesAt fun _ => .bind (quiet_hmacSha256Two _ _ _) fun _ =>
    .bind (.memcpy (.head _)) fun _ => .pure _

/-- Hashing the transcript writes no array. -/
private theorem quiet_hashTranscript2 (fs : Bool) : Quiet w (hashTranscript2 (β := β) fs) := by
  refine .bind quiet_sha256Starts fun _ => .bind .bytesAt fun _ =>
    .bind (quiet_sha256Update _ _) fun _ => .bind .bytesAt fun _ =>
    .bind (quiet_sha256Update _ _) fun _ => .bind .bytesAt fun _ =>
    .bind (quiet_sha256Update _ _) fun _ => .ite ?_ (quiet_sha256Finish _)
  exact .bind .bytesAt fun _ => .bind (quiet_sha256Update _ _) fun _ => quiet_sha256Finish _

/-! ## The stages -/

/-- These arrays are known to be wiped. -/
def wiped (w : List Buffer) : List (Buffer × List β) := w.map fun b => (b, zeros P b)

variable {events : List (Event (calls β))} {h : CallLog β} {m : Memory β}

/-- An extraction and what follows it. -/
private theorem leaves_hkdfExtract_bind {salt ikm : List β} {f : List β → Code β γ}
    {known : List (Buffer × List β)} {Q : CallLog β → γ → Memory β → Prop}
    (hat : At events known h m)
    (hf : ∀ out h', At (events ++ [extractEvent salt ikm out]) known h' m →
      Leaves Q h' m (f out.out)) : Leaves Q h m (hkdfExtract salt ikm >>= f) := by
  refine (ensures_bind _ _).mpr (ensures_mbedtls_bind trivial fun out => ?_)
  exact hf out _ (hat.call (o := .inl (.hkdfExtract salt ikm)) out rfl)

/-- Stage 1 extracts once, and wipes what it was from and into. -/
theorem leaves_stage1 (fs : Bool) (salt th2 : List β) (hat : At events [] h m) :
    Leaves (fun h' _ m' => ∃ ikm out,
      At (events ++ [extractEvent salt ikm out]) (wiped P [.prk1, .ikm1]) h' m') h m
      (stage1 P cfg fs salt th2) := by
  refine Quiet.bytesAt.leaves_bind (w := []) hat nofun fun _ _ _ hat => ?_
  refine (Quiet.memcpy (.head _)).leaves_bind (w := [.ikm1]) hat nofun fun _ _ _ hat => ?_
  refine (Quiet.memcpy (.head _)).leaves_bind (w := [.ikm1]) hat nofun fun _ _ _ hat => ?_
  refine Quiet.bytesAt.leaves_bind (w := []) hat nofun fun _ ikm _ hat => ?_
  refine leaves_hkdfExtract_bind hat fun out _ hat => ?_
  refine (Quiet.memcpy (.head _)).leaves_bind (w := [.prk1]) hat nofun fun _ _ _ hat => ?_
  refine Quiet.bytesAt.leaves_bind (w := []) hat nofun fun _ _ _ hat => ?_
  refine (quiet_deriveKey P _ _ _).leaves_bind (w := []) hat nofun fun _ _ _ hat => ?_
  -- Either way the arrays are wiped at the end.
  refine ensures_ite (fun _ => ?_) fun _ => ?_
  · -- Mode A derives three more keys.
    refine (quiet_deriveKey P _ _ _).leaves_bind (w := []) hat nofun fun _ _ _ hat => ?_
    refine (quiet_deriveKey P _ _ _).leaves_bind (w := []) hat nofun fun _ _ _ hat => ?_
    refine (quiet_deriveKey P _ _ _).leaves_bind (w := []) hat nofun fun _ _ _ hat => ?_
    refine leaves_wipe_bind P hat nofun fun _ hat => ?_
    exact leaves_wipe_bind P hat (by simp) fun _ hat => ⟨ikm, out, hat⟩
  · refine leaves_wipe_bind P hat nofun fun _ hat => ?_
    exact leaves_wipe_bind P hat (by simp) fun _ hat => ⟨ikm, out, hat⟩

/-- Stage 2 encapsulates. If that fails the static secret is wiped; otherwise it extracts once,
and wipes the ephemeral secret and what the extraction was from and into. -/
theorem leaves_stage2 (salt th2 srvConfirm : List β)
    (hat : At events (wiped P [.prk1, .ikm1]) h m) :
    Leaves (fun h' keys m' => ∃ pk enc,
      (keys = none ∧ enc.rc ≠ 0 ∧
        At (events ++ [encEvent pk enc]) (wiped P [.ss, .prk1, .ikm1]) h' m') ∨
      (keys ≠ none ∧ enc.rc = 0 ∧ ∃ ikm out,
        At (events ++ [encEvent pk enc] ++ [extractEvent salt ikm out])
          (wiped P [.ssEph, .prk2, .ikm2, .prk1, .ikm1]) h' m')) h m
      (stage2 P cfg salt th2 srvConfirm) := by
  refine Quiet.bytesAt.leaves_bind (w := []) hat (by simp) fun _ pk _ hat => ?_
  -- The encapsulation is the one call of the stage besides the extraction that is relevant.
  refine ensures_host_bind trivial fun enc => ?_
  replace hat := hat.call (o := .inr (.inr (.mlkem768Enc pk))) enc rfl
  refine (Quiet.memcpy (.head _)).leaves_bind (w := [.sOut]) hat (by simp [wiped]) fun _ _ _ hat =>
    ?_
  refine (Quiet.memcpy (.head _)).leaves_bind (w := [.ssEph]) hat (by simp [wiped])
    fun _ _ _ hat => ?_
  refine ensures_ite (fun hrc => ?_) fun hrc => ?_
  · -- It has failed: nothing but `ss` is wiped, `ss_eph` is left as it was stored.
    exact leaves_wipe_bind P hat (by simp [wiped]) fun _ hat => ⟨pk, enc, .inl ⟨rfl, hrc, hat⟩⟩
  · refine quiet_sha256Starts.leaves_bind (w := []) hat (by simp) fun _ _ _ hat => ?_
    refine (quiet_sha256Update _ _).leaves_bind (w := []) hat (by simp) fun _ _ _ hat => ?_
    refine Quiet.bytesAt.leaves_bind (w := []) hat (by simp) fun _ _ _ hat => ?_
    refine (quiet_sha256Update _ _).leaves_bind (w := []) hat (by simp) fun _ _ _ hat => ?_
    refine (quiet_sha256Finish _).leaves_bind (w := []) hat (by simp) fun _ _ _ hat => ?_
    refine Quiet.bytesAt.leaves_bind (w := []) hat (by simp) fun _ _ _ hat => ?_
    refine (Quiet.memcpy (.head _)).leaves_bind (w := [.ikm2]) hat (by simp [wiped])
      fun _ _ _ hat => ?_
    refine Quiet.bytesAt.leaves_bind (w := []) hat (by simp) fun _ _ _ hat => ?_
    refine (Quiet.memcpy (.head _)).leaves_bind (w := [.ikm2]) hat (by simp [wiped])
      fun _ _ _ hat => ?_
    refine (Quiet.memcpy (.head _)).leaves_bind (w := [.ikm2]) hat (by simp [wiped])
      fun _ _ _ hat => ?_
    refine Quiet.bytesAt.leaves_bind (w := []) hat (by simp) fun _ ikm _ hat => ?_
    refine leaves_hkdfExtract_bind hat fun out _ hat => ?_
    refine (Quiet.memcpy (.head _)).leaves_bind (w := [.prk2]) hat (by simp [wiped])
      fun _ _ _ hat => ?_
    refine Quiet.bytesAt.leaves_bind (w := []) hat (by simp) fun _ _ _ hat => ?_
    refine (quiet_deriveKey P _ _ _).leaves_bind (w := []) hat (by simp) fun _ _ _ hat => ?_
    refine (quiet_deriveKey P _ _ _).leaves_bind (w := []) hat (by simp) fun _ _ _ hat => ?_
    refine (quiet_deriveKey P _ _ _).leaves_bind (w := []) hat (by simp) fun _ _ _ hat => ?_
    refine leaves_wipe_bind P hat (by simp [wiped]) fun _ hat => ?_
    refine leaves_wipe_bind P hat (by simp [wiped]) fun _ hat => ?_
    exact leaves_wipe_bind P hat (by simp [wiped]) fun _ hat =>
      ⟨pk, enc, .inr ⟨Option.some_ne_none _, not_not.mp hrc, ikm, out, hat⟩⟩

/-- The end of a handshake wipes the static secret. -/
theorem leaves_finishHandshake (fs : Bool) (expectedLen : ℕ) (transcript serverMac : List β)
    (keys : SessionKeys β) (hbs : .ss ∉ w) (hout : .sOut ∉ w) (hat : At events (wiped P w) h m) :
    Leaves (fun h' _ m' => At events (wiped P (.ss :: w)) h' m') h m
      (finishHandshake P fs expectedLen transcript serverMac keys) := by
  -- What is known of other arrays stays known.
  have hss : ∀ p ∈ wiped P w, p.1 ≠ .ss := by
    simp only [wiped, List.mem_map]
    rintro p ⟨b, hb, rfl⟩ rfl
    exact hbs hb
  have hsOut : ∀ p ∈ wiped P (.ss :: w), p.1 ∉ [.sOut] := by
    simp only [wiped, List.mem_map]
    rintro p ⟨b, hb, rfl⟩ hmem
    obtain rfl := List.mem_singleton.mp hmem
    exact hout (by simpa using hb)
  refine leaves_wipe_bind P hat hss fun _ hat => ?_
  refine (quiet_hmacSha256Two _ _ _).leaves_bind (w := []) hat (by simp) fun _ _ _ hat => ?_
  refine (Quiet.memcpy (.head _)).leaves_bind (w := [.sOut]) hat hsOut fun _ _ _ hat => ?_
  refine Quiet.bytesAt.leaves_bind (w := []) hat (by simp) fun _ _ _ hat => ?_
  refine (quiet_sendFrame _ _).leaves_bind (w := []) hat (by simp) fun _ _ _ hat => ?_
  refine ensures_ite (fun _ => ?_) fun _ => hat
  exact Quiet.bytesAt.leaves_bind (w := []) hat (by simp) fun _ _ _ hat => hat

/-! ## The exits -/

/-- The exits of `handshake`: the calls that have decided what was filled, and what is known of the
contents. -/
inductive Exit (mode : Mode) :
    Encapsulation β → List (Event (calls β)) → List (Buffer × List β) → Prop
  /-- The first encapsulation failed. -/
  | refused {enc} (pk) : enc.rc ≠ 0 → Exit mode enc [encEvent pk enc] []
  /-- Writing ClientHello failed. -/
  | unsent {enc} (pk) : enc.rc = 0 → Exit mode enc [encEvent pk enc] [(.ss, enc.ss)]
  /-- No frame came, or one that is no ServerHello of the mode's length. -/
  | unanswered {enc} (pk) (answer : FrameOp.Ans β FrameFailure (.read Buffer.sFrame.size)) :
    enc.rc = 0 → (∀ reply, answer = .ok reply → ¬ InForm mode reply) →
    Exit mode enc [encEvent pk enc, readEvent answer]
      [(.ss, enc.ss)]
  /-- The MAC was wrong, or the handshake of mode A came to its end. -/
  | static {enc} (pk) (reply salt ikm out) : enc.rc = 0 → InForm mode reply →
    Exit mode enc [encEvent pk enc, readEvent (.ok reply),
      extractEvent salt ikm out] (wiped P [.ss, .prk1, .ikm1])
  /-- The ephemeral key was refused. -/
  | ephemeralRefused {enc} (pk) (reply salt ikm out pkEph encEph) : enc.rc = 0 →
    InForm mode reply → encEph.rc ≠ 0 →
    Exit mode enc [encEvent pk enc, readEvent (.ok reply),
      extractEvent salt ikm out, encEvent pkEph encEph] (wiped P [.ss, .prk1, .ikm1])
  /-- The handshake of mode B came to its end. -/
  | ephemeral {enc} (pk) (reply salt ikm out pkEph encEph ikmEph outEph) : enc.rc = 0 →
    InForm mode reply → encEph.rc = 0 →
    Exit mode enc [encEvent pk enc, readEvent (.ok reply),
      extractEvent salt ikm out, encEvent pkEph encEph, extractEvent salt ikmEph outEph]
      (wiped P [.ss, .ssEph, .prk2, .ikm2, .prk1, .ikm1])

variable {mode : Mode} {enc : Encapsulation β}

/-- The handshake is at one of its exits. -/
def AtExit (mode : Mode) (enc : Encapsulation β) (h : CallLog β) (m : Memory β) : Prop :=
  ∃ events known, Exit P mode enc events known ∧ At events known h m

/-- After a ServerHello in form, every exit is one where the secrets are wiped. -/
theorem leaves_afterServerHello {pk : List β} {reply : UInt8 × Payload β Buffer.sFrame.size}
    (hrc : enc.rc = 0) (hform : InForm mode reply) (fs : Bool) (expectedLen : ℕ)
    (clientNonce : List β)
    (hat : At [encEvent pk enc, readEvent (.ok reply)] [] h m) :
    Leaves (fun h' _ m' => AtExit P mode enc h' m') h m
      (afterServerHello P cfg fs expectedLen clientNonce) := by
  refine (quiet_hashTranscript2 _).leaves_bind (w := []) hat nofun fun _ th2 _ hat => ?_
  refine Quiet.bytesAt.leaves_bind (w := []) hat nofun fun _ serverNonce _ hat => ?_
  refine (leaves_stage1 P cfg _ _ _ hat).bind ?_
  rintro _ keys _ ⟨ikm, out, hat⟩
  refine Quiet.leaves_bind (w := []) (.bind (.mbedtls rfl) fun _ => .pure _) hat (by simp)
    fun _ _ _ hat => ?_
  refine Quiet.bytesAt.leaves_bind (w := []) hat (by simp) fun _ _ _ hat => ?_
  refine ensures_ite (fun _ => ?_) fun _ => ensures_ite (fun _ => ?_) fun _ => ?_
  · exact leaves_wipe_bind P hat (by simp [wiped]) fun _ hat =>
      ⟨_, _, .static pk reply _ ikm out hrc hform, hat⟩
  · -- Mode B: the ephemeral key is refused, or stage 2 wipes its own arrays.
    refine (leaves_stage2 P cfg _ _ _ hat).bind ?_
    rintro _ exchanged _ ⟨pkEph, encEph, ⟨rfl, hrcEph, hat⟩ | ⟨hsome, hrcEph, ikmEph, outEph, hat⟩⟩
    · exact ⟨_, _, .ephemeralRefused pk reply _ ikm out pkEph encEph hrc hform hrcEph, hat⟩
    · obtain ⟨⟨transcript, keys⟩, rfl⟩ := Option.ne_none_iff_exists'.mp hsome
      refine (leaves_finishHandshake P _ _ _ _ _ (by decide) (by decide) hat).mono
        (fun _ _ ho => ho) fun l _ m' hat => ?_
      exact ⟨_, _, .ephemeral pk reply _ ikm out pkEph encEph ikmEph outEph hrc hform hrcEph, hat⟩
  · refine (leaves_finishHandshake P _ _ _ _ _ (by decide) (by decide) hat).mono
      (fun _ _ ho => ho) fun l _ m' hat => ?_
    exact ⟨_, _, .static pk reply _ ikm out hrc hform, hat⟩

/-- `handshake` returns at one of the exits. -/
theorem handshake_exits (mode : Mode) (m : Memory β) :
    Leaves (fun h' _ m' => ∃ enc, StaticSecret cfg h' enc ∧ AtExit P mode enc h' m') [] m
      (handshake P cfg mode.suite) := by
  refine ensures_host_bind trivial fun nonce => ensures_host_bind trivial fun enc => ?_
  have hstatic : ∀ l, StaticSecret cfg ([⟨.inr (.inr (.espFillRandom nonceLen)), nonce⟩,
      ⟨.inr (.inr (.mlkem768Enc cfg.serverPublicKey)), enc⟩] ++ l) enc := fun l => ⟨nonce, l, rfl⟩
  refine Ensures.mono (φ := fun _ _ => True) (Q := fun h' _ m' => AtExit P mode enc h' m') ?_
    (fun _ _ ho => ho) fun l _ _ hexit => ⟨enc, hstatic l, hexit⟩
  have hat : At [encEvent cfg.serverPublicKey enc] []
    [⟨.inr (.inr (.espFillRandom nonceLen)), nonce⟩,
      ⟨.inr (.inr (.mlkem768Enc cfg.serverPublicKey)), enc⟩] m := ⟨rfl, nofun⟩
  refine leaves_memcpy_bind hat enc.length_ss nofun fun _ hat => ?_
  refine ensures_ite (fun hrc => ⟨_, _, .refused _ hrc, hat.mono (List.nil_subset _)⟩) fun hrc => ?_
  rw [not_not] at hrc
  have hunsent : Exit P mode enc _ _ := .unsent cfg.serverPublicKey hrc
  refine (quiet_fillHello P cfg _ _ _).leaves_bind hat (by simp) fun _ _ _ hat => ?_
  refine ensures_ite (fun _ => ⟨_, _, hunsent, hat⟩) fun _ => ?_
  refine Quiet.bytesAt.leaves_bind (w := []) hat (by simp) fun _ _ _ hat => ?_
  refine (quiet_sendFrame _ _).leaves_bind (w := []) hat (by simp) fun _ _ _ hat => ?_
  refine ensures_ite (fun _ => ?_) fun _ => ⟨_, _, hunsent, hat⟩
  refine (ensures_bind _ _).mpr (ensures_frame_bind trivial fun answer => ?_)
  replace hat := hat.call (o := .inr (.inl (.read Buffer.sFrame.size))) answer rfl
  have hlen : (if (mode.suite == suiteMlkem768Fs) then serverHelloLenFs else serverHelloLen) =
      mode.replyLen := by
    cases mode <;> rfl
  -- What has come is in `s_frame` now, whole or in part.
  cases answer with
  | error got =>
    refine (Quiet.memcpy (.head _)).leaves_bind (w := [.sFrame]) hat (by simp) fun _ _ _ hat => ?_
    exact ⟨_, _, .unanswered _ _ hrc (by rintro _ ⟨⟩), hat⟩
  | ok reply =>
    refine (Quiet.memcpy (.head _)).leaves_bind (w := [.sFrame]) hat (by simp) fun _ _ _ hat => ?_
    refine (ensures_pure _).mpr (ensures_ite (fun hbad => ?_) fun hgood => ?_)
    · refine ⟨_, _, .unanswered _ _ hrc ?_, hat⟩
      rintro _ heq ⟨htype, hreply⟩
      obtain rfl := Except.ok.inj heq
      rw [hlen] at hbad
      exact hbad.elim (fun h => h htype) fun h => h hreply
    · rw [hlen, not_or, not_not, not_not] at hgood
      exact leaves_afterServerHello P cfg hrc hgood _ _ _ (hat.mono (List.nil_subset _))

/-! ## Which exits leave a secret behind -/

/-- The relevant part of the history decides what is filled. -/
theorem At.filled_iff {known : List (Buffer × List β)} (hat : At events known h m) (b : Buffer) :
    Filled h b ↔ Filled events b := by
  have hsecrets := hat.countP_eq fun _ => relevant_of_isSecret
  have hextracts := hat.countP_eq fun _ => relevant_of_isExtract
  cases b <;> simp only [Filled, hsecrets, hextracts]

/-- Whether the answer was in form is decided by the relevant calls. -/
theorem At.replyInForm_iff {known : List (Buffer × List β)} (hat : At events known h m) :
    ReplyInForm mode h ↔ ReplyInForm mode events := by
  simp only [ReplyInForm, readEvent, ← hat.events_eq, List.mem_filter, relevant, and_true]

/-- All that has been filled is known to be wiped. -/
private theorem At.secretsWiped (hat : At events (wiped P w) h m)
    (hfilled : ∀ b, Filled events b → b ∈ w) : SecretsWiped P h m := by
  intro b hb
  have hmem : b ∈ w := hfilled b ((hat.filled_iff b).mp hb)
  exact hat.bytes_eq (b, zeros P b) (List.mem_map.mpr ⟨b, hmem, rfl⟩)

/-- The static secret, and nothing else, has been filled in and is still there. -/
private theorem At.secretsWiped_iff (hat : At events [(.ss, enc.ss)] h m)
    (hfilled : ∀ b, Filled events b ↔ b = .ss) : SecretsWiped P h m ↔ enc.ss = zeros P .ss := by
  have hss : m.bytes .ss = enc.ss := hat.bytes_eq _ (.head _)
  simp only [SecretsWiped, hat.filled_iff, hfilled, forall_eq, hss]

/-- At an exit every secret is wiped, if a ServerHello of the mode's length has come, or there is
none. -/
theorem AtExit.wiped_iff (hexit : AtExit P mode enc h m) :
    SecretsWiped P h m ↔ (enc.rc = 0 → enc.ss = zeros P .ss ∨ ReplyInForm mode h) := by
  obtain ⟨events, known, hexit, hat⟩ := hexit
  rw [hat.replyInForm_iff]
  -- At an exit it is known which arrays were filled, and what they hold now.
  cases hexit with
  | refused pk hrc =>
    refine iff_of_true ?_ fun hrc' => absurd hrc' hrc
    refine At.secretsWiped (w := []) P hat fun b => ?_
    cases b <;> simp [Filled, hrc]
  | unsent pk hrc =>
    have hnone : ¬ ReplyInForm mode [encEvent pk enc] := by
      rintro ⟨reply, -, hmem⟩
      cases List.mem_singleton.mp hmem
    rw [hat.secretsWiped_iff P fun b => by cases b <;> simp [Filled, hrc]]
    exact ⟨fun hss _ => .inl hss, fun hss => (hss hrc).resolve_right hnone⟩
  | unanswered pk answer hrc hform =>
    have hnone : ¬ ReplyInForm mode [encEvent pk enc, readEvent answer] := by
      rintro ⟨reply, hin, hmem⟩
      rcases List.mem_pair.mp hmem with heq | heq
      · cases heq
      · cases heq
        exact hform reply rfl hin
    rw [hat.secretsWiped_iff P fun b => by cases b <;> simp [Filled, hrc]]
    exact ⟨fun hss _ => .inl hss, fun hss => (hss hrc).resolve_right hnone⟩
  | static pk reply salt ikm out hrc hform =>
    refine iff_of_true (hat.secretsWiped P fun b => ?_) fun _ => .inr ⟨reply, hform, by simp⟩
    cases b <;> simp [Filled, hrc]
  | ephemeralRefused pk reply salt ikm out pkEph encEph hrc hform hrcEph =>
    refine iff_of_true (hat.secretsWiped P fun b => ?_) fun _ => .inr ⟨reply, hform, by simp⟩
    cases b <;> simp [Filled, List.countP_cons, hrc, hrcEph]
  | ephemeral pk reply salt ikm out pkEph encEph ikmEph outEph hrc hform hrcEph =>
    refine iff_of_true (hat.secretsWiped P fun b => ?_) fun _ => .inr ⟨reply, hform, by simp⟩
    cases b <;> simp [Filled, List.countP_cons, hrc, hrcEph]

/-- `handshake` leaves no secret behind, in whatever way it ends, exactly if the encapsulation to
the pinned key failed, its secret is all zeros, or a ServerHello of the mode's length has come. -/
theorem handshake_wiped_iff (P : Prims β) (cfg : Config β) (mode : Mode) {m m' : Memory β}
    {l : CallLog β} {session : Option (Session β)}
    (hrun : Prog.Run ((handshake P cfg mode.suite).run m) l (.ret (session, m'))) :
    SecretsWiped P l m' ↔ ∀ enc, StaticSecret cfg l enc → enc.rc = 0 →
      enc.ss = zeros P .ss ∨ ReplyInForm mode l := by
  obtain ⟨enc, hstatic, hexit⟩ := Prog.Spec.ret_of_run (handshake_exits P cfg mode m) hrun
  rw [hexit.wiped_iff]
  refine ⟨fun h enc' hstatic' => ?_, fun h => h enc hstatic⟩
  obtain ⟨_, _, heq⟩ := hstatic
  obtain ⟨_, _, heq'⟩ := hstatic'
  cases heq.symm.trans heq'
  exact h

end Handshake

/-! ## Fixed handshakes -/

/-- A successful encapsulation whose secret is not zero. -/
def onesEnc : Encapsulation UInt8 :=
  ⟨0, List.replicate 1088 0, List.replicate 32 1, List.length_replicate, List.length_replicate⟩

/-- The calls up to and with that for ServerHello. -/
def helloLog (answer : FrameOp.Ans UInt8 FrameFailure (.read 1256)) :
    List (Event (visible UInt8)) :=
  [⟨.inr (.espFillRandom 32), zeroBytes zeroPrims 32⟩,
    ⟨.inr (.mlkem768Enc zeroConfig.serverPublicKey), onesEnc⟩,
    ⟨.inl (.write frameClientHello (helloPayload zeroPrims zeroConfig .a
      (zeroBytes zeroPrims 32).1 onesEnc.ct)), .ok ()⟩,
    ⟨.inl (.read 1256), answer⟩]

/-- A handshake of mode A that ends after these calls has got the secret of that encapsulation. -/
private theorem exists_handshake_of_hello {answer : FrameOp.Ans UInt8 FrameFailure (.read 1256)}
    (hclient : Prog.Run (clientHandshake zeroPrims zeroConfig .a) (helloLog answer) (.ret none)) :
    ∃ (m m' : Memory UInt8) (l : CallLog UInt8),
      Prog.Run ((handshake zeroPrims zeroConfig Mode.a.suite).run m) l (.ret (none, m')) ∧
        AtExit zeroPrims .a onesEnc l m' ∧
        ∀ reply, readEvent (.ok reply) ∈ l ↔ answer = .ok reply := by
  let m : Memory UInt8 := ⟨fun b => List.replicate b.size 0, fun b => List.length_replicate⟩
  -- The run of the client in terms of values is one of the code, in some memory.
  rw [← handshake_refines zeroPrims zeroConfig .a m] at hclient
  obtain ⟨⟨session, m'⟩, hexec, rfl⟩ := Prog.run_of_map hclient
  obtain ⟨l, hrun, -, hvisible⟩ := Prog.run_of_answer _ hexec
  obtain ⟨enc, ⟨nonce, t, hl⟩, hexit⟩ :=
    Prog.Spec.ret_of_run (handshake_exits zeroPrims zeroConfig .a m) hrun
  -- There is only one encapsulation in the log.
  have henc : enc = onesEnc := by
    have hmem := (hvisible (.inr (.mlkem768Enc zeroConfig.serverPublicKey)) enc).mp
      (hl ▸ .tail _ (.head _))
    simp only [helloLog, List.mem_cons, List.not_mem_nil, or_false] at hmem
    rcases hmem with heq | heq | heq | heq
    · cases heq
    · cases heq
      rfl
    · cases heq
    · cases heq
  refine ⟨m, m', l, hrun, henc ▸ hexit, fun reply => ?_⟩
  refine (hvisible (.inl (.read 1256)) (.ok reply)).trans ⟨fun hmem => ?_, ?_⟩
  · simp only [helloLog, List.mem_cons, List.not_mem_nil, or_false] at hmem
    rcases hmem with heq | heq | heq | heq
    · cases heq
    · cases heq
    · cases heq
    · cases heq
      rfl
  · rintro rfl
    exact .tail _ (.tail _ (.tail _ (.head _)))

/-- The peer reads ClientHello and closes the connection: the secret stays in memory. -/
theorem handshake_leaves_secret : ∃ (m m' : Memory UInt8) (l : CallLog UInt8),
    Prog.Run ((handshake zeroPrims zeroConfig Mode.a.suite).run m) l (.ret (none, m')) ∧
      ¬ SecretsWiped zeroPrims l m' := by
  have hclient : Prog.Run (clientHandshake zeroPrims zeroConfig .a)
      (helloLog (.error ⟨[], Nat.zero_le _⟩)) (.ret none) :=
    .cons (.cons (.cons (.cons (.nil _))))
  obtain ⟨m, m', l, hrun, hexit, hreply⟩ := exists_handshake_of_hello hclient
  refine ⟨m, m', l, hrun, fun hwiped => ?_⟩
  rcases (hexit.wiped_iff zeroPrims).mp hwiped rfl with hzero | ⟨reply, -, hmem⟩
  · exact absurd hzero (by decide)
  · cases (hreply reply).mp hmem

/-- A ServerHello with a wrong MAC comes: the handshake fails, and nothing stays. -/
theorem handshake_wiped_forged : ∃ (m m' : Memory UInt8) (l : CallLog UInt8),
    Prog.Run ((handshake zeroPrims zeroConfig Mode.a.suite).run m) l (.ret (none, m')) ∧
      SecretsWiped zeroPrims l m' := by
  let reply : Payload UInt8 1256 := ⟨List.replicate 72 1, by decide⟩
  have hclient : Prog.Run (clientHandshake zeroPrims zeroConfig .a)
      (helloLog (.ok (frameServerHello, reply))) (.ret none) :=
    .cons (.cons (.cons (.cons (.nil _))))
  obtain ⟨m, m', l, hrun, -, hreply⟩ := exists_handshake_of_hello hclient
  refine ⟨m, m', l, hrun, (handshake_wiped_iff zeroPrims zeroConfig .a hrun).mpr ?_⟩
  exact fun _ _ _ => .inr ⟨_, ⟨rfl, List.length_replicate⟩, (hreply _).mpr rfl⟩

end Firmware

end PqcIot
