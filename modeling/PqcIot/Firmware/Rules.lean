import PqcIot.Firmware.Session

/-!
# Proof rules for the firmware's code

`Code.Ensures φ Q h m c`: when the history `h` has happened and the memory is `m`, every call that
`c` makes satisfies `φ` at the history it is made at, and its result and the memory it leaves
satisfy `Q` at the history it ends with, whatever the calls answer. There is one rule for each
construct of the code.
-/

namespace PqcIot

open Effects

namespace Firmware

variable {β α γ : Type}

/-- The history of code, with its calls into mbedtls. -/
abbrev CallLog (β : Type) : Type := List (Event (calls β))

namespace Code

/-- Specification of code, for every answer of its calls. -/
def Ensures (φ : CallLog β → (calls β).Op → Prop) (Q : CallLog β → α → Memory β → Prop)
    (h : CallLog β) (m : Memory β) (c : Code β α) : Prop :=
  Prog.Spec φ (fun h' r => Q h' r.1 r.2) h (c.run m)

variable {φ : CallLog β → (calls β).Op → Prop} {Q : CallLog β → α → Memory β → Prop}
  {h : CallLog β} {m : Memory β}

/-- Nothing is called, and the value is returned. -/
@[simp]
theorem ensures_pure (a : α) : Ensures φ Q h m (pure a) ↔ Q h a m := Iff.rfl

/-- What the first piece of code ensures is where the second starts. -/
theorem ensures_bind (c : Code β α) (f : α → Code β γ) {Q : CallLog β → γ → Memory β → Prop} :
    Ensures φ Q h m (c >>= f) ↔ Ensures φ (fun h' a m' => Ensures φ Q h' m' (f a)) h m c :=
  Prog.spec_bind _ _

/-- Consequence, along the histories that extend the starting one. -/
theorem Ensures.mono {φ' : CallLog β → (calls β).Op → Prop}
    {Q' : CallLog β → α → Memory β → Prop} {c : Code β α} (hc : Ensures φ Q h m c)
    (hφ : ∀ l o, φ (h ++ l) o → φ' (h ++ l) o)
    (hQ : ∀ l a m', Q (h ++ l) a m' → Q' (h ++ l) a m') : Ensures φ' Q' h m c :=
  Prog.Spec.mono hc hφ fun l r => hQ l r.1 r.2

/-- Sequencing with an intermediate assertion. -/
theorem Ensures.bind {c : Code β α} {f : α → Code β γ} {Q' : CallLog β → γ → Memory β → Prop}
    (hc : Ensures φ Q h m c)
    (hf : ∀ l a m', Q (h ++ l) a m' → Ensures φ Q' (h ++ l) m' (f a)) :
    Ensures φ Q' h m (c >>= f) :=
  (ensures_bind c f).mpr (hc.mono (fun _ _ ho => ho) hf)

/-- A call of mbedtls is allowed, and every answer to it leads on. -/
@[simp]
theorem ensures_mbedtls (o : MbedtlsOp β) {Q : CallLog β → MbedtlsOp.Ans o → Memory β → Prop} :
    Ensures φ Q h m (mbedtls o) ↔ φ h (.inl o) ∧ ∀ a, Q (h ++ [⟨.inl o, a⟩]) a m := Iff.rfl

/-- The same for a call of the framing. -/
@[simp]
theorem ensures_frame (o : FrameOp β)
    {Q : CallLog β → FrameOp.Ans β FrameFailure o → Memory β → Prop} :
    Ensures φ Q h m (frame o) ↔
      φ h (.inr (.inl o)) ∧ ∀ a, Q (h ++ [⟨.inr (.inl o), a⟩]) a m := Iff.rfl

/-- The same for a call of the operating system. -/
@[simp]
theorem ensures_host (o : HostOp β) {Q : CallLog β → HostOp.Ans o → Memory β → Prop} :
    Ensures φ Q h m (host o) ↔
      φ h (.inr (.inr o)) ∧ ∀ a, Q (h ++ [⟨.inr (.inr o), a⟩]) a m := Iff.rfl

/-- An access outside an array traps. -/
theorem ensures_memcpy {b : Buffer} {off : ℕ} {data : List β}
    {Q : CallLog β → Unit → Memory β → Prop} (htrap : φ h (.inr (.inr .trap)))
    (hQ : ∀ m', Q h () m') : Ensures φ Q h m (memcpy b off data) := by
  simp only [Ensures, memcpy, StateT.run]
  split
  · exact hQ _
  · exact ⟨htrap, fun a => Empty.elim a⟩

/-- The memory after a write inside an array. -/
theorem ensures_memcpy_store {b : Buffer} {off : ℕ} {data : List β}
    {Q : CallLog β → Unit → Memory β → Prop} (htrap : φ h (.inr (.inr .trap)))
    (hQ : ∀ hfit, Q h () (m.store b off data hfit)) : Ensures φ Q h m (memcpy b off data) := by
  simp only [Ensures, memcpy, StateT.run]
  split
  · exact hQ ‹_›
  · exact ⟨htrap, fun a => Empty.elim a⟩

/-- Bytes are read, or the code traps. -/
theorem ensures_bytesAt {b : Buffer} {off len : ℕ} {Q : CallLog β → List β → Memory β → Prop}
    (htrap : φ h (.inr (.inr .trap))) (hQ : ∀ bytes, Q h bytes m) :
    Ensures φ Q h m (bytesAt b off len) := by
  simp only [Ensures, bytesAt, StateT.run]
  split
  · exact hQ _
  · exact ⟨htrap, fun a => Empty.elim a⟩

/-- Each branch may rely on the condition that leads to it. -/
theorem ensures_ite {p : Prop} [Decidable p] {c d : Code β α} (hc : p → Ensures φ Q h m c)
    (hd : ¬ p → Ensures φ Q h m d) : Ensures φ Q h m (if p then c else d) := by
  split
  · exact hc ‹_›
  · exact hd ‹_›

/-! The rules for statements, with what comes after them. -/

/-- A call of mbedtls and what follows it. -/
theorem ensures_mbedtls_bind {o : MbedtlsOp β} {f : MbedtlsOp.Ans o → Code β γ}
    {Q : CallLog β → γ → Memory β → Prop} (ho : φ h (.inl o))
    (hf : ∀ a, Ensures φ Q (h ++ [⟨.inl o, a⟩]) m (f a)) : Ensures φ Q h m (mbedtls o >>= f) :=
  (ensures_bind _ _).mpr ⟨ho, hf⟩

/-- A call of the framing and what follows it. -/
theorem ensures_frame_bind {o : FrameOp β} {f : FrameOp.Ans β FrameFailure o → Code β γ}
    {Q : CallLog β → γ → Memory β → Prop} (ho : φ h (.inr (.inl o)))
    (hf : ∀ a, Ensures φ Q (h ++ [⟨.inr (.inl o), a⟩]) m (f a)) :
    Ensures φ Q h m (frame o >>= f) := (ensures_bind _ _).mpr ⟨ho, hf⟩

/-- A call of the operating system and what follows it. -/
theorem ensures_host_bind {o : HostOp β} {f : HostOp.Ans o → Code β γ}
    {Q : CallLog β → γ → Memory β → Prop} (ho : φ h (.inr (.inr o)))
    (hf : ∀ a, Ensures φ Q (h ++ [⟨.inr (.inr o), a⟩]) m (f a)) :
    Ensures φ Q h m (host o >>= f) := (ensures_bind _ _).mpr ⟨ho, hf⟩

/-- A `memcpy` and what follows it, in whatever memory it leaves. -/
theorem ensures_memcpy_bind {b : Buffer} {off : ℕ} {data : List β} {f : Unit → Code β γ}
    {Q : CallLog β → γ → Memory β → Prop} (htrap : φ h (.inr (.inr .trap)))
    (hf : ∀ m', Ensures φ Q h m' (f ())) : Ensures φ Q h m (memcpy b off data >>= f) :=
  (ensures_bind _ _).mpr (ensures_memcpy htrap hf)

/-- A read of a buffer and what follows it, whatever bytes it gives. -/
theorem ensures_bytesAt_bind {b : Buffer} {off len : ℕ} {f : List β → Code β γ}
    {Q : CallLog β → γ → Memory β → Prop} (htrap : φ h (.inr (.inr .trap)))
    (hf : ∀ bytes, Ensures φ Q h m (f bytes)) : Ensures φ Q h m (bytesAt b off len >>= f) :=
  (ensures_bind _ _).mpr (ensures_bytesAt htrap hf)

/-- `write_frame`, and what is done with its result. -/
theorem ensures_sendFrame_bind {ftype : UInt8} {payload : List β} {f : Bool → Code β γ}
    {Q : CallLog β → γ → Memory β → Prop} (ho : φ h (.inr (.inl (.write ftype payload))))
    (hok : Ensures φ Q (h ++ [⟨.inr (.inl (.write ftype payload)), .ok ()⟩]) m (f true))
    (herror : Ensures φ Q (h ++ [⟨.inr (.inl (.write ftype payload)), .error ()⟩]) m (f false)) :
    Ensures φ Q h m (sendFrame ftype payload >>= f) := by
  refine (ensures_bind _ _).mpr (ensures_frame_bind ho fun written => ?_)
  cases written with
  | ok _ => exact hok
  | error _ => exact herror

/-! ## Code that only makes calls of a kind -/

/-- Every call of the code satisfies `p`, in any memory and whatever the calls answer. -/
def Makes (p : (calls β).Op → Prop) (c : Code β α) : Prop :=
  ∀ h m, Ensures (fun _ o => p o) (fun _ _ _ => True) h m c

variable {p : (calls β).Op → Prop}

/-- Such code adds calls of the kind to the history, and its result is that of its run. -/
theorem Makes.ensures_run {c : Code β α} (hc : Makes p c) (h : CallLog β) (m : Memory β) :
    Ensures (fun _ o => p o) (fun h' a m' => ∃ l, h' = h ++ l ∧ (∀ e ∈ l, p e.1) ∧
      Prog.Run (c.run m) l (.ret (a, m'))) h m c := by
  refine Prog.Spec.mono (Prog.Spec.with_run (Prog.Spec.forall_events (hc h m)))
    (fun _ _ ho => ho) ?_
  rintro l r ⟨⟨-, tail, htail, heq⟩, l', heq', hrun⟩
  obtain rfl := List.append_cancel_left (heq'.symm.trans heq)
  exact ⟨l', heq', htail, hrun⟩

theorem Makes.pure (a : α) : Makes p (pure a : Code β α) := fun _ _ => trivial

/-- Code after code makes the calls of both. -/
theorem Makes.bind {c : Code β α} {f : α → Code β γ} (hc : Makes p c) (hf : ∀ a, Makes p (f a)) :
    Makes p (c >>= f) := fun h m => (hc h m).bind fun l a m' _ => hf a (h ++ l) m'

theorem Makes.mbedtls {o : MbedtlsOp β} (ho : p (.inl o)) : Makes p (mbedtls o) :=
  fun _ _ => ⟨ho, fun _ => trivial⟩

theorem Makes.frame {o : FrameOp β} (ho : p (.inr (.inl o))) : Makes p (frame o) :=
  fun _ _ => ⟨ho, fun _ => trivial⟩

theorem Makes.host {o : HostOp β} (ho : p (.inr (.inr o))) : Makes p (host o) :=
  fun _ _ => ⟨ho, fun _ => trivial⟩

/-- A `memcpy` makes no call, or traps. -/
theorem Makes.memcpy {b : Buffer} {off : ℕ} {data : List β} (ho : p (.inr (.inr .trap))) :
    Makes p (memcpy b off data) := fun _ _ => ensures_memcpy ho fun _ => trivial

/-- Neither does a read of a buffer. -/
theorem Makes.bytesAt {b : Buffer} {off len : ℕ} (ho : p (.inr (.inr .trap))) :
    Makes p (bytesAt b off len : Code β (List β)) := fun _ _ => ensures_bytesAt ho fun _ => trivial

/-- Whichever branch is taken. -/
theorem Makes.ite {q : Prop} [Decidable q] {c d : Code β α} (hc : Makes p c) (hd : Makes p d) :
    Makes p (if q then c else d) := by
  split
  · exact hc
  · exact hd

/-! ## Code that only returns results of a kind -/

/-- Every result of the code satisfies `R`, in any memory and whatever its calls answer. -/
def Returns (R : α → Prop) (c : Code β α) : Prop :=
  ∀ h m, Ensures (fun _ _ => True) (fun _ a _ => R a) h m c

variable {R : α → Prop}

/-- A value returns itself. -/
theorem Returns.pure {a : α} (ha : R a) : Returns R (Pure.pure a : Code β α) := fun _ _ => ha

/-- Only the last part of a sequence matters. -/
theorem Returns.bind {c : Code β γ} {f : γ → Code β α} (hf : ∀ a, Returns R (f a)) :
    Returns R (c >>= f) := fun h m =>
  Ensures.bind (Q := fun _ _ _ => True) (Prog.Spec.trivial (c.run m)) fun l a m' _ =>
    hf a (h ++ l) m'

/-- Whichever branch is taken returns such a value. -/
theorem Returns.ite {q : Prop} [Decidable q] {c d : Code β α} (hc : Returns R c)
    (hd : Returns R d) : Returns R (if q then c else d) := by
  split
  · exact hc
  · exact hd

end Code

/-! ## The calls of a handshake -/

/-- The calls that belong to a handshake: no encryption of records, and no frames but ClientHello
and ClientFinished. -/
def HandshakeCall : (calls β).Op → Prop
  | .inl (.gcmSetkey _) | .inl (.gcmCryptAndTag _ _ _ _) => False
  | .inr (.inl (.write ftype _)) => ftype = frameClientHello ∨ ftype = frameClientFinished
  | .inr (.inr .connectToServer) | .inr (.inr .close) => False
  | _ => True

section Handshake

open Code

variable (P : Prims β) (cfg : Config β)

/-- Wiping a buffer makes no call that the handshake does not. -/
private theorem makes_wipe (b : Buffer) : Makes HandshakeCall (wipe P b) := .memcpy trivial

/-- A MAC over two pieces is made by calls of mbedtls. -/
private theorem makes_hmacSha256Two (key a b : List β) :
    Makes HandshakeCall (hmacSha256Two key a b) := by
  refine .bind (.mbedtls trivial) fun _ => .bind (.mbedtls trivial) fun _ =>
    .bind (.mbedtls trivial) fun _ => .ite (.bind (.mbedtls trivial) fun _ => ?_) ?_
  · exact .bind (.mbedtls trivial) fun _ => .pure _
  · exact .bind (.mbedtls trivial) fun _ => .pure _

/-- So is the start of a hash. -/
private theorem makes_sha256Starts : Makes HandshakeCall (sha256Starts (β := β)) :=
  .bind (.mbedtls trivial) fun _ => .pure _

/-- So is feeding it. -/
private theorem makes_sha256Update (fed input : List β) :
    Makes HandshakeCall (sha256Update fed input) :=
  .bind (.mbedtls trivial) fun _ => .pure _

/-- So is its end. -/
private theorem makes_sha256Finish (fed : List β) : Makes HandshakeCall (sha256Finish fed) :=
  .bind (.mbedtls trivial) fun _ => .pure _

/-- Extraction is one call of the MAC. -/
private theorem makes_hkdfExtract (salt ikm : List β) :
    Makes HandshakeCall (hkdfExtract salt ikm) :=
  .bind (.mbedtls trivial) fun _ => .pure _

/-- So is the derivation of a key. -/
private theorem makes_deriveKey (prk : List β) (label : List UInt8) (th2 : List β) :
    Makes HandshakeCall (deriveKey P prk label th2) :=
  .bind (.mbedtls trivial) fun _ => .pure _

/-- The frames that are sent are the ClientHello and the confirmation. -/
private theorem makes_sendFrame {ftype : UInt8} (payload : List β)
    (hftype : ftype = frameClientHello ∨ ftype = frameClientFinished) :
    Makes HandshakeCall (sendFrame ftype payload) := by
  refine .bind (.frame hftype) fun written => ?_
  cases written with
  | error _ => exact .pure _
  | ok _ => exact .pure _

/-- Reading a frame is a call of the handshake. -/
private theorem makes_receiveFrame (b : Buffer) :
    Makes HandshakeCall (receiveFrame (β := β) b) := by
  refine .bind (.frame trivial) fun received => ?_
  cases received with
  | error _ => exact .bind (.memcpy trivial) fun _ => .pure _
  | ok _ => exact .bind (.memcpy trivial) fun _ => .pure _

/-- The ClientHello is put together without any call of records. -/
private theorem makes_fillHello (suite : UInt8) (clientNonce kemCt : List β) :
    Makes HandshakeCall (fillHello P cfg suite clientNonce kemCt) :=
  .bind (.memcpy trivial) fun _ => .bind (.memcpy trivial) fun _ => .bind (.memcpy trivial) fun _ =>
    .bind (.memcpy trivial) fun _ => .bind (.memcpy trivial) fun _ =>
    .bind (.memcpy trivial) fun _ => .bind (.bytesAt trivial) fun _ =>
    .bind (makes_hmacSha256Two _ _ _) fun _ => .bind (.memcpy trivial) fun _ => .pure _

/-- The transcript is hashed by calls of mbedtls. -/
private theorem makes_hashTranscript2 (fs : Bool) :
    Makes HandshakeCall (hashTranscript2 (β := β) fs) := by
  refine .bind makes_sha256Starts fun _ => .bind (.bytesAt trivial) fun _ =>
    .bind (makes_sha256Update _ _) fun _ => .bind (.bytesAt trivial) fun _ =>
    .bind (makes_sha256Update _ _) fun _ => .bind (.bytesAt trivial) fun _ =>
    .bind (makes_sha256Update _ _) fun _ => .ite ?_ (makes_sha256Finish _)
  exact .bind (.bytesAt trivial) fun _ => .bind (makes_sha256Update _ _) fun _ =>
    makes_sha256Finish _

/-- The keys of the first stage are derived by such calls. -/
private theorem makes_stage1 (fs : Bool) (salt th2 : List β) :
    Makes HandshakeCall (stage1 P cfg fs salt th2) := by
  refine .bind (.bytesAt trivial) fun _ => .bind (.memcpy trivial) fun _ =>
    .bind (.memcpy trivial) fun _ => .bind (.bytesAt trivial) fun _ =>
    .bind (makes_hkdfExtract _ _) fun _ => .bind (.memcpy trivial) fun _ =>
    .bind (.bytesAt trivial) fun _ => .bind (makes_deriveKey P _ _ _) fun _ => .ite ?_ ?_
  · exact .bind (makes_deriveKey P _ _ _) fun _ => .bind (makes_deriveKey P _ _ _) fun _ =>
      .bind (makes_deriveKey P _ _ _) fun _ => .bind (makes_wipe P _) fun _ =>
      .bind (makes_wipe P _) fun _ => .pure _
  · exact .bind (makes_wipe P _) fun _ => .bind (makes_wipe P _) fun _ => .pure _

/-- So are those of the second, after an encapsulation. -/
private theorem makes_stage2 (salt th2 srvConfirm : List β) :
    Makes HandshakeCall (stage2 P cfg salt th2 srvConfirm) := by
  refine .bind (.bytesAt trivial) fun _ => .bind (.host trivial) fun _ =>
    .bind (.memcpy trivial) fun _ => .bind (.memcpy trivial) fun _ => .ite ?_ ?_
  · exact .bind (makes_wipe P _) fun _ => .pure _
  · exact .bind makes_sha256Starts fun _ => .bind (makes_sha256Update _ _) fun _ =>
      .bind (.bytesAt trivial) fun _ => .bind (makes_sha256Update _ _) fun _ =>
      .bind (makes_sha256Finish _) fun _ => .bind (.bytesAt trivial) fun _ =>
      .bind (.memcpy trivial) fun _ => .bind (.bytesAt trivial) fun _ =>
      .bind (.memcpy trivial) fun _ => .bind (.memcpy trivial) fun _ =>
      .bind (.bytesAt trivial) fun _ => .bind (makes_hkdfExtract _ _) fun _ =>
      .bind (.memcpy trivial) fun _ => .bind (.bytesAt trivial) fun _ =>
      .bind (makes_deriveKey P _ _ _) fun _ => .bind (makes_deriveKey P _ _ _) fun _ =>
      .bind (makes_deriveKey P _ _ _) fun _ => .bind (makes_wipe P _) fun _ =>
      .bind (makes_wipe P _) fun _ => .bind (makes_wipe P _) fun _ => .pure _

/-- From the comparison of the MAC to the confirmation. -/
private theorem makes_finishHandshake (fs : Bool) (expectedLen : ℕ) (transcript serverMac : List β)
    (keys : SessionKeys β) :
    Makes HandshakeCall (finishHandshake P fs expectedLen transcript serverMac keys) := by
  refine .bind (makes_wipe P _) fun _ => .bind (makes_hmacSha256Two _ _ _) fun _ =>
    .bind (.memcpy trivial) fun _ => .bind (.bytesAt trivial) fun _ =>
    .bind (makes_sendFrame _ (.inr rfl)) fun _ => .ite ?_ (.pure _)
  exact .bind (.bytesAt trivial) fun _ => .pure _

/-- From the ServerHello to the end. -/
private theorem makes_afterServerHello (fs : Bool) (expectedLen : ℕ) (clientNonce : List β) :
    Makes HandshakeCall (afterServerHello P cfg fs expectedLen clientNonce) := by
  refine .bind (makes_hashTranscript2 _) fun _ => .bind (.bytesAt trivial) fun _ =>
    .bind (makes_stage1 P cfg _ _ _) fun _ =>
      .bind (.bind (.mbedtls trivial) fun _ => .pure _) fun _ =>
    .bind (.bytesAt trivial) fun _ => .ite (.bind (makes_wipe P _) fun _ => .pure _) (.ite ?_ ?_)
  · refine .bind (makes_stage2 P cfg _ _ _) fun exchanged => ?_
    cases exchanged with
    | none => exact .pure _
    | some _ => exact makes_finishHandshake P _ _ _ _ _
  · exact makes_finishHandshake P _ _ _ _ _

/-- `handshake` makes only calls of a handshake, whatever they answer. -/
theorem makes_handshake (suite : UInt8) : Makes HandshakeCall (handshake P cfg suite) := by
  refine .bind (.host trivial) fun _ => .bind (.host trivial) fun _ =>
    .bind (.memcpy trivial) fun _ =>
    .ite (.pure _) (.bind (makes_fillHello P cfg _ _ _) fun _ => .ite (.pure _) ?_)
  refine .bind (.bytesAt trivial) fun _ => .bind (makes_sendFrame _ (.inl rfl)) fun _ =>
    .ite ?_ (.pure _)
  refine .bind (makes_receiveFrame _) fun received => ?_
  cases received with
  | none => exact .pure _
  | some _ => exact .ite (.pure _) (makes_afterServerHello P cfg _ _ _)

/-! A session that is returned is fresh. -/

/-- A session in which nothing was sent. -/
def Fresh (session : Option (Session β)) : Prop := ∀ s, session = some s → s.sendSeq = 0

/-- A failed handshake sets up no session. -/
private theorem fresh_none : Fresh (none : Option (Session β)) := nofun

/-- The session that is returned has sent nothing. -/
private theorem returns_finishHandshake (fs : Bool) (expectedLen : ℕ)
    (transcript serverMac : List β) (keys : SessionKeys β) :
    Returns Fresh (finishHandshake P fs expectedLen transcript serverMac keys) := by
  refine .bind fun _ => .bind fun _ => .bind fun _ => .bind fun _ => .bind fun _ =>
    .ite (.bind fun _ => .pure ?_) (.pure fresh_none)
  rintro s ⟨⟩
  rfl

/-- So it does after the ServerHello. -/
private theorem returns_afterServerHello (fs : Bool) (expectedLen : ℕ) (clientNonce : List β) :
    Returns Fresh (afterServerHello P cfg fs expectedLen clientNonce) := by
  refine .bind fun _ => .bind fun _ => .bind fun _ => .bind fun _ => .bind fun _ =>
    .ite (.bind fun _ => .pure fresh_none) (.ite (.bind fun exchanged => ?_) ?_)
  · cases exchanged with
    | none => exact .pure fresh_none
    | some _ => exact returns_finishHandshake P _ _ _ _ _
  · exact returns_finishHandshake P _ _ _ _ _

/-- So it does after the whole handshake. -/
theorem returns_handshake (suite : UInt8) : Returns Fresh (handshake P cfg suite) := by
  refine .bind fun _ => .bind fun _ => .bind fun _ => .ite (.pure fresh_none) (.bind fun _ =>
    .ite (.pure fresh_none) (.bind fun _ => .bind fun _ => .ite (.bind fun received => ?_)
      (.pure fresh_none)))
  cases received with
  | none => exact .pure fresh_none
  | some _ => exact .ite (.pure fresh_none) (returns_afterServerHello P cfg _ _ _)

end Handshake

end Firmware

end PqcIot
