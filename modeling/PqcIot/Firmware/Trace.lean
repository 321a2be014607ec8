import PqcIot.Firmware.Client

/-!
# What the client's handshake does, and when

The stages of a client's handshake as predicates on its history — `Drawn`, `HelloSent`,
`ReplyRead`, `Verified`, `Exchanged`, `Completed` — and the point that each operation belongs to
(`Allowed`). `clientHandshake_allowed` shows that the handshake performs no operation at any other
point and returns a session only when it has completed.
-/

namespace PqcIot

open Effects

namespace Firmware

variable {β : Type}

/-- The history of a client. -/
abbrev Log (β : Type) : Type := List (Event (visible β))

/-- The values a client run has drawn and received. -/
structure Attempt (β : Type) where
  nonce : { l : List β // l.length = 32 }
  enc : Encapsulation β
  reply : Payload β 1256

section Stages

variable (P : Prims β) (cfg : Config β) (mode : Mode)

/-- The ClientHello of a run. -/
def Attempt.hello (r : Attempt β) : List β := helloPayload P cfg mode r.nonce.1 r.enc.ct

/-- The handshake of a run. -/
def Attempt.values (r : Attempt β) (ctEph ssEph : List β) : PqcIot.Handshake β :=
  clientValues P cfg mode r.nonce.1 r.enc r.reply.1 ctEph ssEph

/-- The nonce has been drawn and the static encapsulation has succeeded. -/
def Drawn (h : Log β) (nonce : { l : List β // l.length = 32 }) (enc : Encapsulation β) : Prop :=
  enc.rc = 0 ∧ h = [⟨.inr (.espFillRandom 32), nonce⟩,
    ⟨.inr (.mlkem768Enc cfg.serverPublicKey), enc⟩]

/-- ClientHello has been written. -/
def HelloSent (h : Log β) (nonce : { l : List β // l.length = 32 }) (enc : Encapsulation β) :
    Prop :=
  ∃ h₀, Drawn cfg h₀ nonce enc ∧ h = h₀ ++
    [⟨.inl (.write frameClientHello (helloPayload P cfg mode nonce.1 enc.ct)), .ok ()⟩]

/-- A ServerHello frame of the mode's length has been read. -/
def ReplyRead (h : Log β) (r : Attempt β) : Prop :=
  ∃ h₀, HelloSent P cfg mode h₀ r.nonce r.enc ∧
    r.reply.1.length = Protocol.serverHelloLen mode.spec ∧
    h = h₀ ++ [⟨.inl (.read 1256), .ok (frameServerHello, r.reply)⟩]

/-- The MAC at its end is the one over the ClientHello sent and all fields received. -/
def Verified (h : Log β) (r : Attempt β) : Prop :=
  ReplyRead P cfg mode h r ∧
    receivedMac mode r.reply.1 = (r.values P cfg mode [] []).serverMac P

/-- In mode B, the encapsulation to the received key has succeeded. -/
def Exchanged (h : Log β) (r : Attempt β) (ctEph ssEph : List β) : Prop :=
  (mode.fs = false ∧ ctEph = [] ∧ ssEph = [] ∧ Verified P cfg mode h r) ∨
    (mode.fs = true ∧ ∃ h₀ encEph, Verified P cfg mode h₀ r ∧ encEph.rc = 0 ∧
      ctEph = encEph.ct ∧ ssEph = encEph.ss ∧
      h = h₀ ++ [⟨.inr (.mlkem768Enc (slice 40 1184 r.reply.1)), encEph⟩])

/-- ClientFinished has been written. -/
def Completed (h : Log β) (r : Attempt β) (ctEph ssEph : List β) : Prop :=
  ∃ h₀, Exchanged P cfg mode h₀ r ctEph ssEph ∧ h = h₀ ++
    [⟨.inl (.write frameClientFinished ((r.values P cfg mode ctEph ssEph).clientFinished P)),
      .ok ()⟩]

/-- The point of a handshake that each operation belongs to. -/
def Allowed (h : Log β) : (visible β).Op → Prop
  | .inl (.write ftype payload) =>
    (ftype = frameClientHello ∧ ∃ nonce enc, Drawn cfg h nonce enc ∧
      payload = helloPayload P cfg mode nonce.1 enc.ct) ∨
    (ftype = frameClientFinished ∧ ∃ r ctEph ssEph, Exchanged P cfg mode h r ctEph ssEph ∧
      payload = (r.values P cfg mode ctEph ssEph).clientFinished P)
  | .inl (.read capacity) => capacity = 1256 ∧ ∃ nonce enc, HelloSent P cfg mode h nonce enc
  | .inr (.espFillRandom _) => h = []
  | .inr (.mlkem768Enc pk) =>
    (pk = cfg.serverPublicKey ∧ ∃ nonce, h = [⟨.inr (.espFillRandom 32), nonce⟩]) ∨
    (mode.fs = true ∧ ∃ r, Verified P cfg mode h r ∧ pk = slice 40 1184 r.reply.1)
  | .inr .connectToServer => False
  | .inr .close => False
  | .inr .trap => False

/-- A returned session belongs to a completed handshake. -/
def Returned (h : Log β) (s : Option (Session β)) : Prop :=
  ∀ session, s = some session → ∃ r ctEph ssEph, Completed P cfg mode h r ctEph ssEph ∧
    session = clientSession P mode (r.values P cfg mode ctEph ssEph)

variable {P cfg mode}

/-! Each stage comes after the ones before it. -/

/-- Before the answer was read, the nonce and the secret were drawn. -/
theorem ReplyRead.exists_drawn {h : Log β} {r : Attempt β} (hr : ReplyRead P cfg mode h r) :
    ∃ h₀, Drawn cfg h₀ r.nonce r.enc ∧ h₀ <+: h := by
  obtain ⟨h₁, ⟨h₀, hdrawn, rfl⟩, -, rfl⟩ := hr
  exact ⟨h₀, hdrawn, (List.prefix_append _ _).trans (List.prefix_append _ _)⟩

/-- Before the second exchange, the MAC was verified. -/
theorem Exchanged.exists_verified {h : Log β} {r : Attempt β} {ctEph ssEph : List β}
    (hex : Exchanged P cfg mode h r ctEph ssEph) : ∃ h₀, Verified P cfg mode h₀ r ∧ h₀ <+: h := by
  rcases hex with ⟨-, -, -, hverified⟩ | ⟨-, h₀, encEph, hverified, -, -, -, rfl⟩
  · exact ⟨h, hverified, List.prefix_rfl⟩
  · exact ⟨h₀, hverified, List.prefix_append _ _⟩

/-- The history of a client that has read a ServerHello, event by event. -/
theorem ReplyRead.log_eq {h : Log β} {r : Attempt β} (hr : ReplyRead P cfg mode h r) :
    h = [⟨.inr (.espFillRandom 32), r.nonce⟩, ⟨.inr (.mlkem768Enc cfg.serverPublicKey), r.enc⟩,
      ⟨.inl (.write frameClientHello (r.hello P cfg mode)), .ok ()⟩,
      ⟨.inl (.read 1256), .ok (frameServerHello, r.reply)⟩] := by
  obtain ⟨h₁, ⟨h₀, ⟨-, rfl⟩, rfl⟩, -, rfl⟩ := hr
  rfl

/-- A client reads at most one ServerHello. -/
theorem ReplyRead.unique {h h₁ h₂ : Log β} {r r' : Attempt β} (hr : ReplyRead P cfg mode h₁ r)
    (hr' : ReplyRead P cfg mode h₂ r') (hpfx₁ : h₁ <+: h) (hpfx₂ : h₂ <+: h) : r = r' := by
  have heq : h₁ = h₂ := by
    have hle : h₁.length = h₂.length := by
      rw [hr.log_eq, hr'.log_eq]
      rfl
    exact (List.prefix_of_prefix_length_le hpfx₁ hpfx₂ hle.le).eq_of_length hle
  rw [hr.log_eq, hr'.log_eq] at heq
  simp only [List.cons.injEq, and_true] at heq
  obtain ⟨hnonce, henc, -, hreply⟩ := heq
  have hnonce' : r.nonce = r'.nonce := eq_of_heq (Sigma.mk.inj hnonce).2
  have henc' : r.enc = r'.enc := eq_of_heq (Sigma.mk.inj henc).2
  have hreply' : r.reply = r'.reply :=
    (Prod.mk.inj (Except.ok.inj (eq_of_heq (Sigma.mk.inj hreply).2))).2
  cases r
  cases r'
  simp_all

/-- The end of a handshake does what is allowed. -/
private theorem clientFinish_allowed {h : Log β} {r : Attempt β} {ctEph ssEph : List β}
    (hex : Exchanged P cfg mode h r ctEph ssEph) :
    Prog.Spec (Allowed P cfg mode) (Returned P cfg mode) h
      (clientFinish P mode (r.values P cfg mode ctEph ssEph)) := by
  refine ⟨.inr ⟨rfl, r, ctEph, ssEph, hex, rfl⟩, fun a => ?_⟩
  match a with
  | .error () =>
    rintro session ⟨⟩
  | .ok () =>
    rintro session ⟨⟩
    exact ⟨r, ctEph, ssEph, ⟨h, hex, rfl⟩, rfl⟩

/-- So does the comparison of the MAC and what follows it. -/
private theorem clientVerify_allowed {h : Log β} {r : Attempt β}
    (hr : ReplyRead P cfg mode h r) :
    Prog.Spec (Allowed P cfg mode) (Returned P cfg mode) h
      (clientVerify P cfg mode r.nonce.1 r.enc r.reply.1) := by
  set v := clientValues P cfg mode r.nonce.1 r.enc r.reply.1 [] [] with hv
  have hlen : (v.serverMac P).length = (receivedMac mode r.reply.1).length := by
    obtain ⟨-, -, hreply, -⟩ := hr
    rw [Handshake.length_serverMac, receivedMac, length_slice]
    rw [hreply, serverHelloLen_spec]
    omega
  rw [clientVerify, ← hv]
  dsimp only
  -- Whatever is done from here on is done only for a reply whose MAC is right.
  by_cases hmac : ctEqual P (v.serverMac P) (receivedMac mode r.reply.1) = true
  · have hverified : Verified P cfg mode h r := ⟨hr, ((ctEqual_iff P hlen).mp hmac).symm⟩
    rw [if_pos hmac]
    -- In mode B the one thing that is left to allow is the ephemeral encapsulation.
    by_cases hfs : mode.fs = true
    · have hek : v.ekEph = slice 40 1184 r.reply.1 := if_pos hfs
      rw [if_pos hfs, hek]
      refine ⟨.inr ⟨hfs, r, hverified, rfl⟩, fun encEph => ?_⟩
      dsimp only
      split
      · rintro session ⟨⟩
      · rename_i hrc
        exact clientFinish_allowed (.inr ⟨hfs, h, encEph, hverified, not_not.mp hrc, rfl, rfl, rfl⟩)
    · rw [if_neg hfs]
      exact clientFinish_allowed (.inl ⟨Bool.eq_false_iff.mpr hfs, rfl, rfl, hverified⟩)
  · rw [if_neg hmac]
    rintro session ⟨⟩

/-- The handshake performs each operation at its stage, and returns a session only when it has
completed. -/
theorem clientHandshake_allowed :
    Prog.Spec (Allowed P cfg mode) (Returned P cfg mode) [] (clientHandshake P cfg mode) := by
  refine ⟨rfl, fun nonce => ⟨.inl ⟨rfl, nonce, rfl⟩, fun enc => ?_⟩⟩
  dsimp only
  split
  · rintro session ⟨⟩
  · rename_i hrc
    -- The static encapsulation has succeeded, so the hello may be written.
    have hdrawn : Drawn cfg [⟨.inr (.espFillRandom 32), nonce⟩,
        ⟨.inr (.mlkem768Enc cfg.serverPublicKey), enc⟩] nonce enc := ⟨not_not.mp hrc, rfl⟩
    refine ⟨.inl ⟨rfl, nonce, enc, hdrawn, rfl⟩, fun written => ?_⟩
    match written with
    | .error () => rintro session ⟨⟩
    | .ok () =>
      refine ⟨⟨rfl, nonce, enc, _, hdrawn, rfl⟩, fun received => ?_⟩
      match received with
      | .error _ => rintro session ⟨⟩
      | .ok (ftype, reply) =>
        dsimp only
        split
        · rintro session ⟨⟩
        · rename_i hbad
          -- A ServerHello of the right length.
          rw [not_or, not_not, not_not] at hbad
          obtain ⟨rfl, hlen⟩ := hbad
          exact clientVerify_allowed (r := ⟨nonce, enc, reply⟩) ⟨_, ⟨_, hdrawn, rfl⟩, hlen, rfl⟩

end Stages

end Firmware

end PqcIot
