import PqcIot.Server.Rules

/-!
# What a connection does, and when

The stages a connection goes through, each as a predicate on the history that says exactly which
operations have happened, with which answers, and which checks have passed: `HelloChecked`,
`Decapsulated`, `Named`, `Keyed`, `HelloSent`, `FinishedRead`, `Exchanged`, `Established`.

`Allowed P key h o` ties every operation to the stage it belongs to, and `serveConnection_allowed`
shows that the code performs no operation at any other point, whatever the answers it gets.
-/

namespace PqcIot

open Effects Protocol

namespace Server

variable {β : Type}

/-- The history of a connection. -/
abbrev Log (β : Type) : Type := List (Event (calls β))

/-! ## Stages -/

/-- The values of a connection that has accepted a hello and drawn its own random values. -/
structure Accepted (β : Type) where
  hello : ClientHello β
  psk : { l : List β // l.length = pskLen }
  ssStatic : List β
  serverNonce : { l : List β // l.length = nonceLen }
  sessionId : { l : List β // l.length = sessionIdLen }

/-- Whether the suite has forward secrecy. -/
def Accepted.fs (c : Accepted β) : Bool := c.hello.suite.params.fs

/-- The handshake of a connection. -/
def Accepted.values (c : Accepted β) (ekEph ctEph ssEph : List β) : Handshake β where
  fs := c.fs
  hello := c.hello.raw
  clientNonce := c.hello.clientNonce
  serverNonce := c.serverNonce.1
  sessionId := c.sessionId.1
  ekEph := ekEph
  ctEph := ctEph
  psk := c.psk.1
  ssStatic := c.ssStatic
  ssEph := ssEph

section Stages

variable (P : Prims β) (key : PrivateKey β)

/-- One ClientHello frame has been read and parsed, and names the server's key. -/
structure HelloParsed (h : Log β) (hello : ClientHello β) : Prop where
  read : ∃ raw, ClientHello.parse P raw.1 = .ok hello ∧
    h = [⟨.inl (.read maxFrame), .ok (frameClientHello, raw)⟩]
  keyId : hello.serverKeyId = key.keyId

/-- The PSK of the hello's device has been looked up, and its MAC verified. -/
structure HelloChecked (h : Log β) (hello : ClientHello β)
    (psk : { l : List β // l.length = pskLen }) : Prop where
  lookup : ∃ h₀, HelloParsed P key h₀ hello ∧
    h = h₀ ++ [⟨.inr (.pskFor hello.deviceId), .ok (some psk)⟩]
  mac : helloMac P psk.1 hello.signedPart = hello.pskMac

/-- The static ciphertext has been decapsulated. -/
def Decapsulated (h : Log β) (hello : ClientHello β) (psk : { l : List β // l.length = pskLen })
    (ssStatic : List β) : Prop :=
  ∃ h₀ result, HelloChecked P key h₀ hello psk ∧ result.returncode = 0 ∧
    result.secret = some ssStatic ∧ ssStatic.length = 32 ∧
    h = h₀ ++ [⟨.inr (.staticDecap hello.kemCt), some result⟩]

/-- The server nonce and the session id have been drawn. -/
def Named (h : Log β) (c : Accepted β) : Prop :=
  ∃ h₀, Decapsulated P key h₀ c.hello c.psk c.ssStatic ∧
    h = h₀ ++ [⟨.inr (.tokenBytes nonceLen), c.serverNonce⟩,
      ⟨.inr (.tokenBytes sessionIdLen), c.sessionId⟩]

/-- For a suite with forward secrecy, an ephemeral key has been generated. -/
def Keyed (h : Log β) (c : Accepted β) (ekEph : List β) : Prop :=
  (c.fs = false ∧ ekEph = [] ∧ Named P key h c) ∨
    (c.fs = true ∧ ∃ h₀ gen der, Named P key h₀ c ∧ gen.returncode = 0 ∧ der.returncode = 0 ∧
      rawPublicFromDer der.stdout = .ok ekEph ∧
      h = h₀ ++ [⟨.inr .mkdtemp, some ()⟩, ⟨.inr (.genpkey c.hello.suite.params.level), some gen⟩,
        ⟨.inr .chmod, some ()⟩, ⟨.inr .pubout, some der⟩])

/-- ServerHello has been written. -/
def HelloSent (h : Log β) (c : Accepted β) (ekEph : List β) : Prop :=
  ∃ h₀, Keyed P key h₀ c ekEph ∧
    h = h₀ ++ [⟨.inl (.write frameServerHello ((c.values ekEph [] []).serverHello P)), .ok ()⟩]

/-- A ClientFinished frame of the suite's length has been read. -/
def FinishedRead (h : Log β) (c : Accepted β) (ekEph ctEph clientMac : List β) : Prop :=
  ∃ h₀ payload, HelloSent P key h₀ c ekEph ∧ payload.1 = ctEph ++ clientMac ∧
    ctEph.length = (if c.fs then c.hello.suite.params.ct else 0) ∧ clientMac.length = macLen ∧
    h = h₀ ++ [⟨.inl (.read maxFrame), .ok (frameClientFinished, payload)⟩]

/-- For a suite with forward secrecy, the ephemeral ciphertext has been decapsulated. -/
def Exchanged (h : Log β) (c : Accepted β) (ekEph ctEph ssEph clientMac : List β) : Prop :=
  (c.fs = false ∧ ssEph = [] ∧ FinishedRead P key h c ekEph ctEph clientMac) ∨
    (c.fs = true ∧ ∃ h₀ result, FinishedRead P key h₀ c ekEph ctEph clientMac ∧
      result.returncode = 0 ∧ result.secret = some ssEph ∧
      h = h₀ ++ [⟨.inr (.ephDecap ctEph), some result⟩])

/-- The operations of `destroy`. -/
def IsDestroy : (calls β).Op → Prop
  | .inr .ephExists | .inr .ephSize | .inr (.ephOverwrite _) | .inr .ephCleanup => True
  | _ => False

/-- The client's MAC has been verified against this connection's transcript. -/
def Established (h : Log β) (c : Accepted β) (ekEph ctEph ssEph : List β) : Prop :=
  ∃ h₀ tail, Exchanged P key h₀ c ekEph ctEph ssEph
      ((c.values ekEph ctEph ssEph).clientMac P) ∧
    (∀ e ∈ tail, IsDestroy e.1) ∧ (c.fs = false → tail = []) ∧ h = h₀ ++ tail

/-- The point of a connection that each operation belongs to. -/
def Allowed (h : Log β) : (calls β).Op → Prop
  | .inl (.read _) => True
  | .inl (.write ftype payload) => ftype = frameServerHello ∧ ∃ c ekEph, Keyed P key h c ekEph ∧
      payload = (c.values ekEph [] []).serverHello P
  | .inr (.pskFor deviceId) => ∃ hello, HelloParsed P key h hello ∧ deviceId = hello.deviceId
  | .inr (.staticDecap ciphertext) => ∃ hello psk, HelloChecked P key h hello psk ∧
      ciphertext = hello.kemCt
  | .inr (.tokenBytes n) => ∃ h₀ hello psk ssStatic, Decapsulated P key h₀ hello psk ssStatic ∧
      (n = nonceLen ∧ h = h₀ ∨
        n = sessionIdLen ∧ ∃ nonce, h = h₀ ++ [⟨.inr (.tokenBytes nonceLen), nonce⟩])
  | .inr .mkdtemp => ∃ c, Named P key h c ∧ c.fs = true
  | .inr (.genpkey level) => ∃ h₀ c, Named P key h₀ c ∧ c.fs = true ∧
      level = c.hello.suite.params.level ∧ h = h₀ ++ [⟨.inr .mkdtemp, some ()⟩]
  | .inr .chmod => ∃ h₀ c gen, Named P key h₀ c ∧ c.fs = true ∧
      h = h₀ ++ [⟨.inr .mkdtemp, some ()⟩,
        ⟨.inr (.genpkey c.hello.suite.params.level), some gen⟩]
  | .inr .pubout => ∃ h₀ c gen, Named P key h₀ c ∧ c.fs = true ∧
      h = h₀ ++ [⟨.inr .mkdtemp, some ()⟩,
        ⟨.inr (.genpkey c.hello.suite.params.level), some gen⟩, ⟨.inr .chmod, some ()⟩]
  | .inr (.ephDecap ciphertext) => ∃ c ekEph clientMac, c.fs = true ∧
      FinishedRead P key h c ekEph ciphertext clientMac
  | .inr .ephExists | .inr .ephSize | .inr (.ephOverwrite _) | .inr .ephCleanup => True
  | .inr (.recordOpen payload) => ∃ h₀ l c ekEph ctEph ssEph raw,
      Established P key h₀ c ekEph ctEph ssEph ∧ raw.1 = payload ∧
      h = h₀ ++ l ++ [⟨.inl (.read maxFrame), .ok (frameData, raw)⟩]
  | .inr .close => True

/-- The history of a connection that has drawn its random values, event by event. -/
theorem Named.log_eq {P : Prims β} {key : PrivateKey β} {h : Log β} {c : Accepted β}
    (hnamed : Named P key h c) :
    ∃ raw result, ClientHello.parse P raw.1 = .ok c.hello ∧ result.returncode = 0 ∧
      result.secret = some c.ssStatic ∧ c.ssStatic.length = 32 ∧
      h = [⟨.inl (.read maxFrame), .ok (frameClientHello, raw)⟩,
        ⟨.inr (.pskFor c.hello.deviceId), .ok (some c.psk)⟩,
        ⟨.inr (.staticDecap c.hello.kemCt), some result⟩,
        ⟨.inr (.tokenBytes nonceLen), c.serverNonce⟩,
        ⟨.inr (.tokenBytes sessionIdLen), c.sessionId⟩] := by
  obtain ⟨h₀, ⟨h₁, result, ⟨⟨h₂, ⟨⟨raw, hparse, rfl⟩, -⟩, rfl⟩, -⟩, hrc, hsecret,
    hlen, rfl⟩, rfl⟩ :=
    hnamed
  exact ⟨raw, result, hparse, hrc, hsecret, hlen, rfl⟩

/-- A connection accepts at most one hello. -/
theorem Named.hello_unique {P : Prims β} {key : PrivateKey β} {h h₁ h₂ : Log β}
    {c c' : Accepted β} (hc : Named P key h₁ c) (hc' : Named P key h₂ c') (hpfx₁ : h₁ <+: h)
    (hpfx₂ : h₂ <+: h) : c.hello = c'.hello := by
  obtain ⟨raw, result, hparse, -, -, -, rfl⟩ := hc.log_eq
  obtain ⟨raw', result', hparse', -, -, -, rfl⟩ := hc'.log_eq
  have heq := (List.prefix_of_prefix_length_le hpfx₁ hpfx₂ le_rfl).eq_of_length rfl
  -- Both read the same frame.
  have hraw : raw = raw' :=
    (Prod.mk.inj (Except.ok.inj (eq_of_heq (Sigma.mk.inj (List.cons.inj heq).1).2))).2
  rw [hraw] at hparse
  exact Except.ok.inj (hparse.symm.trans hparse')

/-- Before the ephemeral key come the random values. -/
theorem Keyed.exists_named {P : Prims β} {key : PrivateKey β} {h : Log β} {c : Accepted β}
    {ekEph : List β} (hkeyed : Keyed P key h c ekEph) : ∃ h₀, Named P key h₀ c ∧ h₀ <+: h := by
  rcases hkeyed with ⟨-, -, hnamed⟩ | ⟨-, h₀, gen, der, hnamed, -, -, -, rfl⟩
  · exact ⟨h, hnamed, List.prefix_rfl⟩
  · exact ⟨h₀, hnamed, List.prefix_append _ _⟩

/-- Before the ephemeral exchange comes a ClientFinished frame. -/
theorem Exchanged.exists_finishedRead {P : Prims β} {key : PrivateKey β} {h : Log β}
    {c : Accepted β} {ekEph ctEph ssEph clientMac : List β}
    (hex : Exchanged P key h c ekEph ctEph ssEph clientMac) :
    ∃ h₀, FinishedRead P key h₀ c ekEph ctEph clientMac ∧ h₀ <+: h := by
  rcases hex with ⟨-, -, hfin⟩ | ⟨-, h₀, result, hfin, -, -, rfl⟩
  · exact ⟨h, hfin, List.prefix_rfl⟩
  · exact ⟨h₀, hfin, List.prefix_append _ _⟩

/-- Before ClientFinished comes the ServerHello. -/
theorem FinishedRead.exists_keyed {P : Prims β} {key : PrivateKey β} {h : Log β} {c : Accepted β}
    {ekEph ctEph clientMac : List β} (hfin : FinishedRead P key h c ekEph ctEph clientMac) :
    ∃ h₀, Keyed P key h₀ c ekEph ∧ h₀ <+: h := by
  obtain ⟨_, _, ⟨h₀, hkeyed, rfl⟩, -, -, -, rfl⟩ := hfin
  exact ⟨h₀, hkeyed, (List.prefix_append _ _).trans (List.prefix_append _ _)⟩

/-! ## The code keeps to the stages -/

/-- No condition on exceptions. -/
abbrev anyExn : Log β → PyExn → Prop := fun _ _ => True

variable {P key}

private theorem decapsulate_allowed {h : Log β} {hello : ClientHello β}
    {psk : { l : List β // l.length = pskLen }} (hh : HelloChecked P key h hello psk) :
    Py.Ensures (Allowed P key) (fun h' ss => Decapsulated P key h' hello psk ss) anyExn h
      (decapsulate hello.kemCt) := by
  refine Py.Ensures.bind (Q := fun h' a => h' = h ++ [⟨.inr (.staticDecap hello.kemCt), a⟩])
    ((Py.ensures_call _).mpr ⟨⟨hello, psk, hh, rfl⟩, fun a => rfl⟩) ?_
  rintro l a hl
  refine Py.Ensures.bind (Q := fun h' result => h' = h ++ [⟨.inr (.staticDecap hello.kemCt), a⟩] ∧
    a = some result) ((Py.ensures_orOSError a).mpr ⟨fun result ha => ⟨hl, ha⟩, fun _ => trivial⟩) ?_
  rintro l' result ⟨hl', rfl⟩
  refine Py.ensures_ite (fun _ => trivial) fun hrc => ?_
  cases hsecret : result.secret with
  | none => trivial
  | some ss =>
    refine Py.ensures_ite (fun _ => trivial) fun hlen => ?_
    exact ⟨h, result, hh, not_not.mp hrc, hsecret, not_not.mp hlen, hl'⟩

/-- The rule for a call whose answer may be `OSError`. -/
private theorem ensures_orOSError_of {α : Type} {φ : Log β → (calls β).Op → Prop} {h : Log β}
    {x : Option α} {Q : Log β → α → Prop} (hQ : ∀ a, x = some a → Q h a) :
    Py.Ensures φ Q anyExn h (Py.orOSError x) :=
  (Py.ensures_orOSError x).mpr ⟨hQ, fun _ => trivial⟩

/-- The rule for a pure function that may raise. -/
private theorem ensures_ofExcept_of {α : Type} {φ : Log β → (calls β).Op → Prop} {h : Log β}
    {r : Except PyExn α} {Q : Log β → α → Prop} (hQ : ∀ a, r = .ok a → Q h a) :
    Py.Ensures φ Q anyExn h (Py.ofExcept r) :=
  (Py.ensures_ofExcept r).mpr ⟨hQ, fun _ _ => trivial⟩

/-- The rule for an operation followed by code. -/
private theorem ensures_call_bind {γ : Type} {φ : Log β → (calls β).Op → Prop} {h : Log β}
    {o : HostOp β} {f : HostOp.Ans o → Py β γ} {Q : Log β → γ → Prop} (hφ : φ h (.inr o))
    (hf : ∀ a, Py.Ensures φ Q anyExn (h ++ [⟨.inr o, a⟩]) (f a)) :
    Py.Ensures φ Q anyExn h (Py.call o >>= f) :=
  (Py.ensures_bind _ f).mpr ((Py.ensures_call o).mpr ⟨hφ, hf⟩)

/-- The rule for `check=True`. -/
private theorem ensures_checked {φ : Log β → (calls β).Op → Prop} {h : Log β}
    {x : Option (Completed β)} {Q : Log β → List β → Prop}
    (hQ : ∀ result, x = some result → result.returncode = 0 → Q h result.stdout) :
    Py.Ensures φ Q anyExn h (checked x) := by
  cases x with
  | none => trivial
  | some result =>
    rw [checked, Py.ensures_bind]
    refine ensures_orOSError_of fun result' hresult => ?_
    cases hresult
    refine Py.ensures_ite (fun _ => trivial) fun hrc => ?_
    exact hQ result rfl (not_not.mp hrc)

private theorem ephemeralKey_allowed {h : Log β} {c : Accepted β} (hc : Named P key h c)
    (hfs : c.fs = true) :
    Py.Ensures (Allowed P key) (fun h' ekEph => Keyed P key h' c ekEph) anyExn h
      (EphemeralKey.init c.hello.suite.params.level) := by
  refine ensures_call_bind ⟨c, hc, hfs⟩ fun dir => ?_
  rw [Py.ensures_bind]
  refine ensures_orOSError_of fun _ hdir => ?_
  subst hdir
  refine ensures_call_bind ⟨h, c, hc, hfs, rfl, rfl⟩ fun gen => ?_
  rw [Py.ensures_bind]
  refine ensures_checked fun gen' hgen hgenRc => ?_
  subst hgen
  refine ensures_call_bind ⟨h, c, gen', hc, hfs, by simp⟩ fun mode => ?_
  rw [Py.ensures_bind]
  refine ensures_orOSError_of fun _ hmode => ?_
  subst hmode
  refine ensures_call_bind ⟨h, c, gen', hc, hfs, by simp⟩ fun der => ?_
  rw [Py.ensures_bind]
  refine ensures_checked fun der' hder hderRc => ?_
  subst hder
  refine ensures_ofExcept_of fun ekEph hek => ?_
  exact .inr ⟨hfs, h, gen', der', hc, hgenRc, hderRc, hek, by simp⟩

private theorem ephDecapsulate_allowed {h : Log β} {c : Accepted β} {ekEph ctEph clientMac : List β}
    (hfs : c.fs = true) (hh : FinishedRead P key h c ekEph ctEph clientMac) :
    Py.Ensures (Allowed P key)
      (fun h' ssEph => Exchanged P key h' c ekEph ctEph ssEph clientMac) anyExn h
      (EphemeralKey.decapsulate ctEph) := by
  refine ensures_call_bind ⟨c, ekEph, clientMac, hfs, hh⟩ fun result => ?_
  rw [Py.ensures_bind]
  refine ensures_orOSError_of fun result' hresult => ?_
  subst hresult
  refine Py.ensures_ite (fun _ => trivial) fun hrc => ?_
  cases hsecret : result'.secret with
  | none => trivial
  | some ss => exact .inr ⟨hfs, h, result', hh, not_not.mp hrc, hsecret, rfl⟩

/-- `destroy` performs only its own operations. -/
private theorem destroy_isDestroy (h : Log β) :
    Py.Ensures (fun _ o => IsDestroy o) (fun _ _ => True) anyExn h EphemeralKey.destroy := by
  have hcleanup : ∀ h' : Log β, Py.Ensures (fun _ o => IsDestroy o) (fun _ _ => True) anyExn h'
      (do Py.orOSError (← Py.call .ephCleanup)) := fun _ =>
    ensures_call_bind trivial fun _ => ensures_orOSError_of fun _ _ => trivial
  have hbody : Py.Ensures (fun _ o => IsDestroy o) (fun _ _ => True) anyExn h (do
      if ← Py.call .ephExists then
        let size ← Py.orOSError (← Py.call .ephSize)
        Py.orOSError (← Py.call (.ephOverwrite size))
      else
        return ()) := by
    refine ensures_call_bind trivial fun found => Py.ensures_ite (fun _ => ?_) fun _ => trivial
    refine ensures_call_bind trivial fun size => ?_
    rw [Py.ensures_bind]
    refine ensures_orOSError_of fun size' _ => ensures_call_bind trivial fun _ => ?_
    exact ensures_orOSError_of fun _ _ => trivial
  refine Py.Ensures.tryFinally (Py.Ensures.ignoreOSError ?_)
  refine hbody.mono (fun _ _ ho => ho) (fun _ _ _ => hcleanup _) fun _ e _ => ?_
  split
  · exact hcleanup _
  · exact hcleanup _

/-- `destroy` adds only its own events to the history. -/
private theorem destroy_allowed (h : Log β) :
    Py.Ensures (Allowed P key)
      (fun h' _ => ∃ tail, (∀ e ∈ tail, IsDestroy e.1) ∧ h' = h ++ tail) anyExn h
      EphemeralKey.destroy := by
  refine Prog.Spec.mono (Prog.Spec.forall_events (destroy_isDestroy h)) ?_ ?_
  · intro l o ho
    match o, ho with
    | .inr .ephExists, _ | .inr .ephSize, _ | .inr (.ephOverwrite _), _ | .inr .ephCleanup, _ =>
      trivial
  · rintro l r ⟨-, htail⟩
    cases r with
    | ok a => exact htail
    | error e => trivial

section Handshake

variable [DecidableEq β]

omit [DecidableEq β] in
/-- The first `ct` bytes of a payload and the rest. -/
private theorem finishedRead_of {h : Log β} {c : Accepted β} {ekEph : List β}
    (payload : Payload β maxFrame) (hsent : HelloSent P key h c ekEph)
    (hlen : payload.1.length = (if c.fs then c.hello.suite.params.ct else 0) + macLen) :
    FinishedRead P key
      (h ++ [⟨.inl (.read maxFrame), .ok (frameClientFinished, payload)⟩]) c ekEph
      (payload.1.take (if c.fs then c.hello.suite.params.ct else 0))
      (payload.1.drop (if c.fs then c.hello.suite.params.ct else 0)) := by
  refine ⟨h, payload, hsent, (List.take_append_drop _ _).symm, ?_, ?_, rfl⟩
  · rw [List.length_take]
    omega
  · rw [List.length_drop]
    omega

private theorem acceptHello_allowed :
    Py.Ensures (Allowed P key)
      (fun h' r => ∃ hpsk : r.2.1.length = pskLen, Decapsulated P key h' r.1 ⟨r.2.1, hpsk⟩ r.2.2)
      anyExn [] (acceptHello P key) := by
  rw [acceptHello, Py.ensures_bind, ensures_recvFrame]
  refine ⟨trivial, fun frame => ?_, fun _ => trivial⟩
  obtain ⟨ftype, raw⟩ := frame
  refine Py.ensures_ite (fun _ => trivial) fun htype => ?_
  rw [Py.ensures_bind]
  refine ensures_ofExcept_of fun hello hparse => Py.ensures_ite (fun _ => trivial) fun hkey => ?_
  have hkeyId : hello.serverKeyId = key.keyId := by simpa [compareDigest] using hkey
  have hparsed : HelloParsed P key [⟨.inl (.read maxFrame), .ok (ftype, raw)⟩] hello :=
    ⟨⟨raw, hparse, by rw [not_not.mp htype]⟩, hkeyId⟩
  refine ensures_call_bind ⟨hello, hparsed, rfl⟩ fun lookup => ?_
  match lookup with
  | .error _ | .ok none => trivial
  | .ok (some psk) =>
    refine Py.ensures_ite (fun _ => trivial) fun hmac => ?_
    have hchecked : HelloChecked P key ([⟨.inl (.read maxFrame), .ok (ftype, raw)⟩] ++
        [⟨.inr (.pskFor hello.deviceId), .ok (some psk)⟩]) hello psk :=
      ⟨⟨_, hparsed, rfl⟩, by simpa [compareDigest] using hmac⟩
    refine (decapsulate_allowed hchecked).bind fun l ss hss => ?_
    exact ⟨psk.2, hss⟩

omit [DecidableEq β] in
/-- The keys that the `try` block derives before ServerHello. -/
theorem derive_before_hello (c : Accepted β) (ekEph : List β) :
    (if c.hello.suite.params.fs then do
        return ((none : Option (SessionKeys β)), ← deriveStage1 P c.ssStatic c.psk.1
          c.hello.clientNonce c.serverNonce.1 ((c.values ekEph [] []).th2 P))
      else do
        let keys ← deriveKeys P c.ssStatic c.psk.1 c.hello.clientNonce c.serverNonce.1
          ((c.values ekEph [] []).th2 P)
        return (some keys, keys.srvConfirm) : Except PyExn _) =
      .ok (if c.fs then none else some ⟨(c.values ekEph [] []).srvConfirm P,
          (c.values ekEph [] []).cliConfirm P, (c.values ekEph [] []).c2s P,
          (c.values ekEph [] []).s2c P⟩, (c.values ekEph [] []).srvConfirm P) := by
  by_cases hfs : c.fs = true
  · have hsuite : c.hello.suite.params.fs = true := hfs
    rw [if_pos hsuite, if_pos hfs]
    have hstage1 := (c.values ekEph [] []).deriveStage1_eq P
    rw [show deriveStage1 P c.ssStatic c.psk.1 c.hello.clientNonce c.serverNonce.1
      ((c.values ekEph [] []).th2 P) = _ from hstage1]
    rfl
  · have hsuite : ¬ c.hello.suite.params.fs = true := hfs
    rw [if_neg hsuite, if_neg hfs]
    have hkeys := (c.values ekEph [] []).deriveKeys_eq P c.psk.2 (Bool.eq_false_iff.mpr hfs)
    rw [show deriveKeys P c.ssStatic c.psk.1 c.hello.clientNonce c.serverNonce.1
      ((c.values ekEph [] []).th2 P) = _ from hkeys]
    rfl

omit [DecidableEq β] in
private theorem exchange_allowed {h : Log β} {c : Accepted β} {ekEph : List β}
    (hkeyed : Keyed P key h c ekEph) :
    Py.Ensures (Allowed P key)
      (fun h' r => ∃ ctEph ssEph, Exchanged P key h' c ekEph ctEph ssEph r.clientMac ∧
        r.serverMac = (c.values ekEph ctEph ssEph).serverMac P ∧
        r.transcriptForMac = (c.values ekEph ctEph ssEph).transcript P ∧
        r.keys.cliConfirm = (c.values ekEph ctEph ssEph).cliConfirm P ∧
        r.keys.c2s = (c.values ekEph ctEph ssEph).c2s P)
      anyExn h
      (exchange P c.hello c.psk.1 c.ssStatic c.serverNonce.1 c.sessionId.1 ekEph) := by
  have hth2 : transcript2 P c.hello.raw c.serverNonce.1 c.sessionId.1 ekEph =
      (c.values ekEph [] []).th2 P := rfl
  have hhello : c.serverNonce.1 ++ c.sessionId.1 ++ ekEph ++
      P.hmac ((c.values ekEph [] []).srvConfirm P) ((c.values ekEph [] []).th2 P) =
        (c.values ekEph [] []).serverHello P := rfl
  rw [exchange, Py.ensures_bind, hth2, derive_before_hello c ekEph]
  refine ensures_ofExcept_of fun r hr => ?_
  cases hr
  dsimp only
  rw [hhello, Py.ensures_bind, ensures_sendFrame]
  refine ⟨⟨rfl, c, ekEph, hkeyed, rfl⟩, ?_, fun _ => trivial⟩
  -- ServerHello has been sent when the peer's frame is read.
  have hsent : HelloSent P key (h ++ [⟨.inl (.write frameServerHello
      ((c.values ekEph [] []).serverHello P)), .ok ()⟩]) c ekEph := ⟨h, hkeyed, rfl⟩
  rw [Py.ensures_bind, ensures_recvFrame]
  refine ⟨trivial, fun frame => ?_, fun _ => trivial⟩
  obtain ⟨ftype, payload⟩ := frame
  refine Py.ensures_ite (fun _ => trivial) fun htype => ?_
  obtain rfl := not_not.mp htype
  by_cases hfs : c.fs = true
  · -- A second decapsulation, and the keys of stage 2.
    rw [if_pos hfs]
    refine Py.ensures_ite (fun _ => trivial) fun hlen => ?_
    have hread := finishedRead_of payload hsent
      (by rw [if_pos hfs]; exact not_not.mp hlen)
    rw [if_pos hfs] at hread
    refine (ephDecapsulate_allowed hfs hread).bind fun l ssEph hss => ?_
    set ctEph := payload.1.take c.hello.suite.params.ct with hct
    have hstage2 := (c.values ekEph ctEph ssEph).deriveStage2_eq P hfs
    rw [Py.ensures_bind]
    refine ensures_ofExcept_of fun keys hkeys => ?_
    rw [show deriveStage2 P c.ssStatic ssEph c.psk.1 c.hello.clientNonce c.serverNonce.1
      (transcript3 P ((c.values ekEph [] []).th2 P) ctEph) = _ from hstage2] at hkeys
    cases hkeys
    exact ⟨ctEph, ssEph, hss, rfl, (if_pos hfs).symm, rfl, rfl⟩
  · -- The frame is the client's MAC.
    rw [if_neg hfs]
    have hfalse : c.fs = false := by simpa using hfs
    refine Py.ensures_ite (fun _ => trivial) fun hlen => ?_
    have hread := finishedRead_of payload hsent
      (by rw [hfalse]; simpa using not_not.mp hlen)
    rw [if_neg hfs, List.take_zero, List.drop_zero] at hread
    exact ⟨[], [], .inl ⟨hfalse, rfl, hread⟩, rfl, (if_neg hfs).symm, rfl, rfl⟩

omit [DecidableEq β] in
/-- The `try`/`finally` block: the exchange, and `destroy` whatever its outcome. -/
private theorem tryExchange_allowed {h : Log β} {c : Accepted β} (hc : Named P key h c) :
    Py.Ensures (Allowed P key)
      (fun h' r => ∃ h₀ tail ekEph ctEph ssEph,
        Exchanged P key h₀ c ekEph ctEph ssEph r.clientMac ∧ (∀ e ∈ tail, IsDestroy e.1) ∧
        (c.fs = false → tail = []) ∧ h' = h₀ ++ tail ∧
        r.serverMac = (c.values ekEph ctEph ssEph).serverMac P ∧
        r.transcriptForMac = (c.values ekEph ctEph ssEph).transcript P ∧
        r.keys.cliConfirm = (c.values ekEph ctEph ssEph).cliConfirm P ∧
        r.keys.c2s = (c.values ekEph ctEph ssEph).c2s P)
      anyExn h
      (tryExchange P c.hello c.psk.1 c.ssStatic c.serverNonce.1 c.sessionId.1) := by
  refine Py.ensures_ite (fun hfs => ?_) fun hfs => ?_
  · have hfs' : c.fs = true := hfs
    -- In mode B the key is destroyed however the exchange ends.
    refine (ephemeralKey_allowed hc hfs').bind fun l ekEph hkeyed => Py.Ensures.tryFinally ?_
    refine (exchange_allowed hkeyed).mono (fun _ _ ho => ho) ?_ ?_
    · rintro l' r ⟨ctEph, ssEph, hex, hmac, htr, hcli, hc2s⟩
      refine (destroy_allowed _).mono (fun _ _ ho => ho) ?_ fun _ _ _ => trivial
      rintro l'' - ⟨tail, htail, heq⟩
      exact ⟨_, tail, ekEph, ctEph, ssEph, hex, htail, fun hfalse => by simp [hfs'] at hfalse,
        heq, hmac, htr, hcli, hc2s⟩
    · intro l' e _
      exact (destroy_allowed _).mono (fun _ _ ho => ho) (fun _ _ _ => trivial) fun _ _ _ => trivial
  · have hfs' : c.fs = false := Bool.eq_false_iff.mpr hfs
    refine (exchange_allowed (.inl ⟨hfs', rfl, hc⟩)).mono (fun _ _ ho => ho) ?_ fun _ _ _ => trivial
    rintro l r ⟨ctEph, ssEph, hex, hmac, htr, hcli, hc2s⟩
    exact ⟨_, [], [], ctEph, ssEph, hex, by simp, fun _ => rfl, (List.append_nil _).symm, hmac, htr,
      hcli, hc2s⟩

/-- The key exchange performs each operation at its stage, and returns only established sessions. -/
theorem keyExchange_allowed :
    Py.Ensures (Allowed P key)
      (fun h' s => ∃ c ekEph ctEph ssEph, Established P key h' c ekEph ctEph ssEph ∧
        s.hello = c.hello ∧ s.sessionId = c.sessionId.1 ∧
        s.keys.c2s = (c.values ekEph ctEph ssEph).c2s P)
      anyExn [] (keyExchange P key) := by
  rw [keyExchange]
  refine acceptHello_allowed.bind ?_
  rintro l ⟨hello, psk, ssStatic⟩ ⟨hpsk, hdec⟩
  dsimp only at hpsk hdec ⊢
  refine ensures_call_bind ⟨_, hello, ⟨psk, hpsk⟩, ssStatic, hdec, .inl ⟨rfl, rfl⟩⟩
    fun serverNonce => ?_
  refine ensures_call_bind ⟨_, hello, ⟨psk, hpsk⟩, ssStatic, hdec, .inr ⟨rfl, serverNonce, rfl⟩⟩
    fun sessionId => ?_
  -- All that the server says of itself has been drawn.
  have hnamed : Named P key ([] ++ l ++ [⟨.inr (.tokenBytes nonceLen), serverNonce⟩] ++
      [⟨.inr (.tokenBytes sessionIdLen), sessionId⟩])
        ⟨hello, ⟨psk, hpsk⟩, ssStatic, serverNonce, sessionId⟩ :=
    ⟨_, hdec, by simp⟩
  refine (tryExchange_allowed hnamed).bind ?_
  rintro l' r ⟨h₀, tail, ekEph, ctEph, ssEph, hex, htail, hnil, heq, hmac, htr, hcli, hc2s⟩
  refine Py.ensures_ite (fun _ => trivial) fun hdigest => ?_
  -- Beyond the comparison, the MAC received is the one that the transcript demands.
  have hverified : r.clientMac = (Accepted.values
      ⟨hello, ⟨psk, hpsk⟩, ssStatic, serverNonce, sessionId⟩ ekEph ctEph ssEph).clientMac P := by
    rw [hmac, htr, hcli, Bool.not_eq_true', Bool.not_eq_false, compareDigest, beq_iff_eq] at hdigest
    exact hdigest.symm
  rw [hverified] at hex
  exact ⟨_, ekEph, ctEph, ssEph, ⟨h₀, tail, hex, htail, hnil, heq⟩, rfl, rfl, hc2s⟩

omit [DecidableEq β] in
/-- The record loop opens records only on an established session. -/
private theorem recordLoop_allowed {h : Log β} {c : Accepted β} {ekEph ctEph ssEph : List β}
    (hest : Established P key h c ekEph ctEph ssEph) (turns : ℕ) (inbound : Inbound β)
    (l : Log β) :
    Py.Ensures (Allowed P key) (fun _ _ => True) anyExn (h ++ l) (recordLoop P turns inbound) := by
  induction turns generalizing inbound l with
  | zero => trivial
  | succ turns ih =>
    rw [recordLoop, Py.ensures_bind]
    refine ⟨trivial, fun a => ?_⟩
    match a with
    -- Without a frame there is nothing more to allow.
    | .error (.protocolError _) => trivial
    | .error .osError | .error .calledProcessError | .error .structError | .error .valueError
    | .error (.systemExit _) | .error .attributeError | .error .typeError
    | .error .recursionError => trivial
    | .ok (ftype, payload) =>
      refine Py.ensures_ite (fun _ => trivial) fun _ =>
        Py.ensures_ite (fun _ => trivial) fun htype => ?_
      -- A Data frame: it is opened, and the loop goes on behind it.
      obtain rfl := not_not.mp htype
      refine ensures_call_bind ⟨h, l, c, ekEph, ctEph, ssEph, payload, hest, rfl, rfl⟩ fun _ => ?_
      rw [Py.ensures_bind]
      refine ensures_ofExcept_of fun plaintext _ => ?_
      have hih := ih ⟨(inbound.stream.openRecord P payload.1).2, inbound.records + 1,
        inbound.payloadBytes + plaintext.length⟩
        (l ++ [⟨.inl (.read maxFrame), .ok (frameData, payload)⟩] ++
          [⟨.inr (.recordOpen payload.1), ()⟩])
      simpa only [List.append_assoc] using hih

theorem handleConnection_allowed (turns : ℕ) :
    Py.Ensures (Allowed P key) (fun _ _ => True) anyExn [] (handleConnection P key turns) := by
  rw [handleConnection]
  refine keyExchange_allowed.bind ?_
  rintro l session ⟨c, ekEph, ctEph, ssEph, hest, -⟩
  have h := recordLoop_allowed hest turns ⟨.init session.keys.c2s session.sessionId, 0, 0⟩ []
  rwa [List.append_nil] at h

/-- A connection performs each operation at its stage and no other. -/
theorem serveConnection_allowed (turns : ℕ) :
    Py.Ensures (Allowed P key) (fun _ _ => True) anyExn [] (serveConnection P key turns) := by
  have hclose : ∀ (h : Log β), Py.Ensures (Allowed P key) (fun _ _ => True) anyExn h
      (Py.call .close) := fun h => (Py.ensures_call _).mpr ⟨trivial, fun _ => trivial⟩
  refine Py.Ensures.tryFinally (β := β) ?_
  rw [Py.Ensures, ExceptT.run, ExceptT.mk, Prog.spec_bind]
  refine Prog.Spec.mono (handleConnection_allowed turns) (fun _ _ ho => ho) fun l r _ => ?_
  cases r with
  | ok => exact hclose _
  | error e => cases e <;> exact hclose _

end Handshake

end Stages

end Server

end PqcIot
