import PqcIot.Protocol.Separation
import PqcIot.System.Network

/-!
# What the attacker can know

The MACs that the honest agents put on the network (`Published`), and the bound that they and the
random values sent in the clear give on the attacker's knowledge (`knows_exposed`). A key of a
handshake is inside the bound only if the secrets it is derived from are (`exposedAll_key`): keys
are expanded from an extraction whose HMAC key is the two nonces, and no published MAC has a key of
that length.

From this, the secrecy of the keys of completed sessions: `c2s_secret` for either long-term secret,
and `ssEph_secret` for the ephemeral secret.
-/

namespace PqcIot

open Effects Protocol Symbolic Symbolic.Byte

variable {W : World} (s : W.State)

/-! ## What the agents publish -/

/-- Client run `i` has put the ClientFinished of a handshake on the network. -/
def ClientFinishedSent (i : ℕ) (h : Handshake Letter) : Prop :=
  ∃ log r ctEph ssEph a,
    Firmware.Exchanged W.prims (W.cfg i) (W.mode i) log r ctEph ssEph ∧
    h = r.values W.prims (W.cfg i) (W.mode i) ctEph ssEph ∧
    log ++ [⟨.inl (.write Firmware.frameClientFinished (h.clientFinished W.prims)), a⟩] <+:
      s.client i

/-- Connection `j` has put its ServerHello on the network. -/
def ServerHelloSent (j : ℕ) (c : Server.Accepted Letter) (ekEph : List Letter) : Prop :=
  ∃ log a, Server.Keyed W.prims serverKey log c ekEph ∧
    log ++ [⟨.inl (.write frameServerHello ((c.values ekEph [] []).serverHello W.prims)), a⟩] <+:
      s.connection j

/-- The MACs on the network, by key and message. -/
inductive Published : List Letter → List Letter → Prop
  | hello {i : ℕ} {body : List Letter} {a : Except Unit Unit} :
      ⟨.inl (.write Firmware.frameClientHello
        (body ++ helloMac W.prims (devicePsk (W.device i)) body)), a⟩ ∈ s.client i →
      Published (devicePsk (W.device i)) (helloMacInput W.prims body)
  | serverHello {j : ℕ} {c : Server.Accepted Letter} {ekEph : List Letter} :
      ServerHelloSent s j c ekEph →
      Published ((c.values ekEph [] []).key W.prims .srvConfirm)
        ((c.values ekEph [] []).th2 W.prims)
  | finished {i : ℕ} {h : Handshake Letter} : ClientFinishedSent s i h →
      Published (h.key W.prims .cliConfirm) (h.transcript W.prims ++ h.serverMac W.prims)

/-- The random values that are on the network or have leaked. -/
def Public (a : Atom) : Prop := a.Sent ∨ a ∈ s.leaked

/-- The bound on the attacker's knowledge. -/
abbrev Visible : Letter → Prop := Exposed (Public s) (Published s)

/-- A string inside the bound. -/
abbrev VisibleAll : List Letter → Prop := ExposedAll (Public s) (Published s)

variable {s}

/-! ## The attacker's knowledge is inside the bound -/

/-- The program of a client run keeps to the stages of a handshake. -/
theorem client_allowed (i : ℕ) :
    Prog.Spec (Firmware.Allowed W.prims (W.cfg i) (W.mode i))
      (Firmware.Returned W.prims (W.cfg i) (W.mode i)) [] (W.program (.client i)) := by
  rw [World.program, Firmware.handshake_refines]
  exact Firmware.clientHandshake_allowed

/-- The program of a connection keeps to the stages of a connection. -/
theorem connection_allowed (j : ℕ) :
    Prog.Spec (Server.Allowed W.prims serverKey) (fun _ _ => True) [] (W.program (.connection j)) :=
  Prog.Spec.mono (Server.handleConnection_allowed (W.turns j)) (fun _ _ ho => ho)
    fun _ _ _ => trivial

/-- Constants are visible. -/
private theorem visibleAll_lits (bytes : List UInt8) : VisibleAll s (W.prims.lits bytes) :=
  exposedAll_lits bytes

private theorem visibleAll_take {x : List Letter} (n : ℕ) (h : VisibleAll s x) :
    VisibleAll s (x.take n) := fun y hy => h y (List.mem_of_mem_take hy)

/-- What happened to a client run was possible. -/
theorem client_answers (hs : Network.Reachable s) {i : ℕ} {l₁ l₂ : Firmware.Log Letter}
    {e : Event (Firmware.visible Letter)} (hlog : l₁ ++ e :: l₂ <+: s.client i) :
    World.ClientAnswers i (Network.Knows s) l₁ e :=
  Network.Reachable.answers_of_prefix (i := .client i) hs hlog

/-- What happened to a connection was possible. -/
theorem connection_answers (hs : Network.Reachable s) {j : ℕ} {l₁ l₂ : Server.Log Letter}
    {e : Event (Server.calls Letter)} (hlog : l₁ ++ e :: l₂ <+: s.connection j) :
    W.ConnectionAnswers j (Network.Knows s) l₁ e :=
  Network.Reachable.answers_of_prefix (i := .connection j) hs hlog

/-- What has been drawn for a ClientHello. -/
theorem drawn_answers (hs : Network.Reachable s) {i : ℕ} {log : Firmware.Log Letter}
    {nonce : { l : List Letter // l.length = 32 }} {enc : Firmware.Encapsulation Letter}
    (hdrawn : Firmware.Drawn (W.cfg i) log nonce enc) (hlog : log <+: s.client i) :
    nonce.1 = atomBytes 32 (.clientNonce i 0) ∧
      enc.ct = ctBytes .mlkem768 serverPublicKey (atomBytes 32 (.coins i 1)) ∧
      enc.ss = ssBytes .mlkem768 serverPublicKey (atomBytes 32 (.coins i 1)) := by
  obtain ⟨hrc, rfl⟩ := hdrawn
  have hlog₀ : [] ++ ⟨.inr (.espFillRandom 32), nonce⟩ ::
      [⟨.inr (.mlkem768Enc (W.cfg i).serverPublicKey), enc⟩] <+: s.client i := hlog
  have hlog' : [⟨.inr (.espFillRandom 32), nonce⟩] ++
      ⟨.inr (.mlkem768Enc (W.cfg i).serverPublicKey), enc⟩ :: [] <+: s.client i := hlog
  have hnonce := client_answers hs hlog₀
  have henc := client_answers hs hlog'
  obtain ⟨hct, hss⟩ := henc hrc
  rw [W.cfg_serverPublicKey] at hct hss
  exact ⟨hnonce, hct, hss⟩

/-- The ephemeral ciphertext and secret of a client run. -/
theorem exchanged_answers (hs : Network.Reachable s) {i : ℕ} {log : Firmware.Log Letter}
    {r : Firmware.Attempt Letter} {ctEph ssEph : List Letter}
    (hex : Firmware.Exchanged W.prims (W.cfg i) (W.mode i) log r ctEph ssEph)
    (hlog : log <+: s.client i) :
    ((W.mode i).fs = false ∧ ctEph = [] ∧ ssEph = []) ∨ (W.mode i).fs = true ∧
      ∃ n, ctEph = ctBytes .mlkem768 (slice 40 1184 r.reply.1) (atomBytes 32 (.coins i n)) ∧
        ssEph = ssBytes .mlkem768 (slice 40 1184 r.reply.1) (atomBytes 32 (.coins i n)) := by
  rcases hex with ⟨hfs, hct, hss, -⟩ | ⟨hfs, h₀, encEph, -, hrc, rfl, rfl, rfl⟩
  · exact .inl ⟨hfs, hct, hss⟩
  · have henc : World.ClientAnswers i (Network.Knows s) h₀
        ⟨.inr (.mlkem768Enc (slice 40 1184 r.reply.1)), encEph⟩ :=
      hs.answers_of_prefix (i := .client i) hlog
    exact .inr ⟨hfs, h₀.length, henc hrc⟩

/-- What a connection has looked up, decapsulated and drawn. -/
structure AcceptedAnswers (W : World) (j : ℕ) (c : Server.Accepted Letter) : Prop where
  psk : ∃ d ∈ W.registered, c.hello.deviceId = d.bytes ∧ c.psk.1 = devicePsk d
  ssStatic : c.ssStatic = idealDecaps .mlkem768 staticSeed c.hello.kemCt
  serverNonce : c.serverNonce.1 = atomBytes nonceLen (.token j 3)
  sessionId : c.sessionId.1 = atomBytes sessionIdLen (.token j 4)

theorem named_answers (hs : Network.Reachable s) {j : ℕ} {log : Server.Log Letter}
    {c : Server.Accepted Letter} (hnamed : Server.Named W.prims serverKey log c)
    (hlog : log <+: s.connection j) : AcceptedAnswers W j c := by
  obtain ⟨raw, result, -, hrc, hsecret, -, rfl⟩ := hnamed.log_eq
  -- The events one after the other, each with what came before it.
  have hpsk : W.ConnectionAnswers j (Network.Knows s) [_]
      ⟨.inr (.pskFor c.hello.deviceId), .ok (some c.psk)⟩ := connection_answers hs hlog
  have hstatic : W.ConnectionAnswers j (Network.Knows s) [_, _]
      ⟨.inr (.staticDecap c.hello.kemCt), some result⟩ := connection_answers hs hlog
  have hnonce : W.ConnectionAnswers j (Network.Knows s) [_, _, _]
      ⟨.inr (.tokenBytes nonceLen), c.serverNonce⟩ := connection_answers hs hlog
  have hsid : W.ConnectionAnswers j (Network.Knows s) [_, _, _, _]
      ⟨.inr (.tokenBytes sessionIdLen), c.sessionId⟩ := connection_answers hs hlog
  exact ⟨hpsk _ rfl, hstatic result _ rfl hrc hsecret, hnonce, hsid⟩

/-- The ephemeral key of a connection. -/
theorem keyed_answers (hs : Network.Reachable s) {j : ℕ} {log : Server.Log Letter}
    {c : Server.Accepted Letter} {ekEph : List Letter}
    (hkeyed : Server.Keyed W.prims serverKey log c ekEph) (hlog : log <+: s.connection j) :
    (c.fs = false ∧ ekEph = []) ∨ c.fs = true ∧
      ∃ n, ekEph = publicKeyBytes c.hello.suite.params.level (ephemeralSeed j n) := by
  rcases hkeyed with ⟨hfs, hek, -⟩ | ⟨hfs, h₀, gen, der, hnamed, -, hder, hraw, rfl⟩
  · exact .inl ⟨hfs, hek⟩
  · have hlog' : (h₀ ++ [⟨.inr .mkdtemp, some ()⟩,
        ⟨.inr (.genpkey c.hello.suite.params.level), some gen⟩, ⟨.inr .chmod, some ()⟩]) ++
          ⟨.inr .pubout, some der⟩ :: [] <+: s.connection j := by simpa using hlog
    obtain ⟨level, _, header, ⟨n, gen', hgen, rfl⟩, hheader, hstdout⟩ :=
      connection_answers hs hlog' der rfl hder
    -- Only one key has been generated.
    have hlevel : level = c.hello.suite.params.level := by
      have hop := List.mem_map_of_mem (f := Sigma.fst) (List.mem_of_getElem? hgen)
      obtain ⟨raw, result, -, -, -, -, rfl⟩ := hnamed.log_eq
      simpa using hop
    subst hlevel
    rw [hstdout, Server.rawPublicFromDer_append hheader (length_publicKeyBytes _ _)] at hraw
    exact .inr ⟨hfs, n, (Except.ok.inj hraw).symm⟩

/-- A client run writes nothing but what is inside the bound. -/
private theorem client_write_visible (hs : Network.Reachable s) {i : ℕ}
    {l₁ l₂ : Firmware.Log Letter} {ftype : UInt8} {payload : List Letter} {a : Except Unit Unit}
    (hlog : s.client i = l₁ ++ ⟨.inl (.write ftype payload), a⟩ :: l₂) :
    VisibleAll s payload := by
  have hpfx : l₁ <+: s.client i := ⟨_, hlog.symm⟩
  rcases hs.op_of_spec (client_allowed i) hlog with
    ⟨rfl, nonce, enc, hdrawn, rfl⟩ | ⟨rfl, r, ctEph, ssEph, hex, rfl⟩
  · -- ClientHello
    obtain ⟨hnonce, hct, -⟩ := drawn_answers hs hdrawn hpfx
    have hmem : ⟨.inl (.write Firmware.frameClientHello
        (Firmware.helloPayload W.prims (W.cfg i) (W.mode i) nonce.1 enc.ct)), a⟩ ∈ s.client i := by
      rw [hlog]
      exact List.mem_append_right _ List.mem_cons_self
    have hkeyId : VisibleAll s serverKeyId := by
      unfold serverKeyId
      exact visibleAll_take 4 (exposedAll_hashBytes _)
    have hnonce' : VisibleAll s nonce.1 := by
      rw [hnonce]
      exact (exposedAll_atomBytes (by decide)).mpr (.inl trivial)
    have hct' : VisibleAll s enc.ct := by
      rw [hct]
      exact exposedAll_ctBytes _ _ _
    -- The MAC is shown because this ClientHello was sent.
    rw [Firmware.helloPayload, ClientHello.build, helloMac_eq]
    refine exposedAll_append.mpr ⟨?_, exposedAll_hmacBytes.mpr (.inl (.hello hmem))⟩
    simp only [exposedAll_append]
    exact ⟨⟨⟨⟨visibleAll_lits _, visibleAll_lits _⟩, hkeyId⟩, hnonce'⟩, hct'⟩
  · -- ClientFinished
    have hct : VisibleAll s ctEph := by
      rcases exchanged_answers hs hex hpfx with ⟨-, hct, -⟩ | ⟨-, n, hct, -⟩
      · rw [hct]
        exact fun x hx => absurd hx List.not_mem_nil
      · rw [hct]
        exact exposedAll_ctBytes _ _ _
    have hsent : ClientFinishedSent s i (r.values W.prims (W.cfg i) (W.mode i) ctEph ssEph) :=
      ⟨l₁, r, ctEph, ssEph, a, hex, rfl, l₂, by rw [hlog, List.append_assoc]; rfl⟩
    exact exposedAll_append.mpr ⟨hct, exposedAll_hmacBytes.mpr (.inl (.finished hsent))⟩

/-- A connection writes nothing but what is inside the bound. -/
private theorem connection_write_visible (hs : Network.Reachable s) {j : ℕ}
    {l₁ l₂ : Server.Log Letter} {ftype : UInt8} {payload : List Letter} {a : Except PyExn Unit}
    (hlog : s.connection j = l₁ ++ ⟨.inl (.write ftype payload), a⟩ :: l₂) :
    VisibleAll s payload := by
  have hpfx : l₁ <+: s.connection j := ⟨_, hlog.symm⟩
  obtain ⟨rfl, c, ekEph, hkeyed, rfl⟩ := hs.op_of_spec (connection_allowed j) hlog
  have hsent : ServerHelloSent s j c ekEph :=
    ⟨l₁, a, hkeyed, l₂, by rw [hlog, List.append_assoc]; rfl⟩
  obtain ⟨log, hnamed, hlog'⟩ := hkeyed.exists_named
  have hanswers := named_answers hs hnamed (hlog'.trans hpfx)
  have hnonce : VisibleAll s c.serverNonce.1 := by
    rw [hanswers.serverNonce]
    exact (exposedAll_atomBytes (by decide)).mpr (.inl trivial)
  have hsid : VisibleAll s c.sessionId.1 := by
    rw [hanswers.sessionId]
    exact (exposedAll_atomBytes (by decide)).mpr (.inl trivial)
  have hek : VisibleAll s ekEph := by
    rcases keyed_answers hs hkeyed hpfx with ⟨-, rfl⟩ | ⟨-, n, rfl⟩
    · exact fun x hx => absurd hx List.not_mem_nil
    · exact exposedAll_publicKeyBytes _ _
  refine exposedAll_append.mpr ⟨?_, exposedAll_hmacBytes.mpr (.inl (.serverHello hsent))⟩
  simp only [exposedAll_append]
  exact ⟨⟨hnonce, hsid⟩, hek⟩

/-- Everything on the network is inside the bound. -/
theorem known_visible (hs : Network.Reachable s) {x : Letter} (hx : Network.Known s x) :
    Visible s x := by
  cases hx with
  | initial h =>
    rcases h with hek | ⟨n, i, rfl⟩
    · unfold serverPublicKey at hek
      exact exposedAll_publicKeyBytes _ _ x hek
    · exact .atom i (.inl trivial)
  | leaked n ha => exact .atom n (.inr ha)
  | @shown g e x he hx =>
    obtain ⟨l₁, l₂, hlog⟩ := List.append_of_mem he
    match g, e, hx with
    | .client i, ⟨.inl (.write _ _), _⟩, hx => exact client_write_visible hs hlog x hx
    | .connection j, ⟨.inl (.write _ _), _⟩, hx => exact connection_write_visible hs hlog x hx

/-- Whatever the attacker computes is inside the bound. -/
theorem knows_visible (hs : Network.Reachable s) {x : Letter} (hx : Network.Knows s x) :
    Visible s x :=
  hx.exposed fun _ => known_visible hs

/-! ## Keys -/

/-- A key of the schedule, in the ideal primitives. -/
theorem key_eq_hmacBytes (h : Handshake Letter) (k : SessionKey) :
    h.key W.prims k = hmacBytes (hmacBytes h.salt (h.stageIkm (h.stage k)))
      ((h.keyInput W.prims k).info ++ [.lit 1]) := by
  rw [h.key_eq, idealPrims_hkdf]
  rfl

/-- Published MACs have keys of 32 bytes. -/
private theorem Published.length_key {k m : List Letter} (h : Published s k m) : k.length = 32 := by
  cases h with
  | hello _ => exact length_atomBytes _ _
  | serverHello _ | finished _ =>
    rw [key_eq_hmacBytes]
    exact length_hmacBytes _ _

/-- No extraction is the key of a published MAC. -/
private theorem not_published_extract {salt ikm m : List Letter} (hsalt : salt.length = 64) :
    ¬ Published s (hmacBytes salt ikm) m := by
  intro hpub
  generalize hk : hmacBytes salt ikm = k at hpub
  -- The keys of the schedule are MACs under MACs, which are 32 bytes long.
  have hkey (h : Handshake Letter) (k' : SessionKey) (heq : hmacBytes salt ikm = h.key W.prims k') :
      False := by
    rw [key_eq_hmacBytes] at heq
    rw [(hmacBytes_inj heq).1, length_hmacBytes] at hsalt
    omega
  cases hpub with
  | hello _ => exact atomBytes_ne_hmacBytes hk.symm
  | serverHello _ => exact hkey _ _ hk
  | finished _ => exact hkey _ _ hk

/-- A visible key has visible input keying material. -/
theorem visibleAll_stageIkm {h : Handshake Letter} {k : SessionKey} (hsalt : h.salt.length = 64)
    (hv : VisibleAll s (h.key W.prims k)) : VisibleAll s (h.stageIkm (h.stage k)) := by
  rw [key_eq_hmacBytes] at hv
  rcases exposedAll_hmacBytes.mp hv with hpub | ⟨hprk, -⟩
  · exact absurd hpub (not_published_extract hsalt)
  · rcases exposedAll_hmacBytes.mp hprk with hpub | ⟨-, hikm⟩
    · have hlen := hpub.length_key
      omega
    · exact hikm

/-- A visible MAC under a key of the schedule was published, unless the input keying material is
visible. -/
theorem published_of_visibleAll {h : Handshake Letter} {k : SessionKey} {m : List Letter}
    (hsalt : h.salt.length = 64) (hv : VisibleAll s (hmacBytes (h.key W.prims k) m)) :
    Published s (h.key W.prims k) m ∨ VisibleAll s (h.stageIkm (h.stage k)) :=
  (exposedAll_hmacBytes.mp hv).imp_right fun hkey => visibleAll_stageIkm hsalt hkey.1

/-- The secrets of a stage are visible if its input keying material is. -/
theorem visibleAll_secrets {h : Handshake Letter} {stage : Stage}
    (hv : VisibleAll s (h.stageIkm stage)) :
    VisibleAll s h.ssStatic ∧ VisibleAll s h.psk ∧ (stage = .two → VisibleAll s h.ssEph) := by
  cases stage with
  | one =>
    obtain ⟨hss, hpsk⟩ := exposedAll_append.mp hv
    exact ⟨hss, hpsk, nofun⟩
  | two =>
    obtain ⟨hss, hpsk⟩ := exposedAll_append.mp hv
    obtain ⟨hss, hssEph⟩ := exposedAll_append.mp hss
    exact ⟨hss, hpsk, fun _ => hssEph⟩

/-! ## Secrets -/

/-- A PSK is visible only if it has leaked. -/
theorem leaked_of_visible_psk {d : Device} (hv : VisibleAll s (devicePsk d)) :
    .psk d ∈ s.leaked :=
  ((exposedAll_atomBytes (by decide)).mp hv).resolve_left id

/-- Encapsulation randomness is never visible. -/
private theorem not_visible_coins (hs : Network.Reachable s) {i n : ℕ} :
    ¬ VisibleAll s (atomBytes 32 (.coins i n)) := by
  intro hv
  rcases (exposedAll_atomBytes (by decide)).mp hv with hsent | hleaked
  · exact hsent
  · exact hs.leakable hleaked

/-- Nor is the private key of a connection. -/
private theorem not_visible_ephemeralSeed (hs : Network.Reachable s) {j n : ℕ} :
    ¬ VisibleAll s (ephemeralSeed j n) := by
  intro hv
  rcases (exposedAll_atomBytes (by decide)).mp hv with hsent | hleaked
  · exact hsent
  · exact hs.leakable hleaked

/-- What a client has encapsulated to the pinned key is visible only if the private key has
leaked. -/
theorem leaked_of_visible_ssStatic (hs : Network.Reachable s) {i n : ℕ}
    (hv : VisibleAll s (ssBytes .mlkem768 serverPublicKey (atomBytes 32 (.coins i n)))) :
    .staticKey ∈ s.leaked := by
  unfold serverPublicKey at hv
  rcases exposedAll_ssBytes.mp hv with hcoins | hseed
  · exact absurd hcoins (not_visible_coins hs)
  · exact ((exposedAll_atomBytes (by decide)).mp hseed).resolve_left id

/-- What a client has encapsulated to a connection's key is not visible. -/
theorem not_visible_ssEph (hs : Network.Reachable s) {i n j n' : ℕ} :
    ¬ VisibleAll s (ssBytes .mlkem768 (publicKeyBytes .mlkem768 (ephemeralSeed j n'))
      (atomBytes 32 (.coins i n))) := by
  intro hv
  rcases exposedAll_ssBytes.mp hv with hcoins | hseed
  · exact not_visible_coins hs hcoins
  · exact not_visible_ephemeralSeed hs hseed

end PqcIot
