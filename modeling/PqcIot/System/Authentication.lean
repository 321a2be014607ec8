import PqcIot.System.Sessions

/-!
# Authentication and secrecy of sessions

On the hostile network of `System.Network`:

* `handshakes_agree`: mutual authentication with injective agreement;
* `c2s_secret`: the session key is secret as long as either long-term secret is;
* `forward_secrecy`: in mode B it stays secret when both leak later.
-/

namespace PqcIot

open Effects Protocol Symbolic Symbolic.Byte

variable {W : World} {s : W.State}

/-! ## Main results -/

/-- Mutual authentication with injective agreement. In every reachable state, for every registered
device whose PSK has not leaked, whatever else has:

* when a connection passes the check of ClientFinished for the device, a run of the device has sent
  that ClientFinished, and the two have the same values throughout: suite, hello, nonces, session
  id, ephemeral key and ciphertext, shared secrets, and so the same keys. No two connections have
  this with one client run;
* when a run of the device returns `true`, a connection for the device has sent the ServerHello that
  the run has read, in answer to the ClientHello that the run has sent, with the same values of the
  exchange up to there. No two client runs have this with one connection. -/
theorem handshakes_agree (hs : Network.Reachable s) {d : Device} (hd : .psk d ∉ s.leaked) :
    (∀ j session, CheckPassed s j session → session.hello.deviceId = d.bytes →
      ∃ i c h, ClientFinishedSent s i h ∧ ClientFinishedAccepted s j c h ∧ W.device i = d ∧
        (W.mode i).spec = session.hello.suite ∧ session.hello = c.hello ∧
        session.sessionId = h.sessionId ∧ session.keys.c2s = h.c2s W.prims) ∧
    (∀ i j j' c c' h h', ClientFinishedSent s i h → ClientFinishedAccepted s j c h →
      ClientFinishedSent s i h' → ClientFinishedAccepted s j' c' h' → j = j') ∧
    (∀ i session, HandshakeReturned s i session → W.device i = d →
      ∃ j c ekEph, ServerHelloSent s j c ekEph ∧ ServerHelloAccepted s i (c.values ekEph [] []) ∧
        c.hello.deviceId = d.bytes ∧ c.hello.suite = (W.mode i).spec ∧
        session.sessionId = c.sessionId.1) ∧
    (∀ j i i' c c' ekEph ekEph', ServerHelloSent s j c ekEph →
      ServerHelloAccepted s i (c.values ekEph [] []) → ServerHelloSent s j c' ekEph' →
      ServerHelloAccepted s i' (c'.values ekEph' [] []) → i = i') := by
  refine ⟨fun j session hpass hdevice => ?_, fun i j j' c c' h h' hsent hacc hsent' hacc' => ?_,
    fun i session hret hdevice => ?_,
    fun j i i' c c' ekEph ekEph' hsent hacc hsent' hacc' => ?_⟩
  · obtain ⟨c, h, hacc, hhello, hsid, hc2s⟩ := hpass.exists_values
    rw [hhello] at hdevice
    obtain ⟨i, hsent, hi, hsuite⟩ := hacc.exists_sent hs hdevice hd
    exact ⟨i, c, h, hsent, hacc, hi, hhello ▸ hsuite, hhello, hsid, hc2s⟩
  · -- The server nonces of the client run are one, and name the connections.
    have hnonce := hsent.serverNonce_unique hsent'
    rw [hacc.serverNonce_eq hs, hacc'.serverNonce_eq hs] at hnonce
    injection atomBytes_inj (by decide) hnonce
  · obtain ⟨h, -, hacc, hsession⟩ := hret.exists_values
    subst hdevice
    obtain ⟨j, c, ekEph, hsent, heq, hsuite⟩ := hacc.exists_sent hs (.inl hd)
    refine ⟨j, c, ekEph, hsent, heq ▸ hacc, ?_, hsuite, ?_⟩
    · obtain ⟨log, a, hkeyed, hlog⟩ := hsent
      obtain ⟨h₀, hnamed, hpfx⟩ := hkeyed.exists_named
      obtain ⟨d', -, hd', hpsk⟩ :=
        (named_answers hs hnamed ((hpfx.trans (List.prefix_append _ _)).trans hlog)).psk
      obtain ⟨log', r, -, -, hr, -⟩ := hacc
      have hpsk' : devicePsk (W.device i) = devicePsk d' :=
        (congrArg Handshake.psk (hr.symm.trans heq)).trans hpsk
      have hdev : W.device i = d' := by injection atomBytes_inj (by decide) hpsk'
      rw [hd', hdev]
    · rw [hsession]
      exact congrArg Handshake.sessionId heq
  · -- The client nonces of the connection are one, and name the client runs.
    have hnonce : (c.values ekEph [] []).clientNonce = (c'.values ekEph' [] []).clientNonce :=
      hsent.clientNonce_unique hsent'
    rw [hacc.clientNonce_eq hs, hacc'.clientNonce_eq hs] at hnonce
    injection atomBytes_inj (by decide) hnonce

/-- A session of a device that completes with the server's private key known to the attacker. -/
theorem handshakes_agree_leaked : ∃ i c h,
    ClientFinishedSent (sampleSession .staticKey) i h ∧
      ClientFinishedAccepted (sampleSession .staticKey) 0 c h ∧
      sampleWorld.device i = sampleWorld.device 0 := by
  have hpsk : Atom.psk (sampleWorld.device 0) ∉ (sampleSession .staticKey).leaked := by
    rintro (heq | hmem)
    · cases heq
    · exact hmem
  obtain ⟨session, hpass, hdevice, -⟩ := World.checkPassed_afterSession (W := sampleWorld) (i := 0)
    (j := 0) (s := World.State.leak sampleWorld.network.start .staticKey) rfl
  obtain ⟨i, c, h, hsent, hacc, hi, -⟩ :=
    (handshakes_agree (reachable_sampleSession .staticKey trivial) hpsk).1 0 session hpass hdevice
  exact ⟨i, c, h, hsent, hacc, hi⟩

variable (s) in
/-- The attacker can compute no byte of a string. -/
def Secret (l : List Letter) : Prop := ∀ x ∈ l, ¬ Network.Knows s x

/-- A key is secret unless its input keying material is visible. -/
theorem secret_key (hs : Network.Reachable s) {h : Handshake Letter} {k : SessionKey}
    (hsalt : h.salt.length = 64) (hikm : ¬ VisibleAll s (h.stageIkm (h.stage k))) :
    Secret s (h.key W.prims k) := by
  intro x hx hknows
  refine hikm (visibleAll_stageIkm hsalt ?_)
  rw [key_eq_hmacBytes] at hx ⊢
  exact (knows_visible hs hknows).hmacBytes hx

/-- The static secret and the PSK of a client run. -/
theorem ClientFinishedSent.secrets (hs : Network.Reachable s) {i : ℕ} {h : Handshake Letter}
    (hsent : ClientFinishedSent s i h) :
    h.salt.length = 64 ∧ h.psk = devicePsk (W.device i) ∧
      h.ssStatic = ssBytes .mlkem768 serverPublicKey (atomBytes 32 (.coins i 1)) := by
  obtain ⟨log, r, ctEph, ssEph, a, hex, rfl, hlog⟩ := hsent
  have hw := exchanged_wellFormed hex
  obtain ⟨h₁, ⟨hread, -⟩, hreadPrefix⟩ := hex.exists_verified
  obtain ⟨h₀, hdrawn, hpfx⟩ := hread.exists_drawn
  have hlog₀ := (hpfx.trans hreadPrefix).trans ((List.prefix_append _ _).trans hlog)
  exact ⟨(List.length_append).trans (congrArg₂ (· + ·) hw.clientNonce hw.serverNonce), rfl,
    (drawn_answers hs hdrawn hlog₀).2.2⟩

/-- Two independent lines of defence. In every reachable state, for every client run of either mode
that has returned `true`: the attacker can compute no byte of the session key while the server's
private key has not leaked, whatever PSKs have, and none while the PSK of the run's device has not
leaked, whatever other secrets have. -/
theorem c2s_secret (hs : Network.Reachable s) {i : ℕ} {session : Firmware.Session Letter}
    (hret : HandshakeReturned s i session) :
    (.staticKey ∉ s.leaked → Secret s session.c2s) ∧
      (.psk (W.device i) ∉ s.leaked → Secret s session.c2s) := by
  obtain ⟨h, hsent, -, hsession⟩ := hret.exists_values
  obtain ⟨hsalt, hpsk, hssStatic⟩ := hsent.secrets hs
  have hkey : session.c2s = h.key W.prims .c2s := congrArg Firmware.Session.c2s hsession
  rw [hkey]
  refine ⟨fun hsecret => secret_key hs hsalt fun hikm => hsecret ?_,
    fun hsecret => secret_key hs hsalt fun hikm => hsecret ?_⟩
  · obtain ⟨hss, -, -⟩ := visibleAll_secrets hikm
    rw [hssStatic] at hss
    exact leaked_of_visible_ssStatic hs hss
  · obtain ⟨-, hvisible, -⟩ := visibleAll_secrets hikm
    rw [hpsk] at hvisible
    exact leaked_of_visible_psk hvisible

/-- A session of a device whose PSK the attacker knows. -/
theorem c2s_secret_leaked :
    Secret (sampleSession (.psk (sampleWorld.device 0))) (sampleWorld.clientSession 0 0).c2s := by
  have hkey : Atom.staticKey ∉ (sampleSession (.psk (sampleWorld.device 0))).leaked := by
    rintro (heq | hmem)
    · cases heq
    · exact hmem
  exact (c2s_secret (reachable_sampleSession (.psk _) trivial)
    (World.handshakeReturned_afterSession (j := 0) rfl)).1 hkey

/-- The ephemeral secret of a client run, when one of the long-term secrets was still unknown at the
end of its handshake. -/
private theorem HandshakeReturned.ssEph_eq (hs : Network.Reachable s) {i : ℕ}
    {session : Firmware.Session Letter} (hret : HandshakeReturned s i session)
    (hmode : W.mode i = .bForwardSecrecy)
    (hsecret : .psk (W.device i) ∉ s.leaked ∨ .staticKey ∉ s.leaked) :
    ∃ h, ClientFinishedSent s i h ∧ session = Firmware.clientSession W.prims (W.mode i) h ∧
      h.fs = true ∧ ∃ n j n', h.ssEph = ssBytes .mlkem768
        (publicKeyBytes .mlkem768 (ephemeralSeed j n')) (atomBytes 32 (.coins i n)) := by
  obtain ⟨h, hsent, hacc, hsession⟩ := hret.exists_values
  obtain ⟨j, c, ekEph, ⟨log, a, hkeyed, hlog⟩, heq, hsuite⟩ := hacc.exists_sent hs hsecret
  have hfs : (W.mode i).fs = true := by
    rw [hmode]
    rfl
  -- The key that the client encapsulates to is the connection's.
  obtain ⟨n', hek⟩ : ∃ n', ekEph = publicKeyBytes .mlkem768 (ephemeralSeed j n') := by
    rcases keyed_answers hs hkeyed ((List.prefix_append _ _).trans hlog) with
      ⟨hfs', -⟩ | ⟨-, n', hek⟩
    · rw [Server.Accepted.fs, hsuite] at hfs'
      exact absurd (hfs.symm.trans hfs') (by decide)
    · rw [hsuite, hmode] at hek
      exact ⟨n', hek⟩
  have hekEph : h.ekEph = ekEph := congrArg Handshake.ekEph heq
  refine ⟨h, hsent, hsession, ?_⟩
  obtain ⟨log', r, ctEph, ssEph, a', hex, rfl, hlog'⟩ := hsent
  refine ⟨hfs, ?_⟩
  rcases exchanged_answers hs hex ((List.prefix_append _ _).trans hlog') with
    ⟨hfs', -⟩ | ⟨-, n, -, hss⟩
  · exact absurd (hfs.symm.trans hfs') (by decide)
  · have hslice : slice 40 1184 r.reply.1 = ekEph := (if_pos hfs).symm.trans hekEph
    rw [hslice, hek] at hss
    exact ⟨n, j, n', hss⟩

/-- Forward secrecy of mode B. When a client run of mode B has returned `true` in a reachable state
in which one of the server's private key and the PSK of the run's device has not leaked, then in
every later state, whatever leaks meanwhile, the attacker can compute no byte of the ephemeral
secret, of the session key, of the client confirmation key or of the `s2c` key. -/
theorem forward_secrecy {s' : W.State} (hs : Network.Reachable s) {i : ℕ}
    {session : Firmware.Session Letter} (hret : HandshakeReturned s i session)
    (hmode : W.mode i = .bForwardSecrecy)
    (hsecret : .psk (W.device i) ∉ s.leaked ∨ .staticKey ∉ s.leaked)
    (hsteps : Network.Steps s s') :
    ∃ h, ClientFinishedSent s i h ∧ session = Firmware.clientSession W.prims (W.mode i) h ∧
      Secret s' h.ssEph ∧ Secret s' session.c2s ∧ Secret s' (h.cliConfirm W.prims) ∧
      Secret s' (h.s2c W.prims) := by
  have hs' : Network.Reachable s' := hs.steps hsteps
  obtain ⟨h, hsent, hsession, hfs, n, j, n', hss⟩ := hret.ssEph_eq hs hmode hsecret
  obtain ⟨hsalt, -, -⟩ := hsent.secrets hs
  -- The keys of stage 2 are derived from the ephemeral secret.
  have hkeys : ∀ k, h.stage k = .two → Secret s' (h.key W.prims k) := by
    intro k hk
    refine secret_key hs' hsalt fun hikm => ?_
    obtain ⟨-, -, hssEph⟩ := visibleAll_secrets hikm
    have hvisible := hssEph hk
    rw [hss] at hvisible
    exact not_visible_ssEph hs' hvisible
  have hstage : ∀ k, k ≠ .srvConfirm → h.stage k = .two := by
    intro k hk
    cases k with
    | srvConfirm => exact absurd rfl hk
    | cliConfirm | c2s | s2c => exact if_pos hfs
  refine ⟨h, hsent, hsession, fun x hx hknows => ?_, ?_, hkeys .cliConfirm (hstage _ (by decide)),
    hkeys .s2c (hstage _ (by decide))⟩
  · rw [hss] at hx
    exact not_visible_ssEph hs' ((knows_visible hs' hknows).ssBytes hx)
  · rw [hsession]
    exact hkeys .c2s (hstage _ (by decide))

/-- A session that completes with the device's PSK known to the attacker, who then gets at the
server's private key. -/
theorem forward_secrecy_leaked :
    Secret (World.State.leak (sampleSession (.psk (sampleWorld.device 0))) .staticKey)
      (sampleWorld.clientSession 0 0).c2s := by
  have hkey : Atom.staticKey ∉ (sampleSession (.psk (sampleWorld.device 0))).leaked := by
    rintro (heq | hmem)
    · cases heq
    · exact hmem
  obtain ⟨-, -, -, -, hsecret, -⟩ := forward_secrecy
    (reachable_sampleSession (.psk _) trivial)
    (World.handshakeReturned_afterSession (j := 0) rfl) rfl (.inr hkey)
    (World.steps_leak (a := .staticKey) trivial)
  exact hsecret

end PqcIot
