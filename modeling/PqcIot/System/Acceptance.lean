import PqcIot.System.Secrecy

/-!
# Accepted MACs

What a client run and a connection know of each other when one has accepted a MAC of the other's. A
MAC that is accepted was published (`published_of_visibleAll`), its key determines all values of the
handshake (`eq_of_cliConfirm`, `eq_of_srvConfirm`), and the random values in them name the client
run and the connection:

* `ServerHelloAccepted.exists_sent`, `ClientFinishedAccepted.exists_sent`: what was accepted was
  sent, with the same values;
* `ServerHelloAccepted.clientNonce_eq`, `ClientFinishedAccepted.serverNonce_eq`: by which run.
-/

namespace PqcIot

open Effects Protocol Symbolic Symbolic.Byte

/-! ## Handshakes are well-formed -/

/-- The values of a client that has read a ServerHello of its mode's length. -/
theorem Firmware.clientValues_wellFormed {β : Type} (P : Prims β) (cfg : Firmware.Config β)
    (mode : Firmware.Mode) {nonce reply ctEph ssEph : List β} (enc : Firmware.Encapsulation β)
    (hnonce : nonce.length = 32) (hreply : reply.length = Protocol.serverHelloLen mode.spec)
    (hct : ctEph.length = if mode.fs then 1088 else 0)
    (hss : ssEph.length = if mode.fs then 32 else 0) :
    (Firmware.clientValues P cfg mode nonce enc reply ctEph ssEph).WellFormed P mode.spec where
  fs := rfl
  suiteByte := ⟨_, _, _, rfl, P.val_lit _⟩
  hello := by
    -- The fields of the ServerHello are cut out of a reply of the right length.
    have hlen := Firmware.length_helloPayload P cfg mode hnonce enc.length_ct
    refine hlen.trans ?_
    cases mode <;> rfl
  clientNonce := hnonce
  serverNonce := by
    rw [Firmware.serverHelloLen_spec] at hreply
    exact length_slice (by omega)
  sessionId := by
    rw [Firmware.serverHelloLen_spec] at hreply
    exact length_slice (by omega)
  ekEph := by
    rw [Firmware.serverHelloLen_spec] at hreply
    cases mode with
    | a => rfl
    | bForwardSecrecy =>
      refine length_slice ?_
      rw [hreply]
      decide
  ctEph := by
    rw [Firmware.clientValues, hct]
    cases mode <;> rfl
  psk := cfg.length_devicePsk
  ssStatic := enc.length_ss
  ssEph := by
    rw [Firmware.clientValues, hss]
    rfl

/-- The values of a connection that has parsed a hello. -/
theorem Server.Accepted.values_wellFormed {β : Type} {P : Prims β} (c : Server.Accepted β)
    {raw ekEph ctEph ssEph : List β} (hparse : ClientHello.parse P raw = .ok c.hello)
    (hssStatic : c.ssStatic.length = 32)
    (hek : ekEph.length = if c.fs then c.hello.suite.params.ek else 0)
    (hct : ctEph.length = if c.fs then c.hello.suite.params.ct else 0)
    (hss : ssEph.length = if c.fs then 32 else 0) :
    (c.values ekEph ctEph ssEph).WellFormed P c.hello.suite := by
  have hparsed := ClientHello.parse_ok P hparse
  obtain ⟨v, x, rest, hraw, -, hsuite⟩ := hparsed.versionByte
  have hlen := hparsed.length
  refine ⟨rfl, ⟨v, x, rest, hparsed.raw.trans hraw, (Suite.code_of_ofCode? hsuite).symm⟩, ?_, ?_,
    c.serverNonce.2, c.sessionId.2, hek, hct, c.psk.2, hssStatic, hss⟩
  · rw [values, hparsed.raw, hlen]
  · rw [values, hparsed.clientNonce]
    refine length_slice ?_
    rw [hlen, ClientHello.expectedLen]
    simp only [deviceIdLen, keyIdLen, nonceLen, macLen]
    omega

/-- A ServerHello of a mode's length is the fields that the client takes from it. -/
theorem Firmware.slices_append {β : Type} (mode : Firmware.Mode) {reply : List β}
    (hreply : reply.length = Protocol.serverHelloLen mode.spec) :
    slice 0 32 reply ++ slice 32 8 reply ++ (if mode.fs then slice 40 1184 reply else []) ++
      Firmware.receivedMac mode reply = reply := by
  rw [Firmware.serverHelloLen_spec] at hreply
  rw [Firmware.receivedMac]
  have hfields : slice 0 32 reply ++ slice 32 8 reply = slice 0 40 reply := slice_slice_append
  rw [hfields]
  by_cases hfs : mode.fs = true
  · rw [if_pos hfs] at hreply ⊢
    rw [if_pos hfs]
    have hek : slice 0 40 reply ++ slice 40 1184 reply = slice 0 1224 reply := slice_slice_append
    have hmac : slice 0 1224 reply ++ slice 1224 32 reply = slice 0 1256 reply :=
      slice_slice_append
    rw [hek, hmac, slice_of_length hreply]
  · rw [if_neg hfs] at hreply ⊢
    rw [if_neg hfs]
    have hmac : slice 0 40 reply ++ slice 40 32 reply = slice 0 72 reply := slice_slice_append
    rw [List.append_nil, hmac, slice_of_length hreply]

variable {W : World} {s : W.State}

/-- The values of a client run at the end of its handshake. -/
theorem exchanged_wellFormed {i : ℕ} {log : Firmware.Log Letter} {r : Firmware.Attempt Letter}
    {ctEph ssEph : List Letter}
    (hex : Firmware.Exchanged W.prims (W.cfg i) (W.mode i) log r ctEph ssEph) :
    (r.values W.prims (W.cfg i) (W.mode i) ctEph ssEph).WellFormed W.prims (W.mode i).spec := by
  obtain ⟨h₀, ⟨⟨-, -, hreply, -⟩, -⟩, -⟩ := hex.exists_verified
  refine Firmware.clientValues_wellFormed _ _ _ r.enc r.nonce.2 hreply ?_ ?_
  · rcases hex with ⟨hfs, hct, -, -⟩ | ⟨hfs, -, encEph, -, -, hct, -⟩
    · rw [hct, hfs]
      rfl
    · rw [hct, if_pos hfs]
      exact encEph.length_ct
  · rcases hex with ⟨hfs, -, hss, -⟩ | ⟨hfs, -, encEph, -, -, -, hss, -⟩
    · rw [hss, hfs]
      rfl
    · rw [hss, if_pos hfs]
      exact encEph.length_ss

/-- The values of a connection that has answered, with any ephemeral exchange of the suite's
lengths. -/
theorem keyed_wellFormed (hs : Network.Reachable s) {j : ℕ} {log : Server.Log Letter}
    {c : Server.Accepted Letter} {ekEph ctEph ssEph : List Letter}
    (hkeyed : Server.Keyed W.prims serverKey log c ekEph) (hlog : log <+: s.connection j)
    (hct : ctEph.length = if c.fs then c.hello.suite.params.ct else 0)
    (hss : ssEph.length = if c.fs then 32 else 0) :
    (c.values ekEph ctEph ssEph).WellFormed W.prims c.hello.suite := by
  obtain ⟨h₀, hnamed, -⟩ := hkeyed.exists_named
  obtain ⟨raw, result, hparse, -, -, hssStatic, -⟩ := hnamed.log_eq
  refine c.values_wellFormed hparse hssStatic ?_ hct hss
  rcases keyed_answers hs hkeyed hlog with ⟨hfs, hek⟩ | ⟨hfs, n, hek⟩
  · rw [hek, hfs]
    rfl
  · rw [hek, if_pos hfs, length_publicKeyBytes, Suite.params_ek]
    rfl

/-- The values of a connection at the end of its handshake. -/
theorem connection_wellFormed (hs : Network.Reachable s) {j : ℕ} {log : Server.Log Letter}
    {c : Server.Accepted Letter} {ekEph ctEph ssEph clientMac : List Letter}
    (hex : Server.Exchanged W.prims serverKey log c ekEph ctEph ssEph clientMac)
    (hlog : log <+: s.connection j) :
    (c.values ekEph ctEph ssEph).WellFormed W.prims c.hello.suite := by
  obtain ⟨h₁, hfin, hfinPrefix⟩ := hex.exists_finishedRead
  obtain ⟨h₀, hkeyed, hpfx⟩ := hfin.exists_keyed
  obtain ⟨_, _, -, -, hct, -, -⟩ := hfin
  refine keyed_wellFormed hs hkeyed ((hpfx.trans hfinPrefix).trans hlog) hct ?_
  rcases hex with ⟨hfs, hss, -⟩ | ⟨hfs, h₁, result, -, hrc, hsecret, rfl⟩
  · rw [hss, hfs]
    rfl
  · obtain ⟨level, seed, -, hss⟩ := connection_answers hs hlog result _ rfl hrc hsecret
    rw [hss, if_pos hfs, length_idealDecaps]

/-! ## Keys of published MACs -/

/-- Equal keys have equal inputs. -/
theorem keyInput_eq_of_key_eq {h h' : Handshake Letter} {k k' : SessionKey}
    (heq : h.key W.prims k = h'.key W.prims k') :
    h.keyInput W.prims k = h'.keyInput W.prims k' := by
  rw [key_eq_hmacBytes, key_eq_hmacBytes] at heq
  obtain ⟨hprk, hinfo⟩ := hmacBytes_inj heq
  obtain ⟨hsalt, hikm⟩ := hmacBytes_inj hprk
  have hinfo' := List.append_cancel_right hinfo
  rw [Handshake.keyInput, Handshake.keyInput, KeyInput.mk.injEq]
  exact ⟨hsalt, hikm, hinfo'⟩

/-- A MAC under a client confirmation key was sent in a ClientFinished. -/
theorem published_cliConfirm {h : Handshake Letter} {m : List Letter}
    (hpub : Published s (h.key W.prims .cliConfirm) m) :
    ∃ i h', ClientFinishedSent s i h' ∧
      h.keyInput W.prims .cliConfirm = h'.keyInput W.prims .cliConfirm := by
  generalize hk : h.key W.prims .cliConfirm = k at hpub
  cases hpub with
  | hello _ =>
    rw [key_eq_hmacBytes] at hk
    exact absurd hk.symm atomBytes_ne_hmacBytes
  | serverHello _ =>
    have hkey := (Handshake.info_inj (congrArg KeyInput.info (keyInput_eq_of_key_eq hk))).1
    cases hkey
  | finished hsent => exact ⟨_, _, hsent, keyInput_eq_of_key_eq hk⟩

/-- A MAC under a server confirmation key was sent in a ServerHello. -/
theorem published_srvConfirm {h : Handshake Letter} {m : List Letter}
    (hpub : Published s (h.key W.prims .srvConfirm) m) :
    ∃ j c ekEph, ServerHelloSent s j c ekEph ∧
      h.keyInput W.prims .srvConfirm = (c.values ekEph [] []).keyInput W.prims .srvConfirm := by
  generalize hk : h.key W.prims .srvConfirm = k at hpub
  cases hpub with
  | hello _ =>
    rw [key_eq_hmacBytes] at hk
    exact absurd hk.symm atomBytes_ne_hmacBytes
  | serverHello hsent => exact ⟨_, _, _, hsent, keyInput_eq_of_key_eq hk⟩
  | finished _ =>
    have hkey := (Handshake.info_inj (congrArg KeyInput.info (keyInput_eq_of_key_eq hk))).1
    cases hkey

/-! ## Acceptance -/

section Acceptance

variable (s)

/-- `handshake` of client run `i` has returned `true` and filled in the session. -/
def HandshakeReturned (i : ℕ) (session : Firmware.Session Letter) : Prop :=
  Prog.Run (W.program (.client i)) (s.client i) (.ret (some session))

/-- `handle_connection` of connection `j` has passed the check of ClientFinished. -/
def CheckPassed (j : ℕ) (session : Server.Session Letter) : Prop :=
  ∃ log, log <+: s.connection j ∧
    Prog.Run (Server.keyExchange W.prims serverKey).run log (.ret (.ok session))

/-- Client run `i` has read the ServerHello of a handshake and found its MAC right. -/
def ServerHelloAccepted (i : ℕ) (h : Handshake Letter) : Prop :=
  ∃ log r, Firmware.Verified W.prims (W.cfg i) (W.mode i) log r ∧ log <+: s.client i ∧
    h = r.values W.prims (W.cfg i) (W.mode i) [] [] ∧ r.reply.1 = h.serverHello W.prims

/-- Connection `j` has read the ClientFinished of a handshake and found its MAC right. -/
def ClientFinishedAccepted (j : ℕ) (c : Server.Accepted Letter) (h : Handshake Letter) : Prop :=
  ∃ log ekEph ctEph ssEph, Server.Established W.prims serverKey log c ekEph ctEph ssEph ∧
    log <+: s.connection j ∧ h = c.values ekEph ctEph ssEph

end Acceptance

/-- A handshake that has returned `true` has accepted a ServerHello and sent ClientFinished. -/
theorem HandshakeReturned.exists_values {i : ℕ} {session : Firmware.Session Letter}
    (hret : HandshakeReturned s i session) :
    ∃ h, ClientFinishedSent s i h ∧ ServerHelloAccepted s i (h.withEphemeral [] []) ∧
      session = Firmware.clientSession W.prims (W.mode i) h := by
  obtain ⟨r, ctEph, ssEph, ⟨log, hex, hlog⟩, hsession⟩ :=
    (client_allowed i).ret_of_run hret session rfl
  refine ⟨_, ⟨log, r, ctEph, ssEph, .ok (), hex, rfl, ?_⟩, ?_, hsession⟩
  · rw [hlog]
  · obtain ⟨h₀, hverified, hpfx⟩ := hex.exists_verified
    refine ⟨h₀, r, hverified, hpfx.trans (hlog ▸ List.prefix_append _ _), rfl, ?_⟩
    obtain ⟨⟨-, -, hreply, -⟩, hmac⟩ := hverified
    rw [← Firmware.slices_append (W.mode i) hreply, hmac]
    rfl

/-- A connection that has passed the check has accepted a ClientFinished. -/
theorem CheckPassed.exists_values {j : ℕ} {session : Server.Session Letter}
    (hpass : CheckPassed s j session) :
    ∃ c h, ClientFinishedAccepted s j c h ∧ session.hello = c.hello ∧
      session.sessionId = h.sessionId ∧ session.keys.c2s = h.c2s W.prims := by
  obtain ⟨log, hlog, hrun⟩ := hpass
  obtain ⟨c, ekEph, ctEph, ssEph, hest, hhello, hsid, hc2s⟩ :=
    Prog.Spec.ret_of_run Server.keyExchange_allowed hrun
  exact ⟨c, _, ⟨log, ekEph, ctEph, ssEph, hest, hlog, rfl⟩, hhello, hsid, hc2s⟩

private theorem visibleAll_of_read {l : List Letter} (hs : Network.Reachable s)
    (h : ∀ x ∈ l, Network.Knows s x) : VisibleAll s l := fun x hx => knows_visible hs (h x hx)

/-- A client run that has accepted a ServerHello got it from a connection, with the same values,
unless both long-term secrets have leaked. -/
theorem ServerHelloAccepted.exists_sent (hs : Network.Reachable s) {i : ℕ}
    {h : Handshake Letter} (hacc : ServerHelloAccepted s i h)
    (hsecret : .psk (W.device i) ∉ s.leaked ∨ .staticKey ∉ s.leaked) :
    ∃ j c ekEph, ServerHelloSent s j c ekEph ∧ h = c.values ekEph [] [] ∧
      c.hello.suite = (W.mode i).spec := by
  obtain ⟨log, r, hverified, hlog, rfl, hreply⟩ := hacc
  obtain ⟨hread, hmac⟩ := hverified
  obtain ⟨h₀, hdrawn, hdrawnPrefix⟩ := hread.exists_drawn
  obtain ⟨-, -, hssStatic⟩ := drawn_answers hs hdrawn (hdrawnPrefix.trans hlog)
  -- The MAC came over the network.
  have hvisible : VisibleAll s
    ((r.values W.prims (W.cfg i) (W.mode i) [] []).serverMac W.prims) := by
    obtain ⟨h₁, -, -, rfl⟩ := hread
    have hall := visibleAll_of_read hs (client_answers hs hlog)
    rw [hreply] at hall
    exact (exposedAll_append.mp hall).2
  obtain ⟨-, -, hlen, -⟩ := hread
  -- The values with an ephemeral exchange of the right lengths.
  have hwf (ct ss : List Letter) (hct : ct.length = if (W.mode i).fs then 1088 else 0)
      (hss : ss.length = if (W.mode i).fs then 32 else 0) :
      (r.values W.prims (W.cfg i) (W.mode i) ct ss).WellFormed W.prims (W.mode i).spec :=
    Firmware.clientValues_wellFormed _ _ _ r.enc r.nonce.2 hlen hct hss
  have hw := hwf (List.replicate _ (.lit 0)) (List.replicate _ (.lit 0)) List.length_replicate
    List.length_replicate
  have hsalt : (r.values W.prims (W.cfg i) (W.mode i) [] []).salt.length = 64 := by
    have hcn := hw.clientNonce
    have hsn := hw.serverNonce
    exact (List.length_append).trans (congrArg₂ (· + ·) hcn hsn)
  rcases published_of_visibleAll (k := .srvConfirm) hsalt hvisible with hpub | hikm
  · obtain ⟨j, c, ekEph, hsent, hinput⟩ := published_srvConfirm hpub
    obtain ⟨log', a, hkeyed, hlog'⟩ := hsent
    have hct : (List.replicate (if c.fs then c.hello.suite.params.ct else 0)
        (.lit 0) : List Letter).length = _ := List.length_replicate
    have hss : (List.replicate (if c.fs then 32 else 0) (.lit 0) : List Letter).length = _ :=
      List.length_replicate
    have hw' := keyed_wellFormed hs hkeyed ((List.prefix_append _ _).trans hlog') hct hss
    obtain ⟨hsuite, heq⟩ := hw.eq_of_srvConfirm hw' (idealPrims_collisionFree _ _) hinput
    exact ⟨j, c, ekEph, ⟨log', a, hkeyed, hlog'⟩, heq, hsuite.symm⟩
  · -- Otherwise the attacker knows both secrets of stage 1.
    have hikm1 : VisibleAll s ((r.values W.prims (W.cfg i) (W.mode i) [] []).stageIkm .one) := hikm
    obtain ⟨hss, hpsk, -⟩ := visibleAll_secrets hikm1
    have hss' : VisibleAll s r.enc.ss := hss
    rw [hssStatic] at hss'
    rcases hsecret with hpskSecret | hkeySecret
    · exact absurd (leaked_of_visible_psk hpsk) hpskSecret
    · exact absurd (leaked_of_visible_ssStatic hs hss') hkeySecret

/-- A connection that has accepted a ClientFinished of a device got it from a run of that device,
with the same values, unless the PSK has leaked. -/
theorem ClientFinishedAccepted.exists_sent (hs : Network.Reachable s) {j : ℕ}
    {c : Server.Accepted Letter} {h : Handshake Letter} (hacc : ClientFinishedAccepted s j c h)
    {d : Device} (hdevice : c.hello.deviceId = d.bytes) (hsecret : .psk d ∉ s.leaked) :
    ∃ i, ClientFinishedSent s i h ∧ W.device i = d ∧ (W.mode i).spec = c.hello.suite := by
  obtain ⟨log, ekEph, ctEph, ssEph, ⟨log₀, tail, hex, -, -, rfl⟩, hlog, rfl⟩ := hacc
  have hpfx : log₀ <+: s.connection j := (List.prefix_append _ _).trans hlog
  have hw := connection_wellFormed hs hex hpfx
  obtain ⟨h₁, hfin, hfinPrefix⟩ := hex.exists_finishedRead
  obtain ⟨h₂, hkeyed, hkeyedPrefix⟩ := hfin.exists_keyed
  obtain ⟨h₃, hnamed, hnamedPrefix⟩ := hkeyed.exists_named
  have hanswers := named_answers hs hnamed
    (((hnamedPrefix.trans hkeyedPrefix).trans hfinPrefix).trans hpfx)
  -- The PSK is the device's.
  have hpsk : c.psk.1 = devicePsk d := by
    obtain ⟨d', -, hd', hpsk⟩ := hanswers.psk
    rw [hpsk, Device.bytes_injective (hdevice.symm.trans hd')]
  -- The MAC came over the network.
  have hvisible : VisibleAll s ((c.values ekEph ctEph ssEph).clientMac W.prims) := by
    obtain ⟨h₄, payload, -, hpayload, -, -, rfl⟩ := hfin
    have hall := visibleAll_of_read hs (connection_answers hs (hfinPrefix.trans hpfx))
    rw [hpayload] at hall
    exact (exposedAll_append.mp hall).2
  have hsalt : (c.values ekEph ctEph ssEph).salt.length = 64 :=
    (List.length_append).trans (congrArg₂ (· + ·) hw.clientNonce hw.serverNonce)
  rcases published_of_visibleAll (k := .cliConfirm) hsalt hvisible with hpub | hikm
  · obtain ⟨i, h', hsent, hinput⟩ := published_cliConfirm hpub
    obtain ⟨log', r, ctEph', ssEph', a, hex', hh', hlog'⟩ := hsent
    have hw' : h'.WellFormed W.prims (W.mode i).spec := hh' ▸ exchanged_wellFormed hex'
    obtain rfl := hw.eq_of_cliConfirm hw' (idealPrims_collisionFree _ _) hinput
    refine ⟨i, ⟨log', r, ctEph', ssEph', a, hex', hh', hlog'⟩, ?_, ?_⟩
    · have hpsk' : devicePsk (W.device i) = devicePsk d :=
        (congrArg Handshake.psk hh').symm.trans hpsk
      injection atomBytes_inj (by decide) hpsk'
    · exact (hw'.th2Input_inj hw rfl).1
  · obtain ⟨-, hpsk', -⟩ := visibleAll_secrets hikm
    have hpsk'' : VisibleAll s c.psk.1 := hpsk'
    rw [hpsk] at hpsk''
    exact absurd (leaked_of_visible_psk hpsk'') hsecret

/-! ## Injectivity -/

/-- A client run has one server nonce. -/
theorem ClientFinishedSent.serverNonce_unique {i : ℕ} {h h' : Handshake Letter}
    (hsent : ClientFinishedSent s i h) (hsent' : ClientFinishedSent s i h') :
    h.serverNonce = h'.serverNonce := by
  obtain ⟨log, r, ctEph, ssEph, a, hex, rfl, hlog⟩ := hsent
  obtain ⟨log', r', ctEph', ssEph', a', hex', rfl, hlog'⟩ := hsent'
  obtain ⟨h₀, ⟨hread, -⟩, hpfx⟩ := hex.exists_verified
  obtain ⟨h₀', ⟨hread', -⟩, hpfx'⟩ := hex'.exists_verified
  have hr := hread.unique hread' ((hpfx.trans (List.prefix_append _ _)).trans hlog)
    ((hpfx'.trans (List.prefix_append _ _)).trans hlog')
  rw [hr]
  rfl

/-- A connection has one client nonce. -/
theorem ServerHelloSent.clientNonce_unique {j : ℕ} {c c' : Server.Accepted Letter}
    {ekEph ekEph' : List Letter} (hsent : ServerHelloSent s j c ekEph)
    (hsent' : ServerHelloSent s j c' ekEph') : c.hello.clientNonce = c'.hello.clientNonce := by
  obtain ⟨log, a, hkeyed, hlog⟩ := hsent
  obtain ⟨log', a', hkeyed', hlog'⟩ := hsent'
  obtain ⟨h₀, hnamed, hpfx⟩ := hkeyed.exists_named
  obtain ⟨h₀', hnamed', hpfx'⟩ := hkeyed'.exists_named
  rw [hnamed.hello_unique hnamed' ((hpfx.trans (List.prefix_append _ _)).trans hlog)
    ((hpfx'.trans (List.prefix_append _ _)).trans hlog')]

/-- The server nonce of an accepted ClientFinished names the connection. -/
theorem ClientFinishedAccepted.serverNonce_eq (hs : Network.Reachable s) {j : ℕ}
    {c : Server.Accepted Letter} {h : Handshake Letter} (hacc : ClientFinishedAccepted s j c h) :
    h.serverNonce = atomBytes nonceLen (.token j 3) := by
  obtain ⟨log, ekEph, ctEph, ssEph, ⟨log₀, tail, hex, -, -, rfl⟩, hlog, rfl⟩ := hacc
  obtain ⟨h₁, hfin, hfinPrefix⟩ := hex.exists_finishedRead
  obtain ⟨h₂, hkeyed, hkeyedPrefix⟩ := hfin.exists_keyed
  obtain ⟨h₃, hnamed, hnamedPrefix⟩ := hkeyed.exists_named
  have hpfx := ((hnamedPrefix.trans hkeyedPrefix).trans hfinPrefix).trans
    ((List.prefix_append _ _).trans hlog)
  exact (named_answers hs hnamed hpfx).serverNonce

/-- The client nonce of an accepted ServerHello names the client run. -/
theorem ServerHelloAccepted.clientNonce_eq (hs : Network.Reachable s) {i : ℕ}
    {h : Handshake Letter} (hacc : ServerHelloAccepted s i h) :
    h.clientNonce = atomBytes 32 (.clientNonce i 0) := by
  obtain ⟨log, r, ⟨hread, -⟩, hlog, rfl, -⟩ := hacc
  obtain ⟨h₀, hdrawn, hpfx⟩ := hread.exists_drawn
  exact (drawn_answers hs hdrawn (hpfx.trans hlog)).1

end PqcIot
