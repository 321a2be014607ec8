import PqcIot.Firmware.Trace
import PqcIot.Server.Trace

/-!
# The honest run

A device and a connection whose surroundings are honest (`Firmware.Platform`, `Server.Platform`):
every primitive and process succeeds and computes what it is documented to, and each side reads what
the other writes. The values of that handshake are `honestValues`; `device_run` and `connection_run`
are the complete histories of both sides, event by event.
-/

namespace PqcIot

open Effects Protocol

variable {β : Type}

/-! ## Honest surroundings -/

/-- What the device takes from its surroundings: random bytes and encapsulation randomness. -/
structure Firmware.Platform (kem : Kem β .mlkem768) where
  fill : ∀ len, { l : List β // l.length = len }
  coins : ℕ → kem.Coins

/-- What the server takes from its surroundings: the device table, random bytes, its private key and
the key pair that openssl generates for the connection. -/
structure Server.Platform (kem : Kem β .mlkem768) where
  devices : List β → Except Server.LookupExn (Option { l : List β // l.length = pskLen })
  token : ∀ n, { l : List β // l.length = n }
  staticKey : kem.Seed
  ephemeralKey : kem.Seed
  /-- The DER header in front of a public key. -/
  derHeader : { l : List β // l.length = 22 }
  /-- What `genpkey` prints, and the size of `eph.pem`. -/
  genOutput : List β
  pemSize : ℕ

namespace Firmware

/-- `mlkem768_enc` over a KEM: a refused key is an error. -/
def encapsulate (P : Prims β) (kem : Kem β .mlkem768) (pk : List β) (coins : kem.Coins) :
    Encapsulation β :=
  match h : kem.encaps pk coins with
  | some (ct, ss) => ⟨0, ct, ss, (kem.length_encaps pk coins ct ss h).1,
      (kem.length_encaps pk coins ct ss h).2⟩
  | none => ⟨-1, P.lits (List.replicate 1088 0), P.lits (List.replicate 32 0),
      (P.length_lits _).trans List.length_replicate, (P.length_lits _).trans List.length_replicate⟩

theorem encapsulate_eq {P : Prims β} {kem : Kem β .mlkem768} {pk : List β} {coins : kem.Coins}
    {ct ss : List β} (h : kem.encaps pk coins = some (ct, ss)) :
    (encapsulate P kem pk coins).rc = 0 ∧ (encapsulate P kem pk coins).ct = ct ∧
      (encapsulate P kem pk coins).ss = ss := by
  rw [encapsulate]
  split
  · rename_i ct' ss' h'
    rw [h] at h'
    cases h'
    exact ⟨rfl, rfl, rfl⟩
  · rename_i h'
    rw [h] at h'
    cases h'

/-- The answers of a device's surroundings. There is none to an access outside an array. -/
def Platform.answer (P : Prims β) {kem : Kem β .mlkem768} (client : Platform kem) (n : ℕ) :
    ∀ o : HostOp β, Option (HostOp.Ans o)
  | .connectToServer => some true
  | .close => some ()
  | .espFillRandom len => some (client.fill len)
  | .mlkem768Enc pk => some (encapsulate P kem pk (client.coins n))
  | .trap => none

end Firmware

namespace Server

/-- The answers of a server's surroundings, when every process succeeds. -/
def Platform.answer {kem : Kem β .mlkem768} (server : Platform kem) (_ : ℕ) :
    ∀ o : HostOp β, Option (HostOp.Ans o)
  | .pskFor deviceId => some (server.devices deviceId)
  | .staticDecap ct => some (some ⟨0, some (kem.decaps server.staticKey ct)⟩)
  | .tokenBytes n => some (server.token n)
  | .mkdtemp => some (some ())
  | .genpkey _ => some (some ⟨0, server.genOutput⟩)
  | .chmod => some (some ())
  | .pubout => some (some ⟨0, server.derHeader.1 ++ kem.publicKey server.ephemeralKey⟩)
  | .ephDecap ct => some (some ⟨0, some (kem.decaps server.ephemeralKey ct)⟩)
  | .ephExists => some true
  | .ephSize => some (some server.pemSize)
  | .ephOverwrite _ => some (some ())
  | .ephCleanup => some (some ())
  | .recordOpen _ => some ()
  | .close => some ()

end Server

/-- The server's side of the conversation from ServerHello on, when ClientFinished arrives. -/
private theorem exchange_run {P : Prims β} (c : Server.Accepted β) (ekEph ctEph ssEph : List β)
    (hfinished : ((c.values ekEph ctEph ssEph).clientFinished P).length ≤ maxFrame)
    (hct : ctEph.length = if c.fs then c.hello.suite.params.ct else 0)
    (hss : c.fs = false → ssEph = []) :
    ∃ result, Prog.Run
      (Server.exchange P c.hello c.psk.1 c.ssStatic c.serverNonce.1 c.sessionId.1 ekEph).run
      ([⟨.inl (.write frameServerHello ((c.values ekEph ctEph ssEph).serverHello P)), .ok ()⟩,
        ⟨.inl (.read maxFrame), .ok (frameClientFinished,
          ⟨(c.values ekEph ctEph ssEph).clientFinished P, hfinished⟩)⟩] ++
        if c.fs then [⟨.inr (.ephDecap ctEph), some ⟨0, some ssEph⟩⟩] else [])
      (.ret (.ok result)) ∧
      result.serverMac = (c.values ekEph ctEph ssEph).serverMac P ∧
      result.clientMac = (c.values ekEph ctEph ssEph).clientMac P ∧
      result.transcriptForMac = (c.values ekEph ctEph ssEph).transcript P ∧
      result.keys.cliConfirm = (c.values ekEph ctEph ssEph).cliConfirm P ∧
      result.keys.c2s = (c.values ekEph ctEph ssEph).c2s P := by
  have hth2 : transcript2 P c.hello.raw c.serverNonce.1 c.sessionId.1 ekEph =
      (c.values ekEph [] []).th2 P := rfl
  have hhello : c.serverNonce.1 ++ c.sessionId.1 ++ ekEph ++
      P.hmac ((c.values ekEph [] []).srvConfirm P) ((c.values ekEph [] []).th2 P) =
        (c.values ekEph ctEph ssEph).serverHello P := rfl
  have hmacLen := (c.values ekEph ctEph ssEph).length_clientMac P
  -- What is sent first is the ServerHello of the handshake.
  rw [Server.exchange, hth2, Server.derive_before_hello c ekEph, Server.Py.ofExcept_ok_bind]
  dsimp only
  rw [hhello]
  by_cases hfs : c.fs = true
  · -- ClientFinished is the ephemeral ciphertext and the MAC.
    rw [if_pos hfs] at hct
    have hlen : ((c.values ekEph ctEph ssEph).clientFinished P).length =
        c.hello.suite.params.ct + macLen := by
      rw [Handshake.clientFinished, List.length_append, hmacLen]
      exact congrArg (· + 32) hct
    have htake : ((c.values ekEph ctEph ssEph).clientFinished P).take c.hello.suite.params.ct =
        ctEph := List.take_left' hct
    have hdrop : ((c.values ekEph ctEph ssEph).clientFinished P).drop c.hello.suite.params.ct =
        (c.values ekEph ctEph ssEph).clientMac P := List.drop_left' hct
    have hstage2 : deriveStage2 P c.ssStatic ssEph c.psk.1 c.hello.clientNonce c.serverNonce.1
        (transcript3 P ((c.values ekEph [] []).th2 P) ctEph) = _ :=
      (c.values ekEph ctEph ssEph).deriveStage2_eq P hfs
    refine ⟨⟨⟨[], (c.values ekEph ctEph ssEph).cliConfirm P,
      (c.values ekEph ctEph ssEph).c2s P, (c.values ekEph ctEph ssEph).s2c P⟩,
      (c.values ekEph ctEph ssEph).serverMac P, (c.values ekEph ctEph ssEph).clientMac P,
      (c.values ekEph ctEph ssEph).th3 P⟩, Server.run_sendFrame (Server.run_recvFrame ?_), rfl, rfl,
      (if_pos hfs).symm, rfl, rfl⟩
    rw [if_pos hfs, if_pos hfs]
    dsimp only
    rw [if_neg (not_not.mpr rfl), if_neg (not_not.mpr hlen), htake, hdrop]
    refine Server.run_bind_last (Server.run_call (.nil _)) ?_
    rw [hstage2]
    exact .nil _
  · -- ClientFinished is the MAC.
    have hfalse : c.fs = false := Bool.eq_false_iff.mpr hfs
    rw [if_neg hfs] at hct
    obtain rfl := List.length_eq_zero_iff.mp hct
    obtain rfl := hss hfalse
    have hlen : ((c.values ekEph [] []).clientFinished P).length = macLen := hmacLen
    refine ⟨⟨⟨(c.values ekEph [] []).srvConfirm P, (c.values ekEph [] []).cliConfirm P,
      (c.values ekEph [] []).c2s P, (c.values ekEph [] []).s2c P⟩,
      (c.values ekEph [] []).serverMac P, (c.values ekEph [] []).clientMac P,
      (c.values ekEph [] []).th2 P⟩, Server.run_sendFrame (Server.run_recvFrame ?_), rfl, rfl,
      (if_neg hfs).symm, rfl, rfl⟩
    rw [if_neg hfs, if_neg hfs]
    dsimp only
    rw [if_neg (not_not.mpr rfl), if_neg (not_not.mpr hlen)]
    exact .nil _

section Honest

variable (P : Prims β) {kem : Kem β .mlkem768} (cfg : Firmware.Config β) (mode : Firmware.Mode)
  (client : Firmware.Platform kem) (server : Server.Platform kem)

/-- What the device encapsulates to the pinned key. -/
def staticEnc : Firmware.Encapsulation β :=
  Firmware.encapsulate P kem cfg.serverPublicKey (client.coins 1)

/-- What it encapsulates to the server's ephemeral key. -/
def ephemeralEnc : Firmware.Encapsulation β :=
  Firmware.encapsulate P kem (kem.publicKey server.ephemeralKey) (client.coins 2)

/-- The handshake that the two sides are to agree on. -/
def honestValues : Handshake β where
  fs := mode.fs
  hello := Firmware.helloPayload P cfg mode (client.fill 32).1 (staticEnc P cfg client).ct
  clientNonce := (client.fill 32).1
  serverNonce := (server.token 32).1
  sessionId := (server.token 8).1
  ekEph := if mode.fs then kem.publicKey server.ephemeralKey else []
  ctEph := if mode.fs then (ephemeralEnc P client server).ct else []
  psk := cfg.devicePsk
  ssStatic := (staticEnc P cfg client).ss
  ssEph := if mode.fs then (ephemeralEnc P client server).ss else []

/-- Mode A has no ephemeral key. -/
theorem length_ekEph : (honestValues P cfg mode client server).ekEph.length =
    if mode.fs then 1184 else 0 := by
  rw [honestValues]
  split
  · exact kem.length_publicKey _
  · rfl

theorem length_serverHello : ((honestValues P cfg mode client server).serverHello P).length =
    72 + if mode.fs then 1184 else 0 := by
  have hnonce : (honestValues P cfg mode client server).serverNonce.length = 32 :=
    (server.token 32).2
  have hsid : (honestValues P cfg mode client server).sessionId.length = 8 := (server.token 8).2
  simp only [Handshake.serverHello, List.length_append, hnonce, hsid,
    length_ekEph P cfg mode client server, Handshake.length_serverMac]
  omega

theorem length_clientFinished :
    ((honestValues P cfg mode client server).clientFinished P).length =
      (if mode.fs then 1088 else 0) + 32 := by
  rw [Handshake.clientFinished, List.length_append, Handshake.length_clientMac, honestValues]
  split
  · rw [(ephemeralEnc P client server).length_ct]
  · rfl

theorem length_hello : (honestValues P cfg mode client server).hello.length = 1166 :=
  Firmware.length_helloPayload P cfg mode (client.fill 32).2 (staticEnc P cfg client).length_ct

theorem length_serverHello_le :
    ((honestValues P cfg mode client server).serverHello P).length ≤ 1256 := by
  rw [length_serverHello]
  split <;> omega

theorem length_clientFinished_le :
    ((honestValues P cfg mode client server).clientFinished P).length ≤ maxFrame := by
  rw [length_clientFinished, maxFrame]
  split <;> omega

/-- An honest public key is accepted, and the server gets the secret back. -/
theorem encapsulate_publicKey (dk : kem.Seed) (coins : kem.Coins) :
    (Firmware.encapsulate P kem (kem.publicKey dk) coins).rc = 0 ∧
      kem.decaps dk (Firmware.encapsulate P kem (kem.publicKey dk) coins).ct =
        (Firmware.encapsulate P kem (kem.publicKey dk) coins).ss := by
  obtain ⟨ct, ss, henc, hdec⟩ := kem.correct dk coins
  obtain ⟨hrc, hct, hss⟩ := Firmware.encapsulate_eq henc
  rw [hct, hss]
  exact ⟨hrc, hdec⟩

/-! ## The device -/

/-- The device reads the fields of the server's hello back. -/
private theorem clientValues_serverHello (ctEph ssEph : List β) :
    Firmware.clientValues P cfg mode (client.fill 32).1 (staticEnc P cfg client)
      ((honestValues P cfg mode client server).serverHello P) ctEph ssEph =
        (honestValues P cfg mode client server).withEphemeral ctEph ssEph := by
  have hnonce := (server.token 32).2
  have hsid := (server.token 8).2
  set h := honestValues P cfg mode client server with hh
  -- Field by field, as the offsets of the C code have them.
  have hsn : slice 0 32 (h.serverHello P) = (server.token 32).1 := by
    have hsplit : h.serverHello P =
        [] ++ (server.token 32).1 ++ ((server.token 8).1 ++ h.ekEph ++ h.serverMac P) := by
      simp [Handshake.serverHello, hh, honestValues]
    rw [hsplit]
    exact slice_append_append rfl hnonce
  have hsidSlice : slice 32 8 (h.serverHello P) = (server.token 8).1 := by
    have hsplit : h.serverHello P =
        (server.token 32).1 ++ (server.token 8).1 ++ (h.ekEph ++ h.serverMac P) := by
      simp [Handshake.serverHello, hh, honestValues]
    rw [hsplit]
    exact slice_append_append hnonce hsid
  have hek : (if mode.fs then slice 40 1184 (h.serverHello P) else []) = h.ekEph := by
    by_cases hfs : mode.fs = true
    · rw [if_pos hfs, Handshake.serverHello]
      refine slice_append_append ?_ (by rw [hh, length_ekEph, if_pos hfs])
      rw [List.length_append]
      exact congrArg₂ (· + ·) hnonce hsid
    · rw [if_neg hfs, hh, honestValues, if_neg hfs]
  rw [Firmware.clientValues, hsn, hsidSlice, hek]
  rfl

/-- The MAC at the end of the server's hello. -/
private theorem receivedMac_serverHello :
    Firmware.receivedMac mode ((honestValues P cfg mode client server).serverHello P) =
      (honestValues P cfg mode client server).serverMac P := by
  refine slice_append ?_ (Handshake.length_serverMac P _)
  have hlen := length_serverHello P cfg mode client server
  rw [Handshake.serverHello, List.length_append, Handshake.length_serverMac] at hlen
  omega

/-- The history of the device. -/
def deviceLog : Firmware.Log β :=
  let h := honestValues P cfg mode client server
  [⟨.inr (.espFillRandom 32), client.fill 32⟩,
    ⟨.inr (.mlkem768Enc cfg.serverPublicKey), staticEnc P cfg client⟩,
    ⟨.inl (.write Firmware.frameClientHello h.hello), .ok ()⟩,
    ⟨.inl (.read 1256), .ok (Firmware.frameServerHello,
      ⟨h.serverHello P, length_serverHello_le P cfg mode client server⟩)⟩] ++
  ((if mode.fs then [⟨.inr (.mlkem768Enc (kem.publicKey server.ephemeralKey)),
      ephemeralEnc P client server⟩] else []) ++
    [⟨.inl (.write Firmware.frameClientFinished (h.clientFinished P)), .ok ()⟩])

/-- The device's handshake goes through and ends with a session. -/
theorem device_run (hpk : cfg.serverPublicKey = kem.publicKey server.staticKey) :
    Prog.Run (Firmware.clientHandshake P cfg mode) (deviceLog P cfg mode client server)
      (.ret (some (Firmware.clientSession P mode (honestValues P cfg mode client server)))) := by
  -- None of the checks on the way fails.
  have hrc : (staticEnc P cfg client).rc = 0 := by
    rw [staticEnc, hpk]
    exact (encapsulate_publicKey P server.staticKey (client.coins 1)).1
  have hgood : ¬ (Firmware.frameServerHello ≠ Firmware.frameServerHello ∨
      ((honestValues P cfg mode client server).serverHello P).length ≠
        serverHelloLen mode.spec) := by
    rw [length_serverHello P cfg mode client server, Firmware.serverHelloLen_spec]
    simp
  have hmac : Firmware.ctEqual P ((honestValues P cfg mode client server).serverMac P)
      (Firmware.receivedMac mode ((honestValues P cfg mode client server).serverHello P)) =
        true := by
    rw [receivedMac_serverHello P cfg mode client server]
    exact (Firmware.ctEqual_iff P rfl).mpr rfl
  have hvalues := clientValues_serverHello P cfg mode client server
  refine .cons (.cons ?_)
  rw [if_neg (not_not.mpr hrc)]
  refine .cons (.cons ?_)
  dsimp only
  rw [if_neg hgood, Firmware.clientVerify, hvalues [] []]
  dsimp only
  rw [Handshake.serverMac_withEphemeral, if_pos hmac]
  by_cases hfs : mode.fs = true
  · -- Mode B: encapsulate to the key in the hello.
    have hek : ((honestValues P cfg mode client server).withEphemeral [] []).ekEph =
        kem.publicKey server.ephemeralKey := if_pos hfs
    have hall : Firmware.clientValues P cfg mode (client.fill 32).1 (staticEnc P cfg client)
        ((honestValues P cfg mode client server).serverHello P) (ephemeralEnc P client server).ct
          (ephemeralEnc P client server).ss = honestValues P cfg mode client server := by
      rw [hvalues, honestValues, if_pos hfs, if_pos hfs, if_pos hfs]
      rfl
    have hrc' : (ephemeralEnc P client server).rc = 0 :=
      (encapsulate_publicKey P server.ephemeralKey (client.coins 2)).1
    rw [if_pos hfs, hek, if_pos hfs]
    refine .cons ?_
    rw [if_neg (not_not.mpr hrc'), hall]
    exact .cons (.nil _)
  · -- Mode A: what has been agreed on by now is all there is.
    have hall : (honestValues P cfg mode client server).withEphemeral [] [] =
        honestValues P cfg mode client server := by
      rw [honestValues, if_neg hfs, if_neg hfs, if_neg hfs]
      rfl
    rw [if_neg hfs, if_neg hfs, hall]
    exact .cons (.nil _)

/-! ## The server -/

variable (key : Server.PrivateKey β)

/-- The hello that the server parses. -/
def honestHello : ClientHello β where
  version := version
  suite := mode.spec
  deviceId := cfg.deviceId
  serverKeyId := cfg.serverKeyId
  clientNonce := (client.fill 32).1
  kemCt := (staticEnc P cfg client).ct
  pskMac := helloMac P cfg.devicePsk (P.lits [version, mode.spec.code] ++ cfg.deviceId ++
    cfg.serverKeyId ++ (client.fill 32).1 ++ (staticEnc P cfg client).ct)
  raw := (honestValues P cfg mode client server).hello

/-- The connection of that hello. -/
def honestConnection : Server.Accepted β where
  hello := honestHello P cfg mode client server
  psk := ⟨cfg.devicePsk, cfg.length_devicePsk⟩
  ssStatic := (staticEnc P cfg client).ss
  serverNonce := server.token 32
  sessionId := server.token 8

theorem parse_hello : ClientHello.parse P (honestValues P cfg mode client server).hello =
    .ok (honestHello P cfg mode client server) :=
  ClientHello.parse_append P cfg.length_deviceId cfg.length_serverKeyId (client.fill 32).2
    ((staticEnc P cfg client).length_ct.trans (by cases mode <;> rfl)) (P.length_hmac _ _)

/-- The MAC of the hello is over all of it but the MAC. -/
private theorem helloMac_signedPart :
    helloMac P cfg.devicePsk (honestHello P cfg mode client server).signedPart =
      (honestHello P cfg mode client server).pskMac := by
  have hbody : (honestHello P cfg mode client server).signedPart =
      P.lits [version, mode.spec.code] ++ cfg.deviceId ++ cfg.serverKeyId ++ (client.fill 32).1 ++
        (staticEnc P cfg client).ct := by
    rw [ClientHello.signedPart]
    refine List.take_left' ?_
    rw [honestHello, length_hello]
    simp [cfg.length_deviceId, cfg.length_serverKeyId, (client.fill 32).2,
      (staticEnc P cfg client).length_ct, macLen]
  rw [hbody]
  rfl

/-- The history of the connection up to the static decapsulation. -/
def acceptLog : Server.Log β :=
  [⟨.inl (.read maxFrame), .ok (frameClientHello,
      ⟨(honestValues P cfg mode client server).hello,
        (length_hello P cfg mode client server).trans_le (by decide)⟩)⟩,
    ⟨.inr (.pskFor cfg.deviceId), .ok (some ⟨cfg.devicePsk, cfg.length_devicePsk⟩)⟩,
    ⟨.inr (.staticDecap (staticEnc P cfg client).ct), some ⟨0, some (staticEnc P cfg client).ss⟩⟩]

/-- The history of its `try` block. -/
def exchangeLog : Server.Log β :=
  let h := honestValues P cfg mode client server
  (if mode.fs then [⟨.inr .mkdtemp, some ()⟩,
    ⟨.inr (.genpkey .mlkem768), some ⟨0, server.genOutput⟩⟩,
      ⟨.inr .chmod, some ()⟩,
      ⟨.inr .pubout, some ⟨0, server.derHeader.1 ++ kem.publicKey server.ephemeralKey⟩⟩] else []) ++
    ([⟨.inl (.write frameServerHello (h.serverHello P)), .ok ()⟩,
      ⟨.inl (.read maxFrame), .ok (frameClientFinished,
        ⟨h.clientFinished P, length_clientFinished_le P cfg mode client server⟩)⟩] ++
    if mode.fs then [⟨.inr (.ephDecap h.ctEph), some ⟨0, some h.ssEph⟩⟩, ⟨.inr .ephExists, true⟩,
      ⟨.inr .ephSize, some server.pemSize⟩, ⟨.inr (.ephOverwrite server.pemSize), some ()⟩,
      ⟨.inr .ephCleanup, some ()⟩] else [])

/-- The history of the connection. -/
def connectionLog : Server.Log β :=
  acceptLog P cfg mode client server ++ (⟨.inr (.tokenBytes nonceLen), server.token nonceLen⟩ ::
    ⟨.inr (.tokenBytes sessionIdLen), server.token sessionIdLen⟩ ::
      exchangeLog P cfg mode client server)

/-- What a decapsulation that succeeds does. -/
private theorem decapsulate_run {ct ss : List β} (hlen : ss.length = 32) :
    Prog.Run (Server.decapsulate ct).run [⟨.inr (.staticDecap ct), some ⟨0, some ss⟩⟩]
      (.ret (.ok ss)) := by
  refine Server.run_call ?_
  rw [Server.Py.orOSError_some_bind, if_neg (not_not.mpr rfl)]
  dsimp only
  rw [if_neg (not_not.mpr hlen)]
  exact .nil _

/-- The server accepts the hello. -/
theorem acceptHello_run [DecidableEq β] (hid : cfg.serverKeyId = key.keyId) :
    Prog.Run (Server.acceptHello P key).run (acceptLog P cfg mode client server)
      (.ret (.ok (honestHello P cfg mode client server, cfg.devicePsk,
        (staticEnc P cfg client).ss))) := by
  -- The two checks pass; the table knows the device.
  have hkeyId : ¬ (!Server.compareDigest (honestHello P cfg mode client server).serverKeyId
      key.keyId) = true := by
    simp [Server.compareDigest, honestHello, hid]
  have hmac : ¬ (!Server.compareDigest (helloMac P cfg.devicePsk
      (honestHello P cfg mode client server).signedPart)
        (honestHello P cfg mode client server).pskMac) = true := by
    rw [helloMac_signedPart]
    simp [Server.compareDigest]
  refine Server.run_recvFrame ?_
  dsimp only
  rw [if_neg (not_not.mpr rfl), parse_hello, Server.Py.ofExcept_ok_bind, if_neg hkeyId]
  refine Server.run_call ?_
  dsimp only
  rw [if_neg hmac]
  exact Server.run_bind (decapsulate_run (staticEnc P cfg client).length_ss) (.nil _)

/-- The server generates its ephemeral key. -/
private theorem init_run :
    Prog.Run (Server.EphemeralKey.init (β := β) .mlkem768).run
      [⟨.inr .mkdtemp, some ()⟩, ⟨.inr (.genpkey .mlkem768), some ⟨0, server.genOutput⟩⟩,
        ⟨.inr .chmod, some ()⟩,
        ⟨.inr .pubout, some ⟨0, server.derHeader.1 ++ kem.publicKey server.ephemeralKey⟩⟩]
      (.ret (.ok (kem.publicKey server.ephemeralKey))) := by
  have hraw : Server.rawPublicFromDer (server.derHeader.1 ++ kem.publicKey server.ephemeralKey) =
      .ok (kem.publicKey server.ephemeralKey) :=
    Server.rawPublicFromDer_append server.derHeader.2 (kem.length_publicKey _)
  refine Server.run_call ?_
  rw [Server.Py.orOSError_some_bind]
  refine Server.run_call ?_
  rw [Server.checked_zero_bind]
  refine Server.run_call ?_
  rw [Server.Py.orOSError_some_bind]
  refine Server.run_call ?_
  rw [Server.checked_zero_bind, hraw]
  exact .nil _

/-- The server destroys it. -/
private theorem destroy_run (size : ℕ) :
    Prog.Run (Server.EphemeralKey.destroy (β := β)).run
      ([⟨.inr .ephExists, true⟩, ⟨.inr .ephSize, some size⟩,
        ⟨.inr (.ephOverwrite size), some ()⟩] ++ [⟨.inr .ephCleanup, some ()⟩])
      (.ret (.ok ())) := by
  refine Server.run_tryFinally (Server.run_ignoreOSError ?_) ?_
  · refine Server.run_call ?_
    rw [if_pos rfl]
    refine Server.run_call ?_
    rw [Server.Py.orOSError_some_bind]
    exact Server.run_call (.nil _)
  · exact Server.run_call (.nil _)

/-- The `try` block of an honest connection. -/
theorem tryExchange_run :
    ∃ result, Prog.Run
      (Server.tryExchange P (honestHello P cfg mode client server) cfg.devicePsk
        (staticEnc P cfg client).ss (server.token 32).1 (server.token 8).1).run
      (exchangeLog P cfg mode client server) (.ret (.ok result)) ∧
      result.serverMac = (honestValues P cfg mode client server).serverMac P ∧
      result.clientMac = (honestValues P cfg mode client server).clientMac P ∧
      result.transcriptForMac = (honestValues P cfg mode client server).transcript P ∧
      result.keys.cliConfirm = (honestValues P cfg mode client server).cliConfirm P ∧
      result.keys.c2s = (honestValues P cfg mode client server).c2s P := by
  have hct : (honestValues P cfg mode client server).ctEph.length =
      if mode.fs then mode.spec.params.ct else 0 := by
    rw [honestValues]
    cases mode with
    | a => rfl
    | bForwardSecrecy => exact (ephemeralEnc P client server).length_ct
  -- The connection's values are the agreed ones.
  obtain ⟨result, hrun, hresult⟩ :=
    exchange_run (P := P) (honestConnection P cfg mode client server)
    (honestValues P cfg mode client server).ekEph (honestValues P cfg mode client server).ctEph
    (honestValues P cfg mode client server).ssEph
    (length_clientFinished_le P cfg mode client server) hct
    fun hfalse => by
      have hneg : ¬ mode.fs = true := Bool.eq_false_iff.mp hfalse
      exact if_neg hneg
  refine ⟨result, ?_, hresult⟩
  by_cases hfs : mode.fs = true
  · -- Mode B: the key is generated before the exchange and destroyed after it.
    have hsuite : (honestHello P cfg mode client server).suite.params.fs = true := hfs
    have hconn : (honestConnection P cfg mode client server).fs = true := hfs
    have hek : (honestValues P cfg mode client server).ekEph =
        kem.publicKey server.ephemeralKey := if_pos hfs
    have hlevel : (honestHello P cfg mode client server).suite.params.level = .mlkem768 := by
      cases mode <;> rfl
    rw [if_pos hconn] at hrun
    rw [Server.tryExchange, if_pos hsuite, hlevel]
    simp only [exchangeLog, hfs, if_true]
    refine Server.run_bind (a := (honestValues P cfg mode client server).ekEph)
      (by rw [hek]; exact init_run server) ?_
    have hfinally := Server.run_tryFinally hrun (destroy_run server.pemSize)
    exact hfinally
  · -- Mode A: the exchange alone.
    have hsuite : ¬ (honestHello P cfg mode client server).suite.params.fs = true := hfs
    have hconn : ¬ (honestConnection P cfg mode client server).fs = true := hfs
    have hek : (honestValues P cfg mode client server).ekEph = [] := if_neg hfs
    rw [if_neg hconn, List.append_nil] at hrun
    rw [Server.tryExchange, if_neg hsuite]
    simp only [exchangeLog, hfs, Bool.false_eq_true, if_false, List.nil_append, List.append_nil]
    have hgoal : Server.exchange P (honestHello P cfg mode client server) cfg.devicePsk
        (staticEnc P cfg client).ss (server.token 32).1 (server.token 8).1 [] =
        Server.exchange P (honestHello P cfg mode client server) cfg.devicePsk
          (staticEnc P cfg client).ss (server.token 32).1 (server.token 8).1
          (honestValues P cfg mode client server).ekEph := by rw [hek]
    rw [hgoal]
    exact hrun

/-- The connection goes through and ends with the device's session. -/
theorem connection_run [DecidableEq β] (hid : cfg.serverKeyId = key.keyId) :
    ∃ session, Prog.Run (Server.keyExchange P key).run (connectionLog P cfg mode client server)
      (.ret (.ok session)) ∧ session.sessionId = (server.token 8).1 ∧
      session.hello = honestHello P cfg mode client server ∧
      session.keys.c2s = (honestValues P cfg mode client server).c2s P := by
  obtain ⟨result, hrun, hserverMac, hclientMac, htranscript, hcli, hc2s⟩ :=
    tryExchange_run P cfg mode client server
  -- The MAC is compared after the `try` block, with what the exchange has returned.
  have hmac : ¬ (!Server.compareDigest (P.hmac result.keys.cliConfirm
      (result.transcriptForMac ++ result.serverMac)) result.clientMac) = true := by
    rw [hcli, htranscript, hserverMac, hclientMac]
    simp [Server.compareDigest, Handshake.clientMac]
  refine ⟨⟨honestHello P cfg mode client server, (server.token 8).1, result.keys⟩, ?_, rfl, rfl,
    hc2s⟩
  refine Server.run_bind (acceptHello_run P cfg mode client server key hid)
    (Server.run_call (Server.run_call (Server.run_bind_last hrun ?_)))
  dsimp only
  rw [if_neg hmac]
  exact .nil _

end Honest

end PqcIot
