import PqcIot.Firmware.Guard
import PqcIot.Server.Silence
import PqcIot.System.HonestRun

/-!
# The two implementations agree

The firmware's `handshake` and the server's `handle_connection`, run against each other over two
in-order byte streams that split and delay the bytes as they like. Both are given honest
surroundings. Then nothing but agreement can happen (`handshake_agrees`).
-/

namespace PqcIot

open Effects Protocol

variable {β : Type}

section Script

variable (P : Prims β) {kem : Kem β .mlkem768} (cfg : Firmware.Config β) (mode : Firmware.Mode)
  (client : Firmware.Platform kem) (server : Server.Platform kem)

/-- The conversation, as the device sees it. -/
def honestScript : List (Item β) :=
  let h := honestValues P cfg mode client server
  (frameBytes P frameClientHello h.hello).map .send ++
    ((frameBytes P frameServerHello (h.serverHello P)).map .recv ++
      ((frameBytes P frameClientFinished (h.clientFinished P)).map .send ++ []))


/-- The device's history is one of the conversation. -/
theorem device_scripted :
    ∃ n, Scripted P 65535 (client.answer P) 0 (deviceLog P cfg mode client server) n
      (honestScript P cfg mode client server) := by
  have hhello := length_hello P cfg mode client server
  have hreply := length_serverHello_le P cfg mode client server
  have hfinished := length_clientFinished_le P cfg mode client server
  rw [maxFrame] at hfinished
  refine ⟨if mode.fs then 3 else 2, .internal rfl (.internal rfl (.write (by omega)
    (.read (hreply.trans (by decide)) ?_)))⟩
  by_cases hfs : mode.fs = true
  · rw [if_pos hfs, if_pos hfs]
    exact .internal rfl (.write (by omega) (.nil _))
  · rw [if_neg hfs, if_neg hfs]
    exact .write (by omega) (.nil _)

/-- The history of the connection's `try` block is the conversation from ServerHello on. -/
private theorem exchange_scripted (n : ℕ) :
    ∃ n', Scripted P maxFrame server.answer n (exchangeLog P cfg mode client server) n'
      ((frameBytes P frameServerHello
          ((honestValues P cfg mode client server).serverHello P)).map Item.send ++
        ((frameBytes P frameClientFinished
          ((honestValues P cfg mode client server).clientFinished P)).map Item.recv ++ [])) := by
  have hreply : ((honestValues P cfg mode client server).serverHello P).length ≤ maxFrame :=
    (length_serverHello_le P cfg mode client server).trans (by decide)
  have hfinished := length_clientFinished_le P cfg mode client server
  rw [exchangeLog]
  by_cases hfs : mode.fs = true
  · -- The server's ephemeral key opens the ciphertext that the client made for it.
    have hdec (n : ℕ) : server.answer n (.ephDecap (honestValues P cfg mode client server).ctEph) =
        some (some ⟨0, some (honestValues P cfg mode client server).ssEph⟩) := by
      have hctEph : (honestValues P cfg mode client server).ctEph =
          (ephemeralEnc P client server).ct := if_pos hfs
      have hssEph : (honestValues P cfg mode client server).ssEph =
          (ephemeralEnc P client server).ss := if_pos hfs
      rw [hctEph, hssEph, ephemeralEnc,
        ← (encapsulate_publicKey P server.ephemeralKey (client.coins 2)).2]
      rfl
    rw [if_pos hfs, if_pos hfs]
    refine ⟨n + 9, .internal rfl (.internal rfl (.internal rfl (.internal rfl ?_)))⟩
    refine .write hreply (.read hfinished (.internal (hdec _) ?_))
    exact .internal rfl (.internal rfl (.internal rfl (.internal rfl (.nil _))))
  · rw [if_neg hfs, if_neg hfs]
    exact ⟨n, .write hreply (.read hfinished (.nil _))⟩

/-- The connection's history is the same conversation from the other side. -/
theorem connection_scripted (hpk : cfg.serverPublicKey = kem.publicKey server.staticKey)
    (hpsk : server.devices cfg.deviceId = .ok (some ⟨cfg.devicePsk, cfg.length_devicePsk⟩)) :
    ∃ n, Scripted P maxFrame server.answer 0 (connectionLog P cfg mode client server) n
      ((honestScript P cfg mode client server).map .flip) := by
  have hhello := (length_hello P cfg mode client server).trans_le (show 1166 ≤ maxFrame by decide)
  have hstatic : server.answer 1 (.staticDecap (staticEnc P cfg client).ct) =
      some (some ⟨0, some (staticEnc P cfg client).ss⟩) := by
    rw [staticEnc, hpk, ← (encapsulate_publicKey P server.staticKey (client.coins 1)).2]
    rfl
  have hscript : (honestScript P cfg mode client server).map Item.flip =
      (frameBytes P frameClientHello (honestValues P cfg mode client server).hello).map Item.recv ++
        ((frameBytes P frameServerHello
          ((honestValues P cfg mode client server).serverHello P)).map Item.send ++
        ((frameBytes P frameClientFinished
          ((honestValues P cfg mode client server).clientFinished P)).map Item.recv ++ [])) := by
    simp [honestScript]
  obtain ⟨n, hexchange⟩ := exchange_scripted P cfg mode client server 4
  rw [hscript, connectionLog, acceptLog]
  refine ⟨n, .read hhello (.internal (congrArg some hpsk) (.internal hstatic ?_))⟩
  exact .internal rfl (.internal rfl hexchange)

end Script

/-! ## Agreement -/

/-- The two independent implementations agree. For both modes, all nonces, coins, session ids, keys
and PSKs, and however the two byte streams split what is sent: when the device holds the server's
key and its id and the server has the device's PSK, `handshake` and `handle_connection` up to its
check of ClientFinished make a bounded number of socket calls, can always go on until both are done,
and then the one has returned `true` and the other has passed every check, with the same session id
and the same `c2s` key, and `handshake_bytes` is what crossed the wire in both directions. -/
theorem handshake_agrees [DecidableEq β] (P : Prims β) (kem : Kem β .mlkem768)
    (cfg : Firmware.Config β) (key : Server.PrivateKey β) (mode : Firmware.Mode)
    (client : Firmware.Platform kem) (server : Server.Platform kem) (m : Firmware.Memory β)
    (hpk : cfg.serverPublicKey = kem.publicKey server.staticKey)
    (hid : cfg.serverKeyId = key.keyId)
    (hpsk : server.devices cfg.deviceId = .ok (some ⟨cfg.devicePsk, cfg.length_devicePsk⟩)) :
    ∃ (session : Firmware.Session β) (session' : Server.Session β) (toServer toClient : List β)
      (bound : ℕ),
      session.sessionId = session'.sessionId ∧ session.c2s = session'.keys.c2s ∧
      session.handshakeBytes = toServer.length + toClient.length ∧
      ∀ (count : ℕ) (c : Duplex β (Option (Option (Firmware.Session β)))
          (Option (Except PyExn (Server.Session β)))),
        Duplex.Steps count (Duplex.start
          (Prog.resolve (client.answer P) 0 (Firmware.overSockets P
            (Prod.fst <$> Firmware.exec P (Firmware.handshake P cfg mode.suite) m)))
          (Prog.resolve server.answer 0 (Server.overSockets P (Server.keyExchange P key)))) c →
        count ≤ bound ∧ ((∃ c', Duplex.Step c c') ∨
          Duplex.Finished (some (some session)) (some (.ok session')) toServer toClient c) := by
  obtain ⟨n, hdeviceLog⟩ := device_scripted P cfg mode client server
  obtain ⟨n', hserverLog⟩ := connection_scripted P cfg mode client server hpk hpsk
  obtain ⟨session', hrun, hsid, -, hc2s⟩ := connection_run P cfg mode client server key hid
  have hdevice := (Firmware.frameFollows P).performs_of_run hdeviceLog
    (device_run P cfg mode client server hpk)
  have hserver := (Server.frameFollows P).performs_of_run hserverLog hrun
  refine ⟨Firmware.clientSession P mode (honestValues P cfg mode client server), session',
    scriptSent (honestScript P cfg mode client server),
    scriptSent ((honestScript P cfg mode client server).map .flip),
    2 * (honestScript P cfg mode client server).length, hsid.symm, hc2s.symm, ?_,
    fun count c hsteps => ?_⟩
  · -- The session counts the frames of both directions.
    have hhello := length_hello P cfg mode client server
    have hreply := length_serverHello P cfg mode client server
    have hfinished := length_clientFinished P cfg mode client server
    simp only [Firmware.clientSession, Firmware.serverHelloLen_spec, honestScript, List.map_append,
      List.map_map, scriptSent_append, scriptSent_map_send, scriptSent_map_recv,
        Item.flip_comp_send,
      Item.flip_comp_recv, List.length_append, length_frameBytes, hhello, hreply, hfinished,
      List.map_nil, List.length_nil, scriptSent]
    omega
  · -- Two parties that follow a script and its mirror image finish it.
    rw [Firmware.handshake_refines] at hsteps
    exact Duplex.steps_of_follows hdevice.follows hserver.follows hsteps

open Classical in
/-- Mode B with the ideal primitives: the two sides agree on a session. -/
theorem handshake_agrees_ideal :
    let P := idealPrims fun _ : Symbolic.Byte ℕ Level => 0
    let kem := idealKem ℕ .mlkem768
    let bytes (n : ℕ) : { l : List (Symbolic.Byte ℕ Level) // l.length = n } :=
      ⟨P.lits (List.replicate n 0), (P.length_lits _).trans List.length_replicate⟩
    let client : Firmware.Platform kem := ⟨bytes, fun n => Symbolic.Byte.atomBytes 32 n⟩
    let server : Server.Platform kem := ⟨fun _ => .ok (some (bytes 32)), bytes,
      Symbolic.Byte.atomBytes 32 3, Symbolic.Byte.atomBytes 32 4, bytes 22, [], 0⟩
    let cfg : Firmware.Config (Symbolic.Byte ℕ Level) := ⟨(bytes 8).1, (bytes 32).1,
      kem.publicKey server.staticKey, (bytes 4).1, (bytes 8).2, (bytes 32).2,
      kem.length_publicKey _, (bytes 4).2⟩
    ∃ session session' : _, session.c2s = session'.keys.c2s ∧
      ∀ count (c : Duplex (Symbolic.Byte ℕ Level) _ _), Duplex.Steps count (Duplex.start
          (Prog.resolve (client.answer P) 0 (Firmware.overSockets P
            (Prod.fst <$> Firmware.exec P
              (Firmware.handshake P cfg Firmware.Mode.bForwardSecrecy.suite)
              ⟨fun b => (bytes b.size).1, fun b => (bytes b.size).2⟩)))
          (Prog.resolve server.answer 0
            (Server.overSockets P (Server.keyExchange P ⟨cfg.serverPublicKey, (bytes 4).1⟩)))) c →
        (∃ c', Duplex.Step c c') ∨
          c.left = .ret (some (some session)) ∧ c.right = .ret (some (.ok session')) := by
  intro P kem bytes client server cfg
  have hpk : cfg.serverPublicKey = kem.publicKey server.staticKey := by dsimp only [cfg]
  have hid : cfg.serverKeyId = (bytes 4).1 := by dsimp only [cfg]
  have hpsk : server.devices cfg.deviceId = .ok (some ⟨cfg.devicePsk, cfg.length_devicePsk⟩) :=
    congrArg (Except.ok ∘ some) (Subtype.ext (by dsimp only [cfg]))
  obtain ⟨session, session', _, _, _, -, hc2s, -, hruns⟩ := handshake_agrees P kem cfg
    ⟨cfg.serverPublicKey, (bytes 4).1⟩ .bForwardSecrecy client server
    ⟨fun b => (bytes b.size).1, fun b => (bytes b.size).2⟩ hpk hid hpsk
  refine ⟨session, session', hc2s, fun count c hsteps => ?_⟩
  obtain ⟨-, hstep | hfinished⟩ := hruns count c hsteps
  · exact .inl hstep
  · exact .inr ⟨hfinished.left, hfinished.right⟩

end PqcIot
