import PqcIot.Crypto.Constant
import PqcIot.Firmware.Trace

/-!
# ClientHello on both sides

The server parses exactly the payloads of the grammar, into fields that join to the payload again,
and what is built is parsed back. The firmware assembles the same bytes in its buffer, for each
nonce and each successful encapsulation (`clientHello_both_sides`).
-/

namespace PqcIot

open Effects Protocol

section Hello

variable {β : Type}

/-- In whatever memory the firmware starts its handshake, a ClientHello that it writes is the one
that `build` makes of the device's configuration, the nonce it has drawn and the ciphertext it has
got. -/
theorem Firmware.handshake_hello (P : Prims β) (cfg : Firmware.Config β) (mode : Firmware.Mode)
    {m : Firmware.Memory β} {payload : List β} {answer : Except Unit Unit}
    {l₁ l₂ : List (Event (Firmware.visible β))}
    {q : Prog (Firmware.visible β) (Option (Firmware.Session β) × Firmware.Memory β)}
    (hrun : Prog.Run (Firmware.exec P (Firmware.handshake P cfg mode.suite) m)
      (l₁ ++ ⟨.inl (.write Protocol.frameClientHello payload), answer⟩ :: l₂) q) :
    ∃ nonce enc, Firmware.Drawn cfg l₁ nonce enc ∧
      payload = ClientHello.build P mode.spec cfg.deviceId cfg.serverKeyId nonce.1 enc.ct
        cfg.devicePsk := by
  have hclient := hrun.bind_left fun r => .ret r.1
  rw [← Prog.map_eq_bind, Firmware.handshake_refines] at hclient
  have hallowed := Firmware.clientHandshake_allowed.op_of_run hclient
  rcases hallowed with ⟨-, nonce, enc, hdrawn, hpayload⟩ | ⟨hfinished, -⟩
  · exact ⟨nonce, enc, hdrawn, hpayload⟩
  · exact absurd hfinished (by decide)

/-- Whatever the nonce and the successful encapsulation, there is a run that writes their
ClientHello. -/
theorem Firmware.exists_run_hello (P : Prims β) (cfg : Firmware.Config β) (mode : Firmware.Mode)
    (m : Firmware.Memory β) (nonce : { l : List β // l.length = 32 })
    {enc : Firmware.Encapsulation β}
    (hrc : enc.rc = 0) :
    ∃ l₁ l₂ q, Firmware.Drawn cfg l₁ nonce enc ∧
      Prog.Run (Firmware.exec P (Firmware.handshake P cfg mode.suite) m)
        (l₁ ++ ⟨.inl (.write Protocol.frameClientHello (ClientHello.build P mode.spec cfg.deviceId
          cfg.serverKeyId nonce.1 enc.ct cfg.devicePsk)), .ok ()⟩ :: l₂) q := by
  -- No ServerHello comes.
  have hclient : Prog.Run (Firmware.clientHandshake P cfg mode)
      [⟨.inr (.espFillRandom 32), nonce⟩, ⟨.inr (.mlkem768Enc cfg.serverPublicKey), enc⟩,
        ⟨.inl (.write Firmware.frameClientHello (Firmware.helloPayload P cfg mode nonce.1 enc.ct)),
          .ok ()⟩, ⟨.inl (.read 1256), .error ⟨[], Nat.zero_le _⟩⟩] (.ret none) := by
    refine .cons (.cons ?_)
    rw [if_neg (not_not.mpr hrc)]
    exact .cons (.cons (.nil _))
  rw [← Firmware.handshake_refines P cfg mode m] at hclient
  obtain ⟨r, hrun, -⟩ := Prog.run_of_map hclient
  exact ⟨[_, _], [_], _, ⟨hrc, rfl⟩, hrun⟩

/-- Both sides agree on what a ClientHello is. -/
theorem clientHello_both_sides (P : Prims β) :
    (∀ payload, (∃ hello, ClientHello.parse P payload = .ok hello) ↔
      ∃ suite, ClientHello.WellFormed P payload suite) ∧
    (∀ payload hello, ClientHello.parse P payload = .ok hello →
      (∃ v s, P.val v = hello.version ∧ P.val s = hello.suite.code ∧
        [v, s] ++ hello.deviceId ++ hello.serverKeyId ++ hello.clientNonce ++ hello.kemCt ++
          hello.pskMac = payload) ∧
      hello.signedPart ++ hello.pskMac = payload) ∧
    (∀ payload e, ClientHello.parse P payload = .error e →
      ∃ message, e = .protocolError message) ∧
    (∀ (suite : Suite) (deviceId keyId nonce kemCt psk : List β), deviceId.length = 8 →
      keyId.length = 4 → nonce.length = 32 → kemCt.length = suite.params.ct →
      ∃ hello, ClientHello.parse P (ClientHello.build P suite deviceId keyId nonce kemCt psk) =
          .ok hello ∧
        hello.version = Protocol.version ∧ hello.suite = suite ∧ hello.deviceId = deviceId ∧
        hello.serverKeyId = keyId ∧ hello.clientNonce = nonce ∧ hello.kemCt = kemCt ∧
        hello.pskMac = helloMac P psk hello.signedPart) ∧
    (∀ (cfg : Firmware.Config β) (mode : Firmware.Mode) (m : Firmware.Memory β) (payload : List β)
      (answer : Except Unit Unit) (l₁ l₂ : List (Event (Firmware.visible β)))
      (q : Prog (Firmware.visible β) (Option (Firmware.Session β) × Firmware.Memory β)),
      Prog.Run (Firmware.exec P (Firmware.handshake P cfg mode.suite) m)
        (l₁ ++ ⟨.inl (.write Protocol.frameClientHello payload), answer⟩ :: l₂) q →
      ∃ nonce enc, Firmware.Drawn cfg l₁ nonce enc ∧
        payload = ClientHello.build P mode.spec cfg.deviceId cfg.serverKeyId nonce.1 enc.ct
          cfg.devicePsk) ∧
    ∀ (cfg : Firmware.Config β) (mode : Firmware.Mode) (m : Firmware.Memory β)
      (nonce : { l : List β // l.length = 32 }) (enc : Firmware.Encapsulation β), enc.rc = 0 →
      ∃ l₁ l₂ q, Firmware.Drawn cfg l₁ nonce enc ∧
        Prog.Run (Firmware.exec P (Firmware.handshake P cfg mode.suite) m)
          (l₁ ++ ⟨.inl (.write Protocol.frameClientHello (ClientHello.build P mode.spec cfg.deviceId
            cfg.serverKeyId nonce.1 enc.ct cfg.devicePsk)), .ok ()⟩ :: l₂) q := by
  refine ⟨fun payload => ⟨?_, ?_⟩, fun payload hello h => ?_, fun payload e he => ?_, ?_, ?_, ?_⟩
  · -- The server accepts exactly what is well formed.
    rintro ⟨hello, h⟩
    exact ⟨hello.suite, (ClientHello.parse_ok P h).wellFormed⟩
  · rintro ⟨suite, h⟩
    exact h.exists_parse
  · -- Nothing of the payload is lost.
    have hparsed := ClientHello.parse_ok P h
    exact ⟨hparsed.append_eq, hparsed.signedPart_append⟩
  · exact ClientHello.parse_error P he
  · intro suite deviceId keyId nonce kemCt psk hd hk hn hc
    exact ClientHello.parse_build P psk hd hk hn hc
  · -- What the firmware sends is what `build` makes, for each nonce and encapsulation.
    intro cfg mode m payload answer l₁ l₂ q hrun
    exact Firmware.handshake_hello P cfg mode hrun
  · intro cfg mode m nonce enc hrc
    exact Firmware.exists_run_hello P cfg mode m nonce hrc

/-- A ClientHello of a suite that only the server knows, built and parsed, and one that the firmware
writes for mode B, read by the server. -/
theorem clientHello_both_sides_build :
    (∃ hello, ClientHello.parse zeroPrims (ClientHello.build zeroPrims .mlkem512Fs
        (List.replicate 8 1) (List.replicate 4 2) (List.replicate 32 3) (List.replicate 768 4)
        (List.replicate 32 5)) = .ok hello ∧ hello.suite = .mlkem512Fs) ∧
    ∃ (m : Firmware.Memory UInt8) (l₁ l₂ : List (Event (Firmware.visible UInt8)))
      (payload : List UInt8)
      (q : Prog (Firmware.visible UInt8) (Option (Firmware.Session UInt8) × Firmware.Memory UInt8))
      (hello : ClientHello UInt8),
      Prog.Run (Firmware.exec zeroPrims
          (Firmware.handshake zeroPrims Firmware.zeroConfig Firmware.Mode.bForwardSecrecy.suite) m)
        (l₁ ++ ⟨.inl (.write Protocol.frameClientHello payload), .ok ()⟩ :: l₂) q ∧
      ClientHello.parse zeroPrims payload = .ok hello ∧ hello.suite = .mlkem768Fs ∧
      hello.clientNonce = List.replicate 32 3 := by
  obtain ⟨-, -, -, hbuild, -, hwrites⟩ := clientHello_both_sides zeroPrims
  constructor
  · obtain ⟨hello, hparse, -, hsuite, -⟩ := hbuild .mlkem512Fs (List.replicate 8 1)
      (List.replicate 4 2) (List.replicate 32 3) (List.replicate 768 4) (List.replicate 32 5)
      List.length_replicate List.length_replicate List.length_replicate List.length_replicate
    exact ⟨hello, hparse, hsuite⟩
  · let m : Firmware.Memory UInt8 :=
      ⟨fun b => List.replicate b.size 0, fun b => List.length_replicate⟩
    let enc : Firmware.Encapsulation UInt8 :=
      ⟨0, List.replicate 1088 4, List.replicate 32 5, List.length_replicate, List.length_replicate⟩
    -- The firmware writes this hello, which the parser then reads.
    obtain ⟨l₁, l₂, q, -, hrun⟩ := hwrites Firmware.zeroConfig .bForwardSecrecy m
      ⟨List.replicate 32 3, List.length_replicate⟩ enc rfl
    obtain ⟨hello, hparse, -, hsuite, -, -, hnonce, -⟩ := hbuild .mlkem768Fs
      Firmware.zeroConfig.deviceId Firmware.zeroConfig.serverKeyId (List.replicate 32 3) enc.ct
      Firmware.zeroConfig.devicePsk Firmware.zeroConfig.length_deviceId
      Firmware.zeroConfig.length_serverKeyId List.length_replicate List.length_replicate
    exact ⟨m, l₁, l₂, _, q, hello, hrun, hparse, hsuite, hnonce⟩

end Hello

end PqcIot
