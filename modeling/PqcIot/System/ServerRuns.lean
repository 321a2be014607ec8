import PqcIot.Server.Exceptions
import PqcIot.Server.Silence
import PqcIot.System.Agreement
import PqcIot.System.Failures

/-!
# Runs of the server

Connections over constant primitives, with what they leave at the socket:

* `exists_connection` — the honest connection of a device for mode B. The server decapsulates twice,
  makes an ephemeral key and destroys it, and opens a record (`handleConnection_ordered_session`);
* `exists_wrongFrame` — a peer that starts with a Data frame;
* `exists_turnedAway` — a ClientHello whose device is not found, or not looked up at all. What all
  of these peers get is in `serveConnection_silent_peers`.
-/

namespace PqcIot

open Effects Protocol

namespace Server

open Firmware (zeroConfig)

variable {β : Type}

/-! ## The accept loop -/

section Loop

variable {P : Prims β} {l : Log β} {r : Except PyExn (Option (Inbound β))}

/-- A turn of the record loop for a record that is opened. -/
theorem run_recordLoop_data {turns : ℕ} {inbound : Inbound β} {record : Payload β maxFrame}
    {plain : List β} {stream : RecordStream β}
    (hopen : inbound.stream.openRecord P record.1 = (.ok plain, stream))
    (hrest : Prog.Run (recordLoop P turns
      ⟨stream, inbound.records + 1, inbound.payloadBytes + plain.length⟩).run l (.ret r)) :
    Prog.Run (recordLoop P (turns + 1) inbound).run
      (⟨.inl (.read maxFrame), .ok (frameData, record)⟩ :: ⟨.inr (.recordOpen record.1), ()⟩ :: l)
      (.ret r) := by
  refine .cons (.cons (q := .ret r) ?_)
  dsimp only
  rw [hopen]
  exact hrest

/-- The turn for Close. -/
theorem run_recordLoop_close (turns : ℕ) (inbound : Inbound β) :
    Prog.Run (recordLoop P (turns + 1) inbound).run
      [⟨.inl (.read maxFrame), .ok (frameClose, ⟨[], Nat.zero_le _⟩)⟩]
      (.ret (.ok (some inbound))) := .cons (.nil _)

/-- The accept loop closes a connection that has ended, and goes on if it catches what it has ended
with. -/
theorem run_serveConnection [DecidableEq β] {key : PrivateKey β} {turns : ℕ}
    (hrun : Prog.Run (handleConnection P key turns).run l (.ret r)) :
    ∃ r', (OkOrCaught r → r' = .ok ()) ∧
      Prog.Run (serveConnection P key turns).run (l ++ [⟨.inr .close, ()⟩]) (.ret r') := by
  cases r with
  | ok inbound =>
    refine ⟨.ok (), fun _ => rfl, run_tryFinally ?_ (run_call (.nil _))⟩
    rw [← List.append_nil l]
    exact hrun.bind (.nil _)
  | error e =>
    cases e with
    | protocolError | osError =>
      refine ⟨.ok (), fun _ => rfl, run_tryFinally ?_ (run_call (.nil _))⟩
      rw [← List.append_nil l]
      exact hrun.bind (.nil _)
    | calledProcessError | structError | valueError | systemExit | attributeError | typeError
    | recursionError =>
      refine ⟨_, ?_, run_tryFinally (l.append_nil ▸ hrun.bind (.nil _)) (run_call (.nil _))⟩
      exact fun hok => (hok _ rfl).elim

end Loop

/-! ## An honest connection -/

section Session

variable (P : Prims β) {kem : Kem β .mlkem768} (cfg : Firmware.Config β) (mode : Firmware.Mode)
  (client : Firmware.Platform kem) (server : Platform kem) (key : PrivateKey β)

/-- The record with number 0 and the given plaintext, under the keys of an honest connection. -/
def firstRecord (plain : List β) : List β :=
  recordBytes P 0 (sealedPair P ((honestValues P cfg mode client server).c2s P)
    (server.token 8).1 0 plain)

/-- Its length: a header, the ciphertext, and the tag. -/
theorem length_firstRecord (plain : List β) :
    (firstRecord P cfg mode client server plain).length = 10 + plain.length + 16 := by
  simp [firstRecord, recordBytes, sealedPair, P.length_ciphertext, P.length_tag, P.length_lits,
    length_beBytes, Nat.add_assoc]

/-- A record of the length that the device sends fits into a frame. -/
theorem length_firstRecord_le {plain : List β} (h : plain.length ≤ 1230) :
    (firstRecord P cfg mode client server plain).length ≤ maxFrame := by
  rw [length_firstRecord, maxFrame]
  omega

/-- The history of a connection that opens this record and ends with Close. -/
def sessionLog (plain : List β) (hlen : plain.length ≤ 1230) : Log β :=
  connectionLog P cfg mode client server ++
    [⟨.inl (.read maxFrame), .ok (frameData, ⟨firstRecord P cfg mode client server plain,
        length_firstRecord_le P cfg mode client server hlen⟩)⟩,
      ⟨.inr (.recordOpen (firstRecord P cfg mode client server plain)), ()⟩,
      ⟨.inl (.read maxFrame), .ok (frameClose, ⟨[], Nat.zero_le _⟩)⟩]

/-- It is the history of a connection, which counts one record. -/
theorem handleConnection_run [DecidableEq β] (hid : cfg.serverKeyId = key.keyId) (plain : List β)
    (hlen : plain.length ≤ 1230)
    (hdecrypt : ∀ key nonce aad p, P.gcmDecrypt key nonce aad
      (P.gcmEncrypt key nonce aad p).1 (P.gcmEncrypt key nonce aad p).2 = some p) :
    ∃ inbound : Inbound β, inbound.records = 1 ∧ inbound.payloadBytes = plain.length ∧
      Prog.Run (handleConnection P key 2).run (sessionLog P cfg mode client server plain hlen)
        (.ret (.ok (some inbound))) := by
  obtain ⟨session, hrun, hsid, -, hc2s⟩ := connection_run P cfg mode client server key hid
  -- The record is sealed under the keys of the session.
  have hrecord : firstRecord P cfg mode client server plain =
      recordBytes P 0 (sealedPair P session.keys.c2s session.sessionId 0 plain) := by
    rw [firstRecord, hc2s, hsid]
  have hopen : (RecordStream.init session.keys.c2s session.sessionId).openRecord P
      (firstRecord P cfg mode client server plain) =
        (.ok plain, ⟨session.keys.c2s, session.sessionId, 0, 0⟩) := by
    rw [hrecord]
    exact (RecordStream.init session.keys.c2s session.sessionId).openRecord_recordBytes P
      (by decide) (by omega) (show (-1 : ℤ) < (0 : ℕ) by decide) (hdecrypt _ _ _ _)
  exact ⟨_, rfl, Nat.zero_add _,
    run_bind hrun (run_recordLoop_data hopen (run_recordLoop_close 0 _))⟩

/-- The hello of the device fits into a frame. -/
theorem length_hello_le : (honestValues P cfg mode client server).hello.length ≤ maxFrame :=
  (length_hello P cfg mode client server).trans_le (by decide)

/-- The history of a connection whose device the lookup does not find. -/
def turnedAwayLog (lookup : HostOp.Ans (.pskFor cfg.deviceId)) : Log β :=
  [⟨.inl (.read maxFrame), .ok (frameClientHello,
      ⟨(honestValues P cfg mode client server).hello, length_hello_le P cfg mode client server⟩)⟩,
    ⟨.inr (.pskFor cfg.deviceId), lookup⟩]

/-- It is one, whether the table has no entry or cannot be read. -/
theorem turnedAway_run [DecidableEq β] (hid : cfg.serverKeyId = key.keyId)
    {lookup : HostOp.Ans (.pskFor cfg.deviceId)} (hlookup : ∀ psk, lookup ≠ .ok (some psk)) :
    ∃ r, Prog.Run (handleConnection P key 1).run (turnedAwayLog P cfg mode client server lookup)
      (.ret r) := by
  have hkeyId : ¬ (!compareDigest (honestHello P cfg mode client server).serverKeyId
      key.keyId) = true := by
    simp [compareDigest, honestHello, hid]
  have haccept : ∃ e, Prog.Run (acceptHello P key).run
      (turnedAwayLog P cfg mode client server lookup) (.ret (.error e)) := by
    rcases lookup with e | _ | psk
    · refine ⟨e.1.toPyExn, run_recvFrame ?_⟩
      dsimp only
      rw [if_neg (not_not.mpr rfl), parse_hello, Py.ofExcept_ok_bind, if_neg hkeyId]
      exact run_call (.nil _)
    · refine ⟨.protocolError s!"unknown device {hex (P.vals cfg.deviceId)}", run_recvFrame ?_⟩
      dsimp only
      rw [if_neg (not_not.mpr rfl), parse_hello, Py.ofExcept_ok_bind, if_neg hkeyId]
      exact run_call (.nil _)
    · exact absurd rfl (hlookup psk)
  obtain ⟨e, hrun⟩ := haccept
  exact ⟨_, run_bind_error (run_bind_error hrun)⟩

end Session

/-! ## Over sockets -/

section Sockets

/-- The server's key that the device has pinned. -/
def zeroKey : PrivateKey UInt8 := ⟨zeroConfig.serverPublicKey, zeroConfig.serverKeyId⟩

/-- An honest connection for mode B with one record. -/
def zeroSessionLog : Log UInt8 :=
  sessionLog plainPrims zeroConfig .bForwardSecrecy (zeroClient plainPrims zeroConfig)
    (zeroServer plainPrims zeroConfig) [0x7b, 0x7d] (by decide)

/-- What it asks of its surroundings. -/
theorem internalEvents_zeroSessionLog :
    let client := zeroClient plainPrims zeroConfig
    let server := zeroServer plainPrims zeroConfig
    let values := honestValues plainPrims zeroConfig .bForwardSecrecy client server
    internalEvents zeroSessionLog =
      [⟨.pskFor zeroConfig.deviceId,
          .ok (some ⟨zeroConfig.devicePsk, zeroConfig.length_devicePsk⟩)⟩,
        ⟨.staticDecap (staticEnc plainPrims zeroConfig client).ct,
          some ⟨0, some (staticEnc plainPrims zeroConfig client).ss⟩⟩,
        ⟨.tokenBytes nonceLen, server.token nonceLen⟩,
        ⟨.tokenBytes sessionIdLen, server.token sessionIdLen⟩, ⟨.mkdtemp, some ()⟩,
        ⟨.genpkey .mlkem768, some ⟨0, []⟩⟩, ⟨.chmod, some ()⟩,
        ⟨.pubout, some ⟨0, server.derHeader.1 ++ zeroConfig.serverPublicKey⟩⟩,
        ⟨.ephDecap values.ctEph, some ⟨0, some values.ssEph⟩⟩, ⟨.ephExists, true⟩,
        ⟨.ephSize, some 0⟩, ⟨.ephOverwrite 0, some ()⟩, ⟨.ephCleanup, some ()⟩,
        ⟨.recordOpen (firstRecord plainPrims zeroConfig .bForwardSecrecy client server
          [0x7b, 0x7d]), ()⟩] := rfl

theorem zeroSessionLog_delivers : ∀ e ∈ zeroSessionLog, Delivers maxFrame e := by
  obtain ⟨n, hscript⟩ := connection_scripted plainPrims zeroConfig .bForwardSecrecy
    (zeroClient plainPrims zeroConfig) (zeroServer plainPrims zeroConfig) rfl rfl
  refine List.forall_mem_append.mpr ⟨hscript.delivers, ?_⟩
  rintro e (_ | ⟨_, _ | ⟨_, _ | ⟨_, hmem⟩⟩⟩)
  · exact length_firstRecord_le _ _ _ _ _ (by decide)
  · trivial
  · exact Nat.zero_le _
  · cases hmem

/-- The connection over a socket, by itself and from the accept loop. -/
theorem exists_connection :
    (∃ tr inbound, inbound.records = 1 ∧ FrameView plainPrims maxFrame zeroSessionLog tr ∧
      Prog.Run (overSockets plainPrims (handleConnection plainPrims zeroKey 2)) tr
        (.ret (.ok (some inbound)))) ∧
    ∃ tr, FrameView plainPrims maxFrame (zeroSessionLog ++ [⟨.inr .close, ()⟩]) tr ∧
      Prog.Run (overSockets plainPrims (serveConnection plainPrims zeroKey 2)) tr
        (.ret (.ok ())) := by
  obtain ⟨inbound, hrecords, -, hlog⟩ := handleConnection_run plainPrims zeroConfig
    .bForwardSecrecy (zeroClient plainPrims zeroConfig) (zeroServer plainPrims zeroConfig) zeroKey
    rfl [0x7b, 0x7d] (by decide) fun _ _ _ _ => rfl
  obtain ⟨r', hr', hserve⟩ := run_serveConnection hlog
  obtain rfl := hr' (okOrCaught_ok _)
  constructor
  · obtain ⟨tr, hrun, hview⟩ := (frameFollows plainPrims).exists_view (frameLaws plainPrims) hlog
      zeroSessionLog_delivers
    exact ⟨tr, inbound, hrecords, hview, hrun⟩
  · obtain ⟨tr, hrun, hview⟩ := (frameFollows plainPrims).exists_view (frameLaws plainPrims)
      hserve (List.forall_mem_append.mpr ⟨zeroSessionLog_delivers, by simp [Delivers]⟩)
    exact ⟨tr, hview, hrun⟩

/-- A ClientHello whose device is not found. -/
theorem exists_turnedAway (lookup : HostOp.Ans (.pskFor zeroConfig.deviceId))
    (hlookup : ∀ psk, lookup ≠ .ok (some psk)) :
    ∃ tr r, Prog.Run (overSockets plainPrims (serveConnection plainPrims zeroKey 1)) tr (.ret r) ∧
      internalEvents tr = [⟨.pskFor zeroConfig.deviceId, lookup⟩, ⟨.close, ()⟩] := by
  obtain ⟨r, hlog⟩ := turnedAway_run plainPrims zeroConfig .a (zeroClient plainPrims zeroConfig)
    (zeroServer plainPrims zeroConfig) zeroKey rfl hlookup
  obtain ⟨r', -, hserve⟩ := run_serveConnection hlog
  obtain ⟨tr, hrun, hview⟩ := (frameFollows plainPrims).exists_view (frameLaws plainPrims) hserve
    (by
      rintro e (_ | ⟨_, _ | ⟨_, _ | ⟨_, hmem⟩⟩⟩)
      · exact (length_hello _ _ _ _ (zeroServer plainPrims zeroConfig)).trans_le (by decide)
      · trivial
      · trivial
      · cases hmem)
  exact ⟨tr, r', hrun, hview.internalEvents_eq⟩

/-- A peer that starts with an empty Data frame. -/
theorem exists_wrongFrame :
    ∃ tr, Prog.Run (overSockets plainPrims (serveConnection plainPrims zeroKey 1)) tr
        (.ret (.ok ())) ∧
      Framed plainPrims frameData [] (receivedBytes tr) ∧ internalEvents tr = [⟨.close, ()⟩] := by
  have hlog : Prog.Run (serveConnection plainPrims zeroKey 1).run
      [⟨.inl (.read maxFrame), .ok (frameData, ⟨[], Nat.zero_le _⟩)⟩, ⟨.inr .close, ()⟩]
      (.ret (.ok ())) := .cons (.cons (.nil _))
  obtain ⟨tr, hrun, hview⟩ := (frameFollows plainPrims).exists_view (frameLaws plainPrims) hlog
    (by
      rintro e (_ | ⟨_, _ | ⟨_, hmem⟩⟩)
      · exact Nat.zero_le _
      · trivial
      · cases hmem)
  refine ⟨tr, hrun, ?_, hview.internalEvents_eq⟩
  -- All that is received is the frame.
  cases hview with
  | cons hmoves hclose =>
    have hclosed := (bytes_internals [⟨.close, ()⟩] hclose).2
    cases hmoves with
    | read _ _ hframed => rwa [receivedBytes_append, hclosed, List.append_nil]

/-! ## Order -/

/-- The honest connection decapsulates, generates its ephemeral key, decapsulates with that, and
opens a record, each at its place. -/
theorem handleConnection_ordered_session :
    ∃ tr inbound, Prog.Run (overSockets plainPrims (handleConnection plainPrims zeroKey 2)) tr
        (.ret (.ok (some inbound))) ∧ inbound.records = 1 ∧
      (∃ (t₁ : SockLog UInt8) (ct : List UInt8) (a : Option (Decapsulation UInt8))
          (t₂ : SockLog UInt8), tr = t₁ ++ ⟨.inr (.staticDecap ct), a⟩ :: t₂ ∧
        ∃ hello psk, Checked plainPrims zeroKey t₁ hello psk ∧ ct = hello.kemCt) ∧
      (∃ (t₁ : SockLog UInt8) (a : Option (Completed UInt8)) (t₂ : SockLog UInt8),
        tr = t₁ ++ ⟨.inr (.genpkey .mlkem768), a⟩ :: t₂ ∧
        ∃ hello psk ssStatic, Unsealed plainPrims zeroKey t₁ hello psk ssStatic) ∧
      (∃ (t₁ : SockLog UInt8) (ct : List UInt8) (a : Option (Decapsulation UInt8))
          (t₂ : SockLog UInt8), tr = t₁ ++ ⟨.inr (.ephDecap ct), a⟩ :: t₂ ∧
        ∃ c ekEph clientMac, Finished plainPrims zeroKey t₁ c ekEph ct clientMac) ∧
      ∃ (t₁ : SockLog UInt8) (payload : List UInt8) (t₂ : SockLog UInt8),
        tr = t₁ ++ ⟨.inr (.recordOpen payload), ()⟩ :: t₂ ∧
        ∃ t u c ekEph ctEph ssEph, t₁ = t ++ u ∧
          Confirmed plainPrims zeroKey t c ekEph ctEph ssEph := by
  obtain ⟨tr, inbound, hrecords, hview, hrun⟩ := exists_connection.1
  obtain ⟨hstatic, hgenpkey, heph, hopen⟩ :=
    handleConnection_ordered plainPrims zeroKey 2 tr _ hrun
  -- Each internal call of the session stands somewhere in the run.
  have hcalled : ∀ e ∈ internalEvents zeroSessionLog,
      ∃ t₁ t₂, tr = t₁ ++ ⟨.inr e.1, e.2⟩ :: t₂ := by
    intro e he
    rw [← hview.internalEvents_eq, mem_internalEvents] at he
    exact List.append_of_mem he
  simp only [internalEvents_zeroSessionLog, List.forall_mem_cons] at hcalled
  obtain ⟨-, ⟨s₁, s₂, hs⟩, -, -, -, ⟨g₁, g₂, hg⟩, -, -, ⟨d₁, d₂, hd⟩, -, -, -, -,
    ⟨o₁, o₂, ho⟩, -⟩ :=
    hcalled
  refine ⟨tr, inbound, hrun, hrecords, ⟨s₁, _, _, s₂, hs, (hstatic s₁ _ _ s₂ hs).1⟩, ?_, ?_, ?_⟩
  · obtain ⟨⟨hello, psk, ssStatic, hunsealed, -⟩, -⟩ := hgenpkey g₁ _ _ g₂ hg
    exact ⟨g₁, _, g₂, hg, hello, psk, ssStatic, hunsealed⟩
  · obtain ⟨⟨c, ekEph, clientMac, -, hfinished, -⟩, -⟩ := heph d₁ _ _ d₂ hd
    exact ⟨d₁, _, _, d₂, hd, c, ekEph, clientMac, hfinished⟩
  · obtain ⟨t, u, seg, c, ekEph, ctEph, ssEph, hsplit, hconfirmed, -⟩ := hopen o₁ _ _ o₂ ho
    refine ⟨o₁, _, o₂, ho, t, u ++ seg, c, ekEph, ctEph, ssEph, ?_, hconfirmed⟩
    rw [hsplit, List.append_assoc]

/-! ## Silence -/

/-- A connection that has decapsulated nothing is rejected. -/
theorem rejected_of_not_decapsulated {β : Type} {P : Prims β} {key : PrivateKey β} {tr : SockLog β}
    (h : ∀ ct a, ⟨.staticDecap ct, a⟩ ∉ internalEvents tr) : Rejected P key tr := by
  rintro c ekEph ⟨⟨t, result, u, rfl, -⟩, -⟩
  refine h c.hello.kemCt (some result) ?_
  rw [mem_internalEvents]
  exact List.mem_append_right _ List.mem_cons_self

/-- The honest device gets one ServerHello for mode B. A peer that starts with another frame, a
device that is not in the table, and one whose lookup finds the table readable by others get
nothing. -/
theorem serveConnection_silent_peers :
    (∃ tr, Prog.Run (overSockets plainPrims (serveConnection plainPrims zeroKey 2)) tr
        (.ret (.ok ())) ∧ (sentBytes tr).length = 3 + serverHelloLen .mlkem768Fs ∧
      Answered plainPrims zeroKey tr True) ∧
    ∃ tr₁ tr₂ tr₃ r₂ r₃,
      Prog.Run (overSockets plainPrims (serveConnection plainPrims zeroKey 1)) tr₁ (.ret (.ok ())) ∧
      Framed plainPrims frameData [] (receivedBytes tr₁) ∧
      Prog.Run (overSockets plainPrims (serveConnection plainPrims zeroKey 1)) tr₂ (.ret r₂) ∧
      ⟨.pskFor zeroConfig.deviceId, .ok none⟩ ∈ internalEvents tr₂ ∧
      Prog.Run (overSockets plainPrims (serveConnection plainPrims zeroKey 1)) tr₃ (.ret r₃) ∧
      ⟨.pskFor zeroConfig.deviceId, .error ⟨.systemExit "device table devices.json has mode 644",
        id⟩⟩ ∈ internalEvents tr₃ ∧
      sentBytes tr₁ = [] ∧ sentBytes tr₂ = [] ∧ sentBytes tr₃ = [] := by
  obtain ⟨-, hanswered, hsilent⟩ := serveConnection_silent plainPrims
  constructor
  · -- A whole session: its ephemeral key is of the suite's level.
    obtain ⟨tr, hview, hrun⟩ := exists_connection.2
    have hevents : internalEvents tr = internalEvents zeroSessionLog ++ [⟨.close, ()⟩] := by
      rw [hview.internalEvents_eq, internalEvents_append]
      rfl
    have hlevel : GeneratesLevel tr := by
      intro level gen der hgen hder hrc
      rw [← mem_internalEvents, hevents, internalEvents_zeroSessionLog] at hgen hder
      obtain rfl : level = .mlkem768 := by
        simp at hgen
        exact hgen.1
      obtain rfl : der = ⟨0, (zeroServer plainPrims zeroConfig).derHeader.1 ++
          zeroConfig.serverPublicKey⟩ := by simpa using hder
      rw [List.length_append, zeroConfig.length_serverPublicKey,
        (zeroServer plainPrims zeroConfig).derHeader.2]
      rfl
    have hsent : sentBytes tr = frameBytes plainPrims frameServerHello
        ((honestValues plainPrims zeroConfig .bForwardSecrecy (zeroClient plainPrims zeroConfig)
          (zeroServer plainPrims zeroConfig)).serverHello plainPrims) := by
      refine (hview.sentBytes_eq_flatMap ?_).trans (List.append_nil _)
      exact List.forall_mem_append.mpr ⟨zeroSessionLog_delivers, by simp [Delivers]⟩
    refine ⟨tr, hrun, ?_, ?_⟩
    · rw [hsent, length_frameBytes, length_serverHello]
      rfl
    · rcases hanswered _ _ _ _ hrun hlevel with hnil | ⟨c, ekEph, hanswerable, hlen, hpre, hall⟩
      · exact .inl hnil
      · exact .inr ⟨c, ekEph, hanswerable, hlen, hpre, fun _ => hall ⟨_, rfl⟩⟩
  · -- Three reasons to be rejected: the frame type, the device, and the table's mode.
    obtain ⟨tr₁, hrun₁, hframed, hevents₁⟩ := exists_wrongFrame
    obtain ⟨tr₂, r₂, hrun₂, hevents₂⟩ := exists_turnedAway (.ok none) nofun
    obtain ⟨tr₃, r₃, hrun₃, hevents₃⟩ := exists_turnedAway
      (.error ⟨.systemExit "device table devices.json has mode 644", id⟩) nofun
    have hrejected₁ : Rejected plainPrims zeroKey tr₁ :=
      rejected_of_not_decapsulated (by simp [hevents₁])
    have hrejected₂ : Rejected plainPrims zeroKey tr₂ :=
      rejected_of_not_decapsulated (by simp [hevents₂])
    have hrejected₃ : Rejected plainPrims zeroKey tr₃ :=
      rejected_of_not_decapsulated (by simp [hevents₃])
    obtain ⟨hsent₁, hsent₂⟩ := hsilent _ _ _ _ _ _ _ _ hrun₁ hrejected₁ hrun₂ hrejected₂
    obtain ⟨-, hsent₃⟩ := hsilent _ _ _ _ _ _ _ _ hrun₂ hrejected₂ hrun₃ hrejected₃
    exact ⟨tr₁, tr₂, tr₃, r₂, r₃, hrun₁, hframed, hrun₂, by simp [hevents₂], hrun₃,
      by simp [hevents₃], hsent₁, hsent₂, hsent₃⟩

end Sockets

end Server

end PqcIot
