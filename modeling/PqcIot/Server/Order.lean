import PqcIot.Crypto.Ideal
import PqcIot.Server.Trace

/-!
# Order of work on the server

What `handle_connection` has received, sent and asked for by the time it does expensive or sensitive
work, for every stream of bytes a peer may send: the static decapsulation comes after every check of
the ClientHello (`Checked`), the ephemeral key after that decapsulation (`Unsealed`), the ephemeral
decapsulation after a ClientFinished of the right length (`Finished`), and records are opened once
the client's MAC has been verified (`Confirmed`).
-/

namespace PqcIot

open Effects Protocol

namespace Server

variable {β : Type}

/-- What has happened at the connection. -/
abbrev SockLog (β : Type) : Type := List (Event ((sockSig β).sum (host β)))

/-- The code over socket calls. -/
abbrev overSockets {α : Type} (P : Prims β) (c : Py β α) :
    Prog ((sockSig β).sum (host β)) (Except PyExn α) :=
  Prog.interp (overInternal (framing P)) c.run

section Order

variable (P : Prims β) (key : PrivateKey β)

/-- One ClientHello frame has been received, of the length of its suite, which names the server's
key and a registered device and carries the MAC under that device's PSK over everything before
it. -/
structure Checked (tr : SockLog β) (hello : ClientHello β)
    (psk : { l : List β // l.length = pskLen }) : Prop where
  received : Framed P frameClientHello hello.raw (receivedBytes tr)
  parsed : ClientHello.Parsed P hello.raw hello
  keyId : hello.serverKeyId = key.keyId
  registered : internalEvents tr = [⟨.pskFor hello.deviceId, .ok (some psk)⟩]
  mac : hello.pskMac = helloMac P psk.1 (hello.raw.take (hello.raw.length - macLen))
  silent : sentBytes tr = []

/-- After these checks the static ciphertext has been decapsulated. -/
def Unsealed (tr : SockLog β) (hello : ClientHello β)
    (psk : { l : List β // l.length = pskLen }) (ssStatic : List β) : Prop :=
  ∃ t result u, tr = t ++ ⟨.inr (.staticDecap hello.kemCt), some result⟩ :: u ∧
    Checked P key t hello psk ∧ result.returncode = 0 ∧ result.secret = some ssStatic ∧
    ssStatic.length = 32

/-- After ServerHello, a ClientFinished frame of the length of the suite has been received. -/
structure Finished (tr : SockLog β) (c : Accepted β) (ekEph ctEph clientMac : List β) : Prop where
  unsealed : Unsealed P key tr c.hello c.psk c.ssStatic
  drawn : [⟨.tokenBytes nonceLen, c.serverNonce⟩, ⟨.tokenBytes sessionIdLen, c.sessionId⟩] <:+:
    internalEvents tr
  sent : sentBytes tr = frameBytes P frameServerHello ((c.values ekEph [] []).serverHello P)
  received : ∃ hello finished, receivedBytes tr = hello ++ finished ∧
    Framed P frameClientHello c.hello.raw hello ∧
    Framed P frameClientFinished (ctEph ++ clientMac) finished
  length_ctEph : ctEph.length = if c.fs then c.hello.suite.params.ct else 0
  length_clientMac : clientMac.length = macLen

/-- The MAC it carries is the one over this connection's own transcript; for a suite with forward
secrecy, under the secret that the ephemeral decapsulation gave. -/
structure Confirmed (tr : SockLog β) (c : Accepted β) (ekEph ctEph ssEph : List β) : Prop where
  finished : Finished P key tr c ekEph ctEph ((c.values ekEph ctEph ssEph).clientMac P)
  noSecret : c.fs = false → ssEph = []
  secret : c.fs = true → ∃ result, ⟨.inr (.ephDecap ctEph), some result⟩ ∈ tr ∧
    result.returncode = 0 ∧ result.secret = some ssEph

variable {P key}

/-- What has been decapsulated stays so. -/
theorem Unsealed.append {tr : SockLog β} {hello : ClientHello β}
    {psk : { l : List β // l.length = pskLen }} {ssStatic : List β}
    (h : Unsealed P key tr hello psk ssStatic) (tail : SockLog β) :
    Unsealed P key (tr ++ tail) hello psk ssStatic := by
  obtain ⟨t, result, u, rfl, hrest⟩ := h
  exact ⟨t, result, u ++ tail, by simp, hrest⟩

/-! ## The internal events of a stage -/

section Stages

variable {l : Log β} {tr : SockLog β}

/-- Until the MAC is checked, the only internal call is the lookup. -/
theorem HelloChecked.internalEvents_eq {hello : ClientHello β}
    {psk : { l : List β // l.length = pskLen }} (h : HelloChecked P key l hello psk) :
    internalEvents l = [⟨.pskFor hello.deviceId, .ok (some psk)⟩] := by
  obtain ⟨⟨l₀, ⟨⟨raw, -, rfl⟩, -⟩, rfl⟩, -⟩ := h
  rfl

/-- Until the session has its name, there are the decapsulation and the two draws after it. -/
theorem Named.internalEvents_eq {c : Accepted β} (h : Named P key l c) :
    ∃ result, internalEvents l = [⟨.pskFor c.hello.deviceId, .ok (some c.psk)⟩,
      ⟨.staticDecap c.hello.kemCt, some result⟩, ⟨.tokenBytes nonceLen, c.serverNonce⟩,
      ⟨.tokenBytes sessionIdLen, c.sessionId⟩] := by
  obtain ⟨l₀, ⟨l₁, result, hchecked, -, -, -, rfl⟩, rfl⟩ := h
  exact ⟨result, by rw [internalEvents_append, internalEvents_append,
    hchecked.internalEvents_eq]; rfl⟩

/-- Until ServerHello is read, nothing has been decapsulated with the ephemeral key. -/
theorem Keyed.ne_ephDecap {c : Accepted β} {ekEph : List β} (h : Keyed P key l c ekEph)
    (ct : List β) : ∀ e ∈ internalEvents l, e.1 ≠ .ephDecap ct := by
  rcases h with ⟨-, -, hnamed⟩ | ⟨-, l₀, gen, der, hnamed, -, -, -, rfl⟩
  · -- A suite with one KEM has no ephemeral key.
    obtain ⟨result, hevents⟩ := hnamed.internalEvents_eq
    rw [hevents]
    simp
  · obtain ⟨result, hevents⟩ := hnamed.internalEvents_eq
    rw [internalEvents_append, hevents, List.forall_mem_append]
    exact ⟨by simp, by simp [internalEvents, Event.internal?]⟩

/-! ## The stages at the socket -/

/-- Over the connection: a ClientHello has been received, and its MAC fits. -/
theorem helloChecked_view {hello : ClientHello β} {psk : { l : List β // l.length = pskLen }}
    (h : HelloChecked P key l hello psk) (hv : FrameView P maxFrame l tr) :
    Checked P key tr hello psk := by
  have hevents := hv.internalEvents_eq.trans h.internalEvents_eq
  obtain ⟨⟨l₀, ⟨⟨raw, hparse, rfl⟩, hkey⟩, rfl⟩, hmac⟩ := h
  have hparsed := ClientHello.parse_ok P hparse
  -- The events are one read and one look at the table.
  obtain ⟨t, rfl, ht⟩ := hv.concat_internal
  cases ht with
  | cons hm ht =>
    cases ht
    cases hm with
    | read hsent hint hframed =>
      rw [← hparsed.raw] at hframed hparsed
      refine ⟨?_, hparsed, hkey, hevents, hmac.symm, ?_⟩
      · rwa [receivedBytes_concat_inr, List.append_nil]
      · rwa [sentBytes_concat_inr, List.append_nil]

/-- Then the static decapsulation has given a secret. -/
theorem decapsulated_view {hello : ClientHello β} {psk : { l : List β // l.length = pskLen }}
    {ssStatic : List β} (h : Decapsulated P key l hello psk ssStatic)
    (hv : FrameView P maxFrame l tr) :
    Unsealed P key tr hello psk ssStatic ∧ sentBytes tr = [] ∧
      Framed P frameClientHello hello.raw (receivedBytes tr) := by
  obtain ⟨l₀, result, hchecked, hrc, hsecret, hlen, rfl⟩ := h
  obtain ⟨t, rfl, ht⟩ := hv.concat_internal
  have hc := helloChecked_view hchecked ht
  refine ⟨⟨t, result, [], rfl, hc, hrc, hsecret, hlen⟩, ?_, ?_⟩
  · rw [sentBytes_concat_inr, hc.silent]
  · rw [receivedBytes_concat_inr]
    exact hc.received

/-- Internal calls move no bytes. -/
theorem bytes_internals (events : List (Event (host β)))
    (hv : FrameView P maxFrame (events.map fun e => ⟨.inr e.1, e.2⟩ : Log β) tr) :
    sentBytes tr = [] ∧ receivedBytes tr = [] := by
  induction events generalizing tr with
  | nil =>
    cases hv
    exact ⟨rfl, rfl⟩
  | cons e events ih =>
    cases hv with
    | cons hm hv =>
      cases hm with
      | internal =>
        have hbytes := ih hv
        exact hbytes

/-- Then the nonce and the session identifier have been drawn. -/
theorem named_view {c : Accepted β} (h : Named P key l c) (hv : FrameView P maxFrame l tr) :
    Unsealed P key tr c.hello c.psk c.ssStatic ∧ sentBytes tr = [] ∧
      Framed P frameClientHello c.hello.raw (receivedBytes tr) := by
  obtain ⟨l₀, hdec, rfl⟩ := h
  obtain ⟨t, u, rfl, ht, hu⟩ := hv.append_inv
  obtain ⟨hunsealed, hsent, hrecv⟩ := decapsulated_view hdec ht
  obtain ⟨hsent', hrecv'⟩ := bytes_internals
    [⟨.tokenBytes nonceLen, c.serverNonce⟩, ⟨.tokenBytes sessionIdLen, c.sessionId⟩] hu
  refine ⟨hunsealed.append u, ?_, ?_⟩
  · rw [sentBytes_append, hsent, hsent', List.append_nil]
  · rwa [receivedBytes_append, hrecv', List.append_nil]

/-- In mode B there is an ephemeral key by then. -/
theorem keyed_view {c : Accepted β} {ekEph : List β} (h : Keyed P key l c ekEph)
    (hv : FrameView P maxFrame l tr) :
    Unsealed P key tr c.hello c.psk c.ssStatic ∧ sentBytes tr = [] ∧
      Framed P frameClientHello c.hello.raw (receivedBytes tr) := by
  rcases h with ⟨-, -, hnamed⟩ | ⟨-, l₀, gen, der, hnamed, -, -, -, rfl⟩
  · -- Without forward secrecy nothing is generated.
    exact named_view hnamed hv
  · obtain ⟨t, u, rfl, ht, hu⟩ := hv.append_inv
    obtain ⟨hunsealed, hsent, hrecv⟩ := named_view hnamed ht
    obtain ⟨hsent', hrecv'⟩ := bytes_internals
      [⟨.mkdtemp, some ()⟩, ⟨.genpkey c.hello.suite.params.level, some gen⟩, ⟨.chmod, some ()⟩,
        ⟨.pubout, some der⟩] hu
    refine ⟨hunsealed.append u, ?_, ?_⟩
    · rw [sentBytes_append, hsent, hsent', List.append_nil]
    · rwa [receivedBytes_append, hrecv', List.append_nil]

/-- The random values of a connection are drawn before its ephemeral key is generated. -/
theorem Keyed.drawn {c : Accepted β} {ekEph : List β} (h : Keyed P key l c ekEph) :
    [⟨.tokenBytes nonceLen, c.serverNonce⟩, ⟨.tokenBytes sessionIdLen, c.sessionId⟩] <:+:
      internalEvents l := by
  rcases h with ⟨-, -, hnamed⟩ | ⟨-, l₀, gen, der, hnamed, -, -, -, rfl⟩
  · obtain ⟨result, hevents⟩ := hnamed.internalEvents_eq
    rw [hevents]
    exact ⟨[_, _], [], rfl⟩
  · obtain ⟨result, hevents⟩ := hnamed.internalEvents_eq
    rw [internalEvents_append, hevents]
    exact ⟨[_, _], _, rfl⟩

/-- The ServerHello has been sent, and a ClientFinished has been received. -/
theorem finishedRead_view {c : Accepted β} {ekEph ctEph clientMac : List β}
    (h : FinishedRead P key l c ekEph ctEph clientMac) (hv : FrameView P maxFrame l tr) :
    Finished P key tr c ekEph ctEph clientMac := by
  obtain ⟨-, payload, ⟨l₀, hkeyed, rfl⟩, hpayload, hct, hmac, rfl⟩ := h
  have hevents := hv.internalEvents_eq
  -- From the end: ClientFinished was read, and before that ServerHello was written.
  obtain ⟨t, seg, rfl, ht, hm⟩ := hv.concat_inv
  obtain ⟨t, seg', rfl, ht, hm'⟩ := ht.concat_inv
  obtain ⟨hunsealed, hsent, hrecv⟩ := keyed_view hkeyed ht
  cases hm' with
  | written hrecv' _ hsent' =>
    cases hm with
    | read hsent'' _ hframed =>
      refine ⟨(hunsealed.append seg').append seg, ?_, ?_, ?_, hct, hmac⟩
      · rw [hevents, internalEvents_append, internalEvents_append]
        exact List.infix_append_of_infix_left (List.infix_append_of_infix_left hkeyed.drawn)
      · rw [sentBytes_append, sentBytes_append, hsent, hsent', hsent'', List.nil_append,
          List.append_nil]
      · refine ⟨receivedBytes t, receivedBytes seg, ?_, hrecv, by rwa [← hpayload]⟩
        rw [receivedBytes_append, receivedBytes_append, hrecv', List.append_nil]

/-- The events of `destroy` are internal. -/
private theorem destroy_internals {tail : Log β} (h : ∀ e ∈ tail, IsDestroy e.1) :
    ∃ events : List (Event (host β)), tail = events.map fun e => ⟨.inr e.1, e.2⟩ := by
  induction tail with
  | nil => exact ⟨[], rfl⟩
  | cons e tail ih =>
    obtain ⟨events, rfl⟩ := ih fun e' he' => h e' (List.mem_cons_of_mem _ he')
    match e, h e List.mem_cons_self with
    | ⟨.inr o, a⟩, _ => exact ⟨⟨o, a⟩ :: events, rfl⟩

/-- It stays so as long as nothing more goes over the connection. -/
private theorem Finished.append {c : Accepted β} {ekEph ctEph clientMac : List β}
    (h : Finished P key tr c ekEph ctEph clientMac) {u : SockLog β} (hsent : sentBytes u = [])
    (hrecv : receivedBytes u = []) : Finished P key (tr ++ u) c ekEph ctEph clientMac where
  unsealed := h.unsealed.append u
  drawn := by
    rw [internalEvents_append]
    exact List.infix_append_of_infix_left h.drawn
  sent := by rw [sentBytes_append, hsent, List.append_nil, h.sent]
  received := by
    rw [receivedBytes_append, hrecv, List.append_nil]
    exact h.received
  length_ctEph := h.length_ctEph
  length_clientMac := h.length_clientMac

/-- The MAC of ClientFinished has been compared. -/
theorem established_view {c : Accepted β} {ekEph ctEph ssEph : List β}
    (h : Established P key l c ekEph ctEph ssEph) (hv : FrameView P maxFrame l tr) :
    Confirmed P key tr c ekEph ctEph ssEph := by
  obtain ⟨l₀, tail, hex, htail, -, rfl⟩ := h
  -- The ephemeral key is destroyed before the MAC is compared; that moves no bytes.
  obtain ⟨events, rfl⟩ := destroy_internals htail
  obtain ⟨t, u, rfl, ht, hu⟩ := hv.append_inv
  obtain ⟨hsent, hrecv⟩ := bytes_internals events hu
  -- Without forward secrecy there is no second secret.
  rcases hex with ⟨hfs, rfl, hread⟩ | ⟨hfs, l₁, result, hread, hrc, hsecret, rfl⟩
  · exact ⟨(finishedRead_view hread ht).append hsent hrecv, fun _ => rfl, fun htrue => by
      simp [hfs] at htrue⟩
  · obtain ⟨t, rfl, ht'⟩ := ht.concat_internal
    refine ⟨((finishedRead_view hread ht').append rfl rfl).append hsent hrecv,
      fun hfalse => by simp [hfs] at hfalse, fun _ => ⟨result, by simp, hrc, hsecret⟩⟩

end Stages

/-! ## Ordering -/

variable [DecidableEq β] {turns : ℕ} {t₁ t₂ : SockLog β}
  {q' : Prog ((sockSig β).sum (host β)) (Except PyExn (Option (Inbound β)))}

/-- An internal call of a connection is allowed at the history before it. -/
private theorem allowed_of_run {o : HostOp β} {a : HostOp.Ans o}
    (hrun : Prog.Run (overSockets P (handleConnection P key turns)) (t₁ ++ ⟨.inr o, a⟩ :: t₂) q') :
    ∃ l, FrameView P maxFrame l t₁ ∧ Allowed P key l (.inr o) := by
  obtain ⟨l₁, l₂, q, seen, tail, -, hlog, hv, -⟩ := (frameLaws P).view_of_internal hrun
  exact ⟨l₁, hv, (handleConnection_allowed turns).op_of_run hlog⟩

omit [DecidableEq β] in
/-- An operation that is not in the log is not in its view. -/
private theorem not_mem_view {l : Log β} {o : HostOp β} (hv : FrameView P maxFrame l t₁)
    (h : ∀ e ∈ internalEvents l, e.1 ≠ o) (a : HostOp.Ans o) : ⟨.inr o, a⟩ ∉ t₁ := by
  intro hmem
  rw [← mem_internalEvents, hv.internalEvents_eq] at hmem
  exact h _ hmem rfl

/-- The static decapsulation comes after the check of the MAC, and only once. -/
private theorem staticDecap_ordered {ct : List β} {a : Option (Decapsulation β)}
    (hrun : Prog.Run (overSockets P (handleConnection P key turns))
      (t₁ ++ ⟨.inr (.staticDecap ct), a⟩ :: t₂) q') :
    (∃ hello psk, Checked P key t₁ hello psk ∧ ct = hello.kemCt) ∧
      ∀ ct' a', ⟨.inr (.staticDecap ct'), a'⟩ ∉ t₁ := by
  obtain ⟨l, hv, hello, psk, hchecked, rfl⟩ := allowed_of_run hrun
  refine ⟨⟨hello, psk, helloChecked_view hchecked hv, rfl⟩,
    fun ct' => not_mem_view (o := .staticDecap ct') hv ?_⟩
  rw [hchecked.internalEvents_eq]
  simp

/-- An ephemeral key is generated after it, at the suite's level, and only once. -/
private theorem genpkey_ordered {level : Level} {a : Option (Completed β)}
    (hrun : Prog.Run (overSockets P (handleConnection P key turns))
      (t₁ ++ ⟨.inr (.genpkey level), a⟩ :: t₂) q') :
    (∃ hello psk ssStatic, Unsealed P key t₁ hello psk ssStatic ∧ hello.suite.params.fs = true ∧
      level = hello.suite.params.level) ∧ ∀ level' a', ⟨.inr (.genpkey level'), a'⟩ ∉ t₁ := by
  obtain ⟨l, hv, l₀, c, hnamed, hfs, rfl, rfl⟩ := allowed_of_run hrun
  refine ⟨?_, fun level' => not_mem_view (o := .genpkey level') hv ?_⟩
  · -- `mkdtemp` comes just before.
    obtain ⟨t, rfl, ht⟩ := hv.concat_internal
    exact ⟨c.hello, c.psk, c.ssStatic, (named_view hnamed ht).1.append _, hfs, rfl⟩
  · obtain ⟨result, hevents⟩ := hnamed.internalEvents_eq
    rw [internalEvents_append, hevents, List.forall_mem_append]
    exact ⟨by simp, by simp [internalEvents, Event.internal?]⟩

/-- The ephemeral decapsulation comes after ClientFinished, whose length fits, and only once. -/
private theorem ephDecap_ordered {ct : List β} {a : Option (Decapsulation β)}
    (hrun : Prog.Run (overSockets P (handleConnection P key turns))
      (t₁ ++ ⟨.inr (.ephDecap ct), a⟩ :: t₂) q') :
    (∃ c ekEph clientMac, c.fs = true ∧ Finished P key t₁ c ekEph ct clientMac ∧
      (ct ++ clientMac).length = c.hello.suite.params.ct + macLen) ∧
      ∀ ct' a', ⟨.inr (.ephDecap ct'), a'⟩ ∉ t₁ := by
  obtain ⟨l, hv, c, ekEph, clientMac, hfs, hread⟩ := allowed_of_run hrun
  have hfinished := finishedRead_view hread hv
  refine ⟨⟨c, ekEph, clientMac, hfs, hfinished, ?_⟩,
    fun ct' => not_mem_view (o := .ephDecap ct') hv ?_⟩
  · rw [List.length_append, hfinished.length_ctEph, hfinished.length_clientMac, if_pos hfs]
  · obtain ⟨-, payload, ⟨l₀, hkeyed, rfl⟩, -, -, -, rfl⟩ := hread
    rw [internalEvents_append, internalEvents_append, List.forall_mem_append,
      List.forall_mem_append]
    exact ⟨⟨hkeyed.ne_ephDecap ct', by simp [internalEvents, Event.internal?]⟩,
      by simp [internalEvents, Event.internal?]⟩

/-- A record is opened after the MAC of ClientFinished has been compared, as it was received. -/
private theorem recordOpen_ordered {payload : List β} {a : Unit}
    (hrun : Prog.Run (overSockets P (handleConnection P key turns))
      (t₁ ++ ⟨.inr (.recordOpen payload), a⟩ :: t₂) q') :
    ∃ t u seg c ekEph ctEph ssEph, t₁ = t ++ u ++ seg ∧ Confirmed P key t c ekEph ctEph ssEph ∧
      Framed P frameData payload (receivedBytes seg) := by
  obtain ⟨l, hv, l₀, l₁, c, ekEph, ctEph, ssEph, raw, hest, rfl, rfl⟩ := allowed_of_run hrun
  obtain ⟨t, seg, rfl, ht, hm⟩ := hv.concat_inv
  obtain ⟨t, u, rfl, ht, -⟩ := ht.append_inv
  cases hm with
  | read _ _ hframed =>
    exact ⟨t, u, seg, c, ekEph, ctEph, ssEph, rfl, established_view hest ht, hframed⟩

/-- Order of work on the server. Over every socket, whatever bytes arrive and whatever the device
table, the processes and the random generator answer:

* the static decapsulation happens at most once, after every check of the ClientHello;
* an ephemeral key is generated at most once, for a suite with forward secrecy, after that;
* the ephemeral decapsulation happens at most once, on a ClientFinished frame of exactly the length
  of such a suite;
* a record is opened only after the client's MAC over this connection's transcript was verified, and
  it is the payload of a Data frame received after ClientFinished. -/
theorem handleConnection_ordered (P : Prims β) (key : PrivateKey β) (turns : ℕ) (tr : SockLog β)
    (q' : Prog ((sockSig β).sum (host β)) (Except PyExn (Option (Inbound β))))
    (hrun : Prog.Run (overSockets P (handleConnection P key turns)) tr q') :
    (∀ (t₁ : SockLog β) ct (a : Option (Decapsulation β)) (t₂ : SockLog β),
      tr = t₁ ++ ⟨.inr (.staticDecap ct), a⟩ :: t₂ →
      (∃ hello psk, Checked P key t₁ hello psk ∧ ct = hello.kemCt) ∧
        ∀ ct' a', ⟨.inr (.staticDecap ct'), a'⟩ ∉ t₁) ∧
    (∀ (t₁ : SockLog β) level (a : Option (Completed β)) (t₂ : SockLog β),
      tr = t₁ ++ ⟨.inr (.genpkey level), a⟩ :: t₂ →
      (∃ hello psk ssStatic, Unsealed P key t₁ hello psk ssStatic ∧
        hello.suite.params.fs = true ∧ level = hello.suite.params.level) ∧
        ∀ level' a', ⟨.inr (.genpkey level'), a'⟩ ∉ t₁) ∧
    (∀ (t₁ : SockLog β) ct (a : Option (Decapsulation β)) (t₂ : SockLog β),
      tr = t₁ ++ ⟨.inr (.ephDecap ct), a⟩ :: t₂ →
      (∃ c ekEph clientMac, c.fs = true ∧ Finished P key t₁ c ekEph ct clientMac ∧
        (ct ++ clientMac).length = c.hello.suite.params.ct + macLen) ∧
        ∀ ct' a', ⟨.inr (.ephDecap ct'), a'⟩ ∉ t₁) ∧
    (∀ (t₁ : SockLog β) payload (a : Unit) (t₂ : SockLog β),
      tr = t₁ ++ ⟨.inr (.recordOpen payload), a⟩ :: t₂ →
      ∃ t u seg c ekEph ctEph ssEph, t₁ = t ++ u ++ seg ∧
        Confirmed P key t c ekEph ctEph ssEph ∧
          Framed P frameData payload (receivedBytes seg)) := by
  -- One lemma for each kind of work.
  refine ⟨?_, ?_, ?_, ?_⟩
  · rintro t₁ ct a t₂ rfl
    exact staticDecap_ordered hrun
  · rintro t₁ level a t₂ rfl
    exact genpkey_ordered hrun
  · rintro t₁ ct a t₂ rfl
    exact ephDecap_ordered hrun
  · rintro t₁ payload a t₂ rfl
    exact recordOpen_ordered hrun

end Order

end Server

end PqcIot
