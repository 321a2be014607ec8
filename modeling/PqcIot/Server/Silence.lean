import PqcIot.Server.Order

/-!
# The server is silent about failures

What a connection writes, for every stream of bytes a peer may send: nothing, or the one ServerHello
frame that answers its hello. Everything that can go wrong before ServerHello looks the same to the
peer, whatever the device table holds (`serveConnection_silent`).
-/

namespace PqcIot

open Effects Protocol

namespace Server

variable {β : Type}

section Silence

variable (P : Prims β) (key : PrivateKey β)

/-- The public keys that openssl prints are of the level it was asked for. -/
def GeneratesLevel (tr : SockLog β) : Prop :=
  ∀ level gen der, ⟨.inr (.genpkey level), some gen⟩ ∈ tr → ⟨.inr .pubout, some der⟩ ∈ tr →
    der.returncode = 0 → der.stdout.length = level.publicKeyBytes + 22

/-- All that has to succeed before ServerHello has succeeded in this connection: the checks of the
ClientHello it has received, the static decapsulation, the two draws and, for a suite with forward
secrecy, the generation of a key. -/
structure Answerable (tr : SockLog β) (c : Accepted β) (ekEph : List β) : Prop where
  unsealed : Unsealed P key tr c.hello c.psk c.ssStatic
  drawn : [⟨.tokenBytes nonceLen, c.serverNonce⟩, ⟨.tokenBytes sessionIdLen, c.sessionId⟩] <:+:
    internalEvents tr
  noKey : c.fs = false → ekEph = []
  generated : c.fs = true → ∃ gen der,
    ⟨.inr (.genpkey c.hello.suite.params.level), some gen⟩ ∈ tr ∧ ⟨.inr .pubout, some der⟩ ∈ tr ∧
    der.returncode = 0 ∧ rawPublicFromDer der.stdout = .ok ekEph

/-- The connection is rejected before ServerHello. -/
def Rejected (tr : SockLog β) : Prop := ∀ c ekEph, ¬ Answerable P key tr c ekEph

/-- What a connection has sent when it has ended, or not yet, as `ended` says: nothing, or one
ServerHello frame, made of what the connection has received, looked up and drawn and as long as the
suite of its ClientHello asks for, up to a failure of the transport. -/
def Answered (tr : SockLog β) (ended : Prop) : Prop :=
  sentBytes tr = [] ∨ ∃ c ekEph, Answerable P key tr c ekEph ∧
    (frameBytes P frameServerHello ((c.values ekEph [] []).serverHello P)).length =
      3 + serverHelloLen c.hello.suite ∧
    sentBytes tr <+: frameBytes P frameServerHello ((c.values ekEph [] []).serverHello P) ∧
    (ended → sentBytes tr = frameBytes P frameServerHello ((c.values ekEph [] []).serverHello P) ∨
      SendFailed tr)

variable {P key}

/-- The raw key of a DER encoding of a level's length has the level's length. -/
theorem length_rawPublicFromDer {level : Level} {der ek : List β}
    (hlen : der.length = level.publicKeyBytes + 22) (h : rawPublicFromDer der = .ok ek) :
    ek.length = level.publicKeyBytes := by
  cases level <;> simp [rawPublicFromDer, hlen, Level.publicKeyBytes, List.find?] at h <;>
    simp [← h, hlen, Level.publicKeyBytes]

section View

variable {l : Log β} {tr : SockLog β}

private theorem answerable_of_keyed {c : Accepted β} {ekEph : List β}
    (h : Keyed P key l c ekEph) (hv : FrameView P maxFrame l tr) :
    Answerable P key tr c ekEph := by
  refine ⟨(keyed_view h hv).1, hv.internalEvents_eq ▸ h.drawn, fun hfalse => ?_, fun htrue => ?_⟩
  · rcases h with ⟨-, hek, -⟩ | ⟨htrue, -⟩
    · exact hek
    · simp [hfalse] at htrue
  · rcases h with ⟨hfalse, -⟩ | ⟨-, l₀, gen, der, hnamed, -, hrc, hek, rfl⟩
    · simp [hfalse] at htrue
    · refine ⟨gen, der, ?_, ?_, hrc, hek⟩
      · rw [← mem_internalEvents, hv.internalEvents_eq, mem_internalEvents]
        simp
      · rw [← mem_internalEvents, hv.internalEvents_eq, mem_internalEvents]
        simp

private theorem Answerable.append {c : Accepted β} {ekEph : List β}
    (h : Answerable P key tr c ekEph) (tail : SockLog β) :
    Answerable P key (tr ++ tail) c ekEph := by
  refine ⟨h.unsealed.append tail, ?_, h.noKey, fun hfs => ?_⟩
  · rw [internalEvents_append]
    exact List.infix_append_of_infix_left h.drawn
  obtain ⟨gen, der, hgen, hder, hrest⟩ := h.generated hfs
  exact ⟨gen, der, List.mem_append_left _ hgen, List.mem_append_left _ hder, hrest⟩

/-- ServerHello is as long as its suite asks for. -/
private theorem Answerable.length_serverHello {c : Accepted β} {ekEph : List β}
    (h : Answerable P key tr c ekEph) (hlevel : GeneratesLevel tr) :
    ((c.values ekEph [] []).serverHello P).length = serverHelloLen c.hello.suite := by
  have hek : ekEph.length = if c.hello.suite.params.fs then c.hello.suite.params.ek else 0 := by
    by_cases hfs : c.fs = true
    · obtain ⟨gen, der, hgen, hder, hrc, hraw⟩ := h.generated hfs
      have hsuite : c.hello.suite.params.fs = true := hfs
      rw [if_pos hsuite, Suite.params_ek]
      exact length_rawPublicFromDer (hlevel _ gen der hgen hder hrc) hraw
    · have hsuite : ¬ c.hello.suite.params.fs = true := hfs
      rw [if_neg hsuite, h.noKey (Bool.eq_false_iff.mpr hfs), List.length_nil]
  have hnonce := c.serverNonce.2
  have hsid := c.sessionId.2
  simp only [Handshake.serverHello, Accepted.values, List.length_append, hnonce, hsid, hek,
    Handshake.length_serverMac, serverHelloLen, serverHelloBaseLen, nonceLen, sessionIdLen]
  omega

/-- Every ServerHello fits a frame. -/
theorem serverHelloLen_le (suite : Suite) : serverHelloLen suite ≤ maxFrame := by
  cases suite <;> decide

/-- The operation of an event writes no frame. -/
private def NoWrite (e : Event (calls β)) : Prop :=
  ∀ ftype payload, e.1 ≠ .inl (.write ftype payload)

/-- Nothing is written before ServerHello. -/
private theorem Keyed.noWrite {c : Accepted β} {ekEph : List β} (h : Keyed P key l c ekEph) :
    ∀ e ∈ l, NoWrite e := by
  have hnamed : ∀ {l₀ : Log β}, Named P key l₀ c → ∀ e ∈ l₀, NoWrite e := by
    rintro - ⟨-, ⟨-, result, ⟨⟨-, ⟨⟨raw, -, rfl⟩, -⟩, rfl⟩, -⟩, -, -, -, rfl⟩, rfl⟩
    simp [NoWrite]
  rcases h with ⟨-, -, h⟩ | ⟨-, l₀, gen, der, h, -, -, -, rfl⟩
  · exact hnamed h
  · rw [List.forall_mem_append]
    exact ⟨hnamed h, by simp [NoWrite]⟩

end View

/-! ## Any code that keeps to the stages -/

section Run

variable {α : Type} {p q : Prog (calls β) α} {ψ : Log β → α → Prop} {l : Log β}
  {tr : SockLog β} {q' : Prog ((sockSig β).sum (host β)) α}

/-- A log writes nothing, or it writes ServerHello at one point. -/
private theorem noWrite_or_serverHello (hp : Prog.Spec (Allowed P key) ψ [] p)
    (hrun : Prog.Run p l q) :
    (∀ e ∈ l, NoWrite e) ∨ ∃ l₁ l₂ c ekEph a, Keyed P key l₁ c ekEph ∧ (∀ e ∈ l₂, NoWrite e) ∧
      l = l₁ ++ ⟨.inl (.write frameServerHello ((c.values ekEph [] []).serverHello P)),
        a⟩ :: l₂ := by
  by_cases hnone : ∀ e ∈ l, NoWrite e
  · exact .inl hnone
  · refine .inr ?_
    simp only [NoWrite, not_forall, not_not] at hnone
    obtain ⟨⟨o, a⟩, hmem, ftype, payload, rfl⟩ := hnone
    obtain ⟨l₁, l₂, rfl⟩ := List.append_of_mem hmem
    obtain ⟨rfl, c, ekEph, hkeyed, rfl⟩ := hp.op_of_run hrun
    refine ⟨l₁, l₂, c, ekEph, a, hkeyed, ?_, rfl⟩
    -- A second write would come after a history without writes.
    rintro ⟨o', a'⟩ hmem' ftype' payload' rfl
    obtain ⟨m₁, m₂, rfl⟩ := List.append_of_mem hmem'
    rw [← List.cons_append, ← List.append_assoc] at hrun
    obtain ⟨-, c', ekEph', hkeyed', -⟩ := hp.op_of_run hrun
    exact hkeyed'.noWrite _ (List.mem_append_right _ List.mem_cons_self) _ _ rfl

/-- What such code sends, over sockets. -/
private theorem answered_of_run (hp : Prog.Spec (Allowed P key) ψ [] p)
    (hrun : Prog.Run (Prog.interp (overInternal (framing P)) p) tr q') :
    sentBytes tr = [] ∨ ∃ c ekEph, Answerable P key tr c ekEph ∧
      sentBytes tr <+: frameBytes P frameServerHello ((c.values ekEph [] []).serverHello P) ∧
      (∀ r, q' = .ret r → ((c.values ekEph [] []).serverHello P).length ≤ maxFrame →
        sentBytes tr = frameBytes P frameServerHello ((c.values ekEph [] []).serverHello P) ∨
          SendFailed tr) := by
  obtain ⟨log, q, seen, tail, rfl, hlog, hv, hpending, hret⟩ := (frameLaws P).view_of_run hrun
  rcases noWrite_or_serverHello hp hlog with hnone | ⟨l₁, l₂, c, ekEph, a, hkeyed, hnone, rfl⟩
  · -- No completed call has written a frame.
    have hseen := hv.sentBytes_eq_nil hnone
    rcases hpending.sent with htail | ⟨ftype, payload, k, rfl, hpre⟩
    · exact .inl (by rw [sentBytes_append, hseen, htail, List.append_nil])
    · -- ServerHello is under way.
      obtain ⟨rfl, c, ekEph, hkeyed, rfl⟩ : Allowed P key log (.inl (.write ftype payload)) :=
        (hp.of_run hlog).1
      refine .inr ⟨c, ekEph, (answerable_of_keyed hkeyed hv).append tail, ?_, fun r hr => ?_⟩
      · rwa [sentBytes_append, hseen, List.nil_append]
      · cases hret r hr
  · obtain ⟨t₁, t₂, rfl, hv₁, hv₂⟩ := hv.append_inv
    -- Only the call that wrote ServerHello has sent anything.
    have hrest : ∀ seg t, t₂ = seg ++ t → FrameView P maxFrame l₂ t →
        sentBytes (t₁ ++ t₂ ++ tail) = sentBytes seg := by
      rintro seg t rfl ht
      have htail : sentBytes tail = [] := by
        rcases hpending.sent with htail | ⟨ftype, payload, k, rfl, -⟩
        · exact htail
        · obtain ⟨-, c', ekEph', hkeyed', -⟩ : Allowed P key _ (.inl (.write ftype payload)) :=
            (hp.of_run hlog).1
          have hno := hkeyed'.noWrite
          rw [List.nil_append, List.forall_mem_append, List.forall_mem_cons] at hno
          exact absurd rfl (hno.2.1 _ _)
      rw [sentBytes_append, sentBytes_append, sentBytes_append, hv₁.sentBytes_eq_nil hkeyed.noWrite,
        ht.sentBytes_eq_nil hnone, htail, List.append_nil, List.append_nil, List.nil_append]
    have hanswerable := ((answerable_of_keyed hkeyed hv₁).append t₂).append tail
    cases hv₂ with
    | @cons _ _ seg t hm ht =>
      have hsent := hrest seg t rfl ht
      refine .inr ⟨c, ekEph, hanswerable, ?_, fun r hr hlen => ?_⟩
      · rw [hsent]
        cases hm with
        | written _ _ hseg => exact ⟨[], by rw [hseg, List.append_nil]⟩
        | writeFailed _ _ hpre => exact hpre
      · rw [hsent]
        cases hm with
        | written _ _ hseg => exact .inl hseg
        | writeFailed _ _ _ hfailed =>
          refine .inr ((hfailed hlen).mono fun e he => ?_)
          exact List.mem_append_left _ (List.mem_append_right _ (List.mem_append_left _ he))

end Run

variable [DecidableEq β]

/-- The server is silent about failures. Over every socket, whatever bytes arrive and whatever the
device table, the processes and the random generator answer, `handle_connection` and the accept loop
around it write nothing, or the one ServerHello frame that answers this connection's hello, of
`3 + server_hello_len(suite)` bytes, of which a failing transport may cut off the end. Any two
connections that are rejected before ServerHello write the same: nothing. -/
theorem serveConnection_silent (P : Prims β) :
    (∀ key turns tr q', Prog.Run (overSockets P (handleConnection P key turns)) tr q' →
      GeneratesLevel tr → Answered P key tr (∃ r, q' = .ret r)) ∧
    (∀ key turns tr q', Prog.Run (overSockets P (serveConnection P key turns)) tr q' →
      GeneratesLevel tr → Answered P key tr (∃ r, q' = .ret r)) ∧
    (∀ key₁ turns₁ tr₁ q₁ key₂ turns₂ tr₂ q₂,
      Prog.Run (overSockets P (serveConnection P key₁ turns₁)) tr₁ q₁ → Rejected P key₁ tr₁ →
      Prog.Run (overSockets P (serveConnection P key₂ turns₂)) tr₂ q₂ → Rejected P key₂ tr₂ →
      sentBytes tr₁ = [] ∧ sentBytes tr₂ = []) := by
  -- Of any code that only writes the ServerHello.
  have hanswered : ∀ {α : Type} {p : Prog (calls β) α} {ψ key tr q'},
      Prog.Spec (Allowed P key) ψ [] p →
      Prog.Run (Prog.interp (overInternal (framing P)) p) tr q' → GeneratesLevel tr →
        Answered P key tr (∃ r, q' = .ret r) := by
    intro α p ψ key tr q' hp hrun hlevel
    rcases answered_of_run hp hrun with hnil | ⟨c, ekEph, hanswerable, hpre, hall⟩
    · exact .inl hnil
    · have hlen := hanswerable.length_serverHello hlevel
      refine .inr ⟨c, ekEph, hanswerable, by rw [length_frameBytes, hlen], hpre, ?_⟩
      rintro ⟨r, hr⟩
      exact hall r hr (hlen.trans_le (serverHelloLen_le _))
  have hsilent : ∀ {key turns tr q'}, Prog.Run (overSockets P (serveConnection P key turns)) tr q' →
      Rejected P key tr → sentBytes tr = [] := by
    intro key turns tr q' hrun hrejected
    rcases answered_of_run (serveConnection_allowed turns) hrun with
      hnil | ⟨c, ekEph, hanswerable, -⟩
    · exact hnil
    · exact absurd hanswerable (hrejected c ekEph)
  refine ⟨fun key turns tr q' => hanswered (handleConnection_allowed turns),
    fun key turns tr q' => hanswered (serveConnection_allowed turns), ?_⟩
  intro key₁ turns₁ tr₁ q₁ key₂ turns₂ tr₂ q₂ h₁ hr₁ h₂ hr₂
  exact ⟨hsilent h₁ hr₁, hsilent h₂ hr₂⟩

end Silence

end Server

end PqcIot
