import Mathlib.Data.List.Infix
import PqcIot.Firmware.Records
import PqcIot.Firmware.Trace

/-!
# The firmware never talks past an unauthenticated server

What `pqc_session_run` puts on the wire, for every stream of bytes it may receive. Up to the check
of the server's MAC that is a prefix of one ClientHello frame; `Authenticated` says what has been
received by the time anything more is written or the ephemeral encapsulation is executed
(`pqcSessionRun_guarded`), which a session that has returned `true` has received
(`authenticated_of_returned`).
-/

namespace PqcIot

open Effects

namespace Firmware

variable {β : Type}

/-- What has happened at the socket. -/
abbrev SockLog (β : Type) : Type := List (Event ((sockSig β).sum (host β)))

/-- The code over socket calls. -/
abbrev overSockets {α : Type} (P : Prims β) (p : Prog (visible β) α) :
    Prog ((sockSig β).sum (host β)) α :=
  Prog.interp (overInternal (framing P)) p

section Guard

variable (P : Prims β) (cfg : Config β) (mode : Mode)

/-- The nonce was drawn and the static encapsulation succeeded. -/
def Drew (tr : SockLog β) (nonce : { l : List β // l.length = 32 }) (enc : Encapsulation β) :
    Prop :=
  enc.rc = 0 ∧ [⟨.espFillRandom 32, nonce⟩, ⟨.mlkem768Enc cfg.serverPublicKey, enc⟩] <:+:
    internalEvents tr

/-- The ClientHello was sent, and what was received is one ServerHello frame of the mode's length
that ends with the server's MAC over the ClientHello sent and all fields received. -/
structure Authenticated (tr : SockLog β) (r : Attempt β) : Prop where
  drew : Drew cfg tr r.nonce r.enc
  sent : sentBytes tr = frameBytes P frameClientHello (r.hello P cfg mode)
  received : Framed P frameServerHello r.reply.1 (receivedBytes tr)
  length : r.reply.1.length = Protocol.serverHelloLen mode.spec
  mac : r.reply.1.drop (r.reply.1.length - 32) =
    P.hmac ((r.values P cfg mode [] []).srvConfirm P) ((r.values P cfg mode [] []).th2 P)

/-- In mode B the encapsulation to the key in the ServerHello has succeeded, with this ciphertext
and this secret. -/
def Encapsulated (tr : SockLog β) (r : Attempt β) (ctEph ssEph : List β) : Prop :=
  (mode.fs = false ∧ ctEph = [] ∧ ssEph = []) ∨
    (mode.fs = true ∧ ∃ enc, ⟨.inr (.mlkem768Enc (slice 40 1184 r.reply.1)), enc⟩ ∈ tr ∧
      enc.rc = 0 ∧ ctEph = enc.ct ∧ ssEph = enc.ss)

/-- What is written is no more than a handshake writes: nothing, a prefix of its ClientHello, or,
after an authentic ServerHello, a prefix of the ClientFinished that belongs to it behind the
ClientHello. -/
def WithinHandshake (tr : SockLog β) : Prop :=
  sentBytes tr = [] ∨
  (∃ nonce enc, Drew cfg tr nonce enc ∧
    sentBytes tr <+: frameBytes P frameClientHello (helloPayload P cfg mode nonce.1 enc.ct)) ∨
  (∃ t₁ t₂ r ctEph ssEph, tr = t₁ ++ t₂ ∧ Authenticated P cfg mode t₁ r ∧
    Encapsulated mode tr r ctEph ssEph ∧ sentBytes t₂ <+:
      frameBytes P frameClientFinished ((r.values P cfg mode ctEph ssEph).clientFinished P))

/-- All that a handshake writes has been written. -/
def HandshakeWritten (tr : SockLog β) : Prop :=
  ∃ t₁ t₂ r ctEph ssEph, tr = t₁ ++ t₂ ∧ Authenticated P cfg mode t₁ r ∧
    Encapsulated mode tr r ctEph ssEph ∧ sentBytes t₂ =
      frameBytes P frameClientFinished ((r.values P cfg mode ctEph ssEph).clientFinished P)

variable {P cfg mode}

/-- What was encapsulated stays so in a longer history. -/
theorem Encapsulated.mono {tr tr' : SockLog β} {r : Attempt β} {ctEph ssEph : List β}
    (h : Encapsulated mode tr r ctEph ssEph) (hsub : tr ⊆ tr') :
    Encapsulated mode tr' r ctEph ssEph := by
  rcases h with hmodeA | ⟨hfs, enc, hmem, henc⟩
  · exact .inl hmodeA
  · exact .inr ⟨hfs, enc, hsub hmem, henc⟩

/-- What was drawn stays so, as long as the internal calls are still in one piece. -/
theorem Drew.mono {tr tr' : SockLog β} {nonce : { l : List β // l.length = 32 }}
    {enc : Encapsulation β} (h : Drew cfg tr nonce enc)
    (hsub : internalEvents tr <:+: internalEvents tr') : Drew cfg tr' nonce enc :=
  ⟨h.1, h.2.trans hsub⟩

/-! ## The stages at the socket -/

section Stages

variable {limit : ℕ} {log : Log β} {tr : SockLog β}

/-- Nothing has gone over the connection yet. -/
private theorem drawn_view {nonce : { l : List β // l.length = 32 }} {enc : Encapsulation β}
    (h : Drawn cfg log nonce enc) (hv : FrameView P limit log tr) :
    sentBytes tr = [] ∧ receivedBytes tr = [] ∧ Drew cfg tr nonce enc := by
  obtain ⟨hrc, rfl⟩ := h
  cases hv with
  | cons hfill hv =>
    cases hv with
    | cons henc hv =>
      cases hfill
      cases henc
      cases hv
      exact ⟨rfl, rfl, hrc, List.infix_rfl⟩

/-- The ClientHello has been sent, and nothing has been received. -/
private theorem helloSent_view {nonce : { l : List β // l.length = 32 }} {enc : Encapsulation β}
    (h : HelloSent P cfg mode log nonce enc) (hv : FrameView P limit log tr) :
    sentBytes tr = frameBytes P frameClientHello (helloPayload P cfg mode nonce.1 enc.ct) ∧
      receivedBytes tr = [] ∧ Drew cfg tr nonce enc := by
  obtain ⟨h₀, hdrawn, rfl⟩ := h
  obtain ⟨t, seg, rfl, ht, hm⟩ := hv.concat_inv
  obtain ⟨hsent, hrecv, hdrew⟩ := drawn_view hdrawn ht
  cases hm with
  | written hrecv' hint hsent' =>
    refine ⟨by simp [hsent, hsent'], by simp [hrecv, hrecv'], hdrew.mono ?_⟩
    rw [internalEvents_append, hint, List.append_nil]

/-- The peer's frame has been received. -/
private theorem replyRead_view {r : Attempt β} (h : ReplyRead P cfg mode log r)
    (hv : FrameView P limit log tr) :
    sentBytes tr = frameBytes P frameClientHello (r.hello P cfg mode) ∧
      Framed P frameServerHello r.reply.1 (receivedBytes tr) ∧ Drew cfg tr r.nonce r.enc := by
  obtain ⟨h₀, hhello, -, rfl⟩ := h
  obtain ⟨t, seg, rfl, ht, hm⟩ := hv.concat_inv
  obtain ⟨hsent, hrecv, hdrew⟩ := helloSent_view hhello ht
  cases hm with
  | read hsent' hint hframed =>
    refine ⟨?_, by simpa [hrecv] using hframed, hdrew.mono ?_⟩
    · rw [sentBytes_append, hsent', List.append_nil, hsent]
      rfl
    · rw [internalEvents_append, hint, List.append_nil]

/-- After the comparison of its MAC the peer is authenticated. -/
private theorem verified_view {r : Attempt β} (h : Verified P cfg mode log r)
    (hv : FrameView P limit log tr) : Authenticated P cfg mode tr r := by
  obtain ⟨hread, hmac⟩ := h
  obtain ⟨hsent, hframed, hdrew⟩ := replyRead_view hread hv
  obtain ⟨-, -, hlen, -⟩ := hread
  refine ⟨hdrew, hsent, hframed, hlen, ?_⟩
  have hdrop : r.reply.1.drop (r.reply.1.length - 32) = receivedMac mode r.reply.1 := by
    have hoff : r.reply.1.length - 32 = 40 + if mode.fs then 1184 else 0 := by
      rw [hlen, serverHelloLen_spec]
      omega
    rw [receivedMac, slice, hoff, List.take_of_length_le]
    rw [List.length_drop, hlen, serverHelloLen_spec]
    omega
  rw [hdrop, hmac]
  rfl

/-- When the exchange is complete, the server has been authenticated and nothing has been written
since. -/
private theorem exchanged_view {r : Attempt β} {ctEph ssEph : List β}
    (h : Exchanged P cfg mode log r ctEph ssEph) (hv : FrameView P limit log tr) :
    ∃ t₁ t₂, tr = t₁ ++ t₂ ∧ Authenticated P cfg mode t₁ r ∧ Encapsulated mode tr r ctEph ssEph ∧
      sentBytes t₂ = [] := by
  rcases h with ⟨hfs, rfl, rfl, hver⟩ | ⟨hfs, h₀, encEph, hver, hrc, rfl, rfl, rfl⟩
  · -- Mode A ends with the check.
    exact ⟨tr, [], (List.append_nil tr).symm, verified_view hver hv, .inl ⟨hfs, rfl, rfl⟩, rfl⟩
  · -- In mode B the encapsulation comes between; it writes nothing.
    obtain ⟨t, rfl, ht⟩ := hv.concat_internal
    refine ⟨t, _, rfl, verified_view hver ht, .inr ⟨hfs, encEph, ?_, hrc, rfl, rfl⟩, rfl⟩
    exact List.mem_append_right _ (List.mem_singleton_self _)

end Stages

/-! ## The handshake -/

/-- Some encapsulation has failed. -/
def EncapsFailed (tr : SockLog β) : Prop :=
  ∃ pk enc, ⟨.inr (.mlkem768Enc pk), enc⟩ ∈ tr ∧ enc.rc ≠ 0

/-- A handshake whose last call was not a ClientFinished frame has not returned a session. -/
private theorem eq_none_of_last {h₀ : Log β} {e : Event (visible β)} {s : Option (Session β)}
    (hrun : Prog.Run (clientHandshake P cfg mode) (h₀ ++ [e]) (.ret s))
    (he : ∀ payload, e.1 ≠ .inl (.write frameClientFinished payload)) : s = none := by
  cases s with
  | none => rfl
  | some session =>
    -- A session is returned right after a ClientFinished frame.
    obtain ⟨r, ctEph, ssEph, ⟨h, -, heq⟩, -⟩ := clientHandshake_allowed.ret_of_run hrun session rfl
    have hlast := (List.append_inj' heq rfl).2
    exact absurd (congrArg Sigma.fst (List.cons.inj hlast).1) (he _)

/-- A handshake that returns after the static encapsulation has seen it fail. -/
private theorem rc_ne_zero_of_ret {nonce : { l : List β // l.length = 32 }}
    {enc : Encapsulation β} {s : Option (Session β)}
    (hrun : Prog.Run (clientHandshake P cfg mode) [⟨.inr (.espFillRandom 32), nonce⟩,
      ⟨.inr (.mlkem768Enc cfg.serverPublicKey), enc⟩] (.ret s)) : enc.rc ≠ 0 ∧ s = none := by
  cases hrun with
  | cons hrun =>
    cases hrun with
    | cons hrun =>
      dsimp only at hrun
      split at hrun
      · rename_i hrc
        cases hrun
        exact ⟨hrc, rfl⟩
      · cases hrun

variable (P cfg mode) in
/-- What a handshake has put on the wire when the results it may have returned are `returned`: a
prefix of its ClientHello, which it completes unless something fails, or, once the server is
authenticated, a prefix of its ClientFinished after it. -/
def Uttered (tr : SockLog β) (returned : Option (Session β) → Prop) : Prop :=
  (sentBytes tr = [] ∧ ∀ s, returned s → s = none ∧ EncapsFailed tr) ∨
  (∃ nonce enc, Drew cfg tr nonce enc ∧
    sentBytes tr <+: frameBytes P frameClientHello (helloPayload P cfg mode nonce.1 enc.ct) ∧
    ∀ s, returned s → s = none ∧ (sentBytes tr =
      frameBytes P frameClientHello (helloPayload P cfg mode nonce.1 enc.ct) ∨ SendFailed tr)) ∨
  (∃ t₁ t₂ r, tr = t₁ ++ t₂ ∧ Authenticated P cfg mode t₁ r ∧ (sentBytes t₂ = [] ∨
    ∃ ctEph ssEph, Encapsulated mode tr r ctEph ssEph ∧ sentBytes t₂ <+:
      frameBytes P frameClientFinished ((r.values P cfg mode ctEph ssEph).clientFinished P)))

/-- What the calls of a handshake put on the wire. -/
private theorem view_uttered {log : Log β} {q : Prog (visible β) (Option (Session β))}
    {tr : SockLog β} (hrun : Prog.Run (clientHandshake P cfg mode) log q)
    (hv : FrameView P 65535 log tr) : Uttered P cfg mode tr fun s => q = .ret s := by
  rcases List.eq_nil_or_concat' log with rfl | ⟨h₀, ⟨o, a⟩, rfl⟩
  · cases hv
    cases hrun
    exact .inl ⟨rfl, fun s hs => by cases hs⟩
  have hallowed := clientHandshake_allowed.op_of_run hrun
  -- By the last call: each is allowed at one or two points of the handshake.
  match o, a, hallowed with
  | .inl (.write ftype payload), a, hallowed =>
    obtain ⟨t, seg, rfl, ht, hm⟩ := hv.concat_inv
    rcases hallowed with ⟨rfl, nonce, enc, hdrawn, rfl⟩ | ⟨rfl, r, ctEph, ssEph, hex, rfl⟩
    · -- The ClientHello, or as much of it as was written before the failure.
      obtain ⟨hsent, -, hdrew⟩ := drawn_view hdrawn ht
      have hnone : ∀ s, q = .ret s → s = none := by
        rintro s rfl
        refine eq_none_of_last hrun fun payload h => ?_
        simp [frameClientHello, frameClientFinished] at h
      refine .inr (.inl ⟨nonce, enc, hdrew.mono ?_, ?_⟩)
      · rw [internalEvents_append]
        exact List.infix_append' [] _ _
      · rw [sentBytes_append, hsent, List.nil_append]
        cases hm with
        | written _ _ hseg =>
          rw [hseg]
          exact ⟨List.prefix_rfl, fun s hs => ⟨hnone s hs, .inl rfl⟩⟩
        | writeFailed _ _ hpre hfailed =>
          refine ⟨hpre, fun s hs => ⟨hnone s hs, .inr ((hfailed ?_).mono
            (List.subset_append_right _ _))⟩⟩
          rw [length_helloPayload P cfg mode nonce.2 enc.length_ct]
          decide
    · -- ClientFinished, for which the MAC has been checked.
      obtain ⟨t₁, t₂, rfl, hauth, hencaps, hsent⟩ := exchanged_view hex ht
      refine .inr (.inr ⟨t₁, t₂ ++ seg, r, List.append_assoc .., hauth, .inr ⟨ctEph, ssEph,
        hencaps.mono (List.subset_append_left _ _), ?_⟩⟩)
      rw [sentBytes_append, hsent, List.nil_append]
      cases hm with
      | written _ _ hseg => exact ⟨[], by rw [hseg, List.append_nil]⟩
      | writeFailed _ _ hpre _ => exact hpre
  | .inl (.read capacity), a, ⟨hcapacity, nonce, enc, hhello⟩ =>
    obtain ⟨t, seg, rfl, ht, hm⟩ := hv.concat_inv
    obtain ⟨hsent, -, hdrew⟩ := helloSent_view hhello ht
    -- Reading the ServerHello, all of the ClientHello has been sent.
    have hseg : sentBytes seg = [] := by
      cases hm with
      | read hseg => exact hseg
      | readFailed hseg => exact hseg
    refine .inr (.inl ⟨nonce, enc, hdrew.mono ?_, ?_⟩)
    · rw [internalEvents_append]
      exact List.infix_append' [] _ _
    · rw [sentBytes_append, hsent, hseg, List.append_nil]
      refine ⟨List.prefix_rfl, ?_⟩
      rintro s rfl
      exact ⟨eq_none_of_last hrun fun payload h => (by cases h), .inl rfl⟩
  | .inr (.espFillRandom n), a, hnil =>
    obtain rfl : h₀ = [] := hnil
    obtain ⟨t, rfl, ht⟩ := hv.concat_internal
    cases ht
    cases hrun with
    | cons hrun =>
      cases hrun
      exact .inl ⟨rfl, fun s hs => by cases hs⟩
  | .inr (.mlkem768Enc pk), enc, hallowed =>
    obtain ⟨t, rfl, ht⟩ := hv.concat_internal
    -- The static encapsulation comes before the ClientHello, the ephemeral one after the check.
    rcases hallowed with ⟨rfl, nonce, rfl⟩ | ⟨-, r, hver, -⟩
    · cases ht with
      | cons hfill ht =>
        cases hfill
        cases ht
        refine .inl ⟨rfl, ?_⟩
        rintro s rfl
        obtain ⟨hrc, hnone⟩ := rc_ne_zero_of_ret hrun
        exact ⟨hnone, _, enc, by simp, hrc⟩
    · exact .inr (.inr ⟨t, _, r, rfl, verified_view hver ht, .inl rfl⟩)

/-- All encapsulations in a history have succeeded. -/
private def EncapsOk (h : Log β) : Prop :=
  ∀ pk enc, ⟨.inr (.mlkem768Enc pk), enc⟩ ∈ h → enc.rc = 0

/-- One more event. -/
private theorem EncapsOk.concat {h : Log β} {e : Event (visible β)} (hh : EncapsOk h)
    (he : ∀ pk enc, e = ⟨.inr (.mlkem768Enc pk), enc⟩ → enc.rc = 0) : EncapsOk (h ++ [e]) := by
  intro pk enc hmem
  rcases List.mem_append.mp hmem with hmem | hmem
  · exact hh pk enc hmem
  · exact he pk enc (List.mem_singleton.mp hmem).symm

/-- The first encapsulation has succeeded. -/
private theorem Drawn.encapsOk {h : Log β} {nonce : { l : List β // l.length = 32 }}
    {enc : Encapsulation β} (hh : Drawn cfg h nonce enc) : EncapsOk h := by
  obtain ⟨hrc, rfl⟩ := hh
  refine EncapsOk.concat (h := [⟨.inr (.espFillRandom 32), nonce⟩]) ?_ ?_
  · intro pk enc' hmem
    cases List.mem_singleton.mp hmem
  · intro pk enc' heq
    cases heq
    exact hrc

/-- It has when the ClientHello is sent. -/
private theorem HelloSent.encapsOk {h : Log β} {nonce : { l : List β // l.length = 32 }}
    {enc : Encapsulation β} (hh : HelloSent P cfg mode h nonce enc) : EncapsOk h := by
  obtain ⟨h₀, hdrawn, rfl⟩ := hh
  exact hdrawn.encapsOk.concat fun pk enc heq => by cases heq

/-- It has when the MAC is compared. -/
private theorem Verified.encapsOk {h : Log β} {r : Attempt β}
    (hh : Verified P cfg mode h r) : EncapsOk h := by
  obtain ⟨⟨h₀, hhello, -, rfl⟩, -⟩ := hh
  exact hhello.encapsOk.concat fun pk enc heq => by cases heq

/-- The second one has succeeded when its result is used. -/
private theorem Exchanged.encapsOk {h : Log β} {r : Attempt β} {ctEph ssEph : List β}
    (hh : Exchanged P cfg mode h r ctEph ssEph) : EncapsOk h := by
  rcases hh with ⟨-, -, -, hver⟩ | ⟨-, h₀, encEph, hver, hrc, -, -, rfl⟩
  · exact hver.encapsOk
  · refine hver.encapsOk.concat fun pk enc heq => ?_
    cases heq
    exact hrc

/-- No operation follows an encapsulation that failed. -/
private theorem Allowed.encapsOk {h : Log β} {o : (visible β).Op}
    (ho : Allowed P cfg mode h o) : EncapsOk h := by
  match o, ho with
  | .inl (.write _ _), .inl ⟨_, _, _, hdrawn, _⟩ => exact hdrawn.encapsOk
  | .inl (.write _ _), .inr ⟨_, _, _, _, hex, _⟩ => exact hex.encapsOk
  | .inl (.read _), ⟨_, _, _, hhello⟩ => exact hhello.encapsOk
  | .inr (.espFillRandom _), hnil =>
    obtain rfl : h = [] := hnil
    intro pk enc hmem
    cases hmem
  | .inr (.mlkem768Enc _), .inl ⟨_, nonce, hh⟩ =>
    subst hh
    intro pk enc hmem
    cases List.mem_singleton.mp hmem
  | .inr (.mlkem768Enc _), .inr ⟨_, _, hver, _⟩ => exact hver.encapsOk

/-- Less may be said of the session that is returned. -/
private theorem Uttered.mono {tr : SockLog β} {returned returned' : Option (Session β) → Prop}
    (h : Uttered P cfg mode tr returned) (himp : ∀ s, returned' s → returned s) :
    Uttered P cfg mode tr returned' := by
  rcases h with ⟨hsent, hret⟩ | ⟨nonce, enc, hdrew, hpre, hret⟩ | hmore
  · exact .inl ⟨hsent, fun s hs => hret s (himp s hs)⟩
  · exact .inr (.inl ⟨nonce, enc, hdrew, hpre, fun s hs => hret s (himp s hs)⟩)
  · exact .inr (.inr hmore)

/-- What a call under way has sent comes after what the calls before it have. -/
private theorem Uttered.pending {log : Log β} {q : Prog (visible β) (Option (Session β))}
    {seen tail : SockLog β} (hrun : Prog.Run (clientHandshake P cfg mode) log q)
    (hv : FrameView P 65535 log seen) (hp : Pending P q tail) :
    Uttered P cfg mode (seen ++ tail) fun s => q = .ret s := by
  have hint := hp.internalEvents_eq_nil
  have hsub : internalEvents seen <:+: internalEvents (seen ++ tail) := by
    rw [internalEvents_append, hint, List.append_nil]
  rcases hp.sent with hsent | ⟨ftype, payload, k, rfl, hpre⟩
  · -- The call under way has sent nothing.
    have hsentBytes : sentBytes (seen ++ tail) = sentBytes seen := by
      rw [sentBytes_append, hsent, List.append_nil]
    rcases view_uttered hrun hv with
      ⟨hnil, hret⟩ | ⟨nonce, enc, hdrew, hpre, hret⟩ | ⟨t₁, t₂, r, rfl, hauth, hmore⟩
    · refine .inl ⟨hsentBytes.trans hnil, fun s hs => ?_⟩
      obtain ⟨hnone, pk, enc, hmem, hrc⟩ := hret s hs
      exact ⟨hnone, pk, enc, List.mem_append_left _ hmem, hrc⟩
    · refine .inr (.inl ⟨nonce, enc, hdrew.mono hsub, by rwa [hsentBytes], fun s hs => ?_⟩)
      rw [hsentBytes]
      exact (hret s hs).imp_right (.imp_right fun hf => hf.mono (List.subset_append_left _ _))
    · refine .inr (.inr ⟨t₁, t₂ ++ tail, r, List.append_assoc .., hauth, ?_⟩)
      rw [sentBytes_append, hsent, List.append_nil]
      refine hmore.imp_right ?_
      rintro ⟨ctEph, ssEph, hencaps, hpre⟩
      exact ⟨ctEph, ssEph, hencaps.mono (List.subset_append_left _ _), hpre⟩
  · -- It has sent a part of its frame.
    have hallowed : Allowed P cfg mode log (.inl (.write ftype payload)) :=
      (clientHandshake_allowed.of_run hrun).1
    rcases hallowed with ⟨rfl, nonce, enc, hdrawn, rfl⟩ | ⟨rfl, r, ctEph, ssEph, hex, rfl⟩
    · obtain ⟨hsent, -, hdrew⟩ := drawn_view hdrawn hv
      refine .inr (.inl ⟨nonce, enc, hdrew.mono hsub, ?_, fun s hs => by cases hs⟩)
      rwa [sentBytes_append, hsent, List.nil_append]
    · obtain ⟨t₁, t₂, rfl, hauth, hencaps, hsent⟩ := exchanged_view hex hv
      refine .inr (.inr ⟨t₁, t₂ ++ tail, r, List.append_assoc .., hauth, .inr ⟨ctEph, ssEph,
        hencaps.mono (List.subset_append_left _ _), ?_⟩⟩)
      rwa [sentBytes_append, hsent, List.nil_append]

/-- What a handshake puts on the wire. -/
private theorem clientHandshake_uttered {tr : SockLog β}
    {q' : Prog ((sockSig β).sum (host β)) (Option (Session β))}
    (hrun : Prog.Run (overSockets P (clientHandshake P cfg mode)) tr q') :
    Uttered P cfg mode tr fun s => q' = .ret s := by
  obtain ⟨log, q, seen, tail, rfl, hlog, hv, hp, hret⟩ := (frameLaws P 65535).view_of_run hrun
  exact (Uttered.pending hlog hv hp).mono hret

/-- When a handshake encapsulates: to the pinned key before anything is sent, or to the key that an
authenticated server sent. If the encapsulation fails, nothing more is written. -/
private theorem clientHandshake_encaps {t₁ t₂ : SockLog β} {pk : List β} {enc : Encapsulation β}
    {q' : Prog ((sockSig β).sum (host β)) (Option (Session β))}
    (hrun : Prog.Run (overSockets P (clientHandshake P cfg mode))
      (t₁ ++ ⟨.inr (.mlkem768Enc pk), enc⟩ :: t₂) q') :
    ((pk = cfg.serverPublicKey ∧ sentBytes t₁ = [] ∧ receivedBytes t₁ = []) ∨
      (mode.fs = true ∧ ∃ r, Authenticated P cfg mode t₁ r ∧ pk = slice 40 1184 r.reply.1)) ∧
    (enc.rc ≠ 0 → sentBytes t₂ = [] ∧ ∀ s, q' = .ret s → s = none) := by
  obtain ⟨l₁, l₂, q, seen, tail, rfl, hlog, hv₁, hv₂, hp, hret⟩ :=
    (frameLaws P 65535).view_of_internal hrun
  refine ⟨?_, fun hrc => ?_⟩
  · rcases clientHandshake_allowed.op_of_run hlog with ⟨rfl, nonce, rfl⟩ | ⟨hfs, r, hver, rfl⟩
    · cases hv₁ with
      | cons hfill hv₁ =>
        cases hfill
        cases hv₁
        exact .inl ⟨rfl, rfl, rfl⟩
    · exact .inr ⟨hfs, r, verified_view hver hv₁, rfl⟩
  · have hfailed : ∀ l, ¬ EncapsOk (l₁ ++ ⟨.inr (.mlkem768Enc pk), enc⟩ :: l) := fun l hok =>
      hrc (hok pk enc (by simp))
    -- The failed encapsulation is the last call.
    obtain rfl : l₂ = [] := by
      cases l₂ with
      | nil => rfl
      | cons e l₂ =>
        rw [← List.singleton_append, ← List.append_assoc] at hlog
        have hallowed := clientHandshake_allowed.op_of_run hlog
        exact absurd hallowed.encapsOk (hfailed [])
    cases hv₂
    refine ⟨?_, ?_⟩
    · -- Nor is a frame under way, which would have to be allowed.
      rcases hp.sent with hsent | ⟨ftype, payload, k, rfl, -⟩
      · exact hsent
      · have hallowed : Allowed P cfg mode _ (.inl (.write ftype payload)) :=
          (clientHandshake_allowed.of_run hlog).1
        exact absurd hallowed.encapsOk (hfailed [])
    · intro s hs
      obtain rfl := hret s hs
      cases s with
      | none => rfl
      | some session =>
        -- All encapsulations of a session have succeeded.
        obtain ⟨r, ctEph, ssEph, ⟨h, hex, heq⟩, -⟩ :=
          clientHandshake_allowed.ret_of_run hlog session rfl
        refine absurd ?_ (hfailed [])
        rw [heq]
        exact hex.encapsOk.concat fun pk enc heq => by cases heq

/-! ## The session -/

/-- The handshake of the C code, at the socket, is a handshake. -/
private theorem run_clientHandshake {m : Memory β} {tr : SockLog β}
    {q' : Prog ((sockSig β).sum (host β)) (Option (Session β) × Memory β)}
    (hrun : Prog.Run (overSockets P (exec P (handshake P cfg mode.suite) m)) tr q') :
    Prog.Run (overSockets P (clientHandshake P cfg mode)) tr (q' >>= fun r => .ret r.1) := by
  rw [← handshake_refines P cfg mode m, Prog.map_eq_bind, overSockets, Prog.interp_bind]
  exact hrun.bind_left _

variable (P) in
/-- What `pqc_session_run` does with the outcome of its handshake. -/
def sessionRest (recordCount : ℤ) : Option (Session β) → Code β Bool
  | none => do
    Code.host .close
    return false
  | some session => do
    if ← sendRecords P recordCount.toNat 0 session then
      let _ ← sendFrame frameClose []
      Code.host .close
      return true
    else
      Code.host .close
      return false

/-- A session connects, and goes on or gives up. -/
theorem exec_pqcSessionRun (recordCount : ℤ) (m : Memory β) :
    exec P (pqcSessionRun P cfg mode recordCount) m =
      .op (.inr .connectToServer) fun connected : Bool => if connected then
        exec P (handshake P cfg mode.suite) m >>= fun r =>
          exec P (sessionRest P recordCount r.1) r.2
      else
        .ret (false, m) := by
  rw [pqcSessionRun, exec_bind, exec_host, Prog.op_bind]
  refine congrArg (Prog.op _) (funext fun connected : Bool => ?_)
  cases connected with
  | false => rfl
  | true =>
    rw [Prog.ret_bind, exec_ite, if_pos rfl, exec_bind, if_pos rfl]
    refine congrArg (_ >>= ·) (funext fun r => ?_)
    obtain ⟨s, m'⟩ := r
    cases s <;> rfl

/-- The operations of the data phase. -/
def DataOp : (visible β).Op → Prop
  | .inl (.write ftype _) => ftype = frameData ∨ ftype = frameClose
  | .inr .close => True
  | _ => False

/-- Records are sent in Data frames. -/
private theorem sendRecords_dataOp (count n : ℕ) (session : Session β) (m : Memory β)
    (hsid : session.sessionId.length = 8) (h : Log β) :
    Prog.Spec (fun _ o => DataOp o) (fun _ _ => True) h
      (exec P (sendRecords P count n session) m) := by
  induction count generalizing n session m h with
  | zero => trivial
  | succ count ih =>
    rw [sendRecords]
    dsimp only
    generalize hplain : (⟨(P.lits (literal (recordText n))).take 79, _⟩ : Payload β 65535) = plain
    have hlen : plain.1.length ≤ 1230 := by
      have := List.length_take_le 79 (P.lits (literal (recordText n)))
      rw [← hplain]
      exact this.trans (by decide)
    obtain ⟨m', he⟩ := exec_sendRecord P session plain hsid hlen m
    rw [exec_bind, he, Prog.op_bind]
    refine ⟨.inl rfl, fun a => ?_⟩
    match a with
    | .ok () => exact ih (n + 1) { session with sendSeq := session.sendSeq + 1 } m' hsid _
    | .error () => trivial

/-- After the handshake only records are sent, and the end. -/
private theorem sessionRest_dataOp (recordCount : ℤ) (s : Option (Session β)) (m : Memory β)
    (hsid : ∀ session, s = some session → session.sessionId.length = 8) :
    Prog.Spec (fun _ o => DataOp o) (fun _ _ => True) []
      (exec P (sessionRest P recordCount s) m) := by
  cases s with
  | none => exact ⟨trivial, fun _ => trivial⟩
  | some session =>
    rw [sessionRest, exec_bind, Prog.spec_bind]
    refine (sendRecords_dataOp _ _ session m (hsid session rfl) []).mono (fun _ _ ho => ho)
      fun l r _ => ?_
    rw [exec_ite]
    split
    · rw [exec_bind, exec_sendFrame, Prog.op_bind]
      refine ⟨.inr rfl, fun a => ?_⟩
      match a with
      | .ok () => exact ⟨trivial, fun _ => trivial⟩
      | .error () => exact ⟨trivial, fun _ => trivial⟩
    · exact ⟨trivial, fun _ => trivial⟩

/-- After the handshake no encapsulation is executed, and nothing is written when it failed. -/
private theorem sessionRest_run {recordCount : ℤ} {s : Option (Session β)} {m : Memory β}
    {tr : SockLog β} {q' : Prog ((sockSig β).sum (host β)) (Bool × Memory β)}
    (hsid : ∀ session, s = some session → session.sessionId.length = 8)
    (hrun : Prog.Run (overSockets P (exec P (sessionRest P recordCount s) m)) tr q') :
    (∀ pk enc, ⟨.inr (.mlkem768Enc pk), enc⟩ ∉ tr) ∧ (s = none → sentBytes tr = []) := by
  constructor
  · intro pk enc hmem
    obtain ⟨t₁, t₂, rfl⟩ := List.append_of_mem hmem
    obtain ⟨l₁, l₂, q, seen, tail, -, hlog, -⟩ := (frameLaws P 65535).view_of_internal hrun
    exact (sessionRest_dataOp recordCount s m hsid).op_of_run hlog
  · -- Without a session the connection is closed at once.
    rintro rfl
    cases hrun with
    | nil => rfl
    | cons hrun =>
      obtain ⟨rfl, -⟩ := hrun.of_ret
      rfl

/-- The session id of a returned session is eight bytes of the ServerHello. -/
private theorem length_sessionId {m m' : Memory β} {tr : SockLog β} {s : Option (Session β)}
    (hrun : Prog.Run (overSockets P (exec P (handshake P cfg mode.suite) m)) tr (.ret (s, m'))) :
    ∀ session, s = some session → session.sessionId.length = 8 := by
  intro session hs
  obtain ⟨log, q, -, -, -, hlog, -, -, hret⟩ :=
    (frameLaws P 65535).view_of_run (run_clientHandshake hrun)
  obtain rfl := hret s rfl
  obtain ⟨r, ctEph, ssEph, ⟨h₀, hex, -⟩, rfl⟩ := clientHandshake_allowed.ret_of_run hlog session hs
  have hlen : r.reply.1.length = Protocol.serverHelloLen mode.spec := by
    rcases hex with ⟨-, -, -, ⟨-, -, hlen, -⟩, -⟩ | ⟨-, -, -, ⟨⟨-, -, hlen, -⟩, -⟩, -⟩
    · exact hlen
    · exact hlen
  refine length_slice ?_
  rw [hlen, serverHelloLen_spec]
  omega

/-- A run of `pqc_session_run`: not connected, in its handshake, or past it. -/
private theorem pqcSessionRun_cases {recordCount : ℤ} {m : Memory β} {tr : SockLog β}
    {q' : Prog ((sockSig β).sum (host β)) (Bool × Memory β)}
    (hrun : Prog.Run (overSockets P (exec P (pqcSessionRun P cfg mode recordCount) m)) tr q') :
    (tr = [] ∧ ∀ b, q' ≠ .ret b) ∨ tr = [⟨.inr .connectToServer, false⟩] ∨
    (∃ tr' q, tr = ⟨.inr .connectToServer, true⟩ :: tr' ∧ (∀ b, q' ≠ .ret b) ∧ (∀ s, q ≠ .ret s) ∧
      Prog.Run (overSockets P (clientHandshake P cfg mode)) tr' q) ∨
    (∃ t₁ t₂ s m', tr = ⟨.inr .connectToServer, true⟩ :: t₁ ++ t₂ ∧
      Prog.Run (overSockets P (exec P (handshake P cfg mode.suite) m)) t₁ (.ret (s, m')) ∧
      Prog.Run (overSockets P (exec P (sessionRest P recordCount s) m')) t₂ q') := by
  rw [exec_pqcSessionRun] at hrun
  cases hrun with
  | nil => exact .inl ⟨rfl, fun b hb => by cases hb⟩
  | @cons _ _ connected log _ hrun =>
    match connected, hrun with
    | false, hrun =>
      obtain ⟨rfl, -⟩ := hrun.of_ret
      exact .inr (.inl rfl)
    | true, hrun =>
      have hrun' : Prog.Run (overSockets P (exec P (handshake P cfg mode.suite) m >>= fun r =>
          exec P (sessionRest P recordCount r.1) r.2)) log q' := hrun
      rw [overSockets, Prog.interp_bind] at hrun'
      -- The handshake is under way, or it has returned.
      rcases hrun'.of_bind with ⟨o, k, hp, rfl⟩ | ⟨t₁, t₂, ⟨s, m'⟩, rfl, h₁, h₂⟩
      · exact .inr (.inr (.inl ⟨log, _, rfl, fun b hb => (by cases hb), fun s hs => (by cases hs),
          run_clientHandshake hp⟩))
      · exact .inr (.inr (.inr ⟨t₁, t₂, s, m', rfl, h₁, h₂⟩))

/-- Being connected puts nothing on the wire. -/
private theorem Authenticated.connected {tr : SockLog β} {r : Attempt β}
    (h : Authenticated P cfg mode tr r) :
    Authenticated P cfg mode (⟨.inr .connectToServer, true⟩ :: tr) r :=
  ⟨h.drew.mono (List.infix_cons List.infix_rfl), h.sent, h.received, h.length, h.mac⟩

/-- What a handshake puts on the wire is within its two frames. -/
private theorem Uttered.within {tr : SockLog β} {returned : Option (Session β) → Prop}
    (h : Uttered P cfg mode tr returned) : WithinHandshake P cfg mode tr := by
  rcases h with ⟨hnil, -⟩ | ⟨nonce, enc, hdrew, hpre, -⟩ |
    ⟨t₁, t₂, r, rfl, hauth, hsent | ⟨ctEph, ssEph, hencaps, hpre⟩⟩
  · exact .inl hnil
  · exact .inr (.inl ⟨nonce, enc, hdrew, hpre⟩)
  · -- Nothing has been written after the ClientHello.
    refine .inr (.inl ⟨r.nonce, r.enc, hauth.drew.mono ?_, ?_⟩)
    · rw [internalEvents_append]
      exact List.infix_append' [] _ _
    · rw [sentBytes_append, hsent, List.append_nil, hauth.sent]
      exact List.prefix_rfl
  · exact .inr (.inr ⟨t₁, t₂, r, ctEph, ssEph, rfl, hauth, hencaps, hpre⟩)

/-- The connection before a handshake, and what is silent after it, leave it within its frames. -/
private theorem WithinHandshake.extend {tr : SockLog β} (h : WithinHandshake P cfg mode tr)
    (after : SockLog β) (hafter : sentBytes after = []) :
    WithinHandshake P cfg mode (⟨.inr .connectToServer, true⟩ :: tr ++ after) := by
  have hsent : sentBytes (⟨.inr .connectToServer, true⟩ :: tr ++ after) = sentBytes tr := by
    rw [sentBytes_append, hafter, List.append_nil]
    rfl
  rcases h with hnil | ⟨nonce, enc, hdrew, hpre⟩ |
    ⟨t₁, t₂, r, ctEph, ssEph, rfl, hauth, hencaps, hpre⟩
  · exact .inl (hsent.trans hnil)
  · refine .inr (.inl ⟨nonce, enc, hdrew.mono ?_, by rwa [hsent]⟩)
    rw [internalEvents_append]
    exact List.infix_append_of_infix_left (List.infix_cons List.infix_rfl)
  · refine .inr (.inr ⟨_, t₂ ++ after, r, ctEph, ssEph, ?_, hauth.connected, hencaps.mono ?_, ?_⟩)
    · simp only [List.cons_append, List.append_assoc]
    · exact fun e he => List.mem_append_left _ (List.mem_cons_of_mem _ he)
    · rwa [sentBytes_append, hafter, List.append_nil]

/-- A handshake writes at most 2292 bytes: ClientHello has 1169, and ClientFinished 1123 in mode
B. -/
theorem WithinHandshake.length_le {tr : SockLog β} (h : WithinHandshake P cfg mode tr) :
    (sentBytes tr).length ≤ 2292 := by
  have hhello (r : { l : List β // l.length = 32 }) (enc : Encapsulation β) :
      (frameBytes P frameClientHello (helloPayload P cfg mode r.1 enc.ct)).length = 1169 := by
    rw [length_frameBytes, length_helloPayload P cfg mode r.2 enc.length_ct]
  rcases h with hnil | ⟨nonce, enc, -, hpre⟩ | ⟨t₁, t₂, r, ctEph, ssEph, rfl, hauth, hencaps, hpre⟩
  · rw [hnil]
    exact Nat.zero_le _
  · have hle := hpre.length_le
    rw [hhello] at hle
    omega
  · have hct : ctEph.length ≤ 1088 := by
      rcases hencaps with ⟨-, rfl, -⟩ | ⟨-, enc, -, -, rfl, -⟩
      · exact Nat.zero_le _
      · exact enc.length_ct.le
    have hle := hpre.length_le
    rw [length_frameBytes, Handshake.clientFinished, List.length_append,
      Handshake.length_clientMac] at hle
    have hvalues : (r.values P cfg mode ctEph ssEph).ctEph = ctEph := rfl
    rw [hvalues] at hle
    rw [sentBytes_append, List.length_append, hauth.sent, Attempt.hello, hhello]
    omega

/-- A handshake that has returned a session has written its two frames. -/
theorem handshake_written {m m' : Memory β} {tr : SockLog β} {session : Session β}
    (hrun : Prog.Run (overSockets P (exec P (handshake P cfg mode.suite) m)) tr
      (.ret (some session, m'))) : HandshakeWritten P cfg mode tr := by
  obtain ⟨log, q, seen, tail, rfl, hlog, hv, hp, hret⟩ :=
    (frameLaws P 65535).view_of_run (run_clientHandshake hrun)
  obtain rfl := hret (some session) rfl
  obtain rfl := hp.eq_nil
  obtain ⟨r, ctEph, ssEph, ⟨h₀, hex, rfl⟩, -⟩ :=
    clientHandshake_allowed.ret_of_run hlog session rfl
  obtain ⟨t, seg, rfl, ht, hm⟩ := hv.concat_inv
  obtain ⟨t₁, t₂, rfl, hauth, hencaps, hsent⟩ := exchanged_view hex ht
  refine ⟨t₁, t₂ ++ seg, r, ctEph, ssEph, by simp only [List.append_assoc, List.append_nil], hauth,
    hencaps.mono ?_, ?_⟩
  · rw [List.append_nil]
    exact List.subset_append_left _ _
  · cases hm with
    | written _ _ hseg => rw [sentBytes_append, hsent, hseg, List.nil_append]

/-- A session that has returned `true` has authenticated the server, and in mode B it has
encapsulated to the key that came with the authentic ServerHello. -/
theorem authenticated_of_returned {recordCount : ℤ} {m m' : Memory β} {tr : SockLog β}
    (hrun : Prog.Run (overSockets P (exec P (pqcSessionRun P cfg mode recordCount) m)) tr
      (.ret (true, m'))) :
    ∃ t₁ t₂ r, tr = t₁ ++ t₂ ∧ Authenticated P cfg mode t₁ r ∧ (mode.fs = true → ∃ enc,
      ⟨.inr (.mlkem768Enc (slice 40 1184 r.reply.1)), enc⟩ ∈ tr ∧ enc.rc = 0) := by
  rcases pqcSessionRun_cases hrun with
    ⟨rfl, hq⟩ | rfl | ⟨tr', q, rfl, hq, -⟩ | ⟨l₁, l₂, s, m₁, rfl, h₁, h₂⟩
  · -- Not connected yet.
    exact absurd rfl (hq _)
  · -- The connection failed, and `false` is returned.
    rw [exec_pqcSessionRun] at hrun
    cases hrun with
    | cons hrun =>
      obtain ⟨-, heq⟩ := hrun.of_ret
      cases heq
  · -- Still in the handshake.
    exact absurd rfl (hq _)
  · -- After the handshake, which has returned a session, or `false` would follow.
    cases s with
    | none =>
      cases h₂ with
      | cons h₂ =>
        obtain ⟨-, heq⟩ := h₂.of_ret
        cases heq
    | some session =>
      obtain ⟨t₁, t₂, r, ctEph, ssEph, rfl, hauth, hencaps, -⟩ := handshake_written h₁
      refine ⟨_, t₂ ++ l₂, r, by simp, hauth.connected, fun hfs => ?_⟩
      rcases hencaps with ⟨hmodeA, -⟩ | ⟨-, enc, hmem, hrc, -⟩
      · rw [hfs] at hmodeA
        cases hmodeA
      · exact ⟨enc, List.mem_append_left _ (List.mem_cons_of_mem _ hmem), hrc⟩

/-- The first connection attempt has failed. -/
def ConnectFailed (tr : SockLog β) : Prop := ⟨.inr .connectToServer, false⟩ ∈ tr

/-- What `pqc_session_run` writes before anything else. -/
private theorem pqcSessionRun_speaks {recordCount : ℤ} {m : Memory β} {tr : SockLog β}
    {q' : Prog ((sockSig β).sum (host β)) (Bool × Memory β)}
    (hrun : Prog.Run (overSockets P (exec P (pqcSessionRun P cfg mode recordCount) m)) tr q') :
    (sentBytes tr = [] ∧ ∀ b, q' = .ret b → ConnectFailed tr ∨ EncapsFailed tr) ∨
    (∃ nonce enc, Drew cfg tr nonce enc ∧
      sentBytes tr <+: frameBytes P frameClientHello (helloPayload P cfg mode nonce.1 enc.ct) ∧
      ∀ b, q' = .ret b → sentBytes tr =
        frameBytes P frameClientHello (helloPayload P cfg mode nonce.1 enc.ct) ∨ SendFailed tr) ∨
    (∃ t₁ t₂ r, tr = t₁ ++ t₂ ∧ Authenticated P cfg mode t₁ r) := by
  rcases pqcSessionRun_cases hrun with ⟨rfl, hq⟩ | rfl |
    ⟨tr', q, rfl, hq, -, h⟩ | ⟨l₁, l₂, s, m', rfl, h₁, h₂⟩
  · exact .inl ⟨rfl, fun b hb => absurd hb (hq b)⟩
  · exact .inl ⟨rfl, fun _ _ => .inl List.mem_cons_self⟩
  · -- In the handshake nothing has been returned.
    rcases clientHandshake_uttered h with
      ⟨hnil, -⟩ | ⟨nonce, enc, hdrew, hpre, -⟩ | ⟨t₁, t₂, r, rfl, hauth, -⟩
    · exact .inl ⟨hnil, fun b hb => absurd hb (hq b)⟩
    · exact .inr (.inl ⟨nonce, enc, hdrew.mono (List.infix_cons List.infix_rfl), hpre,
        fun b hb => absurd hb (hq b)⟩)
    · exact .inr (.inr ⟨_, t₂, r, rfl, hauth.connected⟩)
  · -- Past it, only a session makes the rest write anything.
    obtain ⟨-, hquiet⟩ := sessionRest_run (length_sessionId h₁) h₂
    have hsub : l₁ ⊆ ⟨.inr .connectToServer, true⟩ :: l₁ ++ l₂ := fun e he =>
      List.mem_append_left _ (List.mem_cons_of_mem _ he)
    have hsent : s = none → sentBytes (⟨.inr .connectToServer, true⟩ :: l₁ ++ l₂) =
        sentBytes l₁ := by
      intro hs
      rw [sentBytes_append, hquiet hs, List.append_nil]
      rfl
    rcases clientHandshake_uttered (run_clientHandshake h₁) with
      ⟨hnil, hret⟩ | ⟨nonce, enc, hdrew, hpre, hret⟩ | ⟨t₁, t₂, r, rfl, hauth, -⟩
    · obtain ⟨hs, pk, enc, hmem, hrc⟩ := hret s rfl
      exact .inl ⟨(hsent hs).trans hnil, fun _ _ => .inr ⟨pk, enc, hsub hmem, hrc⟩⟩
    · obtain ⟨hs, hcomplete⟩ := hret s rfl
      refine .inr (.inl ⟨nonce, enc, hdrew.mono ?_, by rwa [hsent hs], fun _ _ => ?_⟩)
      · rw [internalEvents_append]
        exact List.infix_append_of_infix_left (List.infix_cons List.infix_rfl)
      · rw [hsent hs]
        exact hcomplete.imp_right fun hf => hf.mono hsub
    · exact .inr (.inr ⟨_, t₂ ++ l₂, r, by simp, hauth.connected⟩)

/-- When `pqc_session_run` encapsulates. -/
private theorem pqcSessionRun_encaps {recordCount : ℤ} {m : Memory β} {t₁ t₂ : SockLog β}
    {pk : List β} {enc : Encapsulation β}
    {q' : Prog ((sockSig β).sum (host β)) (Bool × Memory β)}
    (hrun : Prog.Run (overSockets P (exec P (pqcSessionRun P cfg mode recordCount) m))
      (t₁ ++ ⟨.inr (.mlkem768Enc pk), enc⟩ :: t₂) q') :
    ((pk = cfg.serverPublicKey ∧ sentBytes t₁ = [] ∧ receivedBytes t₁ = []) ∨
      (mode.fs = true ∧ ∃ r, Authenticated P cfg mode t₁ r ∧ pk = slice 40 1184 r.reply.1)) ∧
    (enc.rc ≠ 0 → sentBytes t₂ = []) := by
  -- What holds of a handshake holds with the connection before it.
  have hlift : ∀ t : SockLog β,
      ((pk = cfg.serverPublicKey ∧ sentBytes t = [] ∧ receivedBytes t = []) ∨
      (mode.fs = true ∧ ∃ r, Authenticated P cfg mode t r ∧ pk = slice 40 1184 r.reply.1)) →
      let t' : SockLog β := ⟨.inr .connectToServer, true⟩ :: t
      ((pk = cfg.serverPublicKey ∧ sentBytes t' = [] ∧ receivedBytes t' = []) ∨
      (mode.fs = true ∧ ∃ r, Authenticated P cfg mode t' r ∧ pk = slice 40 1184 r.reply.1)) := by
    rintro t (hstatic | ⟨hfs, r, hauth, hpk⟩)
    · exact .inl hstatic
    · exact .inr ⟨hfs, r, hauth.connected, hpk⟩
  rcases pqcSessionRun_cases hrun with ⟨htr, -⟩ | htr |
    ⟨tr', q, htr, -, -, h⟩ | ⟨l₁, l₂, s, m', htr, h₁, h₂⟩
  · simp at htr
  · cases t₁ with
    | nil => cases htr
    | cons e t₁ => simp at htr
  · cases t₁ with
    | nil => cases htr
    | cons e t₁ =>
      rw [List.cons_append, List.cons.injEq] at htr
      obtain ⟨rfl, rfl⟩ := htr
      obtain ⟨hwhen, hfailed⟩ := clientHandshake_encaps h
      exact ⟨hlift t₁ hwhen, fun hrc => (hfailed hrc).1⟩
  · cases t₁ with
    | nil => cases htr
    | cons e t₁ =>
      simp only [List.cons_append, List.cons.injEq] at htr
      obtain ⟨rfl, htr⟩ := htr
      obtain ⟨hnever, hquiet⟩ := sessionRest_run (length_sessionId h₁) h₂
      -- The call is one of the handshake.
      obtain ⟨as, rfl, rfl⟩ : ∃ as, l₁ = t₁ ++ ⟨.inr (.mlkem768Enc pk), enc⟩ :: as ∧
          t₂ = as ++ l₂ := by
        rcases List.append_eq_append_iff.mp htr with ⟨as, rfl, htail⟩ | ⟨cs, rfl, rfl⟩
        · cases as with
          | nil => exact absurd (by rw [← List.nil_append l₂, ← htail]; simp) (hnever pk enc)
          | cons e as =>
            rw [List.cons_append, List.cons.injEq] at htail
            obtain ⟨rfl, rfl⟩ := htail
            exact ⟨as, rfl, rfl⟩
        · exact absurd (by simp) (hnever pk enc)
      obtain ⟨hwhen, hfailed⟩ := clientHandshake_encaps (run_clientHandshake h₁)
      refine ⟨hlift t₁ hwhen, fun hrc => ?_⟩
      obtain ⟨hsent, hnone⟩ := hfailed hrc
      rw [sentBytes_append, hsent, hquiet (hnone s rfl)]
      rfl

/-- The firmware never talks past an unauthenticated server. Over every socket, whatever bytes
arrive and however calls are split or fail, and for all randomness:

* what `pqc_session_run` writes is nothing, or a prefix of one ClientHello frame — the whole frame,
  unless the transport or the static encapsulation has failed — until the first frame received is an
  authentic ServerHello;
* the ephemeral encapsulation is executed only after that, and when an encapsulation fails, nothing
  more is written;
* as long as `handshake` has not returned `true`, what is written is within its ClientHello and its
  ClientFinished, so that no Data or Close frame is written; when it has, these are what it has
  written. -/
theorem pqcSessionRun_guarded (P : Prims β) (cfg : Config β) (mode : Mode) (recordCount : ℤ)
    (m : Memory β) (tr : SockLog β) (q' : Prog ((sockSig β).sum (host β)) (Bool × Memory β))
    (hrun : Prog.Run (overSockets P (exec P (pqcSessionRun P cfg mode recordCount) m)) tr q') :
    ((sentBytes tr = [] ∧ ∀ b, q' = .ret b → ConnectFailed tr ∨ EncapsFailed tr) ∨
      (∃ nonce enc, Drew cfg tr nonce enc ∧
        sentBytes tr <+: frameBytes P frameClientHello (helloPayload P cfg mode nonce.1 enc.ct) ∧
        ∀ b, q' = .ret b → sentBytes tr =
          frameBytes P frameClientHello (helloPayload P cfg mode nonce.1 enc.ct) ∨ SendFailed tr) ∨
      (∃ t₁ t₂ r, tr = t₁ ++ t₂ ∧ Authenticated P cfg mode t₁ r)) ∧
    (∀ (t₁ : SockLog β) pk (enc : Encapsulation β) (t₂ : SockLog β),
      tr = t₁ ++ ⟨.inr (.mlkem768Enc pk), enc⟩ :: t₂ →
      ((pk = cfg.serverPublicKey ∧ sentBytes t₁ = [] ∧ receivedBytes t₁ = []) ∨
        (mode.fs = true ∧ ∃ r, Authenticated P cfg mode t₁ r ∧ pk = slice 40 1184 r.reply.1)) ∧
      (enc.rc ≠ 0 → sentBytes t₂ = [])) ∧
    (WithinHandshake P cfg mode tr ∨
      (∃ t₁ t₂ session m', tr = ⟨.inr .connectToServer, true⟩ :: t₁ ++ t₂ ∧
        Prog.Run (overSockets P (exec P (handshake P cfg mode.suite) m)) t₁
          (.ret (some session, m')) ∧ HandshakeWritten P cfg mode t₁)) := by
  refine ⟨pqcSessionRun_speaks hrun, ?_, ?_⟩
  · rintro t₁ pk enc t₂ rfl
    exact pqcSessionRun_encaps hrun
  · -- Only after a handshake that has returned a session is more written than its own frames.
    rcases pqcSessionRun_cases hrun with ⟨rfl, -⟩ | rfl |
      ⟨tr', q, rfl, -, -, h⟩ | ⟨l₁, l₂, s, m', rfl, h₁, h₂⟩
    · exact .inl (.inl rfl)
    · exact .inl (.inl rfl)
    · exact .inl (by simpa using (clientHandshake_uttered h).within.extend [] rfl)
    · cases s with
      | some session => exact .inr ⟨l₁, l₂, session, m', rfl, h₁, handshake_written h₁⟩
      | none =>
        obtain ⟨-, hquiet⟩ := sessionRest_run (length_sessionId h₁) h₂
        exact .inl ((clientHandshake_uttered (run_clientHandshake h₁)).within.extend _ (hquiet rfl))

end Guard

end Firmware

end PqcIot
