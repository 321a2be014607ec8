import PqcIot.Crypto.Constant
import PqcIot.Testing.Client

/-!
# What the negative tests establish

A test passes when its function raises. The functions of the first three tests raise unless the
server completes the handshake on a bad ClientHello; those of the last three raise whatever the
server does. So `run_negative` returns `True` unless one of the first three attacks gets through,
and this says that all six were refused only of the servers for which that holds anyway
(`runNegative_sound_iff`).
-/

namespace PqcIot

open Effects Protocol

namespace TestClient

variable {β α γ : Type}

/-- What has happened. -/
abbrev Log (β : Type) := List (Event (clientOps β))

/-! ## What the server did -/

/-- A frame of the type got through to the server. -/
def Sent (ftype : UInt8) (l : Log β) : Prop :=
  ∃ payload, (⟨.writeFrame ftype payload, .ok ()⟩ : Event (clientOps β)) ∈ l

/-- The server answered with a ServerHello. -/
def Answered (l : Log β) : Prop :=
  ∃ payload, (⟨.readFrame, .ok (frameServerHello, payload)⟩ : Event (clientOps β)) ∈ l

/-- The server closed the connection after the handshake: the end of the stream, or a reset. -/
def Closed (l : Log β) : Prop :=
  (∃ n r, r.1 = [] ∧ (⟨.recv n, .ok r⟩ : Event (clientOps β)) ∈ l) ∨
    (∃ n, (⟨.recv n, .error .connectionError⟩ : Event (clientOps β)) ∈ l) ∨
      ∃ payload, (⟨.writeFrame frameData payload, .error .connectionError⟩ : Event
        (clientOps β)) ∈ l

/-- The connection stayed open, and nothing came for as long as the client waited. -/
def LeftOpen (l : Log β) : Prop :=
  ∃ n, (⟨.recv n, .error .timeout⟩ : Event (clientOps β)) ∈ l

/-- The attacks with a bad ClientHello. -/
def Attack.OnHello : Attack → Prop
  | .forgedPskMac | .unknownDevice | .wrongPsk => True
  | .forgedClientMac | .replayedRecord | .tamperedCiphertext => False

instance : DecidablePred Attack.OnHello := fun a => by
  cases a <;> simp only [Attack.OnHello] <;> infer_instance

/-- The server refused an attack in the test `l`. A bad ClientHello is refused by not answering with
a ServerHello; the other attacks, which come after it, by closing the connection. -/
def Attack.Refused (a : Attack) (l : Log β) : Prop :=
  if a.OnHello then Sent frameClientHello l ∧ ¬ Answered l
  else Sent frameClientFinished l ∧ Closed l

/-- The server completed the handshake on a bad ClientHello. -/
def Attack.Completed (a : Attack) (l : Log β) : Prop :=
  a.OnHello ∧ Sent frameClientFinished l

/-- The server kept the connection open, silently, after one of the other attacks. -/
def Attack.SilentlyAccepted (a : Attack) (l : Log β) : Prop :=
  ¬ a.OnHello ∧ Sent frameClientFinished l ∧ LeftOpen l

/-! ## The handshake -/

/-- Operations of a handshake before ClientFinished. -/
def Early : ClientOp β → Prop
  | .writeFrame ftype _ => ftype = frameClientHello
  | .recv _ => False
  | _ => True

/-- Nothing but such operations. -/
def BeforeFinished (h : Log β) : Prop := ∀ e ∈ h, Early e.1

/-- At the beginning nothing has been done. -/
theorem beforeFinished_nil : BeforeFinished ([] : Log β) := nofun

/-- An early call leaves it so. -/
theorem BeforeFinished.concat {h : Log β} (hh : BeforeFinished h) {o : ClientOp β} (ho : Early o)
    (a : ClientOp.Ans o) : BeforeFinished (h ++ [(⟨o, a⟩ : Event (clientOps β))]) := by
  intro e he
  rcases List.mem_append.mp he with he | he
  · exact hh e he
  · rw [List.mem_singleton.mp he]
    exact ho

/-- ClientFinished has not been sent then. -/
theorem BeforeFinished.not_sent {h : Log β} (hh : BeforeFinished h) :
    ¬ Sent frameClientFinished h := by
  rintro ⟨payload, hmem⟩
  exact absurd (hh _ hmem) (by decide : ¬ frameClientFinished = frameClientHello)

/-- The peer has not been seen to close the connection then. -/
theorem BeforeFinished.not_closed {h : Log β} (hh : BeforeFinished h) : ¬ Closed h := by
  rintro (⟨n, r, -, hmem⟩ | ⟨n, hmem⟩ | ⟨payload, hmem⟩)
  · exact hh _ hmem
  · exact hh _ hmem
  · exact absurd (hh _ hmem) (by decide : ¬ frameData = frameClientHello)

/-- Nor to leave it open. -/
theorem BeforeFinished.not_leftOpen {h : Log β} (hh : BeforeFinished h) : ¬ LeftOpen h := by
  rintro ⟨n, hmem⟩
  exact hh _ hmem

/-- A stage of the handshake before ClientFinished. -/
abbrev Preliminary (c : Code β α) : Prop := Raising.Only (S := clientOps β) Early c

/-- The history up to ClientFinished, with its outcome. -/
def FinishedWith (answer : Except ClientExn Unit) (h : Log β) : Prop :=
  ∃ h₀ payload, BeforeFinished h₀ ∧
    h = h₀ ++ [(⟨.writeFrame frameClientFinished payload, answer⟩ : Event (clientOps β))]

/-- A handshake that returns has sent ClientFinished; one that raises has not. -/
abbrev Handshakes (h : Log β) (c : Code β α) : Prop :=
  Raising.Ensures (fun _ _ => True) (fun h' _ => FinishedWith (.ok ()) h')
    (fun h' e => BeforeFinished h' ∨ FinishedWith (.error e) h') h c

/-- A preliminary stage, and the rest of the handshake after it. -/
theorem Preliminary.bind_handshakes {c : Code β α} {f : α → Code β γ} (hc : Preliminary c)
    (hf : ∀ a h', BeforeFinished h' → Handshakes h' (f a)) {h : Log β} (hh : BeforeFinished h) :
    Handshakes h (c >>= f) := by
  rw [Handshakes, Raising.ensures_bind]
  refine (hc.invariant (I := BeforeFinished) (fun h' o a ho hh' => hh'.concat ho a) hh).mono
    (fun _ _ _ => trivial) (fun l a hl => hf a _ hl) fun l e hl => .inl hl

/-- A handshake may fail before ClientFinished. -/
theorem Handshakes.raise {h : Log β} (hh : BeforeFinished h) (e : ClientExn) :
    Handshakes h (Code.raise e : Code β α) := Or.inl hh

section Stages

open Raising

/-- `OSError` is raised or not. -/
theorem preliminary_orOSError (x : Option α) : Preliminary (Code.orOSError x : Code β α) := by
  cases x with
  | none => exact Only.raise _
  | some a => exact Only.pure a

/-- An exception of the protocol is raised or not. -/
theorem preliminary_ofPy (r : Except PyExn α) : Preliminary (Code.ofPy r : Code β α) := by
  cases r with
  | error e => exact Only.raise _
  | ok a => exact Only.pure a

/-- A result is returned or raised. -/
theorem preliminary_ofExcept (r : Except ClientExn α) : Preliminary (Code.ofExcept r : Code β α) :=
  Only.ofExcept r

/-- An early call. -/
theorem preliminary_call {o : ClientOp β} (ho : Early o) : Preliminary (Code.call o) :=
  Only.call ho

/-- What `openssl` has left is read. -/
theorem preliminary_encapsulation (failed : String) (result : Option (Encapsulation β)) :
    Preliminary (encapsulation failed result) := by
  refine Only.bind (preliminary_orOSError result) fun finished => Only.ite (Only.raise _) ?_
  exact Only.bind (preliminary_orOSError _) fun ct => Only.bind (preliminary_orOSError _) fun ss =>
    Only.pure (ct, ss)

/-- The encapsulation to the static key. -/
theorem preliminary_encapsulate : Preliminary (encapsulate (β := β)) :=
  Only.bind (preliminary_call trivial) fun result => preliminary_encapsulation _ result

/-- That to the ephemeral key. -/
theorem preliminary_encapsulateDer (der : List β) : Preliminary (encapsulateDer der) :=
  Only.bind (preliminary_call trivial) fun result => preliminary_encapsulation _ result

/-- The server's public key is read. -/
theorem preliminary_pinnedDer : Preliminary (pinnedDer (β := β)) :=
  Only.bind (preliminary_call trivial) fun result => Only.bind (preliminary_orOSError result)
    fun _ => Only.ite (Only.raise _) (Only.pure _)

/-- A raw key is wrapped. -/
theorem preliminary_wrapRawPubkey (raw : List β) : Preliminary (wrapRawPubkey raw) := by
  refine Only.bind preliminary_pinnedDer fun der => Only.ite (Only.raise _) ?_
  exact Only.bind (preliminary_call trivial) fun written =>
    Only.bind (preliminary_orOSError written) fun _ => Only.pure _

variable (P : Prims β)

/-- The identifier of the server's key. -/
theorem preliminary_serverKeyId : Preliminary (serverKeyId P) := by
  refine Only.bind preliminary_pinnedDer fun der => ?_
  split
  · exact Only.pure _
  · exact Only.raise _

/-- From the answer to ClientFinished. -/
theorem preliminary_exchange (ssStatic psk clientNonce serverNonce th2 ekEph : List β)
    (keysA : Option (SessionKeys β)) :
    Preliminary (exchange P ssStatic psk clientNonce serverNonce th2 ekEph keysA) := by
  cases keysA with
  -- Mode A.
  | some keys => exact Only.pure _
  | none =>
    exact Only.bind (preliminary_wrapRawPubkey _) fun der =>
      Only.bind (preliminary_encapsulateDer der) fun _ =>
        Only.bind (preliminary_ofPy _) fun _ => Only.pure _

/-- A handshake returns exactly if the server lets ClientFinished through. -/
theorem handshakes_handshake [DecidableEq β] (suite : Suite) (deviceId psk : List β)
    (corruptPskMac corruptClientMac : Bool) {h : Log β} (hh : BeforeFinished h) :
    Handshakes h (handshake P suite deviceId psk corruptPskMac corruptClientMac) := by
  refine preliminary_encapsulate.bind_handshakes (fun ⟨kemCt, ssStatic⟩ h₁ hh₁ => ?_) hh
  -- Stage by stage; none of them can write ClientFinished.
  refine Preliminary.bind_handshakes (preliminary_call (o := .tokenBytes nonceLen) trivial)
    (fun nonce h₂ hh₂ => ?_) hh₁
  refine (preliminary_serverKeyId P).bind_handshakes (fun keyId h₃ hh₃ => ?_) hh₂
  refine Preliminary.bind_handshakes (preliminary_call (o := .connect) trivial)
    (fun connected h₄ hh₄ => ?_) hh₃
  refine (preliminary_ofExcept _).bind_handshakes (fun _ h₅ hh₅ => ?_) hh₄
  refine Preliminary.bind_handshakes (preliminary_call (o := .writeFrame frameClientHello _) rfl)
    (fun written h₆ hh₆ => ?_) hh₅
  refine (preliminary_ofExcept _).bind_handshakes (fun _ h₇ hh₇ => ?_) hh₆
  refine Preliminary.bind_handshakes (preliminary_call (o := .readFrame) trivial)
    (fun frame h₈ hh₈ => ?_) hh₇
  refine (preliminary_ofExcept _).bind_handshakes (fun ⟨ftype, payload⟩ h₉ hh₉ => ?_) hh₈
  refine ensures_ite (fun _ => Handshakes.raise hh₉ _) fun _ => ?_
  refine ensures_ite (fun _ => Handshakes.raise hh₉ _) fun _ => ?_
  refine (preliminary_ofPy _).bind_handshakes (fun ⟨keysA, srvConfirm⟩ h' hh' => ?_) hh₉
  refine ensures_ite (fun _ => Handshakes.raise hh' _) fun _ => ?_
  refine (preliminary_exchange P _ _ _ _ _ _ keysA).bind_handshakes
    (fun exchanged h'' hh'' => ?_) hh'
  -- Only ClientFinished is left.
  refine (ensures_bind _ _).mpr ⟨trivial, fun answer => ?_⟩
  refine (ensures_bind _ _).mpr
    ((ensures_ofExcept answer).mpr ⟨fun _ hanswer => ?_, fun e hanswer => ?_⟩)
  · exact ⟨h'', _, hh'', by rw [hanswer]⟩
  · exact .inr ⟨h'', _, hh'', by rw [hanswer]⟩

end Stages

/-! ## One test -/

/-- A completed test: its function has returned and it fails, or it has raised and it passes. -/
theorem run_of_expectRejection {label : String} {fn : Code β Unit} {l : Log β} {passed : Bool}
    (hrun : Prog.Run (expectRejection label fn).run l (.ret (.ok passed))) :
    ∃ l₀ line outcome, l = l₀ ++ [(⟨.print line, ()⟩ : Event (clientOps β))] ∧
      Prog.Run fn.run l₀ (.ret outcome) ∧ (passed = true ↔ ∃ e, outcome = .error e) := by
  obtain ⟨l₁, l₂, outcome, rfl, hfn, hrest⟩ := Raising.run_of_bind_ok hrun
  have hbody : Prog.Run fn.run l₁ (.ret outcome) := by
    obtain ⟨l₃, l₄, r, rfl, hr, hret⟩ := Prog.Run.of_bind_ret hfn
    obtain ⟨rfl, heq⟩ := hret.of_ret
    cases heq
    rwa [List.append_nil]
  cases outcome with
  -- The function has returned, which fails the test.
  | ok u =>
    obtain ⟨l₃, l₄, a, rfl, hprint, hret⟩ := Raising.run_of_bind_ok hrest
    obtain ⟨_, rfl, -⟩ := Raising.run_of_call hprint
    obtain ⟨rfl, heq⟩ := Prog.Run.of_ret hret
    cases heq
    exact ⟨l₁, _, _, rfl, hbody, by simp⟩
  | error e =>
    dsimp only at hrest
    split at hrest
    · obtain ⟨l₃, l₄, a, rfl, hprint, hret⟩ := Raising.run_of_bind_ok hrest
      obtain ⟨_, rfl, -⟩ := Raising.run_of_call hprint
      obtain ⟨rfl, heq⟩ := Prog.Run.of_ret hret
      cases heq
      exact ⟨l₁, _, _, rfl, hbody, by simp⟩
    · -- What is not caught is raised again.
      obtain ⟨-, heq⟩ := Prog.Run.of_ret hrest
      cases heq

section Tests

variable (P : Prims β) [DecidableEq β] (suite : Suite) (deviceId psk : List β)

/-- The function of a test with a bad ClientHello returns exactly if the handshake is completed. -/
theorem badHello_outcome (corruptPskMac : Bool) {h : Log β} (hh : BeforeFinished h) :
    Raising.Ensures (fun _ _ => True) (fun h' _ => Sent frameClientFinished h')
      (fun h' _ => ¬ Sent frameClientFinished h') h
      (badHello P suite deviceId psk corruptPskMac) := by
  refine (Raising.ensures_bind _ _).mpr ((handshakes_handshake P suite deviceId psk corruptPskMac
    false hh).mono (fun _ _ ho => ho) ?_ ?_)
  · -- It returns after the handshake has.
    rintro l ⟨stream, n⟩ ⟨h₀, payload, -, heq⟩
    refine ⟨trivial, fun _ => ⟨payload, List.mem_append_left _ ?_⟩⟩
    rw [heq]
    exact List.mem_append_right _ List.mem_cons_self
  · -- It raises before ClientFinished, or because ClientFinished is not let through.
    rintro l e (hl | ⟨h₀, payload, hh₀, heq⟩)
    · exact hl.not_sent
    · rintro ⟨payload', hmem⟩
      rw [heq] at hmem
      rcases List.mem_append.mp hmem with hmem | hmem
      · exact hh₀.not_sent ⟨payload', hmem⟩
      · cases List.mem_singleton.mp hmem

end Tests

/-- The server has neither closed the connection nor left it open for as long as the client
waits. -/
def Undecided (h : Log β) : Prop := ¬ Closed h ∧ ¬ LeftOpen h

/-- Before ClientFinished the server has decided nothing. -/
theorem BeforeFinished.undecided {h : Log β} (hh : BeforeFinished h) : Undecided h :=
  ⟨hh.not_closed, hh.not_leftOpen⟩

/-- Only failed data frames and `recv` decide. -/
theorem Undecided.concat {h : Log β} (hh : Undecided h) {e : Event (clientOps β)}
    (hrecv : ∀ n a, e ≠ ⟨.recv n, a⟩) (hdata : ∀ payload, e ≠ ⟨.writeFrame frameData payload,
      .error .connectionError⟩) : Undecided (h ++ [e]) := by
  constructor
  · rintro (⟨n, r, hr, hmem⟩ | ⟨n, hmem⟩ | ⟨payload, hmem⟩)
    all_goals rcases List.mem_append.mp hmem with hmem | hmem
    · exact hh.1 (.inl ⟨n, r, hr, hmem⟩)
    · exact hrecv n _ (List.mem_singleton.mp hmem).symm
    · exact hh.1 (.inr (.inl ⟨n, hmem⟩))
    · exact hrecv n _ (List.mem_singleton.mp hmem).symm
    · exact hh.1 (.inr (.inr ⟨payload, hmem⟩))
    · exact hdata payload (List.mem_singleton.mp hmem).symm
  · rintro ⟨n, hmem⟩
    rcases List.mem_append.mp hmem with hmem | hmem
    · exact hh.2 ⟨n, hmem⟩
    · exact hrecv n _ (List.mem_singleton.mp hmem).symm

/-- Nor has it right after that. -/
theorem FinishedWith.undecided {answer : Except ClientExn Unit} {h : Log β}
    (hh : FinishedWith answer h) : Undecided h := by
  obtain ⟨h₀, payload, hh₀, rfl⟩ := hh
  refine hh₀.undecided.concat (fun n a heq => ?_) fun payload' heq => ?_
  · cases heq
  · rw [Sigma.mk.injEq] at heq
    exact absurd (ClientOp.writeFrame.inj heq.1).1 (by decide)

/-- The function of one of the other tests: it raises, and then the server has not both closed the
connection and left it open. -/
abbrev Raises (h : Log β) (c : Code β Unit) : Prop :=
  Raising.Ensures (fun _ _ => True) (fun _ _ => False) (fun h' _ => ¬ (Closed h' ∧ LeftOpen h')) h c

/-- An exception while nothing is decided. -/
theorem Raises.raise {h : Log β} (hh : Undecided h) (e : ClientExn) :
    Raises h (Code.raise e : Code β Unit) := fun hboth => hh.1 hboth.1

/-- A result that may be an exception, and what follows it. -/
theorem Raises.ofPy {h : Log β} (hh : Undecided h) {r : Except PyExn α} {f : α → Code β Unit}
    (hf : ∀ a, Raises h (f a)) : Raises h (Code.ofPy r >>= f) := by
  cases r with
  | error e => exact Raises.raise hh (.raised e)
  | ok a => exact hf a

/-- Sending a data frame. -/
theorem Raises.writeData {h : Log β} (hh : Undecided h) (frame : List β) {c : Code β Unit}
    (hc : ∀ h', Undecided h' → Raises h' c) :
    Raises h (do
      Code.ofExcept (← Code.call (.writeFrame frameData frame))
      c) := by
  refine (Raising.ensures_bind _ _).mpr ⟨trivial, fun answer => ?_⟩
  refine (Raising.ensures_bind _ _).mpr
    ((Raising.ensures_ofExcept answer).mpr ⟨fun _ hanswer => hc _ ?_, fun e hanswer hboth => ?_⟩)
  · rw [hanswer]
    exact hh.concat (fun n a heq => by cases heq) fun payload heq => by cases heq
  · -- The connection may be gone now, but the client has not waited.
    obtain ⟨n, hmem⟩ := hboth.2
    rcases List.mem_append.mp hmem with hmem | hmem
    · exact hh.2 ⟨n, hmem⟩
    · cases List.mem_singleton.mp hmem

/-- Waiting for the server to close the connection. -/
theorem Raises.recv {h : Log β} (hh : Undecided h)
    {f : { l : List β // l.length ≤ 1 } → Code β Unit}
    (hf : ∀ r, ∃ e, f r = Code.raise e) :
    Raises h (do
      Code.call (.settimeout 5)
      f (← Code.ofExcept (← Code.call (.recv 1)))) := by
  refine (Raising.ensures_bind _ _).mpr ⟨trivial, fun _ => ?_⟩
  refine (Raising.ensures_bind _ _).mpr ⟨trivial, fun answer => ?_⟩
  have hset : Undecided (h ++ [(⟨.settimeout 5, ()⟩ : Event (clientOps β))]) :=
    hh.concat (fun n a heq => by cases heq) fun payload heq => by cases heq
  -- There is one `recv`, and it ends one way.
  have hrecv : ¬ (Closed (h ++ [(⟨.settimeout 5, ()⟩ : Event (clientOps β))] ++
    [⟨.recv 1, answer⟩]) ∧
      LeftOpen (h ++ [(⟨.settimeout 5, ()⟩ : Event (clientOps β))] ++ [⟨.recv 1, answer⟩])) := by
    rintro ⟨hclosed, n, hopen⟩
    have hanswer : answer = .error .timeout := by
      rcases List.mem_append.mp hopen with hmem | hmem
      · exact absurd ⟨n, hmem⟩ hset.2
      · cases List.mem_singleton.mp hmem
        rfl
    subst hanswer
    -- The connection was closed before, which has been excluded.
    refine hset.1 ?_
    rcases hclosed with ⟨m, r, hr, hmem⟩ | ⟨m, hmem⟩ | ⟨payload, hmem⟩
    all_goals rcases List.mem_append.mp hmem with hmem | hmem
    · exact .inl ⟨m, r, hr, hmem⟩
    · cases List.mem_singleton.mp hmem
    · exact .inr (.inl ⟨m, hmem⟩)
    · cases List.mem_singleton.mp hmem
    · exact .inr (.inr ⟨payload, hmem⟩)
    · cases List.mem_singleton.mp hmem
  refine (Raising.ensures_bind _ _).mpr
    ((Raising.ensures_ofExcept answer).mpr ⟨fun r _ => ?_, fun e _ => hrecv⟩)
  obtain ⟨e, he⟩ := hf r
  rw [he]
  exact hrecv

/-- After a handshake. -/
theorem Raises.handshake (P : Prims β) [DecidableEq β] (suite : Suite) (deviceId psk : List β)
    (corruptPskMac corruptClientMac : Bool) {f : RecordStream β × ℕ → Code β Unit}
    (hf : ∀ r h', Undecided h' → Raises h' (f r)) {h : Log β} (hh : BeforeFinished h) :
    Raises h (TestClient.handshake P suite deviceId psk corruptPskMac corruptClientMac >>= f) := by
  refine (Raising.ensures_bind _ _).mpr ((handshakes_handshake P suite deviceId psk corruptPskMac
    corruptClientMac hh).mono (fun _ _ ho => ho) (fun l r hr => hf r _ hr.undecided) ?_)
  rintro l e (hl | hl) hboth
  · exact hl.undecided.1 hboth.1
  · exact hl.undecided.1 hboth.1

section Tests

variable (P : Prims β) [DecidableEq β] (suite : Suite) (deviceId psk : List β)

/-- The attack with a wrong ClientFinished always ends with an exception. -/
theorem raises_forgedClientMac : Raises [] (forgedClientMac P suite deviceId psk) := by
  refine Raises.handshake P suite deviceId psk false true (fun ⟨stream, n⟩ h hh => ?_)
    beforeFinished_nil
  refine Raises.ofPy hh fun frame => Raises.writeData hh frame fun h' hh' => ?_
  exact Raises.recv hh' fun _ => ⟨_, rfl⟩

omit [DecidableEq β] in
/-- `sock.recv(1)` raises in either case. -/
theorem raises_expectClosed (closed : String) {h : Log β} (hh : Undecided h) :
    Raises h (expectClosed closed) := by
  refine Raises.recv hh fun r => ?_
  by_cases hr : r.1.isEmpty
  · exact ⟨_, if_pos hr⟩
  · exact ⟨_, if_neg hr⟩

/-- So does the one that sends a record twice. -/
theorem raises_replayedRecord : Raises [] (replayedRecord P suite deviceId psk) := by
  refine Raises.handshake P suite deviceId psk false false (fun ⟨stream, n⟩ h hh => ?_)
    beforeFinished_nil
  refine Raises.ofPy hh fun frame => Raises.writeData hh frame fun h' hh' => ?_
  exact Raises.writeData hh' frame fun h'' hh'' => raises_expectClosed _ hh''

/-- So does the one that changes a ciphertext. -/
theorem raises_tamperedCiphertext : Raises [] (tamperedCiphertext P suite deviceId psk) := by
  refine Raises.handshake P suite deviceId psk false false (fun ⟨stream, n⟩ h hh => ?_)
    beforeFinished_nil
  refine Raises.ofPy hh fun frame => Raises.writeData hh (tamper P frame) fun h' hh' => ?_
  exact raises_expectClosed _ hh'

/-- The function of a test with a bad ClientHello returns exactly if the handshake is completed. -/
theorem Attack.fn_outcome {a : Attack} (ha : a.OnHello) :
    Raising.Ensures (fun _ _ => True) (fun h' _ => Sent frameClientFinished h')
      (fun h' _ => ¬ Sent frameClientFinished h') [] (a.fn P suite deviceId psk) := by
  cases a with
  | forgedPskMac => exact badHello_outcome P suite deviceId psk true beforeFinished_nil
  | unknownDevice =>
    exact (Raising.ensures_bind _ _).mpr ⟨trivial, fun device =>
      badHello_outcome P suite device.1 psk false
        (beforeFinished_nil.concat (o := .tokenBytes 8) trivial device)⟩
  | wrongPsk =>
    exact (Raising.ensures_bind _ _).mpr ⟨trivial, fun key =>
      badHello_outcome P suite deviceId key.1 false
        (beforeFinished_nil.concat (o := .tokenBytes 32) trivial key)⟩
  | forgedClientMac | replayedRecord | tamperedCiphertext => exact ha.elim

/-- The functions of the other tests raise. -/
theorem Attack.fn_raises {a : Attack} (ha : ¬ a.OnHello) :
    Raises [] (a.fn P suite deviceId psk) := by
  cases a with
  | forgedPskMac | unknownDevice | wrongPsk => exact absurd trivial ha
  | forgedClientMac => exact raises_forgedClientMac P suite deviceId psk
  | replayedRecord => exact raises_replayedRecord P suite deviceId psk
  | tamperedCiphertext => exact raises_tamperedCiphertext P suite deviceId psk

omit [DecidableEq β] in
/-- The last line of a test says nothing about the server. -/
theorem mem_concat_print {l : Log β} {line : String} {e : Event (clientOps β)}
    (he : e.1 ≠ .print line) : e ∈ l ++ [(⟨.print line, ()⟩ : Event (clientOps β))] ↔ e ∈ l := by
  rw [List.mem_append, List.mem_singleton, or_iff_left fun heq => he (congrArg Sigma.fst heq)]

omit [DecidableEq β] in
/-- A printed line sends nothing. -/
theorem sent_concat_print {l : Log β} {line : String} {ftype : UInt8} :
    Sent ftype (l ++ [(⟨.print line, ()⟩ : Event (clientOps β))]) ↔ Sent ftype l :=
  exists_congr fun _ => mem_concat_print nofun

omit [DecidableEq β] in
/-- Nor does it close the connection. -/
theorem closed_concat_print {l : Log β} {line : String} :
    Closed (l ++ [(⟨.print line, ()⟩ : Event (clientOps β))]) ↔ Closed l :=
  or_congr (exists₂_congr fun _ _ => and_congr_right fun _ => mem_concat_print nofun)
    (or_congr (exists_congr fun _ => mem_concat_print nofun)
      (exists_congr fun _ => mem_concat_print nofun))

omit [DecidableEq β] in
/-- Nor does it leave it open. -/
theorem leftOpen_concat_print {l : Log β} {line : String} :
    LeftOpen (l ++ [(⟨.print line, ()⟩ : Event (clientOps β))]) ↔ LeftOpen l :=
  exists_congr fun _ => mem_concat_print nofun

/-- A test fails exactly if the server completes a handshake on a bad ClientHello. The tests of the
other attacks pass whatever the server does. -/
theorem Attack.run_test {a : Attack} {l : Log β} {passed : Bool}
    (hrun : Prog.Run (a.test P suite deviceId psk).run l (.ret (.ok passed))) :
    (passed = false ↔ a.Completed l) ∧ ¬ (a.SilentlyAccepted l ∧ a.Refused l) := by
  obtain ⟨l₀, line, outcome, rfl, hfn, hpassed⟩ := run_of_expectRejection hrun
  by_cases ha : a.OnHello
  · refine ⟨?_, fun hboth => hboth.1.1 ha⟩
    rw [Attack.Completed, and_iff_right ha, sent_concat_print, ← Bool.not_eq_true, hpassed]
    cases outcome with
    | ok u => exact iff_of_true nofun ((Attack.fn_outcome P suite deviceId psk ha).of_run_ok hfn)
    | error e =>
      exact iff_of_false (fun hno => hno ⟨e, rfl⟩)
        ((Attack.fn_outcome P suite deviceId psk ha).of_run_error hfn)
  · -- The function raises in any case, so that the test passes.
    have hspec := Attack.fn_raises P suite deviceId psk ha
    cases outcome with
    | ok u => exact (hspec.of_run_ok hfn).elim
    | error e =>
      refine ⟨iff_of_false ?_ fun hcompleted => ha hcompleted.1, fun hboth => ?_⟩
      · rw [hpassed.mpr ⟨e, rfl⟩]
        exact nofun
      · obtain ⟨⟨-, -, hopen⟩, hrefused⟩ := hboth
        rw [Attack.Refused, if_neg ha] at hrefused
        exact hspec.of_run_error hfn
          ⟨closed_concat_print.mp hrefused.2, leftOpen_concat_print.mp hopen⟩

end Tests

/-! ## All tests -/

/-- The log of `run_negative`, of the parts that belong to the attacks. -/
def negativeLog (device : List β × List β) (l : Attack → Log β) : Log β :=
  ⟨.firstDevice, .ok device⟩ :: (l .forgedPskMac ++ (l .unknownDevice ++ (l .wrongPsk ++
    (l .forgedClientMac ++ (l .replayedRecord ++ l .tamperedCiphertext)))))

/-- A completed run of `run_negative`, with the part of it that belongs to each attack. -/
structure NegativeRun (P : Prims β) [DecidableEq β] (suite : Suite) (device : List β × List β)
    (l : Attack → Log β) (verdict : Bool) : Prop where
  run : Prog.Run (runNegative P suite).run (negativeLog device l) (.ret (.ok verdict))
  /-- Each part is a completed test. -/
  test : ∀ a : Attack, ∃ passed,
    Prog.Run (a.test P suite device.1 device.2).run (l a) (.ret (.ok passed))

/-- The verdict is to be trusted: `True` means that every attack was refused, and a server that
silently accepts one of the last three attacks gets `False`. -/
def Sound (l : Attack → Log β) (verdict : Bool) : Prop :=
  (verdict = true → ∀ a : Attack, a.Refused (l a)) ∧
    ∀ a : Attack, a.SilentlyAccepted (l a) → verdict = false

section All

variable (P : Prims β) [DecidableEq β] (suite : Suite)

omit [DecidableEq β] in
/-- `ok &= …`, for each attack. -/
theorem verdict_eq_false_iff (passed : Attack → Bool) :
    (passed .tamperedCiphertext && (passed .replayedRecord && (passed .forgedClientMac &&
      (passed .wrongPsk && (passed .unknownDevice && (passed .forgedPskMac && true)))))) = false ↔
      ∃ a, passed a = false := by
  constructor
  · intro h
    by_contra hall
    have htrue : ∀ a, passed a = true := fun a =>
      Bool.eq_true_of_not_eq_false fun ha => hall ⟨a, ha⟩
    simp [htrue] at h
  · rintro ⟨a, ha⟩
    cases a <;> simp [ha]

/-- `run_negative` is its tests, one after the other. It returns `False` exactly if the server has
completed a handshake on a bad ClientHello. -/
theorem exists_negativeRun {log : Log β} {verdict : Bool}
    (hrun : Prog.Run (runNegative P suite).run log (.ret (.ok verdict))) :
    ∃ device l, log = negativeLog device l ∧ NegativeRun P suite device l verdict ∧
      (verdict = false ↔ ∃ a : Attack, a.Completed (l a)) := by
  obtain ⟨l₀, l₁, answer, rfl, hfirst, hrest⟩ := Raising.run_of_bind_ok hrun
  obtain ⟨_, rfl, heq⟩ := Raising.run_of_call hfirst
  cases heq
  obtain ⟨l₂, l₃, ⟨deviceId, psk⟩, rfl, hdevice, htests⟩ := Raising.run_of_bind_ok hrest
  obtain ⟨rfl, heq⟩ := Prog.Run.of_ret hdevice
  cases heq
  -- The six tests, one after the other.
  obtain ⟨k₁, m₁, b₁, rfl, ht₁, hrest₁⟩ := Raising.run_of_bind_ok htests
  obtain ⟨k₂, m₂, b₂, rfl, ht₂, hrest₂⟩ := Raising.run_of_bind_ok hrest₁
  obtain ⟨k₃, m₃, b₃, rfl, ht₃, hrest₃⟩ := Raising.run_of_bind_ok hrest₂
  obtain ⟨k₄, m₄, b₄, rfl, ht₄, hrest₄⟩ := Raising.run_of_bind_ok hrest₃
  obtain ⟨k₅, m₅, b₅, rfl, ht₅, hrest₅⟩ := Raising.run_of_bind_ok hrest₄
  obtain ⟨k₆, m₆, b₆, rfl, ht₆, hrest₆⟩ := Raising.run_of_bind_ok hrest₅
  obtain ⟨rfl, heq⟩ := Prog.Run.of_ret hrest₆
  cases heq
  -- Their histories and results, by attack.
  let l : Attack → Log β := fun
    | .forgedPskMac => k₁ | .unknownDevice => k₂ | .wrongPsk => k₃
    | .forgedClientMac => k₄ | .replayedRecord => k₅ | .tamperedCiphertext => k₆
  let passed : Attack → Bool := fun
    | .forgedPskMac => b₁ | .unknownDevice => b₂ | .wrongPsk => b₃
    | .forgedClientMac => b₄ | .replayedRecord => b₅ | .tamperedCiphertext => b₆
  have htest (a : Attack) :
      Prog.Run (a.test P suite deviceId psk).run (l a) (.ret (.ok (passed a))) := by
    cases a
    exacts [ht₁, ht₂, ht₃, ht₄, ht₅, ht₆]
  have hlog : [(⟨.firstDevice, .ok (deviceId, psk)⟩ : Event (clientOps β))] ++ ([] ++ (k₁ ++ (k₂ ++
      (k₃ ++ (k₄ ++ (k₅ ++ (k₆ ++ []))))))) = negativeLog (deviceId, psk) l := by
    rw [List.append_nil]
    rfl
  refine ⟨(deviceId, psk), l, hlog, ⟨hlog ▸ hrun, fun a => ⟨passed a, htest a⟩⟩, ?_⟩
  exact (verdict_eq_false_iff passed).trans
    (exists_congr fun a => (Attack.run_test P suite deviceId psk (htest a)).1)

end All

/-! ## A server that checks nothing after the handshake -/

section Silent

variable (P : Prims β) [DecidableEq β] (deviceId psk : List β)
  (corruptPskMac corruptClientMac : Bool)

open Raising

omit [DecidableEq β] in
/-- An encapsulation that succeeds. -/
theorem run_encapsulate (ct ss : List β) :
    Prog.Run (encapsulate (β := β)).run [⟨.encap, some ⟨0, "", some ct, some ss⟩⟩]
      (.ret (.ok (ct, ss))) :=
  .cons (.nil _)

omit [DecidableEq β] in
/-- A public key of the right length has an identifier. -/
theorem run_serverKeyId {der : List β} (hder : der.length = 1184 + 22) :
    ∃ keyId, Prog.Run (serverKeyId P).run [⟨.pubkeyDer, some ⟨0, der, ""⟩⟩] (.ret (.ok keyId)) := by
  have hfind : [800, 1184, 1568].find? (fun rawLen => der.length == rawLen + 22) = some 1184 := by
    rw [hder]
    rfl
  refine ⟨(P.sha256 (der.drop (der.length - 1184))).take 4, ?_⟩
  have hder' : Prog.Run (pinnedDer (β := β)).run [⟨.pubkeyDer, some ⟨0, der, ""⟩⟩]
      (.ret (.ok der)) := .cons (.nil _)
  rw [serverKeyId]
  refine run_bind_ok hder' (k := []) ?_
  rw [hfind]
  exact .nil _

/-- The exchange of a client with the device's key in mode A, as one value. -/
def exchanged (hello ss : List β) : Handshake β where
  fs := false
  hello := hello
  clientNonce := (zeroBytes P nonceLen).1
  serverNonce := (zeroBytes P nonceLen).1
  sessionId := (zeroBytes P sessionIdLen).1
  ekEph := []
  ctEph := []
  psk := psk
  ssStatic := ss
  ssEph := []

/-- An honest server completes the handshake. -/
theorem exists_run_handshake (hpsk : psk.length = pskLen) :
    ∃ l key sessionId n,
      Prog.Run (handshake P .mlkem768 deviceId psk corruptPskMac corruptClientMac).run l
        (.ret (.ok (.init key sessionId, n))) := by
  obtain ⟨keyId, hkeyId⟩ := run_serverKeyId P (zeroBytes P (1184 + 22)).2
  let ss := (zeroBytes P 32).1
  let hello := ClientHello.build P .mlkem768 deviceId keyId (zeroBytes P nonceLen).1
    (zeroBytes P 1088).1 psk
  let hello := if corruptPskMac then corrupt P hello else hello
  let x := exchanged P psk hello ss
  suffices hmay : May (fun r => ∃ key sessionId n, r = .ok (.init key sessionId, n))
      (handshake P .mlkem768 deviceId psk corruptPskMac corruptClientMac) by
    obtain ⟨l, _, hrun, key, sessionId, n, rfl⟩ := hmay
    exact ⟨l, key, sessionId, n, hrun⟩
  -- Every operation succeeds, up to a ServerHello that fits.
  refine May.bind (run_encapsulate (zeroBytes P 1088).1 ss) ?_
  refine May.call (S := clientOps β) (zeroBytes P nonceLen) ?_
  refine May.bind hkeyId ?_
  refine May.call (S := clientOps β) (o := ClientOp.connect) (.ok ()) ?_
  refine May.call (S := clientOps β) (o := ClientOp.writeFrame _ _) (.ok ()) ?_
  refine May.call (S := clientOps β) (o := ClientOp.readFrame)
    (.ok (frameServerHello, x.serverHello P)) ?_
  refine May.bind (a := (frameServerHello, x.serverHello P)) (.nil _) ?_
  -- The client takes the fields of the ServerHello apart.
  have hsplit : x.serverHello P = x.serverNonce ++ (x.sessionId ++ x.serverMac P) := by
    simp only [Handshake.serverHello, List.append_assoc]
    rfl
  have hnonce : x.serverNonce.length = nonceLen := (zeroBytes P nonceLen).2
  have hsid : x.sessionId.length = sessionIdLen := (zeroBytes P sessionIdLen).2
  have hmac : (x.serverMac P).length = macLen := x.length_serverMac P
  have hlen : (x.serverHello P).length = serverHelloLen .mlkem768 := by
    rw [hsplit, List.length_append, List.length_append, hnonce, hsid, hmac]
    rfl
  have htake : (x.serverHello P).take nonceLen = x.serverNonce := by
    rw [hsplit, List.take_left' hnonce]
  have hslice : slice nonceLen sessionIdLen (x.serverHello P) = x.sessionId := by
    rw [slice, hsplit, List.drop_left' hnonce, List.take_left' hsid]
  have hdrop : (x.serverHello P).drop (nonceLen + sessionIdLen) = x.serverMac P := by
    rw [hsplit, ← List.append_assoc, List.drop_left' (by rw [List.length_append, hnonce, hsid])]
  dsimp only
  rw [if_neg (not_not.mpr rfl), if_neg (not_not.mpr hlen)]
  -- The keys that it derives are those of the server, so the MAC fits.
  have hth2 : transcript2 P hello x.serverNonce x.sessionId [] = x.th2 P := rfl
  have hkeys : deriveKeys P ss psk (zeroBytes P nonceLen).1 x.serverNonce (x.th2 P) = .ok _ :=
    x.deriveKeys_eq P hpsk rfl
  have hfs : Suite.mlkem768.params.fs = false := rfl
  simp only [htake, hslice, hdrop, hfs, Bool.false_eq_true, if_false, List.length_nil,
    List.drop_zero]
  change May _ (Code.ofPy (do
    let keys ← deriveKeys P ss psk (zeroBytes P nonceLen).1 x.serverNonce
      (transcript2 P hello x.serverNonce x.sessionId [])
    pure (some keys, keys.srvConfirm)) >>= _)
  rw [hth2, hkeys]
  refine May.bind (a := (some ⟨x.srvConfirm P, x.cliConfirm P, x.c2s P, x.s2c P⟩, x.srvConfirm P))
    (.nil _) ?_
  dsimp only
  rw [if_neg (fun hne => hne rfl)]
  exact May.call (S := clientOps β) (o := ClientOp.writeFrame _ _) (.ok ())
    (May.pure ⟨_, _, _, rfl⟩)

/-- A server that closes the connection on a ClientHello. -/
theorem exists_run_refused :
    ∃ l, Prog.Run (handshake P .mlkem768 deviceId psk corruptPskMac corruptClientMac).run l
      (.ret (.error (.raised (.protocolError "connection closed")))) := by
  obtain ⟨keyId, hkeyId⟩ := run_serverKeyId P (zeroBytes P (1184 + 22)).2
  suffices hmay : May (fun r => r = .error (.raised (.protocolError "connection closed")))
      (handshake P .mlkem768 deviceId psk corruptPskMac corruptClientMac) by
    obtain ⟨l, _, hrun, rfl⟩ := hmay
    exact ⟨l, hrun⟩
  refine May.bind (run_encapsulate (zeroBytes P 1088).1 (zeroBytes P 32).1) ?_
  refine May.call (S := clientOps β) (zeroBytes P nonceLen) (May.bind hkeyId ?_)
  refine May.call (S := clientOps β) (o := ClientOp.connect) (.ok ()) ?_
  refine May.call (S := clientOps β) (o := ClientOp.writeFrame _ _) (.ok ()) ?_
  exact May.call (S := clientOps β) (o := ClientOp.readFrame)
    (.error (.raised (.protocolError "connection closed"))) (May.raise rfl)

omit [DecidableEq β] in
/-- A test whose function raises what is caught. -/
theorem run_expectRejection {label : String} {fn : Code β Unit} {l : Log β} {e : ClientExn}
    (hfn : Prog.Run fn.run l (.ret (.error e))) (he : e.Caught) :
    Prog.Run (expectRejection label fn).run
      (l ++ [(⟨.print s!"  ok    {label}: rejected", ()⟩ : Event (clientOps β))])
      (.ret (.ok true)) := by
  have hbody : Prog.Run (fn.run >>= fun outcome => .ret (.ok outcome) :
      Prog (clientOps β) (Except ClientExn (Except ClientExn Unit))) (l ++ [])
      (.ret (.ok (.error e))) := hfn.bind (.nil _)
  rw [List.append_nil] at hbody
  refine run_bind_ok hbody ?_
  dsimp only
  rw [if_pos he]
  exact .cons (.nil _)

/-- A test with a bad ClientHello that is refused. -/
theorem exists_run_badHello :
    ∃ l, Prog.Run (badHello P .mlkem768 deviceId psk corruptPskMac).run l
      (.ret (.error (.raised (.protocolError "connection closed")))) := by
  obtain ⟨l, hrun⟩ := exists_run_refused P deviceId psk corruptPskMac false
  exact ⟨l, run_bind_error hrun⟩

omit [DecidableEq β] in
/-- Sending a record with data. -/
theorem run_sealFrame (key sessionId : List β) (text : String) (htext : text.length < 2 ^ 16) :
    ∃ frame, sealFrame P (.init key sessionId) text = pure frame := by
  have hlen : (plain P text).length < 2 ^ 16 := by
    rw [plain, Prims.length_lits, ascii, List.length_map]
    exact htext
  have hseal := RecordStream.sealRecord_eq P (.init key sessionId) (Nat.two_pow_pos 64) hlen
  refine ⟨recordBytes P 0 (sealedPair P key sessionId 0 (plain P text)), ?_⟩
  rw [sealFrame, hseal]
  rfl

/-- The test of an attack on a connection that stays open. -/
theorem silently_accepted {a : Attack} (ha : ¬ a.OnHello) {l t : Log β} {r : RecordStream β × ℕ}
    (hrun : Prog.Run (handshake P .mlkem768 deviceId psk corruptPskMac corruptClientMac).run l
      (.ret (.ok r))) (htail : (⟨.recv 1, .error .timeout⟩ : Event (clientOps β)) ∈ t)
    (hfn : Prog.Run (a.fn P .mlkem768 deviceId psk).run (l ++ t) (.ret (.error .timeout))) :
    ∃ l, Prog.Run (a.test P .mlkem768 deviceId psk).run l (.ret (.ok true)) ∧
      (¬ a.OnHello → a.SilentlyAccepted l) := by
  obtain ⟨h₀, payload, -, heq⟩ := (handshakes_handshake P .mlkem768 deviceId psk corruptPskMac
    corruptClientMac beforeFinished_nil).of_run_ok hrun
  refine ⟨_, run_expectRejection hfn trivial, fun _ => ⟨ha, ⟨payload, ?_⟩, 1, ?_⟩⟩
  · rw [heq]
    exact List.mem_append_left _
      (List.mem_append_left _ (List.mem_append_right _ List.mem_cons_self))
  · exact List.mem_append_left _ (List.mem_append_right _ htail)

/-- The tests of a server that refuses a bad ClientHello and, after a handshake, silently accepts
whatever comes. -/
theorem exists_run_silent (hpsk : psk.length = pskLen) (a : Attack) :
    ∃ l, Prog.Run (a.test P .mlkem768 deviceId psk).run l (.ret (.ok true)) ∧
      (¬ a.OnHello → a.SilentlyAccepted l) := by
  have refused {a : Attack} (ha : a.OnHello) {l : Log β}
      (hfn : Prog.Run (a.fn P .mlkem768 deviceId psk).run l
        (.ret (.error (.raised (.protocolError "connection closed"))))) :
      ∃ l, Prog.Run (a.test P .mlkem768 deviceId psk).run l (.ret (.ok true)) ∧
        (¬ a.OnHello → a.SilentlyAccepted l) :=
    ⟨_, run_expectRejection hfn trivial, fun hno => absurd ha hno⟩
  -- The tests of a bad ClientHello are refused at once; after the others the server stays silent.
  cases a with
  | forgedPskMac =>
    obtain ⟨l, hrun⟩ := exists_run_badHello P deviceId psk true
    exact refused trivial hrun
  | unknownDevice =>
    obtain ⟨l, hrun⟩ := exists_run_badHello P (zeroBytes P 8).1 psk false
    have hfn : Prog.Run (unknownDevice P .mlkem768 psk).run
        ([(⟨.tokenBytes 8, zeroBytes P 8⟩ : Event (clientOps β))] ++ l) (.ret (.error _)) :=
      run_bind_ok (c := Code.call (.tokenBytes 8)) (.cons (.nil _)) hrun
    exact refused trivial hfn
  | wrongPsk =>
    obtain ⟨l, hrun⟩ := exists_run_badHello P deviceId (zeroBytes P 32).1 false
    have hfn : Prog.Run (wrongPsk P .mlkem768 deviceId).run
        ([(⟨.tokenBytes 32, zeroBytes P 32⟩ : Event (clientOps β))] ++ l) (.ret (.error _)) :=
      run_bind_ok (c := Code.call (.tokenBytes 32)) (.cons (.nil _)) hrun
    exact refused trivial hfn
  | forgedClientMac =>
    obtain ⟨l, key, sessionId, n, hrun⟩ := exists_run_handshake P deviceId psk false true hpsk
    obtain ⟨frame, hframe⟩ := run_sealFrame P key sessionId
      "should not be accepted" (by decide)
    refine silently_accepted P deviceId psk false true nofun hrun (t := [
      ⟨.writeFrame frameData frame, .ok ()⟩, ⟨.settimeout 5, ()⟩, ⟨.recv 1, .error .timeout⟩])
      (by simp) (run_bind_ok hrun ?_)
    dsimp only
    rw [hframe]
    exact .cons (.cons (.cons (.nil _)))
  | replayedRecord =>
    obtain ⟨l, key, sessionId, n, hrun⟩ := exists_run_handshake P deviceId psk false false hpsk
    obtain ⟨frame, hframe⟩ := run_sealFrame P key sessionId
      "\x7b\"co2\":800\x7d" (by decide)
    refine silently_accepted P deviceId psk false false nofun hrun (t := [
      ⟨.writeFrame frameData frame, .ok ()⟩, ⟨.writeFrame frameData frame, .ok ()⟩,
      ⟨.settimeout 5, ()⟩, ⟨.recv 1, .error .timeout⟩]) (by simp) (run_bind_ok hrun ?_)
    dsimp only
    rw [hframe]
    exact .cons (.cons (.cons (.cons (.nil _))))
  | tamperedCiphertext =>
    obtain ⟨l, key, sessionId, n, hrun⟩ := exists_run_handshake P deviceId psk false false hpsk
    obtain ⟨frame, hframe⟩ := run_sealFrame P key sessionId
      "\x7b\"co2\":800\x7d" (by decide)
    refine silently_accepted P deviceId psk false false nofun hrun (t := [
      ⟨.writeFrame frameData (tamper P frame), .ok ()⟩, ⟨.settimeout 5, ()⟩,
      ⟨.recv 1, .error .timeout⟩]) (by simp) (run_bind_ok hrun ?_)
    dsimp only
    rw [hframe]
    exact .cons (.cons (.cons (.nil _)))

/-- All tests of such a server pass. -/
theorem exists_negativeRun_silent (hpsk : psk.length = pskLen) :
    ∃ l : Attack → Log β, NegativeRun P .mlkem768 (deviceId, psk) l true ∧
      ∀ a : Attack, ¬ a.OnHello → a.SilentlyAccepted (l a) := by
  choose l hrun hsilent using exists_run_silent P deviceId psk hpsk
  refine ⟨l, ⟨?_, fun a => ⟨true, hrun a⟩⟩, hsilent⟩
  refine run_bind_ok (l := [(⟨.firstDevice, .ok (deviceId, psk)⟩ : Event (clientOps β))])
    (.cons (.nil _)) ?_
  refine run_bind_ok (l := []) (a := (deviceId, psk)) (.nil _) ?_
  refine run_bind_ok (hrun .forgedPskMac) (run_bind_ok (hrun .unknownDevice)
    (run_bind_ok (hrun .wrongPsk) (run_bind_ok (hrun .forgedClientMac)
      (run_bind_ok (hrun .replayedRecord) ?_))))
  have hlast := run_bind_ok (hrun .tamperedCiphertext)
    (f := fun ok => (pure (ok && (true && (true &&
    (true && (true && (true && true)))))) : Code β Bool)) (.nil _)
  rwa [List.append_nil] at hlast

end Silent

/-! ## The verdict -/

/-- The verdict of a run is to be trusted exactly if the server completes a handshake on a bad
ClientHello, or refuses every attack. -/
theorem runNegative_sound_iff (P : Prims β) [DecidableEq β] (suite : Suite) {log : Log β}
    {verdict : Bool}
    (hrun : Prog.Run (runNegative P suite).run log (.ret (.ok verdict))) :
    ∃ device l, log = negativeLog device l ∧ NegativeRun P suite device l verdict ∧
      (Sound l verdict ↔ (∃ a : Attack, a.Completed (l a)) ∨ ∀ a : Attack, a.Refused (l a)) := by
  obtain ⟨device, l, hlog, hl, hverdict⟩ := exists_negativeRun P suite hrun
  refine ⟨device, l, hlog, hl, fun hsound => ?_, fun hcases => ?_⟩
  · by_cases hcompleted : ∃ a : Attack, a.Completed (l a)
    · exact .inl hcompleted
    · have htrue : verdict = true := Bool.eq_true_of_not_eq_false (mt hverdict.mp hcompleted)
      exact .inr (hsound.1 htrue)
  · rcases hcases with hcompleted | hrefused
    · have hfalse := hverdict.mpr hcompleted
      exact ⟨fun htrue => absurd (hfalse.symm.trans htrue) nofun, fun _ _ => hfalse⟩
    · refine ⟨fun _ => hrefused, fun a ha => ?_⟩
      obtain ⟨passed, htest⟩ := hl.test a
      exact absurd ⟨ha, hrefused a⟩ (Attack.run_test P suite device.1 device.2 htest).2

/-- The run of that server is one that the characterization is about. -/
theorem runNegative_sound_iff_silent : ∃ log device, ∃ l : Attack → Log UInt8,
    log = negativeLog device l ∧ NegativeRun zeroPrims .mlkem768 device l true ∧
      (Sound l true ↔ (∃ a : Attack, a.Completed (l a)) ∨ ∀ a : Attack, a.Refused (l a)) := by
  obtain ⟨l, hl, -⟩ := exists_negativeRun_silent zeroPrims (List.replicate 8 0)
    (List.replicate 32 0) List.length_replicate
  exact ⟨_, runNegative_sound_iff zeroPrims .mlkem768 hl.run⟩

/-- The verdict on such a server is `True`. -/
theorem runNegative_silent :
    ∃ log l, log = negativeLog (List.replicate 8 0, List.replicate 32 0) l ∧
      NegativeRun zeroPrims .mlkem768 (List.replicate 8 0, List.replicate 32 0) l true ∧
      Attack.replayedRecord.SilentlyAccepted (l .replayedRecord) ∧ ¬ Sound l true := by
  obtain ⟨l, hl, hsilent⟩ := exists_negativeRun_silent zeroPrims (List.replicate 8 0)
    (List.replicate 32 0) List.length_replicate
  have hreplay := hsilent .replayedRecord nofun
  exact ⟨_, l, rfl, hl, hreplay, fun hsound => nomatch hsound.2 _ hreplay⟩

end TestClient

end PqcIot
