import PqcIot.Server.Order

/-!
# The exceptions of a connection

Which exceptions `handle_connection` ends with. Everything it calls raises `ProtocolError` or
`OSError`, which the accept loop catches, with two exceptions: `psk_for` lets pass what it does not
catch, and `EphemeralKey.__init__` runs two openssl processes with `check=True`, which raise
`CalledProcessError` when they exit with an error. So a connection is survived exactly if the device
can be looked up and no such process fails (`handleConnection_outcome`).
-/

namespace PqcIot

open Effects Protocol

namespace Server

variable {β α γ : Type}

/-- The exceptions that the accept loop catches. -/
def Caught : PyExn → Prop
  | .protocolError _ | .osError => True
  | .calledProcessError | .structError | .valueError | .systemExit _ | .attributeError
  | .typeError | .recursionError => False

/-- What leaves `psk_for` is not caught by the accept loop either. -/
theorem not_caught_lookup (e : LookupExn) : ¬ Caught e.1.toPyExn := by
  obtain ⟨e, he⟩ := e
  cases e with
  | osError | valueError => exact absurd trivial he
  | systemExit | attributeError | typeError | recursionError => exact id

/-- `psk_for` has raised. -/
def LookupFailed : Event (host β) → Prop
  | ⟨.pskFor _, .error _⟩ => True
  | _ => False

/-- A process that was run with `check=True` has exited with an error. -/
def CheckFailed : Event (host β) → Prop
  | ⟨.genpkey _, some result⟩ => result.returncode ≠ 0
  | ⟨.pubout, some result⟩ => result.returncode ≠ 0
  | _ => False

/-- No lookup and no such process has failed. -/
def Unfailed (h : Log β) : Prop := ∀ e ∈ internalEvents h, ¬ LookupFailed e ∧ ¬ CheckFailed e

/-- Nothing has failed yet. -/
theorem unfailed_nil : Unfailed ([] : Log β) := nofun

/-- What failed framing calls have raised is caught. -/
def FramesCaught (h : Log β) : Prop :=
  (∀ n e, ⟨.inl (.read n), .error e⟩ ∈ h → Caught e) ∧
    ∀ ftype payload e, ⟨.inl (.write ftype payload), .error e⟩ ∈ h → Caught e

/-- A call of the framing is neither a lookup nor a process. -/
theorem Unfailed.concat_frame {h : Log β} (hh : Unfailed h) (o : FrameOp β)
    (a : FrameOp.Ans β FrameFailure o) : Unfailed (h ++ [⟨.inl o, a⟩]) := by
  rw [Unfailed, internalEvents_append]
  exact List.forall_mem_append.mpr ⟨hh, nofun⟩

/-- One more call that has not failed so. -/
theorem Unfailed.concat_call {h : Log β} (hh : Unfailed h) {o : HostOp β} {a : HostOp.Ans o}
    (ha : ¬ LookupFailed ⟨o, a⟩ ∧ ¬ CheckFailed ⟨o, a⟩) : Unfailed (h ++ [⟨.inr o, a⟩]) := by
  rw [Unfailed, internalEvents_append]
  refine List.forall_mem_append.mpr ⟨hh, ?_⟩
  rintro e (_ | ⟨_, he⟩)
  · exact ha
  · cases he

/-! ## Code that raises only what is caught -/

namespace Py

/-- The code looks nothing up and runs no process with `check=True`, and raises only what is
caught. -/
def Tame (c : Py β α) : Prop :=
  ∀ h, Unfailed h → Ensures (fun _ _ => True) (fun h' _ => Unfailed h')
    (fun h' e => Unfailed h' ∧ (FramesCaught h' → Caught e)) h c

theorem Tame.pure (a : α) : Tame (Pure.pure a : Py β α) := fun _ hh => hh

/-- An exception that the accept loop catches may be raised. -/
theorem Tame.raise {e : PyExn} (he : Caught e) : Tame (raise e : Py β α) := fun _ hh =>
  ⟨hh, fun _ => he⟩

/-- Tame code after tame code. -/
theorem Tame.bind {c : Py β α} {f : α → Py β γ} (hc : Tame c) (hf : ∀ a, Tame (f a)) :
    Tame (c >>= f) := fun h hh => (hc h hh).bind fun l a hl => hf a (h ++ l) hl

/-- A call that cannot fail as a lookup or as a checked process. -/
theorem Tame.call {o : HostOp β} (ho : ∀ a, ¬ LookupFailed ⟨o, a⟩ ∧ ¬ CheckFailed ⟨o, a⟩) :
    Tame (call o) := fun _ hh =>
  (ensures_call o).mpr ⟨trivial, fun a => hh.concat_call (ho a)⟩

/-- `OSError` is caught. -/
theorem Tame.orOSError (x : Option α) : Tame (orOSError x : Py β α) := fun _ hh =>
  (ensures_orOSError x).mpr ⟨fun _ _ => hh, fun _ => ⟨hh, fun _ => trivial⟩⟩

/-- A result whose exceptions are caught. -/
theorem Tame.ofExcept {r : Except PyExn α} (hr : ∀ e, r = .error e → Caught e) :
    Tame (ofExcept r : Py β α) := fun _ hh =>
  (ensures_ofExcept r).mpr ⟨fun _ _ => hh, fun e he => ⟨hh, fun _ => hr e he⟩⟩

/-- Whichever branch is taken. -/
theorem Tame.ite {p : Prop} [Decidable p] {c d : Py β α} (hc : Tame c) (hd : Tame d) :
    Tame (if p then c else d) := by
  split
  · exact hc
  · exact hd

/-- Code whose `OSError` is suppressed. -/
theorem Tame.ignoreOSError {body : Py β Unit} (hbody : Tame body) :
    Tame (ignoreOSError body) := by
  refine fun h hh => Ensures.ignoreOSError ((hbody h hh).mono (fun _ _ ho => ho)
    (fun _ _ hl => hl) fun l e he => ?_)
  split
  · exact he.1
  · exact he

/-- Both the body and what is done at its end are tame. -/
theorem Tame.tryFinally {body : Py β α} {final : Py β Unit} (hbody : Tame body)
    (hfinal : Tame final) : Tame (tryFinally body final) := by
  refine fun h hh => Ensures.tryFinally ((hbody h hh).mono (fun _ _ ho => ho)
    (fun l _ hl => hfinal (h ++ l) hl) fun l e he => ?_)
  -- The exception of the body survives what `finally` does.
  refine (hfinal (h ++ l) he.1).mono (fun _ _ ho => ho) (fun l' _ hl' => ⟨hl', fun hframes => ?_⟩)
    fun _ _ he' => he'
  exact he.2 ⟨fun n e hmem => hframes.1 n e (List.mem_append_left _ hmem),
    fun ftype payload e hmem => hframes.2 ftype payload e (List.mem_append_left _ hmem)⟩

end Py

open Py

/-- What the framing raises is caught. -/
theorem tame_recvFrame : Tame (recvFrame (β := β)) := fun _ hh =>
  ensures_recvFrame.mpr ⟨trivial, fun _ => hh.concat_frame _ _, fun e =>
    ⟨hh.concat_frame _ _, fun hframes =>
      hframes.1 maxFrame e (List.mem_append_right _ List.mem_cons_self)⟩⟩

/-- The same when a frame is sent. -/
theorem tame_sendFrame (ftype : UInt8) (payload : List β) : Tame (sendFrame ftype payload) :=
  fun _ hh => ensures_sendFrame.mpr ⟨trivial, hh.concat_frame _ _, fun e =>
    ⟨hh.concat_frame _ _, fun hframes =>
      hframes.2 ftype payload e (List.mem_append_right _ List.mem_cons_self)⟩⟩

/-! ## Pure functions -/

section Pure

variable (P : Prims β)

/-- A ClientHello that is not well formed raises `ProtocolError`. -/
theorem caught_parse {payload : List β} {e : PyExn} (he : ClientHello.parse P payload = .error e) :
    Caught e := by
  match payload, he with
  -- Too short to be looked at.
  | [], he | [_], he =>
    cases he
    trivial
  | v :: s :: rest, he =>
    simp only [ClientHello.parse] at he
    repeat' split at he
    all_goals cases he
    all_goals trivial

/-- So does a DER key of another length. -/
theorem caught_rawPublicFromDer {der : List β} {e : PyExn} (he : rawPublicFromDer der = .error e) :
    Caught e := by
  rw [rawPublicFromDer] at he
  split at he <;> cases he
  trivial

/-- A record that does not open raises what is caught. -/
theorem caught_openRecord {stream : RecordStream β} {payload : List β} {e : PyExn}
    (he : (stream.openRecord P payload).1 = .error e) : Caught e := by
  simp only [RecordStream.openRecord] at he
  repeat' split at he
  all_goals cases he
  all_goals trivial

/-- The key schedule raises only for a PSK of the wrong length. -/
theorem caught_deriveKeys {ss psk clientNonce serverNonce th2 : List β} {e : PyExn}
    (he : deriveKeys P ss psk clientNonce serverNonce th2 = .error e) : Caught e := by
  simp only [deriveKeys, hkdfExpand_32] at he
  split at he
  · cases he
    trivial
  · cases he

end Pure

/-! ## The code of a connection -/

section Connection

variable (P : Prims β) (key : PrivateKey β)

/-- The process that decapsulates is run without `check=True`. -/
theorem tame_decapsulate (ciphertext : List β) : Tame (decapsulate ciphertext) := by
  refine .bind (.call fun _ => ⟨id, id⟩) fun result => .bind (.orOSError _) fun result =>
    .ite (.raise trivial) ?_
  cases result.secret with
  | none => exact .raise trivial
  | some ss => exact .ite (.raise trivial) (.pure _)

/-- So is that with the ephemeral key. -/
theorem tame_ephDecapsulate (ciphertext : List β) : Tame (EphemeralKey.decapsulate ciphertext) := by
  refine .bind (.call fun _ => ⟨id, id⟩) fun result => .bind (.orOSError _) fun result =>
    .ite (.raise trivial) ?_
  cases result.secret with
  | none => exact .raise trivial
  | some ss => exact .pure _

/-- `destroy` raises nothing but `OSError`. -/
theorem tame_destroy : Tame (EphemeralKey.destroy (β := β)) := by
  refine .tryFinally (.ignoreOSError
    (.bind (.call fun _ => ⟨id, id⟩) fun found => .ite ?_ (.pure _)))
    (.bind (.call fun _ => ⟨id, id⟩) fun _ => .orOSError _)
  exact .bind (.call fun _ => ⟨id, id⟩) fun _ => .bind (.orOSError _) fun _ =>
    .bind (.call fun _ => ⟨id, id⟩) fun _ =>
    .orOSError _

/-- From the key schedule to ClientFinished. -/
theorem tame_exchange (hello : ClientHello β)
    (psk ssStatic serverNonce sessionId ekEph : List β) :
    Tame (exchange P hello psk ssStatic serverNonce sessionId ekEph) := by
  refine .bind (.ofExcept fun e he => ?_) fun keys => .bind (tame_sendFrame _ _) fun _ =>
    .bind tame_recvFrame fun frame => .ite (.raise trivial) ?_
  · -- The key schedule.
    split at he
    · rw [deriveStage1, hkdfExpand_32] at he
      cases he
    · cases hkeys : deriveKeys P ssStatic psk hello.clientNonce serverNonce
          (transcript2 P hello.raw serverNonce sessionId ekEph) with
      | ok keys =>
        rw [hkeys] at he
        cases he
      | error e' =>
        rw [hkeys] at he
        cases he
        exact caught_deriveKeys P hkeys
  · cases keys.1 with
    | none =>
      refine .ite (.raise trivial) (.bind (tame_ephDecapsulate _) fun ssEph =>
        .bind (.ofExcept fun e he => ?_) fun _ => .pure _)
      -- The second stage has no check.
      simp only [deriveStage2, hkdfExpand_32] at he
      cases he
    | some keys => exact .ite (.raise trivial) (.pure _)

/-- The loop over the records. -/
theorem tame_recordLoop (turns : ℕ) (inbound : Inbound β) : Tame (recordLoop P turns inbound) := by
  induction turns generalizing inbound with
  | zero => exact .pure _
  | succ turns ih =>
    refine .bind ?_ fun received => ?_
    · -- `except ProtocolError: break`.
      intro h hh
      rw [Ensures, ExceptT.run, ExceptT.mk, Prog.spec_bind]
      refine Prog.Spec.mono (tame_recvFrame h hh) (fun _ _ ho => ho) fun l r hr => ?_
      cases r with
      | ok frame => exact hr
      | error e =>
        cases e with
        | protocolError => exact hr.1
        | osError | calledProcessError | structError | valueError | systemExit | attributeError
        | typeError | recursionError => exact hr
    · cases received with
      | none => exact .pure _
      | some frame =>
        refine .ite (.pure _) (.ite (.raise trivial) (.bind (.call fun _ => ⟨id, id⟩) fun _ =>
          .bind (.ofExcept fun e he => ?_) fun plaintext => ih _))
        -- A record that is refused ends the connection like any other `ProtocolError`.
        exact caught_openRecord P he

/-! ## Lookups and processes with `check=True` -/

/-- The code raises something that is not caught exactly if a lookup or such a process fails. -/
def Accounted (c : Py β α) : Prop :=
  ∀ h, Unfailed h → Ensures (fun _ _ => True) (fun h' _ => Unfailed h')
    (fun h' e => FramesCaught h' → (Caught e ↔ Unfailed h')) h c

/-- Tame code raises nothing that is not caught. -/
theorem Accounted.of_tame {c : Py β α} (hc : Tame c) : Accounted c := fun h hh =>
  (hc h hh).mono (fun _ _ ho => ho) (fun _ _ hl => hl) fun _ _ he hframes =>
    iff_of_true (he.2 hframes) he.1

/-- Accounted code after accounted code. -/
theorem Accounted.bind {c : Py β α} {f : α → Py β γ} (hc : Accounted c)
    (hf : ∀ a, Accounted (f a)) : Accounted (c >>= f) := fun h hh =>
  (hc h hh).bind fun l a hl => hf a (h ++ l) hl

/-- An exception that is caught may be raised. -/
theorem Accounted.raise {e : PyExn} (he : Caught e) : Accounted (raise e : Py β α) :=
  .of_tame (.raise he)

/-- Whichever branch is taken. -/
theorem Accounted.ite {p : Prop} [Decidable p] {c d : Py β α} (hc : Accounted c)
    (hd : Accounted d) : Accounted (if p then c else d) := by
  split
  · exact hc
  · exact hd

/-- `subprocess.run(…, check=True)`. -/
theorem ensures_checked_unfailed {h : Log β} {result : Option (Completed β)}
    (hresult : ∀ r, result = some r → (Unfailed h ↔ r.returncode = 0))
    (hnone : result = none → Unfailed h) :
    Ensures (fun _ _ => True) (fun h' _ => Unfailed h')
      (fun h' e => FramesCaught h' → (Caught e ↔ Unfailed h')) h (checked result) := by
  cases result with
  -- The process was not started, which is an `OSError`.
  | none => exact fun _ => iff_of_true trivial (hnone rfl)
  | some r =>
    rw [checked, orOSError_some_bind]
    refine ensures_ite (fun hrc _ => iff_of_false id fun hunfailed => hrc ?_) fun hrc => ?_
    · exact (hresult r rfl).mp hunfailed
    · exact (hresult r rfl).mpr (not_not.mp hrc)

/-- Of one more call, only that one is to be looked at. -/
theorem unfailed_concat_call {h : Log β} (hh : Unfailed h) {o : HostOp β} {a : HostOp.Ans o} :
    Unfailed (h ++ [⟨.inr o, a⟩]) ↔ ¬ LookupFailed ⟨o, a⟩ ∧ ¬ CheckFailed ⟨o, a⟩ := by
  refine ⟨fun hlog => hlog _ ?_, hh.concat_call⟩
  rw [internalEvents_append]
  exact List.mem_append_right _ List.mem_cons_self

/-- The constructor of an ephemeral key runs two checked processes. -/
theorem accounted_init (level : Level) : Accounted (EphemeralKey.init (β := β) level) := by
  have hgenpkey : Accounted (call (β := β) (.genpkey level) >>= checked) := by
    refine fun h hh => (ensures_bind _ _).mpr
      ⟨trivial, fun result => ensures_checked_unfailed ?_ ?_⟩
    · rintro r rfl
      exact (unfailed_concat_call hh).trans ((and_iff_right id).trans not_not)
    · rintro rfl
      exact hh.concat_call ⟨id, id⟩
  have hpubout : Accounted (call (β := β) .pubout >>= checked) := by
    refine fun h hh => (ensures_bind _ _).mpr
      ⟨trivial, fun result => ensures_checked_unfailed ?_ ?_⟩
    · rintro r rfl
      exact (unfailed_concat_call hh).trans ((and_iff_right id).trans not_not)
    · rintro rfl
      exact hh.concat_call ⟨id, id⟩
  -- The two processes are run with `check=True`; the rest is tame.
  have hinit : EphemeralKey.init (β := β) level = (do
      orOSError (← call .mkdtemp)
      let _ ← call (.genpkey level) >>= checked
      orOSError (← call .chmod)
      let der ← call .pubout >>= checked
      Py.ofExcept (rawPublicFromDer der)) := by
    simp only [EphemeralKey.init, bind_assoc]
  rw [hinit]
  refine .bind (.of_tame (.call fun _ => ⟨id, id⟩)) fun _ =>
    .bind (.of_tame (.orOSError _)) fun _ =>
    .bind hgenpkey fun _ => .bind (.of_tame (.call fun _ => ⟨id, id⟩)) fun _ =>
    .bind (.of_tame (.orOSError _)) fun _ => .bind hpubout fun der => .of_tame (.ofExcept ?_)
  exact fun e => caught_rawPublicFromDer

/-- An exception of `psk_for` passes. -/
theorem Accounted.lookup {deviceId : List β} {f : HostOp.Ans (.pskFor deviceId) → Py β α}
    (hraises : ∀ e, f (.error e) = Py.raise e.1.toPyExn) (hf : ∀ psk, Accounted (f (.ok psk))) :
    Accounted (call (.pskFor deviceId) >>= f) := by
  refine fun h hh => (ensures_bind _ _).mpr ⟨trivial, fun answer => ?_⟩
  cases answer with
  | ok psk => exact hf psk _ (hh.concat_call ⟨id, id⟩)
  | error e =>
    show Ensures _ _ _ _ (f (.error e))
    rw [hraises]
    refine fun _ => iff_of_false (not_caught_lookup e) fun hunfailed => ?_
    exact ((unfailed_concat_call hh).mp hunfailed).1 trivial

/-- Up to the decapsulation, the lookup is the only such call. -/
theorem accounted_acceptHello [DecidableEq β] : Accounted (acceptHello P key) := by
  refine .bind (.of_tame tame_recvFrame) fun frame => .ite (.raise trivial)
    (.bind (.of_tame (.ofExcept fun e => caught_parse P)) fun hello =>
      .ite (.raise trivial) (.lookup (fun _ => rfl) fun psk => ?_))
  cases psk with
  | none => exact .raise trivial
  | some psk =>
    exact .of_tame (.ite (.raise trivial) (.bind (tame_decapsulate _) fun _ => .pure _))

/-- The whole connection. -/
theorem accounted_handleConnection [DecidableEq β] (turns : ℕ) :
    Accounted (handleConnection P key turns) := by
  refine .bind ?_ fun session => .of_tame (tame_recordLoop P _ _)
  refine .bind (accounted_acceptHello P key) fun accepted =>
    .bind (.of_tame (.call fun _ => ⟨id, id⟩)) fun _ =>
      .bind (.of_tame (.call fun _ => ⟨id, id⟩)) fun _ => .bind ?_
      fun exchanged => .of_tame (.ite (.raise trivial) (.pure _))
  -- The constructor is the one part that is not tame.
  rw [tryExchange]
  split
  · exact .bind (accounted_init _) fun ekEph =>
      .of_tame (.tryFinally (tame_exchange P _ _ _ _ _ _) tame_destroy)
  · exact .of_tame (tame_exchange P _ _ _ _ _ _)

end Connection

/-! ## Frames over sockets -/

section Sockets

variable (P : Prims β)

/-- The result of a framing call is no exception but a caught one. -/
def OkOrCaught (r : Except PyExn α) : Prop := ∀ e, r = .error e → Caught e

/-- A result that is no exception. -/
theorem okOrCaught_ok (a : α) : OkOrCaught (.ok a) := nofun

/-- Reading raises `ProtocolError` or `OSError`. -/
private theorem readExactly_caught (n : ℕ) (h : SockLog β) :
    Prog.Spec (fun _ _ => True) (fun _ r => OkOrCaught r) h (readExactly n) := by
  rw [readExactly, Prog.spec_bind]
  refine (Prog.Spec.trivial _).mono (fun _ _ ho => ho) fun l r _ => ?_
  cases r with
  | ok => exact okOrCaught_ok _
  | error e =>
    cases e with
    | closed | error =>
      rintro e ⟨⟩
      trivial

/-- So does reading a frame. -/
private theorem readFrame_caught (limit : ℕ) (h : SockLog β) :
    Prog.Spec (fun _ _ => True) (fun _ r => OkOrCaught r) h (readFrame P limit) := by
  rw [readFrame, Prog.spec_bind]
  refine (readExactly_caught 3 h).mono (fun _ _ ho => ho) fun l r hr => ?_
  cases r with
  | error e =>
    rintro e' ⟨⟩
    exact hr e rfl
  | ok head =>
    dsimp only
    -- A length over the limit is a `ProtocolError`.
    split
    · rintro e ⟨⟩
      trivial
    · rw [Prog.spec_bind]
      refine (readExactly_caught _ _).mono (fun _ _ ho => ho) fun l' r' hr' => ?_
      cases r' with
      | error e =>
        rintro e' ⟨⟩
        exact hr' e rfl
      | ok payload => exact okOrCaught_ok _

/-- Writing one raises `OSError`. -/
private theorem writeFrame_caught (ftype : UInt8) (payload : List β) (h : SockLog β) :
    Prog.Spec (fun _ _ => True) (fun _ r => OkOrCaught r) h (writeFrame P ftype payload) := by
  rw [writeFrame]
  split
  · rintro e ⟨⟩
    trivial
  · rw [sendall, Prog.spec_bind]
    refine (Prog.Spec.trivial _).mono (fun _ _ ho => ho) fun l r _ => ?_
    cases r with
    | false =>
      rintro e ⟨⟩
      trivial
    | true => exact okOrCaught_ok _

/-- The server's framing raises only what is caught. -/
theorem framesCaught_of_splice {log : Log β} {tr : SockLog β}
    (h : Prog.Splice (overInternal (framing P)) log tr) : FramesCaught log := by
  induction h with
  | nil => exact ⟨nofun, nofun⟩
  | @cons o a seg log tr hseg _ ih =>
    refine ⟨fun n e hmem => ?_, fun ftype payload e hmem => ?_⟩
    · rcases List.mem_cons.mp hmem with heq | hmem
      · cases heq
        exact (readFrame_caught P n []).ret_of_run hseg e rfl
      · exact ih.1 n e hmem
    · rcases List.mem_cons.mp hmem with heq | hmem
      · cases heq
        exact (writeFrame_caught P ftype payload []).ret_of_run hseg e rfl
      · exact ih.2 ftype payload e hmem

/-- A completed run over sockets is one of framing calls, whose failures are caught. -/
theorem exists_log_of_run {p : Prog (calls β) α} {tr : SockLog β} {r : α}
    (hrun : Prog.Run (Prog.interp (overInternal (framing P)) p) tr (.ret r)) :
    ∃ log, Prog.Run p log (.ret r) ∧ FrameView P maxFrame log tr ∧ FramesCaught log := by
  obtain ⟨log, q, tr₁, tr₂, rfl, hlog, hsplice, hsusp, hret⟩ := Prog.run_interp hrun
  obtain rfl := hret r rfl
  rw [hsusp.eq_nil, List.append_nil]
  exact ⟨log, hlog, (frameLaws P).view_of_splice hsplice, framesCaught_of_splice P hsplice⟩

/-! ## Turns of the record loop -/

/-- The number of frames that were read. -/
def framesRead (h : Log β) : ℕ := h.countP fun
  | ⟨.inl (.read _), .ok _⟩ => true
  | _ => false

/-- A frame has at least three bytes. -/
theorem three_mul_framesRead_le {log : Log β} {tr : SockLog β}
    (h : FrameView P maxFrame log tr) : 3 * framesRead log ≤ (receivedBytes tr).length := by
  induction h with
  | nil => exact Nat.zero_le _
  | @cons e log seg tr hm _ ih =>
    rw [receivedBytes_append, List.length_append]
    cases hm with
    -- These read no frame.
    | internal | written | writeFailed | readFailed =>
      rw [framesRead, List.countP_cons_of_neg (by simp)]
      exact ih.trans (Nat.le_add_left _ _)
    | read _ _ hframed =>
      obtain ⟨head, hhead, hreceived⟩ := hframed
      have hlen : head.length = 3 := by
        have := congrArg List.length hhead
        rwa [Prims.vals, List.length_map, List.length_cons, length_beBytes] at this
      rw [framesRead, List.countP_cons_of_pos rfl, hreceived, List.length_append, hlen]
      rw [framesRead] at ih
      omega

/-- A record loop that is not over after so many turns has read as many frames. -/
theorem recordLoop_turns (turns : ℕ) (inbound : Inbound β) (h : Log β) :
    Ensures (fun _ _ => True) (fun h' r => r = none → framesRead h + turns ≤ framesRead h')
      (fun _ _ => True) h (recordLoop P turns inbound) := by
  induction turns generalizing inbound h with
  | zero => exact fun _ => le_rfl
  | succ turns ih =>
    rw [recordLoop, ensures_bind]
    refine ⟨trivial, fun a => ?_⟩
    rcases a with e | ⟨ftype, payload⟩
    · -- A frame that cannot be read ends the loop or raises.
      cases e with
      | protocolError => exact fun hnone => absurd hnone (Option.some_ne_none _)
      | osError | calledProcessError | structError | valueError | systemExit | attributeError
      | typeError | recursionError => trivial
    · -- One more frame has been read.
      refine ensures_ite (fun _ hnone => absurd hnone (Option.some_ne_none _)) fun _ =>
        ensures_ite (fun _ => trivial) fun _ => ?_
      refine (ensures_bind _ _).mpr ⟨trivial, fun marked => ?_⟩
      refine (ensures_bind _ _).mpr ((ensures_ofExcept _).mpr ⟨fun plaintext _ => ?_,
        fun _ _ => trivial⟩)
      refine (ih _ _).mono (fun _ _ ho => ho) (fun l r hr hnone => ?_) fun _ _ he => he
      have hle := hr hnone
      have hread : framesRead (h ++ [⟨.inl (.read maxFrame), .ok (ftype, payload)⟩] ++
          [⟨.inr (.recordOpen payload.1), marked⟩]) = framesRead h + 1 := by
        rw [framesRead, List.countP_append, List.countP_append]
        rfl
      rw [hread] at hle
      omega

end Sockets

/-! ## Outcomes -/

section Outcome

variable [DecidableEq β] {P : Prims β} {key : PrivateKey β} {turns : ℕ} {tr : SockLog β}

/-- A connection ends with a return or an exception that is caught, exactly if no lookup and no
process that was run with `check=True` has failed. -/
theorem handleConnection_outcome {r : Except PyExn (Option (Inbound β))}
    (hrun : Prog.Run (overSockets P (handleConnection P key turns)) tr (.ret r)) :
    OkOrCaught r ↔ ∀ e ∈ internalEvents tr, ¬ LookupFailed e ∧ ¬ CheckFailed e := by
  obtain ⟨log, hlog, hv, hframes⟩ := exists_log_of_run P hrun
  rw [hv.internalEvents_eq]
  have hr := Prog.Spec.ret_of_run (accounted_handleConnection P key turns [] unfailed_nil) hlog
  cases r with
  | ok => exact iff_of_true (okOrCaught_ok _) hr
  | error e =>
    refine Iff.trans ?_ (hr hframes)
    exact ⟨fun hok => hok e rfl, fun he e' heq => by cases heq; exact he⟩

/-- A connection whose record loop is not over has received three bytes for each of its turns. -/
theorem handleConnection_turns
    (hrun : Prog.Run (overSockets P (handleConnection P key turns)) tr (.ret (.ok none))) :
    3 * turns ≤ (receivedBytes tr).length := by
  obtain ⟨log, hlog, hv, -⟩ := exists_log_of_run P hrun
  have hspec : Ensures (fun _ _ => True)
      (fun h' r => r = none → turns ≤ framesRead h') (fun _ _ => True) []
      (handleConnection P key turns) := by
    refine (ensures_bind _ _).mpr (Prog.Spec.mono (Prog.Spec.trivial _) (fun _ _ ho => ho) ?_)
    rintro l (e | session) -
    · -- No turn was taken.
      trivial
    · refine (recordLoop_turns P turns _ _).mono (fun _ _ ho => ho) (fun l' r hr hnone => ?_)
        fun _ _ he => he
      exact (Nat.le_add_left _ _).trans (hr hnone)
  have hturns := Prog.Spec.ret_of_run hspec hlog rfl
  exact (Nat.mul_le_mul_left 3 hturns).trans (three_mul_framesRead_le P hv)

/-- The accept loop closes the connection last, and goes on exactly if no lookup and no process that
was run with `check=True` has failed. -/
theorem serveConnection_outcome {r : Except PyExn Unit}
    (hrun : Prog.Run (overSockets P (serveConnection P key turns)) tr (.ret r)) :
    (∃ tr', tr = tr' ++ [⟨.inr .close, ()⟩]) ∧
      (r = .ok () ↔ ∀ e ∈ internalEvents tr, ¬ LookupFailed e ∧ ¬ CheckFailed e) := by
  obtain ⟨log, hlog, hv, hframes⟩ := exists_log_of_run P hrun
  have hspec : Ensures (fun _ _ => True)
      (fun h' _ => ∃ h₀, h' = h₀ ++ [⟨.inr .close, ()⟩] ∧ (FramesCaught h₀ → Unfailed h₀))
      (fun h' _ => ∃ h₀, h' = h₀ ++ [⟨.inr .close, ()⟩] ∧ (FramesCaught h₀ → ¬ Unfailed h₀)) []
      (serveConnection P key turns) := by
    refine Ensures.tryFinally ?_
    rw [Ensures, ExceptT.run, ExceptT.mk, Prog.spec_bind]
    refine Prog.Spec.mono (accounted_handleConnection P key turns [] unfailed_nil)
      (fun _ _ ho => ho)
      fun l r hr => ?_
    cases r with
    | ok => exact ⟨trivial, fun _ => ⟨_, rfl, fun _ => hr⟩⟩
    | error e =>
      cases e with
      -- The two `except` clauses of the accept loop.
      | protocolError | osError =>
        exact ⟨trivial, fun _ => ⟨_, rfl, fun hframes => (hr hframes).mp trivial⟩⟩
      -- The rest leaves the accept loop.
      | calledProcessError | structError | valueError | systemExit | attributeError | typeError
      | recursionError =>
        exact ⟨trivial, fun _ => ⟨_, rfl, fun hframes => (hr hframes).mpr⟩⟩
  have hr := Prog.Spec.ret_of_run hspec hlog
  -- The last event is the close, and it is no process.
  have hlast : ∀ {h₀ : Log β}, log = h₀ ++ [⟨.inr .close, ()⟩] →
      (∃ tr', tr = tr' ++ [⟨.inr .close, ()⟩]) ∧ FramesCaught h₀ ∧
        ((∀ e ∈ internalEvents tr, ¬ LookupFailed e ∧ ¬ CheckFailed e) ↔ Unfailed h₀) := by
    rintro h₀ rfl
    rw [hv.internalEvents_eq]
    obtain ⟨tr', rfl, -⟩ := hv.concat_internal
    refine ⟨⟨tr', rfl⟩, ⟨fun n e hmem => hframes.1 n e (List.mem_append_left _ hmem),
      fun ftype payload e hmem => hframes.2 ftype payload e (List.mem_append_left _ hmem)⟩, ?_⟩
    refine ⟨fun hall e he => hall e ?_, fun hh => Unfailed.concat_call hh ⟨id, id⟩⟩
    rw [internalEvents_append]
    exact List.mem_append_left _ he
  cases r with
  | ok =>
    obtain ⟨h₀, heq, hunfailed⟩ := hr
    obtain ⟨hclosed, hframes₀, hiff⟩ := hlast heq
    exact ⟨hclosed, iff_of_true rfl (hiff.mpr (hunfailed hframes₀))⟩
  | error e =>
    obtain ⟨h₀, heq, hfailed⟩ := hr
    obtain ⟨hclosed, hframes₀, hiff⟩ := hlast heq
    exact ⟨hclosed, iff_of_false (by simp) fun hall => hfailed hframes₀ (hiff.mp hall)⟩

end Outcome

end Server

end PqcIot
