import PqcIot.Server.Erasure
import PqcIot.System.ServerRuns

/-!
# A constructor that fails

Every connection comes to an end, and ends with a return or an exception that the accept loop
catches exactly if its device can be looked up and no openssl process that is run with `check=True`
exits with an error (`connection_survived_iff`). These processes are those of
`EphemeralKey.__init__`. Where one fails, `CalledProcessError` passes both `except` clauses and the
server is down (`genpkey_failure_stops_server`); and what the constructor has made by then is not
destroyed, as the variable that the `finally` block looks at is still unset
(`pubout_failure_leaves_key`).
-/

namespace PqcIot

open Effects Protocol Server
open Firmware (zeroConfig)

variable {β : Type}

/-! ## An exception of the constructor -/

section Constructor

variable (P : Prims β) {kem : Kem β .mlkem768} (cfg : Firmware.Config β)
  (client : Firmware.Platform kem) (server : Server.Platform kem) (key : PrivateKey β)
  (initLog : Server.Log β)

/-- The history of a mode B connection whose ClientHello is accepted, with that of the constructor
of its ephemeral key. -/
def constructorLog : Server.Log β :=
  acceptLog P cfg .bForwardSecrecy client server ++
    (⟨.inr (.tokenBytes nonceLen), server.token nonceLen⟩ ::
      ⟨.inr (.tokenBytes sessionIdLen), server.token sessionIdLen⟩ :: initLog)

variable {initLog} {e : PyExn}

/-- An exception of the constructor ends the `try` statement, past its `finally` block. -/
theorem exchangeKeys_constructor [DecidableEq β] (hid : cfg.serverKeyId = key.keyId)
    (hinit : Prog.Run (EphemeralKey.init .mlkem768).run initLog (.ret (.error e))) :
    Prog.Run (exchangeKeys P key).run (constructorLog P cfg client server initLog)
      (.ret (.error e)) := by
  have hexchange : Prog.Run
      (tryExchange P (honestHello P cfg .bForwardSecrecy client server) cfg.devicePsk
        (staticEnc P cfg client).ss (server.token 32).1 (server.token 8).1).run
      initLog (.ret (.error e)) := run_bind_error hinit
  refine run_bind (acceptHello_run P cfg .bForwardSecrecy client server key hid) ?_
  exact run_call (run_call (run_bind_error hexchange))

/-- Nothing in `handle_connection` catches it. -/
theorem handleConnection_constructor [DecidableEq β] (hid : cfg.serverKeyId = key.keyId)
    (hinit : Prog.Run (EphemeralKey.init .mlkem768).run initLog (.ret (.error e))) (turns : ℕ) :
    Prog.Run (handleConnection P key turns).run (constructorLog P cfg client server initLog)
      (.ret (.error e)) := by
  rw [handleConnection_eq]
  exact run_bind_error (exchangeKeys_constructor P cfg client server key hid hinit)

/-- The accept loop closes the connection, and passes on what it does not catch. -/
theorem serveConnection_constructor [DecidableEq β] (hid : cfg.serverKeyId = key.keyId)
    (hinit : Prog.Run (EphemeralKey.init .mlkem768).run initLog (.ret (.error .calledProcessError)))
    (turns : ℕ) :
    Prog.Run (serveConnection P key turns).run
      (constructorLog P cfg client server initLog ++ [⟨.inr .close, ()⟩])
      (.ret (.error .calledProcessError)) := by
  have hhandle := handleConnection_constructor P cfg client server key hid hinit turns
  refine run_tryFinally ?_ (run_call (.nil _))
  rw [← List.append_nil (constructorLog P cfg client server initLog)]
  exact hhandle.bind (.nil _)

/-- All that a peer has to send is the ClientHello of the device. -/
theorem constructorLog_delivers (hinit : ∀ e ∈ initLog, Delivers maxFrame e) :
    ∀ e ∈ constructorLog P cfg client server initLog, Delivers maxFrame e := by
  have hhello := (length_hello P cfg .bForwardSecrecy client server).trans_le
    (show 1166 ≤ maxFrame by decide)
  refine List.forall_mem_append.mpr ⟨?_, ?_⟩
  · rintro e (_ | ⟨_, _ | ⟨_, _ | ⟨_, hmem⟩⟩⟩)
    · exact hhello
    · trivial
    · trivial
    · cases hmem
  · rintro e (_ | ⟨_, _ | ⟨_, hmem⟩⟩)
    · trivial
    · trivial
    · exact hinit e hmem

/-- The honest connection of a device destroys its ephemeral key. -/
theorem exchangeKeys_honest [DecidableEq β] (mode : Firmware.Mode)
    (hid : cfg.serverKeyId = key.keyId) :
    ∃ r, Prog.Run (exchangeKeys P key).run (connectionLog P cfg mode client server)
      (.ret (.ok r)) := by
  obtain ⟨result, hrun, -⟩ := tryExchange_run P cfg mode client server
  refine ⟨(honestHello P cfg mode client server, (server.token 8).1, result),
    run_bind (acceptHello_run P cfg mode client server key hid) ?_⟩
  exact run_call (run_call (run_bind_last hrun (.nil _)))

end Constructor

/-! ## Survival -/

/-- Whatever arrives and however the transport, the processes and the files behave, a connection
comes to an end, when its peer does not send forever; it ends with a return, `ProtocolError` or
`OSError` exactly if `psk_for` has not raised and no openssl process that is run with `check=True`
has exited with an error; and the accept loop closes it, and goes on under the same condition. -/
theorem connection_survived_iff [DecidableEq β] (P : Prims β) (key : PrivateKey β) :
    (∀ turns env, ∃ tr r, Prog.AnsweredBy env [] tr ∧
      Prog.Run (overSockets P (handleConnection P key turns)) tr (.ret r) ∧
      (r = .ok none → 3 * turns ≤ (receivedBytes tr).length)) ∧
    (∀ turns tr r, Prog.Run (overSockets P (handleConnection P key turns)) tr (.ret r) →
      (OkOrCaught r ↔ ∀ e ∈ internalEvents tr, ¬ LookupFailed e ∧ ¬ CheckFailed e)) ∧
    (∀ turns tr r, Prog.Run (overSockets P (serveConnection P key turns)) tr (.ret r) →
      (∃ tr', tr = tr' ++ [⟨.inr .close, ()⟩]) ∧
        (r = .ok () ↔ ∀ e ∈ internalEvents tr, ¬ LookupFailed e ∧ ¬ CheckFailed e)) := by
  refine ⟨fun turns env => ?_, fun turns tr r hrun => handleConnection_outcome hrun,
    fun turns tr r hrun => serveConnection_outcome hrun⟩
  obtain ⟨tr, r, hans, hrun⟩ := Prog.exists_run env []
    (overSockets P (handleConnection P key turns))
  refine ⟨tr, r, hans, hrun, ?_⟩
  rintro rfl
  exact handleConnection_turns hrun

/-- The honest connection of a device for mode B, which has its ephemeral key generated. -/
theorem connection_survived_session :
    ∃ tr, Prog.Run (overSockets plainPrims (serveConnection plainPrims zeroKey 2)) tr
        (.ret (.ok ())) ∧
      ⟨.genpkey .mlkem768, some ⟨0, []⟩⟩ ∈ internalEvents tr ∧
      ∀ e ∈ internalEvents tr, ¬ LookupFailed e ∧ ¬ CheckFailed e := by
  obtain ⟨tr, hview, hrun⟩ := exists_connection.2
  obtain ⟨-, -, hserved⟩ := connection_survived_iff plainPrims zeroKey
  refine ⟨tr, hrun, ?_, (hserved 2 tr _ hrun).2.mp rfl⟩
  rw [hview.internalEvents_eq, internalEvents_append, internalEvents_zeroSessionLog]
  simp

/-! ## Fixed connections -/

/-- The history of a connection of the device, with that of the constructor. -/
def zeroConstructorLog (initLog : Server.Log UInt8) : Server.Log UInt8 :=
  constructorLog zeroPrims zeroConfig (zeroClient zeroPrims zeroConfig)
    (zeroServer zeroPrims zeroConfig) initLog

/-- `openssl genpkey` exits with 1. -/
def genpkeyFailure : Server.Log UInt8 :=
  [⟨.inr .mkdtemp, some ()⟩, ⟨.inr (.genpkey .mlkem768), some ⟨1, []⟩⟩]

/-- `openssl pkey -pubout` exits with 0 and prints nothing. -/
def puboutFailure : Server.Log UInt8 :=
  [⟨.inr .mkdtemp, some ()⟩, ⟨.inr (.genpkey .mlkem768), some ⟨0, []⟩⟩, ⟨.inr .chmod, some ()⟩,
    ⟨.inr .pubout, some ⟨0, []⟩⟩]

/-- A connection takes the server down: `openssl genpkey` fails after a good ClientHello for
mode B. -/
theorem genpkey_failure_stops_server :
    (∃ tr, Prog.Run (overSockets zeroPrims (serveConnection zeroPrims zeroKey 1)) tr
        (.ret (.error .calledProcessError)) ∧
      FrameView zeroPrims maxFrame (zeroConstructorLog genpkeyFailure ++ [⟨.inr .close, ()⟩]) tr) ∧
    ¬ ∀ tr r, Prog.Run (overSockets zeroPrims (handleConnection zeroPrims zeroKey 1)) tr (.ret r) →
      OkOrCaught r := by
  have hinit : Prog.Run (EphemeralKey.init .mlkem768).run genpkeyFailure
      (.ret (.error .calledProcessError)) := .cons (.cons (.nil _))
  have hdelivers : ∀ e ∈ zeroConstructorLog genpkeyFailure, Delivers maxFrame e := by
    refine constructorLog_delivers _ _ _ _ ?_
    simp [genpkeyFailure, Delivers]
  constructor
  · exact (frameFollows zeroPrims).exists_view (frameLaws zeroPrims)
      (serveConnection_constructor _ _ _ _ zeroKey rfl hinit 1)
      (List.forall_mem_append.mpr ⟨hdelivers, by simp [Delivers]⟩)
  · intro hsurvived
    obtain ⟨tr, hrun, -⟩ := (frameFollows zeroPrims).exists_view (frameLaws zeroPrims)
      (handleConnection_constructor _ _ _ _ zeroKey rfl hinit 1) hdelivers
    exact hsurvived tr _ hrun _ rfl

/-- An honest connection for mode B destroys its key. -/
theorem ephemeralKey_destroyed_honest :
    ∃ tr r, Prog.Run (overSockets zeroPrims (exchangeKeys zeroPrims zeroKey)) tr (.ret r) ∧
      TempDir.fresh.Evolves (internalEvents tr) ⟨false, some .zeros⟩ ∧
      ∀ e ∈ internalEvents tr, ¬ Disturbs e := by
  let client := zeroClient zeroPrims zeroConfig
  let server := zeroServer zeroPrims zeroConfig
  obtain ⟨r, hlog⟩ := exchangeKeys_honest zeroPrims zeroConfig client server zeroKey
    .bForwardSecrecy rfl
  obtain ⟨n, hscript⟩ := connection_scripted zeroPrims zeroConfig .bForwardSecrecy client server
    rfl rfl
  obtain ⟨tr, hrun, hview⟩ := (frameFollows zeroPrims).exists_view (frameLaws zeroPrims) hlog
    hscript.delivers
  have hevolves : TempDir.fresh.Evolves (internalEvents tr) ⟨false, some .zeros⟩ := by
    rw [hview.internalEvents_eq]
    exact ⟨_, rfl, _, rfl, _, rfl, _, rfl, _, rfl, _, .inl rfl, _, rfl, _, rfl, _, rfl,
      _, ⟨rfl, fun _ => ⟨rfl, rfl⟩⟩, _, rfl, _, rfl, _, rfl, rfl⟩
  obtain ⟨-, hsettled, -⟩ := ephemeralKey_destroyed_iff zeroPrims zeroKey
  exact ⟨tr, _, hrun, hevolves, (hsettled tr _ hrun _ hevolves).mp (fun _ => ⟨rfl, .inl rfl⟩) rfl⟩

/-- The key outlives its use: `openssl pkey -pubout` prints nothing, and the exception for the
length of its output leaves the key in `eph.pem`. -/
theorem pubout_failure_leaves_key :
    (∃ tr e, Prog.Run (overSockets zeroPrims (exchangeKeys zeroPrims zeroKey)) tr
      (.ret (.error e)) ∧
      FrameView zeroPrims maxFrame (zeroConstructorLog puboutFailure) tr ∧
      TempDir.fresh.Evolves (internalEvents tr) ⟨true, some .key⟩) ∧
    ¬ ∀ tr r d, Prog.Run (overSockets zeroPrims (exchangeKeys zeroPrims zeroKey)) tr (.ret r) →
      TempDir.fresh.Evolves (internalEvents tr) d → d.Destroyed (internalEvents tr) := by
  have hinit : Prog.Run (EphemeralKey.init .mlkem768).run puboutFailure
      (.ret (.error (.protocolError s!"unexpected public key DER length {0}"))) :=
    .cons (.cons (.cons (.cons (.nil _))))
  have hdelivers : ∀ e ∈ zeroConstructorLog puboutFailure, Delivers maxFrame e := by
    refine constructorLog_delivers _ _ _ _ ?_
    simp [puboutFailure, Delivers]
  obtain ⟨tr, hrun, hview⟩ := (frameFollows zeroPrims).exists_view (frameLaws zeroPrims)
    (exchangeKeys_constructor _ _ _ _ zeroKey rfl hinit) hdelivers
  have hevolves : TempDir.fresh.Evolves (internalEvents tr) ⟨true, some .key⟩ := by
    rw [hview.internalEvents_eq]
    exact ⟨_, rfl, _, rfl, _, rfl, _, rfl, _, rfl, _, .inl rfl, _, rfl, _, rfl, rfl⟩
  refine ⟨⟨tr, _, hrun, hview, hevolves⟩, fun hdestroyed => ?_⟩
  have habsent := (hdestroyed tr _ _ hrun hevolves rfl).1
  cases habsent

end PqcIot
