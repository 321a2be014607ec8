import PqcIot.System.Acceptance
import PqcIot.System.HonestRun

/-!
# Sessions on the network

On the hostile network of `System.Network` a client run and a connection that have not started can
complete an honest handshake, in any state: the attacker passes on what it has read. `afterSession`
is the state afterwards; it is reachable (`steps_afterSession`), and in it the run has returned a
session (`handshakeReturned_afterSession`) and the connection has passed the check of ClientFinished
with the same keys (`checkPassed_afterSession`).
-/

namespace PqcIot

open Effects Protocol Symbolic Symbolic.Byte

namespace World

variable (W : World) (i j : ℕ)

/-- What a client run draws. The second encapsulation is the fifth event of its history. -/
noncomputable def clientPlatform : Firmware.Platform (idealKem Atom .mlkem768) where
  fill len := ⟨atomBytes len (.clientNonce i 0), length_atomBytes _ _⟩
  coins n := atomBytes 32 (.coins i (if n = 1 then 1 else 4))

omit j in
/-- A device's PSK has 32 bytes. -/
theorem length_devicePsk : (devicePsk (W.device i)).length = 32 := length_atomBytes _ _

/-- What a connection draws: the nonce at the fourth event of its history, then the session id, and
the ephemeral key at the seventh. -/
noncomputable def serverPlatform : Server.Platform (idealKem Atom .mlkem768) where
  devices _ := .ok (some ⟨devicePsk (W.device i), length_devicePsk W i⟩)
  token n := ⟨atomBytes n (.token j (if n = nonceLen then 3 else 4)), length_atomBytes _ _⟩
  staticKey := staticSeed
  ephemeralKey := ephemeralSeed j 6
  derHeader := ⟨List.replicate 22 (.lit 0), List.length_replicate⟩
  genOutput := []
  pemSize := 0

/-- The values of the handshake of client run `i` with connection `j`. -/
noncomputable def sessionValues : Handshake Letter :=
  honestValues W.prims (W.cfg i) (W.mode i) (clientPlatform i) (W.serverPlatform i j)

/-- The history of the client run. -/
noncomputable def clientLog : Firmware.Log Letter :=
  deviceLog W.prims (W.cfg i) (W.mode i) (clientPlatform i) (W.serverPlatform i j)

/-- The history of the connection. -/
noncomputable def serverLog : Server.Log Letter :=
  connectionLog W.prims (W.cfg i) (W.mode i) (clientPlatform i) (W.serverPlatform i j)

/-- The events of a connection up to its ServerHello. -/
def helloEvents : ℕ := if (W.mode i).fs then 10 else 6

/-! ## The honest answers are possible -/

variable {W i j} {K : Letter → Prop}

/-- What is encapsulated to a key decapsulates. -/
private theorem encapsulate_ideal (seed coins : List Letter) {pk : List Letter}
    (hpk : pk = publicKeyBytes .mlkem768 seed) {enc : Firmware.Encapsulation Letter}
    (henc : enc = Firmware.encapsulate W.prims (idealKem Atom .mlkem768) pk coins) :
    enc.ct = ctBytes .mlkem768 pk coins ∧ enc.ss = ssBytes .mlkem768 pk coins ∧
      enc.ss = idealDecaps .mlkem768 seed enc.ct := by
  have haccept : (idealKem Atom .mlkem768).encaps pk coins =
      some (ctBytes .mlkem768 pk coins, ssBytes .mlkem768 pk coins) := rfl
  obtain ⟨-, hct, hss⟩ := Firmware.encapsulate_eq (P := W.prims) haccept
  rw [henc, hct, hss, hpk]
  exact ⟨rfl, rfl, (idealDecaps_ctBytes _ _ _).symm⟩

/-- The first encapsulation is to the server's key, and decapsulates to the same secret. -/
private theorem staticEnc_ideal {enc : Firmware.Encapsulation Letter}
    (henc : enc = staticEnc W.prims (W.cfg i) (clientPlatform i)) :
    enc.ct = ctBytes .mlkem768 serverPublicKey (atomBytes 32 (.coins i 1)) ∧
      enc.ss = ssBytes .mlkem768 serverPublicKey (atomBytes 32 (.coins i 1)) ∧
      enc.ss = idealDecaps .mlkem768 staticSeed enc.ct := by
  have hpk : serverPublicKey = publicKeyBytes .mlkem768 staticSeed := by
    unfold serverPublicKey
    rfl
  have hcoins : (clientPlatform i).coins 1 = atomBytes 32 (.coins i 1) := rfl
  rw [staticEnc, hcoins] at henc
  exact encapsulate_ideal staticSeed _ hpk henc

/-- The second one is to the connection's ephemeral key. -/
private theorem ephemeralEnc_ideal {enc : Firmware.Encapsulation Letter}
    (henc : enc = ephemeralEnc W.prims (clientPlatform i) (W.serverPlatform i j)) :
    enc.ct = ctBytes .mlkem768 ((idealKem Atom .mlkem768).publicKey
        (W.serverPlatform i j).ephemeralKey) (atomBytes 32 (.coins i 4)) ∧
      enc.ss = ssBytes .mlkem768 ((idealKem Atom .mlkem768).publicKey
        (W.serverPlatform i j).ephemeralKey) (atomBytes 32 (.coins i 4)) ∧
      enc.ss = idealDecaps .mlkem768 (ephemeralSeed j 6) enc.ct := by
  have hcoins : (clientPlatform i).coins 2 = atomBytes 32 (.coins i 4) := rfl
  have hseed : (W.serverPlatform i j).ephemeralKey = ephemeralSeed j 6 := rfl
  rw [ephemeralEnc, hcoins, hseed] at henc
  rw [hseed]
  exact encapsulate_ideal (ephemeralSeed j 6) _ (idealKem_publicKey _ _) henc

/-- One more answer that a client run can get. -/
private theorem possible_client {log l : Firmware.Log Letter} {e : Event (Firmware.visible Letter)}
    (he : ClientAnswers i K log e)
    (hl : Network.Possible (N := W.network) (.client i) K (log ++ [e]) l) :
    Network.Possible (N := W.network) (.client i) K log (e :: l) := ⟨he, hl⟩

/-- The client run can get as far as its ClientHello. -/
private theorem possible_clientHello :
    Network.Possible (N := W.network) (.client i) K [] ((W.clientLog i j).take 3) := by
  refine possible_client rfl (possible_client (fun _ => ?_) (possible_client trivial trivial))
  obtain ⟨hct, hss, -⟩ := staticEnc_ideal (W := W) (i := i) rfl
  exact ⟨hct, hss⟩

/-- It can go on when the ServerHello reaches it. -/
private theorem possible_clientFinished
    (hK : ∀ x ∈ (W.sessionValues i j).serverHello W.prims, K x) :
    Network.Possible (N := W.network) (.client i) K ((W.clientLog i j).take 3)
      ((W.clientLog i j).drop 3) := by
  refine possible_client hK ?_
  by_cases hfs : (W.mode i).fs = true
  · simp only [if_pos hfs]
    refine possible_client (fun _ => ?_) (possible_client trivial trivial)
    obtain ⟨hct, hss, -⟩ := ephemeralEnc_ideal (W := W) (i := i) (j := j) rfl
    exact ⟨hct, hss⟩
  · simp only [if_neg hfs]
    exact possible_client trivial trivial

/-- One more answer that a connection can get. -/
private theorem possible_connection {log l : Server.Log Letter} {e : Event (Server.calls Letter)}
    (he : W.ConnectionAnswers j K log e)
    (hl : Network.Possible (N := W.network) (.connection j) K (log ++ [e]) l) :
    Network.Possible (N := W.network) (.connection j) K log (e :: l) := ⟨he, hl⟩

/-- The answers up to the static decapsulation. -/
private theorem possible_accept (hK : ∀ x ∈ (W.sessionValues i j).hello, K x) :
    Network.Possible (N := W.network) (.connection j) K []
      (acceptLog W.prims (W.cfg i) (W.mode i) (clientPlatform i) (W.serverPlatform i j)) := by
  refine possible_connection hK (possible_connection ?_ (possible_connection ?_ trivial))
  · rintro l ⟨⟩
    exact ⟨W.device i, W.device_registered i, rfl, rfl⟩
  · rintro r ss ⟨⟩ - ⟨⟩
    exact (staticEnc_ideal rfl).2.2

/-- The connection can get as far as its ServerHello when the ClientHello reaches it. -/
private theorem possible_serverHello (hK : ∀ x ∈ (W.sessionValues i j).hello, K x) :
    Network.Possible (N := W.network) (.connection j) K []
      ((W.serverLog i j).take (W.helloEvents i))
    := by
  by_cases hfs : (W.mode i).fs = true
  · simp only [helloEvents, serverLog, connectionLog, exchangeLog, if_pos hfs]
    refine Network.possible_append.mpr ⟨possible_accept hK, ?_⟩
    refine possible_connection ?_ (possible_connection ?_ (possible_connection trivial
      (possible_connection trivial (possible_connection trivial (possible_connection ?_
        (possible_connection trivial trivial))))))
    · rfl
    · rfl
    · rintro r ⟨⟩ -
      refine ⟨.mlkem768, ephemeralSeed j 6, List.replicate 22 (.lit 0), ⟨6, _, rfl, rfl⟩,
        List.length_replicate, ?_⟩
      exact congrArg ((List.replicate 22 (.lit 0) : List Letter) ++ ·)
        (idealKem_publicKey .mlkem768 (ephemeralSeed j 6))
  · simp only [helloEvents, serverLog, connectionLog, exchangeLog, if_neg hfs]
    refine Network.possible_append.mpr ⟨possible_accept hK, ?_⟩
    exact possible_connection rfl (possible_connection rfl (possible_connection trivial trivial))

/-- It can go on when the ClientFinished reaches it. -/
private theorem possible_serverRest (hK : ∀ x ∈ (W.sessionValues i j).clientFinished W.prims, K x) :
    Network.Possible (N := W.network) (.connection j) K ((W.serverLog i j).take (W.helloEvents i))
      ((W.serverLog i j).drop (W.helloEvents i)) := by
  by_cases hfs : (W.mode i).fs = true
  · simp only [helloEvents, serverLog, connectionLog, exchangeLog, if_pos hfs]
    refine possible_connection hK (possible_connection ?_ (possible_connection trivial
      (possible_connection trivial (possible_connection trivial
        (possible_connection trivial trivial)))))
    -- The decapsulation gives back what the client has encapsulated.
    rintro r ss ⟨⟩ - ⟨⟩
    have hct : (W.sessionValues i j).ctEph =
        (ephemeralEnc W.prims (clientPlatform i) (W.serverPlatform i j)).ct := if_pos hfs
    have hss : (W.sessionValues i j).ssEph =
        (ephemeralEnc W.prims (clientPlatform i) (W.serverPlatform i j)).ss := if_pos hfs
    refine ⟨.mlkem768, ephemeralSeed j 6, ⟨6, _, rfl, rfl⟩, ?_⟩
    exact hss.trans ((ephemeralEnc_ideal rfl).2.2.trans (congrArg _ hct.symm))
  · simp only [helloEvents, serverLog, connectionLog, exchangeLog, if_neg hfs]
    exact possible_connection hK trivial

/-! ## The session -/

section Extend

variable (s : W.State)

/-- More has happened to a client run. -/
noncomputable def State.onClient (i : ℕ) (l : Firmware.Log Letter) : W.State :=
  Network.State.extend s (.client i) l

/-- More has happened to a connection. -/
noncomputable def State.onConnection (j : ℕ) (l : Server.Log Letter) : W.State :=
  Network.State.extend s (.connection j) l

/-- The history of the client run is longer. -/
theorem client_onClient (i : ℕ) (l : Firmware.Log Letter) :
    (State.onClient s i l).client i = s.client i ++ l := Network.State.extend_log_self _ _ _

/-- A connection's events are none of a client run. -/
theorem client_onConnection (i j : ℕ) (l : Server.Log Letter) :
    (State.onConnection s j l).client i = s.client i := Network.State.extend_log_of_ne _ _ nofun

/-- The history of the connection is longer. -/
theorem connection_onConnection (j : ℕ) (l : Server.Log Letter) :
    (State.onConnection s j l).connection j = s.connection j ++ l :=
  Network.State.extend_log_self _ _ _

/-- A client run's events are none of a connection. -/
theorem connection_onClient (i j : ℕ) (l : Firmware.Log Letter) :
    (State.onClient s i l).connection j = s.connection j := Network.State.extend_log_of_ne _ _ nofun

/-- Events are appended one after the other. -/
theorem onClient_onClient (i : ℕ) (l l' : Firmware.Log Letter) :
    State.onClient (State.onClient s i l) i l' = State.onClient s i (l ++ l') :=
  Network.State.extend_extend _ _ _ _

/-- The same for a connection. -/
theorem onConnection_onConnection (j : ℕ) (l l' : Server.Log Letter) :
    State.onConnection (State.onConnection s j l) j l' = State.onConnection s j (l ++ l') :=
  Network.State.extend_extend _ _ _ _

/-- Events of different parties can be appended in either order. -/
theorem onClient_onConnection (i j : ℕ) (l : Server.Log Letter) (l' : Firmware.Log Letter) :
    State.onClient (State.onConnection s j l) i l' =
      State.onConnection (State.onClient s i l') j l := Network.State.extend_comm _ _ _ nofun

variable {s}

/-- The attacker sees what a client run shows. -/
private theorem knows_of_client {e : Event (Firmware.visible Letter)} (he : e ∈ s.client i)
    {x : Letter} (hx : x ∈ shown (.client i) e) : Network.Knows s x := .known (.shown he hx)

/-- The same for a connection. -/
private theorem knows_of_connection {e : Event (Server.calls Letter)} (he : e ∈ s.connection j)
    {x : Letter} (hx : x ∈ shown (.connection j) e) : Network.Knows s x := .known (.shown he hx)

end Extend

variable (s : W.State) (i j)

/-- The state after an honest session of client run `i` with connection `j`. -/
noncomputable def afterSession : W.State :=
  State.onConnection (State.onClient s i (W.clientLog i j)) j (W.serverLog i j)

/-- The session of the client run. -/
noncomputable def clientSession : Firmware.Session Letter :=
  Firmware.clientSession W.prims (W.mode i) (W.sessionValues i j)

variable {s i j}

/-- The client run has the history of the honest session. -/
theorem afterSession_client (hi : s.client i = []) :
    (afterSession i j s).client i = W.clientLog i j := by
  rw [afterSession, client_onConnection, client_onClient, hi, List.nil_append]

/-- So does the connection. -/
theorem afterSession_connection (hj : s.connection j = []) :
    (afterSession i j s).connection j = W.serverLog i j := by
  rw [afterSession, connection_onConnection, connection_onClient, hj, List.nil_append]

/-- The client run's history is complete. -/
private theorem client_run : Prog.Run (W.program (.client i)) (W.clientLog i j)
    (.ret (some (W.clientSession i j))) := by
  rw [World.program, Firmware.handshake_refines]
  refine device_run W.prims (W.cfg i) (W.mode i) (clientPlatform i) (W.serverPlatform i j) ?_
  show serverPublicKey = _
  unfold serverPublicKey
  exact (idealKem_publicKey .mlkem768 staticSeed).symm

/-- The connection's history is complete up to the check of ClientFinished. -/
private theorem server_run : ∃ session,
    Prog.Run (Server.keyExchange W.prims serverKey).run (W.serverLog i j) (.ret (.ok session)) ∧
      session.hello.deviceId = (W.device i).bytes ∧
      session.keys.c2s = (W.clientSession i j).c2s := by
  obtain ⟨session, hrun, -, hhello, hc2s⟩ := connection_run W.prims (W.cfg i) (W.mode i)
    (clientPlatform i) (W.serverPlatform i j) serverKey rfl
  exact ⟨session, hrun, congrArg ClientHello.deviceId hhello, hc2s⟩

/-- The client's handshake has returned its session. -/
theorem handshakeReturned_afterSession (hi : s.client i = []) :
    HandshakeReturned (afterSession i j s) i (W.clientSession i j) := by
  rw [HandshakeReturned, afterSession_client hi]
  exact client_run

/-- The server's check has passed, for the device and with the client's key. -/
theorem checkPassed_afterSession (hj : s.connection j = []) :
    ∃ session, CheckPassed (afterSession i j s) j session ∧
      session.hello.deviceId = (W.device i).bytes ∧
      session.keys.c2s = (W.clientSession i j).c2s := by
  obtain ⟨session, hrun, hdevice, hc2s⟩ := server_run (W := W) (i := i) (j := j)
  refine ⟨session, ⟨W.serverLog i j, ?_, hrun⟩, hdevice, hc2s⟩
  rw [afterSession_connection hj]

/-- The connection's run, up to the end of `handle_connection` or the first read of its record
loop. -/
private theorem connection_program_run :
    ∃ q, Prog.Run (W.program (.connection j)) (W.serverLog i j) q := by
  obtain ⟨session, hrun, -⟩ := server_run (W := W) (i := i) (j := j)
  exact ⟨_, hrun.bind_left _⟩

/-- A client run goes on by a history that the network makes possible. -/
private theorem steps_onClient {l : Firmware.Log Letter}
    {q : Prog (Firmware.visible Letter) (Option (Firmware.Session Letter))}
    (hrun : Prog.Run (W.program (.client i)) (s.client i ++ l) q)
    (hpossible : Network.Possible (N := W.network) (.client i) (Network.Knows s) (s.client i) l) :
    Network.Steps s (State.onClient s i l) := Network.steps_extend hrun hpossible

/-- So does a connection. -/
private theorem steps_onConnection {l : Server.Log Letter}
    {q : Prog (Server.calls Letter) (Except PyExn (Option (Server.Inbound Letter)))}
    (hrun : Prog.Run (W.program (.connection j)) (s.connection j ++ l) q)
    (hpossible : Network.Possible (N := W.network) (.connection j) (Network.Knows s)
      (s.connection j) l) :
    Network.Steps s (State.onConnection s j l) := Network.steps_extend hrun hpossible

/-- The ClientHello is among the events before the ServerHello, and so on. -/
private theorem hello_mem : (⟨.inl (.write Firmware.frameClientHello (W.sessionValues i j).hello),
    .ok ()⟩ : Event (Firmware.visible Letter)) ∈ (W.clientLog i j).take 3 :=
  .tail _ (.tail _ (.head _))

/-- The ServerHello is among the events up to it. -/
private theorem serverHello_mem :
    (⟨.inl (.write frameServerHello ((W.sessionValues i j).serverHello W.prims)), .ok ()⟩ :
      Event (Server.calls Letter)) ∈ (W.serverLog i j).take (W.helloEvents i) := by
  by_cases hfs : (W.mode i).fs = true
  · simp only [helloEvents, serverLog, connectionLog, exchangeLog, if_pos hfs]
    exact List.mem_of_getElem? (i := 9) rfl
  · simp only [helloEvents, serverLog, connectionLog, exchangeLog, if_neg hfs]
    exact List.mem_of_getElem? (i := 5) rfl

/-- The ClientFinished is among the events of the client run. -/
private theorem clientFinished_mem :
    (⟨.inl (.write Firmware.frameClientFinished ((W.sessionValues i j).clientFinished W.prims)),
      .ok ()⟩ : Event (Firmware.visible Letter)) ∈ W.clientLog i j :=
  List.mem_append_right _ (List.mem_append_right _ (.head _))

/-- The client run and the connection act in turn: each reads what the other has put on the
network. -/
theorem steps_afterSession (hi : s.client i = []) (hj : s.connection j = []) :
    Network.Steps s (afterSession i j s) := by
  have hclient := client_run (W := W) (i := i) (j := j)
  obtain ⟨q, hserver⟩ := connection_program_run (W := W) (i := i) (j := j)
  -- Both histories are cut where one side waits for the other.
  have hsplit := hclient
  rw [← List.take_append_drop 3 (W.clientLog i j)] at hsplit
  obtain ⟨q₁, hhello, -⟩ := hsplit.split
  have hsplit' := hserver
  rw [← List.take_append_drop (W.helloEvents i) (W.serverLog i j)] at hsplit'
  obtain ⟨q₂, hserverHello, -⟩ := hsplit'.split
  -- ClientHello.
  have h₁ : Network.Steps s (State.onClient s i ((W.clientLog i j).take 3)) := by
    refine steps_onClient (q := q₁) ?_ ?_
    · rw [hi]
      exact hhello
    · rw [hi]
      exact possible_clientHello
  set s₁ := State.onClient s i ((W.clientLog i j).take 3) with hs₁
  have hc₁ : s₁.client i = (W.clientLog i j).take 3 := by
    rw [hs₁, client_onClient, hi, List.nil_append]
  have hv₁ : s₁.connection j = [] := (connection_onClient s i j _).trans hj
  -- ServerHello.
  have h₂ : Network.Steps s₁
    (State.onConnection s₁ j ((W.serverLog i j).take (W.helloEvents i))) := by
    refine steps_onConnection (q := q₂) ?_ ?_
    · rw [hv₁]
      exact hserverHello
    · rw [hv₁]
      refine possible_serverHello fun x hx => ?_
      have hmem := hello_mem (W := W) (i := i) (j := j)
      rw [← hc₁] at hmem
      exact knows_of_client hmem hx
  set s₂ := State.onConnection s₁ j ((W.serverLog i j).take (W.helloEvents i)) with hs₂
  have hc₂ : s₂.client i = (W.clientLog i j).take 3 := (client_onConnection s₁ i j _).trans hc₁
  have hv₂ : s₂.connection j = (W.serverLog i j).take (W.helloEvents i) := by
    rw [hs₂, connection_onConnection, hv₁, List.nil_append]
  -- ClientFinished.
  have h₃ : Network.Steps s₂ (State.onClient s₂ i ((W.clientLog i j).drop 3)) := by
    refine steps_onClient (q := .ret (some (W.clientSession i j))) ?_ ?_
    · rw [hc₂, List.take_append_drop]
      exact hclient
    · rw [hc₂]
      refine possible_clientFinished fun x hx => ?_
      have hmem := serverHello_mem (W := W) (i := i) (j := j)
      rw [← hv₂] at hmem
      exact knows_of_connection hmem hx
  set s₃ := State.onClient s₂ i ((W.clientLog i j).drop 3) with hs₃
  have hc₃ : s₃.client i = W.clientLog i j := by
    rw [hs₃, client_onClient, hc₂, List.take_append_drop]
  have hv₃ : s₃.connection j = (W.serverLog i j).take (W.helloEvents i) :=
    (connection_onClient s₂ i j _).trans hv₂
  -- The end of the connection.
  have h₄ : Network.Steps s₃
    (State.onConnection s₃ j ((W.serverLog i j).drop (W.helloEvents i))) := by
    refine steps_onConnection (q := q) ?_ ?_
    · rw [hv₃, List.take_append_drop]
      exact hserver
    · rw [hv₃]
      refine possible_serverRest fun x hx => ?_
      have hmem := clientFinished_mem (W := W) (i := i) (j := j)
      rw [← hc₃] at hmem
      exact knows_of_client hmem hx
  -- Steps of different parties commute, so that the parts add up.
  have hend : State.onConnection s₃ j ((W.serverLog i j).drop (W.helloEvents i)) =
      afterSession i j s := by
    rw [afterSession, hs₃, hs₂, hs₁, onClient_onConnection, onClient_onClient,
      onConnection_onConnection, List.take_append_drop, List.take_append_drop]
  exact hend ▸ ((h₁.trans h₂).trans h₃).trans h₄

/-- The attacker has got at a long-term secret. -/
noncomputable def State.leak (s : W.State) (a : Atom) : W.State :=
  { s with leaked := insert a s.leaked }

/-- A leak is one step. -/
theorem steps_leak {s : W.State} {a : Atom} (ha : a.LongTerm) :
    Network.Steps s (State.leak s a) := .single (.leak ha)

end World

/-- Devices in mode B. -/
noncomputable def sampleWorld : World where
  value _ := 0
  registered := Set.univ
  device _ := ⟨List.replicate 8 0, rfl⟩
  device_registered _ := trivial
  mode _ := .bForwardSecrecy
  memory _ := ⟨fun b => List.replicate b.size (.lit 0), fun _ => List.length_replicate⟩
  turns _ := 0

/-- The attacker gets at the secret `k`, client run 0 has a session with connection 0. -/
noncomputable def sampleSession (k : Atom) : sampleWorld.State :=
  World.afterSession 0 0 (World.State.leak sampleWorld.network.start k)

/-- The sample session can be reached. -/
theorem reachable_sampleSession (k : Atom) (h : k.LongTerm) :
    Network.Reachable (sampleSession k) :=
  (World.steps_leak h).trans (World.steps_afterSession rfl rfl)

end PqcIot
