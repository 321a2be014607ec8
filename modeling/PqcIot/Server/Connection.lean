import PqcIot.Devices.Table
import PqcIot.Protocol.ClientHello
import PqcIot.Protocol.RecordStream
import PqcIot.Transport.Server

/-!
# The server's connection

`handle_connection` of `server/pqc_server.py` with what it uses — `MlKemPrivateKey.decapsulate`,
`raw_public_from_der`, `EphemeralKey` — and the body of `main`'s accept loop. What the code asks of
its surroundings are operations: the device table, the random generator, the openssl processes with
the files they read and write, and the connection. A call of `RecordStream.open` leaves an event in
the trace.
-/

namespace PqcIot

open Effects Protocol

namespace Server

variable {β α γ : Type}

/-! ## Operations -/

/-- A finished subprocess. -/
structure Completed (β : Type) where
  returncode : ℤ
  stdout : List β

/-- What a decapsulation process leaves behind. -/
structure Decapsulation (β : Type) where
  returncode : ℤ
  /-- The contents of the output file, if it exists. -/
  secret : Option (List β)

/-- What the server asks of its surroundings. -/
inductive HostOp (β : Type) where
  /-- `devices.psk_for`. -/
  | pskFor (deviceId : List β)
  /-- The openssl process of `MlKemPrivateKey.decapsulate`. -/
  | staticDecap (ciphertext : List β)
  /-- `secrets.token_bytes`. -/
  | tokenBytes (n : ℕ)
  /-- `tempfile.TemporaryDirectory()` for an ephemeral key. -/
  | mkdtemp
  /-- `openssl genpkey`, writing `eph.pem`. -/
  | genpkey (level : Level)
  | chmod
  /-- `openssl pkey -pubout -outform DER` of `eph.pem`. -/
  | pubout
  /-- The openssl process of `EphemeralKey.decapsulate`. -/
  | ephDecap (ciphertext : List β)
  /-- `self.path.exists()`. -/
  | ephExists
  /-- `self.path.stat().st_size`. -/
  | ephSize
  /-- `self.path.write_bytes`, of zeros. -/
  | ephOverwrite (size : ℕ)
  /-- `self._dir.cleanup()`. -/
  | ephCleanup
  /-- Marks a call of `RecordStream.open`. -/
  | recordOpen (payload : List β)
  /-- `conn.close()`. -/
  | close

/-- The exceptions that leave `psk_for`: those of `_reload` that it does not catch. -/
abbrev LookupExn : Type := { e : Devices.TableExn // ¬ e.Caught }

/-- The answers; `none` where an operation raises `OSError`. -/
@[reducible]
def HostOp.Ans : HostOp β → Type
  | .pskFor _ => Except LookupExn (Option { l : List β // l.length = pskLen })
  | .staticDecap _ => Option (Decapsulation β)
  | .tokenBytes n => { l : List β // l.length = n }
  | .mkdtemp => Option Unit
  | .genpkey _ => Option (Completed β)
  | .chmod => Option Unit
  | .pubout => Option (Completed β)
  | .ephDecap _ => Option (Decapsulation β)
  | .ephExists => Bool
  | .ephSize => Option ℕ
  | .ephOverwrite _ => Option Unit
  | .ephCleanup => Option Unit
  | .recordOpen _ => Unit
  | .close => Unit

abbrev host (β : Type) : Signature := ⟨HostOp β, HostOp.Ans⟩

abbrev calls (β : Type) : Signature := (frames β).sum (host β)

/-! ## Python code -/

/-- Python code: it performs calls and returns or raises. -/
abbrev Py (β : Type) : Type → Type := ExceptT PyExn (Prog (calls β))

namespace Py

/-- Perform an operation that does not raise. -/
def call (o : HostOp β) : Py β (HostOp.Ans o) :=
  ExceptT.mk (.op (.inr o) fun a => .ret (.ok a))

/-- `raise`. -/
def raise (e : PyExn) : Py β α := ExceptT.mk (.ret (.error e))

/-- The value of an operation that may have raised `OSError`. -/
def orOSError : Option α → Py β α
  | some a => pure a
  | none => raise .osError

/-- A pure function that may raise. -/
def ofExcept (r : Except PyExn α) : Py β α := ExceptT.mk (.ret r)

/-- `try: … finally: …`. An exception of the `finally` block replaces the outcome. -/
def tryFinally (body : Py β α) (final : Py β Unit) : Py β α :=
  ExceptT.mk (body.run >>= fun outcome => final.run >>= fun
    | .error e => .ret (.error e)
    | .ok () => .ret outcome)

/-- `try: … except OSError: pass`. -/
def ignoreOSError (body : Py β Unit) : Py β Unit :=
  ExceptT.mk (body.run >>= fun
    | .error .osError => .ret (.ok ())
    | outcome => .ret outcome)

end Py

/-- `protocol.read_frame`. -/
def recvFrame : Py β (UInt8 × Payload β maxFrame) :=
  ExceptT.mk (.op (.inl (.read maxFrame)) .ret)

/-- `protocol.write_frame`. -/
def sendFrame (ftype : UInt8) (payload : List β) : Py β Unit :=
  ExceptT.mk (.op (.inl (.write ftype payload)) .ret)

/-! ## Keys -/

/-- What `MlKemPrivateKey` holds of the pinned key. -/
structure PrivateKey (β : Type) where
  rawPublic : List β
  keyId : List β

/-- `MlKemPrivateKey.decapsulate`. -/
def decapsulate (ciphertext : List β) : Py β (List β) := do
  let result ← Py.orOSError (← Py.call (.staticDecap ciphertext))
  if result.returncode ≠ 0 then
    Py.raise (.protocolError "decapsulation failed")
  else
    match result.secret with
    | none => Py.raise (.protocolError "decapsulation failed")
    | some ss =>
      if ss.length ≠ 32 then
        Py.raise (.protocolError s!"shared secret is {ss.length} bytes, expected 32")
      else
        return ss

/-- `raw_public_from_der`. -/
def rawPublicFromDer (der : List β) : Except PyExn (List β) :=
  match [800, 1184, 1568].find? fun rawLen => der.length == rawLen + 22 with
  | some rawLen => .ok (der.drop (der.length - rawLen))
  | none => .error (.protocolError s!"unexpected public key DER length {der.length}")

/-- `subprocess.run` with `check=True`. -/
def checked (result : Option (Completed β)) : Py β (List β) := do
  let result ← Py.orOSError result
  if result.returncode ≠ 0 then Py.raise .calledProcessError else return result.stdout

namespace EphemeralKey

/-- `EphemeralKey.__init__`: the raw public key. -/
def init (level : Level) : Py β (List β) := do
  Py.orOSError (← Py.call .mkdtemp)
  -- `check=True`: a process that fails raises `CalledProcessError`.
  let _ ← checked (← Py.call (.genpkey level))
  Py.orOSError (← Py.call .chmod)
  let der ← checked (← Py.call .pubout)
  Py.ofExcept (rawPublicFromDer der)

/-- `EphemeralKey.decapsulate`. -/
def decapsulate (ciphertext : List β) : Py β (List β) := do
  let result ← Py.orOSError (← Py.call (.ephDecap ciphertext))
  if result.returncode ≠ 0 then
    Py.raise (.protocolError "ephemeral decapsulation failed")
  else
    match result.secret with
    | none => Py.raise (.protocolError "ephemeral decapsulation failed")
    | some ss => return ss

/-- `EphemeralKey.destroy`. -/
def destroy : Py β Unit :=
  Py.tryFinally
    (Py.ignoreOSError do
      if ← Py.call .ephExists then
        let size ← Py.orOSError (← Py.call .ephSize)
        Py.orOSError (← Py.call (.ephOverwrite size))
      else
        return ())
    -- The directory is removed whether the key could be overwritten or not.
    (do Py.orOSError (← Py.call .ephCleanup))

end EphemeralKey

/-! ## The connection -/

section Connection

variable [DecidableEq β] (P : Prims β) (key : PrivateKey β)

/-- `hmac.compare_digest`. -/
def compareDigest (a b : List β) : Bool := a == b

/-- `handle_connection` up to the static decapsulation: the hello, the PSK of its device and the
shared secret. -/
def acceptHello : Py β (ClientHello β × List β × List β) := do
  let (ftype, payload) ← recvFrame
  if ftype ≠ frameClientHello then
    Py.raise (.protocolError s!"expected ClientHello, got frame type {hash04x ftype}")
  else
    let hello ← Py.ofExcept (ClientHello.parse P payload.1)
    if !compareDigest hello.serverKeyId key.keyId then
      Py.raise (.protocolError
        s!"client pinned key {hex (P.vals hello.serverKeyId)}, we hold {hex (P.vals key.keyId)}")
    else
      match ← Py.call (.pskFor hello.deviceId) with
      -- Nothing catches what leaves `psk_for`.
      | .error e => Py.raise e.1.toPyExn
      | .ok none =>
        Py.raise (.protocolError s!"unknown device {hex (P.vals hello.deviceId)}")
      | .ok (some psk) =>
        -- Nothing is decapsulated for a peer that does not know the PSK.
        let expectedMac := helloMac P psk.1 hello.signedPart
        if !compareDigest expectedMac hello.pskMac then
          Py.raise (.protocolError "PSK MAC mismatch")
        else
          let ssStatic ← decapsulate hello.kemCt
          return (hello, psk.1, ssStatic)

/-- What the `try` block leaves in its variables. -/
structure ExchangeResult (β : Type) where
  keys : SessionKeys β
  serverMac : List β
  clientMac : List β
  transcriptForMac : List β

/-- The `try` block of `handle_connection`, from the transcript on. -/
def exchange (hello : ClientHello β) (psk ssStatic serverNonce sessionId ekEph : List β) :
    Py β (ExchangeResult β) := do
  let params := hello.suite.params
  let th2 := transcript2 P hello.raw serverNonce sessionId ekEph
  -- In mode B only the confirmation key can be derived before the client has answered.
  let (keysA, srvConfirm) ← Py.ofExcept (if params.fs then do
      return ((none : Option (SessionKeys β)),
        ← deriveStage1 P ssStatic psk hello.clientNonce serverNonce th2)
    else do
      let keys ← deriveKeys P ssStatic psk hello.clientNonce serverNonce th2
      return (some keys, keys.srvConfirm))
  let serverMac := P.hmac srvConfirm th2
  -- The only frame that the server writes on a connection.
  sendFrame frameServerHello (serverNonce ++ sessionId ++ ekEph ++ serverMac)
  let (ftype, payload) ← recvFrame
  if ftype ≠ frameClientFinished then
    Py.raise (.protocolError s!"expected ClientFinished, got {hash04x ftype}")
  else
    match keysA with
    -- Mode B: the frame holds a ciphertext for the ephemeral key, then the MAC.
    | none =>
      if payload.1.length ≠ params.ct + macLen then
        Py.raise (.protocolError "ClientKeyExchange has wrong length")
      else
        let ctEph := payload.1.take params.ct
        let clientMac := payload.1.drop params.ct
        let ssEph ← EphemeralKey.decapsulate ctEph
        let th3 := transcript3 P th2 ctEph
        let keys ← Py.ofExcept
          (deriveStage2 P ssStatic ssEph psk hello.clientNonce serverNonce th3)
        return { keys, serverMac, clientMac, transcriptForMac := th3 }
    | some keys =>
      if payload.1.length ≠ macLen then
        Py.raise (.protocolError "ClientFinished has wrong length")
      else
        return { keys, serverMac, clientMac := payload.1, transcriptForMac := th2 }

/-- The `try`/`finally` statement of `handle_connection`. An exception of `EphemeralKey(…)` leaves
`ephemeral` unset, so that there is nothing to destroy. -/
def tryExchange (hello : ClientHello β) (psk ssStatic serverNonce sessionId : List β) :
    Py β (ExchangeResult β) :=
  if hello.suite.params.fs then do
    let ekEph ← EphemeralKey.init hello.suite.params.level
    Py.tryFinally (exchange P hello psk ssStatic serverNonce sessionId ekEph) EphemeralKey.destroy
  else
    exchange P hello psk ssStatic serverNonce sessionId []

/-- A session whose handshake is complete. -/
structure Session (β : Type) where
  hello : ClientHello β
  sessionId : List β
  keys : SessionKeys β

/-- `handle_connection` up to the check of the ClientFinished MAC. -/
def keyExchange : Py β (Session β) := do
  let (hello, psk, ssStatic) ← acceptHello P key
  let serverNonce ← Py.call (.tokenBytes nonceLen)
  let sessionId ← Py.call (.tokenBytes sessionIdLen)
  let exchanged ← tryExchange P hello psk ssStatic serverNonce.1 sessionId.1
  let expected := P.hmac exchanged.keys.cliConfirm
    (exchanged.transcriptForMac ++ exchanged.serverMac)
  if !compareDigest expected exchanged.clientMac then
    Py.raise (.protocolError "ClientFinished MAC mismatch")
  else
    return { hello, sessionId := sessionId.1, keys := exchanged.keys }

/-- The variables of the record loop. -/
structure Inbound (β : Type) where
  stream : RecordStream β
  records : ℕ
  payloadBytes : ℕ

/-- At most `turns` turns of the record loop; `none` when it has not ended by then. -/
def recordLoop : ℕ → Inbound β → Py β (Option (Inbound β))
  | 0, _ => return none
  | turns + 1, inbound => do
    -- A `ProtocolError` of `read_frame` ends the loop as a Close frame does.
    let received ← ExceptT.mk (recvFrame.run >>= fun
      | .error (.protocolError _) => .ret (.ok none)
      | .error e => .ret (.error e)
      | .ok frame => .ret (.ok (some frame)))
    match received with
    | none => return some inbound
    | some (ftype, payload) =>
      if ftype = frameClose then
        return some inbound
      else if ftype ≠ frameData then
        Py.raise (.protocolError s!"unexpected frame {hash04x ftype} after handshake")
      else
        Py.call (.recordOpen payload.1)
        let (opened, stream) := inbound.stream.openRecord P payload.1
        let plaintext ← Py.ofExcept opened
        recordLoop turns
          ⟨stream, inbound.records + 1, inbound.payloadBytes + plaintext.length⟩

/-- `handle_connection`, with at most `turns` turns of the record loop. -/
def handleConnection (turns : ℕ) : Py β (Option (Inbound β)) := do
  let session ← keyExchange P key
  recordLoop P turns ⟨.init session.keys.c2s session.sessionId, 0, 0⟩

/-- The body of `main`'s accept loop: what it does with the outcome of a connection. `ProtocolError`
and `OSError` are logged, any other exception ends the process; the connection is closed first. -/
def serveConnection (turns : ℕ) : Py β Unit :=
  Py.tryFinally
    (ExceptT.mk ((handleConnection P key turns).run >>= fun
      | .error (.protocolError _) => .ret (.ok ())
      | .error .osError => .ret (.ok ())
      | .error e => .ret (.error e)
      | .ok _ => .ret (.ok ())))
    (Py.call .close)

end Connection

end Server

end PqcIot
