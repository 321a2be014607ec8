import PqcIot.Effects.Exceptions
import PqcIot.Protocol.ClientHello
import PqcIot.Protocol.RecordStream

/-!
# The negative tests

`run_negative` of `server/test_client.py`, with the client's `handshake` and the functions both use.
What the code asks of its surroundings are operations: the openssl processes and the files they
leave, the random generator, the framing calls on a connection, and what is read from it afterwards.
`expect_rejection` takes an exception for a refusal.
-/

namespace PqcIot

open Effects Protocol

namespace TestClient

variable {β α : Type}

/-! ## Operations -/

/-- The exceptions of the client. -/
inductive ClientExn where
  | raised (e : PyExn)
  /-- `ConnectionError`: the peer has refused, closed or reset the connection. -/
  | connectionError
  /-- `socket.timeout`: nothing has happened for as long as the client waits. -/
  | timeout
  | systemExit (message : String)
  deriving DecidableEq, Repr

/-- A finished subprocess. -/
structure Completed (β : Type) where
  returncode : ℤ
  stdout : List β
  stderr : String

/-- What an encapsulation process leaves behind. -/
structure Encapsulation (β : Type) where
  returncode : ℤ
  stderr : String
  /-- The contents of its output files, where they can be read. -/
  ciphertext : Option (List β)
  secret : Option (List β)

/-- What the client asks of its surroundings. -/
inductive ClientOp (β : Type) where
  /-- The device table: its first entry. -/
  | firstDevice
  /-- `openssl pkeyutl -encap` to the pinned key. -/
  | encap
  /-- `openssl pkeyutl -encap` to a key in DER. -/
  | encapDer (der : List β)
  /-- `openssl pkey -pubin -outform DER` of the pinned key. -/
  | pubkeyDer
  /-- `mkdtemp` and `write_bytes` for a key in DER. -/
  | writeDer (der : List β)
  /-- `secrets.token_bytes`. -/
  | tokenBytes (n : ℕ)
  /-- `socket.create_connection`. -/
  | connect
  /-- `protocol.write_frame`. -/
  | writeFrame (ftype : UInt8) (payload : List β)
  /-- `protocol.read_frame`. -/
  | readFrame
  /-- `sock.settimeout`. -/
  | settimeout (seconds : ℕ)
  /-- `sock.recv`. -/
  | recv (n : ℕ)
  | close
  | print (line : String)

/-- The answers; `none` where an operation raises `OSError`. -/
@[reducible]
def ClientOp.Ans : ClientOp β → Type
  | .firstDevice => Except ClientExn (List β × List β)
  | .encap | .encapDer _ => Option (Encapsulation β)
  | .pubkeyDer => Option (Completed β)
  | .writeDer _ => Option Unit
  | .tokenBytes n => { l : List β // l.length = n }
  | .connect => Except ClientExn Unit
  | .writeFrame _ _ => Except ClientExn Unit
  | .readFrame => Except ClientExn (UInt8 × List β)
  | .settimeout _ | .close | .print _ => Unit
  | .recv n => Except ClientExn { l : List β // l.length ≤ n }

abbrev clientOps (β : Type) : Signature := ⟨ClientOp β, ClientOp.Ans⟩

/-- Code of the client: it performs operations, and returns or raises. -/
abbrev Code (β : Type) : Type → Type := ExceptT ClientExn (Prog (clientOps β))

namespace Code

/-- Perform an operation. -/
abbrev call (o : ClientOp β) : Code β (ClientOp.Ans o) := Raising.call (S := clientOps β) o

/-- `raise`. -/
abbrev raise (e : ClientExn) : Code β α := Raising.raise e

/-- The value of an operation that may have raised. -/
abbrev ofExcept (r : Except ClientExn α) : Code β α := Raising.ofExcept r

/-- The value of a function of `protocol.py`. -/
def ofPy : Except PyExn α → Code β α
  | .ok a => pure a
  | .error e => raise (.raised e)

/-- The value of an operation that may have raised `OSError`. -/
def orOSError : Option α → Code β α
  | some a => pure a
  | none => raise (.raised .osError)

end Code

/-! ## Keys -/

/-- `encapsulate` and `encapsulate_der`, from the result of the process on. -/
def encapsulation (failed : String) (result : Option (Encapsulation β)) :
    Code β (List β × List β) := do
  let result ← Code.orOSError result
  if result.returncode ≠ 0 then
    Code.raise (.systemExit s!"{failed}: {result.stderr}")
  else
    return (← Code.orOSError result.ciphertext, ← Code.orOSError result.secret)

/-- `encapsulate`. -/
def encapsulate : Code β (List β × List β) := do
  encapsulation "encapsulation failed" (← Code.call .encap)

/-- `encapsulate_der`. -/
def encapsulateDer (der : List β) : Code β (List β × List β) := do
  encapsulation "ephemeral encapsulation failed" (← Code.call (.encapDer der))

/-- The pinned key in DER, from a process with `check=True`. -/
def pinnedDer : Code β (List β) := do
  let result ← Code.orOSError (← Code.call .pubkeyDer)
  if result.returncode ≠ 0 then
    Code.raise (.raised .calledProcessError)
  else
    return result.stdout

/-- `der[:n]`, where `n` may be negative. -/
def sliceTo (l : List β) (n : ℤ) : List β :=
  if 0 ≤ n then l.take n.toNat else l.take (l.length - (-n).toNat)

/-- `wrap_raw_pubkey`. -/
def wrapRawPubkey (raw : List β) : Code β (List β) := do
  let der ← pinnedDer
  let pre := sliceTo der (der.length - raw.length)
  if pre.length ≠ 22 then
    Code.raise (.systemExit s!"unexpected SPKI prefix of {pre.length} bytes")
  else
    Code.orOSError (← Code.call (.writeDer (pre ++ raw)))
    return pre ++ raw

variable (P : Prims β)

/-- `server_key_id`. -/
def serverKeyId : Code β (List β) := do
  let der ← pinnedDer
  match [800, 1184, 1568].find? fun rawLen => der.length == rawLen + 22 with
  | some rawLen => return (P.sha256 (der.drop (der.length - rawLen))).take 4
  | none => Code.raise (.systemExit s!"unexpected public key DER length {der.length}")

/-- `m[:-1] + bytes([m[-1] ^ 0x01])`. -/
def corrupt (m : List β) : List β :=
  m.dropLast ++ (m.getLast?.map fun x => P.lit (P.val x ^^^ 0x01)).toList

/-! ## The handshake -/

/-- The keys of a handshake, the transcript that ClientFinished authenticates and the ciphertext
that goes with it. -/
structure Exchanged (β : Type) where
  keys : SessionKeys β
  transcriptForMac : List β
  tail : List β

/-- `handshake`, after the server's MAC has been checked. In mode B, which has no keys yet, the MAC
has authenticated `ek_eph`, so encapsulating to it is safe. -/
def exchange (ssStatic psk clientNonce serverNonce th2 ekEph : List β) :
    Option (SessionKeys β) → Code β (Exchanged β)
  | none => do
    let (ctEph, ssEph) ← encapsulateDer (← wrapRawPubkey ekEph)
    let th3 := transcript3 P th2 ctEph
    let keys ← Code.ofPy (deriveStage2 P ssStatic ssEph psk clientNonce serverNonce th3)
    return { keys, transcriptForMac := th3, tail := ctEph }
  | some keys => return { keys, transcriptForMac := th2, tail := [] }

/-- `handshake`: the stream of the session and the number of bytes on the wire. -/
def handshake [DecidableEq β] (suite : Suite) (deviceId psk : List β)
    (corruptPskMac corruptClientMac : Bool) : Code β (RecordStream β × ℕ) := do
  let params := suite.params
  let (kemCt, ssStatic) ← encapsulate
  let clientNonce := (← Code.call (.tokenBytes nonceLen)).1
  let hello := ClientHello.build P suite deviceId (← serverKeyId P) clientNonce kemCt psk
  let hello := if corruptPskMac then corrupt P hello else hello
  Code.ofExcept (← Code.call .connect)
  Code.ofExcept (← Code.call (.writeFrame frameClientHello hello))
  let (ftype, payload) ← Code.ofExcept (← Code.call .readFrame)
  if ftype ≠ frameServerHello then
    Code.raise (.raised (.protocolError s!"expected ServerHello, got {hash04x ftype}"))
  else if payload.length ≠ serverHelloLen suite then
    Code.raise (.raised (.protocolError
      s!"ServerHello is {payload.length} bytes, expected {serverHelloLen suite}"))
  else
    let serverNonce := payload.take nonceLen
    let sessionId := slice nonceLen sessionIdLen payload
    let rest := payload.drop (nonceLen + sessionIdLen)
    -- Only mode B carries an ephemeral key; the MAC follows it.
    let ekEph := if params.fs then rest.take params.ek else []
    let serverMac := rest.drop ekEph.length
    let th2 := transcript2 P hello serverNonce sessionId ekEph
    let (keysA, srvConfirm) ← Code.ofPy (if params.fs then do
        return ((none : Option (SessionKeys β)),
          ← deriveStage1 P ssStatic psk clientNonce serverNonce th2)
      else do
        let keys ← deriveKeys P ssStatic psk clientNonce serverNonce th2
        return (some keys, keys.srvConfirm))
    if P.hmac srvConfirm th2 ≠ serverMac then
      Code.raise (.raised (.protocolError "server MAC mismatch - not the pinned server"))
    else
      let exchanged ← exchange P ssStatic psk clientNonce serverNonce th2 ekEph keysA
      let clientMac := P.hmac exchanged.keys.cliConfirm (exchanged.transcriptForMac ++ serverMac)
      let clientMac := if corruptClientMac then corrupt P clientMac else clientMac
      Code.ofExcept
        (← Code.call (.writeFrame frameClientFinished (exchanged.tail ++ clientMac)))
      return (.init exchanged.keys.c2s sessionId,
        3 + hello.length + (3 + payload.length) + (3 + exchanged.tail.length + clientMac.length))

/-! ## The tests -/

/-- `except (ProtocolError, ConnectionError, socket.timeout, OSError)`. -/
def ClientExn.Caught : ClientExn → Prop
  | .raised (.protocolError _) | .raised .osError | .connectionError | .timeout => True
  | .raised _ | .systemExit _ => False

instance : DecidablePred ClientExn.Caught := fun e => by
  rcases e with (_ | _ | _ | _ | _ | _ | _ | _ | _) | _ | _ | _ <;>
    simp only [ClientExn.Caught] <;> infer_instance

/-- `expect_rejection`. -/
def expectRejection (label : String) (fn : Code β Unit) : Code β Bool := do
  let outcome ← ExceptT.mk (fn.run >>= fun outcome => .ret (.ok outcome))
  match outcome with
  | .ok () =>
    Code.call (.print s!"  FAIL  {label}: accepted, should have been rejected")
    return false
  | .error e =>
    -- Any of these exceptions counts, a timeout as well.
    if e.Caught then
      Code.call (.print s!"  ok    {label}: rejected")
      return true
    else
      -- Others end the program.
      Code.raise e

/-- A plaintext. -/
def plain (text : String) : List β := P.lits (ascii text)

/-- `stream.seal`. -/
def sealFrame (stream : RecordStream β) (text : String) : Code β (List β) :=
  Code.ofPy (stream.sealRecord P (plain P text)).1

/-- `frame[12] ^= 0x01`; `IndexError` cannot occur, as every record has more than 26 bytes. -/
def tamper (frame : List β) : List β :=
  frame.modify 12 fun x => P.lit (P.val x ^^^ 0x01)

section Tests

variable [DecidableEq β] (suite : Suite) (deviceId psk : List β)

/-- The three tests of a bad ClientHello: the handshake has to fail. -/
def badHello (deviceId psk : List β) (corruptPskMac : Bool) : Code β Unit := do
  let _ ← handshake P suite deviceId psk corruptPskMac false
  Code.call .close

/-- `forged_psk_mac`. -/
def forgedPskMac : Code β Unit := badHello P suite deviceId psk true

/-- `unknown_device`. -/
def unknownDevice : Code β Unit := do
  badHello P suite (← Code.call (.tokenBytes 8)).1 psk false

/-- `wrong_psk`. -/
def wrongPsk : Code β Unit := do
  badHello P suite deviceId (← Code.call (.tokenBytes 32)).1 false

/-- `forged_client_mac`. -/
def forgedClientMac : Code β Unit := do
  let (stream, _) ← handshake P suite deviceId psk false true
  -- The server must refuse data after a bad ClientFinished.
  Code.ofExcept
    (← Code.call (.writeFrame frameData (← sealFrame P stream "should not be accepted")))
  Code.call (.settimeout 5)
  -- Whether data or the end of the stream is received, the test raises.
  let _ ← Code.ofExcept (← Code.call (.recv 1))
  Code.raise (.raised (.protocolError "connection still open"))

/-- `sock.recv(1)` at the end of the other two tests. -/
def expectClosed (closed : String) : Code β Unit := do
  Code.call (.settimeout 5)
  let received ← Code.ofExcept (← Code.call (.recv 1))
  if received.1.isEmpty then
    Code.raise (.raised (.protocolError closed))
  else
    Code.raise (.raised (.protocolError "connection still open"))

/-- `replayed_record`. -/
def replayedRecord : Code β Unit := do
  let (stream, _) ← handshake P suite deviceId psk false false
  let frame ← sealFrame P stream "\x7b\"co2\":800\x7d"
  Code.ofExcept (← Code.call (.writeFrame frameData frame))
  Code.ofExcept (← Code.call (.writeFrame frameData frame))
  expectClosed "server closed on replay"

/-- `tampered_ciphertext`. -/
def tamperedCiphertext : Code β Unit := do
  let (stream, _) ← handshake P suite deviceId psk false false
  let frame ← sealFrame P stream "\x7b\"co2\":800\x7d"
  Code.ofExcept (← Code.call (.writeFrame frameData (tamper P frame)))
  expectClosed "server closed on tampered record"

end Tests

/-- The attacks, in their order. -/
inductive Attack where
  | forgedPskMac
  | unknownDevice
  | wrongPsk
  | forgedClientMac
  | replayedRecord
  | tamperedCiphertext
  deriving DecidableEq, Repr

/-- The label of a test. -/
def Attack.label : Attack → String
  | .forgedPskMac => "forged PSK MAC"
  | .unknownDevice => "unknown device_id"
  | .wrongPsk => "wrong PSK"
  | .forgedClientMac => "forged ClientFinished"
  | .replayedRecord => "replayed data record"
  | .tamperedCiphertext => "tampered ciphertext"

/-- The function of a test. -/
def Attack.fn [DecidableEq β] (suite : Suite) (deviceId psk : List β) : Attack → Code β Unit
  | .forgedPskMac => TestClient.forgedPskMac P suite deviceId psk
  | .unknownDevice => TestClient.unknownDevice P suite psk
  | .wrongPsk => TestClient.wrongPsk P suite deviceId
  | .forgedClientMac => TestClient.forgedClientMac P suite deviceId psk
  | .replayedRecord => TestClient.replayedRecord P suite deviceId psk
  | .tamperedCiphertext => TestClient.tamperedCiphertext P suite deviceId psk

/-- One test. -/
def Attack.test [DecidableEq β] (suite : Suite) (deviceId psk : List β) (a : Attack) :
    Code β Bool :=
  expectRejection a.label (a.fn P suite deviceId psk)

/-- `run_negative`. -/
def runNegative [DecidableEq β] (suite : Suite) : Code β Bool := do
  let (deviceId, psk) ← Code.ofExcept (← Code.call .firstDevice)
  let ok := true
  let ok := (← Attack.forgedPskMac.test P suite deviceId psk) && ok
  let ok := (← Attack.unknownDevice.test P suite deviceId psk) && ok
  let ok := (← Attack.wrongPsk.test P suite deviceId psk) && ok
  let ok := (← Attack.forgedClientMac.test P suite deviceId psk) && ok
  let ok := (← Attack.replayedRecord.test P suite deviceId psk) && ok
  let ok := (← Attack.tamperedCiphertext.test P suite deviceId psk) && ok
  return ok

end TestClient

end PqcIot
