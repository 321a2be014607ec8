import PqcIot.Effects.Exceptions
import PqcIot.Protocol.ClientHello

/-!
# The misbehaving server

`server/rogue_server.py`: what `handle` does on one connection, and the accept loop of `main`, which
serves a number of connections and then ends. What the code asks of its surroundings are operations.
-/

namespace PqcIot

open Effects Protocol

namespace Rogue

variable {β α : Type}

/-- `--mode`. -/
inductive Mode where
  | wrongMac
  | impostor
  | replay
  | badType
  | badLength
  | truncate
  | silence
  | badEk
  | swapEk
  deriving DecidableEq, Repr

/-- `mode in FS_ONLY_MODES`. -/
def Mode.fsOnly : Mode → Bool
  | .badEk | .swapEk => true
  | _ => false

/-- The exceptions of the server. -/
inductive RogueExn where
  | raised (e : PyExn)
  /-- `None` used as bytes. -/
  | typeError
  deriving DecidableEq, Repr

/-- The private key that a ciphertext is decapsulated with. -/
inductive PrivateKey where
  | pinned
  | impostor
  deriving DecidableEq, Repr

/-- `openssl pkeyutl -decap`, when it has ended. -/
structure Decapsulation (β : Type) where
  returncode : ℤ
  /-- The contents of the file with the secret, if there is one. -/
  secret : Option (List β)

/-- What the server asks of its surroundings. -/
inductive RogueOp (β : Type) where
  /-- `protocol.read_frame`. -/
  | readFrame
  /-- `protocol.write_frame`. -/
  | writeFrame (ftype : UInt8) (payload : List β)
  /-- `conn.sendall`. -/
  | sendall (bytes : List β)
  /-- `openssl pkeyutl -decap`, with its temporary files. -/
  | decap (key : PrivateKey) (ciphertext : List β)
  /-- `make_impostor_key`. -/
  | makeImpostorKey
  /-- The two processes of `make_ephemeral`: the public key in DER. -/
  | ephemeralDer
  /-- `secrets.token_bytes`. -/
  | tokenBytes (n : ℕ)
  /-- `REPLAY_STORE.exists()`. -/
  | storeExists
  /-- `REPLAY_STORE.read_bytes()`. -/
  | storeRead
  /-- `REPLAY_STORE.write_bytes`. -/
  | storeWrite (bytes : List β)
  /-- `time.sleep`. -/
  | sleep (seconds : ℕ)
  | close

/-- The answers. -/
@[reducible]
def RogueOp.Ans : RogueOp β → Type
  | .readFrame => Except RogueExn (UInt8 × List β)
  | .writeFrame _ _ | .sendall _ | .makeImpostorKey | .storeWrite _ => Except RogueExn Unit
  | .decap _ _ => Except RogueExn (Decapsulation β)
  | .ephemeralDer | .storeRead => Except RogueExn (List β)
  | .tokenBytes n => { l : List β // l.length = n }
  | .storeExists => Bool
  | .sleep _ | .close => Unit

abbrev rogueOps (β : Type) : Signature := ⟨RogueOp β, RogueOp.Ans⟩

/-- Code of the server: it performs operations, and returns or raises. -/
abbrev Code (β : Type) : Type → Type := ExceptT RogueExn (Prog (rogueOps β))

namespace Code

/-- Perform an operation. -/
abbrev call (o : RogueOp β) : Code β (RogueOp.Ans o) := Raising.call (S := rogueOps β) o

/-- `raise`. -/
abbrev raise (e : RogueExn) : Code β α := Raising.raise e

/-- The value of an operation that may have raised. -/
abbrev ofExcept (r : Except RogueExn α) : Code β α := Raising.ofExcept r

/-- The value of a function of `protocol.py`. -/
def ofPy : Except PyExn α → Code β α
  | .ok a => pure a
  | .error e => raise (.raised e)

/-- `except Exception: pass`. -/
def ignore (c : Code β α) : Code β Unit :=
  ExceptT.mk (c.run >>= fun _ => .ret (.ok ()))

end Code

/-- `decapsulate`. -/
def decapsulate (key : PrivateKey) (ciphertext : List β) : Code β (Option (List β)) := do
  let r ← Code.ofExcept (← Code.call (.decap key ciphertext))
  if r.returncode ≠ 0 then
    return none
  else
    return r.secret

/-- `make_ephemeral`, of which only the public key is used: `der[-1184:]`. -/
def makeEphemeral : Code β (List β) := do
  let der ← Code.ofExcept (← Code.call .ephemeralDer)
  return der.drop (der.length - 1184)

/-- `decapsulate(impostor, …) or secrets.token_bytes(32)`: no secret, or an empty one, is
replaced. -/
def impostorSecret (ciphertext : List β) : Code β (List β) := do
  match ← decapsulate .impostor ciphertext with
  | some (x :: secret) => return x :: secret
  | _ => return (← Code.call (.tokenBytes 32)).1

variable (P : Prims β)

/-- The confirmation key of the server; `ss` is `None` when decapsulation has failed. -/
def srvConfirmKey (hello : ClientHello β) (psk serverNonce th2 : List β) :
    Option (List β) → Code β (List β)
  | some ss =>
    if hello.suite.params.fs then
      Code.ofPy (deriveStage1 P ss psk hello.clientNonce serverNonce th2)
    else do
      let keys ← Code.ofPy (deriveKeys P ss psk hello.clientNonce serverNonce th2)
      return keys.srvConfirm
  | none =>
    -- The length of the PSK is checked before the secret is used.
    if ¬ hello.suite.params.fs ∧ psk.length ≠ pskLen then
      Code.raise (.raised (.protocolError "PSK must be 32 bytes"))
    else
      Code.raise .typeError

/-- `build_valid_server_hello`. -/
def buildValidServerHello (helloRaw : List β) (ss : Option (List β)) (psk ekEph : List β)
    (ekOnWire : Option (List β)) : Code β (List β) := do
  let serverNonce := (← Code.call (.tokenBytes nonceLen)).1
  let sessionId := (← Code.call (.tokenBytes sessionIdLen)).1
  let hello ← Code.ofPy (ClientHello.parse P helloRaw)
  let th2 := transcript2 P helloRaw serverNonce sessionId ekEph
  let srvConfirm ← srvConfirmKey P hello psk serverNonce th2 ss
  let mac := P.hmac srvConfirm th2
  let carried := ekOnWire.getD ekEph
  return serverNonce ++ sessionId ++ carried ++ mac

/-- `sh[-1] ^= 0x01`. -/
def flipLast (sh : List β) : List β :=
  sh.modify (sh.length - 1) fun x => P.lit (P.val x ^^^ 0x01)

/-- `write_frame`. -/
def writeFrame (ftype : UInt8) (payload : List β) : Code β Unit := do
  Code.ofExcept (← Code.call (.writeFrame ftype payload))

/-- `handle`, after the ClientHello has been parsed. Its value says what was sent. -/
def answer (mode : Mode) (psk payload : List β) (hello : ClientHello β) : Code β String := do
  if mode.fsOnly && !hello.suite.params.fs then
    -- The mode A handshake is served honestly, and the client may finish.
    let ss ← decapsulate .pinned hello.kemCt
    writeFrame frameServerHello (← buildValidServerHello P payload ss psk [] none)
    Code.ignore (Code.call .readFrame >>= Code.ofExcept)
    return "served the mode A handshake correctly (attack targets mode B)"
  else
    match mode with
    | .badEk =>
      let ss ← decapsulate .pinned hello.kemCt
      let ekEph ← makeEphemeral
      -- The first coefficients are not below the modulus.
      let malformed := P.lits (List.replicate 8 0xff) ++ ekEph.drop 8
      writeFrame frameServerHello (← buildValidServerHello P payload ss psk malformed none)
      return "sent a correctly MACed ServerHello with a malformed ek_E"
    | .swapEk =>
      let ss ← decapsulate .pinned hello.kemCt
      let signedEk ← makeEphemeral
      let otherEk ← makeEphemeral
      writeFrame frameServerHello
        (← buildValidServerHello P payload ss psk signedEk (some otherEk))
      return "MACed one ek_E and sent a different one"
    | .silence =>
      Code.call (.sleep 30)
      return "sent nothing at all"
    | .badType =>
      writeFrame 0x42 (← Code.call (.tokenBytes serverHelloBaseLen)).1
      return "answered with frame type 0x42"
    | .badLength =>
      writeFrame frameServerHello (← Code.call (.tokenBytes 71)).1
      return "sent a 71-byte ServerHello (72 expected)"
    | .truncate =>
      Code.ofExcept (← Code.call (.sendall (P.lits [frameServerHello, 0x00, 0x48])))
      Code.ofExcept (← Code.call (.sendall (← Code.call (.tokenBytes 30)).1))
      Code.call .close
      return "announced 72 bytes, sent 30, closed"
    | .impostor =>
      Code.ofExcept (← Code.call .makeImpostorKey)
      let ss ← impostorSecret hello.kemCt
      writeFrame frameServerHello (← buildValidServerHello P payload (some ss) psk [] none)
      return "answered with a ServerHello derived from an unpinned key"
    | .wrongMac =>
      match ← decapsulate .pinned hello.kemCt with
      | none => return "could not decapsulate"
      | some ss =>
        let sh ← buildValidServerHello P payload (some ss) psk [] none
        writeFrame frameServerHello (flipLast P sh)
        return "sent a ServerHello with one MAC bit flipped"
    | .replay =>
      match ← decapsulate .pinned hello.kemCt with
      | none => return "could not decapsulate"
      | some ss =>
        if ← Code.call .storeExists then
          writeFrame frameServerHello (← Code.ofExcept (← Code.call .storeRead))
          return "replayed a ServerHello recorded from an earlier session"
        else
          let sh ← buildValidServerHello P payload (some ss) psk [] none
          Code.ofExcept (← Code.call (.storeWrite sh))
          writeFrame frameServerHello sh
          return "served correctly and recorded the ServerHello for replay"

/-- `handle`. -/
def handle (mode : Mode) (psk : List β) : Code β String := do
  let (ftype, payload) ← Code.ofExcept (← Code.call .readFrame)
  if ftype ≠ frameClientHello then
    return s!"client sent frame {hash04x ftype}, not ClientHello"
  else
    answer P mode psk payload (← Code.ofPy (ClientHello.parse P payload))

/-- What `handle` says when it has made the attack of its mode. -/
def Mode.report : Mode → String
  | .wrongMac => "sent a ServerHello with one MAC bit flipped"
  | .impostor => "answered with a ServerHello derived from an unpinned key"
  | .replay => "replayed a ServerHello recorded from an earlier session"
  | .badType => "answered with frame type 0x42"
  | .badLength => "sent a 71-byte ServerHello (72 expected)"
  | .truncate => "announced 72 bytes, sent 30, closed"
  | .silence => "sent nothing at all"
  | .badEk => "sent a correctly MACed ServerHello with a malformed ek_E"
  | .swapEk => "MACed one ek_E and sent a different one"

/-! ## The accept loop -/

/-- A connection that a client asks for. -/
inductive Attempt (β : Type) where
  /-- Nobody listens. -/
  | refused
  /-- It was accepted; `handle` performed `log`, and returned or raised. -/
  | served (log : List (Event (rogueOps β))) (what : Except RogueExn String)

/-- `main`: while fewer than `connections` have been served, one more is accepted. Whatever becomes
of it, it counts. Then the server ends. -/
def Serves (mode : Mode) (psk : List β) (connections : ℕ) : ℕ → List (Attempt β) → Prop
  | _, [] => True
  | served, .refused :: attempts =>
    connections ≤ served ∧ Serves mode psk connections served attempts
  | served, .served log what :: attempts =>
    served < connections ∧ Prog.Run (handle P mode psk).run log (.ret what) ∧
      Serves mode psk connections (served + 1) attempts

/-- The attack of the mode was made on this connection. -/
def Attempt.Attacked (mode : Mode) : Attempt β → Prop
  | .served _ what => what = .ok mode.report
  | .refused => False

end Rogue

end PqcIot
