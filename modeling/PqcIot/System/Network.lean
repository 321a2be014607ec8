import PqcIot.Crypto.Ideal
import PqcIot.Firmware.Trace
import PqcIot.Server.Trace
import PqcIot.Symbolic.Network

/-!
# Devices and servers on a hostile network

Any number of runs of the firmware's `handshake` and of the server's `handle_connection`, on a
network whose attacker reads every frame that is written and answers every read with any bytes it
can compute. Bytes are symbolic and the primitives ideal; nonces, encapsulation randomness and keys
are fresh random values, named by who drew them and at which point of its history. The server's
private key and the PSKs may leak at any time. Ephemeral private keys never do: `destroy` erases
them.
-/

namespace PqcIot

open Effects Protocol Symbolic Symbolic.Byte

/-- A device id. -/
abbrev Device : Type := { l : List UInt8 // l.length = 8 }

/-- The random values: of client run `i` and of connection `j`, drawn at the `n`-th event of its
history. -/
inductive Atom where
  | staticKey
  | psk (d : Device)
  | clientNonce (i n : ℕ)
  | coins (i n : ℕ)
  | token (j n : ℕ)
  | ephemeralKey (j n : ℕ)
  /-- A random value of the attacker. -/
  | attacker (n : ℕ)

namespace Atom

/-- The values that travel in the clear. -/
def Sent : Atom → Prop
  | clientNonce _ _ | token _ _ | attacker _ => True
  | staticKey | psk _ | coins _ _ | ephemeralKey _ _ => False

/-- The long-term secrets. -/
def LongTerm : Atom → Prop
  | staticKey | psk _ => True
  | clientNonce _ _ | coins _ _ | token _ _ | ephemeralKey _ _ | attacker _ => False

end Atom

/-- The alphabet of the symbolic model. -/
abbrev Letter : Type := Byte Atom Level

noncomputable instance : DecidableEq Letter := Classical.decEq _

/-- The bytes of a device id. -/
def Device.bytes (d : Device) : List Letter := d.1.map .lit

/-- A device identifier has eight bytes. -/
@[simp]
theorem Device.length_bytes (d : Device) : d.bytes.length = 8 := (List.length_map _).trans d.2

/-- It determines the device. -/
theorem Device.bytes_injective : Function.Injective Device.bytes := fun d d' h =>
  Subtype.ext (List.map_injective_iff.mpr (fun _ _ hlit => by injection hlit) h)

/-- What the runs have in common, and what each of them is given. -/
structure World where
  /-- What letters other than constants read as. -/
  value : Letter → UInt8
  /-- The devices that the server has a PSK of. -/
  registered : Set Device
  /-- The device of a client run. -/
  device : ℕ → Device
  device_registered : ∀ i, device i ∈ registered
  mode : ℕ → Firmware.Mode
  /-- What the arrays of a client run hold at first. -/
  memory : ℕ → Firmware.Memory Letter
  /-- A bound on the turns of a connection's record loop. -/
  turns : ℕ → ℕ

/-- The honest agents. -/
inductive Agent where
  | client (i : ℕ)
  | connection (j : ℕ)
  deriving DecidableEq

@[reducible]
def Agent.sig : Agent → Signature
  | client _ => Firmware.visible Letter
  | connection _ => Server.calls Letter

@[reducible]
def Agent.Result : Agent → Type
  | client _ => Option (Firmware.Session Letter)
  | connection _ => Except PyExn (Option (Server.Inbound Letter))

/-- The seed of the server's private key. -/
def staticSeed : List Letter := atomBytes 64 .staticKey

/-- The seed of an ephemeral key: of connection `j`, generated by its `n`-th event. -/
def ephemeralSeed (j n : ℕ) : List Letter := atomBytes 64 (.ephemeralKey j n)

/-- A PSK. -/
def devicePsk (d : Device) : List Letter := atomBytes 32 (.psk d)

/-- The server's public key, which the devices have pinned. -/
@[irreducible]
def serverPublicKey : List Letter := publicKeyBytes .mlkem768 staticSeed

/-- The public key has the length for ML-KEM-768. -/
theorem length_serverPublicKey : serverPublicKey.length = 1184 := by
  unfold serverPublicKey
  exact length_publicKeyBytes _ _

/-- The first bytes of its hash. -/
@[irreducible]
def serverKeyId : List Letter := (hashBytes serverPublicKey).take 4

/-- Its identifier has four bytes. -/
theorem length_serverKeyId : serverKeyId.length = 4 := by
  unfold serverKeyId
  simp

/-- What the server holds of its key. -/
def serverKey : Server.PrivateKey Letter := ⟨serverPublicKey, serverKeyId⟩

namespace World

variable (W : World)

/-- The ideal primitives. -/
noncomputable abbrev prims : Prims Letter := idealPrims W.value

/-- What the image of a client run is built with. -/
def cfg (i : ℕ) : Firmware.Config Letter where
  deviceId := (W.device i).bytes
  devicePsk := devicePsk (W.device i)
  serverPublicKey := serverPublicKey
  serverKeyId := serverKeyId
  length_deviceId := (W.device i).length_bytes
  length_devicePsk := length_atomBytes _ _
  length_serverPublicKey := length_serverPublicKey
  length_serverKeyId := length_serverKeyId

@[simp]
theorem cfg_serverPublicKey (i : ℕ) : (W.cfg i).serverPublicKey = serverPublicKey := rfl

/-- `handshake` and `handle_connection`. -/
noncomputable def program : ∀ g : Agent, Prog g.sig g.Result
  | .client i => Prod.fst <$>
      Firmware.exec W.prims (Firmware.handshake W.prims (W.cfg i) (W.mode i).suite) (W.memory i)
  | .connection j => (Server.handleConnection W.prims serverKey (W.turns j)).run

/-- What can happen to client run `i` at its history `log`. Random values are fresh, an
encapsulation that succeeds is one with fresh randomness, and a frame that arrives consists of bytes
`K` that the attacker can compute. Any call may fail. -/
def ClientAnswers (i : ℕ) (K : Letter → Prop) (log : Firmware.Log Letter) :
    Event (Firmware.visible Letter) → Prop
  | ⟨.inl (.read _), .ok (_, payload)⟩ => ∀ x ∈ payload.1, K x
  | ⟨.inr (.espFillRandom len), nonce⟩ => nonce.1 = atomBytes len (.clientNonce i log.length)
  | ⟨.inr (.mlkem768Enc pk), enc⟩ => enc.rc = 0 →
      enc.ct = ctBytes .mlkem768 pk (atomBytes 32 (.coins i log.length)) ∧
        enc.ss = ssBytes .mlkem768 pk (atomBytes 32 (.coins i log.length))
  | _ => True

/-- An ephemeral key of connection `j` has been generated. -/
def Generated (j : ℕ) (log : Server.Log Letter) (level : Level) (seed : List Letter) : Prop :=
  ∃ n gen, log[n]? = some ⟨.inr (.genpkey level), gen⟩ ∧ seed = ephemeralSeed j n

/-- What can happen to connection `j` at its history `log`. A PSK that is found is the device's, a
decapsulation that succeeds gives the ideal secret, and a public key that is printed belongs to the
key generated. Any call may fail. -/
def ConnectionAnswers (j : ℕ) (K : Letter → Prop) (log : Server.Log Letter) :
    Event (Server.calls Letter) → Prop
  | ⟨.inl (.read _), .ok (_, payload)⟩ => ∀ x ∈ payload.1, K x
  | ⟨.inr (.pskFor deviceId), psk⟩ => ∀ l, psk = .ok (some l) →
      ∃ d ∈ W.registered, deviceId = d.bytes ∧ l.1 = devicePsk d
  | ⟨.inr (.staticDecap ct), result⟩ => ∀ r ss, result = some r → r.returncode = 0 →
      r.secret = some ss → ss = idealDecaps .mlkem768 staticSeed ct
  | ⟨.inr (.tokenBytes n), token⟩ => token.1 = atomBytes n (.token j log.length)
  | ⟨.inr .pubout, der⟩ => ∀ r, der = some r → r.returncode = 0 →
      ∃ level seed header, Generated j log level seed ∧ header.length = 22 ∧
        r.stdout = header ++ publicKeyBytes level seed
  | ⟨.inr (.ephDecap ct), result⟩ => ∀ r ss, result = some r → r.returncode = 0 →
      r.secret = some ss → ∃ level seed, Generated j log level seed ∧ ss = idealDecaps level seed ct
  | _ => True

def Answers : ∀ g : Agent, (Letter → Prop) → List (Event g.sig) → Event g.sig → Prop
  | .client i => ClientAnswers i
  | .connection j => W.ConnectionAnswers j

/-- What an event of an agent puts on the network: the payload of a frame, whether or not the write
succeeds. -/
def shown : ∀ g : Agent, Event g.sig → List Letter
  | .client _, ⟨.inl (.write _ payload), _⟩ => payload
  | .connection _, ⟨.inl (.write _ payload), _⟩ => payload
  | _, _ => []

/-- The more the attacker knows, the more answers a client run can get. -/
theorem clientAnswers_mono {i : ℕ} {K K' : Letter → Prop} {log : Firmware.Log Letter}
    {e : Event (Firmware.visible Letter)} (hK : ∀ x, K x → K' x)
    (h : ClientAnswers i K log e) : ClientAnswers i K' log e := by
  match e, h with
  | ⟨.inl (.read _), .ok (_, payload)⟩, h => exact fun x hx => hK x (h x hx)
  | ⟨.inl (.read _), .error _⟩, _ | ⟨.inl (.write _ _), _⟩, _ => trivial
  | ⟨.inr (.espFillRandom _), _⟩, h | ⟨.inr (.mlkem768Enc _), _⟩, h => exact h
  | ⟨.inr .connectToServer, _⟩, _ | ⟨.inr .close, _⟩, _ => trivial

/-- The same for a connection. -/
theorem connectionAnswers_mono {j : ℕ} {K K' : Letter → Prop} {log : Server.Log Letter}
    {e : Event (Server.calls Letter)} (hK : ∀ x, K x → K' x)
    (h : W.ConnectionAnswers j K log e) : W.ConnectionAnswers j K' log e := by
  match e, h with
  | ⟨.inl (.read _), .ok (_, payload)⟩, h => exact fun x hx => hK x (h x hx)
  | ⟨.inl (.read _), .error _⟩, _ | ⟨.inl (.write _ _), _⟩, _ => trivial
  | ⟨.inr (.pskFor _), _⟩, h | ⟨.inr (.staticDecap _), _⟩, h | ⟨.inr (.tokenBytes _), _⟩, h
  | ⟨.inr .pubout, _⟩, h | ⟨.inr (.ephDecap _), _⟩, h => exact h
  | ⟨.inr .mkdtemp, _⟩, _ | ⟨.inr (.genpkey _), _⟩, _ | ⟨.inr .chmod, _⟩, _
  | ⟨.inr .ephExists, _⟩, _ | ⟨.inr .ephSize, _⟩, _ | ⟨.inr (.ephOverwrite _), _⟩, _
  | ⟨.inr .ephCleanup, _⟩, _ | ⟨.inr (.recordOpen _), _⟩, _ | ⟨.inr .close, _⟩, _ => trivial

/-- The network. -/
noncomputable def network : Network Agent Atom Level where
  sig := Agent.sig
  Result := Agent.Result
  program := W.program
  shown := shown
  Answers := W.Answers
  answers_mono {g _ _ _ _} hK h := match g with
    | .client _ => clientAnswers_mono hK h
    | .connection _ => W.connectionAnswers_mono hK h
  initial x := x ∈ serverPublicKey ∨ ∃ n i, x = .atom (.attacker n) i
  leakable := Atom.LongTerm

/-- The states of the network. -/
abbrev State : Type := W.network.State

variable {W}

/-- The history of a client run. -/
abbrev State.client (s : W.State) (i : ℕ) : Firmware.Log Letter := s.log (.client i)

/-- The history of a connection. -/
abbrev State.connection (s : W.State) (j : ℕ) : Server.Log Letter := s.log (.connection j)

end World

end PqcIot
