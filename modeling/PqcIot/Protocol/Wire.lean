import PqcIot.Crypto.Primitives
import PqcIot.Effects.Handler

/-!
# PQC-IoT-1 wire constants

The constants of `server/protocol.py`: version, suites and their parameters, frame types, field
lengths and key-schedule labels, with the exceptions the Python code raises and the two framing
operations both implementations are written over.
-/

namespace PqcIot

open Effects

namespace Protocol

/-! ## Suites -/

def version : UInt8 := 0x01

/-- The keys of `SUITE_PARAMS`. -/
inductive Suite where
  | mlkem768
  | mlkem512
  | mlkem768Fs
  | mlkem512Fs
  deriving DecidableEq, Repr

/-- The entries of `SUITE_PARAMS`. -/
structure SuiteParams where
  level : Level
  ct : ℕ
  ek : ℕ
  fs : Bool
  deriving DecidableEq, Repr

namespace Suite

/-- The suite byte: `SUITE_MLKEM768`, `SUITE_MLKEM512`, `SUITE_MLKEM768_FS`, `SUITE_MLKEM512_FS`. -/
def code : Suite → UInt8
  | .mlkem768 => 0x01
  | .mlkem512 => 0x02
  | .mlkem768Fs => 0x11
  | .mlkem512Fs => 0x12

/-- `SUITE_PARAMS[suite]`. -/
def params : Suite → SuiteParams
  | .mlkem768 => { level := .mlkem768, ct := 1088, ek := 1184, fs := false }
  | .mlkem512 => { level := .mlkem512, ct := 768, ek := 800, fs := false }
  | .mlkem768Fs => { level := .mlkem768, ct := 1088, ek := 1184, fs := true }
  | .mlkem512Fs => { level := .mlkem512, ct := 768, ek := 800, fs := true }

/-- The suite of a suite byte, as `SUITE_PARAMS.get` finds it. -/
def ofCode? (c : UInt8) : Option Suite :=
  [Suite.mlkem768, .mlkem512, .mlkem768Fs, .mlkem512Fs].find? fun s => s.code == c

/-- Each suite is found by its code. -/
@[simp]
theorem ofCode?_code (s : Suite) : ofCode? s.code = some s := by
  cases s <;> rfl

/-- A suite that is found has the code. -/
theorem code_of_ofCode? {c : UInt8} {s : Suite} (h : ofCode? c = some s) : s.code = c := by
  simpa using List.find?_some h

/-- No two suites have the same code. -/
theorem code_injective : Function.Injective code := by
  intro s t h
  have := congrArg ofCode? h
  simpa using this

/-- The table's ciphertext length is that of its parameter set. -/
theorem params_ct (s : Suite) : s.params.ct = s.params.level.ciphertextBytes := by
  cases s <;> rfl

/-- The table's public key length is that of its parameter set. -/
theorem params_ek (s : Suite) : s.params.ek = s.params.level.publicKeyBytes := by
  cases s <;> rfl

end Suite

/-! ## Frames, lengths and labels -/

def frameClientHello : UInt8 := 0x01
def frameServerHello : UInt8 := 0x02
def frameClientFinished : UInt8 := 0x03
def frameData : UInt8 := 0x10
def frameClose : UInt8 := 0x7F

def maxFrame : ℕ := 4096

def nonceLen : ℕ := 32
def sessionIdLen : ℕ := 8
def deviceIdLen : ℕ := 8
def keyIdLen : ℕ := 4
def macLen : ℕ := 32
def pskLen : ℕ := 32
def tagLen : ℕ := 16

/-- ServerHello is fixed-length in mode A: nonce, session id and MAC. -/
def serverHelloBaseLen : ℕ := 32 + 8 + 32

/-- Mode B's ServerHello additionally carries the ephemeral public key. -/
def serverHelloLen (suite : Suite) : ℕ :=
  serverHelloBaseLen + if suite.params.fs then suite.params.ek else 0

/-- The bytes of an ASCII literal. -/
def ascii (s : String) : List UInt8 := s.toList.map fun c => UInt8.ofNat c.toNat

def labelHello : List UInt8 := ascii "PQC-IoT-1 hello"
def labelSrvConfirm : List UInt8 := ascii "PQC-IoT-1 server confirm"
def labelCliConfirm : List UInt8 := ascii "PQC-IoT-1 client confirm"
def labelC2s : List UInt8 := ascii "PQC-IoT-1 c2s"
def labelS2c : List UInt8 := ascii "PQC-IoT-1 s2c"

/-! ## Exceptions -/

/-- The exceptions the server's code raises. `socket.timeout` is an `OSError`; the last four come
out of the device table. -/
inductive PyExn where
  | protocolError (message : String)
  | osError
  | calledProcessError
  | structError
  | valueError
  | systemExit (message : String)
  | attributeError
  | typeError
  | recursionError
  deriving DecidableEq, Repr

@[simp]
theorem pure_eq_ok {ε α : Type} (a : α) : (pure a : Except ε α) = .ok a := rfl

@[simp]
theorem ok_bind {ε α γ : Type} (a : α) (f : α → Except ε γ) : (Except.ok a >>= f) = f a := rfl

@[simp]
theorem error_bind {ε α γ : Type} (e : ε) (f : α → Except ε γ) :
    ((.error e : Except ε α) >>= f) = .error e := rfl

/-- Two lower-case hexadecimal digits. -/
def hexByte (b : UInt8) : String :=
  let digit (n : ℕ) : Char := "0123456789abcdef".toList.getD n '0'
  String.ofList [digit (b.toNat / 16), digit (b.toNat % 16)]

/-- `bytes.hex()`. -/
def hex (bytes : List UInt8) : String := String.join (bytes.map hexByte)

/-- The format `#04x` of a byte. -/
def hash04x (b : UInt8) : String := "0x" ++ hexByte b

end Protocol

/-! ## Framing operations -/

/-- The two framing calls both implementations make. -/
inductive FrameOp (β : Type) where
  /-- Write a frame of the given type and payload. -/
  | write (ftype : UInt8) (payload : List β)
  /-- Read a frame whose payload has at most `capacity` bytes. -/
  | read (capacity : ℕ)

/-- A payload of at most `capacity` bytes. -/
abbrev Payload (β : Type) (capacity : ℕ) : Type := { l : List β // l.length ≤ capacity }

/-- The answer to a framing call; `ε` is what the language reports of a failed one. -/
@[reducible]
def FrameOp.Ans (β : Type) (ε : FrameOp β → Type) : FrameOp β → Type
  | .write ftype payload => Except (ε (.write ftype payload)) Unit
  | .read capacity => Except (ε (.read capacity)) (UInt8 × Payload β capacity)

/-- The signature of framing calls. -/
abbrev frameSig (β : Type) (ε : FrameOp β → Type) : Signature := ⟨FrameOp β, FrameOp.Ans β ε⟩

/-- The bytes of a frame: type, big-endian length, payload. -/
def frameBytes {β : Type} (P : Prims β) (ftype : UInt8) (payload : List β) : List β :=
  P.lits (ftype :: beBytes 2 payload.length) ++ payload

/-- A frame has three bytes before its payload. -/
@[simp]
theorem length_frameBytes {β : Type} (P : Prims β) (ftype : UInt8) (payload : List β) :
    (frameBytes P ftype payload).length = 3 + payload.length := by
  rw [frameBytes, List.length_append, P.length_lits, List.length_cons, length_beBytes]

/-- `Framed P t p bytes`: `bytes` is a header for a frame of type `t` with the payload `p`, and that
payload. The letters of the header need only have the right values. -/
def Framed {β : Type} (P : Prims β) (ftype : UInt8) (payload bytes : List β) : Prop :=
  ∃ head, P.vals head = ftype :: beBytes 2 payload.length ∧ bytes = head ++ payload

end PqcIot
