import PqcIot.Effects.Memory
import PqcIot.Transport.Firmware

/-!
# What the firmware runs on

The byte arrays of `pqc_session.c` whose contents outlive a statement, the calls it makes into
mbedtls, mlkem-native and the operating system, and code as state passing over the former that
performs the latter. An access outside an array is a call, `trap`, that never returns.

`exec P c m` runs code `c` from the memory `m` with the mbedtls calls answered as the library
documents them, over the primitives `P`; its equations compute through code.
-/

namespace PqcIot

open Effects

namespace Firmware

variable {β α γ : Type}

/-! ## Memory -/

/-- The static buffers, and the locals that hold a secret. -/
inductive Buffer where
  | sHello
  | sFrame
  | sOut
  | ss
  | ssEph
  | ikm1
  | ikm2
  | prk1
  | prk2
  deriving DecidableEq, Repr

/-- `sizeof`. -/
def Buffer.size : Buffer → ℕ
  | .sHello => 1166
  | .sFrame => 1256
  | .sOut => 1120
  | .ss => 32
  | .ssEph => 32
  | .ikm1 => 64
  | .ikm2 => 96
  | .prk1 => 32
  | .prk2 => 32

abbrev Memory (β : Type) : Type := Mem β Buffer.size

/-! ## Calls -/

/-- A return code and an output buffer of `n` bytes. -/
structure Output (β : Type) (n : ℕ) where
  rc : ℤ
  out : List β
  length_out : out.length = n

/-- What `mbedtls_gcm_crypt_and_tag` leaves behind for `n` bytes of input. -/
structure GcmOutput (β : Type) (n : ℕ) where
  rc : ℤ
  ciphertext : List β
  tag : List β
  length_ciphertext : ciphertext.length = n
  length_tag : tag.length = 16

/-- What `mlkem768_enc` leaves behind. -/
structure Encapsulation (β : Type) where
  rc : ℤ
  ct : List β
  ss : List β
  length_ct : ct.length = 1088
  length_ss : ss.length = 32

/-- Calls into mbedtls. A streaming context is what has been fed into it. -/
inductive MbedtlsOp (β : Type) where
  | mdSetup
  | mdHmacStarts (key : List β)
  | mdHmacUpdate (key fed input : List β)
  | mdHmacFinish (key fed : List β)
  | mdHmac (key input : List β)
  | sha256Starts
  | sha256Update (fed input : List β)
  | sha256Finish (fed : List β)
  | hkdfExtract (salt ikm : List β)
  | hkdfExpand (prk info : List β)
  | gcmSetkey (key : List β)
  | gcmCryptAndTag (key iv add input : List β)

@[reducible]
def MbedtlsOp.Ans : MbedtlsOp β → Type
  | .mdSetup => ℤ
  | .mdHmacStarts _ => ℤ
  | .mdHmacUpdate _ _ _ => ℤ
  | .mdHmacFinish _ _ => Output β 32
  | .mdHmac _ _ => Output β 32
  | .sha256Starts => ℤ
  | .sha256Update _ _ => ℤ
  | .sha256Finish _ => Output β 32
  | .hkdfExtract _ _ => Output β 32
  | .hkdfExpand _ _ => Output β 32
  | .gcmSetkey _ => ℤ
  | .gcmCryptAndTag _ _ _ input => GcmOutput β input.length

/-- Calls into the operating system and mlkem-native. -/
inductive HostOp (β : Type) where
  /-- `connect_to_server`. -/
  | connectToServer
  /-- `close`. -/
  | close
  | espFillRandom (len : ℕ)
  | mlkem768Enc (pk : List β)
  /-- An access outside an array. -/
  | trap

@[reducible]
def HostOp.Ans : HostOp β → Type
  | .connectToServer => Bool
  | .close => Unit
  | .espFillRandom len => { l : List β // l.length = len }
  | .mlkem768Enc _ => Encapsulation β
  | .trap => Empty

abbrev mbedtls (β : Type) : Signature := ⟨MbedtlsOp β, MbedtlsOp.Ans⟩

abbrev host (β : Type) : Signature := ⟨HostOp β, HostOp.Ans⟩

/-- The calls that are visible outside: frames and the host. -/
abbrev visible (β : Type) : Signature := (frames β).sum (host β)

abbrev calls (β : Type) : Signature := (mbedtls β).sum (visible β)

/-! ## Code -/

/-- C code: state passing over the memory, performing calls. -/
abbrev Code (β : Type) : Type → Type := StateT (Memory β) (Prog (calls β))

namespace Code

/-- Call into mbedtls. -/
def mbedtls (o : MbedtlsOp β) : Code β (MbedtlsOp.Ans o) :=
  fun m => .op (.inl o) fun a => .ret (a, m)

/-- Perform a framing call. -/
def frame (o : FrameOp β) : Code β (FrameOp.Ans β FrameFailure o) := fun m =>
  .op (.inr (.inl o)) fun a => .ret (a, m)

/-- Call into the operating system or mlkem-native. -/
def host (o : HostOp β) : Code β (HostOp.Ans o) := fun m =>
  .op (.inr (.inr o)) fun a => .ret (a, m)

/-- `memcpy(b + off, data, len)`, and assignments to an array. -/
def memcpy (b : Buffer) (off : ℕ) (data : List β) : Code β Unit := fun m =>
  if h : off + data.length ≤ b.size then
    .ret ((), m.store b off data h)
  else
    .op (.inr (.inr .trap)) nofun

/-- The bytes that an argument `b + off` of length `len` refers to. -/
def bytesAt (b : Buffer) (off len : ℕ) : Code β (List β) := fun m =>
  if off + len ≤ b.size then
    .ret (m.load b off len, m)
  else
    .op (.inr (.inr .trap)) nofun

end Code

/-! ## Execution over given primitives -/

/-- What the mbedtls calls return: success, and the value they are documented to compute. -/
def documented (P : Prims β) : ∀ o : MbedtlsOp β, MbedtlsOp.Ans o
  | .mdSetup => 0
  | .mdHmacStarts _ => 0
  | .mdHmacUpdate _ _ _ => 0
  | .mdHmacFinish key fed => ⟨0, P.hmac key fed, P.length_hmac _ _⟩
  | .mdHmac key input => ⟨0, P.hmac key input, P.length_hmac _ _⟩
  | .sha256Starts => 0
  | .sha256Update _ _ => 0
  | .sha256Finish fed => ⟨0, P.sha256 fed, P.length_sha256 _⟩
  | .hkdfExtract salt ikm => ⟨0, P.hkdfExtract salt ikm, P.length_hmac _ _⟩
  | .hkdfExpand prk info => ⟨0, P.hkdfExpand prk info 32, P.length_hkdfExpand_32 _ _⟩
  | .gcmSetkey _ => 0
  | .gcmCryptAndTag key iv add input =>
    ⟨0, (P.gcmEncrypt key iv add input).1, (P.gcmEncrypt key iv add input).2,
      P.length_ciphertext _ _ _ _, P.length_tag _ _ _ _⟩

/-- Run code from a memory with mbedtls computing `P`. -/
def exec (P : Prims β) (c : Code β α) (m : Memory β) : Prog (visible β) (α × Memory β) :=
  Prog.answer (documented P) (c.run m)

section Exec

variable (P : Prims β) (m : Memory β)

/-- A value is returned, and the memory is as it was. -/
@[simp]
theorem exec_pure (a : α) : exec P (pure a) m = .ret (a, m) := rfl

/-- Two pieces of code run one after the other, the second in the memory that the first leaves. -/
@[simp]
theorem exec_bind (c : Code β α) (f : α → Code β γ) :
    exec P (c >>= f) m = exec P c m >>= fun r => exec P (f r.1) r.2 :=
  Prog.answer_bind _ _ _

/-- A branch runs as the code that is chosen. -/
@[simp]
theorem exec_ite (p : Prop) [Decidable p] (c d : Code β α) :
    exec P (if p then c else d) m = if p then exec P c m else exec P d m := by
  split <;> rfl

/-- A call of mbedtls is answered by the primitives and leaves the memory. -/
@[simp]
theorem exec_mbedtls (o : MbedtlsOp β) :
    exec P (Code.mbedtls o) m = .ret (documented P o, m) := rfl

/-- A call of the framing goes to the connection. -/
@[simp]
theorem exec_frame (o : FrameOp β) :
    exec P (Code.frame o) m = .op (.inl o) fun a => .ret (a, m) := rfl

/-- A call of the operating system goes to it. -/
@[simp]
theorem exec_host (o : HostOp β) :
    exec P (Code.host o) m = .op (.inr o) fun a => .ret (a, m) := rfl

/-- Inside the buffer, `memcpy` stores the bytes. -/
theorem exec_memcpy {b : Buffer} {off : ℕ} {data : List β} (h : off + data.length ≤ b.size) :
    exec P (Code.memcpy b off data) m = .ret ((), m.store b off data h) := by
  simp only [exec, Code.memcpy, StateT.run, dif_pos h]
  rfl

/-- Inside the buffer, its bytes are read. -/
theorem exec_bytesAt {b : Buffer} {off len : ℕ} (h : off + len ≤ b.size) :
    exec P (Code.bytesAt b off len) m = .ret (m.load b off len, m) := by
  simp only [exec, Code.bytesAt, StateT.run, if_pos h]
  rfl

end Exec

end Firmware

end PqcIot
