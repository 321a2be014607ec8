import Mathlib.Data.List.Basic
import PqcIot.Effects.Bytes

/-!
# Cryptographic primitives

What the two implementations take from their libraries, over an alphabet `β`. The code only moves,
compares and hashes bytes, so it is embedded over an arbitrary alphabet: at `β = UInt8` it is the
program, and over an alphabet of symbolic bytes, where hashes are injective, it is the model that an
attacker is put against.

* `Prims β`: SHA-256, HMAC-SHA-256 and AES-256-GCM as functions, with the lengths they guarantee;
* `Prims.hkdfExtract`, `Prims.hkdfExpand`: HKDF as RFC 5869 defines it over HMAC;
* `Level`, `Kem β level`: ML-KEM at a parameter set, correct on the keys and ciphertexts it makes.
-/

namespace PqcIot

/-- The primitives shared by both implementations, over the alphabet `β`. -/
structure Prims (β : Type) where
  /-- The letter that stands for a byte value. -/
  lit : UInt8 → β
  /-- The byte value of a letter. -/
  val : β → UInt8
  val_lit : ∀ b, val (lit b) = b
  /-- The exclusive or of two letters, as far as comparisons tell: zero for equal ones only. -/
  diff : β → β → UInt8
  diff_eq_zero : ∀ a b, diff a b = 0 ↔ a = b
  /-- SHA-256. -/
  sha256 : List β → List β
  length_sha256 : ∀ m, (sha256 m).length = 32
  /-- HMAC-SHA-256: key, then message. -/
  hmac : List β → List β → List β
  length_hmac : ∀ k m, (hmac k m).length = 32
  /-- AES-256-GCM encryption of a plaintext under key, nonce and additional data: ciphertext and
  tag. -/
  gcmEncrypt (key nonce aad plain : List β) : List β × List β
  length_ciphertext : ∀ k n a p, (gcmEncrypt k n a p).1.length = p.length
  length_tag : ∀ k n a p, (gcmEncrypt k n a p).2.length = 16
  /-- AES-256-GCM decryption of a ciphertext and tag. -/
  gcmDecrypt (key nonce aad ciphertext tag : List β) : Option (List β)

attribute [simp] Prims.val_lit Prims.length_sha256 Prims.length_hmac Prims.length_ciphertext
  Prims.length_tag

namespace Prims

variable {β : Type} (P : Prims β)

/-- A constant byte string. -/
def lits (bytes : List UInt8) : List β := bytes.map P.lit

/-- The byte values of a string. -/
def vals (bytes : List β) : List UInt8 := bytes.map P.val

/-- As many bytes as there are. -/
@[simp]
theorem length_lits (bytes : List UInt8) : (P.lits bytes).length = bytes.length :=
  List.length_map _

/-- They are read back. -/
@[simp]
theorem vals_lits (bytes : List UInt8) : P.vals (P.lits bytes) = bytes := by
  rw [vals, lits, List.map_map]
  exact (List.map_congr_left fun b _ => P.val_lit b).trans (List.map_id _)

/-- Different bytes are different letters. -/
theorem lits_injective : Function.Injective P.lits :=
  Function.LeftInverse.injective P.vals_lits

/-- No two of the given messages collide under SHA-256. -/
def CollisionFree (ms : List (List β)) : Prop :=
  ∀ m ∈ ms, ∀ m' ∈ ms, P.sha256 m = P.sha256 m' → m = m'

/-! ## HKDF (RFC 5869) -/

/-- HKDF-Extract. -/
def hkdfExtract (salt ikm : List β) : List β := P.hmac salt ikm

/-- The block `T(i)` of HKDF-Expand; `T(0)` is empty. -/
def hkdfBlock (prk info : List β) : ℕ → List β
  | 0 => []
  | i + 1 => P.hmac prk (hkdfBlock prk info i ++ info ++ [P.lit (UInt8.ofNat (i + 1))])

/-- HKDF-Expand: the first `len` bytes of `T(1) ‖ T(2) ‖ …`. -/
def hkdfExpand (prk info : List β) (len : ℕ) : List β :=
  ((List.range ((len + 31) / 32)).flatMap fun i => P.hkdfBlock prk info (i + 1)).take len

/-- An extracted key has 32 bytes. -/
@[simp]
theorem length_hkdfExtract (salt ikm : List β) : (P.hkdfExtract salt ikm).length = 32 :=
  P.length_hmac _ _

/-- One block of output is one HMAC. -/
theorem hkdfExpand_32 (prk info : List β) :
    P.hkdfExpand prk info 32 = P.hmac prk (info ++ [P.lit 1]) := by
  have hblock : P.hkdfBlock prk info 1 = P.hmac prk (info ++ [P.lit 1]) := rfl
  rw [hkdfExpand, show (32 + 31) / 32 = 1 from rfl, List.range_one, List.flatMap_singleton, hblock]
  exact List.take_of_length_le (P.length_hmac _ _).le

/-- So has an expanded one, where so many are asked for. -/
@[simp]
theorem length_hkdfExpand_32 (prk info : List β) : (P.hkdfExpand prk info 32).length = 32 := by
  rw [hkdfExpand_32, length_hmac]

end Prims

/-! ## ML-KEM -/

/-- The ML-KEM parameter sets the protocol uses. -/
inductive Level where
  | mlkem512
  | mlkem768
  deriving DecidableEq, Repr

namespace Level

/-- Bytes of a public key. -/
def publicKeyBytes : Level → ℕ
  | .mlkem512 => 800
  | .mlkem768 => 1184

/-- Bytes of a ciphertext. -/
def ciphertextBytes : Level → ℕ
  | .mlkem512 => 768
  | .mlkem768 => 1088

end Level

/-- ML-KEM at one parameter set, correct on its own keys and ciphertexts. -/
structure Kem (β : Type) (level : Level) where
  /-- Private keys. -/
  Seed : Type
  /-- Encapsulation randomness. -/
  Coins : Type
  /-- The public key of a private key. -/
  publicKey : Seed → List β
  length_publicKey : ∀ dk, (publicKey dk).length = level.publicKeyBytes
  /-- Encapsulation: ciphertext and shared secret, unless the key is refused. -/
  encaps : List β → Coins → Option (List β × List β)
  length_encaps : ∀ pk coins ct ss, encaps pk coins = some (ct, ss) →
    ct.length = level.ciphertextBytes ∧ ss.length = 32
  /-- Decapsulation. -/
  decaps : Seed → List β → List β
  /-- An honest key is accepted, and decapsulating what was encapsulated to it gives the secret. -/
  correct : ∀ dk coins, ∃ ct ss, encaps (publicKey dk) coins = some (ct, ss) ∧ decaps dk ct = ss

end PqcIot
