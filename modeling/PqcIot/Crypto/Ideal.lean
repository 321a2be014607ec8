import PqcIot.Crypto.Primitives
import PqcIot.Symbolic.Bytes

/-!
# Ideal primitives

The primitives over the alphabet of symbolic bytes: hashes and MACs are injective, decryption
succeeds only on what was encrypted under the same key, nonce and additional data, and decapsulation
gives the secret of an honest ciphertext and an unrelated one for any other.
-/

namespace PqcIot

open Symbolic Symbolic.Byte

instance : KemLengths Level where
  publicKey := Level.publicKeyBytes
  ciphertext := Level.ciphertextBytes
  publicKey_pos := by rintro (_ | _) <;> decide
  ciphertext_pos := by rintro (_ | _) <;> decide

variable {A : Type}

section Prims

open Classical in
/-- The primitives over symbolic bytes; `value` is what letters other than constants read as. -/
noncomputable def idealPrims (value : Byte A Level → UInt8) : Prims (Byte A Level) where
  lit := .lit
  val
    | .lit b => b
    | x => value x
  val_lit _ := rfl
  diff x y := if x = y then 0 else 1
  diff_eq_zero x y := by
    by_cases h : x = y <;> simp [h]
  sha256 := hashBytes
  length_sha256 := length_hashBytes
  hmac := hmacBytes
  length_hmac := length_hmacBytes
  gcmEncrypt k n a p := (aeadCtBytes k n a p, aeadTagBytes k n a p)
  length_ciphertext := length_aeadCtBytes
  length_tag := length_aeadTagBytes
  gcmDecrypt k n a ct tag :=
    if h : ∃ p, ct = aeadCtBytes k n a p ∧ tag = aeadTagBytes k n a p then some h.choose else none

variable (value : Byte A Level → UInt8)

@[simp]
theorem idealPrims_sha256 (m : List (Byte A Level)) :
    (idealPrims value).sha256 m = hashBytes m := rfl

@[simp]
theorem idealPrims_hmac (k m : List (Byte A Level)) :
    (idealPrims value).hmac k m = hmacBytes k m := rfl

@[simp]
theorem idealPrims_lits (bytes : List UInt8) :
    (idealPrims value).lits bytes = bytes.map .lit := rfl

/-- A key expanded from an extraction is a MAC under a MAC. -/
theorem idealPrims_hkdf (salt ikm info : List (Byte A Level)) :
    (idealPrims value).hkdfExpand ((idealPrims value).hkdfExtract salt ikm) info 32 =
      hmacBytes (hmacBytes salt ikm) (info ++ [.lit 1]) :=
  (idealPrims value).hkdfExpand_32 _ _

/-- No two different messages have the same ideal digest. -/
theorem idealPrims_collisionFree (ms : List (List (Byte A Level))) :
    (idealPrims value).CollisionFree ms :=
  fun _ _ _ _ h => hashBytes_inj h

/-- Decryption succeeds exactly on what encryption gives. -/
theorem idealPrims_gcmDecrypt_eq_some {k n a ct tag p : List (Byte A Level)} :
    (idealPrims value).gcmDecrypt k n a ct tag = some p ↔
      (idealPrims value).gcmEncrypt k n a p = (ct, tag) := by
  constructor
  · intro h
    simp only [idealPrims] at h
    split at h
    · rename_i hex
      obtain ⟨hct, htag⟩ := hex.choose_spec
      cases h
      exact Prod.ext hct.symm htag.symm
    · cases h
  · intro h
    obtain ⟨rfl, rfl⟩ := Prod.mk.inj h
    have hex : ∃ p', aeadCtBytes k n a p = aeadCtBytes k n a p' ∧
        aeadTagBytes k n a p = aeadTagBytes k n a p' := ⟨p, rfl, rfl⟩
    obtain ⟨-, -, -, hp⟩ := aeadTagBytes_inj hex.choose_spec.2
    simp only [idealPrims]
    rw [dif_pos hex, ← hp]

end Prims

/-! ## The ideal KEM -/

open Classical in
/-- Ideal decapsulation. -/
noncomputable def idealDecaps (level : Level) (seed ct : List (Byte A Level)) :
    List (Byte A Level) :=
  if h : ∃ coins, ct = ctBytes level (publicKeyBytes level seed) coins then
    ssBytes level (publicKeyBytes level seed) h.choose
  else
    rejectBytes level seed ct

/-- Decapsulating an honest ciphertext gives its secret. -/
theorem idealDecaps_ctBytes (level : Level) (seed coins : List (Byte A Level)) :
    idealDecaps level seed (ctBytes level (publicKeyBytes level seed) coins) =
      ssBytes level (publicKeyBytes level seed) coins := by
  have hex : ∃ coins', ctBytes level (publicKeyBytes level seed) coins =
      ctBytes level (publicKeyBytes level seed) coins' := ⟨coins, rfl⟩
  obtain ⟨-, hcoins⟩ := ctBytes_inj hex.choose_spec
  rw [idealDecaps, dif_pos hex, ← hcoins]

/-- A decapsulation gives 32 bytes, whatever the ciphertext. -/
@[simp]
theorem length_idealDecaps (level : Level) (seed ct : List (Byte A Level)) :
    (idealDecaps level seed ct).length = 32 := by
  rw [idealDecaps]
  split
  · exact length_ssBytes _ _ _
  · exact length_rejectBytes _ _ _

/-- The ideal KEM. -/
noncomputable def idealKem (A : Type) (level : Level) : Kem (Byte A Level) level where
  Seed := List (Byte A Level)
  Coins := List (Byte A Level)
  publicKey := publicKeyBytes level
  length_publicKey := length_publicKeyBytes level
  encaps pk coins := some (ctBytes level pk coins, ssBytes level pk coins)
  length_encaps pk coins ct ss h := by
    cases h
    exact ⟨length_ctBytes level pk coins, length_ssBytes level pk coins⟩
  decaps := idealDecaps level
  correct dk coins := ⟨_, _, rfl, idealDecaps_ctBytes level dk coins⟩

theorem idealKem_publicKey (level : Level) (seed : List (Byte A Level)) :
    (idealKem A level).publicKey seed = publicKeyBytes level seed := rfl

end PqcIot
