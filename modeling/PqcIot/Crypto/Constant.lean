import PqcIot.Crypto.Primitives

/-!
# Constant primitives

Primitives without any cryptography: hashes and MACs are zero, and a KEM has one key and one
ciphertext. Runs on fixed inputs are over them.
-/

namespace PqcIot

/-- Primitives that compute zeros. -/
def zeroPrims : Prims UInt8 where
  lit := id
  val := id
  val_lit _ := rfl
  diff a b := a ^^^ b
  diff_eq_zero _ _ := UInt8.xor_eq_zero_iff
  sha256 _ := List.replicate 32 0
  length_sha256 _ := List.length_replicate
  hmac _ _ := List.replicate 32 0
  length_hmac _ _ := List.length_replicate
  gcmEncrypt _ _ _ plain := (plain, List.replicate 16 0)
  length_ciphertext _ _ _ _ := rfl
  length_tag _ _ _ _ := List.length_replicate
  gcmDecrypt _ _ _ _ _ := none

/-- Primitives of the same kind that leave the plaintext as it is. -/
def plainPrims : Prims UInt8 :=
  { zeroPrims with gcmDecrypt := fun _ _ _ ciphertext _ => some ciphertext }

variable {β : Type}

/-- So many zero bytes. -/
def zeroBytes (P : Prims β) (n : ℕ) : { l : List β // l.length = n } :=
  ⟨P.lits (List.replicate n 0), (P.length_lits _).trans List.length_replicate⟩

/-- A KEM with one public key, for which every ciphertext is good. -/
def pinnedKem (P : Prims β) (pk : { l : List β // l.length = 1184 }) : Kem β .mlkem768 where
  Seed := Unit
  Coins := Unit
  publicKey _ := pk.1
  length_publicKey _ := pk.2
  encaps _ _ := some ((zeroBytes P 1088).1, (zeroBytes P 32).1)
  length_encaps := by
    rintro pk coins ct ss ⟨⟩
    exact ⟨(zeroBytes P 1088).2, (zeroBytes P 32).2⟩
  decaps _ _ := (zeroBytes P 32).1
  correct _ _ := ⟨_, _, rfl, rfl⟩

end PqcIot
