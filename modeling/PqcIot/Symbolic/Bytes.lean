import Mathlib.Data.List.Basic
import Mathlib.Logic.Basic

/-!
# Symbolic bytes

An alphabet in which cryptographic functions are free: a byte of a digest, a MAC, a key or a
ciphertext is a letter that records what was computed and the position of the byte. Equal outputs
of a function have equal inputs (`hashBytes_inj`, `hmacBytes_inj`, …), so programs that only move
and compare bytes run on this alphabet with ideal cryptography.

`A` names the random values and `L` the parameter sets of the key encapsulation mechanism, whose
lengths are given by `KemLengths L`.
-/

namespace Symbolic

/-- Lengths in bytes of a key encapsulation mechanism at each parameter set. -/
class KemLengths (L : Type) where
  /-- Length of a public key. -/
  publicKey : L → ℕ
  /-- Length of a ciphertext. -/
  ciphertext : L → ℕ
  publicKey_pos : ∀ l, 0 < publicKey l
  ciphertext_pos : ∀ l, 0 < ciphertext l

/-- Symbolic bytes. -/
inductive Byte (A L : Type) : Type
  /-- A constant. -/
  | lit (b : UInt8)
  /-- Byte `i` of the random value `a`. -/
  | atom (a : A) (i : ℕ)
  /-- Byte `i` of the digest of `m`. -/
  | hash (m : List (Byte A L)) (i : ℕ)
  /-- Byte `i` of the MAC of `m` under `k`. -/
  | hmac (k m : List (Byte A L)) (i : ℕ)
  /-- Byte `i` of the public key of `seed`. -/
  | publicKey (l : L) (seed : List (Byte A L)) (i : ℕ)
  /-- Byte `i` of the ciphertext encapsulated to `pk` with `coins`. -/
  | kemCt (l : L) (pk coins : List (Byte A L)) (i : ℕ)
  /-- Byte `i` of the secret encapsulated to `pk` with `coins`. -/
  | kemSs (l : L) (pk coins : List (Byte A L)) (i : ℕ)
  /-- Byte `i` of the secret that decapsulating a foreign ciphertext gives. -/
  | kemReject (l : L) (seed ct : List (Byte A L)) (i : ℕ)
  /-- Byte `i` of an authenticated ciphertext. -/
  | aeadCt (k n a p : List (Byte A L)) (i : ℕ)
  /-- Byte `i` of its tag. -/
  | aeadTag (k n a p : List (Byte A L)) (i : ℕ)

namespace Byte

variable {A L : Type}

/-- The `n` bytes of a random value. -/
def atomBytes (n : ℕ) (a : A) : List (Byte A L) := (List.range n).map (atom a)

/-- A digest. -/
def hashBytes (m : List (Byte A L)) : List (Byte A L) := (List.range 32).map (hash m)

/-- A MAC. -/
def hmacBytes (k m : List (Byte A L)) : List (Byte A L) := (List.range 32).map (hmac k m)

/-- The secret encapsulated to `pk` with `coins`. -/
def ssBytes (l : L) (pk coins : List (Byte A L)) : List (Byte A L) :=
  (List.range 32).map (kemSs l pk coins)

/-- The secret of a foreign ciphertext. -/
def rejectBytes (l : L) (seed ct : List (Byte A L)) : List (Byte A L) :=
  (List.range 32).map (kemReject l seed ct)

/-- The ciphertext part of an authenticated encryption. -/
def aeadCtBytes (k n a p : List (Byte A L)) : List (Byte A L) :=
  (List.range p.length).map (aeadCt k n a p)

/-- The tag of an authenticated encryption. -/
def aeadTagBytes (k n a p : List (Byte A L)) : List (Byte A L) :=
  (List.range 16).map (aeadTag k n a p)

section Kem

variable [KemLengths L]

/-- A public key. -/
def publicKeyBytes (l : L) (seed : List (Byte A L)) : List (Byte A L) :=
  (List.range (KemLengths.publicKey l)).map (publicKey l seed)

/-- The ciphertext encapsulated to `pk` with `coins`. -/
def ctBytes (l : L) (pk coins : List (Byte A L)) : List (Byte A L) :=
  (List.range (KemLengths.ciphertext l)).map (kemCt l pk coins)

end Kem

/-! ## Lengths -/

@[simp] theorem length_atomBytes (n : ℕ) (a : A) :
    (atomBytes n a : List (Byte A L)).length = n := by simp [atomBytes]

/-- A digest has 32 bytes. -/
@[simp] theorem length_hashBytes (m : List (Byte A L)) : (hashBytes m).length = 32 := by
  simp [hashBytes]

/-- A MAC has 32 bytes. -/
@[simp] theorem length_hmacBytes (k m : List (Byte A L)) : (hmacBytes k m).length = 32 := by
  simp [hmacBytes]

@[simp] theorem length_ssBytes (l : L) (pk coins : List (Byte A L)) :
    (ssBytes l pk coins).length = 32 := by simp [ssBytes]

@[simp] theorem length_rejectBytes (l : L) (seed ct : List (Byte A L)) :
    (rejectBytes l seed ct).length = 32 := by simp [rejectBytes]

/-- A ciphertext is as long as its plaintext. -/
@[simp] theorem length_aeadCtBytes (k n a p : List (Byte A L)) :
    (aeadCtBytes k n a p).length = p.length := by simp [aeadCtBytes]

@[simp] theorem length_aeadTagBytes (k n a p : List (Byte A L)) :
    (aeadTagBytes k n a p).length = 16 := by simp [aeadTagBytes]

@[simp] theorem length_publicKeyBytes [KemLengths L] (l : L) (seed : List (Byte A L)) :
    (publicKeyBytes l seed).length = KemLengths.publicKey l := by simp [publicKeyBytes]

@[simp] theorem length_ctBytes [KemLengths L] (l : L) (pk coins : List (Byte A L)) :
    (ctBytes l pk coins).length = KemLengths.ciphertext l := by simp [ctBytes]

/-! ## Freeness -/

/-- Two values of the same positive length that agree agree in their first byte. -/
private theorem eq_zero_of_map_range_eq {n : ℕ} {f g : ℕ → Byte A L} (hn : 0 < n)
    (h : (List.range n).map f = (List.range n).map g) : f 0 = g 0 := by
  have := congrArg List.head? h
  cases n with
  | zero => exact absurd hn (Nat.lt_irrefl 0)
  | succ n => simpa [List.range_succ_eq_map] using this

/-- Equal digests are of equal messages. -/
theorem hashBytes_inj {m m' : List (Byte A L)} (h : hashBytes m = hashBytes m') : m = m' := by
  injection eq_zero_of_map_range_eq (by decide) h

/-- Equal MACs are of equal messages under equal keys. -/
theorem hmacBytes_inj {k k' m m' : List (Byte A L)} (h : hmacBytes k m = hmacBytes k' m') :
    k = k' ∧ m = m' := by
  injection eq_zero_of_map_range_eq (by decide) h with hk hm _
  exact ⟨hk, hm⟩

/-- Values that are drawn share no bytes. -/
theorem atomBytes_inj {n : ℕ} {a a' : A} (hn : 0 < n)
    (h : (atomBytes n a : List (Byte A L)) = atomBytes n a') : a = a' := by
  injection eq_zero_of_map_range_eq hn h

/-- A public key determines the seed it was generated from. -/
theorem publicKeyBytes_inj [KemLengths L] {l : L} {seed seed' : List (Byte A L)}
    (h : publicKeyBytes l seed = publicKeyBytes l seed') : seed = seed' := by
  injection eq_zero_of_map_range_eq (KemLengths.publicKey_pos l) h

/-- A ciphertext determines the public key and the coins. -/
theorem ctBytes_inj [KemLengths L] {l : L} {pk pk' coins coins' : List (Byte A L)}
    (h : ctBytes l pk coins = ctBytes l pk' coins') : pk = pk' ∧ coins = coins' := by
  injection eq_zero_of_map_range_eq (KemLengths.ciphertext_pos l) h with _ hpk hcoins _
  exact ⟨hpk, hcoins⟩

/-- A random value is not a MAC. -/
theorem atomBytes_ne_hmacBytes {a : A} {k m : List (Byte A L)} :
    atomBytes 32 a ≠ hmacBytes k m := fun h => by
  injection eq_zero_of_map_range_eq (by decide) h

/-- A tag determines everything that was sealed. -/
theorem aeadTagBytes_inj {k k' n n' a a' p p' : List (Byte A L)}
    (h : aeadTagBytes k n a p = aeadTagBytes k' n' a' p') : k = k' ∧ n = n' ∧ a = a' ∧ p = p' := by
  injection eq_zero_of_map_range_eq (by decide) h with hk hn ha hp _
  exact ⟨hk, hn, ha, hp⟩

end Byte

end Symbolic
