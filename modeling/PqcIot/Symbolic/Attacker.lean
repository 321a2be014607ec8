import PqcIot.Symbolic.Bytes

/-!
# What an attacker can derive

`Derivable K x`: an attacker who knows the bytes `K` can compute the byte `x`. The attacker hashes,
computes MACs, makes and uses keys, decrypts with keys it has, and opens whatever is encapsulated to
something that is not a public key.

`Exposed pub mac x` bounds this from above, for a set of public random values and a set of published
MACs: it holds of the attacker's knowledge if every published byte satisfies it
(`Derivable.exposed`), and it is inverted constructor by constructor (`exposedAll_hmacBytes`,
`exposedAll_ssBytes`), which reduces a secrecy claim to the inputs of a key.
-/

namespace Symbolic

open Byte

variable {A L : Type} [KemLengths L]

/-- The bytes an attacker who knows `K` can compute. -/
inductive Derivable (K : Byte A L → Prop) : Byte A L → Prop
  | known {x : Byte A L} : K x → Derivable K x
  | lit (b : UInt8) : Derivable K (.lit b)
  | hash {m : List (Byte A L)} (i : ℕ) : (∀ x ∈ m, Derivable K x) → Derivable K (.hash m i)
  | hmac {k m : List (Byte A L)} (i : ℕ) : (∀ x ∈ k, Derivable K x) → (∀ x ∈ m, Derivable K x) →
      Derivable K (.hmac k m i)
  | publicKey {l : L} {seed : List (Byte A L)} (i : ℕ) : (∀ x ∈ seed, Derivable K x) →
      Derivable K (.publicKey l seed i)
  | encapsCt {l : L} {pk coins : List (Byte A L)} (i : ℕ) : (∀ x ∈ pk, Derivable K x) →
      (∀ x ∈ coins, Derivable K x) → Derivable K (.kemCt l pk coins i)
  | encapsSs {l : L} {pk coins : List (Byte A L)} (i : ℕ) : (∀ x ∈ pk, Derivable K x) →
      (∀ x ∈ coins, Derivable K x) → Derivable K (.kemSs l pk coins i)
  | decaps {l : L} {seed coins : List (Byte A L)} (i : ℕ) : (∀ x ∈ seed, Derivable K x) →
      (∀ x ∈ ctBytes l (publicKeyBytes l seed) coins, Derivable K x) →
      Derivable K (.kemSs l (publicKeyBytes l seed) coins i)
  | reject {l : L} {seed ct : List (Byte A L)} (i : ℕ) : (∀ x ∈ seed, Derivable K x) →
      (∀ x ∈ ct, Derivable K x) → Derivable K (.kemReject l seed ct i)
  | noKey {l : L} {pk coins : List (Byte A L)} (i : ℕ) : (∀ seed, pk ≠ publicKeyBytes l seed) →
      (∀ x ∈ ctBytes l pk coins, Derivable K x) → Derivable K (.kemSs l pk coins i)
  | aeadCt {k n a p : List (Byte A L)} (i : ℕ) : (∀ x ∈ k ++ n ++ a ++ p, Derivable K x) →
      Derivable K (.aeadCt k n a p i)
  | aeadTag {k n a p : List (Byte A L)} (i : ℕ) : (∀ x ∈ k ++ n ++ a ++ p, Derivable K x) →
      Derivable K (.aeadTag k n a p i)
  | decrypt {k n a p : List (Byte A L)} {x : Byte A L} : (∀ x ∈ k, Derivable K x) →
      (∀ x ∈ aeadCtBytes k n a p, Derivable K x) → x ∈ p → Derivable K x

/-- Knowing more derives more. -/
theorem Derivable.mono {K K' : Byte A L → Prop} (hK : ∀ x, K x → K' x) {x : Byte A L}
    (h : Derivable K x) : Derivable K' x := by
  induction h with
  | known h => exact .known (hK _ h)
  | lit b => exact .lit b
  | hash i _ ih => exact .hash i ih
  | hmac i _ _ ihk ihm => exact .hmac i ihk ihm
  | publicKey i _ ih => exact .publicKey i ih
  | encapsCt i _ _ ihk ihc => exact .encapsCt i ihk ihc
  | encapsSs i _ _ ihk ihc => exact .encapsSs i ihk ihc
  | decaps i _ _ ihs ihc => exact .decaps i ihs ihc
  | reject i _ _ ihs ihc => exact .reject i ihs ihc
  | noKey i hpk _ ih => exact .noKey i hpk ih
  | aeadCt i _ ih => exact .aeadCt i ih
  | aeadTag i _ ih => exact .aeadTag i ih
  | decrypt _ _ hx ihk ihc => exact .decrypt ihk ihc hx

/-- An upper bound on what can be derived when the random values `pub` and the MACs `mac` have been
published. -/
inductive Exposed (pub : A → Prop) (mac : List (Byte A L) → List (Byte A L) → Prop) :
    Byte A L → Prop
  | lit (b : UInt8) : Exposed pub mac (.lit b)
  | atom {a : A} (i : ℕ) : pub a → Exposed pub mac (.atom a i)
  | hash (m : List (Byte A L)) (i : ℕ) : Exposed pub mac (.hash m i)
  | hmac {k m : List (Byte A L)} (i : ℕ) : (∀ x ∈ k, Exposed pub mac x) →
      (∀ x ∈ m, Exposed pub mac x) → Exposed pub mac (.hmac k m i)
  | published {k m : List (Byte A L)} (i : ℕ) : mac k m → Exposed pub mac (.hmac k m i)
  | publicKey (l : L) (seed : List (Byte A L)) (i : ℕ) : Exposed pub mac (.publicKey l seed i)
  | kemCt (l : L) (pk coins : List (Byte A L)) (i : ℕ) : Exposed pub mac (.kemCt l pk coins i)
  | coins {l : L} {pk coins : List (Byte A L)} (i : ℕ) : (∀ x ∈ coins, Exposed pub mac x) →
      Exposed pub mac (.kemSs l pk coins i)
  | seed {l : L} {seed coins : List (Byte A L)} (i : ℕ) : (∀ x ∈ seed, Exposed pub mac x) →
      Exposed pub mac (.kemSs l (publicKeyBytes l seed) coins i)
  | noKey {l : L} {pk coins : List (Byte A L)} (i : ℕ) : (∀ seed, pk ≠ publicKeyBytes l seed) →
      Exposed pub mac (.kemSs l pk coins i)
  | reject (l : L) (seed ct : List (Byte A L)) (i : ℕ) : Exposed pub mac (.kemReject l seed ct i)
  | aeadCt {k n a p : List (Byte A L)} (i : ℕ) : (∀ x ∈ p, Exposed pub mac x) →
      Exposed pub mac (.aeadCt k n a p i)
  | aeadTag (k n a p : List (Byte A L)) (i : ℕ) : Exposed pub mac (.aeadTag k n a p i)

section Exposed

variable {pub : A → Prop} {mac : List (Byte A L) → List (Byte A L) → Prop}

/-- Nothing leaves an upper bound that the attacker's knowledge is inside. -/
theorem Derivable.exposed {K : Byte A L → Prop} (hK : ∀ x, K x → Exposed pub mac x)
    {x : Byte A L} (h : Derivable K x) : Exposed pub mac x := by
  induction h with
  | known h => exact hK _ h
  | lit b => exact .lit b
  | hash i _ _ => exact .hash _ i
  | hmac i _ _ ihk ihm => exact .hmac i ihk ihm
  | publicKey i _ _ => exact .publicKey _ _ i
  | encapsCt i _ _ _ _ => exact .kemCt _ _ _ i
  | encapsSs i _ _ _ ihc => exact .coins i ihc
  | decaps i _ _ ihs _ => exact .seed i ihs
  | reject i _ _ _ _ => exact .reject _ _ _ i
  | noKey i hpk _ _ => exact .noKey i hpk
  | aeadCt i _ ih => exact .aeadCt i fun x hx => ih x (List.mem_append_right _ hx)
  | aeadTag i _ _ => exact .aeadTag _ _ _ _ i
  | @decrypt k n a p x _ _ hx _ ihc =>
    have hpos : 0 < p.length := List.length_pos_of_mem hx
    have hmem : Byte.aeadCt k n a p 0 ∈ aeadCtBytes k n a p :=
      List.mem_map.mpr ⟨0, List.mem_range.mpr hpos, rfl⟩
    cases ihc _ hmem with
    | aeadCt _ hp => exact hp x hx

/-- A string is exposed when all its bytes are. -/
def ExposedAll (pub : A → Prop) (mac : List (Byte A L) → List (Byte A L) → Prop)
    (s : List (Byte A L)) : Prop := ∀ x ∈ s, Exposed pub mac x

/-- Bytes after bytes. -/
@[simp]
theorem exposedAll_append {s t : List (Byte A L)} :
    ExposedAll pub mac (s ++ t) ↔ ExposedAll pub mac s ∧ ExposedAll pub mac t :=
  List.forall_mem_append

/-- Bytes that are exposed under one and the same condition. -/
private theorem exposedAll_map_range {n : ℕ} {f : ℕ → Byte A L} {p : Prop} (hn : 0 < n)
    (hf : ∀ i, Exposed pub mac (f i) ↔ p) :
    ExposedAll pub mac ((List.range n).map f) ↔ p := by
  constructor
  · intro h
    exact (hf 0).mp (h _ (List.mem_map.mpr ⟨0, List.mem_range.mpr hn, rfl⟩))
  · intro hp x hx
    obtain ⟨i, -, rfl⟩ := List.mem_map.mp hx
    exact (hf i).mpr hp

/-- A random value is exposed exactly if it is public. -/
theorem exposedAll_atomBytes {n : ℕ} {a : A} (hn : 0 < n) :
    ExposedAll pub mac (atomBytes n a) ↔ pub a := by
  refine exposedAll_map_range hn fun i => ⟨fun h => ?_, .atom i⟩
  cases h with
  | atom _ h => exact h

/-- A MAC is exposed exactly if it was published or can be computed. -/
theorem exposedAll_hmacBytes {k m : List (Byte A L)} :
    ExposedAll pub mac (hmacBytes k m) ↔
      mac k m ∨ ExposedAll pub mac k ∧ ExposedAll pub mac m := by
  refine exposedAll_map_range (by decide) fun i => ⟨fun h => ?_, fun h => ?_⟩
  · cases h with
    | hmac _ hk hm => exact .inr ⟨hk, hm⟩
    | published _ h => exact .inl h
  · rcases h with h | ⟨hk, hm⟩
    · exact .published i h
    · exact .hmac i hk hm

/-- A MAC is exposed as soon as one of its bytes is. -/
theorem Exposed.hmacBytes {k m : List (Byte A L)} {x : Byte A L} (h : Exposed pub mac x)
    (hx : x ∈ hmacBytes k m) : ExposedAll pub mac (hmacBytes k m) := by
  obtain ⟨i, -, rfl⟩ := List.mem_map.mp hx
  rw [exposedAll_hmacBytes]
  cases h with
  | hmac _ hk hm => exact .inr ⟨hk, hm⟩
  | published _ h => exact .inl h

/-- The secret encapsulated to a public key is exposed exactly if the coins or the private key
are. -/
theorem exposedAll_ssBytes {l : L} {seed coins : List (Byte A L)} :
    ExposedAll pub mac (ssBytes l (publicKeyBytes l seed) coins) ↔
      ExposedAll pub mac coins ∨ ExposedAll pub mac seed := by
  refine exposedAll_map_range (by decide) fun i => ⟨fun h => ?_, fun h => ?_⟩
  · generalize hpk : publicKeyBytes l seed = pk at h
    cases h with
    | coins _ h => exact .inl h
    | seed _ h =>
      rw [publicKeyBytes_inj hpk]
      exact .inr h
    | noKey _ h => exact absurd hpk.symm (h seed)
  · rcases h with h | h
    · exact .coins i h
    · exact .seed i h

/-- An encapsulated secret is exposed as soon as one of its bytes is. -/
theorem Exposed.ssBytes {l : L} {pk coins : List (Byte A L)} {x : Byte A L}
    (h : Exposed pub mac x) (hx : x ∈ ssBytes l pk coins) :
    ExposedAll pub mac (ssBytes l pk coins) := by
  obtain ⟨i, -, rfl⟩ := List.mem_map.mp hx
  intro y hy
  obtain ⟨j, -, rfl⟩ := List.mem_map.mp hy
  cases h with
  | coins _ h => exact .coins j h
  | seed _ h => exact .seed j h
  | noKey _ h => exact .noKey j h

/-- Digests are exposed. -/
theorem exposedAll_hashBytes (m : List (Byte A L)) : ExposedAll pub mac (hashBytes m) :=
  (exposedAll_map_range (p := True) (by decide)
    fun i => ⟨fun _ => trivial, fun _ => .hash m i⟩).mpr trivial

/-- So are public keys. -/
theorem exposedAll_publicKeyBytes (l : L) (seed : List (Byte A L)) :
    ExposedAll pub mac (publicKeyBytes l seed) :=
  (exposedAll_map_range (p := True) (KemLengths.publicKey_pos l)
    fun i => ⟨fun _ => trivial, fun _ => .publicKey l seed i⟩).mpr trivial

/-- So are ciphertexts. -/
theorem exposedAll_ctBytes (l : L) (pk coins : List (Byte A L)) :
    ExposedAll pub mac (ctBytes l pk coins) :=
  (exposedAll_map_range (p := True) (KemLengths.ciphertext_pos l)
    fun i => ⟨fun _ => trivial, fun _ => .kemCt l pk coins i⟩).mpr trivial

/-- So is every literal. -/
theorem exposedAll_lits (bytes : List UInt8) :
    ExposedAll (A := A) (L := L) pub mac (bytes.map .lit) := by
  intro x hx
  obtain ⟨b, -, rfl⟩ := List.mem_map.mp hx
  exact .lit b

end Exposed

end Symbolic
