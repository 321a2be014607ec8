import PqcIot.Effects.Bytes

/-!
# Byte arrays of fixed size

A memory made of named byte arrays, each with its size carried along. A range of an array is read
by `Mem.load` and replaced by `Mem.store`, which asks for a proof that the range is inside the
array. `Mem.Holds m b xs` says that an array begins with `xs`: an array that is filled from the
front, piece by piece, holds the pieces written so far (`Mem.Holds.store`) and reads back as them
(`Mem.Holds.load`), whatever it held before. `Mem.Kept bs m m'` says that only the arrays `bs` have
changed, and `Mem.Agree k m m'` that two memories have the same first bytes, as many as `k` says of
each array: what is read of them does not depend on anything else.
-/

namespace Effects

variable {β B : Type} {size : B → ℕ}

/-- Byte arrays named by `B`, of sizes `size`. -/
structure Mem (β : Type) {B : Type} (size : B → ℕ) where
  /-- The contents of an array. -/
  bytes : B → List β
  length_bytes : ∀ b, (bytes b).length = size b

namespace Mem

/-- The range of `len` bytes of an array from `off` on. -/
def load (m : Mem β size) (b : B) (off len : ℕ) : List β := slice off len (m.bytes b)

/-- Replace the bytes of an array from `off` on by `data`. -/
def store [DecidableEq B] (m : Mem β size) (b : B) (off : ℕ) (data : List β)
    (h : off + data.length ≤ size b) : Mem β size where
  bytes := Function.update m.bytes b
    ((m.bytes b).take off ++ data ++ (m.bytes b).drop (off + data.length))
  length_bytes b' := by
    by_cases hb : b' = b
    · subst hb
      have := m.length_bytes b'
      simp only [Function.update_self, List.length_append, List.length_take, List.length_drop]
      omega
    · rw [Function.update_of_ne hb]
      exact m.length_bytes b'

/-- The array `b` begins with `xs`. -/
def Holds (m : Mem β size) (b : B) (xs : List β) : Prop := xs <+: m.bytes b

variable {m : Mem β size} {b : B} {off : ℕ} {xs data : List β}

theorem holds_nil (m : Mem β size) (b : B) : m.Holds b [] := List.nil_prefix

/-- A range of the known bytes reads back. -/
theorem Holds.load {len : ℕ} (hm : m.Holds b xs) (hlen : off + len ≤ xs.length) :
    m.load b off len = slice off len xs := by
  obtain ⟨ys, hys⟩ := hm
  rw [Mem.load, ← hys, slice, slice, List.drop_append_of_le_length (by omega),
    List.take_append_of_le_length]
  rw [List.length_drop]
  omega

variable [DecidableEq B]

/-- Writing where the known bytes end extends them. -/
theorem Holds.store (hm : m.Holds b xs) (hoff : xs.length = off)
    (h : off + data.length ≤ size b) : (m.store b off data h).Holds b (xs ++ data) := by
  have htake : (m.bytes b).take off = xs := by
    rw [← hoff]
    exact (List.prefix_iff_eq_take.mp hm).symm
  rw [Holds, Mem.store]
  simp only [Function.update_self, htake]
  exact List.prefix_append _ _

/-- Writing the whole array determines it. -/
theorem bytes_store_all (m : Mem β size) (hall : data.length = size b)
    (h : 0 + data.length ≤ size b) : (m.store b 0 data h).bytes b = data := by
  have hdrop : (m.bytes b).drop (0 + data.length) = [] := by
    rw [List.drop_eq_nil_iff, m.length_bytes]
    omega
  rw [Mem.store]
  simp only [Function.update_self, List.take_zero, List.nil_append, hdrop, List.append_nil]

/-- `Kept bs m m'`: from `m` to `m'` only the arrays `bs` may have changed. -/
def Kept (bs : List B) (m m' : Mem β size) : Prop := ∀ b ∉ bs, m'.bytes b = m.bytes b

omit [DecidableEq B] in
theorem kept_refl (bs : List B) (m : Mem β size) : Kept bs m m := fun _ _ => rfl

omit [DecidableEq B] in
theorem Kept.trans {bs : List B} {m' m'' : Mem β size} (h : Kept bs m m') (h' : Kept bs m' m'') :
    Kept bs m m'' := fun b hb => (h' b hb).trans (h b hb)

omit [DecidableEq B] in
theorem Kept.mono {bs cs : List B} {m' : Mem β size} (h : Kept bs m m') (hsub : bs ⊆ cs) :
    Kept cs m m' := fun b hb => h b fun hmem => hb (hsub hmem)

theorem Kept.store {bs : List B} {m' : Mem β size} (hm : Kept bs m m') (hb : b ∈ bs)
    (h : off + data.length ≤ size b) : Kept bs m (m'.store b off data h) := by
  intro b' hb'
  have hne : b' ≠ b := fun heq => hb' (heq ▸ hb)
  rw [← hm b' hb']
  exact Function.update_of_ne hne _ _

omit [DecidableEq B] in
/-- An array that was not changed holds what it held. -/
theorem Kept.holds {bs : List B} {m' : Mem β size} (hm : Kept bs m m') (hb : b ∉ bs)
    (h : m.Holds b xs) : m'.Holds b xs := by
  rw [Holds, hm b hb]
  exact h

/-! ## Two memories -/

/-- The memories agree on the first `k b` bytes of every array `b`. -/
def Agree (k : B → ℕ) (m m' : Mem β size) : Prop :=
  ∀ b, (m.bytes b).take (k b) = (m'.bytes b).take (k b)

omit [DecidableEq B] in
theorem agree_zero (m m' : Mem β size) : Agree 0 m m' := fun _ => by
  rw [Pi.zero_apply, List.take_zero, List.take_zero]

omit [DecidableEq B] in
/-- What is read from the bytes they agree on is the same. -/
theorem Agree.load {k : B → ℕ} {m' : Mem β size} {len : ℕ} (h : Agree k m m')
    (hlen : off + len ≤ k b) : m.load b off len = m'.load b off len := by
  have htake : ∀ l : List β, slice off len l = slice off len (l.take (k b)) := fun l => by
    rw [slice, slice, List.drop_take, List.take_take, min_eq_left (by omega)]
  rw [Mem.load, Mem.load, htake, h b, ← htake]

/-- The first bytes of an array after a write. -/
private theorem take_splice {xs : List β} {k : ℕ} (hxs : off + data.length ≤ xs.length) :
    (xs.take off ++ data ++ xs.drop (off + data.length)).take (max k (off + data.length)) =
      xs.take off ++ data ++ (xs.take k).drop (off + data.length) := by
  have hlen : (xs.take off ++ data).length = off + data.length := by
    rw [List.length_append, List.length_take, min_eq_left (by omega)]
  rw [List.take_append, hlen, List.take_of_length_le (by omega), List.drop_take]
  congr 2
  omega

/-- Writing the same bytes where the agreement ends extends it. -/
theorem Agree.store {k : B → ℕ} {m' : Mem β size} (h : Agree k m m') (hoff : off ≤ k b)
    (hfit : off + data.length ≤ size b) :
    Agree (Function.update k b (max (k b) (off + data.length))) (m.store b off data hfit)
      (m'.store b off data hfit) := by
  intro b'
  by_cases hb : b' = b
  · subst hb
    have htake : (m.bytes b').take off = (m'.bytes b').take off := by
      have := congrArg (List.take off) (h b')
      rwa [List.take_take, List.take_take, min_eq_left hoff] at this
    simp only [Mem.store, Function.update_self]
    rw [take_splice ((m.length_bytes b').symm ▸ hfit),
      take_splice ((m'.length_bytes b').symm ▸ hfit), htake, h b']
  · simp only [Mem.store, Function.update_of_ne hb]
    exact h b'

end Mem

end Effects
