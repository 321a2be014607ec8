import PqcIot.Crypto.Constant
import PqcIot.Protocol.KeySchedule

/-!
# `hkdf_expand` is HKDF-Expand

The loop of `hkdf_expand` runs through the blocks `T(1)`, `T(2)`, … of RFC 5869
(`hkdfExpandLoop_blocks`) until it has enough of them, or until its counter does not fit a byte
(`hkdfExpandLoop_error`). It takes no more than 256 turns (`hkdfExpandTurns_eq`).
-/

namespace PqcIot

variable {β : Type} (P : Prims β) (prk info : List β)

/-! ## The blocks -/

namespace Prims

/-- `T(1) ‖ … ‖ T(n)`. -/
def hkdfBlocks (n : ℕ) : List β := (List.range n).flatMap fun i => P.hkdfBlock prk info (i + 1)

theorem hkdfBlocks_succ (n : ℕ) :
    P.hkdfBlocks prk info (n + 1) = P.hkdfBlocks prk info n ++ P.hkdfBlock prk info (n + 1) := by
  rw [hkdfBlocks, List.range_succ, List.flatMap_append, List.flatMap_singleton, hkdfBlocks]

@[simp]
theorem length_hkdfBlocks (n : ℕ) : (P.hkdfBlocks prk info n).length = 32 * n := by
  induction n with
  | zero => rfl
  | succ n ih =>
    have hblock : (P.hkdfBlock prk info (n + 1)).length = 32 := P.length_hmac _ _
    rw [hkdfBlocks_succ, List.length_append, ih, hblock, Nat.mul_succ]

/-- More blocks begin with the same ones. -/
theorem hkdfBlocks_prefix {n k : ℕ} (h : n ≤ k) :
    P.hkdfBlocks prk info n <+: P.hkdfBlocks prk info k := by
  induction k, h using Nat.le_induction with
  | base => exact List.prefix_refl _
  | succ k _ ih =>
    rw [hkdfBlocks_succ]
    exact ih.trans (List.prefix_append _ _)

/-- HKDF-Expand is the beginning of any number of blocks that is enough. -/
theorem hkdfExpand_eq_take {n len : ℕ} (h : len ≤ 32 * n) :
    P.hkdfExpand prk info len = (P.hkdfBlocks prk info n).take len := by
  have hn : (len + 31) / 32 ≤ n := by omega
  obtain ⟨rest, hrest⟩ := P.hkdfBlocks_prefix prk info hn
  have hlen : len ≤ (P.hkdfBlocks prk info ((len + 31) / 32)).length := by
    rw [length_hkdfBlocks]
    omega
  calc P.hkdfExpand prk info len
      = (P.hkdfBlocks prk info ((len + 31) / 32)).take len := rfl
    _ = (P.hkdfBlocks prk info ((len + 31) / 32) ++ rest).take len :=
        (List.take_append_of_le_length hlen).symm
    _ = (P.hkdfBlocks prk info n).take len := by rw [hrest]

@[simp]
theorem length_hkdfExpand (len : ℕ) : (P.hkdfExpand prk info len).length = len := by
  rw [P.hkdfExpand_eq_take prk info (n := len) (by omega), List.length_take, length_hkdfBlocks]
  omega

/-- A shorter output is the beginning of a longer one. -/
theorem hkdfExpand_prefix {len len' : ℕ} (h : len ≤ len') :
    P.hkdfExpand prk info len <+: P.hkdfExpand prk info len' := by
  rw [P.hkdfExpand_eq_take prk info (n := len') (by omega),
    P.hkdfExpand_eq_take prk info (n := len') (by omega)]
  exact List.take_prefix_take_left h

end Prims

namespace Protocol

/-! ## The loop -/

section Loop

variable {length i : ℕ}

/-- A turn of the loop appends the next block. -/
theorem hkdfExpandLoop_turn (hlength : 32 * i < length) (hi : i < 255) :
    hkdfExpandLoop P prk info length (P.hkdfBlocks prk info i) (P.hkdfBlock prk info i) (i + 1) =
      hkdfExpandLoop P prk info length (P.hkdfBlocks prk info (i + 1))
        (P.hkdfBlock prk info (i + 1))
        (i + 2) := by
  have hcond : (P.hkdfBlocks prk info i).length < length := by rwa [P.length_hkdfBlocks]
  rw [hkdfExpandLoop, if_pos hcond, if_pos (by omega), P.hkdfBlocks_succ]
  rfl

/-- Within 255 blocks, the loop ends with the blocks that are needed. -/
theorem hkdfExpandLoop_blocks {n : ℕ} (hn : n ≤ 255) (hlength : length ≤ 32 * n)
    (hneeded : ∀ k < n, 32 * k < length) (hi : i ≤ n) :
    hkdfExpandLoop P prk info length (P.hkdfBlocks prk info i) (P.hkdfBlock prk info i) (i + 1) =
      .ok (P.hkdfBlocks prk info n) := by
  -- The invariant is the argument of the loop: `i` blocks, the last one of them, and `i + 1`.
  induction hi using Nat.decreasingInduction with
  | self =>
    have hcond : ¬ (P.hkdfBlocks prk info n).length < length := by
      rw [P.length_hkdfBlocks]
      omega
    rw [hkdfExpandLoop, if_neg hcond]
  | of_succ k hk ih =>
    rw [hkdfExpandLoop_turn P prk info (hneeded k hk) (by omega)]
    exact ih

/-- Where 255 blocks do not suffice, the loop raises. -/
theorem hkdfExpandLoop_error (hlength : 255 * 32 < length) (hi : i ≤ 255) :
    hkdfExpandLoop P prk info length (P.hkdfBlocks prk info i) (P.hkdfBlock prk info i) (i + 1) =
      .error .valueError := by
  induction hi using Nat.decreasingInduction with
  | self =>
    have hcond : (P.hkdfBlocks prk info 255).length < length := by
      rw [P.length_hkdfBlocks]
      omega
    -- `bytes([256])`
    rw [hkdfExpandLoop, if_pos hcond, if_neg (by omega)]
  | of_succ k hk ih =>
    rw [hkdfExpandLoop_turn P prk info (by omega) hk]
    exact ih

end Loop

/-! ## Turns -/

/-- The loop of `hkdf_expand` for at most so many turns; `none` if it goes on. -/
def hkdfExpandTurns (length : ℕ) : ℕ → List β → List β → ℕ → Option (Except PyExn (List β))
  | 0, out, _, _ => if out.length < length then none else some (.ok out)
  | turns + 1, out, block, counter =>
    if out.length < length then
      if counter < 256 then
        let block := P.hmac prk (block ++ info ++ [P.lit (UInt8.ofNat counter)])
        hkdfExpandTurns length turns (out ++ block) block (counter + 1)
      else
        some (.error .valueError)
    else
      some (.ok out)

/-- The counter ends the loop, at the latest. -/
theorem hkdfExpandTurns_eq (length turns : ℕ) (out block : List β) (counter : ℕ)
    (h : 257 ≤ counter + turns) (hturns : 0 < turns) :
    hkdfExpandTurns P prk info length turns out block counter =
      some (hkdfExpandLoop P prk info length out block counter) := by
  induction turns generalizing out block counter with
  | zero => cases hturns
  | succ turns ih =>
    rw [hkdfExpandTurns, hkdfExpandLoop]
    split_ifs with hlength hcounter
    · exact ih _ _ _ (by omega) (by omega)
    · rfl
    · rfl

/-! ## The function -/

theorem hkdfExpand_of_le {length : ℕ} (h : length ≤ 255 * 32) :
    hkdfExpand P prk info length = .ok (P.hkdfExpand prk info length) := by
  have hneeded : ∀ k < (length + 31) / 32, 32 * k < length := fun k hk => by omega
  have hstart : hkdfExpandLoop P prk info length [] [] 1 =
      .ok (P.hkdfBlocks prk info ((length + 31) / 32)) :=
    hkdfExpandLoop_blocks P prk info (by omega) (by omega) hneeded (Nat.zero_le _)
  rw [hkdfExpand, hstart]
  rfl

theorem hkdfExpand_of_lt {length : ℕ} (h : 255 * 32 < length) :
    hkdfExpand P prk info length = .error .valueError := by
  have hloop := hkdfExpandLoop_error P prk info (i := 0) h (by omega)
  have hstart : hkdfExpandLoop P prk info length [] [] 1 = .error .valueError := hloop
  rw [hkdfExpand, hstart]
  rfl

/-- Up to 255 blocks, `hkdf_expand` returns the output of HKDF-Expand, of which every shorter output
is the beginning. For more it raises, and it always ends. -/
theorem hkdfExpand_rfc5869 (length : ℕ) :
    (length ≤ 255 * 32 →
      hkdfExpand P prk info length = .ok (P.hkdfExpand prk info length) ∧
      (P.hkdfExpand prk info length).length = length ∧
      P.hkdfExpand prk info length = ((List.range 255).flatMap fun i =>
        P.hkdfBlock prk info (i + 1)).take length ∧
      ∀ shorter ≤ length, ∃ out out', hkdfExpand P prk info shorter = .ok out ∧
        hkdfExpand P prk info length = .ok out' ∧ out <+: out') ∧
    (255 * 32 < length → hkdfExpand P prk info length = .error .valueError) ∧
    hkdfExpandTurns P prk info length 256 [] [] 1 =
      some (hkdfExpandLoop P prk info length [] [] 1) := by
  refine ⟨fun h => ⟨hkdfExpand_of_le P prk info h, P.length_hkdfExpand prk info length, ?_, ?_⟩,
    hkdfExpand_of_lt P prk info,
      hkdfExpandTurns_eq P prk info length 256 [] [] 1 (by omega) (by omega)⟩
  · exact P.hkdfExpand_eq_take prk info (by omega)
  · intro shorter hle
    exact ⟨_, _, hkdfExpand_of_le P prk info (hle.trans h), hkdfExpand_of_le P prk info h,
      P.hkdfExpand_prefix prk info hle⟩

/-- A length of a block and a half. -/
theorem hkdfExpand_rfc5869_48 :
    48 ≤ 255 * 32 ∧ 255 * 32 < 8161 ∧
      hkdfExpand zeroPrims [1] [2] 48 = .ok (zeroPrims.hkdfExpand [1] [2] 48) ∧
      hkdfExpand zeroPrims [1] [2] 8161 = .error .valueError :=
  ⟨by decide, by decide, ((hkdfExpand_rfc5869 zeroPrims [1] [2] 48).1 (by decide)).1,
    (hkdfExpand_rfc5869 zeroPrims [1] [2] 8161).2.1 (by decide)⟩

end Protocol

end PqcIot
