import PqcIot.Effects.Duplex

/-!
# Transfer loops

The two loops every stream protocol is written with: send a whole buffer (`sendLoop`), receive
exactly `len` bytes (`recvLoop`). Each comes with what any run of it moves (`sendLoop_run`,
`recvLoop_run`) and with its part of a script (`follows_sendLoop`, `follows_recvLoop`). Both end
because a call that succeeds moves at least one byte.
-/

namespace Effects

variable {β α : Type} {E : Signature}

/-- Send all of `buf`; `false` when a call fails. -/
def sendLoop (buf : List β) : Prog ((sockSig β).sum E) Bool :=
  if _ : buf = [] then
    .ret true
  else
    .op (.inl (.send buf)) fun
      | none => .ret false
      | some n => sendLoop (buf.drop n)
termination_by buf.length
decreasing_by
  rw [List.length_drop]
  have := n.2
  omega

/-- Why receiving stopped early, with what had arrived. -/
inductive RecvFailure (β : Type) (len : ℕ) where
  | error (got : { l : List β // l.length ≤ len })
  | closed (got : { l : List β // l.length ≤ len })

/-- What had arrived. -/
def RecvFailure.got {len : ℕ} : RecvFailure β len → { l : List β // l.length ≤ len }
  | .error got => got
  | .closed got => got

/-- Receive until `len` bytes are there; `got` is what has arrived. -/
def recvLoop (len : ℕ) (got : { l : List β // l.length ≤ len }) :
    Prog ((sockSig β).sum E) (Except (RecvFailure β len) { l : List β // l.length = len }) :=
  if h : got.1.length < len then
    .op (.inl (.recv (len - got.1.length))) fun
      | .error => .ret (.error (.error got))
      | .closed => .ret (.error (.closed got))
      | .chunk bytes _ _ => recvLoop len ⟨got.1 ++ bytes, by
          rw [List.length_append]
          omega⟩
  else
    .ret (.ok ⟨got.1, Nat.le_antisymm got.2 (Nat.not_lt.mp h)⟩)
termination_by len - got.1.length
decreasing_by
  rename_i hbytes _
  have := List.length_pos_iff.mpr hbytes
  rw [List.length_append]
  omega

/-! ## Runs -/

/-- A run of `sendLoop` sends a prefix of the buffer, all of it if it returns `true`, and returns
`false` only when a call has failed. -/
theorem sendLoop_run (buf : List β) {tr : List (Event ((sockSig β).sum E))}
    {r : Prog ((sockSig β).sum E) Bool} (h : Prog.Run (sendLoop buf) tr r) :
    receivedBytes tr = [] ∧ internalEvents tr = [] ∧ sentBytes tr <+: buf ∧
      (r = .ret true → sentBytes tr = buf) ∧ (r = .ret false → SendFailed tr) := by
  induction buf using sendLoop.induct generalizing tr with
  | case1 =>
    rw [sendLoop, dif_pos rfl] at h
    obtain ⟨rfl, rfl⟩ := h.of_ret
    exact ⟨rfl, rfl, List.prefix_rfl, fun _ => rfl, fun h => by cases h⟩
  | case2 buf hbuf ih =>
    rw [sendLoop, dif_neg hbuf] at h
    cases h with
    | nil => exact ⟨rfl, rfl, List.nil_prefix, fun h => (by cases h), fun h => by cases h⟩
    | @cons _ _ a log _ h =>
      match a, h with
      | none, h =>
        obtain ⟨rfl, rfl⟩ := h.of_ret
        exact ⟨rfl, rfl, List.nil_prefix, fun h => (by cases h), fun _ => ⟨buf, List.mem_cons_self⟩⟩
      | some n, h =>
        obtain ⟨hrecv, hint, hpre, hall, hfailed⟩ := ih n h
        -- `n` bytes have gone out; the loop goes on with the others.
        have hsent : sentBytes (⟨.inl (.send buf), some n⟩ :: log) =
            buf.take n ++ sentBytes log := rfl
        refine ⟨hrecv, hint, ?_, fun hr => ?_,
          fun hr => (hfailed hr).mono (List.subset_cons_self _ _)⟩
        · rw [hsent]
          calc buf.take n ++ sentBytes log
              <+: buf.take n ++ buf.drop n := (List.prefix_append_right_inj _).mpr hpre
            _ = buf := List.take_append_drop _ _
        · rw [hsent, hall hr, List.take_append_drop]

/-- A run of `recvLoop` sends nothing, and returns what had arrived followed by what it received. -/
theorem recvLoop_run (len : ℕ) (got : { l : List β // l.length ≤ len })
    {tr : List (Event ((sockSig β).sum E))}
    {r : Prog ((sockSig β).sum E) (Except (RecvFailure β len) { l : List β // l.length = len })}
    (h : Prog.Run (recvLoop len got) tr r) :
    sentBytes tr = [] ∧ internalEvents tr = [] ∧
      ∀ l, r = .ret (.ok l) → l.1 = got.1 ++ receivedBytes tr := by
  induction got using recvLoop.induct generalizing tr with
  | case1 got hlt ih =>
    rw [recvLoop, dif_pos hlt] at h
    -- The run stops before `recv`, or `recv` has answered.
    cases h with
    | nil => exact ⟨rfl, rfl, fun _ h => by cases h⟩
    | @cons _ _ a log _ h =>
      match a, h with
      | .error, h =>
        obtain ⟨rfl, rfl⟩ := h.of_ret
        exact ⟨rfl, rfl, fun _ h => by cases h⟩
      | .closed, h =>
        obtain ⟨rfl, rfl⟩ := h.of_ret
        exact ⟨rfl, rfl, fun _ h => by cases h⟩
      | .chunk bytes hne hle, h =>
        obtain ⟨hsent, hint, hok⟩ := ih bytes hne hle h
        refine ⟨hsent, hint, fun l hl => ?_⟩
        rw [hok l hl, List.append_assoc]
        rfl
  | case2 got hlt =>
    rw [recvLoop, dif_neg hlt] at h
    obtain ⟨rfl, rfl⟩ := h.of_ret
    refine ⟨rfl, rfl, fun l hl => ?_⟩
    cases hl
    simp

/-! ## Scripts -/

section Scripts

variable {f : ℕ → (o : E.Op) → Option (E.Ans o)} {n : ℕ} {s : List (Item β)} {a : Option α}

/-- `sendLoop` sends its buffer. -/
theorem follows_sendLoop {k : Bool → Prog ((sockSig β).sum E) α} (buf : List β)
    (hk : Follows (Prog.resolve f n (k true)) s a) :
    Follows (Prog.resolve f n (sendLoop buf >>= k)) (buf.map .send ++ s) a := by
  induction buf using sendLoop.induct with
  | case1 =>
    rw [sendLoop, dif_pos rfl]
    exact hk
  | case2 buf hbuf ih =>
    rw [sendLoop, dif_neg hbuf]
    exact .send hbuf ih

/-- `recvLoop` receives what is missing. -/
theorem follows_recvLoop {len : ℕ}
    {k : Except (RecvFailure β len) { l : List β // l.length = len } →
      Prog ((sockSig β).sum E) α} (got : { l : List β // l.length ≤ len }) (missing : List β)
    (hlen : (got.1 ++ missing).length = len)
    (hk : Follows (Prog.resolve f n (k (.ok ⟨got.1 ++ missing, hlen⟩))) s a) :
    Follows (Prog.resolve f n (recvLoop len got >>= k)) (missing.map .recv ++ s) a := by
  induction got using recvLoop.induct generalizing missing with
  | case1 got hlt ih =>
    have hmissing : len - got.1.length = missing.length := by
      rw [List.length_append] at hlen
      omega
    have hne : missing ≠ [] := by
      rintro rfl
      rw [List.append_nil] at hlen
      omega
    rw [recvLoop, dif_pos hlt]
    -- Any chunk of what is missing may arrive; the rest is left to the loop.
    refine .recv_of_eq hmissing hne fun bytes rest hbytes hle hsplit => ?_
    subst hsplit
    refine ih bytes hbytes hle rest (by simpa using hlen) ?_
    simpa only [List.append_assoc] using hk
  | case2 got hlt =>
    have hmissing : missing = [] := by
      rw [List.length_append] at hlen
      exact List.length_eq_zero_iff.mp (by omega)
    subst hmissing
    rw [recvLoop, dif_neg hlt]
    simpa using hk

end Scripts

end Effects
