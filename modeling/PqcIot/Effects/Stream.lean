import PqcIot.Effects.Transfer

/-!
# Programs fed by a byte stream

A program that reads a given stream of bytes and writes another one, over a transport that splits
both as it likes but does not fail: a `recv` delivers any non-empty part of what was asked for,
reports the end of the stream once everything was delivered, and a `send` takes any non-empty part.

* `Carries s tr rest`: in the trace `tr` the transport has delivered the stream `s` up to `rest`;
* `Transacts n p s a rest out`: fed with `s`, split in any way, `p` returns `a` after at most `n`
  calls, has sent `out` and left `rest`; its rules compute along the text of a program;
* `Completes p s a rest out`: the same, said of the runs of `p` (`Transacts.completes`).
-/

namespace Effects

variable {β α γ : Type} {E : Signature}

/-- A trace over a transport that does not fail, on the stream `s` of incoming bytes, of which
`rest` has not been delivered yet. -/
inductive Carries : List β → List (Event ((sockSig β).sum E)) → List β → Prop
  | nil (s : List β) : Carries s [] s
  | chunk {n : ℕ} {got s rest : List β} {tr : List (Event ((sockSig β).sum E))} (hne : got ≠ [])
      (hle : got.length ≤ n) : Carries s tr rest →
      Carries (got ++ s) (⟨.inl (.recv n), .chunk got hne hle⟩ :: tr) rest
  | closed {n : ℕ} {rest : List β} {tr : List (Event ((sockSig β).sum E))} : Carries [] tr rest →
      Carries [] (⟨.inl (.recv n), .closed⟩ :: tr) rest
  | taken {buf s rest : List β} {tr : List (Event ((sockSig β).sum E))}
      (n : { n : ℕ // 0 < n ∧ n ≤ buf.length }) : Carries s tr rest →
      Carries s (⟨.inl (.send buf), some n⟩ :: tr) rest

theorem Carries.trans {s rest rest' : List β} {l₁ l₂ : List (Event ((sockSig β).sum E))}
    (h₁ : Carries s l₁ rest) (h₂ : Carries rest l₂ rest') : Carries s (l₁ ++ l₂) rest' := by
  induction h₁ with
  | nil => exact h₂
  | chunk hne hle _ ih => exact .chunk hne hle (ih h₂)
  | closed _ ih => exact .closed (ih h₂)
  | taken n _ ih => exact .taken n (ih h₂)

/-- Fed with `s`, split in any way, `p` returns `a` after at most `n` calls, has sent `out` and left
`rest`. -/
inductive Transacts : ℕ → Prog ((sockSig β).sum E) α → List β → α → List β → List β → Prop
  | ret (n : ℕ) (a : α) (s : List β) : Transacts n (.ret a) s a s []
  | recv {n m : ℕ} {k : SockOp.Ans (β := β) (.recv m) → Prog ((sockSig β).sum E) α}
      {s rest out : List β} {a : α} (hm : 0 < m)
      (hchunk : ∀ got s' (hne : got ≠ []) (hle : got.length ≤ m), s = got ++ s' →
        Transacts n (k (.chunk got hne hle)) s' a rest out)
      (hclosed : s = [] → Transacts n (k .closed) [] a rest out) :
      Transacts (n + 1) (.op (.inl (.recv m)) k) s a rest out
  | send {n : ℕ} {buf : List β} {k : SockOp.Ans (.send buf) → Prog ((sockSig β).sum E) α}
      {s rest out : List β} {a : α} (hbuf : buf ≠ [])
      (hk : ∀ m, Transacts n (k (some m)) s a rest (buf.drop m ++ out)) :
      Transacts (n + 1) (.op (.inl (.send buf)) k) s a rest (buf ++ out)

/-- However the transport splits the bytes, a run of `p` on `s` is finite, can go on until `p` has
returned, and then `p` has returned `a`, sent `out` and left `rest`. -/
def Completes (p : Prog ((sockSig β).sum E) α) (s : List β) (a : α) (rest out : List β) : Prop :=
  ∃ n, ∀ tr q rest', Prog.Run p tr q → Carries s tr rest' → tr.length ≤ n ∧
    ((q = .ret a ∧ rest' = rest ∧ sentBytes tr = out) ∨
      ∃ o k, q = .op o k ∧ ∃ x rest'', Carries s (tr ++ [⟨o, x⟩]) rest'')

section Rules

variable {p : Prog ((sockSig β).sum E) α} {f : α → Prog ((sockSig β).sum E) γ}
  {s rest rest' out out' : List β} {a : α} {b : γ} {n m : ℕ}

theorem Transacts.mono (h : Transacts n p s a rest out) (hle : n ≤ m) :
    Transacts m p s a rest out := by
  induction h generalizing m with
  | ret n a s => exact .ret m a s
  | recv hpos _ _ ihchunk ihclosed =>
    obtain ⟨m, rfl⟩ : ∃ m', m = m' + 1 := ⟨m - 1, by omega⟩
    exact .recv hpos (fun got s' hne hle' hs => ihchunk got s' hne hle' hs (by omega))
      fun hs => ihclosed hs (by omega)
  | send hbuf _ ih =>
    obtain ⟨m, rfl⟩ : ∃ m', m = m' + 1 := ⟨m - 1, by omega⟩
    exact .send hbuf fun m' => ih m' (by omega)

/-- The rule for `send`, with the output up to an equation. -/
theorem Transacts.send_of_eq {buf whole : List β}
    {k : SockOp.Ans (.send buf) → Prog ((sockSig β).sum E) α} (hwhole : whole = buf ++ out)
    (hbuf : buf ≠ []) (hk : ∀ m, Transacts n (k (some m)) s a rest (buf.drop m ++ out)) :
    Transacts (n + 1) (.op (.inl (.send buf)) k) s a rest whole := by
  subst hwhole
  exact .send hbuf hk

/-- Sequencing: the calls add up and the output is appended. -/
theorem Transacts.bind (hp : Transacts n p s a rest out)
    (hf : Transacts m (f a) rest b rest' out') :
    Transacts (n + m) (p >>= f) s b rest' (out ++ out') := by
  induction hp with
  | ret n a s => exact hf.mono (by omega)
  | @recv n _ _ _ _ _ _ hpos _ _ ihchunk ihclosed =>
    rw [Nat.add_right_comm]
    exact .recv hpos (fun got s' hne hle hs => ihchunk got s' hne hle hs hf)
      fun hs => ihclosed hs hf
  | @send n _ _ _ _ _ _ hbuf _ ih =>
    rw [Nat.add_right_comm, List.append_assoc]
    refine .send hbuf fun m' => ?_
    rw [← List.append_assoc]
    exact ih m' hf

/-- Sequencing after a part that sends nothing. -/
theorem Transacts.bind_silent {l : ℕ} (hp : Transacts n p s a rest [])
    (hf : Transacts m (f a) rest b rest' out') (hl : n + m ≤ l) :
    Transacts l (p >>= f) s b rest' out' := (hp.bind hf).mono hl

/-- Sequencing before a part that performs no call. -/
theorem Transacts.bind_ret (hp : Transacts n p s a rest out) (hf : f a = .ret b) :
    Transacts n (p >>= f) s b rest out := by
  have hret : Transacts 0 (f a) rest b rest [] := hf ▸ .ret 0 b rest
  have h := hp.bind hret
  rwa [List.append_nil] at h

end Rules

section Adequacy

variable {p q : Prog ((sockSig β).sum E) α} {s rest rest' out : List β} {a : α} {n : ℕ}
  {tr : List (Event ((sockSig β).sum E))}

/-- What is left to do after a part of a run. -/
theorem Transacts.of_run (h : Transacts n p s a rest out) (hrun : Prog.Run p tr q)
    (hs : Carries s tr rest') :
    ∃ m out', m + tr.length ≤ n ∧ Transacts m q rest' a rest out' ∧ sentBytes tr ++ out' = out := by
  induction hrun generalizing n s out with
  | nil p =>
    cases hs
    exact ⟨n, out, by simp, h, rfl⟩
  | cons hrun ih =>
    cases hs with
    | chunk hne hle hs =>
      cases h with
      | recv _ hchunk _ =>
        obtain ⟨m, out', hm, hq, hout⟩ := ih (hchunk _ _ hne hle rfl) hs
        exact ⟨m, out', by rw [List.length_cons]; omega, hq, hout⟩
    | closed hs =>
      cases h with
      | recv _ _ hclosed =>
        obtain ⟨m, out', hm, hq, hout⟩ := ih (hclosed rfl) hs
        exact ⟨m, out', by rw [List.length_cons]; omega, hq, hout⟩
    | @taken buf _ _ _ k hs =>
      cases h with
      | @send _ _ _ _ _ tail _ _ hk =>
        obtain ⟨m, out', hm, hq, hout⟩ := ih (hk k) hs
        refine ⟨m, out', by rw [List.length_cons]; omega, hq, ?_⟩
        -- What this call has taken, and what the rest of the run sends.
        have htaken : Event.sent (⟨.inl (.send buf), some k⟩ : Event ((sockSig β).sum E)) =
            buf.take k := rfl
        rw [sentBytes_cons, htaken, List.append_assoc, hout, ← List.append_assoc,
          List.take_append_drop]

/-- A program that has not returned performs a call that the transport can answer. -/
theorem Transacts.exists_answer {o : ((sockSig β).sum E).Op}
    {k : ((sockSig β).sum E).Ans o → Prog ((sockSig β).sum E) α}
    (h : Transacts n (.op o k) s a rest out) :
    ∃ x rest', Carries s [(⟨o, x⟩ : Event ((sockSig β).sum E))] rest' := by
  cases h with
  | @recv _ m _ _ _ _ _ hm _ _ =>
    cases s with
    | nil => exact ⟨.closed, [], .closed (.nil [])⟩
    | cons b s =>
      have hne : [b] ≠ [] := List.cons_ne_nil _ _
      exact ⟨.chunk [b] hne hm, s, .chunk hne hm (.nil s)⟩
  | @send _ buf _ _ _ _ _ hbuf _ =>
    have hlen : 0 < buf.length := List.length_pos_iff.mpr hbuf
    exact ⟨some ⟨buf.length, hlen, Nat.le_refl _⟩, s, .taken _ (.nil s)⟩

/-- The rules are about the runs of a program. -/
theorem Transacts.completes (h : Transacts n p s a rest out) : Completes p s a rest out := by
  refine ⟨n, fun tr q rest' hrun hs => ?_⟩
  obtain ⟨m, out', hm, hq, hout⟩ := h.of_run hrun hs
  refine ⟨by omega, ?_⟩
  cases q with
  | ret b =>
    cases hq
    exact .inl ⟨rfl, rfl, by simpa using hout⟩
  | op o k =>
    obtain ⟨x, rest'', hx⟩ := hq.exists_answer
    exact .inr ⟨o, k, rfl, x, rest'', hs.trans hx⟩

end Adequacy

/-! ## Transfer loops -/

section Loops

variable {s rest : List β}

/-- `sendLoop` sends its buffer. -/
theorem transacts_sendLoop (buf s : List β) :
    Transacts buf.length (sendLoop (E := E) buf) s true s buf := by
  induction buf using sendLoop.induct with
  | case1 =>
    rw [sendLoop, dif_pos rfl]
    exact .ret _ _ _
  | case2 buf hbuf ih =>
    have hlen : 0 < buf.length := List.length_pos_iff.mpr hbuf
    rw [sendLoop, dif_neg hbuf]
    refine Transacts.mono (n := buf.length - 1 + 1) ?_ (by omega)
    refine .send_of_eq (List.append_nil buf).symm hbuf fun m => ?_
    rw [List.append_nil]
    refine (ih m).mono ?_
    rw [List.length_drop]
    omega

/-- `recvLoop` receives what is missing if it is there. -/
theorem transacts_recvLoop {len : ℕ} (got : { l : List β // l.length ≤ len }) (missing : List β)
    (hlen : (got.1 ++ missing).length = len) :
    Transacts (len - got.1.length) (recvLoop (E := E) len got) (missing ++ rest)
      (.ok ⟨got.1 ++ missing, hlen⟩) rest [] := by
  induction got using recvLoop.induct generalizing missing with
  | case1 got hlt ih =>
    -- Something is missing, so that the loop makes another turn.
    have hmissing : missing ≠ [] := by
      rintro rfl
      rw [List.append_nil] at hlen
      omega
    rw [recvLoop, dif_pos hlt]
    refine Transacts.mono (n := len - got.1.length - 1 + 1) ?_ (by omega)
    refine .recv (by omega) (fun bytes s' hne hle hsplit => ?_) fun hnil => ?_
    · -- No more was asked for than is missing.
      have hshort : bytes.length ≤ missing.length := by
        rw [List.length_append] at hlen
        omega
      obtain ⟨tail, rfl, rfl⟩ : ∃ tail, missing = bytes ++ tail ∧ s' = tail ++ rest := by
        rcases List.append_eq_append_iff.mp hsplit with ⟨as, rfl, hrest⟩ | ⟨cs, rfl, hs'⟩
        · have has : as = [] := by
            rw [List.length_append] at hshort
            exact List.length_eq_zero_iff.mp (by omega)
          subst has
          exact ⟨[], by simp, by simpa using hrest.symm⟩
        · exact ⟨cs, rfl, hs'⟩
      have hpos := List.length_pos_iff.mpr hne
      have hnext := ih bytes hne hle tail (by simpa using hlen)
      simp only [List.append_assoc] at hnext
      refine hnext.mono ?_
      rw [List.length_append]
      omega
    · exact absurd (List.append_eq_nil_iff.mp hnil).1 hmissing
  | case2 got hlt =>
    have hmissing : missing = [] := by
      rw [List.length_append] at hlen
      exact List.length_eq_zero_iff.mp (by omega)
    subst hmissing
    rw [recvLoop, dif_neg hlt]
    simp only [List.append_nil, List.nil_append]
    exact .ret _ _ _

/-- `recvLoop` fails when the stream ends before. -/
theorem transacts_recvLoop_closed {len : ℕ} (got : { l : List β // l.length ≤ len })
    (hlen : (got.1 ++ s).length < len) :
    Transacts (len - got.1.length) (recvLoop (E := E) len got) s
      (.error (.closed ⟨got.1 ++ s, Nat.le_of_lt hlen⟩)) [] [] := by
  induction got using recvLoop.induct generalizing s with
  | case1 got hlt ih =>
    rw [recvLoop, dif_pos hlt]
    refine Transacts.mono (n := len - got.1.length - 1 + 1) ?_ (by omega)
    refine .recv (by omega) (fun bytes s' hne hle hsplit => ?_) fun hnil => ?_
    · subst hsplit
      have hpos := List.length_pos_iff.mpr hne
      have hnext := ih bytes hne hle (s := s') (by simpa using hlen)
      simp only [List.append_assoc] at hnext
      refine hnext.mono ?_
      rw [List.length_append]
      omega
    · subst hnil
      simp only [List.append_nil]
      exact .ret _ _ _
  | case2 got hlt =>
    rw [List.length_append] at hlen
    omega

/-! Both end on every transport, also one that fails, and so does what only converts their
result. -/

theorem length_le_of_bind_ret {S : Signature} {p : Prog S α} {f : α → Prog S γ} {n : ℕ}
    {tr : List (Event S)} {q : Prog S γ} (hf : ∀ a, ∃ b, f a = .ret b)
    (hp : ∀ l r, Prog.Run p l r → l.length ≤ n) (h : Prog.Run (p >>= f) tr q) : tr.length ≤ n := by
  rcases h.of_bind with ⟨o, k, hrun, -⟩ | ⟨l₁, l₂, a, rfl, hl₁, hl₂⟩
  · exact hp _ _ hrun
  · obtain ⟨b, hb⟩ := hf a
    rw [hb] at hl₂
    obtain ⟨rfl, -⟩ := hl₂.of_ret
    rw [List.append_nil]
    exact hp _ _ hl₁

theorem length_le_of_sendLoop {buf : List β} {tr : List (Event ((sockSig β).sum E))}
    {r : Prog ((sockSig β).sum E) Bool} (h : Prog.Run (sendLoop buf) tr r) :
    tr.length ≤ buf.length := by
  induction buf using sendLoop.induct generalizing tr with
  | case1 =>
    rw [sendLoop, dif_pos rfl] at h
    obtain ⟨rfl, -⟩ := h.of_ret
    exact Nat.le_refl _
  | case2 buf hbuf ih =>
    have hlen : 0 < buf.length := List.length_pos_iff.mpr hbuf
    rw [sendLoop, dif_neg hbuf] at h
    cases h with
    | nil => exact Nat.zero_le _
    | @cons _ _ a log _ h =>
      rw [List.length_cons]
      cases a with
      | none =>
        obtain ⟨rfl, -⟩ := h.of_ret
        exact hlen
      | some n =>
        have := ih n h
        rw [List.length_drop] at this
        omega

theorem length_le_of_recvLoop {len : ℕ} {got : { l : List β // l.length ≤ len }}
    {tr : List (Event ((sockSig β).sum E))}
    {r : Prog ((sockSig β).sum E) (Except (RecvFailure β len) { l : List β // l.length = len })}
    (h : Prog.Run (recvLoop len got) tr r) : tr.length ≤ len - got.1.length := by
  induction got using recvLoop.induct generalizing tr with
  | case1 got hlt ih =>
    rw [recvLoop, dif_pos hlt] at h
    cases h with
    | nil => exact Nat.zero_le _
    | @cons _ _ a log _ h =>
      rw [List.length_cons]
      cases a with
      | error =>
        obtain ⟨rfl, -⟩ := h.of_ret
        exact Nat.sub_pos_of_lt hlt
      | closed =>
        obtain ⟨rfl, -⟩ := h.of_ret
        exact Nat.sub_pos_of_lt hlt
      | chunk bytes hne hle =>
        -- Every chunk brings the end nearer.
        have hpos := List.length_pos_iff.mpr hne
        have := ih bytes hne hle h
        rw [List.length_append] at this
        omega
  | case2 got hlt =>
    rw [recvLoop, dif_neg hlt] at h
    obtain ⟨rfl, -⟩ := h.of_ret
    exact Nat.zero_le _

end Loops

end Effects
