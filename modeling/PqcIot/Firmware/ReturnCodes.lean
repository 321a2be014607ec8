import PqcIot.Firmware.Client
import PqcIot.Firmware.Rules

/-!
# Return codes

`handshake` looks at the return codes of `mlkem768_enc` and at none of mbedtls. `Unchecked R path p`
says so of a program: return codes of mbedtls make no difference to what it does, it never comes to
a result in `R` after a failed encapsulation, and when it comes to one it has called the libraries
of `path` in that order. A completed handshake can therefore be run again with any of its mbedtls
calls failing (`Unchecked.run_failing`).
-/

namespace PqcIot

open Effects

namespace Firmware

variable {β α γ : Type}

/-! ## Return codes -/

/-- The libraries whose calls can report a failure. -/
inductive Library where
  | mbedtls
  | mlkemNative
  deriving DecidableEq, Repr

/-- The return code of a call into mbedtls. -/
def MbedtlsOp.rc : ∀ o : MbedtlsOp β, MbedtlsOp.Ans o → ℤ
  | .mdSetup, rc | .mdHmacStarts _, rc | .mdHmacUpdate _ _ _, rc | .sha256Starts, rc
  | .sha256Update _ _, rc | .gcmSetkey _, rc => rc
  | .mdHmacFinish _ _, result | .mdHmac _ _, result | .sha256Finish _, result
  | .hkdfExtract _ _, result | .hkdfExpand _ _, result => result.rc
  | .gcmCryptAndTag _ _ _ _, result => result.rc

/-- The same answer with another return code. -/
def MbedtlsOp.withRc (code : ℤ) : ∀ o : MbedtlsOp β, MbedtlsOp.Ans o → MbedtlsOp.Ans o
  | .mdSetup, _ | .mdHmacStarts _, _ | .mdHmacUpdate _ _ _, _ | .sha256Starts, _
  | .sha256Update _ _, _ | .gcmSetkey _, _ => code
  | .mdHmacFinish _ _, result | .mdHmac _ _, result | .sha256Finish _, result
  | .hkdfExtract _ _, result | .hkdfExpand _ _, result => { result with rc := code }
  | .gcmCryptAndTag _ _ _ _, result => { result with rc := code }

/-- The return code that was set is read. -/
@[simp]
theorem MbedtlsOp.rc_withRc (code : ℤ) (o : MbedtlsOp β) (a : MbedtlsOp.Ans o) :
    o.rc (o.withRc code a) = code := by
  cases o <;> rfl

/-- As documented, the calls succeed. -/
@[simp]
theorem MbedtlsOp.rc_documented (P : Prims β) (o : MbedtlsOp β) : o.rc (documented P o) = 0 := by
  cases o <;> rfl

/-- Setting the return code that is there already. -/
theorem MbedtlsOp.withRc_rc (o : MbedtlsOp β) (a : MbedtlsOp.Ans o) : o.withRc (o.rc a) a = a := by
  cases o <;> rfl

/-- What a call has reported: the library and the return code. -/
def report? : Event (calls β) → Option (Library × ℤ)
  | ⟨.inl o, a⟩ => some (.mbedtls, o.rc a)
  | ⟨.inr (.inr (.mlkem768Enc _)), enc⟩ => some (.mlkemNative, enc.rc)
  | _ => none

/-- The reports in a history. -/
def reports (h : CallLog β) : List (Library × ℤ) := h.filterMap report?

/-- Calls of the operating system other than encapsulations report nothing. -/
theorem reports_host {o : HostOp β} (ho : ∀ pk, o ≠ .mlkem768Enc pk) (a : HostOp.Ans o)
    (h : CallLog β) : reports (⟨.inr (.inr o), a⟩ :: h) = reports h := by
  cases o with
  | mlkem768Enc pk => exact absurd rfl (ho pk)
  | connectToServer | close | espFillRandom | trap => rfl

/-! ## Programs that drop return codes -/

/-- No result is in `R`, whatever the calls answer. -/
def Hopeless (R : α → Prop) : Prog (calls β) α → Prop
  | .ret a => ¬ R a
  | .op _ k => ∀ a, Hopeless R (k a)

/-- The program does the same for every return code of mbedtls, and comes to a result in `R` only by
the calls of `path`, with every encapsulation successful. -/
inductive Unchecked (R : α → Prop) : List Library → Prog (calls β) α → Prop
  | ret (a : α) : Unchecked R [] (.ret a)
  | hopeless {path : List Library} {p : Prog (calls β) α} : Hopeless R p → Unchecked R path p
  | mbedtls {path : List Library} {o : MbedtlsOp β} {k : MbedtlsOp.Ans o → Prog (calls β) α} :
      (∀ code a, k (o.withRc code a) = k a) → (∀ a, Unchecked R path (k a)) →
        Unchecked R (.mbedtls :: path) (.op (.inl o) k)
  | mlkem768Enc {path : List Library} {pk : List β} {k : Encapsulation β → Prog (calls β) α} :
      (∀ enc, enc.rc = 0 → Unchecked R path (k enc)) → (∀ enc, enc.rc ≠ 0 → Hopeless R (k enc)) →
        Unchecked R (.mlkemNative :: path) (.op (.inr (.inr (.mlkem768Enc pk))) k)
  | frame {path : List Library} {o : FrameOp β}
      {k : FrameOp.Ans β FrameFailure o → Prog (calls β) α} :
      (∀ a, Unchecked R path (k a)) → Unchecked R path (.op (.inr (.inl o)) k)
  | host {path : List Library} {o : HostOp β} {k : HostOp.Ans o → Prog (calls β) α} :
      (∀ pk, o ≠ .mlkem768Enc pk) → (∀ a, Unchecked R path (k a)) →
        Unchecked R path (.op (.inr (.inr o)) k)

variable {R : α → Prop} {S : γ → Prop} {path path' : List Library}

/-- Of hopeless code only the results outside `R` go on. -/
theorem Hopeless.bind {p : Prog (calls β) α} {f : α → Prog (calls β) γ} (hp : Hopeless R p)
    (hf : ∀ a, ¬ R a → Hopeless S (f a)) : Hopeless S (p >>= f) := by
  induction p with
  | ret a => exact hf a hp
  | op o k ih => exact fun a => ih a (hp a)

/-- No run of a hopeless program ends in `R`. -/
theorem Hopeless.not_run {p : Prog (calls β) α} {log : CallLog β} {a : α} (hp : Hopeless R p)
    (hrun : Prog.Run p log (.ret a)) : ¬ R a := by
  induction p generalizing log with
  | ret b =>
    obtain ⟨-, heq⟩ := hrun.of_ret
    cases heq
    exact hp
  | op o k ih =>
    cases hrun with
    | cons hrun => exact ih _ (hp _) hrun

/-- The calls of the first program come first; results outside `R` lead nowhere. -/
theorem Unchecked.bind {p : Prog (calls β) α} {f : α → Prog (calls β) γ} (hp : Unchecked R path p)
    (hf : ∀ a, R a → Unchecked S path' (f a)) (hn : ∀ a, ¬ R a → Hopeless S (f a)) :
    Unchecked S (path ++ path') (p >>= f) := by
  induction hp with
  | ret a =>
    -- Only from a result in `R` is there a way to one in `S`.
    by_cases ha : R a
    · exact hf a ha
    · exact .hopeless (hn a ha)
  | hopeless hp => exact .hopeless (hp.bind hn)
  | mbedtls hblind _ ih =>
    exact .mbedtls (fun code a => congrArg (· >>= f) (hblind code a)) ih
  | mlkem768Enc _ hfail ih => exact .mlkem768Enc ih fun enc hrc => (hfail enc hrc).bind hn
  | frame _ ih => exact .frame ih
  | host ho _ ih => exact .host ho ih

/-! ## Their runs -/

/-- The calls of `path`, in order, with every encapsulation successful. -/
structure Passes (path : List Library) (l : CallLog β) : Prop where
  libraries : (reports l).map Prod.fst = path
  encapsulated : ∀ r ∈ reports l, r.1 = .mlkemNative → r.2 = 0

/-- A completed run has made the calls of the path. -/
theorem Unchecked.passes {p : Prog (calls β) α} {log : CallLog β} {a : α}
    (hp : Unchecked R path p) (hrun : Prog.Run p log (.ret a)) (ha : R a) : Passes path log := by
  induction hp generalizing log with
  | ret b =>
    obtain ⟨rfl, -⟩ := hrun.of_ret
    exact ⟨rfl, nofun⟩
  | hopeless hp => exact absurd ha (hp.not_run hrun)
  | mbedtls _ _ ih =>
    cases hrun with
    | cons hrun =>
      obtain ⟨hlib, henc⟩ := ih _ hrun
      refine ⟨congrArg (Library.mbedtls :: ·) hlib, ?_⟩
      rintro r (_ | ⟨_, hr⟩)
      · exact nofun
      · exact henc r hr
  -- The one return code that is looked at.
  | mlkem768Enc _ hfail ih =>
    cases hrun with
    | @cons _ _ enc _ _ hrun =>
      by_cases hrc : enc.rc = 0
      · obtain ⟨hlib, henc⟩ := ih enc hrc hrun
        refine ⟨congrArg (Library.mlkemNative :: ·) hlib, ?_⟩
        rintro r (_ | ⟨_, hr⟩)
        · exact fun _ => hrc
        · exact henc r hr
      · exact absurd ha ((hfail enc hrc).not_run hrun)
  | frame _ ih =>
    cases hrun with
    | cons hrun =>
      obtain ⟨hlib, henc⟩ := ih _ hrun
      exact ⟨hlib, henc⟩
  | host ho _ ih =>
    cases hrun with
    | @cons _ _ b l _ hrun =>
      obtain ⟨hlib, henc⟩ := ih _ hrun
      have hreports : reports (⟨.inr (.inr _), b⟩ :: l) = reports l := reports_host ho b l
      exact ⟨hreports.symm ▸ hlib, hreports.symm ▸ henc⟩

/-- The history in which the mbedtls calls that the pattern names have failed. The pattern numbers
the calls that report; the first one has the number `n`. -/
def failing (pattern : ℕ → Bool) : ℕ → CallLog β → CallLog β
  | _, [] => []
  | n, ⟨.inl o, a⟩ :: h =>
    ⟨.inl o, o.withRc (if pattern n then -1 else o.rc a) a⟩ :: failing pattern (n + 1) h
  | n, ⟨.inr (.inr (.mlkem768Enc pk)), enc⟩ :: h =>
    ⟨.inr (.inr (.mlkem768Enc pk)), enc⟩ :: failing pattern (n + 1) h
  | n, e :: h => e :: failing pattern n h

/-- The pattern does not number the other calls of the operating system. -/
theorem failing_host {pattern : ℕ → Bool} {n : ℕ} {o : HostOp β} (ho : ∀ pk, o ≠ .mlkem768Enc pk)
    (a : HostOp.Ans o) (h : CallLog β) :
    failing pattern n (⟨.inr (.inr o), a⟩ :: h) = ⟨.inr (.inr o), a⟩ :: failing pattern n h := by
  cases o with
  | mlkem768Enc pk => exact absurd rfl (ho pk)
  | connectToServer | close | espFillRandom | trap => rfl

/-- Failures of mbedtls do not change a completed run. -/
theorem Unchecked.run_failing {p : Prog (calls β) α} {log : CallLog β} {a : α}
    (hp : Unchecked R path p) (hrun : Prog.Run p log (.ret a)) (ha : R a) (pattern : ℕ → Bool)
    (n : ℕ) : Prog.Run p (failing pattern n log) (.ret a) := by
  induction hp generalizing log n with
  | ret b =>
    obtain ⟨rfl, heq⟩ := hrun.of_ret
    rw [heq]
    exact .nil _
  | hopeless hp => exact absurd ha (hp.not_run hrun)
  | mbedtls hblind _ ih =>
    cases hrun with
    | @cons _ _ b _ _ hrun =>
      refine .cons ?_
      -- The program goes on as it did with the code that was answered before.
      have hsame := hblind (if pattern n then -1 else MbedtlsOp.rc _ b) b
      exact hsame.symm ▸ ih _ hrun (n + 1)
  | mlkem768Enc _ hfail ih =>
    cases hrun with
    | @cons _ _ enc _ _ hrun =>
      by_cases hrc : enc.rc = 0
      · exact .cons (ih enc hrc hrun (n + 1))
      · exact absurd ha ((hfail enc hrc).not_run hrun)
  | frame _ ih =>
    cases hrun with
    | cons hrun => exact .cons (ih _ hrun n)
  | host ho _ ih =>
    cases hrun with
    | @cons _ _ b l _ hrun =>
      have hrest := @failing_host _ pattern n _ ho b l
      exact hrest.symm ▸ Prog.Run.cons (ih _ hrun n)

/-- The reports of such a history. -/
theorem reports_failing (pattern : ℕ → Bool) (n : ℕ) (h : CallLog β) :
    reports (failing pattern n h) = (reports h).mapIdx fun i r =>
      if r.1 = .mbedtls ∧ pattern (n + i) = true then (.mbedtls, -1) else r := by
  induction h generalizing n with
  | nil => rfl
  | cons e h ih =>
    -- The numbers of the reports after the first are one more.
    have hshift : ∀ i, n + 1 + i = n + (i + 1) := fun i => by omega
    match e with
    | ⟨.inl o, a⟩ =>
      have hfailing : reports (failing pattern n (⟨.inl o, a⟩ :: h)) =
          (.mbedtls, if pattern n then -1 else MbedtlsOp.rc o a) ::
            reports (failing pattern (n + 1) h) :=
        congrArg (fun rc => (Library.mbedtls, rc) :: _) (MbedtlsOp.rc_withRc _ o a)
      have hreports : reports (⟨.inl o, a⟩ :: h) = (.mbedtls, MbedtlsOp.rc o a) :: reports h := rfl
      rw [hfailing, hreports, List.mapIdx_cons, ih]
      simp only [hshift, Nat.add_zero, true_and]
      split <;> rfl
    | ⟨.inr (.inr (.mlkem768Enc pk)), enc⟩ =>
      have hfailing : reports (failing pattern n (⟨.inr (.inr (.mlkem768Enc pk)), enc⟩ :: h)) =
          (.mlkemNative, enc.rc) :: reports (failing pattern (n + 1) h) := rfl
      have hreports : reports (⟨.inr (.inr (.mlkem768Enc pk)), enc⟩ :: h) =
          (.mlkemNative, enc.rc) :: reports h := rfl
      rw [hfailing, hreports, List.mapIdx_cons, ih, if_neg (by simp)]
      simp only [hshift]
    | ⟨.inr (.inl o), a⟩ => exact ih n
    | ⟨.inr (.inr .connectToServer), a⟩ | ⟨.inr (.inr .close), a⟩
    | ⟨.inr (.inr (.espFillRandom _)), a⟩ | ⟨.inr (.inr .trap), a⟩ => exact ih n

/-- Its mbedtls calls have failed or answered as before. -/
theorem mem_failing {pattern : ℕ → Bool} {n : ℕ} {h : CallLog β} {o : MbedtlsOp β}
    {a : MbedtlsOp.Ans o} (ha : ⟨.inl o, a⟩ ∈ failing pattern n h) :
    o.rc a = -1 ∨ ⟨.inl o, a⟩ ∈ h := by
  induction h generalizing n with
  | nil => cases ha
  | cons e h ih =>
    match e, ha with
    | ⟨.inl o', a'⟩, ha =>
      rcases List.mem_cons.mp ha with heq | hmem
      · cases heq
        -- The call has this number: it has failed, or it is untouched.
        by_cases hn : pattern n = true
        · exact .inl ((MbedtlsOp.rc_withRc _ _ _).trans (if_pos hn))
        · have hsame : o.withRc (if pattern n then -1 else MbedtlsOp.rc o a') a' = a' :=
            (congrArg (fun code => MbedtlsOp.withRc code o a') (if_neg hn)).trans
              (MbedtlsOp.withRc_rc o a')
          exact .inr (hsame.symm ▸ List.mem_cons_self)
      · exact (ih hmem).imp_right (List.mem_cons_of_mem _)
    | ⟨.inr (.inr (.mlkem768Enc pk)), enc⟩, ha | ⟨.inr (.inl o), _⟩, ha
    | ⟨.inr (.inr .connectToServer), _⟩, ha | ⟨.inr (.inr .close), _⟩, ha
    | ⟨.inr (.inr (.espFillRandom _)), _⟩, ha | ⟨.inr (.inr .trap), _⟩, ha =>
      rcases List.mem_cons.mp ha with heq | hmem
      · cases heq
      · exact (ih hmem).imp_right (List.mem_cons_of_mem _)

/-! ## Rules for code -/

namespace Code

/-- Code that is `Unchecked` from every memory. -/
def Careless (R : α → Prop) (path : List Library) (c : Code β α) : Prop :=
  ∀ m, Unchecked (fun r => R r.1) path (c.run m)

/-- Code that is `Hopeless` from every memory. -/
def Futile (R : α → Prop) (c : Code β α) : Prop :=
  ∀ m, Hopeless (fun r => R r.1) (c.run m)

/-- No result is ruled out. -/
abbrev Any : α → Prop := fun _ => True

theorem Careless.pure (a : α) : Careless R [] (Pure.pure a : Code β α) := fun _ => .ret _

theorem Futile.pure {a : α} (ha : ¬ R a) : Futile R (Pure.pure a : Code β α) := fun _ => ha

/-- Code without a result in `R` makes the calls of any path before one. -/
theorem Futile.careless {c : Code β α} (hc : Futile R c) : Careless R path c := fun m =>
  .hopeless (hc m)

/-- Sequencing: only a result in `R` goes on to a result in `S`. -/
theorem Careless.bind_of {c : Code β α} {f : α → Code β γ} (hc : Careless R path c)
    (hf : ∀ a, R a → Careless S path' (f a)) (hn : ∀ a, ¬ R a → Futile S (f a)) :
    Careless S (path ++ path') (c >>= f) := fun m =>
  Unchecked.bind (hc m) (fun r hr => hf r.1 hr r.2) fun r hr => hn r.1 hr r.2

/-- One path after the other. -/
theorem Careless.bind {c : Code β α} {f : α → Code β γ} (hc : Careless Any path c)
    (hf : ∀ a, Careless S path' (f a)) : Careless S (path ++ path') (c >>= f) :=
  hc.bind_of (fun a _ => hf a) fun _ ha => absurd trivial ha

/-- Code without calls into the libraries comes first. -/
theorem Careless.bind_nil {c : Code β α} {f : α → Code β γ} (hc : Careless Any [] c)
    (hf : ∀ a, Careless S path (f a)) : Careless S path (c >>= f) := hc.bind hf

/-- What follows decides. -/
theorem Futile.bind {c : Code β α} {f : α → Code β γ} (hf : ∀ a, Futile S (f a)) :
    Futile S (c >>= f) := fun m => by
  have hany : ∀ p : Prog (calls β) (α × Memory β), Hopeless (fun _ => False) p := by
    intro p
    induction p with
    | ret a => exact id
    | op o k ih => exact ih
  exact (hany (c.run m)).bind fun r _ => hf r.1 r.2

/-- A call whose return code is dropped. -/
theorem Careless.mbedtls {o : MbedtlsOp β} {f : MbedtlsOp.Ans o → Code β γ}
    (hblind : ∀ code a, f (o.withRc code a) = f a) (hf : ∀ a, Careless S path (f a)) :
    Careless S (.mbedtls :: path) (Code.mbedtls o >>= f) := fun m =>
  .mbedtls (fun code a => congrArg (fun c => c.run m) (hblind code a)) fun a => hf a m

/-- An encapsulation that is checked. -/
theorem Careless.mlkem768Enc {pk : List β} {f : Encapsulation β → Code β γ}
    (hf : ∀ enc, enc.rc = 0 → Careless S path (f enc)) (hn : ∀ enc, enc.rc ≠ 0 → Futile S (f enc)) :
    Careless S (.mlkemNative :: path) (mlkem768Enc pk >>= f) := fun m =>
  .mlkem768Enc (fun enc hrc => hf enc hrc m) fun enc hrc => hn enc hrc m

/-- A call of the framing reports nothing. -/
theorem Careless.frame (o : FrameOp β) : Careless Any [] (Code.frame o) := fun _ =>
  .frame fun _ => .ret _

/-- Neither does one of the operating system, encapsulations apart. -/
theorem Careless.host {o : HostOp β} (ho : ∀ pk, o ≠ .mlkem768Enc pk) :
    Careless Any [] (Code.host o) := fun _ => .host ho fun _ => .ret _

/-- `memcpy` makes no call. -/
theorem Careless.memcpy {b : Buffer} {off : ℕ} {data : List β} :
    Careless Any [] (memcpy b off data) := by
  intro m
  simp only [Code.memcpy, StateT.run]
  split
  · exact .ret _
  · refine .host (fun pk h => ?_) fun a => Empty.elim a
    cases h

/-- The bytes that are read are as many as were asked for. -/
theorem Careless.bytesAt {b : Buffer} {off len : ℕ} {f : List β → Code β γ}
    (hf : ∀ bytes, bytes.length = len → Careless S path (f bytes)) :
    Careless S path (bytesAt b off len >>= f) := by
  intro m
  have hcases : (∃ bytes, bytes.length = len ∧ (Code.bytesAt b off len).run m = .ret (bytes, m)) ∨
      ∃ k, (Code.bytesAt b off len).run m = .op (.inr (.inr .trap)) k := by
    simp only [Code.bytesAt, StateT.run]
    split
    · rename_i h
      exact .inl ⟨_, length_slice (by rw [m.length_bytes]; exact h), rfl⟩
    · exact .inr ⟨_, rfl⟩
  show Unchecked _ path ((Code.bytesAt b off len).run m >>= fun r => (f r.1).run r.2)
  rcases hcases with ⟨bytes, hlen, hrun⟩ | ⟨k, hrun⟩
  · rw [hrun]
    exact hf bytes hlen m
  · rw [hrun]
    refine .host (fun pk h => ?_) fun a => Empty.elim a
    cases h

/-- Both branches make the same calls. -/
theorem Careless.ite {p : Prop} [Decidable p] {c d : Code β α} (hc : Careless R path c)
    (hd : Careless R path d) : Careless R path (if p then c else d) := by
  split
  · exact hc
  · exact hd

end Code
/-! ## The handshake -/

section Handshake

open Code

variable (P : Prims β) (cfg : Config β)

/-- So many calls into mbedtls. -/
abbrev mbedtlsCalls (n : ℕ) : List Library := List.replicate n .mbedtls

/-- Wiping makes no call. -/
private theorem careless_wipe (b : Buffer) : Careless Any [] (wipe P b) := .memcpy

/-- `mbedtls_md_hmac`. -/
private theorem careless_hmacSha256 (key msg : List β) :
    Careless Any (mbedtlsCalls 1) (hmacSha256 key msg) :=
  .mbedtls (fun _ _ => rfl) fun _ => .pure _

/-- The five calls for a MAC over two pieces, none of which is checked. -/
private theorem careless_hmacSha256Two (key a : List β) {b : List β} (hb : b.length ≠ 0) :
    Careless Any (mbedtlsCalls 5) (hmacSha256Two key a b) := by
  refine .mbedtls (fun _ _ => rfl) fun _ => .mbedtls (fun _ _ => rfl) fun _ =>
    .mbedtls (fun _ _ => rfl) fun _ => ?_
  rw [if_pos hb]
  exact .mbedtls (fun _ _ => rfl) fun _ => .mbedtls (fun _ _ => rfl) fun _ => .pure _

/-- The start of a hash. -/
private theorem careless_sha256Starts :
    Careless Any (mbedtlsCalls 1) (sha256Starts (β := β)) :=
  .mbedtls (fun _ _ => rfl) fun _ => .pure _

/-- Feeding it. -/
private theorem careless_sha256Update (fed input : List β) :
    Careless Any (mbedtlsCalls 1) (sha256Update fed input) :=
  .mbedtls (fun _ _ => rfl) fun _ => .pure _

/-- Its end. -/
private theorem careless_sha256Finish (fed : List β) :
    Careless Any (mbedtlsCalls 1) (sha256Finish fed) :=
  .mbedtls (fun _ _ => rfl) fun _ => .pure _

/-- `mbedtls_hkdf_extract`. -/
private theorem careless_hkdfExtract (salt ikm : List β) :
    Careless Any (mbedtlsCalls 1) (hkdfExtract salt ikm) :=
  .mbedtls (fun _ _ => rfl) fun _ => .pure _

/-- Drawing the nonce reports nothing. -/
private theorem careless_espFillRandom (len : ℕ) :
    Careless Any [] (espFillRandom len : Code β { l : List β // l.length = len }) :=
  @Careless.host _ (.espFillRandom len) nofun

/-- `mbedtls_hkdf_expand`. -/
private theorem careless_deriveKey (prk : List β) (label : List UInt8) (th2 : List β) :
    Careless Any (mbedtlsCalls 1) (deriveKey P prk label th2) :=
  .mbedtls (fun _ _ => rfl) fun _ => .pure _

/-- Sending a frame calls neither library. -/
private theorem careless_sendFrame (ftype : UInt8) (payload : List β) :
    Careless Any [] (sendFrame ftype payload) := by
  refine .bind (.frame _) fun written => ?_
  cases written with
  | error _ => exact .pure _
  | ok _ => exact .pure _

/-- Neither does reading one. -/
private theorem careless_receiveFrame (b : Buffer) :
    Careless Any [] (receiveFrame (β := β) b) := by
  refine .bind (.frame _) fun received => ?_
  cases received with
  | error _ => exact .bind .memcpy fun _ => .pure _
  | ok _ => exact .bind .memcpy fun _ => .pure _

/-- The MAC of the ClientHello. -/
private theorem careless_fillHello (suite : UInt8) (clientNonce kemCt : List β) :
    Careless Any (mbedtlsCalls 5) (fillHello P cfg suite clientNonce kemCt) := by
  refine .bind .memcpy fun _ => .bind .memcpy fun _ => .bind .memcpy fun _ => .bind .memcpy fun _ =>
    .bind .memcpy fun _ => .bind .memcpy fun _ => .bytesAt fun signed hlen => ?_
  -- `hmac_sha256_2` leaves out the update for an empty second part.
  have hsigned : signed.length ≠ 0 := by
    rw [hlen]
    decide
  exact .bind (careless_hmacSha256Two _ _ hsigned) fun _ => .bind .memcpy fun _ => .pure _

/-- The hash is fed once more in mode B. -/
private theorem careless_hashTranscript2 (fs : Bool) :
    Careless Any (mbedtlsCalls (if fs then 6 else 5)) (hashTranscript2 (β := β) fs) := by
  cases fs
  · exact .bind careless_sha256Starts fun _ => .bytesAt fun _ _ =>
      .bind (careless_sha256Update _ _) fun _ => .bytesAt fun _ _ =>
      .bind (careless_sha256Update _ _) fun _ => .bytesAt fun _ _ =>
      .bind (careless_sha256Update _ _) fun _ => careless_sha256Finish _
  · exact .bind careless_sha256Starts fun _ => .bytesAt fun _ _ =>
      .bind (careless_sha256Update _ _) fun _ => .bytesAt fun _ _ =>
      .bind (careless_sha256Update _ _) fun _ => .bytesAt fun _ _ =>
      .bind (careless_sha256Update _ _) fun _ => .bytesAt fun _ _ =>
      .bind (careless_sha256Update _ _) fun _ => careless_sha256Finish _

/-- An extraction, and one key in mode B or all four in mode A. -/
private theorem careless_stage1 (fs : Bool) (salt th2 : List β) :
    Careless Any (mbedtlsCalls (if fs then 2 else 5)) (stage1 P cfg fs salt th2) := by
  cases fs
  · exact .bytesAt fun _ _ => .bind .memcpy fun _ => .bind .memcpy fun _ => .bytesAt fun _ _ =>
      .bind (careless_hkdfExtract _ _) fun _ => .bind .memcpy fun _ => .bytesAt fun _ _ =>
      .bind (careless_deriveKey P _ _ _) fun _ => .bind (careless_deriveKey P _ _ _) fun _ =>
      .bind (careless_deriveKey P _ _ _) fun _ => .bind (careless_deriveKey P _ _ _) fun _ =>
      .bind (careless_wipe P _) fun _ => .bind (careless_wipe P _) fun _ => .pure _
  · exact .bytesAt fun _ _ => .bind .memcpy fun _ => .bind .memcpy fun _ => .bytesAt fun _ _ =>
      .bind (careless_hkdfExtract _ _) fun _ => .bind .memcpy fun _ => .bytesAt fun _ _ =>
      .bind (careless_deriveKey P _ _ _) fun _ => .bind (careless_wipe P _) fun _ =>
      .bind (careless_wipe P _) fun _ => .pure _

/-- The second encapsulation is checked; the calls after it are not. -/
private theorem careless_stage2 (salt th2 srvConfirm : List β) :
    Careless (fun exchanged => exchanged ≠ none) (.mlkemNative :: mbedtlsCalls 8)
      (stage2 P cfg salt th2 srvConfirm) := by
  refine .bytesAt fun _ _ => .mlkem768Enc (fun enc hrc => ?_) (fun enc hrc => ?_)
  · -- The key was accepted: four calls for `th3`, one extract and three for the keys.
    refine .bind .memcpy fun _ => .bind .memcpy fun _ => ?_
    rw [if_neg (not_not.mpr hrc)]
    exact .bind careless_sha256Starts fun _ => .bind (careless_sha256Update _ _) fun _ =>
      .bytesAt fun _ _ => .bind (careless_sha256Update _ _) fun _ =>
      .bind (careless_sha256Finish _) fun _ => .bytesAt fun _ _ => .bind .memcpy fun _ =>
      .bytesAt fun _ _ => .bind .memcpy fun _ => .bind .memcpy fun _ => .bytesAt fun _ _ =>
      .bind (careless_hkdfExtract _ _) fun _ => .bind .memcpy fun _ => .bytesAt fun _ _ =>
      .bind (careless_deriveKey P _ _ _) fun _ => .bind (careless_deriveKey P _ _ _) fun _ =>
      .bind (careless_deriveKey P _ _ _) fun _ => .bind (careless_wipe P _) fun _ =>
      .bind (careless_wipe P _) fun _ => .bind (careless_wipe P _) fun _ => .pure _
  · -- The key was refused.
    refine .bind fun _ => .bind fun _ => ?_
    rw [if_pos hrc]
    exact .bind fun _ => .pure fun h => h rfl

/-- The confirmation's MAC. -/
private theorem careless_finishHandshake (fs : Bool) (expectedLen : ℕ) (transcript : List β)
    {serverMac : List β} (hmac : serverMac.length ≠ 0) (keys : SessionKeys β) :
    Careless (fun session => session ≠ none) (mbedtlsCalls 5)
      (finishHandshake P fs expectedLen transcript serverMac keys) := by
  refine .bind (careless_wipe P _) fun _ => .bind (careless_hmacSha256Two _ _ hmac) fun _ =>
    .bind .memcpy fun _ => .bytesAt fun _ _ => .bind (careless_sendFrame _ _) fun _ => .ite ?_ ?_
  · exact .bytesAt fun _ _ => .pure _
  · exact (Futile.pure fun h => h rfl).careless

/-- The libraries that are called from ServerHello on. -/
def pathAfterServerHello (fs : Bool) : List Library :=
  if fs then mbedtlsCalls 9 ++ .mlkemNative :: mbedtlsCalls 13 else mbedtlsCalls 16

/-- From ServerHello on. -/
private theorem careless_afterServerHello (fs : Bool) (expectedLen : ℕ) (clientNonce : List β) :
    Careless (fun session => session ≠ none) (pathAfterServerHello fs)
      (afterServerHello P cfg fs expectedLen clientNonce) := by
  -- Once the server's MAC has been found wrong, no code is looked at any more.
  have hfailed : Futile (fun session : Option (Session β) => session ≠ none)
      (wipe P .ss >>= fun _ => Pure.pure none) := .bind fun _ => .pure fun h => h rfl
  cases fs
  · refine .bind (careless_hashTranscript2 false) fun _ => .bytesAt fun _ _ =>
      .bind (careless_stage1 P cfg false _ _) fun _ => .bind (careless_hmacSha256 _ _) fun _ =>
      .bytesAt fun serverMac hlen => .ite hfailed.careless ?_
    have hmac : serverMac.length ≠ 0 := hlen.trans_ne (by decide)
    exact careless_finishHandshake P _ _ _ hmac _
  · show Careless _ (mbedtlsCalls 6 ++ (mbedtlsCalls 2 ++ (mbedtlsCalls 1 ++
      .mlkemNative :: mbedtlsCalls 13))) _
    refine .bind (careless_hashTranscript2 true) fun _ => .bytesAt fun _ _ =>
      .bind (careless_stage1 P cfg true _ _) fun _ => .bind (careless_hmacSha256 _ _) fun _ =>
      .bytesAt fun serverMac hlen => .ite hfailed.careless ?_
    have hmac : serverMac.length ≠ 0 := hlen.trans_ne (by decide)
    refine .bind_of (careless_stage2 P cfg _ _ _) (fun exchanged hexchanged => ?_)
      (fun exchanged hexchanged => ?_)
    · cases exchanged with
      | none => exact absurd rfl hexchanged
      | some _ => exact careless_finishHandshake P _ _ _ hmac _
    · rw [not_not.mp hexchanged]
      exact .pure fun h => h rfl

/-- The libraries that a handshake calls until it is complete. -/
def handshakePath (fs : Bool) : List Library :=
  .mlkemNative :: (mbedtlsCalls 5 ++ pathAfterServerHello fs)

/-- `handshake` drops the return codes of mbedtls. -/
theorem careless_handshake (suite : UInt8) :
    Careless (fun session => session ≠ none) (handshakePath (suite == suiteMlkem768Fs))
      (handshake P cfg suite) := by
  have hnone : Futile (fun session : Option (Session β) => session ≠ none)
      (Pure.pure none : Code β (Option (Session β))) := .pure fun h => h rfl
  refine .bind_nil (careless_espFillRandom _) fun _ =>
    .mlkem768Enc (fun enc hrc => ?_) (fun enc hrc => ?_)
  · refine .bind_nil .memcpy fun _ => ?_
    rw [if_neg (not_not.mpr hrc)]
    refine .bind (careless_fillHello P cfg _ _ _) fun _ => .ite hnone.careless ?_
    refine .bytesAt fun _ _ => .bind_nil (careless_sendFrame _ _) fun _ => .ite ?_ hnone.careless
    refine .bind_nil (careless_receiveFrame _) fun received => ?_
    cases received with
    | none => exact hnone.careless
    | some _ => exact .ite hnone.careless (careless_afterServerHello P cfg _ _ _)
  · -- The pinned key was refused.
    refine .bind fun _ => ?_
    rw [if_pos hrc]
    exact hnone

end Handshake

end Firmware

end PqcIot
