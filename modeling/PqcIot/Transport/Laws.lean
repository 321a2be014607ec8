import PqcIot.Effects.Duplex
import PqcIot.Protocol.Wire

/-!
# What framing calls put on the wire

The properties of an implementation of framing over sockets that the protocol relies on, as one
statement for both implementations.

* `FrameLaws P limit H` — safety: what a run of a framing call, finished or not, sends and receives;
* `FrameView P limit log tr` — `tr` is the log `log` of framing calls, seen at the socket;
* `FrameLaws.view_of_run` — every run over sockets is a run over framing calls seen at the socket;
* `FrameFollows P limit H` — liveness: frames get through, however the bytes are split.

Payloads of more than `limit` bytes may be refused.
-/

namespace PqcIot

open Effects

variable {β α : Type} {ε : FrameOp β → Type} {E : Signature}

/-- An implementation of framing next to internal calls that pass through. -/
def overInternal (H : ∀ o : FrameOp β, Prog ((sockSig β).sum E) (FrameOp.Ans β ε o)) :
    ∀ o : ((frameSig β ε).sum E).Op,
      Prog ((sockSig β).sum E) (((frameSig β ε).sum E).Ans o)
  | .inl o => H o
  | .inr o => .op (.inr o) .ret

/-! ## Safety: what a run moves -/

/-- What framing calls implemented over sockets send and receive, in any run. -/
structure FrameLaws (P : Prims β) (limit : ℕ)
    (H : ∀ o : FrameOp β, Prog ((sockSig β).sum E) (FrameOp.Ans β ε o)) : Prop where
  /-- Writing a frame sends a prefix of it, all of it on success, and fails only with the
  transport. -/
  write : ∀ {ftype : UInt8} {payload : List β} {tr : List (Event ((sockSig β).sum E))}
    {r : Prog ((sockSig β).sum E) (FrameOp.Ans β ε (.write ftype payload))},
    Prog.Run (H (.write ftype payload)) tr r →
      receivedBytes tr = [] ∧ internalEvents tr = [] ∧
        sentBytes tr <+: frameBytes P ftype payload ∧
        (r = .ret (.ok ()) → sentBytes tr = frameBytes P ftype payload) ∧
        (∀ e, r = .ret (.error e) → payload.length ≤ limit → SendFailed tr)
  /-- Reading a frame sends nothing, and on success has received a header and the payload. -/
  read : ∀ {capacity : ℕ} {tr : List (Event ((sockSig β).sum E))}
    {r : Prog ((sockSig β).sum E) (FrameOp.Ans β ε (.read capacity))},
    Prog.Run (H (.read capacity)) tr r →
      sentBytes tr = [] ∧ internalEvents tr = [] ∧
        ∀ ftype payload, r = .ret (.ok (ftype, payload)) →
          Framed P ftype payload.1 (receivedBytes tr)

/-- `Moves P limit e seg`: `seg` is what a completed call `e` looks like at the socket. -/
inductive Moves (P : Prims β) (limit : ℕ) :
    Event ((frameSig β ε).sum E) → List (Event ((sockSig β).sum E)) → Prop
  | internal (o : E.Op) (a : E.Ans o) : Moves P limit ⟨.inr o, a⟩ [⟨.inr o, a⟩]
  | written {ftype : UInt8} {payload : List β} {seg : List (Event ((sockSig β).sum E))} :
      receivedBytes seg = [] → internalEvents seg = [] →
      sentBytes seg = frameBytes P ftype payload →
      Moves P limit ⟨.inl (.write ftype payload), .ok ()⟩ seg
  | writeFailed {ftype : UInt8} {payload : List β} {e : ε (.write ftype payload)}
      {seg : List (Event ((sockSig β).sum E))} :
      receivedBytes seg = [] → internalEvents seg = [] →
      sentBytes seg <+: frameBytes P ftype payload → (payload.length ≤ limit → SendFailed seg) →
      Moves P limit ⟨.inl (.write ftype payload), .error e⟩ seg
  | read {capacity : ℕ} {ftype : UInt8} {payload : Payload β capacity}
      {seg : List (Event ((sockSig β).sum E))} :
      sentBytes seg = [] → internalEvents seg = [] → Framed P ftype payload.1 (receivedBytes seg) →
      Moves P limit ⟨.inl (.read capacity), .ok (ftype, payload)⟩ seg
  | readFailed {capacity : ℕ} {e : ε (.read capacity)} {seg : List (Event ((sockSig β).sum E))} :
      sentBytes seg = [] → internalEvents seg = [] →
      Moves P limit ⟨.inl (.read capacity), .error e⟩ seg

/-- `FrameView P limit log tr`: `tr` is the log `log` of framing and internal calls, seen at the
socket. -/
inductive FrameView (P : Prims β) (limit : ℕ) :
    List (Event ((frameSig β ε).sum E)) → List (Event ((sockSig β).sum E)) → Prop
  | nil : FrameView P limit [] []
  | cons {e : Event ((frameSig β ε).sum E)} {log : List (Event ((frameSig β ε).sum E))}
      {seg tr : List (Event ((sockSig β).sum E))} :
      Moves P limit e seg → FrameView P limit log tr → FrameView P limit (e :: log) (seg ++ tr)

/-- `Pending P q tail`: `tail` is what the next call of `q`, not completed, has done so far. -/
inductive Pending (P : Prims β) :
    Prog ((frameSig β ε).sum E) α → List (Event ((sockSig β).sum E)) → Prop
  | idle (q : Prog ((frameSig β ε).sum E) α) : Pending P q []
  | write {ftype : UInt8} {payload : List β}
      {k : FrameOp.Ans β ε (.write ftype payload) → Prog ((frameSig β ε).sum E) α}
      {tail : List (Event ((sockSig β).sum E))} :
      receivedBytes tail = [] → internalEvents tail = [] →
      sentBytes tail <+: frameBytes P ftype payload →
      Pending P (.op (.inl (.write ftype payload)) k) tail
  | read {capacity : ℕ}
      {k : FrameOp.Ans β ε (.read capacity) → Prog ((frameSig β ε).sum E) α}
      {tail : List (Event ((sockSig β).sum E))} :
      sentBytes tail = [] → internalEvents tail = [] →
      Pending P (.op (.inl (.read capacity)) k) tail

section Safety

variable {P : Prims β} {limit : ℕ}
  {H : ∀ o : FrameOp β, Prog ((sockSig β).sum E) (FrameOp.Ans β ε o)}

/-- A completed call, seen at the socket. -/
private theorem FrameLaws.moves (hH : FrameLaws P limit H) {o : ((frameSig β ε).sum E).Op}
    {a : ((frameSig β ε).sum E).Ans o} {seg : List (Event ((sockSig β).sum E))}
    (h : Prog.Run (overInternal H o) seg (.ret a)) : Moves P limit ⟨o, a⟩ seg := by
  match o, a, h with
  | .inl (.write ftype payload), .ok (), h =>
    obtain ⟨hr, hi, -, hall, -⟩ := hH.write h
    exact .written hr hi (hall rfl)
  | .inl (.write ftype payload), .error e, h =>
    obtain ⟨hr, hi, hpre, -, hfailed⟩ := hH.write h
    exact .writeFailed hr hi hpre (hfailed e rfl)
  | .inl (.read capacity), .ok (ftype, payload), h =>
    obtain ⟨hs, hi, hok⟩ := hH.read h
    exact .read hs hi (hok ftype payload rfl)
  | .inl (.read capacity), .error e, h =>
    obtain ⟨hs, hi, -⟩ := hH.read h
    exact .readFailed hs hi
  -- Internal calls are passed on.
  | .inr o, a, h =>
    cases h with
    | cons h =>
      obtain ⟨rfl, heq⟩ := h.of_ret
      cases heq
      exact .internal o a

/-- A log and the calls that make it up over sockets. -/
theorem FrameLaws.view_of_splice (hH : FrameLaws P limit H)
    {log : List (Event ((frameSig β ε).sum E))} {tr : List (Event ((sockSig β).sum E))}
    (h : Prog.Splice (overInternal H) log tr) : FrameView P limit log tr := by
  induction h with
  | nil => exact .nil
  | cons hseg _ ih => exact .cons (hH.moves hseg) ih

/-- A run over sockets is a run over framing calls, seen at the socket, and what the last call has
done so far. If the one has returned, so has the other. -/
theorem FrameLaws.view_of_run (hH : FrameLaws P limit H) {p : Prog ((frameSig β ε).sum E) α}
    {tr : List (Event ((sockSig β).sum E))} {q' : Prog ((sockSig β).sum E) α}
    (h : Prog.Run (Prog.interp (overInternal H) p) tr q') :
    ∃ log q seen tail, tr = seen ++ tail ∧ Prog.Run p log q ∧ FrameView P limit log seen ∧
      Pending P q tail ∧ ∀ b, q' = .ret b → q = .ret b := by
  obtain ⟨log, q, seen, tail, rfl, hrun, hsplice, hsusp, hret⟩ := Prog.run_interp h
  have hview := hH.view_of_splice hsplice
  -- The program is between two calls, or inside the one that comes next.
  cases hsusp with
  | between => exact ⟨log, q, seen, [], rfl, hrun, hview, .idle q, hret⟩
  | @inside o k _ r hq hr =>
    subst hq
    match o, k, r, hr with
    | .inl (.write ftype payload), k, r, hr =>
      obtain ⟨hrecv, hint, hpre, -⟩ := hH.write hr
      exact ⟨log, _, seen, tail, rfl, hrun, hview, .write hrecv hint hpre, hret⟩
    | .inl (.read capacity), k, r, hr =>
      obtain ⟨hsent, hint, -⟩ := hH.read hr
      exact ⟨log, _, seen, tail, rfl, hrun, hview, .read hsent hint, hret⟩
    | .inr o, k, r, hr =>
      cases hr with
      | nil => exact ⟨log, _, seen, [], rfl, hrun, hview, .idle _, hret⟩
      -- An internal call that has been answered is complete.
      | @cons _ _ a _ _ hr =>
        obtain ⟨rfl, -⟩ := hr.of_ret
        refine ⟨log ++ [⟨.inr o, a⟩], k a, seen ++ [⟨.inr o, a⟩], [], by simp,
          hrun.trans (.cons (.nil _)), ?_, .idle _, fun b hb => by cases hret b hb⟩
        have hlast : Prog.Splice (overInternal H) [⟨.inr o, a⟩] ([⟨.inr o, a⟩] ++ []) :=
          .cons (.cons (.nil _)) .nil
        exact hH.view_of_splice (hsplice.append hlast)

end Safety

/-! ## Taking a view apart -/

section View

variable {P : Prims β} {limit : ℕ} {tr t₁ t₂ : List (Event ((sockSig β).sum E))}

/-- The view of a concatenation. -/
theorem FrameView.append_inv {l₁ l₂ : List (Event ((frameSig β ε).sum E))}
    (h : FrameView P limit (l₁ ++ l₂) tr) :
    ∃ t₁ t₂, tr = t₁ ++ t₂ ∧ FrameView P limit l₁ t₁ ∧ FrameView P limit l₂ t₂ := by
  induction l₁ generalizing tr with
  | nil => exact ⟨[], tr, rfl, .nil, h⟩
  | cons e l₁ ih =>
    cases h with
    | cons hm htail =>
      obtain ⟨t₁, t₂, rfl, h₁, h₂⟩ := ih htail
      exact ⟨_, t₂, (List.append_assoc ..).symm, .cons hm h₁, h₂⟩

/-- The view of a log that ends with a call. -/
theorem FrameView.concat_inv {log : List (Event ((frameSig β ε).sum E))}
    {e : Event ((frameSig β ε).sum E)} (h : FrameView P limit (log ++ [e]) tr) :
    ∃ t seg, tr = t ++ seg ∧ FrameView P limit log t ∧ Moves P limit e seg := by
  obtain ⟨t, seg, rfl, ht, hseg⟩ := h.append_inv
  cases hseg with
  | cons hm htail =>
    cases htail
    exact ⟨t, _, rfl, ht, by rwa [List.append_nil]⟩

/-- Internal events show as they are. -/
theorem FrameView.internalEvents_eq {log : List (Event ((frameSig β ε).sum E))}
    (h : FrameView P limit log tr) : internalEvents tr = internalEvents log := by
  induction h with
  | nil => rfl
  | @cons e log seg tr hm htail ih =>
    rw [internalEvents_append, ih]
    cases hm with
    | internal o a => rfl
    | written _ hint | writeFailed _ hint | read _ hint | readFailed _ hint =>
      rw [hint]
      rfl

/-- Calls that write no frame send nothing. -/
theorem FrameView.sentBytes_eq_nil {log : List (Event ((frameSig β ε).sum E))}
    (h : FrameView P limit log tr)
    (hlog : ∀ e ∈ log, ∀ ftype payload, e.1 ≠ .inl (.write ftype payload)) : sentBytes tr = [] := by
  induction h with
  | nil => rfl
  | @cons e log seg tr hm htail ih =>
    rw [sentBytes_append, ih fun e' he' => hlog e' (List.mem_cons_of_mem _ he'), List.append_nil]
    have hne := hlog e List.mem_cons_self
    cases hm with
    | internal => rfl
    | read hsent | readFailed hsent => exact hsent
    | written => exact absurd rfl (hne _ _)
    | writeFailed => exact absurd rfl (hne _ _)

/-- The view of a log that ends with an internal call. -/
theorem FrameView.concat_internal {log : List (Event ((frameSig β ε).sum E))} {o : E.Op}
    {a : E.Ans o} (h : FrameView P limit (log ++ [⟨.inr o, a⟩]) tr) :
    ∃ t, tr = t ++ [⟨.inr o, a⟩] ∧ FrameView P limit log t := by
  obtain ⟨t, seg, rfl, ht, hm⟩ := h.concat_inv
  cases hm
  exact ⟨t, rfl, ht⟩

/-- An internal event among the socket calls of a call is that call. -/
private theorem Moves.eq_of_mem_internal {e : Event ((frameSig β ε).sum E)} {o : E.Op}
    {a : E.Ans o} (h : Moves P limit e (t₁ ++ ⟨.inr o, a⟩ :: t₂)) :
    e = ⟨.inr o, a⟩ ∧ t₁ = [] ∧ t₂ = [] := by
  have hne : internalEvents (t₁ ++ ⟨.inr o, a⟩ :: t₂) ≠ [] := by
    have hcons : internalEvents (⟨.inr o, a⟩ :: t₂) = (⟨o, a⟩ : Event E) :: internalEvents t₂ := rfl
    rw [internalEvents_append, hcons]
    exact List.append_ne_nil_of_right_ne_nil _ (List.cons_ne_nil _ _)
  generalize hseg : t₁ ++ (⟨.inr o, a⟩ : Event ((sockSig β).sum E)) :: t₂ = seg at h hne
  cases h with
  | internal o' a' =>
    cases t₁ with
    | nil =>
      simp only [List.nil_append, List.cons.injEq] at hseg
      obtain ⟨he, rfl⟩ := hseg
      cases he
      exact ⟨rfl, rfl, rfl⟩
    | cons e' t₁ => simp at hseg
  | written _ hint | writeFailed _ hint | read _ hint | readFailed _ hint => exact absurd hint hne

/-- An internal event of a view is an event of the log. -/
theorem FrameView.split_internal {log : List (Event ((frameSig β ε).sum E))} {o : E.Op}
    {a : E.Ans o} (h : FrameView P limit log (t₁ ++ ⟨.inr o, a⟩ :: t₂)) :
    ∃ l₁ l₂, log = l₁ ++ ⟨.inr o, a⟩ :: l₂ ∧ FrameView P limit l₁ t₁ ∧
      FrameView P limit l₂ t₂ := by
  generalize htr : t₁ ++ (⟨.inr o, a⟩ : Event ((sockSig β).sum E)) :: t₂ = tr at h
  induction h generalizing t₁ with
  | nil => simp at htr
  | @cons e log seg tr hm htail ih =>
    -- The event is in the rest, or among the socket calls of the first call.
    rcases List.append_eq_append_iff.mp htr with ⟨as, rfl, htr'⟩ | ⟨cs, rfl, htr'⟩
    · cases as with
      | nil =>
        obtain ⟨l₁, l₂, rfl, h₁, h₂⟩ := @ih [] htr'
        exact ⟨e :: l₁, l₂, rfl, by simpa using FrameView.cons hm h₁, h₂⟩
      | cons e' as =>
        rw [List.cons_append, List.cons.injEq] at htr'
        obtain ⟨rfl, rfl⟩ := htr'
        obtain ⟨rfl, rfl, rfl⟩ := hm.eq_of_mem_internal
        exact ⟨[], log, rfl, .nil, htail⟩
    · obtain ⟨l₁, l₂, rfl, h₁, h₂⟩ := ih htr'.symm
      exact ⟨e :: l₁, l₂, rfl, .cons hm h₁, h₂⟩

/-- What a call that is under way has sent is the beginning of the frame it is to write. -/
theorem Pending.sent {q : Prog ((frameSig β ε).sum E) α} (h : Pending P q tr) :
    sentBytes tr = [] ∨ ∃ ftype payload k, q = .op (.inl (.write ftype payload)) k ∧
      sentBytes tr <+: frameBytes P ftype payload := by
  cases h with
  | idle => exact .inl rfl
  | write _ _ hpre => exact .inr ⟨_, _, _, rfl, hpre⟩
  | read hsent => exact .inl hsent

/-- A program that has returned has no call under way. -/
theorem Pending.eq_nil {a : α} (h : Pending (E := E) (ε := ε) P (.ret a) tr) : tr = [] := by
  cases h
  rfl

theorem Pending.internalEvents_eq_nil {q : Prog ((frameSig β ε).sum E) α} (h : Pending P q tr) :
    internalEvents tr = [] := by
  cases h with
  | idle => rfl
  | write _ hint => exact hint
  | read _ hint => exact hint

/-- An internal call of a run over sockets is one of a run over framing calls, with what came before
and after it seen at the socket. -/
theorem FrameLaws.view_of_internal
    {H : ∀ o : FrameOp β, Prog ((sockSig β).sum E) (FrameOp.Ans β ε o)} (hH : FrameLaws P limit H)
    {p : Prog ((frameSig β ε).sum E) α} {q' : Prog ((sockSig β).sum E) α} {o : E.Op} {a : E.Ans o}
    (h : Prog.Run (Prog.interp (overInternal H) p) (t₁ ++ ⟨.inr o, a⟩ :: t₂) q') :
    ∃ l₁ l₂ q seen tail, t₂ = seen ++ tail ∧ Prog.Run p (l₁ ++ ⟨.inr o, a⟩ :: l₂) q ∧
      FrameView P limit l₁ t₁ ∧ FrameView P limit l₂ seen ∧ Pending P q tail ∧
      ∀ b, q' = .ret b → q = .ret b := by
  obtain ⟨log, q, seen, tail, htr, hrun, hv, hp, hret⟩ := hH.view_of_run h
  -- A call under way contains no internal event.
  have habsurd : ∀ s, tail ≠ s ++ ⟨.inr o, a⟩ :: t₂ := by
    rintro s rfl
    have hint := hp.internalEvents_eq_nil
    rw [internalEvents_append] at hint
    exact absurd (List.append_eq_nil_iff.mp hint).2 (List.cons_ne_nil (⟨o, a⟩ : Event E) _)
  rcases List.append_eq_append_iff.mp htr with ⟨as, rfl, htail⟩ | ⟨cs, rfl, htail⟩
  · cases as with
    | nil => exact absurd htail.symm (habsurd [])
    | cons e as =>
      rw [List.cons_append, List.cons.injEq] at htail
      obtain ⟨rfl, rfl⟩ := htail
      obtain ⟨l₁, l₂, rfl, h₁, h₂⟩ := hv.split_internal
      exact ⟨l₁, l₂, q, as, tail, rfl, hrun, h₁, h₂, hp, hret⟩
  · exact absurd htail (habsurd cs)

end View

/-! ## Liveness: honest frames get through -/

/-- Frames of at most `limit` bytes of payload get through an implementation of framing, however
the bytes are split. -/
structure FrameFollows (P : Prims β) (limit : ℕ)
    (H : ∀ o : FrameOp β, Prog ((sockSig β).sum E) (FrameOp.Ans β ε o)) : Prop where
  /-- Writing a frame sends it, and then goes on. -/
  write : ∀ {α : Type} {f : ℕ → (o : E.Op) → Option (E.Ans o)} {n : ℕ} {s : List (Item β)}
    {a : Option α} {ftype : UInt8} {payload : List β}
    {k : FrameOp.Ans β ε (.write ftype payload) → Prog ((sockSig β).sum E) α},
    payload.length ≤ limit → Follows (Prog.resolve f n (k (.ok ()))) s a →
      Follows (Prog.resolve f n (H (.write ftype payload) >>= k))
        ((frameBytes P ftype payload).map .send ++ s) a
  /-- Reading receives the frame, and then goes on with it. -/
  read : ∀ {α : Type} {f : ℕ → (o : E.Op) → Option (E.Ans o)} {n : ℕ} {s : List (Item β)}
    {a : Option α} {capacity : ℕ} {ftype : UInt8} {payload : List β}
    (hcapacity : payload.length ≤ capacity)
    {k : FrameOp.Ans β ε (.read capacity) → Prog ((sockSig β).sum E) α},
    payload.length ≤ limit →
      Follows (Prog.resolve f n (k (.ok (ftype, ⟨payload, hcapacity⟩)))) s a →
      Follows (Prog.resolve f n (H (.read capacity) >>= k))
        ((frameBytes P ftype payload).map .recv ++ s) a

/-! ## Code that keeps to a script -/

/-- `Performs H f n p n' s a`: with its internal operations answered by `f` from the `n`-th on, `p`
sends and receives the bytes of `s`, whatever comes after it, and returns `a` when the `n'`-th is
next. -/
def Performs (H : ∀ o : FrameOp β, Prog ((sockSig β).sum E) (FrameOp.Ans β ε o))
    (f : ℕ → (o : E.Op) → Option (E.Ans o)) (n : ℕ) (p : Prog ((frameSig β ε).sum E) α) (n' : ℕ)
    (s : List (Item β)) (a : α) : Prop :=
  ∀ (γ : Type) (k : α → Prog ((frameSig β ε).sum E) γ) (t : List (Item β)) (r : Option γ),
    Follows (Prog.resolve f n' (Prog.interp (overInternal H) (k a))) t r →
      Follows (Prog.resolve f n (Prog.interp (overInternal H) (p >>= k))) (s ++ t) r

section Performs

variable {γ : Type} {P : Prims β} {limit : ℕ}
  {H : ∀ o : FrameOp β, Prog ((sockSig β).sum E) (FrameOp.Ans β ε o)}
  {f : ℕ → (o : E.Op) → Option (E.Ans o)} {n n₁ n' : ℕ} {s t : List (Item β)} {a : α} {b : γ}

theorem Performs.ret (a : α) : Performs H f n (.ret a) n [] a := fun _ _ _ _ h => h

/-- An internal operation moves no bytes. -/
theorem Performs.internal {o : E.Op} {k : E.Ans o → Prog ((frameSig β ε).sum E) α} {x : E.Ans o}
    (hx : f n o = some x) (hk : Performs H f (n + 1) (k x) n' s a) :
    Performs H f n (.op (.inr o) k) n' s a := by
  intro γ k' t r hk'
  have hresolve := Prog.resolve_inr (S := sockSig β) hx
    (k := fun a => Prog.interp (overInternal H) (k a >>= k'))
  exact hresolve ▸ hk _ _ _ _ hk'

/-- Writing a frame sends it. -/
theorem FrameFollows.performs_write (hH : FrameFollows P limit H) {ftype : UInt8}
    {payload : List β}
    {k : FrameOp.Ans β ε (.write ftype payload) → Prog ((frameSig β ε).sum E) α}
    (hlen : payload.length ≤ limit) (hk : Performs H f n (k (.ok ())) n' s a) :
    Performs H f n (.op (.inl (.write ftype payload)) k) n'
      ((frameBytes P ftype payload).map .send ++ s) a := by
  intro γ k' t r hk'
  rw [List.append_assoc]
  exact hH.write hlen (hk _ _ _ _ hk')

/-- Reading a frame receives it. -/
theorem FrameFollows.performs_read (hH : FrameFollows P limit H) {capacity : ℕ} {ftype : UInt8}
    {payload : List β}
    {k : FrameOp.Ans β ε (.read capacity) → Prog ((frameSig β ε).sum E) α}
    (hcapacity : payload.length ≤ capacity) (hlen : payload.length ≤ limit)
    (hk : Performs H f n (k (.ok (ftype, ⟨payload, hcapacity⟩))) n' s a) :
    Performs H f n (.op (.inl (.read capacity)) k) n'
      ((frameBytes P ftype payload).map .recv ++ s) a := by
  intro γ k' t r hk'
  rw [List.append_assoc]
  exact hH.read hcapacity hlen (hk _ _ _ _ hk')

/-- `Scripted P limit f n log n' s`: in `log` every frame gets through and the internal operations
are answered by `f`, from the `n`-th to the `n'`-th; `s` is the bytes of its frames. -/
inductive Scripted (P : Prims β) (limit : ℕ) (f : ℕ → (o : E.Op) → Option (E.Ans o)) :
    ℕ → List (Event ((frameSig β ε).sum E)) → ℕ → List (Item β) → Prop
  | nil (n : ℕ) : Scripted P limit f n [] n []
  | write {n n' : ℕ} {log : List (Event ((frameSig β ε).sum E))} {s : List (Item β)}
      {ftype : UInt8} {payload : List β} : payload.length ≤ limit → Scripted P limit f n log n' s →
      Scripted P limit f n (⟨.inl (.write ftype payload), .ok ()⟩ :: log) n'
        ((frameBytes P ftype payload).map .send ++ s)
  | read {n n' : ℕ} {log : List (Event ((frameSig β ε).sum E))} {s : List (Item β)}
      {capacity : ℕ} {ftype : UInt8} {payload : Payload β capacity} : payload.1.length ≤ limit →
      Scripted P limit f n log n' s →
      Scripted P limit f n (⟨.inl (.read capacity), .ok (ftype, payload)⟩ :: log) n'
        ((frameBytes P ftype payload.1).map .recv ++ s)
  | internal {n n' : ℕ} {log : List (Event ((frameSig β ε).sum E))} {s : List (Item β)} {o : E.Op}
      {a : E.Ans o} : f n o = some a → Scripted P limit f (n + 1) log n' s →
      Scripted P limit f n (⟨.inr o, a⟩ :: log) n' s

/-- A run in which everything gets through keeps to the script of its log. -/
theorem FrameFollows.performs_of_run (hH : FrameFollows P limit H)
    {p : Prog ((frameSig β ε).sum E) α} {log : List (Event ((frameSig β ε).sum E))}
    (hlog : Scripted P limit f n log n' s) (hrun : Prog.Run p log (.ret a)) :
    Performs H f n p n' s a := by
  induction hlog generalizing p with
  | nil n =>
    cases hrun
    exact .ret a
  | write hlen _ ih =>
    cases hrun with
    | cons hrun => exact hH.performs_write hlen (ih hrun)
  | @read _ _ _ _ _ _ payload hlen _ ih =>
    cases hrun with
    | cons hrun => exact hH.performs_read payload.2 hlen (ih hrun)
  | internal ha _ ih =>
    cases hrun with
    | cons hrun => exact .internal ha (ih hrun)

/-- Sequences keep to the scripts of their parts, one after the other. -/
theorem Performs.bind {p : Prog ((frameSig β ε).sum E) α}
    {g : α → Prog ((frameSig β ε).sum E) γ} (hp : Performs H f n p n₁ s a)
    (hg : Performs H f n₁ (g a) n' t b) : Performs H f n (p >>= g) n' (s ++ t) b := by
  -- Whatever comes after the sequence comes after its second part.
  intro δ k u r hk
  rw [Prog.bind_bind, List.append_assoc]
  exact hp _ _ _ _ (hg _ _ _ _ hk)

/-- The answers of a script may be counted from one more on. -/
theorem Scripted.shift {f' : ℕ → (o : E.Op) → Option (E.Ans o)}
    {log : List (Event ((frameSig β ε).sum E))} (hf : ∀ n, f' (n + 1) = f n)
    (h : Scripted P limit f n log n' s) : Scripted P limit f' (n + 1) log (n' + 1) s := by
  induction h with
  | nil n => exact .nil _
  | write hlen _ ih => exact .write hlen ih
  | read hlen _ ih => exact .read hlen ih
  | internal ha _ ih => exact .internal ((congrFun (hf _) _).trans ha) ih

/-- Over sockets, code that keeps to a script follows it. -/
theorem Performs.follows {p : Prog ((frameSig β ε).sum E) α} (hp : Performs H f n p n' s a) :
    Follows (Prog.resolve f n (Prog.interp (overInternal H) p)) s (some a) := by
  have h := hp _ .ret [] (some a) (.done _)
  rwa [Prog.bind_ret, List.append_nil] at h

end Performs

/-! ## Runs in which frames get through -/

/-- If the event is a frame, it has got through. -/
def Delivers (limit : ℕ) : Event ((frameSig β ε).sum E) → Prop
  | ⟨.inl (.write _ payload), .ok _⟩ => payload.length ≤ limit
  | ⟨.inl (.read _), .ok frame⟩ => frame.2.1.length ≤ limit
  | ⟨.inl (.write _ _), .error _⟩ => False
  | ⟨.inl (.read _), .error _⟩ => False
  | ⟨.inr _, _⟩ => True

/-- The bytes of the frame that an event writes. -/
def writtenBytes (P : Prims β) : Event ((frameSig β ε).sum E) → List β
  | ⟨.inl (.write ftype payload), _⟩ => frameBytes P ftype payload
  | _ => []

/-- What is sent is the frames that were written, one after another, when each has got through. -/
theorem FrameView.sentBytes_eq_flatMap {log : List (Event ((frameSig β ε).sum E))}
    {tr : List (Event ((sockSig β).sum E))} (h : FrameView P limit log tr)
    (hlog : ∀ e ∈ log, Delivers limit e) : sentBytes tr = log.flatMap (writtenBytes P) := by
  induction h with
  | nil => rfl
  | @cons e log seg tr hm htail ih =>
    obtain ⟨he, hlog⟩ := List.forall_mem_cons.mp hlog
    rw [sentBytes_append, List.flatMap_cons, ih hlog]
    cases hm with
    | internal => rfl
    | read hsent => exact congrArg (· ++ _) hsent
    | written _ _ hsent => exact congrArg (· ++ _) hsent
    | readFailed | writeFailed => exact he.elim

section Delivers

variable {P : Prims β} {limit : ℕ}
  {H : ∀ o : FrameOp β, Prog ((sockSig β).sum E) (FrameOp.Ans β ε o)}

/-- There are socket calls for every frame. -/
theorem FrameFollows.exists_moves (hH : FrameFollows P limit H) (hL : FrameLaws P limit H)
    {o : ((frameSig β ε).sum E).Op} {a : ((frameSig β ε).sum E).Ans o}
    (h : Delivers limit ⟨o, a⟩) :
    ∃ seg, Prog.Run (overInternal H o) seg (.ret a) ∧ Moves P limit ⟨o, a⟩ seg := by
  -- A script that is followed to its end has a run.
  have hsome : ∀ {o : FrameOp β} {a : FrameOp.Ans β ε o} {s : List (Item β)},
      Follows (Prog.resolve (fun _ _ => none) 0 (H o >>= .ret)) s (some a) →
        ∃ seg, Prog.Run (overInternal H (.inl o)) seg (.ret a) ∧ Moves P limit ⟨.inl o, a⟩ seg := by
    intro o a s hfollows
    obtain ⟨seg, hrun, -⟩ := hfollows.exists_run
    rw [Prog.bind_ret] at hrun
    exact ⟨seg, hrun, hL.moves hrun⟩
  match o, a, h with
  | .inl (.write ftype payload), .ok (), h => exact hsome (hH.write h (.done _))
  | .inl (.read capacity), .ok (ftype, payload), h => exact hsome (hH.read payload.2 h (.done _))
  | .inr o, a, _ => exact ⟨[⟨.inr o, a⟩], .cons (.nil _), .internal o a⟩

/-- A run in which every frame gets through is one over sockets. -/
theorem FrameFollows.exists_view (hH : FrameFollows P limit H) (hL : FrameLaws P limit H)
    {p : Prog ((frameSig β ε).sum E) α} {log : List (Event ((frameSig β ε).sum E))} {a : α}
    (hrun : Prog.Run p log (.ret a)) (hlog : ∀ e ∈ log, Delivers limit e) :
    ∃ tr, Prog.Run (Prog.interp (overInternal H) p) tr (.ret a) ∧ FrameView P limit log tr := by
  induction log generalizing p with
  | nil =>
    cases hrun
    exact ⟨[], .nil _, .nil⟩
  | cons e log ih =>
    cases hrun with
    | @cons o k x _ _ hrun =>
      obtain ⟨seg, hseg, hmoves⟩ := hH.exists_moves hL (hlog _ List.mem_cons_self)
      obtain ⟨tr, htr, hview⟩ := ih hrun fun e he => hlog e (List.mem_cons_of_mem _ he)
      exact ⟨seg ++ tr, hseg.bind htr, .cons hmoves hview⟩

/-- In a script every frame gets through. -/
theorem Scripted.delivers {f : ℕ → (o : E.Op) → Option (E.Ans o)} {n n' : ℕ} {s : List (Item β)}
    {log : List (Event ((frameSig β ε).sum E))} (h : Scripted P limit f n log n' s) :
    ∀ e ∈ log, Delivers limit e := by
  induction h with
  | nil _ => nofun
  | write hlen _ ih => exact List.forall_mem_cons.mpr ⟨hlen, ih⟩
  | read hlen _ ih => exact List.forall_mem_cons.mpr ⟨hlen, ih⟩
  | internal _ _ ih => exact List.forall_mem_cons.mpr ⟨trivial, ih⟩

end Delivers

end PqcIot
