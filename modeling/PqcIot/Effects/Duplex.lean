import Mathlib.Data.List.TakeDrop
import PqcIot.Effects.Socket

/-!
# Byte streams between two programs

Two programs joined by two in-order byte queues form a `Duplex`. When their behaviour is dual — what
one sends is what the other expects to receive, in the same order — no schedule and no splitting of
the bytes can change the outcome (`Duplex.steps_of_follows`): every execution is finite, it can go
on until both programs have returned, and then every byte has been delivered.

## Main definitions

* `Follows p s a`: for every splitting, `p` sends and receives the bytes of the script `s` in order
  and then returns `a`;
* `Duplex.Step`: one socket call of either side.
-/

namespace Effects

variable {β : Type} {α γ : Type}

/-! ## Scripts -/

/-- One byte of a conversation, as one side sees it. -/
inductive Item (β : Type) where
  | send (b : β)
  | recv (b : β)

namespace Item

/-- The same byte as the other side sees it. -/
def flip : Item β → Item β
  | .send b => .recv b
  | .recv b => .send b

@[simp]
theorem flip_send (b : β) : (send b).flip = recv b := rfl

@[simp]
theorem flip_recv (b : β) : (recv b).flip = send b := rfl

@[simp]
theorem flip_comp_send : flip ∘ send = (recv : β → Item β) := rfl

@[simp]
theorem flip_comp_recv : flip ∘ recv = (send : β → Item β) := rfl

@[simp]
theorem flip_comp_flip : flip ∘ flip = (id : Item β → Item β) := by
  funext i
  cases i <;> rfl

end Item

/-- `Follows p s a`: however its socket calls are split, `p` sends and receives the bytes of `s` in
order and then returns `a`. -/
inductive Follows : Prog (sockSig β) α → List (Item β) → α → Prop
  | done (a : α) : Follows (.ret a) [] a
  | send {buf : List β} {k : SockOp.Ans (.send buf) → Prog (sockSig β) α} {s : List (Item β)}
      {a : α} (hbuf : buf ≠ [])
      (hk : ∀ n, Follows (k (some n)) ((buf.drop n).map .send ++ s) a) :
      Follows (.op (.send buf) k) (buf.map .send ++ s) a
  | recv {bytes : List β} {k : SockOp.Ans (.recv bytes.length) → Prog (sockSig β) α}
      {s : List (Item β)} {a : α} (hbytes : bytes ≠ [])
      (hk : ∀ got rest (hgot : got ≠ []) (hle : got.length ≤ bytes.length), bytes = got ++ rest →
        Follows (k (.chunk got hgot hle)) (rest.map .recv ++ s) a) :
      Follows (.op (.recv bytes.length) k) (bytes.map .recv ++ s) a

/-- The rule for `recv`, with the number of bytes asked for up to an equation. -/
theorem Follows.recv_of_eq {m : ℕ} {bytes : List β}
    {k : SockOp.Ans (β := β) (.recv m) → Prog (sockSig β) α} {s : List (Item β)} {a : α}
    (hm : m = bytes.length) (hbytes : bytes ≠ [])
    (hk : ∀ got rest (hgot : got ≠ []) (hle : got.length ≤ m), bytes = got ++ rest →
      Follows (k (.chunk got hgot hle)) (rest.map .recv ++ s) a) :
    Follows (.op (.recv m) k) (bytes.map .recv ++ s) a := by
  subst hm
  exact .recv hbytes hk

/-! ## Two programs and the bytes between them -/

/-- Two programs joined by a byte queue in each direction, with the bytes each has sent so far. -/
structure Duplex (β α γ : Type) where
  /-- The program on the left. -/
  left : Prog (sockSig β) α
  /-- The program on the right. -/
  right : Prog (sockSig β) γ
  /-- Bytes sent by the left side and not yet received by the right. -/
  toRight : List β
  /-- Bytes sent by the right side and not yet received by the left. -/
  toLeft : List β
  /-- All bytes the left side has sent. -/
  sentLeft : List β
  /-- All bytes the right side has sent. -/
  sentRight : List β

/-- One socket call of a program whose queue of incoming bytes is `inbox`: the program and the
queue after it, and the bytes it sent. The transport splits as it likes but does not fail. -/
inductive HalfStep : Prog (sockSig β) α → List β → Prog (sockSig β) α → List β → List β → Prop
  | send {buf : List β} {k : SockOp.Ans (.send buf) → Prog (sockSig β) α} (inbox : List β)
      (n : { n : ℕ // 0 < n ∧ n ≤ buf.length }) :
      HalfStep (.op (.send buf) k) inbox (k (some n)) inbox (buf.take n)
  | recv {n : ℕ} {k : SockOp.Ans (.recv n) → Prog (sockSig β) α} (got rest : List β)
      (hgot : got ≠ []) (hle : got.length ≤ n) :
      HalfStep (.op (.recv n) k) (got ++ rest) (k (.chunk got hgot hle)) rest []

namespace Duplex

/-- Two programs before anything was sent. -/
def start (p : Prog (sockSig β) α) (q : Prog (sockSig β) γ) : Duplex β α γ :=
  ⟨p, q, [], [], [], []⟩

/-- The same pair, seen from the other side. -/
def swap (c : Duplex β α γ) : Duplex β γ α :=
  ⟨c.right, c.left, c.toLeft, c.toRight, c.sentRight, c.sentLeft⟩

/-- One socket call of either side. -/
inductive Step : Duplex β α γ → Duplex β α γ → Prop
  | left {c : Duplex β α γ} {p : Prog (sockSig β) α} {inbox out : List β} :
      HalfStep c.left c.toLeft p inbox out →
      Step c ⟨p, c.right, c.toRight ++ out, inbox, c.sentLeft ++ out, c.sentRight⟩
  | right {c : Duplex β α γ} {q : Prog (sockSig β) γ} {inbox out : List β} :
      HalfStep c.right c.toRight q inbox out →
      Step c ⟨c.left, q, inbox, c.toLeft ++ out, c.sentLeft, c.sentRight ++ out⟩

/-- `Steps n c c'`: `n` socket calls lead from `c` to `c'`. -/
inductive Steps : ℕ → Duplex β α γ → Duplex β α γ → Prop
  | zero (c : Duplex β α γ) : Steps 0 c c
  | succ {n : ℕ} {c c' c'' : Duplex β α γ} : Steps n c c' → Step c' c'' → Steps (n + 1) c c''

end Duplex

/-! ## What one call does to a script -/

/-- A call of a program that follows a script is a send of the next bytes of the script, or a
receive where the script says receive. -/
theorem Follows.halfStep {p p' : Prog (sockSig β) α} {s : List (Item β)} {a : α}
    {inbox inbox' out : List β} (hp : Follows p s a) (hstep : HalfStep p inbox p' inbox' out) :
    (out ≠ [] ∧ inbox' = inbox ∧ ∃ s', s = out.map .send ++ s' ∧ Follows p' s' a) ∨
      (out = [] ∧ ∃ bytes s' got, got ≠ [] ∧ got.length ≤ bytes.length ∧
        s = bytes.map .recv ++ s' ∧ inbox = got ++ inbox' ∧
        ∀ rest, bytes = got ++ rest → Follows p' (rest.map .recv ++ s') a) := by
  cases hstep with
  | @send buf _ _ n =>
    cases hp with
    | @send _ _ s _ hbuf hk =>
      refine .inl ⟨?_, rfl, (buf.drop n).map .send ++ s, ?_, hk n⟩
      · intro h
        have := congrArg List.length h
        simp only [List.length_take, List.length_nil] at this
        omega
      · rw [← List.append_assoc, ← List.map_append, List.take_append_drop]
  | recv got rest hgot hle =>
    cases hp with
    | @recv bytes _ s _ hbytes hk =>
      exact .inr ⟨rfl, bytes, s, got, hgot, hle, rfl, rfl, fun rest' h => hk got rest' hgot hle h⟩

/-- A program at a byte to send performs a `send`. -/
theorem Follows.exists_halfStep_send {p : Prog (sockSig β) α} {b : β} {s : List (Item β)} {a : α}
    (hp : Follows p (.send b :: s) a) (inbox : List β) :
    ∃ p' out, HalfStep p inbox p' inbox out := by
  generalize hs : Item.send b :: s = s' at hp
  cases hp with
  | done => cases hs
  | @send buf k s'' a hbuf hk =>
    have hlen : 0 < buf.length := List.length_pos_iff.mpr hbuf
    exact ⟨_, _, .send inbox ⟨buf.length, hlen, Nat.le_refl _⟩⟩
  | @recv bytes k s'' a hbytes hk =>
    cases bytes with
    | nil => exact absurd rfl hbytes
    | cons _ _ => cases hs

/-- A program at a byte to receive performs a `recv` as soon as a byte is there. -/
theorem Follows.exists_halfStep_recv {p : Prog (sockSig β) α} {b : β} {s : List (Item β)} {a : α}
    (hp : Follows p (.recv b :: s) a) (b' : β) (inbox : List β) :
    ∃ p' inbox' out, HalfStep p (b' :: inbox) p' inbox' out := by
  generalize hs : Item.recv b :: s = s' at hp
  cases hp with
  | done => cases hs
  | @send buf k s'' a hbuf hk =>
    cases buf with
    | nil => exact absurd rfl hbuf
    | cons _ _ => cases hs
  | @recv bytes k s'' a hbytes hk =>
    have hlen : 0 < bytes.length := List.length_pos_iff.mpr hbytes
    exact ⟨_, _, _, .recv [b'] inbox (by simp) (by rw [List.length_singleton]; omega)⟩

/-- A program whose script is empty has returned. -/
theorem Follows.eq_ret {p : Prog (sockSig β) α} {a : α} (hp : Follows p [] a) : p = .ret a := by
  generalize hs : ([] : List (Item β)) = s at hp
  cases hp with
  | done => rfl
  | @send buf k s' a hbuf hk =>
    cases buf with
    | nil => exact absurd rfl hbuf
    | cons _ _ => cases hs
  | @recv bytes k s' a hbytes hk =>
    cases bytes with
    | nil => exact absurd rfl hbytes
    | cons _ _ => cases hs

/-! ## The joint invariant -/

/-- The bytes a script sends. -/
def scriptSent : List (Item β) → List β
  | [] => []
  | .send b :: s => b :: scriptSent s
  | .recv _ :: s => scriptSent s

/-- What is sent in two scripts. -/
@[simp]
theorem scriptSent_append (s t : List (Item β)) :
    scriptSent (s ++ t) = scriptSent s ++ scriptSent t := by
  induction s with
  | nil => rfl
  | cons i s ih => cases i <;> simp [scriptSent, ih]

/-- A script of sending sends its bytes. -/
@[simp]
theorem scriptSent_map_send (l : List β) : scriptSent (l.map .send) = l := by
  induction l with
  | nil => rfl
  | cons b l ih => simp [scriptSent, ih]

/-- A script of receiving sends nothing. -/
@[simp]
theorem scriptSent_map_recv (l : List β) : scriptSent (l.map .recv) = [] := by
  induction l with
  | nil => rfl
  | cons b l ih => simpa [scriptSent] using ih

/-- A program that follows a script, with its other operations answered by a sequence, has a
complete run with these answers that moves the bytes of the script. -/
theorem Follows.exists_run {E : Signature} {p : Prog ((sockSig β).sum E) α}
    {f : ℕ → (o : E.Op) → Option (E.Ans o)} {n : ℕ} {s : List (Item β)} {a : α}
    (h : Follows (Prog.resolve f n p) s (some a)) :
    ∃ log, Prog.Run p log (.ret a) ∧ sentBytes log = scriptSent s ∧
      receivedBytes log = scriptSent (s.map .flip) ∧
      ∀ e ∈ internalEvents log, ∃ i, f i e.1 = some e.2 := by
  induction p generalizing n s with
  | ret b =>
    cases h
    exact ⟨[], .nil _, rfl, rfl, fun e he => by cases he⟩
  | op o k ih =>
    match o, k, ih, h with
    | .inl (.send buf), k, ih, h =>
      cases h with
      | @send _ _ s _ hbuf hk =>
        -- The whole buffer at once.
        have hlen : 0 < buf.length := List.length_pos_iff.mpr hbuf
        obtain ⟨log, hrun, hsent, hrecv, hanswers⟩ := ih _ (hk ⟨buf.length, hlen, Nat.le_refl _⟩)
        refine ⟨_, .cons hrun, ?_, ?_, hanswers⟩
        · rw [sentBytes_cons, hsent]
          simp [Event.sent]
        · rw [receivedBytes_cons, hrecv]
          simp [Event.received]
    | .inl (.recv m), k, ih, h =>
      cases h with
      | @recv bytes _ s _ hbytes hk =>
        -- All bytes asked for at once.
        obtain ⟨log, hrun, hsent, hrecv, hanswers⟩ :=
          ih _ (hk bytes [] hbytes (Nat.le_refl _) (List.append_nil _).symm)
        refine ⟨_, .cons hrun, ?_, ?_, hanswers⟩
        · rw [sentBytes_cons, hsent]
          simp [Event.sent]
        · rw [receivedBytes_cons, hrecv]
          simp [Event.received]
    | .inr o, k, ih, h =>
      cases hx : f n o with
      | none =>
        have hresolve : Prog.resolve (S := sockSig β) f n (.op (.inr o) k) = .ret none := by
          have heq : Prog.resolve (S := sockSig β) f n (.op (.inr o) k) =
              (f n o).elim (.ret none) fun a => Prog.resolve f (n + 1) (k a) := rfl
          rw [heq, hx]
          rfl
        rw [hresolve] at h
        cases h
      | some x =>
        have hresolve := Prog.resolve_inr (S := sockSig β) hx (k := k)
        rw [hresolve] at h
        obtain ⟨log, hrun, hsent, hrecv, hanswers⟩ := ih x h
        refine ⟨_, .cons hrun, hsent, hrecv, fun e he => ?_⟩
        rcases List.mem_cons.mp he with rfl | he
        · exact ⟨n, hx⟩
        · exact hanswers e he

namespace Duplex

/-- The left side is ahead by the bytes in flight: the right side has exactly these to receive
before the two scripts are dual again. `n` is what is left of the two scripts, and `outL`, `outR`
are all the bytes either side sends over the whole conversation. -/
structure Ahead (a : α) (b : γ) (outL outR : List β) (c : Duplex β α γ) (n : ℕ) : Prop where
  /-- Nothing is in flight towards the side that is ahead. -/
  idle : c.toLeft = []
  /-- The remaining scripts, and the bytes already sent. -/
  scripts : ∃ s, Follows c.left s a ∧ Follows c.right (c.toRight.map .recv ++ s.map .flip) b ∧
    c.sentLeft ++ scriptSent s = outL ∧ c.sentRight ++ scriptSent (s.map .flip) = outR ∧
    n = s.length + (c.toRight.length + s.length)

/-- One side or the other is ahead. -/
def Joint (a : α) (b : γ) (outL outR : List β) (c : Duplex β α γ) (n : ℕ) : Prop :=
  Ahead a b outL outR c n ∨ Ahead b a outR outL c.swap n

variable {a : α} {b : γ} {outL outR : List β} {c c' : Duplex β α γ} {n : ℕ}

/-- The two ends can be exchanged. -/
theorem Joint.swap (h : Joint a b outL outR c n) : Joint b a outR outL c.swap n := Or.symm h

/-- A script that starts with received bytes and with sent ones starts with no received bytes. -/
private theorem eq_nil_of_recv_eq_send {w out : List β} {s t : List (Item β)} (hout : out ≠ [])
    (h : w.map .recv ++ s = out.map .send ++ t) : w = [] := by
  cases w with
  | nil => rfl
  | cons x w =>
    cases out with
    | nil => exact absurd rfl hout
    | cons y out => simp at h

/-- A call of the left side, when it is ahead or level, is a send. -/
private theorem Ahead.joint_left {p : Prog (sockSig β) α} {inbox out : List β}
    (h : Ahead a b outL outR c n) (hstep : HalfStep c.left c.toLeft p inbox out) :
    ∃ n' < n, Joint a b outL outR
      ⟨p, c.right, c.toRight ++ out, inbox, c.sentLeft ++ out, c.sentRight⟩ n' := by
  obtain ⟨s, hleft, hright, hL, hR, rfl⟩ := h.scripts
  rcases hleft.halfStep hstep with ⟨hout, rfl, s', rfl, hp⟩ | ⟨-, bytes, s', got,
    hgot, -, -, hin, -⟩
  · refine ⟨_, ?_, .inl ⟨h.idle, s', hp, ?_, ?_, ?_, rfl⟩⟩
    · have := List.length_pos_iff.mpr hout
      simp only [List.length_append, List.length_map]
      omega
    · simpa using hright
    · simpa using hL
    · simpa using hR
  · rw [h.idle] at hin
    exact absurd (List.append_eq_nil_iff.mp hin.symm).1 hgot

/-- A call of the left side, when the right side is ahead or level. -/
private theorem Ahead.joint_left_of_swap {p : Prog (sockSig β) α} {inbox out : List β}
    (h : Ahead b a outR outL c.swap n) (hstep : HalfStep c.left c.toLeft p inbox out) :
    ∃ n' < n, Joint a b outL outR
      ⟨p, c.right, c.toRight ++ out, inbox, c.sentLeft ++ out, c.sentRight⟩ n' := by
  obtain ⟨s, hright, hleft, hR, hL, rfl⟩ := h.scripts
  have hidle : c.toRight = [] := h.idle
  simp only [Duplex.swap] at hright hleft hR hL
  rcases hleft.halfStep hstep with
    ⟨hout, rfl, s', hs, hp⟩ | ⟨rfl, bytes, s', got, hgot, hle, hs, hin, hp⟩
  · -- The two sides were level, and the left side gets ahead by `out`.
    have hw : c.toLeft = [] := eq_nil_of_recv_eq_send hout hs
    rw [hw, List.map_nil, List.nil_append] at hs
    have hs' : s = out.map .recv ++ s'.map .flip := by
      have := congrArg (List.map Item.flip) hs
      simpa using this
    subst hs'
    refine ⟨_, ?_, .inl ⟨hw, s', hp, ?_, ?_, ?_, rfl⟩⟩
    · have := List.length_pos_iff.mpr hout
      simp only [Duplex.swap, hidle, hw, List.length_append, List.length_map, List.nil_append,
        List.length_nil]
      omega
    · simpa [hidle] using hright
    · simpa using hL
    · simpa using hR
  · -- The left side takes `got` off its queue.
    rw [hin, List.map_append, List.append_assoc] at hs
    obtain ⟨rest, hrest⟩ : ∃ rest, bytes = got ++ rest := by
      have htake := congrArg (List.take got.length) hs
      rw [List.take_left' (by simp), List.take_append_of_le_length (by simpa using hle),
        ← List.map_take] at htake
      have : got = bytes.take got.length := List.map_injective_iff.mpr
        (fun x y hxy => by injection hxy) htake
      exact ⟨bytes.drop got.length, by rw [← List.take_append_drop got.length bytes, ← this]; simp⟩
    subst hrest
    rw [List.map_append, List.append_assoc, List.append_cancel_left_eq] at hs
    have hfol := hp rest rfl
    rw [← hs] at hfol
    refine ⟨_, ?_, .inr ⟨?_, s, hright, hfol, ?_, ?_, rfl⟩⟩
    · have := List.length_pos_iff.mpr hgot
      simp only [Duplex.swap, hin, List.length_append]
      omega
    · simpa [Duplex.swap] using hidle
    · simpa [Duplex.swap] using hR
    · simpa [Duplex.swap] using hL

/-- One socket call of either side preserves the invariant and uses up part of the scripts. -/
theorem Joint.step (h : Joint a b outL outR c n) (hstep : Step c c') :
    ∃ n' < n, Joint a b outL outR c' n' := by
  cases hstep with
  | left hhalf =>
    rcases h with h | h
    · exact h.joint_left hhalf
    · exact h.joint_left_of_swap hhalf
  | right hhalf =>
    rcases h.swap with h | h
    · obtain ⟨n', hn', hj⟩ := h.joint_left hhalf
      exact ⟨n', hn', hj.swap⟩
    · obtain ⟨n', hn', hj⟩ := Ahead.joint_left_of_swap h hhalf
      exact ⟨n', hn', hj.swap⟩

/-- The two programs have returned `a` and `b`, every byte has been delivered, and `outL`, `outR`
are the bytes that crossed the wire. -/
structure Finished (a : α) (b : γ) (outL outR : List β) (c : Duplex β α γ) : Prop where
  left : c.left = .ret a
  right : c.right = .ret b
  toRight : c.toRight = []
  toLeft : c.toLeft = []
  sentLeft : c.sentLeft = outL
  sentRight : c.sentRight = outR

/-- Unless both have finished, one of them can make a step. -/
private theorem Ahead.progress (h : Ahead a b outL outR c n) :
    (∃ c', Step c c') ∨ Finished a b outL outR c := by
  obtain ⟨s, hleft, hright, hL, hR, -⟩ := h.scripts
  -- The right side can read if something is under way to it.
  cases hw : c.toRight with
  | cons x w =>
    rw [hw, List.map_cons, List.cons_append] at hright
    obtain ⟨q, inbox, out, hhalf⟩ := hright.exists_halfStep_recv x w
    exact .inl ⟨_, .right (by rw [hw]; exact hhalf)⟩
  | nil =>
    cases s with
    | nil =>
      refine .inr ⟨hleft.eq_ret, ?_, hw, h.idle, by simpa [scriptSent] using hL,
        by simpa [scriptSent] using hR⟩
      rw [hw] at hright
      exact hright.eq_ret
    | cons i s =>
      cases i with
      -- Otherwise the next item of the script is the left side's to send, or the right side's.
      | send x =>
        obtain ⟨p, out, hhalf⟩ := hleft.exists_halfStep_send c.toLeft
        exact .inl ⟨_, .left hhalf⟩
      | recv x =>
        rw [hw] at hright
        obtain ⟨q, out, hhalf⟩ := hright.exists_halfStep_send c.toRight
        exact .inl ⟨_, .right hhalf⟩

/-- Either some side can make a call, or both have returned. -/
theorem Joint.progress (h : Joint a b outL outR c n) :
    (∃ c', Step c c') ∨ Finished a b outL outR c := by
  rcases h with h | h
  · exact h.progress
  · rcases h.progress with ⟨c', hstep⟩ | hfin
    · refine .inl ?_
      cases hstep with
      | left hhalf => exact ⟨_, .right hhalf⟩
      | right hhalf => exact ⟨_, .left hhalf⟩
    · exact .inr ⟨hfin.right, hfin.left, hfin.toLeft, hfin.toRight, hfin.sentRight, hfin.sentLeft⟩

/-- Each step is one of those that are left. -/
theorem Joint.steps {m : ℕ} (h : Joint a b outL outR c n) (hsteps : Steps m c c') :
    ∃ n', n' + m ≤ n ∧ Joint a b outL outR c' n' := by
  induction hsteps with
  | zero c => exact ⟨n, Nat.le_refl _, h⟩
  | succ _ hstep ih =>
    obtain ⟨n', hn', hj⟩ := ih h
    obtain ⟨n'', hlt, hj'⟩ := hj.step hstep
    exact ⟨n'', by omega, hj'⟩

/-- Two programs with dual scripts: every execution makes at most as many calls as the scripts have
bytes, can always go on until both have returned, and delivers every byte. -/
theorem steps_of_follows {p : Prog (sockSig β) α} {q : Prog (sockSig β) γ} {s : List (Item β)}
    (hp : Follows p s a) (hq : Follows q (s.map .flip) b) {m : ℕ}
    (hsteps : Steps m (start p q) c) :
    m ≤ 2 * s.length ∧
      ((∃ c', Step c c') ∨ Finished a b (scriptSent s) (scriptSent (s.map .flip)) c) := by
  have hstart : Joint a b (scriptSent s) (scriptSent (s.map .flip)) (start p q)
      (s.length + (0 + s.length)) := .inl ⟨rfl, s, hp, hq, rfl, rfl, rfl⟩
  obtain ⟨n', hn', hj⟩ := hstart.steps hsteps
  exact ⟨by omega, hj.progress⟩

end Duplex

end Effects
