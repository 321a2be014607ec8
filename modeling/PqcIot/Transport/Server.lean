import PqcIot.Effects.Transfer
import PqcIot.Transport.Laws

/-!
# Framing in the server

`read_exactly`, `read_frame` and `write_frame` of `server/protocol.py`, as programs over socket
calls, and that they satisfy the laws of framing (`frameLaws`, `frameFollows`). An exception is the
value a program returns; a failing socket call raises `OSError`.
-/

namespace PqcIot

open Effects Protocol

namespace Server

variable {β : Type} {E : Signature}

/-- A failed framing call raises. -/
@[reducible]
def FrameFailure : FrameOp β → Type := fun _ => PyExn

/-- Framing calls of the server. -/
abbrev frames (β : Type) : Signature := frameSig β FrameFailure

/-- `read_exactly`. -/
def readExactly (n : ℕ) :
    Prog ((sockSig β).sum E) (Except PyExn { l : List β // l.length = n }) := do
  match ← recvLoop n ⟨[], Nat.zero_le _⟩ with
  | .error (.closed _) => return .error (.protocolError "peer closed mid-frame")
  | .error (.error _) => return .error .osError
  | .ok bytes => return .ok bytes

/-- `socket.sendall`. -/
def sendall (buf : List β) : Prog ((sockSig β).sum E) (Except PyExn Unit) := do
  if ← sendLoop buf then return .ok () else return .error .osError

variable (P : Prims β)

/-- `read_frame`, where `limit` is `MAX_FRAME`. -/
def readFrame (limit : ℕ) :
    Prog ((sockSig β).sum E) (Except PyExn (UInt8 × Payload β limit)) := do
  match ← readExactly 3 with
  | .error e => return .error e
  | .ok ⟨head, _⟩ =>
    let bytes := P.vals head
    let ftype := bytes[0]!
    let length := beNat [bytes[1]!, bytes[2]!]
    -- The length is checked before anything of the payload is read.
    if h : length > limit then
      return .error (.protocolError s!"frame length {length} exceeds maximum")
    else
      match ← readExactly length with
      | .error e => return .error e
      | .ok payload => return .ok (ftype, ⟨payload.1, payload.2.trans_le (Nat.not_lt.mp h)⟩)

/-- `write_frame`. -/
def writeFrame (ftype : UInt8) (payload : List β) :
    Prog ((sockSig β).sum E) (Except PyExn Unit) :=
  if payload.length > maxFrame then
    return .error (.protocolError "frame too large to send")
  else
    sendall (P.lits (ftype :: beBytes 2 payload.length) ++ payload)

/-- The server's framing calls, over socket calls. -/
def framing : ∀ o : FrameOp β, Prog ((sockSig β).sum E) (FrameOp.Ans β FrameFailure o)
  | .write ftype payload => writeFrame P ftype payload
  | .read capacity => readFrame P capacity

/-! ## Safety -/

section Safety

variable {tr : List (Event ((sockSig β).sum E))}

/-- What `read_exactly` returns is what was received. -/
private theorem readExactly_run {n : ℕ}
    {r : Prog ((sockSig β).sum E) (Except PyExn { l : List β // l.length = n })}
    (h : Prog.Run (readExactly n) tr r) :
    sentBytes tr = [] ∧ internalEvents tr = [] ∧
      ∀ l, r = .ret (.ok l) → l.1 = receivedBytes tr := by
  rcases h.of_bind with ⟨o, k, hp, rfl⟩ | ⟨l₁, l₂, a, rfl, hl₁, hl₂⟩
  · obtain ⟨hsent, hint, -⟩ := recvLoop_run n _ hp
    exact ⟨hsent, hint, fun _ hl => by cases hl⟩
  · obtain ⟨hsent, hint, hok⟩ := recvLoop_run n _ hl₁
    match a, hl₂, hok with
    | .error (.closed _), hl₂, _ | .error (.error _), hl₂, _ =>
      obtain ⟨rfl, rfl⟩ := hl₂.of_ret
      exact ⟨by simpa using hsent, by simpa using hint, fun _ hl => by cases hl⟩
    | .ok l, hl₂, hok =>
      obtain ⟨rfl, rfl⟩ := hl₂.of_ret
      refine ⟨by simpa using hsent, by simpa using hint, fun l' hl => ?_⟩
      cases hl
      simpa using hok l rfl

/-- `sendall` sends everything, or as much as went before a failure. -/
private theorem sendall_run {buf : List β} {r : Prog ((sockSig β).sum E) (Except PyExn Unit)}
    (h : Prog.Run (sendall buf) tr r) :
    receivedBytes tr = [] ∧ internalEvents tr = [] ∧ sentBytes tr <+: buf ∧
      (r = .ret (.ok ()) → sentBytes tr = buf) ∧ (∀ e, r = .ret (.error e) → SendFailed tr) := by
  rcases h.of_bind with ⟨o, k, hp, rfl⟩ | ⟨l₁, l₂, a, rfl, hl₁, hl₂⟩
  · obtain ⟨hrecv, hint, hpre, -⟩ := sendLoop_run buf hp
    exact ⟨hrecv, hint, hpre, fun hr => (by cases hr), fun _ hr => by cases hr⟩
  · obtain ⟨hrecv, hint, hpre, hall, hfailed⟩ := sendLoop_run buf hl₁
    cases a with
    | false =>
      obtain ⟨rfl, rfl⟩ := hl₂.of_ret
      exact ⟨by simpa using hrecv, by simpa using hint, by simpa using hpre,
        fun hr => (by cases hr), fun _ _ => by simpa using hfailed rfl⟩
    | true =>
      obtain ⟨rfl, rfl⟩ := hl₂.of_ret
      exact ⟨by simpa using hrecv, by simpa using hint, by simpa using hpre,
        fun _ => by simpa using hall rfl, fun _ hr => by cases hr⟩

/-- The header of a frame of length three, read as the code reads it. -/
private theorem vals_head {head : List β} (h : head.length = 3) :
    P.vals head = (P.vals head)[0]! ::
      beBytes 2 (beNat [(P.vals head)[1]!, (P.vals head)[2]!]) := by
  match head, h with
  | [x, y, z], _ => exact congrArg (P.val x :: ·) (beBytes_beNat [P.val y, P.val z]).symm

/-- `read_frame` returns a frame that was received. -/
private theorem readFrame_run {limit : ℕ}
    {r : Prog ((sockSig β).sum E) (Except PyExn (UInt8 × Payload β limit))}
    (h : Prog.Run (readFrame P limit) tr r) :
    sentBytes tr = [] ∧ internalEvents tr = [] ∧
      ∀ ftype payload, r = .ret (.ok (ftype, payload)) →
        Framed P ftype payload.1 (receivedBytes tr) := by
  -- The header is being read, or it has been.
  rcases h.of_bind with ⟨o, k, hp, rfl⟩ | ⟨l₁, l₂, a, rfl, hl₁, hl₂⟩
  · obtain ⟨hsent, hint, -⟩ := readExactly_run hp
    exact ⟨hsent, hint, fun _ _ hr => by cases hr⟩
  · obtain ⟨hsent, hint, hok⟩ := readExactly_run hl₁
    match a, hl₂, hok with
    | .error _, hl₂, _ =>
      obtain ⟨rfl, rfl⟩ := hl₂.of_ret
      exact ⟨by simpa using hsent, by simpa using hint, fun _ _ hr => by cases hr⟩
    | .ok ⟨head, hhead⟩, hl₂, hok =>
      obtain rfl : head = receivedBytes l₁ := hok _ rfl
      dsimp only at hl₂
      split at hl₂
      · obtain ⟨rfl, rfl⟩ := hl₂.of_ret
        exact ⟨by simpa using hsent, by simpa using hint, fun _ _ hr => by cases hr⟩
      · -- The same for the payload.
        rcases hl₂.of_bind with ⟨o, k, hp, rfl⟩ | ⟨m₁, m₂, b, rfl, hm₁, hm₂⟩
        · obtain ⟨hsent', hint', -⟩ := readExactly_run hp
          exact ⟨by simp [hsent, hsent'], by simp [hint, hint'], fun _ _ hr => by cases hr⟩
        · obtain ⟨hsent', hint', hok'⟩ := readExactly_run hm₁
          match b, hm₂, hok' with
          | .error _, hm₂, _ =>
            obtain ⟨rfl, rfl⟩ := hm₂.of_ret
            exact ⟨by simp [hsent, hsent'], by simp [hint, hint'], fun _ _ hr => by cases hr⟩
          | .ok payload, hm₂, hok' =>
            obtain ⟨rfl, rfl⟩ := hm₂.of_ret
            refine ⟨by simp [hsent, hsent'], by simp [hint, hint'], fun ftype payload' hr => ?_⟩
            cases hr
            refine ⟨receivedBytes l₁, ?_, by simp [hok' payload rfl]⟩
            rw [payload.2]
            exact vals_head P hhead

/-- The server's framing satisfies the laws of framing. -/
theorem frameLaws : FrameLaws P maxFrame (framing (E := E) P) where
  write {ftype payload tr r} h := by
    simp only [framing, writeFrame] at h
    split at h
    · rename_i hlong
      obtain ⟨rfl, rfl⟩ := h.of_ret
      exact ⟨rfl, rfl, List.nil_prefix, fun hr => (by cases hr), fun _ _ hle =>
        absurd hlong (Nat.not_lt.mpr hle)⟩
    · obtain ⟨hrecv, hint, hpre, hall, hfailed⟩ := sendall_run h
      exact ⟨hrecv, hint, hpre, hall, fun e hr _ => hfailed e hr⟩
  read h := readFrame_run P h

end Safety

/-! ## Liveness -/

section Liveness

variable {α : Type} {f : ℕ → (o : E.Op) → Option (E.Ans o)} {n : ℕ} {s : List (Item β)}
  {a : Option α}

/-- Against a script, `read_exactly` receives what the script sends. -/
private theorem follows_readExactly {len : ℕ} {bytes : List β} (hlen : bytes.length = len)
    {k : Except PyExn { l : List β // l.length = len } → Prog ((sockSig β).sum E) α}
    (hk : Follows (Prog.resolve f n (k (.ok ⟨bytes, hlen⟩))) s a) :
    Follows (Prog.resolve f n (readExactly len >>= k)) (bytes.map .recv ++ s) a := by
  rw [readExactly, Prog.bind_bind]
  exact follows_recvLoop _ bytes (by simpa using hlen) hk

/-- The server's framing gets through. -/
theorem frameFollows : FrameFollows P maxFrame (framing (E := E) P) where
  write {α f n s a ftype payload k} hlen hk := by
    simp only [framing, writeFrame]
    rw [if_neg (by omega), sendall, Prog.bind_bind]
    exact follows_sendLoop _ hk
  read {α f n s a capacity ftype payload} hcapacity k hlen hk := by
    have hvals : P.vals (P.lits (ftype :: beBytes 2 payload.length)) =
        ftype :: beBytes 2 payload.length := P.vals_lits _
    have hlength : beNat [(P.vals (P.lits (ftype :: beBytes 2 payload.length)))[1]!,
        (P.vals (P.lits (ftype :: beBytes 2 payload.length)))[2]!] = payload.length := by
      rw [hvals]
      exact beNat_beBytes_of_lt (n := 2) (by rw [maxFrame] at hlen; omega)
    have htype : (P.vals (P.lits (ftype :: beBytes 2 payload.length)))[0]! = ftype := by
      rw [hvals]
      rfl
    rw [frameBytes, List.map_append, List.append_assoc]
    simp only [framing, readFrame, Prog.bind_bind]
    refine follows_readExactly (by simp) ?_
    dsimp only
    rw [dif_neg (by rw [hlength]; omega), Prog.bind_bind]
    refine follows_readExactly hlength.symm ?_
    simpa only [Prog.pure_eq_ret, Prog.ret_bind, htype] using hk

end Liveness

end Server

end PqcIot
