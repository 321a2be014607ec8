import PqcIot.Effects.Transfer
import PqcIot.Transport.Laws

/-!
# Framing in the firmware

`send_all`, `recv_all`, `write_frame` and `read_frame` of `pqc_session.c`, as programs over socket
calls, and that they satisfy the laws of framing (`frameLaws`, `frameFollows`).
-/

namespace PqcIot

open Effects

namespace Firmware

variable {β : Type} {E : Signature}

/-- What a failed framing call leaves behind: of a frame that was being read, the part of the
payload that had arrived. -/
@[reducible]
def FrameFailure : FrameOp β → Type
  | .write _ _ => Unit
  | .read capacity => Payload β capacity

/-- Framing calls of the firmware. -/
abbrev frames (β : Type) : Signature := frameSig β FrameFailure

/-- `send_all`. -/
def sendAll (buf : List β) : Prog ((sockSig β).sum E) Bool := sendLoop buf

/-- `recv_all`, which does not tell a closed socket from an error. -/
def recvAll (len : ℕ) :
    Prog ((sockSig β).sum E) (Except (Payload β len) { l : List β // l.length = len }) := do
  match ← recvLoop len ⟨[], Nat.zero_le _⟩ with
  | .error failure => return .error failure.got
  | .ok bytes => return .ok bytes

variable (P : Prims β)

/-- `write_frame`; `len` is a `uint16_t`. -/
def writeFrame (ftype : UInt8) (payload : List β) : Prog ((sockSig β).sum E) Bool := do
  let len := UInt16.ofNat payload.length
  let head := P.lits [ftype, (len >>> 8).toUInt8, (len &&& 0xff).toUInt8]
  if ← sendAll head then sendAll payload else return false

/-- `read_frame`. -/
def readFrame (capacity : ℕ) :
    Prog ((sockSig β).sum E) (Except (Payload β capacity) (UInt8 × Payload β capacity)) := do
  match ← recvAll 3 with
  | .error _ => return .error ⟨[], Nat.zero_le _⟩
  | .ok ⟨head, _⟩ =>
    let bytes := P.vals head
    let ftype := bytes[0]!
    let len := (bytes[1]!.toUInt16 <<< 8) ||| bytes[2]!.toUInt16
    -- The payload of a frame that is too long stays in the socket.
    if h : len.toNat > capacity then
      return .error ⟨[], Nat.zero_le _⟩
    else
      match ← recvAll len.toNat with
      | .error got => return .error ⟨got.1, got.2.trans (Nat.not_lt.mp h)⟩
      | .ok payload => return .ok (ftype, ⟨payload.1, payload.2.trans_le (Nat.not_lt.mp h)⟩)

/-- The firmware's framing calls, over socket calls. -/
def framing : ∀ o : FrameOp β, Prog ((sockSig β).sum E) (FrameOp.Ans β FrameFailure o)
  | .write ftype payload => do
    if ← writeFrame P ftype payload then return .ok () else return .error ()
  | .read capacity => readFrame P capacity

/-! ## Safety -/

section Safety

variable {tr : List (Event ((sockSig β).sum E))}

/-- What `recv_all` returns is what was received. -/
private theorem recvAll_run {len : ℕ}
    {r : Prog ((sockSig β).sum E) (Except (Payload β len) { l : List β // l.length = len })}
    (h : Prog.Run (recvAll len) tr r) :
    sentBytes tr = [] ∧ internalEvents tr = [] ∧
      ∀ l, r = .ret (.ok l) → l.1 = receivedBytes tr := by
  rcases h.of_bind with ⟨o, k, hp, rfl⟩ | ⟨l₁, l₂, a, rfl, hl₁, hl₂⟩
  · obtain ⟨hsent, hint, -⟩ := recvLoop_run len _ hp
    exact ⟨hsent, hint, fun _ hl => by cases hl⟩
  · obtain ⟨hsent, hint, hok⟩ := recvLoop_run len _ hl₁
    match a, hl₂, hok with
    | .error _, hl₂, _ =>
      obtain ⟨rfl, rfl⟩ := hl₂.of_ret
      exact ⟨by simpa using hsent, by simpa using hint, fun _ hl => by cases hl⟩
    | .ok l, hl₂, hok =>
      obtain ⟨rfl, rfl⟩ := hl₂.of_ret
      refine ⟨by simpa using hsent, by simpa using hint, fun l' hl => ?_⟩
      cases hl
      simpa using hok l rfl

/-- `write_frame` sends the frame, or as much of it as went before a failure. -/
private theorem writeFrame_run {ftype : UInt8} {payload : List β}
    {r : Prog ((sockSig β).sum E) Bool} (h : Prog.Run (writeFrame P ftype payload) tr r) :
    receivedBytes tr = [] ∧ internalEvents tr = [] ∧
      sentBytes tr <+: frameBytes P ftype payload ∧
      (r = .ret true → sentBytes tr = frameBytes P ftype payload) ∧
      (r = .ret false → SendFailed tr) := by
  have hframe : frameBytes P ftype payload = P.lits [ftype,
      (UInt16.ofNat payload.length >>> 8).toUInt8, (UInt16.ofNat payload.length &&& 0xff).toUInt8]
        ++ payload := by
    rw [frameBytes, ← shiftRight_and_eq_beBytes]
  rw [hframe]
  -- The header is being sent, or it has been.
  rcases h.of_bind with ⟨o, k, hp, rfl⟩ | ⟨l₁, l₂, a, rfl, hl₁, hl₂⟩
  · obtain ⟨hrecv, hint, hpre, -⟩ := sendLoop_run _ hp
    exact ⟨hrecv, hint, hpre.trans (List.prefix_append _ _), fun hr => (by cases hr), fun hr => by
      cases hr⟩
  · obtain ⟨hrecv, hint, hpre, hall, hfailed⟩ := sendLoop_run _ hl₁
    cases a with
    | false =>
      obtain ⟨rfl, rfl⟩ := hl₂.of_ret
      refine ⟨by simpa using hrecv, by simpa using hint, ?_, fun hr => (by cases hr), fun _ => ?_⟩
      · simpa using hpre.trans (List.prefix_append _ _)
      · exact (hfailed rfl).mono (List.subset_append_left _ _)
    | true =>
      obtain ⟨hrecv', hint', hpre', hall', hfailed'⟩ := sendLoop_run payload hl₂
      refine ⟨by simp [hrecv, hrecv'], by simp [hint, hint'], ?_, fun hr => ?_, fun hr =>
        (hfailed' hr).mono (List.subset_append_right _ _)⟩
      · rw [sentBytes_append, hall rfl]
        exact (List.prefix_append_right_inj _).mpr hpre'
      · rw [sentBytes_append, hall rfl, hall' hr]

/-- The header of a frame of length three, read as the code reads it. -/
private theorem vals_head {head : List β} (h : head.length = 3) :
    P.vals head = (P.vals head)[0]! ::
      beBytes 2 (((P.vals head)[1]!.toUInt16 <<< 8) ||| (P.vals head)[2]!.toUInt16).toNat := by
  match head, h with
  | [x, y, z], _ =>
    have hbytes := beBytes_beNat [P.val y, P.val z]
    rw [← toNat_shiftLeft_or] at hbytes
    exact congrArg (P.val x :: ·) hbytes.symm

/-- `read_frame` returns a frame that was received. -/
private theorem readFrame_run {capacity : ℕ}
    {r : Prog ((sockSig β).sum E) (Except (Payload β capacity) (UInt8 × Payload β capacity))}
    (h : Prog.Run (readFrame P capacity) tr r) :
    sentBytes tr = [] ∧ internalEvents tr = [] ∧
      ∀ ftype payload, r = .ret (.ok (ftype, payload)) →
        Framed P ftype payload.1 (receivedBytes tr) := by
  rcases h.of_bind with ⟨o, k, hp, rfl⟩ | ⟨l₁, l₂, a, rfl, hl₁, hl₂⟩
  · obtain ⟨hsent, hint, -⟩ := recvAll_run hp
    exact ⟨hsent, hint, fun _ _ hr => by cases hr⟩
  · obtain ⟨hsent, hint, hok⟩ := recvAll_run hl₁
    match a, hl₂, hok with
    | .error _, hl₂, _ =>
      obtain ⟨rfl, rfl⟩ := hl₂.of_ret
      exact ⟨by simpa using hsent, by simpa using hint, fun _ _ hr => by cases hr⟩
    | .ok ⟨head, hhead⟩, hl₂, hok =>
      obtain rfl : head = receivedBytes l₁ := hok _ rfl
      dsimp only at hl₂
      split at hl₂
      · obtain ⟨rfl, rfl⟩ := hl₂.of_ret
        exact ⟨by simpa using hsent, by simpa using hint, fun _ _ hr => by cases hr⟩
      · rcases hl₂.of_bind with ⟨o, k, hp, rfl⟩ | ⟨m₁, m₂, b, rfl, hm₁, hm₂⟩
        · obtain ⟨hsent', hint', -⟩ := recvAll_run hp
          exact ⟨by simp [hsent, hsent'], by simp [hint, hint'], fun _ _ hr => by cases hr⟩
        · obtain ⟨hsent', hint', hok'⟩ := recvAll_run hm₁
          match b, hm₂, hok' with
          | .error _, hm₂, _ =>
            obtain ⟨rfl, rfl⟩ := hm₂.of_ret
            exact ⟨by simp [hsent, hsent'], by simp [hint, hint'], fun _ _ hr => by cases hr⟩
          | .ok payload, hm₂, hok' =>
            obtain ⟨rfl, rfl⟩ := hm₂.of_ret
            refine ⟨by simp [hsent, hsent'], by simp [hint, hint'], fun ftype payload' hr => ?_⟩
            cases hr
            refine ⟨receivedBytes l₁, ?_, by simp [hok' payload rfl]⟩
            rw [payload.2]
            exact vals_head P hhead

/-- The firmware's framing satisfies the laws of framing. -/
theorem frameLaws (limit : ℕ) : FrameLaws P limit (framing (E := E) P) where
  write {ftype payload tr r} h := by
    rcases h.of_bind with ⟨o, k, hp, rfl⟩ | ⟨l₁, l₂, a, rfl, hl₁, hl₂⟩
    · obtain ⟨hrecv, hint, hpre, -⟩ := writeFrame_run P hp
      exact ⟨hrecv, hint, hpre, fun hr => (by cases hr), fun _ hr => by cases hr⟩
    · obtain ⟨hrecv, hint, hpre, hall, hfailed⟩ := writeFrame_run P hl₁
      cases a with
      | false =>
        obtain ⟨rfl, rfl⟩ := hl₂.of_ret
        exact ⟨by simpa using hrecv, by simpa using hint, by simpa using hpre,
          fun hr => (by cases hr), fun _ _ _ => by simpa using hfailed rfl⟩
      | true =>
        obtain ⟨rfl, rfl⟩ := hl₂.of_ret
        exact ⟨by simpa using hrecv, by simpa using hint, by simpa using hpre,
          fun _ => by simpa using hall rfl, fun _ hr => by cases hr⟩
  read h := readFrame_run P h

end Safety

/-! ## Liveness -/

section Liveness

variable {α : Type} {f : ℕ → (o : E.Op) → Option (E.Ans o)} {n : ℕ} {s : List (Item β)}
  {a : Option α}

/-- Against a script, `recv_all` receives what the script sends. -/
private theorem follows_recvAll {len : ℕ} {bytes : List β} (hlen : bytes.length = len)
    {k : Except (Payload β len) { l : List β // l.length = len } → Prog ((sockSig β).sum E) α}
    (hk : Follows (Prog.resolve f n (k (.ok ⟨bytes, hlen⟩))) s a) :
    Follows (Prog.resolve f n (recvAll len >>= k)) (bytes.map .recv ++ s) a := by
  rw [recvAll, Prog.bind_bind]
  exact follows_recvLoop _ bytes (by simpa using hlen) hk

/-- The firmware's framing gets through. -/
theorem frameFollows : FrameFollows P 65535 (framing (E := E) P) where
  write {α f n s a ftype payload k} hlen hk := by
    have hframe : frameBytes P ftype payload = P.lits [ftype,
        (UInt16.ofNat payload.length >>> 8).toUInt8, (UInt16.ofNat payload.length &&& 0xff).toUInt8]
          ++ payload := by
      rw [frameBytes, ← shiftRight_and_eq_beBytes]
    rw [hframe, List.map_append, List.append_assoc]
    simp only [framing, writeFrame, Prog.bind_bind]
    refine follows_sendLoop _ ?_
    rw [if_pos rfl]
    exact follows_sendLoop payload hk
  read {α f n s a capacity ftype payload} hcapacity k hlen hk := by
    rw [frameBytes, List.map_append, List.append_assoc]
    simp only [framing, readFrame, Prog.bind_bind]
    refine follows_recvAll (by simp) ?_
    have hlength : ((((P.vals (P.lits (ftype :: beBytes 2 payload.length)))[1]!).toUInt16 <<< 8) |||
        ((P.vals (P.lits (ftype :: beBytes 2 payload.length)))[2]!).toUInt16).toNat =
          payload.length := by
      rw [P.vals_lits, toNat_shiftLeft_or]
      exact beNat_beBytes_of_lt (n := 2) (by omega)
    have htype : (P.vals (P.lits (ftype :: beBytes 2 payload.length)))[0]! = ftype := by
      rw [P.vals_lits]
      rfl
    dsimp only
    rw [dif_neg (by rw [hlength]; omega), Prog.bind_bind]
    refine follows_recvAll hlength.symm ?_
    simpa only [Prog.pure_eq_ret, Prog.ret_bind, htype] using hk

end Liveness

end Firmware

end PqcIot
