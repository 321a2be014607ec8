import PqcIot.Crypto.Ideal
import PqcIot.Effects.Stream
import PqcIot.Transport.Firmware
import PqcIot.Transport.Server

/-!
# Streams of frames

Frames written one after another by `write_frame` and read by repeated calls of `read_frame`, in
either implementation. `FrameTransacts P limit report H` says what single calls do on a stream,
however it is split; `transacts_writeFrames` and `transacts_readFrames` follow by induction on the
list of frames. The main result is `framing_lossless`: readers get back exactly the frames that were
written, and stop at the first one that is cut off or too long.
-/

namespace PqcIot

open Effects Protocol Symbolic

variable {β : Type} {ε : FrameOp β → Type} {E : Signature}

/-- A frame: type and payload. -/
abbrev Frame (β : Type) : Type := UInt8 × List β

/-- The bytes of frames, one after another. -/
def streamBytes (P : Prims β) (fs : List (Frame β)) : List β :=
  fs.flatMap fun f => frameBytes P f.1 f.2

@[simp]
theorem streamBytes_cons (P : Prims β) (f : Frame β) (fs : List (Frame β)) :
    streamBytes P (f :: fs) = frameBytes P f.1 f.2 ++ streamBytes P fs := rfl

/-- Write frames until a call fails; `true` if none has. -/
def writeFrames : List (Frame β) → Prog ((frameSig β ε).sum E) Bool
  | [] => return true
  | f :: fs => do
    match ← Prog.call (S := (frameSig β ε).sum E) (.inl (.write f.1 f.2)) with
    | .error _ => return false
    | .ok () => writeFrames fs

/-- Read frames until a call fails, `n` of them at most: the frames and the failure. -/
def readFrames (capacity : ℕ) :
    ℕ → Prog ((frameSig β ε).sum E) (List (Frame β) × Option (ε (.read capacity)))
  | 0 => return ([], none)
  | n + 1 => do
    match ← Prog.call (S := (frameSig β ε).sum E) (.inl (.read capacity)) with
    | .error e => return ([], some e)
    | .ok (ftype, payload) => do
      let (fs, failure) ← readFrames capacity n
      return ((ftype, payload.1) :: fs, failure)

/-- Why a reader stops. -/
inductive Stop where
  /-- The stream has ended, between two frames or inside one. -/
  | ended
  /-- A header announces more than is accepted. -/
  | tooLong (len : ℕ)

/-- What a reader that accepts at most `limit` bytes of payload stops at. -/
inductive Stops (P : Prims β) (limit : ℕ) : List β → Stop → Prop
  /-- Fewer bytes than a header has, whatever they are. -/
  | header {tail : List β} : tail.length < 3 → Stops P limit tail .ended
  /-- A header, and fewer bytes than it announces. -/
  | payload {ftype : UInt8} {len : ℕ} (part : List β) : len ≤ limit → len ≤ 65535 →
      part.length < len → Stops P limit (P.lits (ftype :: beBytes 2 len) ++ part) .ended
  | tooLong {ftype : UInt8} {len : ℕ} (rest : List β) : limit < len → len ≤ 65535 →
      Stops P limit (P.lits (ftype :: beBytes 2 len) ++ rest) (.tooLong len)

/-- Single framing calls on a stream, however it is split. `report` relates the failures of a read
to what it has stopped at. -/
structure FrameTransacts (P : Prims β) (limit : ℕ)
    (report : ∀ capacity, Stop → ε (.read capacity) → Prop)
    (H : ∀ o : FrameOp β, Prog ((sockSig β).sum E) (FrameOp.Ans β ε o)) : Prop where
  write : ∀ {ftype : UInt8} {payload : List β} (s : List β), payload.length ≤ limit →
    Transacts (3 + payload.length) (H (.write ftype payload)) s (.ok ()) s
      (frameBytes P ftype payload)
  read : ∀ {capacity : ℕ} {ftype : UInt8} {payload : List β} (rest : List β)
    (hcapacity : payload.length ≤ capacity), payload.length ≤ 65535 →
    Transacts (3 + capacity) (H (.read capacity)) (frameBytes P ftype payload ++ rest)
      (.ok (ftype, ⟨payload, hcapacity⟩)) rest []
  stop : ∀ {capacity : ℕ} {tail : List β} {stop : Stop}, Stops P capacity tail stop →
    ∃ e rest, report capacity stop e ∧
      Transacts (3 + capacity) (H (.read capacity)) tail (.error e) rest []

section Frames

variable {P : Prims β} {limit capacity : ℕ} {report : ∀ capacity, Stop → ε (.read capacity) → Prop}
  {H : ∀ o : FrameOp β, Prog ((sockSig β).sum E) (FrameOp.Ans β ε o)} {fs : List (Frame β)}

/-- Writing frames puts their bytes on the wire. -/
theorem transacts_writeFrames (hH : FrameTransacts P limit report H)
    (hfs : ∀ f ∈ fs, f.2.length ≤ limit) (s : List β) :
    ∃ n, Transacts n (Prog.interp (overInternal H) (writeFrames fs)) s true s
      (streamBytes P fs) := by
  induction fs with
  | nil => exact ⟨0, .ret _ _ _⟩
  | cons f fs ih =>
    obtain ⟨n, hrest⟩ := ih fun f' hf' => hfs f' (List.mem_cons_of_mem _ hf')
    have hfirst : Transacts _ (H (.write f.1 f.2)) _ _ _ _ := hH.write s (hfs f List.mem_cons_self)
    exact ⟨_, hfirst.bind hrest⟩

/-- Reading gives the frames back, up to the number asked for, and then stops. -/
theorem transacts_readFrames (hH : FrameTransacts P limit report H)
    (hfs : ∀ f ∈ fs, f.2.length ≤ capacity) (hlen : ∀ f ∈ fs, f.2.length ≤ 65535)
    {tail : List β} {stop : Stop} (htail : Stops P capacity tail stop) (n : ℕ) :
    ∃ failure rest, (n ≤ fs.length → failure = none) ∧
      (fs.length < n → ∃ e, failure = some e ∧ report capacity stop e) ∧
      Transacts (n * (3 + capacity)) (Prog.interp (overInternal H) (readFrames capacity n))
        (streamBytes P fs ++ tail) (fs.take n, failure) rest [] := by
  induction n generalizing fs with
  | zero => exact ⟨none, _, fun _ => rfl, fun h => absurd h (Nat.not_lt_zero _), .ret _ _ _⟩
  | succ n ih =>
    rw [Nat.succ_mul, Nat.add_comm (n * _)]
    cases fs with
    | nil =>
      -- There are no more frames: this call fails.
      obtain ⟨e, rest, hreport, hstop⟩ := hH.stop htail
      refine ⟨some e, rest, fun h => absurd h (by simp), fun _ => ⟨e, rfl, hreport⟩, ?_⟩
      refine Transacts.mono (n := 3 + capacity) ?_ (Nat.le_add_right _ _)
      exact hstop.bind_ret rfl
    | cons f fs =>
      obtain ⟨failure, rest, hnone, hsome, hrest⟩ := ih (fun f' hf' =>
        hfs f' (List.mem_cons_of_mem _ hf')) fun f' hf' => hlen f' (List.mem_cons_of_mem _ hf')
      have hfirst : Transacts _ (H (.read capacity)) (frameBytes P f.1 f.2 ++ _) _ _ _ :=
        hH.read (streamBytes P fs ++ tail) (hfs f List.mem_cons_self) (hlen f List.mem_cons_self)
      refine ⟨failure, rest, fun h => hnone (by simpa using h),
        fun h => hsome (by simpa using h), ?_⟩
      rw [streamBytes_cons, List.append_assoc]
      refine hfirst.bind_silent (m := n * (3 + capacity)) ?_ (Nat.le_refl _)
      show Transacts _ (Prog.interp (overInternal H)
        (readFrames capacity n >>= fun r => .ret (f :: r.1, r.2))) _ _ _ _
      rw [Prog.interp_bind]
      exact hrest.bind_ret rfl

end Frames

/-- A reader stops at what is there of a frame that is cut off: part of the header, or the header
and part of the payload. -/
theorem Stops.of_cut {P : Prims β} {limit : ℕ} {ftype : UInt8} {payload tail : List β}
    (hlimit : payload.length ≤ limit) (hlen : payload.length ≤ 65535)
    (htail : tail <+: frameBytes P ftype payload)
    (hcut : tail.length < (frameBytes P ftype payload).length) : Stops P limit tail .ended := by
  by_cases hshort : tail.length < 3
  · exact .header hshort
  · have hheader : (P.lits (ftype :: beBytes 2 payload.length)).length = 3 := by
      rw [P.length_lits, List.length_cons, length_beBytes]
    obtain ⟨part, rfl⟩ := List.prefix_of_prefix_length_le (List.prefix_append _ payload) htail
      (by omega)
    refine .payload part hlimit hlen ?_
    rw [frameBytes, List.length_append, List.length_append] at hcut
    omega

/-! ## The firmware -/

namespace Firmware

variable (P : Prims β)

private theorem transacts_recvAll {len : ℕ} {bytes : List β} (rest : List β)
    (hlen : bytes.length = len) :
    Transacts len (recvAll (E := E) len) (bytes ++ rest) (.ok ⟨bytes, hlen⟩) rest [] :=
  (transacts_recvLoop ⟨[], Nat.zero_le _⟩ bytes hlen).bind_ret rfl

private theorem transacts_recvAll_short {len : ℕ} {s : List β} (hlen : s.length < len) :
    ∃ got, Transacts len (recvAll (E := E) len) s (.error got) [] [] :=
  ⟨_, (transacts_recvLoop_closed (s := s) ⟨[], Nat.zero_le _⟩ hlen).bind_ret rfl⟩

/-- The header of a frame, as the code reads it. -/
private theorem header_eq (ftype : UInt8) {len : ℕ} (hlen : len ≤ 65535) :
    (P.vals (P.lits (ftype :: beBytes 2 len)))[0]! = ftype ∧
      ((((P.vals (P.lits (ftype :: beBytes 2 len)))[1]!).toUInt16 <<< 8) |||
        ((P.vals (P.lits (ftype :: beBytes 2 len)))[2]!).toUInt16).toNat = len := by
  rw [P.vals_lits, toNat_shiftLeft_or]
  exact ⟨rfl, beNat_beBytes_of_lt (n := 2) (by omega)⟩

/-- The firmware's framing calls on a stream. -/
theorem frameTransacts : FrameTransacts P 65535 (fun _ _ _ => True) (framing (E := E) P) where
  write {ftype payload} s hlen := by
    have hframe : frameBytes P ftype payload = P.lits [ftype,
        (UInt16.ofNat payload.length >>> 8).toUInt8, (UInt16.ofNat payload.length &&& 0xff).toUInt8]
          ++ payload := by
      rw [frameBytes, ← shiftRight_and_eq_beBytes]
    rw [hframe]
    simp only [framing, writeFrame, Prog.bind_bind]
    refine ((transacts_sendLoop _ s).bind (m := payload.length) ?_).mono (by simp)
    rw [if_pos rfl]
    exact (transacts_sendLoop payload s).bind_ret rfl
  read {capacity ftype payload} rest hcapacity hlen := by
    obtain ⟨htype, hlength⟩ := header_eq P ftype hlen
    rw [frameBytes, List.append_assoc]
    simp only [framing, readFrame]
    refine (transacts_recvAll _ (by simp)).bind_silent (m := capacity) ?_ (Nat.le_refl _)
    dsimp only
    rw [dif_neg (by rw [hlength]; omega)]
    refine ((transacts_recvAll rest hlength.symm).bind_ret ?_).mono (by omega)
    simp only [htype]
    rfl
  stop {capacity tail stop} hstop := by
    simp only [framing, readFrame]
    cases hstop with
    | header hshort =>
      obtain ⟨got, hgot⟩ := transacts_recvAll_short (E := E) hshort
      refine ⟨⟨[], Nat.zero_le _⟩, [], trivial, Transacts.mono (n := 3) ?_ (Nat.le_add_right _ _)⟩
      exact hgot.bind_ret rfl
    | @payload ftype len part hcapacity hlen hpart =>
      obtain ⟨-, hlength⟩ := header_eq P ftype hlen
      obtain ⟨got, hgot⟩ := transacts_recvAll_short (E := E) (hpart.trans_eq hlength.symm)
      -- The header announces no more than fits, so that the payload is read, and ends too early.
      have hgoto : ¬ (((P.vals (P.lits (ftype :: beBytes 2 len)))[1]!.toUInt16 <<< 8) |||
          (P.vals (P.lits (ftype :: beBytes 2 len)))[2]!.toUInt16).toNat > capacity := by
        rw [hlength]
        omega
      refine ⟨⟨got.1, got.2.trans (Nat.not_lt.mp hgoto)⟩, [], trivial,
        (transacts_recvAll part (by simp)).bind_silent (m := capacity) ?_ (Nat.le_refl _)⟩
      dsimp only
      rw [dif_neg hgoto]
      exact Transacts.mono (hgot.bind_ret rfl) (by omega)
    | @tooLong ftype len rest hlong hlen =>
      obtain ⟨-, hlength⟩ := header_eq P ftype hlen
      refine ⟨⟨[], Nat.zero_le _⟩, rest, trivial,
        (transacts_recvAll rest (by simp)).bind_silent (m := capacity) ?_ (Nat.le_refl _)⟩
      dsimp only
      -- The header announces too much: nothing of the payload is read.
      rw [dif_pos (by rw [hlength]; exact hlong)]
      exact .ret _ _ _

end Firmware

/-! ## The server -/

namespace Server

variable (P : Prims β)

/-- The exception a stop is reported by. -/
def stopExn : Stop → PyExn
  | .ended => .protocolError "peer closed mid-frame"
  | .tooLong len => .protocolError s!"frame length {len} exceeds maximum"

private theorem transacts_readExactly {len : ℕ} {bytes : List β} (rest : List β)
    (hlen : bytes.length = len) :
    Transacts len (readExactly (E := E) len) (bytes ++ rest) (.ok ⟨bytes, hlen⟩) rest [] :=
  (transacts_recvLoop ⟨[], Nat.zero_le _⟩ bytes hlen).bind_ret rfl

private theorem transacts_readExactly_short {len : ℕ} {s : List β} (hlen : s.length < len) :
    Transacts len (readExactly (E := E) len) s (.error (stopExn .ended)) [] [] :=
  (transacts_recvLoop_closed (s := s) ⟨[], Nat.zero_le _⟩ hlen).bind_ret rfl

/-- The header of a frame, as the code reads it. -/
private theorem header_eq (ftype : UInt8) {len : ℕ} (hlen : len ≤ 65535) :
    (P.vals (P.lits (ftype :: beBytes 2 len)))[0]! = ftype ∧
      beNat [(P.vals (P.lits (ftype :: beBytes 2 len)))[1]!,
        (P.vals (P.lits (ftype :: beBytes 2 len)))[2]!] = len := by
  rw [P.vals_lits]
  exact ⟨rfl, beNat_beBytes_of_lt (n := 2) (by omega)⟩

/-- The server's framing calls on a stream. -/
theorem frameTransacts : FrameTransacts P maxFrame (fun _ stop e => e = stopExn stop)
    (framing (E := E) P) where
  write {ftype payload} s hlen := by
    simp only [framing, writeFrame]
    rw [if_neg (Nat.not_lt.mpr hlen), sendall]
    have hsent := transacts_sendLoop (E := E) (frameBytes P ftype payload) s
    rw [length_frameBytes] at hsent
    exact hsent.bind_ret rfl
  read {capacity ftype payload} rest hcapacity hlen := by
    obtain ⟨htype, hlength⟩ := header_eq P ftype hlen
    rw [frameBytes, List.append_assoc]
    simp only [framing, readFrame]
    refine (transacts_readExactly _ (by simp)).bind_silent (m := capacity) ?_ (Nat.le_refl _)
    dsimp only
    rw [dif_neg (by rw [hlength]; omega)]
    refine ((transacts_readExactly rest hlength.symm).bind_ret ?_).mono (by omega)
    simp only [htype]
    rfl
  stop {capacity tail stop} hstop := by
    simp only [framing, readFrame]
    cases hstop with
    | header hshort =>
      refine ⟨_, [], rfl, Transacts.mono (n := 3) ?_ (Nat.le_add_right _ _)⟩
      exact (transacts_readExactly_short hshort).bind_ret rfl
    | @payload ftype len part hcapacity hlen hpart =>
      obtain ⟨-, hlength⟩ := header_eq P ftype hlen
      have hgoto : ¬ beNat [(P.vals (P.lits (ftype :: beBytes 2 len)))[1]!,
          (P.vals (P.lits (ftype :: beBytes 2 len)))[2]!] > capacity := by
        rw [hlength]
        omega
      refine ⟨_, [], rfl,
        (transacts_readExactly part (by simp)).bind_silent (m := capacity) ?_ (Nat.le_refl _)⟩
      dsimp only
      rw [dif_neg hgoto]
      exact Transacts.mono ((transacts_readExactly_short (hpart.trans_eq hlength.symm)).bind_ret
        rfl) (by omega)
    | @tooLong ftype len rest hlong hlen =>
      obtain ⟨-, hlength⟩ := header_eq P ftype hlen
      refine ⟨_, rest, rfl,
        (transacts_readExactly rest (by simp)).bind_silent (m := capacity) ?_ (Nat.le_refl _)⟩
      dsimp only
      rw [dif_pos (by rw [hlength]; exact hlong), hlength]
      exact .ret _ _ _

end Server

/-! ## Both -/

section Lossless

variable (P : Prims β)

/-- Framing is lossless. However a transport that does not fail splits the bytes:

* both writers put the bytes of the frames on the wire, one after another;
* repeated calls of the server's `read_frame` give back exactly the frames that were written, and
  fail at the first one that is cut off by the end of the stream or announces more than `MAX_FRAME`;
* so do repeated calls of the firmware's, for a capacity that every payload fits.

On any transport, the loops end after at most as many calls as there are bytes to be moved. -/
theorem framing_lossless {fs : List (Frame β)} (hfs : ∀ f ∈ fs, f.2.length ≤ maxFrame) :
    (∀ s, Completes (Prog.interp (overInternal (Firmware.framing (E := E) P)) (writeFrames fs)) s
        true s (streamBytes P fs) ∧
      Completes (Prog.interp (overInternal (Server.framing (E := E) P)) (writeFrames fs)) s
        true s (streamBytes P fs)) ∧
    (∀ tail stop n, Stops P maxFrame tail stop → ∃ rest,
      Completes (Prog.interp (overInternal (Server.framing (E := E) P)) (readFrames maxFrame n))
        (streamBytes P fs ++ tail)
        (fs.take n, if n ≤ fs.length then none else some (Server.stopExn stop)) rest []) ∧
    (∀ capacity tail stop n, (∀ f ∈ fs, f.2.length ≤ capacity) → Stops P capacity tail stop →
      ∃ failure rest, (failure = none ↔ n ≤ fs.length) ∧
        Completes (Prog.interp (overInternal (Firmware.framing (E := E) P)) (readFrames capacity n))
          (streamBytes P fs ++ tail) (fs.take n, failure) rest []) ∧
    (∀ n tr q, Prog.Run (Server.readExactly (β := β) (E := E) n) tr q → tr.length ≤ n) ∧
    (∀ n tr q, Prog.Run (Firmware.recvAll (β := β) (E := E) n) tr q → tr.length ≤ n) ∧
    (∀ buf tr q, Prog.Run (Server.sendall (β := β) (E := E) buf) tr q → tr.length ≤ buf.length) ∧
    ∀ buf tr q, Prog.Run (Firmware.sendAll (β := β) (E := E) buf) tr q →
      tr.length ≤ buf.length := by
  have hlen : ∀ f ∈ fs, f.2.length ≤ 65535 := fun f hf => (hfs f hf).trans (by decide)
  refine ⟨fun s => ⟨?_, ?_⟩, fun tail stop n hstop => ?_,
    fun capacity tail stop n hcapacity hstop =>
    ?_, fun n tr q h => ?_, fun n tr q h => ?_, fun buf tr q h => ?_, fun buf tr q h => ?_⟩
  · -- The firmware writes frames.
    obtain ⟨n, h⟩ := transacts_writeFrames (Firmware.frameTransacts (E := E) P) hlen s
    exact h.completes
  · -- The server writes frames.
    obtain ⟨n, h⟩ := transacts_writeFrames (Server.frameTransacts (E := E) P) hfs s
    exact h.completes
  · -- The server reads them, and says what it has stopped at.
    obtain ⟨failure, rest, hnone, hsome, h⟩ :=
      transacts_readFrames (Server.frameTransacts (E := E) P) hfs hlen hstop n
    have hfailure : failure = if n ≤ fs.length then none else some (Server.stopExn stop) := by
      split
      · exact hnone ‹_›
      · obtain ⟨e, he, rfl⟩ := hsome (by omega)
        exact he
    exact ⟨rest, hfailure ▸ h.completes⟩
  · -- The firmware reads them, and fails where it has stopped.
    obtain ⟨failure, rest, hnone, hsome, h⟩ :=
      transacts_readFrames (Firmware.frameTransacts (E := E) P) hcapacity hlen hstop n
    refine ⟨failure, rest, ⟨fun hfailure => ?_, hnone⟩, h.completes⟩
    by_contra hn
    obtain ⟨e, he, -⟩ := hsome (by omega)
    rw [he] at hfailure
    cases hfailure
  · -- Each turn of a loop has received or sent a byte.
    refine length_le_of_bind_ret (fun received => ?_) (fun _ _ => length_le_of_recvLoop) h
    match received with
    | .error (.closed _) | .error (.error _) | .ok _ => exact ⟨_, rfl⟩
  · refine length_le_of_bind_ret (fun received => ?_) (fun _ _ => length_le_of_recvLoop) h
    match received with
    | .error _ | .ok _ => exact ⟨_, rfl⟩
  · refine length_le_of_bind_ret (fun sent => ?_) (fun _ _ => length_le_of_sendLoop) h
    cases sent with
    | true | false => exact ⟨_, rfl⟩
  · exact length_le_of_sendLoop h

/-- An empty frame, one of one byte and two bytes of a header, read three times. -/
theorem framing_lossless_two : ∃ rest, Completes
    (Prog.interp (overInternal (Server.framing (E := ⟨Empty, Empty.elim⟩)
      (idealPrims (A := ℕ) fun _ => 0))) (readFrames maxFrame 3))
    (streamBytes (idealPrims fun _ => 0) [(frameData, []), (frameClose, [.lit 5])] ++
      [.lit 0x10, .lit 0x20])
    ([(frameData, []), (frameClose, [.lit 5])], some (Server.stopExn .ended)) rest [] := by
  have hfs : ∀ f ∈ [(frameData, []), (frameClose, [.lit 5])],
      (f : Frame (Byte ℕ Level)).2.length ≤ maxFrame := by
    simp [maxFrame]
  have hstop : Stops (idealPrims (A := ℕ) fun _ => 0) maxFrame [.lit 0x10, .lit 0x20] .ended :=
    .header (by decide)
  exact (framing_lossless (idealPrims fun _ => 0) hfs).2.1 _ .ended 3 hstop

end Lossless

end PqcIot
