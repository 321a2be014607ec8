import PqcIot.Crypto.Ideal
import PqcIot.Firmware.Client
import PqcIot.Protocol.RecordStream
import PqcIot.Transport.Server

/-!
# The firmware's records

`send_record` of `pqc_session.c` against `RecordStream` and `write_frame` of the server: the bytes
it lays out by hand are the record that `seal` returns (`exec_sendRecord`), and on the wire the two
frames are the same (`sendRecord_eq_seal`).
-/

namespace PqcIot

open Effects Protocol

namespace Firmware

variable {β : Type}

/-- The loop over the bytes of `seq` writes it most significant byte first. -/
theorem seqBytes_eq (seq : UInt64) : seqBytes seq = beBytes 8 seq.toNat := by
  have hbyte : ∀ n < 64, (seq >>> UInt64.ofNat n).toUInt8 = UInt8.ofNat (seq.toNat / 2 ^ n) := by
    intro n hn
    have hmod : n % 18446744073709551616 % 64 = n := by omega
    apply UInt8.toNat_inj.mp
    simp [UInt64.toNat_shiftRight, Nat.shiftRight_eq_div_pow, hmod]
  have hlist : seqBytes seq = [56, 48, 40, 32, 24, 16, 8, 0].map fun n =>
      (seq >>> UInt64.ofNat n).toUInt8 := rfl
  rw [hlist, List.map_congr_left fun n hn => hbyte n (by simp at hn; omega)]
  rfl

/-- The record of a plaintext, as the server lays it out. -/
def recordOf (P : Prims β) (session : Session β) (plain : List β) : List β :=
  recordBytes P session.sendSeq.toNat
    (sealedPair P session.c2s session.sessionId session.sendSeq.toNat plain)

/-- The sending state of the server's `RecordStream` for a session. -/
def Session.stream (session : Session β) (lastRecvSeq : ℤ) : RecordStream β where
  key := session.c2s
  sessionId := session.sessionId
  sendSeq := session.sendSeq.toNat
  lastRecvSeq := lastRecvSeq

section SendRecord

variable (P : Prims β) (session : Session β) (plain : Payload β 65535)

/-- `plain_len` does not wrap. -/
theorem toNat_plainLen : (UInt16.ofNat plain.1.length).toNat = plain.1.length := by
  have := plain.2
  rw [UInt16.toNat_ofNat']
  omega

/-- The length of a frame with a record in it does not wrap. -/
theorem toNat_frameLen {n : ℕ} (h : n ≤ 1230) :
    (UInt16.ofNat (10 + n + tagLen)).toNat = 10 + n + 16 := by
  rw [UInt16.toNat_ofNat', tagLen]
  omega

@[simp]
theorem exec_gcmSetkey (key : List β) (m : Memory β) :
    exec P (gcmSetkey key) m = .ret (0, m) := rfl

@[simp]
theorem exec_gcmCryptAndTag (key iv add input : List β) (m : Memory β) :
    exec P (gcmCryptAndTag key iv add input) m =
      .ret (⟨0, (P.gcmEncrypt key iv add input).1, (P.gcmEncrypt key iv add input).2,
        P.length_ciphertext _ _ _ _, P.length_tag _ _ _ _⟩, m) := rfl

/-- A plaintext that does not fit is refused before any call. -/
theorem sendRecord_of_long (h : 1230 < plain.1.length) (m : Memory β) :
    (sendRecord P session plain).run m = .ret ((false, session), m) := by
  rw [sendRecord]
  dsimp only
  rw [if_pos (by rw [toNat_plainLen, tagLen, Buffer.size]; omega)]
  rfl

theorem exec_sendRecord_of_long (h : 1230 < plain.1.length) (m : Memory β) :
    exec P (sendRecord P session plain) m = .ret ((false, session), m) := by
  rw [exec, sendRecord_of_long P session plain h]
  rfl

@[simp]
theorem length_recordOf (plain : List β) :
    (recordOf P session plain).length = 10 + plain.length + 16 := by
  simp [recordOf, recordBytes, sealedPair, Nat.add_assoc]

/-- What `send_record` does with the outcome of its frame. -/
def recordWritten (record : List β) (m : Memory β) :
    (visible β).Ans (.inl (.write frameData record)) →
      Prog (visible β) ((Bool × Session β) × Memory β)
  | .ok () => .ret ((true, { session with sendSeq := session.sendSeq + 1 }), m)
  | .error () => .ret ((false, session), m)

/-- `send_record` writes the record that the server would have sealed. -/
theorem exec_sendRecord (hsid : session.sessionId.length = 8) (hlen : plain.1.length ≤ 1230)
    (m : Memory β) :
    ∃ m', exec P (sendRecord P session plain) m =
      .op (.inl (.write frameData (recordOf P session plain.1)))
        (recordWritten session (recordOf P session plain.1) m') := by
  set lenBytes := [(UInt16.ofNat plain.1.length >>> 8).toUInt8,
    (UInt16.ofNat plain.1.length &&& 0xff).toUInt8] with hlenBytes
  have hlenEq : lenBytes = beBytes 2 plain.1.length := shiftRight_and_eq_beBytes _
  -- What the three arrays on the stack hold.
  set nonce := P.lits ([0, 0, 0, 0] ++ seqBytes session.sendSeq) with hnonce
  set aad := session.sessionId ++ P.lits (seqBytes session.sendSeq ++ lenBytes) with haad
  have hpair : P.gcmEncrypt session.c2s nonce aad plain.1 =
      sealedPair P session.c2s session.sessionId session.sendSeq.toNat plain.1 := by
    rw [sealedPair, recordNonce, recordAad, hnonce, haad, hlenEq, seqBytes_eq]
    simp [Prims.lits]
  set pair := P.gcmEncrypt session.c2s nonce aad plain.1 with hpairDef
  have hct : pair.1.length = plain.1.length := P.length_ciphertext _ _ _ _
  have htag : pair.2.length = 16 := P.length_tag _ _ _ _
  have hseq : slice 8 8 aad = P.lits (beBytes 8 session.sendSeq.toNat) := by
    rw [haad, seqBytes_eq, Prims.lits, List.map_append, ← List.append_assoc]
    exact slice_append_append hsid (by simp)
  -- The frame is put together from its first byte to its last.
  obtain ⟨m₁, he₁, hh₁, -⟩ := exec_fill P m .sFrame (slice 8 8 aad)
    (by rw [hseq]; simp [Buffer.size])
  rw [hseq] at hh₁
  obtain ⟨m₂, he₂, hh₂, -⟩ := exec_append P m₁ 8
    [P.lit (UInt16.ofNat plain.1.length >>> 8).toUInt8] hh₁ (by simp)
    (by simp [Buffer.size])
  obtain ⟨m₃, he₃, hh₃, -⟩ := exec_append P m₂ 9
    [P.lit (UInt16.ofNat plain.1.length &&& 0xff).toUInt8] hh₂ (by simp)
    (by simp [Buffer.size])
  obtain ⟨m₄, he₄, hh₄, -⟩ := exec_append P m₃ 10 pair.1 hh₃ (by simp)
    (by rw [hct, Buffer.size]; omega)
  obtain ⟨m₅, he₅, hh₅, -⟩ := exec_append P m₄ (10 + plain.1.length) pair.2 hh₄
    (by simp [hct]; omega) (by rw [htag, Buffer.size]; omega)
  -- These pieces are the record.
  have hrecord : P.lits (beBytes 8 session.sendSeq.toNat) ++
      [P.lit (UInt16.ofNat plain.1.length >>> 8).toUInt8] ++
      [P.lit (UInt16.ofNat plain.1.length &&& 0xff).toUInt8] ++ pair.1 ++ pair.2 =
        recordOf P session plain.1 := by
    rw [recordOf, recordBytes, ← hpair, hct, ← hlenEq]
    simp [Prims.lits, hlenBytes]
  rw [hrecord] at hh₅
  have hlenRecord := length_recordOf P session plain.1
  have heRecord := exec_read P m₅ 0 (10 + plain.1.length + 16) hh₅ (by omega)
    (by rw [hlenRecord, Buffer.size]; omega)
  rw [slice_of_length hlenRecord] at heRecord
  refine ⟨m₅, ?_⟩
  -- Now the statements of the function are executed one by one.
  rw [sendRecord]
  dsimp only
  rw [if_neg (by rw [toNat_plainLen, tagLen, Buffer.size]; omega), exec_bind]
  rw [show sessionIdLen = 8 from rfl, ← hlenBytes, ← haad, ← hnonce, he₁, Prog.ret_bind,
    exec_bind, he₂, Prog.ret_bind, exec_bind, he₃, Prog.ret_bind, exec_bind, exec_gcmSetkey,
    Prog.ret_bind]
  dsimp only
  rw [if_neg (not_not.mpr rfl), exec_bind, exec_gcmCryptAndTag, Prog.ret_bind, exec_bind, he₄,
    Prog.ret_bind, exec_bind, toNat_plainLen, he₅, Prog.ret_bind]
  dsimp only
  rw [if_neg (not_not.mpr rfl), exec_bind, toNat_frameLen hlen, heRecord, Prog.ret_bind, exec_bind,
    exec_sendFrame, Prog.op_bind]
  refine congrArg (Prog.op _) (funext fun a => ?_)
  cases a with
  | ok => rfl
  | error => rfl

/-- `send_record` and the server's record layer are the same function: a plaintext of more than
1230 bytes is refused before any call and leaves everything as it was; any other is written, with no
access outside an array and no length that wraps, as the frame of the record that `seal` returns,
byte for byte the one `write_frame` writes, and `open` gives the plaintext back. -/
theorem sendRecord_eq_seal (hsid : session.sessionId.length = 8)
    (hdecrypt : ∀ key nonce aad p, P.gcmDecrypt key nonce aad (P.gcmEncrypt key nonce aad p).1
      (P.gcmEncrypt key nonce aad p).2 = some p) (m : Memory β) :
    (1230 < plain.1.length → (sendRecord P session plain).run m = .ret ((false, session), m)) ∧
    (plain.1.length ≤ 1230 → ∃ record m',
      (∀ last, (session.stream last).sealRecord P plain.1 =
        (.ok record, { session.stream last with sendSeq := session.sendSeq.toNat + 1 })) ∧
      exec P (sendRecord P session plain) m =
        .op (.inl (.write frameData record)) (recordWritten session record m') ∧
      (∀ f n, Follows
        (Prog.resolve f n
          (Prog.interp (overInternal (framing P)) (exec P (sendRecord P session plain) m)))
        ((frameBytes P Protocol.frameData record).map .send)
        (some ((true, { session with sendSeq := session.sendSeq + 1 }), m'))) ∧
      (∀ (E : Signature) (f : ℕ → (o : E.Op) → Option (E.Ans o)) n, Follows
        (Prog.resolve f n (Server.writeFrame P Protocol.frameData record))
        ((frameBytes P Protocol.frameData record).map .send) (some (.ok ()))) ∧
      (∀ receiver : RecordStream β, receiver.key = session.c2s →
        receiver.sessionId = session.sessionId → receiver.lastRecvSeq < session.sendSeq.toNat →
        receiver.openRecord P record =
          (.ok plain.1, { receiver with lastRecvSeq := session.sendSeq.toNat })) ∧
      (UInt16.ofNat plain.1.length).toNat = plain.1.length ∧
      (UInt16.ofNat (10 + plain.1.length + tagLen)).toNat = record.length ∧
      (UInt16.ofNat record.length).toNat = record.length ∧ record.length ≤ Buffer.sFrame.size) := by
  refine ⟨fun hlong => sendRecord_of_long P session plain hlong m, fun hlen => ?_⟩
  obtain ⟨m', he⟩ := exec_sendRecord P session plain hsid hlen m
  have hseq := session.sendSeq.toNat_lt
  have hlenRecord := length_recordOf P session plain.1
  have hfits : (recordOf P session plain.1).length ≤ maxFrame := by
    rw [hlenRecord, maxFrame]
    omega
  refine ⟨recordOf P session plain.1, m', fun last => ?_, he, fun f n => ?_, fun E f n => ?_,
    fun receiver hkey hsession hnewer => ?_, toNat_plainLen plain, ?_, ?_, ?_⟩
  · -- `seal` makes the same record.
    exact (session.stream last).sealRecord_eq P hseq (by have := plain.2; omega)
  · rw [he, ← List.append_nil (List.map _ _)]
    exact (frameFollows P).write (by rw [hlenRecord]; omega) (.done _)
  · rw [← List.append_nil (List.map _ _), ← Prog.bind_ret (Server.writeFrame P _ _)]
    -- `write_frame` of the server puts the same bytes on the wire.
    exact (Server.frameFollows P).write hfits (.done _)
  · -- The receiver opens it.
    rw [recordOf, ← hkey, ← hsession]
    exact receiver.openRecord_recordBytes P hseq (by have := plain.2; omega) hnewer
      (hdecrypt _ _ _ _)
  · rw [toNat_frameLen hlen, hlenRecord]
  · rw [UInt16.toNat_ofNat', hlenRecord]
    omega
  · rw [hlenRecord, Buffer.size]
    omega

end SendRecord

/-- The first record of a session over ideal primitives is opened by a fresh receiver. -/
theorem sendRecord_eq_seal_first :
    let P := idealPrims fun _ : Symbolic.Byte ℕ Level => 0
    let key := P.lits (List.replicate 32 1)
    let sid := P.lits (List.replicate 8 2)
    let plain := P.lits (literal "hello")
    ∃ record, ((RecordStream.init key sid).sealRecord P plain).1 = .ok record ∧
      ((RecordStream.init key sid).openRecord P record).1 = .ok plain := by
  intro P key sid plain
  obtain ⟨-, h⟩ := sendRecord_eq_seal P ⟨sid, key, 0, false, 0⟩ ⟨plain, by decide⟩ (by simp [sid])
    (fun _ _ _ _ => (idealPrims_gcmDecrypt_eq_some _).mpr rfl)
    ⟨fun b => P.lits (List.replicate b.size 0), fun b => by simp⟩
  obtain ⟨record, -, hseal, -, -, -, hopen, -⟩ := h (by decide)
  refine ⟨record, congrArg Prod.fst (hseal (-1)), ?_⟩
  exact congrArg Prod.fst (hopen (.init key sid) rfl rfl (by decide))

end Firmware

end PqcIot
