import PqcIot.Firmware.Bounds
import PqcIot.Firmware.Nonces
import PqcIot.System.Delivery
import PqcIot.System.Failures

/-!
# Whole runs of the device

Runs of `pqc_session_run` that get through their handshake and then send some records, call by call:
to the end (`exists_session`), or up to a record whose frame is not written (`exists_session_cut`).
What is proved of every run can be seen on them, as they receive, encrypt and send.
-/

namespace PqcIot

open Effects Protocol

namespace Firmware

variable {β α : Type}

/-! ## Statements -/

namespace Code

variable {m : Memory β} {log : CallLog β} {q : Prog (calls β) (α × Memory β)}

/-- A write inside an array makes no call. -/
theorem run_memcpy_bind {b : Buffer} {off : ℕ} {data : List β} {f : Unit → Code β α}
    (h : off + data.length ≤ b.size) (hf : Prog.Run ((f ()).run (m.store b off data h)) log q) :
    Prog.Run ((memcpy b off data >>= f).run m) log q := by
  have hrun : (memcpy b off data).run m = .ret ((), m.store b off data h) := dif_pos h
  rw [StateT.run_bind, hrun]
  exact hf

/-- Nor does an argument inside an array. -/
theorem run_bytesAt_bind {b : Buffer} {off len : ℕ} {f : List β → Code β α}
    (h : off + len ≤ b.size) (hf : Prog.Run ((f (m.load b off len)).run m) log q) :
    Prog.Run ((bytesAt b off len >>= f).run m) log q := by
  have hrun : (bytesAt b off len).run m = .ret (m.load b off len, m) := if_pos h
  rw [StateT.run_bind, hrun]
  exact hf

/-- A call into mbedtls may have any answer. -/
theorem run_mbedtls_bind {o : MbedtlsOp β} {f : MbedtlsOp.Ans o → Code β α} (a : MbedtlsOp.Ans o)
    (hf : Prog.Run ((f a).run m) log q) :
    Prog.Run ((mbedtls o >>= f).run m) (⟨.inl o, a⟩ :: log) q := .cons hf

end Code

/-! ## Records -/

section Records

variable (P : Prims β)

/-- An encryption that succeeds. -/
def sampleOutput (n : ℕ) : GcmOutput β n :=
  ⟨0, (zeroBytes P n).1, (zeroBytes P 16).1, (zeroBytes P n).2, (zeroBytes P 16).2⟩

/-- `send_record` with an encryption that succeeds, whether the frame is written or not. -/
theorem run_sendRecord (session : Session β) (plain : Payload β 65535)
    (hlen : plain.1.length ≤ 1230) (written : Except Unit Unit) (m : Memory β) :
    ∃ log record m', (successes log).length = 1 ∧ Prog.Run ((sendRecord P session plain).run m)
      (log ++ [⟨.inr (.inl (.write frameData record)), written⟩])
      (.ret (match written with
        | .ok () => (true, { session with sendSeq := session.sendSeq + 1 })
        | .error () => (false, session), m')) := by
  have hfits : ¬ (UInt16.ofNat plain.1.length).toNat + 10 + tagLen > Buffer.sFrame.size := by
    rw [toNat_plainLen, tagLen, Buffer.size]
    omega
  have hseq : (slice sessionIdLen 8 (session.sessionId ++ P.lits (seqBytes session.sendSeq ++
      [(UInt16.ofNat plain.1.length >>> 8).toUInt8,
        (UInt16.ofNat plain.1.length &&& 0xff).toUInt8]))).length ≤ 8 := List.length_take_le _ _
  let result := sampleOutput P plain.1.length
  have hrc : result.rc = 0 := rfl
  let key : Event (calls β) := ⟨.inl (.gcmSetkey session.c2s), (0 : ℤ)⟩
  let encryption (add : List β) : Event (calls β) := ⟨.inl (.gcmCryptAndTag session.c2s
    (P.lits ([0, 0, 0, 0] ++ seqBytes session.sendSeq)) add plain.1), result⟩
  suffices hrun : ∃ add record m', Prog.Run ((sendRecord P session plain).run m)
      ([key, encryption add] ++ [⟨.inr (.inl (.write frameData record)), written⟩])
      (.ret (match written with
        | .ok () => (true, { session with sendSeq := session.sendSeq + 1 })
        | .error () => (false, session), m')) by
    obtain ⟨add, record, m', hrun⟩ := hrun
    exact ⟨_, record, m', rfl, hrun⟩
  rw [sendRecord]
  dsimp only
  rw [if_neg hfits]
  -- The record and the memory are those that the statements leave.
  apply Exists.intro
  apply Exists.intro
  apply Exists.intro
  refine Code.run_memcpy_bind (by rw [Buffer.size]; omega) <|
    Code.run_memcpy_bind (by simp [Buffer.size]) <|
    Code.run_memcpy_bind (by simp [Buffer.size]) <| Code.run_mbedtls_bind 0 ?_
  rw [if_neg (not_not.mpr rfl), gcmCryptAndTag]
  refine Code.run_mbedtls_bind (o := .gcmCryptAndTag _ _ _ _) result ?_
  refine Code.run_memcpy_bind (by rw [result.length_ciphertext, Buffer.size]; omega) ?_
  refine Code.run_memcpy_bind (by rw [toNat_plainLen, result.length_tag, Buffer.size]; omega) ?_
  rw [if_neg (not_not.mpr hrc)]
  refine Code.run_bytesAt_bind (by
    rw [toNat_plainLen, Nat.zero_add, toNat_frameLen hlen, Buffer.size]; omega) ?_
  cases written with
  | ok _ => exact .cons (.nil _)
  | error _ => exact .cons (.nil _)

theorem length_successes_append (h h' : CallLog β) :
    (successes (h ++ h')).length = (successes h).length + (successes h').length := by
  rw [successes, gcmCalls_append, List.filter_append, List.length_append]
  rfl

/-- Writing a frame encrypts nothing. -/
theorem length_successes_write (h : CallLog β) (record : List β) (written : Except Unit Unit) :
    (successes (h ++ [⟨.inr (.inl (.write frameData record)), written⟩])).length =
      (successes h).length := length_successes_append _ _

/-- The length of what `snprintf` leaves in its array fits into 16 bits. -/
theorem length_recordText_le (n : ℕ) : ((P.lits (literal (recordText n))).take 79).length ≤ 65535 :=
  (List.length_take_le _ _).trans (by decide)

/-- The plaintext of a record. -/
def recordPayload (n : ℕ) : Payload β 65535 :=
  ⟨(P.lits (literal (recordText n))).take 79, length_recordText_le P n⟩

/-- It is shorter than the bound on records. -/
theorem length_recordPayload_le (n : ℕ) : (recordPayload P n).1.length ≤ 1230 :=
  (List.length_take_le _ _).trans (by decide)

/-- The loop goes on after a record that was sent. -/
theorem run_sendRecords_succ {count n : ℕ} {session session' : Session β} {m m₁ : Memory β}
    {log log' : CallLog β} {q : Prog (calls β) (Bool × Memory β)}
    (hrecord : Prog.Run ((sendRecord P session (recordPayload P n)).run m) log
      (.ret ((true, session'), m₁)))
    (hrest : Prog.Run ((sendRecords P count (n + 1) session').run m₁) log' q) :
    Prog.Run ((sendRecords P (count + 1) n session).run m) (log ++ log') q := by
  rw [sendRecords, StateT.run_bind]
  exact hrecord.bind hrest

/-- The first records of a loop have been sent, and the others are still to come. -/
theorem run_sendRecords (sent rest n : ℕ) (session : Session β) (m : Memory β) :
    ∃ log session' m', (successes log).length = sent ∧ ∀ log' q,
      Prog.Run ((sendRecords P rest (n + sent) session').run m') log' q →
        Prog.Run ((sendRecords P (sent + rest) n session).run m) (log ++ log') q := by
  induction sent generalizing n session m with
  | zero =>
    refine ⟨[], session, m, rfl, fun log' q hrun => ?_⟩
    rw [Nat.zero_add]
    exact hrun
  | succ sent ih =>
    obtain ⟨log₁, record, m₁, hlog₁, hfirst⟩ := run_sendRecord P session (recordPayload P n)
      (length_recordPayload_le P n) (.ok ()) m
    obtain ⟨log, session', m', hlog, hrest⟩ := ih (n + 1)
      { session with sendSeq := session.sendSeq + 1 } m₁
    let written : Event (calls β) := ⟨.inr (.inl (.write frameData record)), .ok ()⟩
    refine ⟨log₁ ++ [written] ++ log, session', m', ?_, fun log' q hrun => ?_⟩
    · rw [length_successes_append, length_successes_write log₁ record (.ok ()), hlog₁, hlog,
        Nat.add_comm]
    · rw [Nat.add_right_comm, List.append_assoc]
      refine run_sendRecords_succ P hfirst (hrest log' q ?_)
      rwa [Nat.add_right_comm, Nat.add_assoc]

/-- The next one is encrypted, and its frame is not written. -/
theorem run_sendRecords_cut (rest n : ℕ) (session : Session β) (m : Memory β) :
    ∃ log record m', (successes log).length = 1 ∧
      Prog.Run ((sendRecords P (rest + 1) n session).run m)
        (log ++ [⟨.inr (.inl (.write frameData record)), .error ()⟩]) (.ret (false, m')) := by
  obtain ⟨log, record, m', hlog, hrun⟩ := run_sendRecord P session (recordPayload P n)
    (length_recordPayload_le P n) (.error ()) m
  refine ⟨log, record, m', hlog, ?_⟩
  rw [sendRecords, StateT.run_bind, ← List.append_nil (log ++ _)]
  exact hrun.bind (.nil _)

end Records

/-! ## Sessions -/

section Session

variable (P : Prims β) (cfg : Config β) (mode : Mode) (m : Memory β)

/-- A handshake goes through: a ServerHello is read, and nothing is encrypted yet. -/
theorem run_session (recordCount : ℤ) : ∃ log m₁, (successes log).length = 0 ∧
    (∃ reply, ⟨.inr (.inl (.read 1256)), .ok (frameServerHello, reply)⟩ ∈ log) ∧ ∀ log' q,
      Prog.Run ((sessionRest P recordCount
        (some (clientSession P mode (zeroValues P cfg mode)))).run m₁) log' q →
      Prog.Run ((pqcSessionRun P cfg mode recordCount).run m) (log ++ log') q := by
  obtain ⟨log, m₁, hrun, -, hvisible⟩ := exists_handshake P cfg mode m
  have hcalls : ∀ e ∈ log, gcmCall? e = none := by
    obtain ⟨l, heq, hl, -⟩ := Prog.Spec.ret_of_run
      ((makes_handshake P cfg mode.suite).ensures_run [] m) hrun
    obtain rfl : log = l := heq
    exact fun e he => (hl e he).no_encryption.1
  let reply : Payload β 1256 := ⟨(zeroValues P cfg mode).serverHello P,
    length_serverHello_le P cfg mode (zeroClient P cfg) (zeroServer P cfg)⟩
  have hread := (hvisible (.inl (.read 1256)) (.ok (frameServerHello, reply))).mpr
    (List.mem_append_left _ (.tail _ (.tail _ (.tail _ (.head _)))))
  refine ⟨⟨.inr (.inr .connectToServer), true⟩ :: log, m₁, ?_, ⟨reply, .tail _ hread⟩,
    fun log' q hrest => ?_⟩
  · have hnone : gcmCalls (⟨.inr (.inr .connectToServer), true⟩ :: log) = [] :=
      List.filterMap_eq_nil_iff.mpr (List.forall_mem_cons.mpr ⟨rfl, hcalls⟩)
    rw [successes, hnone]
    rfl
  · refine .cons (hrun.bind ?_)
    exact hrest

/-- A session that sends all its records. -/
theorem exists_session (count : ℕ) : ∃ log m', (successes log).length = count ∧
    (∃ reply, ⟨.inr (.inl (.read 1256)), .ok (frameServerHello, reply)⟩ ∈ log) ∧
    Prog.Run ((pqcSessionRun P cfg mode count).run m) log (.ret (true, m')) := by
  obtain ⟨log, m₁, hlog, ⟨reply, hmem⟩, hsession⟩ := run_session P cfg mode m count
  obtain ⟨log', session', m', hlog', hrecords⟩ := run_sendRecords P count 0 0
    (clientSession P mode (zeroValues P cfg mode)) m₁
  have hsent := hrecords [] _ (.nil _)
  refine ⟨log ++ (log' ++ [] ++ [⟨.inr (.inl (.write frameClose [])), .ok ()⟩,
    ⟨.inr (.inr .close), ()⟩]), m', ?_, ⟨reply, List.mem_append_left _ hmem⟩, hsession _ _ ?_⟩
  · rw [length_successes_append, length_successes_append, length_successes_append, hlog, hlog']
    exact Nat.zero_add _
  · exact hsent.bind (.cons (.cons (.nil _)))

/-- A session in which the frame of one record is not written. -/
theorem exists_session_cut (sent rest : ℕ) : ∃ log record m', (successes log).length = sent + 1 ∧
    Prog.Run ((pqcSessionRun P cfg mode (sent + (rest + 1) : ℕ)).run m)
      (log ++ [⟨.inr (.inl (.write frameData record)), .error ()⟩, ⟨.inr (.inr .close), ()⟩])
      (.ret (false, m')) := by
  obtain ⟨log, m₁, hlog, -, hsession⟩ := run_session P cfg mode m (sent + (rest + 1) : ℕ)
  obtain ⟨log', session', m₂, hlog', hrecords⟩ := run_sendRecords P sent (rest + 1) 0
    (clientSession P mode (zeroValues P cfg mode)) m₁
  obtain ⟨log'', record, m', hlog'', hcut⟩ := run_sendRecords_cut P rest (0 + sent) session' m₂
  have hsent := hrecords _ _ hcut
  have hrest : Prog.Run ((sessionRest P (sent + (rest + 1) : ℕ)
      (some (clientSession P mode (zeroValues P cfg mode)))).run m₁)
      (log' ++ (log'' ++ [⟨.inr (.inl (.write frameData record)), .error ()⟩]) ++
        [⟨.inr (.inr .close), ()⟩]) (.ret (false, m')) := hsent.bind (.cons (.nil _))
  refine ⟨log ++ (log' ++ log''), record, m', ?_, ?_⟩
  · rw [length_successes_append, length_successes_append, hlog, hlog', hlog'', Nat.zero_add]
  · have hrun := hsession _ _ hrest
    simp only [List.append_assoc, List.cons_append, List.nil_append] at hrun ⊢
    exact hrun

/-- At the sockets, an honest session of any number of records. -/
theorem exists_sockets (recordCount : ℤ) (hcount : 810 + recordCount.toNat ≤ 2 ^ 31) :
    ∃ tr m', Prog.Run (overSockets P (exec P (pqcSessionRun P cfg mode recordCount) m)) tr
        (.ret (true, m')) ∧
      sentBytes tr = scriptSent (sessionScript P cfg mode (zeroClient P cfg) (zeroServer P cfg)
        recordCount) := by
  obtain ⟨n, m', hperforms⟩ := performs_pqcSessionRun P cfg mode (zeroClient P cfg)
    (zeroServer P cfg) rfl hcount m
  obtain ⟨tr, hrun, hsent, -⟩ := hperforms.follows.exists_run
  exact ⟨tr, m', hrun, hsent⟩

/-- It writes its records and Close behind the frames of the handshake. -/
theorem length_sessionScript (recordCount : ℤ) :
    1169 + (if mode.fs then 1123 else 35) < (scriptSent (sessionScript P cfg mode
      (zeroClient P cfg) (zeroServer P cfg) recordCount)).length := by
  have hhello := length_hello P cfg mode (zeroClient P cfg).next (zeroServer P cfg)
  have hfinished := length_clientFinished P cfg mode (zeroClient P cfg).next (zeroServer P cfg)
  simp only [sessionScript, honestScript, dataFrames, scriptSent_append, scriptSent_map_send,
    scriptSent_map_recv, List.length_append, length_frameBytes, hhello, hfinished, List.length_nil,
    scriptSent]
  split <;> omega

end Session

/-- A session of two records in mode B writes more than a handshake does: the server has been
authenticated, and `handshake` has returned `true`. -/
theorem pqcSessionRun_guarded_session :
    let m : Memory UInt8 := ⟨fun b => List.replicate b.size 0, fun _ => List.length_replicate⟩
    ∃ tr m', Prog.Run (overSockets zeroPrims (exec zeroPrims
        (pqcSessionRun zeroPrims zeroConfig .bForwardSecrecy 2) m)) tr (.ret (true, m')) ∧
      (∃ t₁ t₂ r, tr = t₁ ++ t₂ ∧ Authenticated zeroPrims zeroConfig .bForwardSecrecy t₁ r) ∧
      ∃ t₁ t₂ session m₁, tr = ⟨.inr .connectToServer, true⟩ :: t₁ ++ t₂ ∧
        Prog.Run (overSockets zeroPrims (exec zeroPrims
          (handshake zeroPrims zeroConfig Mode.bForwardSecrecy.suite) m)) t₁
          (.ret (some session, m₁)) ∧
        HandshakeWritten zeroPrims zeroConfig .bForwardSecrecy t₁ := by
  intro m
  obtain ⟨tr, m', hrun, hsent⟩ := exists_sockets zeroPrims zeroConfig .bForwardSecrecy m 2
    (by decide)
  have hlong := length_sessionScript zeroPrims zeroConfig .bForwardSecrecy 2
  rw [← hsent] at hlong
  obtain ⟨hspeaks, -, hwithin⟩ := pqcSessionRun_guarded _ _ _ _ _ _ _ hrun
  have hmore : ¬ WithinHandshake zeroPrims zeroConfig .bForwardSecrecy tr := fun h =>
    absurd h.length_le (not_le.mpr hlong)
  refine ⟨tr, m', hrun, ?_, hwithin.resolve_left hmore⟩
  rcases hspeaks with ⟨hnil, -⟩ | ⟨nonce, enc, hdrew, hpre, -⟩ | hauth
  · exact absurd (.inl hnil) hmore
  · exact absurd (.inr (.inl ⟨nonce, enc, hdrew, hpre⟩)) hmore
  · exact hauth

/-- A session that sends three records stays inside its arrays. -/
theorem pqcSessionRun_inBounds_session :
    let m : Memory UInt8 := ⟨fun b => List.replicate b.size 0, fun _ => List.length_replicate⟩
    ∃ log m', (successes log).length = 3 ∧
      (∃ reply, ⟨.inr (.inl (.read 1256)), .ok (frameServerHello, reply)⟩ ∈ log) ∧
      Prog.Run ((pqcSessionRun zeroPrims zeroConfig .bForwardSecrecy 3).run m) log
        (.ret (true, m')) ∧
      ∀ e ∈ log, InBounds e.1 := by
  intro m
  obtain ⟨log, m', hsent, hread, hrun⟩ :=
    exists_session zeroPrims zeroConfig .bForwardSecrecy m 3
  exact ⟨log, m', hsent, hread, hrun,
    (pqcSessionRun_inBounds zeroPrims zeroConfig .bForwardSecrecy 3 m hrun).1⟩

end Firmware

end PqcIot
