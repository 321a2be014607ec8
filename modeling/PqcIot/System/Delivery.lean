import PqcIot.System.Agreement
import PqcIot.System.Integrity

/-!
# A session delivers its records

`pqc_session_run` against `handle_connection`, from the first byte to the last, over two in-order
byte streams that split and delay the bytes as they like. Both are given honest surroundings. Then
the device has returned `true`, the server has counted every record, and what it opened is the text
of the records, in order (`session_delivers`).
-/

namespace PqcIot

open Effects Protocol

variable {β : Type}

/-! ## Records -/

/-- `snprintf` leaves the whole text of a record in its array of 80 characters. -/
theorem length_recordText {n : ℕ} (h : 810 + n < 2 ^ 31) :
    (Firmware.literal (Firmware.recordText n)).length ≤ 79 := by
  have hdigits (k : ℕ) (hk : k < 2 ^ 31) : (toString k).length ≤ 10 :=
    (Nat.length_repr_le_iff (by decide)).mpr (hk.trans (by decide))
  have hn := hdigits n (by omega)
  have hco2 := hdigits (810 + n) h
  have hseq : (toString "\x7b\"seq\":").length = 7 := by decide
  have hmiddle : (toString ",\"co2\":").length = 7 := by decide
  have hend : (toString ",\"t\":22.4,\"rh\":47\x7d").length = 18 := by decide
  simp only [Firmware.literal, Firmware.recordText, List.length_map, String.length_toList,
    String.length_append, hseq, hmiddle, hend]
  omega

section Records

variable (P : Prims β)

/-- The plaintext of a record. -/
def recordPlain (n : ℕ) : List β := P.lits (Firmware.literal (Firmware.recordText n))

/-- The plaintexts of a session, from number `n` on. -/
def sessionPlains (n count : ℕ) : List (List β) := (List.range' n count).map (recordPlain P)

/-- Its data records. -/
def sessionRecords (key sessionId : List β) (n count : ℕ) : List (List β) :=
  (List.range' n count).map fun i => sealedRecord P key sessionId (i, recordPlain P i)

/-- The frames of the data phase. -/
def dataFrames (key sessionId : List β) (count : ℕ) : List β :=
  (sessionRecords P key sessionId 0 count).flatMap (frameBytes P frameData) ++
    frameBytes P frameClose []

@[simp]
theorem length_sessionRecords (key sessionId : List β) (n count : ℕ) :
    (sessionRecords P key sessionId n count).length = count := by
  rw [sessionRecords, List.length_map, List.length_range']

variable {P}

theorem length_recordPlain {n : ℕ} (h : 810 + n < 2 ^ 31) : (recordPlain P n).length ≤ 79 := by
  rw [recordPlain, P.length_lits]
  exact length_recordText h

theorem sessionRecords_succ (key sessionId : List β) (n count : ℕ) :
    sessionRecords P key sessionId n (count + 1) =
      sealedRecord P key sessionId (n, recordPlain P n) ::
        sessionRecords P key sessionId (n + 1) count := by
  rw [sessionRecords, List.range'_succ, List.map_cons]
  rfl

/-- A record fits a frame. -/
theorem length_sealedRecord (key sessionId : List β) {n : ℕ} (h : 810 + n < 2 ^ 31) :
    (sealedRecord P key sessionId (n, recordPlain P n)).length ≤ 105 := by
  have hplain := length_recordPlain (P := P) h
  simp only [sealedRecord, recordBytes, sealedPair, List.length_append, P.length_lits,
    length_beBytes, P.length_ciphertext, P.length_tag]
  omega

end Records

/-! ## The device -/

namespace Firmware

variable {P : Prims β} {f : ℕ → (o : (host β).Op) → Option ((host β).Ans o)}

/-- The loop of `pqc_session_run` sends its records. -/
theorem performs_sendRecords (k count n : ℕ) (session : Session β)
    (hsid : session.sessionId.length = 8) (hseq : session.sendSeq.toNat = n)
    (hcount : 810 + (n + count) ≤ 2 ^ 31) (m : Memory β) :
    ∃ m', Performs (framing P) f k (exec P (sendRecords P count n session) m) k
      (((sessionRecords P session.c2s session.sessionId n count).flatMap
        (frameBytes P frameData)).map .send) (true, m') := by
  induction count generalizing n session m with
  | zero => exact ⟨m, .ret _⟩
  | succ count ih =>
    have hplain := length_recordPlain (P := P) (n := n) (by omega)
    have hnext : (session.sendSeq + 1).toNat = n + 1 := by
      rw [UInt64.toNat_add, UInt64.toNat_one, hseq]
      omega
    -- The text of a record fits its array.
    have htake : (P.lits (literal (recordText n))).take 79 = recordPlain P n :=
      List.take_of_length_le hplain
    have hrecord : recordOf P session (recordPlain P n) =
        sealedRecord P session.c2s session.sessionId (n, recordPlain P n) := by
      rw [recordOf, hseq, sealedRecord]
    -- This record, and then the others from the next number on.
    obtain ⟨m₁, he⟩ := exec_sendRecord P session ⟨recordPlain P n, hplain.trans (by decide)⟩ hsid
      (hplain.trans (by decide)) m
    obtain ⟨m', hrest⟩ := ih (n + 1) { session with sendSeq := session.sendSeq + 1 }
      hsid hnext (by omega) m₁
    refine ⟨m', ?_⟩
    rw [sendRecords]
    simp only [htake]
    rw [exec_bind, he, Prog.op_bind, sessionRecords_succ, List.flatMap_cons, List.map_append,
      ← hrecord]
    have hlen := length_recordOf P session (recordPlain P n)
    exact (frameFollows P).performs_write (hlen.trans_le (by omega)) hrest

/-- After the handshake the device sends its records, takes its leave and closes the socket. -/
theorem performs_sessionRest (k : ℕ) (session : Session β) (hsid : session.sessionId.length = 8)
    (hseq : session.sendSeq = 0) {recordCount : ℤ} (hcount : 810 + recordCount.toNat ≤ 2 ^ 31)
    (hclose : f k .close = some ()) (m : Memory β) :
    ∃ m', Performs (framing P) f k (exec P (sessionRest P recordCount (some session)) m) (k + 1)
      ((dataFrames P session.c2s session.sessionId recordCount.toNat).map .send) (true, m') := by
  obtain ⟨m', hrecords⟩ := performs_sendRecords (P := P) (f := f) k recordCount.toNat 0
    session hsid (by rw [hseq]; rfl) (by omega) m
  refine ⟨m', ?_⟩
  rw [sessionRest, exec_bind, dataFrames, List.map_append]
  refine hrecords.bind ?_
  rw [exec_ite, if_pos rfl, exec_bind, exec_sendFrame, ← List.append_nil (List.map _ _)]
  exact (frameFollows P).performs_write (Nat.zero_le _) (.internal hclose (.ret _))

variable {kem : Kem β .mlkem768}

/-- The surroundings after one call. -/
def Platform.next (client : Platform kem) : Platform kem :=
  { client with coins := fun n => client.coins (n + 1) }

theorem Platform.answer_succ (client : Platform kem) (n : ℕ) :
    client.answer P (n + 1) = client.next.answer P n := by
  funext o
  cases o <;> rfl

variable (P) (cfg : Config β) (mode : Mode) (client : Platform kem) (server : Server.Platform kem)

/-- An honest session, as the device sees it. The first call, which connects, is before the
handshake. -/
def sessionScript (recordCount : ℤ) : List (Item β) :=
  let h := honestValues P cfg mode client.next server
  honestScript P cfg mode client.next server ++
    (dataFrames P (h.c2s P) h.sessionId recordCount.toNat).map .send

/-- The device keeps to it. -/
theorem performs_pqcSessionRun (hpk : cfg.serverPublicKey = kem.publicKey server.staticKey)
    {recordCount : ℤ} (hcount : 810 + recordCount.toNat ≤ 2 ^ 31) (m : Memory β) :
    ∃ n m', Performs (framing P) (client.answer P) 0
      (exec P (pqcSessionRun P cfg mode recordCount) m) n
      (sessionScript P cfg mode client server recordCount) (true, m') := by
  -- The handshake is the one of the honest run, one call later.
  have hrun := device_run P cfg mode client.next server hpk
  rw [← handshake_refines P cfg mode m, Prog.run_map_iff] at hrun
  obtain ⟨⟨s, m₁⟩, hrun, rfl⟩ := hrun
  obtain ⟨n, hlog⟩ := device_scripted P cfg mode client.next server
  have hhandshake := (frameFollows P).performs_of_run (hlog.shift client.answer_succ) hrun
  obtain ⟨m', hrest⟩ := performs_sessionRest (P := P) (f := client.answer P) (n + 1)
    (clientSession P mode (honestValues P cfg mode client.next server))
    (server.token 8).2 rfl hcount rfl m₁
  -- Before it comes `connect_to_server`, and after it `close`.
  refine ⟨n + 1 + 1, m', ?_⟩
  rw [exec_pqcSessionRun]
  exact .internal (x := true) rfl (hhandshake.bind hrest)

end Firmware

/-! ## The server -/

/-- The server's stream opens the records of its session, when it has opened those before. -/
theorem openAll_sessionRecords {P : Prims β} (count n : ℕ) (stream : RecordStream β)
    (hdecrypt : ∀ nonce aad p, P.gcmDecrypt stream.key nonce aad
      (P.gcmEncrypt stream.key nonce aad p).1 (P.gcmEncrypt stream.key nonce aad p).2 = some p)
    (hlast : stream.lastRecvSeq = n - 1) (hcount : 810 + (n + count) ≤ 2 ^ 31) :
    stream.openAll P (sessionRecords P stream.key stream.sessionId n count) =
      ((sessionPlains P n count).map .ok,
        { stream with lastRecvSeq := ((n + count : ℕ) : ℤ) - 1 }) := by
  induction count generalizing n stream with
  | zero => rw [Nat.add_zero, ← hlast]; rfl
  | succ count ih =>
    have hplain := length_recordPlain (P := P) (n := n) (by omega)
    -- The first record is new to the stream, and the rest are new to the stream that has seen it.
    have hopen : stream.openRecord P (sealedRecord P stream.key stream.sessionId
        (n, recordPlain P n)) = (.ok (recordPlain P n), { stream with lastRecvSeq := n }) :=
      stream.openRecord_recordBytes P (by omega) (hplain.trans_lt (by decide)) (by omega)
        (hdecrypt _ _ _)
    have hrest := ih (n + 1) { stream with lastRecvSeq := n } hdecrypt
      (by dsimp only; omega) (by omega)
    rw [sessionRecords_succ, RecordStream.openAll, hopen]
    dsimp only at hrest ⊢
    rw [hrest, sessionPlains, sessionPlains, List.range'_succ, List.map_cons, List.map_cons,
      Nat.add_right_comm n 1 count, Nat.add_assoc]

namespace Server

variable {P : Prims β} {f : ℕ → (o : (host β).Op) → Option ((host β).Ans o)}
  {k n : ℕ} {s : List (Item β)} {r : Except PyExn (Option (Inbound β))}

/-- A turn of the record loop for a record that is opened. -/
theorem performs_recordLoop_data (turns : ℕ) {inbound : Inbound β} {record plain : List β}
    {stream : RecordStream β} (hlen : record.length ≤ maxFrame)
    (hopen : inbound.stream.openRecord P record = (.ok plain, stream))
    (hmark : f k (.recordOpen record) = some ())
    (hrest : Performs (framing P) f (k + 1) (recordLoop P turns
      ⟨stream, inbound.records + 1, inbound.payloadBytes + plain.length⟩).run n s r) :
    Performs (framing P) f k (recordLoop P (turns + 1) inbound).run n
      ((frameBytes P frameData record).map .recv ++ s) r := by
  refine (frameFollows P).performs_read hlen hlen (.internal hmark ?_)
  dsimp only
  rw [hopen]
  exact hrest

/-- The turn for Close. -/
theorem performs_recordLoop_close (turns : ℕ) (inbound : Inbound β) :
    Performs (framing P) f k (recordLoop P (turns + 1) inbound).run k
      ((frameBytes P frameClose []).map .recv) (.ok (some inbound)) := by
  rw [← List.append_nil (List.map _ _)]
  exact (frameFollows P).performs_read (Nat.zero_le _) (Nat.zero_le _) (.ret _)

/-- The record loop counts the records that are opened, up to Close. -/
theorem performs_recordLoop {records plains : List (List β)} {stream : RecordStream β} {turns : ℕ}
    (inbound : Inbound β) (hturns : records.length ≤ turns)
    (hlen : ∀ record ∈ records, record.length ≤ maxFrame)
    (hopen : inbound.stream.openAll P records = (plains.map .ok, stream))
    (hmark : ∀ k record, f k (.recordOpen record) = some ()) :
    Performs (framing P) f k (recordLoop P (turns + 1) inbound).run (k + records.length)
      ((records.flatMap (frameBytes P frameData) ++ frameBytes P frameClose []).map .recv)
      (.ok (some ⟨stream, inbound.records + records.length,
        inbound.payloadBytes + (plains.map List.length).sum⟩)) := by
  induction records generalizing turns plains inbound k with
  -- No record is left, and Close comes.
  | nil =>
    obtain ⟨hplains, rfl⟩ := Prod.mk.injEq _ _ _ _ |>.mp hopen
    obtain rfl := List.map_eq_nil_iff.mp hplains.symm
    exact performs_recordLoop_close turns inbound
  | cons record records ih =>
    rw [List.length_cons] at hturns
    obtain ⟨turns, rfl⟩ : ∃ t, turns = t + 1 := ⟨turns - 1, by omega⟩
    -- A turn of the loop opens what `openAll` opens first.
    rw [RecordStream.openAll] at hopen
    generalize hres : inbound.stream.openRecord P record = res at hopen
    obtain ⟨result, stream₁⟩ := res
    obtain ⟨hplains, hstream⟩ := Prod.mk.injEq _ _ _ _ |>.mp hopen
    obtain ⟨plain, plains, rfl, rfl, hrest⟩ := List.map_eq_cons_iff.mp hplains.symm
    have hloop := ih (k := k + 1)
      ⟨stream₁, inbound.records + 1, inbound.payloadBytes + plain.length⟩
      (show records.length ≤ turns by omega)
      (fun record' hmem => hlen record' (List.mem_cons_of_mem _ hmem))
      (Prod.ext hrest.symm hstream)
    rw [List.flatMap_cons, List.append_assoc, List.map_append]
    refine performs_recordLoop_data (turns + 1) (hlen record List.mem_cons_self) hres (hmark k _) ?_
    rw [List.length_cons, List.map_cons, List.sum_cons, ← Nat.add_assoc inbound.payloadBytes,
      Nat.add_comm records.length 1, ← Nat.add_assoc, ← Nat.add_assoc]
    exact hloop

variable (P) {kem : Kem β .mlkem768} (cfg : Firmware.Config β) (mode : Firmware.Mode)
  (client : Firmware.Platform kem) (server : Platform kem) (key : PrivateKey β)

/-- What is left of an honest session with `count` records. -/
def sessionInbound (count : ℕ) : Inbound β :=
  let h := honestValues P cfg mode client.next server
  { stream := ⟨h.c2s P, h.sessionId, 0, (count : ℤ) - 1⟩
    records := count
    payloadBytes := ((sessionPlains P 0 count).map List.length).sum }

/-- The connection keeps to the session, seen from the other side. -/
theorem performs_handleConnection [DecidableEq β]
    (hpk : cfg.serverPublicKey = kem.publicKey server.staticKey) (hid : cfg.serverKeyId = key.keyId)
    (hpsk : server.devices cfg.deviceId = .ok (some ⟨cfg.devicePsk, cfg.length_devicePsk⟩))
    (hdecrypt : ∀ key nonce aad p, P.gcmDecrypt key nonce aad
      (P.gcmEncrypt key nonce aad p).1 (P.gcmEncrypt key nonce aad p).2 = some p)
    {recordCount : ℤ} (hcount : 810 + recordCount.toNat ≤ 2 ^ 31) {turns : ℕ}
    (hturns : recordCount.toNat ≤ turns) :
    ∃ n, Performs (framing P) server.answer 0 (handleConnection P key (turns + 1)).run n
      ((Firmware.sessionScript P cfg mode client server recordCount).map .flip)
      (.ok (some (sessionInbound P cfg mode client server recordCount.toNat))) := by
  obtain ⟨n, hlog⟩ := connection_scripted P cfg mode client.next server hpk hpsk
  obtain ⟨session, hrun, hsid, -, hc2s⟩ := connection_run P cfg mode client.next server key hid
  -- Up to ClientFinished the connection is in the key exchange,
  have hexchange := (frameFollows P).performs_of_run hlog hrun
  -- and from then on in the record loop.
  have hopen := openAll_sessionRecords (P := P) recordCount.toNat 0
    (.init session.keys.c2s session.sessionId) (hdecrypt _) rfl (by omega)
  have hlen : ∀ record ∈ sessionRecords P session.keys.c2s session.sessionId 0 recordCount.toNat,
      record.length ≤ maxFrame := by
    intro record hmem
    obtain ⟨i, hi, rfl⟩ := List.mem_map.mp hmem
    have hlt := (List.mem_range'_1.mp hi).2
    exact (length_sealedRecord _ _ (by omega)).trans (by decide)
  have hloop := performs_recordLoop (k := n) (f := server.answer)
    ⟨.init session.keys.c2s session.sessionId, 0, 0⟩
    ((length_sessionRecords P _ _ _ _).trans_le hturns) hlen hopen fun _ _ => rfl
  have hbind : (handleConnection P key (turns + 1)).run = (keyExchange P key).run >>=
      ExceptT.bindCont fun session => recordLoop P (turns + 1)
        ⟨.init session.keys.c2s session.sessionId, 0, 0⟩ := rfl
  -- The two stages have the two parts of the script.
  have hscript : (Firmware.sessionScript P cfg mode client server recordCount).map Item.flip =
      (honestScript P cfg mode client.next server).map Item.flip ++
        (dataFrames P session.keys.c2s session.sessionId recordCount.toNat).map Item.recv := by
    rw [hc2s, hsid, Firmware.sessionScript, List.map_append, List.map_map, Item.flip_comp_send]
    rfl
  have hinbound : sessionInbound P cfg mode client server recordCount.toNat =
      ⟨⟨session.keys.c2s, session.sessionId, 0, ((0 + recordCount.toNat : ℕ) : ℤ) - 1⟩,
        0 + (sessionRecords P session.keys.c2s session.sessionId 0 recordCount.toNat).length,
        0 + ((sessionPlains P 0 recordCount.toNat).map List.length).sum⟩ := by
    rw [hc2s, hsid, length_sessionRecords, Nat.zero_add, Nat.zero_add]
    rfl
  rw [hbind, hscript, hinbound]
  exact ⟨_, hexchange.bind hloop⟩

end Server

/-! ## Delivery -/

/-- What the two ends send and receive is what the other end does, so that they get to their ends
together. -/
theorem session_finishes [DecidableEq β] (P : Prims β) (kem : Kem β .mlkem768)
    (cfg : Firmware.Config β) (key : Server.PrivateKey β) (mode : Firmware.Mode)
    (client : Firmware.Platform kem) (server : Server.Platform kem) (m : Firmware.Memory β)
    (recordCount : ℤ) (turns : ℕ) (hpk : cfg.serverPublicKey = kem.publicKey server.staticKey)
    (hid : cfg.serverKeyId = key.keyId)
    (hpsk : server.devices cfg.deviceId = .ok (some ⟨cfg.devicePsk, cfg.length_devicePsk⟩))
    (hdecrypt : ∀ key nonce aad p, P.gcmDecrypt key nonce aad
      (P.gcmEncrypt key nonce aad p).1 (P.gcmEncrypt key nonce aad p).2 = some p)
    (hcount : 810 + recordCount ≤ 2 ^ 31) (hturns : recordCount.toNat < turns) {count : ℕ}
    {c : Duplex β (Option Bool) (Option (Except PyExn (Option (Server.Inbound β))))}
    (hsteps : Duplex.Steps count (Duplex.start
      (Prog.resolve (client.answer P) 0 (Firmware.overSockets P
        (Prod.fst <$> Firmware.exec P (Firmware.pqcSessionRun P cfg mode recordCount) m)))
      (Prog.resolve server.answer 0
        (Server.overSockets P (Server.handleConnection P key turns)))) c) :
    let script := Firmware.sessionScript P cfg mode client server recordCount
    count ≤ 2 * script.length ∧ ((∃ c', Duplex.Step c c') ∨ Duplex.Finished (some true)
      (some (.ok (some (Server.sessionInbound P cfg mode client server recordCount.toNat))))
      (scriptSent script) (scriptSent (script.map .flip)) c) := by
  obtain ⟨turns, rfl⟩ : ∃ t, turns = t + 1 := ⟨turns - 1, by omega⟩
  obtain ⟨n, m', hdevice⟩ := Firmware.performs_pqcSessionRun P cfg mode client server hpk
    (show 810 + recordCount.toNat ≤ 2 ^ 31 by omega) m
  obtain ⟨n', hserver⟩ := Server.performs_handleConnection P cfg mode client server key hpk hid hpsk
    hdecrypt (show 810 + recordCount.toNat ≤ 2 ^ 31 by omega)
    (show recordCount.toNat ≤ turns by omega)
  -- Of the device only what `pqc_session_run` returns counts, not its memory.
  have hmap := hdevice.bind (g := fun r => .ret r.1) (.ret true)
  rw [← Prog.map_eq_bind, List.append_nil] at hmap
  exact Duplex.steps_of_follows hmap.follows hserver.follows hsteps

/-- A session delivers its records. For both modes, all nonces, coins, session ids, keys and PSKs,
and however the two byte streams split what is sent: when the device holds the server's key and its
id, the server has the device's PSK and the AEAD decrypts what it has encrypted, `pqc_session_run`
and `handle_connection` make a bounded number of socket calls, can always go on until both are done,
and then the device has returned `true`. What it sent is ClientHello, ClientFinished, one Data frame
for each record, and Close; the server has opened each of them, as the text of that record, and
counted all of them, with the bytes of their texts. -/
theorem session_delivers [DecidableEq β] (P : Prims β) (kem : Kem β .mlkem768)
    (cfg : Firmware.Config β) (key : Server.PrivateKey β) (mode : Firmware.Mode)
    (client : Firmware.Platform kem) (server : Server.Platform kem) (m : Firmware.Memory β)
    (recordCount : ℤ) (turns : ℕ) (hpk : cfg.serverPublicKey = kem.publicKey server.staticKey)
    (hid : cfg.serverKeyId = key.keyId)
    (hpsk : server.devices cfg.deviceId = .ok (some ⟨cfg.devicePsk, cfg.length_devicePsk⟩))
    (hdecrypt : ∀ key nonce aad p, P.gcmDecrypt key nonce aad
      (P.gcmEncrypt key nonce aad p).1 (P.gcmEncrypt key nonce aad p).2 = some p)
    (hcount : 810 + recordCount ≤ 2 ^ 31) (hturns : recordCount.toNat < turns) :
    ∃ (inbound : Server.Inbound β) (hello finished : List β) (records : List (List β))
      (toServer toClient : List β) (bound : ℕ),
      (RecordStream.init inbound.stream.key inbound.stream.sessionId).openAll P records =
        ((List.range recordCount.toNat).map fun n =>
          .ok (P.lits (Firmware.literal (Firmware.recordText n))), inbound.stream) ∧
      inbound.records = recordCount.toNat ∧
      inbound.payloadBytes = ((List.range recordCount.toNat).map fun n =>
        (Firmware.literal (Firmware.recordText n)).length).sum ∧
      toServer = frameBytes P frameClientHello hello ++ frameBytes P frameClientFinished finished ++
        records.flatMap (frameBytes P frameData) ++ frameBytes P frameClose [] ∧
      ∀ (count : ℕ) (c : Duplex β (Option Bool)
        (Option (Except PyExn (Option (Server.Inbound β))))), Duplex.Steps count (Duplex.start
          (Prog.resolve (client.answer P) 0 (Firmware.overSockets P
            (Prod.fst <$> Firmware.exec P (Firmware.pqcSessionRun P cfg mode recordCount) m)))
          (Prog.resolve server.answer 0
            (Server.overSockets P (Server.handleConnection P key turns)))) c →
        count ≤ bound ∧ ((∃ c', Duplex.Step c c') ∨
          Duplex.Finished (some true) (some (.ok (some inbound))) toServer toClient c) := by
  set h := honestValues P cfg mode client.next server with hh
  refine ⟨Server.sessionInbound P cfg mode client server recordCount.toNat, h.hello,
    h.clientFinished P, sessionRecords P (h.c2s P) h.sessionId 0 recordCount.toNat,
    scriptSent (Firmware.sessionScript P cfg mode client server recordCount),
    scriptSent ((Firmware.sessionScript P cfg mode client server recordCount).map .flip),
    2 * (Firmware.sessionScript P cfg mode client server recordCount).length, ?_, rfl, ?_, ?_,
    fun count c hsteps => session_finishes P kem cfg key mode client server m recordCount turns hpk
      hid hpsk hdecrypt hcount hturns hsteps⟩
  · -- What the records open to.
    have hopen := openAll_sessionRecords (P := P) recordCount.toNat 0
      (.init (h.c2s P) h.sessionId) (hdecrypt _) rfl (by omega)
    rw [Nat.zero_add, sessionPlains, List.map_map, ← List.range_eq_range'] at hopen
    exact hopen
  · -- What they add up to.
    simp only [Server.sessionInbound, sessionPlains, List.map_map, ← List.range_eq_range']
    refine congrArg List.sum (List.map_congr_left fun n _ => ?_)
    exact P.length_lits _
  · -- What the device has sent.
    simp only [Firmware.sessionScript, honestScript, ← hh, dataFrames, scriptSent_append,
      scriptSent_map_send, scriptSent_map_recv, List.nil_append, List.append_nil,
      List.append_assoc]

open Classical in
/-- Three records in mode B over the ideal primitives. -/
theorem session_delivers_ideal :
    let P := idealPrims fun _ : Symbolic.Byte ℕ Level => 0
    let kem := idealKem ℕ .mlkem768
    let bytes (n : ℕ) : { l : List (Symbolic.Byte ℕ Level) // l.length = n } :=
      ⟨P.lits (List.replicate n 0), (P.length_lits _).trans List.length_replicate⟩
    let client : Firmware.Platform kem := ⟨bytes, fun n => Symbolic.Byte.atomBytes 32 n⟩
    let server : Server.Platform kem := ⟨fun _ => .ok (some (bytes 32)), bytes,
      Symbolic.Byte.atomBytes 32 3, Symbolic.Byte.atomBytes 32 4, bytes 22, [], 0⟩
    let cfg : Firmware.Config (Symbolic.Byte ℕ Level) := ⟨(bytes 8).1, (bytes 32).1,
      kem.publicKey server.staticKey, (bytes 4).1, (bytes 8).2, (bytes 32).2,
      kem.length_publicKey _, (bytes 4).2⟩
    ∃ inbound : Server.Inbound (Symbolic.Byte ℕ Level), inbound.records = 3 ∧
      inbound.payloadBytes = 108 ∧
      ∀ count (c : Duplex (Symbolic.Byte ℕ Level) _ _), Duplex.Steps count (Duplex.start
          (Prog.resolve (client.answer P) 0 (Firmware.overSockets P
            (Prod.fst <$> Firmware.exec P (Firmware.pqcSessionRun P cfg .bForwardSecrecy 3)
              ⟨fun b => (bytes b.size).1, fun b => (bytes b.size).2⟩)))
          (Prog.resolve server.answer 0 (Server.overSockets P
            (Server.handleConnection P ⟨cfg.serverPublicKey, (bytes 4).1⟩ 4)))) c →
        (∃ c', Duplex.Step c c') ∨
          c.left = .ret (some true) ∧ c.right = .ret (some (.ok (some inbound))) := by
  intro P kem bytes client server cfg
  have hpk : cfg.serverPublicKey = kem.publicKey server.staticKey := by dsimp only [cfg]
  have hid : cfg.serverKeyId = (bytes 4).1 := by dsimp only [cfg]
  have hpsk : server.devices cfg.deviceId = .ok (some ⟨cfg.devicePsk, cfg.length_devicePsk⟩) :=
    congrArg (Except.ok ∘ some) (Subtype.ext (by dsimp only [cfg]))
  -- The primitives decrypt what they have encrypted.
  obtain ⟨inbound, _, _, _, _, _, _, -, hrecords, hpayload, -, hruns⟩ := session_delivers P kem cfg
    ⟨cfg.serverPublicKey, (bytes 4).1⟩ .bForwardSecrecy client server
    ⟨fun b => (bytes b.size).1, fun b => (bytes b.size).2⟩ 3 4 hpk hid hpsk
    (fun _ _ _ _ => (idealPrims_gcmDecrypt_eq_some _).mpr rfl) (by decide) (by decide)
  refine ⟨inbound, hrecords, hpayload.trans (by decide), fun count c hsteps => ?_⟩
  obtain ⟨-, hstep | hfinished⟩ := hruns count c hsteps
  · exact .inl hstep
  · exact .inr ⟨hfinished.left, hfinished.right⟩

end PqcIot
