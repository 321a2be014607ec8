import PqcIot.Protocol.KeySchedule

/-!
# Data records

One direction of the encrypted channel: `RecordStream` of `server/protocol.py`, with `seal` and
`open` as state transformers whose exceptions keep the state they were raised in. `seal` is a
program that calls the AEAD (`RecordStream.sealCalls`), so that its encryptions can be seen;
`recordBytes` is the layout of a sealed record, which it produces (`RecordStream.sealRecord_eq`) and
which `open` gives back (`RecordStream.openRecord_recordBytes`); `RecordStream.openRecord_cases`
says what else a call of `open` can do.
-/

namespace PqcIot

open Effects

namespace Protocol

variable {β : Type} (P : Prims β)

/-! ## Packing and the AEAD -/

/-- `struct.pack("!Q", seq)`. -/
def packQ (seq : ℕ) : Except PyExn (List β) :=
  if seq < 2 ^ 64 then .ok (P.lits (beBytes 8 seq)) else .error .structError

/-- `struct.pack("!QH", seq, len)`. -/
def packQH (seq len : ℕ) : Except PyExn (List β) :=
  if seq < 2 ^ 64 ∧ len < 2 ^ 16 then .ok (P.lits (beBytes 8 seq ++ beBytes 2 len))
  else .error .structError

/-- A call of `AESGCM(key).encrypt(nonce, data, aad)`. -/
structure EncryptOp (β : Type) where
  key : List β
  nonce : List β
  data : List β
  aad : List β

/-- The ciphertext followed by the tag. -/
abbrev EncryptOp.Sealed (o : EncryptOp β) : Type :=
  { sealed : List β // sealed.length = o.data.length + tagLen }

/-- The calls of `seal`; an encryption raises or returns what it has sealed. -/
abbrev aead (β : Type) : Signature := ⟨EncryptOp β, fun o => Except PyExn o.Sealed⟩

/-- `AESGCM(key).encrypt(nonce, data, aad)` with the primitives. -/
def aesgcmEncrypt (o : EncryptOp β) : Except PyExn o.Sealed :=
  let pair := P.gcmEncrypt o.key o.nonce o.aad o.data
  .ok ⟨pair.1 ++ pair.2, by
    rw [List.length_append, P.length_ciphertext, P.length_tag, tagLen]⟩

/-- `AESGCM(key).decrypt(nonce, data, aad)`, where `data` ends with the tag. -/
def aesgcmDecrypt (key nonce data aad : List β) : Option (List β) :=
  P.gcmDecrypt key nonce aad (data.take (data.length - tagLen)) (data.drop (data.length - tagLen))

/-! ## The stream -/

structure RecordStream (β : Type) where
  key : List β
  sessionId : List β
  sendSeq : ℕ
  lastRecvSeq : ℤ

namespace RecordStream

/-- `RecordStream(key, session_id)`. -/
def init (key sessionId : List β) : RecordStream β :=
  { key, sessionId, sendSeq := 0, lastRecvSeq := -1 }

def nonce (seq : ℕ) : Except PyExn (List β) := do
  return P.lits [0, 0, 0, 0] ++ (← packQ P seq)

def aad (self : RecordStream β) (seq ctLen : ℕ) : Except PyExn (List β) := do
  return self.sessionId ++ (← packQH P seq ctLen)

/-- `seal`, as a program that calls the AEAD: the record or the exception, and the stream as it is
left. -/
def sealCalls (self : RecordStream β) (plaintext : List β) :
    Prog (aead β) (Except PyExn (List β) × RecordStream β) :=
  let seq := self.sendSeq
  let args : Except PyExn (EncryptOp β) := do
    let nonce ← nonce P seq
    let aad ← self.aad P seq plaintext.length
    return { key := self.key, nonce, data := plaintext, aad }
  match args with
  | .error e => .ret (.error e, self)
  | .ok args =>
    .op args fun
      | .error e => .ret (.error e, self)
      | .ok sealed =>
        let ciphertext := sealed.1.take (sealed.1.length - tagLen)
        let tag := sealed.1.drop (sealed.1.length - tagLen)
        -- The number is advanced when the encryption has been done, before the record is put
        -- together.
        let record : Except PyExn (List β) := do
          return (← packQH P seq ciphertext.length) ++ ciphertext ++ tag
        .ret (record, { self with sendSeq := self.sendSeq + 1 })

/-- `seal`. -/
def sealRecord (self : RecordStream β) (plaintext : List β) :
    Except PyExn (List β) × RecordStream β :=
  (self.sealCalls P plaintext).eval (aesgcmEncrypt P)

/-- The first field of `struct.unpack("!QH", payload[:10])`: the sequence number. -/
def seqOf (payload : List β) : ℕ := beNat (P.vals (slice 0 8 payload))

/-- The second field of `struct.unpack("!QH", payload[:10])`: the ciphertext length. -/
def ctLenOf (payload : List β) : ℕ := beNat (P.vals (slice 8 2 payload))

/-- `open`. -/
def openRecord (self : RecordStream β) (payload : List β) :
    Except PyExn (List β) × RecordStream β :=
  if payload.length < 10 + tagLen then
    (.error (.protocolError "data record truncated"), self)
  else
    let seq := seqOf P payload
    let ctLen := ctLenOf P payload
    if payload.length ≠ 10 + ctLen + tagLen then
      (.error (.protocolError "data record length mismatch"), self)
    else if (seq : ℤ) ≤ self.lastRecvSeq then
      (.error (.protocolError s!"replayed or reordered record (seq {seq})"), self)
    else
      let ciphertext := slice 10 ctLen payload
      let tag := payload.drop (10 + ctLen)
      let decrypted : Except PyExn (Option (List β)) := do
        return aesgcmDecrypt P self.key (← nonce P seq) (ciphertext ++ tag) (← self.aad P seq ctLen)
      -- The number is remembered only of a record whose tag verifies.
      match decrypted with
      | .ok (some plaintext) => (.ok plaintext, { self with lastRecvSeq := seq })
      | _ => (.error (.protocolError "AEAD tag verification failed"), self)

end RecordStream

/-! ## Layout of a record -/

/-- The nonce of a sequence number. -/
def recordNonce (seq : ℕ) : List β := P.lits [0, 0, 0, 0] ++ P.lits (beBytes 8 seq)

/-- The additional data of a record with `len` bytes of plaintext. -/
def recordAad (sessionId : List β) (seq len : ℕ) : List β :=
  sessionId ++ P.lits (beBytes 8 seq ++ beBytes 2 len)

/-- A record with the given ciphertext and tag. -/
def recordBytes (seq : ℕ) (sealed : List β × List β) : List β :=
  P.lits (beBytes 8 seq ++ beBytes 2 sealed.1.length) ++ sealed.1 ++ sealed.2

/-- The sealed form of a plaintext: ciphertext and tag. -/
def sealedPair (key sessionId : List β) (seq : ℕ) (plain : List β) : List β × List β :=
  P.gcmEncrypt key (recordNonce P seq) (recordAad P sessionId seq plain.length) plain

@[simp]
theorem length_recordNonce (seq : ℕ) : (recordNonce P seq).length = 12 := by
  simp [recordNonce]

/-- A call of the AEAD's decryption. -/
structure GcmQuery (β : Type) where
  nonce : List β
  aad : List β
  ciphertext : List β
  tag : List β

/-- The answer to a query under a key. -/
def GcmQuery.decrypt (query : GcmQuery β) (key : List β) : Option (List β) :=
  P.gcmDecrypt key query.nonce query.aad query.ciphertext query.tag

/-- Sequence numbers below `2 ^ 64` have different nonces. -/
theorem recordNonce_inj {s t : ℕ} (hs : s < 2 ^ 64) (ht : t < 2 ^ 64)
    (h : recordNonce P s = recordNonce P t) : s = t := by
  rw [recordNonce, recordNonce, List.append_cancel_left_eq] at h
  exact beBytes_inj (n := 8) (by omega) (by omega) (P.lits_injective h)

namespace RecordStream

variable (self : RecordStream β)

theorem nonce_of_lt {seq : ℕ} (h : seq < 2 ^ 64) : nonce P seq = .ok (recordNonce P seq) := by
  rw [nonce, packQ, if_pos h, ok_bind]
  rfl

theorem aad_of_lt {seq len : ℕ} (hseq : seq < 2 ^ 64) (hlen : len < 2 ^ 16) :
    self.aad P seq len = .ok (recordAad P self.sessionId seq len) := by
  rw [aad, packQH, if_pos ⟨hseq, hlen⟩, ok_bind]
  rfl

/-- The AEAD's output is cut where its tag begins. -/
private theorem length_sub_tagLen (ct : List β) {tag : List β} (htag : tag.length = 16) :
    (ct ++ tag).length - tagLen = ct.length := by
  rw [List.length_append, htag, tagLen, Nat.add_sub_cancel]

/-- What `seal` makes of the outcome of its encryption. -/
def afterEncrypt {o : EncryptOp β} : Except PyExn o.Sealed →
    Except PyExn (List β) × RecordStream β
  | .error e => (.error e, self)
  | .ok sealed => (.ok (recordBytes P self.sendSeq
      (sealed.1.take o.data.length, sealed.1.drop o.data.length)),
    { self with sendSeq := self.sendSeq + 1 })

/-- The encryption of a plaintext under the current number. -/
def encryptOp (plaintext : List β) : EncryptOp β where
  key := self.key
  nonce := recordNonce P self.sendSeq
  data := plaintext
  aad := recordAad P self.sessionId self.sendSeq plaintext.length

/-- For a plaintext that fits, `seal` makes one encryption, with the nonce of the current number. -/
theorem sealCalls_eq {plaintext : List β} (hseq : self.sendSeq < 2 ^ 64)
    (hlen : plaintext.length < 2 ^ 16) :
    self.sealCalls P plaintext =
      .op (self.encryptOp P plaintext) fun answer => .ret (self.afterEncrypt P answer) := by
  simp only [sealCalls, nonce_of_lt P hseq, self.aad_of_lt P hseq hlen, ok_bind, pure_eq_ok]
  refine congrArg (Prog.op _) (funext fun answer => ?_)
  cases answer with
  | error e => rfl
  | ok sealed =>
    have hsealed : sealed.1.length = plaintext.length + tagLen := sealed.2
    have hcut : sealed.1.length - tagLen = plaintext.length := by
      rw [hsealed, Nat.add_sub_cancel]
    -- The record has the length of the ciphertext in it, which is that of the plaintext.
    have hct : (sealed.1.take plaintext.length).length = plaintext.length := by
      rw [List.length_take, hsealed]
      exact Nat.min_eq_left (Nat.le_add_right _ _)
    have hhead : packQH P self.sendSeq plaintext.length =
        .ok (P.lits (beBytes 8 self.sendSeq ++ beBytes 2 plaintext.length)) := by
      rw [packQH, if_pos ⟨hseq, hlen⟩]
    simp only [hcut, hct, hhead, ok_bind]
    show _ = Prog.ret (Except.ok (recordBytes P _ (sealed.1.take plaintext.length, _)), _)
    rw [recordBytes, hct]
    rfl

/-- For one that does not fit, it raises before it encrypts, and changes nothing. -/
theorem sealCalls_error {plaintext : List β}
    (h : ¬ (self.sendSeq < 2 ^ 64 ∧ plaintext.length < 2 ^ 16)) :
    self.sealCalls P plaintext = .ret (.error .structError, self) := by
  -- A number that does not fit fails in the nonce, a length in the additional data.
  by_cases hseq : self.sendSeq < 2 ^ 64
  · have haad : self.aad P self.sendSeq plaintext.length = .error .structError := by
      rw [aad, packQH, if_neg h, error_bind]
    simp only [sealCalls, nonce_of_lt P hseq, haad, ok_bind, error_bind]
  · simp only [sealCalls, nonce, packQ, if_neg hseq, error_bind]

/-- Sealing a plaintext that fits gives its record and advances the sequence number. -/
theorem sealRecord_eq {plaintext : List β} (hseq : self.sendSeq < 2 ^ 64)
    (hlen : plaintext.length < 2 ^ 16) :
    self.sealRecord P plaintext =
      (.ok (recordBytes P self.sendSeq
          (sealedPair P self.key self.sessionId self.sendSeq plaintext)),
        { self with sendSeq := self.sendSeq + 1 }) := by
  rw [sealRecord, self.sealCalls_eq P hseq hlen, Prog.eval_op, Prog.eval_ret]
  set pair := sealedPair P self.key self.sessionId self.sendSeq plaintext with hpair
  have hct : pair.1.length = plaintext.length := P.length_ciphertext _ _ _ _
  -- What was encrypted is cut into the ciphertext and the tag again.
  show (Except.ok (recordBytes P self.sendSeq ((pair.1 ++ pair.2).take plaintext.length,
    (pair.1 ++ pair.2).drop plaintext.length)), _) = _
  rw [← hct, List.take_left, List.drop_left]

/-- Sealing a plaintext that does not fit raises and changes nothing. -/
theorem sealRecord_error {plaintext : List β}
    (h : ¬ (self.sendSeq < 2 ^ 64 ∧ plaintext.length < 2 ^ 16)) :
    self.sealRecord P plaintext = (.error .structError, self) := by
  rw [sealRecord, self.sealCalls_error P h]
  rfl

theorem seqOf_lt (payload : List β) : seqOf P payload < 2 ^ 64 := by
  have hlen : (P.vals (slice 0 8 payload)).length ≤ 8 := by
    rw [Prims.vals, List.length_map, slice]
    exact List.length_take_le _ _
  exact (beNat_lt _).trans_le (Nat.pow_le_pow_right (by decide) hlen)

theorem ctLenOf_lt (payload : List β) : ctLenOf P payload < 2 ^ 16 := by
  have hlen : (P.vals (slice 8 2 payload)).length ≤ 2 := by
    rw [Prims.vals, List.length_map, slice]
    exact List.length_take_le _ _
  exact (beNat_lt _).trans_le (Nat.pow_le_pow_right (by decide) hlen)

/-- The query that `open` makes for a payload. -/
def gcmQuery (sessionId payload : List β) : GcmQuery β where
  nonce := recordNonce P (seqOf P payload)
  aad := recordAad P sessionId (seqOf P payload) (ctLenOf P payload)
  ciphertext := slice 10 (ctLenOf P payload) payload
  tag := payload.drop (10 + ctLenOf P payload)

/-- `open` on a payload of the length it announces: the replay check, then the AEAD. -/
theorem openRecord_eq {payload : List β} (hlen : payload.length = 10 + ctLenOf P payload + 16) :
    self.openRecord P payload =
      if (seqOf P payload : ℤ) ≤ self.lastRecvSeq then
        (.error (.protocolError s!"replayed or reordered record (seq {seqOf P payload})"), self)
      else
        match (gcmQuery P self.sessionId payload).decrypt P self.key with
        | some plaintext => (.ok plaintext, { self with lastRecvSeq := seqOf P payload })
        | none => (.error (.protocolError "AEAD tag verification failed"), self) := by
  have hnonce := nonce_of_lt P (seqOf_lt P payload)
  have haad := self.aad_of_lt P (seqOf_lt P payload) (ctLenOf_lt P payload)
  have htag : (payload.drop (10 + ctLenOf P payload)).length = 16 := by
    rw [List.length_drop]
    omega
  have hcut := length_sub_tagLen (slice 10 (ctLenOf P payload) payload) htag
  have hlen' : ¬ payload.length ≠ 10 + ctLenOf P payload + tagLen := not_not.mpr hlen
  simp only [openRecord, hnonce, haad, ok_bind, pure_eq_ok, aesgcmDecrypt, hcut, List.take_left,
    List.drop_left, if_neg hlen']
  rw [if_neg (by rw [hlen, tagLen]; omega)]
  -- The lengths have been checked; what is left is the replay check and the AEAD.
  refine if_congr Iff.rfl rfl ?_
  rw [gcmQuery, GcmQuery.decrypt]
  cases P.gcmDecrypt self.key _ _ _ _ <;> rfl

/-- `open` raises on a payload that does not have the length it announces. -/
theorem openRecord_length_error {payload : List β}
    (hlen : payload.length ≠ 10 + ctLenOf P payload + 16) :
    ∃ e, self.openRecord P payload = (.error e, self) := by
  by_cases hshort : payload.length < 10 + tagLen
  · exact ⟨_, by rw [openRecord, if_pos hshort]⟩
  · refine ⟨.protocolError "data record length mismatch", ?_⟩
    rw [openRecord, if_neg hshort]
    exact if_pos hlen

/-- A call of `open` raises and changes nothing, or opens a newer record whose tag verifies and
remembers its sequence number. -/
theorem openRecord_cases (payload : List β) :
    (∃ e, self.openRecord P payload = (.error e, self)) ∨
      ∃ plaintext, self.lastRecvSeq < seqOf P payload ∧
        (gcmQuery P self.sessionId payload).decrypt P self.key = some plaintext ∧
        self.openRecord P payload =
          (.ok plaintext, { self with lastRecvSeq := seqOf P payload }) := by
  -- Only a payload of the length it announces gets to the AEAD.
  by_cases hlen : payload.length = 10 + ctLenOf P payload + 16
  · rw [self.openRecord_eq P hlen]
    split
    · exact .inl ⟨_, rfl⟩
    · rename_i hnewer
      split
      · rename_i plaintext hdec
        exact .inr ⟨plaintext, not_le.mp hnewer, hdec, rfl⟩
      · exact .inl ⟨_, rfl⟩
  · exact .inl (self.openRecord_length_error P hlen)

/-- The fields of a record, as `open` reads them. -/
theorem fields_recordBytes {seq : ℕ} (pair : List β × List β) (hseq : seq < 2 ^ 64)
    (hct : pair.1.length < 2 ^ 16) :
    seqOf P (recordBytes P seq pair) = seq ∧
      ctLenOf P (recordBytes P seq pair) = pair.1.length ∧
      slice 10 pair.1.length (recordBytes P seq pair) = pair.1 ∧
      (recordBytes P seq pair).drop (10 + pair.1.length) = pair.2 := by
  -- The number, the length, and the rest.
  have hsplit : recordBytes P seq pair = P.lits (beBytes 8 seq) ++ P.lits (beBytes 2 pair.1.length)
      ++ (pair.1 ++ pair.2) := by
    simp [recordBytes, Prims.lits]
  refine ⟨?_, ?_, ?_, ?_⟩
  · have hslice : slice 0 8 (recordBytes P seq pair) = P.lits (beBytes 8 seq) := by
      rw [hsplit, List.append_assoc]
      exact slice_append_append (x := []) rfl (by simp)
    rw [seqOf, hslice, P.vals_lits, beNat_beBytes_of_lt hseq]
  · rw [ctLenOf, hsplit, slice_append_append (by simp) (by simp), P.vals_lits,
      beNat_beBytes_of_lt hct]
  · rw [hsplit, ← List.append_assoc]
    exact slice_append_append (by simp) rfl
  · rw [hsplit, ← List.append_assoc]
    exact List.drop_left' (by simp; omega)

/-- What `open` decrypts of a record is what was encrypted. -/
theorem gcmQuery_recordBytes (key sessionId : List β) {plaintext : List β} {seq : ℕ}
    (hseq : seq < 2 ^ 64)
    (hlen : plaintext.length < 2 ^ 16) :
    gcmQuery P sessionId (recordBytes P seq (sealedPair P key sessionId seq plaintext)) =
      ⟨recordNonce P seq, recordAad P sessionId seq plaintext.length,
        (sealedPair P key sessionId seq plaintext).1,
        (sealedPair P key sessionId seq plaintext).2⟩ := by
  have hct : (sealedPair P key sessionId seq plaintext).1.length = plaintext.length :=
    P.length_ciphertext _ _ _ _
  obtain ⟨hseqOf, hctLenOf, hslice, hdrop⟩ := fields_recordBytes P _ hseq (hct.trans_lt hlen)
  rw [gcmQuery, hseqOf, hctLenOf, hslice, hdrop, hct]

/-- A record of the stream's session is opened, if it is newer than the last one. -/
theorem openRecord_recordBytes {seq : ℕ} {plaintext : List β} (hseq : seq < 2 ^ 64)
    (hlen : plaintext.length < 2 ^ 16) (hnewer : self.lastRecvSeq < seq)
    (hdec : P.gcmDecrypt self.key (recordNonce P seq)
      (recordAad P self.sessionId seq plaintext.length)
      (sealedPair P self.key self.sessionId seq plaintext).1
      (sealedPair P self.key self.sessionId seq plaintext).2 = some plaintext) :
    self.openRecord P
        (recordBytes P seq (sealedPair P self.key self.sessionId seq plaintext)) =
      (.ok plaintext, { self with lastRecvSeq := seq }) := by
  have hquery := gcmQuery_recordBytes P self.key self.sessionId hseq hlen
  set pair := sealedPair P self.key self.sessionId seq plaintext with hpair
  have hct : pair.1.length = plaintext.length := P.length_ciphertext _ _ _ _
  have htag : pair.2.length = 16 := P.length_tag _ _ _ _
  obtain ⟨hseqOf, hctLenOf, -⟩ := fields_recordBytes P pair hseq (hct.trans_lt hlen)
  have hdecrypt : (gcmQuery P self.sessionId (recordBytes P seq pair)).decrypt P self.key =
      some plaintext := by
    rw [hquery]
    exact hdec
  rw [self.openRecord_eq P, hseqOf, if_neg (not_le.mpr hnewer), hdecrypt]
  rw [hctLenOf, recordBytes]
  simp only [List.length_append, P.length_lits, length_beBytes, htag]

end RecordStream

end Protocol

end PqcIot
