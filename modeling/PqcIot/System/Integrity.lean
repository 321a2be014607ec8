import PqcIot.Firmware.Records

/-!
# Integrity of the record stream

A sender seals plaintexts, with `RecordStream.seal` or with the firmware's `send_record`; a network
attacker delivers whatever it likes, and `RecordStream.open` is called on all of it. Unless a tag is
forged, the plaintexts that come out are those that went in, in order, each at most once
(`opened_sublist_sealed`).

The invariant is on the sender's side a sequence of numbered plaintexts whose numbers never decrease
(`Numbered`), and on the receiver's side that numbers of opened records increase.
-/

namespace PqcIot

open Effects Protocol Protocol.RecordStream

variable {β : Type} (P : Prims β)

/-! ## The receiver -/

namespace Protocol.RecordStream

/-- Call `open` on every payload of a list: the results and the stream it leaves. -/
def openAll (self : RecordStream β) :
    List (List β) → List (Except PyExn (List β)) × RecordStream β
  | [] => ([], self)
  | payload :: rest =>
    let (result, self) := self.openRecord P payload
    let (results, self) := self.openAll rest
    (result :: results, self)

/-- The plaintexts that come out. -/
def opened (self : RecordStream β) (delivered : List (List β)) : List (List β) :=
  (self.openAll P delivered).1.filterMap Except.toOption

/-- Call `seal` on every plaintext of a list: the plaintexts that were sealed, with their
records. -/
def sealAll (self : RecordStream β) : List (List β) → List (List β × List β)
  | [] => []
  | plaintext :: rest =>
    match self.sealRecord P plaintext with
    | (.ok record, self) => (plaintext, record) :: self.sealAll rest
    | (.error _, self) => self.sealAll rest

variable {P} (self : RecordStream β)

/-- A record that is refused leaves the stream as it was. -/
theorem openAll_of_error {payload : List β} {e : PyExn}
    (h : self.openRecord P payload = (.error e, self)) (rest : List (List β)) :
    self.openAll P (payload :: rest) =
      (.error e :: (self.openAll P rest).1, (self.openAll P rest).2) := by
  rw [openAll, h]

/-- It adds nothing to what is opened. -/
theorem opened_of_error {payload : List β} {e : PyExn}
    (h : self.openRecord P payload = (.error e, self)) (rest : List (List β)) :
    self.opened P (payload :: rest) = self.opened P rest := by
  rw [opened, self.openAll_of_error h, opened]
  rfl

/-- A record that opens adds its plaintext. -/
theorem opened_of_ok {payload plaintext : List β} {self' : RecordStream β}
    (h : self.openRecord P payload = (.ok plaintext, self')) (rest : List (List β)) :
    self.opened P (payload :: rest) = plaintext :: self'.opened P rest := by
  rw [opened, openAll, h, opened]
  rfl

end Protocol.RecordStream

/-! ## Numbered plaintexts -/

/-- The record of a numbered plaintext. -/
def sealedRecord (key sessionId : List β) (e : ℕ × List β) : List β :=
  recordBytes P e.1 (sealedPair P key sessionId e.1 e.2)

/-- Plaintexts numbered from `lo` on, with numbers that fit and never decrease. -/
structure Numbered (lo : ℕ) (entries : List (ℕ × List β)) : Prop where
  ordered : entries.Pairwise fun e e' => e.1 ≤ e'.1
  bounds : ∀ e ∈ entries, lo ≤ e.1 ∧ e.1 < 2 ^ 64 ∧ e.2.length < 2 ^ 16

namespace Numbered

variable {lo : ℕ} {entries : List (ℕ × List β)}

/-- No entries are numbered. -/
theorem nil : Numbered lo ([] : List (ℕ × List β)) := ⟨.nil, by simp⟩

/-- Numbers from some point on are so from an earlier one on. -/
theorem mono {lo' : ℕ} (h : Numbered lo entries) (hlo : lo' ≤ lo) : Numbered lo' entries :=
  ⟨h.ordered, fun e he => ⟨hlo.trans (h.bounds e he).1, (h.bounds e he).2⟩⟩

/-- The next number in front. -/
theorem cons {lo' : ℕ} {plain : List β} (h : Numbered lo' entries) (hlo : lo ≤ lo')
    (hseq : lo < 2 ^ 64) (hplain : plain.length < 2 ^ 16) :
    Numbered lo ((lo, plain) :: entries) := by
  refine ⟨List.pairwise_cons.mpr ⟨fun e he => hlo.trans (h.bounds e he).1, h.ordered⟩, ?_⟩
  rintro e (_ | ⟨_, he⟩)
  · exact ⟨le_rfl, hseq, hplain⟩
  · exact (h.mono hlo).bounds e he

/-- Past an entry of a numbered list come only entries that are not smaller, and every greater entry
is one of them. -/
theorem split {e : ℕ × List β} (h : Numbered lo entries) (he : e ∈ entries) :
    ∃ post, (e :: post).Sublist entries ∧ Numbered lo post ∧
      ∀ e' ∈ entries, e.1 < e'.1 → e' ∈ post := by
  obtain ⟨pre, post, rfl⟩ := List.append_of_mem he
  obtain ⟨-, htail, hcross⟩ := List.pairwise_append.mp h.ordered
  refine ⟨post, List.sublist_append_right _ _, ⟨(List.pairwise_cons.mp htail).2, fun e' he' =>
    h.bounds e' (by simp [he'])⟩, fun e' he' hlt => ?_⟩
  rcases List.mem_append.mp he' with hpre | htail'
  · have := hcross e' hpre e (by simp)
    omega
  · rcases List.mem_cons.mp htail' with rfl | hpost
    · exact absurd hlt (lt_irrefl _)
    · exact hpost

end Numbered

/-! ## The receiver's side of the invariant -/

section Receiver

variable {P} {entries : List (ℕ × List β)} {lo : ℕ}

/-- A query that the sender produced decrypts to the plaintext of the same number. -/
private theorem plaintext_of_query {key sessionId payload plaintext : List β} {e : ℕ × List β}
    (hdecrypt : ∀ nonce aad p, P.gcmDecrypt key nonce aad (P.gcmEncrypt key nonce aad p).1
      (P.gcmEncrypt key nonce aad p).2 = some p)
    (he : e.1 < 2 ^ 64 ∧ e.2.length < 2 ^ 16)
    (hquery : gcmQuery P sessionId payload = gcmQuery P sessionId (sealedRecord P key sessionId e))
    (hdec : (gcmQuery P sessionId payload).decrypt P key = some plaintext) :
    seqOf P payload = e.1 ∧ plaintext = e.2 := by
  rw [sealedRecord, gcmQuery_recordBytes P key sessionId he.1 he.2] at hquery
  refine ⟨recordNonce_inj P (seqOf_lt P payload) he.1 (congrArg GcmQuery.nonce hquery), ?_⟩
  rw [hquery, GcmQuery.decrypt, sealedPair, hdecrypt] at hdec
  exact (Option.some.inj hdec).symm

/-- Whatever is delivered, what is opened is a subsequence of what was sealed. -/
theorem opened_sublist (hnum : Numbered lo entries) (delivered : List (List β))
    (self : RecordStream β)
    (hdecrypt : ∀ nonce aad p, P.gcmDecrypt self.key nonce aad
      (P.gcmEncrypt self.key nonce aad p).1 (P.gcmEncrypt self.key nonce aad p).2 = some p)
    (hauth : ∀ payload ∈ delivered, ∀ plaintext, self.lastRecvSeq < seqOf P payload →
      (gcmQuery P self.sessionId payload).decrypt P self.key = some plaintext →
      ∃ e ∈ entries, gcmQuery P self.sessionId payload =
        gcmQuery P self.sessionId (sealedRecord P self.key self.sessionId e)) :
    (self.opened P delivered).Sublist (entries.map Prod.snd) := by
  induction delivered generalizing self entries with
  | nil => exact List.nil_sublist _
  | cons payload rest ih =>
    rcases self.openRecord_cases P payload with
      ⟨e, herr⟩ | ⟨plaintext, hnewer, hdec, hok⟩
    · rw [self.opened_of_error herr]
      exact ih hnum self hdecrypt fun payload' h' => hauth payload' (List.mem_cons_of_mem _ h')
    · obtain ⟨e, he, hquery⟩ := hauth payload List.mem_cons_self plaintext hnewer hdec
      obtain ⟨hnumber, rfl⟩ := plaintext_of_query hdecrypt (hnum.bounds e he).2 hquery hdec
      obtain ⟨post, hpost, hnum', hgreater⟩ := hnum.split he
      rw [self.opened_of_ok hok]
      refine List.Sublist.trans ?_ (hpost.map Prod.snd)
      refine (ih hnum' { self with lastRecvSeq := seqOf P payload } hdecrypt ?_).cons_cons _
      -- Later records have greater numbers, so they were sealed after this one.
      intro payload' h' plaintext' hnewer' hdec'
      obtain ⟨e', he', hquery'⟩ := hauth payload' (List.mem_cons_of_mem _ h') plaintext'
        (hnewer.trans hnewer') hdec'
      refine ⟨e', hgreater e' he' ?_, hquery'⟩
      obtain ⟨hnumber', -⟩ := plaintext_of_query hdecrypt (hnum.bounds e' he').2 hquery' hdec'
      have hlt : (seqOf P payload : ℤ) < seqOf P payload' := hnewer'
      rw [← hnumber, ← hnumber']
      exact_mod_cast hlt

end Receiver

/-! ## The senders -/

section Senders

/-- What `seal` produces is numbered by the stream. -/
theorem sealAll_numbered (self : RecordStream β) (plains : List (List β)) :
    ∃ entries, Numbered self.sendSeq entries ∧ self.sealAll P plains =
      entries.map fun e => (e.2, sealedRecord P self.key self.sessionId e) := by
  induction plains generalizing self with
  | nil => exact ⟨[], .nil, rfl⟩
  | cons plain rest ih =>
    by_cases hfits : self.sendSeq < 2 ^ 64 ∧ plain.length < 2 ^ 16
    · obtain ⟨entries, hnum, heq⟩ := ih { self with sendSeq := self.sendSeq + 1 }
      refine ⟨(self.sendSeq, plain) :: entries, hnum.cons (Nat.le_succ _) hfits.1 hfits.2, ?_⟩
      rw [sealAll, self.sealRecord_eq P hfits.1 hfits.2, List.map_cons]
      dsimp only
      rw [heq]
      rfl
    · obtain ⟨entries, hnum, heq⟩ := ih self
      refine ⟨entries, hnum, ?_⟩
      rw [sealAll, self.sealRecord_error P hfits]
      exact heq

open Firmware in
/-- Calls of `send_record` on every plaintext of a list, whatever each returns. -/
def sendEach : List (Payload β 65535) → Firmware.Session β → Code β (Firmware.Session β)
  | [], session => return session
  | plain :: rest, session => do
    let (_, session) ← sendRecord P session plain
    sendEach rest session

/-- The payloads a log of the firmware has written. -/
def writtenPayloads (log : List (Event (Firmware.visible β))) : List (List β) :=
  log.filterMap fun
    | ⟨.inl (.write _ payload), _⟩ => some payload
    | _ => none

/-- The plaintexts of a list that fit a frame of the firmware. -/
def fitting (plains : List (Payload β 65535)) : List (List β) :=
  (plains.map Subtype.val).filter fun plain => plain.length ≤ 1230

open Firmware in
/-- What `send_record` writes is numbered by the session. A record whose frame was not sent leaves
its number to the next one. -/
theorem sendEach_numbered (plains : List (Payload β 65535)) (session : Firmware.Session β)
    (hsid : session.sessionId.length = 8)
    (hcount : session.sendSeq.toNat + plains.length ≤ 2 ^ 64) {m : Memory β}
    {log : List (Event (visible β))} {r : Firmware.Session β × Memory β}
    (hrun : Prog.Run (exec P (sendEach P plains session) m) log (.ret r)) :
    ∃ entries, Numbered session.sendSeq.toNat entries ∧
      (fitting plains).zip (writtenPayloads log) =
        entries.map fun e => (e.2, sealedRecord P session.c2s session.sessionId e) := by
  induction plains generalizing session m log with
  | nil => exact ⟨[], .nil, rfl⟩
  | cons plain rest ih =>
    rw [List.length_cons] at hcount
    rw [sendEach, exec_bind] at hrun
    have hseq : session.sendSeq.toNat < 2 ^ 64 := session.sendSeq.toNat_lt
    by_cases hlen : plain.1.length ≤ 1230
    · obtain ⟨m', he⟩ := exec_sendRecord P session plain hsid hlen m
      have hfit : fitting (plain :: rest) = plain.1 :: fitting rest := by
        rw [fitting, List.map_cons, List.filter_cons_of_pos (by simpa using hlen), fitting]
      rw [he, Prog.op_bind] at hrun
      cases hrun with
      | @cons _ _ a log' _ hrun =>
        have hwritten : writtenPayloads (⟨.inl (.write Firmware.frameData
            (recordOf P session plain.1)), a⟩ :: log') =
              recordOf P session plain.1 :: writtenPayloads log' := rfl
        -- The numbers of what is sealed later.
        have hrest : ∃ lo entries, session.sendSeq.toNat ≤ lo ∧ Numbered lo entries ∧
            (fitting rest).zip (writtenPayloads log') =
              entries.map fun e => (e.2, sealedRecord P session.c2s session.sessionId e) := by
          match a with
          | .ok () =>
            cases rest with
            | nil => exact ⟨_, [], le_rfl, .nil, rfl⟩
            | cons plain' rest =>
              have hnext : (session.sendSeq + 1).toNat = session.sendSeq.toNat + 1 := by
                rw [List.length_cons] at hcount
                rw [UInt64.toNat_add, UInt64.toNat_one]
                omega
              obtain ⟨entries, hnum, heq⟩ := ih { session with sendSeq := session.sendSeq + 1 } hsid
                (by rw [hnext]; omega) hrun
              exact ⟨_, entries, by rw [hnext]; omega, hnum, heq⟩
          | .error () =>
            obtain ⟨entries, hnum, heq⟩ := ih session hsid (by omega) hrun
            exact ⟨_, entries, le_rfl, hnum, heq⟩
        obtain ⟨lo, entries, hlo, hnum, heq⟩ := hrest
        refine ⟨(session.sendSeq.toNat, plain.1) :: entries,
          (hnum.cons (hlo) hseq (by omega)), ?_⟩
        rw [hfit, hwritten, List.zip_cons_cons, heq]
        rfl
    · have hfit : fitting (plain :: rest) = fitting rest := by
        rw [fitting, List.map_cons, List.filter_cons_of_neg (by simpa using hlen), fitting]
      rw [exec_sendRecord_of_long P session plain (by omega), Prog.ret_bind] at hrun
      obtain ⟨entries, hnum, heq⟩ := ih session hsid (by omega) hrun
      exact ⟨entries, hnum, by rw [hfit, heq]⟩

/-- What a sender has sealed under a key and a session id: the plaintexts with their records, of
`seal` called on any list, or of `send_record` called on any list that does not use up the sequence
numbers. -/
inductive Sealed : List β → List β → List (List β × List β) → Prop
  | server (self : RecordStream β) (plains : List (List β)) :
      Sealed self.key self.sessionId (self.sealAll P plains)
  | firmware (session : Firmware.Session β) (plains : List (Payload β 65535))
      {m : Firmware.Memory β} {log : List (Event (Firmware.visible β))}
      {r : Firmware.Session β × Firmware.Memory β} :
      session.sessionId.length = 8 → session.sendSeq.toNat + plains.length ≤ 2 ^ 64 →
      Prog.Run (Firmware.exec P (sendEach P plains session) m) log (.ret r) →
      Sealed session.c2s session.sessionId ((fitting plains).zip (writtenPayloads log))

variable {P}

/-- Records are sealed under numbers that increase. -/
theorem Sealed.numbered {key sessionId : List β} {sent : List (List β × List β)}
    (h : Sealed P key sessionId sent) :
    ∃ lo entries, Numbered lo entries ∧
      sent = entries.map fun e => (e.2, sealedRecord P key sessionId e) := by
  cases h with
  | server self plains => exact ⟨_, sealAll_numbered P self plains⟩
  | firmware session plains hsid hcount hrun =>
    exact ⟨_, sendEach_numbered P plains session hsid hcount hrun⟩

/-- Integrity of the record stream. Whatever a sender has sealed and whatever is delivered: if the
AEAD decrypts, of the queries for the delivered strings, only those that the sender produced, then
the plaintexts that come out are a subsequence of those that were sealed. A call of `open` that
raises leaves the stream as it was, so that all later calls do what they would have done. -/
theorem opened_sublist_sealed {key sessionId : List β} {sent : List (List β × List β)}
    (hsent : Sealed P key sessionId sent)
    (hdecrypt : ∀ nonce aad p, P.gcmDecrypt key nonce aad (P.gcmEncrypt key nonce aad p).1
      (P.gcmEncrypt key nonce aad p).2 = some p)
    {receiver : RecordStream β} (hkey : receiver.key = key)
    (hsession : receiver.sessionId = sessionId) {delivered : List (List β)}
    (hauth : ∀ payload ∈ delivered, ∀ plaintext,
      (gcmQuery P sessionId payload).decrypt P key = some plaintext →
        gcmQuery P sessionId payload ∈ sent.map fun e => gcmQuery P sessionId e.2) :
    (receiver.opened P delivered).Sublist (sent.map Prod.fst) ∧
      ∀ (self : RecordStream β) (payload : List β) (e : PyExn),
        (self.openRecord P payload).1 = .error e →
          (self.openRecord P payload).2.lastRecvSeq = self.lastRecvSeq ∧
          ∀ rest, self.openAll P (payload :: rest) =
            (.error e :: (self.openAll P rest).1, (self.openAll P rest).2) := by
  constructor
  · -- Each payload that opens is a query about one of the sealed records.
    obtain ⟨lo, entries, hnum, rfl⟩ := hsent.numbered
    subst hkey hsession
    rw [List.map_map]
    refine opened_sublist hnum delivered receiver hdecrypt fun payload hmem plaintext _ hdec => ?_
    obtain ⟨e, he, hquery⟩ := List.mem_map.mp (hauth payload hmem plaintext hdec)
    obtain ⟨entry, hentry, rfl⟩ := List.mem_map.mp he
    exact ⟨entry, hentry, hquery.symm⟩
  · -- A refused payload changes nothing.
    intro self payload e he
    rcases self.openRecord_cases P payload with ⟨e', herr⟩ | ⟨plaintext, -, -, hok⟩
    · rw [herr] at he
      obtain rfl : e' = e := by injection he
      rw [herr]
      exact ⟨rfl, self.openAll_of_error herr⟩
    · rw [hok] at he
      cases he

/-- Two records delivered in the wrong order, the first of them twice. -/
theorem opened_sublist_sealed_reversed :
    let P := idealPrims fun _ : Symbolic.Byte ℕ Level => 0
    let sender := RecordStream.init (P.lits (List.replicate 32 1)) (P.lits (List.replicate 8 2))
    let sent := sender.sealAll P [P.lits (ascii "first"), P.lits (ascii "second")]
    let delivered := (sent.map Prod.snd).reverse ++ sent.map Prod.snd
    (sender.opened P delivered).Sublist (sent.map Prod.fst) := by
  intro P sender sent delivered
  refine (opened_sublist_sealed (.server sender _)
    (fun _ _ _ => (idealPrims_gcmDecrypt_eq_some _).mpr rfl) rfl rfl ?_).1
  intro payload hmem plaintext _
  obtain ⟨plain, hsent⟩ : ∃ plain, (plain, payload) ∈ sent := by simpa [delivered] using hmem
  exact List.mem_map.mpr ⟨_, hsent, rfl⟩

end Senders

end PqcIot
