import PqcIot.System.DeviceRuns

/-!
# No nonce is used twice

The nonces of the two implementations' encryptions. On the firmware the numbers of a session are
used up in order and the session is abandoned at the first failure (`NumbersRecords`); in
`RecordStream` a number is used up by every encryption that succeeds, and a call that raises has
made none (`sealCalls_run`).
-/

namespace PqcIot

open Effects Protocol Firmware

variable {β : Type}

namespace Protocol.RecordStream

variable (P : Prims β)

/-- Calls of `seal` on every plaintext of a list, whatever each of them returns or raises. -/
def sealEach (self : RecordStream β) :
    List (List β) → Prog (aead β) (List (Except PyExn (List β)) × RecordStream β)
  | [] => .ret ([], self)
  | plaintext :: rest => self.sealCalls P plaintext >>= fun r =>
    r.2.sealEach rest >>= fun last => .ret (r.1 :: last.1, last.2)

/-- The nonce of an encryption, if it has succeeded. -/
def encryptedNonce : Event (aead β) → Option (List β)
  | ⟨o, .ok _⟩ => some o.nonce
  | ⟨_, .error _⟩ => none

/-- The nonces of the encryptions that have succeeded. -/
def encryptedNonces (log : List (Event (aead β))) : List (List β) := log.filterMap encryptedNonce

variable {P}

/-- What a call of `seal` may do: it raises and the stream stays as it was, or it encrypts under the
current number and advances it. -/
theorem sealCalls_run {self stream : RecordStream β} {plaintext : List β}
    {log : List (Event (aead β))} {result : Except PyExn (List β)}
    (hrun : Prog.Run (self.sealCalls P plaintext) log (.ret (result, stream))) :
    (encryptedNonces log = [] ∧ stream = self ∧ ∃ e, result = .error e) ∨
      (encryptedNonces log = [recordNonce P self.sendSeq] ∧ self.sendSeq < 2 ^ 64 ∧
        stream = { self with sendSeq := self.sendSeq + 1 } ∧ ∃ record, result = .ok record) := by
  by_cases hfits : self.sendSeq < 2 ^ 64 ∧ plaintext.length < 2 ^ 16
  · rw [self.sealCalls_eq P hfits.1 hfits.2] at hrun
    cases hrun with
    | @cons _ _ answer _ _ hrun =>
      obtain ⟨rfl, hret⟩ := hrun.of_ret
      match answer, hret with
      | .error e, hret =>
        cases hret
        exact .inl ⟨rfl, rfl, e, rfl⟩
      | .ok sealed, hret =>
        cases hret
        exact .inr ⟨rfl, hfits.1, rfl, _, rfl⟩
  · rw [self.sealCalls_error P hfits] at hrun
    obtain ⟨rfl, hret⟩ := hrun.of_ret
    cases hret
    exact .inl ⟨rfl, rfl, _, rfl⟩

/-- In a call that is under way nothing has been encrypted. -/
theorem sealCalls_pending {self : RecordStream β} {plaintext : List β} {log : List (Event (aead β))}
    {o : EncryptOp β} {k : Except PyExn o.Sealed →
      Prog (aead β) (Except PyExn (List β) × RecordStream β)}
    (hrun : Prog.Run (self.sealCalls P plaintext) log (.op o k)) : log = [] := by
  by_cases hfits : self.sendSeq < 2 ^ 64 ∧ plaintext.length < 2 ^ 16
  · rw [self.sealCalls_eq P hfits.1 hfits.2] at hrun
    cases hrun with
    | nil => rfl
    | cons hrun =>
      obtain ⟨-, hret⟩ := hrun.of_ret
      cases hret
  · rw [self.sealCalls_error P hfits] at hrun
    obtain ⟨-, hret⟩ := hrun.of_ret
    cases hret

/-- The encryptions of a sequence of calls use consecutive numbers, from the stream's current one
on. -/
theorem sealEach_numbered {self : RecordStream β} {plaintexts : List (List β)}
    {log : List (Event (aead β))}
    {q : Prog (aead β) (List (Except PyExn (List β)) × RecordStream β)}
    (hrun : Prog.Run (self.sealEach P plaintexts) log q) :
    ∃ k, (k = 0 ∨ self.sendSeq + k ≤ 2 ^ 64) ∧
      encryptedNonces log = (List.range' self.sendSeq k).map (recordNonce P) := by
  induction plaintexts generalizing self log q with
  | nil =>
    obtain ⟨rfl, -⟩ := hrun.of_ret
    exact ⟨0, .inl rfl, rfl⟩
  | cons plaintext rest ih =>
    rw [sealEach] at hrun
    -- The run has stopped in the first `seal`, or has got past it.
    rcases hrun.of_bind with ⟨o, k, hp, -⟩ | ⟨log₁, log₂, ⟨result, stream⟩, rfl, h₁, h₂⟩
    · rw [sealCalls_pending hp]
      exact ⟨0, .inl rfl, rfl⟩
    · obtain ⟨k, hk, heq⟩ : ∃ k, (k = 0 ∨ stream.sendSeq + k ≤ 2 ^ 64) ∧
          encryptedNonces log₂ = (List.range' stream.sendSeq k).map (recordNonce P) := by
        rcases h₂.of_bind with ⟨o, k, hp, -⟩ | ⟨log₃, log₄, last, rfl, h₃, h₄⟩
        · exact ih hp
        · obtain ⟨rfl, -⟩ := h₄.of_ret
          rw [List.append_nil]
          exact ih h₃
      have happend : encryptedNonces (log₁ ++ log₂) =
        encryptedNonces log₁ ++ encryptedNonces log₂ :=
        List.filterMap_append
      rcases sealCalls_run h₁ with ⟨hnone, rfl, -⟩ | ⟨hone, hseq, rfl, -⟩
      · -- Nothing was encrypted, and the number is the same.
        refine ⟨k, hk, ?_⟩
        rw [happend, hnone, List.nil_append, heq]
      · -- It has encrypted under its number, and the next ones start behind it.
        refine ⟨k + 1, .inr ?_, ?_⟩
        · rcases hk with rfl | hk
          · exact hseq
          · have hsucc : self.sendSeq + 1 + k ≤ 2 ^ 64 := hk
            omega
        · rw [happend, hone, heq, List.range'_succ, List.map_cons]
          rfl

theorem sealEach_nodup {self : RecordStream β} {plaintexts : List (List β)}
    {log : List (Event (aead β))}
    {q : Prog (aead β) (List (Except PyExn (List β)) × RecordStream β)}
    (hrun : Prog.Run (self.sealEach P plaintexts) log q) : (encryptedNonces log).Nodup := by
  obtain ⟨k, hk, heq⟩ := sealEach_numbered hrun
  rw [heq]
  refine List.Nodup.map_on ?_ (List.nodup_range' 1)
  intro s hs t ht hst
  rw [List.mem_range'_1] at hs ht
  exact recordNonce_inj P (by omega) (by omega) hst

/-- No call at all. -/
theorem run_sealEach_nil (self : RecordStream β) :
    ∃ r, Prog.Run (self.sealEach P []) [] (.ret r) := ⟨([], self), .nil _⟩

/-- Calls that go on after one has encrypted. -/
theorem run_sealEach_ok (self : RecordStream β) (plaintext : List β) {rest : List (List β)}
    {log : List (Event (aead β))} (hseq : self.sendSeq < 2 ^ 64) (hlen : plaintext.length < 2 ^ 16)
    (hrest : ∃ r, Prog.Run
      (sealEach P { self with sendSeq := self.sendSeq + 1 } rest) log (.ret r)) :
    ∃ r, Prog.Run (self.sealEach P (plaintext :: rest))
      (⟨self.encryptOp P plaintext, aesgcmEncrypt P _⟩ :: log) (.ret r) := by
  obtain ⟨r, hrest⟩ := hrest
  rw [sealEach, self.sealCalls_eq P hseq hlen]
  let result := self.afterEncrypt P (aesgcmEncrypt P (self.encryptOp P plaintext))
  have hafter := hrest.bind (f := fun last => Prog.ret (result.1 :: last.1, last.2)) (.nil _)
  rw [List.append_nil] at hafter
  exact ⟨_, .cons hafter⟩

/-- Calls that go on after one has raised before it encrypts. -/
theorem run_sealEach_error {self : RecordStream β} (plaintext : List β) {rest : List (List β)}
    {log : List (Event (aead β))} (h : ¬ (self.sendSeq < 2 ^ 64 ∧ plaintext.length < 2 ^ 16))
    (hrest : ∃ r, Prog.Run (self.sealEach P rest) log (.ret r)) :
    ∃ r, Prog.Run (self.sealEach P (plaintext :: rest)) log (.ret r) := by
  obtain ⟨r, hrest⟩ := hrest
  rw [sealEach, self.sealCalls_error P h]
  have hafter := hrest.bind
    (f := fun last => Prog.ret (Except.error PyExn.structError :: last.1, last.2)) (.nil _)
  rw [List.append_nil] at hafter
  exact ⟨_, hafter⟩

end Protocol.RecordStream

/-- No GCM nonce is used twice under a session key. In every run of `pqc_session_run`, whatever its
calls answer, the encryptions that succeed use the nonces of 0, 1, 2, … one after the other, all
attempts have different nonces and the key of the one session, and nothing is encrypted after a
record has failed. In any sequence of calls of `RecordStream.seal`, whatever the AEAD answers, the
encryptions that succeed have different nonces, and a call that raises has made none of them and
leaves `_send_seq` as it was. -/
theorem nonces_never_repeat (P : Prims β) :
    (∀ (cfg : Config β) (mode : Mode) (recordCount : ℤ) (m : Memory β) (log : CallLog β)
        (q : Prog (Firmware.calls β) (Bool × Memory β)), recordCount < 2 ^ 31 →
      Prog.Run ((pqcSessionRun P cfg mode recordCount).run m) log q →
        (successes log).map GcmCall.iv =
          (List.range (successes log).length).map (recordNonce P) ∧
        ((gcmCalls log).map GcmCall.iv).Nodup ∧
        (∀ call ∈ gcmCalls log, ∃ session, Firmware.Established P cfg mode m log session ∧
          call.key = session.c2s) ∧
        ∀ l₁ e l₂, log = l₁ ++ e :: l₂ → RecordFailure e → gcmCalls l₂ = []) ∧
    (∀ (stream : RecordStream β) (plaintexts : List (List β)) (log : List (Event (aead β)))
        (q : Prog (aead β) (List (Except PyExn (List β)) × RecordStream β)),
      Prog.Run (stream.sealEach P plaintexts) log q → (RecordStream.encryptedNonces log).Nodup) ∧
    (∀ (stream stream' : RecordStream β) (plaintext : List β) (log : List (Event (aead β)))
        (e : PyExn), Prog.Run (stream.sealCalls P plaintext) log (.ret (.error e, stream')) →
      RecordStream.encryptedNonces log = [] ∧ stream'.sendSeq = stream.sendSeq) ∧
    (∀ (stream : RecordStream β) (plaintext : List β) (e : PyExn),
      (stream.sealRecord P plaintext).1 = .error e →
        (stream.sealRecord P plaintext).2.sendSeq = stream.sendSeq) := by
  refine ⟨?_, fun stream plaintexts log q hrun => RecordStream.sealEach_nodup hrun, ?_, ?_⟩
  · -- The firmware.
    intro cfg mode recordCount m log q hcount hrun
    have hlog := pqcSessionRun_nonces hcount hrun
    exact ⟨hlog.successful_ivs, hlog.nodup, hlog.keys, hlog.ended⟩
  · -- A call of `seal` that raises.
    intro stream stream' plaintext log e hrun
    rcases RecordStream.sealCalls_run hrun with ⟨hnone, rfl, -⟩ | ⟨-, -, -, record, hrecord⟩
    · exact ⟨hnone, rfl⟩
    · cases hrecord
  · intro stream plaintext e herror
    by_cases hfits : stream.sendSeq < 2 ^ 64 ∧ plaintext.length < 2 ^ 16
    · rw [stream.sealRecord_eq P hfits.1 hfits.2] at herror
      cases herror
    · rw [stream.sealRecord_error P hfits]

/-- Three records, of which the last is not written: they are encrypted under 0, 1 and 2. And four
calls of `seal` from the last but one number on: the second plaintext is too long, and for the
fourth no number is left. -/
theorem nonces_never_repeat_cut :
    let m : Memory UInt8 := ⟨fun b => List.replicate b.size 0, fun _ => List.length_replicate⟩
    (∃ log l₁ e l₂ m', Prog.Run ((pqcSessionRun zeroPrims zeroConfig .a 5).run m) log
        (.ret (false, m')) ∧
      (successes log).map GcmCall.iv =
        [recordNonce zeroPrims 0, recordNonce zeroPrims 1, recordNonce zeroPrims 2] ∧
      ((gcmCalls log).map GcmCall.iv).Nodup ∧
      log = l₁ ++ e :: l₂ ∧ RecordFailure e ∧ gcmCalls l₂ = []) ∧
    ∃ log r, Prog.Run (RecordStream.sealEach zeroPrims ⟨[], [], 2 ^ 64 - 2, -1⟩
        [[1], List.replicate 65536 0, [2], [3]]) log (.ret r) ∧
      RecordStream.encryptedNonces log =
        [recordNonce zeroPrims (2 ^ 64 - 2), recordNonce zeroPrims (2 ^ 64 - 1)] ∧
      (RecordStream.encryptedNonces log).Nodup := by
  intro m
  obtain ⟨hfirmware, hserver, -, -⟩ := nonces_never_repeat zeroPrims
  constructor
  · obtain ⟨log, record, m', hsent, hrun⟩ := exists_session_cut zeroPrims zeroConfig .a m 2 2
    -- What the theorem says of this run.
    obtain ⟨hivs, hnodup, -, hended⟩ := hfirmware zeroConfig .a 5 m _ _ (by decide) hrun
    refine ⟨_, log, _, _, m', hrun, ?_, hnodup, rfl, rfl, hended _ _ _ rfl rfl⟩
    rw [hivs, length_successes_append, hsent]
    rfl
  · have hlong : ¬ (List.replicate 65536 (0 : UInt8)).length < 2 ^ 16 := by
      rw [List.length_replicate]
      decide
    obtain ⟨r, hrun⟩ := RecordStream.run_sealEach_ok (P := zeroPrims)
      ⟨[], [], 2 ^ 64 - 2, -1⟩ [1] (by decide) (by decide) <|
      RecordStream.run_sealEach_error _ (fun h => hlong h.2) <|
      RecordStream.run_sealEach_ok _ [2] (by decide) (by decide) <|
      RecordStream.run_sealEach_error [3] (fun h => absurd h.1 (by decide)) <|
      RecordStream.run_sealEach_nil _
    exact ⟨_, r, hrun, rfl, hserver _ _ _ _ hrun⟩

end PqcIot
