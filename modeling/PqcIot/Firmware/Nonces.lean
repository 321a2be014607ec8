import Mathlib.Data.List.Induction
import Mathlib.Data.List.Nodup
import PqcIot.Firmware.Records
import PqcIot.Firmware.Rules

/-!
# The nonces of records

The firmware increments `send_seq` only after a record was written, so a failure leaves a number
current under which something may have been encrypted already. No number is used twice all the same:
whatever the calls answer, the loop of `pqc_session_run` encrypts under the numbers 0, 1, 2, … in
turn, and never again after a failure (`pqcSessionRun_nonces`).
-/

namespace PqcIot

open Effects Protocol

variable {β : Type}

namespace Firmware

/-! ## Encryptions in a history -/

/-- A call of `mbedtls_gcm_crypt_and_tag`. -/
structure GcmCall (β : Type) where
  key : List β
  iv : List β
  rc : ℤ

def gcmCall? : Event (calls β) → Option (GcmCall β)
  | ⟨.inl (.gcmCryptAndTag key iv _ _), result⟩ => some ⟨key, iv, result.rc⟩
  | _ => none

/-- The encryptions in a history. -/
def gcmCalls (h : CallLog β) : List (GcmCall β) := h.filterMap gcmCall?

@[simp]
theorem gcmCalls_nil : gcmCalls ([] : CallLog β) = [] := rfl

@[simp]
theorem gcmCalls_append (h h' : CallLog β) : gcmCalls (h ++ h') = gcmCalls h ++ gcmCalls h' :=
  List.filterMap_append

/-- The encryptions that have succeeded. -/
def successes (h : CallLog β) : List (GcmCall β) := (gcmCalls h).filter fun call => call.rc = 0

/-- Encrypting a record, or writing its frame, has failed. -/
def RecordFailure : Event (calls β) → Prop
  | ⟨.inl (.gcmSetkey _), rc⟩ => rc ≠ (0 : ℤ)
  | ⟨.inl (.gcmCryptAndTag _ _ _ _), result⟩ => result.rc ≠ 0
  | ⟨.inr (.inl (.write ftype _)), .error _⟩ => ftype = frameData
  | _ => False

section Nonces

variable (P : Prims β) (cfg : Config β) (mode : Mode) (m₀ : Memory β)

/-- `handshake` has returned `true` and filled in the session. -/
def Established (h : CallLog β) (session : Session β) : Prop :=
  ∃ h₁ m', ⟨.inr (.inr .connectToServer), true⟩ :: h₁ <+: h ∧
    Prog.Run ((handshake P cfg mode.suite).run m₀) h₁ (.ret (some session, m'))

/-- When an encryption happens: in a session, under its key, before any failure, with the nonce of
the number of encryptions so far. -/
def EncryptsInTurn (h : CallLog β) : (calls β).Op → Prop
  | .inl (.gcmCryptAndTag key iv _ _) =>
    (∀ e ∈ h, ¬ RecordFailure e) ∧ (gcmCalls h).length < 2 ^ 64 ∧
      iv = recordNonce P (gcmCalls h).length ∧
      ∃ session, Established P cfg mode m₀ h session ∧ key = session.c2s
  | _ => True

/-- The state of the record loop: nothing has failed and `send_seq` is the number of encryptions. -/
structure InSession (h : CallLog β) (session : Session β) : Prop where
  unfailed : ∀ e ∈ h, ¬ RecordFailure e
  sendSeq : (gcmCalls h).length = session.sendSeq.toNat
  established : ∃ s, Established P cfg mode m₀ h s ∧ session.c2s = s.c2s

variable {P cfg mode m₀}

theorem Established.mono {h h' : CallLog β} {session : Session β}
    (hs : Established P cfg mode m₀ h session) (hpfx : h <+: h') :
    Established P cfg mode m₀ h' session := by
  obtain ⟨h₁, m', hh₁, hrun⟩ := hs
  exact ⟨h₁, m', hh₁.trans hpfx, hrun⟩

/-- An event that is neither an encryption nor a failure changes nothing. -/
theorem InSession.concat {h : CallLog β} {session : Session β} {e : Event (calls β)}
    (hs : InSession P cfg mode m₀ h session) (hcall : gcmCall? e = none)
    (hfailure : ¬ RecordFailure e) : InSession P cfg mode m₀ (h ++ [e]) session where
  unfailed := by
    intro e' he'
    rcases List.mem_append.mp he' with hmem | hmem
    · exact hs.unfailed e' hmem
    · rwa [List.mem_singleton.mp hmem]
  sendSeq := by
    have hnone : gcmCalls [e] = [] := by
      rw [gcmCalls, List.filterMap_cons_none hcall, List.filterMap_nil]
    rw [gcmCalls_append, hnone, List.append_nil]
    exact hs.sendSeq
  established := by
    obtain ⟨s, hest, hkey⟩ := hs.established
    exact ⟨s, hest.mono (List.prefix_append _ _), hkey⟩

theorem toNat_succ {seq : UInt64} (hseq : seq.toNat + 1 < 2 ^ 64) :
    (seq + 1).toNat = seq.toNat + 1 := by
  rw [UInt64.toNat_add, UInt64.toNat_one, Nat.mod_eq_of_lt hseq]

/-- After an encryption that has succeeded, the next number is current. -/
theorem InSession.encrypted {h : CallLog β} {session : Session β} {iv add input : List β}
    {result : GcmOutput β input.length} (hs : InSession P cfg mode m₀ h session)
    (hseq : session.sendSeq.toNat + 1 < 2 ^ 64) (hrc : result.rc = 0) :
    InSession P cfg mode m₀ (h ++ [⟨.inl (.gcmCryptAndTag session.c2s iv add input), result⟩])
      { session with sendSeq := session.sendSeq + 1 } where
  unfailed := by
    intro e he
    rcases List.mem_append.mp he with hmem | hmem
    · exact hs.unfailed e hmem
    · rw [List.mem_singleton.mp hmem]
      exact not_not.mpr hrc
  sendSeq := by
    rw [gcmCalls_append, List.length_append, hs.sendSeq, toNat_succ hseq]
    rfl
  established := by
    obtain ⟨s, hest, hkey⟩ := hs.established
    exact ⟨s, hest.mono (List.prefix_append _ _), hkey⟩

/-- The nonce that `send_record` writes is the one of `send_seq`. -/
theorem nonce_eq (seq : UInt64) :
    P.lits ([0, 0, 0, 0] ++ seqBytes seq) = recordNonce P seq.toNat := by
  rw [recordNonce, seqBytes_eq, Prims.lits, List.map_append]
  rfl

/-- `send_record` encrypts at most once, and returns `true` only if nothing has failed. -/
theorem sendRecord_numbered {h : CallLog β} {session : Session β}
    (hs : InSession P cfg mode m₀ h session) (hseq : session.sendSeq.toNat + 1 < 2 ^ 64)
    (plain : Payload β 65535) (m : Memory β) :
    Code.Ensures (EncryptsInTurn P cfg mode m₀)
      (fun h' r _ => r.1 = true → InSession P cfg mode m₀ h' r.2 ∧
        r.2.sendSeq.toNat = session.sendSeq.toNat + 1) h m (sendRecord P session plain) := by
  -- A record that is too long is refused before anything is called.
  refine Code.ensures_ite (fun _ => nofun) fun _ => ?_
  refine Code.ensures_memcpy_bind trivial fun m₁ => Code.ensures_memcpy_bind trivial fun m₂ =>
    Code.ensures_memcpy_bind trivial fun m₃ => Code.ensures_mbedtls_bind trivial fun rc => ?_
  refine Code.ensures_ite (fun _ => nofun) fun hrc => ?_
  have hkeyed : InSession P cfg mode m₀ (h ++ [⟨.inl (.gcmSetkey session.c2s), rc⟩]) session :=
    hs.concat rfl hrc
  -- The one encryption: nothing has failed, and its nonce is that of `send_seq`.
  refine Code.ensures_mbedtls_bind ⟨hkeyed.unfailed, ?_, ?_, hkeyed.established⟩ fun result => ?_
  · rw [hkeyed.sendSeq]
    omega
  · rw [nonce_eq, hkeyed.sendSeq]
  refine Code.ensures_memcpy_bind trivial fun m₄ => Code.ensures_memcpy_bind trivial fun m₅ => ?_
  -- From here on `send_seq` is advanced only if the frame has been written.
  refine Code.ensures_ite (fun _ => nofun) fun hresult => ?_
  refine Code.ensures_bytesAt_bind trivial fun record => ?_
  refine Code.ensures_sendFrame_bind trivial (fun _ => ⟨?_, toNat_succ hseq⟩) nofun
  exact (hkeyed.encrypted hseq (not_not.mp hresult)).concat rfl id

/-- The record loop, from any number on. -/
theorem sendRecords_numbered (count n : ℕ) {h : CallLog β} {session : Session β}
    (hs : InSession P cfg mode m₀ h session) (hseq : session.sendSeq.toNat + count < 2 ^ 64)
    (m : Memory β) :
    Code.Ensures (EncryptsInTurn P cfg mode m₀) (fun _ _ _ => True) h m
      (sendRecords P count n session) := by
  induction count generalizing n h session m with
  | zero => trivial
  | succ count ih =>
    rw [sendRecords]
    generalize (⟨(P.lits (literal (recordText n))).take 79, _⟩ : Payload β 65535) = plain
    have hfirst := sendRecord_numbered hs (by omega) plain m
    refine hfirst.bind ?_
    rintro l ⟨ok, session'⟩ m' hr
    -- The loop goes on only after a record that was sent.
    refine Code.ensures_ite (fun hok => ?_) fun _ => trivial
    obtain ⟨hs', hsucc⟩ : InSession P cfg mode m₀ (h ++ l) session' ∧
        session'.sendSeq.toNat = session.sendSeq.toNat + 1 := hr hok
    exact ih (n + 1) hs' (by omega) m'

/-- Calls of a handshake encrypt no record. -/
theorem HandshakeCall.no_encryption {e : Event (calls β)} (he : HandshakeCall e.1) :
    gcmCall? e = none ∧ ¬ RecordFailure e := by
  match e, he with
  | ⟨.inl (.gcmSetkey _), _⟩, he | ⟨.inl (.gcmCryptAndTag _ _ _ _), _⟩, he => exact he.elim
  | ⟨.inr (.inl (.write ftype _)), .error _⟩, he =>
    -- A frame that was not written matters only where it is a record.
    refine ⟨rfl, fun hdata => ?_⟩
    have hdata' : ftype = frameData := hdata
    rcases he with rfl | rfl <;> exact absurd hdata' (by decide)
  | ⟨.inr (.inl (.write _ _)), .ok _⟩, _ | ⟨.inr (.inl (.read _)), _⟩, _
  | ⟨.inr (.inr _), _⟩, _ | ⟨.inl .mdSetup, _⟩, _ | ⟨.inl (.mdHmacStarts _), _⟩, _
  | ⟨.inl (.mdHmacUpdate _ _ _), _⟩, _ | ⟨.inl (.mdHmacFinish _ _), _⟩, _
  | ⟨.inl (.mdHmac _ _), _⟩, _ | ⟨.inl .sha256Starts, _⟩, _ | ⟨.inl (.sha256Update _ _), _⟩, _
  | ⟨.inl (.sha256Finish _), _⟩, _ | ⟨.inl (.hkdfExtract _ _), _⟩, _
  | ⟨.inl (.hkdfExpand _ _), _⟩, _ => exact ⟨rfl, id⟩

/-- A call of a handshake may come at any point. -/
theorem HandshakeCall.encryptsInTurn {h : CallLog β} {o : (calls β).Op} (ho : HandshakeCall o) :
    EncryptsInTurn P cfg mode m₀ h o := by
  match o, ho with
  | .inl (.gcmSetkey _), ho | .inl (.gcmCryptAndTag _ _ _ _), ho => exact ho.elim
  | .inr _, _ | .inl .mdSetup, _ | .inl (.mdHmacStarts _), _ | .inl (.mdHmacUpdate _ _ _), _
  | .inl (.mdHmacFinish _ _), _ | .inl (.mdHmac _ _), _ | .inl .sha256Starts, _
  | .inl (.sha256Update _ _), _ | .inl (.sha256Finish _), _ | .inl (.hkdfExtract _ _), _
  | .inl (.hkdfExpand _ _), _ => exact trivial

/-- `pqc_session_run` encrypts in turn. -/
theorem pqcSessionRun_encryptsInTurn {recordCount : ℤ} (hcount : recordCount < 2 ^ 31) :
    Code.Ensures (EncryptsInTurn P cfg mode m₀) (fun _ _ _ => True) [] m₀
      (pqcSessionRun P cfg mode recordCount) := by
  refine Code.ensures_host_bind trivial fun connected => Code.ensures_ite (fun hconnected => ?_)
    fun _ => trivial
  subst hconnected
  have hhandshake : Code.Ensures (EncryptsInTurn P cfg mode m₀)
      (fun h' a m' => ∃ l, h' = [] ++ [⟨.inr (.inr .connectToServer), true⟩] ++ l ∧
        (∀ e ∈ l, HandshakeCall e.1) ∧
        Prog.Run ((handshake P cfg mode.suite).run m₀) l (.ret (a, m')))
      ([] ++ [⟨.inr (.inr .connectToServer), true⟩]) m₀ (handshake P cfg mode.suite) :=
    ((makes_handshake P cfg mode.suite).ensures_run _ m₀).mono (fun _ _ ho => ho.encryptsInTurn)
      fun _ _ _ hr => hr
  refine hhandshake.bind ?_
  rintro l (_ | session) m ⟨l', heq, hl, hrun⟩
  · exact Code.ensures_host_bind trivial fun _ => trivial
  · obtain rfl := List.append_cancel_left heq
    -- Nothing was encrypted, and nothing that matters has failed.
    have hno : ∀ e ∈ [] ++ [⟨.inr (.inr .connectToServer), true⟩] ++ l,
        gcmCall? e = none ∧ ¬ RecordFailure e := by
      rintro e (_ | ⟨_, he⟩)
      · exact ⟨rfl, id⟩
      · exact (hl e he).no_encryption
    have hseq : session.sendSeq = 0 :=
      Prog.Spec.ret_of_run (returns_handshake P cfg mode.suite [] m₀) hrun session rfl
    have hs : InSession P cfg mode m₀ ([] ++ [⟨.inr (.inr .connectToServer), true⟩] ++
      l) session := by
      refine ⟨fun e he => (hno e he).2, ?_, session, ⟨l, m, List.prefix_rfl, hrun⟩, rfl⟩
      rw [hseq, gcmCalls, List.filterMap_eq_nil_iff.mpr fun e he => (hno e he).1]
      rfl
    -- The number starts at zero and stays below the number of records.
    refine Code.Ensures.bind (sendRecords_numbered recordCount.toNat 0 hs ?_ m) ?_
    · rw [hseq]
      have hzero : (0 : UInt64).toNat = 0 := rfl
      omega
    · rintro l' ok m' -
      refine Code.ensures_ite (fun _ => ?_) fun _ => ?_
      · refine Code.ensures_sendFrame_bind trivial ?_ ?_
        · exact Code.ensures_host_bind trivial fun _ => trivial
        · exact Code.ensures_host_bind trivial fun _ => trivial
      · exact Code.ensures_host_bind trivial fun _ => trivial

/-! ## Whole runs -/

variable (P cfg mode m₀) in
/-- What the encryptions of a run are: under the key of the one session, the n-th of them with the
nonce of n, and none after a failure. -/
structure NumbersRecords (log : CallLog β) : Prop where
  ivs : (gcmCalls log).map GcmCall.iv = (List.range (gcmCalls log).length).map (recordNonce P)
  bound : (gcmCalls log).length ≤ 2 ^ 64
  succeeded : ∀ call ∈ (gcmCalls log).dropLast, call.rc = 0
  keys : ∀ call ∈ gcmCalls log, ∃ session, Established P cfg mode m₀ log session ∧
    call.key = session.c2s
  ended : ∀ l₁ e l₂, log = l₁ ++ e :: l₂ → RecordFailure e → gcmCalls l₂ = []

theorem NumbersRecords.nil : NumbersRecords P cfg mode m₀ [] where
  ivs := rfl
  bound := Nat.zero_le _
  succeeded := nofun
  keys := nofun
  ended := by
    intro l₁ e l₂ heq
    exact absurd heq.symm (by simp)

/-- An event that is no encryption. -/
theorem NumbersRecords.concat_other {log : CallLog β} {e : Event (calls β)}
    (hlog : NumbersRecords P cfg mode m₀ log) (he : gcmCall? e = none) :
    NumbersRecords P cfg mode m₀ (log ++ [e]) := by
  have hcalls : gcmCalls (log ++ [e]) = gcmCalls log := by
    rw [gcmCalls_append, gcmCalls, gcmCalls, List.filterMap_cons_none he, List.filterMap_nil,
      List.append_nil]
  refine ⟨?_, ?_, ?_, ?_, ?_⟩
  · rw [hcalls]
    exact hlog.ivs
  · rw [hcalls]
    exact hlog.bound
  · rw [hcalls]
    exact hlog.succeeded
  · intro call hmem
    rw [hcalls] at hmem
    obtain ⟨session, hest, hkey⟩ := hlog.keys call hmem
    exact ⟨session, hest.mono (List.prefix_append _ _), hkey⟩
  · intro l₁ f l₂ heq hf
    -- The failure is the new event, with nothing after it, or one of the history.
    rcases List.eq_nil_or_concat l₂ with rfl | ⟨l₂', e', rfl⟩
    · rfl
    · rw [List.concat_eq_append, ← List.cons_append, ← List.append_assoc] at heq
      obtain ⟨hlog', he'⟩ := List.append_inj' heq rfl
      obtain rfl : e = e' := List.singleton_injective he'
      rw [List.concat_eq_append, gcmCalls_append, hlog.ended l₁ f l₂' hlog' hf, gcmCalls,
        List.filterMap_cons_none he, List.filterMap_nil, List.append_nil]

/-- The encryptions of a history without failures have succeeded. -/
theorem rc_eq_zero {h : CallLog β} (hunfailed : ∀ e ∈ h, ¬ RecordFailure e) {call : GcmCall β}
    (hcall : call ∈ gcmCalls h) : call.rc = 0 := by
  obtain ⟨⟨o, a⟩, hmem, heq⟩ := List.mem_filterMap.mp hcall
  match o, a, heq with
  | .inl (.gcmCryptAndTag _ _ _ _), result, rfl => exact not_not.mp (hunfailed _ hmem)

/-- An encryption in turn. -/
theorem NumbersRecords.concat_call {log : CallLog β} {key iv add input : List β}
    {result : GcmOutput β input.length} (hlog : NumbersRecords P cfg mode m₀ log)
    (hturn : EncryptsInTurn P cfg mode m₀ log (.inl (.gcmCryptAndTag key iv add input))) :
    NumbersRecords P cfg mode m₀ (log ++ [⟨.inl (.gcmCryptAndTag key iv add input), result⟩]) := by
  obtain ⟨hunfailed, hbound, hiv, session, hest, hkey⟩ := hturn
  have hcalls : gcmCalls (log ++ [⟨.inl (.gcmCryptAndTag key iv add input), result⟩]) =
      gcmCalls log ++ [⟨key, iv, result.rc⟩] := gcmCalls_append _ _
  -- The new call has the next number, and all calls before it have succeeded.
  refine ⟨?_, ?_, ?_, ?_, ?_⟩
  · rw [hcalls, List.map_append, hlog.ivs, List.length_append, List.length_singleton,
      List.range_succ, List.map_append, hiv]
    rfl
  · rw [hcalls, List.length_append, List.length_singleton]
    omega
  · intro call hmem
    rw [hcalls, List.dropLast_concat] at hmem
    exact rc_eq_zero hunfailed hmem
  · intro call hmem
    rw [hcalls] at hmem
    rcases List.mem_append.mp hmem with hold | hnew
    · obtain ⟨s, hs, hkey'⟩ := hlog.keys call hold
      exact ⟨s, hs.mono (List.prefix_append _ _), hkey'⟩
    · rw [List.mem_singleton.mp hnew]
      exact ⟨session, hest.mono (List.prefix_append _ _), hkey⟩
  · intro l₁ f l₂ heq hf
    rcases List.eq_nil_or_concat l₂ with rfl | ⟨l₂', e', rfl⟩
    · rfl
    · -- A failure in the history would have kept the code from encrypting.
      rw [List.concat_eq_append, ← List.cons_append, ← List.append_assoc] at heq
      obtain ⟨rfl, -⟩ := List.append_inj' heq rfl
      exact absurd hf (hunfailed f (List.mem_append_right _ List.mem_cons_self))

/-- A history whose encryptions were all made in turn. -/
theorem numbersRecords_of_inTurn {log : CallLog β}
    (hturn : ∀ l₁ e l₂, log = l₁ ++ e :: l₂ → EncryptsInTurn P cfg mode m₀ l₁ e.1) :
    NumbersRecords P cfg mode m₀ log := by
  induction log using List.reverseRecOn with
  | nil => exact .nil
  | append_singleton log e ih =>
    have hlog : NumbersRecords P cfg mode m₀ log := by
      refine ih fun l₁ f l₂ heq => hturn l₁ f (l₂ ++ [e]) ?_
      rw [heq, List.append_assoc, List.cons_append]
    have hlast := hturn log e [] rfl
    match e, hlast with
    | ⟨.inl (.gcmCryptAndTag _ _ _ _), _⟩, hlast => exact hlog.concat_call hlast
    | ⟨.inr _, _⟩, _ | ⟨.inl .mdSetup, _⟩, _ | ⟨.inl (.mdHmacStarts _), _⟩, _
    | ⟨.inl (.mdHmacUpdate _ _ _), _⟩, _ | ⟨.inl (.mdHmacFinish _ _), _⟩, _
    | ⟨.inl (.mdHmac _ _), _⟩, _ | ⟨.inl .sha256Starts, _⟩, _ | ⟨.inl (.sha256Update _ _), _⟩, _
    | ⟨.inl (.sha256Finish _), _⟩, _ | ⟨.inl (.hkdfExtract _ _), _⟩, _
    | ⟨.inl (.hkdfExpand _ _), _⟩, _ | ⟨.inl (.gcmSetkey _), _⟩, _ => exact hlog.concat_other rfl

/-- The encryptions of `pqc_session_run`. -/
theorem pqcSessionRun_nonces {recordCount : ℤ} (hcount : recordCount < 2 ^ 31) {log : CallLog β}
    {q : Prog (calls β) (Bool × Memory β)}
    (hrun : Prog.Run ((pqcSessionRun P cfg mode recordCount).run m₀) log q) :
    NumbersRecords P cfg mode m₀ log := by
  refine numbersRecords_of_inTurn fun l₁ e l₂ heq => ?_
  subst heq
  exact Prog.Spec.op_of_run (pqcSessionRun_encryptsInTurn hcount) hrun

namespace NumbersRecords

variable {log : CallLog β}

/-- No nonce is used twice. -/
theorem nodup (hlog : NumbersRecords P cfg mode m₀ log) :
    ((gcmCalls log).map GcmCall.iv).Nodup := by
  rw [hlog.ivs]
  refine List.nodup_range.map_on ?_
  intro s hs t ht heq
  have hs' := List.mem_range.mp hs
  have ht' := List.mem_range.mp ht
  have hbound := hlog.bound
  exact recordNonce_inj P (by omega) (by omega) heq

/-- The encryptions that have succeeded are the first ones. -/
theorem successful (hlog : NumbersRecords P cfg mode m₀ log) :
    successes log = gcmCalls log ∨ successes log = (gcmCalls log).dropLast := by
  have hall := List.filter_eq_self.mpr fun call hcall => decide_eq_true (hlog.succeeded call hcall)
  rcases List.eq_nil_or_concat (gcmCalls log) with hnil | ⟨front, last, hconcat⟩
  · exact .inl (by rw [successes, hnil, List.filter_nil])
  · rw [List.concat_eq_append] at hconcat
    rw [hconcat, List.dropLast_concat] at hall
    rw [successes, hconcat, List.dropLast_concat, List.filter_append, hall]
    by_cases hlast : last.rc = 0
    · exact .inl (by rw [List.filter_singleton, decide_eq_true hlast, cond_true])
    · exact .inr (by rw [List.filter_singleton, decide_eq_false hlast, cond_false, List.append_nil])

/-- They use the nonces of 0, 1, 2, … one after the other. -/
theorem successful_ivs (hlog : NumbersRecords P cfg mode m₀ log) :
    (successes log).map GcmCall.iv =
      (List.range (successes log).length).map (recordNonce P) := by
  rcases hlog.successful with heq | heq
  · rw [heq]
    exact hlog.ivs
  · rw [heq, List.map_dropLast, hlog.ivs, List.length_dropLast, ← List.map_dropLast]
    refine congrArg _ ?_
    cases (gcmCalls log).length with
    | zero => rfl
    | succ n => rw [List.range_succ, List.dropLast_concat, Nat.add_sub_cancel]

end NumbersRecords

end Nonces

end Firmware

end PqcIot
