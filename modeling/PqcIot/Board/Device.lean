import PqcIot.Board.Bringup
import PqcIot.Board.Station
import PqcIot.Crypto.Constant

/-!
# What comes before a session

`app_main` gates: the radio is not touched before the checks of the board and of the ML-KEM
implementation have passed, and no nonce is drawn, nothing is encapsulated and no byte leaves the
board before the radio has been started and an address has arrived (`session_gated`).
-/

namespace PqcIot

open Effects
open scoped List

namespace Board

open Prog
open KatHeader (Documents Provenance Conforms)
open Numeric

variable {β : Type}

/-! ## The checks -/

/-- A call of `main.c`, in the log. -/
abbrev boardEvent (o : BoardOp) (a : o.Ans) : Event (device β) := ⟨.inr (.inl o), a⟩

/-- The buffers are where they belong, and both are freed. -/
def placementLog (scratch external : UInt32) : List (Event (device β)) :=
  [boardEvent (.malloc cryptoScratchBytes) (some scratch),
    boardEvent (.espPtrInternal scratch) true, boardEvent (.free scratch) (),
    boardEvent (.heapCapsMalloc cryptoScratchBytes) (some external),
    boardEvent (.espPtrExternalRam external) true, boardEvent (.heapCapsFree external) ()]

/-- Within 2 MHz, the cycle counter has ticked at the configured frequency. -/
def OnTime (cycles : UInt32) (elapsedUs : Int64) : Prop :=
  0 < elapsedUs.toInt ∧ |(cycles.toNat : ℚ) / elapsedUs.toInt - cpuFreqMhz| < 2

/-- It has done so between two readings of both clocks. -/
def ClockLog (l : List (Event (device β))) : Prop :=
  ∃ t0 c0 waits c1 t1, l = [boardEvent .espTimerGetTime t0, boardEvent .espCpuGetCycleCount c0] ++
    waits ++ [boardEvent .espCpuGetCycleCount c1, boardEvent .espTimerGetTime t1] ∧
    OnTime (c1 - c0) (t1 - t0)

/-- All checks have passed. -/
structure Checked (b : Build β) (h : List (Event (device β))) : Prop where
  board : ∃ scratch external clock, ClockLog clock ∧
    placementLog scratch external ++ clock <+: h
  selftest : mlkemSelftestRun b.impl = true
  kat : b.katOk = true

/-- The radio has been started, and there has been an address. -/
def Online (b : Build β) (h : List (Event (device β))) : Prop :=
  ∃ (before : List (Event (device β))) (bits : Bits), bits.connected = true ∧
    before ++ radioLog b.ssid b.password ++ [⟨.inl .xEventGroupWaitBits, bits⟩] <+: h

theorem Checked.append {b : Build β} {h : List (Event (device β))} (hc : Checked b h)
    (l : List (Event (device β))) : Checked b (h ++ l) := by
  obtain ⟨scratch, external, clock, hclock, hpre⟩ := hc.board
  exact ⟨⟨scratch, external, clock, hclock, hpre.trans (List.prefix_append _ _)⟩,
    hc.selftest, hc.kat⟩

theorem Online.append {b : Build β} {h : List (Event (device β))} (ho : Online b h)
    (l : List (Event (device β))) : Online b (h ++ l) := by
  obtain ⟨before, bits, hconnected, hpre⟩ := ho
  exact ⟨before, bits, hconnected, hpre.trans (List.prefix_append _ _)⟩

/-- What `app_main` may call after some calls. -/
def Allowed (b : Build β) (h : List (Event (device β))) : (device β).Op → Prop
  | .inl _ => Checked b h
  | .inr (.inl _) => True
  | .inr (.inr _) => Checked b h ∧ Online b h

section Checks

variable {φ : List (Event (device β)) → (device β).Op → Prop} {h : List (Event (device β))}

theorem spec_boardCall {α : Type} {ψ : List (Event (device β)) → α → Prop} {o : BoardOp}
    {f : o.Ans → Prog (device β) α} (hφ : ∀ h o, φ h (.inr (.inl o)))
    (hf : ∀ a, Spec φ ψ (h ++ [boardEvent o a]) (f a)) : Spec φ ψ h (boardCall o >>= f) :=
  ⟨hφ _ _, hf⟩

theorem spec_verifyBufferPlacement (hφ : ∀ h o, φ h (.inr (.inl o))) :
    Spec φ (fun h' ok => ok = true → ∃ scratch external, h' = h ++ placementLog scratch external) h
      verifyBufferPlacement := by
  refine ⟨hφ _ _, fun scratch => ?_⟩
  cases scratch with
  | none => exact nofun
  | some scratch =>
    refine ⟨hφ _ _, fun scratchInternal => ⟨hφ _ _, fun _ => ⟨hφ _ _, fun external => ?_⟩⟩⟩
    cases external with
    | none => exact nofun
    | some external =>
      refine ⟨hφ _ _, fun externalIsPsram => ⟨hφ _ _, fun _ hok => ⟨scratch, external, ?_⟩⟩⟩
      obtain ⟨rfl, rfl⟩ := Bool.and_eq_true_iff.mp hok
      simp only [List.append_assoc, List.cons_append, List.nil_append]
      rfl

theorem spec_busyWait (hφ : ∀ h o, φ h (.inr (.inl o))) (t0 : Int64) (turns : ℕ)
    (h : List (Event (device β))) :
    Spec φ (fun h' _ => ∃ waits, h' = h ++ waits) h (busyWait t0 turns) := by
  induction turns generalizing h with
  | zero => exact ⟨hφ _ _, nofun⟩
  | succ turns ih =>
    refine spec_boardCall hφ fun now => ?_
    split
    · refine (ih _).mono (fun _ _ ho => ho) ?_
      rintro l - ⟨waits, heq⟩
      exact ⟨boardEvent .espTimerGetTime now :: waits, heq.trans (List.append_assoc ..)⟩
    · exact ⟨[boardEvent .espTimerGetTime now], rfl⟩

/-- What the computation in `double` lets pass is on time: no rounding moves a number past the
limits of the tolerance. -/
theorem onTime_of_clockOk {cycles : UInt32} {elapsedUs : Int64}
    (h : clockOk cycles elapsedUs = true) : OnTime cycles elapsedUs := by
  have hcycles : (cycles.toNat : ℚ) < 2 ^ 32 := by exact_mod_cast cycles.toNat_lt
  have hexact : roundRat cycles.toNat = cycles.toNat :=
    mod_cast roundRat_intCast (n := cycles.toNat) (by
      have hlt := cycles.toNat_lt
      rw [Nat.abs_cast]
      omega)
  rw [clockOk] at h
  split at h
  · cases h
  · simp only [hexact, decide_eq_true_eq] at h
    generalize helapsed : roundRat elapsedUs.toInt = elapsed at h
    generalize hquotient : (cycles.toNat : ℚ) / elapsed = quotient at h
    have hdeviation : ((-2 : ℤ) : ℚ) < roundRat (roundRat quotient - cpuFreqMhz) ∧
        roundRat (roundRat quotient - cpuFreqMhz) < ((2 : ℤ) : ℚ) := by
      push_cast
      split at h <;> constructor <;> linarith
    have hlow := lt_of_lt_roundRat (by decide) hdeviation.1
    have hhigh := lt_of_roundRat_lt (by decide) hdeviation.2
    -- The quotient is between the limits, as it was before it was rounded.
    rw [cpuFreqMhz] at hlow hhigh
    push_cast at hlow hhigh
    have hlow' := lt_of_lt_roundRat (n := 238) (q := quotient) (by decide) (by push_cast; linarith)
    have hhigh' := lt_of_roundRat_lt (n := 242) (q := quotient) (by decide) (by push_cast; linarith)
    push_cast at hlow' hhigh'
    -- So little time has passed that it is a double itself.
    have hpos : 0 < elapsed := by
      by_contra hle
      have hneg := div_nonpos_of_nonneg_of_nonpos (Nat.cast_nonneg (α := ℚ) cycles.toNat)
        (not_lt.mp hle)
      linarith
    have hshort : elapsed < 2 ^ 53 := by
      rw [← hquotient, lt_div_iff₀ hpos] at hlow'
      linarith
    obtain ⟨hafter, hdouble⟩ := roundRat_intCast_of_lt (helapsed ▸ hpos) (helapsed ▸ hshort)
    refine ⟨hafter, ?_⟩
    rw [← hdouble, helapsed, hquotient, cpuFreqMhz, abs_lt]
    push_cast
    constructor <;> linarith

theorem spec_verifyCycleCounter (hφ : ∀ h o, φ h (.inr (.inl o))) (turns : ℕ) :
    Spec φ (fun h' ok => ok = true → ∃ clock, ClockLog clock ∧ h' = h ++ clock) h
      (verifyCycleCounter turns) := by
  refine spec_boardCall hφ fun t0 => spec_boardCall hφ fun c0 => ?_
  rw [spec_bind]
  refine (spec_busyWait hφ t0 turns _).mono (fun _ _ ho => ho) ?_
  rintro l - ⟨waits, heq⟩
  refine spec_boardCall hφ fun c1 => spec_boardCall hφ fun t1 hok => ?_
  refine ⟨_, ⟨t0, c0, waits, c1, t1, rfl, onTime_of_clockOk hok⟩, ?_⟩
  rw [heq]
  simp only [List.append_assoc, List.cons_append, List.nil_append]

end Checks

/-! ## The gate -/

section Gate

variable {b : Build β} {h : List (Event (device β))}

/-- The calls of a session, when they are allowed. -/
theorem spec_session {α : Type} (c : Firmware.Code β α) (m : Firmware.Memory β)
    (hchecked : Checked b h) (honline : Online b h) :
    Spec (Allowed b) (fun h' _ => Checked b h' ∧ Online b h') h (session c m) := by
  unfold session
  generalize c.run m = p
  induction p generalizing h with
  | ret a => exact ⟨hchecked, honline⟩
  | op o k ih =>
    exact ⟨⟨hchecked, honline⟩, fun a => ih a (hchecked.append _) (honline.append _)⟩

/-- The calls of `wifi_sta_start`, when they are allowed. -/
theorem spec_station (hchecked : Checked b h) :
    Spec (Allowed b) (fun h' err => Checked b h' ∧ (err = .ok → Online b h')) h
      (wifiStaStart b.ssid b.password) := by
  have hstation := spec_wifiStaStart (φ := fun _ o => o.isLeft = true) (h := h) b.ssid b.password
    (E := peripherals β) fun _ _ => rfl
  refine hstation.mono ?_ ?_
  · rintro l (o | o) ho
    · exact hchecked.append l
    · cases ho
  · rintro l err ⟨log, heq, houtcome⟩
    refine ⟨hchecked.append l, ?_⟩
    rintro rfl
    obtain ⟨flash, -, ⟨hnoMem, -⟩ | ⟨bits, rfl, herr⟩⟩ := houtcome
    · cases hnoMem
    · refine ⟨h ++ flash ++ [⟨.inl .xEventGroupCreate, true⟩], bits, ?_, ?_⟩
      · by_contra hnot
        rw [if_neg hnot] at herr
        cases herr
      · rw [heq]
        simp only [List.append_assoc]
        exact List.prefix_rfl

/-- The calls after the checks, when they have passed. -/
theorem spec_protocolClient (m : Firmware.Memory β) (hchecked : Checked b h) :
    Spec (Allowed b) (fun _ _ => True) h (protocolClient b m) := by
  unfold protocolClient
  rw [spec_bind]
  refine (spec_station hchecked).mono (fun _ _ ho => ho) ?_
  rintro started err ⟨hchecked, honline⟩
  split
  · trivial
  · next hok =>
    rw [spec_bind]
    refine (spec_session _ m hchecked (honline (not_not.mp hok))).mono (fun _ _ ho => ho) ?_
    rintro l ⟨modeA, m₁⟩ ⟨hchecked, honline⟩
    dsimp only
    rw [spec_bind]
    refine (spec_session _ m₁ hchecked honline).mono (fun _ _ ho => ho) ?_
    rintro l ⟨modeB, m₂⟩ -
    dsimp only
    split <;> trivial

/-- `app_main` calls nothing before it is allowed. -/
theorem spec_appMain (b : Build β) (turns : ℕ) (m : Firmware.Memory β) :
    Spec (Allowed b) (fun _ _ => True) [] (appMain b turns m) := by
  unfold appMain
  rw [spec_bind]
  refine (spec_verifyBufferPlacement fun _ _ => trivial).mono (fun _ _ ho => ho) ?_
  intro placement placementOk hplacement
  rw [spec_bind]
  refine (spec_verifyCycleCounter (fun _ _ => trivial) turns).mono (fun _ _ ho => ho) ?_
  intro clock counterOk hcounter
  dsimp only
  split
  · trivial
  · next hnot =>
    rw [Bool.not_eq_true, Bool.not_eq_false', Bool.and_eq_true_iff, Bool.and_eq_true_iff,
      Bool.and_eq_true_iff] at hnot
    obtain ⟨⟨⟨hplacementOk, hcounterOk⟩, hselftest⟩, hkat⟩ := hnot
    obtain ⟨scratch, external, hplacement⟩ := hplacement hplacementOk
    obtain ⟨clock', hclock, heq⟩ := hcounter hcounterOk
    refine spec_protocolClient m ⟨⟨scratch, external, clock', hclock, ?_⟩, hselftest, hkat⟩
    rw [heq, hplacement, List.nil_append]

/-- The calls that `app_main` makes in the system are allowed. -/
theorem allowed_of_steps {turns : ℕ} {m : Firmware.Memory β}
    {before after : List (Label (peripherals β))} {t : Station (peripherals β) Outcome}
    {e : Event (device β)}
    (hsteps : Steps Station.Step (Station.start (appMain b turns m))
      (before ++ .call e :: after) t) :
    Allowed b (mainLog before) e.1 := by
  obtain ⟨-, -, hrun⟩ := station_invariants hsteps
  rw [mainLog_append] at hrun
  exact Spec.op_of_run (spec_appMain b turns m) hrun

/-- What the firmware does before it uses the network, however the task of `app_main` and the event
task interleave, whatever the board answers and whatever events arrive. If the header is that of
some documents of the right sizes with one group for each parameter set and function, then before
any call of the station the scratch buffers were in their memories and have been freed, the clock
was right, the self-test has passed, and ML-KEM has reproduced every vector of the documents. Before
any call of a session — a nonce, an encapsulation, a connection, a frame — the radio has been
started without an error, and `on_ip_event` has recorded an address. -/
theorem session_gated {τ : Type} [DecidableEq τ] (docs : Documents τ) (source : Provenance)
    (b : Build β) (turns : ℕ) (m : Firmware.Memory β)
    (hheader : KatHeader.main docs source none = .ok (some b.vectors))
    (hgroups : ∀ lvl f, KatHeader.OneGroup docs lvl f)
    (hsize : ∀ lvl f, KatHeader.Sized docs lvl f (docs.tests lvl f))
    {before after : List (Label (peripherals β))} {t : Station (peripherals β) Outcome}
    {e : Event (device β)}
    (hsteps : Steps Station.Step (Station.start (appMain b turns m))
      (before ++ .call e :: after) t) :
    ((∃ o, e.1 = .inr (.inl o)) ∨ (Checked b (mainLog before) ∧
      ∀ lvl f, ∀ t ∈ docs.tests lvl f, Conforms docs (b.impl lvl) t f)) ∧
    ((∃ o, e.1 = .inr (.inr o)) → Online b (mainLog before) ∧ addressSteps <+ before) := by
  -- `app_main` goes on only if the test of the vectors has passed, and it has run on all of them.
  have hconforms (hchecked : Checked b (mainLog before)) :
      ∀ lvl f, ∀ t ∈ docs.tests lvl f, Conforms docs (b.impl lvl) t f := by
    obtain ⟨-, totals, -, hok, -, hverdict⟩ :=
      KatHeader.exists_katTotals b.impl hheader hgroups hsize
    have hkat := Option.some.inj (hok.symm.trans b.katOk_eq)
    exact hverdict.mp (hkat.trans hchecked.kat)
  have hallowed := allowed_of_steps hsteps
  obtain ⟨o | o | o, a⟩ := e
  · exact ⟨.inr ⟨hallowed, hconforms hallowed⟩, nofun⟩
  · exact ⟨.inl ⟨o, rfl⟩, nofun⟩
  · obtain ⟨hchecked, honline⟩ := hallowed
    refine ⟨.inr ⟨hchecked, hconforms hchecked⟩, fun _ => ⟨honline, ?_⟩⟩
    -- The task has waited for the bits; when they were set, the address had been recorded.
    obtain ⟨log, bits, hconnected, hpre⟩ := honline
    have hwait : ⟨.inl .xEventGroupWaitBits, bits⟩ ∈ mainLog before :=
      hpre.subset (List.mem_append_right _ List.mem_cons_self)
    obtain ⟨s, hbefore, -⟩ := hsteps.split
    obtain ⟨first, rest, moment, rfl, hmoment, -, -, -, haddress, -⟩ := exists_wait hbefore hwait
    exact (haddress hconnected).trans (hmoment.trans (List.prefix_append _ _)).sublist

end Gate

/-! ### A board that gets to its first session -/

/-- A pattern begins with its seed. -/
theorem firstByte_fillPattern (n : ℕ) (seed : UInt8) :
    KatHeader.firstByte (fillPattern (n + 1) seed) = seed := by
  rw [KatHeader.firstByte, fillPattern, Vector.toList_ofFn, List.ofFn_succ]
  show UInt8.ofNat (seed.toNat + 0 * 7) = seed
  simp

/-- So does an array with what its first element is set to. -/
theorem firstByte_set {n : ℕ} (v : Vector UInt8 n) (b : UInt8) (h : 0 < n) :
    KatHeader.firstByte (v.set 0 b h) = b := by
  have hne : v.toList ≠ [] := by
    rw [← List.length_pos_iff, Vector.length_toList]
    exact h
  obtain ⟨c, rest, hcons⟩ := List.exists_cons_of_ne_nil hne
  rw [KatHeader.firstByte, Vector.toList_set, hcons]
  rfl

/-- The secret comes back. -/
theorem roundtrip_sum (lvl : KatHeader.Level) (keygenSeed encSeed : UInt8) :
    roundtrip (KatHeader.sumMlKem lvl) keygenSeed encSeed = true := by
  have hpk := KatHeader.firstByte_replicate (KatHeader.publicKeyBytes_ne_zero lvl)
  have hsk := KatHeader.firstByte_replicate (KatHeader.secretKeyBytes_ne_zero lvl)
  have hct := KatHeader.firstByte_replicate (KatHeader.ciphertextBytes_ne_zero lvl)
  simp [roundtrip, KatHeader.sumMlKem, hpk, hsk, hct]

/-- From a tampered ciphertext comes another secret. -/
theorem implicitRejection768_sum : implicitRejection768 KatHeader.sumMlKem = true := by
  have hpk := KatHeader.firstByte_replicate (KatHeader.publicKeyBytes_ne_zero .mlkem768)
  have hsk := KatHeader.firstByte_replicate (KatHeader.secretKeyBytes_ne_zero .mlkem768)
  have hkeygen : KatHeader.firstByte
      (fillPattern (KatHeader.symBytes + KatHeader.symBytes) 0x55) = 0x55 :=
    firstByte_fillPattern 63 _
  have henc : KatHeader.firstByte (fillPattern KatHeader.symBytes 0x66) = 0x66 :=
    firstByte_fillPattern 31 _
  have htampered (h : 0 < KatHeader.Level.mlkem768.ciphertextBytes) :
      (Vector.replicate _ ((0x55 : UInt8) + 0x66)).get ⟨0, h⟩ ^^^ 0x01 = 0xba := by
    have hget : (Vector.replicate KatHeader.Level.mlkem768.ciphertextBytes
        ((0x55 : UInt8) + 0x66)).get ⟨0, h⟩ = 0x55 + 0x66 := Vector.getElem_replicate h
    rw [hget]
    rfl
  have hne : Vector.replicate KatHeader.symBytes (0x66 : UInt8) ≠
    Vector.replicate _ (0xba - 0x55) := by
    intro heq
    have hbyte := congrArg KatHeader.firstByte heq
    rw [KatHeader.firstByte_replicate (by decide),
      KatHeader.firstByte_replicate (by decide)] at hbyte
    cases hbyte
  simp only [implicitRejection768, KatHeader.sumMlKem, hpk, hsk, hkeygen, henc, firstByte_set,
    htampered]
  exact bne_iff_ne.mpr hne

/-- The self-test passes. -/
theorem mlkemSelftestRun_sum : mlkemSelftestRun KatHeader.sumMlKem = true := by
  rw [mlkemSelftestRun, roundtrip512, roundtrip768, roundtrip_sum, roundtrip_sum,
    implicitRejection768_sum]
  rfl

/-- 240 cycles in each of 200000 microseconds. -/
theorem clockOk_on_time : clockOk 48000000 200000 = true := by
  have hcycles : roundRat ((48000000 : UInt32).toNat : ℚ) = 48000000 :=
    mod_cast roundRat_intCast (n := 48000000) (by decide)
  have helapsed : roundRat ((200000 : Int64).toInt : ℚ) = 200000 :=
    mod_cast roundRat_intCast (n := 200000) (by decide)
  have hquotient : roundRat (240 : ℚ) = 240 := mod_cast roundRat_intCast (n := 240) (by decide)
  have hdeviation : roundRat (0 : ℚ) = 0 := mod_cast roundRat_intCast (n := 0) (by decide)
  have hnonzero : (200000 : Int64) ≠ 0 := by decide
  rw [clockOk, if_neg hnonzero, hcycles, helapsed]
  norm_num [hquotient, hdeviation, cpuFreqMhz]

/-- A task goes on with calls of the board, whatever the event task does. -/
theorem steps_of_run {p q : Prog (device β) Outcome} {log : List (Event (device β))}
    (hrun : Prog.Run p log q) (hlog : ∀ e ∈ log, ∃ o, e.1 = .inr (.inl o))
    {s : Station (peripherals β) Outcome} (hmain : s.main = p) :
    Steps Station.Step s (log.map .call) { s with main := q } := by
  induction hrun generalizing s with
  | nil p =>
    subst hmain
    exact .nil s
  | @cons o k a log q hrun ih =>
    rw [List.forall_mem_cons] at hlog
    obtain ⟨⟨o', rfl⟩, hlog⟩ := hlog
    exact .cons (.call a hmain nofun) (ih hlog (s := { s with main := k a }) rfl)

/-- The checks pass, the address arrives while `wifi_sta_start` waits, and the device connects to
its server. -/
theorem session_gated_connected :
    ∃ (b : Build UInt8) (m : Firmware.Memory UInt8) (before : List (Label (peripherals UInt8)))
      (t : Station (peripherals UInt8) Outcome),
      Steps Station.Step (Station.start (appMain b 1 m))
        (before ++ [.call ⟨.inr (.inr (.inr (.inr .connectToServer))), true⟩]) t ∧
      Checked b (mainLog before) ∧ Online b (mainLog before) ∧ addressSteps <+ before := by
  obtain ⟨⟨text, htext⟩, hgroups, hsize⟩ := KatHeader.sizedDocuments_ok
  obtain ⟨-, totals, -, hkat, -, hverdict⟩ :=
    KatHeader.exists_katTotals KatHeader.sumMlKem htext hgroups hsize
  rw [hverdict.mpr fun lvl f t ht => KatHeader.conforms_sumMlKem ht] at hkat
  let b : Build UInt8 :=
    ⟨text, KatHeader.sumMlKem, zeroPrims, Firmware.zeroConfig, [0x61], [0x62], true, hkat⟩
  let m : Firmware.Memory UInt8 :=
    ⟨fun b => List.replicate b.size 0, fun _ => List.length_replicate⟩
  -- The buffers are where they should be.
  have hplacement : Prog.Run (verifyBufferPlacement (β := UInt8)) (placementLog 1 2)
    (.ret true) := by
    unfold placementLog
    iterate 6 refine .cons ?_
    exact .nil _
  -- The clock is right: 48000000 cycles in 200000 microseconds.
  let clock : List (Event (device UInt8)) := [boardEvent .espTimerGetTime 0,
    boardEvent .espCpuGetCycleCount 0] ++ [boardEvent .espTimerGetTime 200000] ++
    [boardEvent .espCpuGetCycleCount 48000000, boardEvent .espTimerGetTime 200000]
  have hwindow : ¬ (200000 : Int64) - 0 < windowUs := by decide
  have hbusy : Prog.Run (busyWait (β := UInt8) 0 1) [boardEvent .espTimerGetTime 200000]
      (.ret ()) := by
    refine .cons ?_
    show Prog.Run (if (200000 : Int64) - 0 < windowUs then busyWait 0 0 else pure ()) [] (.ret ())
    rw [if_neg hwindow]
    exact .nil _
  have hclock : Prog.Run (verifyCycleCounter (β := UInt8) 1) clock (.ret true) := by
    rw [← clockOk_on_time]
    exact .cons <| .cons <| hbusy.bind <| .cons <| .cons <| .nil _
  -- All checks before the protocol client pass.
  have hchecks : Prog.Run (appMain b 1 m) (placementLog 1 2 ++ clock) (protocolClient b m) := by
    refine hplacement.bind ?_
    rw [← List.append_nil clock]
    refine hclock.bind ?_
    dsimp only
    rw [mlkemSelftestRun_sum]
    exact .nil _
  have hup := steps_of_run hchecks (by simp [placementLog, clock])
    (s := .start (appMain b 1 m)) rfl
  -- The radio is started, the task waits, and an address arrives.
  have hstartup := hup.append (steps_startup b.ssid b.password _ rfl)
  have haddress := hstartup.append <| .cons (.block rfl rfl rfl) <| .cons
    (.dispatch .gotIp rfl rfl) <|
    .cons (.resetAttempts rfl) <| .cons (.setConnected rfl rfl) <| .cons (.resume rfl rfl) <| .nil _
  let connect : (device UInt8).Op := .inr (.inr (.inr (.inr .connectToServer)))
  have hsteps := haddress.append (.single (.call (o := connect) true rfl nofun))
  obtain ⟨hbefore, hnetwork⟩ :=
    session_gated KatHeader.sizedDocuments _ b 1 m htext hgroups hsize hsteps
  obtain ⟨honline, haddressSteps⟩ := hnetwork ⟨_, rfl⟩
  exact ⟨b, m, _, _, hsteps, (hbefore.resolve_left nofun).1, honline, haddressSteps⟩

end Board

end PqcIot
