import PqcIot.Crypto.Constant
import PqcIot.Firmware.ReturnCodes
import PqcIot.System.HonestRun

/-!
# Which failures a handshake reports

A pattern says of each call that can report a failure, by its number in the handshake, whether it
does. A handshake that returns `true` has made only successful calls exactly for the patterns that
let an encapsulation fail, or no call at all (`handshake_reports_iff`): the return codes of mbedtls
are dropped, so that a handshake goes through with any of them failing, and with whatever the failed
calls have left as its session key (`handshake_ignores_failures`).
-/

namespace PqcIot

open Effects Protocol Firmware

variable {β : Type}

section Patterns

variable (P : Prims β) (cfg : Config β) (mode : Mode)

/-- Successful calls into mbedtls give what it documents. -/
def Documented (log : CallLog β) : Prop :=
  ∀ (o : MbedtlsOp β) (a : MbedtlsOp.Ans o), ⟨.inl o, a⟩ ∈ log → o.rc a = 0 → a = documented P o

/-- The calls of a history that can report a failure have failed as the pattern says. -/
def FailsBy (pattern : ℕ → Bool) (log : CallLog β) : Prop :=
  ∀ (n : ℕ) (r : Library × ℤ), (reports log)[n]? = some r → (r.2 ≠ 0 ↔ pattern n = true)

/-- Under a pattern of failures, `handshake` returns `true` only if every call it has made was
successful. -/
def ReportsFailures (pattern : ℕ → Bool) : Prop :=
  ∀ (m : Memory β) (log : CallLog β) (session : Firmware.Session β) (m' : Memory β),
    Prog.Run ((handshake P cfg mode.suite).run m) log (.ret (some session, m')) →
      Documented P log → FailsBy pattern log → ∀ r ∈ reports log, r.2 = 0

/-! ## Handshakes that go through -/

/-- A device to which the pinned key is a good one and everything random is zero. -/
def zeroClient : Firmware.Platform (pinnedKem P ⟨_, cfg.length_serverPublicKey⟩) :=
  ⟨zeroBytes P, fun _ => ()⟩

/-- A server of the same kind, which knows the device. -/
def zeroServer : Server.Platform (pinnedKem P ⟨_, cfg.length_serverPublicKey⟩) :=
  ⟨fun _ => .ok (some ⟨cfg.devicePsk, cfg.length_devicePsk⟩), zeroBytes P, (), (), zeroBytes P 22,
    [], 0⟩

/-- The values of a handshake in which everything random is zero. -/
def zeroValues : Handshake β :=
  honestValues P cfg mode (zeroClient P cfg) (zeroServer P cfg)

/-- From every memory, some handshake with all primitives successful goes through. -/
theorem exists_handshake (m : Memory β) : ∃ log m',
    Prog.Run ((handshake P cfg mode.suite).run m) log
      (.ret (some (clientSession P mode (zeroValues P cfg mode)), m')) ∧
    (∀ (o : MbedtlsOp β) (a : MbedtlsOp.Ans o), ⟨.inl o, a⟩ ∈ log → a = documented P o) ∧
    ∀ o a, ⟨.inr o, a⟩ ∈ log ↔
      ⟨o, a⟩ ∈ deviceLog P cfg mode (zeroClient P cfg) (zeroServer P cfg) := by
  have hclient := device_run P cfg mode (zeroClient P cfg) (zeroServer P cfg) rfl
  rw [← handshake_refines P cfg mode m] at hclient
  obtain ⟨⟨session, m'⟩, hexec, hsession⟩ := Prog.run_of_map hclient
  obtain ⟨log, hlog, hanswers⟩ := Prog.run_of_answer _ hexec
  cases hsession
  exact ⟨log, m', hlog, hanswers⟩

/-! ## The patterns that are reported -/

variable {P cfg mode} {log : CallLog β} {pattern : ℕ → Bool}

/-- In a history of successful calls, no call reports a failure. -/
theorem rc_eq_zero_of_documented {path : List Library} (hpass : Passes path log)
    (hanswers : ∀ (o : MbedtlsOp β) (a : MbedtlsOp.Ans o), ⟨.inl o, a⟩ ∈ log → a = documented P o) :
    ∀ r ∈ reports log, r.2 = 0 := by
  intro r hr
  cases hlib : r.1 with
  | mlkemNative => exact hpass.encapsulated r hr hlib
  | mbedtls =>
    obtain ⟨⟨o, a⟩, hmem, hreport⟩ := List.mem_filterMap.mp hr
    match o, a, hmem, hreport with
    | .inl o, a, hmem, rfl => rw [hanswers o a hmem, MbedtlsOp.rc_documented]
    | .inr (.inr (.mlkem768Enc _)), enc, _, rfl => cases hlib

theorem documented_failing
    (hanswers : ∀ (o : MbedtlsOp β) (a : MbedtlsOp.Ans o), ⟨.inl o, a⟩ ∈ log → a = documented P o) :
    Documented P (failing pattern 0 log) := by
  intro o a hmem hrc
  rcases mem_failing hmem with hfailed | hold
  · rw [hfailed] at hrc
    exact absurd hrc (by decide)
  · exact hanswers o a hold

/-- A history of successful calls in which mbedtls is made to fail follows the pattern, unless that
lets an encapsulation fail. -/
theorem failsBy_failing {path : List Library} (hpass : Passes path log)
    (hzero : ∀ r ∈ reports log, r.2 = 0)
    (hencaps : ∀ n : ℕ, path[n]? = some .mlkemNative → pattern n = false) :
    FailsBy pattern (failing pattern 0 log) := by
  intro n r hr
  rw [reports_failing, List.getElem?_mapIdx, Option.map_eq_some_iff] at hr
  obtain ⟨⟨lib, rc⟩, hold, rfl⟩ := hr
  have hrc : rc = 0 := hzero _ (List.mem_of_getElem? hold)
  have hpath : path[n]? = some lib := by
    rw [← hpass.libraries, List.getElem?_map, hold]
    rfl
  rw [Nat.zero_add]
  cases lib with
  | mbedtls =>
    by_cases hn : pattern n = true
    · rw [if_pos ⟨rfl, hn⟩]
      exact iff_of_true (by decide) hn
    · rw [if_neg fun h => hn h.2]
      exact iff_of_false (not_not.mpr hrc) hn
  | mlkemNative =>
    rw [if_neg (by simp), hencaps n hpath]
    exact iff_of_false (not_not.mpr hrc) (by decide)

/-- A completed handshake has made the calls of its path. -/
theorem handshake_passes {m m' : Memory β} {session : Firmware.Session β}
    (hrun : Prog.Run ((handshake P cfg mode.suite).run m) log (.ret (some session, m'))) :
    Passes (handshakePath mode.fs) log := by
  have hfs : (mode.suite == suiteMlkem768Fs) = mode.fs := by
    cases mode <;> rfl
  have hpass := (careless_handshake P cfg mode.suite m).passes hrun (by simp)
  rwa [hfs] at hpass

/-- `handshake` reports the failures of a pattern exactly if the pattern lets an encapsulation fail,
or none of the calls. -/
theorem handshake_reports_iff (P : Prims β) (cfg : Config β) (mode : Mode) (pattern : ℕ → Bool) :
    ReportsFailures P cfg mode pattern ↔
      (∃ n : ℕ, (handshakePath mode.fs)[n]? = some .mlkemNative ∧ pattern n = true) ∨
        ∀ n < (handshakePath mode.fs).length, pattern n = false := by
  constructor
  · intro hreports
    by_contra hneither
    rw [not_or] at hneither
    obtain ⟨hencaps, hsome⟩ := hneither
    push Not at hsome
    obtain ⟨n, hn, hfailed⟩ := hsome
    -- Let the calls fail in a handshake that goes through.
    let m : Memory β := ⟨fun b => (zeroBytes P b.size).1, fun b => (zeroBytes P b.size).2⟩
    obtain ⟨log, m', hrun, hanswers, -⟩ := exists_handshake P cfg mode m
    have hpass := handshake_passes hrun
    have hfails : FailsBy pattern (failing pattern 0 log) :=
      failsBy_failing hpass (rc_eq_zero_of_documented hpass hanswers) fun k hk =>
        Bool.eq_false_iff.mpr fun hpattern => hencaps ⟨k, hk, hpattern⟩
    have hrun' := (careless_handshake P cfg mode.suite m).run_failing hrun (by simp) pattern 0
    have hzero := hreports m _ _ m' hrun' (documented_failing hanswers) hfails
    have hlen : n < (reports (failing pattern 0 log)).length := by
      rw [← (handshake_passes hrun').libraries, List.length_map] at hn
      exact hn
    have hget := List.getElem?_eq_getElem hlen
    exact (hfails n _ hget).mpr (by simpa using hfailed) (hzero _ (List.getElem_mem hlen))
  · intro hpattern m log session m' hrun _ hfails r hr
    have hpass := handshake_passes hrun
    rcases hpattern with ⟨n, hencaps, hfailed⟩ | hnone
    · -- The encapsulation was successful after all.
      rw [← hpass.libraries, List.getElem?_map, Option.map_eq_some_iff] at hencaps
      obtain ⟨r', hget, hlib⟩ := hencaps
      exact absurd (hpass.encapsulated r' (List.mem_of_getElem? hget) hlib)
        ((hfails n r' hget).mpr hfailed)
    · obtain ⟨n, hn, hget⟩ := List.getElem_of_mem hr
      have hlen : n < (handshakePath mode.fs).length := by
        rw [← hpass.libraries, List.length_map]
        exact hn
      have hiff := hfails n r (by rw [List.getElem?_eq_getElem hn, hget])
      rw [hnone n hlen] at hiff
      exact not_not.mp fun hne => absurd (hiff.mp hne) (by decide)

end Patterns

/-! ## A dead library -/

/-- Every call into mbedtls fails and leaves zeros. The device takes a ServerHello whose MAC is zero
for authentic and sets up a session under the key zero. -/
theorem handshake_ignores_failures :
    let cfg : Config UInt8 := ⟨List.replicate 8 0, List.replicate 32 0, List.replicate 1184 0,
      List.replicate 4 0, List.length_replicate, List.length_replicate, List.length_replicate,
      List.length_replicate⟩
    let pattern : ℕ → Bool := fun n => n ≠ 0 ∧ n ≠ 15
    (∃ m log session m',
      Prog.Run ((handshake zeroPrims cfg Mode.bForwardSecrecy.suite).run m) log
        (.ret (some session, m')) ∧
      Documented zeroPrims log ∧ FailsBy pattern log ∧
      (∀ r ∈ reports log, r.1 = .mbedtls → r.2 ≠ 0) ∧ session.c2s = List.replicate 32 0) ∧
    ¬ ReportsFailures zeroPrims cfg .bForwardSecrecy pattern := by
  intro cfg pattern
  let m : Memory UInt8 := ⟨fun b => List.replicate b.size 0, fun b => List.length_replicate⟩
  obtain ⟨log, m', hrun, hanswers, -⟩ := exists_handshake zeroPrims cfg .bForwardSecrecy m
  have hpass := handshake_passes hrun
  have hrun' := (careless_handshake zeroPrims cfg Mode.bForwardSecrecy.suite m).run_failing hrun
    (by simp) pattern 0
  have hpass' := handshake_passes hrun'
  have hdocumented : Documented zeroPrims (failing pattern 0 log) := documented_failing hanswers
  -- The pattern lets everything fail but the encapsulations.
  have hpattern : ∀ n < 29, ((handshakePath Mode.bForwardSecrecy.fs)[n]? = some .mlkemNative ↔
      decide (n ≠ 0 ∧ n ≠ 15) = false) := by decide
  have hlt : ∀ {n : ℕ} {lib : Library},
      (handshakePath Mode.bForwardSecrecy.fs)[n]? = some lib → n < 29 := fun hn =>
    (List.getElem?_eq_some_iff.mp hn).1
  have hfails : FailsBy pattern (failing pattern 0 log) :=
    failsBy_failing hpass (rc_eq_zero_of_documented hpass hanswers) fun n hn =>
      (hpattern n (hlt hn)).mp hn
  have hfailed : ∀ r ∈ reports (failing pattern 0 log), r.1 = .mbedtls → r.2 ≠ 0 := by
    intro r hr hlib
    obtain ⟨n, hget⟩ := List.getElem?_of_mem hr
    have hpath : (handshakePath Mode.bForwardSecrecy.fs)[n]? = some .mbedtls := by
      rw [← hpass'.libraries, List.getElem?_map, hget, Option.map_some, hlib]
    refine (hfails n r hget).mpr (Bool.not_eq_false _ ▸ fun hfalse => ?_)
    have hnative := (hpattern n (hlt hpath)).mpr hfalse
    rw [hpath] at hnative
    cases hnative
  refine ⟨⟨m, _, _, m', hrun', hdocumented, hfails, hfailed, rfl⟩, fun hreports => ?_⟩
  have hmem : Library.mbedtls ∈ (reports (failing pattern 0 log)).map Prod.fst := by
    rw [hpass'.libraries]
    decide
  obtain ⟨r, hr, hlib⟩ := List.mem_map.mp hmem
  exact hfailed r hr hlib (hreports m _ _ m' hrun' hdocumented hfails r hr)

end PqcIot
