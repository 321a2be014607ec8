import PqcIot.Crypto.Ideal
import PqcIot.Protocol.ClientHello

/-!
# Transcript injectivity and domain separation

The fields of a handshake are concatenated without separators or length prefixes. For well-formed
fields this loses nothing: the suite byte of the ClientHello fixes every length
(`th2Input_inj`), the length of the input keying material tells the two stages apart, and the labels
tell the keys of a stage apart (`keyInput_inj`).
-/

namespace PqcIot

open Effects

namespace Protocol

/-- The keys of the schedule. -/
inductive SessionKey where
  | srvConfirm
  | cliConfirm
  | c2s
  | s2c
  deriving DecidableEq, Repr

/-- The label of a key. -/
def SessionKey.label : SessionKey → List UInt8
  | .srvConfirm => labelSrvConfirm
  | .cliConfirm => labelCliConfirm
  | .c2s => labelC2s
  | .s2c => labelS2c

theorem SessionKey.label_injective : Function.Injective SessionKey.label := by
  intro k k' h
  cases k <;> cases k' <;> first | rfl | exact absurd h (by decide)

/-- The extraction a key is expanded from. -/
inductive Stage where
  | one
  | two
  deriving DecidableEq, Repr

/-- What a key is computed from. -/
structure KeyInput (β : Type) where
  salt : List β
  ikm : List β
  info : List β

/-- What `hello_mac` authenticates, for the body of a ClientHello. -/
def helloMacInput {β : Type} (P : Prims β) (body : List β) : List β := P.lits labelHello ++ body

/-- The MAC of a ClientHello is over that input. -/
theorem helloMac_eq {β : Type} (P : Prims β) (psk body : List β) :
    helloMac P psk body = P.hmac psk (helloMacInput P body) := rfl

end Protocol

namespace Handshake

open Protocol

variable {β : Type} (P : Prims β) (h : Handshake β)

/-! ## Inputs of the keys -/

/-- The stage of a key; mode A has only the first. -/
def stage : SessionKey → Stage
  | .srvConfirm => .one
  | _ => if h.fs then .two else .one

/-- Input keying material of a stage. -/
def stageIkm : Stage → List β
  | .one => h.ikm1
  | .two => h.ikm2

/-- The transcript hash of a stage. -/
def stageTranscript : Stage → List β
  | .one => h.th2 P
  | .two => h.th3 P

/-- The secrets that enter a stage. -/
def secrets : Stage → List (List β)
  | .one => [h.ssStatic, h.psk]
  | .two => [h.ssStatic, h.ssEph, h.psk]

/-- The fields a stage is bound to. -/
def fullTranscript : Stage → List (List β)
  | .one => [h.hello, h.serverNonce, h.sessionId, h.ekEph]
  | .two => [h.hello, h.serverNonce, h.sessionId, h.ekEph, h.ctEph]

/-- What a key is computed from. -/
def keyInput (k : SessionKey) : KeyInput β where
  salt := h.salt
  ikm := h.stageIkm (h.stage k)
  info := P.lits k.label ++ h.stageTranscript P (h.stage k)

/-- A key of the schedule. -/
def key : SessionKey → List β
  | .srvConfirm => h.srvConfirm P
  | .cliConfirm => h.cliConfirm P
  | .c2s => h.c2s P
  | .s2c => h.s2c P

private theorem dataKey_eq (label : List UInt8) :
    h.dataKey P label = P.hkdfExpand (P.hkdfExtract h.salt
      (h.stageIkm (if h.fs then .two else .one)))
        (P.lits label ++ h.stageTranscript P (if h.fs then .two else .one)) 32 := by
  rw [dataKey, dataIkm, transcript]
  cases h.fs <;> rfl

/-- The keys of the schedule are HKDF of their inputs. -/
theorem key_eq (k : SessionKey) :
    h.key P k = P.hkdfExpand (P.hkdfExtract (h.keyInput P k).salt (h.keyInput P k).ikm)
      (h.keyInput P k).info 32 := by
  cases k with
  | srvConfirm => rfl
  | cliConfirm => exact h.dataKey_eq P labelCliConfirm
  | c2s => exact h.dataKey_eq P labelC2s
  | s2c => exact h.dataKey_eq P labelS2c

/-! ## Well-formed handshakes -/

/-- The fields have the lengths of the suite, and the ClientHello carries the suite's byte. -/
structure WellFormed (suite : Suite) : Prop where
  fs : h.fs = suite.params.fs
  suiteByte : ∃ v s rest, h.hello = v :: s :: rest ∧ P.val s = suite.code
  hello : h.hello.length = ClientHello.expectedLen suite
  clientNonce : h.clientNonce.length = nonceLen
  serverNonce : h.serverNonce.length = nonceLen
  sessionId : h.sessionId.length = sessionIdLen
  ekEph : h.ekEph.length = if suite.params.fs then suite.params.ek else 0
  ctEph : h.ctEph.length = if suite.params.fs then suite.params.ct else 0
  psk : h.psk.length = pskLen
  ssStatic : h.ssStatic.length = 32
  ssEph : h.ssEph.length = if suite.params.fs then 32 else 0

variable {P h} {h' : Handshake β} {suite suite' : Suite}

/-- The second letter of what `TH2` hashes is the suite byte. -/
private theorem WellFormed.suite_eq (hw : h.WellFormed P suite) (hw' : h'.WellFormed P suite')
    (heq : h.th2Input = h'.th2Input) : suite = suite' := by
  -- Both begin with the ClientHello, whose lengths may differ.
  obtain ⟨v, s, rest, hhello, hs⟩ := hw.suiteByte
  obtain ⟨v', s', rest', hhello', hs'⟩ := hw'.suiteByte
  rw [th2Input, th2Input, hhello, hhello'] at heq
  have hletter : s = s' := by
    simp only [List.cons_append, List.cons.injEq] at heq
    exact heq.2.1
  exact Suite.code_injective (by rw [← hs, ← hs', hletter])

/-- `TH2` inputs determine the suite and every field. -/
theorem WellFormed.th2Input_inj (hw : h.WellFormed P suite) (hw' : h'.WellFormed P suite')
    (heq : h.th2Input = h'.th2Input) :
    suite = suite' ∧ h.hello = h'.hello ∧ h.serverNonce = h'.serverNonce ∧
      h.sessionId = h'.sessionId ∧ h.ekEph = h'.ekEph := by
  -- Once the suites are the same, all lengths are; the fields are split off from the end.
  obtain rfl := hw.suite_eq hw' heq
  simp only [th2Input] at heq
  obtain ⟨heq, hek⟩ := List.append_inj' heq (by rw [hw.ekEph, hw'.ekEph])
  obtain ⟨heq, hsid⟩ := List.append_inj' heq (by rw [hw.sessionId, hw'.sessionId])
  obtain ⟨hhello, hnonce⟩ := List.append_inj' heq (by rw [hw.serverNonce, hw'.serverNonce])
  exact ⟨rfl, hhello, hnonce, hsid, hek⟩

/-- A salt determines both nonces. -/
theorem WellFormed.salt_inj (hw : h.WellFormed P suite) (hw' : h'.WellFormed P suite')
    (heq : h.salt = h'.salt) : h.clientNonce = h'.clientNonce ∧ h.serverNonce = h'.serverNonce :=
  List.append_inj heq (by rw [hw.clientNonce, hw'.clientNonce])

/-- A key is of the second stage only in mode B. -/
theorem fs_of_stage_two {k : SessionKey} (hk : h.stage k = .two) : h.fs = true := by
  cases k with
  | srvConfirm => cases hk
  | cliConfirm | c2s | s2c =>
    simp only [stage] at hk
    split at hk
    · assumption
    · cases hk

/-- The input keying material of stage 1 is two secrets long. -/
private theorem WellFormed.length_ikm1 (hw : h.WellFormed P suite) :
    (h.stageIkm .one).length = 64 := by
  rw [stageIkm, ikm1, List.length_append, hw.ssStatic, hw.psk, pskLen]

/-- That of stage 2 is three secrets long. -/
private theorem WellFormed.length_ikm2 (hw : h.WellFormed P suite) (hfs : h.fs = true) :
    (h.stageIkm .two).length = 96 := by
  have hsuite : suite.params.fs = true := hw.fs ▸ hfs
  rw [stageIkm, ikm2, List.length_append, List.length_append, hw.ssStatic, hw.psk, hw.ssEph,
    if_pos hsuite, pskLen]

/-- Input keying material determines the stage of a key. -/
theorem WellFormed.stage_eq (hw : h.WellFormed P suite) (hw' : h'.WellFormed P suite')
    {k k' : SessionKey} (heq : h.stageIkm (h.stage k) = h'.stageIkm (h'.stage k')) :
    h.stage k = h'.stage k' := by
  -- The stages differ in how many secrets they have, and so in length.
  have hlen := congrArg List.length heq
  cases hk : h.stage k <;> cases hk' : h'.stage k' <;> rw [hk, hk'] at hlen
  · rw [hw.length_ikm1, hw'.length_ikm2 (fs_of_stage_two hk')] at hlen
    cases hlen
  · rw [hw.length_ikm2 (fs_of_stage_two hk), hw'.length_ikm1] at hlen
    cases hlen

/-- Input keying material of a stage determines the secrets. -/
theorem WellFormed.secrets_inj (hw : h.WellFormed P suite) (hw' : h'.WellFormed P suite')
    {s : Stage} (heq : h.stageIkm s = h'.stageIkm s) : h.secrets s = h'.secrets s := by
  cases s with
  | one =>
    obtain ⟨hss, hpsk⟩ := List.append_inj heq (by rw [hw.ssStatic, hw'.ssStatic])
    rw [secrets, secrets, hss, hpsk]
  | two =>
    obtain ⟨heq, hpsk⟩ := List.append_inj' heq (by rw [hw.psk, hw'.psk])
    obtain ⟨hss, hssEph⟩ := List.append_inj heq (by rw [hw.ssStatic, hw'.ssStatic])
    rw [secrets, secrets, hss, hssEph, hpsk]

/-- Transcript hashes of a stage determine the transcript, if SHA-256 does not collide on them. -/
theorem WellFormed.fullTranscript_inj (hw : h.WellFormed P suite) (hw' : h'.WellFormed P suite')
    (hsha : P.CollisionFree [h.th2Input, h'.th2Input, h.th3Input P, h'.th3Input P]) {s : Stage}
    (heq : h.stageTranscript P s = h'.stageTranscript P s) :
    h.fullTranscript s = h'.fullTranscript s := by
  cases s with
  | one =>
    have hinput : h.th2Input = h'.th2Input := hsha _ (by simp) _ (by simp) heq
    obtain ⟨-, hhello, hnonce, hsid, hek⟩ := hw.th2Input_inj hw' hinput
    rw [fullTranscript, fullTranscript, hhello, hnonce, hsid, hek]
  | two =>
    -- `th3` is over `th2` and the ciphertext.
    have hinput : h.th3Input P = h'.th3Input P := hsha _ (by simp) _ (by simp) heq
    obtain ⟨hth2, hct⟩ := List.append_inj hinput (by simp)
    have hinput2 : h.th2Input = h'.th2Input := hsha _ (by simp) _ (by simp) hth2
    obtain ⟨-, hhello, hnonce, hsid, hek⟩ := hw.th2Input_inj hw' hinput2
    rw [fullTranscript, fullTranscript, hhello, hnonce, hsid, hek, hct]

@[simp]
theorem length_stageTranscript (s : Stage) : (h.stageTranscript P s).length = 32 := by
  cases s with
  | one => exact h.length_th2 P
  | two => exact h.length_th3 P

/-- HKDF infos determine the key and the transcript hash. -/
theorem info_inj {k k' : SessionKey} (heq : (h.keyInput P k).info = (h'.keyInput P k').info) :
    k = k' ∧ h.stageTranscript P (h.stage k) = h'.stageTranscript P (h'.stage k') := by
  obtain ⟨hlabel, htranscript⟩ := List.append_inj' heq (by simp)
  exact ⟨SessionKey.label_injective (P.lits_injective hlabel), htranscript⟩

/-- Keys computed from identical inputs are the same key, of the same stage, with the same nonces,
secrets and transcript. -/
theorem WellFormed.keyInput_inj (hw : h.WellFormed P suite) (hw' : h'.WellFormed P suite')
    {k k' : SessionKey} (heq : h.keyInput P k = h'.keyInput P k') :
    k = k' ∧ h.stage k = h'.stage k' ∧ h.clientNonce = h'.clientNonce ∧
      h.serverNonce = h'.serverNonce ∧ h.secrets (h.stage k) = h'.secrets (h.stage k) ∧
      h.stageTranscript P (h.stage k) = h'.stageTranscript P (h.stage k) := by
  have hsalt : h.salt = h'.salt := congrArg KeyInput.salt heq
  have hikm : h.stageIkm (h.stage k) = h'.stageIkm (h'.stage k') := congrArg KeyInput.ikm heq
  obtain ⟨hk, htranscript⟩ := info_inj (congrArg KeyInput.info heq)
  have hstage := hw.stage_eq hw' hikm
  obtain ⟨hcn, hsn⟩ := hw.salt_inj hw' hsalt
  -- The stages are the same, so that the two sides can be compared.
  rw [← hstage] at hikm htranscript
  exact ⟨hk, hstage, hcn, hsn, hw.secrets_inj hw' hikm, htranscript⟩

/-- Without forward secrecy the ephemeral fields are empty. -/
private theorem WellFormed.ephemeral_eq_nil (hw : h.WellFormed P suite) (hfs : h.fs = false) :
    h.ctEph = [] ∧ h.ssEph = [] := by
  have hsuite : ¬ suite.params.fs = true := by
    rw [← hw.fs, hfs]
    exact Bool.false_ne_true
  have hct := hw.ctEph
  have hss := hw.ssEph
  rw [if_neg hsuite] at hct hss
  exact ⟨List.length_eq_zero_iff.mp hct, List.length_eq_zero_iff.mp hss⟩

/-- Where SHA-256 does not collide, the inputs of a client confirmation key determine the whole
handshake. -/
theorem WellFormed.eq_of_cliConfirm (hw : h.WellFormed P suite) (hw' : h'.WellFormed P suite')
    (hsha : P.CollisionFree [h.th2Input, h'.th2Input, h.th3Input P, h'.th3Input P])
    (heq : h.keyInput P .cliConfirm = h'.keyInput P .cliConfirm) : h = h' := by
  obtain ⟨-, hstage, hcn, hsn, hsecrets, htranscript⟩ := hw.keyInput_inj hw' heq
  have hfull := hw.fullTranscript_inj hw' hsha htranscript
  -- The stage of the key tells the modes apart.
  have hfs : h.fs = h'.fs := by
    simp only [stage] at hstage
    cases hb : h.fs <;> cases hb' : h'.fs <;> simp [hb, hb'] at hstage <;> rfl
  cases hb : h.fs with
  | true =>
    simp only [stage, hb, if_true, secrets, fullTranscript, List.cons.injEq, and_true]
      at hsecrets hfull
    obtain ⟨hss, hssEph, hpsk⟩ := hsecrets
    obtain ⟨hhello, -, hsid, hek, hct⟩ := hfull
    cases h
    cases h'
    simp_all
  | false =>
    simp only [stage, hb, Bool.false_eq_true, if_false, secrets, fullTranscript, List.cons.injEq,
      and_true] at hsecrets hfull
    obtain ⟨hss, hpsk⟩ := hsecrets
    obtain ⟨hhello, -, hsid, hek⟩ := hfull
    -- What the first stage does not bind is empty in mode A.
    obtain ⟨hct, hssEph⟩ := hw.ephemeral_eq_nil hb
    obtain ⟨hct', hssEph'⟩ := hw'.ephemeral_eq_nil (hfs ▸ hb)
    cases h
    cases h'
    simp_all

/-- The inputs of a server confirmation key determine the handshake but for its ephemeral
exchange. -/
theorem WellFormed.eq_of_srvConfirm (hw : h.WellFormed P suite) (hw' : h'.WellFormed P suite')
    (hsha : P.CollisionFree [h.th2Input, h'.th2Input, h.th3Input P, h'.th3Input P])
    (heq : h.keyInput P .srvConfirm = h'.keyInput P .srvConfirm) :
    suite = suite' ∧ h.withEphemeral [] [] = h'.withEphemeral [] [] := by
  obtain ⟨-, -, hcn, hsn, hsecrets, htranscript⟩ := hw.keyInput_inj hw' heq
  -- This key is of the first stage in both modes.
  have hinput : h.th2Input = h'.th2Input := hsha _ (by simp) _ (by simp) htranscript
  obtain ⟨rfl, hhello, -, hsid, hek⟩ := hw.th2Input_inj hw' hinput
  simp only [secrets, stage, List.cons.injEq, and_true] at hsecrets
  obtain ⟨hss, hpsk⟩ := hsecrets
  have hfs : h.fs = h'.fs := hw.fs.trans hw'.fs.symm
  refine ⟨rfl, ?_⟩
  rw [withEphemeral, withEphemeral, hfs, hhello, hcn, hsn, hsid, hek, hpsk, hss]

/-- Transcript injectivity and domain separation of the key schedule, for any two handshakes over
all suites: `TH2` inputs determine every field; identical inputs of two keys belong to the same key
of the same stage with the same nonces, secrets and, unless SHA-256 collides on their transcripts,
the same transcript; inputs of the two stages never coincide; and `hello_mac` inputs determine the
body. The inputs are those of the code: the keys that `derive_keys`, `derive_stage1` and
`derive_stage2` return are HKDF of them (`deriveKeys_eq`, `deriveStage1_eq`, `deriveStage2_eq` with
`key_eq`), so are those of the firmware's `derive_key` (`exec_deriveKey`, `handshake_refines`), and
`hello_mac` is HMAC of its input (`helloMac_eq`). -/
theorem keySchedule_separated (hw : h.WellFormed P suite) (hw' : h'.WellFormed P suite') :
    (h.th2Input = h'.th2Input → suite = suite' ∧ h.hello = h'.hello ∧
      h.serverNonce = h'.serverNonce ∧ h.sessionId = h'.sessionId ∧ h.ekEph = h'.ekEph) ∧
    (∀ k k', h.keyInput P k = h'.keyInput P k' →
      k.label = k'.label ∧ h.stage k = h'.stage k' ∧ h.clientNonce = h'.clientNonce ∧
      h.serverNonce = h'.serverNonce ∧ h.secrets (h.stage k) = h'.secrets (h'.stage k') ∧
      (P.CollisionFree [h.th2Input, h'.th2Input, h.th3Input P, h'.th3Input P] →
        h.fullTranscript (h.stage k) = h'.fullTranscript (h'.stage k'))) ∧
    (∀ k k', h.stage k = .one → h'.stage k' = .two → h.keyInput P k ≠ h'.keyInput P k') ∧
    (∀ body body', helloMacInput P body = helloMacInput P body' → body = body') := by
  refine ⟨hw.th2Input_inj hw', fun k k' heq => ?_, fun k k' hone htwo heq => ?_,
    fun body body' => List.append_cancel_left⟩
  · obtain ⟨rfl, hstage, hcn, hsn, hsecrets, htranscript⟩ := hw.keyInput_inj hw' heq
    rw [← hstage]
    exact ⟨rfl, rfl, hcn, hsn, hsecrets, fun hsha => hw.fullTranscript_inj hw' hsha htranscript⟩
  · obtain ⟨-, hstage, -⟩ := hw.keyInput_inj hw' heq
    rw [hone, htwo] at hstage
    cases hstage

/-- A handshake whose fields repeat one byte. -/
def uniform (P : Prims β) (suite : Suite) (b : UInt8) : Handshake β :=
  let bytes (n : ℕ) := P.lits (List.replicate n b)
  { fs := suite.params.fs
    hello := P.lits [version, suite.code] ++ bytes (ClientHello.expectedLen suite - 2)
    clientNonce := bytes 32
    serverNonce := bytes 32
    sessionId := bytes 8
    ekEph := bytes (if suite.params.fs then suite.params.ek else 0)
    ctEph := bytes (if suite.params.fs then suite.params.ct else 0)
    psk := bytes 32
    ssStatic := bytes 32
    ssEph := bytes (if suite.params.fs then 32 else 0) }

theorem uniform_wellFormed (P : Prims β) (suite : Suite) (b : UInt8) :
    (uniform P suite b).WellFormed P suite where
  fs := rfl
  suiteByte := ⟨_, _, _, rfl, P.val_lit _⟩
  hello := by
    simp only [uniform, List.length_append, P.length_lits, List.length_cons, List.length_nil,
      List.length_replicate, ClientHello.expectedLen]
    omega
  clientNonce := by simp [uniform, nonceLen]
  serverNonce := by simp [uniform, nonceLen]
  sessionId := by simp [uniform, sessionIdLen]
  ekEph := by simp [uniform]
  ctEph := by simp [uniform]
  psk := by simp [uniform, pskLen]
  ssStatic := by simp [uniform]
  ssEph := by simp [uniform]

/-- A mode A and a mode B handshake made of the same byte share neither a `TH2` input nor, across
the stages, a key input. -/
theorem keySchedule_separated_uniform :
    let P := idealPrims fun _ : Symbolic.Byte ℕ Level => 0
    (uniform P .mlkem768 0).th2Input ≠ (uniform P .mlkem768Fs 0).th2Input ∧
      (uniform P .mlkem768 0).keyInput P .c2s ≠ (uniform P .mlkem768Fs 0).keyInput P .c2s := by
  intro P
  obtain ⟨hth2, -, hstages, -⟩ := keySchedule_separated (uniform_wellFormed P .mlkem768 0)
    (uniform_wellFormed P .mlkem768Fs 0)
  exact ⟨fun heq => absurd (hth2 heq).1 (by decide), hstages .c2s .c2s rfl rfl⟩

end Handshake

end PqcIot
