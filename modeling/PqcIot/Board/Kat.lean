import PqcIot.Testing.KatVectors

/-!
# The conformance test

`mlkem_kat.c` runs an ML-KEM on the vectors of the header and counts those that it does not
reproduce. Together with `generate_kat_header.py`: if the header is that of some documents, the test
passes exactly if the implementation has reproduced every vector of the documents
(`mlkemKatRun_conforms`).
-/

namespace PqcIot.KatHeader

open Effects Text Text.C

/-! ## The functions under test -/

/-- `MLKEM_SYMBYTES` and `MLKEM_BYTES`. -/
def symBytes : ℕ := 32

namespace Level

/-- `MLKEM##LVL##_PUBLICKEYBYTES`. -/
def publicKeyBytes : Level → ℕ
  | .mlkem512 => 800
  | .mlkem768 => 1184

/-- `MLKEM##LVL##_SECRETKEYBYTES`. -/
def secretKeyBytes : Level → ℕ
  | .mlkem512 => 1632
  | .mlkem768 => 2400

/-- `MLKEM##LVL##_CIPHERTEXTBYTES`. -/
def ciphertextBytes : Level → ℕ
  | .mlkem512 => 768
  | .mlkem768 => 1088

end Level

/-- The functions `mlkem##LVL##_*` that take their randomness as an argument: the return code, and
the contents of the output arrays. -/
structure MlKem (lvl : Level) where
  keypairDerand (coins : Vector UInt8 (symBytes + symBytes)) :
    ℤ × Vector UInt8 lvl.publicKeyBytes × Vector UInt8 lvl.secretKeyBytes
  encDerand (pk : Vector UInt8 lvl.publicKeyBytes) (coins : Vector UInt8 symBytes) :
    ℤ × Vector UInt8 lvl.ciphertextBytes × Vector UInt8 symBytes
  dec (ct : Vector UInt8 lvl.ciphertextBytes) (sk : Vector UInt8 lvl.secretKeyBytes) :
    ℤ × Vector UInt8 symBytes
  checkPk (pk : Vector UInt8 lvl.publicKeyBytes) : ℤ
  checkSk (sk : Vector UInt8 lvl.secretKeyBytes) : ℤ

/-! ## The test -/

section Test

/-- `kat_result_t`. -/
structure KatResult where
  run : ℕ
  failed : ℕ
  deriving DecidableEq, Repr

variable (text : List Char)

/-- The first `len` bytes of a row, which a function reads; the row has to be there, and long
enough. -/
def rowAt (name : List Char) (i len : ℕ) : Option (Vector UInt8 len) := do
  let row ← (← rowsOf text name)[i]?
  if h : (row.take len).length = len then
    return ⟨(row.take len).toArray, List.size_toArray.trans h⟩
  else
    none

/-- The loop of the five tests over the vectors, of which some fail. -/
def katLoop (count : ℕ) (fails : ℕ → Option Bool) : Option KatResult := do
  let failed ← (List.range count).foldlM (fun failed i => do
    return if ← fails i then failed + 1 else failed) 0
  return ⟨count, failed⟩

variable {lvl : Level} (impl : MlKem lvl)

/-- The body of the loop of `kat_keygen_##LVL`. -/
def keygenFails (i : ℕ) : Option Bool := do
  let d ← rowAt text (arrayName lvl .keygen "d") i symBytes
  let z ← rowAt text (arrayName lvl .keygen "z") i symBytes
  -- The two seeds stand side by side in `coins`.
  let (rc, pk, sk) := impl.keypairDerand (d ++ z)
  if rc ≠ 0 then
    return true
  else if pk ≠ (← rowAt text (arrayName lvl .keygen "ek") i lvl.publicKeyBytes) then
    return true
  else
    return sk ≠ (← rowAt text (arrayName lvl .keygen "dk") i lvl.secretKeyBytes)

/-- `kat_keygen_##LVL`. -/
def katKeygen : Option KatResult := do
  katLoop (← countOf text (countName lvl .keygen)) (keygenFails text impl)

/-- The body of the loop of `kat_encap_##LVL`. -/
def encapFails (i : ℕ) : Option Bool := do
  let ek ← rowAt text (arrayName lvl .encap "ek") i lvl.publicKeyBytes
  let m ← rowAt text (arrayName lvl .encap "m") i symBytes
  let (rc, ct, ss) := impl.encDerand ek m
  if rc ≠ 0 then
    return true
  else if ct ≠ (← rowAt text (arrayName lvl .encap "c") i lvl.ciphertextBytes) then
    return true
  else
    return ss ≠ (← rowAt text (arrayName lvl .encap "k") i symBytes)

/-- `kat_encap_##LVL`. -/
def katEncap : Option KatResult := do
  katLoop (← countOf text (countName lvl .encap)) (encapFails text impl)

/-- The body of the loop of `kat_decap_##LVL`. -/
def decapFails (i : ℕ) : Option Bool := do
  let c ← rowAt text (arrayName lvl .decap "c") i lvl.ciphertextBytes
  let dk ← rowAt text (arrayName lvl .decap "dk") i lvl.secretKeyBytes
  let (rc, ss) := impl.dec c dk
  if rc ≠ 0 then
    return true
  else
    return ss ≠ (← rowAt text (arrayName lvl .decap "k") i symBytes)

/-- `kat_decap_##LVL`. -/
def katDecap : Option KatResult := do
  katLoop (← countOf text (countName lvl .decap)) (decapFails text impl)

/-- `kat##LVL##_*check_valid[i] != 0`. -/
def validAt (name : List Char) (i : ℕ) : Option Bool := do
  let flag ← (← bytesOf text name)[i]?
  return flag ≠ 0

/-- The body of the loop of `kat_ekcheck_##LVL`. -/
def ekcheckFails (i : ℕ) : Option Bool := do
  let key ← rowAt text (arrayName lvl .ekCheck "key") i lvl.publicKeyBytes
  -- Only whether the key is accepted is compared with the flag.
  let accepted := impl.checkPk key == 0
  return accepted != (← validAt text (arrayName lvl .ekCheck "valid") i)

/-- `kat_ekcheck_##LVL`. -/
def katEkcheck : Option KatResult := do
  katLoop (← countOf text (countName lvl .ekCheck)) (ekcheckFails text impl)

/-- The body of the loop of `kat_dkcheck_##LVL`. -/
def dkcheckFails (i : ℕ) : Option Bool := do
  let key ← rowAt text (arrayName lvl .dkCheck "key") i lvl.secretKeyBytes
  let accepted := impl.checkSk key == 0
  return accepted != (← validAt text (arrayName lvl .dkCheck "valid") i)

/-- `kat_dkcheck_##LVL`. -/
def katDkcheck : Option KatResult := do
  katLoop (← countOf text (countName lvl .dkCheck)) (dkcheckFails text impl)

/-- The test of a function. -/
def katCase : KatFunction → Option KatResult
  | .keygen => katKeygen text impl
  | .encap => katEncap text impl
  | .decap => katDecap text impl
  | .ekCheck => katEkcheck text impl
  | .dkCheck => katDkcheck text impl

end Test

section Run

variable (text : List Char) (impl : ∀ lvl, MlKem lvl)

/-- The header has every name that `mlkem_kat.c` mentions, without which it is not compiled: the
version, which is printed as a string, the counts, and the arrays. -/
def Compiles : Prop :=
  (∃ version, definitions text "ACVP_VERSION".toList = [[.quoted '"' version]]) ∧
    ∀ lvl f, (countOf text (countName lvl f)).isSome = true ∧
      ∀ slot ∈ f.slots, ∃ a ∈ arrays text, a.name = arrayName lvl f slot

/-- `total` and `failed` after the loop over `cases`. -/
def katTotals : Option KatResult := do
  sections.foldlM (fun totals p => do
    let r ← katCase text (impl p.1) p.2
    return ⟨totals.run + r.run, totals.failed + r.failed⟩) ⟨0, 0⟩

/-- `mlkem_kat_run`. -/
def mlkemKatRun : Option Bool := (katTotals text impl).map fun r => r.failed == 0

end Run

/-! ## What it is to reproduce a vector -/

section Conforms

variable {τ : Type} [DecidableEq τ] (docs : Documents τ)

/-- The size of the values of a column. -/
def Column.size (c : Column) (lvl : Level) : ℕ :=
  match c.key with
  | "ek" => lvl.publicKeyBytes
  | "dk" => lvl.secretKeyBytes
  | "c" => lvl.ciphertextBytes
  | _ => symBytes

/-- The values of some tests have the sizes of the parameter set. -/
def Sized (lvl : Level) (f : KatFunction) (tests : List (AcvpTest τ)) : Prop :=
  ∀ c ∈ f.columns, ∀ t ∈ tests, ∀ bytes, docs.bytes f c t = some bytes → bytes.length = c.size lvl

/-- An implementation reproduces a test of the documents. -/
def Conforms {lvl : Level} (impl : MlKem lvl) (t : AcvpTest τ) : KatFunction → Prop
  | .keygen => ∃ d z ek dk, docs.bytes .keygen ⟨"d", .prompt, "d"⟩ t = some (Vector.toList d) ∧
      docs.bytes .keygen ⟨"z", .prompt, "z"⟩ t = some (Vector.toList z) ∧
      docs.bytes .keygen ⟨"ek", .expected, "ek"⟩ t = some (Vector.toList ek) ∧
      docs.bytes .keygen ⟨"dk", .expected, "dk"⟩ t = some (Vector.toList dk) ∧
      impl.keypairDerand (d ++ z) = (0, ek, dk)
  | .encap => ∃ ek m c k, docs.bytes .encap ⟨"ek", .prompt, "ek"⟩ t = some (Vector.toList ek) ∧
      docs.bytes .encap ⟨"m", .prompt, "m"⟩ t = some (Vector.toList m) ∧
      docs.bytes .encap ⟨"c", .expected, "c"⟩ t = some (Vector.toList c) ∧
      docs.bytes .encap ⟨"k", .expected, "k"⟩ t = some (Vector.toList k) ∧
      impl.encDerand ek m = (0, c, k)
  | .decap => ∃ dk c k, docs.bytes .decap ⟨"dk", .prompt, "dk"⟩ t = some (Vector.toList dk) ∧
      docs.bytes .decap ⟨"c", .prompt, "c"⟩ t = some (Vector.toList c) ∧
      docs.bytes .decap ⟨"k", .expected, "k"⟩ t = some (Vector.toList k) ∧
      impl.dec c dk = (0, k)
  | .ekCheck => ∃ key passed, docs.bytes .ekCheck ⟨"key", .prompt, "ek"⟩ t =
      some (Vector.toList key) ∧ docs.passed .ekCheck t = some passed ∧
      (impl.checkPk key = 0 ↔ passed = true)
  | .dkCheck => ∃ key passed, docs.bytes .dkCheck ⟨"key", .prompt, "dk"⟩ t =
      some (Vector.toList key) ∧ docs.passed .dkCheck t = some passed ∧
      (impl.checkSk key = 0 ↔ passed = true)

end Conforms

/-! ## The loop -/

private theorem foldlM_fails {fails : ℕ → Option Bool} {failing : ℕ → Bool} {l : List ℕ}
    (h : ∀ i ∈ l, fails i = some (failing i)) (n : ℕ) :
    l.foldlM (fun failed i => do return if ← fails i then failed + 1 else failed) n =
      some (n + l.countP failing) := by
  induction l generalizing n with
  | nil => rfl
  | cons i l ih =>
    rw [List.forall_mem_cons] at h
    rw [List.foldlM_cons, h.1, List.countP_cons]
    refine (ih h.2 _).trans (congrArg some ?_)
    cases failing i
    · simp
    · simp only [if_true]
      omega

/-- The loop counts the failing vectors. -/
theorem katLoop_eq {count : ℕ} {fails : ℕ → Option Bool} {failing : ℕ → Bool}
    (h : ∀ i < count, fails i = some (failing i)) :
    katLoop count fails = some ⟨count, (List.range count).countP failing⟩ := by
  rw [katLoop, foldlM_fails (fun i hi => h i (List.mem_range.mp hi)), Nat.zero_add]
  rfl

/-! ## The vectors of a table -/

section Table

variable {τ : Type} [DecidableEq τ] {docs : Documents τ} {text : List Char} {lvl : Level}
  {f : KatFunction} {tests : List (AcvpTest τ)} {i : ℕ}

/-- The rows of a table are the values of the tests. -/
theorem exists_rowAt (htable : Tabulates docs text lvl f tests) (hsize : Sized docs lvl f tests)
    (hi : i < tests.length) (name : String) (source : Source) (key : String) (len : ℕ)
    (hc : ⟨name, source, key⟩ ∈ f.columns) (hlen : Column.size ⟨name, source, key⟩ lvl = len) :
    ∃ v : Vector UInt8 len, rowAt text (arrayName lvl f name) i len = some v ∧
      docs.bytes f ⟨name, source, key⟩ tests[i] = some v.toList := by
  obtain ⟨rows, hrows, hvalues⟩ := htable.rows _ hc
  have hi' : i < rows.length := hvalues.length_eq ▸ hi
  have hvalue := hvalues.get hi hi'
  have hrow : rows[i].length = len := (hsize _ hc _ (List.getElem_mem hi) _ hvalue).trans hlen
  have htake : rows[i].take len = rows[i] := List.take_of_length_le hrow.le
  refine ⟨⟨(rows[i].take len).toArray, List.size_toArray.trans (by rw [htake, hrow])⟩, ?_, ?_⟩
  · rw [rowAt, hrows]
    simp only [Option.bind_eq_bind, Option.bind_some, List.getElem?_eq_getElem hi', htake, hrow]
    rfl
  · exact hvalue.trans (congrArg some htake.symm)

/-- The flags of a table are the verdicts on the tests. -/
theorem exists_validAt (htable : Tabulates docs text lvl f tests) (hverdict : f.hasVerdict = true)
    (hi : i < tests.length) :
    ∃ passed, validAt text (arrayName lvl f "valid") i = some passed ∧
      docs.passed f tests[i] = some passed := by
  obtain ⟨flags, hflags, hverdicts⟩ := htable.flags hverdict
  have hi' : i < flags.length := hverdicts.length_eq ▸ hi
  obtain ⟨passed, hpassed, hflag⟩ := hverdicts.get hi hi'
  refine ⟨passed, ?_, hpassed⟩
  rw [validAt, hflags]
  simp only [Option.bind_eq_bind, Option.bind_some, List.getElem?_eq_getElem hi']
  have hflag' : flags[i] = flagByte passed := hflag
  rw [hflag']
  cases passed <;> rfl

/-- A value of the documents is one array only. -/
private theorem value_unique {n : ℕ} {value : Option (List UInt8)} {v w : Vector UInt8 n}
    (hv : value = some v.toList) (hw : value = some w.toList) : v = w :=
  Vector.toList_inj.mp (Option.some.inj (hv.symm.trans hw))

variable (impl : MlKem lvl)

/-- A vector for the generation of keys fails if it is not reproduced. -/
theorem exists_keygenFails (htable : Tabulates docs text lvl .keygen tests)
    (hsize : Sized docs lvl .keygen tests) (hi : i < tests.length) :
    ∃ b, keygenFails text impl i = some b ∧
      (b = false ↔ Conforms docs impl tests[i] .keygen) := by
  have hcell := exists_rowAt htable hsize hi
  obtain ⟨d, hd, hd'⟩ := hcell "d" .prompt "d" symBytes (by simp [KatFunction.columns]) rfl
  obtain ⟨z, hz, hz'⟩ := hcell "z" .prompt "z" symBytes (by simp [KatFunction.columns]) rfl
  obtain ⟨ek, hek, hek'⟩ := hcell "ek" .expected "ek" lvl.publicKeyBytes
    (by simp [KatFunction.columns]) rfl
  obtain ⟨dk, hdk, hdk'⟩ := hcell "dk" .expected "dk" lvl.secretKeyBytes
    (by simp [KatFunction.columns]) rfl
  -- The values of a field are unique, so conformance is about those in the tables.
  have hconforms : Conforms docs impl tests[i] .keygen ↔
      impl.keypairDerand (d ++ z) = (0, ek, dk) := by
    constructor
    · rintro ⟨d₀, z₀, ek₀, dk₀, hd₀, hz₀, hek₀, hdk₀, h⟩
      rwa [← value_unique hd' hd₀, ← value_unique hz' hz₀, ← value_unique hek' hek₀,
        ← value_unique hdk' hdk₀] at h
    · exact fun h => ⟨d, z, ek, dk, hd', hz', hek', hdk', h⟩
  obtain ⟨rc, pk, sk, hout⟩ : ∃ rc pk sk, impl.keypairDerand (d ++ z) = (rc, pk, sk) :=
    ⟨_, _, _, rfl⟩
  refine ⟨decide ((rc, pk, sk) ≠ (0, ek, dk)), ?_, by simp [hconforms, hout]⟩
  simp only [keygenFails, hd, hz, hek, hdk, hout, Option.bind_eq_bind, Option.bind_some]
  by_cases hrc : rc = 0
  · by_cases hpk : pk = ek
    · simp [hrc, hpk]
    · simp [hrc, hpk]
  · simp [hrc]

/-- A vector for encapsulation fails if it is not reproduced. -/
theorem exists_encapFails (htable : Tabulates docs text lvl .encap tests)
    (hsize : Sized docs lvl .encap tests) (hi : i < tests.length) :
    ∃ b, encapFails text impl i = some b ∧ (b = false ↔ Conforms docs impl tests[i] .encap) := by
  have hcell := exists_rowAt htable hsize hi
  obtain ⟨ek, hek, hek'⟩ := hcell "ek" .prompt "ek" lvl.publicKeyBytes
    (by simp [KatFunction.columns]) rfl
  obtain ⟨m, hm, hm'⟩ := hcell "m" .prompt "m" symBytes (by simp [KatFunction.columns]) rfl
  obtain ⟨c, hc, hc'⟩ := hcell "c" .expected "c" lvl.ciphertextBytes
    (by simp [KatFunction.columns]) rfl
  obtain ⟨k, hk, hk'⟩ := hcell "k" .expected "k" symBytes (by simp [KatFunction.columns]) rfl
  have hconforms : Conforms docs impl tests[i] .encap ↔ impl.encDerand ek m = (0, c, k) := by
    constructor
    · rintro ⟨ek₀, m₀, c₀, k₀, hek₀, hm₀, hc₀, hk₀, h⟩
      rwa [← value_unique hek' hek₀, ← value_unique hm' hm₀, ← value_unique hc' hc₀,
        ← value_unique hk' hk₀] at h
    · exact fun h => ⟨ek, m, c, k, hek', hm', hc', hk', h⟩
  obtain ⟨rc, ct, ss, hout⟩ : ∃ rc ct ss, impl.encDerand ek m = (rc, ct, ss) := ⟨_, _, _, rfl⟩
  refine ⟨decide ((rc, ct, ss) ≠ (0, c, k)), ?_, by simp [hconforms, hout]⟩
  simp only [encapFails, hek, hm, hc, hk, hout, Option.bind_eq_bind, Option.bind_some]
  by_cases hrc : rc = 0
  · by_cases hct : ct = c
    · simp [hrc, hct]
    · simp [hrc, hct]
  · simp [hrc]

/-- A vector for decapsulation fails if it is not reproduced. -/
theorem exists_decapFails (htable : Tabulates docs text lvl .decap tests)
    (hsize : Sized docs lvl .decap tests) (hi : i < tests.length) :
    ∃ b, decapFails text impl i = some b ∧ (b = false ↔ Conforms docs impl tests[i] .decap) := by
  have hcell := exists_rowAt htable hsize hi
  obtain ⟨dk, hdk, hdk'⟩ := hcell "dk" .prompt "dk" lvl.secretKeyBytes
    (by simp [KatFunction.columns]) rfl
  obtain ⟨c, hc, hc'⟩ := hcell "c" .prompt "c" lvl.ciphertextBytes
    (by simp [KatFunction.columns]) rfl
  obtain ⟨k, hk, hk'⟩ := hcell "k" .expected "k" symBytes (by simp [KatFunction.columns]) rfl
  have hconforms : Conforms docs impl tests[i] .decap ↔ impl.dec c dk = (0, k) := by
    constructor
    · rintro ⟨dk₀, c₀, k₀, hdk₀, hc₀, hk₀, h⟩
      rwa [← value_unique hdk' hdk₀, ← value_unique hc' hc₀, ← value_unique hk' hk₀] at h
    · exact fun h => ⟨dk, c, k, hdk', hc', hk', h⟩
  obtain ⟨rc, ss, hout⟩ : ∃ rc ss, impl.dec c dk = (rc, ss) := ⟨_, _, rfl⟩
  refine ⟨decide ((rc, ss) ≠ (0, k)), ?_, by simp [hconforms, hout]⟩
  simp only [decapFails, hdk, hc, hk, hout, Option.bind_eq_bind, Option.bind_some]
  by_cases hrc : rc = 0
  · simp [hrc]
  · simp [hrc]

/-- A check of a key fails if it differs from the verdict on the key. -/
private theorem exists_check {accepted passed : Bool} {rc : ℤ} (haccepted : accepted = (rc == 0)) :
    (accepted != passed) = false ↔ (rc = 0 ↔ passed = true) := by
  rw [haccepted, bne_eq_false_iff_eq, Bool.eq_iff_iff, beq_iff_eq]

/-- A vector for the check of public keys fails if the verdict is another one. -/
theorem exists_ekcheckFails (htable : Tabulates docs text lvl .ekCheck tests)
    (hsize : Sized docs lvl .ekCheck tests) (hi : i < tests.length) :
    ∃ b, ekcheckFails text impl i = some b ∧
      (b = false ↔ Conforms docs impl tests[i] .ekCheck) := by
  obtain ⟨key, hkey, hkey'⟩ := exists_rowAt htable hsize hi "key" .prompt "ek" lvl.publicKeyBytes
    (by simp [KatFunction.columns]) rfl
  obtain ⟨passed, hpassed, hpassed'⟩ := exists_validAt htable rfl hi
  refine ⟨(impl.checkPk key == 0) != passed, ?_, ?_⟩
  · simp only [ekcheckFails, hkey, hpassed, Option.bind_eq_bind, Option.bind_some]
    rfl
  · rw [exists_check rfl]
    constructor
    · exact fun h => ⟨key, passed, hkey', hpassed', h⟩
    · rintro ⟨key₀, passed₀, hkey₀, hpassed₀, h⟩
      obtain rfl := Option.some.inj (hpassed'.symm.trans hpassed₀)
      rwa [value_unique hkey' hkey₀]

/-- A vector for the check of private keys fails if the verdict is another one. -/
theorem exists_dkcheckFails (htable : Tabulates docs text lvl .dkCheck tests)
    (hsize : Sized docs lvl .dkCheck tests) (hi : i < tests.length) :
    ∃ b, dkcheckFails text impl i = some b ∧
      (b = false ↔ Conforms docs impl tests[i] .dkCheck) := by
  obtain ⟨key, hkey, hkey'⟩ := exists_rowAt htable hsize hi "key" .prompt "dk" lvl.secretKeyBytes
    (by simp [KatFunction.columns]) rfl
  obtain ⟨passed, hpassed, hpassed'⟩ := exists_validAt htable rfl hi
  refine ⟨(impl.checkSk key == 0) != passed, ?_, ?_⟩
  · simp only [dkcheckFails, hkey, hpassed, Option.bind_eq_bind, Option.bind_some]
    rfl
  · rw [exists_check rfl]
    constructor
    · exact fun h => ⟨key, passed, hkey', hpassed', h⟩
    · rintro ⟨key₀, passed₀, hkey₀, hpassed₀, h⟩
      obtain rfl := Option.some.inj (hpassed'.symm.trans hpassed₀)
      rwa [value_unique hkey' hkey₀]

omit [DecidableEq τ] in
/-- The loop over the vectors of a table finds those that are not reproduced. -/
theorem exists_katLoop {fails : ℕ → Option Bool} {C : AcvpTest τ → Prop}
    (h : ∀ i (hi : i < tests.length), ∃ b, fails i = some b ∧ (b = false ↔ C tests[i])) :
    ∃ r, katLoop tests.length fails = some r ∧ r.run = tests.length ∧
      (r.failed = 0 ↔ ∀ t ∈ tests, C t) := by
  have hfails : ∀ i < tests.length, fails i = some ((fails i).getD true) := by
    intro i hi
    obtain ⟨b, hb, -⟩ := h i hi
    rw [hb, Option.getD_some]
  refine ⟨_, katLoop_eq hfails, rfl, ?_⟩
  rw [List.countP_eq_zero, List.forall_mem_iff_getElem (p := C)]
  refine ⟨fun hzero i hi => ?_, fun hall i hi => ?_⟩
  · obtain ⟨b, hb, hconforms⟩ := h i hi
    have hpassed := hzero i (List.mem_range.mpr hi)
    rw [hb, Option.getD_some] at hpassed
    exact hconforms.mp (Bool.eq_false_iff.mpr hpassed)
  · obtain ⟨b, hb, hconforms⟩ := h i (List.mem_range.mp hi)
    rw [hb, Option.getD_some, hconforms.mpr (hall i _)]
    exact Bool.false_ne_true

/-- The test of a function is run on every vector of its table, and finds those that are not
reproduced. -/
theorem exists_katCase (htable : Tabulates docs text lvl f tests) (hsize : Sized docs lvl f tests) :
    ∃ r, katCase text impl f = some r ∧ r.run = tests.length ∧
      (r.failed = 0 ↔ ∀ t ∈ tests, Conforms docs impl t f) := by
  -- The count in the header is the number of tests.
  have hcount {fails : ℕ → Option Bool} :
      (countOf text (countName lvl f) >>= fun count => katLoop count fails) =
        katLoop tests.length fails := by
    rw [htable.count]
    rfl
  cases f with
  | keygen =>
    rw [katCase, katKeygen, hcount]
    exact exists_katLoop fun i hi => exists_keygenFails impl htable hsize hi
  | encap =>
    rw [katCase, katEncap, hcount]
    exact exists_katLoop fun i hi => exists_encapFails impl htable hsize hi
  | decap =>
    rw [katCase, katDecap, hcount]
    exact exists_katLoop fun i hi => exists_decapFails impl htable hsize hi
  | ekCheck =>
    rw [katCase, katEkcheck, hcount]
    exact exists_katLoop fun i hi => exists_ekcheckFails impl htable hsize hi
  | dkCheck =>
    rw [katCase, katDkcheck, hcount]
    exact exists_katLoop fun i hi => exists_dkcheckFails impl htable hsize hi

/-- A header with the vectors of some tests, of each parameter set and function, is one that
`mlkem_kat.c` is compiled with. -/
theorem compiles_of_tabulates {tests : Level → KatFunction → List (AcvpTest τ)}
    {version : List Char}
    (hversion : definitions text "ACVP_VERSION".toList = [[.quoted '"' version]])
    (htable : ∀ lvl f, Tabulates docs text lvl f (tests lvl f)) (hne : ∀ lvl f, tests lvl f ≠ []) :
    Compiles text := by
  have hfound {name : List Char} (hfilter : ((arrays text).filter fun a => a.name = name) ≠ []) :
      ∃ a ∈ arrays text, a.name = name := by
    obtain ⟨a, ha⟩ := List.exists_mem_of_ne_nil _ hfilter
    obtain ⟨hmem, hname⟩ := List.mem_filter.mp ha
    exact ⟨a, hmem, of_decide_eq_true hname⟩
  refine ⟨⟨version, hversion⟩, fun lvl f =>
    ⟨by rw [(htable lvl f).count]; rfl, fun slot hslot => hfound fun hnil => hne lvl f ?_⟩⟩
  -- A table of bytes, or the flags.
  rcases List.mem_append.mp hslot with hcolumn | hvalid
  · obtain ⟨c, hc, rfl⟩ := List.mem_map.mp hcolumn
    obtain ⟨rows, hrows, hvalues⟩ := (htable lvl f).rows c hc
    rw [rowsOf, hnil, Option.some.injEq] at hrows
    rwa [← hrows, List.forall₂_nil_right_iff] at hvalues
  · split at hvalid
    · next hverdict =>
      obtain rfl := List.mem_singleton.mp hvalid
      obtain ⟨flags, hflags, hverdicts⟩ := (htable lvl f).flags hverdict
      rw [bytesOf, hnil, Option.some.injEq] at hflags
      rwa [← hflags, List.forall₂_nil_right_iff] at hverdicts
    · cases hvalid

end Table

/-! ## The verdict -/

section Verdict

variable {τ : Type} [DecidableEq τ] {docs : Documents τ} {text : List Char}
  {tests : Level → KatFunction → List (AcvpTest τ)}

/-- The loop over the cases adds up their results. -/
private theorem exists_totals (impl : ∀ lvl, MlKem lvl)
    (htable : ∀ lvl f, Tabulates docs text lvl f (tests lvl f))
    (hsize : ∀ lvl f, Sized docs lvl f (tests lvl f)) (cases : List (Level × KatFunction))
    (totals : KatResult) :
    ∃ r, cases.foldlM (fun totals p => do
        let r ← katCase text (impl p.1) p.2
        return (⟨totals.run + r.run, totals.failed + r.failed⟩ : KatResult)) totals = some r ∧
      r.run = totals.run + (cases.map fun p => (tests p.1 p.2).length).sum ∧
      (r.failed = 0 ↔ totals.failed = 0 ∧
        ∀ p ∈ cases, ∀ t ∈ tests p.1 p.2, Conforms docs (impl p.1) t p.2) := by
  induction cases generalizing totals with
  | nil => exact ⟨totals, rfl, rfl, by simp⟩
  | cons p cases ih =>
    obtain ⟨r, hr, hrun, hfailed⟩ := exists_katCase (impl p.1) (htable p.1 p.2) (hsize p.1 p.2)
    obtain ⟨r', hr', hrun', hfailed'⟩ := ih ⟨totals.run + r.run, totals.failed + r.failed⟩
    refine ⟨r', ?_, ?_, ?_⟩
    · rw [List.foldlM_cons, hr]
      exact hr'
    · rw [hrun', hrun, List.map_cons, List.sum_cons, Nat.add_assoc]
    · rw [hfailed', Nat.add_eq_zero_iff, hfailed, List.forall_mem_cons, and_assoc]

/-- With the header of some documents that have one group for each parameter set and function, the
test runs all their vectors, and finds those that are not reproduced. -/
theorem exists_katTotals {source : Provenance} (impl : ∀ lvl, MlKem lvl)
    (h : main docs source none = .ok (some text)) (hgroups : ∀ lvl f, OneGroup docs lvl f)
    (hsize : ∀ lvl f, Sized docs lvl f (docs.tests lvl f)) :
    (∀ lvl f, Tabulates docs text lvl f (docs.tests lvl f)) ∧
      ∃ totals, katTotals text impl = some totals ∧
        mlkemKatRun text impl = some (totals.failed == 0) ∧
        totals.run = (sections.map fun p => (docs.tests p.1 p.2).length).sum ∧
        ((totals.failed == 0) = true ↔
          ∀ lvl f, ∀ t ∈ docs.tests lvl f, Conforms docs (impl lvl) t f) := by
  have htable : ∀ lvl f, Tabulates docs text lvl f (docs.tests lvl f) := by
    intro lvl f
    obtain ⟨earlier, last, hsplit, hempty⟩ := hgroups lvl f
    rw [Documents.tests, hsplit, List.flatMap_append, List.flatMap_eq_nil_iff.mpr hempty,
      List.nil_append, List.flatMap_singleton]
    exact tabulates_last h hsplit
  obtain ⟨totals, htotals, hrun, hfailed⟩ := exists_totals impl htable hsize sections ⟨0, 0⟩
  refine ⟨htable, totals, htotals, ?_, ?_, ?_⟩
  · rw [mlkemKatRun, katTotals, htotals]
    rfl
  · rw [hrun, Nat.zero_add]
  · rw [beq_iff_eq, hfailed]
    exact ⟨fun hall lvl f => hall.2 (lvl, f) (mem_sections _),
      fun hall => ⟨rfl, fun p _ => hall _ _⟩⟩

/-- The conformance test against the documents. If the header is the one that
`generate_kat_header.py` prints for some documents with one group for each parameter set and
function, and their values have the sizes of the parameter sets, then `mlkem_kat.c` is compiled, it
reads no row past its end, and it runs every vector of the documents; and `mlkem_kat_run` returns
`true` exactly if the implementation reproduces all of them: the keys, ciphertexts and secrets of
the documents, and their verdicts on the keys that are to be checked. -/
theorem mlkemKatRun_conforms (docs : Documents τ) (source : Provenance) (text : List Char)
    (impl : ∀ lvl, MlKem lvl) (h : main docs source none = .ok (some text))
    (hgroups : ∀ lvl f, OneGroup docs lvl f) (hne : ∀ lvl f, docs.tests lvl f ≠ [])
    (hsize : ∀ lvl f, Sized docs lvl f (docs.tests lvl f)) :
    Compiles text ∧ ∃ totals ok, katTotals text impl = some totals ∧
      mlkemKatRun text impl = some ok ∧
      totals.run = (sections.map fun p => (docs.tests p.1 p.2).length).sum ∧
      (ok = true ↔ ∀ lvl f, ∀ t ∈ docs.tests lvl f, Conforms docs (impl lvl) t f) := by
  obtain ⟨htable, totals, htotals, hok, hrun, hverdict⟩ := exists_katTotals impl h hgroups hsize
  exact ⟨compiles_of_tabulates (version_of_main h) htable hne, totals, _, htotals, hok,
    hrun, hverdict⟩

end Verdict

/-! ### Documents with values of the right sizes -/

/-- The byte of which a value of a test is made. A ciphertext is twice what the other values are. -/
def cellByte (key : String) (tcId : ℕ) : UInt8 :=
  if key = "c" then UInt8.ofNat tcId + UInt8.ofNat tcId else UInt8.ofNat tcId

/-- A test with the values of this byte. Keys that are even are good. -/
def sizedTest (lvl : Level) (tcId : ℕ) : AcvpTest ℕ :=
  ⟨tcId, ["d", "z", "ek", "dk", "m", "c", "k"].map fun key =>
    (key, hex (List.replicate (Column.size ⟨key, .prompt, key⟩ lvl) (cellByte key tcId))),
    some (UInt8.ofNat tcId % 2 == 0)⟩

/-- The tests of the groups. -/
def sizedIds : Level → KatFunction → List ℕ
  | .mlkem512, .keygen => [1, 2, 3]
  | .mlkem768, .keygen => [4, 5, 6]
  | .mlkem512, .encap => [1, 2, 3]
  | .mlkem512, .decap => [4, 5]
  | .mlkem512, .ekCheck => [6, 7]
  | .mlkem512, .dkCheck => [8, 9]
  | .mlkem768, .encap => [10, 11]
  | .mlkem768, .decap => [12, 13]
  | .mlkem768, .ekCheck => [14, 15]
  | .mlkem768, .dkCheck => [16, 17]

/-- The tests of a parameter set and a function. -/
def sizedTests (lvl : Level) (f : KatFunction) : List (AcvpTest ℕ) :=
  (sizedIds lvl f).map (sizedTest lvl)

/-- One group with some tests for each parameter set and function. -/
def sizedDocuments : Documents ℕ :=
  ⟨samplePair [⟨"ML-KEM-512", none, sizedTests .mlkem512 .keygen⟩,
      ⟨"ML-KEM-768", none, sizedTests .mlkem768 .keygen⟩] (by decide),
    samplePair [⟨"ML-KEM-512", some "encapsulation", sizedTests .mlkem512 .encap⟩,
      ⟨"ML-KEM-512", some "decapsulation", sizedTests .mlkem512 .decap⟩,
      ⟨"ML-KEM-512", some "encapsulationKeyCheck", sizedTests .mlkem512 .ekCheck⟩,
      ⟨"ML-KEM-512", some "decapsulationKeyCheck", sizedTests .mlkem512 .dkCheck⟩,
      ⟨"ML-KEM-768", some "encapsulation", sizedTests .mlkem768 .encap⟩,
      ⟨"ML-KEM-768", some "decapsulation", sizedTests .mlkem768 .decap⟩,
      ⟨"ML-KEM-768", some "encapsulationKeyCheck", sizedTests .mlkem768 .ekCheck⟩,
      ⟨"ML-KEM-768", some "decapsulationKeyCheck", sizedTests .mlkem768 .dkCheck⟩] (by decide)⟩

/-- The tests are where they belong. -/
theorem sizedDocuments_tests (lvl : Level) (f : KatFunction) :
    sizedDocuments.tests lvl f = sizedTests lvl f := by
  cases lvl <;> cases f <;> rfl

/-- They have their expected results. -/
theorem sizedDocuments_expectedOf (lvl : Level) (f : KatFunction) :
    ∀ tcId ∈ sizedIds lvl f,
      (sizedDocuments.pair f).expectedOf tcId = some (sizedTest lvl tcId) := by
  cases lvl <;> cases f <;> simp only [sizedIds, List.forall_mem_cons] <;>
    repeat' first | exact List.forall_mem_nil _ | exact rfl | constructor

/-- A test of the documents. -/
theorem exists_sizedTest {lvl : Level} {f : KatFunction} {t : AcvpTest ℕ}
    (ht : t ∈ sizedDocuments.tests lvl f) :
    ∃ tcId, t = sizedTest lvl tcId ∧
      (sizedDocuments.pair f).expectedOf tcId = some (sizedTest lvl tcId) := by
  rw [sizedDocuments_tests] at ht
  obtain ⟨tcId, hmem, rfl⟩ := List.mem_map.mp ht
  exact ⟨tcId, rfl, sizedDocuments_expectedOf lvl f tcId hmem⟩

/-- The values of a test. -/
theorem sizedTest_bytes (lvl : Level) (tcId : ℕ) {f : KatFunction} {c : Column}
    (hc : c ∈ f.columns) :
    ((sizedTest lvl tcId).fields.get c.key).bind fromhex =
      some (List.replicate (c.size lvl) (cellByte c.key tcId)) := by
  have hget : ∀ c ∈ f.columns, (sizedTest lvl tcId).fields.get c.key =
      some (hex (List.replicate (c.size lvl) (cellByte c.key tcId))) := by
    cases f <;> simp only [KatFunction.columns, List.forall_mem_cons] <;>
      refine ⟨rfl, ?_⟩ <;> try exact List.forall_mem_nil _
    · exact ⟨rfl, rfl, rfl, List.forall_mem_nil _⟩
    · exact ⟨rfl, rfl, rfl, List.forall_mem_nil _⟩
    · exact ⟨rfl, rfl, List.forall_mem_nil _⟩
  rw [hget c hc]
  exact fromhex_hex _

/-- The values that the documents have for a test. -/
theorem sizedDocuments_bytes {lvl : Level} {f : KatFunction} {tcId : ℕ}
    (hexpected : (sizedDocuments.pair f).expectedOf tcId = some (sizedTest lvl tcId)) {c : Column}
    (hc : c ∈ f.columns) : sizedDocuments.bytes f c (sizedTest lvl tcId) =
      some (List.replicate (c.size lvl) (cellByte c.key tcId)) := by
  refine Eq.trans ?_ (sizedTest_bytes lvl tcId hc)
  rw [Documents.bytes]
  cases c.source with
  | prompt => rfl
  | expected => exact congrArg (Option.bind · _) hexpected

/-- The verdict that they have. -/
theorem sizedDocuments_passed {lvl : Level} {f : KatFunction} {tcId : ℕ}
    (hexpected : (sizedDocuments.pair f).expectedOf tcId = some (sizedTest lvl tcId)) :
    sizedDocuments.passed f (sizedTest lvl tcId) = some (UInt8.ofNat tcId % 2 == 0) :=
  congrArg (Option.bind · _) hexpected

/-- The first byte of an array. -/
def firstByte {n : ℕ} (v : Vector UInt8 n) : UInt8 := v.toList.headD 0

/-- An ML-KEM that computes with first bytes only: a ciphertext is the sum of the key and the coins,
which are the secret. Keys that are even are good. -/
def sumMlKem (lvl : Level) : MlKem lvl where
  keypairDerand coins := (0, .replicate _ (firstByte coins), .replicate _ (firstByte coins))
  encDerand pk coins :=
    (0, .replicate _ (firstByte pk + firstByte coins), .replicate _ (firstByte coins))
  dec ct sk := (0, .replicate _ (firstByte ct - firstByte sk))
  checkPk pk := if firstByte pk % 2 = 0 then 0 else -1
  checkSk sk := if firstByte sk % 2 = 0 then 0 else -1

/-- The first byte of an array of equal bytes. -/
theorem firstByte_replicate {n : ℕ} (hn : n ≠ 0) (b : UInt8) :
    firstByte (Vector.replicate n b) = b := by
  obtain ⟨n, rfl⟩ := Nat.exists_eq_succ_of_ne_zero hn
  rw [firstByte, Vector.toList_replicate]
  rfl

/-- No array is empty. -/
theorem publicKeyBytes_ne_zero (lvl : Level) : lvl.publicKeyBytes ≠ 0 := by
  cases lvl <;> decide

theorem secretKeyBytes_ne_zero (lvl : Level) : lvl.secretKeyBytes ≠ 0 := by
  cases lvl <;> decide

theorem ciphertextBytes_ne_zero (lvl : Level) : lvl.ciphertextBytes ≠ 0 := by
  cases lvl <;> decide

/-- It reproduces the documents. -/
theorem conforms_sumMlKem {lvl : Level} {f : KatFunction} {t : AcvpTest ℕ}
    (ht : t ∈ sizedDocuments.tests lvl f) : Conforms sizedDocuments (sumMlKem lvl) t f := by
  obtain ⟨tcId, rfl, hexpected⟩ := exists_sizedTest ht
  have hcell {c : Column} (hc : c ∈ f.columns) : sizedDocuments.bytes f c (sizedTest lvl tcId) =
      some (Vector.replicate (c.size lvl) (cellByte c.key tcId)).toList :=
    (sizedDocuments_bytes hexpected hc).trans (congrArg some Vector.toList_replicate.symm)
  have hpk := firstByte_replicate (publicKeyBytes_ne_zero lvl) (UInt8.ofNat tcId)
  have hsk := firstByte_replicate (secretKeyBytes_ne_zero lvl) (UInt8.ofNat tcId)
  have hverdict {n : ℕ} {key : Vector UInt8 n} (hkey : firstByte key = UInt8.ofNat tcId) :
      (if firstByte key % 2 = 0 then (0 : ℤ) else -1) = 0 ↔
        (UInt8.ofNat tcId % 2 == 0) = true := by
    rw [hkey, beq_iff_eq]
    split <;> simp [*]
  -- All bytes of a value are the same, so that one stands for all.
  cases f with
  | keygen =>
    refine ⟨_, _, _, _, hcell (by simp [KatFunction.columns]),
      hcell (by simp [KatFunction.columns]), hcell (by simp [KatFunction.columns]),
      hcell (by simp [KatFunction.columns]), ?_⟩
    have hcoins : firstByte (Vector.replicate symBytes (UInt8.ofNat tcId) ++
        Vector.replicate symBytes (UInt8.ofNat tcId)) = UInt8.ofNat tcId := by
      rw [firstByte, Vector.toList_append, Vector.toList_replicate]
      rfl
    show (0, Vector.replicate _ (firstByte (_ ++ _)), Vector.replicate _ (firstByte (_ ++ _))) = _
    exact congrArg (fun b => ((0 : ℤ), Vector.replicate _ b, Vector.replicate _ b)) hcoins
  | encap =>
    refine ⟨_, _, _, _, hcell (by simp [KatFunction.columns]),
      hcell (by simp [KatFunction.columns]), hcell (by simp [KatFunction.columns]),
      hcell (by simp [KatFunction.columns]), ?_⟩
    have hm : firstByte (Vector.replicate symBytes (UInt8.ofNat tcId)) = UInt8.ofNat tcId :=
      firstByte_replicate (by decide) _
    exact congrArg₂ (fun a b => ((0 : ℤ), Vector.replicate _ (a + b), Vector.replicate _ b)) hpk hm
  | decap =>
    refine ⟨_, _, _, hcell (by simp [KatFunction.columns]), hcell (by simp [KatFunction.columns]),
      hcell (by simp [KatFunction.columns]), ?_⟩
    have hct := firstByte_replicate (ciphertextBytes_ne_zero lvl)
      (UInt8.ofNat tcId + UInt8.ofNat tcId)
    refine (congrArg₂ (fun a b => ((0 : ℤ), Vector.replicate _ (a - b))) hct hsk).trans ?_
    exact congrArg (fun b => ((0 : ℤ), Vector.replicate _ b)) (UInt8.add_sub_cancel ..)
  | ekCheck =>
    exact ⟨_, _, hcell (by simp [KatFunction.columns]),
      sizedDocuments_passed hexpected, hverdict hpk⟩
  | dkCheck =>
    exact ⟨_, _, hcell (by simp [KatFunction.columns]),
      sizedDocuments_passed hexpected, hverdict hsk⟩

/-- The documents have what a header needs. -/
theorem sizedDocuments_ok : (∃ text, main sizedDocuments sampleProvenance none = .ok (some text)) ∧
    (∀ lvl f, OneGroup sizedDocuments lvl f) ∧
    ∀ lvl f, Sized sizedDocuments lvl f (sizedDocuments.tests lvl f) := by
  refine ⟨exists_main (fun lvl f => ⟨fun c hc => ⟨c.size lvl, fun t ht => ?_⟩, fun _ t ht => ?_⟩)
    (by decide), fun lvl f => oneGroup_of_length ?_, fun lvl f c hc t ht bytes hbytes => ?_⟩
  · obtain ⟨tcId, rfl, hexpected⟩ := exists_sizedTest ht
    exact ⟨_, sizedDocuments_bytes hexpected hc, List.length_replicate⟩
  · obtain ⟨tcId, rfl, hexpected⟩ := exists_sizedTest ht
    rw [sizedDocuments_passed hexpected, Option.isSome_some]
  · cases lvl <;> cases f <;> rfl
  · obtain ⟨tcId, rfl, hexpected⟩ := exists_sizedTest ht
    rw [sizedDocuments_bytes hexpected hc, Option.some.injEq] at hbytes
    rw [← hbytes, List.length_replicate]

/-- It passes, and the same ML-KEM with a check that accepts every public key does not. -/
theorem mlkemKatRun_conforms_sum :
    let acceptsAll (lvl : Level) : MlKem lvl := { sumMlKem lvl with checkPk := fun _ => 0 }
    ∃ text totals, main sizedDocuments sampleProvenance none = .ok (some text) ∧
      katTotals text sumMlKem = some totals ∧ totals.run = 23 ∧
      mlkemKatRun text sumMlKem = some true ∧ mlkemKatRun text acceptsAll = some false := by
  intro acceptsAll
  obtain ⟨⟨text, htext⟩, hgroups, hsize⟩ := sizedDocuments_ok
  have hne : ∀ lvl f, sizedDocuments.tests lvl f ≠ [] := by
    intro lvl f
    rw [sizedDocuments_tests]
    cases lvl <;> cases f <;> exact List.cons_ne_nil _ _
  obtain ⟨-, totals, ok, htotals, hrun, hcount, hverdict⟩ := mlkemKatRun_conforms sizedDocuments
    sampleProvenance text sumMlKem htext hgroups hne hsize
  obtain ⟨-, -, ok', -, hrun', -, hverdict'⟩ := mlkemKatRun_conforms sizedDocuments
    sampleProvenance text acceptsAll htext hgroups hne hsize
  refine ⟨text, totals, htext, htotals, hcount, ?_, ?_⟩
  · rw [hrun, hverdict.mpr fun lvl f t ht => conforms_sumMlKem ht]
  · rw [hrun', Option.some.injEq, Bool.eq_false_iff, Ne, hverdict']
    intro hall
    -- The key of the test 7 is odd.
    obtain ⟨key, passed, -, hpassed, hcheck⟩ := hall .mlkem512 .ekCheck (sizedTest .mlkem512 7)
      (List.mem_cons_of_mem _ List.mem_cons_self)
    have hodd : sizedDocuments.passed .ekCheck (sizedTest .mlkem512 7) = some false := rfl
    cases hpassed.symm.trans hodd
    cases hcheck.mp rfl

end PqcIot.KatHeader
