import Mathlib.Data.List.ProdSigma
import PqcIot.Testing.KatTables

/-!
# The vectors of the header

Which of the vectors of the documents are in the header. `collect` assigns the rows of a group to
its parameter set and function, so the last group replaces the earlier ones, and where there is
none, nothing is printed (`header_faithful_iff`).
-/

namespace PqcIot.KatHeader

open Effects Text Text.C

/-! ## The vectors of the documents -/

section Vectors

variable {τ : Type} [DecidableEq τ]

/-- The documents of a function. -/
def Documents.pair (docs : Documents τ) : KatFunction → DocumentPair τ
  | .keygen => docs.keygen
  | .encap | .decap | .ekCheck | .dkCheck => docs.encapDecap

/-- A group belongs to a parameter set and a function. -/
def TestGroup.Belongs (group : TestGroup τ) (lvl : Level) (f : KatFunction) : Prop :=
  levelNames.get group.parameterSet = some lvl ∧
    (f = .keygen ∨ group.function.bind functionNames.get = some f)

instance (group : TestGroup τ) (lvl : Level) (f : KatFunction) :
    Decidable (group.Belongs lvl f) := by
  unfold TestGroup.Belongs
  infer_instance

variable (docs : Documents τ) (lvl : Level) (f : KatFunction)

/-- The groups of a parameter set and a function. -/
def Documents.groups : List (TestGroup τ) :=
  (docs.pair f).prompt.filter fun group => group.Belongs lvl f

/-- The prompts of a parameter set and a function. -/
def Documents.tests : List (AcvpTest τ) := (docs.groups lvl f).flatMap TestGroup.tests

/-- The expected result with a `tcId`. -/
def DocumentPair.expectedOf (pair : DocumentPair τ) (tcId : τ) : Option (AcvpTest τ) :=
  pair.expected.flatten.find? fun test => test.tcId = tcId

/-- The bytes of a test in a column. -/
def Documents.bytes (c : Column) (t : AcvpTest τ) : Option (List UInt8) :=
  let source := match c.source with
    | .prompt => some t
    | .expected => (docs.pair f).expectedOf t.tcId
  source.bind fun test => (test.fields.get c.key).bind fromhex

/-- The verdict on a test. -/
def Documents.passed (t : AcvpTest τ) : Option Bool :=
  ((docs.pair f).expectedOf t.tcId).bind AcvpTest.testPassed

/-- Every test has its fields, those of a column have one length, and there are the verdicts. -/
structure WellFormed : Prop where
  bytes : ∀ c ∈ f.columns, ∃ width, ∀ t ∈ docs.tests lvl f,
    ∃ bytes, docs.bytes f c t = some bytes ∧ bytes.length = width
  passed : f.hasVerdict = true → ∀ t ∈ docs.tests lvl f, (docs.passed f t).isSome = true

/-- One group has all the tests, and it is the last one. -/
def OneGroup : Prop :=
  ∃ earlier last, docs.groups lvl f = earlier ++ [last] ∧ ∀ group ∈ earlier, group.tests = []

end Vectors

/-! ## The vectors of the header -/

/-- The number for which a macro stands. -/
def countOf (text name : List Char) : Option ℕ :=
  match definitions text name with
  | [[.word w]] => integerConstant w
  | _ => none

/-- The rows of an array. Without rows there is no array. -/
def rowsOf (text name : List Char) : Option (List (List UInt8)) :=
  match (arrays text).filter fun a => a.name = name with
  | [] => some []
  | [a] => a.rows
  | _ => none

/-- The bytes of an array. Without bytes there is no array. -/
def bytesOf (text name : List Char) : Option (List UInt8) :=
  match (arrays text).filter fun a => a.name = name with
  | [] => some []
  | [a] => a.bytes
  | _ => none

section Faithful

variable {τ : Type} [DecidableEq τ] (docs : Documents τ) (text : List Char)

/-- The count and the arrays of a parameter set and a function are those of these tests, in this
order. -/
structure Tabulates (lvl : Level) (f : KatFunction) (tests : List (AcvpTest τ)) : Prop where
  count : countOf text (countName lvl f) = some tests.length
  rows : ∀ c ∈ f.columns, ∃ rows, rowsOf text (arrayName lvl f c.name) = some rows ∧
    List.Forall₂ (fun t bytes => docs.bytes f c t = some bytes) tests rows
  flags : f.hasVerdict = true → ∃ flags, bytesOf text (arrayName lvl f "valid") = some flags ∧
    List.Forall₂ (fun t flag => ∃ passed, docs.passed f t = some passed ∧ flag = flagByte passed)
      tests flags

/-- The header has a row for each prompt, and nothing else. -/
def Faithful : Prop :=
  (∀ lvl f, ∃ tests, tests.Perm (docs.tests lvl f) ∧ Tabulates docs text lvl f tests) ∧
    ∀ a ∈ arrays text, ∃ lvl f, ∃ slot ∈ f.slots, a.name = arrayName lvl f slot

end Faithful

/-! ## Names -/

/-- Among parts of which only one has elements of a kind, that one has them all. -/
theorem filter_flatMap_of_unique {ι α : Type} {l : List ι} (hl : l.Nodup) {i : ι} (hi : i ∈ l)
    {g : ι → List α} {p : α → Bool} (h : ∀ j ∈ l, j ≠ i → ∀ a ∈ g j, p a = false) :
    (l.flatMap g).filter p = (g i).filter p := by
  induction l with
  | nil => cases hi
  | cons j l ih =>
    rw [List.nodup_cons] at hl
    rw [List.forall_mem_cons] at h
    rw [List.flatMap_cons, List.filter_append]
    rcases List.mem_cons.mp hi with rfl | hi
    · have hrest : (l.flatMap g).filter p = [] := by
        rw [List.filter_eq_nil_iff]
        intro a ha
        obtain ⟨j, hj, ha⟩ := List.mem_flatMap.mp ha
        have hne : j ≠ i := fun heq => hl.1 (heq ▸ hj)
        simp [h.2 j hj hne a ha]
      rw [hrest, List.append_nil]
    · have hne : j ≠ i := fun heq => hl.1 (heq ▸ hi)
      have hfirst : (g j).filter p = [] := by
        rw [List.filter_eq_nil_iff]
        intro a ha
        simp [h.1 hne a ha]
      rw [hfirst, List.nil_append, ih hl.2 hi h.2]

/-- The sections of the header. -/
def sections : List (Level × KatFunction) := levels ×ˢ functions

/-- There is a section for each parameter set and function. -/
theorem mem_sections (p : Level × KatFunction) : p ∈ sections := by
  obtain ⟨lvl, f⟩ := p
  cases lvl <;> cases f <;> decide

/-- There is one of each. -/
theorem nodup_sections : sections.Nodup := by decide

/-- The columns of the sections. -/
def slots : List ((Level × KatFunction) × String) :=
  sections.flatMap fun p => p.2.slots.map fun slot => (p, slot)

/-- No two sections have a macro of the same name. -/
theorem nodup_countNames : (sections.map fun p => countName p.1 p.2).Nodup := by decide

/-- No two arrays of the header have the same name. -/
theorem nodup_arrayNames : (slots.map fun s => arrayName s.1.1 s.1.2 s.2).Nodup := by decide

/-- Each slot of a function is one of the header's. -/
theorem mem_slots {lvl : Level} {f : KatFunction} {slot : String} (h : slot ∈ f.slots) :
    ((lvl, f), slot) ∈ slots :=
  List.mem_flatMap.mpr ⟨(lvl, f), mem_sections _, List.mem_map_of_mem h⟩

/-- The name of a macro determines its section. -/
theorem countName_inj {lvl lvl' : Level} {f f' : KatFunction}
    (h : countName lvl f = countName lvl' f') : (lvl, f) = (lvl', f') :=
  List.inj_on_of_nodup_map nodup_countNames (mem_sections _) (mem_sections _) h

/-- The name of an array determines its section and its slot. -/
theorem arrayName_inj {lvl lvl' : Level} {f f' : KatFunction} {slot slot' : String}
    (hslot : slot ∈ f.slots) (hslot' : slot' ∈ f'.slots)
    (h : arrayName lvl f slot = arrayName lvl' f' slot') : (lvl, f) = (lvl', f') ∧ slot = slot' :=
  Prod.ext_iff.mp (List.inj_on_of_nodup_map nodup_arrayNames (mem_slots hslot) (mem_slots hslot') h)

/-- The names of the columns of a function differ. -/
theorem nodup_columns (f : KatFunction) : (f.columns.map Column.name).Nodup := by
  cases f <;> decide

/-- No column is called `valid`. -/
theorem name_ne_valid {f : KatFunction} {c : Column} (hc : c ∈ f.columns) : c.name ≠ "valid" := by
  have hall : ∀ c ∈ f.columns, c.name ≠ "valid" := by cases f <;> decide
  exact hall c hc

/-! ## Reading the header -/

/-- Going over the parameter sets and over the functions in each is going over the sections. -/
theorem flatMap_sections {α : Type} (g : Level → KatFunction → List α) :
    (levels.flatMap fun lvl => functions.flatMap (g lvl)) = sections.flatMap fun p =>
      g p.1 p.2 := by
  show _ = (List.product levels functions).flatMap _
  rw [List.product, List.flatMap_assoc]
  simp only [List.flatMap_map]

section Read

variable {source : Provenance} {text : List Char} {data : Data} {lvl : Level} {f : KatFunction}
  {rows : List Row}

/-- The array of a table has the name it was given. -/
theorem name_of_mem_rowsArrays {name : List Char} {table : List (List UInt8)} {a : ArrayDef}
    (h : a ∈ rowsArrays name table) : a.name = name := by
  cases table with
  | nil => cases h
  | cons first table =>
    rw [List.mem_singleton.mp h]
    rfl

/-- So has that of the verdicts. -/
theorem name_of_mem_flagArrays {name : List Char} {flags : List Bool} {a : ArrayDef}
    (h : a ∈ flagArrays name flags) : a.name = name := by
  rw [flagArrays] at h
  split at h
  · cases h
  · rw [List.mem_singleton.mp h]
    rfl

/-- The names of the arrays of a function are those of its columns. -/
theorem name_of_mem_functionArrays {a : ArrayDef} (h : a ∈ functionArrays lvl f rows) :
    ∃ slot ∈ f.slots, a.name = arrayName lvl f slot := by
  rw [functionArrays, List.mem_append] at h
  rcases h with h | h
  · obtain ⟨c, hc, ha⟩ := List.mem_flatMap.mp h
    exact ⟨c.name, KatFunction.name_mem_slots hc, name_of_mem_rowsArrays ha⟩
  · split at h
    · next hverdict =>
      exact ⟨"valid", KatFunction.valid_mem_slots hverdict, name_of_mem_flagArrays h⟩
    · cases h

/-- The arrays of a section are named by its slots. -/
theorem name_of_mem_dataArrays {a : ArrayDef} (h : a ∈ dataArrays data lvl f) :
    ∃ slot ∈ f.slots, a.name = arrayName lvl f slot := by
  rw [dataArrays] at h
  split at h
  · exact name_of_mem_functionArrays h
  · cases h

/-- The macro of a section has the name of its count. -/
theorem name_of_mem_dataMacros {m : List Char × List Token} (h : m ∈ dataMacros data lvl f) :
    m.1 = countName lvl f := by
  rw [dataMacros] at h
  split at h
  · rw [List.mem_singleton.mp h]
  · cases h

/-- The count that is read is the number of rows. -/
theorem countOf_eq (hmacros : macros text = preambleMacros source ++
      levels.flatMap fun lvl => functions.flatMap (dataMacros data lvl)) :
    countOf text (countName lvl f) = (data lvl f).map List.length := by
  have hname : ∀ m ∈ preambleMacros source, ¬ m.1 = countName lvl f := by
    have hall : "ACVP_VECTORS_H".toList ≠ countName lvl f ∧
      "ACVP_VERSION".toList ≠ countName lvl f := by
      cases lvl <;> cases f <;> decide
    simpa [preambleMacros] using hall
  have hfilter : (macros text).filter (fun m => m.1 = countName lvl f) = dataMacros data lvl f := by
    rw [hmacros, List.filter_append, List.filter_eq_nil_iff.mpr (by simpa using hname),
      List.nil_append, flatMap_sections,
      filter_flatMap_of_unique nodup_sections (mem_sections (lvl, f))]
    · rw [List.filter_eq_self]
      intro m hm
      simpa using name_of_mem_dataMacros hm
    · intro q _ hne m hm
      have hm' := name_of_mem_dataMacros hm
      simpa [hm'] using fun heq => hne (countName_inj heq)
  rw [countOf, definitions, hfilter, dataMacros]
  cases data lvl f with
  | none => rfl
  | some rows => exact integerConstant_toDigits _

section Arrays

variable (harrays : arrays text = levels.flatMap fun lvl => functions.flatMap (dataArrays data lvl))
include harrays

/-- The arrays with the name of a column are among those of its function. -/
theorem filter_arrays {slot : String} (hslot : slot ∈ f.slots) :
    (arrays text).filter (fun a => a.name = arrayName lvl f slot) =
      (dataArrays data lvl f).filter fun a => a.name = arrayName lvl f slot := by
  rw [harrays, flatMap_sections, filter_flatMap_of_unique nodup_sections (mem_sections (lvl, f))]
  intro q _ hne a ha
  obtain ⟨slot', hslot', ha⟩ := name_of_mem_dataArrays ha
  simpa [ha] using fun heq => hne (arrayName_inj hslot' hslot heq).1

/-- The rows of a column are read. -/
theorem rowsOf_eq (hrect : Rectangular data lvl f) (hdata : data lvl f = some rows) {c : Column}
    (hc : c ∈ f.columns) : rowsOf text (arrayName lvl f c.name) = some (values rows c.name) := by
  have hslot := KatFunction.name_mem_slots hc
  have hcolumns : (f.columns.flatMap fun c => rowsArrays (arrayName lvl f c.name)
      (values rows c.name)).filter (fun a => a.name = arrayName lvl f c.name) =
        rowsArrays (arrayName lvl f c.name) (values rows c.name) := by
    rw [filter_flatMap_of_unique (nodup_columns f).of_map hc]
    · rw [List.filter_eq_self]
      intro a ha
      simpa using name_of_mem_rowsArrays ha
    · intro c' hc' hne a ha
      have hname := name_of_mem_rowsArrays ha
      refine decide_eq_false fun heq => hne ?_
      have hslots := arrayName_inj (KatFunction.name_mem_slots hc') hslot (hname.symm.trans heq)
      exact List.inj_on_of_nodup_map (nodup_columns f) hc' hc hslots.2
  have hflags : ∀ a ∈
    (if f.hasVerdict then flagArrays (arrayName lvl f "valid") (verdicts rows) else []),
      ¬ a.name = arrayName lvl f c.name := by
    intro a ha heq
    split at ha
    · next hverdict =>
      have hname := name_of_mem_flagArrays ha
      have hslots := arrayName_inj (KatFunction.valid_mem_slots hverdict) hslot
        (hname.symm.trans heq)
      exact name_ne_valid hc hslots.2.symm
    · cases ha
  have hfilter : (arrays text).filter (fun a => a.name = arrayName lvl f c.name) =
      rowsArrays (arrayName lvl f c.name) (values rows c.name) := by
    rw [filter_arrays harrays hslot, dataArrays, hdata]
    dsimp only
    rw [functionArrays, List.filter_append, hcolumns,
      List.filter_eq_nil_iff.mpr (by simpa using hflags), List.append_nil]
  rw [rowsOf, hfilter]
  -- Without rows, there is no array.
  have hsame := hrect rows hdata c hc
  cases hvalues : values rows c.name with
  | nil => rfl
  | cons first table =>
    rw [hvalues] at hsame
    exact ArrayDef.rows_ofRows _ fun r hr => hsame r hr first List.mem_cons_self

/-- The verdicts are read. -/
theorem bytesOf_eq (hdata : data lvl f = some rows) (hverdict : f.hasVerdict = true) :
    bytesOf text (arrayName lvl f "valid") = some ((verdicts rows).map flagByte) := by
  have hslot := KatFunction.valid_mem_slots hverdict
  -- No table of bytes has the name of the flags.
  have hcolumns : ∀ a ∈ f.columns.flatMap fun c => rowsArrays (arrayName lvl f c.name)
      (values rows c.name), ¬ a.name = arrayName lvl f "valid" := by
    intro a ha heq
    obtain ⟨c, hc, ha⟩ := List.mem_flatMap.mp ha
    have hname := name_of_mem_rowsArrays ha
    have hslots := arrayName_inj (KatFunction.name_mem_slots hc) hslot (hname.symm.trans heq)
    exact name_ne_valid hc hslots.2
  have hflags : (flagArrays (arrayName lvl f "valid") (verdicts rows)).filter
      (fun a => a.name = arrayName lvl f "valid") =
        flagArrays (arrayName lvl f "valid") (verdicts rows) := by
    rw [List.filter_eq_self]
    intro a ha
    simpa using name_of_mem_flagArrays ha
  have hfilter : (arrays text).filter (fun a => a.name = arrayName lvl f "valid") =
      flagArrays (arrayName lvl f "valid") (verdicts rows) := by
    rw [filter_arrays harrays hslot, dataArrays, hdata]
    dsimp only
    rw [functionArrays, if_pos hverdict, List.filter_append, hflags,
      List.filter_eq_nil_iff.mpr (by simpa using hcolumns), List.nil_append]
  rw [bytesOf, hfilter, flagArrays]
  cases verdicts rows with
  | nil => rfl
  | cons flag flags => exact ArrayDef.bytes_ofBytes _ _

end Arrays

end Read

/-! ## Collecting the rows -/

section Collect

variable {τ : Type} [DecidableEq τ] {docs : Documents τ} {lvl : Level} {f : KatFunction}
  {t : AcvpTest τ} {r : Row}

/-- A lookup that does not raise. -/
theorem lookup_eq_ok {κ α : Type} [DecidableEq κ] {d : Dict κ α} {key : κ} {a : α} :
    lookup d key = .ok a ↔ d.get key = some a := by
  rw [lookup]
  cases d.get key <;> simp

/-- The index finds the expected result with a `tcId`. -/
theorem get_byTc (pair : DocumentPair τ) (tcId : τ) :
    pair.byTc.get tcId = pair.expectedOf tcId := by
  have hkeys : Dict.KeysDiffer (pair.expected.flatten.map fun test => (test.tcId, test)) := by
    rw [Dict.KeysDiffer, List.map_map]
    exact pair.nodup_expected
  rw [DocumentPair.byTc, Dict.ofItems_eq hkeys, DocumentPair.expectedOf]
  clear hkeys
  induction pair.expected.flatten with
  | nil => rfl
  | cons test tests ih =>
    rw [List.map_cons, Dict.get_cons, List.find?_cons]
    by_cases heq : test.tcId = tcId <;> simp [heq, ih]

/-- The test that a column is read from is that of the documents. -/
theorem sourceTest_eq_ok {source : Source} {test : AcvpTest τ} :
    sourceTest (docs.pair f).byTc t source = .ok test ↔
      (match source with
        | .prompt => some t
        | .expected => (docs.pair f).expectedOf t.tcId) = some test := by
  cases source with
  | prompt => simp [sourceTest]
  | expected => rw [sourceTest, lookup_eq_ok, get_byTc]

/-- The bytes of a cell are those of the documents. -/
theorem cell_eq_ok {c : Column} {bytes : List UInt8} :
    cell (docs.pair f).byTc t c = .ok bytes ↔ docs.bytes f c t = some bytes := by
  rw [cell, bind_eq_ok, Documents.bytes, Option.bind_eq_some_iff]
  refine exists_congr fun test => and_congr sourceTest_eq_ok ?_
  rw [bind_eq_ok, Option.bind_eq_some_iff]
  refine exists_congr fun digits => and_congr lookup_eq_ok ?_
  cases fromhex digits with
  | none => simp
  | some value => exact ⟨fun h => by cases h; rfl, fun h => by cases h; rfl⟩

/-- A verdict that is looked up is the one in the documents. -/
theorem verdict_eq_ok {passed : Bool} :
    verdict (docs.pair f).byTc t = .ok passed ↔ docs.passed f t = some passed := by
  rw [verdict, bind_eq_ok, Documents.passed, Option.bind_eq_some_iff]
  refine exists_congr fun test => and_congr sourceTest_eq_ok ?_
  cases test.testPassed with
  | none => simp
  | some value => exact ⟨fun h => by cases h; rfl, fun h => by cases h; rfl⟩

/-- The items of a row, by column. -/
theorem items_of_cells {columns : List Column} {items : List (String × List UInt8)}
    (h : List.Forall₂ (fun c item => (Prod.mk c.name <$> cell (docs.pair f).byTc t c) = .ok item)
      columns items) :
    items.map Prod.fst = columns.map Column.name ∧
      ∀ c ∈ columns, ∃ bytes, docs.bytes f c t = some bytes ∧ (c.name, bytes) ∈ items := by
  induction h with
  | nil => exact ⟨rfl, List.forall_mem_nil _⟩
  | @cons c item columns items hc _ ih =>
    obtain ⟨bytes, hbytes, rfl⟩ := map_eq_ok.mp hc
    refine ⟨by rw [List.map_cons, List.map_cons, ih.1],
      List.forall_mem_cons.mpr ⟨?_, fun c' hc' => ?_⟩⟩
    · exact ⟨bytes, cell_eq_ok.mp hbytes, List.mem_cons_self⟩
    · obtain ⟨bytes', hbytes', hmem⟩ := ih.2 c' hc'
      exact ⟨bytes', hbytes', List.mem_cons_of_mem _ hmem⟩

/-- The row of a test has its bytes and the verdict on it. -/
theorem row_ok (h : row (docs.pair f).byTc f t = .ok r) :
    (∀ c ∈ f.columns, docs.bytes f c t = some ((r.bytes.get c.name).getD []) ∧
      (r.bytes.get c.name).isSome = true) ∧
      (f.hasVerdict = true → docs.passed f t = some (r.valid.getD false) ∧
        r.valid.isSome = true) := by
  obtain ⟨cells, hcells, h⟩ := bind_eq_ok.mp h
  obtain ⟨valid, hvalid, h⟩ := bind_eq_ok.mp h
  cases h
  rw [mapM_eq_ok] at hcells
  refine ⟨fun c hc => ?_, fun hverdict => ?_⟩
  · -- The columns have different names, so that each is found.
    obtain ⟨hkeys, hmem⟩ := items_of_cells hcells
    have hdiffer : Dict.KeysDiffer cells := by
      rw [Dict.KeysDiffer, hkeys]
      exact nodup_columns f
    obtain ⟨bytes, hbytes, hitem⟩ := hmem c hc
    have hget := (Dict.mem_iff_get hdiffer).mp hitem
    dsimp only
    rw [hget]
    exact ⟨hbytes, rfl⟩
  · rw [validCell, if_pos hverdict, map_eq_ok] at hvalid
    obtain ⟨passed, hpassed, rfl⟩ := hvalid
    exact ⟨verdict_eq_ok.mp hpassed, rfl⟩

/-- A test with all its fields has a row. -/
theorem exists_row (hbytes : ∀ c ∈ f.columns, ∃ bytes, docs.bytes f c t = some bytes)
    (hpassed : f.hasVerdict = true → (docs.passed f t).isSome = true) :
    ∃ r, row (docs.pair f).byTc f t = .ok r := by
  have hcells : ∀ c ∈ f.columns,
      ∃ item, (Prod.mk c.name <$> cell (docs.pair f).byTc t c) = .ok item := by
    intro c hc
    obtain ⟨bytes, hbytes⟩ := hbytes c hc
    exact ⟨(c.name, bytes), map_eq_ok.mpr ⟨bytes, cell_eq_ok.mpr hbytes, rfl⟩⟩
  have hvalid : ∃ valid, validCell (docs.pair f).byTc f t = .ok valid := by
    rw [validCell]
    split
    · next hverdict =>
      obtain ⟨passed, hpassed⟩ := Option.isSome_iff_exists.mp (hpassed hverdict)
      exact ⟨some passed, map_eq_ok.mpr ⟨passed, verdict_eq_ok.mpr hpassed, rfl⟩⟩
    · exact ⟨none, rfl⟩
  obtain ⟨cells, hcells⟩ := exists_mapM hcells
  obtain ⟨valid, hvalid⟩ := hvalid
  exact ⟨⟨cells, valid⟩, bind_eq_ok.mpr ⟨cells, hcells, bind_eq_ok.mpr ⟨valid, hvalid, rfl⟩⟩⟩

/-- What a parameter set and a function have after a loop of `collect`: the rows of the last of
their groups, or what they had before. -/
def Collected (expected : Dict τ (AcvpTest τ)) (groups : List (TestGroup τ)) (f : KatFunction)
    (before after : Option (List Row)) : Prop :=
  (groups = [] ∧ after = before) ∨ ∃ earlier last rows, groups = earlier ++ [last] ∧
    last.tests.mapM (row expected f) = .ok rows ∧ after = some rows

/-- What was collected last is there. -/
theorem Data.set_self (data : Data) (lvl : Level) (f : KatFunction) (rows : List Row) :
    data.set lvl f rows lvl f = some rows := by
  rw [Data.set, Function.update_self, Function.update_self]

/-- Other sections are as they were. -/
theorem Data.set_of_ne (data : Data) {lvl lvl' : Level} {f f' : KatFunction} (rows : List Row)
    (hne : ¬ (lvl' = lvl ∧ f' = f)) : data.set lvl' f' rows lvl f = data lvl f := by
  rw [Data.set]
  by_cases hlvl : lvl = lvl'
  · subst hlvl
    rw [Function.update_self, Function.update_of_ne fun heq => hne ⟨rfl, heq.symm⟩]
  · rw [Function.update_of_ne hlvl]

section Loop

variable {expected : Dict τ (AcvpTest τ)} {function : TestGroup τ → Option KatFunction}
  {group : TestGroup τ} {data data' : Data}

/-- A turn assigns the rows of the group. -/
theorem collectGroup_of_belongs
    (hgroup : levelNames.get group.parameterSet = some lvl ∧ function group = some f) :
    collectGroup none expected function data group =
      group.tests.mapM (row expected f) >>= fun rows => pure (data.set lvl f rows) := by
  rw [collectGroup, hgroup.1, hgroup.2]
  rfl

/-- A turn leaves the other parameter sets and functions alone. -/
theorem collectGroup_of_not_belongs
    (hgroup : ¬ (levelNames.get group.parameterSet = some lvl ∧ function group = some f))
    (h : collectGroup none expected function data group = .ok data') :
    data' lvl f = data lvl f := by
  rw [collectGroup] at h
  split at h
  · next lvl' f' hlvl hf =>
    obtain ⟨rows, -, h⟩ := bind_eq_ok.mp h
    cases h
    refine data.set_of_ne rows ?_
    rintro ⟨rfl, rfl⟩
    exact hgroup ⟨hlvl, hf⟩
  · cases h
    rfl

/-- The loops of `collect`. -/
theorem collected_of_foldlM {groups : List (TestGroup τ)}
    (h : groups.foldlM (collectGroup none expected function) data = .ok data') (lvl : Level)
    (f : KatFunction) :
    Collected expected (groups.filter fun group =>
      levelNames.get group.parameterSet = some lvl ∧ function group = some f) f
        (data lvl f) (data' lvl f) := by
  induction groups generalizing data with
  | nil =>
    cases h
    exact .inl ⟨rfl, rfl⟩
  | cons group groups ih =>
    rw [List.foldlM_cons, bind_eq_ok] at h
    obtain ⟨data₁, hgroup, h⟩ := h
    have hrest := ih h
    by_cases hbelongs : levelNames.get group.parameterSet = some lvl ∧ function group = some f
    · rw [List.filter_cons_of_pos (by simpa using hbelongs)]
      rw [collectGroup_of_belongs hbelongs, bind_eq_ok] at hgroup
      obtain ⟨rows, hrows, hset⟩ := hgroup
      cases hset
      rcases hrest with ⟨hnil, hafter⟩ | ⟨earlier, last, rows', hsplit, hrows', hafter⟩
      · rw [hnil, hafter, Data.set_self]
        exact .inr ⟨[], group, rows, rfl, hrows, rfl⟩
      · -- A later group replaces the rows.
        rw [hsplit]
        exact .inr ⟨group :: earlier, last, rows', rfl, hrows', hafter⟩
    · rw [List.filter_cons_of_neg (by simpa using hbelongs)]
      rwa [collectGroup_of_not_belongs hbelongs hgroup] at hrest

end Loop

/-- Without a group, nothing is collected. -/
theorem Collected.eq_of_nil {expected : Dict τ (AcvpTest τ)} {before after : Option (List Row)}
    (h : Collected expected [] f before after) : after = before := by
  rcases h with ⟨-, h⟩ | ⟨earlier, last, rows, h, -⟩
  · exact h
  · simp at h

/-- None of the functions of the second pair of documents is key generation. -/
theorem functionNames_ne_keygen (name : String) : functionNames.get name ≠ some .keygen := by
  intro h
  have hkeys : Dict.KeysDiffer functionNames := by
    unfold Dict.KeysDiffer
    decide
  have hvalues : ∀ item ∈ functionNames, item.2 ≠ .keygen := by decide
  exact hvalues _ ((Dict.mem_iff_get hkeys).mpr h) rfl

omit [DecidableEq τ] in
/-- The other functions are all in the second pair. -/
theorem Documents.pair_of_ne (docs : Documents τ) (hf : f ≠ .keygen) :
    docs.pair f = docs.encapDecap := by
  cases f with
  | keygen => exact absurd rfl hf
  | encap | decap | ekCheck | dkCheck => rfl

/-- The rows of a parameter set and a function are those of the last of its groups. -/
theorem collected_of_collect {data : Data} (h : collect none docs = .ok data) (lvl : Level)
    (f : KatFunction) :
    Collected (docs.pair f).byTc (docs.groups lvl f) f none (data lvl f) := by
  rw [collect, bind_eq_ok] at h
  obtain ⟨data₁, hfirst, hsecond⟩ := h
  have hkeygen := collected_of_foldlM hfirst lvl f
  have hencapDecap := collected_of_foldlM hsecond lvl f
  by_cases hf : f = .keygen
  · -- The second loop has no group of the function.
    subst hf
    have hnil : (docs.encapDecap.prompt.filter fun group =>
      levelNames.get group.parameterSet = some lvl ∧
        group.function.bind functionNames.get = some .keygen) = [] := by
      rw [List.filter_eq_nil_iff]
      intro group _ hgroup
      obtain ⟨name, -, hname⟩ := Option.bind_eq_some_iff.mp (of_decide_eq_true hgroup).2
      exact functionNames_ne_keygen name hname
    rw [hnil] at hencapDecap
    rw [hencapDecap.eq_of_nil]
    simpa [Documents.groups, Documents.pair, TestGroup.Belongs] using hkeygen
  · -- The first loop has none.
    have hpair := docs.pair_of_ne hf
    have hnil : (docs.keygen.prompt.filter fun group =>
      levelNames.get group.parameterSet = some lvl ∧
        some KatFunction.keygen = some f) = [] := by
      rw [List.filter_eq_nil_iff]
      intro group _ hgroup
      exact hf (Option.some.inj (of_decide_eq_true hgroup).2).symm
    rw [hnil] at hkeygen
    rw [hkeygen.eq_of_nil] at hencapDecap
    simpa [Documents.groups, hpair, TestGroup.Belongs, hf] using hencapDecap

/-- A group whose rows can be made is collected. -/
theorem exists_collectGroup {expected : Dict τ (AcvpTest τ)}
    {function : TestGroup τ → Option KatFunction} {group : TestGroup τ}
    (hrows : ∀ lvl f, levelNames.get group.parameterSet = some lvl → function group = some f →
      ∀ t ∈ group.tests, ∃ r, row expected f t = .ok r) (data : Data) :
    ∃ data', collectGroup none expected function data group = .ok data' := by
  rw [collectGroup]
  split
  · next lvl f hlvl hf =>
    obtain ⟨rows, hrows⟩ := exists_mapM (hrows lvl f hlvl hf)
    exact ⟨_, bind_eq_ok.mpr ⟨rows, hrows, rfl⟩⟩
  · exact ⟨data, rfl⟩

/-- The rows of well-formed documents are collected. -/
theorem exists_collect (hdocs : ∀ lvl f, WellFormed docs lvl f) :
    ∃ data, collect none docs = .ok data := by
  -- A test of the documents has all that a row needs.
  have hrow {lvl : Level} {f : KatFunction} {group : TestGroup τ}
    (hgroup : group ∈ docs.groups lvl f) :
      ∀ t ∈ group.tests, ∃ r, row (docs.pair f).byTc f t = .ok r := by
    intro t ht
    have htest : t ∈ docs.tests lvl f := List.mem_flatMap.mpr ⟨group, hgroup, ht⟩
    refine exists_row (fun c hc => ?_) fun hverdict => (hdocs lvl f).passed hverdict t htest
    obtain ⟨width, hwidth⟩ := (hdocs lvl f).bytes c hc
    obtain ⟨bytes, hbytes, -⟩ := hwidth t htest
    exact ⟨bytes, hbytes⟩
  -- The documents for key generation, then those for the other functions.
  have hfirst : ∀ data, ∀ group ∈ docs.keygen.prompt, ∃ data',
      collectGroup none docs.keygen.byTc (fun _ => some .keygen) data group = .ok data' := by
    intro data group hgroup
    refine exists_collectGroup (fun lvl f hlvl hf => ?_) data
    cases hf
    exact hrow (f := .keygen) (List.mem_filter.mpr ⟨hgroup, decide_eq_true ⟨hlvl, .inl rfl⟩⟩)
  have hsecond : ∀ data, ∀ group ∈ docs.encapDecap.prompt, ∃ data', collectGroup none
      docs.encapDecap.byTc (fun group => group.function.bind functionNames.get) data group =
        .ok data' := by
    intro data group hgroup
    refine exists_collectGroup (fun lvl f hlvl hf => ?_) data
    have hne : f ≠ .keygen := by
      rintro rfl
      obtain ⟨name, -, hname⟩ := Option.bind_eq_some_iff.mp hf
      exact functionNames_ne_keygen name hname
    have hbelongs : group.Belongs lvl f := ⟨hlvl, .inr hf⟩
    have hmem : group ∈ docs.groups lvl f := by
      rw [Documents.groups, docs.pair_of_ne hne, List.mem_filter]
      exact ⟨hgroup, decide_eq_true hbelongs⟩
    have hrow := hrow hmem
    rwa [docs.pair_of_ne hne] at hrow
  obtain ⟨data₁, hdata₁⟩ := exists_foldlM hfirst fun _ _ => none
  obtain ⟨data₂, hdata₂⟩ := exists_foldlM hsecond data₁
  refine ⟨data₂, ?_⟩
  rw [collect, bind_eq_ok]
  exact ⟨data₁, hdata₁, hdata₂⟩

/-! ### The rows of some tests -/

section Rows

variable {tests : List (AcvpTest τ)} {rows : List Row}
  (hrows : List.Forall₂ (fun t r => row (docs.pair f).byTc f t = .ok r) tests rows)
include hrows

/-- A column of the collected rows holds the bytes of the tests, in their order. -/
theorem values_forall₂ {c : Column} (hc : c ∈ f.columns) :
    List.Forall₂ (fun t bytes => docs.bytes f c t = some bytes) tests (values rows c.name) := by
  rw [values, List.forall₂_map_right_iff]
  exact hrows.imp fun t r hr => ((row_ok hr).1 c hc).1

/-- So do the verdicts. -/
theorem verdicts_forall₂ (hverdict : f.hasVerdict = true) :
    List.Forall₂ (fun t passed => docs.passed f t = some passed) tests (verdicts rows) := by
  rw [verdicts, List.forall₂_map_right_iff]
  exact hrows.imp fun t r hr => ((row_ok hr).2 hverdict).1

/-- The rows have their columns. -/
theorem columnOf_eq_ok {c : Column} (hc : c ∈ f.columns) :
    columnOf rows c.name = .ok (values rows c.name) := by
  have hsome := forall_mem_of_forall₂ hrows fun t _ r hr => ((row_ok hr).1 c hc).2
  rw [columnOf, mapM_eq_ok, values, List.forall₂_map_right_iff, List.forall₂_same]
  intro r hr
  obtain ⟨bytes, hbytes⟩ := Option.isSome_iff_exists.mp (hsome r hr)
  rw [lookup_eq_ok, hbytes]
  rfl

/-- Functions with a verdict have one in each row. -/
theorem verdictsOf_eq_ok (hverdict : f.hasVerdict = true) :
    verdictsOf rows = .ok (verdicts rows) := by
  have hsome := forall_mem_of_forall₂ hrows fun t _ r hr => ((row_ok hr).2 hverdict).2
  rw [verdictsOf, mapM_eq_ok, verdicts, List.forall₂_map_right_iff, List.forall₂_same]
  intro r hr
  obtain ⟨passed, hpassed⟩ := Option.isSome_iff_exists.mp (hsome r hr)
  rw [hpassed]
  rfl

/-- The lines of a function are printed if its tables have rows of one length. -/
theorem exists_functionLines (lvl : Level)
    (hsame : ∀ c ∈ f.columns, SameLength (values rows c.name)) :
    ∃ lines, functionLines lvl f rows = .ok lines := by
  have harrays : ∀ c ∈ f.columns,
      ∃ text, (columnOf rows c.name >>= cArray (arrayName lvl f c.name)) = .ok text := by
    intro c hc
    obtain ⟨text, htext⟩ := exists_cArray (arrayName lvl f c.name) (hsame c hc)
    exact ⟨text, bind_eq_ok.mpr ⟨_, columnOf_eq_ok hrows hc, htext⟩⟩
  have hflags : ∃ lines, flagLines lvl f rows = .ok lines := by
    rw [flagLines]
    split
    · next hverdict =>
      exact ⟨_, bind_eq_ok.mpr ⟨_, verdictsOf_eq_ok hrows hverdict, rfl⟩⟩
    · exact ⟨[], rfl⟩
  obtain ⟨arrays, harrays⟩ := exists_mapM harrays
  obtain ⟨flags, hflags⟩ := hflags
  exact ⟨_, bind_eq_ok.mpr ⟨arrays, harrays, bind_eq_ok.mpr ⟨flags, hflags, rfl⟩⟩⟩

end Rows

end Collect

/-! ## Which vectors are in the header -/

section Header

variable {τ : Type} [DecidableEq τ] {docs : Documents τ} {source : Provenance} {text : List Char}

/-- The header of well-formed documents is written. -/
theorem exists_main (hdocs : ∀ lvl f, WellFormed docs lvl f) (hinputs : source.inputs ≠ []) :
    ∃ text, main docs source none = .ok (some text) := by
  obtain ⟨data, hdata⟩ := exists_collect hdocs
  have hlevel : ∀ lvl ∈ levels, ∃ lines, levelLines data lvl = .ok lines := by
    intro lvl _
    rw [levelLines]
    refine Exists.elim (exists_mapM fun f _ => ?_) fun lines hlines =>
      ⟨_, bind_eq_ok.mpr ⟨lines, hlines, rfl⟩⟩
    rcases collected_of_collect hdata lvl f with ⟨-, hnone⟩ | ⟨earlier, last, rows,
      hsplit, hrows, hsome⟩
    · rw [hnone]
      exact ⟨[], rfl⟩
    · rw [hsome]
      rw [mapM_eq_ok] at hrows
      refine exists_functionLines hrows lvl fun c hc => ?_
      -- All the rows of the column have the length that the documents prescribe.
      obtain ⟨width, hwidth⟩ := (hdocs lvl f).bytes c hc
      have hlength : ∀ bytes ∈ values rows c.name, bytes.length = width := by
        refine forall_mem_of_forall₂ (values_forall₂ hrows hc) fun t ht bytes hbytes => ?_
        have htest : t ∈ docs.tests lvl f := by
          rw [Documents.tests, hsplit, List.flatMap_append, List.flatMap_singleton]
          exact List.mem_append_right _ ht
        obtain ⟨bytes', hbytes', hlen⟩ := hwidth t htest
        rw [hbytes, Option.some.injEq] at hbytes'
        rw [hbytes', hlen]
      exact fun r hr r' hr' => (hlength r hr).trans (hlength r' hr').symm
  obtain ⟨lines, hlines⟩ := exists_mapM hlevel
  refine ⟨['\n'].intercalate (preamble source ++ lines.flatten ++
    ["#endif /* ACVP_VECTORS_H */".toList, []]), ?_⟩
  rw [main, if_neg (by simpa using hinputs)]
  exact bind_eq_ok.mpr ⟨data, hdata, bind_eq_ok.mpr ⟨lines, hlines, rfl⟩⟩

/-- The version is defined, as the string that was given. -/
theorem version_of_main (h : main docs source none = .ok (some text)) :
    definitions text "ACVP_VERSION".toList = [[.quoted '"' source.version]] := by
  obtain ⟨data, -, -, hmacros, -⟩ := main_read h
  have hcounts : ((levels.flatMap fun lvl => functions.flatMap (dataMacros data lvl)).filter
      fun m => m.1 = "ACVP_VERSION".toList) = [] := by
    rw [List.filter_eq_nil_iff, flatMap_sections]
    intro m hm
    obtain ⟨p, -, hm⟩ := List.mem_flatMap.mp hm
    have hne : countName p.1 p.2 ≠ "ACVP_VERSION".toList := by
      obtain ⟨lvl, f⟩ := p
      cases lvl <;> cases f <;> decide
    simpa [name_of_mem_dataMacros hm] using hne
  rw [definitions, hmacros, List.filter_append, hcounts, List.append_nil]
  rfl

/-- The count of a parameter set and a function is the size of the last of its groups. -/
theorem countOf_main (h : main docs source none = .ok (some text)) (lvl : Level) (f : KatFunction) :
    countOf text (countName lvl f) =
      (docs.groups lvl f).getLast?.map fun group => group.tests.length := by
  obtain ⟨data, hdata, -, hmacros, -⟩ := main_read h
  rw [countOf_eq hmacros]
  rcases collected_of_collect hdata lvl f with ⟨hnil, hnone⟩ |
    ⟨earlier, last, rows, hsplit, hrows, hsome⟩
  · rw [hnil, hnone]
    rfl
  · rw [hsplit, hsome, List.getLast?_concat, Option.map_some, Option.map_some,
      (mapM_eq_ok.mp hrows).length_eq]

/-- The last group is in the header, with all its vectors in their order. -/
theorem tabulates_last (h : main docs source none = .ok (some text)) {lvl : Level} {f : KatFunction}
    {earlier : List (TestGroup τ)} {last : TestGroup τ}
    (hsplit : docs.groups lvl f = earlier ++ [last]) : Tabulates docs text lvl f last.tests := by
  obtain ⟨data, hdata, hrect, hmacros, harrays⟩ := main_read h
  rcases collected_of_collect hdata lvl f with ⟨hnil, -⟩ |
    ⟨earlier', last', rows, hsplit', hrows, hsome⟩
  · rw [hnil] at hsplit
    simp at hsplit
  · obtain ⟨-, hlast⟩ := List.append_inj' (hsplit.symm.trans hsplit') rfl
    cases hlast
    rw [mapM_eq_ok] at hrows
    refine ⟨?_, fun c hc => ⟨_, rowsOf_eq harrays (hrect lvl f) hsome hc, values_forall₂ hrows hc⟩,
      fun hverdict => ⟨_, bytesOf_eq harrays hsome hverdict, ?_⟩⟩
    · rw [countOf_eq hmacros, hsome, Option.map_some, hrows.length_eq]
    · rw [List.forall₂_map_right_iff]
      exact (verdicts_forall₂ hrows hverdict).imp fun t passed hpassed => ⟨passed, hpassed, rfl⟩

/-- All arrays of the header have names of this form. -/
theorem names_of_main (h : main docs source none = .ok (some text)) :
    ∀ a ∈ arrays text, ∃ lvl f, ∃ slot ∈ f.slots, a.name = arrayName lvl f slot := by
  obtain ⟨data, -, -, -, harrays⟩ := main_read h
  intro a ha
  rw [harrays, flatMap_sections] at ha
  obtain ⟨p, -, ha⟩ := List.mem_flatMap.mp ha
  exact ⟨p.1, p.2, name_of_mem_dataArrays ha⟩

/-- A header with the right count has a group whose predecessors are empty. -/
theorem oneGroup_of_tabulates (h : main docs source none = .ok (some text)) {lvl : Level}
    {f : KatFunction} {tests : List (AcvpTest τ)} (hperm : tests.Perm (docs.tests lvl f))
    (htable : Tabulates docs text lvl f tests) : OneGroup docs lvl f := by
  have hcount := htable.count
  rw [countOf_main h lvl f, hperm.length_eq] at hcount
  rcases List.eq_nil_or_concat' (docs.groups lvl f) with hnil | ⟨earlier, last, hsplit⟩
  · rw [hnil] at hcount
    cases hcount
  · refine ⟨earlier, last, hsplit, fun group hgroup => ?_⟩
    rw [Documents.tests, hsplit, List.getLast?_concat, Option.map_some, Option.some.injEq,
      List.flatMap_append, List.length_append, List.flatMap_singleton] at hcount
    -- No vector is left for the earlier groups.
    have hnil : earlier.flatMap TestGroup.tests = [] := List.eq_nil_of_length_eq_zero (by omega)
    exact List.flatMap_eq_nil_iff.mp hnil group hgroup

/-- The header of well-formed documents is written, and a header holds the vectors of the documents
exactly if each parameter set and function has one group with all of them, and that is the last
one. -/
theorem header_faithful_iff (docs : Documents τ) (source : Provenance) :
    ((∀ lvl f, WellFormed docs lvl f) → source.inputs ≠ [] →
      ∃ text, main docs source none = .ok (some text)) ∧
    ∀ text, main docs source none = .ok (some text) →
      (Faithful docs text ↔ ∀ lvl f, OneGroup docs lvl f) := by
  refine ⟨exists_main,
    fun text h => ⟨fun hfaithful lvl f => ?_, fun hgroups => ⟨fun lvl f => ?_, ?_⟩⟩⟩
  · obtain ⟨tests, hperm, htable⟩ := hfaithful.1 lvl f
    exact oneGroup_of_tabulates h hperm htable
  · obtain ⟨earlier, last, hsplit, hempty⟩ := hgroups lvl f
    have htests : docs.tests lvl f = last.tests := by
      rw [Documents.tests, hsplit, List.flatMap_append, List.flatMap_eq_nil_iff.mpr hempty,
        List.nil_append, List.flatMap_singleton]
    exact ⟨last.tests, by rw [htests], tabulates_last h hsplit⟩
  · exact names_of_main h

end Header

/-! ### Documents with one group each, and with a second group -/

/-- A test that has every field; its values differ by field and by test. -/
def sampleTest (tcId : ℕ) : AcvpTest ℕ :=
  ⟨tcId, [("d", 1), ("z", 2), ("ek", 3), ("dk", 4), ("m", 5), ("c", 6), ("k", 7)].map
    fun field => (field.1, hex [field.2, UInt8.ofNat tcId]), some (tcId % 2 == 0)⟩

/-- Some tests, one after the other. -/
def sampleTests (first count : ℕ) : List (AcvpTest ℕ) := (List.range' first count).map sampleTest

/-- The groups of the second pair of documents. -/
def sampleGroups : List (TestGroup ℕ) :=
  [⟨"ML-KEM-512", some "encapsulation", sampleTests 1 3⟩,
    ⟨"ML-KEM-512", some "decapsulation", sampleTests 4 2⟩,
    ⟨"ML-KEM-512", some "encapsulationKeyCheck", sampleTests 6 2⟩,
    ⟨"ML-KEM-512", some "decapsulationKeyCheck", sampleTests 8 2⟩,
    ⟨"ML-KEM-768", some "encapsulation", sampleTests 10 2⟩,
    ⟨"ML-KEM-768", some "decapsulation", sampleTests 12 2⟩,
    ⟨"ML-KEM-768", some "encapsulationKeyCheck", sampleTests 14 2⟩,
    ⟨"ML-KEM-768", some "decapsulationKeyCheck", sampleTests 16 2⟩]

/-- Prompts, and expected results for each of them. -/
def samplePair (groups : List (TestGroup ℕ))
    (h : ((groups.flatMap TestGroup.tests).map AcvpTest.tcId).Nodup) : DocumentPair ℕ :=
  ⟨groups, [groups.flatMap TestGroup.tests], h, by rwa [List.flatten_singleton]⟩

/-- Their tests differ. -/
theorem nodup_sampleGroups : ((sampleGroups.flatMap TestGroup.tests).map AcvpTest.tcId).Nodup := by
  decide

/-- Documents with these groups for the generation of keys. -/
def sampleDocuments (groups : List (TestGroup ℕ))
    (h : ((groups.flatMap TestGroup.tests).map AcvpTest.tcId).Nodup) : Documents ℕ :=
  ⟨samplePair groups h, samplePair sampleGroups nodup_sampleGroups⟩

/-- One group for each parameter set. -/
def oneGroupEach : Documents ℕ :=
  sampleDocuments [⟨"ML-KEM-512", none, sampleTests 1 3⟩, ⟨"ML-KEM-768", none, sampleTests 4 2⟩]
    (by decide)

/-- Two groups for ML-KEM-512. -/
def twoGroups : Documents ℕ :=
  sampleDocuments [⟨"ML-KEM-512", none, sampleTests 1 3⟩, ⟨"ML-KEM-512", none, sampleTests 4 2⟩,
    ⟨"ML-KEM-768", none, sampleTests 6 2⟩] (by decide)

/-- The files of the sample. -/
def sampleProvenance : Provenance :=
  ⟨['v', '1'], [⟨['p', '.', 'j', 's', 'o', 'n'], [], by decide⟩], forall_mem_of_all (by decide)⟩

/-- Documents whose values have one length. -/
theorem wellFormed_of_length {docs : Documents ℕ} {lvl : Level} {f : KatFunction} (width : ℕ)
    (h : ∀ t ∈ docs.tests lvl f,
      (∀ c ∈ f.columns, (docs.bytes f c t).map List.length = some width) ∧
      (docs.passed f t).isSome = true) : WellFormed docs lvl f :=
  ⟨fun c hc => ⟨width, fun t ht => Option.map_eq_some_iff.mp ((h t ht).1 c hc)⟩,
    fun _ t ht => (h t ht).2⟩

/-- Documents with a single group for a parameter set and a function. -/
theorem oneGroup_of_length {docs : Documents ℕ} {lvl : Level} {f : KatFunction}
    (h : (docs.groups lvl f).length = 1) : OneGroup docs lvl f := by
  obtain ⟨group, hgroup⟩ := List.length_eq_one_iff.mp h
  exact ⟨[], group, hgroup, List.forall_mem_nil _⟩

/-- With one group for each parameter set and function, the header holds all the vectors. -/
theorem header_faithful_oneGroupEach :
    ∃ text, main oneGroupEach sampleProvenance none = .ok (some text) ∧
      Faithful oneGroupEach text := by
  have hdocs : ∀ lvl f, WellFormed oneGroupEach lvl f := by
    intro lvl f
    refine wellFormed_of_length 2 ?_
    cases lvl <;> cases f <;> decide
  have hgroups : ∀ lvl f, OneGroup oneGroupEach lvl f := by
    intro lvl f
    refine oneGroup_of_length ?_
    cases lvl <;> cases f <;> decide
  obtain ⟨text, htext⟩ := (header_faithful_iff oneGroupEach sampleProvenance).1 hdocs (by decide)
  exact ⟨text, htext,
    ((header_faithful_iff oneGroupEach sampleProvenance).2 text htext).mpr hgroups⟩

/-- Of two groups of one parameter set, the header holds the second one only. -/
theorem header_drops_group :
    ∃ text, main twoGroups sampleProvenance none = .ok (some text) ∧
      countOf text (countName .mlkem512 .keygen) = some 2 ∧
        (twoGroups.tests .mlkem512 .keygen).length = 5 ∧ ¬ Faithful twoGroups text := by
  have hdocs : ∀ lvl f, WellFormed twoGroups lvl f := by
    intro lvl f
    refine wellFormed_of_length 2 ?_
    cases lvl <;> cases f <;> decide
  have hinputs : sampleProvenance.inputs ≠ [] := by decide
  obtain ⟨text, htext⟩ := exists_main hdocs hinputs
  have hcount : countOf text (countName .mlkem512 .keygen) = some 2 := by
    rw [countOf_main htext]
    decide
  have htests : (twoGroups.tests .mlkem512 .keygen).length = 5 := by decide
  refine ⟨text, htext, hcount, htests, fun hfaithful => ?_⟩
  obtain ⟨tests, hperm, htable⟩ := hfaithful.1 .mlkem512 .keygen
  have hlength := htable.count.symm.trans hcount
  rw [hperm.length_eq, htests] at hlength
  simp at hlength

end PqcIot.KatHeader
