import PqcIot.Config.Template

/-!
# The pre-commit hook

`.githooks/pre-commit` refuses to commit a template into which credentials were typed. It looks at
the template as a whole: one placeholder string, and whether bytes in lower case occur somewhere
while four zero bytes in a row occur nowhere. So one part of the file can hide what another
contains, and `hook_stops_iff` says exactly when the hook stops a template that is not the original
one.
-/

namespace PqcIot

open Text Pattern

/-! ## Bytes on a line -/

namespace ByteText

/-- The expression for one byte with digits of a class. -/
def pattern (cls : Char → Bool) : Pattern := [(· == '0'), (· == 'x'), cls, cls]

/-- The expression for `n` bytes side by side. -/
def rowPattern (cls : Char → Bool) : ℕ → Pattern
  | 0 => []
  | 1 => pattern cls
  | n + 2 => pattern cls ++ (literal [',', ' '] ++ rowPattern cls (n + 1))

variable (cls : Char → Bool) (b : ByteText) {n : ℕ} {rest tail : List Char}

theorem rowPattern_succ (n : ℕ) : ∃ p, rowPattern cls (n + 1) = (· == '0') :: (· == 'x') :: p := by
  cases n <;> exact ⟨_, rfl⟩

/-- A hexadecimal digit is not the `x` of another byte. -/
theorem lo_ne : b.lo ≠ 'x' := fun h => by
  have hlo := b.isSome_lo
  rw [h] at hlo
  simp [digitValue] at hlo

theorem matchesAt_pattern : (pattern cls).matchesAt b.text = b.digitsIn cls := by
  simp [pattern, text, matchesAt, digitsIn]

/-- An occurrence of some bytes begins where a byte begins. -/
theorem occurs_text_append (hrest : rest.head? ≠ some 'x') :
    (rowPattern cls (n + 1)).occurs (b.text ++ rest) =
    ((rowPattern cls (n + 1)).matchesAt
      (b.text ++ rest) || (rowPattern cls (n + 1)).occurs rest) := by
  obtain ⟨p, hp⟩ := rowPattern_succ cls n
  have hlo : (b.lo == 'x') = false := by simpa using b.lo_ne
  have hhead : matchesAt ((· == 'x') :: p) rest = false := by
    cases rest with
    | nil => rfl
    | cons c rest =>
      have hc : (c == 'x') = false := by simpa using hrest
      rw [matchesAt, hc, Bool.false_and]
  rw [hp]
  simp [text, occurs, matchesAt, hlo, hhead]

section Row

variable (htail : '0' ∉ tail ∧ 'x' ∉ tail)
include htail

theorem matchesAt_rowText (row : List ByteText) :
    (rowPattern cls (n + 1)).matchesAt (rowText row ++ tail) = true ↔
    List.replicate (n + 1) true <+: row.map (digitsIn cls) := by
  have hzero : ∀ d ∈ tail, (d == '0') = false := fun d hd => by
    simpa using fun h : d = '0' => htail.1 (h ▸ hd)
  have hmem (m : ℕ) : (· == '0') ∈ rowPattern cls (m + 1) := by
    obtain ⟨p, hp⟩ := rowPattern_succ cls m
    exact hp ▸ List.mem_cons_self
  induction row generalizing n with
  | nil =>
    have hno := (rowPattern cls (n + 1)).matchesAt_eq_false (hmem n) hzero
    simpa [rowText, List.replicate_succ] using hno
  | cons b row ih =>
    cases n with
    | zero =>
      obtain ⟨rest, hrest⟩ : ∃ rest, rowText (b :: row) ++ tail = b.text ++ rest := by
        cases row with
        | nil => exact ⟨tail, by rw [rowText_singleton]⟩
        | cons c row => exact ⟨_, rowText_cons_cons b c row tail⟩
      have hone := matchesAt_append (pattern cls) (x := b.text) (y := rest) [] rfl
      rw [List.append_nil] at hone
      rw [hrest, rowPattern, hone, matchesAt_pattern]
      simp [matchesAt]
    | succ n =>
      rw [rowPattern, List.replicate_succ, List.map_cons, List.cons_prefix_cons]
      cases row with
      | nil =>
        -- The line ends behind the byte, and its end is not another byte.
        have hend : matchesAt (literal [',', ' '] ++ rowPattern cls (n + 1)) tail = false :=
          matchesAt_eq_false _ (List.mem_append_right _ (hmem n)) hzero
        have hone := matchesAt_append (pattern cls) (x := b.text) (y := tail)
          (literal [',', ' '] ++ rowPattern cls (n + 1)) rfl
        rw [rowText_singleton, hone, hend]
        simp [List.replicate_succ]
      | cons c row =>
        have hrest : (rowPattern cls (n + 1)).matchesAt (rowText (c :: row) ++ tail) = true ↔
            List.replicate (n + 1) true <+: (c :: row).map (digitsIn cls) := ih
        have hcomma : matchesAt (literal [',', ' ']) [',', ' '] = true := rfl
        rw [rowText_cons_cons, matchesAt_append _ _ rfl, matchesAt_append _ _ rfl,
          matchesAt_pattern, hcomma, Bool.true_and, Bool.and_eq_true, hrest, eq_comm]

/-- Some bytes side by side occur on a line as they do in the row that it holds. -/
theorem occurs_rowText (row : List ByteText) :
    (rowPattern cls (n + 1)).occurs (rowText row ++ tail) = true ↔
    List.replicate (n + 1) true <:+: row.map (digitsIn cls) := by
  obtain ⟨p, hp⟩ := rowPattern_succ cls n
  induction row with
  | nil =>
    have hno : (rowPattern cls (n + 1)).occurs tail = false :=
      occurs_eq_false _ (hp ▸ List.mem_cons_self) fun d hd => by
        simpa using fun h : d = '0' => htail.1 (h ▸ hd)
    simp [rowText, hno, List.replicate_succ]
  | cons b row ih =>
    have hmatch := matchesAt_rowText cls (n := n) htail (b :: row)
    rw [List.map_cons, List.infix_cons_iff, ← List.map_cons, ← hmatch, ← ih]
    cases row with
    | nil =>
      have hhead : tail.head? ≠ some 'x' := fun h => htail.2 (List.mem_of_mem_head? h)
      rw [rowText_singleton, occurs_text_append cls b hhead, Bool.or_eq_true]
      rfl
    | cons c row =>
      have hskip : (rowPattern cls (n + 1)).skips [',', ' '] = true := by rw [hp]; rfl
      rw [rowText_cons_cons, occurs_text_append cls b (by simp), Bool.or_eq_true,
        occurs_append_of_skips _ hskip]

end Row

end ByteText

/-! ## The hook -/

namespace PreCommit

open ByteText DeviceConfig

/-- What a run of the hook prints, and its exit status. -/
structure Outcome where
  output : List String
  status : ℕ
  deriving DecidableEq, Repr

/-- The path of the template. -/
def template : String := "firmware/esp32s3-dut/main/device_config.h.example"

/-- The files that are never tracked. -/
def deploymentState : List String :=
  ["firmware/esp32s3-dut/main/device_config.h", "firmware/esp32s3-dut/main/server_key.h"]

/-- The file is staged, by `git diff --cached --name-only | grep -qx`: a dot in the path stands for
any character. -/
def isStaged (file : String) (names : List (List Char)) : Bool := grepQx (dotted file.toList) names

/-- `[0-9a-f]`. -/
def lowerHex (c : Char) : Bool := ('0' ≤ c && c ≤ '9') || ('a' ≤ c && c ≤ 'f')

/-- `your-ssid-here`. -/
def ssidPlaceholder : Pattern := literal "your-ssid-here".toList

/-- `0x[0-9a-f]{2}, 0x[0-9a-f]{2}`. -/
def keyMaterial : Pattern :=
  literal "0x".toList ++ List.replicate 2 lowerHex ++ literal ", 0x".toList ++
    List.replicate 2 lowerHex

/-- `0x00, 0x00, 0x00, 0x00`. -/
def zeros : Pattern := literal "0x00, 0x00, 0x00, 0x00".toList

/-- What the hook says when the placeholder is gone. -/
def placeholderMessage : List String := [
  s!"pre-commit: {template} no longer contains the SSID placeholder.",
  "",
  "  It looks like real credentials were typed into the template",
  "  instead of into device_config.h (which is gitignored).",
  "",
  s!"  Fix:  cp {template} firmware/esp32s3-dut/main/device_config.h",
  s!"        git checkout -- {template}",
  ""]

/-- The loop at the end of the hook. -/
def checkTracked (names : List (List Char)) : List String → Outcome
  | [] => ⟨[], 0⟩
  | file :: files =>
    if isStaged file names then
      ⟨[s!"pre-commit: {file} is deployment state and must not be committed."], 1⟩
    else checkTracked names files

/-- `pre-commit`, where `names` are staged and `content` is what `git show` prints of the
template. -/
def preCommit (names : List (List Char)) (content : Option (List Char)) : Outcome :=
  if isStaged template names then
    match content with
    | none => ⟨[], 128⟩ -- With `set -e`, the assignment ends the hook when `git show` fails.
    | some content =>
      let staged := inputLines (substitution content)
      if !grepQ ssidPlaceholder staged then ⟨placeholderMessage, 1⟩
      else if grepQ keyMaterial staged && !grepQ zeros staged then
        ⟨[s!"pre-commit: {template} contains non-zero key material. Refusing."], 1⟩
      else checkTracked names deploymentState
  else checkTracked names deploymentState

/-- The hook passes at its end exactly if no file of the deployment is staged. -/
theorem checkTracked_eq_zero_iff (names : List (List Char)) (files : List String) :
    (checkTracked names files).status = 0 ↔ ∀ file ∈ files, isStaged file names = false := by
  induction files with
  | nil => simp [checkTracked]
  | cons file files ih =>
    rw [checkTracked, List.forall_mem_cons]
    split
    · next h => simp [h]
    · next h => rw [ih, Bool.eq_false_iff.mpr h, eq_self, true_and]

/-! ## What the hook sees of the template -/

/-- What stands before the values and bytes. -/
def leads : List String :=
  ["#define WIFI_SSID     \"", "#define WIFI_PASSWORD \"", "#define SERVER_HOST \"",
    "#define SERVER_PORT ", "#define CONNECT_TIMEOUT_MS ", "#define RETRY_BASE_MS      ",
    "#define REKEY_INTERVAL_S ", "#define DEVICE_ID \x7b ", "        "]

/-- The expression occurs in the template only where a value stands. -/
structure OnlyInValues (p : Pattern) : Prop where
  fixed : ∀ part ∈ fixedParts, ∀ line ∈ part, p.occurs line.toList = false
  lead : ∀ lead ∈ leads, p.skips lead.toList = true
  quote : ∀ cls ∈ p, cls '"' = false

/-- `n` bytes with digits of a class stand side by side, on a line of bytes or within a value. -/
def SideBySide (v : Values) (cls : Char → Bool) (n : ℕ) : Prop :=
  (∃ row ∈ v.rows, List.replicate n true <:+: row.map (digitsIn cls)) ∨
    ∃ t ∈ v.texts, (rowPattern cls n).occurs t = true

/-- The placeholder of the network name stands in a value. -/
def Marked (v : Values) : Prop := ∃ t ∈ v.texts, "your-ssid-here".toList <:+: t

/-- The template holds no credentials. -/
def Clean (v : Values) : Prop :=
  (∀ b ∈ v.deviceId ++ v.devicePsk, b.value = 0) ∧ v.wifiSsid = "your-ssid-here".toList ∧
    v.wifiPassword = "your-wifi-password-here".toList

theorem keyMaterial_eq : keyMaterial = rowPattern lowerHex 2 := rfl

theorem zeros_eq : zeros = rowPattern (· == '0') 4 := rfl

theorem ssidPlaceholder_eq : ssidPlaceholder = literal
    ['y', 'o', 'u', 'r', '-', 's', 's', 'i', 'd', '-', 'h', 'e', 'r', 'e'] := rfl

/-- The three expressions, in a form that is evaluated quickly. -/
def expressions : List Pattern :=
  [literal ['y', 'o', 'u', 'r', '-', 's', 's', 'i', 'd', '-', 'h', 'e', 'r', 'e'],
    rowPattern lowerHex 2, rowPattern (· == '0') 4]

theorem expressions_onlyInValues : ∀ p ∈ expressions, OnlyInValues p := by
  have hfixed : ∀ part ∈ fixedParts, ∀ line ∈ part, ∀ p ∈ expressions,
    p.occurs line.toList = false := by
    simp only [fixedParts, banner, serverComment, retryComment, idComment, pskComment, rekeyComment,
      ending, List.forall_mem_cons, List.not_mem_nil, false_imp_iff, implies_true, and_true]
    and_intros <;> exact toList_ofList_induction
      (fun l => ∀ p ∈ expressions, p.occurs l = false) _ (by decide +kernel)
  have hlead : ∀ lead ∈ leads, ∀ p ∈ expressions, p.skips lead.toList = true := by
    simp only [leads, List.forall_mem_cons, List.not_mem_nil, false_imp_iff, implies_true, and_true]
    and_intros <;> exact toList_ofList_induction
      (fun l => ∀ p ∈ expressions, p.skips l = true) _ (by decide +kernel)
  have hquote : ∀ p ∈ expressions, ∀ cls ∈ p, cls '"' = false := by decide +kernel
  exact fun p hp => ⟨fun part hpart line h => hfixed part hpart line h p hp,
    fun lead h => hlead lead h p hp, hquote p hp⟩

/-- The lines of the template with bytes. -/
def bytesLines (v : Values) : List (List Char) :=
  [bytesLine "#define DEVICE_ID \x7b " v.deviceId " \x7d",
    bytesLine "        " (v.devicePsk.take 11) ",     \\",
    bytesLine "        " ((v.devicePsk.drop 11).take 11) ",     \\",
    bytesLine "        " (v.devicePsk.drop 22) "            \\"]

section

variable {p : Pattern} (hp : OnlyInValues p)
include hp

theorem occurs_quoted {lead : String} (hlead : lead ∈ leads) (value : List Char) :
    p.occurs (quoted lead value) = p.occurs value := by
  have hempty : p.occurs [] = false := by
    have h := hp.fixed banner (by simp [fixedParts]) "" (by simp [banner])
    exact h
  rw [quoted, List.append_assoc, p.occurs_append_of_skips (hp.lead lead hlead),
    p.occurs_append_cons hp.quote, hempty, Bool.or_false]

theorem occurs_plain {lead : String} (hlead : lead ∈ leads) (value : List Char) :
    p.occurs (plain lead value) = p.occurs value :=
  p.occurs_append_of_skips (hp.lead lead hlead)

/-- The hook finds such an expression in the values or on the lines with bytes. -/
theorem grepQ_lines (v : Values) :
    grepQ p (lines v) = (grepQ p v.texts || grepQ p (bytesLines v)) := by
  have hfixed (part : List String) (hpart : part ∈ fixedParts) : grepQ p (part.map String.toList) =
    false := by
    rw [grepQ, List.any_map, List.any_eq_false]
    exact fun line h => by simpa using hp.fixed part hpart line h
  have happend (x y : List (List Char)) : grepQ p (x ++ y) = (grepQ p x || grepQ p y) :=
    List.any_append
  simp only [lines, initLines, happend]
  rw [hfixed banner (by simp [fixedParts]), hfixed serverComment (by simp [fixedParts]),
    hfixed retryComment (by simp [fixedParts]), hfixed idComment (by simp [fixedParts]),
    hfixed pskComment (by simp [fixedParts]), hfixed rekeyComment (by simp [fixedParts]),
    hfixed ending (by simp [fixedParts])]
  simp only [grepQ, Values.texts, bytesLines, List.any_cons, List.any_nil, Bool.or_false,
    Bool.false_or, occurs_quoted hp (show "#define WIFI_SSID     \"" ∈ leads by simp [leads]),
    occurs_quoted hp (show "#define WIFI_PASSWORD \"" ∈ leads by simp [leads]),
    occurs_quoted hp (show "#define SERVER_HOST \"" ∈ leads by simp [leads]),
    occurs_plain hp (show "#define SERVER_PORT " ∈ leads by simp [leads]),
    occurs_plain hp (show "#define CONNECT_TIMEOUT_MS " ∈ leads by simp [leads]),
    occurs_plain hp (show "#define RETRY_BASE_MS      " ∈ leads by simp [leads]),
    occurs_plain hp (show "#define REKEY_INTERVAL_S " ∈ leads by simp [leads])]
  ac_rfl

end

/-- Bytes are found on their lines as they stand side by side. -/
theorem grepQ_bytesLines_rowPattern {cls : Char → Bool} {n : ℕ}
    (hp : OnlyInValues (rowPattern cls (n + 1))) (v : Values) :
    grepQ (rowPattern cls (n + 1)) (bytesLines v) = true ↔
      ∃ row ∈ v.rows, List.replicate (n + 1) true <:+: row.map (digitsIn cls) := by
  have hline {lead : String} (hlead : lead ∈ leads) (row : List ByteText) {tail : String}
      (htail : '0' ∉ tail.toList ∧ 'x' ∉ tail.toList) :
      (rowPattern cls (n + 1)).occurs (bytesLine lead row tail) = true ↔
        List.replicate (n + 1) true <:+: row.map (digitsIn cls) := by
    rw [bytesLine, List.append_assoc, occurs_append_of_skips _ (hp.lead lead hlead),
      occurs_rowText cls htail]
  simp only [grepQ, bytesLines, Values.rows, List.any_cons, List.any_nil, Bool.or_false,
    Bool.or_eq_true, List.exists_mem_cons_iff, List.not_mem_nil, false_and, exists_false, or_false]
  rw [hline (by simp [leads]) _ (by decide), hline (by simp [leads]) _ (by decide),
    hline (by simp [leads]) _ (by decide), hline (by simp [leads]) _ (by decide)]

/-- The hook finds bytes side by side. -/
theorem grepQ_rowPattern_iff {cls : Char → Bool} {n : ℕ}
    (hp : OnlyInValues (rowPattern cls (n + 1)))
    (v : Values) : grepQ (rowPattern cls (n + 1)) (lines v) = true ↔ SideBySide v cls (n + 1) := by
  rw [grepQ_lines hp, Bool.or_eq_true, grepQ_bytesLines_rowPattern hp, SideBySide, or_comm, grepQ,
    List.any_eq_true]

/-- No line of bytes has the placeholder on it. -/
theorem grepQ_bytesLines_ssidPlaceholder (v : Values) :
    grepQ ssidPlaceholder (bytesLines v) = false := by
  have hmem : (fun d => d == 'y') ∈ ssidPlaceholder := by simp [ssidPlaceholder_eq, literal]
  have hline {lead : String} (hlead : 'y' ∉ lead.toList) (row : List ByteText) {tail : String}
      (htail : 'y' ∉ tail.toList) : ssidPlaceholder.occurs (bytesLine lead row tail) = false := by
    refine occurs_eq_false _ hmem fun d hd => beq_eq_false_iff_ne.mpr ?_
    rintro rfl
    simp only [bytesLine, List.mem_append, hlead, htail, false_or, or_false] at hd
    have hy := mem_rowText hd
    simp [digitValue] at hy
  simp only [grepQ, bytesLines, List.any_cons, List.any_nil, Bool.or_false]
  rw [hline (by decide) _ (by decide), hline (by decide) _ (by decide),
    hline (by decide) _ (by decide), hline (by decide) _ (by decide)]
  rfl

/-- The hook finds the placeholder. -/
theorem grepQ_ssidPlaceholder_iff (v : Values) :
    grepQ ssidPlaceholder (lines v) = true ↔ Marked v := by
  have hp : OnlyInValues ssidPlaceholder :=
    ssidPlaceholder_eq ▸ expressions_onlyInValues _ (by simp [expressions])
  rw [grepQ_lines hp, grepQ_bytesLines_ssidPlaceholder, Bool.or_false, grepQ,
    List.any_eq_true, Marked]
  simp only [ssidPlaceholder, occurs_literal_iff]

/-- The hook sees the lines of the template. -/
theorem inputLines_text (v : Values) :
    inputLines (substitution (DeviceConfig.text v)) = lines v := by
  have hsplit : lines v = (initLines v ++ [[]]) ++ ["#endif /* DEVICE_CONFIG_H */".toList] := by
    simp [lines, ending]
  have hall := isLine_lines v
  rw [hsplit] at hall
  rw [DeviceConfig.text, hsplit]
  refine inputLines_substitution (fun l hl => hall l (List.mem_append_left _ hl))
    (hall _ (List.mem_append_right _ List.mem_cons_self)) ?_
  exact toList_ofList_induction (fun l => l ≠ []) _ (by simp)

/-- A path is found among the names. -/
theorem isStaged_of_mem {file : String} {names : List (List Char)} (h : file.toList ∈ names) :
    isStaged file names = true :=
  List.any_eq_true.mpr ⟨_, h, matchesLine_dotted _⟩

/-! ## When the hook passes -/

/-- The hook passes a template exactly if the placeholder stands in a value, no bytes in lower case
go without four zero bytes, and no file of the deployment is staged. -/
theorem status_eq_zero_iff (names : List (List Char)) (v : Values)
    (hnames : template.toList ∈ names) :
    (preCommit names (some (DeviceConfig.text v))).status = 0 ↔ Marked v ∧
      (SideBySide v lowerHex 2 → SideBySide v (· == '0') 4) ∧
      ∀ file ∈ deploymentState, isStaged file names = false := by
  have hmaterial : grepQ keyMaterial (lines v) = true ↔ SideBySide v lowerHex 2 := by
    rw [keyMaterial_eq]
    exact grepQ_rowPattern_iff (expressions_onlyInValues _ (by simp [expressions])) v
  have hzeros : grepQ zeros (lines v) = true ↔ SideBySide v (· == '0') 4 := by
    rw [zeros_eq]
    exact grepQ_rowPattern_iff (expressions_onlyInValues _ (by simp [expressions])) v
  rw [← checkTracked_eq_zero_iff, ← hmaterial, ← hzeros, ← grepQ_ssidPlaceholder_iff]
  simp only [preCommit, isStaged_of_mem hnames, if_true, inputLines_text]
  cases grepQ ssidPlaceholder (lines v) <;> cases grepQ keyMaterial (lines v) <;>
    cases grepQ zeros (lines v) <;> simp

/-- The hook keeps credentials out of a commit exactly if there are none, if the placeholder stands
in no value, if bytes in lower case but no four zero bytes stand side by side, or if a file of the
deployment is staged as well. -/
theorem hook_stops_iff (names : List (List Char)) (v : Values) (hnames : template.toList ∈ names) :
    ((preCommit names (some (DeviceConfig.text v))).status = 0 → Clean v) ↔
      Clean v ∨ ¬ Marked v ∨ (SideBySide v lowerHex 2 ∧ ¬ SideBySide v (· == '0') 4) ∨
        ∃ file ∈ deploymentState, isStaged file names = true := by
  rw [status_eq_zero_iff names v hnames]
  have hfiles : (∃ file ∈ deploymentState, isStaged file names = true) ↔
      ¬ ∀ file ∈ deploymentState, isStaged file names = false := by
    simp
  rw [hfiles]
  tauto

/-- An identifier that is still zero hides every key. -/
theorem passes_of_deviceId (names : List (List Char)) (v : Values)
    (hnames : template.toList ∈ names)
    (hssid : v.wifiSsid = "your-ssid-here".toList) (hid : ∀ b ∈ v.deviceId, b.value = 0)
    (hfiles : ∀ file ∈ deploymentState, isStaged file names = false) :
    (preCommit names (some (DeviceConfig.text v))).status = 0 := by
  have hzero : v.deviceId.map (digitsIn (· == '0')) = List.replicate 8 true := by
    rw [← v.length_deviceId, List.map_eq_replicate_iff]
    intro b hb
    have hdigits := (value_eq_zero_iff b).mp (hid b hb)
    simp [digitsIn, hdigits]
  rw [status_eq_zero_iff names v hnames]
  refine ⟨⟨_, List.mem_cons_self, hssid ▸ List.infix_rfl⟩,
    fun _ => .inl ⟨_, List.mem_cons_self, ?_⟩, hfiles⟩
  rw [hzero]
  exact ⟨[], List.replicate 4 true, rfl⟩

/-- The template with a key typed into it, and nothing else. -/
def typedKey : Values :=
  { Values.template with
    devicePsk := List.replicate 32 ⟨'a', '7', rfl, rfl⟩
    length_devicePsk := rfl }

theorem hook_stops_typedKey : template.toList ∈ [template.toList] ∧
    (((preCommit [template.toList] (some (DeviceConfig.text typedKey))).status = 0 →
      Clean typedKey) ↔
      Clean typedKey ∨ ¬ Marked typedKey ∨
        (SideBySide typedKey lowerHex 2 ∧ ¬ SideBySide typedKey (· == '0') 4) ∨
        ∃ file ∈ deploymentState, isStaged file [template.toList] = true) :=
  ⟨List.mem_cons_self, hook_stops_iff _ _ List.mem_cons_self⟩

/-- A key that was typed into the template passes. -/
theorem hook_passes_typedKey :
    ¬ ∀ (names : List (List Char)) (v : Values), template.toList ∈ names →
      (preCommit names (some (DeviceConfig.text v))).status = 0 → Clean v := by
  intro h
  have hmem : (⟨'a', '7', rfl, rfl⟩ : ByteText) ∈ typedKey.deviceId ++ typedKey.devicePsk :=
    List.mem_append_right _ List.mem_cons_self
  have hpass := passes_of_deviceId [template.toList] typedKey List.mem_cons_self rfl
    (fun b hb => by rw [List.eq_of_mem_replicate hb]; rfl) (by decide +kernel)
  have hclean := h [template.toList] typedKey List.mem_cons_self hpass
  exact absurd (hclean.1 _ hmem) (by decide)

end PreCommit

end PqcIot
