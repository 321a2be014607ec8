import PqcIot.Text.Grep
import PqcIot.Text.Hex

/-!
# `device_config.h.example`

The template of the device's configuration, line by line, with the values that are replaced in a
copy of it. The values are arbitrary texts without a line break. A byte of the identifier or of the
key is `0x` and two hexadecimal digits of either case.
-/

namespace PqcIot

open Text

/-- A byte as the template writes it. -/
structure ByteText where
  hi : Char
  lo : Char
  /-- Both are hexadecimal digits. -/
  isSome_hi : (digitValue hi).isSome = true
  isSome_lo : (digitValue lo).isSome = true

namespace ByteText

/-- `0x` and the two digits. -/
def text (b : ByteText) : List Char := ['0', 'x', b.hi, b.lo]

/-- The byte that the text denotes. -/
def value (b : ByteText) : UInt8 :=
  UInt8.ofNat ((digitValue b.hi).getD 0 * 16 + (digitValue b.lo).getD 0)

/-- Both digits are in the class. -/
def digitsIn (cls : Char → Bool) (b : ByteText) : Bool := cls b.hi && cls b.lo

/-- `0x00`. -/
def zero : ByteText := ⟨'0', '0', rfl, rfl⟩

/-- Only `0x00` denotes zero. -/
theorem value_eq_zero_iff (b : ByteText) : b.value = 0 ↔ b.hi = '0' ∧ b.lo = '0' := by
  obtain ⟨h, hh⟩ := Option.isSome_iff_exists.mp b.isSome_hi
  obtain ⟨l, hl⟩ := Option.isSome_iff_exists.mp b.isSome_lo
  have hlt (c : Char) (n : ℕ) (hc : digitValue c = some n) : n < 16 ∧ (n = 0 ↔ c = '0') := by
    have hzero : c = '0' ↔ c.toNat = 48 := by rw [← Char.toNat_inj]; rfl
    simp only [digitValue, Char.le_def, UInt32.le_iff_toNat_le] at hc
    rw [hzero, Char.toNat]
    split_ifs at hc <;> simp at hc <;> simp_all <;> omega
  rw [value, hh, hl, ← (hlt _ _ hh).2, ← (hlt _ _ hl).2, ← UInt8.toNat_inj]
  have h1 := (hlt _ _ hh).1
  have h2 := (hlt _ _ hl).1
  simp only [Option.getD_some, UInt8.toNat_ofNat', UInt8.toNat_zero]
  omega

end ByteText

/-- Bytes on one line. -/
def rowText (row : List ByteText) : List Char := [',', ' '].intercalate (row.map ByteText.text)

/-- Bytes are written with few characters. -/
theorem mem_rowText {row : List ByteText} {c : Char} (h : c ∈ rowText row) :
    c ∈ [',', ' ', '0', 'x'] ∨ (digitValue c).isSome = true := by
  induction row with
  | nil => simp [rowText] at h
  | cons b row ih =>
    have hbyte (hc : c ∈ b.text) : c ∈ [',', ' ', '0', 'x'] ∨ (digitValue c).isSome = true := by
      simp only [ByteText.text, List.mem_cons, List.not_mem_nil, or_false] at hc
      obtain rfl | rfl | rfl | rfl := hc
      · simp
      · simp
      · exact .inr b.isSome_hi
      · exact .inr b.isSome_lo
    cases row with
    | nil => exact hbyte (by simpa [rowText] using h)
    | cons d row =>
      rw [rowText, List.map_cons, List.map_cons, List.intercalate_cons_cons, List.mem_append,
        List.mem_append] at h
      rcases h with (h | h) | h
      · exact hbyte h
      · exact .inl (List.mem_append_left ['0', 'x'] h)
      · exact ih h

theorem rowText_singleton (b : ByteText) : rowText [b] = b.text := List.intercalate_singleton

/-- A byte, a comma and a space, and the rest of the row. -/
theorem rowText_cons_cons (b c : ByteText) (row : List ByteText) (tail : List Char) :
    rowText (b :: c :: row) ++ tail = b.text ++ ([',', ' '] ++ (rowText (c :: row) ++ tail)) := by
  simp [rowText, List.intercalate_cons_cons]

namespace DeviceConfig

/-- The values in a copy of the template. -/
structure Values where
  wifiSsid : List Char
  wifiPassword : List Char
  serverHost : List Char
  serverPort : List Char
  connectTimeoutMs : List Char
  retryBaseMs : List Char
  rekeyIntervalS : List Char
  deviceId : List ByteText
  devicePsk : List ByteText
  isLine : ∀ t ∈ [wifiSsid, wifiPassword, serverHost, serverPort, connectTimeoutMs, retryBaseMs,
    rekeyIntervalS], IsLine t
  length_deviceId : deviceId.length = 8
  length_devicePsk : devicePsk.length = 32

/-- The values other than bytes. -/
def Values.texts (v : Values) : List (List Char) :=
  [v.wifiSsid, v.wifiPassword, v.serverHost, v.serverPort, v.connectTimeoutMs, v.retryBaseMs,
    v.rekeyIntervalS]

/-- The lines on which bytes stand. -/
def Values.rows (v : Values) : List (List ByteText) :=
  [v.deviceId, v.devicePsk.take 11, (v.devicePsk.drop 11).take 11, v.devicePsk.drop 22]

/-- The values of the template itself. -/
def Values.template : Values where
  wifiSsid := "your-ssid-here".toList
  wifiPassword := "your-wifi-password-here".toList
  serverHost := "192.168.188.53".toList
  serverPort := "8443".toList
  connectTimeoutMs := "8000".toList
  retryBaseMs := "2000".toList
  rekeyIntervalS := "3600".toList
  deviceId := List.replicate 8 .zero
  devicePsk := List.replicate 32 .zero
  isLine := by decide
  length_deviceId := rfl
  length_devicePsk := rfl

/-! ## The lines -/

/-- Before the first value. -/
def banner : List String := [
  "/*",
  " * Per-device configuration and secrets. TEMPLATE.",
  " *",
  " *   cp device_config.h.example device_config.h",
  " *",
  " * device_config.h is gitignored and must stay that way. It holds this device's",
  " * PSK and your Wi-Fi password. Nothing in this file belongs in a commit.",
  " *",
  " * Every value below is explained in docs/provisioning.md, including the exact",
  " * command to generate it. Do not invent the random ones by hand - a PSK typed",
  " * from imagination is the weakest part of an otherwise post-quantum system.",
  " */",
  "",
  "#ifndef DEVICE_CONFIG_H",
  "#define DEVICE_CONFIG_H",
  "",
  "/* ---------------------------------------------------------------- network -- */",
  ""]

/-- Between the password and the host. -/
def serverComment : List String := [
  "",
  "/* The Raspberry Pi running the reference server. Give it a static lease in your",
  " * router, or the address will move and the firmware will need reflashing. */"]

/-- Between the port and the time limit. -/
def retryComment : List String := [
  "",
  "/* How often the client gives up on a connection attempt, and how long it waits",
  " * before retrying. Retries back off; this is the first interval. */"]

/-- Between the first retry interval and the identifier. -/
def idComment : List String := [
  "",
  "/* ----------------------------------------------------------- identity/PSK -- */",
  "",
  "/*",
  " * 8-byte device identifier. Not secret - it travels in the clear in ClientHello",
  " * so the server can look up the right PSK. It only has to be unique across your",
  " * devices.",
  " *",
  " *   openssl rand -hex 8 | sed 's/../0x&, /g'",
  " */"]

/-- Between the identifier and the key. -/
def pskComment : List String := [
  "",
  "/*",
  " * 32-byte pre-shared key. SECRET. The same bytes must be registered for this",
  " * device_id on the server.",
  " *",
  " * Per docs/protocol.md this is not merely an authentication token: it is mixed",
  " * into the key schedule alongside the ML-KEM shared secret. An adversary who",
  " * breaks ML-KEM still faces these 256 bits. That only holds if they really are",
  " * 256 random bits.",
  " *",
  " *   openssl rand -hex 32 | sed 's/../0x&, /g'",
  " */",
  "#define DEVICE_PSK                                                            \\",
  "    \x7b                                                                         \\"]

/-- Between the key and the rekey interval. -/
def rekeyComment : List String := [
  "    \x7d",
  "",
  "/* --------------------------------------------------------------- rekeying -- */",
  "",
  "/*",
  " * Seconds between handshakes. This is the knob the whole project is about:",
  " * a mode A handshake costs about 33 sensor readings on the wire, a mode B one",
  " * about 91 (docs/protocol.md). Shorter interval, better forward secrecy,",
  " * proportionally more of the node's energy spent on key establishment.",
  " *",
  " * 3600 is a starting point, not a recommendation. v2 measures what it costs.",
  " */"]

/-- After the last value. -/
def ending : List String := [
  "",
  "#endif /* DEVICE_CONFIG_H */"]

/-- A `#define` of a string. -/
def quoted (lead : String) (value : List Char) : List Char := lead.toList ++ value ++ ['"']

/-- A `#define` of a number. -/
def plain (lead : String) (value : List Char) : List Char := lead.toList ++ value

/-- A line with bytes. -/
def bytesLine (lead : String) (row : List ByteText) (tail : String) : List Char :=
  lead.toList ++ rowText row ++ tail.toList

/-- The lines of the file but the last. -/
def initLines (v : Values) : List (List Char) :=
  banner.map String.toList ++
  [quoted "#define WIFI_SSID     \"" v.wifiSsid,
    quoted "#define WIFI_PASSWORD \"" v.wifiPassword] ++
  serverComment.map String.toList ++
  [quoted "#define SERVER_HOST \"" v.serverHost, plain "#define SERVER_PORT " v.serverPort] ++
  retryComment.map String.toList ++
  [plain "#define CONNECT_TIMEOUT_MS " v.connectTimeoutMs,
    plain "#define RETRY_BASE_MS      " v.retryBaseMs] ++
  idComment.map String.toList ++
  [bytesLine "#define DEVICE_ID \x7b " v.deviceId " \x7d"] ++
  pskComment.map String.toList ++
  [bytesLine "        " (v.devicePsk.take 11) ",     \\",
    bytesLine "        " ((v.devicePsk.drop 11).take 11) ",     \\",
    bytesLine "        " (v.devicePsk.drop 22) "            \\"] ++
  rekeyComment.map String.toList ++
  [plain "#define REKEY_INTERVAL_S " v.rekeyIntervalS]

/-- The lines of the file. -/
def lines (v : Values) : List (List Char) := initLines v ++ ending.map String.toList

/-- The file. -/
def text (v : Values) : List Char := unlines (lines v)

/-- The parts of the template without a value. -/
def fixedParts : List (List String) :=
  [banner, serverComment, retryComment, idComment, pskComment, rekeyComment, ending]

/-- The fixed lines of the template are lines. -/
theorem isLine_fixed : ∀ part ∈ fixedParts, ∀ line ∈ part.map String.toList, IsLine line := by
  simp only [fixedParts, banner, serverComment, retryComment, idComment, pskComment, rekeyComment,
    ending, List.map_cons, List.map_nil, List.forall_mem_cons, List.not_mem_nil, false_imp_iff,
    implies_true, and_true]
  and_intros <;> exact toList_ofList_induction IsLine _ (by decide)

/-- A row is part of a line. -/
theorem isLine_rowText (row : List ByteText) : IsLine (rowText row) := by
  constructor <;> intro h <;> rcases mem_rowText h with h | h <;> simp [digitValue] at h

/-- So is a row with what stands around it. -/
theorem isLine_bytesLine {lead tail : String} (hlead : IsLine lead.toList) (row : List ByteText)
    (htail : IsLine tail.toList) : IsLine (bytesLine lead row tail) :=
  (hlead.append (isLine_rowText row)).append htail

/-- The lines contain no line break. -/
theorem isLine_lines (v : Values) : ∀ line ∈ lines v, IsLine line := by
  have happend (x y : List (List Char)) (hx : ∀ l ∈ x, IsLine l) (hy : ∀ l ∈ y, IsLine l) :
      ∀ l ∈ x ++ y, IsLine l := fun l hl => (List.mem_append.mp hl).elim (hx l) (hy l)
  have hvalue := v.isLine
  simp only [List.forall_mem_cons, List.not_mem_nil, false_imp_iff, implies_true,
    and_true] at hvalue
  obtain ⟨hssid, hpassword, hhost, hport, hconnect, hretry, hrekey⟩ := hvalue
  have hquote : IsLine ['"'] := by decide
  unfold lines initLines
  repeat' apply happend
  all_goals first
    | exact isLine_fixed _ (by simp [fixedParts])
    | simp only [List.forall_mem_cons, List.not_mem_nil, false_imp_iff, implies_true, and_true]
  · exact ⟨(IsLine.append (by decide) hssid).append hquote,
      (IsLine.append (by decide) hpassword).append hquote⟩
  · exact ⟨(IsLine.append (by decide) hhost).append hquote, IsLine.append (by decide) hport⟩
  · exact ⟨IsLine.append (by decide) hconnect, IsLine.append (by decide) hretry⟩
  · exact isLine_bytesLine (by decide) _ (by decide)
  · exact ⟨isLine_bytesLine (by decide) _ (by decide), isLine_bytesLine (by decide) _ (by decide),
      isLine_bytesLine (by decide) _ (by decide)⟩
  · exact IsLine.append (by decide) hrekey

end DeviceConfig

end PqcIot
