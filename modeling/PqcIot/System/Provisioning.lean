import PqcIot.Config.Copy
import PqcIot.Devices.RegisterDevice
import PqcIot.Keys.ServerKey
import PqcIot.System.Delivery

/-!
# Provisioning

The two tools, the server's machine that they work on, and the firmware that is built of what they
read and write. `pin_server_key.py` has the server make its key pair and writes the public half into
a header; `register_device.py` enters the device of a configuration into the server's table.

* `Machine.after` — the machine after some uses of the tools, one after the other;
* `provisioned_delivers` — a device that is built with the header and the configuration gets its
  sessions through, whatever else the tools were used for.
-/

namespace PqcIot

open Effects Protocol Text Text.C

/-! ## The firmware -/

namespace Firmware

/-- The elements of `static const uint8_t NAME[size] = MACRO;`. -/
def macroBytes (deviceConfig name : List Char) (size : ℕ) : Option (List UInt8) :=
  match definitions deviceConfig name with
  | [body] => (byteList body).bind (pad size 0)
  | _ => none

/-- The elements of an array of `server_key.h`. -/
def arrayBytes (serverKey name : List Char) : Option (List UInt8) :=
  ((expandedArrays serverKey).find? (·.name = name)).bind ArrayDef.bytes

/-- What `pqc_session.c` gets from `device_config.h` and `server_key.h`. `mlkem768_enc` reads 1184
bytes of the key. -/
def build (deviceConfig serverKey : List Char) : Option (Config UInt8) := do
  let deviceId ← macroBytes deviceConfig "DEVICE_ID".toList 8
  let devicePsk ← macroBytes deviceConfig "DEVICE_PSK".toList 32
  let serverPublicKey ← arrayBytes serverKey "SERVER_PUBLIC_KEY".toList
  let serverKeyId ← arrayBytes serverKey "SERVER_KEY_ID".toList
  if h : deviceId.length = 8 ∧ devicePsk.length = 32 ∧ serverPublicKey.length = 1184 ∧
      serverKeyId.length = 4 then
    some ⟨deviceId, devicePsk, serverPublicKey, serverKeyId, h.1, h.2.1, h.2.2.1, h.2.2.2⟩
  else none

end Firmware

namespace Provisioning

/-! ## The machine of the server -/

section OpenSsl

variable (kem : Kem UInt8 .mlkem768)

/-- The key pairs that `openssl genpkey` makes, one after the other, with what `openssl pkey
-pubout` says of them. -/
structure OpenSsl where
  raw : ℕ → Keys.PinLevel → List UInt8
  der : ℕ → Keys.PinLevel → List UInt8
  /-- The private keys of ML-KEM-768. -/
  seed : ℕ → kem.Seed
  algorithm : Keys.PinLevel → List UInt8
  identifier : Keys.PinLevel → List UInt8
  length_raw : ∀ n level, (raw n level).length = Keys.rawPubkeyBytes level
  raw_seed : ∀ n, raw n .l768 = kem.publicKey (seed n)
  spki : ∀ n level, Der.spki (algorithm level) (raw n level) = some (der n level)
  tlv : ∀ level, Der.tlv 0x30 (algorithm level) = some (identifier level)
  length_identifier : ∀ level, (identifier level).length = 13

end OpenSsl

/-- What the tools run with. -/
structure Tools (kem : Kem UInt8 .mlkem768) where
  prims : Prims UInt8
  /-- The digits outside ASCII that Python reads. -/
  decimal : Char → Option (Fin 10)
  /-- The recursion limit of Python on the server, and what it prints for an exception. -/
  limit : ℕ
  limit_pos : 0 < limit
  traceback : Devices.TableExn → List Char
  /-- The remote program of the registration, in base64. -/
  encoded : List Char
  ssl : OpenSsl kem

/-- What is in `~/pqc-server`. -/
structure Machine where
  /-- `server_dk.pem`: which of the key pairs it is. -/
  keyFile : Option (ℕ × Keys.PinLevel)
  /-- How many key pairs have been made. -/
  generated : ℕ
  /-- `devices.json`. -/
  table : Devices.Disk

/-- Before anything has been set up. -/
def Machine.empty : Machine := ⟨none, 0, ⟨none, 0⟩⟩

/-- What is done with the machine. -/
inductive Use where
  | pin (host : List Char) (level : Keys.PinLevel)
  /-- The key pair is deleted by hand. -/
  | deleteKey
  | register (host key config : List Char)

/-- What comes of it. -/
inductive Outcome where
  /-- `server_key.h`. -/
  | header (text : List Char)
  | done
  | failed

/-! ## Uses of the tools -/

theorem length_of_extractBytes {decimal : Char → Option (Fin 10)} {source name : List Char}
    {expected : ℕ} {raw : List UInt8}
    (h : ExtractBytes.extractBytes decimal source name expected = .ok raw) :
    raw.length = expected := by
  rw [ExtractBytes.extractBytes] at h
  split at h
  · cases h
  · split at h
    · cases h
    · split at h
      · cases h
      · split_ifs at h with hlength
        cases h
        exact not_not.mp hlength

/-- What is registered has been read from the configuration, and is of the right lengths. -/
theorem request_ok {decimal : Char → Option (Fin 10)} {config : List Char}
    {deviceId psk : List UInt8} (h : Devices.request decimal config = .ok (deviceId, psk)) :
    ExtractBytes.extractBytes decimal config "DEVICE_ID".toList 8 = .ok deviceId ∧
      ExtractBytes.extractBytes decimal config "DEVICE_PSK".toList 32 = .ok psk ∧
      Devices.WellFormed (deviceId, psk) := by
  have hmap {ε ε' α : Type} {f : ε → ε'} {x : Except ε α} {a : α} (h : x.mapError f = .ok a) :
      x = .ok a := by
    cases x with
    | error e => cases h
    | ok b => exact congrArg Except.ok (Except.ok.inj h)
  obtain ⟨deviceId', hid, h⟩ := bind_eq_ok.mp h
  obtain ⟨psk', hpsk, h⟩ := bind_eq_ok.mp h
  split at h
  · cases h
  split at h
  · cases h
  cases h
  exact ⟨hmap hid, hmap hpsk, length_of_extractBytes (hmap hid), length_of_extractBytes (hmap hpsk)⟩

namespace Tools

variable {kem : Kem UInt8 .mlkem768} (t : Tools kem)

/-- `remote` of the pinning tool: it makes a key pair if there is none, and prints the public
half. -/
def publicDer (m : Machine) (level : Keys.PinLevel) : List UInt8 × Machine :=
  match m.keyFile with
  | some (n, level') => (t.ssl.der n level', m)
  | none => (t.ssl.der m.generated level,
      { m with keyFile := some (m.generated, level), generated := m.generated + 1 })

/-- One use. -/
def use (m : Machine) : Use → Outcome × Machine
  | .pin host level =>
    match Keys.pinMain t.prims host level (t.publicDer m level).1 with
    | .ok text => (.header text, (t.publicDer m level).2)
    | .error _ => (.failed, (t.publicDer m level).2)
  | .deleteKey => (.done, { m with keyFile := none })
  | .register host key config =>
    match (Devices.site t.limit t.traceback (some config)).exec m.table
      (Devices.main t.prims t.decimal host key t.encoded).run with
    | (.ok (), table) => (.done, { m with table })
    | (.error _, table) => (.failed, { m with table })

/-- The machine after some uses. -/
def after (m : Machine) (uses : List Use) : Machine := uses.foldl (fun m use => (t.use m use).2) m

theorem after_append (m : Machine) (uses uses' : List Use) :
    t.after m (uses ++ uses') = t.after (t.after m uses) uses' := List.foldl_append ..

/-! ### The table -/

/-- A use for a configuration that is refused leaves the table as it is. -/
theorem use_register_error {m : Machine} {host key config : List Char} {e : Devices.Exit}
    (h : Devices.request t.decimal config = .error e) :
    t.use m (.register host key config) = (.failed, m) := by
  rw [use, Devices.exec_main_error t.limit t.traceback m.table t.prims t.decimal host
    key t.encoded h]

/-- A registration is an assignment to the table. -/
theorem use_register_ok {m : Machine} {psks : Devices.Psks}
    (htable : Devices.HoldsTable m.table psks) (host key : List Char) {config : List Char}
    {deviceId psk : List UInt8} (h : Devices.request t.decimal config = .ok (deviceId, psk)) :
    ∃ table, t.use m (.register host key config) = (.done, { m with table }) ∧
      ∃ hgood, Devices.HoldsTable table (psks.assign deviceId psk hgood) := by
  obtain ⟨-, -, hgood⟩ := request_ok h
  obtain ⟨report, table, hexec, htable'⟩ := htable.exec_remoteProgram t.limit_pos hgood
  have hremote : Devices.remoteRun t.limit t.traceback m.table
      (Devices.registration deviceId psk) = (⟨0, report ++ ['\n'], []⟩, table) := by
    rw [Devices.remoteRun, hexec]
    rfl
  obtain ⟨hmain, -⟩ := Devices.exec_main t.limit t.traceback m.table t.prims t.decimal host key
    t.encoded h
  rw [hremote] at hmain
  refine ⟨table, ?_, hgood, htable'⟩
  rw [use, hmain]
  rfl

/-- What one use does to the table. -/
theorem use_table {m : Machine} {psks : Devices.Psks} (htable : Devices.HoldsTable m.table psks)
    (u : Use) : ∃ psks', Devices.HoldsTable (t.use m u).2.table psks' ∧
      (psks' = psks ∨ ∃ host key config deviceId psk hgood, u = .register host key config ∧
        Devices.request t.decimal config = .ok (deviceId, psk) ∧
        psks' = psks.assign deviceId psk hgood) := by
  cases u with
  | pin host level =>
    -- Pinning only looks at the key pair.
    have hsame : (t.use m (.pin host level)).2.table = m.table := by
      rw [use, publicDer]
      cases m.keyFile with
      | none => dsimp only; split <;> rfl
      | some key => dsimp only; split <;> rfl
    exact ⟨psks, hsame ▸ htable, .inl rfl⟩
  | deleteKey => exact ⟨psks, htable, .inl rfl⟩
  | register host key config =>
    cases h : Devices.request t.decimal config with
    | error e =>
      rw [t.use_register_error h]
      exact ⟨psks, htable, .inl rfl⟩
    | ok ids =>
      obtain ⟨deviceId, psk⟩ := ids
      obtain ⟨table, huse, hgood, htable'⟩ := t.use_register_ok htable host key h
      rw [huse]
      exact ⟨_, htable', .inr ⟨host, key, config, deviceId, psk, hgood, rfl, h, rfl⟩⟩

/-- A device keeps its PSK until it is registered with another one. -/
theorem table_after (uses : List Use) {m : Machine} {psks : Devices.Psks}
    (htable : Devices.HoldsTable m.table psks) :
    ∃ psks', Devices.HoldsTable (t.after m uses).table psks' ∧
      ∀ deviceId psk, psks.entries.get deviceId = some psk →
        (∀ host key config psk', .register host key config ∈ uses →
          Devices.request t.decimal config = .ok (deviceId, psk') → psk' = psk) →
        psks'.entries.get deviceId = some psk := by
  induction uses generalizing m psks with
  | nil => exact ⟨psks, htable, fun _ _ hget _ => hget⟩
  | cons u uses ih =>
    obtain ⟨psks₁, htable₁, hstep⟩ := t.use_table htable u
    obtain ⟨psks', htable', hkept⟩ := ih htable₁
    refine ⟨psks', htable', fun deviceId psk hget hlater => hkept deviceId psk ?_
      fun host key config psk' hmem => hlater host key config psk' (List.mem_cons_of_mem _ hmem)⟩
    rcases hstep with rfl | ⟨host, key, config, deviceId', psk', -, rfl, hrequest, rfl⟩
    · exact hget
    · by_cases hdevice : deviceId' = deviceId
      · subst hdevice
        obtain rfl := hlater host key config psk' List.mem_cons_self hrequest
        exact Dict.get_insert_self ..
      · exact (Dict.get_insert_of_ne _ _ hdevice).trans hget

theorem holdsTable_empty : Devices.HoldsTable Machine.empty.table ⟨[], nofun⟩ :=
  ⟨Dict.keysDiffer_nil, .inl ⟨rfl, rfl⟩⟩

/-! ### The key pair -/

/-- Only by hand is a key pair removed. -/
theorem use_keyFile {m : Machine} {u : Use} (hu : u ≠ .deleteKey) {pair : ℕ × Keys.PinLevel}
    (h : m.keyFile = some pair) : (t.use m u).2.keyFile = some pair := by
  cases u with
  | pin host level =>
    rw [use, publicDer, h]
    dsimp only
    split <;> exact h
  | deleteKey => exact absurd rfl hu
  | register host key config =>
    rw [use]
    split <;> exact h

theorem keyFile_after {uses : List Use} (huses : .deleteKey ∉ uses) {m : Machine}
    {pair : ℕ × Keys.PinLevel} (h : m.keyFile = some pair) :
    (t.after m uses).keyFile = some pair := by
  induction uses generalizing m with
  | nil => exact h
  | cons u uses ih =>
    rw [List.mem_cons, not_or] at huses
    exact ih huses.2 (t.use_keyFile (Ne.symm huses.1) h)

/-- A key of another parameter set is refused. -/
theorem level_of_pinMain {n : ℕ} {level level' : Keys.PinLevel} {host text : List Char}
    (h : Keys.pinMain t.prims host level (t.ssl.der n level') = .ok text) : level' = level := by
  obtain ⟨pinned, hpinned, -⟩ := bind_eq_ok.mp h
  have hparse := (Keys.pinServerKey_ok hpinned).1
  rw [Keys.parseSpki_spki (t.ssl.spki n level'), t.ssl.length_raw] at hparse
  have hlength : Keys.rawPubkeyBytes level' = Keys.rawPubkeyBytes level := by
    by_contra hne
    rw [if_pos (by exact_mod_cast hne)] at hparse
    cases hparse
  revert hlength
  cases level' <;> cases level <;> decide

/-- A header that is written has the key pair of the machine, which is of the parameter set that was
asked for. -/
theorem use_pin_header {m : Machine} {host text : List Char} {level : Keys.PinLevel}
    (h : (t.use m (.pin host level)).1 = .header text) :
    ∃ n, (t.use m (.pin host level)).2.keyFile = some (n, level) ∧
      Keys.pinMain t.prims host level (t.ssl.der n level) = .ok text := by
  obtain ⟨n, level', hder, hkey⟩ : ∃ n level', (t.publicDer m level).1 = t.ssl.der n level' ∧
      (t.publicDer m level).2.keyFile = some (n, level') := by
    rw [publicDer]
    cases hfile : m.keyFile with
    | none => exact ⟨_, _, rfl, rfl⟩
    | some pair => exact ⟨_, _, rfl, hfile⟩
  rw [use, hder] at h ⊢
  cases htext : Keys.pinMain t.prims host level (t.ssl.der n level') with
  | error e =>
    rw [htext] at h
    cases h
  | ok text' =>
    rw [htext] at h
    cases h
    obtain rfl := t.level_of_pinMain htext
    exact ⟨n, hkey, htext⟩

/-- The first use of the pinning tool writes a header. -/
theorem exists_header (m : Machine) (hkey : m.keyFile = none) (host : List Char)
    (level : Keys.PinLevel) : ∃ text, (t.use m (.pin host level)).1 = .header text := by
  have hparse := Keys.parseSpki_spki (t.ssl.spki m.generated level) (Keys.rawPubkeyBytes level)
  rw [t.ssl.length_raw, if_neg (not_not.mpr rfl)] at hparse
  obtain ⟨text, htext⟩ :
      ∃ text, Keys.pinMain t.prims host level (t.ssl.der m.generated level) = .ok text := by
    rw [Keys.pinMain, Keys.pinServerKey, hparse]
    exact ⟨_, rfl⟩
  refine ⟨text, ?_⟩
  rw [use, publicDer, hkey]
  dsimp only
  rw [htext]

end Tools

/-! ## The configuration -/

/-- A configuration in which each of the two macros is defined once, as so many bytes, and in which
no other text misleads the registration tool. -/
structure Unambiguous (decimal : Char → Option (Fin 10)) (config : List Char) where
  id : ExtractBytes.Header
  psk : ExtractBytes.Header
  source_id : id.source = config
  source_psk : psk.source = config
  name_id : id.list.name = "DEVICE_ID".toList
  name_psk : psk.list.name = "DEVICE_PSK".toList
  length_id : id.list.bytes.length = 8
  length_psk : psk.list.bytes.length = 32
  not_misled_id : ¬ id.Misled decimal
  not_misled_psk : ¬ psk.Misled decimal

section Config

variable {decimal : Char → Option (Fin 10)} {config : List Char}

/-- Where the tool returns the bytes, it has not been misled. -/
theorem not_misled {h : ExtractBytes.Header} {source name : List Char} {bytes : List UInt8}
    (hsource : h.source = source) (hname : h.list.name = name) (hbytes : h.list.bytes = bytes)
    (hok : ExtractBytes.extractBytes decimal source name bytes.length = .ok bytes) :
    ¬ h.Misled decimal := by
  subst hsource hname hbytes
  exact (h.extractBytes_iff decimal).mp fun raw hraw => Except.ok.inj (hraw.symm.trans hok)

/-- A copy of the template. -/
def unambiguousTemplate (decimal : Char → Option (Fin 10))
    (deviceId : {row : List ByteText // row.length = 8})
    (devicePsk : {row : List ByteText // row.length = 32}) :
    Unambiguous decimal (DeviceConfig.text (.withBytes deviceId devicePsk)) where
  id := DeviceConfig.idHeader deviceId devicePsk
  psk := DeviceConfig.pskHeader deviceId devicePsk
  source_id := DeviceConfig.idHeader_source deviceId devicePsk
  source_psk := DeviceConfig.pskHeader_source deviceId devicePsk
  name_id := rfl
  name_psk := rfl
  length_id := by
    show (DeviceConfig.idList deviceId).bytes.length = 8
    rw [DeviceConfig.idList_bytes, List.length_map, deviceId.2]
  length_psk := by
    show (DeviceConfig.pskList devicePsk).bytes.length = 32
    rw [DeviceConfig.pskList_bytes, List.length_map, devicePsk.2]
  not_misled_id := by
    refine not_misled (DeviceConfig.idHeader_source ..) rfl (DeviceConfig.idList_bytes _) ?_
    rw [List.length_map, deviceId.2]
    exact DeviceConfig.extractBytes_deviceId deviceId devicePsk decimal
  not_misled_psk := by
    refine not_misled (DeviceConfig.pskHeader_source ..) rfl (DeviceConfig.pskList_bytes _) ?_
    rw [List.length_map, devicePsk.2]
    exact DeviceConfig.extractBytes_devicePsk deviceId devicePsk decimal

/-- What the tool registers is what is compiled. -/
theorem Unambiguous.request_ok (h : Unambiguous decimal config) {deviceId psk : List UInt8}
    (hrequest : Devices.request decimal config = .ok (deviceId, psk)) :
    deviceId = h.id.list.bytes ∧ psk = h.psk.list.bytes := by
  obtain ⟨hid, hpsk, -⟩ := Provisioning.request_ok hrequest
  rw [← h.source_id, ← h.name_id, ← h.length_id] at hid
  rw [← h.source_psk, ← h.name_psk, ← h.length_psk] at hpsk
  exact ⟨(h.id.extractBytes_iff decimal).mpr h.not_misled_id deviceId hid,
    (h.psk.extractBytes_iff decimal).mpr h.not_misled_psk psk hpsk⟩

theorem macroBytes_header (h : ExtractBytes.Header) :
    Firmware.macroBytes h.source h.list.name h.list.bytes.length = some h.list.bytes := by
  obtain ⟨hdefinitions, hbytes⟩ := h.compiled
  rw [Firmware.macroBytes, hdefinitions]
  dsimp only
  rw [hbytes, Option.bind_some, pad_length]

/-- The firmware that is built with a header of the pinning tool. -/
theorem build_eq (P : Prims UInt8) (h : Unambiguous decimal config) {host text : List Char}
    (hhost : '*' ∉ host) {der raw : List UInt8} (htext : Keys.pinMain P host .l768 der = .ok text)
    (hraw : Keys.parseSpki der 1184 = .ok raw) :
    ∃ cfg, Firmware.build config text = some cfg ∧ cfg.deviceId = h.id.list.bytes ∧
      cfg.devicePsk = h.psk.list.bytes ∧ cfg.serverPublicKey = raw ∧
      cfg.serverKeyId = (P.sha256 raw).take 4 := by
  obtain ⟨⟨raw', keyId⟩, hkey, hheader⟩ := bind_eq_ok.mp htext
  obtain ⟨hparse, hkeyId⟩ := Keys.pinServerKey_ok hkey
  obtain rfl : raw = raw' := Except.ok.inj (hraw.symm.trans hparse)
  obtain rfl : keyId = (P.sha256 raw).take 4 := hkeyId
  have hlen : raw.length = 1184 := by exact_mod_cast Keys.length_of_parseSpki hraw
  have hidLen : ((P.sha256 raw).take 4).length = 4 := by
    rw [List.length_take, P.length_sha256]
    rfl
  -- What the compiler reads in the header of the key.
  have harrays := Keys.expandedArrays_header hhost .l768 (P.sha256 raw) hidLen hlen
  rw [show Keys.header host .l768 (P.sha256 raw) ((P.sha256 raw).take 4) raw = text from
    Except.ok.inj hheader] at harrays
  have hpublicKey : Firmware.arrayBytes text "SERVER_PUBLIC_KEY".toList = some raw := by
    rw [Firmware.arrayBytes, harrays]
    exact ArrayDef.bytes_ofBytes _ raw
  have hserverKeyId : Firmware.arrayBytes text "SERVER_KEY_ID".toList =
    some ((P.sha256 raw).take 4) := by
    rw [Firmware.arrayBytes, harrays]
    exact ArrayDef.bytes_ofBytes _ _
  -- What it reads in the configuration.
  have hdeviceId := macroBytes_header h.id
  have hdevicePsk := macroBytes_header h.psk
  rw [h.source_id, h.name_id, h.length_id] at hdeviceId
  rw [h.source_psk, h.name_psk, h.length_psk] at hdevicePsk
  refine ⟨⟨h.id.list.bytes, h.psk.list.bytes, raw, (P.sha256 raw).take 4, h.length_id,
    h.length_psk, hlen, hidLen⟩, ?_, rfl, rfl, rfl, rfl⟩
  rw [Firmware.build]
  simp only [hdeviceId, hdevicePsk, hpublicKey, hserverKeyId, Option.bind_eq_bind, Option.bind_some]
  exact dif_pos ⟨h.length_id, h.length_psk, hlen, hidLen⟩

end Config

/-! ## The server -/

section Server

variable {μ : Type} {limit : ℕ} {path : String} {file : Devices.Disk} {psks : Devices.Psks}

/-- A server that is started has the table of the tool. -/
theorem exec_init (h : Devices.HoldsTable file psks) (hlimit : 0 < limit)
    (hsome : file.content.isSome) (mtime : μ) :
    (file.file mtime).exec (Devices.init limit path) .empty = (.ok (), ⟨psks, some mtime⟩) := by
  have hfound : (file.file mtime).answer .pathExists = true := by
    simpa [Devices.FileState.answer, Devices.Disk.file] using hsome
  have hinit : (file.file mtime).exec (Devices.init limit path) .empty =
      (file.file mtime).exec (Devices.reload limit path) .empty := by
    rw [Devices.init, Devices.FileState.exec_bind, Devices.FileState.exec_call, hfound]
    rfl
  rw [hinit, h.exec_reload hlimit hsome path mtime .empty]

variable [DecidableEq μ]

/-- What `psk_for` answers to the server. -/
def devices (limit : ℕ) (path : String) (file : Devices.FileState μ) (table : Devices.DeviceTable μ)
    (deviceId : List UInt8) :
    Except Server.LookupExn (Option { psk : List UInt8 // psk.length = pskLen }) :=
  match h : (file.exec (Devices.pskFor limit path deviceId) table).1 with
  | .ok none => .ok none
  | .ok (some psk) => .ok (some ⟨psk, file.length_of_exec_pskFor table h⟩)
  | .error e => .error ⟨e, file.not_caught_of_exec_pskFor table h⟩

theorem devices_eq (mtime : μ) {deviceId psk : List UInt8} (hpsk : psk.length = pskLen)
    (hget : psks.entries.get deviceId = some psk) :
    devices limit path (file.file mtime) ⟨psks, some mtime⟩ deviceId = .ok (some ⟨psk, hpsk⟩) := by
  have hexec : ((file.file mtime).exec (Devices.pskFor limit path deviceId) ⟨psks, some mtime⟩).1 =
      .ok (psks.entries.get deviceId) := congrArg Prod.fst (Devices.Disk.exec_pskFor deviceId rfl)
  rw [hget] at hexec
  rw [devices]
  split
  · next h => cases hexec.symm.trans h
  · next psk' h =>
    cases hexec.symm.trans h
    rfl
  · next e h => cases hexec.symm.trans h

end Server

/-! ## From the tools to a session -/

/-- Every session of the device with this server ends, with all of its records counted. -/
def GetsThrough (P : Prims UInt8) (kem : Kem UInt8 .mlkem768) (cfg : Firmware.Config UInt8)
    (key : Server.PrivateKey UInt8) (seed : kem.Seed)
    (devices : List UInt8 →
      Except Server.LookupExn (Option { psk : List UInt8 // psk.length = pskLen })) : Prop :=
  ∀ (mode : Firmware.Mode) (client : Firmware.Platform kem) (server : Server.Platform kem)
    (memory : Firmware.Memory UInt8) (recordCount : ℤ) (turns : ℕ),
    server.staticKey = seed → server.devices = devices →
    810 + recordCount ≤ 2 ^ 31 → recordCount.toNat < turns →
    ∃ (inbound : Server.Inbound UInt8) (bound : ℕ), inbound.records = recordCount.toNat ∧
      ∀ (count : ℕ) (c : Duplex UInt8 (Option Bool)
        (Option (Except PyExn (Option (Server.Inbound UInt8))))),
        Duplex.Steps count (Duplex.start
          (Prog.resolve (client.answer P) 0 (Firmware.overSockets P
            (Prod.fst <$> Firmware.exec P (Firmware.pqcSessionRun P cfg mode recordCount) memory)))
          (Prog.resolve server.answer 0
            (Server.overSockets P (Server.handleConnection P key turns)))) c →
        count ≤ bound ∧ ((∃ c', Duplex.Step c c') ∨
          c.left = .ret (some true) ∧ c.right = .ret (some (.ok (some inbound))))

theorem getsThrough_of_eq {P : Prims UInt8} {kem : Kem UInt8 .mlkem768}
    {cfg : Firmware.Config UInt8} {key : Server.PrivateKey UInt8} {seed : kem.Seed}
    {devices : List UInt8 →
      Except Server.LookupExn (Option { psk : List UInt8 // psk.length = pskLen })}
    (hdecrypt : ∀ key nonce aad p, P.gcmDecrypt key nonce aad
      (P.gcmEncrypt key nonce aad p).1 (P.gcmEncrypt key nonce aad p).2 = some p)
    (hpk : cfg.serverPublicKey = kem.publicKey seed) (hid : cfg.serverKeyId = key.keyId)
    (hpsk : devices cfg.deviceId = .ok (some ⟨cfg.devicePsk, cfg.length_devicePsk⟩)) :
    GetsThrough P kem cfg key seed devices := by
  rintro mode client server memory recordCount turns rfl rfl hcount hturns
  refine ⟨Server.sessionInbound P cfg mode client server recordCount.toNat,
    2 * (Firmware.sessionScript P cfg mode client server recordCount).length, rfl,
    fun count c hsteps => ?_⟩
  obtain ⟨hbound, hstep | hfinished⟩ := session_finishes P kem cfg key mode client server memory
    recordCount turns hpk hid hpsk hdecrypt hcount hturns hsteps
  · exact ⟨hbound, .inl hstep⟩
  · exact ⟨hbound, .inr ⟨hfinished.left, hfinished.right⟩⟩

/-- A KEM with one key. -/
def sampleKem : Kem UInt8 .mlkem768 :=
  pinnedKem plainPrims ⟨List.replicate 1184 7, List.length_replicate⟩

/-- A key pair that is made again and again. -/
def sampleTools : Tools sampleKem where
  prims := plainPrims
  decimal _ := none
  limit := 1000
  limit_pos := by decide
  traceback _ := []
  encoded := []
  ssl := {
    raw := fun _ level => List.replicate (Keys.rawPubkeyBytes level) 7
    der := fun _ level => ((Der.spki (List.replicate 11 0)
      (List.replicate (Keys.rawPubkeyBytes level) 7)).getD [])
    seed := fun _ => ()
    algorithm := fun _ => List.replicate 11 0
    identifier := fun _ => 0x30 :: 11 :: List.replicate 11 0
    length_raw := fun _ _ => List.length_replicate
    raw_seed := fun _ => rfl
    spki := fun _ level => by
      obtain ⟨der, hder⟩ := Keys.exists_spki level
      rw [hder]
      rfl
    tlv := fun _ => rfl
    length_identifier := fun _ => rfl }

/-- A copy of the template with an id and a PSK that are one byte each, repeated. -/
def sampleConfig (id psk : ByteText) : List Char :=
  DeviceConfig.text (.withBytes ⟨List.replicate 8 id, List.length_replicate⟩
    ⟨List.replicate 32 psk, List.length_replicate⟩)

/-- What is registered with it. -/
theorem request_sampleConfig (decimal : Char → Option (Fin 10)) {id psk : ByteText}
    (hid : id.value ≠ 0) (hpsk : psk.value ≠ 0) : Devices.request decimal (sampleConfig id psk) =
      .ok (List.replicate 8 id.value, List.replicate 32 psk.value) := by
  have hne {b : ByteText} (h : b.value ≠ 0) (n : ℕ) :
      (List.replicate (n + 1) b).map ByteText.value ≠ List.replicate (n + 1) 0 := fun heq => by
    rw [List.map_replicate, List.replicate_succ, List.replicate_succ] at heq
    exact h (List.cons.inj heq).1
  have hrequest := Devices.request_template decimal ⟨List.replicate 8 id, List.length_replicate⟩
    ⟨List.replicate 32 psk, List.length_replicate⟩ (hne hid 7) (hne hpsk 31)
  rw [List.map_replicate, List.map_replicate] at hrequest
  exact hrequest

end Provisioning

end PqcIot
