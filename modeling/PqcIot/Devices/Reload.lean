import PqcIot.Devices.Table

/-!
# Reloading the table

What `_reload` and `psk_for` do at any state of the file (`exec_reload`, `exec_pskFor`). A file that
cannot be loaded leaves both fields alone. `psk_for` answers at all exactly where the failure is one
that it catches (`Tolerated`): the exceptions for the mode, for a malformed entry and for JSON of
another shape are not among them.
-/

namespace PqcIot

open Effects Protocol Text

namespace Devices

variable {μ α γ : Type}

/-- The file at some moment. -/
structure FileState (μ : Type) where
  /-- What `stat` gives; `none` where it raises `OSError`. -/
  stat : Option (Stat μ)
  /-- What is read from it; `none` where that raises `OSError`. -/
  content : Option ByteArray

namespace FileState

/-- The answers of a file that does not change. -/
def answer (file : FileState μ) : ∀ o : FileOp, FileOp.Ans μ o
  | .pathExists => file.stat.isSome
  | .stat => file.stat
  | .readText => file.content

/-- Run code on a file that does not change. -/
def exec (file : FileState μ) (c : Code μ α) (table : DeviceTable μ) :
    Except TableExn α × DeviceTable μ :=
  Prog.eval file.answer (c.run.run table)

variable (file : FileState μ) (table : DeviceTable μ)

@[simp]
theorem exec_pure (a : α) : file.exec (pure a) table = (.ok a, table) := rfl

@[simp]
theorem exec_throw (e : TableExn) : file.exec (throw e : Code μ α) table = (.error e, table) := rfl

@[simp]
theorem exec_call (o : FileOp) : file.exec (Code.call o) table = (.ok (file.answer o), table) := rfl

@[simp]
theorem exec_get : file.exec get table = (.ok table, table) := rfl

@[simp]
theorem exec_modify (f : DeviceTable μ → DeviceTable μ) :
    file.exec (modify f) table = (.ok (), f table) := rfl

/-- The rest of a sequence runs where the first part returns. -/
theorem exec_bind (c : Code μ α) (f : α → Code μ γ) :
    file.exec (c >>= f) table = match file.exec c table with
      | (.ok a, table') => file.exec (f a) table'
      | (.error e, table') => (.error e, table') := by
  rw [exec, Code.run_bind, Prog.eval_bind, ← exec]
  rcases file.exec c table with ⟨e | a, table'⟩ <;> rfl

/-- The handler runs where the body raises, on the fields as they are then. -/
theorem exec_tryCatch (c : Code μ α) (handler : TableExn → Code μ α) :
    file.exec (tryCatch c handler) table = match file.exec c table with
      | (.ok a, table') => (.ok a, table')
      | (.error e, table') => file.exec (handler e) table' := by
  rw [exec, Code.run_tryCatch, Prog.eval_bind, ← exec]
  rcases file.exec c table with ⟨e | a, table'⟩ <;> rfl

/-- What the file system does not give raises `OSError`. -/
@[simp]
theorem exec_orOSError (x : Option α) : file.exec (Code.orOSError x) table =
    (x.elim (.error .osError) .ok, table) := by
  cases x <;> rfl

/-- A result is returned or raised, and the table stays. -/
@[simp]
theorem exec_ofExcept (r : Except TableExn α) : file.exec (Code.ofExcept r) table = (r, table) := by
  cases r <;> rfl

/-- What `_reload` gets from the file: the PSKs and the time of the file. -/
def loaded (limit : ℕ) (path : String) : Except TableExn (Psks × μ) :=
  match file.stat with
  | none => .error .osError
  | some stat =>
    -- The mode is looked at before the file is read.
    let mode := stat.mode &&& 0o777
    if mode &&& 0o077 ≠ 0 then
      let octal := String.ofList (Nat.toDigits 8 mode)
      .error (.systemExit s!"device table {path} has mode {octal}; it holds PSKs and must be 0600")
    else
      match file.content with
      | none => .error .osError
      | some bytes =>
        match loadTable limit bytes with
        | .ok psks => .ok (psks, stat.mtime)
        | .error e => .error e

/-- `_reload` sets both fields, or neither. -/
theorem exec_reload (limit : ℕ) (path : String) :
    file.exec (reload limit path) table = match file.loaded limit path with
      | .ok (psks, mtime) => (.ok (), ⟨psks, some mtime⟩)
      | .error e => (.error e, table) := by
  have hstat : file.exec (Code.call .stat) table = (.ok file.stat, table) := rfl
  have hread : file.exec (Code.call .readText) table = (.ok file.content, table) := rfl
  -- Along the statements: everything that can fail comes before the fields are set.
  rw [reload, exec_bind, hstat]
  dsimp only
  rw [exec_bind, exec_orOSError, loaded]
  cases file.stat with
  | none => rfl
  | some stat =>
    dsimp only [Option.elim]
    split
    · rfl
    · rw [exec_bind, hread]
      dsimp only
      rw [exec_bind, exec_orOSError]
      cases file.content with
      | none => rfl
      | some bytes =>
        dsimp only [Option.elim]
        rw [exec_bind, exec_ofExcept]
        cases loadTable limit bytes with
        | error e => rfl
        | ok psks => rfl

end FileState

/-! ## `psk_for` -/

namespace FileState

variable [DecidableEq μ] (file : FileState μ) (table : DeviceTable μ)

/-- What `psk_for` has done by the time it looks the device up, and what it lets pass. -/
def refreshed (limit : ℕ) (path : String) : Except TableExn (DeviceTable μ) :=
  match file.stat with
  -- A file that cannot be looked at changes nothing.
  | none => .ok table
  | some stat =>
    if some stat.mtime = table.mtime then .ok table
    else
      match file.loaded limit path with
      | .ok (psks, mtime) => .ok ⟨psks, some mtime⟩
      | .error e => if e.Caught then .ok table else .error e

/-- `psk_for` answers from the table that it has refreshed, or lets an exception pass and leaves the
fields as they were. -/
theorem exec_pskFor (limit : ℕ) (path : String) (deviceId : List UInt8) :
    file.exec (pskFor limit path deviceId) table = match file.refreshed table limit path with
      | .ok table' => (.ok (table'.get deviceId), table')
      | .error e => (.error e, table) := by
  have hstat : file.exec (Code.call .stat) table = (.ok file.stat, table) := rfl
  rw [pskFor, exec_bind, exec_tryCatch, exec_bind, hstat]
  dsimp only
  rw [exec_bind, exec_orOSError, refreshed]
  cases file.stat with
  | none => rfl
  | some stat =>
    dsimp only [Option.elim]
    rw [exec_bind, exec_get]
    dsimp only
    -- `_reload` runs only where the time differs from the one recorded.
    by_cases hmtime : some stat.mtime = table.mtime
    · rw [if_neg (not_not.mpr hmtime), if_pos hmtime]
      rfl
    · rw [if_pos hmtime, if_neg hmtime, exec_reload]
      cases file.loaded limit path with
      | ok loaded => rfl
      | error e => cases e <;> rfl

/-- What leaves `psk_for` is not what it catches. -/
theorem not_caught_of_exec_pskFor {limit : ℕ} {path : String} {deviceId : List UInt8}
    {e : TableExn} (h : (file.exec (pskFor limit path deviceId) table).1 = .error e) :
    ¬ e.Caught := by
  -- The only way out with an exception is a load that failed with one that is not caught.
  rw [exec_pskFor, refreshed] at h
  cases hstat : file.stat with
  | none =>
    rw [hstat] at h
    cases h
  | some stat =>
    rw [hstat] at h
    dsimp only at h
    by_cases hmtime : some stat.mtime = table.mtime
    · rw [if_pos hmtime] at h
      cases h
    · rw [if_neg hmtime] at h
      cases hloaded : file.loaded limit path with
      | ok loaded =>
        rw [hloaded] at h
        cases h
      | error e' =>
        rw [hloaded] at h
        dsimp only at h
        by_cases hcaught : e'.Caught
        · rw [if_pos hcaught] at h
          cases h
        · rw [if_neg hcaught] at h
          cases h
          exact hcaught

/-- What `psk_for` returns is as long as a PSK, as every entry of a table is. -/
theorem length_of_exec_pskFor {limit : ℕ} {path : String} {deviceId psk : List UInt8}
    (h : (file.exec (pskFor limit path deviceId) table).1 = .ok (some psk)) :
    psk.length = pskLen := by
  rw [exec_pskFor] at h
  cases hrefreshed : file.refreshed table limit path with
  | error e =>
    rw [hrefreshed] at h
    cases h
  | ok table' =>
    rw [hrefreshed, Except.ok.injEq] at h
    exact (table'.psks.wellFormed _ (Dict.mem_of_get h)).2

end FileState

/-! ## Failures of the contents -/

section Contents

variable {members : List (Str × Json)} {items : List (List UInt8 × List UInt8)}

/-- A member that both sides of are hexadecimal, and its bytes. -/
def DecodesTo (member : Str × Json) (item : List UInt8 × List UInt8) : Prop :=
  fromhex member.1 = some item.1 ∧ ∃ s, member.2 = .str s ∧ fromhex s = some item.2

/-- The first member of which one side cannot be decoded is one whose key is not hexadecimal, or
whose value is a string that is not. -/
def BadHex (members : List (Str × Json)) : Prop :=
  ∃ m₁ key v m₂ items, members = m₁ ++ (key, v) :: m₂ ∧ List.Forall₂ DecodesTo m₁ items ∧
    (fromhex key = none ∨ ∃ s, v = .str s ∧ fromhex s = none)

/-- The key of a member is read as hex. -/
theorem fromhexKey_ok {key : Str} {did : List UInt8} :
    fromhexKey key = .ok did ↔ fromhex key = some did := by
  rw [fromhexKey]
  cases fromhex key <;> simp

/-- Where it is no hex, that is a `ValueError`. -/
theorem fromhexKey_error {key : Str} {e : TableExn} :
    fromhexKey key = .error e ↔ fromhex key = none ∧ e = .valueError := by
  rw [fromhexKey]
  cases fromhex key <;> simp [eq_comm]

/-- The value of a member is a string, read as hex. -/
theorem fromhexValue_ok {v : Json} {psk : List UInt8} :
    fromhexValue v = .ok psk ↔ ∃ s, v = .str s ∧ fromhex s = some psk := by
  cases v <;> simp [fromhexValue, fromhexKey_ok]

/-- It is a `ValueError` if it is no hex, and a `TypeError` if it is no string. -/
theorem fromhexValue_error {v : Json} {e : TableExn} :
    fromhexValue v = .error e ↔
      (∃ s, v = .str s ∧ fromhex s = none ∧ e = .valueError) ∨
        (∀ s, v ≠ .str s) ∧ e = .typeError := by
  cases v with
  | str s => simp [fromhexValue, fromhexKey_error]
  | null | bool b | num literal | arr items | obj members => simp [fromhexValue, eq_comm]

/-- The members are decoded in order, the key of each before its value. -/
theorem decodeItems_cons (member : Str × Json) (members : List (Str × Json)) :
    decodeItems (member :: members) = match fromhexKey member.1, fromhexValue member.2 with
      | .error e, _ => .error e
      | .ok _, .error e => .error e
      | .ok did, .ok psk => (decodeItems members).map ((did, psk) :: ·) := by
  rw [decodeItems]
  cases fromhexKey member.1 with
  | error e => rfl
  | ok did =>
    cases fromhexValue member.2 with
    | error e => rfl
    | ok psk => cases decodeItems members <;> rfl

/-- The comprehension goes through where every member decodes. -/
theorem decodeItems_ok :
    decodeItems members = .ok items ↔ List.Forall₂ DecodesTo members items := by
  induction members generalizing items with
  | nil =>
    rw [List.forall₂_nil_left_iff, decodeItems]
    exact ⟨fun h => by cases h; rfl, fun h => by rw [h]⟩
  | cons member members ih =>
    rw [decodeItems_cons, List.forall₂_cons_left_iff]
    constructor
    · intro h
      split at h
      · cases h
      · cases h
      · -- Both parts of the member decode; the others have to as well.
        next did psk hkey hvalue =>
        cases hrest : decodeItems members with
        | error e =>
          rw [hrest] at h
          cases h
        | ok rest =>
          rw [hrest] at h
          cases h
          exact ⟨(did, psk), rest, ⟨fromhexKey_ok.mp hkey, fromhexValue_ok.mp hvalue⟩,
            ih.mp hrest, rfl⟩
    · rintro ⟨⟨did, psk⟩, rest, ⟨hkey, hvalue⟩, hrest, rfl⟩
      rw [fromhexKey_ok.mpr hkey, fromhexValue_ok.mpr hvalue, ih.mpr hrest]
      rfl

/-- The first member that is not decoded decides. -/
theorem badHex_cons (member : Str × Json) (members : List (Str × Json)) :
    BadHex (member :: members) ↔
      (fromhex member.1 = none ∨ ∃ s, member.2 = .str s ∧ fromhex s = none) ∨
        (∃ item, DecodesTo member item) ∧ BadHex members := by
  constructor
  · rintro ⟨m₁, key, v, m₂, items, heq, hdecodes, hbad⟩
    -- Either this member is the bad one, or it decodes and a later one is.
    cases m₁ with
    | nil =>
      cases heq
      exact .inl hbad
    | cons first m₁ =>
      cases heq
      obtain ⟨item, items, hfirst, hrest, rfl⟩ := List.forall₂_cons_left_iff.mp hdecodes
      exact .inr ⟨⟨item, hfirst⟩, m₁, key, v, m₂, items, rfl, hrest, hbad⟩
  · rintro (hbad | ⟨⟨item, hfirst⟩, m₁, key, v, m₂, items, rfl, hdecodes, hbad⟩)
    · exact ⟨[], member.1, member.2, members, [], rfl, .nil, hbad⟩
    · exact ⟨member :: m₁, key, v, m₂, item :: items, rfl, .cons hfirst hdecodes, hbad⟩

/-- It raises `ValueError` where the first member that does not decode is not hexadecimal. -/
theorem decodeItems_valueError : decodeItems members = .error .valueError ↔ BadHex members := by
  induction members with
  | nil =>
    refine iff_of_false nofun ?_
    rintro ⟨m₁, key, v, m₂, items, heq, -⟩
    cases m₁ <;> cases heq
  | cons member members ih =>
    rw [decodeItems_cons, badHex_cons, ← ih]
    cases hkey : fromhexKey member.1 with
    | error e =>
      obtain ⟨hnone, rfl⟩ := fromhexKey_error.mp hkey
      exact iff_of_true rfl (.inl (.inl hnone))
    | ok did =>
      -- The key comes before the value in the comprehension.
      have hsome : fromhex member.1 ≠ none := by rw [fromhexKey_ok.mp hkey]; exact nofun
      cases hvalue : fromhexValue member.2 with
      | error e =>
        rcases fromhexValue_error.mp hvalue with ⟨s, hs, hnone, rfl⟩ | ⟨hne, rfl⟩
        · exact iff_of_true rfl (.inl (.inr ⟨s, hs, hnone⟩))
        · refine iff_of_false nofun ?_
          rintro ((hnone | ⟨s, hs, -⟩) | ⟨⟨item, -, s, hs, -⟩, -⟩)
          · exact hsome hnone
          · exact hne s hs
          · exact hne s hs
      | ok psk =>
        have hdecodes : DecodesTo member (did, psk) :=
          ⟨fromhexKey_ok.mp hkey, fromhexValue_ok.mp hvalue⟩
        have hgood : ¬ (fromhex member.1 = none ∨ ∃ s, member.2 = .str s ∧ fromhex s = none) := by
          rintro (hnone | ⟨s, hs, hnone⟩)
          · exact hsome hnone
          · obtain ⟨s', hs', hsome'⟩ := hdecodes.2
            rw [hs] at hs'
            cases hs'
            rw [hnone] at hsome'
            cases hsome'
        rw [or_iff_right hgood, and_iff_right ⟨_, hdecodes⟩]
        cases decodeItems members <;> simp [Except.map]

/-- Nothing but these exceptions. -/
theorem decodeItems_error {e : TableExn} (h : decodeItems members = .error e) :
    e = .valueError ∨ e = .typeError := by
  induction members with
  | nil => cases h
  | cons member members ih =>
    rw [decodeItems_cons] at h
    split at h
    · next hkey =>
      cases h
      exact .inl (fromhexKey_error.mp hkey).2
    · next hvalue =>
      cases h
      exact (fromhexValue_error.mp hvalue).imp (fun ⟨_, _, _, he⟩ => he) (·.2)
    · cases hrest : decodeItems members with
      | error e' =>
        rw [hrest] at h
        cases h
        exact ih hrest
      | ok rest =>
        rw [hrest] at h
        cases h

/-- Contents that `psk_for` can live with: a table, text that is no JSON, or an object of which a
key or a value is not hexadecimal. -/
def Tolerable (limit : ℕ) (bytes : ByteArray) : Prop :=
  ∀ chars, bytes.utf8Decode? = some chars →
    Json.loads limit chars.toList ≠ .error .recursion ∧
      ∀ raw, Json.loads limit chars.toList = .ok raw → ∃ members, raw = .obj members ∧
        (BadHex members ∨ ∃ items, List.Forall₂ DecodesTo members items ∧
          ∀ entry ∈ Dict.ofItems items, WellFormed entry)

/-- The members are decoded, put into a table and checked. -/
theorem parseTable_obj (members : List (Str × Json)) : parseTable (.obj members) =
    (decodeItems members).bind fun items =>
      if h : ∀ entry ∈ Dict.ofItems items, WellFormed entry then .ok ⟨Dict.ofItems items, h⟩
      else (checkEntries (Dict.ofItems items)).bind fun _ => .error .attributeError := by
  rw [parseTable]
  cases decodeItems members with
  | error e => rfl
  | ok items =>
    simp only [bind, Except.bind]
    split
    · next hok => rw [dif_pos (checkEntries_ok.mp hok)]; rfl
    · next e herror =>
      rw [dif_neg fun hgood => ?_, herror]
      · rfl
      · rw [checkEntries_ok.mpr hgood] at herror
        cases herror

/-- What a JSON value that was loaded is good for. -/
theorem parseTable_caught_iff {raw : Json} : (∀ e, parseTable raw = .error e → e.Caught) ↔
    ∃ members, raw = .obj members ∧ (BadHex members ∨
      ∃ items, List.Forall₂ DecodesTo members items ∧
        ∀ entry ∈ Dict.ofItems items, WellFormed entry) := by
  cases raw with
  -- Without `items`, an `AttributeError`.
  | null | bool b | num literal | str s | arr items =>
    refine iff_of_false (fun h => h _ rfl) ?_
    rintro ⟨members, heq, -⟩
    cases heq
  | obj members =>
    have hmembers : ∀ {p : List (Str × Json) → Prop},
        (∃ members', Json.obj members = .obj members' ∧ p members') ↔ p members := by
      intro p
      exact ⟨fun ⟨_, heq, hp⟩ => by cases heq; exact hp, fun hp => ⟨_, rfl, hp⟩⟩
    rw [hmembers, parseTable_obj]
    cases hitems : decodeItems members with
    | error e =>
      -- Some member does not decode: all hangs on which exception comes first.
      have hnone : ¬ ∃ items, List.Forall₂ DecodesTo members items ∧
          ∀ entry ∈ Dict.ofItems items, WellFormed entry := by
        rintro ⟨items, hdecodes, -⟩
        rw [decodeItems_ok.mpr hdecodes] at hitems
        cases hitems
      rw [or_iff_left hnone, ← decodeItems_valueError, hitems]
      refine ⟨fun h => ?_, fun h e' he' => ?_⟩
      · have hcaught : e.Caught := h e rfl
        rcases decodeItems_error hitems with rfl | rfl
        · rfl
        · exact hcaught.elim
      · cases h
        cases he'
        trivial
    | ok items =>
      -- All members decode: all hangs on the lengths of the entries.
      have hbad : ¬ BadHex members := by
        rw [← decodeItems_valueError, hitems]
        exact nofun
      rw [or_iff_right hbad]
      have hdecodes := decodeItems_ok.mp hitems
      have hunique : ∀ {items'}, List.Forall₂ DecodesTo members items' → items' = items :=
        fun h => by
          rw [← decodeItems_ok, hitems] at h
          cases h
          rfl
      simp only [Except.bind]
      split
      · next hgood => exact iff_of_true nofun ⟨items, hdecodes, hgood⟩
      · next hmalformed =>
        refine iff_of_false (fun h => ?_) ?_
        · cases hcheck : checkEntries (Dict.ofItems items) with
          | ok u => exact hmalformed (checkEntries_ok.mp hcheck)
          | error e =>
            obtain ⟨message, rfl⟩ := checkEntries_error hcheck
            exact h (.systemExit message) (by rw [hcheck])
        · rintro ⟨items', hitems', hgood⟩
          exact hmalformed (hunique hitems' ▸ hgood)

/-- What contents are good for. -/
theorem loadTable_caught_iff {limit : ℕ} {bytes : ByteArray} :
    (∀ e, loadTable limit bytes = .error e → e.Caught) ↔ Tolerable limit bytes := by
  rw [Tolerable, loadTable, decodeText]
  cases bytes.utf8Decode? with
  -- `UnicodeDecodeError` is a `ValueError`.
  | none =>
    refine iff_of_true (fun e he => ?_) fun chars hchars => by cases hchars
    cases he
    trivial
  | some chars =>
    simp only [bind, Except.bind, loadsJson, Option.some.injEq, forall_eq']
    cases Json.loads limit chars.toList with
    | error e =>
      cases e with
      | value =>
        refine iff_of_true (fun e he => ?_) ⟨fun h => ?_, fun raw h => ?_⟩
        · cases he
          trivial
        · cases h
        · cases h
      -- `RecursionError` is not.
      | recursion => exact iff_of_false (fun h => h _ rfl) fun h => h.1 rfl
    | ok raw =>
      simp only [Except.ok.injEq, forall_eq', ne_eq, reduceCtorEq, not_false_eq_true, true_and]
      exact parseTable_caught_iff

end Contents

/-! ## A bad edit -/

section Edit

variable (file : FileState μ) (table : DeviceTable μ) (limit : ℕ) (path : String)

/-- The file can be loaded as a table. -/
def FileState.Valid : Prop := ∃ psks mtime, file.loaded limit path = .ok (psks, mtime)

/-- Nothing has to be loaded, or the file is private to its owner and its contents are what
`psk_for` can live with. -/
def FileState.Tolerated : Prop :=
  ∀ stat, file.stat = some stat → some stat.mtime ≠ table.mtime →
    stat.mode &&& 0o777 &&& 0o077 = 0 ∧
      ∀ bytes, file.content = some bytes → Tolerable limit bytes

variable {file table limit path}

/-- What goes wrong with a file that is there is caught exactly if only its owner can use it and its
text is tolerable. -/
theorem FileState.loaded_caught_iff (path : String) {stat : Stat μ}
    (hstat : file.stat = some stat) :
    (∀ e, file.loaded limit path = .error e → e.Caught) ↔
      stat.mode &&& 0o777 &&& 0o077 = 0 ∧
        ∀ bytes, file.content = some bytes → Tolerable limit bytes := by
  rw [FileState.loaded, hstat]
  dsimp only
  split
  · -- With this mode, `SystemExit` is raised.
    next hmode => exact iff_of_false (fun h => h _ rfl) fun h => hmode h.1
  · next hmode =>
    rw [and_iff_right (not_not.mp hmode)]
    cases file.content with
    | none =>
      refine iff_of_true (fun e he => ?_) nofun
      cases he
      trivial
    | some bytes =>
      have hbytes : ∀ {p : ByteArray → Prop}, (∀ bytes', some bytes = some bytes' → p bytes') ↔
          p bytes := ⟨fun h => h _ rfl, fun h bytes' heq => by cases heq; exact h⟩
      rw [hbytes, ← loadTable_caught_iff]
      dsimp only
      cases loadTable limit bytes with
      | ok psks => exact iff_of_true nofun nofun
      | error e => exact forall_congr' fun e' => by simp

variable [DecidableEq μ]

/-- A bad edit is survived exactly if `psk_for` can live with it. For every table, every state of
its file and every id: `psk_for` returns, and answers from the table as it was where the file cannot
be loaded, exactly if the edit is tolerated; and a file that cannot be loaded leaves both fields
alone in any case. -/
theorem pskFor_survives_iff (file : FileState μ) (table : DeviceTable μ) (limit : ℕ)
    (path : String) (deviceId : List UInt8) :
    ((∃ psk, (file.exec (pskFor limit path deviceId) table).1 = .ok psk ∧
        (¬ file.Valid limit path → psk = table.get deviceId)) ↔ file.Tolerated table limit) ∧
      (¬ file.Valid limit path → (file.exec (pskFor limit path deviceId) table).2 = table) := by
  rw [FileState.exec_pskFor, FileState.refreshed, FileState.Tolerated]
  cases hstat : file.stat with
  | none => exact ⟨iff_of_true ⟨_, rfl, fun _ => rfl⟩ nofun, fun _ => rfl⟩
  | some stat =>
    have hsome : ∀ {p : Stat μ → Prop}, (∀ stat', some stat = some stat' → p stat') ↔ p stat :=
      ⟨fun h => h _ rfl, fun h stat' heq => by cases heq; exact h⟩
    rw [hsome]
    dsimp only
    -- The cases of `refreshed`.
    by_cases hmtime : some stat.mtime = table.mtime
    · rw [if_pos hmtime]
      exact ⟨iff_of_true ⟨_, rfl, fun _ => rfl⟩ fun hne => absurd hmtime hne, fun _ => rfl⟩
    · rw [if_neg hmtime, ← FileState.loaded_caught_iff path hstat]
      cases hloaded : file.loaded limit path with
      | ok loaded =>
        have hvalid : file.Valid limit path := ⟨loaded.1, loaded.2, hloaded⟩
        exact ⟨iff_of_true ⟨_, rfl, fun hbad => absurd hvalid hbad⟩ fun _ => nofun,
          fun hbad => absurd hvalid hbad⟩
      | error e =>
        by_cases hcaught : e.Caught
        · dsimp only
          rw [if_pos hcaught]
          refine ⟨iff_of_true ⟨_, rfl, fun _ => rfl⟩ fun _ e' he' => ?_, fun _ => rfl⟩
          cases he'
          exact hcaught
        · dsimp only
          rw [if_neg hcaught]
          refine ⟨iff_of_false ?_ fun h => hcaught (h hmtime e rfl), fun _ => rfl⟩
          rintro ⟨psk, hpsk, -⟩
          cases hpsk

/-- Edits that end the server: JSON of another shape, a value that is no string, an entry that is
too short, and a mode that lets others read. -/
theorem pskFor_raises :
    let table : DeviceTable ℕ := ⟨⟨[], nofun⟩, some 0⟩
    let outcome (mode : ℕ) (text : String) :=
      (FileState.exec ⟨some ⟨1, mode⟩, some text.toList.utf8Encode⟩
        (pskFor 1000 "devices.json" []) table).1
    outcome 0o600 "[]" = .error .attributeError ∧
    outcome 0o600 "\x7b\"00\": 1\x7d" = .error .typeError ∧
    outcome 0o600 "\x7b\"00\": \"\"\x7d" = .error (.systemExit "malformed entry for device 00") ∧
    outcome 0o644 "\x7b\x7d" = .error (.systemExit
      "device table devices.json has mode 644; it holds PSKs and must be 0600") ∧
    ¬ ∀ (file : FileState ℕ) (table : DeviceTable ℕ) (deviceId : List UInt8),
      ∃ psk, (file.exec (pskFor 1000 "devices.json" deviceId) table).1 = .ok psk := by
  intro table outcome
  -- What the file makes of its text is what `psk_for` raises.
  have hload : ∀ {text : String} {e : TableExn}, ¬ e.Caught →
      (loadsJson 1000 text.toList).bind parseTable = .error e → outcome 0o600 text = .error e := by
    intro text e he hparse
    simp only [outcome, FileState.exec_pskFor, FileState.refreshed, FileState.loaded,
      loadTable_utf8Encode, hparse]
    rw [if_neg (by decide), if_neg (by decide)]
    dsimp only
    rw [if_neg he]
  have hshape : outcome 0o600 "[]" = .error .attributeError := hload id rfl
  refine ⟨hshape, hload id rfl, hload id rfl, rfl, fun hsurvives => ?_⟩
  obtain ⟨psk, hpsk⟩ := hsurvives ⟨some ⟨1, 0o600⟩, some "[]".toList.utf8Encode⟩ table []
  cases hshape.symm.trans hpsk

end Edit

end Devices

end PqcIot
