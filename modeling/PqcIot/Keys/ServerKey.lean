import PqcIot.Keys.Pinning
import PqcIot.Testing.KatTables
import PqcIot.Text.Macros

/-!
# `server_key.h`

The header that `pin_server_key.py` writes, and what the C compiler reads of it. The key goes from
the DER through the text into the arrays of the firmware (`pinMain_compiled`); the number of its
bytes is a macro, which the declaration of the array uses.
-/

namespace PqcIot

open Effects Text Text.C

namespace Keys

/-! ## The header -/

/-- The number in the name of a parameter set. -/
def PinLevel.number : PinLevel → ℕ
  | .l512 => 512
  | .l768 => 768
  | .l1024 => 1024

/-- A line of `c_array`. -/
def cLine (bytes : List UInt8) : List Char :=
  "    ".toList ++ [' '].intercalate (bytes.map fun b => KatHeader.byteText b ++ [','])

/-- The lines of `c_array`. -/
def cArray (raw : List UInt8) : List (List Char) :=
  (List.range' 0 ((raw.length + 11) / 12) 12).map fun i => cLine ((raw.drop i).take 12)

/-- The lines of the comment at the beginning, behind their asterisks. -/
def commentLines (host : List Char) (level : PinLevel) (fingerprint : List UInt8) :
    List (List Char) :=
  [" Pinned ML-KEM-".toList ++ KatHeader.decimal level.number ++
      " public key of the reference server.".toList] ++
  ["", " GENERATED FILE - do not edit. Regenerate with:"].map String.toList ++
  ["   python3 tools/pin_server_key.py --host ".toList ++ host ++ " --level ".toList ++
      KatHeader.decimal level.number] ++
  ["",
    " This key is public, not secret. It is gitignored anyway because it binds the",
    " firmware to one specific server instance, which is deployment state rather",
    " than source.",
    "",
    " Pinning is what authenticates the server: there is no certificate chain and",
    " none is needed. The consequence is that replacing the server's key pair means",
    " reflashing every client, which is why server_key_id exists - see",
    " docs/protocol.md.",
    "",
    " SHA-256 of the raw public key:"].map String.toList ++
  ["   ".toList ++ hexChars fingerprint]

/-- The include guard at the beginning. -/
def guardLines : List (List Char) :=
  ["", "#ifndef SERVER_KEY_H", "#define SERVER_KEY_H", "", "#include <stdint.h>", ""].map
    String.toList

/-- The lines behind the comment. -/
def codeLines (level : PinLevel) (keyId raw : List UInt8) : List (List Char) :=
  guardLines ++
  ["#define ".toList ++ "SERVER_KEY_LEVEL".toList ++ ' ' :: KatHeader.decimal level.number,
    "#define ".toList ++ "SERVER_KEY_BYTES".toList ++ ' ' ::
      KatHeader.decimal (rawPubkeyBytes level),
    [],
    "static const uint8_t SERVER_KEY_ID[4] = \x7b".toList, cLine keyId, "\x7d;".toList, [],
    "static const uint8_t SERVER_PUBLIC_KEY[SERVER_KEY_BYTES] = \x7b".toList] ++
  cArray raw ++
  ["\x7d;".toList, [], "#endif /* SERVER_KEY_H */".toList, []]

/-- `header`, for `args.host` and `args.level`. -/
def header (host : List Char) (level : PinLevel) (fingerprint keyId raw : List UInt8) :
    List Char :=
  ['\n'].intercalate (
    ['/', '*'] :: (commentLines host level fingerprint).map commentLine ++ [[' ', '*', '/']] ++
    codeLines level keyId raw)

/-- `main`, from the DER that the server sends to the text that is written to `--out`. -/
def pinMain (P : Prims UInt8) (host : List Char) (level : PinLevel) (der : List UInt8) :
    Except ScriptError (List Char) := do
  let key ← pinServerKey P level der
  return header host level (P.sha256 key.raw) key.keyId key.raw

/-! ## What C reads of it -/

section Lines

/-- A line of bytes reads as their tokens. -/
theorem reads_cLine (bytes : List UInt8) :
    Codes [cLine bytes] [] (byteTokens KatHeader.byteText bytes) := by
  have hbyte : ∀ b ∈ bytes, Reads (KatHeader.byteText b ++ [','])
      [.word (KatHeader.byteText b), .punct ','] := by
    intro b _
    have hne : KatHeader.byteText b ≠ [] := by simp [KatHeader.byteText]
    exact (Reads.word hne (KatHeader.isWordChar_byteText b)).punct (by decide) (by decide)
      (by decide) (by decide) .nil
  have hindent : ∀ c ∈ "    ".toList, isHSpace c = true := forall_mem_of_all (by decide)
  refine .line (((Reads.intercalate hbyte).space_append (.plain (by decide)) hindent).code ?_)
  cases bytes <;> rfl

/-- The lines are slices of the key. -/
theorem codes_cArray (raw : List UInt8) :
    Codes (cArray raw) [] (byteTokens KatHeader.byteText raw) := by
  have hlines := Codes.flatMap (l := List.range' 0 ((raw.length + 11) / 12) 12)
    fun i _ => reads_cLine ((raw.drop i).take 12)
  have hslices := flatMap_slices 12 raw 0 ((raw.length + 11) / 12)
  rw [List.drop_zero, List.take_of_length_le (by omega)] at hslices
  have hcode : ((List.range' 0 ((raw.length + 11) / 12) 12).flatMap fun i =>
      byteTokens KatHeader.byteText ((raw.drop i).take 12)) =
        byteTokens KatHeader.byteText raw := by
    conv_rhs => rw [← hslices]
    rw [byteTokens, List.flatMap_assoc]
    rfl
  rw [hcode] at hlines
  exact hlines

/-- The end of a list of bytes. -/
theorem codes_close : Codes ["\x7d;".toList] [] [.punct '}', .punct ';'] := by
  simp only [String.reduceToList]
  exact .line ((Reads.punct_cons '}' (Reads.punct_cons ';' .nil)).code rfl)

/-- The head of the array of the identifier. -/
theorem codes_keyId : Codes ["static const uint8_t SERVER_KEY_ID[4] = \x7b".toList] []
    (arrayTokens "SERVER_KEY_ID".toList [4] [.punct '{']) := by
  have hreads : Reads (arrayHead "SERVER_KEY_ID".toList [4] ++ ['{'])
      (arrayTokens "SERVER_KEY_ID".toList [4] [.punct '{']) :=
    reads_array (by decide) (forall_mem_of_all (by decide)) [4] (Reads.punct_cons '{' .nil)
  have htext : "static const uint8_t SERVER_KEY_ID[4] = \x7b".toList =
      arrayHead "SERVER_KEY_ID".toList [4] ++ ['{'] := by decide
  rw [htext]
  exact .line (hreads.code rfl)

/-- The dimension of the array is a macro. -/
theorem codes_publicKey :
    Codes ["static const uint8_t SERVER_PUBLIC_KEY[SERVER_KEY_BYTES] = \x7b".toList] []
      (constBytes ++ .word "SERVER_PUBLIC_KEY".toList ::
        [.punct '[', .word "SERVER_KEY_BYTES".toList, .punct ']', .punct '=', .punct '{']) := by
  simp only [String.reduceToList]
  exact .line ⟨⟨by decide, by decide⟩, by decide, by decide⟩

/-- The guard. -/
theorem codes_guardLines : Codes guardLines [("SERVER_KEY_H".toList, [])] [] := by
  have hread : (∀ x ∈ guardLines, splice.state none x = none ∧
      uncomment.state .code (splice.emit none x) = .code) ∧
        guardLines.flatMap macros = [("SERVER_KEY_H".toList, [])] ∧
          guardLines.flatMap codeTokens = [] := by
    apply Literals.induction fun lines : List (List Char) =>
      (∀ x ∈ lines, splice.state none x = none ∧
        uncomment.state .code (splice.emit none x) = .code) ∧
          lines.flatMap macros = [("SERVER_KEY_H".toList, [])] ∧ lines.flatMap codeTokens = []
    · repeat' first | exact .nil | apply Literals.cons
    · decide
  obtain ⟨hcomplete, hmacros, hcode⟩ := hread
  exact ⟨fun x hx => ⟨(hcomplete x hx).1, (hcomplete x hx).2⟩, hmacros, hcode⟩

/-- An empty line. -/
theorem codes_blank : Codes [[]] [] [] := .line ⟨complete_nil, rfl, rfl⟩

/-- The last line. -/
theorem codes_ending : Codes ["#endif /* SERVER_KEY_H */".toList, []] [] [] := by
  have hendif : Codes ["#endif /* SERVER_KEY_H */".toList] [] [] := by
    simp only [String.reduceToList]
    exact .line ⟨⟨by decide, by decide⟩, by decide, by decide⟩
  exact hendif.cons codes_blank

/-- A number has no asterisk. -/
theorem not_mem_decimal (n : ℕ) : '*' ∉ KatHeader.decimal n := fun h => by
  have hword := isWordChar_toDigits n _ h
  revert hword
  decide

/-- Neither have hex digits. -/
theorem not_mem_hexChars (bytes : List UInt8) : '*' ∉ hexChars bytes := fun h => by
  obtain ⟨b, -, hb⟩ := List.mem_flatMap.mp h
  have hword := KatHeader.isWordChar_byteText b '*'
    (List.mem_cons_of_mem _ (List.mem_cons_of_mem _ (by simpa [hexChars] using hb)))
  revert hword
  decide

variable {host : List Char} (hhost : '*' ∉ host) (level : PinLevel) (fingerprint : List UInt8)
include hhost

/-- The host does not end the comment. -/
theorem staysOpen_commentLines : ∀ rest ∈ commentLines host level fingerprint, StaysOpen rest := by
  have happend {x y : List Char} (hx : StaysOpen x) (hne : x ≠ []) (hy : '*' ∉ y) :
      StaysOpen (x ++ y) := by
    obtain ⟨c, x, rfl⟩ := List.exists_cons_of_ne_nil hne
    exact ⟨hx.1, fun hmem => (List.mem_append.mp hmem).elim hx.2 hy⟩
  have hlevel := not_mem_decimal level.number
  rw [commentLines]
  simp only [List.forall_mem_append, List.forall_mem_singleton]
  refine ⟨⟨⟨⟨?_, ?_⟩, ?_⟩, ?_⟩, ?_⟩
  · simp only [String.reduceToList]
    exact happend (happend (by decide) (by decide) hlevel) (by simp) (by decide)
  · apply Literals.induction fun lines : List (List Char) => ∀ rest ∈ lines, StaysOpen rest
    · repeat' first | exact .nil | apply Literals.cons
    · decide
  · simp only [String.reduceToList]
    exact happend (happend (happend (by decide) (by decide) hhost) (by simp) (by decide)) (by simp)
      hlevel
  · apply Literals.induction fun lines : List (List Char) => ∀ rest ∈ lines, StaysOpen rest
    · repeat' first | exact .nil | apply Literals.cons
    · decide
  · simp only [String.reduceToList]
    exact happend (by decide) (by decide) (not_mem_hexChars fingerprint)

end Lines

/-- The macros of the header. -/
def headerMacros (level : PinLevel) : List (List Char × List Token) :=
  [("SERVER_KEY_H".toList, []),
    ("SERVER_KEY_LEVEL".toList, [.word (KatHeader.decimal level.number)]),
    ("SERVER_KEY_BYTES".toList, [.word (KatHeader.decimal (rawPubkeyBytes level))])]

/-- The tokens of the code, before the macros are expanded. -/
def headerTokens (keyId raw : List UInt8) : List Token :=
  arrayTokens "SERVER_KEY_ID".toList [4] (rowTokens KatHeader.byteText keyId) ++ .punct ';' ::
    (constBytes ++ .word "SERVER_PUBLIC_KEY".toList ::
      [.punct '[', .word "SERVER_KEY_BYTES".toList, .punct ']', .punct '='] ++
      rowTokens KatHeader.byteText raw ++ [.punct ';'])

/-- All lines but the comment. -/
theorem codes_codeLines (level : PinLevel) (keyId raw : List UInt8) :
    Codes (codeLines level keyId raw) (headerMacros level) (headerTokens keyId raw) := by
  have hdecimal (n : ℕ) : KatHeader.decimal n ≠ [] ∧
      ∀ c ∈ KatHeader.decimal n, isWordChar c = true :=
    ⟨Nat.toDigits_ne_nil, isWordChar_toDigits n⟩
  have hlevel : Codes _ [("SERVER_KEY_LEVEL".toList, _)] [] :=
    .define ⟨by decide, forall_mem_of_all (by decide)⟩ (hdecimal level.number)
  have hbytes : Codes _ [("SERVER_KEY_BYTES".toList, _)] [] :=
    .define ⟨by decide, forall_mem_of_all (by decide)⟩ (hdecimal (rawPubkeyBytes level))
  have hcode := codes_guardLines.append <| hlevel.cons <| hbytes.cons <| codes_blank.cons <|
    codes_keyId.cons <| (reads_cLine keyId).cons <| codes_close.cons <| codes_blank.cons <|
    codes_publicKey.cons <| (codes_cArray raw).append <| codes_close.cons <| codes_blank.cons
      codes_ending
  have htoks : headerTokens keyId raw = arrayTokens "SERVER_KEY_ID".toList [4] [.punct '{'] ++
      (byteTokens KatHeader.byteText keyId ++ ([.punct '}', .punct ';'] ++
        (constBytes ++ .word "SERVER_PUBLIC_KEY".toList ::
          [.punct '[', .word "SERVER_KEY_BYTES".toList, .punct ']', .punct '=', .punct '{'] ++
          (byteTokens KatHeader.byteText raw ++ [.punct '}', .punct ';'])))) := by
    rw [headerTokens, ← List.append_assoc (arrayTokens _ _ _), KatHeader.arrayTokens_append]
    simp [rowTokens, arrayTokens]
  simp only [List.nil_append, List.append_nil] at hcode
  rw [codeLines, List.append_assoc, List.append_assoc, headerMacros, htoks]
  exact hcode

/-- The whole header: the host in the comment cannot end it. -/
theorem header_read {host : List Char} (hhost : '*' ∉ host) (level : PinLevel)
    (fingerprint keyId raw : List UInt8) :
    macros (header host level fingerprint keyId raw) = headerMacros level ∧
      codeTokens (header host level fingerprint keyId raw) = headerTokens keyId raw := by
  -- The comment counts as one line.
  have hcomment := Codes.line (comment_read (staysOpen_commentLines hhost level fingerprint))
  have hall := (hcomment.cons (codes_codeLines level keyId raw)).text
  have hne : codeLines level keyId raw ≠ [] := by simp [codeLines]
  rw [header, intercalate_append (by simp) hne]
  rw [List.intercalate_cons_of_ne_nil hne] at hall
  exact hall

/-- The names of the macros begin with one letter. -/
theorem noMacro_of_head {level : PinLevel} {w : List Char} (h : w.head? ≠ some 'S') :
    NoMacro (headerMacros level) w := by
  have hnames : ∀ name ∈ ["SERVER_KEY_H".toList, "SERVER_KEY_LEVEL".toList,
      "SERVER_KEY_BYTES".toList], name.head? = some 'S' := by decide
  exact fun hmem => h (hnames w hmem)

/-- A number does not begin like one of the macros. -/
theorem head_decimal (n : ℕ) : (KatHeader.decimal n).head? ≠ some 'S' := by
  intro h
  obtain ⟨d, hd, -⟩ := mem_of_numeral (numeral_toDigits n) 'S' (List.mem_of_head? h)
  cases hd

/-- No byte is the name of a macro. -/
theorem noMacro_of_mem_rowTokens {level : PinLevel} {bytes : List UInt8} {w : List Char}
    (h : .word w ∈ rowTokens KatHeader.byteText bytes) : NoMacro (headerMacros level) w := by
  obtain ⟨b, -, rfl⟩ : ∃ b ∈ bytes, w = KatHeader.byteText b := by
    simpa [rowTokens, byteTokens] using h
  exact noMacro_of_head (by simp [KatHeader.byteText])

/-- With the macro expanded, the dimension of the key is the number of its bytes. -/
theorem expand_headerTokens (level : PinLevel) (keyId raw : List UInt8) :
    expand (headerMacros level) (headerTokens keyId raw) =
      arrayTokens "SERVER_KEY_ID".toList [4] (rowTokens KatHeader.byteText keyId) ++ .punct ';' ::
        (arrayTokens "SERVER_PUBLIC_KEY".toList [rawPubkeyBytes level]
          (rowTokens KatHeader.byteText raw) ++ [.punct ';']) := by
  have hid : NoMacro (headerMacros level) "SERVER_KEY_ID".toList :=
    show "SERVER_KEY_ID".toList ∉ ["SERVER_KEY_H".toList, "SERVER_KEY_LEVEL".toList,
      "SERVER_KEY_BYTES".toList] by decide
  have hkey : NoMacro (headerMacros level) "SERVER_PUBLIC_KEY".toList :=
    show "SERVER_PUBLIC_KEY".toList ∉ ["SERVER_KEY_H".toList, "SERVER_KEY_LEVEL".toList,
      "SERVER_KEY_BYTES".toList] by decide
  have hconst : ∀ w, .word w ∈ constBytes → NoMacro (headerMacros level) w := by
    intro w hw
    refine noMacro_of_head ?_
    rcases (by simpa [constBytes] using hw : w = _ ∨ w = _ ∨ w = _) with rfl | rfl | rfl <;> decide
  have hbytes : expand (headerMacros level) [.word "SERVER_KEY_BYTES".toList] =
      [.word (KatHeader.decimal (rawPubkeyBytes level))] :=
    expand_word (by rfl) fun w hw => .inr (noMacro_of_head (by
      rw [List.mem_singleton.mp hw |> Token.word.inj]
      exact head_decimal _))
  -- One macro is used, in the middle.
  set before := arrayTokens "SERVER_KEY_ID".toList [4] (rowTokens KatHeader.byteText keyId) ++
    .punct ';' :: (constBytes ++ [.word "SERVER_PUBLIC_KEY".toList, .punct '[']) with hbefore
  set after := .punct ']' :: .punct '=' :: (rowTokens KatHeader.byteText raw ++ [.punct ';'])
    with hafter
  have hsplit : headerTokens keyId raw =
    before ++ ([.word "SERVER_KEY_BYTES".toList] ++ after) := by
    simp [headerTokens, before, after]
  have hexpand : expand (headerMacros level) before = before ∧
      expand (headerMacros level) after = after := by
    refine ⟨expand_of_noMacro fun w hw => ?_, expand_of_noMacro fun w hw => ?_⟩
    · simp only [hbefore, arrayTokens, dimTokens, List.flatMap_singleton, List.mem_append,
        List.mem_cons, List.not_mem_nil, Token.word.injEq, reduceCtorEq, or_false, false_or] at hw
      rcases hw with (hw | rfl | rfl | hw) | hw | rfl
      · exact hconst w hw
      · exact hid
      · exact noMacro_of_head (head_decimal 4)
      · exact noMacro_of_mem_rowTokens hw
      · exact hconst w hw
      · exact hkey
    · have hrow : .word w ∈ rowTokens KatHeader.byteText raw := by simpa [hafter] using hw
      exact noMacro_of_mem_rowTokens hrow
  rw [hsplit, expand_append before, expand_append _ after, hbytes, hexpand.1, hexpand.2]
  simp [before, after, arrayTokens, dimTokens, KatHeader.decimal]

/-! ## The key in the firmware -/

/-- A key that is returned has the expected length. -/
theorem length_of_parseSpki {der raw : List UInt8} {n : ℤ} (h : parseSpki der n = .ok raw) :
    (raw.length : ℤ) = n := by
  rw [parseSpki] at h
  -- The checks before the last one say nothing of the key.
  obtain ⟨tag, -, h⟩ := bind_eq_ok.mp h
  split at h
  · cases h
  obtain ⟨⟨_, i⟩, -, h⟩ := bind_eq_ok.mp h
  obtain ⟨tag, -, h⟩ := bind_eq_ok.mp h
  split at h
  · cases h
  obtain ⟨⟨algLen, i⟩, -, h⟩ := bind_eq_ok.mp h
  obtain ⟨tag, -, h⟩ := bind_eq_ok.mp h
  split at h
  · cases h
  obtain ⟨⟨bitsLen, i⟩, -, h⟩ := bind_eq_ok.mp h
  obtain ⟨unused, -, h⟩ := bind_eq_ok.mp h
  split at h
  · cases h
  · dsimp only at h
    split at h
    · cases h
    · next hlen =>
      cases h
      exact not_not.mp hlen

/-- What is pinned is the raw key, and the beginning of its hash. -/
theorem pinServerKey_ok {P : Prims UInt8} {level : PinLevel} {der : List UInt8} {key : PinnedKey}
    (h : pinServerKey P level der = .ok key) : parseSpki der (rawPubkeyBytes level) = .ok key.raw ∧
      key.keyId = (P.sha256 key.raw).take 4 := by
  obtain ⟨raw, hraw, h⟩ := bind_eq_ok.mp h
  cases h
  exact ⟨hraw, rfl⟩

/-- An array of the size of its bytes. -/
theorem declared_bytes (name : List Char) {n : ℕ} {bytes : List UInt8} (hlen : bytes.length = n)
    (rest : List Token) :
    declared (arrayTokens name [n] (rowTokens KatHeader.byteText bytes) ++ .punct ';' :: rest) =
      .ofBytes name bytes :: declared rest := by
  have hrow : readInit [] false (rowTokens KatHeader.byteText bytes ++ []) =
      some (.ofBytes bytes, []) := readInit_row KatHeader.integerConstant_byteText
  rw [List.append_nil] at hrow
  rw [declared_arrayTokens name [n] (semicolon_not_mem_rowTokens _ _) hrow, ← hlen]
  rfl

/-- The arrays of the header, with its macros expanded. -/
theorem expandedArrays_header {host : List Char} (hhost : '*' ∉ host) (level : PinLevel)
    (fingerprint : List UInt8) {keyId raw : List UInt8} (hid : keyId.length = 4)
    (hraw : raw.length = rawPubkeyBytes level) :
    expandedArrays (header host level fingerprint keyId raw) =
      [.ofBytes "SERVER_KEY_ID".toList keyId, .ofBytes "SERVER_PUBLIC_KEY".toList raw] := by
  obtain ⟨hmacros, hcode⟩ := header_read hhost level fingerprint keyId raw
  rw [expandedArrays, hmacros, hcode, expand_headerTokens, declared_bytes _ hid,
    declared_bytes _ hraw]
  rfl

/-- What the compiler makes of the text that the pinning tool writes. Whatever the host, for every
parameter set, the key in the DER and the first bytes of its hash are the two arrays of the header,
the length of the key being given by a macro; and the macro of the level names the parameter set
that was asked for. -/
theorem pinMain_compiled (P : Prims UInt8) {host : List Char} (hhost : '*' ∉ host)
    {level : PinLevel} {der : List UInt8} {text : List Char}
    (h : pinMain P host level der = .ok text) :
    ∃ raw, parseSpki der (rawPubkeyBytes level) = .ok raw ∧
      expandedArrays text = [.ofBytes "SERVER_KEY_ID".toList ((P.sha256 raw).take 4),
        .ofBytes "SERVER_PUBLIC_KEY".toList raw] ∧
      definitions text "SERVER_KEY_LEVEL".toList = [[.word (KatHeader.decimal level.number)]] := by
  obtain ⟨⟨raw, keyId⟩, hkey, h⟩ := bind_eq_ok.mp h
  obtain ⟨hparse, hkeyId⟩ := pinServerKey_ok hkey
  obtain rfl : keyId = (P.sha256 raw).take 4 := hkeyId
  cases h
  have hlen : raw.length = rawPubkeyBytes level := by exact_mod_cast length_of_parseSpki hparse
  have hidLen : ((P.sha256 raw).take 4).length = 4 := by
    rw [List.length_take, P.length_sha256]
    rfl
  refine ⟨raw, hparse, expandedArrays_header hhost level (P.sha256 raw) hidLen hlen, ?_⟩
  rw [definitions, (header_read hhost level (P.sha256 raw) ((P.sha256 raw).take 4) raw).1]
  rfl

/-- A DER of a key of one of the parameter sets. -/
theorem exists_spki (level : PinLevel) : ∃ der, Der.spki (List.replicate 11 0)
    (List.replicate (rawPubkeyBytes level) 7) = some der := by
  have htlv (tag : UInt8) (contents : List UInt8) (hlow : 256 ≤ contents.length)
      (hhigh : contents.length < 65536) : Der.tlv tag contents =
        some (tag :: (0x82 :: beBytes 2 contents.length) ++ contents) := by
    rw [Der.tlv, Der.lengthOctets_of_width_two hlow hhigh]
    rfl
  have hbounds : 255 ≤ rawPubkeyBytes level ∧ rawPubkeyBytes level ≤ 1568 := by
    cases level <;> decide
  have hidentifier : Der.tlv 0x30 (List.replicate 11 0) =
    some (0x30 :: 11 :: List.replicate 11 0) := rfl
  rw [Der.spki, hidentifier, htlv 0x03 _ (by simp; omega) (by simp; omega)]
  exact ⟨_, htlv 0x30 _ (by simp; omega) (by simp; omega)⟩

/-- The header of an ML-KEM-768 key. -/
theorem pinMain_compiled_768 :
    ∃ der text, pinMain zeroPrims "user@host".toList .l768 der = .ok text ∧
      expandedArrays text = [.ofBytes "SERVER_KEY_ID".toList (List.replicate 4 0),
        .ofBytes "SERVER_PUBLIC_KEY".toList (List.replicate 1184 7)] := by
  obtain ⟨der, hder⟩ := exists_spki .l768
  have hparse : parseSpki der 1184 = .ok (List.replicate 1184 7) := by
    rw [parseSpki_spki hder, List.length_replicate]
    rfl
  obtain ⟨text, htext⟩ : ∃ text, pinMain zeroPrims "user@host".toList .l768 der = .ok text := by
    rw [pinMain, pinServerKey, show ((rawPubkeyBytes .l768 : ℕ) : ℤ) = 1184 from rfl, hparse]
    exact ⟨_, rfl⟩
  obtain ⟨raw, hraw, harrays, -⟩ := pinMain_compiled zeroPrims
    (show '*' ∉ "user@host".toList by decide) htext
  obtain rfl : raw = List.replicate 1184 7 := Except.ok.inj (hraw.symm.trans hparse)
  exact ⟨der, text, htext, harrays⟩

end Keys

end PqcIot
