import PqcIot.Protocol.Wire

/-!
# Key schedule

The key schedule of `server/protocol.py`, function by function, and the handshake it serves as one
value: `Handshake β` holds every field that enters a hash, a MAC or a key, and its functions state
the schedule of `docs/protocol.md` for both modes at once. The Python functions compute these
(`deriveKeys_eq`, `deriveStage1_eq`, `deriveStage2_eq`).
-/

namespace PqcIot

namespace Protocol

variable {β : Type} (P : Prims β)

/-! ## The Python functions -/

def hkdfExtract (salt ikm : List β) : List β := P.hmac salt ikm

/-- The loop of `hkdf_expand`, with its variables `out`, `block` and `counter`. `bytes([counter])`
raises `ValueError` when the counter does not fit a byte. -/
def hkdfExpandLoop (prk info : List β) (length : ℕ) (out block : List β) (counter : ℕ) :
    Except PyExn (List β) :=
  if out.length < length then
    if counter < 256 then
      let block := P.hmac prk (block ++ info ++ [P.lit (UInt8.ofNat counter)])
      hkdfExpandLoop prk info length (out ++ block) block (counter + 1)
    else
      .error .valueError
  else
    .ok out
termination_by length - out.length
decreasing_by
  rw [List.length_append, P.length_hmac]
  omega

def hkdfExpand (prk info : List β) (length : ℕ) : Except PyExn (List β) := do
  let out ← hkdfExpandLoop P prk info length [] [] 1
  return out.take length

structure SessionKeys (β : Type) where
  srvConfirm : List β
  cliConfirm : List β
  c2s : List β
  s2c : List β

/-- The IKM is the KEM shared secret concatenated with the PSK. -/
def deriveKeys (ss psk clientNonce serverNonce th2 : List β) : Except PyExn (SessionKeys β) := do
  if psk.length ≠ pskLen then
    throw (.protocolError "PSK must be 32 bytes")
  let prk := hkdfExtract P (clientNonce ++ serverNonce) (ss ++ psk)
  return {
    srvConfirm := ← hkdfExpand P prk (P.lits labelSrvConfirm ++ th2) 32
    cliConfirm := ← hkdfExpand P prk (P.lits labelCliConfirm ++ th2) 32
    c2s := ← hkdfExpand P prk (P.lits labelC2s ++ th2) 32
    s2c := ← hkdfExpand P prk (P.lits labelS2c ++ th2) 32 }

def transcript2 (clientHello serverNonce sessionId ekEph : List β) : List β :=
  P.sha256 (clientHello ++ serverNonce ++ sessionId ++ ekEph)

def transcript3 (th2 ctEph : List β) : List β := P.sha256 (th2 ++ ctEph)

/-- Mode B, stage 1: the only key derivable before the ephemeral exchange. -/
def deriveStage1 (ssStatic psk clientNonce serverNonce th2 : List β) : Except PyExn (List β) :=
  let prk := hkdfExtract P (clientNonce ++ serverNonce) (ssStatic ++ psk)
  hkdfExpand P prk (P.lits labelSrvConfirm ++ th2) 32

/-- Mode B, stage 2: every key that protects data, all of them derived from `ssEph`. -/
def deriveStage2 (ssStatic ssEph psk clientNonce serverNonce th3 : List β) :
    Except PyExn (SessionKeys β) := do
  let prk := hkdfExtract P (clientNonce ++ serverNonce) (ssStatic ++ ssEph ++ psk)
  return {
    srvConfirm := []  -- stage 1 produced it; not reused here
    cliConfirm := ← hkdfExpand P prk (P.lits labelCliConfirm ++ th3) 32
    c2s := ← hkdfExpand P prk (P.lits labelC2s ++ th3) 32
    s2c := ← hkdfExpand P prk (P.lits labelS2c ++ th3) 32 }

def helloMac (psk helloWithoutMac : List β) : List β :=
  P.hmac psk (P.lits labelHello ++ helloWithoutMac)

/-- A single block of output takes one turn of the loop. -/
@[simp]
theorem hkdfExpand_32 (prk info : List β) :
    hkdfExpand P prk info 32 = .ok (P.hkdfExpand prk info 32) := by
  have hlen : (P.hmac prk (info ++ [P.lit 1])).length = 32 := P.length_hmac _ _
  have hloop : hkdfExpandLoop P prk info 32 [] [] 1 = .ok (P.hmac prk (info ++ [P.lit 1])) := by
    rw [hkdfExpandLoop, if_pos (by simp), if_pos (by omega), hkdfExpandLoop, if_neg (by simp)]
    rfl
  rw [hkdfExpand, hloop, P.hkdfExpand_32]
  exact congrArg Except.ok (List.take_of_length_le hlen.le)

end Protocol

/-! ## The handshake as one value -/

/-- Everything that enters a hash, a MAC or a key of one handshake. In mode A the ephemeral fields
are empty. -/
structure Handshake (β : Type) where
  /-- Whether the suite has forward secrecy (mode B). -/
  fs : Bool
  /-- The ClientHello payload, MAC included. -/
  hello : List β
  clientNonce : List β
  serverNonce : List β
  sessionId : List β
  /-- The ephemeral public key. -/
  ekEph : List β
  /-- The ephemeral ciphertext. -/
  ctEph : List β
  psk : List β
  /-- The shared secret of the pinned key. -/
  ssStatic : List β
  /-- The shared secret of the ephemeral key. -/
  ssEph : List β

namespace Handshake

open Protocol

variable {β : Type} (P : Prims β) (h : Handshake β)

/-- What `TH2` hashes. -/
def th2Input : List β := h.hello ++ h.serverNonce ++ h.sessionId ++ h.ekEph

def th2 : List β := P.sha256 h.th2Input

/-- What `TH3` hashes. -/
def th3Input : List β := h.th2 P ++ h.ctEph

def th3 : List β := P.sha256 (h.th3Input P)

/-- The transcript that ClientFinished and the data keys are bound to. -/
def transcript : List β := if h.fs then h.th3 P else h.th2 P

def salt : List β := h.clientNonce ++ h.serverNonce

/-- Input keying material of stage 1; in mode A the only stage. -/
def ikm1 : List β := h.ssStatic ++ h.psk

/-- Input keying material of stage 2. -/
def ikm2 : List β := h.ssStatic ++ h.ssEph ++ h.psk

/-- Input keying material of the stage the data keys come from. -/
def dataIkm : List β := if h.fs then h.ikm2 else h.ikm1

def srvConfirm : List β :=
  P.hkdfExpand (P.hkdfExtract h.salt h.ikm1) (P.lits labelSrvConfirm ++ h.th2 P) 32

/-- A key of the stage that protects data. -/
def dataKey (label : List UInt8) : List β :=
  P.hkdfExpand (P.hkdfExtract h.salt h.dataIkm) (P.lits label ++ h.transcript P) 32

def cliConfirm : List β := h.dataKey P labelCliConfirm
def c2s : List β := h.dataKey P labelC2s
def s2c : List β := h.dataKey P labelS2c

def serverMac : List β := P.hmac (h.srvConfirm P) (h.th2 P)

def clientMac : List β := P.hmac (h.cliConfirm P) (h.transcript P ++ h.serverMac P)

/-- The ServerHello payload. -/
def serverHello : List β := h.serverNonce ++ h.sessionId ++ h.ekEph ++ h.serverMac P

/-- The ClientFinished payload (ClientKeyExchange in mode B). -/
def clientFinished : List β := h.ctEph ++ h.clientMac P

@[simp] theorem length_th2 : (h.th2 P).length = 32 := P.length_sha256 _
@[simp] theorem length_th3 : (h.th3 P).length = 32 := P.length_sha256 _
@[simp] theorem length_serverMac : (h.serverMac P).length = 32 := P.length_hmac _ _
@[simp] theorem length_clientMac : (h.clientMac P).length = 32 := P.length_hmac _ _
@[simp] theorem length_srvConfirm : (h.srvConfirm P).length = 32 := P.length_hkdfExpand_32 _ _

/-- Each key has 32 bytes. -/
@[simp]
theorem length_dataKey (label : List UInt8) : (h.dataKey P label).length = 32 :=
  P.length_hkdfExpand_32 _ _

/-- So has the transcript that the confirmations are over. -/
@[simp]
theorem length_transcript : (h.transcript P).length = 32 := by
  unfold transcript
  split
  · exact h.length_th3 P
  · exact h.length_th2 P

/-- The same handshake with another ephemeral exchange. -/
def withEphemeral (h : Handshake β) (ctEph ssEph : List β) : Handshake β :=
  { h with ctEph := ctEph, ssEph := ssEph }

/-- The server's MAC comes before the ephemeral exchange. -/
@[simp]
theorem serverMac_withEphemeral (ctEph ssEph : List β) :
    (h.withEphemeral ctEph ssEph).serverMac P = h.serverMac P := rfl

/-! The Python key schedule computes these. -/

/-- `derive_keys` computes the keys of mode A from the values of the handshake. -/
theorem deriveKeys_eq (hpsk : h.psk.length = pskLen) (hfs : h.fs = false) :
    deriveKeys P h.ssStatic h.psk h.clientNonce h.serverNonce (h.th2 P) =
      .ok ⟨h.srvConfirm P, h.cliConfirm P, h.c2s P, h.s2c P⟩ := by
  have hikm : h.dataIkm = h.ikm1 := by simp [dataIkm, hfs]
  have htr : h.transcript P = h.th2 P := by simp [transcript, hfs]
  simp only [deriveKeys, hpsk, ne_eq, not_true_eq_false, ↓reduceIte, hkdfExpand_32, cliConfirm, c2s,
    s2c, dataKey, srvConfirm, hikm, htr]
  rfl

/-- `derive_stage1` computes the key of the server's confirmation. -/
theorem deriveStage1_eq :
    deriveStage1 P h.ssStatic h.psk h.clientNonce h.serverNonce (h.th2 P) =
      .ok (h.srvConfirm P) := by
  rw [deriveStage1, hkdfExpand_32]
  rfl

/-- `derive_stage2` computes the keys of mode B. -/
theorem deriveStage2_eq (hfs : h.fs = true) :
    deriveStage2 P h.ssStatic h.ssEph h.psk h.clientNonce h.serverNonce (h.th3 P) =
      .ok ⟨[], h.cliConfirm P, h.c2s P, h.s2c P⟩ := by
  have hikm : h.dataIkm = h.ikm2 := by simp [dataIkm, hfs]
  have htr : h.transcript P = h.th3 P := by simp [transcript, hfs]
  simp only [deriveStage2, hkdfExpand_32, cliConfirm, c2s, s2c, dataKey, hikm, htr]
  rfl

end Handshake

end PqcIot
