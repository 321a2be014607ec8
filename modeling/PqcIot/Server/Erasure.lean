import PqcIot.Server.Order

/-!
# The life of the ephemeral key

The temporary directory of an `EphemeralKey` as a state (`TempDir`) that the operations of a
connection change. When control leaves the `try` statement of `handle_connection`, and whenever a
record is opened, `eph.pem` has been overwritten and its directory removed (`Destroyed`) exactly if
no step of its life has failed (`Disturbs`): an exception of the constructor comes before the
variable is assigned that the `finally` block looks at, and one of `destroy`'s own steps ends it
early.
-/

namespace PqcIot

open Effects Protocol

namespace Server

variable {β α γ : Type}

/-! ## The directory -/

/-- What the blocks of `eph.pem` hold. -/
inductive PemContents where
  | key
  | zeros
  deriving DecidableEq

/-- The temporary directory of an ephemeral key. -/
structure TempDir where
  /-- Whether it is there. -/
  present : Bool
  /-- What was last in `eph.pem`, if it was ever written. Unlinking the file leaves its blocks. -/
  pem : Option PemContents
  deriving DecidableEq

namespace TempDir

/-- Before a connection. -/
def fresh : TempDir := ⟨false, none⟩

/-- What an operation does to the directory. A process that exits with an error and a write that
raises `OSError` may have done their work or not. -/
def Step (d : TempDir) : Event (host β) → TempDir → Prop
  | ⟨.mkdtemp, some _⟩, d' => d' = { d with present := true }
  | ⟨.genpkey _, some result⟩, d' =>
    d' = { d with pem := some .key } ∨ result.returncode ≠ 0 ∧ d' = d
  | ⟨.genpkey _, none⟩, d' => d' = { d with pem := some .key } ∨ d' = d
  -- The answer is no also where the call raises `OSError`, which has the same effect.
  | ⟨.ephExists, found⟩, d' => d' = d ∧ (found = true → d.present = true ∧ d.pem.isSome)
  | ⟨.ephOverwrite _, some _⟩, d' => d' = { d with pem := some .zeros }
  | ⟨.ephOverwrite _, none⟩, d' => d' = { d with pem := some .zeros } ∨ d' = d
  | ⟨.ephCleanup, some _⟩, d' => d' = { d with present := false }
  | _, d' => d' = d

/-- What a history does to it. -/
def Evolves : TempDir → List (Event (host β)) → TempDir → Prop
  | d, [], d' => d' = d
  | d, e :: log, d' => ∃ d₁, d.Step e d₁ ∧ d₁.Evolves log d'

/-- What two histories do, one after the other. -/
theorem evolves_append {d d' : TempDir} {l₁ l₂ : List (Event (host β))} :
    d.Evolves (l₁ ++ l₂) d' ↔ ∃ d₁, d.Evolves l₁ d₁ ∧ d₁.Evolves l₂ d' := by
  induction l₁ generalizing d with
  | nil => simp [Evolves]
  | cons e l₁ ih =>
    simp only [List.cons_append, Evolves, ih]
    constructor
    · rintro ⟨d₂, hstep, d₁, h₁, h₂⟩
      exact ⟨d₁, ⟨d₂, hstep, h₁⟩, h₂⟩
    · rintro ⟨d₁, ⟨d₂, hstep, h₁⟩, h₂⟩
      exact ⟨d₂, hstep, d₁, h₁, h₂⟩

/-- What one more operation does. -/
theorem evolves_concat {d d' : TempDir} {log : List (Event (host β))} {e : Event (host β)} :
    d.Evolves (log ++ [e]) d' ↔ ∃ d₁, d.Evolves log d₁ ∧ d₁.Step e d' := by
  simp [evolves_append, Evolves]

/-- `destroy` has done its work: if `eph.pem` was ever written, it holds zeros, unless writing them
has failed, and the directory is gone. -/
def Destroyed (d : TempDir) (log : List (Event (host β))) : Prop :=
  d.pem.isSome → d.present = false ∧
    (d.pem = some .zeros ∨ ∃ size, ⟨.ephOverwrite size, none⟩ ∈ log)

end TempDir

/-- A step in the life of the key has failed, its overwriting apart: one of the constructor, or one
that `destroy` takes before the overwriting or after it. -/
def Disturbs : Event (host β) → Prop
  | ⟨.genpkey _, some result⟩ => result.returncode ≠ 0
  | ⟨.genpkey _, none⟩ => True
  | ⟨.chmod, none⟩ => True
  | ⟨.pubout, some result⟩ => result.returncode ≠ 0 ∨ ∃ e, rawPublicFromDer result.stdout = .error e
  | ⟨.pubout, none⟩ => True
  | ⟨.ephExists, false⟩ => True
  | ⟨.ephSize, none⟩ => True
  | ⟨.ephCleanup, none⟩ => True
  | _ => False

/-- Operations that have nothing to do with the ephemeral key's file. -/
def Unrelated : HostOp β → Prop
  | .pskFor _ | .staticDecap _ | .tokenBytes _ | .ephDecap _ | .recordOpen _ | .close => True
  | _ => False

/-- A step has failed. -/
def Fails : Event (host β) → Prop
  | ⟨.ephOverwrite _, none⟩ => True
  | e => Disturbs e

/-! ## Stages -/

section Stages

variable {log : List (Event (host β))} {d d₁ : TempDir} {e : Event (host β)}

/-- No step has failed, and the directory is in one state. -/
structure At (log : List (Event (host β))) (d : TempDir) : Prop where
  smooth : ∀ e ∈ log, ¬ Fails e
  evolves : ∀ d', TempDir.fresh.Evolves log d' → d' = d

/-- A step has failed that leaves the directory where it is. -/
structure Left (log : List (Event (host β))) : Prop where
  disturbed : ∃ e ∈ log, Disturbs e
  present : ∀ d, TempDir.fresh.Evolves log d → d.present = true

/-- A step has failed, so that the key is not overwritten. -/
structure Spared (log : List (Event (host β))) : Prop where
  disturbed : ∃ e ∈ log, Disturbs e
  smooth : ∀ size, ⟨.ephOverwrite size, none⟩ ∉ log
  evolves : ∀ d, TempDir.fresh.Evolves log d → d = ⟨true, some .key⟩

/-- Everything has been done to overwrite the key. -/
structure Wiped (log : List (Event (host β))) : Prop where
  undisturbed : ∀ e ∈ log, ¬ Disturbs e
  evolves : ∀ d, TempDir.fresh.Evolves log d → d.present = true ∧
    (d.pem = some .zeros ∨ ∃ size, ⟨.ephOverwrite size, none⟩ ∈ log)

/-- The key has been destroyed exactly if no step has failed but its overwriting. -/
def Settled (log : List (Event (host β))) : Prop :=
  ∀ d, TempDir.fresh.Evolves log d →
    (d.Destroyed log ↔ (d.pem.isSome → ∀ e ∈ log, ¬ Disturbs e))

/-- What disturbs has failed. -/
theorem Disturbs.fails (he : Disturbs e) : Fails e := by
  match e, he with
  | ⟨.genpkey _, some _⟩, he | ⟨.genpkey _, none⟩, he | ⟨.chmod, none⟩, he
  | ⟨.pubout, some _⟩, he | ⟨.pubout, none⟩, he | ⟨.ephExists, false⟩, he | ⟨.ephSize, none⟩, he
  | ⟨.ephCleanup, none⟩, he => exact he

/-- Where no step has failed, none has disturbed. -/
theorem At.undisturbed (h : At log d) : ∀ e ∈ log, ¬ Disturbs e := fun e hmem he =>
  h.smooth e hmem he.fails

/-- Whatever holds of the operations and of one more. -/
theorem forall_mem_concat {p : Event (host β) → Prop} (h : ∀ e ∈ log, p e) (he : p e) :
    ∀ e' ∈ log ++ [e], p e' := by
  refine List.forall_mem_append.mpr ⟨h, ?_⟩
  rintro _ (_ | ⟨_, hmem⟩)
  · exact he
  · cases hmem

/-- The life of the key starts without a directory. -/
theorem at_fresh : At ([] : List (Event (host β))) .fresh :=
  ⟨nofun, fun _ hd => hd⟩

/-- What a history and one more step do to the directory. -/
theorem At.step (h : At log d) {d' : TempDir} (hd' : TempDir.fresh.Evolves (log ++ [e]) d') :
    d.Step e d' := by
  obtain ⟨d₂, hd₂, hlast⟩ := TempDir.evolves_concat.mp hd'
  rwa [h.evolves d₂ hd₂] at hlast

/-- A step that succeeds. -/
theorem At.concat (h : At log d) (he : ¬ Fails e) (hstep : ∀ d', d.Step e d' → d' = d₁) :
    At (log ++ [e]) d₁ :=
  ⟨forall_mem_concat h.smooth he, fun d' hd' => hstep d' (h.step hd')⟩

/-- A step that fails. -/
theorem At.left (h : At log d) (he : Disturbs e) (hstep : ∀ d', d.Step e d' → d'.present = true) :
    Left (log ++ [e]) :=
  ⟨⟨e, List.mem_append_right _ List.mem_cons_self, he⟩, fun d' hd' => hstep d' (h.step hd')⟩

/-- A step that `destroy` fails before the overwriting. -/
theorem At.spared (h : At log ⟨true, some .key⟩) (he : Disturbs e)
    (hne : ∀ size, e ≠ ⟨.ephOverwrite size, none⟩)
    (hstep : ∀ d', TempDir.Step ⟨true, some .key⟩ e d' → d' = ⟨true, some .key⟩) :
    Spared (log ++ [e]) := by
  refine ⟨⟨e, List.mem_append_right _ List.mem_cons_self, he⟩, fun size hmem => ?_,
    fun d' hd' => hstep d' (h.step hd')⟩
  refine forall_mem_concat (p := fun e' => e' ≠ ⟨.ephOverwrite size, none⟩) ?_ (hne size) _ hmem rfl
  rintro _ he' rfl
  exact h.smooth _ he' trivial

/-- The overwriting, done or failed. -/
theorem At.wiped {size : ℕ} (h : At log ⟨true, some .key⟩)
    (a : HostOp.Ans (β := β) (.ephOverwrite size)) :
    Wiped (log ++ [⟨.ephOverwrite size, a⟩]) := by
  refine ⟨forall_mem_concat h.undisturbed ?_, fun d' hd' => ?_⟩
  · cases a <;> exact id
  · -- A write that fails may have written or not.
    have hstep := h.step hd'
    cases a with
    | some _ =>
      obtain rfl : d' = ⟨true, some .zeros⟩ := hstep
      exact ⟨rfl, .inl rfl⟩
    | none =>
      obtain rfl | rfl : d' = ⟨true, some .zeros⟩ ∨ d' = ⟨true, some .key⟩ := hstep
      · exact ⟨rfl, .inl rfl⟩
      · exact ⟨rfl, .inr ⟨size, List.mem_append_right _ List.mem_cons_self⟩⟩

/-- Where the file was never written, there is nothing to destroy. -/
theorem At.settled (h : At log d) (hpem : d.pem = none) : Settled log := by
  intro d' hd'
  obtain rfl := h.evolves d' hd'
  refine iff_of_true (fun hsome => ?_) fun hsome => ?_ <;>
  · rw [hpem] at hsome
    cases hsome

/-- A directory that is there has not been removed. -/
theorem Left.settled (h : Left log) : Settled log := by
  intro d hd
  -- Both sides are false once the file has been written.
  obtain ⟨e, hmem, he⟩ := h.disturbed
  refine ⟨fun hdestroyed hsome => ?_, fun hclean hsome => absurd he (hclean hsome e hmem)⟩
  have habsent := (hdestroyed hsome).1
  rw [h.present d hd] at habsent
  cases habsent

/-- `self._dir.cleanup()` of a key that was not overwritten. -/
theorem Spared.settled (h : Spared log) (a : HostOp.Ans (β := β) .ephCleanup) :
    Settled (log ++ [⟨.ephCleanup, a⟩]) := by
  intro d hd
  obtain ⟨d₁, hd₁, hlast⟩ := TempDir.evolves_concat.mp hd
  obtain rfl := h.evolves d₁ hd₁
  have hpem : d.pem = some .key := by
    cases a with
    | none => exact congrArg TempDir.pem hlast
    | some _ => exact congrArg TempDir.pem hlast
  obtain ⟨e, hmem, he⟩ := h.disturbed
  refine ⟨fun hdestroyed hsome => ?_, fun hclean hsome =>
    absurd he (hclean hsome e (List.mem_append_left _ hmem))⟩
  -- It still holds the key, and no write has failed.
  rcases (hdestroyed hsome).2 with hzeros | ⟨size, hfailed⟩
  · rw [hpem] at hzeros
    cases hzeros
  · rcases List.mem_append.mp hfailed with hfailed | hfailed
    · exact absurd hfailed (h.smooth size)
    · rcases hfailed with _ | ⟨_, hfailed⟩
      cases hfailed

/-- `self._dir.cleanup()` of a key that was overwritten. -/
theorem Wiped.settled (h : Wiped log) (a : HostOp.Ans (β := β) .ephCleanup) :
    Settled (log ++ [⟨.ephCleanup, a⟩]) := by
  cases a with
  -- The directory is still there.
  | none =>
    refine Left.settled ⟨⟨_, List.mem_append_right _ List.mem_cons_self, trivial⟩, fun d hd => ?_⟩
    obtain ⟨d₁, hd₁, rfl⟩ := TempDir.evolves_concat.mp hd
    exact (h.evolves _ hd₁).1
  -- The directory is gone, and the key with it.
  | some _ =>
    intro d hd
    obtain ⟨d₁, hd₁, rfl⟩ := TempDir.evolves_concat.mp hd
    refine iff_of_true (fun _ => ⟨rfl, ?_⟩) fun _ => forall_mem_concat h.undisturbed id
    exact (h.evolves d₁ hd₁).2.imp_right fun ⟨size, hfailed⟩ =>
      ⟨size, List.mem_append_left _ hfailed⟩

/-- Unrelated operations change nothing. -/
theorem step_unrelated {o : HostOp β} (ho : Unrelated o) (a : HostOp.Ans o) {d d' : TempDir} :
    d.Step ⟨o, a⟩ d' ↔ d' = d := by
  cases o <;> first | exact ho.elim | exact Iff.rfl

/-- Unrelated operations are none of the key's steps. -/
theorem not_fails_of_unrelated {o : HostOp β} (ho : Unrelated o) (a : HostOp.Ans o) :
    ¬ Fails ⟨o, a⟩ := by
  cases o <;> first | exact ho.elim | exact id

/-- They leave the directory where it is. -/
theorem At.unrelated {o : HostOp β} (h : At log d) (ho : Unrelated o) (a : HostOp.Ans o) :
    At (log ++ [⟨o, a⟩]) d :=
  h.concat (not_fails_of_unrelated ho a) fun _ => (step_unrelated ho a).mp

/-- They leave the key's fate as it is settled. -/
theorem Settled.unrelated {o : HostOp β} (h : Settled log) (ho : Unrelated o)
    (a : HostOp.Ans o) : Settled (log ++ [⟨o, a⟩]) := by
  intro d hd
  obtain ⟨d₁, hd₁, hlast⟩ := TempDir.evolves_concat.mp hd
  obtain rfl := (step_unrelated ho a).mp hlast
  have hclean : (∀ e ∈ log ++ [⟨o, a⟩], ¬ Disturbs e) ↔ ∀ e ∈ log, ¬ Disturbs e :=
    ⟨fun hall e he => hall e (List.mem_append_left _ he), fun hall =>
      forall_mem_concat hall fun he => not_fails_of_unrelated ho a he.fails⟩
  have hdestroyed : d.Destroyed (log ++ [⟨o, a⟩]) ↔ d.Destroyed log := by
    refine imp_congr_right fun _ => and_congr_right fun _ => or_congr_right
      (exists_congr fun size => ?_)
    rw [List.mem_append, or_iff_left]
    rintro (_ | ⟨_, hmem⟩)
    · exact ho.elim
    · cases hmem
  rw [hclean, hdestroyed]
  exact h d hd₁

end Stages

/-! ## The code -/

/-- Calls that have nothing to do with the ephemeral key's file. -/
def UnrelatedCall : (calls β).Op → Prop
  | .inl _ => True
  | .inr o => Unrelated o

/-- Those of the handshake. -/
def HandshakeCall : (calls β).Op → Prop
  | .inl _ => True
  | .inr (.recordOpen _) => False
  | .inr o => Unrelated o

/-- The handshake's calls have nothing to do with the file, and open no record. -/
theorem HandshakeCall.unrelated {o : (calls β).Op} (ho : HandshakeCall o) :
    UnrelatedCall o ∧ ∀ payload, o ≠ .inr (.recordOpen payload) := by
  match o, ho with
  | .inl _, _ => exact ⟨trivial, nofun⟩
  | .inr (.pskFor _), _ | .inr (.staticDecap _), _ | .inr (.tokenBytes _), _
  | .inr (.ephDecap _), _ | .inr .close, _ => exact ⟨trivial, nofun⟩

/-- Records are opened when the key's fate is settled. -/
def OpensSettled (h : Log β) (o : (calls β).Op) : Prop :=
  ∀ payload, o = .inr (.recordOpen payload) → Settled (internalEvents h)

open Py

section Code

variable {h : Log β}

/-- Among all calls, the unrelated ones leave the directory where it is. -/
theorem At.unrelatedCall {d : TempDir} (hh : At (internalEvents h) d) {o : (calls β).Op}
    (ho : UnrelatedCall o) (a : (calls β).Ans o) : At (internalEvents (h ++ [⟨o, a⟩])) d := by
  rw [internalEvents_append]
  cases o with
  | inl o => exact (List.append_nil (internalEvents h)).symm ▸ hh
  | inr o => exact hh.unrelated ho a

/-- They leave the key's fate as it is. -/
theorem Settled.unrelatedCall (hh : Settled (internalEvents h)) {o : (calls β).Op}
    (ho : UnrelatedCall o) (a : (calls β).Ans o) : Settled (internalEvents (h ++ [⟨o, a⟩])) := by
  rw [internalEvents_append]
  cases o with
  | inl o => exact (List.append_nil (internalEvents h)).symm ▸ hh
  | inr o => exact hh.unrelated ho a

/-- A call that succeeds. -/
theorem At.call {d d₁ : TempDir} {o : HostOp β} {a : HostOp.Ans o} (hh : At (internalEvents h) d)
    (he : ¬ Fails ⟨o, a⟩) (hstep : ∀ d', d.Step ⟨o, a⟩ d' → d' = d₁) :
    At (internalEvents (h ++ [⟨.inr o, a⟩])) d₁ := by
  rw [internalEvents_append]
  exact hh.concat he hstep

/-- A call that fails. -/
theorem At.failedCall {d : TempDir} {o : HostOp β} {a : HostOp.Ans o}
    (hh : At (internalEvents h) d) (he : Disturbs ⟨o, a⟩)
    (hstep : ∀ d', d.Step ⟨o, a⟩ d' → d'.present = true) :
    Settled (internalEvents (h ++ [⟨.inr o, a⟩])) := by
  rw [internalEvents_append]
  exact (hh.left he hstep).settled

/-! ### The constructor -/

/-- The directory is made. -/
theorem ensures_mkdtemp (hh : At (internalEvents h) .fresh) :
    Ensures OpensSettled (fun h' _ => At (internalEvents h') ⟨true, none⟩)
      (fun h' _ => Settled (internalEvents h')) h (call .mkdtemp >>= orOSError) := by
  refine (ensures_bind _ _).mpr ⟨nofun, fun made => ?_⟩
  cases made with
  | some _ => exact hh.call id fun _ => id
  | none =>
    have hfresh : At (internalEvents (h ++ [⟨.inr .mkdtemp, none⟩])) .fresh :=
      hh.call id fun _ => id
    exact hfresh.settled rfl

/-- `openssl genpkey` writes the key. -/
theorem ensures_genpkey (level : Level) (hh : At (internalEvents h) ⟨true, none⟩) :
    Ensures OpensSettled (fun h' _ => At (internalEvents h') ⟨true, some .key⟩)
      (fun h' _ => Settled (internalEvents h')) h (call (.genpkey level) >>= checked) := by
  refine (ensures_bind _ _).mpr ⟨nofun, fun result => ?_⟩
  cases result with
  | none =>
    refine hh.failedCall trivial ?_
    rintro d' (rfl | rfl) <;> rfl
  | some result =>
    refine (ensures_checked_some result).mpr ⟨fun hrc => ?_, fun hrc => ?_⟩
    · -- Whether or not the file has been written, the directory is there.
      refine hh.failedCall hrc ?_
      rintro d' (rfl | ⟨-, rfl⟩) <;> rfl
    · refine hh.call (not_not.mpr hrc) ?_
      rintro d' (rfl | ⟨hne, -⟩)
      · rfl
      · exact absurd hrc hne

/-- Its mode is set. -/
theorem ensures_chmod (hh : At (internalEvents h) ⟨true, some .key⟩) :
    Ensures OpensSettled (fun h' _ => At (internalEvents h') ⟨true, some .key⟩)
      (fun h' _ => Settled (internalEvents h')) h (call .chmod >>= orOSError) := by
  refine (ensures_bind _ _).mpr ⟨nofun, fun done => ?_⟩
  cases done with
  | some _ => exact hh.call id fun _ => id
  | none =>
    refine hh.failedCall trivial ?_
    rintro d' rfl
    rfl

/-- Its public key is read. -/
theorem ensures_pubout (hh : At (internalEvents h) ⟨true, some .key⟩) :
    Ensures OpensSettled (fun h' _ => At (internalEvents h') ⟨true, some .key⟩)
      (fun h' _ => Settled (internalEvents h')) h
      (call .pubout >>= fun result => checked result >>= fun der =>
        Py.ofExcept (rawPublicFromDer der)) := by
  refine (ensures_bind _ _).mpr ⟨nofun, fun result => ?_⟩
  cases result with
  | none =>
    refine hh.failedCall trivial ?_
    rintro d' rfl
    rfl
  | some result =>
    -- The process fails, or its output is a key, or it is not one.
    refine (ensures_bind _ _).mpr ((ensures_checked_some result).mpr ⟨fun hrc => ?_, fun hrc =>
      (ensures_ofExcept _).mpr ⟨fun pk hpk => ?_, fun e he => ?_⟩⟩)
    · refine hh.failedCall (.inl hrc) ?_
      rintro d' rfl
      rfl
    · refine hh.call ?_ fun _ => id
      rintro (hne | ⟨e, he⟩)
      · exact hne hrc
      · rw [hpk] at he
        cases he
    · refine hh.failedCall (.inr ⟨e, he⟩) ?_
      rintro d' rfl
      rfl

/-- The constructor generates a key or fails, and what it has made by then stays. -/
theorem ensures_init (level : Level) (hh : At (internalEvents h) .fresh) :
    Ensures OpensSettled (fun h' _ => At (internalEvents h') ⟨true, some .key⟩)
      (fun h' _ => Settled (internalEvents h')) h (EphemeralKey.init level) := by
  -- Statement by statement, each with its exceptions.
  have hinit : EphemeralKey.init (β := β) level = (do
      call .mkdtemp >>= orOSError
      let _ ← call (.genpkey level) >>= checked
      call .chmod >>= orOSError
      call .pubout >>= fun result => checked result >>= fun der =>
        Py.ofExcept (rawPublicFromDer der)) := by
    simp only [EphemeralKey.init, bind_assoc]
  rw [hinit]
  refine (ensures_mkdtemp hh).bind fun _ _ hmade => ?_
  refine (ensures_genpkey level hmade).bind fun _ _ hgen => ?_
  exact (ensures_chmod hgen).bind fun _ _ hmode => ensures_pubout hmode

/-! ### `destroy` -/

/-- Where `cleanup` is called: the key has been overwritten, or a step before that has failed. -/
def Emptied (log : List (Event (host β))) : Prop := Spared log ∨ Wiped log

/-- `destroy` up to the overwriting, which is done or a step before it has failed. -/
theorem ensures_overwrite (hh : At (internalEvents h) ⟨true, some .key⟩) :
    Ensures OpensSettled (fun h' _ => Emptied (internalEvents h'))
      (fun h' e => e = .osError ∧ Emptied (internalEvents h')) h (do
        if ← call .ephExists then
          let size ← orOSError (← call .ephSize)
          orOSError (← call (.ephOverwrite size))
        else
          return ()) := by
  refine (ensures_bind _ _).mpr ⟨nofun, fun found => ?_⟩
  cases found with
  -- The file is not where it should be.
  | false =>
    refine .inl ?_
    rw [internalEvents_append]
    exact hh.spared trivial nofun fun d' hd' => hd'.1
  | true =>
    have hfound : At (internalEvents (h ++ [⟨.inr .ephExists, true⟩])) ⟨true, some .key⟩ :=
      hh.call id fun d' hd' => hd'.1
    refine (ensures_bind _ _).mpr ⟨nofun, fun size => ?_⟩
    cases size with
    -- `stat` fails, and the overwriting is skipped.
    | none =>
      refine ⟨rfl, .inl ?_⟩
      rw [internalEvents_append]
      exact hfound.spared trivial nofun fun _ => id
    | some size =>
      have hsize : At (internalEvents (_ ++ [⟨.inr .ephSize, some size⟩])) ⟨true, some .key⟩ :=
        hfound.call id fun _ => id
      refine (ensures_bind _ _).mpr ⟨nofun, fun done => ?_⟩
      have hwiped : Wiped (internalEvents _ ++ [⟨.ephOverwrite size, done⟩]) := hsize.wiped done
      cases done with
      | some _ =>
        refine .inr ?_
        rw [internalEvents_append]
        exact hwiped
      | none =>
        refine ⟨rfl, .inr ?_⟩
        rw [internalEvents_append]
        exact hwiped

/-- `destroy` from there on. -/
theorem ensures_cleanup (hh : Emptied (internalEvents h)) :
    Ensures OpensSettled (fun h' _ => Settled (internalEvents h'))
      (fun h' _ => Settled (internalEvents h')) h (call .ephCleanup >>= orOSError) := by
  refine (ensures_bind _ _).mpr ⟨nofun, fun done => ?_⟩
  have hsettled : Settled (internalEvents (h ++ [⟨.inr .ephCleanup, done⟩])) := by
    rw [internalEvents_append]
    rcases hh with hspared | hwiped
    · exact hspared.settled done
    · exact hwiped.settled done
  cases done <;> exact hsettled

/-- `destroy` settles the key's fate. -/
theorem ensures_destroy (hh : At (internalEvents h) ⟨true, some .key⟩) :
    Ensures OpensSettled (fun h' _ => Settled (internalEvents h'))
      (fun h' _ => Settled (internalEvents h')) h EphemeralKey.destroy := by
  -- `except OSError` is about the overwriting; `cleanup`, in the `finally` clause, may still raise.
  refine Ensures.tryFinally (Ensures.ignoreOSError ?_)
  refine (ensures_overwrite hh).mono (fun _ _ ho => ho) (fun l _ hl => ensures_cleanup hl)
    fun l e he => ?_
  rw [if_pos he.1]
  exact ensures_cleanup he.2

/-! ### The rest of the connection -/

/-- Reading a frame is a call of the handshake. -/
theorem only_recvFrame : Only HandshakeCall (recvFrame (β := β)) := fun _ =>
  ensures_recvFrame.mpr ⟨trivial, fun _ => trivial, fun _ => trivial⟩

/-- So is writing one. -/
theorem only_sendFrame (ftype : UInt8) (payload : List β) :
    Only HandshakeCall (sendFrame ftype payload) := fun _ =>
  ensures_sendFrame.mpr ⟨trivial, trivial, fun _ => trivial⟩

/-- The static key is used by the handshake. -/
theorem only_decapsulate (ciphertext : List β) : Only HandshakeCall (decapsulate ciphertext) := by
  refine .bind (.call trivial) fun result => .bind (.orOSError _) fun result => .ite (.raise _) ?_
  cases result.secret with
  | none => exact .raise _
  | some ss => exact .ite (.raise _) (.pure _)

/-- The ephemeral key is used without being changed. -/
theorem only_ephDecapsulate (ciphertext : List β) :
    Only HandshakeCall (EphemeralKey.decapsulate ciphertext) := by
  refine .bind (.call trivial) fun result => .bind (.orOSError _) fun result => .ite (.raise _) ?_
  cases result.secret with
  | none => exact .raise _
  | some ss => exact .pure _

variable (P : Prims β) (key : PrivateKey β)

/-- Up to the decapsulation, the file is not there yet. -/
theorem only_acceptHello [DecidableEq β] : Only HandshakeCall (acceptHello P key) := by
  refine .bind only_recvFrame fun frame => .ite (.raise _) (.bind (.ofExcept _) fun hello =>
    .ite (.raise _) (.bind (.call trivial) fun lookup => ?_))
  match lookup with
  | .error _ | .ok none => exact .raise _
  | .ok (some psk) => exact .ite (.raise _) (.bind (only_decapsulate _) fun _ => .pure _)

/-- From the key schedule to ClientFinished. -/
theorem only_exchange (hello : ClientHello β) (psk ssStatic serverNonce sessionId ekEph : List β) :
    Only HandshakeCall (exchange P hello psk ssStatic serverNonce sessionId ekEph) := by
  refine .bind (.ofExcept _) fun keys => .bind (only_sendFrame _ _) fun _ =>
    .bind only_recvFrame fun frame => .ite (.raise _) ?_
  cases keys.1 with
  | none =>
    exact .ite (.raise _)
      (.bind (only_ephDecapsulate _) fun _ => .bind (.ofExcept _) fun _ => .pure _)
  | some keys => exact .ite (.raise _) (.pure _)

/-- Records have nothing to do with the file. -/
theorem only_recordLoop (turns : ℕ) (inbound : Inbound β) :
    Only UnrelatedCall (recordLoop P turns inbound) := by
  induction turns generalizing inbound with
  | zero => exact .pure _
  | succ turns ih =>
    refine .bind ?_ fun received => ?_
    · -- `except ProtocolError: break`.
      intro h
      rw [Ensures, ExceptT.run, ExceptT.mk, Prog.spec_bind]
      refine Prog.Spec.mono (only_recvFrame h) (fun _ _ ho => ho.unrelated.1) fun l r _ => ?_
      cases r with
      | ok => trivial
      | error e => cases e <;> trivial
    · cases received with
      | none => exact .pure _
      | some frame =>
        exact .ite (.pure _) (.ite (.raise _) (.bind (.call trivial) fun _ =>
          .bind (.ofExcept _) fun plaintext => ih _))

/-- The handshake leaves the key alone. -/
theorem At.handshake {c : Py β α} (hc : Only HandshakeCall c) {d : TempDir}
    (hh : At (internalEvents h) d) :
    Ensures OpensSettled (fun h' _ => At (internalEvents h') d)
      (fun h' _ => At (internalEvents h') d) h c :=
  (hc.invariant (I := fun h' => At (internalEvents h') d)
    (fun _ _ a ho hh' => hh'.unrelatedCall ho.unrelated.1 a) hh).mono
      (fun _ _ ho payload heq => absurd heq (ho.2.unrelated.2 payload)) (fun _ _ hl => hl)
      fun _ _ he => he

/-- Before the key is generated, its fate is settled wherever the handshake ends. -/
theorem At.beforeKey {c : Py β α} (hc : Only HandshakeCall c)
    (hh : At (internalEvents h) .fresh) :
    Ensures OpensSettled (fun h' _ => At (internalEvents h') .fresh)
      (fun h' _ => Settled (internalEvents h')) h c :=
  (hh.handshake hc).mono (fun _ _ ho => ho) (fun _ _ hl => hl) fun _ _ he => he.settled rfl

/-- What comes after the `try` statement finds the key's fate settled. -/
theorem Settled.only {c : Py β α} (hc : Only UnrelatedCall c) (hh : Settled (internalEvents h)) :
    Ensures OpensSettled (fun h' _ => Settled (internalEvents h'))
      (fun h' _ => Settled (internalEvents h')) h c :=
  (hc.invariant (I := fun h' => Settled (internalEvents h'))
    (fun _ _ a ho hh' => hh'.unrelatedCall ho a) hh).mono
      (fun _ _ ho _ _ => ho.1) (fun _ _ hl => hl) fun _ _ he => he

/-- The `try` statement settles the key's fate, whether it ends normally or with an exception. -/
theorem ensures_tryExchange (hello : ClientHello β) (psk ssStatic serverNonce sessionId : List β)
    (hh : At (internalEvents h) .fresh) :
    Ensures OpensSettled (fun h' _ => Settled (internalEvents h'))
      (fun h' _ => Settled (internalEvents h')) h
      (tryExchange P hello psk ssStatic serverNonce sessionId) := by
  rw [tryExchange]
  split
  · -- Where the constructor raises, `ephemeral` is `None` and nothing is destroyed.
    refine (ensures_init _ hh).bind fun l ekEph hkey => Ensures.tryFinally ?_
    exact (hkey.handshake (only_exchange P hello psk ssStatic serverNonce sessionId ekEph)).mono
      (fun _ _ ho => ho) (fun _ _ hl => ensures_destroy hl) fun _ _ he => ensures_destroy he
  · -- Mode A has no ephemeral key.
    exact (hh.handshake (only_exchange P hello psk ssStatic serverNonce sessionId [])).mono
      (fun _ _ ho => ho) (fun _ _ hl => hl.settled rfl) fun _ _ he => he.settled rfl

end Code

/-! ## Erasure -/

section Erasure

variable [DecidableEq β] (P : Prims β) (key : PrivateKey β)

/-- `handle_connection` up to the end of its `try` statement. -/
def exchangeKeys : Py β (ClientHello β × List β × ExchangeResult β) := do
  let (hello, psk, ssStatic) ← acceptHello P key
  let serverNonce ← Py.call (.tokenBytes nonceLen)
  let sessionId ← Py.call (.tokenBytes sessionIdLen)
  let exchanged ← tryExchange P hello psk ssStatic serverNonce.1 sessionId.1
  return (hello, sessionId.1, exchanged)

/-- The check of the ClientFinished MAC, which makes no call. -/
def confirmClient (hello : ClientHello β) (sessionId : List β) (exchanged : ExchangeResult β) :
    Except PyExn (Session β) :=
  let expected := P.hmac exchanged.keys.cliConfirm
    (exchanged.transcriptForMac ++ exchanged.serverMac)
  if !compareDigest expected exchanged.clientMac then
    .error (.protocolError "ClientFinished MAC mismatch")
  else
    .ok { hello, sessionId, keys := exchanged.keys }

/-- The MAC is compared after the `try` statement, and before any record is read. -/
theorem handleConnection_eq (turns : ℕ) : handleConnection P key turns = (do
    let (hello, sessionId, exchanged) ← exchangeKeys P key
    let session ← Py.ofExcept (confirmClient P hello sessionId exchanged)
    recordLoop P turns ⟨.init session.keys.c2s session.sessionId, 0, 0⟩) := by
  simp only [handleConnection, keyExchange, exchangeKeys, bind_assoc, pure_bind]
  refine bind_congr fun accepted => bind_congr fun serverNonce => bind_congr fun sessionId =>
    bind_congr fun exchanged => ?_
  rw [confirmClient]
  split <;> rfl

/-- The key's fate is settled at the end of the `try` statement. -/
theorem ensures_exchangeKeys :
    Ensures OpensSettled (fun h' _ => Settled (internalEvents h'))
      (fun h' _ => Settled (internalEvents h')) [] (exchangeKeys P key) := by
  have hstart : At (internalEvents ([] : Log β)) .fresh := at_fresh
  refine (hstart.beforeKey (only_acceptHello P key)).bind fun l accepted hl => ?_
  refine (hl.beforeKey (.call (o := .tokenBytes nonceLen) trivial)).bind fun l₁ serverNonce hl₁ =>
    ?_
  refine (hl₁.beforeKey (.call (o := .tokenBytes sessionIdLen) trivial)).bind
    fun l₂ sessionId hl₂ => ?_
  exact (ensures_tryExchange P _ _ _ _ _ hl₂).bind fun _ _ hl₃ => hl₃

/-- It stays so, and records are opened only then. -/
theorem ensures_handleConnection (turns : ℕ) :
    Ensures OpensSettled (fun h' _ => Settled (internalEvents h'))
      (fun h' _ => Settled (internalEvents h')) [] (handleConnection P key turns) := by
  rw [handleConnection_eq]
  exact (ensures_exchangeKeys P key).bind fun _ _ hl =>
    hl.only (.bind (.ofExcept _) fun _ => only_recordLoop P turns _)

/-- The ephemeral key is destroyed exactly if no step of its life fails, its overwriting apart. For
every peer and every outcome of every socket call, process and file operation, this holds when
control leaves the `try` statement, normally or with an exception, and so before the MAC of
ClientFinished is compared; and it holds whenever a record is opened. -/
theorem ephemeralKey_destroyed_iff :
    (∀ turns, handleConnection P key turns = (do
      let (hello, sessionId, exchanged) ← exchangeKeys P key
      let session ← Py.ofExcept (confirmClient P hello sessionId exchanged)
      recordLoop P turns ⟨.init session.keys.c2s session.sessionId, 0, 0⟩)) ∧
    (∀ tr r, Prog.Run (overSockets P (exchangeKeys P key)) tr (.ret r) →
      Settled (internalEvents tr)) ∧
    (∀ turns t₁ payload t₂ q, Prog.Run (overSockets P (handleConnection P key turns))
      (t₁ ++ ⟨.inr (.recordOpen payload), ()⟩ :: t₂) q → Settled (internalEvents t₁)) := by
  refine ⟨handleConnection_eq P key, fun tr r hrun => ?_, fun turns t₁ payload t₂ q hrun => ?_⟩
  · obtain ⟨log, q, seen, tail, rfl, hlog, hv, hp, hret⟩ := (frameLaws P).view_of_run hrun
    rw [hret r rfl] at hlog hp
    -- What has ended has no call under way.
    obtain rfl := hp.eq_nil
    rw [List.append_nil, hv.internalEvents_eq]
    have hsettled := Prog.Spec.ret_of_run (ensures_exchangeKeys P key) hlog
    cases r with
    | ok _ => exact hsettled
    | error _ => exact hsettled
  · obtain ⟨l₁, l₂, q', seen, tail, -, hlog, hv, -⟩ := (frameLaws P).view_of_internal hrun
    rw [hv.internalEvents_eq]
    exact Prog.Spec.op_of_run (ensures_handleConnection P key turns) hlog payload rfl

end Erasure

end Server

end PqcIot
