import PqcIot.Effects.Exceptions
import PqcIot.Server.Connection

/-!
# Proof rules for the server's code

`Py.Ensures φ Q R h c`: when the history `h` has happened, every operation that `c` performs
satisfies `φ` at the history it is performed at, every value it returns satisfies `Q` and every
exception it raises satisfies `R` at the history it ends with. There is one rule for each construct
of the code, so that a specification is computed along the text of a function.
-/

namespace PqcIot

open Effects Protocol

namespace Server

variable {β α γ : Type}

namespace Py

/-- Specification of code that may raise. -/
def Ensures (φ : List (Event (calls β)) → (calls β).Op → Prop)
    (Q : List (Event (calls β)) → α → Prop) (R : List (Event (calls β)) → PyExn → Prop)
    (h : List (Event (calls β))) (c : Py β α) : Prop :=
  Prog.Spec φ (fun h' r => match r with
    | .ok a => Q h' a
    | .error e => R h' e) h c.run

variable {φ : List (Event (calls β)) → (calls β).Op → Prop}
  {Q : List (Event (calls β)) → α → Prop} {R : List (Event (calls β)) → PyExn → Prop}
  {h : List (Event (calls β))}

/-- The rules are those for code that may raise, over the calls of the server. -/
theorem ensures_iff {c : Py β α} : Ensures φ Q R h c ↔ Raising.Ensures φ Q R h c := by
  refine iff_of_eq (congrArg (fun ψ => Prog.Spec φ ψ h c.run) ?_)
  funext h' r
  cases r <;> rfl

/-- Nothing is called, and the value is returned. -/
@[simp]
theorem ensures_pure (a : α) : Ensures φ Q R h (pure a) ↔ Q h a := Iff.rfl

/-- The exception is raised. -/
@[simp]
theorem ensures_raise (e : PyExn) : Ensures φ Q R h (raise e) ↔ R h e := Iff.rfl

/-- What the first piece of code ensures is where the second starts; its exceptions pass. -/
theorem ensures_bind (c : Py β α) (f : α → Py β γ) {Q : List (Event (calls β)) → γ → Prop} :
    Ensures φ Q R h (c >>= f) ↔ Ensures φ (fun h' a => Ensures φ Q R h' (f a)) R h c := by
  simp only [ensures_iff]
  exact Raising.ensures_bind c f

/-- Consequence, along the histories that extend the starting one. -/
theorem Ensures.mono {φ' : List (Event (calls β)) → (calls β).Op → Prop}
    {Q' : List (Event (calls β)) → α → Prop} {R' : List (Event (calls β)) → PyExn → Prop}
    {c : Py β α} (hc : Ensures φ Q R h c) (hφ : ∀ l o, φ (h ++ l) o → φ' (h ++ l) o)
    (hQ : ∀ l a, Q (h ++ l) a → Q' (h ++ l) a) (hR : ∀ l e, R (h ++ l) e → R' (h ++ l) e) :
    Ensures φ' Q' R' h c :=
  ensures_iff.mpr ((ensures_iff.mp hc).mono hφ hQ hR)

/-- Sequencing with an intermediate assertion. -/
theorem Ensures.bind {c : Py β α} {f : α → Py β γ} {Q' : List (Event (calls β)) → γ → Prop}
    (hc : Ensures φ Q R h c) (hf : ∀ l a, Q (h ++ l) a → Ensures φ Q' R (h ++ l) (f a)) :
    Ensures φ Q' R h (c >>= f) :=
  ensures_iff.mpr ((ensures_iff.mp hc).bind fun l a ha => ensures_iff.mp (hf l a ha))

/-- The call is allowed, and every answer to it leads on. -/
@[simp]
theorem ensures_call (o : HostOp β) {Q : List (Event (calls β)) → HostOp.Ans o → Prop} :
    Ensures φ Q R h (call o) ↔ φ h (.inr o) ∧ ∀ a, Q (h ++ [⟨.inr o, a⟩]) a := Iff.rfl

/-- An operation that gives nothing raises `OSError`. -/
@[simp]
theorem ensures_orOSError (x : Option α) :
    Ensures φ Q R h (orOSError x) ↔ (∀ a, x = some a → Q h a) ∧ (x = none → R h .osError) := by
  cases x with
  | none => simp [orOSError]
  | some a => simp [orOSError]

/-- A result is returned or raised. -/
@[simp]
theorem ensures_ofExcept (r : Except PyExn α) :
    Ensures φ Q R h (ofExcept r) ↔ (∀ a, r = .ok a → Q h a) ∧ (∀ e, r = .error e → R h e) :=
  ensures_iff.trans (Raising.ensures_ofExcept r)

/-- Each branch may rely on the condition that leads to it. -/
theorem ensures_ite {p : Prop} [Decidable p] {c d : Py β α} (hc : p → Ensures φ Q R h c)
    (hd : ¬ p → Ensures φ Q R h d) : Ensures φ Q R h (if p then c else d) :=
  ensures_iff.mpr (Raising.ensures_ite (fun hp => ensures_iff.mp (hc hp)) fun hp =>
    ensures_iff.mp (hd hp))

/-- `except OSError: pass` turns `OSError` into a return. -/
theorem Ensures.ignoreOSError {body : Py β Unit} {Q : List (Event (calls β)) → Unit → Prop}
    (hbody : Ensures φ Q (fun h' e => if e = .osError then Q h' () else R h' e) h body) :
    Ensures φ Q R h (ignoreOSError body) := by
  rw [Ensures, Py.ignoreOSError, ExceptT.run_mk, Prog.spec_bind]
  refine Prog.Spec.mono hbody (fun _ _ ho => ho) fun l r hr => ?_
  cases r with
  | ok a => exact hr
  | error e => cases e <;> exact hr

/-- `finally` runs after either outcome. -/
theorem Ensures.tryFinally {body : Py β α} {final : Py β Unit}
    (hbody : Ensures φ (fun h' a => Ensures φ (fun h'' _ => Q h'' a) R h' final)
      (fun h' e => Ensures φ (fun h'' _ => R h'' e) R h' final) h body) :
    Ensures φ Q R h (tryFinally body final) := by
  rw [Ensures, Py.tryFinally, ExceptT.run_mk, Prog.spec_bind]
  refine Prog.Spec.mono hbody (fun _ _ ho => ho) fun l r hr => ?_
  rw [Prog.spec_bind]
  cases r with
  | ok a =>
    refine Prog.Spec.mono hr (fun _ _ ho => ho) fun l' r' hr' => ?_
    cases r' <;> exact hr'
  | error e =>
    refine Prog.Spec.mono hr (fun _ _ ho => ho) fun l' r' hr' => ?_
    cases r' <;> exact hr'

/-! ### Code that performs only some operations -/

section Only

variable {p : (calls β).Op → Prop}

/-- Every operation that the code performs satisfies `p`. -/
def Only (p : (calls β).Op → Prop) (c : Py β α) : Prop :=
  ∀ h, Ensures (fun _ o => p o) (fun _ _ => True) (fun _ _ => True) h c

theorem Only.pure (a : α) : Only p (Pure.pure a : Py β α) := fun _ => trivial

theorem Only.raise (e : PyExn) : Only p (Py.raise e : Py β α) := fun _ => trivial

/-- A result makes no call. -/
theorem Only.ofExcept (r : Except PyExn α) : Only p (Py.ofExcept r : Py β α) := fun _ =>
  (ensures_ofExcept r).mpr ⟨fun _ _ => trivial, fun _ _ => trivial⟩

/-- Neither does its absence. -/
theorem Only.orOSError (x : Option α) : Only p (Py.orOSError x : Py β α) := fun _ =>
  (ensures_orOSError x).mpr ⟨fun _ _ => trivial, fun _ => trivial⟩

/-- A call of the kind. -/
theorem Only.call {o : HostOp β} (ho : p (.inr o)) : Only p (Py.call o) := fun _ =>
  (ensures_call o).mpr ⟨ho, fun _ => trivial⟩

/-- Code after code makes the calls of both. -/
theorem Only.bind {c : Py β α} {f : α → Py β γ} (hc : Only p c) (hf : ∀ a, Only p (f a)) :
    Only p (c >>= f) := fun h => (hc h).bind fun l a _ => hf a (h ++ l)

/-- Whichever branch is taken. -/
theorem Only.ite {q : Prop} [Decidable q] {c d : Py β α} (hc : Only p c) (hd : Only p d) :
    Only p (if q then c else d) := fun h => ensures_ite (fun _ => hc h) fun _ => hd h

/-- An invariant that such operations keep. -/
theorem Only.invariant {c : Py β α} (hc : Only p c) {I : List (Event (calls β)) → Prop}
    (hI : ∀ (h : List (Event (calls β))) (o : (calls β).Op) (a : (calls β).Ans o),
      p o → I h → I (h ++ [⟨o, a⟩])) (hh : I h) :
    Ensures (fun h' o => I h' ∧ p o) (fun h' _ => I h') (fun h' _ => I h') h c :=
  ensures_iff.mpr (Raising.Only.invariant (fun h' => ensures_iff.mp (hc h')) hI hh)

end Only

end Py

variable {φ : List (Event (calls β)) → (calls β).Op → Prop}
  {R : List (Event (calls β)) → PyExn → Prop} {h : List (Event (calls β))}

/-- A frame is read, or an exception is raised. -/
@[simp]
theorem ensures_recvFrame {Q : List (Event (calls β)) → UInt8 × Payload β maxFrame → Prop} :
    Py.Ensures φ Q R h recvFrame ↔ φ h (.inl (.read maxFrame)) ∧
      (∀ frame, Q (h ++ [⟨.inl (.read maxFrame), .ok frame⟩]) frame) ∧
      ∀ e, R (h ++ [⟨.inl (.read maxFrame), .error e⟩]) e := by
  refine and_congr_right fun _ => ⟨fun hall => ⟨fun frame => hall (.ok frame), fun e =>
    hall (.error e)⟩, fun hall a => ?_⟩
  cases a with
  | ok frame => exact hall.1 frame
  | error e => exact hall.2 e

/-- A frame is written, or an exception is raised. -/
@[simp]
theorem ensures_sendFrame {ftype : UInt8} {payload : List β}
    {Q : List (Event (calls β)) → Unit → Prop} :
    Py.Ensures φ Q R h (sendFrame ftype payload) ↔ φ h (.inl (.write ftype payload)) ∧
      Q (h ++ [⟨.inl (.write ftype payload), .ok ()⟩]) () ∧
      ∀ e, R (h ++ [⟨.inl (.write ftype payload), .error e⟩]) e := by
  refine and_congr_right fun _ => ⟨fun hall => ⟨hall (.ok ()), fun e => hall (.error e)⟩,
    fun hall a => ?_⟩
  cases a with
  | ok u => exact hall.1
  | error e => exact hall.2 e

/-! ## Keys -/

/-- A process that has finished, with `check=True`. -/
theorem ensures_checked_some (result : Completed β) {Q : List (Event (calls β)) → List β → Prop} :
    Py.Ensures φ Q R h (checked (some result)) ↔
      (result.returncode ≠ 0 → R h .calledProcessError) ∧
        (result.returncode = 0 → Q h result.stdout) := by
  have hchecked : checked (some result) =
      if result.returncode ≠ 0 then Py.raise .calledProcessError else pure result.stdout := rfl
  rw [hchecked]
  split
  · exact ⟨fun hR => ⟨fun _ => hR, fun hrc => absurd hrc ‹_›⟩, fun hall => hall.1 ‹_›⟩
  · exact ⟨fun hQ => ⟨fun hrc => absurd hrc ‹_›, fun _ => hQ⟩, fun hall => hall.2 (not_not.mp ‹_›)⟩

/-- The raw public key of what openssl prints: a header of 22 bytes, and the key. -/
theorem rawPublicFromDer_append {level : Level} {header pk : List β} (hheader : header.length = 22)
    (hpk : pk.length = level.publicKeyBytes) : rawPublicFromDer (header ++ pk) = .ok pk := by
  have hfind : [800, 1184, 1568].find? (fun rawLen => (header ++ pk).length == rawLen + 22) =
      some pk.length := by
    rw [List.length_append, hheader, hpk]
    cases level <;> rfl
  rw [rawPublicFromDer, hfind]
  dsimp only
  rw [List.length_append, Nat.add_sub_cancel, List.drop_left' rfl]

/-! ## Completed runs -/

section Runs

variable {l l' : List (Event (calls β))} {b : Except PyExn γ}

/-- A result that is no exception goes on. -/
@[simp]
theorem Py.ofExcept_ok_bind (a : α) (g : α → Py β γ) : (Py.ofExcept (.ok a) >>= g) = g a := rfl

/-- So does an operation that gives something. -/
@[simp]
theorem Py.orOSError_some_bind (a : α) (g : α → Py β γ) : (Py.orOSError (some a) >>= g) = g a := rfl

/-- A process that exits with 0 goes on with what it has printed. -/
@[simp]
theorem checked_zero_bind (stdout : List β) (g : List β → Py β γ) :
    (checked (some ⟨0, stdout⟩) >>= g) = g stdout := rfl

/-- A run of the first piece of code, then one of the second. -/
theorem run_bind {c : Py β α} {g : α → Py β γ} {a : α} (hc : Prog.Run c.run l (.ret (.ok a)))
    (hg : Prog.Run (g a).run l' (.ret b)) : Prog.Run (c >>= g).run (l ++ l') (.ret b) :=
  Raising.run_bind_ok hc hg

/-- The second makes no call. -/
theorem run_bind_last {c : Py β α} {g : α → Py β γ} {a : α} (hc : Prog.Run c.run l (.ret (.ok a)))
    (hg : Prog.Run (g a).run [] (.ret b)) : Prog.Run (c >>= g).run l (.ret b) :=
  l.append_nil ▸ Prog.Run.bind hc hg

/-- An exception ends a sequence. -/
theorem run_bind_error {c : Py β α} {g : α → Py β γ} {e : PyExn}
    (hc : Prog.Run c.run l (.ret (.error e))) : Prog.Run (c >>= g).run l (.ret (.error e)) :=
  Raising.run_bind_error hc

/-- A call, with an answer from which there is a run. -/
theorem run_call {o : HostOp β} {a : HostOp.Ans o} {g : HostOp.Ans o → Py β γ}
    (hg : Prog.Run (g a).run l (.ret b)) :
    Prog.Run (Py.call o >>= g).run (⟨.inr o, a⟩ :: l) (.ret b) :=
  .cons hg

/-- A frame that is read, and a run from there. -/
theorem run_recvFrame {frame : UInt8 × Payload β maxFrame} {g : UInt8 × Payload β maxFrame → Py β γ}
    {q : Prog (calls β) (Except PyExn γ)} (hg : Prog.Run (g frame).run l q) :
    Prog.Run (recvFrame >>= g).run (⟨.inl (.read maxFrame), .ok frame⟩ :: l) q :=
  .cons hg

/-- A frame that is written, and a run from there. -/
theorem run_sendFrame {ftype : UInt8} {payload : List β} {g : Unit → Py β γ}
    (hg : Prog.Run (g ()).run l (.ret b)) :
    Prog.Run (sendFrame ftype payload >>= g).run (⟨.inl (.write ftype payload), .ok ()⟩ :: l)
      (.ret b) :=
  .cons hg

/-- `finally` runs after the outcome. -/
theorem run_tryFinally {body : Py β γ} {final : Py β Unit} (hbody : Prog.Run body.run l (.ret b))
    (hfinal : Prog.Run final.run l' (.ret (.ok ()))) :
    Prog.Run (Py.tryFinally body final).run (l ++ l') (.ret b) := by
  rw [Py.tryFinally, ExceptT.run_mk, ← List.append_nil l']
  exact hbody.bind (hfinal.bind (.nil _))

/-- A body that raises nothing. -/
theorem run_ignoreOSError {body : Py β Unit} (hbody : Prog.Run body.run l (.ret (.ok ()))) :
    Prog.Run (Py.ignoreOSError body).run l (.ret (.ok ())) := by
  rw [Py.ignoreOSError, ExceptT.run_mk, ← List.append_nil l]
  exact hbody.bind (.nil _)

end Runs

end Server

end PqcIot
