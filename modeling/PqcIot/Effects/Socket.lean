import Mathlib.Data.List.Basic
import PqcIot.Effects.Handler

/-!
# Socket calls

Socket operations on a byte alphabet, with answers as partial as a stream socket gives them: a
`send` may take any non-empty part of its buffer, a `recv` may deliver any non-empty part of what
was asked for, and either may fail. A log splits into the bytes it sent (`sentBytes`), the bytes it
received (`receivedBytes`) and the events that are not socket calls (`internalEvents`).
-/

namespace Effects

variable {β : Type} {E : Signature}

/-- Socket operations. -/
inductive SockOp (β : Type) where
  | send (buf : List β)
  | recv (n : ℕ)

/-- What a `recv` of at most `n` bytes gives: an error or timeout, the end of the stream, or a
non-empty chunk. -/
inductive Received (β : Type) (n : ℕ) where
  | error
  | closed
  | chunk (bytes : List β) (nonempty : bytes ≠ []) (le : bytes.length ≤ n)

/-- The answer to a socket operation: for `send`, the number of bytes taken, `none` on error. -/
@[reducible]
def SockOp.Ans : SockOp β → Type
  | .send buf => Option { n : ℕ // 0 < n ∧ n ≤ buf.length }
  | .recv n => Received β n

/-- The signature of socket operations. -/
abbrev sockSig (β : Type) : Signature := ⟨SockOp β, SockOp.Ans⟩

/-- The bytes an event put on the wire. -/
def Event.sent : Event ((sockSig β).sum E) → List β
  | ⟨.inl (.send buf), some n⟩ => buf.take n
  | _ => []

/-- The bytes an event took from the wire. -/
def Event.received : Event ((sockSig β).sum E) → List β
  | ⟨.inl (.recv _), .chunk bytes _ _⟩ => bytes
  | _ => []

/-- The bytes put on the wire in a log. -/
def sentBytes (log : List (Event ((sockSig β).sum E))) : List β := log.flatMap Event.sent

/-- The bytes taken from the wire in a log. -/
def receivedBytes (log : List (Event ((sockSig β).sum E))) : List β := log.flatMap Event.received

@[simp]
theorem sentBytes_nil : sentBytes ([] : List (Event ((sockSig β).sum E))) = [] := rfl

@[simp]
theorem sentBytes_cons (e : Event ((sockSig β).sum E)) (log : List (Event ((sockSig β).sum E))) :
    sentBytes (e :: log) = e.sent ++ sentBytes log := rfl

/-- What two logs send together is what the first sends, then what the second does. -/
@[simp]
theorem sentBytes_append (l₁ l₂ : List (Event ((sockSig β).sum E))) :
    sentBytes (l₁ ++ l₂) = sentBytes l₁ ++ sentBytes l₂ := List.flatMap_append

@[simp]
theorem receivedBytes_nil : receivedBytes ([] : List (Event ((sockSig β).sum E))) = [] := rfl

@[simp]
theorem receivedBytes_cons (e : Event ((sockSig β).sum E))
    (log : List (Event ((sockSig β).sum E))) :
    receivedBytes (e :: log) = e.received ++ receivedBytes log := rfl

/-- The same for what they receive. -/
@[simp]
theorem receivedBytes_append (l₁ l₂ : List (Event ((sockSig β).sum E))) :
    receivedBytes (l₁ ++ l₂) = receivedBytes l₁ ++ receivedBytes l₂ := List.flatMap_append

/-- An internal call puts nothing on the wire. -/
theorem sentBytes_concat_inr (log : List (Event ((sockSig β).sum E))) (o : E.Op) (a : E.Ans o) :
    sentBytes (log ++ [⟨.inr o, a⟩]) = sentBytes log := by
  rw [sentBytes_append]
  exact List.append_nil _

/-- An internal call takes nothing from the wire. -/
theorem receivedBytes_concat_inr (log : List (Event ((sockSig β).sum E))) (o : E.Op) (a : E.Ans o) :
    receivedBytes (log ++ [⟨.inr o, a⟩]) = receivedBytes log := by
  rw [receivedBytes_append]
  exact List.append_nil _

/-- Some `send` has failed. -/
def SendFailed (log : List (Event ((sockSig β).sum E))) : Prop :=
  ∃ buf, ⟨.inl (.send buf), none⟩ ∈ log

/-- A failure stays in a longer log. -/
theorem SendFailed.mono {l₁ l₂ : List (Event ((sockSig β).sum E))} (h : SendFailed l₁)
    (hsub : l₁ ⊆ l₂) : SendFailed l₂ := by
  obtain ⟨buf, hmem⟩ := h
  exact ⟨buf, hsub hmem⟩

/-! ## The other half of a log -/

section Internal

variable {S : Signature}

/-- The event of an operation that is not one of `S`. -/
def Event.internal? : Event (S.sum E) → Option (Event E)
  | ⟨.inl _, _⟩ => none
  | ⟨.inr o, a⟩ => some ⟨o, a⟩

/-- The part of a log that is not operations of `S`. -/
def internalEvents (log : List (Event (S.sum E))) : List (Event E) :=
  log.filterMap Event.internal?

@[simp]
theorem internalEvents_nil : internalEvents ([] : List (Event (S.sum E))) = [] := rfl

/-- An event of the connection is none of the internal ones. -/
@[simp]
theorem internalEvents_cons_inl (o : S.Op) (a : S.Ans o) (log : List (Event (S.sum E))) :
    internalEvents (⟨.inl o, a⟩ :: log) = internalEvents log := rfl

/-- Any other event is. -/
@[simp]
theorem internalEvents_cons_inr (o : E.Op) (a : E.Ans o) (log : List (Event (S.sum E))) :
    internalEvents (⟨.inr o, a⟩ :: log) = ⟨o, a⟩ :: internalEvents log := rfl

/-- The internal calls of two logs are those of the first, then those of the second. -/
@[simp]
theorem internalEvents_append (l₁ l₂ : List (Event (S.sum E))) :
    internalEvents (l₁ ++ l₂) = internalEvents l₁ ++ internalEvents l₂ := List.filterMap_append

/-- A call is internal exactly if it stands in the log as such. -/
theorem mem_internalEvents {o : E.Op} {a : E.Ans o} {log : List (Event (S.sum E))} :
    ⟨o, a⟩ ∈ internalEvents log ↔ ⟨.inr o, a⟩ ∈ log := by
  rw [internalEvents, List.mem_filterMap]
  constructor
  · rintro ⟨⟨o' | o', a'⟩, hmem, heq⟩
    · cases heq
    · cases heq
      exact hmem
  · exact fun hmem => ⟨_, hmem, rfl⟩

end Internal

end Effects
