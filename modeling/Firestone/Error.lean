import Mathlib.Data.List.Basic

/-!
# Errors

The error value every operation returns: a stable kind, the message, the hint and the dotted spec path it belongs to.
The chained source error of the implementation carries no decision and is left out.
-/

namespace Firestone

/-- Stable categories shared by every interface. -/
inductive ErrorKind
  | generic | usage | invalidSpec | notFound | notRunning | conflict | alreadyExists | alreadyRunning
  | busy | dependency | timeout | checksum | interrupted
  deriving DecidableEq, Repr

/-- The error type returned by core operations. -/
structure FirestoneError where
  kind : ErrorKind
  message : String
  hint : Option String
  field : Option String
  deriving DecidableEq, Repr

/-- An error without hint or field. -/
def FirestoneError.new (kind : ErrorKind) (message : String) : FirestoneError := ⟨kind, message, none, none⟩

/-- The same error with a hint. -/
def FirestoneError.withHint (e : FirestoneError) (hint : String) : FirestoneError := { e with hint := some hint }

/-- The result of a fallible operation. -/
abbrev Res := Except FirestoneError

/-- A bind that succeeds ran both of its parts. -/
theorem Res.bind_ok {α β : Type} {x : Res α} {f : α → Res β} {b : β} (h : (x >>= f) = .ok b) :
    ∃ a, x = .ok a ∧ f a = .ok b := by
  cases x with
  | error e => cases h
  | ok a => exact ⟨a, rfl, h⟩

theorem Res.bind_ok_iff {α β : Type} {x : Res α} {f : α → Res β} {b : β} :
    (x >>= f) = .ok b ↔ ∃ a, x = .ok a ∧ f a = .ok b := by
  refine ⟨Res.bind_ok, ?_⟩
  rintro ⟨a, rfl, h⟩
  exact h

/-- A result that is not an error has a value. -/
theorem Res.exists_ok {α : Type} {x : Res α} (h : x.isOk = true) : ∃ a, x = .ok a := by
  cases x with
  | error e => cases h
  | ok a => exact ⟨a, rfl⟩

/-- A result that passes a test has a value that does. -/
theorem Res.exists_ok_any {α : Type} {x : Res α} {p : α → Bool} (h : x.toOption.any p = true) :
    ∃ a, x = .ok a ∧ p a = true := by
  cases x with
  | error e => cases h
  | ok a => exact ⟨a, rfl, h⟩

end Firestone
