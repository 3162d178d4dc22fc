import NormaHarness.Text

/-!
# Resident names, capability names, message kinds and instance identities

The three textual identifiers are one type with three labels, and a value of it
carries the check its constructor made. An instance identity is a plain 64-bit
number; only the store that reserves it can produce one.
-/
namespace NormaHarness.Identifiers
open Std

inductive IdentifierError where
  | empty (kind : String)
  | invalid (kind value : String)
  deriving DecidableEq, Repr

def IdentifierError.message : IdentifierError → String
  | .empty kind => s!"{kind} cannot be empty"
  | .invalid kind value =>
      s!"{kind} `{value}` contains surrounding whitespace or control characters"

def validate (kind value : String) : Except IdentifierError String :=
  if Text.isBlank value then .error (.empty kind)
  else if Text.trim value ≠ value ∨ value.toList.any Text.isControl then
    .error (.invalid kind value)
  else .ok value

/-- The `identifier!` macro: a string that passed `validate` under its label. -/
structure Identifier (kind : String) where
  asStr : String
  valid : validate kind asStr = .ok asStr
  deriving DecidableEq

abbrev ResidentKey := Identifier "Resident name"
abbrev CapabilityKey := Identifier "capability name"
abbrev MessageKind := Identifier "message kind"

theorem validate_eq {kind value out : String} (h : validate kind value = .ok out) :
    out = value := by
  unfold validate at h
  split_ifs at h
  exact (Except.ok.inj h).symm

theorem validate_fixed {kind value out : String} (h : validate kind value = .ok out) :
    validate kind out = .ok out := by
  obtain rfl := validate_eq h
  exact h

def Identifier.new (kind value : String) : Except IdentifierError (Identifier kind) :=
  match h : validate kind value with
  | .error e => .error e
  | .ok out => .ok ⟨out, validate_fixed h⟩

namespace Identifier
variable {kind : String}

theorem ext {a b : Identifier kind} (h : a.asStr = b.asStr) : a = b := by
  cases a
  cases b
  cases h
  rfl

/-- Constructing the identifier of an identifier's own text gives it back. -/
theorem new_asStr (a : Identifier kind) : Identifier.new kind a.asStr = .ok a := by
  unfold Identifier.new
  split
  · rename_i h
    rw [a.valid] at h
    cases h
  · rename_i out h
    exact congrArg Except.ok (ext (validate_eq h))

instance : Ord (Identifier kind) := ⟨fun a b => compare a.asStr b.asStr⟩

instance : TransOrd (Identifier kind) where
  eq_swap {a b} := @OrientedCmp.eq_swap String compare _ a.asStr b.asStr
  isLE_trans {a b c} := @TransCmp.isLE_trans String compare _ a.asStr b.asStr c.asStr

instance : LawfulEqOrd (Identifier kind) where
  compare_self {a} := @ReflCmp.compare_self String compare _ a.asStr
  eq_of_compare h := ext (@LawfulEqCmp.eq_of_compare String compare _ _ _ h)

end Identifier

abbrev ResidentInstanceId := ℕ

/-- `u64::MAX`. -/
def u64Max : ℕ := 2 ^ 64 - 1

end NormaHarness.Identifiers
