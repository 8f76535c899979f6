import LittleMan.Policy
import LittleMan.Text.Blank

/-!
# Variants

The three historical machines. Each has a policy, and says whether a starved input should be asked
of the user.

## Main definitions

* `Variant`, `Variant.policy`, `Variant.prompts`
* `Variant.parse` — a variant from one of its names
-/

namespace LittleMan

/-- One of the three machines. -/
inductive Variant
  /-- The classic machine with three decimal digits. -/
  | classic
  /-- The 32-bit machine. -/
  | lmc32
  /-- The 64-bit machine. -/
  | lmc64
  deriving DecidableEq, Inhabited

/-- A name that no variant has. -/
structure UnknownVariant where
  /-- The name as it was given. -/
  name : String
  deriving DecidableEq

/-- The wording of an unknown name. -/
def UnknownVariant.message (e : UnknownVariant) : String :=
  "unknown variant `" ++ e.name ++ "` (expected classic, lmc32 or lmc64)"

namespace Variant

/-- All variants, the oldest first. -/
def all : List Variant :=
  [classic, lmc32, lmc64]

/-- The arithmetic of a variant. -/
def policy : Variant → Policy
  | classic => .decimal
  | lmc32 => .bounded32
  | lmc64 => .bounded64

/-- Whether a starved input is asked of the user. -/
def prompts : Variant → Bool
  | classic => false
  | lmc32 => true
  | lmc64 => true

/-- The name of a variant. -/
def name : Variant → String
  | classic => "classic"
  | lmc32 => "lmc32"
  | lmc64 => "lmc64"

/-- The names that a variant goes by, in lower case. -/
def aliases : Variant → List String
  | classic => ["classic", "decimal", "lmc"]
  | lmc32 => ["lmc32", "32"]
  | lmc64 => ["lmc64", "64"]

/-- A variant from one of its names. Blanks around the name and the case of ASCII letters do not
matter. -/
def parse (s : String) : Except UnknownVariant Variant :=
  let name := String.ofList ((Text.trim s.toList).map Char.toLower)
  match all.find? fun v => v.aliases.contains name with
  | some v => .ok v
  | none => .error ⟨s⟩

end Variant

end LittleMan
