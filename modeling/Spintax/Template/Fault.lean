namespace Spintax

/-- What is wrong with a text that is no template. -/
inductive Flaw where
  | unclosedGroup
  | strayClose
  | emptyGroup
  | loneBranch
  | emptyBranch
  | namelessSlot
  | badSlotName
  | unclosedSlot
  | badWeight
  | tooDeep
deriving DecidableEq, Repr

/-- A flaw and the byte position of the place that shows it. -/
structure Fault where
  flaw : Flaw
  offset : Nat
deriving DecidableEq, Repr

namespace Flaw

def code : Flaw → String
  | unclosedGroup => "unmatched_open_brace"
  | strayClose => "unmatched_close_brace"
  | emptyGroup => "empty_group"
  | loneBranch => "single_alternative"
  | emptyBranch => "empty_alternative"
  | namelessSlot => "empty_variable_name"
  | badSlotName => "invalid_variable_name"
  | unclosedSlot => "unterminated_variable"
  | badWeight => "invalid_weight"
  | tooDeep => "nesting_too_deep"

def reason : Flaw → String
  | unclosedGroup => "Variation group is never closed"
  | strayClose => "Closing brace has no matching opening brace"
  | emptyGroup => "Variation group is empty"
  | loneBranch => "Variation group needs at least two alternatives separated by '|'"
  | emptyBranch => "Variation group contains an empty alternative"
  | namelessSlot => "Variable reference has an empty name"
  | badSlotName =>
    "Variable name must start with a letter or underscore and contain only letters, " ++
      "digits, or underscores"
  | unclosedSlot => "Variable reference is missing its closing '\x7d\x7d'"
  | badWeight => "Alternative weight must be a positive 32-bit integer"
  | tooDeep => "Variation groups are nested too deeply"

end Flaw

def Fault.message (f : Fault) : String :=
  s!"{f.flaw.reason} at offset {f.offset}"

end Spintax
