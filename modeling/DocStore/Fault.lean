/-!
Failures that are not the store's own: of a value that does not fit, of a text, of a file.
-/

namespace DocStore

/-- The failures that callers tell apart by kind alone. -/
inductive Fault where
  /-- An operation met a value of a type it does not take. -/
  | wrongType
  /-- A value lacks the operation asked of it, such as a look-up in something other than an
  object. -/
  | noSuchMember
  /-- A required entry is absent. -/
  | missingKey
  /-- A number or a date leaves its range. -/
  | outOfRange
  /-- A value of the right type that cannot be used. -/
  | badValue
  | malformedJson
  | malformedText
  | isDirectory
  | notADirectory
  | fileNotFound
  /-- The system refuses a file for another reason, such as a name that is too long. -/
  | system
  /-- A table changed while it was walked. -/
  | changedMeanwhile
  /-- Something was assumed that does not hold. -/
  | assumption
  | badSettings
deriving DecidableEq, Repr, Inhabited

end DocStore
