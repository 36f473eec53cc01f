import DocStore.Proofs.Schema.Stored
/-!
What a check has let through is checked again: in either mode it passes and stays as it is, unless the
options of a field of days and times lack the text that is stored. Options are compared with values as they
are given, so a day among them admits that day but not its text.
-/

namespace DocStore.Schema

variable {field : String} {f : Field} {v stored : Value} {given value : Option Value} {mode : Mode}
  {schema : Schema} {data : Value} {values es doc : Document}

/-! ## One field -/

/-- The options of a field of days and times have not got what is stored. -/
def lacks (f : Field) (stored : Option Value) : Bool :=
  f.type = .date && f.options.elim false fun options => stored.any fun v => !options.any (strictEq v)

def unlisted (e : String × Field) : Error :=
  .validation (.string e.1) (.notAllowed (e.2.options.getD []))

/-- The value that a new document has for a field: what is given, else what the default makes. -/
def chosen (f : Field) (given : Option Value) : Option Value := given.or (f.default.map Value.made)

end DocStore.Schema
