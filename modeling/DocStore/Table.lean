/-!
Tables from names to values that keep the order in which names were first set.
-/

namespace DocStore

/-- An ordered table; no name occurs twice. -/
abbrev Table (α : Type) := List (String × α)

namespace Table

variable {α : Type}

def get? (t : Table α) (name : String) : Option α := t.lookup name

def has (t : Table α) (name : String) : Bool := (t.lookup name).isSome

/-- Sets a name in place, or adds it at the end. -/
def put (t : Table α) (name : String) (a : α) : Table α :=
  match t with
  | [] => [(name, a)]
  | (k, b) :: rest => if k = name then (k, a) :: rest else (k, b) :: put rest name a

def drop (t : Table α) (name : String) : Table α := t.filter (·.1 ≠ name)

def names (t : Table α) : List String := t.map (·.1)

theorem lookup_put (t : Table α) (name other : String) (a : α) :
    (put t name a).lookup other = if other = name then some a else t.lookup other := by
  induction t with
  | nil =>
    by_cases h : other = name
    · subst h; simp [put]
    · simp [put, h]
  | cons e rest ih =>
    obtain ⟨k, b⟩ := e
    by_cases hk : k = name
    · subst hk
      by_cases h : other = k
      · subst h; simp [put]
      · simp [put, List.lookup_cons, h, beq_false_of_ne h]
    · simp only [put, hk, if_false, List.lookup_cons, ih]
      by_cases h : other = k
      · subst h; simp [hk]
      · simp [beq_false_of_ne h]

end Table

def insertName (name : String) : List String → List String
  | [] => [name]
  | n :: rest => if name < n then name :: n :: rest else n :: insertName name rest

def sortNames (names : List String) : List String :=
  names.foldl (fun sorted n => insertName n sorted) []

end DocStore
