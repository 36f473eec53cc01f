import DocStore.Value.Key
/-!
Tables under names of any type that can serve as one, told apart by identity, and objects seen as
such tables.
-/

namespace DocStore

/-- An ordered table; no two names have one identity. -/
abbrev Catalog (α : Type) := List (Value × α)

namespace Catalog

variable {α : Type}

def get? (c : Catalog α) (name : Value) : Option α :=
  (c.find? fun e => Key.identity e.1 == Key.identity name).map (·.2)

def has (c : Catalog α) (name : Value) : Bool := (c.get? name).isSome

def put (c : Catalog α) (name : Value) (a : α) : Catalog α :=
  match c with
  | [] => [(name, a)]
  | (n, b) :: rest =>
    if Key.identity n = Key.identity name then (n, a) :: rest else (n, b) :: put rest name a

def drop (c : Catalog α) (name : Value) : Catalog α :=
  c.filter fun e => Key.identity e.1 != Key.identity name

def names (c : Catalog α) : List Value := c.map (·.1)

theorem get?_put (c : Catalog α) (name other : Value) (a : α) :
    (put c name a).get? other =
      if Key.identity other = Key.identity name then some a else c.get? other := by
  induction c with
  | nil =>
    by_cases h : Key.identity other = Key.identity name
    · simp [put, get?, h]
    · simp [put, get?, h, Ne.symm h]
  | cons e rest ih =>
    obtain ⟨n, b⟩ := e
    simp only [get?] at ih ⊢
    by_cases hn : Key.identity n = Key.identity name
    · by_cases h : Key.identity other = Key.identity name
      · simp [put, hn, h]
      · simp [put, hn, h, Ne.symm h]
    · by_cases h : Key.identity n = Key.identity other
      · have ho : ¬Key.identity other = Key.identity name := h ▸ hn
        simp [put, h, ho]
      · simp [put, hn, h, ih]

end Catalog

namespace Value

def entries? : Value → Option (Catalog Value)
  | .object es => some (Document.pairs es)
  | .mapping es => some es
  | _ => none

def plainEntries? : Catalog Value → Option Document
  | [] => some []
  | (.string k, v) :: es => (plainEntries? es).map ((k, v) :: ·)
  | _ => none

def ofEntries (es : Catalog Value) : Value :=
  match plainEntries? es with
  | some plain => .object plain
  | none => .mapping es

/-- The value under a key of an object, if it has the key. -/
def entry? (doc key : Value) : Option Value :=
  match doc with
  | .object es => key.text?.bind fun k => es.lookup k
  | .mapping es => Catalog.get? es key
  | _ => none

/-- An object with a key set in place or added at the end; other values stay as they are. -/
def putEntry (doc key value : Value) : Value :=
  match doc, key with
  | .object es, .string k => .object (Document.put es k value)
  | doc, key =>
    match doc.entries? with
    | some es => ofEntries (Catalog.put es key value)
    | none => doc

/-- Puts entries over those of an object one after the other. -/
def mergeEntries (doc : Value) (changes : Catalog Value) : Value :=
  changes.foldl (fun doc (k, v) => doc.putEntry k v) doc

end Value

end DocStore
