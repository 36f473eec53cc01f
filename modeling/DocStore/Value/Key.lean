import DocStore.Json.Writer
import DocStore.Value.Equality
/-!
Keys: normal forms of values. In the key under which an index files a value each family of types is
apart, lists and tuples are one, the order of an object's entries is forgotten, and equal numbers
have one spelling. The identity of a value is the key by which tables and sets go.
-/

namespace DocStore

/-- A normal form of a value. -/
inductive Key where
  | boolean (b : Bool)
  | number (place : Extended)
  | string (s : String)
  | array (items : List Key)
  | object (entries : List (String × Key))
  | other (text : String)
deriving Repr, Inhabited

namespace Key

mutual

def same : Key → Key → Bool
  | .boolean a, .boolean b => a == b
  | .number a, .number b => a == b
  | .string a, .string b => a == b
  | .array xs, .array ys => sameAll xs ys
  | .object es, .object fs => sameEntries es fs
  | .other a, .other b => a == b
  | _, _ => false

def sameAll : List Key → List Key → Bool
  | [], [] => true
  | x :: xs, y :: ys => same x y && sameAll xs ys
  | _, _ => false

def sameEntries : List (String × Key) → List (String × Key) → Bool
  | [], [] => true
  | (k, x) :: es, (l, y) :: fs => k == l && same x y && sameEntries es fs
  | _, _ => false

end

instance : BEq Key := ⟨same⟩

mutual

theorem eq_of_same : ∀ {a b : Key}, same a b = true → a = b
  | .boolean a, .boolean b, h | .number a, .number b, h | .string a, .string b, h
  | .other a, .other b, h => by simp_all [same]
  | .array xs, .array ys, h => by simp only [same] at h; rw [eq_of_sameAll h]
  | .object es, .object fs, h => by simp only [same] at h; rw [eq_of_sameEntries h]
  | .boolean _, .number _, h | .boolean _, .string _, h | .boolean _, .array _, h
  | .boolean _, .object _, h | .boolean _, .other _, h | .number _, .boolean _, h
  | .number _, .string _, h | .number _, .array _, h | .number _, .object _, h
  | .number _, .other _, h | .string _, .boolean _, h | .string _, .number _, h
  | .string _, .array _, h | .string _, .object _, h | .string _, .other _, h
  | .array _, .boolean _, h | .array _, .number _, h | .array _, .string _, h
  | .array _, .object _, h | .array _, .other _, h | .object _, .boolean _, h
  | .object _, .number _, h | .object _, .string _, h | .object _, .array _, h
  | .object _, .other _, h | .other _, .boolean _, h | .other _, .number _, h
  | .other _, .string _, h | .other _, .array _, h | .other _, .object _, h => by simp [same] at h

theorem eq_of_sameAll : ∀ {xs ys : List Key}, sameAll xs ys = true → xs = ys
  | [], [], _ => rfl
  | x :: xs, y :: ys, h => by
    simp only [sameAll, Bool.and_eq_true] at h
    rw [eq_of_same h.1, eq_of_sameAll h.2]
  | [], _ :: _, h | _ :: _, [], h => by simp [sameAll] at h

theorem eq_of_sameEntries : ∀ {es fs : List (String × Key)}, sameEntries es fs = true → es = fs
  | [], [], _ => rfl
  | (k, x) :: es, (l, y) :: fs, h => by
    simp only [sameEntries, Bool.and_eq_true, beq_iff_eq] at h
    rw [h.1.1, eq_of_same h.1.2, eq_of_sameEntries h.2]
  | [], _ :: _, h | _ :: _, [], h => by simp [sameEntries] at h

end

mutual

theorem same_refl : ∀ a : Key, same a a = true
  | .boolean _ | .number _ | .string _ | .other _ => by simp [same]
  | .array xs => by simp [same, sameAll_refl xs]
  | .object es => by simp [same, sameEntries_refl es]

theorem sameAll_refl : ∀ xs : List Key, sameAll xs xs = true
  | [] => rfl
  | x :: xs => by simp [sameAll, same_refl x, sameAll_refl xs]

theorem sameEntries_refl : ∀ es : List (String × Key), sameEntries es es = true
  | [] => rfl
  | (_, x) :: es => by simp [sameEntries, same_refl x, sameEntries_refl es]

end

instance : LawfulBEq Key where
  eq_of_beq := eq_of_same
  rfl {a} := same_refl a

instance : DecidableEq Key := fun a b =>
  if h : same a b then .isTrue (eq_of_same h) else .isFalse fun e => h (e ▸ same_refl a)

/-- The text that stands for a value outside the families: null, what is not a number, a date, a
set. -/
def otherText : Value → String
  | .null => "null"
  | .float (.nan mark) => "nan " ++ toString mark
  | v => String.ofList (Json.string true v.display)

mutual

def ofValue : Value → Key
  | .bool b => .boolean b
  | .int n => .number (Extended.ofInt n).normal
  | .float (.nan mark) => .other (otherText (.float (.nan mark)))
  | .float x => .number (Extended.ofDouble x).normal
  | .string s => .string s
  | .fieldType t => .string t.name
  | .list xs | .tuple xs => .array (ofValues xs)
  | .object es => .object (Json.sortByKey (ofEntries es))
  | .mapping es => .object (Json.sortByKey (ofPairs es))
  | v => .other (otherText v)

def ofValues : List Value → List Key
  | [] => []
  | x :: xs => ofValue x :: ofValues xs

def ofEntries : Document → List (String × Key)
  | [] => []
  | (k, v) :: es => (k, ofValue v) :: ofEntries es

/-- Keys of any type go by the text that displays them; entries under one text stay in their order. -/
def ofPairs : List (Value × Value) → List (String × Key)
  | [] => []
  | (k, v) :: es => (k.display, ofValue v) :: ofPairs es

end

/-- The text that stands for a time: its instant when it has an offset. -/
def timeText (t : DateTime) : String :=
  match t.offset with
  | some _ => "instant " ++ toString t.instant
  | none => (Value.dateTime t).literal

mutual

/-- The key under which a table or a set holds a value: values that cannot be changed in place have
one identity exactly when they are the same. -/
def identity : Value → Key
  | .bool b => .number (Extended.ofInt (if b then 1 else 0)).normal
  | .int n => .number (Extended.ofInt n).normal
  | .float (.nan mark) => .other (otherText (.float (.nan mark)))
  | .float x => .number (Extended.ofDouble x).normal
  | .string s => .string s
  | .fieldType t => .string t.name
  | .tuple xs => .array (identities xs)
  | .record kind parts => .object [(kind, .array (partIdentities parts))]
  | .dateTime t => .other (timeText t)
  | v => .other v.literal

def identities : List Value → List Key
  | [] => []
  | x :: xs => identity x :: identities xs

def partIdentities : Document → List Key
  | [] => []
  | (_, x) :: parts => identity x :: partIdentities parts

end

end Key

/-- The distinct values of a list in the order in which they first occur, told apart by key. -/
def distinctByKey (values : List Value) : List Value :=
  (values.foldl (fun (seen, kept) v =>
    let key := Key.ofValue v
    if seen.contains key then (seen, kept) else (key :: seen, kept ++ [v]))
    (([], []) : List Key × List Value)).2

end DocStore
