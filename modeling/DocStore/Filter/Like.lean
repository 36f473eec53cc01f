import DocStore.Text.CaseFold
/-!
Patterns of SQL `LIKE`: `%` takes any run of characters, `_` takes one, and any other character
takes one character that is equal up to case.
-/

namespace DocStore.Like

/-- Whether a pattern character takes a given text character. -/
def takes (p c : Char) : Bool := p == '_' || Text.fold p == c

/-- A text and what is left of it after each of its characters, longest first. -/
def suffixes : List Char → List (List Char)
  | [] => [[]]
  | c :: cs => (c :: cs) :: suffixes cs

/-- What is left of a text after one character that the pattern character takes. -/
def takeOne (p : Char) : List Char → Option (List Char)
  | [] => none
  | c :: cs => if takes p c then some cs else none

/-- What may be left after one more pattern character, given what may be left before it. All are
suffixes of one text, longest first, so a run of any length leaves the suffixes of the first. -/
def step (left : List (List Char)) (p : Char) : List (List Char) :=
  if p = '%' then
    match left with
    | [] => []
    | longest :: _ => suffixes longest
  else left.filterMap (takeOne p)

/-- What may be left of a folded text after the pattern. -/
def leftAfter (pattern text : List Char) : List (List Char) := pattern.foldl step [text]

def isMatch (pattern text : String) : Bool :=
  (leftAfter pattern.toList (text.toList.map Text.fold)).any List.isEmpty

end DocStore.Like
