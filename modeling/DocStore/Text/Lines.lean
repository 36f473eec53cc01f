/-!
Lines of text as a reader sees them: every character that moves to a new line ends one. The times
in a line can be replaced by a mark.
-/

namespace DocStore.Text

/-- Whether a character ends a line: line feed, vertical tab, form feed, carriage return, the
separators of files, groups and records, the next line, and the separators of lines and
paragraphs. -/
def isLineEnd (c : Char) : Bool :=
  ['\n', '\x0b', '\x0c', '\r', '\x1c', '\x1d', '\x1e', '\x85', '\u2028', '\u2029'].contains c

/-- The lines of a text, without what ends them; a carriage return and a line feed end one line
together. -/
def linesOf : List Char → List (List Char)
  | [] => []
  | '\r' :: '\n' :: rest => [] :: linesOf rest
  | c :: rest =>
    if isLineEnd c then [] :: linesOf rest
    else match linesOf rest with
      | [] => [[c]]
      | line :: lines => (c :: line) :: lines

/-- Whether a text begins as a shape says, in which a zero stands for any digit. -/
def fits : List Char → List Char → Bool
  | [], _ => true
  | '0' :: shape, c :: cs => c.isDigit && fits shape cs
  | p :: shape, c :: cs => p == c && fits shape cs
  | _ :: _, [] => false

def timeShape : List Char := "0000-00-00T00:00:00".toList

/-- The length of the time in UTC with which a text begins, zero if it does not begin with one. -/
def timeLength (cs : List Char) : Nat :=
  if !fits timeShape cs then 0
  else match cs.drop timeShape.length with
  | 'Z' :: _ => timeShape.length + 1
  | '.' :: rest =>
    let digits := (rest.takeWhile Char.isDigit).length
    if digits != 0 && (rest.drop digits).head? == some 'Z' then timeShape.length + digits + 2 else 0
  | _ => 0

/-- Puts a mark in the place of every time; `skip` is what is left of the last one. -/
def markTimes (mark : List Char) (skip : Nat) : List Char → List Char
  | [] => []
  | c :: cs =>
    if skip != 0 then markTimes mark (skip - 1) cs
    else match timeLength (c :: cs) with
      | 0 => c :: markTimes mark 0 cs
      | n + 1 => mark ++ markTimes mark n cs

end DocStore.Text
