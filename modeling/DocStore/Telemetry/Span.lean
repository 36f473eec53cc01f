import DocStore.Error
/-!
Spans: named stretches of work that nest. A span is recorded when it ends, so children come before
their parent; an error that passes through a span marks it as failed and goes on unchanged, and an
interrupt goes on without a mark.
-/

namespace DocStore

/-- What is recorded of a stretch of work: the error that its status tells of, which is unset when there
is none, and the errors noted as events, in order. -/
structure Span where
  name : Value
  attributes : Document := []
  status : Option Error := none
  events : List Error := []

namespace Span

def note (span : Span) (e : Error) : Span := { span with events := span.events ++ [e] }

def mark (span : Span) (e : Error) : Span := { span with status := some e }

/-- The span of work that ends with an error or without one: an error is noted, and marks the span, unless
it is an interrupt. -/
def close (span : Span) : Option Error → Span
  | none => span
  | some e => if e.isCaught then (span.note e).mark e else span

mutual

/-- The form in which a value is recorded: sequences are fixed, and what is neither plain nor made
of parts is recorded by its display text. -/
def recorded : Value → Value
  | .null => .null
  | .bool b => .bool b
  | .int n => .int n
  | .float x => .float x
  | .string s => .string s
  | .fieldType t => .fieldType t
  | .list xs | .tuple xs => .tuple (recordedAll xs)
  | .object es => .object (recordedEntries es)
  | v => .string v.display

def recordedAll : List Value → List Value
  | [] => []
  | x :: xs => recorded x :: recordedAll xs

/-- Entries without a name are left out. -/
def recordedEntries : Document → Document
  | [] => []
  | (k, v) :: es =>
    if k = "" then recordedEntries es else (k, recorded v) :: recordedEntries es

end

def maxAttributes : Nat := 128

/-- The attributes that are recorded: those with a name and a value, of too many the last. -/
def attributesOf (attributes : Document) : Document :=
  let kept := recordedEntries (attributes.filter fun (_, v) => !v.isNull)
  List.drop (kept.length - maxAttributes) kept

/-- The attributes that a value gives; one that counts as false gives none. -/
def attributesGiven (attributes : Value) : Result Document :=
  match attributes with
  | .object es => .ok (attributesOf es)
  | v => if v.truthy then failWith .noSuchMember else .ok []

/-- The status of a span and its events; the text of an error that is not the store's own is told when
`full`. -/
def toValue (full : Bool) (span : Span) : Value :=
  let text (e : Error) : Value := if full || e.kind.isOwn then .string e.message else .null
  let events := span.events.map fun e =>
    Value.list [.string "exception", .string e.kind.name, text e]
  .object [("name", span.name), ("attributes", .object span.attributes),
    ("status", .string (if span.status.isSome then "ERROR" else "UNSET")),
    ("description", span.status.elim .null text), ("events", .list events)]

end Span

/-- The spans that have ended, in this order, and those that are open, the innermost first. -/
structure Recorder where
  ended : List Span := []
  opened : List Span := []

namespace Recorder

def start (r : Recorder) (name : Value) : Recorder := { r with opened := { name } :: r.opened }

def tell (r : Recorder) (change : Span → Span) : Recorder :=
  { r with opened := r.opened.modifyHead change }

def stop (r : Recorder) : Recorder :=
  match r.opened with
  | [] => r
  | span :: outer => { ended := r.ended ++ [span], opened := outer }

/-- Does work inside a span; what the work gives is the error that leaves it, if any, which goes on
unchanged. Attributes that cannot be set end the work before it begins. -/
def inSpan (name attributes : Value) (work : Recorder → Recorder × Option Error) (r : Recorder) :
    Recorder × Option Error :=
  let r := r.start name
  match Span.attributesGiven attributes with
  | .error e => (r.stop, some e)
  | .ok attributes =>
    let (r, escaped) := work (r.tell ({ · with attributes }))
    ((r.tell (·.close escaped)).stop, escaped)

end Recorder

/-- Work to be traced: the children run in order inside the span, and then an error may be
raised. -/
inductive SpanTree where
  | node (name attributes : Value) (children : List SpanTree) (raises : Option Error)
  /-- Work that fails before it begins. -/
  | failing (e : Error)

namespace SpanTree

instance : Inhabited SpanTree := ⟨.node .null .null [] none⟩

mutual

def trace : SpanTree → Recorder → Recorder × Option Error
  | .node name attributes children raises => Recorder.inSpan name attributes fun r =>
    let (r, escaped) := traceAll children r
    (r, escaped.or raises)
  | .failing e => fun r => (r, some e)

/-- Runs trees one after the other until an error leaves one of them. -/
def traceAll : List SpanTree → Recorder → Recorder × Option Error
  | [], r => (r, none)
  | tree :: trees, r =>
    match trace tree r with
    | (r, none) => traceAll trees r
    | (r, some e) => (r, some e)

end

/-- The spans of a tree in the order in which they end, and the error that leaves the tree. -/
def run (tree : SpanTree) : List Span × Option Error :=
  let (r, escaped) := tree.trace {}
  (r.ended, escaped)

end SpanTree

end DocStore
