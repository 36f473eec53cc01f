/-!
Counts of what the store did, each under a series: a name with labels.
-/

namespace DocStore

/-- What is counted, told apart by its labels; labels stand in the order of their names. -/
structure Series where
  name : String
  labels : List (String × String) := []
deriving DecidableEq, Repr

namespace Series

def operations (operation collection status : String) : Series :=
  ⟨"protodb_operations_total",
    [("collection", collection), ("operation", operation), ("status", status)]⟩

def operationLatency (operation : String) : Series :=
  ⟨"protodb_operation_latency_seconds_count", [("operation", operation)]⟩

def documents (collection : String) : Series :=
  ⟨"protodb_documents", [("collection", collection)]⟩

def flushes (status : String) : Series := ⟨"protodb_flushes_total", [("status", status)]⟩

def flushLatency : Series := ⟨"protodb_flush_latency_seconds_count", []⟩

def bytesWritten : Series := ⟨"protodb_bytes_written_total", []⟩

def uniqueViolations (collection field : String) : Series :=
  ⟨"protodb_unique_violations_total", [("collection", collection), ("field", field)]⟩

def relationQueries (type : String) : Series :=
  ⟨"protodb_relation_queries_total", [("relation_type", type)]⟩

def text (s : Series) : String :=
  s.name ++ "\x7b" ++ ",".intercalate (s.labels.map fun (k, v) => k ++ "=" ++ v) ++ "\x7d"

end Series

/-- The number under each series that was used. -/
abbrev Metrics := List (Series × Int)

namespace Metrics

/-- The series without labels exist from the start. -/
def initial : Metrics := [(.bytesWritten, 0), (.flushLatency, 0)]

/-- Changes the number under a series, which starts at zero. -/
def change (m : Metrics) (s : Series) (f : Int → Int) : Metrics :=
  match m with
  | [] => [(s, f 0)]
  | (t, n) :: rest => if t = s then (t, f n) :: rest else (t, n) :: change rest s f

def add (m : Metrics) (s : Series) (n : Int) : Metrics := m.change s (· + n)

def set (m : Metrics) (s : Series) (n : Int) : Metrics := m.change s fun _ => n

end Metrics

end DocStore
