import DocStore.Model.Basic
import DocStore.Proofs.Relation.Batch
/-!
Join rows: the documents of a collection in which a relation keeps its links, what adding one does, and
what is left when all that link the same two documents are taken out.
-/

namespace DocStore

open Value (IsDocument)

/-! ## Rows -/

/-- Where links are kept: in the rows of a collection, under one field for the document that they belong to
and one for the document that they lead to. The store sets neither field itself. -/
structure Junction where
  collection : String
  own : String
  other : String
  apart : own ≠ other
  ownFree : own ∉ Model.ownFields
  otherFree : other ∉ Model.ownFields

/-- A row: its id, the time it was made at, and the ids of the documents that it links. -/
structure Row where
  id : String
  time : String
  link : String × String

namespace Junction

variable (J : Junction) {row : Row} {rows : List Row} {a b : String}

def doc (row : Row) : Value :=
  .object [("id", .string row.id), (J.own, .string row.link.1), (J.other, .string row.link.2),
    ("createdAt", .string row.time), ("updatedAt", .string row.time)]

/-- The fields of a row are five. -/
theorem fields_distinct : ["id", J.own, J.other, "createdAt", "updatedAt"].Nodup := by
  have own := J.ownFree
  have other := J.otherFree
  simp only [Model.ownFields, List.mem_cons, List.not_mem_nil, or_false, not_or] at own other
  simp [J.apart, own, other, Ne.symm own.1, Ne.symm other.1]

theorem doc_id (row : Row) : (J.doc row).under "id" = .string row.id := rfl

theorem doc_own (row : Row) : (J.doc row).under J.own = .string row.link.1 := by
  have distinct := J.fields_distinct
  simp only [List.nodup_cons, List.mem_cons, not_or] at distinct
  simp [doc, List.lookup_cons, beq_false_of_ne (Ne.symm distinct.1.1)]

theorem doc_other (row : Row) : (J.doc row).under J.other = .string row.link.2 := by
  have distinct := J.fields_distinct
  simp only [List.nodup_cons, List.mem_cons, not_or] at distinct
  simp [doc, List.lookup_cons, beq_false_of_ne (Ne.symm distinct.1.2.1),
    beq_false_of_ne (Ne.symm distinct.2.1.1)]

theorem doc_document (row : Row) : IsDocument (J.doc row) := by
  refine ⟨.object J.fields_distinct fun e he => ?_, row.id, rfl⟩
  simp only [List.mem_cons, List.not_mem_nil, or_false] at he
  rcases he with rfl | rfl | rfl | rfl | rfl <;> exact .string _

/-- What a link is stored as. -/
theorem merge_doc (row : Row) :
    Value.mergeEntries (.object [("id", .string row.id)])
      [(.string J.own, .string row.link.1), (.string J.other, .string row.link.2),
        (.string "createdAt", .string row.time), (.string "updatedAt", .string row.time)] =
      J.doc row := by
  have distinct := J.fields_distinct
  simp only [List.nodup_cons, List.mem_cons, not_or, List.not_mem_nil] at distinct
  simp [Value.mergeEntries, Value.putEntry, Document.put, doc, distinct]

/-! ## The rows of a link -/

/-- The filter for the rows that link two documents. -/
def filter (a b : String) : Value := .object [(J.own, .string a), (J.other, .string b)]

theorem merge_filter (a b : String) :
    Value.mergeEntries (.object []) [(.string J.own, .string a), (.string J.other, .string b)] =
      J.filter a b := by
  simp [Value.mergeEntries, Value.putEntry, Document.put, filter, J.apart]

def links (a b : String) (d : Value) : Bool :=
  strictEq (d.under J.own) (.string a) && strictEq (d.under J.other) (.string b)

theorem links_doc (a b : String) (row : Row) : J.links a b (J.doc row) = (row.link = (a, b)) := by
  rw [links, doc_own, doc_other, Bool.and_eq_true, strictEq_string, strictEq_string, Prod.ext_iff,
    Value.string.injEq, Value.string.injEq]

theorem filter_docs (a b : String) (rows : List Row) :
    (rows.map J.doc).filter (J.links a b) = (rows.filter (·.link = (a, b))).map J.doc := by
  rw [List.filter_map]
  refine congrArg _ (List.filter_congr fun row _ => ?_)
  rw [Bool.eq_iff_iff, Function.comp_apply, links_doc, decide_eq_true_iff]

theorem filter_others (a b : String) (rows : List Row) :
    (rows.map J.doc).filter (!J.links a b ·) = (rows.filter (·.link ≠ (a, b))).map J.doc := by
  rw [List.filter_map]
  refine congrArg _ (List.filter_congr fun row _ => ?_)
  have same := J.links_doc a b row
  by_cases own : row.link = (a, b) <;> simp_all

/-- The filter finds the rows of the link. -/
theorem run_filter (a b : String) {docs : List Value} (hd : ∀ d ∈ docs, IsDocument d) :
    Query.run { filter := J.filter a b } docs = .ok (docs.filter (J.links a b)) := by
  have checked : Filter.check (J.filter a b) = .ok () := rfl
  rw [Query.run_filter, Filter.run, if_pos (by rfl), checked]
  refine Filter.select_of_accepts fun d there => ?_
  have field := Value.fieldOf_document (hd d there)
  simp only [Filter.accepts, filter, Value.entries?, List.map_cons, List.map_nil,
    Filter.meetsConditions, field, Filter.meets_string, bind, Except.bind, pure, Except.pure, links]
  by_cases own : strictEq (d.under J.own) (.string a) <;>
    by_cases other : strictEq (d.under J.other) (.string b) <;> simp [own, other]

end Junction

end DocStore
