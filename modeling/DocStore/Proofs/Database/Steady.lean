import DocStore.Proofs.Database.Picture
/-!
Pictures between operations: nothing is left to write, the files hold the documents that memory holds, and
the indexes are those that the models declare. From such a picture all that is only in memory can be made
again.
-/

namespace DocStore

open Effect (indexedFields)
open Value (IsDocument IsData)

/-- The indent of settings is a number or none. -/
theorem StorageSettings.text?_indentValue (s : StorageSettings) : s.indentValue.text? = none := by
  unfold indentValue
  cases s.indent <;> rfl

/-- The names that a relation gives are strings, or null where there is none. -/
structure Relation.Proper (r : Relation) : Prop where
  foreignKey : ∃ s, r.foreignKey = .string s
  joinCollection : r.joinCollection = .null ∨ ∃ s, r.joinCollection = .string s
  relatedKey : r.relatedKey = .null ∨ ∃ s, r.relatedKey = .string s

/-- A model of a collection that a string names, for data. -/
structure Model.Proper (m : Model) : Prop where
  collection : ∃ c, m.collection = .string c
  schema : m.schema.Proper
  relations : ∀ e ∈ m.relations, e.2.Proper

namespace Shelf

/-- The fields that are indexed in each collection after models were opened one after the other. -/
def declared (model : Nat → Model) (opened : List Nat) (shapes : String → List (Value × Value)) :
    String → List (Value × Value) :=
  opened.foldl (fun shapes m =>
    Function.update shapes (Memory.textOf (model m).collection) (indexedFields (model m).schema)) shapes

/-- The models of database `n`: those that are registered are open, each under a name of its own. -/
structure Proper (n : Nat) (S : Shelf) : Prop where
  opened : S.registry.map (·.2) = S.opened
  names : (S.registry.map (·.1)).Nodup
  strings : ∀ e ∈ S.registry, ∃ s, e.1 = .string s
  known : ∀ m ∈ S.opened, m < S.size
  models : ∀ m ∈ S.opened, (S.model m).Proper ∧ (S.model m).database = n

end Shelf

namespace Picture

/-- Documents of data that a collection can hold. -/
structure Valid (c : String) (docs : List Value) : Prop where
  named : CollectionName.check (.string c) = .ok c
  kept : Kept docs
  data : ∀ doc ∈ docs, doc.IsData

/-- A picture between two operations on database `n`. -/
structure Steady (n : Nat) (P : Picture) : Prop where
  clean : P.dirty = []
  adapter : P.settings.adapter.text? = some "json"
  made : P.directory.isSome = true
  files : P.directory.Holds P.docs
  valid : ∀ c docs, P.docs c = some docs → Valid c docs
  filed : P.filed = fun c d => d ∈ (P.docs c).getD []
  shapes : P.shapes = Shelf.declared P.model P.opened fun _ => []
  indexed : ∀ c docs, P.docs c = some docs → ∃ schema, P.shapes c = indexedFields schema
  shelf : P.toShelf.Proper n
  held : ∀ m ∈ P.opened, ∃ docs, P.docs (Memory.textOf (P.model m).collection) = some docs

/-- What is held after the documents of one collection were set. -/
theorem held_update {held : String → Option (List Value)} {c c' : String} {docs found : List Value}
    (h : Function.update held c (some docs) c' = some found) :
    c' = c ∧ found = docs ∨ c' ≠ c ∧ held c' = some found := by
  by_cases own : c' = c
  · subst own
    rw [Function.update_self] at h
    exact .inl ⟨rfl, (Option.some.inj h).symm⟩
  · rw [Function.update_of_ne own] at h
    exact .inr ⟨own, h⟩

namespace Steady

variable {n : Nat} {P : Picture} {c : String} {docs docs' : List Value} {d : Directory}

theorem source (h : P.Steady n) (source : Source) : { P with source }.Steady n :=
  ⟨h.clean, h.adapter, h.made, h.files, h.valid, h.filed, h.shapes,
    h.indexed, h.shelf, h.held⟩

theorem filed_iff (h : P.Steady n) (held : P.docs c = some docs) (doc : Value) :
    P.filed c doc ↔ doc ∈ docs := by
  simp only [h.filed, held, Option.getD_some]

theorem indexed_ne_nil (h : P.Steady n) (held : P.docs c = some docs) : P.shapes c ≠ [] := by
  obtain ⟨schema, same⟩ := h.indexed c docs held
  rw [same]
  exact List.cons_ne_nil _ _

theorem documents (h : P.Steady n) (held : P.docs c = some docs) :
    ∀ doc, P.filed c doc → IsDocument doc := by
  intro doc filed
  exact (h.valid c docs held).kept.documents doc ((h.filed_iff held doc).mp filed)

/-- Other documents in a collection that is held, once they are written. -/
theorem saved (h : P.Steady n) (held : P.docs c = some docs)
    (saves : P.directory.Saves P.settings.indentValue c docs' d) (kept : Kept docs')
    (data : ∀ doc ∈ docs', doc.IsData) :
    Steady n { P with
      docs := Function.update P.docs c (some docs')
      filed := Function.update P.filed c (· ∈ docs')
      directory := d } := by
  have named := (h.valid c docs held).named
  have visible := CollectionName.visible_of_check named
  refine ⟨h.clean, h.adapter, saves.isSome, h.files.saves saves P.settings.text?_indentValue visible data,
    ?_, ?_, h.shapes, ?_, h.shelf, ?_⟩
  · intro c' found hf
    rcases held_update hf with ⟨rfl, rfl⟩ | ⟨-, old⟩
    · exact ⟨named, kept, data⟩
    · exact h.valid c' found old
  · funext c' doc
    by_cases own : c' = c
    · subst own
      simp
    · simp [Function.update_of_ne own, h.filed]
  · intro c' found hf
    rcases held_update hf with ⟨rfl, -⟩ | ⟨-, old⟩
    · exact h.indexed _ docs held
    · exact h.indexed c' found old
  · intro m hm
    obtain ⟨found, old⟩ := h.held m hm
    by_cases own : Memory.textOf (P.model m).collection = c
    · exact ⟨docs', by simp [own]⟩
    · exact ⟨found, by simp [Function.update_of_ne own, old]⟩

end Steady

end Picture

end DocStore
