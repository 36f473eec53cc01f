import DocStore.Proofs.Storage.Name
import DocStore.Proofs.Table
import DocStore.Storage.Memory
/-!
Collections in memory under names that are strings: which are held, what they hold, and which of
them count as changed.
-/

namespace DocStore

namespace Memory

theorem documents_string (m : Memory) (name : String) :
    m.documents (.string name) = (m.collections.lookup name).getD [] := rfl

theorem holds_string (m : Memory) (name : String) :
    m.holds (.string name) = Table.has m.collections name := rfl

theorem holds_of_lookup {m : Memory} {name : String} {docs : List Value}
    (h : m.collections.lookup name = some docs) : m.holds (.string name) = true := by
  rw [holds_string, Table.has, h]
  rfl

@[simp] theorem markDirty_collections (m : Memory) (name : Value) :
    (m.markDirty name).collections = m.collections := by
  rw [markDirty]
  split <;> rfl

@[simp] theorem setDocuments_collections (m : Memory) (name : String) (docs : List Value) :
    (m.setDocuments name docs).collections = Table.put m.collections name docs := rfl

theorem create_held {m : Memory} {name : String} (h : m.holds (.string name) = true) :
    m.create (.string name) = .ok (m, name) := by
  rw [holds_string] at h
  simp [create, Value.isHashable, Value.text?, h, pure, Except.pure]

theorem create_fresh {m : Memory} {name : String} (h : m.holds (.string name) = false) :
    m.create (.string name) = match CollectionName.check (.string name) with
      | .ok _ => .ok ((m.setDocuments name []).markDirty (.string name), name)
      | .error e => .error e := by
  rw [holds_string] at h
  simp only [create, Value.isHashable, Value.text?, h, bind, Except.bind, pure, Except.pure,
    Bool.not_true, Bool.false_eq_true, if_false]
  cases checked : CollectionName.check (.string name) with
  | error e => rfl
  | ok s =>
    obtain rfl := CollectionName.check_string checked
    rfl

theorem create_string {m m' : Memory} {name s : String}
    (h : m.create (.string name) = .ok (m', s)) : s = name := by
  cases held : m.holds (.string name) with
  | true =>
    rw [create_held held] at h
    cases h
    rfl
  | false =>
    rw [create_fresh held] at h
    split at h
    · cases h
      rfl
    · cases h

/-- A collection that is made is held; one that was held is as it was. -/
theorem create_holds {m m' : Memory} {name s : String}
    (h : m.create (.string name) = .ok (m', s)) : m'.holds (.string name) = true := by
  cases held : m.holds (.string name) with
  | true =>
    rw [create_held held] at h
    cases h
    exact held
  | false =>
    rw [create_fresh held] at h
    split at h
    · cases h
      rw [holds_string, markDirty_collections, setDocuments_collections, Table.has_put]
      simp
    · cases h

/-- Other collections are as they were. -/
theorem create_other {m m' : Memory} {name s c : String} (h : m.create (.string name) = .ok (m', s))
    (other : c ≠ name) : m'.collections.lookup c = m.collections.lookup c := by
  cases held : m.holds (.string name) with
  | true =>
    rw [create_held held] at h
    cases h
    rfl
  | false =>
    rw [create_fresh held] at h
    split at h
    · cases h
      rw [markDirty_collections, setDocuments_collections, Table.lookup_put, if_neg other]
    · cases h

end Memory

end DocStore
