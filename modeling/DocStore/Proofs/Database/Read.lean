import DocStore.Proofs.Database.Mirror
import DocStore.Proofs.Relation.Links
/-!
Reads are alike: what a query finds, and the relations that are loaded into it, depend on no more than the
picture that two stores show.
-/

namespace DocStore

namespace Op

variable {n i j : Nat} {S : Shelf} {c : String} {id filter : Value}

/-! ## Documents of a collection -/

theorem alike_documents {β : Type} {f g : List Value → Op β}
    (next : ∀ docs, Alike n i j S (f docs) (g docs)) :
    Alike n i j S (Store.documentsOf i (.string c) >>= f) (Store.documentsOf j (.string c) >>= g) := by
  rintro w w' ⟨P, steady, rfl, h, h'⟩
  exact mirrors_documents steady h h' fun docs _ => next docs w w' ⟨P, steady, rfl, h, h'⟩

theorem alike_findById :
    Alike n i j S (Store.findById i (.string c) id) (Store.findById j (.string c) id) := by
  apply alike_observed
  refine alike_documents fun docs => alike_given fun place _ => ?_
  cases place with
  | none => exact alike_pure _
  | some m => exact alike_result _

theorem alike_find (options : Result FindOptions) :
    Alike n i j S (Store.find i (.string c) options) (Store.find j (.string c) options) := by
  apply alike_observed
  exact alike_documents fun docs => alike_given fun options _ => alike_result _

theorem alike_count :
    Alike n i j S (Store.count i (.string c) filter) (Store.count j (.string c) filter) := by
  apply alike_observed
  exact alike_documents fun docs => alike_result _

theorem alike_checkName (name : Value) :
    Alike n i j S (Storage.checkName name) (Storage.checkName name) := by
  unfold Storage.checkName
  split
  · exact alike_pure ()
  · exact alike_raise _

end Op

/-! ## Relations -/

namespace Populate

open Op

variable {n i j : Nat} {S : Shelf} {name : Value} {r : Relation} {related : Related}
  {parents : List Value}

theorem alike_query {c : String} (r : Relation) (field : Value) (values : List Value) :
    Alike n i j S (query i r (.string c) field values) (query j r (.string c) field values) := by
  refine alike_bind (alike_unseen (unseen_count _) (unseen_count _)) fun _ => ?_
  exact alike_bind (alike_checkName field) fun _ => alike_find _

theorem alike_children (named : ∃ c, related.collection = .string c) :
    Alike n i j S (children i r related parents) (children j r related parents) := by
  obtain ⟨c, hc⟩ := named
  simp only [children, hc]
  refine alike_given fun ids _ => alike_bind (alike_query r _ ids) fun found => ?_
  exact alike_given fun keys _ => alike_pure _

theorem alike_belongsTo (named : ∃ c, related.collection = .string c) :
    Alike n i j S (belongsTo i name r related parents) (belongsTo j name r related parents) := by
  obtain ⟨c, hc⟩ := named
  simp only [belongsTo, hc]
  refine alike_given fun held _ => ?_
  split
  · exact alike_pure _
  · refine alike_bind (alike_query r _ _) fun found => ?_
    exact alike_given fun targets _ => alike_pure _

/-- The join collection of a relation that has one. -/
theorem join_named (proper : r.Proper) {found : Value × Value} (h : r.join name = .ok found) :
    (∃ c, found.1 = .string c) ∧ ∃ k, found.2 = .string k := by
  unfold Relation.join at h
  split at h
  · next given =>
    cases h
    rw [Bool.and_eq_true] at given
    constructor
    · rcases proper.joinCollection with none | named
      · rw [none] at given
        cases given.1
      · exact named
    · rcases proper.relatedKey with none | named
      · rw [none] at given
        cases given.2
      · exact named
  · cases h

theorem alike_manyToMany (proper : r.Proper) (named : ∃ c, related.collection = .string c) :
    Alike n i j S (manyToMany i name r related parents) (manyToMany j name r related parents) := by
  obtain ⟨c, hc⟩ := named
  simp only [manyToMany, hc]
  refine alike_given fun join hjoin => ?_
  obtain ⟨⟨d, hd⟩, -⟩ := join_named proper hjoin
  simp only [hd]
  refine alike_given fun ids _ => alike_bind (alike_query r _ ids) fun rows => ?_
  refine alike_given fun held _ => ?_
  split
  · refine alike_bind (alike_pure []) fun found => ?_
    exact alike_given fun targets _ => alike_given fun owners _ => alike_result _
  · refine alike_bind (alike_query r _ _) fun found => ?_
    exact alike_given fun targets _ => alike_given fun owners _ => alike_result _

theorem alike_relation (proper : r.Proper) (named : ∃ c, related.collection = .string c) :
    Alike n i j S (relation i name r related parents) (relation j name r related parents) := by
  unfold relation
  cases r.type with
  | hasMany => exact alike_bind (alike_children named) fun pairs => alike_result _
  | hasOne => exact alike_bind (alike_children named) fun pairs => alike_result _
  | belongsTo => exact alike_belongsTo named
  | manyToMany => exact alike_manyToMany proper named

/-- A registry that even worlds agree on, of collections that strings name. -/
structure Agreed (n i j : Nat) (S : Shelf) (registry : World → Option Registry) (known : Registry) :
    Prop where
  left : ∀ w w', World.Even n i j S w w' → registry w = some known
  right : ∀ w w', World.Even n i j S w w' → registry w' = some known
  named : ∀ related ∈ known, ∃ c, related.collection = .string c

/-- What a relation leads to is among its owner's relations and among the models that are known. -/
theorem resolve_among {owner : Owner} {known : Registry} {found : Relation × Related}
    (h : owner.resolve (some known) name = .ok found) :
    (∃ e ∈ owner.relations, e.2 = found.1) ∧ found.2 ∈ known := by
  obtain ⟨declared, models, same, led⟩ := resolve_eq_ok.mp h
  obtain rfl := Option.some.inj same
  constructor
  · unfold Owner.relation? at declared
    split at declared
    · obtain ⟨key, -, held⟩ := Option.bind_eq_some_iff.mp (Except.ok.inj declared)
      exact ⟨_, Table.mem_of_lookup held, rfl⟩
    · cases declared
  · unfold Registry.find at led
    split at led
    · exact List.mem_of_find?_eq_some (Except.ok.inj led)
    · cases led

variable {owner : Owner} {registry : World → Option Registry} {known : Registry}

theorem alike_relations (proper : ∀ e ∈ owner.relations, e.2.Proper)
    (agreed : Agreed n i j S registry known) (names : List Value) :
    Alike n i j S (relations i owner registry names parents)
      (relations j owner registry names parents) := by
  induction names generalizing parents with
  | nil => exact alike_pure parents
  | cons name rest ih =>
    refine alike_get fun v v' even => ?_
    rw [agreed.left v v' even, agreed.right v v' even]
    refine alike_given fun found hf => ?_
    obtain ⟨⟨e, he, own⟩, among⟩ := resolve_among hf
    refine alike_bind (alike_traced (alike_relation (own ▸ proper e he) (agreed.named _ among)))
      fun parents => ?_
    exact alike_bind (alike_unseen (unseen_log _ _ _ _) (unseen_log _ _ _ _)) fun _ => ih

theorem alike_run (proper : ∀ e ∈ owner.relations, e.2.Proper)
    (agreed : Agreed n i j S registry known) (docs included : Value) :
    Alike n i j S (run i owner registry docs included) (run j owner registry docs included) := by
  unfold run
  cases docs.members? with
  | none => exact alike_raise _
  | some parents =>
    dsimp only
    split
    · exact alike_pure parents
    · refine alike_given fun parents _ => ?_
      cases included.members? with
      | none => exact alike_raise _
      | some names => exact alike_relations proper agreed names

end Populate

end DocStore
