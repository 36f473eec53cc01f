import DocStore.Proofs.Index.Collection
import DocStore.Proofs.Result
import DocStore.Proofs.Store.Document
import DocStore.Proofs.Store.Read
import DocStore.Relation.Populate
/-!
What loading a relation attaches, as a function of the store and of the one field that it reads from the
parents: their id, or the foreign key that they hold.
-/

namespace DocStore

def RelationType.leastQueries : RelationType → Nat
  | .belongsTo => 0
  | _ => 1

def RelationType.mostQueries : RelationType → Nat
  | .manyToMany => 2
  | _ => 1

theorem RelationType.mostQueries_le (t : RelationType) : t.mostQueries ≤ 2 := by
  cases t <;> decide

namespace Populate

def sources (r : Relation) (parents : List Value) : Result (List Value) :=
  match r.type with
  | .belongsTo => valuesOf r.foreignKey parents
  | _ => parents.mapM idOf

/-- The documents that a query for the values of a field finds. -/
def answer (s : Store) (collection field : Value) (values : List Value) : Result (List Value) := do
  Store.named field
  let filter := Value.ofEntries [(field, .object [("$in", .list values)])]
  (← Query.run { filter } (← s.documents collection)).mapM Store.entriesOf

/-- What the group of each id makes. -/
def grouped (pairs : List (Value × Value)) (value : List Value → Value) (ids : List Value) :
    Result (List Value) :=
  if Value.areHashable (pairs.map (·.1) ++ ids) then
    .ok (ids.map fun id => value (group pairs id))
  else failWith .wrongType

/-- The children of the parents with some ids, each under the value of its foreign key. -/
def offspring (s : Store) (r : Relation) (related : Related) (ids : List Value) :
    Result (List (Value × Value)) := do
  let found ← answer s related.collection r.foreignKey ids
  return (← valuesOf r.foreignKey found).zip found

/-- What the children of each id make. -/
def handed (s : Store) (r : Relation) (related : Related) (value : List Value → Value)
    (ids : List Value) : Result (List Value) := do
  grouped (← offspring s r related ids) value ids

/-- What each foreign key names. -/
def referred (s : Store) (related : Related) (held : List Value) : Result (List Value) := do
  let keys := distinctByKey (held.filter Value.truthy)
  if keys.isEmpty then return held.map fun _ => .null
  let targets ← byId (← answer s related.collection (.string "id") keys)
  return held.map (targetOf targets)

/-- The documents with some ids, of which none are asked for when there are none. -/
def named (s : Store) (related : Related) (ids : List Value) : Result (List Value) :=
  if ids.isEmpty then .ok [] else answer s related.collection (.string "id") ids

/-- What each id gets of the documents that join rows lead to. -/
def routed (r : Relation) (rows held ids found : List Value) : Result (List Value) := do
  let targets ← byId found
  let owners ← valuesOf r.foreignKey rows
  let links := owners.zip (held.map (targetOf targets))
  grouped (links.filter fun (_, doc) => !doc.isNull) .list ids

/-- What the join rows of each id lead to, by the collection of the rows and the field of the related
id. -/
def joined (s : Store) (r : Relation) (related : Related) (ids : List Value)
    (join : Value × Value) : Result (List Value) := do
  let rows ← answer s join.1 r.foreignKey ids
  let held ← valuesOf join.2 rows
  routed r rows held ids (← named s related (distinctByKey held))

/-- What is attached to parents of which a relation has read one field. -/
def links (s : Store) (name : Value) (r : Relation) (related : Related) (held : List Value) :
    Result (List Value) :=
  match r.type with
  | .hasMany => handed s r related .list held
  | .hasOne => handed s r related firstOf held
  | .belongsTo => referred s related held
  | .manyToMany => (r.join name).bind (joined s r related held)

/-- Refuses a relation through join rows that does not say where they are. -/
def settings (name : Value) (r : Relation) : Result Unit :=
  match r.type with
  | .manyToMany => (r.join name).map fun _ => ()
  | _ => .ok ()

/-- Parents with a relation that is loaded from a store. -/
def loaded (s : Store) (name : Value) (r : Relation) (related : Related) (parents : List Value) :
    Result (List Value) := do
  settings name r
  let held ← sources r parents
  return attach name parents (← links s name r related held)

variable {i : Nat} {w : World} {name : Value} {r : Relation} {related : Related}
  {parents : List Value}

theorem reads_query (collection field : Value) (values : List Value) :
    Op.Reads 1 1 (query i r collection field values) w
      (answer (w.store i) collection field values) := by
  have other : Series.relationQueries r.type.name ≠ .operationLatency "find" := by
    simp [Series.relationQueries, Series.operationLatency]
  unfold query answer
  refine Op.reads_quiet (Op.reads_count _ other) fun journal => ?_
  refine Op.reads_first (Op.reads_checkName field) fun _ _ _ => ?_
  exact Op.reads_find collection _

theorem reads_children {ids : List Value} (own : parents.mapM idOf = .ok ids) :
    Op.Reads 1 1 (children i r related parents) w (offspring (w.store i) r related ids) := by
  unfold children
  rw [own]
  refine Op.reads_quiet (Op.reads_result _) fun _ => ?_
  refine Op.reads_last (reads_query _ _ ids) fun found _ _ => ?_
  exact Op.reads_last (Op.reads_result _) fun keys _ _ => Op.reads_pure _

/-! ## The kinds of relation -/

theorem attachGroups_eq (pairs : List (Value × Value)) (value : List Value → Value)
    {ids : List Value} (own : parents.mapM idOf = .ok ids) :
    attachGroups name pairs value parents = do
      return attach name parents (← grouped pairs value ids) := by
  unfold attachGroups grouped
  rw [own]
  dsimp only [bind, Except.bind]
  split <;> rfl

/-- Children are handed to their parents by the value of their foreign key. -/
theorem reads_handed (value : List Value → Value) :
    Op.Reads 1 1 (do
        let pairs ← children i r related parents
        Task.ofResult (attachGroups name pairs value parents)) w (do
      let ids ← parents.mapM idOf
      return attach name parents (← handed (w.store i) r related value ids)) := by
  unfold handed
  cases own : parents.mapM idOf with
  | error e =>
    unfold children
    rw [own]
    exact Op.reads_raise e
  | ok ids =>
    show Op.Reads 1 1 _ w ((_ >>= _) >>= _)
    rw [bind_assoc]
    refine Op.reads_last (reads_children own) fun pairs _ _ => ?_
    rw [attachGroups_eq pairs _ own]
    exact Op.reads_result _

theorem reads_belongsTo : Op.Reads 0 1 (belongsTo i name r related parents) w (do
    let held ← valuesOf r.foreignKey parents
    return attach name parents (← referred (w.store i) related held)) := by
  unfold belongsTo
  refine Op.reads_first (Op.reads_result _) fun held own _ => ?_
  unfold referred
  dsimp only
  split
  · have length : held.length = parents.length := Result.length_of_mapM own
    rw [List.map_const', List.map_const', length]
    exact Op.reads_weaken (Op.reads_pure _) (Nat.le_refl 0) (Nat.zero_le 1)
  · rw [bind_assoc]
    refine Op.reads_weaken (?_ : Op.Reads 1 1 _ _ _) (Nat.zero_le 1) (Nat.le_refl 1)
    refine Op.reads_last (reads_query _ _ _) fun found _ _ => ?_
    rw [bind_assoc]
    exact Op.reads_last (Op.reads_result _) fun targets _ _ => Op.reads_pure _

/-- What join rows lead to is handed to their owners. -/
theorem reads_routed (rows held found : List Value) {ids : List Value}
    (own : parents.mapM idOf = .ok ids) :
    Op.Reads 0 0 (do
        let targets ← Task.ofResult (byId found)
        let owners ← Task.ofResult (valuesOf r.foreignKey rows)
        let links := owners.zip (held.map (targetOf targets))
        Task.ofResult (attachGroups name (links.filter fun (_, doc) => !doc.isNull) .list parents)) w
      (do return attach name parents (← routed r rows held ids found)) := by
  unfold routed
  rw [bind_assoc]
  refine Op.reads_last (Op.reads_result _) fun targets _ _ => ?_
  rw [bind_assoc]
  refine Op.reads_last (Op.reads_result _) fun owners _ _ => ?_
  dsimp only
  rw [attachGroups_eq _ _ own]
  exact Op.reads_result _

theorem reads_joined (join : Value × Value) {ids : List Value} (own : parents.mapM idOf = .ok ids) :
    Op.Reads 1 2 (do
        let rows ← query i r join.1 r.foreignKey ids
        let held ← Task.ofResult (valuesOf join.2 rows)
        let relatedIds := distinctByKey held
        let found ←
          if relatedIds.isEmpty then pure []
          else query i r related.collection (.string "id") relatedIds
        let targets ← Task.ofResult (byId found)
        let owners ← Task.ofResult (valuesOf r.foreignKey rows)
        let links := owners.zip (held.map (targetOf targets))
        Task.ofResult (attachGroups name (links.filter fun (_, doc) => !doc.isNull) .list parents)) w
      (do return attach name parents (← joined (w.store i) r related ids join)) := by
  unfold joined
  show Op.Reads (1 + 0) (1 + 1) _ _ _
  rw [bind_assoc]
  refine Op.reads_bind (reads_query join.1 r.foreignKey ids) fun rows _ _ => ?_
  rw [bind_assoc]
  refine Op.reads_first (Op.reads_result _) fun held _ _ => ?_
  unfold named
  dsimp only
  split
  · exact Op.reads_weaken (reads_routed rows held [] own) (Nat.le_refl 0) (Nat.zero_le 1)
  · rw [bind_assoc]
    refine Op.reads_weaken (?_ : Op.Reads 1 1 _ _ _) (Nat.zero_le 1) (Nat.le_refl 1)
    refine Op.reads_last (reads_query _ _ _) fun found _ _ => ?_
    exact reads_routed rows held found own

theorem reads_manyToMany : Op.Reads 1 2 (manyToMany i name r related parents) w (do
    (r.join name).map fun _ => ()
    let ids ← parents.mapM idOf
    return attach name parents (← (r.join name).bind (joined (w.store i) r related ids))) := by
  unfold manyToMany
  cases r.join name with
  | error e => exact Op.reads_raise e
  | ok join =>
    refine Op.reads_quiet (Op.reads_result _) fun _ => ?_
    exact Op.reads_first (Op.reads_result _) fun ids own _ => reads_joined join own

/-- Loading a relation reads its parents, and then the store for what to attach to them. -/
theorem reads_relation : Op.Reads r.type.leastQueries r.type.mostQueries
    (relation i name r related parents) w (loaded (w.store i) name r related parents) := by
  cases kind : r.type <;> simp only [relation, loaded, settings, sources, links, kind]
  case hasMany => exact reads_handed .list
  case hasOne => exact reads_handed firstOf
  case belongsTo => exact reads_belongsTo
  case manyToMany => exact reads_manyToMany

/-! ## The relations a read asks for -/

variable {owner : Owner} {registry : World → Option Registry} {names : List Value}
  {least most : Nat}

theorem resolve_eq_ok {known : Option Registry} : owner.resolve known name = .ok (r, related) ↔
    owner.relation? name = .ok (some r) ∧
      ∃ models, known = some models ∧ models.find r.model = .ok (some related) := by
  constructor
  · intro h
    obtain ⟨declared, own, h⟩ := Result.of_bind h
    cases declared with
    | none => cases h
    | some r' =>
      cases known with
      | none => cases h
      | some models =>
        obtain ⟨model, found, h⟩ := Result.of_bind h
        cases model with
        | none => cases h
        | some related' =>
          cases h
          exact ⟨own, models, rfl, found⟩
  · rintro ⟨own, models, rfl, found⟩
    simp only [Owner.resolve, own, found, bind, Except.bind, pure, Except.pure]

/-- The first of some relations is loaded before the others. -/
theorem reads_relations_cons (resolved : owner.resolve (registry w) name = .ok (r, related))
    {g : List Value → Result (List Value)}
    (later : ∀ found, loaded (w.store i) name r related parents = .ok found → ∀ journal,
      Op.Reads least most (relations i owner registry names found) { w with journal } (g found)) :
    Op.Reads (r.type.leastQueries + least) (r.type.mostQueries + most)
      (relations i owner registry (name :: names) parents) w
      (loaded (w.store i) name r related parents >>= g) := by
  unfold relations
  refine Op.reads_quiet Op.reads_get fun _ => ?_
  rw [resolved]
  refine Op.reads_quiet (Op.reads_result _) fun _ => ?_
  refine Op.reads_bind (Op.reads_traced _ _ reads_relation) fun found done _ => ?_
  exact Op.reads_quiet (Op.reads_log _ _ _ _) fun _ => later found done _

theorem reads_relations_one (resolved : owner.resolve (registry w) name = .ok (r, related)) :
    Op.Reads r.type.leastQueries r.type.mostQueries (relations i owner registry [name] parents) w
      (loaded (w.store i) name r related parents) := by
  have all : Op.Reads (r.type.leastQueries + 0) (r.type.mostQueries + 0)
      (relations i owner registry [name] parents) w
      (loaded (w.store i) name r related parents >>= pure) :=
    reads_relations_cons resolved fun found _ _ => Op.reads_pure found
  rwa [bind_pure] at all

/-- A read of objects with relations loads just those. -/
theorem reads_run {found : Result (List Value)} (some : parents ≠ []) (asked : names ≠ [])
    (objects : ∀ p ∈ parents, p.entries?.isSome = true)
    (h : Op.Reads least most (relations i owner registry names parents) w found) :
    Op.Reads least most (run i owner registry (.list parents) (.list names)) w found := by
  have go : (!(Value.list names).truthy || parents.isEmpty) = false := by
    simp [Value.truthy, some, asked]
  unfold run
  dsimp only [Value.members?]
  rw [go, Store.mapM_entriesOf objects]
  exact h

end Populate

end DocStore
