import DocStore.Proofs.Database.Read
import DocStore.Proofs.Database.Write
/-!
The operations of a model are alike on two stores that show one picture.
-/

namespace DocStore

open Writer (serve)
open Value (IsData)

def Shelf.on (S : Shelf) (i m : Nat) : Model := { S.model m with store := i }

def Shelf.known (S : Shelf) : Registry :=
  S.registry.map fun (name, m) => ⟨name, (S.model m).collection⟩

namespace World

variable {n i j m : Nat} {S : Shelf} {w w' : World}

theorem Even.left (even : Even n i j S w w') (among : m ∈ S.opened) : w.model m = S.on i m := by
  obtain ⟨P, -, rfl, h, -⟩ := even
  exact h.model m among

theorem Even.right (even : Even n i j S w w') (among : m ∈ S.opened) : w'.model m = S.on j m := by
  obtain ⟨P, -, rfl, -, h'⟩ := even
  exact h'.model m among

theorem Shows.known {P : Picture} (h : w.Shows n i P) (proper : P.toShelf.Proper n) :
    Model.registryOf n w = some P.known := by
  rw [Model.registryOf, h.database, Shelf.known]
  refine congrArg some (List.map_congr_left fun e he => ?_)
  have among : e.2 ∈ P.opened := proper.opened ▸ List.mem_map_of_mem he
  show (⟨e.1, (w.model e.2).collection⟩ : Related) = ⟨e.1, (P.model e.2).collection⟩
  rw [h.model e.2 among]

theorem Shows.draws {P : Picture} (h : w.Shows n i P) (source : Source) :
    ({ w with source } : World).Shows n i { P with source } :=
  ⟨h.here, h.there, h.connected, h.indent, h.docs, h.dirty, h.indexes, h.directory, rfl, h.database,
    h.size, h.model⟩

end World

/-! ## Times and ids -/

namespace Op

variable {n i j : Nat} {S : Shelf}

/-- Operations that only use the source of times and ids. -/
theorem alike_source {α : Type} {t : Op α} (draw : Source → α × Source)
    (h : ∀ w : World, t.run serve w =
      ({ w with source := (draw w.source).2 }, .ok (draw w.source).1)) :
    Alike n i j S t t := by
  rintro w w' ⟨P, steady, rfl, shows, shows'⟩ granted
  rw [h, h, shows.source, shows'.source]
  exact .ok ⟨rfl, _, steady.source (draw P.source).2, rfl, shows.draws _, shows'.draws _⟩

theorem alike_now : Alike n i j S Op.now Op.now := alike_source Source.now fun _ => rfl

theorem alike_newId (start : String) : Alike n i j S (Op.newId start) (Op.newId start) :=
  alike_source (·.newId start) fun _ => rfl

end Op

namespace Model

open Op

variable {n i j m : Nat} {S : Shelf} {data id filter included relation related : Value}

theorem agreed (proper : S.Proper n) :
    Populate.Agreed n i j S (registryOf n) S.known where
  left := by
    rintro w w' ⟨P, -, rfl, h, -⟩
    exact h.known proper
  right := by
    rintro w w' ⟨P, -, rfl, -, h'⟩
    exact h'.known proper
  named := by
    intro related among
    obtain ⟨e, he, rfl⟩ := List.mem_map.mp among
    exact (proper.models e.2 (proper.opened ▸ List.mem_map_of_mem he)).1.collection

/-! ## Writing -/

theorem alike_create (proper : S.Proper n) (among : m ∈ S.opened) (hd : data.IsData) :
    Alike n i j S (create m data) (create m data) := by
  intro w w' even
  obtain ⟨own, -⟩ := proper.models m among
  obtain ⟨c, hc⟩ := own.collection
  refine Task.mirrors_bind (Q := fun a b v v' =>
    World.Even n i j S v v' ∧ v.sharing.look a = v'.sharing.look b) ?_ ?_
  · apply Task.mirrors_get
    simp only [even.left among, even.right among, Shelf.on, hc]
    refine Task.mirrors_given even fun doc valid => ?_
    refine mirrors_alike alike_now even fun now v v' even => ?_
    refine mirrors_alike (alike_newId _) even fun id v v' even => ?_
    have doc := Schema.validate_data own.schema hd valid
    refine mirrors_insertKept even (Value.isData_merge doc fun e he => ?_) _
    simp only [List.mem_cons, List.not_mem_nil, or_false] at he
    rcases he with rfl | rfl | rfl <;> exact Value.isData_string _
  · rintro a b v v' ⟨later, same⟩
    exact mirrors_handOut later same

/-- Operations that read a model and are alike on the two stores that it is on. -/
theorem alike_model {β : Type} {f g : World → Op β} (among : m ∈ S.opened)
    (next : ∀ v v' : World, v.model m = S.on i m → v'.model m = S.on j m →
      Alike n i j S (f v) (g v')) :
    Alike n i j S (Task.get >>= f) (Task.get >>= g) :=
  alike_get fun v v' even => next v v' (even.left among) (even.right among)

theorem alike_update (proper : S.Proper n) (among : m ∈ S.opened) (hd : data.IsData) :
    Alike n i j S (update m id data) (update m id data) := by
  obtain ⟨own, -⟩ := proper.models m among
  obtain ⟨c, hc⟩ := own.collection
  refine alike_model among fun v v' hv hv' => ?_
  simp only [hv, hv', Shelf.on, hc]
  refine alike_given fun changes valid => ?_
  have changed := Value.isData_drop (Schema.validate_data own.schema hd valid) "id"
  split
  · refine alike_bind alike_now fun now => ?_
    exact Op.alike_update (Value.isData_put changed _ (Value.isData_string now))
  · exact Op.alike_update changed

theorem alike_orThrow (among : m ∈ S.opened) (doc : Value) :
    Alike n i j S (orThrow m id doc) (orThrow m id doc) := by
  unfold orThrow
  split
  · refine alike_model among fun v v' hv hv' => ?_
    rw [hv, hv']
    exact alike_bind (alike_raise _) fun _ => alike_pure doc
  · exact alike_pure doc

theorem alike_updateOrThrow (proper : S.Proper n) (among : m ∈ S.opened) (hd : data.IsData) :
    Alike n i j S (updateOrThrow m id data) (updateOrThrow m id data) :=
  alike_bind (alike_update proper among hd) fun doc => alike_orThrow among doc

theorem alike_delete (proper : S.Proper n) (among : m ∈ S.opened) :
    Alike n i j S (delete m id) (delete m id) := by
  obtain ⟨c, hc⟩ := (proper.models m among).1.collection
  refine alike_model among fun v v' hv hv' => ?_
  simp only [hv, hv', Shelf.on, hc]
  exact Op.alike_delete

theorem alike_deleteMany (proper : S.Proper n) (among : m ∈ S.opened) :
    Alike n i j S (deleteMany m filter) (deleteMany m filter) := by
  obtain ⟨c, hc⟩ := (proper.models m among).1.collection
  refine alike_model among fun v v' hv hv' => ?_
  simp only [hv, hv', Shelf.on, hc]
  exact Op.alike_deleteMany

/-! ## Reading -/

theorem alike_populated (proper : S.Proper n) (among : m ∈ S.opened) (docs : List Value) :
    Alike n i j S (populated m docs included) (populated m docs included) := by
  obtain ⟨own, database⟩ := proper.models m among
  unfold populated
  split
  · exact alike_pure docs
  · refine alike_model among fun v v' hv hv' => ?_
    simp only [hv, hv', Shelf.on, owner, database]
    exact Populate.alike_run own.relations (agreed proper) _ _

theorem alike_findById (proper : S.Proper n) (among : m ∈ S.opened) :
    Alike n i j S (findById m id included) (findById m id included) := by
  obtain ⟨c, hc⟩ := (proper.models m among).1.collection
  refine alike_model among fun v v' hv hv' => ?_
  simp only [hv, hv', Shelf.on, hc]
  refine alike_bind Op.alike_findById fun doc => ?_
  split
  · exact alike_pure doc
  · exact alike_bind (alike_populated proper among _) fun docs => alike_pure _

theorem alike_findByIdOrThrow (proper : S.Proper n) (among : m ∈ S.opened) :
    Alike n i j S (findByIdOrThrow m id included) (findByIdOrThrow m id included) :=
  alike_bind (alike_findById proper among) fun doc => alike_orThrow among doc

theorem alike_findOne (proper : S.Proper n) (among : m ∈ S.opened) :
    Alike n i j S (findOne m filter included) (findOne m filter included) := by
  obtain ⟨c, hc⟩ := (proper.models m among).1.collection
  refine alike_model among fun v v' hv hv' => ?_
  simp only [hv, hv', Shelf.on, hc]
  refine alike_bind (alike_find _) fun docs => ?_
  exact alike_bind (alike_populated proper among docs) fun docs => alike_pure _

theorem alike_find (proper : S.Proper n) (among : m ∈ S.opened) (options : FindOptions) :
    Alike n i j S (find m options included) (find m options included) := by
  obtain ⟨c, hc⟩ := (proper.models m among).1.collection
  refine alike_model among fun v v' hv hv' => ?_
  simp only [hv, hv', Shelf.on, hc]
  refine alike_given fun options _ => alike_bind (Op.alike_find _) fun docs => ?_
  exact alike_populated proper among docs

theorem alike_findAll (proper : S.Proper n) (among : m ∈ S.opened) :
    Alike n i j S (findAll m) (findAll m) := by
  obtain ⟨c, hc⟩ := (proper.models m among).1.collection
  refine alike_model among fun v v' hv hv' => ?_
  simp only [hv, hv', Shelf.on, hc]
  exact Op.alike_find _

theorem alike_count (proper : S.Proper n) (among : m ∈ S.opened) :
    Alike n i j S (count m filter) (count m filter) := by
  obtain ⟨c, hc⟩ := (proper.models m among).1.collection
  refine alike_model among fun v v' hv hv' => ?_
  simp only [hv, hv', Shelf.on, hc]
  exact Op.alike_count

/-! ## Links -/

/-- Links are between fields and in a collection that strings name. -/
structure Linked (found : Relation × Value × Value) : Prop where
  own : ∃ k, found.1.foreignKey = .string k
  collection : ∃ c, found.2.1 = .string c
  related : ∃ k, found.2.2 = .string k

theorem mirrors_link {w w' : World} {operation : String} (proper : S.Proper n)
    (among : m ∈ S.opened) (even : World.Even n i j S w w') :
    Mirrors n i j S (fun a b v v' => Linked a ∧ Same n i j S a b v v')
      (link m relation operation) (link m relation operation) w w' := by
  obtain ⟨own, database⟩ := proper.models m among
  apply Task.mirrors_get
  simp only [even.left among, even.right among, Shelf.on, owner, database,
    (agreed proper).left w w' even, (agreed proper).right w w' even]
  refine Task.mirrors_given even fun found hf => ?_
  obtain ⟨⟨e, he, same⟩, -⟩ := Populate.resolve_among hf
  have proper : found.1.Proper := same ▸ own.relations e he
  split
  · exact Task.mirrors_raise _ even
  · refine Task.mirrors_given even fun join hj => ?_
    obtain ⟨collection, key⟩ := Populate.join_named proper hj
    exact Task.mirrors_pure ⟨⟨proper.foreignKey, collection, key⟩, rfl, even⟩

theorem alike_checkFields (fields : List Value) :
    Alike n i j S (checkFields fields) (checkFields fields) := by
  unfold checkFields
  split
  · exact alike_pure ()
  · exact alike_raise _

theorem alike_associate (proper : S.Proper n) (among : m ∈ S.opened) (hid : id.IsData)
    (hr : related.IsData) :
    Alike n i j S (associate m id relation related) (associate m id relation related) := by
  intro w w' even
  apply Task.mirrors_bind (mirrors_link proper among even)
  rintro ⟨r, collection, key⟩ _ v v' ⟨⟨⟨k, hk⟩, ⟨c, rfl⟩, ⟨k', rfl⟩⟩, rfl, even⟩
  apply Task.mirrors_get
  simp only [even.left among, even.right among, Shelf.on]
  refine mirrors_alike alike_now even fun now v v' even => ?_
  refine mirrors_alike (alike_newId _) even fun row v v' even => ?_
  refine mirrors_alike (alike_checkFields _) even fun _ v v' even => ?_
  have entries : IsData (.object (Document.merge [("id", .string row)]
      [(k, id), (k', related), ("createdAt", .string now), ("updatedAt", .string now)])) := by
    refine Value.isData_merge (Value.isData_object.mpr ⟨by simp [Document.keys], ?_⟩) ?_
    · simpa using Value.isData_string row
    · simp [hid, hr, Value.isData_string]
  rw [← Value.mergeEntries_object] at entries
  rw [show r.foreignKey = .string k from hk]
  exact Op.alike_insert entries v v' even

theorem alike_dissociate (proper : S.Proper n) (among : m ∈ S.opened) :
    Alike n i j S (dissociate m id relation related) (dissociate m id relation related) := by
  intro w w' even
  apply Task.mirrors_bind (mirrors_link proper among even)
  rintro ⟨r, collection, key⟩ _ v v' ⟨⟨-, ⟨c, rfl⟩, -⟩, rfl, even⟩
  apply Task.mirrors_get
  simp only [even.left among, even.right among, Shelf.on]
  refine mirrors_alike (alike_checkFields _) even fun _ v v' even => ?_
  exact Op.alike_deleteMany v v' even

end Model

end DocStore
