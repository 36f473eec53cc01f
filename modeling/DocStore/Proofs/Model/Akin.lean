import DocStore.Proofs.Database.Akin
import DocStore.Proofs.Database.Script
/-!
A model that has other numbers in two akin worlds does the same in both, relations of its documents
included, if names lead to the same models.
-/

namespace DocStore

open Op

/-! ## Relations -/

/-- Two registries in which each name leads to the same model. -/
def Registry.Akin (known known' : Registry) : Prop := ∀ name, known'.find name = known.find name

theorem Owner.resolve_akin {known known' : Registry} (h : known.Akin known') (owner : Owner) (name : Value) :
    owner.resolve (some known') name = owner.resolve (some known) name := by
  simp only [Owner.resolve, h _]

namespace Populate

variable {i : Nat} {W W' : World} {name : Value} {r : Relation} {related : Related} {owner : Owner}
  {parents : List Value} {registry registry' : World → Option Registry}

theorem akin_query (r : Relation) (c field : Value) (values : List Value) :
    Akin i W W' (query i r c field values) (query i r c field values) := by
  refine akin_bind (akin_unseen (unseen_count _) (unseen_count _)) fun _ => ?_
  exact akin_bind (akin_checkName field) fun _ => akin_find c _

theorem akin_children :
    Akin i W W' (children i r related parents) (children i r related parents) := by
  refine akin_given fun ids => akin_bind (akin_query r _ _ ids) fun found => ?_
  exact akin_given fun keys => akin_pure _

theorem akin_belongsTo :
    Akin i W W' (belongsTo i name r related parents) (belongsTo i name r related parents) := by
  refine akin_given fun held => ?_
  dsimp only
  split
  · exact akin_pure _
  · refine akin_bind (akin_query r _ _ _) fun found => ?_
    exact akin_given fun targets => akin_pure _

theorem akin_manyToMany :
    Akin i W W' (manyToMany i name r related parents) (manyToMany i name r related parents) := by
  refine akin_given fun join => akin_given fun ids => ?_
  refine akin_bind (akin_query r _ _ ids) fun rows => akin_given fun held => ?_
  dsimp only
  split
  · refine akin_bind (akin_pure _) fun found => ?_
    exact akin_given fun targets => akin_given fun owners => akin_result _
  · refine akin_bind (akin_query r _ _ _) fun found => ?_
    exact akin_given fun targets => akin_given fun owners => akin_result _

theorem akin_relation :
    Akin i W W' (relation i name r related parents) (relation i name r related parents) := by
  unfold relation
  cases r.type with
  | hasMany => exact akin_bind akin_children fun pairs => akin_result _
  | hasOne => exact akin_bind akin_children fun pairs => akin_result _
  | belongsTo => exact akin_belongsTo
  | manyToMany => exact akin_manyToMany

/-- What relations resolve to does not differ. -/
def Leads (i : Nat) (W W' : World) (owner : Owner) (registry : World → Option Registry) : Prop :=
  ∀ w w', World.Akin i W W' w w' → ∀ name,
    owner.resolve (registry w') name = owner.resolve (registry w) name

theorem akin_relations (leads : Leads i W W' owner registry) (names : List Value) :
    Akin i W W' (relations i owner registry names parents) (relations i owner registry names parents) := by
  induction names generalizing parents with
  | nil => exact akin_pure parents
  | cons name rest ih =>
    refine akin_get fun w w' akin => ?_
    rw [leads w w' akin]
    refine akin_given fun found => ?_
    refine akin_bind (akin_traced akin_relation) fun parents => ?_
    exact akin_bind (akin_unseen (unseen_log _ _ _ _) (unseen_log _ _ _ _)) fun _ => ih

theorem akin_run (leads : Leads i W W' owner registry) (docs included : Value) :
    Akin i W W' (run i owner registry docs included) (run i owner registry docs included) := by
  unfold run
  cases docs.members? with
  | none => exact akin_raise _
  | some parents =>
    dsimp only
    split
    · exact akin_pure parents
    · refine akin_given fun parents => ?_
      cases included.members? with
      | none => exact akin_raise _
      | some names => exact akin_relations leads names

end Populate

/-! ## Models -/

def Database.known (n : Nat) (w : World) : Registry :=
  (w.database n).models.map fun (name, m) => ⟨name, (w.model m).collection⟩

namespace Model

/-- A model of database `n` on store `i` has one number in the one world and another in the other, and
relations lead to the same in both. -/
structure Akin (n i : Nat) (W W' : World) (m m' : Nat) : Prop where
  own : W'.model m' = W.model m
  store : (W.model m).store = i
  database : (W.model m).database = n
  known : (Database.known n W).Akin (Database.known n W')

variable {n i m m' : Nat} {W W' : World} {data id filter included relation related : Value}

theorem Akin.found (h : Akin n i W W' m m') {w w' : World} (akin : World.Akin i W W' w w') :
    w.model m = W.model m ∧ w'.model m' = W.model m := by
  refine ⟨?_, ?_⟩
  · rw [World.model, akin.models]
    rfl
  · rw [World.model, akin.models']
    exact h.own

/-- Operations that read the model first. -/
theorem akin_model {β : Type} {f g : World → Op β} (h : Akin n i W W' m m')
    (next : ∀ v v' : World, v.model m = W.model m → v'.model m' = W.model m →
      Op.Akin i W W' (f v) (g v')) :
    Op.Akin i W W' (Task.get >>= f) (Task.get >>= g) :=
  akin_get fun v v' akin => next v v' (h.found akin).1 (h.found akin).2

theorem leads (h : Akin n i W W' m m') (owner : Owner) : Populate.Leads i W W' owner (registryOf n) := by
  intro w w' akin name
  have known : Database.known n w = Database.known n W := by
    simp only [Database.known, World.database, World.model, akin.databases, akin.models]
  have known' : Database.known n w' = Database.known n W' := by
    simp only [Database.known, World.database, World.model, akin.databases', akin.models']
  show owner.resolve (some (Database.known n w')) name = owner.resolve (some (Database.known n w)) name
  rw [known, known']
  exact owner.resolve_akin h.known name

/-! ## Times and ids -/

theorem akin_source {α : Type} {t : Op α} (draw : Source → α × Source)
    (h : ∀ w : World,
      t.run Writer.serve w = ({ w with source := (draw w.source).2 }, .ok (draw w.source).1)) :
    Op.Akin i W W' t t := by
  intro w w' akin
  rw [Accords, Task.Accord, h, h, akin.source]
  exact .ok ⟨rfl, akin.here, akin.here', akin.store, akin.directory, rfl, akin.models, akin.models',
    akin.databases, akin.databases'⟩

theorem akin_now : Op.Akin i W W' Op.now Op.now := akin_source Source.now fun _ => rfl

theorem akin_newId (start : String) : Op.Akin i W W' (Op.newId start) (Op.newId start) :=
  akin_source (·.newId start) fun _ => rfl

/-! ## Writing -/

theorem akin_create (h : Akin n i W W' m m') : Op.Akin i W W' (create m data) (create m' data) := by
  intro w w' akin
  obtain ⟨own, own'⟩ := h.found akin
  refine Task.accord_bind (Q := Takes i W W') ?_ fun a b v v' takes => accord_handOut takes.1 takes.2
  apply Task.accord_get
  simp only [own, own', h.store]
  refine Task.accord_given akin fun doc _ => ?_
  refine accord_akin akin_now akin fun now v v' akin => ?_
  refine accord_akin (akin_newId _) akin fun id v v' akin => ?_
  exact accord_insertKept akin _ _ _ _

theorem akin_update (h : Akin n i W W' m m') :
    Op.Akin i W W' (update m id data) (update m' id data) := by
  refine akin_model h fun v v' hv hv' => ?_
  simp only [hv, hv', h.store]
  refine akin_given fun changes => ?_
  split
  · exact akin_bind akin_now fun now => Op.akin_update _ _ _
  · exact Op.akin_update _ _ _

theorem akin_orThrow (h : Akin n i W W' m m') (doc : Value) :
    Op.Akin i W W' (orThrow m id doc) (orThrow m' id doc) := by
  unfold orThrow
  split
  · refine akin_model h fun v v' hv hv' => ?_
    rw [hv, hv']
    exact akin_bind (akin_raise _) fun _ => akin_pure doc
  · exact akin_pure doc

theorem akin_delete (h : Akin n i W W' m m') : Op.Akin i W W' (delete m id) (delete m' id) := by
  refine akin_model h fun v v' hv hv' => ?_
  simp only [hv, hv', h.store]
  exact Op.akin_delete _ _

theorem akin_deleteMany (h : Akin n i W W' m m') :
    Op.Akin i W W' (deleteMany m filter) (deleteMany m' filter) := by
  refine akin_model h fun v v' hv hv' => ?_
  simp only [hv, hv', h.store]
  exact Op.akin_deleteMany _ _

/-! ## Reading -/

theorem akin_populated (h : Akin n i W W' m m') (docs : List Value) :
    Op.Akin i W W' (populated m docs included) (populated m' docs included) := by
  unfold populated
  split
  · exact akin_pure docs
  · refine akin_model h fun v v' hv hv' => ?_
    simp only [hv, hv', owner, h.store, h.database]
    exact Populate.akin_run (leads h _) _ _

theorem akin_findById (h : Akin n i W W' m m') :
    Op.Akin i W W' (findById m id included) (findById m' id included) := by
  refine akin_model h fun v v' hv hv' => ?_
  simp only [hv, hv', h.store]
  refine akin_bind (Op.akin_findById _ _) fun doc => ?_
  split
  · exact akin_pure doc
  · exact akin_bind (akin_populated h _) fun docs => akin_pure _

theorem akin_findOne (h : Akin n i W W' m m') :
    Op.Akin i W W' (findOne m filter included) (findOne m' filter included) := by
  refine akin_model h fun v v' hv hv' => ?_
  simp only [hv, hv', h.store]
  refine akin_bind (Op.akin_find _ _) fun docs => ?_
  exact akin_bind (akin_populated h docs) fun docs => akin_pure _

theorem akin_find (h : Akin n i W W' m m') (options : FindOptions) :
    Op.Akin i W W' (find m options included) (find m' options included) := by
  refine akin_model h fun v v' hv hv' => ?_
  simp only [hv, hv', h.store]
  refine akin_given fun options => akin_bind (Op.akin_find _ _) fun docs => ?_
  exact akin_populated h docs

theorem akin_findAll (h : Akin n i W W' m m') : Op.Akin i W W' (findAll m) (findAll m') := by
  refine akin_model h fun v v' hv hv' => ?_
  simp only [hv, hv', h.store]
  exact Op.akin_find _ _

theorem akin_count (h : Akin n i W W' m m') : Op.Akin i W W' (count m filter) (count m' filter) := by
  refine akin_model h fun v v' hv hv' => ?_
  simp only [hv, hv', h.store]
  exact Op.akin_count _ _

/-! ## Links -/

theorem akin_link {operation : String} (h : Akin n i W W' m m') :
    Op.Akin i W W' (link m relation operation) (link m' relation operation) := by
  intro w w' akin
  obtain ⟨own, own'⟩ := h.found akin
  apply Task.accord_get
  simp only [own, own', h.database, leads h _ w w' akin]
  refine akin_given (fun found => ?_) w w' akin
  split
  · exact akin_bind (akin_raise _) fun _ => akin_given fun join => akin_pure _
  · exact akin_given fun join => akin_pure _

theorem akin_checkFields (fields : List Value) :
    Op.Akin i W W' (checkFields fields) (checkFields fields) := by
  unfold checkFields
  split
  · exact akin_pure ()
  · exact akin_raise _

theorem akin_associate (h : Akin n i W W' m m') :
    Op.Akin i W W' (associate m id relation related) (associate m' id relation related) := by
  refine akin_bind (akin_link h) fun found => akin_model h fun v v' hv hv' => ?_
  simp only [hv, hv', h.store]
  refine akin_bind akin_now fun now => akin_bind (akin_newId _) fun row => ?_
  exact akin_bind (akin_checkFields _) fun _ => Op.akin_insert _ _

theorem akin_dissociate (h : Akin n i W W' m m') :
    Op.Akin i W W' (dissociate m id relation related) (dissociate m' id relation related) := by
  refine akin_bind (akin_link h) fun found => akin_model h fun v v' hv hv' => ?_
  simp only [hv, hv', h.store]
  exact akin_bind (akin_checkFields _) fun _ => Op.akin_deleteMany _ _

/-! ## Any operation -/

theorem Act.akin_task (h : Akin n i W W' m m') (act : Act) :
    Op.Akin i W W' (act.task m) (act.task m') := by
  cases act with
  | create => exact akin_bind (akin_create h) fun _ => akin_pure _
  | update => exact akin_bind (Model.akin_update h) fun _ => akin_pure _
  | updateOrThrow =>
    refine akin_bind (akin_bind (Model.akin_update h) fun doc => akin_orThrow h doc) fun _ => ?_
    exact akin_pure _
  | delete => exact akin_bind (Model.akin_delete h) fun _ => akin_pure _
  | deleteMany => exact akin_bind (Model.akin_deleteMany h) fun _ => akin_pure _
  | findById => exact akin_bind (Model.akin_findById h) fun _ => akin_pure _
  | findByIdOrThrow =>
    refine akin_bind (akin_bind (Model.akin_findById h) fun doc => akin_orThrow h doc) fun _ => ?_
    exact akin_pure _
  | findOne => exact akin_bind (akin_findOne h) fun _ => akin_pure _
  | find options => exact akin_bind (Model.akin_find h options) fun _ => akin_pure _
  | findAll => exact akin_bind (akin_findAll h) fun _ => akin_pure _
  | count => exact akin_bind (Model.akin_count h) fun _ => akin_pure _
  | associate => exact akin_bind (akin_associate h) fun _ => akin_pure _
  | dissociate => exact akin_bind (akin_dissociate h) fun _ => akin_pure _

end Model

end DocStore
