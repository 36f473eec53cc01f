import DocStore.Proofs.Relation.Links
import DocStore.Proofs.Value.Entry
/-!
Relations that are asked for together: each gives what it would give alone as long as none that comes
before it sets the field that it reads.
-/

namespace DocStore

/-- The field of its parents that a relation reads. -/
def Relation.reads (r : Relation) : Value :=
  match r.type with
  | .belongsTo => r.foreignKey
  | _ => .string "id"

/-- No relation reads the field that one before it sets. -/
def Owner.Undisturbed (owner : Owner) (names : List Value) : Prop :=
  names.Pairwise fun earlier later => ∀ r, owner.relation? later = .ok (some r) →
    Key.identity r.reads ≠ Key.identity earlier

namespace Populate

/-! ## One field of many documents -/

/-- What documents hold under a key. -/
def column (key : Value) (docs : List Value) : List (Option Value) := docs.map fun d => d.entry? key

variable {docs values : List Value} {key key' name : Value}

theorem column_congr (objects : ∀ d ∈ docs, d.entries?.isSome = true)
    (same : Key.identity key = Key.identity key') : column key docs = column key' docs := by
  refine List.map_congr_left fun d hd => ?_
  obtain ⟨cs, hcs⟩ := Option.isSome_iff_exists.mp (objects d hd)
  rw [Value.entry?_of_entries hcs, Value.entry?_of_entries hcs, Catalog.get?, Catalog.get?, same]

/-- Of all fields only the one that is attached changes. -/
theorem column_attach (objects : ∀ d ∈ docs, d.entries?.isSome = true)
    (length : values.length = docs.length) :
    column key (attach name docs values) =
      if Key.identity key = Key.identity name then values.map some else column key docs := by
  induction docs generalizing values with
  | nil =>
    obtain rfl := List.eq_nil_of_length_eq_zero length
    split <;> rfl
  | cons d rest ih =>
    cases values with
    | nil => cases length
    | cons v vs =>
      have later := ih (fun d hd => objects d (by simp [hd])) (Nat.succ.inj length)
      simp only [column, attach, List.zip_cons_cons, List.map_cons] at later ⊢
      rw [later, Value.entry?_putEntry (objects d (by simp))]
      split <;> rfl

theorem objects_attach (objects : ∀ d ∈ docs, d.entries?.isSome = true) (name : Value)
    (values : List Value) : ∀ d ∈ attach name docs values, d.entries?.isSome = true := by
  intro d hd
  obtain ⟨⟨d', v⟩, there, rfl⟩ := List.mem_map.mp hd
  exact Value.entries_putEntry (objects d' (List.of_mem_zip there).1) name v

theorem length_attach (length : values.length = docs.length) (name : Value) :
    (attach name docs values).length = docs.length := by
  rw [attach, List.length_map, List.length_zip, length, Nat.min_self]

/-! ## What one relation reads and gives -/

variable {s : Store} {r : Relation} {related : Related} {held : List Value}

/-- What a relation makes of the entry of a document under the field that it reads. -/
def sourceOf (r : Relation) (entry : Option Value) : Result Value :=
  match r.type with
  | .belongsTo => if r.foreignKey.isHashable then .ok (entry.getD .null) else failWith .wrongType
  | _ =>
    match entry with
    | some id => .ok id
    | none => failWith .missingKey

/-- What a relation reads from documents is in one field of theirs. -/
theorem sources_eq (objects : ∀ d ∈ docs, d.entries?.isSome = true) (r : Relation) :
    sources r docs = (column r.reads docs).mapM (sourceOf r) := by
  have each (field : Value) (f : Value → Result Value)
      (same : ∀ d, d.entries?.isSome = true → f d = sourceOf r (d.entry? field)) :
      docs.mapM f = (column field docs).mapM (sourceOf r) := by
    rw [column, List.mapM_map]
    exact Result.mapM_congr fun d hd => same d (objects d hd)
  have ids (kind : r.type ≠ .belongsTo) (d : Value) (object : d.entries?.isSome = true) :
      idOf d = sourceOf r (d.entry? (.string "id")) := by
    cases type : r.type with
    | belongsTo => exact absurd type kind
    | _ =>
      cases d with
      | object | mapping =>
        simp only [idOf]
        split <;> simp_all [sourceOf]
      | _ => cases object
  cases kind : r.type with
  | belongsTo =>
    simp only [sources, Relation.reads, kind]
    refine each r.foreignKey _ fun d object => ?_
    cases d with
    | object | mapping => simp only [Filter.fieldOf, sourceOf, kind]
    | _ => cases object
  | _ =>
    simp only [sources, Relation.reads, kind]
    exact each (.string "id") _ (ids (by simp [kind]))

theorem length_grouped {pairs : List (Value × Value)} {value : List Value → Value}
    {ids vs : List Value} (h : grouped pairs value ids = .ok vs) : vs.length = ids.length := by
  unfold grouped at h
  split at h
  · obtain rfl := Except.ok.inj h
    exact List.length_map _
  · cases h

theorem length_links {vs : List Value} (h : links s name r related held = .ok vs) :
    vs.length = held.length := by
  unfold links at h
  split at h
  · obtain ⟨pairs, -, h⟩ := Result.of_bind h
    exact length_grouped h
  · obtain ⟨pairs, -, h⟩ := Result.of_bind h
    exact length_grouped h
  · unfold referred at h
    dsimp only at h
    split at h
    · obtain rfl := Except.ok.inj h
      exact List.length_map _
    · obtain ⟨found, -, h⟩ := Result.of_bind h
      obtain ⟨targets, -, h⟩ := Result.of_bind h
      obtain rfl := Except.ok.inj h
      exact List.length_map _
  · obtain ⟨join, -, h⟩ := Result.of_bind h
    obtain ⟨rows, -, h⟩ := Result.of_bind h
    obtain ⟨keys, -, h⟩ := Result.of_bind h
    obtain ⟨found, -, h⟩ := Result.of_bind h
    obtain ⟨targets, -, h⟩ := Result.of_bind h
    obtain ⟨owners, -, h⟩ := Result.of_bind h
    exact length_grouped h

/-- The name of a relation is in nothing that it gives. -/
theorem links_name {name' : Value} {vs : List Value} (h : links s name r related held = .ok vs) :
    links s name' r related held = .ok vs := by
  have settled {join : Value × Value} (given : r.join name = .ok join) :
      r.join name' = .ok join := by
    unfold Relation.join at given ⊢
    split at given
    · next settings => rwa [if_pos settings]
    · cases given
  unfold links at h ⊢
  split at h
  · exact h
  · exact h
  · exact h
  · obtain ⟨join, given, reached⟩ := Result.of_bind h
    rw [settled given]
    exact reached

/-! ## Relations one after the other -/

variable {owner : Owner} {known : Option Registry} {name' : Value} {vs vs' : List Value}

/-- Names of one identity are names of one relation. -/
theorem relation_congr {r' : Relation} (h : owner.relation? name = .ok (some r))
    (h' : owner.relation? name' = .ok (some r')) (same : Key.identity name = Key.identity name') :
    r = r' := by
  have declared {name : Value} {r : Relation} (h : owner.relation? name = .ok (some r)) :
      ∃ t, Key.identity name = .string t ∧ Table.get? owner.relations t = some r := by
    unfold Owner.relation? at h
    split at h
    · obtain ⟨t, text, held⟩ := Option.bind_eq_some_iff.mp (Except.ok.inj h)
      exact ⟨t, Key.identity_eq_string.mpr text, held⟩
    · cases h
  obtain ⟨t, own, held⟩ := declared h
  obtain ⟨t', own', held'⟩ := declared h'
  obtain rfl : t = t' := Key.string.inj (own.symm.trans (same.trans own'))
  exact Option.some.inj (held.symm.trans held')

/-- Alone, a relation gives documents some values. -/
def Gives (s : Store) (owner : Owner) (known : Option Registry) (docs : List Value) (name : Value)
    (values : List Value) : Prop :=
  ∃ r related held, owner.resolve known name = .ok (r, related) ∧ settings name r = .ok () ∧
    sources r docs = .ok held ∧ links s name r related held = .ok values

def populated (s : Store) (owner : Owner) (known : Option Registry) :
    List Value → List Value → Result (List Value)
  | [], docs => .ok docs
  | name :: names, docs => do
    let (r, related) ← owner.resolve known name
    populated s owner known names (← loaded s name r related docs)

theorem populated_cons {now : List Value} (resolved : owner.resolve known name = .ok (r, related))
    (done : loaded s name r related docs = .ok now) (names : List Value) :
    populated s owner known (name :: names) docs = populated s owner known names now := by
  simp only [populated, resolved, done, bind, Except.bind]

theorem populated_one {found : List Value} : populated s owner known [name] docs = .ok found ↔
    ∃ values, Gives s owner known docs name values ∧ found = attach name docs values := by
  constructor
  · intro h
    obtain ⟨⟨r, related⟩, resolved, rest⟩ := Result.of_bind h
    obtain ⟨only, single, same⟩ := Result.of_bind rest
    obtain rfl := Except.ok.inj same
    obtain ⟨_, settled, read⟩ := Result.of_bind single
    obtain ⟨held, own, linked⟩ := Result.of_bind read
    obtain ⟨values, given, done⟩ := Result.of_bind linked
    exact ⟨values, ⟨r, related, held, resolved, settled, own, given⟩, (Except.ok.inj done).symm⟩
  · rintro ⟨values, ⟨r, related, held, resolved, settled, own, given⟩, rfl⟩
    simp only [populated, loaded, resolved, settled, own, given, bind, Except.bind, pure, Except.pure]

theorem Gives.length (h : Gives s owner known docs name vs) : vs.length = docs.length := by
  obtain ⟨r, related, held, -, -, own, given⟩ := h
  rw [length_links given]
  unfold sources at own
  split at own
  · exact Result.length_of_mapM own
  · exact Result.length_of_mapM own

theorem Gives.unique (h : Gives s owner known docs name vs) (h' : Gives s owner known docs name' vs')
    (same : Key.identity name = Key.identity name') : vs = vs' := by
  obtain ⟨r, related, held, resolved, -, own, given⟩ := h
  obtain ⟨r', related', held', resolved', -, own', given'⟩ := h'
  obtain ⟨declared, models, rfl, found⟩ := resolve_eq_ok.mp resolved
  obtain ⟨declared', models', known', found'⟩ := resolve_eq_ok.mp resolved'
  obtain rfl := relation_congr declared declared' same
  obtain rfl := Option.some.inj known'
  obtain rfl := Option.some.inj (Except.ok.inj (found.symm.trans found'))
  obtain rfl := Except.ok.inj (own.symm.trans own')
  exact Except.ok.inj ((links_name given).symm.trans given')

variable {names : List Value}

/-- Loaded one after the other, on documents that are as they were in the fields that the relations read,
each relation gives what it gives alone; fields without a relation stay as they are. -/
theorem populated_spec (objects : ∀ d ∈ docs, d.entries?.isSome = true)
    (gives : ∀ name ∈ names, ∃ values, Gives s owner known docs name values)
    (undisturbed : owner.Undisturbed names) {now : List Value}
    (objects' : ∀ d ∈ now, d.entries?.isSome = true) (length : now.length = docs.length)
    (alike : ∀ name ∈ names, ∀ r, owner.relation? name = .ok (some r) →
      column r.reads now = column r.reads docs) :
    ∃ found, populated s owner known names now = .ok found ∧
      (∀ d ∈ found, d.entries?.isSome = true) ∧
      (∀ name ∈ names, ∀ values, Gives s owner known docs name values →
        column name found = values.map some) ∧
      ∀ key, (∀ name ∈ names, Key.identity key ≠ Key.identity name) →
        column key found = column key now := by
  induction names generalizing now with
  | nil => exact ⟨now, rfl, objects', nofun, fun _ _ => rfl⟩
  | cons name rest ih =>
    obtain ⟨first, later⟩ := List.pairwise_cons.mp undisturbed
    obtain ⟨values, own⟩ := gives name (by simp)
    obtain ⟨r, related, held, resolved, settled, read, given⟩ := own
    have same : sources r now = sources r docs := by
      rw [sources_eq objects', sources_eq objects,
        alike name (by simp) r (resolve_eq_ok.mp resolved).1]
    have single : loaded s name r related now = .ok (attach name now values) := by
      simp only [loaded, settled, same, read, given, bind, Except.bind, pure, Except.pure]
    have gives_first : Gives s owner known docs name values :=
      ⟨r, related, held, resolved, settled, read, given⟩
    have counted : values.length = now.length := gives_first.length.trans length.symm
    have alike' : ∀ other ∈ rest, ∀ r, owner.relation? other = .ok (some r) →
        column r.reads (attach name now values) = column r.reads docs := by
      intro other ho r declared
      rw [column_attach objects' counted, if_neg (first other ho r declared)]
      exact alike other (by simp [ho]) r declared
    obtain ⟨found, done, objects'', each, frame⟩ := ih (fun other ho => gives other (by simp [ho]))
      later (objects_attach objects' name values) ((length_attach counted name).trans length) alike'
    refine ⟨found, (populated_cons resolved single rest).trans done, objects'',
      fun other ho vs own => ?_, fun key apart => ?_⟩
    · rcases List.mem_cons.mp ho with rfl | ho
      · -- A relation that is asked for once more under the same name gives the same once more.
        by_cases again : ∃ twin ∈ rest, Key.identity other = Key.identity twin
        · obtain ⟨twin, ht, same⟩ := again
          obtain ⟨vs', own'⟩ := gives twin (by simp [ht])
          rw [column_congr objects'' same, each twin ht vs' own', own.unique own' same]
        · have apart : ∀ twin ∈ rest, Key.identity other ≠ Key.identity twin :=
            fun twin ht same => again ⟨twin, ht, same⟩
          rw [frame other apart, column_attach objects' counted, if_pos rfl,
            own.unique gives_first rfl]
      · exact each other ho vs own
    · rw [frame key fun other ho => apart other (by simp [ho]), column_attach objects' counted,
        if_neg (apart name (by simp))]

/-! ## The relations that a read includes -/

variable {w : World} {i : Nat} {registry : World → Option Registry}

/-- The relations of a read are loaded one after the other. -/
theorem reads_relations (unseen : ∀ (v : World) journal, registry { v with journal } = registry v)
    (names docs : List Value) :
    Op.Reads 0 (2 * names.length) (relations i owner registry names docs) w
      (populated (w.store i) owner (registry w) names docs) := by
  induction names generalizing w docs with
  | nil => exact Op.reads_pure docs
  | cons name rest ih =>
    cases resolved : owner.resolve (registry w) name with
    | error e =>
      unfold relations populated
      refine Op.reads_quiet Op.reads_get fun _ => ?_
      rw [resolved]
      exact Op.reads_raise e
    | ok found =>
      obtain ⟨r, related⟩ := found
      have step : Op.Reads (r.type.leastQueries + 0) (r.type.mostQueries + 2 * rest.length)
          (relations i owner registry (name :: rest) docs) w
          (loaded (w.store i) name r related docs >>=
            populated (w.store i) owner (registry w) rest) := by
        refine reads_relations_cons resolved fun found _ journal => ?_
        rw [← unseen w journal]
        exact ih found
      have few := r.type.mostQueries_le
      have weaker := Op.reads_weaken step (Nat.zero_le _)
        (show r.type.mostQueries + 2 * rest.length ≤ 2 * (name :: rest).length by
          rw [List.length_cons]
          omega)
      unfold populated
      rw [resolved]
      exact weaker

/-- What a read of some documents with relations ends with. -/
theorem run_eq (unseen : ∀ (v : World) journal, registry { v with journal } = registry v)
    (objects : ∀ d ∈ docs, d.entries?.isSome = true) (some : docs ≠ []) (asked : names ≠ []) :
    ∃ journal, (run i owner registry (.list docs) (.list names)).advance w =
      ({ w with journal }, .done (populated (w.store i) owner (registry w) names docs)) := by
  obtain ⟨journal, stop, -⟩ := reads_run some asked objects (reads_relations unseen names docs)
  exact ⟨journal, stop⟩

/-- Without documents or relations nothing is done. -/
theorem run_idle (none : docs = [] ∨ names = []) :
    (run i owner registry (.list docs) (.list names)).advance w = (w, .done (.ok docs)) := by
  have idle : (!(Value.list names).truthy || docs.isEmpty) = true := by
    rcases none with rfl | rfl <;> simp [Value.truthy]
  unfold run
  dsimp only [Value.members?]
  rw [idle]
  rfl

/-- The values that a read with a single relation attaches. -/
theorem gives_of_run (unseen : ∀ (v : World) journal, registry { v with journal } = registry v)
    (objects : ∀ d ∈ docs, d.entries?.isSome = true) (some : docs ≠ []) {v : World}
    {single : List Value} (h : (run i owner registry (.list docs) (.list [name])).advance w =
      (v, .done (.ok single))) :
    ∃ values, Gives (w.store i) owner (registry w) docs name values ∧
      single = attach name docs values := by
  obtain ⟨journal, stop⟩ := run_eq unseen objects some (List.cons_ne_nil name [])
  rw [stop] at h
  exact populated_one.mp (Task.done.inj (Prod.mk.inj h).2)

/-- What relations that do not disturb each other give together. -/
theorem included_spec (unseen : ∀ (v : World) journal, registry { v with journal } = registry v)
    (objects : ∀ d ∈ docs, d.entries?.isSome = true)
    (alone : ∀ name ∈ names, ∃ v found,
      (run i owner registry (.list docs) (.list [name])).advance w = (v, .done (.ok found)))
    (undisturbed : owner.Undisturbed names) :
    ∃ journal found, (run i owner registry (.list docs) (.list names)).advance w =
        ({ w with journal }, .done (.ok found)) ∧
      (∀ d ∈ found, d.entries?.isSome = true) ∧
      (∀ name ∈ names, ∀ v single,
        (run i owner registry (.list docs) (.list [name])).advance w = (v, .done (.ok single)) →
        column name found = column name single) ∧
      ∀ key, (∀ name ∈ names, Key.identity key ≠ Key.identity name) →
        column key found = column key docs := by
  by_cases none : docs = [] ∨ names = []
  · refine ⟨w.journal, docs, run_idle none, objects, fun name hn v single stop => ?_,
      fun _ _ => rfl⟩
    rcases none with empty | empty
    · rw [run_idle (.inl empty)] at stop
      obtain rfl := Except.ok.inj (Task.done.inj (Prod.mk.inj stop).2)
      rfl
    · rw [empty] at hn
      cases hn
  · obtain ⟨some, asked⟩ := not_or.mp none
    have gives : ∀ name ∈ names, ∃ values,
        Gives (w.store i) owner (registry w) docs name values := by
      intro name hn
      obtain ⟨v, single, stop⟩ := alone name hn
      obtain ⟨values, own, -⟩ := gives_of_run unseen objects some stop
      exact ⟨values, own⟩
    obtain ⟨found, done, objects', each, frame⟩ :=
      populated_spec objects gives undisturbed objects rfl fun _ _ _ _ => rfl
    obtain ⟨journal, stop⟩ := run_eq (i := i) unseen objects some asked
    rw [done] at stop
    refine ⟨journal, found, stop, objects', fun name hn v single stop => ?_, frame⟩
    obtain ⟨values, own, rfl⟩ := gives_of_run unseen objects some stop
    rw [each name hn values own, column_attach objects own.length, if_pos rfl]

/-- Relations that are included together give each what it gives alone, as long as none that comes before
it sets the field that it reads; then neither their order nor how often they are named matters. -/
theorem included_as_alone {w : World} {i : Nat} {owner : Owner}
    {registry : World → Option Registry} {docs names : List Value}
    (unseen : ∀ (v : World) journal, registry { v with journal } = registry v)
    (objects : ∀ d ∈ docs, d.entries?.isSome = true)
    (alone : ∀ name ∈ names, ∃ v found,
      (run i owner registry (.list docs) (.list [name])).advance w = (v, .done (.ok found)))
    (undisturbed : owner.Undisturbed names) :
    ∃ journal found, (run i owner registry (.list docs) (.list names)).advance w =
        ({ w with journal }, .done (.ok found)) ∧
      (∀ name ∈ names, ∀ v single,
        (run i owner registry (.list docs) (.list [name])).advance w = (v, .done (.ok single)) →
        column name found = column name single) ∧
      (∀ key, (∀ name ∈ names, Key.identity key ≠ Key.identity name) →
        column key found = column key docs) ∧
      ∀ names', (∀ name, name ∈ names' ↔ name ∈ names) → owner.Undisturbed names' →
        ∃ journal found', (run i owner registry (.list docs) (.list names')).advance w =
            ({ w with journal }, .done (.ok found')) ∧
          ∀ key, column key found' = column key found := by
  obtain ⟨journal, found, stop, objects', each, frame⟩ :=
    included_spec unseen objects alone undisturbed
  refine ⟨journal, found, stop, each, frame, fun names' same undisturbed' => ?_⟩
  obtain ⟨journal', found', stop', objects'', each', frame'⟩ :=
    included_spec unseen objects (fun name hn => alone name ((same name).mp hn)) undisturbed'
  refine ⟨journal', found', stop', fun key => ?_⟩
  by_cases asked : ∃ name ∈ names, Key.identity key = Key.identity name
  · obtain ⟨name, hn, own⟩ := asked
    obtain ⟨v, single, single_stop⟩ := alone name hn
    rw [column_congr objects'' own, column_congr objects' own, each name hn v single single_stop,
      each' name ((same name).mpr hn) v single single_stop]
  · have apart : ∀ name ∈ names, Key.identity key ≠ Key.identity name :=
      fun name hn own => asked ⟨name, hn, own⟩
    rw [frame key apart, frame' key fun name hn => apart name ((same name).mp hn)]

/-! ## An example -/

/-- A world of one connected store, in which a user, a profile and a comment are stored. -/
def studio : World :=
  { source := ⟨0, 0, 0⟩
    stores := [{
      path := "data", indent := .int 2, connected := true
      memory := { collections := [
        ("users", [.object [("id", .string "u")]]),
        ("profiles", [.object [("id", .string "u")]]),
        ("comments", [.object [("id", .string "c"), ("article", .string "a")]])] } }] }

def userModel : Related := ⟨.string "User", .string "users"⟩

def profileModel : Related := ⟨.string "Profile", .string "profiles"⟩

def commentModel : Related := ⟨.string "Comment", .string "comments"⟩

def others : Registry := [userModel, profileModel, commentModel]

def toUser : Relation := ⟨.belongsTo, .string "User", .string "author", .null, .null⟩

def toProfile : Relation := ⟨.belongsTo, .string "Profile", .string "author", .null, .null⟩

def toComments : Relation := ⟨.hasMany, .string "Comment", .string "article", .null, .null⟩

/-- Articles with a user and a profile that one field of theirs names, and with comments. -/
def articles : Owner :=
  ⟨.string "Article", [("author", toUser), ("profile", toProfile), ("comments", toComments)]⟩

def article : Value := .object [("id", .string "a"), ("author", .string "u")]

def reading (names : List Value) : Op (List Value) :=
  run 0 articles (fun _ => some others) (.list [article]) (.list names)

theorem articles_resolve :
    articles.resolve (some others) (.string "author") = .ok (toUser, userModel) ∧
      articles.resolve (some others) (.string "profile") = .ok (toProfile, profileModel) ∧
      articles.resolve (some others) (.string "comments") = .ok (toComments, commentModel) := by
  refine ⟨?_, ?_, ?_⟩ <;>
    simp [Owner.resolve, Owner.relation?, Registry.find, articles, others, userModel, profileModel,
      commentModel, toUser, toProfile, toComments, isSame_string, Value.isHashable, Value.text?,
      Table.get?, bind, Except.bind, pure, Except.pure, List.lookup_cons]

/-- What relations find for the article one after the other. -/
theorem reading_eq (names : List Value) (asked : names ≠ []) {docs : List Value}
    (h : populated (studio.store 0) articles (some others) names [article] = .ok docs) :
    ∃ journal, (reading names).advance studio = ({ studio with journal }, .done (.ok docs)) :=
  h ▸ run_eq (fun _ _ => rfl) (by simp [article, Value.entries?]) (List.cons_ne_nil _ _) asked

/-- Behind the author the profile is looked for under what was found for the author, and is lost; before
the author, and alone, it is there. -/
theorem profile_lost :
    ∃ behind before alone v v' v'',
      (reading [.string "author", .string "profile"]).advance studio = (v, .done (.ok behind)) ∧
      (reading [.string "profile", .string "author"]).advance studio = (v', .done (.ok before)) ∧
      (reading [.string "profile"]).advance studio = (v'', .done (.ok alone)) ∧
      column (.string "profile") behind = [some .null] ∧
      column (.string "profile") before = [some (.object [("id", .string "u")])] ∧
      column (.string "profile") alone = [some (.object [("id", .string "u")])] := by
  obtain ⟨author, profile, -⟩ := articles_resolve
  obtain ⟨journal, stop⟩ := reading_eq [.string "author", .string "profile"] (List.cons_ne_nil _ _)
    ((populated_cons author rfl _).trans (populated_cons profile rfl []))
  obtain ⟨journal', stop'⟩ := reading_eq [.string "profile", .string "author"] (List.cons_ne_nil _ _)
    ((populated_cons profile rfl _).trans (populated_cons author rfl []))
  obtain ⟨journal'', stop''⟩ := reading_eq [.string "profile"] (List.cons_ne_nil _ _)
    (populated_cons profile rfl [])
  exact ⟨_, _, _, _, _, _, stop, stop', stop'', rfl, rfl, rfl⟩

theorem comments_loaded :
    loaded (studio.store 0) (.string "comments") toComments commentModel [article] =
      .ok [article.putEntry (.string "comments")
        (.list [.object [("id", .string "c"), ("article", .string "a")]])] := by
  have children : offspring (studio.store 0) toComments commentModel [.string "a"] =
      .ok [(.string "a", .object [("id", .string "c"), ("article", .string "a")])] := by rfl
  have given : handed (studio.store 0) toComments commentModel .list [.string "a"] =
      .ok [.list [.object [("id", .string "c"), ("article", .string "a")]]] := by
    simp [handed, children, grouped, group, isSame_string, Value.areHashable, Value.isHashable, bind,
      Except.bind]
  show (handed (studio.store 0) toComments commentModel .list [.string "a"] >>= fun values =>
    pure (attach (.string "comments") [article] values)) = _
  rw [given]
  rfl

/-- With the author last, and the comments asked for twice, all relations are there. -/
theorem author_last :
    let names : List Value :=
      [.string "profile", .string "comments", .string "author", .string "comments"]
    ∃ journal docs, (reading names).advance studio = ({ studio with journal }, .done (.ok docs)) ∧
      column (.string "profile") docs = [some (.object [("id", .string "u")])] ∧
      column (.string "author") docs = [some (.object [("id", .string "u")])] ∧
      column (.string "comments") docs =
        [some (.list [.object [("id", .string "c"), ("article", .string "a")]])] := by
  intro names
  obtain ⟨author, profile, comments⟩ := articles_resolve
  obtain ⟨journal, alone⟩ := reading_eq [.string "author"] (List.cons_ne_nil _ _)
    (populated_cons author rfl [])
  obtain ⟨journal', alone'⟩ := reading_eq [.string "profile"] (List.cons_ne_nil _ _)
    (populated_cons profile rfl [])
  obtain ⟨journal'', alone''⟩ := reading_eq [.string "comments"] (List.cons_ne_nil _ _)
    (populated_cons comments comments_loaded [])
  have undisturbed : articles.Undisturbed names := by
    have declared : articles.relation? (.string "author") = .ok (some toUser) ∧
        articles.relation? (.string "profile") = .ok (some toProfile) ∧
        articles.relation? (.string "comments") = .ok (some toComments) := ⟨rfl, rfl, rfl⟩
    simp [names, Owner.Undisturbed, declared, Relation.reads, toUser, toComments, Key.identity]
  have each_alone : ∀ name ∈ names, ∃ v found,
      (reading [name]).advance studio = (v, .done (.ok found)) := by
    simp only [names, List.mem_cons, List.not_mem_nil, or_false, forall_eq_or_imp, forall_eq]
    exact ⟨⟨_, _, alone'⟩, ⟨_, _, alone''⟩, ⟨_, _, alone⟩, ⟨_, _, alone''⟩⟩
  have objects : ∀ d ∈ [article], d.entries?.isSome = true := by simp [article, Value.entries?]
  obtain ⟨later, docs, stop, each, -⟩ := @included_as_alone studio 0 articles (fun _ => some others)
    [article] names (fun _ _ => rfl) objects each_alone undisturbed
  exact ⟨later, docs, stop, each _ (by simp [names]) _ _ alone', each _ (by simp [names]) _ _ alone,
    each _ (by simp [names]) _ _ alone''⟩

end Populate

end DocStore
