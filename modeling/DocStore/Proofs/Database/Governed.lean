import DocStore.Proofs.Database.Reconnect
import DocStore.Proofs.Database.Registry
import DocStore.Proofs.Database.Ruled
/-!
A database under a rule for unique fields: what holds of its stores, its files and its models wherever an
operation stops, and that registering a model, writing, ending the connection and the work of the writer
all keep it, side by side in any order.
-/

namespace DocStore

open Value (IsData)

/-- A model of a collection, for data, whose unique fields are those that the rule names. -/
def Model.Follows (unique : String → String → Prop) (m : Model) : Prop :=
  ∃ c, m.collection = .string c ∧ m.schema.Proper ∧ m.schema.Follows unique c

/-- A definition of data, whose unique fields are those that the rule names for its collection. -/
def Definition.Follows (unique : String → String → Prop) (d : Definition) : Prop :=
  ∃ c, d.collection = .string c ∧ ∀ schema, Schema.ofValue d.schema = .ok schema →
    schema.Proper ∧ ∀ field, schema.Unique field ↔ unique c field

namespace World

/-- Database `n` under a rule, with all that it is made of. Models for which `attached` holds have indexes
where they write. -/
structure Governed (unique : String → String → Prop) (n : Nat) (attached : Nat → Prop) (w : World) :
    Prop where
  known : n < w.databases.length
  stores : ∀ i, (w.store i).Ruled unique
  files : w.directory.Ruled unique
  models : ∀ k < w.models.length, (w.model k).Follows unique ∧ (w.model k).store < w.stores.length
  watched : ∀ k < w.models.length, attached k → ∀ c, (w.model k).collection = .string c →
    (w.store (w.model k).store).Watches c
  registry : ∀ e ∈ (w.database n).models, e.2 < w.models.length
  connection : ∀ i, (w.database n).store = some i → i < w.stores.length

/-- Stores and models stay, and so do documents in hand until they are let go. -/
structure Onward (w w' : World) : Prop where
  stores : w.stores.length ≤ w'.stores.length
  models : w.models.length ≤ w'.models.length
  sharing : w.sharing.Outlives w'.sharing

/-- A store that is not used yet: it is closed and has no indexes, and neither the database nor a model
is on it. -/
structure Loose (n i : Nat) (w : World) : Prop where
  here : i < w.stores.length
  closed : (w.store i).connected = false
  bare : (w.store i).indexes = []
  apart : (w.database n).store ≠ some i
  models : ∀ k < w.models.length, (w.model k).store ≠ i

/-- Stores that are not used yet stay so. -/
def Lets (n : Nat) (w w' : World) : Prop := ∀ i, Loose n i w → Loose n i w'

variable {unique : String → String → Prop} {n i j k : Nat} {attached : Nat → Prop} {w w' w'' : World}
  {s : Store}

theorem Onward.refl (w : World) : Onward w w := ⟨Nat.le_refl _, Nat.le_refl _, .refl _⟩

theorem Onward.trans (h : Onward w w') (h' : Onward w' w'') : Onward w w'' :=
  ⟨Nat.le_trans h.stores h'.stores, Nat.le_trans h.models h'.models, h.sharing.trans h'.sharing⟩

theorem Lets.refl (w : World) : Lets n w w := fun _ loose => loose

theorem Lets.trans (h : Lets n w w') (h' : Lets n w' w'') : Lets n w w'' :=
  fun i loose => h' i (h i loose)

/-! ## Changes -/

theorem store_set (here : i < w.stores.length) (stores : w'.stores = w.stores.set i s) (j : Nat) :
    w'.store j = if j = i then s else w.store j := by
  by_cases own : j = i
  · rw [if_pos own, own]
    exact store_of_stores here stores
  · rw [if_neg own]
    simp [store, stores, Ne.symm own]

/-- The change of a store. -/
structure Puts (i : Nat) (w : World) (s : Store) (w' : World) : Prop where
  here : i < w.stores.length
  stores : w'.stores = w.stores.set i s
  models : w'.models = w.models
  databases : w'.databases = w.databases

namespace Puts

theorem model (h : Puts i w s w') (k : Nat) : w'.model k = w.model k := by
  rw [World.model, World.model, h.models]

theorem database (h : Puts i w s w') (k : Nat) : w'.database k = w.database k := by
  rw [World.database, World.database, h.databases]

theorem store (h : Puts i w s w') (j : Nat) : w'.store j = if j = i then s else w.store j :=
  store_set h.here h.stores j

theorem governed (h : Puts i w s w') (before : w.Governed unique n attached) (ruled : s.Ruled unique)
    (files : w'.directory.Ruled unique)
    (watched : ∀ k < w.models.length, attached k → (w.model k).store = i →
      ∀ c, (w.store i).Watches c → s.Watches c) : w'.Governed unique n attached := by
  refine ⟨h.databases ▸ before.known, fun j => ?_, files, fun k room => ?_, fun k room open' c named => ?_,
    ?_, fun j connected => ?_⟩
  · rw [h.store]
    split
    · exact ruled
    · exact before.stores j
  · rw [h.model, h.stores, List.length_set]
    exact before.models k (h.models ▸ room)
  · rw [h.models] at room
    rw [h.model] at named ⊢
    rw [h.store]
    split
    · next own => exact watched k room open' own c (own ▸ before.watched k room open' c named)
    · exact before.watched k room open' c named
  · rw [h.database, h.models]
    exact before.registry
  · rw [h.stores, List.length_set]
    exact before.connection j (h.database n ▸ connected)

/-- Only the store that changes can come to be used. -/
theorem loose (h : Puts i w s w') (before : Loose n j w)
    (own : j = i → s.connected = false ∧ s.indexes = []) : Loose n j w' := by
  have store := h.store j
  refine ⟨?_, ?_, ?_, ?_, fun k room => ?_⟩
  · rw [h.stores, List.length_set]
    exact before.here
  · rw [store]
    split
    · next same => exact (own same).1
    · exact before.closed
  · rw [store]
    split
    · next same => exact (own same).2
    · exact before.bare
  · rw [h.database]
    exact before.apart
  · rw [h.model]
    exact before.models k (h.models ▸ room)

end Puts

/-- Nothing changes that a rule is about. -/
structure Still (w w' : World) : Prop where
  stores : w'.stores = w.stores
  models : w'.models = w.models
  databases : w'.databases = w.databases
  directory : w'.directory = w.directory

namespace Still

theorem governed (h : Still w w') (before : w.Governed unique n attached) :
    w'.Governed unique n attached := by
  obtain ⟨_, _, _, _, _, _, _, _⟩ := w'
  obtain ⟨rfl, rfl, rfl, rfl⟩ := h
  exact ⟨before.known, before.stores, before.files, before.models, before.watched, before.registry,
    before.connection⟩

theorem lets (h : Still w w') : Lets n w w' := by
  obtain ⟨_, _, _, _, _, _, _, _⟩ := w'
  obtain ⟨rfl, rfl, rfl, rfl⟩ := h
  exact fun i loose => ⟨loose.here, loose.closed, loose.bare, loose.apart, loose.models⟩

theorem onward (h : Still w w') (sharing : w.sharing.Outlives w'.sharing) : Onward w w' :=
  ⟨Nat.le_of_eq (by rw [h.stores]), Nat.le_of_eq (by rw [h.models]), sharing⟩

end Still

theorem Hushed.still (h : w.Hushed w') : Still w w' :=
  ⟨h.agrees.stores, h.spares.models, h.spares.databases, h.agrees.directory⟩

variable {m : Model} {d : Database}

theorem model_addModel_self (w : World) (m : Model) : (w.addModel m).1.model w.models.length = m := by
  simp [model, addModel]

/-- A model is added that is not attached yet. -/
theorem Governed.addModel (h : w.Governed unique n fun _ => True) (follows : m.Follows unique)
    (here : m.store < w.stores.length) :
    (w.addModel m).1.Governed unique n (· ≠ w.models.length) := by
  have length : (w.addModel m).1.models.length = w.models.length + 1 := by simp [World.addModel]
  refine ⟨h.known, h.stores, h.files, fun k room => ?_, fun k room other c named => ?_, fun e there => ?_,
    h.connection⟩
  · by_cases own : k = w.models.length
    · rw [own, model_addModel_self]
      exact ⟨follows, here⟩
    · rw [model_append w m (by omega)]
      exact h.models k (by omega)
  · have old : k < w.models.length := by omega
    rw [model_append w m old] at named ⊢
    exact h.watched k old trivial c named
  · rw [length]
    exact Nat.lt_succ_of_lt (h.registry e there)

theorem Loose.addModel (h : Loose n j w) (other : m.store ≠ j) : Loose n j (w.addModel m).1 := by
  refine ⟨h.here, h.closed, h.bare, h.apart, fun k room => ?_⟩
  by_cases own : k = w.models.length
  · rw [own, model_addModel_self]
    exact other
  · have old : k < w.models.length := by
      have length : (w.addModel m).1.models.length = w.models.length + 1 := by simp [World.addModel]
      omega
    rw [model_append w m old]
    exact h.models k old

theorem length_setModel (w : World) (k : Nat) (m : Model) :
    (w.setModel k m).models.length = w.models.length := by
  simp [setModel]

/-- A model that is put on a store is not attached there yet. -/
theorem Governed.moveModel (h : w.Governed unique n fun _ => True) (room : k < w.models.length)
    (here : i < w.stores.length) :
    (w.setModel k { w.model k with store := i }).Governed unique n (· ≠ k) := by
  refine ⟨h.known, h.stores, h.files, fun l there => ?_, fun l there other c named => ?_, fun e there => ?_,
    h.connection⟩
  · rw [length_setModel] at there
    rw [model_setModel room]
    split
    · exact ⟨(h.models k room).1, here⟩
    · exact h.models l there
  · rw [length_setModel] at there
    rw [model_setModel room, if_neg other] at named ⊢
    exact h.watched l there trivial c named
  · rw [length_setModel]
    exact h.registry e there

theorem Loose.moveModel (h : Loose n j w) (room : k < w.models.length) (other : i ≠ j) :
    Loose n j (w.setModel k { w.model k with store := i }) := by
  refine ⟨h.here, h.closed, h.bare, h.apart, fun l there => ?_⟩
  rw [length_setModel] at there
  rw [model_setModel room]
  split
  · exact other
  · exact h.models l there

theorem Governed.attach (h : w.Governed unique n (· ≠ k))
    (watches : ∀ c, (w.model k).collection = .string c → (w.store (w.model k).store).Watches c) :
    w.Governed unique n fun _ => True := by
  refine ⟨h.known, h.stores, h.files, h.models, fun l room _ c named => ?_, h.registry, h.connection⟩
  by_cases own : l = k
  · subst own
    exact watches c named
  · exact h.watched l room own c named

theorem Governed.setDatabase (h : w.Governed unique n attached)
    (registry : ∀ e ∈ d.models, e.2 < w.models.length)
    (connection : ∀ i, d.store = some i → i < w.stores.length) :
    (w.setDatabase n d).Governed unique n attached := by
  refine ⟨by simpa [World.setDatabase] using h.known, h.stores, h.files, h.models, h.watched, ?_, ?_⟩
  · rw [database_setDatabase h.known]
    exact registry
  · rw [database_setDatabase h.known]
    exact connection

theorem Loose.setDatabase (h : Loose n i w) (known : n < w.databases.length) (apart : d.store ≠ some i) :
    Loose n i (w.setDatabase n d) :=
  ⟨h.here, h.closed, h.bare, by rwa [database_setDatabase known], h.models⟩

theorem store_append (w : World) (s : Store) {l : Nat} (hl : l < w.stores.length) :
    (w.addStore s).1.store l = w.store l := by
  simp [World.store, World.addStore, List.getElem?_append_left hl]

theorem store_addStore_self (w : World) (s : Store) : (w.addStore s).1.store w.stores.length = s := by
  simp [store, addStore]

theorem Loose.addStore (h : Loose n j w) : Loose n j (w.addStore s).1 := by
  have store := store_append w s h.here
  refine ⟨?_, store ▸ h.closed, store ▸ h.bare, h.apart, h.models⟩
  simp only [World.addStore, List.length_append]
  exact Nat.lt_add_right _ h.here

/-- A store is added that is not used yet. -/
theorem Governed.addStore (h : w.Governed unique n fun _ => True) (ruled : s.Ruled unique)
    (closed : s.connected = false) (bare : s.indexes = []) :
    (w.addStore s).1.Governed unique n (fun _ => True) ∧ Loose n w.stores.length (w.addStore s).1 := by
  have length : (w.addStore s).1.stores.length = w.stores.length + 1 := by simp [World.addStore]
  refine ⟨⟨h.known, fun j => ?_, h.files, fun k room => ?_, fun k room _ c named => ?_, h.registry,
    fun j connected => ?_⟩, ⟨?_, ?_, ?_, fun connected => ?_, fun k room same => ?_⟩⟩
  · by_cases old : j < w.stores.length
    · rw [store_append w s old]
      exact h.stores j
    · by_cases own : j = w.stores.length
      · rw [own, store_addStore_self]
        exact ruled
      · have none : (w.addStore s).1.store j = w.store j := by
          simp only [store, World.addStore, List.getD_eq_getElem?_getD]
          rw [List.getElem?_eq_none (by simp; omega), List.getElem?_eq_none (by omega)]
        rw [none]
        exact h.stores j
  · obtain ⟨follows, here⟩ := h.models k room
    exact ⟨follows, length ▸ Nat.lt_succ_of_lt here⟩
  · show ((w.addStore s).1.store (w.model k).store).Watches c
    rw [store_append w s (h.models k room).2]
    exact h.watched k room trivial c named
  · exact length ▸ Nat.lt_succ_of_lt (h.connection j connected)
  · exact length ▸ Nat.lt_succ_self _
  · rw [store_addStore_self]
    exact closed
  · rw [store_addStore_self]
    exact bare
  · exact absurd (h.connection _ connected) (Nat.lt_irrefl _)
  · have here : (w.model k).store < w.stores.length := (h.models k room).2
    exact absurd (same ▸ here) (Nat.lt_irrefl _)

end World

namespace Database

open World (Governed Onward Loose Lets Puts Still)
open Law (keeps_bind keeps_pure keeps_raise keeps_ofResult keeps_get keeps_each keeps_await)

/-! ## Laws -/

def governing (unique : String → String → Prop) (n : Nat) : Law World where
  holds := Governed unique n fun _ => True
  leads w w' := w.Onward w' ∧ Lets n w w'
  allows := Onward
  refl w := ⟨.refl w, .refl w⟩
  trans h h' := ⟨h.1.trans h'.1, h.2.trans h'.2⟩

/-- The law for what makes a connection: it takes store `i` into use, which nobody else does. -/
def connecting (unique : String → String → Prop) (n i : Nat) : Law World where
  holds w := Governed unique n (fun _ => True) w ∧ i < w.stores.length
  leads w w' := w.Onward w' ∧ ∀ j, j ≠ i → Loose n j w → Loose n j w'
  allows w w' := w.Onward w' ∧ (Loose n i w → Loose n i w')
  refl w := ⟨.refl w, fun _ _ loose => loose⟩
  trans h h' := ⟨h.1.trans h'.1, fun j other loose => h'.2 j other (h.2 j other loose)⟩

variable {unique : String → String → Prop} {n i k : Nat} {c : String} {α : Type} {t : Op α}
  {w w' start : World} {s : Store}

theorem connecting_stretch (here : i < w.stores.length) (stretch : (governing unique n).Stretch w w') :
    (connecting unique n i).Stretch w w' :=
  ⟨⟨stretch.1, Nat.lt_of_lt_of_le here stretch.2.1.stores⟩, stretch.2.1, fun j _ => stretch.2.2 j⟩

/-- What keeps the law of operations keeps that for what makes a connection. -/
theorem keeps_connecting (h : (governing unique n).Keeps t) : (connecting unique n i).Keeps t :=
  Law.Keeps.weaken (L := governing unique n) (fun _ holds => holds.1)
    (fun _ _ holds => connecting_stretch holds.2) (fun _ _ allows => allows.1) h

/-! ## What each change keeps -/

theorem still_stretch (holds : w.Governed unique n fun _ => True) (still : Still w w')
    (sharing : w.sharing.Outlives w'.sharing) : (governing unique n).Stretch w w' :=
  ⟨still.governed holds, still.onward sharing, still.lets⟩

theorem hushed_stretch (holds : w.Governed unique n fun _ => True) (hushed : w.Hushed w') :
    (governing unique n).Stretch w w' := still_stretch holds hushed.still hushed.spares.sharing

theorem puts_stretch (puts : Puts i w s w') (holds : w.Governed unique n fun _ => True)
    (sharing : w.sharing.Outlives w'.sharing) (ruled : s.Ruled unique) (files : w'.directory.Ruled unique)
    (watches : ∀ c, (w.store i).Watches c → s.Watches c)
    (loose : Loose n i w → s.connected = false ∧ s.indexes = []) :
    (governing unique n).Stretch w w' := by
  refine ⟨puts.governed holds ruled files fun _ _ _ _ => watches, ⟨?_, ?_, sharing⟩, fun j before => ?_⟩
  · rw [puts.stores, List.length_set]
  · rw [puts.models]
  · exact puts.loose before fun own => loose (own ▸ before)

theorem keeps_still {f : World → World} (h : ∀ w : World, Still w (f w))
    (sharing : ∀ w : World, (f w).sharing = w.sharing) :
    (governing unique n).Keeps (Task.modify f : Op Unit) :=
  Law.keeps_modify fun w holds => still_stretch holds (h w) (sharing w ▸ .refl _)

theorem keeps_log (level : Level) (component event : String) (fields : Document) :
    (governing unique n).Keeps (Op.log level component event fields) :=
  keeps_still (fun _ => ⟨rfl, rfl, rfl, rfl⟩) fun _ => rfl

theorem keeps_store (i : Nat) : (governing unique n).Keeps (Op.store i) :=
  keeps_bind keeps_get fun _ => keeps_pure _

/-- A change of a store that keeps the rule and takes no store into use. -/
theorem keeps_modifyStore (i : Nat) {f : Store → Store}
    (ruled : ∀ s : Store, s.Ruled unique → (f s).Ruled unique)
    (watches : ∀ (s : Store) (c : String), s.Watches c → (f s).Watches c)
    (loose : ∀ s : Store, s.connected = false → s.indexes = [] →
      (f s).connected = false ∧ (f s).indexes = []) :
    (governing unique n).Keeps (Op.modifyStore i f) := by
  refine Law.keeps_modify fun w holds => ?_
  by_cases here : i < w.stores.length
  · refine puts_stretch ⟨here, rfl, rfl, rfl⟩ holds (.refl _) (ruled _ (holds.stores i)) holds.files
      (watches _) fun bare => loose _ bare.closed bare.bare
  · have same : (w.setStore i (f (w.store i))).stores = w.stores := by
      simp [World.setStore, List.set_eq_of_length_le (Nat.not_lt.mp here)]
    exact still_stretch holds ⟨same, rfl, rfl, rfl⟩ (.refl _)

theorem keeps_line (i : Nat) (line : Option Nat) :
    (governing unique n).Keeps (Op.modifyStore i fun s => { s with line }) :=
  keeps_modifyStore i (fun s h => ⟨h.indent, h.texts, h.docs, fun c connected indexed => by
      obtain ⟨schema, follows, guarded⟩ := h.guarded c connected indexed
      exact ⟨schema, follows, guarded.alike ⟨rfl, rfl, rfl, rfl⟩⟩⟩)
    (fun s c h => h) fun s closed bare => ⟨closed, bare⟩

theorem keeps_ask (i : Nat) (kind : WriteKind) : (governing unique n).Keeps (Op.ask i kind) := by
  refine keeps_bind (keeps_store i) fun s => ?_
  split
  · exact keeps_await _
  · refine keeps_bind keeps_get fun w => ?_
    refine keeps_bind (keeps_still (fun _ => ⟨rfl, rfl, rfl, rfl⟩) fun _ => rfl) fun _ => ?_
    exact keeps_bind (keeps_line i _) fun _ => keeps_await _

/-! ## Writing -/

/-- What an operation did at once is a change of its store. -/
theorem puts_of_turns (here : i < w.stores.length) (turns : w.Turns i s w') :
    ∃ line, Puts i w { s with line } w' := by
  obtain ⟨line, stores⟩ := turns.stores
  exact ⟨line, here, stores, turns.spares.models, turns.spares.databases⟩

theorem ruled_line (ruled : s.Ruled unique) (line : Option Nat) :
    Store.Ruled unique { s with line } :=
  ruled.alike (fun _ => ⟨rfl, rfl, rfl, rfl⟩) rfl ruled.texts

/-- An operation on the store of a model that keeps the rule there. -/
theorem turns_stretch (holds : w.Governed unique n fun _ => True) (room : k < w.models.length)
    (turns : w.Turns (w.model k).store s w') (ruled : s.Ruled unique)
    (watches : ∀ c, (w.store (w.model k).store).Watches c → s.Watches c) :
    (governing unique n).Stretch w w' := by
  obtain ⟨line, puts⟩ := puts_of_turns (holds.models k room).2 turns
  refine puts_stretch puts holds turns.spares.sharing (ruled_line ruled line) ?_ (fun c old => ?_)
    fun loose => absurd rfl (loose.models k room)
  · rw [turns.directory]
    exact holds.files
  · exact (watches c old).alike ⟨rfl, rfl, rfl, rfl⟩

/-- A write of data by a model. -/
theorem stores_stretch (op : Operation) (holds : w.Governed unique n fun _ => True)
    (room : k < w.models.length) (named : (w.model k).collection = .string c) (stores : op.Stores c)
    (source : Source)
    (turns : World.Turns (w.model k).store { w with source } (op.effect (w.store (w.model k).store)).1 w') :
    (governing unique n).Stretch w w' := by
  obtain ⟨ruled, watches⟩ := Operation.ruled_stores (holds.stores _) (holds.watched k room trivial c named)
    stores
  have still : Still w { w with source } := ⟨rfl, rfl, rfl, rfl⟩
  have after := turns_stretch (w := { w with source }) (still.governed holds) room turns ruled watches
  exact ⟨after.1, (still.onward (.refl _)).trans after.2.1, still.lets.trans after.2.2⟩

/-- The law of a database under a rule in which model `k` was made. -/
abbrev governingMade (unique : String → String → Prop) (n k : Nat) : Law World :=
  (governing unique n).also fun w => k < w.models.length

/-- Models that were made stay. -/
theorem made_stays (w w' : World) (room : k < w.models.length) (leads : (governing unique n).leads w w') :
    k < w'.models.length := Nat.lt_of_lt_of_le room leads.1.models

theorem keepsFrom_of_made (h : (governingMade unique n k).KeepsFrom t start w) :
    (governing unique n).KeepsFrom t start w :=
  h.alone fun _ _ room allows => Nat.lt_of_lt_of_le room allows.models

theorem hushed_made {w w' : World} (holds : (governingMade unique n k).holds w) (hushed : w.Hushed w') :
    (governingMade unique n k).Stretch w w' := (hushed_stretch holds.1 hushed).also made_stays holds.2

/-- A model that was made writes data under the rule. -/
theorem made_admits (unique : String → String → Prop) (n k : Nat) :
    Model.Admits (governingMade unique n k) k IsData IsData where
  here holds := (holds.1.models k holds.2).2
  named holds := by
    obtain ⟨⟨c, named, -⟩, -⟩ := holds.1.models k holds.2
    exact ⟨c, named⟩
  leads h := h.1.sharing
  allows h := h.sharing
  hushed := hushed_made
  creates := by
    rintro w w' c data doc ⟨holds, room⟩ named given valid turns
    obtain ⟨⟨c', named', proper, -⟩, -⟩ := holds.models k room
    have stored : ((w.model k).made doc w.source).IsData :=
      Value.isData_merge (Schema.validate_data proper given valid) (by simp [Value.isData_string])
    exact (stores_stretch (.insert c _) holds room named ⟨rfl, stored⟩ _ turns).also made_stays room
  updates := by
    rintro w w' c id data changes ⟨holds, room⟩ named given valid turns
    obtain ⟨⟨c', named', proper, -⟩, -⟩ := holds.models k room
    have dropped := Value.isData_drop (Schema.validate_data proper given valid) "id"
    have stored : IsData (.object ((w.model k).revision changes w.source.now.1)) := by
      unfold Model.revision
      split
      · exact Value.isData_put dropped _ (Value.isData_string _)
      · exact dropped
    exact (stores_stretch (.update c id _) holds room named ⟨rfl, stored⟩ _ turns).also made_stays room
  deletes := by
    rintro w w' c id ⟨holds, room⟩ named turns
    exact (stores_stretch (.delete c id) holds room named rfl w.source turns).also made_stays room
  deletesMany := by
    rintro w w' c filter ⟨holds, room⟩ named turns
    exact (stores_stretch (.deleteMany c filter) holds room named rfl w.source turns).also made_stays room

/-- A writing operation of a model by whoever has the model; only one that was made can be had. -/
def writing (k : Nat) (write : Model.Write) : Op Unit := do
  if k < (← Task.get).models.length then write.task k else Task.raise (.fault .noSuchMember)

theorem keeps_writing (k : Nat) {write : Model.Write} (data : write.Gives IsData IsData) :
    (governing unique n).Keeps (writing k write) := by
  intro w holds
  show (governing unique n).KeepsFrom
    (if k < w.models.length then write.task k else Task.raise (.fault .noSuchMember)) w w
  by_cases room : k < w.models.length
  · rw [if_pos room]
    exact keepsFrom_of_made ((made_admits unique n k).keeps_task ⟨.null, .null⟩ data w ⟨holds, room⟩)
  · rw [if_neg room]
    exact ⟨holds, (governing unique n).refl w⟩

/-! ## Registering a model -/

/-- The collection of a model is opened: the model is attached to its store. -/
theorem keepsFrom_openModel {L : Law World} (governed : w.Governed unique n (· ≠ k))
    (room : k < w.models.length)
    (stretch : ∀ w', w'.Governed unique n (fun _ => True) → w.Onward w' → Lets n w w' → L.Stretch start w')
    (hushed : ∀ v v', L.holds v → v.Hushed v' → L.Stretch v v') : L.KeepsFrom (openModel k) start w := by
  obtain ⟨⟨c, named, -, follows⟩, here⟩ := governed.models k room
  have has : Op.Has (w.model k).store (openModel k) w
      ((Operation.create c (w.model k).schema (some k)).effect (w.store (w.model k).store)) := by
    show Op.Has _ (Store.createCollection _ (w.model k).collection _ _ >>= _) w _
    rw [named]
    exact Op.has_bind_quiet (Op.has_create c _ _ here) fun _ => Op.quiet_log _ _ _ _
  obtain ⟨ruled, own, watches⟩ := Operation.ruled_create (some k) (governed.stores _) follows
  refine Op.upholds_of_has has (spares_openModel k) (fun w' turns => ?_) hushed
  obtain ⟨line, puts⟩ := puts_of_turns here turns
  have kept (c : String) (old : (w.store (w.model k).store).Watches c) := watches c old
  have after := puts.governed governed (ruled_line ruled line) (turns.directory ▸ governed.files)
    fun _ _ _ _ c old => (kept c old).alike ⟨rfl, rfl, rfl, rfl⟩
  refine stretch w' (after.attach fun c' named' => ?_) ⟨?_, ?_, turns.spares.sharing⟩ fun j loose => ?_
  · rw [puts.model] at named' ⊢
    rw [puts.store, if_pos rfl]
    obtain rfl : c = c' := Value.string.inj (named.symm.trans named')
    exact own.alike ⟨rfl, rfl, rfl, rfl⟩
  · rw [puts.stores, List.length_set]
  · rw [puts.models]
  · exact puts.loose loose fun same => absurd same.symm (loose.models k room)

theorem follows_toModel {d : Definition} (follows : d.Follows unique) {m : Model}
    (made : d.toModel i n = .ok m) : m.Follows unique ∧ m.store = i := by
  obtain ⟨c, named, fields⟩ := follows
  rcases d.toModel_on n with ⟨e, refused⟩ | ⟨m', same, own, -, schema, -⟩
  · rw [refused] at made
    cases made
  · rw [same] at made
    cases made
    obtain ⟨proper, fields⟩ := fields _ schema
    exact ⟨⟨c, own.trans named, proper, proper.distinct, fields⟩, rfl⟩

theorem keeps_joins (name : Value) (k : Nat) :
    (governingMade unique n k).Keeps (joins n name k) := by
  refine keeps_bind (Law.keeps_modify fun w ⟨holds, room⟩ => ?_) fun _ => keeps_bind keeps_get fun w => ?_
  · refine ⟨⟨holds.setDatabase (fun e there => ?_) holds.connection, room⟩,
      ⟨Nat.le_refl _, Nat.le_refl _, .refl _⟩, fun j loose => loose.setDatabase holds.known loose.apart⟩
    rcases Catalog.mem_put there with old | same
    · exact holds.registry e old
    · exact same ▸ room
  · exact keeps_bind ((keeps_log _ _ _ _).also made_stays) fun _ => keeps_pure _

/-- A model that follows the rule is opened and gets its name. -/
theorem keepsFrom_opening {m : Model} {name : Value} (holds : w.Governed unique n fun _ => True)
    (follows : m.Follows unique) (connected : (w.database n).store = some m.store) :
    (governing unique n).KeepsFrom
      (openModel w.models.length >>= fun _ => joins n name w.models.length) w (w.addModel m).1 := by
  have governed := holds.addModel follows (holds.connection _ connected)
  have room : w.models.length < (w.addModel m).1.models.length := by simp [World.addModel]
  have onward : w.Onward (w.addModel m).1 := ⟨Nat.le_refl _, Nat.le_of_lt room, .refl _⟩
  have lets : Lets n w (w.addModel m).1 := fun j loose =>
    loose.addModel fun same => loose.apart (connected.trans (congrArg some same))
  have opened : (governingMade unique n w.models.length).KeepsFrom (openModel w.models.length) w
      (w.addModel m).1 := by
    refine keepsFrom_openModel governed room (fun v governed onward' lets' => ?_) fun _ _ => hushed_made
    exact ⟨⟨governed, Nat.lt_of_lt_of_le room onward'.models⟩, onward.trans onward', lets.trans lets'⟩
  exact keepsFrom_of_made (opened.bind fun _ => keeps_joins name w.models.length)

/-- Registering a model keeps the rule that its definition follows. -/
theorem keeps_model {d : Definition} (follows : d.Follows unique) :
    (governing unique n).Keeps (model n d) := by
  intro w holds
  have stops {r : Result Nat} (stop : (model n d).advance w = (w, .done r)) :
      (governing unique n).KeepsFrom (model n d) w w := by
    rw [Law.keepsFrom_advance, stop]
    exact ⟨holds, (governing unique n).refl w⟩
  cases named : d.name.isHashable with
  | false =>
    refine stops (r := .error (.fault .wrongType)) ?_
    simp only [model, getModel, Storage.checkName, named]
    rfl
  | true =>
    have looked : (getModel n d.name).advance w = (w, .done (.ok (registered n d.name w))) :=
      advance_getModel named w
    cases found : registered n d.name w with
    | some m =>
      rw [found] at looked
      refine stops (r := .ok m) ?_
      rw [model, Task.advance_bind_done looked]
      rfl
    | none =>
      rw [found] at looked
      cases connected : (w.database n).store with
      | none =>
        refine stops (r := .error .notConnected) ?_
        rw [model, Task.advance_bind_done looked]
        simp only [storeOf, get, Task.get, bind, Task.bind, Task.advance, pure, connected, Task.raise]
      | some i =>
        have goes := advance_model connected looked
        cases made : d.toModel i n with
        | error e =>
          rw [made] at goes
          exact stops goes
        | ok m =>
          rw [made] at goes
          obtain ⟨follows, own⟩ := follows_toModel follows made
          rw [Law.keepsFrom_advance, goes, ← Law.keepsFrom_advance]
          exact keepsFrom_opening holds follows (own ▸ connected)

end Database

end DocStore
