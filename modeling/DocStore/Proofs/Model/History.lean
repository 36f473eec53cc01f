import DocStore.Proofs.Model.Writing
import DocStore.Proofs.Store.Identity
import Mathlib.Logic.Relation
/-!
The history of the documents of a model, whatever writing operations of the model are called side by
side: they are created, updated and removed one change after the other, each with a reading of the clock
and a new id where there is need of them.
-/

namespace DocStore

/-! ## Documents after what is done at once -/

namespace Effect

variable {c : String} {s : Store} {doc id changes filter : Value}

theorem documents_given {α : Type} {P : List Value → Prop} {r : Result α} {next : α → Effect}
    (same : P (s.memory.documents (.string c)))
    (goesOn : ∀ a, r = .ok a → P ((next a).1.memory.documents (.string c))) :
    P ((given s r next).1.memory.documents (.string c)) := by
  cases r with
  | error e => exact same
  | ok a => exact goesOn a rfl

theorem documents_reindexed {P : List Value → Prop} {change : Indexes → Indexes × Result Unit}
    {next : Store → Effect} (same : P (s.memory.documents (.string c)))
    (goesOn : ∀ indexes, P ((next { s with indexes }).1.memory.documents (.string c))) :
    P ((reindexed s change next).1.memory.documents (.string c)) := by
  unfold reindexed
  split
  · exact goesOn _
  · exact same

variable {P : List Value → Prop} (same : P (s.memory.documents (.string c)))

include same

theorem documents_insert (added : P (s.memory.documents (.string c) ++ [doc])) :
    P ((insert c doc s).1.memory.documents (.string c)) := by
  refine documents_given same fun docs held => documents_given same fun known _ => ?_
  obtain rfl := documents_of_documentsOf held
  cases known with
  | false => exact same
  | true =>
    refine documents_reindexed same fun indexes => ?_
    rw [committed_documents]
    exact added

theorem documents_update (changed : ∀ n new, ∀ hn : n < (s.memory.documents (.string c)).length,
      Store.merged (s.memory.documents (.string c))[n] changes = .ok new →
      P ((s.memory.documents (.string c)).set n new)) :
    P ((update c id changes s).1.memory.documents (.string c)) := by
  refine documents_given same fun docs held => documents_given same fun place found => ?_
  obtain rfl := documents_of_documentsOf held
  cases place with
  | none => exact same
  | some n =>
    obtain ⟨-, hn, -⟩ := Store.position_spec found
    have hn : n < (s.memory.documents (.string c)).length := hn
    have at_n : (s.memory.documents (.string c)).getD n .null =
        (s.memory.documents (.string c))[n] := by simp [hn]
    dsimp only
    rw [at_n]
    refine documents_given same fun new merged => documents_reindexed same fun indexes => ?_
    rw [committed_documents]
    exact changed n new hn merged

theorem documents_delete
    (removed : ∀ left : List Value, left.Sublist (s.memory.documents (.string c)) → P left) :
    P ((delete c id s).1.memory.documents (.string c)) := by
  refine documents_given same fun docs held => documents_given same fun place _ => ?_
  obtain rfl := documents_of_documentsOf held
  cases place with
  | none => exact same
  | some n =>
    refine documents_reindexed same fun indexes => ?_
    rw [committed_documents]
    exact removed _ (List.eraseIdx_sublist _ n)

theorem documents_deleteMany
    (removed : ∀ left : List Value, left.Sublist (s.memory.documents (.string c)) → P left) :
    P ((deleteMany c filter s).1.memory.documents (.string c)) := by
  refine documents_given same fun docs held => documents_given same fun found _ => ?_
  obtain rfl := documents_of_documentsOf held
  split
  · exact same
  · refine documents_reindexed same fun indexes => ?_
    refine documents_given same fun ids _ => documents_given same fun left kept => ?_
    rw [committed_documents]
    exact removed left (Store.without_sublist kept)

end Effect

/-! ## Writing operations -/

namespace Model

/-- A schema that leaves alone the fields that are set in every document. -/
def LeavesOwn (schema : Schema) : Prop := ∀ name ∈ ownFields, name ∉ schema.map (·.1)

def documents (m : Model) (w : World) : List Value :=
  (w.store m.store).memory.documents m.collection

/-- What happens to the documents of a model and to the source of its times and ids. -/
inductive Change (m : Model) (new changed : Value → Prop) (clock : Source → Source → Prop) :
    List Value × Source → List Value × Source → Prop
  /-- A document is made of what is given, with the next id and the time that the clock has. -/
  | creates {docs : List Value} {source : Source} {data : Value} {doc : Document} (given : new data)
      (valid : m.schema.validate .create data = .ok doc) :
      Change m new changed clock (docs, source) (docs ++ [m.made doc source], m.drawn source)
  /-- What is given is put over a document. -/
  | updates {docs : List Value} {source : Source} {data doc : Value} {changes : Document} {n : Nat}
      (given : changed data) (valid : m.schema.validate .update data = .ok changes)
      (hn : n < docs.length)
      (merged : Store.merged docs[n] (.object (m.revision changes source.now.1)) = .ok doc) :
      Change m new changed clock (docs, source) (docs.set n doc, m.timed source)
  | removes {docs left : List Value} {source : Source} (kept : left.Sublist docs) :
      Change m new changed clock (docs, source) (left, source)
  /-- An operation that is refused has read the clock. -/
  | reads {docs : List Value} {source : Source} :
      Change m new changed clock (docs, source) (docs, source.now.2)
  /-- An operation that is refused has taken an id. -/
  | numbers {docs : List Value} {source : Source} :
      Change m new changed clock (docs, source) (docs, (source.newId m.idStart.display).2)
  | aside {docs : List Value} {source source' : Source} (later : clock source source') :
      Change m new changed clock (docs, source) (docs, source')

/-! ## The law of writing -/

/-- The law of a model: its documents have a history, and documents in hand stay until they are let go. -/
def writing (n : Nat) (m : Model) (new changed : Value → Prop) (clock : Source → Source → Prop) :
    Law World where
  holds w := w.model n = m ∧ m.store < w.stores.length
  leads w w' := Relation.ReflTransGen (Change m new changed clock) (m.documents w, w.source)
    (m.documents w', w'.source) ∧ w.sharing.Outlives w'.sharing
  allows w w' := Relation.ReflTransGen (Change m new changed clock) (m.documents w, w.source)
    (m.documents w', w'.source) ∧ w.sharing.Outlives w'.sharing
  refl _ := ⟨.refl, .refl _⟩
  trans h h' := ⟨h.1.trans h'.1, h.2.trans h'.2⟩

variable {n : Nat} {m : Model} {new changed : Value → Prop} {clock : Source → Source → Prop} {c : String}

theorem writing_fair : Pool.Fair (fun _ : Unit => writing n m new changed clock) () fun _ _ => True :=
  .common id fun h h' => ⟨h.1.trans h'.1, h.2.trans h'.2⟩

/-- What is not seen does not count. -/
theorem hushed_stretch {v v' : World} (holds : (writing n m new changed clock).holds v)
    (hushed : v.Hushed v') : (writing n m new changed clock).Stretch v v' := by
  have store := hushed.agrees.store m.store
  have model : v'.model n = v.model n := by rw [World.model, World.model, hushed.spares.models]
  refine ⟨⟨model.trans holds.1, ?_⟩, ?_, hushed.spares.sharing⟩
  · rw [hushed.agrees.stores]
    exact holds.2
  · rw [documents, documents, store, hushed.spares.source]

/-- What an operation does at once to the store of the model, at a time of which the history so far is
known, is a stretch if it adds to that history. -/
theorem turns_stretch {start w w' : World} {s : Store} (holds : (writing n m new changed clock).holds w)
    (sharing : start.sharing.Outlives w.sharing) (turns : w.Turns m.store s w')
    (history : Relation.ReflTransGen (Change m new changed clock) (m.documents start, start.source)
      (s.memory.documents m.collection, w.source)) :
    (writing n m new changed clock).Stretch start w' := by
  obtain ⟨line, stores⟩ := turns.stores
  have store : w'.store m.store = { s with line } := World.store_of_stores holds.2 stores
  have model : w'.model n = w.model n := by rw [World.model, World.model, turns.spares.models]
  refine ⟨⟨model.trans holds.1, ?_⟩, ?_, sharing.trans turns.spares.sharing⟩
  · rw [stores, List.length_set]
    exact holds.2
  · rw [documents, documents, store, turns.spares.source]
    exact history

/-- What a change that is refused leaves behind: the time may have been read. -/
theorem history_reads (docs : List Value) (source : Source) :
    Relation.ReflTransGen (Change m new changed clock) (docs, source) (docs, m.timed source) := by
  unfold timed
  split
  · exact .single .reads
  · exact .refl

/-- What a model does adds to its history. -/
theorem writing_admits (collection : m.collection = .string c) :
    Admits (writing n m new changed clock) n new changed where
  here holds := by
    rw [holds.1]
    exact holds.2
  named holds := ⟨c, holds.1 ▸ collection⟩
  leads h := h.2
  allows h := h.2
  hushed := hushed_stretch
  creates := by
    intro w w' c data doc holds named given valid turns
    obtain ⟨rfl, here⟩ := holds
    refine turns_stretch (w := { w with source := (w.model n).drawn w.source }) ⟨rfl, here⟩ (.refl _) turns ?_
    rw [named, documents, named]
    refine Effect.documents_insert (P := fun docs => Relation.ReflTransGen
      (Change (w.model n) new changed clock) (_, w.source) (docs, (w.model n).drawn w.source)) ?_ ?_
    · exact (Relation.ReflTransGen.single .reads).tail .numbers
    · exact .single (.creates given valid)
  updates := by
    intro w w' c id data changes holds named given valid turns
    obtain ⟨rfl, here⟩ := holds
    refine turns_stretch (w := { w with source := (w.model n).timed w.source }) ⟨rfl, here⟩ (.refl _) turns ?_
    rw [named, documents, named]
    refine Effect.documents_update (P := fun docs => Relation.ReflTransGen
      (Change (w.model n) new changed clock) (_, w.source) (docs, (w.model n).timed w.source))
      (history_reads _ _) ?_
    intro k doc hk merged
    exact .single (.updates given valid hk merged)
  deletes := by
    intro w w' c id holds named turns
    obtain ⟨rfl, here⟩ := holds
    refine turns_stretch ⟨rfl, here⟩ (.refl _) turns ?_
    rw [named, documents, named]
    exact Effect.documents_delete (P := fun docs => Relation.ReflTransGen
      (Change (w.model n) new changed clock) (_, w.source) (docs, w.source)) .refl fun left kept =>
        .single (.removes kept)
  deletesMany := by
    intro w w' c filter holds named turns
    obtain ⟨rfl, here⟩ := holds
    refine turns_stretch ⟨rfl, here⟩ (.refl _) turns ?_
    rw [named, documents, named]
    exact Effect.documents_deleteMany (P := fun docs => Relation.ReflTransGen
      (Change (w.model n) new changed clock) (_, w.source) (docs, w.source)) .refl fun left kept =>
        .single (.removes kept)

/-! ## Runs -/

/-- What may happen beside the writing operations of a model: its documents stay, and so do those in hand
until they are let go; the clock goes on as it does. -/
structure Beside (n : Nat) (m : Model) (clock : Source → Source → Prop) (w w' : World) : Prop where
  model : w'.model n = w.model n
  stores : w.stores.length ≤ w'.stores.length
  documents : m.documents w' = m.documents w
  source : clock w.source w'.source
  sharing : w.sharing.Outlives w'.sharing

/-- A run of writing operations side by side; those under way may go on with any answer. -/
abbrev Writes (n : Nat) (m : Model) (new changed : Value → Prop) (clock : Source → Source → Prop) :
    Pool World Request Unit Unit → Pool World Request Unit Unit → Prop :=
  Pool.Run (fun t => ∃ write : Write, write.Gives new changed ∧ t = write.task n) (Beside n m clock)

theorem writes_history {p p' : Pool World Request Unit Unit} (collection : m.collection = .string c)
    (null : new .null) (h : Pool.KeepsCommon (writing n m new changed clock) p)
    (run : Writes n m new changed clock p p') :
    Pool.KeepsCommon (writing n m new changed clock) p' ∧
      Relation.ReflTransGen (Change m new changed clock) (m.documents p.state, p.state.source)
        (m.documents p'.state, p'.state.source) := by
  have calls (t : Op Unit) (called : ∃ write : Write, write.Gives new changed ∧ t = write.task n)
      (w : World) (holds : (writing n m new changed clock).holds w) :
      Pool.Takes (fun _ : Unit => writing n m new changed clock) (fun _ _ => True) w t := by
    obtain ⟨write, gives, rfl⟩ := called
    exact writing_fair.takes ((writing_admits collection).keeps_task null gives) holds
  have asides (w w' : World) (holds : (writing n m new changed clock).holds w)
      (beside : Beside n m clock w w') :
      (writing n m new changed clock).Stretch w w' := by
    refine ⟨⟨beside.model.trans holds.1, Nat.lt_of_lt_of_le holds.2 beside.stores⟩, ?_, beside.sharing⟩
    rw [beside.documents]
    exact .single (.aside beside.source)
  have leads := run.leads (M := writing n m new changed clock) writing_fair calls asides
    (fun _ _ _ leads => leads) h
  exact ⟨run.keeps writing_fair calls asides h, leads.1⟩

end Model

end DocStore
