import DocStore.Proofs.Index.Identity
import DocStore.Proofs.Json.Data
import DocStore.Proofs.Store.Callers
import DocStore.Proofs.Store.Crossing
import DocStore.Proofs.Store.Demand
import DocStore.Proofs.Store.Indexed
import DocStore.Proofs.Store.Run
/-!
A document that no file can hold is found out by the flush alone, when memory and indexes already have it.
From then on it stands in the way of every flush: nothing is acknowledged and no file is written until it is
taken out again.
-/

namespace DocStore

def Value.Writable (doc indent : Value) : Prop := ∃ text, fileText indent [doc] = .ok text

/-! ## What a snapshot needs -/

namespace Json

variable {style : Style} {level : Nat}

theorem writeItems_ok_iff {xs : List Value} :
    (∃ texts, writeItems style level xs = .ok texts) ↔
      ∀ x ∈ xs, ∃ text, write style level x = .ok text := by
  constructor
  · rintro ⟨texts, written⟩
    induction xs generalizing texts with
    | nil => nofun
    | cons x rest ih =>
      rw [writeItems] at written
      obtain ⟨text, first, written⟩ := ok_of_bind written
      obtain ⟨later, rest, -⟩ := ok_of_bind written
      exact List.forall_mem_cons.mpr ⟨⟨text, first⟩, ih later rest⟩
  · exact writeItems_ok

end Json

theorem fileText_ok_iff {indent : Value} {docs : List Value} :
    (∃ text, fileText indent docs = .ok text) ↔
      ∃ blanks, Json.indentOf indent = .ok blanks ∧
        ∀ doc ∈ docs, ∃ text, Json.write (fileStyle blanks) 2 doc = .ok text := by
  cases asked : Json.indentOf indent with
  | error f =>
    simp only [fileText, asked, bind, Except.bind]
    constructor
    · rintro ⟨_, ⟨⟩⟩
    · rintro ⟨_, ⟨⟩, _⟩
  | ok blanks =>
    have items : (∃ texts, Json.writeItems (fileStyle blanks) 2 docs = .ok texts) ↔
        ∀ doc ∈ docs, ∃ text, Json.write (fileStyle blanks) 2 doc = .ok text :=
      Json.writeItems_ok_iff
    constructor
    · rintro ⟨text, written⟩
      refine ⟨blanks, rfl, items.mp ?_⟩
      simp only [fileText, asked, bind, Except.bind, Json.text, Json.write] at written
      cases made : Json.writeItems (fileStyle blanks) 2 docs with
      | error f =>
        rw [show Json.writeItems (fileStyle blanks) (1 + 1) docs = .error f from made] at written
        cases written
      | ok texts => exact ⟨texts, rfl⟩
    · rintro ⟨_, ⟨⟩, each⟩
      obtain ⟨texts, written⟩ := items.mpr each
      simp only [fileText, asked, bind, Except.bind, Json.text, Json.write]
      rw [show Json.writeItems (fileStyle blanks) (1 + 1) docs = .ok texts from written]
      exact ⟨_, rfl⟩

/-- The text of a file has a text of each document. -/
theorem writable_of_fileText {indent doc : Value} {docs : List Value} {text : String}
    (h : fileText indent docs = .ok text) (there : doc ∈ docs) : doc.Writable indent := by
  obtain ⟨blanks, asked, each⟩ := fileText_ok_iff.mp ⟨text, h⟩
  refine fileText_ok_iff.mpr ⟨blanks, asked, fun d hd => ?_⟩
  rw [List.mem_singleton.mp hd]
  exact each doc there

/-- A flush of which the snapshot can be taken writes its files, if there are any. -/
theorem Writer.flushed_taken {s : Store} {files : Snapshot} (d : Directory)
    (taken : snapshot s.indent s.memory s.memory.pending = .ok files) :
    (flushed s d).2 = files.write d := by
  cases clean : s.memory.dirty.isEmpty with
  | true =>
    have none : s.memory.pending = [] := by
      rw [Memory.pending, List.isEmpty_iff.mp clean]
      rfl
    rw [none] at taken
    cases taken
    simp only [flushed, clean, if_true]
    rfl
  | false =>
    simp only [flushed, clean, Bool.false_eq_true, if_false, taken, written]
    generalize files.write d = result
    obtain ⟨d, outcome⟩ := result
    cases outcome <;> rfl

/-- A snapshot can be taken of collections of which each document can be written. -/
theorem snapshot_of_writable {indent : Value} {blanks : Option (List Char)} {m : Memory}
    {names : List Value} (asked : Json.indentOf indent = .ok blanks)
    (h : ∀ name ∈ names, ∀ doc ∈ m.documents name, doc.Writable indent) :
    ∃ files, snapshot indent m names = .ok files := by
  induction names with
  | nil => exact ⟨[], rfl⟩
  | cons name rest ih =>
    obtain ⟨files, later⟩ := ih fun other ho => h other (by simp [ho])
    obtain ⟨text, first⟩ : ∃ text, fileText indent (m.documents name) = .ok text := by
      refine fileText_ok_iff.mpr ⟨blanks, asked, fun doc hd => ?_⟩
      obtain ⟨_, same, each⟩ := fileText_ok_iff.mp (h name (by simp) doc hd)
      cases asked.symm.trans same
      exact each doc (by simp)
    exact ⟨(name, text) :: files, by rw [snapshot, first, later]; rfl⟩

/-! ## Names that are text -/

namespace Memory

variable {m : Memory} {c : String} {x : Value}

theorem documents_text (h : x.text? = some c) : m.documents x = m.documents (.string c) := by
  rw [documents, h]
  rfl

theorem holds_text (h : x.text? = some c) : m.holds x = m.holds (.string c) := by
  rw [holds, h]
  rfl

theorem holds_of_documents {doc : Value} (h : doc ∈ m.documents (.string c)) :
    m.holds (.string c) = true := by
  rw [documents_string] at h
  cases held : m.collections.lookup c with
  | none =>
    rw [held] at h
    cases h
  | some docs => exact holds_of_lookup held

theorem mem_markDirty_of_mem (h : x ∈ m.dirty) (name : Value) : x ∈ (m.markDirty name).dirty := by
  rw [markDirty]
  split
  · exact h
  · exact List.mem_append_left _ h

end Memory

/-- A collection counts as changed under some name that is its text. -/
def Memory.Marks (m : Memory) (c : String) : Prop := ∃ x ∈ m.dirty, x.text? = some c

namespace Memory

variable {m : Memory} {c : String}

theorem marks_markDirty (m : Memory) (c : String) : (m.markDirty (.string c)).Marks c := by
  rw [markDirty]
  split
  · next marked =>
    obtain ⟨x, there, same⟩ := List.any_eq_true.mp marked
    exact ⟨x, there, text_of_isSame same⟩
  · exact ⟨.string c, List.mem_append_right _ (List.mem_singleton_self _), rfl⟩

theorem Marks.markDirty (h : m.Marks c) (name : Value) : (m.markDirty name).Marks c := by
  obtain ⟨x, there, text⟩ := h
  exact ⟨x, mem_markDirty_of_mem there name, text⟩

theorem Marks.drop (h : m.Marks c) {name : String} (other : c ≠ name) :
    (m.drop (.string name)).Marks c := by
  obtain ⟨x, there, text⟩ := h
  refine ⟨x, List.mem_filter.mpr ⟨there, ?_⟩, text⟩
  rw [Value.isSame_text rfl text, beq_false_of_ne (Ne.symm other)]
  rfl

end Memory

/-- What an operation does at once, in one piece; the line of the store has no part in it. -/
theorem Operation.effect_eq (op : Operation) (s : Store) :
    ∃ act indexes schemas r, Effect.asked? r = Act.kind? act ∧ ∀ line,
      op.effect { s with line } = ({ s with memory := act.edit s.memory, indexes, schemas, line }, r) := by
  obtain ⟨act, ⟨indexes, schemas, r, asks, same⟩, -⟩ := op.acts s
  exact ⟨act, indexes, schemas, r, asks, fun line => same s.memory.dirty line⟩

/-! ## A document in the way of every flush -/

/-- A collection with unwritten changes holds a document that cannot be written. -/
structure Store.Wedged (c : String) (doc : Value) (s : Store) : Prop where
  there : doc ∈ s.memory.documents (.string c)
  marked : s.memory.Marks c
  unwritable : ¬doc.Writable s.indent

namespace Store.Wedged

variable {c : String} {doc : Value} {s : Store}

/-- A flush fails before it writes anything, and leaves memory as it is. -/
theorem flushed (h : Wedged c doc s) (d : Directory) :
    ∃ f, Writer.flushed s d = (s.memory, d, .error f) := by
  obtain ⟨x, marked, text⟩ := h.marked
  have changed : s.memory.dirty.isEmpty = false := by
    cases dirty : s.memory.dirty with
    | nil =>
      rw [dirty] at marked
      cases marked
    | cons => rfl
  simp only [Writer.flushed, changed, Bool.false_eq_true, if_false]
  cases taken : snapshot s.indent s.memory s.memory.pending with
  | error f => exact ⟨f, rfl⟩
  | ok files =>
    have pending : x ∈ s.memory.pending := by
      refine Memory.mem_pending.mpr ⟨marked, ?_⟩
      rw [Memory.holds_text text]
      exact Memory.holds_of_documents h.there
    obtain ⟨names, texts⟩ := mem_snapshot taken
    rw [← names] at pending
    obtain ⟨f, hf, rfl⟩ := List.mem_map.mp pending
    refine absurd (writable_of_fileText (texts f hf) ?_) h.unwritable
    rw [Memory.documents_text text]
    exact h.there

/-- What an operation does at once does not help, unless it takes the document out. -/
theorem effect (h : Wedged c doc s) (op : Operation)
    (stays : doc ∈ (op.effect s).1.memory.documents (.string c)) : Wedged c doc (op.effect s).1 := by
  obtain ⟨act, indexes, schemas, r, -, same⟩ := op.effect_eq s
  have done : op.effect s = _ := same s.line
  rw [done] at stays ⊢
  refine ⟨stays, ?_, h.unwritable⟩
  cases act with
  | rests | asks => exact h.marked
  | puts c' docs =>
    have put : (s.memory.setDocuments c' docs).Marks c := h.marked
    exact put.markDirty (.string c')
  | drops c' =>
    refine h.marked.drop fun own => ?_
    have gone : (s.memory.drop (.string c')).documents (.string c') = [] := by
      rw [Memory.documents_string, Memory.drop_collections, Table.lookup_drop, if_pos rfl]
      rfl
    rw [own] at stays
    exact List.not_mem_nil (gone ▸ stays)

/-- The request to the writer changes nothing in the store. -/
theorem awaited {effect : Effect} (h : Wedged c doc effect.1) (d : Directory) :
    (effect.awaited d).1 = effect.1 := by
  obtain ⟨s, r⟩ := effect
  match r with
  | .error e => rfl
  | .ok none => rfl
  | .ok (some .flush) =>
    obtain ⟨f, failed⟩ := h.flushed d
    simp only [Effect.awaited, Writer.served, failed]
  | .ok (some (.remove collection)) =>
    simp only [Effect.awaited, Writer.served, Writer.removed]
    split
    · rfl
    · split
      · rfl
      · split <;> rfl

variable {i : Nat} {w : World} {op : Operation}

/-- An operation that leaves the document there is not undone, and no flush of it succeeds. -/
theorem run (here : i < w.stores.length) (h : Wedged c doc (op.effect (w.store i)).1) :
    ∃ w' r, (op.task i).run Writer.serve w = (w', r) ∧
      (∃ line, w'.stores = w.stores.set i { (op.effect (w.store i)).1 with line }) ∧
      ((op.effect (w.store i)).2 = .ok (some .flush) →
        w'.directory = w.directory ∧ ∃ f, r = .error (.fault f)) := by
  obtain ⟨w', r, ran, awaits⟩ := Op.has_awaits (op.has_effect here) here
  obtain ⟨line, stores⟩ := awaits.stores
  rw [h.awaited] at stores
  refine ⟨w', r, ran, ⟨line, stores⟩, fun asks => ?_⟩
  have directory := awaits.directory
  have outcome : r = ((op.effect (w.store i)).awaited w.directory).2.2 :=
    (Result.map_unit r).symm.trans awaits.outcome
  obtain ⟨f, failed⟩ := h.flushed w.directory
  revert asks failed directory outcome
  obtain ⟨s, asked⟩ := op.effect (w.store i)
  rintro rfl directory outcome failed
  simp only [Effect.awaited, Writer.served, failed] at directory outcome
  exact ⟨directory, f, outcome⟩

end Store.Wedged

/-! ## Runs of operations that are awaited -/

/-- What comes of a world when operations on store `i` are awaited one after the other; in between anything
may happen that leaves the store alone. -/
inductive World.Follows (i : Nat) (allowed : Store → Operation → Prop) (w : World) : World → Prop
  | start : Follows i allowed w w
  | await {v : World} {op : Operation} (run : Follows i allowed w v) (allow : allowed (v.store i) op) :
      Follows i allowed w ((op.task i).run Writer.serve v).1
  | aside {v v' : World} (run : Follows i allowed w v) (stores : v.stores.length ≤ v'.stores.length)
      (same : v'.store i = v.store i) : Follows i allowed w v'

namespace Store

variable {i : Nat} {c : String} {doc : Value} {w v : World}

theorem Wedged.lined {s : Store} (h : Wedged c doc s) (line : Option Nat) :
    Wedged c doc { s with line } := ⟨h.there, h.marked, h.unwritable⟩

/-- The document stays in the way as long as no operation takes it out. -/
theorem Wedged.follows (h : Wedged c doc (w.store i)) (here : i < w.stores.length)
    (run : World.Follows i (fun s op => doc ∈ (op.effect s).1.memory.documents (.string c)) w v) :
    i < v.stores.length ∧ Wedged c doc (v.store i) := by
  induction run with
  | start => exact ⟨here, h⟩
  | @await v op run allow ih =>
    obtain ⟨there, wedged⟩ := ih
    obtain ⟨v', r, ran, ⟨line, stores⟩, -⟩ := (wedged.effect op allow).run there
    rw [ran]
    refine ⟨by rw [stores, List.length_set]; exact there, ?_⟩
    rw [World.store_of_stores there stores]
    exact (wedged.effect op allow).lined line
  | aside run stores same ih => exact ⟨Nat.lt_of_lt_of_le ih.1 stores, same ▸ ih.2⟩

end Store

/-! ## Bringing such a document -/

/-- The document that an insert or an update puts in its collection. -/
def Operation.Brings (s : Store) (c : String) (doc : Value) : Operation → Prop
  | .insert c' new => c' = c ∧ new = doc
  | .update c' id changes => c' = c ∧ ∃ docs n, Effect.documentsOf s c = .ok docs ∧
      Store.position id docs 0 = .ok (some n) ∧ Store.merged (docs.getD n .null) changes = .ok doc
  | _ => False

/-- Documents are put in once the indexes have changed. -/
theorem Effect.reindexed_committed {s : Store} {c : String} {change : Indexes → Indexes × Result Unit}
    {docs : List Value}
    (asks : (Effect.reindexed s change (Effect.committed c docs)).2 = .ok (some .flush)) :
    ∃ indexes, Effect.reindexed s change (Effect.committed c docs) =
      Effect.committed c docs { s with indexes } := by
  unfold Effect.reindexed at asks ⊢
  revert asks
  obtain ⟨indexes, outcome⟩ := change s.indexes
  intro asks
  cases outcome with
  | error e => cases asks
  | ok _ => exact ⟨indexes, rfl⟩

namespace Operation

variable {s : Store} {c : String} {doc : Value} {op : Operation}

/-- What was done at once when the checks have passed: the collection has the document and is to be
written. -/
theorem brings_committed (brings : op.Brings s c doc) (accepted : (op.effect s).2 = .ok (some .flush)) :
    ∃ docs indexes, doc ∈ docs ∧ op.effect s = Effect.committed c docs { s with indexes } := by
  cases op with
  | insert c' new =>
    obtain ⟨rfl, rfl⟩ := brings
    simp only [effect, Effect.insert] at accepted ⊢
    cases held : Effect.documentsOf s c' with
    | error e =>
      rw [held] at accepted
      cases accepted
    | ok docs =>
      simp only [held, Effect.given] at accepted ⊢
      cases named : Store.hasId new with
      | error e =>
        rw [named] at accepted
        cases accepted
      | ok known =>
        cases known with
        | false =>
          rw [named] at accepted
          cases accepted
        | true =>
          simp only [named, if_true] at accepted ⊢
          obtain ⟨indexes, done⟩ := Effect.reindexed_committed accepted
          exact ⟨_, indexes, List.mem_append_right docs (List.mem_singleton_self new), done⟩
  | update c' id changes =>
    obtain ⟨rfl, docs, n, held, place, merged⟩ := brings
    simp only [effect, Effect.update, held, place, merged, Effect.given] at accepted ⊢
    obtain ⟨indexes, done⟩ := Effect.reindexed_committed accepted
    obtain ⟨-, there, -⟩ := Store.position_spec place
    exact ⟨_, indexes, List.mem_set there doc, done⟩
  | delete | deleteMany | create | drop => exact brings.elim

end Operation

/-- What was put in a collection counts as changed. -/
theorem Effect.wedged_committed {c : String} {doc : Value} {s : Store} {docs : List Value}
    (unwritable : ¬doc.Writable s.indent) (there : doc ∈ docs) :
    Store.Wedged c doc (committed c docs s).1 := by
  refine ⟨?_, Memory.marks_markDirty _ c, unwritable⟩
  rw [committed_documents]
  exact there

namespace Store

variable {i : Nat} {c : String} {doc : Value} {w : World} {op : Operation}

/-- An operation whose flush can write all that counts as changed then. -/
theorem run_writes (here : i < w.stores.length) (asks : (op.effect (w.store i)).2 = .ok (some .flush))
    {blanks : Option (List Char)} (asked : Json.indentOf (w.store i).indent = .ok blanks)
    (writable : ∀ x ∈ (op.effect (w.store i)).1.memory.dirty,
      ∀ doc ∈ (op.effect (w.store i)).1.memory.documents x, doc.Writable (w.store i).indent) :
    ∃ files : Snapshot, files.names = (op.effect (w.store i)).1.memory.pending ∧
      ((op.task i).run Writer.serve w).1.directory = (files.write w.directory).1 ∧
      ((op.task i).run Writer.serve w).2 = Result.ofFault (files.write w.directory).2 := by
  obtain ⟨w', r, ran, awaits⟩ := Op.has_awaits (op.has_effect here) here
  have directory := awaits.directory
  have outcome := (Result.map_unit r).symm.trans awaits.outcome
  rw [ran]
  obtain ⟨act, indexes, schemas, result, -, same⟩ := op.effect_eq (w.store i)
  have done : op.effect (w.store i) = _ := same (w.store i).line
  rw [done] at asks writable directory outcome ⊢
  obtain rfl : result = .ok (some .flush) := asks
  let m := act.edit (w.store i).memory
  obtain ⟨files, taken⟩ : ∃ files, snapshot (w.store i).indent m m.pending = .ok files :=
    snapshot_of_writable asked fun x hx => writable x (Memory.mem_pending.mp hx).1
  refine ⟨files, (mem_snapshot taken).1, ?_⟩
  let s : Store := { w.store i with memory := m, indexes, schemas }
  have written : (Writer.flushed s w.directory).2 = files.write w.directory :=
    Writer.flushed_taken w.directory taken
  refine ⟨directory.trans ?_, outcome.trans ?_⟩
  · exact congrArg (·.1) written
  · exact congrArg (fun x => Result.ofFault x.2) written

/-- An insert or an update of a document that no file can hold fails at its flush, after all its checks. It
is not undone: reads see the document and checks go by it. As long as it is not taken out, every flush of an
operation fails and no file is written; an operation after which all that counts as changed can be written
writes it. -/
theorem unwritable_wedges (here : i < w.stores.length) (brings : op.Brings (w.store i) c doc)
    (accepted : (op.effect (w.store i)).2 = .ok (some .flush))
    (unwritable : ¬doc.Writable (w.store i).indent) :
    ∃ w' f, (op.task i).run Writer.serve w = (w', .error (.fault f)) ∧ w'.directory = w.directory ∧
      (∃ line, w'.store i = { (op.effect (w.store i)).1 with line }) ∧
      (∀ d : Demand, (∀ op, d ≠ .change op) →
        ((d.task i).run Writer.serve w').2 = d.look (op.effect (w.store i)).1) ∧
      (∀ later : Operation,
        (later.effect (w'.store i)).2 = (later.effect (op.effect (w.store i)).1).2) ∧
      ∀ v, World.Follows i (fun s op => doc ∈ (op.effect s).1.memory.documents (.string c)) w' v →
        doc ∈ (v.store i).memory.documents (.string c) ∧
        ∀ later : Operation, (later.effect (v.store i)).2 = .ok (some .flush) →
          (doc ∈ (later.effect (v.store i)).1.memory.documents (.string c) →
            ∃ v' f, (later.task i).run Writer.serve v = (v', .error (.fault f)) ∧
              v'.directory = v.directory) ∧
          ∀ blanks, Json.indentOf (v.store i).indent = .ok blanks →
            (∀ x ∈ (later.effect (v.store i)).1.memory.dirty,
              ∀ d ∈ (later.effect (v.store i)).1.memory.documents x, d.Writable (v.store i).indent) →
            ∃ files : Snapshot, files.names = (later.effect (v.store i)).1.memory.pending ∧
              ((later.task i).run Writer.serve v).1.directory = (files.write v.directory).1 ∧
              ((later.task i).run Writer.serve v).2 = Result.ofFault (files.write v.directory).2 := by
  obtain ⟨docs, indexes, there, done⟩ := Operation.brings_committed brings accepted
  have wedged : Wedged c doc (op.effect (w.store i)).1 := by
    rw [done]
    exact Effect.wedged_committed unwritable there
  obtain ⟨w', r, ran, ⟨line, stores⟩, fails⟩ := wedged.run here
  obtain ⟨directory, f, rfl⟩ := fails accepted
  have store := World.store_of_stores here stores
  have here' : i < w'.stores.length := by
    rw [stores, List.length_set]
    exact here
  refine ⟨w', f, ran, directory, ⟨line, store⟩, fun d looks => ?_, fun later => ?_, fun v run => ?_⟩
  · obtain ⟨v, stop, -⟩ := d.looks looks w'
    rw [Task.run_of_done stop, store]
    cases d with
    | change op => exact absurd rfl (looks op)
    | findById | find | count | list => rfl
  · obtain ⟨act, indexes, schemas, r, -, same⟩ := later.effect_eq (op.effect (w.store i)).1
    have plain : later.effect (op.effect (w.store i)).1 = _ := same (op.effect (w.store i)).1.line
    rw [store, same line, plain]
  · have start : Wedged c doc (w'.store i) := by
      rw [store]
      exact wedged.lined line
    obtain ⟨here'', wedged''⟩ := start.follows here' run
    refine ⟨wedged''.there, fun later asks => ⟨fun stays => ?_, fun blanks asked writable => ?_⟩⟩
    · obtain ⟨v', r, ran, -, fails⟩ := (wedged''.effect later stays).run here''
      obtain ⟨same, f, rfl⟩ := fails asks
      exact ⟨v', f, ran, same⟩
    · exact run_writes here'' asks asked writable

/-! ## An example -/

def imaginaryDoc : Value := .object [("id", .string "a"), ("v", .imaginary)]

def twoEmpty : World :=
  { source := ⟨0, 0, 0⟩
    directory := some []
    stores := [{
      path := "data", indent := .int 2, connected := true
      memory := { collections := [("c", []), ("d", [])] } }] }

/-- The insert of such a document fails, and yet it is counted; then an insert into the other collection
fails that went well before. -/
theorem imaginary_not_undone :
    let bad := ((Operation.insert "c" imaginaryDoc).task 0).run Writer.serve twoEmpty
    let good := (Operation.insert "d" (.object [("id", .string "b")])).task 0
    bad.2.isOk = false ∧
      ((count 0 (.string "c") (.object [])).run Writer.serve twoEmpty).2.toOption = some 0 ∧
      ((count 0 (.string "c") (.object [])).run Writer.serve bad.1).2.toOption = some 1 ∧
      (good.run Writer.serve twoEmpty).2.isOk = true ∧
      (good.run Writer.serve bad.1).2.isOk = false := by
  decide +kernel

theorem imaginary_unwritable : ¬imaginaryDoc.Writable (.int 2) := by
  rintro ⟨text, written⟩
  have failed : (fileText (.int 2) [imaginaryDoc]).isOk = false := by decide +kernel
  rw [written] at failed
  cases failed

/-- After the failed insert nothing can be added to the other collection, and no file is written. -/
theorem imaginary_wedges :
    ∃ w f, ((Operation.insert "c" imaginaryDoc).task 0).run Writer.serve twoEmpty =
        (w, .error (.fault f)) ∧ w.directory = some [] ∧
      ∃ v f, ((Operation.insert "d" (.object [("id", .string "b")])).task 0).run Writer.serve w =
        (v, .error (.fault f)) ∧ v.directory = some [] := by
  let bad : Operation := .insert "c" imaginaryDoc
  let good : Operation := .insert "d" (.object [("id", .string "b")])
  have brings : bad.Brings (twoEmpty.store 0) "c" imaginaryDoc := ⟨rfl, rfl⟩
  have accepted : (bad.effect (twoEmpty.store 0)).2 = .ok (some .flush) := by rfl
  obtain ⟨w, f, ran, directory, -, -, checks, wedged⟩ :=
    unwritable_wedges (by decide) brings accepted imaginary_unwritable
  obtain ⟨there, later⟩ := wedged w .start
  have asks : (good.effect (w.store 0)).2 = .ok (some .flush) := (checks good).trans rfl
  have stays : imaginaryDoc ∈ (good.effect (w.store 0)).1.memory.documents (.string "c") := by
    rw [Memory.documents_string, (good.alike_elsewhere (by decide) (w.store 0)).collection]
    exact there
  obtain ⟨v, f', ran', same⟩ := (later good asks).1 stays
  exact ⟨w, f, ran, directory, v, f', ran', same.trans directory⟩

end Store

end DocStore
