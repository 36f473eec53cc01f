import DocStore.Proofs.Store.Operation
/-!
What the operations do to memory at once, whatever else counts as changed then: they leave it alone, put
documents in a collection, or drop one; and they ask for a flush or for a removal.
-/

namespace DocStore

/-- What an operation does to memory and asks of the writer. -/
inductive Act where
  | rests
  /-- Memory stays as it is, and a flush is asked for. -/
  | asks
  | puts (collection : String) (docs : List Value)
  | drops (collection : String)

namespace Act

def edit (m : Memory) : Act → Memory
  | rests | asks => m
  | puts c docs => (m.setDocuments c docs).markDirty (.string c)
  | drops c => m.drop (.string c)

def kind? : Act → Option WriteKind
  | rests => none
  | asks | puts .. => some .flush
  | drops c => some (.remove (.string c))

/-- An act on a collection; documents are put in one that is held, or that is new under a name it may
have. -/
def Fits (c : String) (m : Memory) : Act → Prop
  | rests | asks => True
  | puts c' _ => c' = c ∧ (Table.has m.collections c = true ∨ '/' ∉ c.toList)
  | drops c' => c' = c

end Act

/-- The request that the part of an operation done at once ends with, if it ends with one. -/
def Effect.asked? : Result (Option WriteKind) → Option WriteKind
  | .ok kind => kind
  | .error _ => none

/-- A store in which other collections count as changed, with another line. -/
def Store.but (s : Store) (dirty : List Value) (line : Option Nat) : Store :=
  { s with memory := { s.memory with dirty }, line }

/-- An effect does the same to memory whatever counts as changed. -/
structure Effect.Acts (c : String) (f : Store → Effect) (s : Store) (act : Act) : Prop where
  same : ∃ indexes schemas r, Effect.asked? r = act.kind? ∧ ∀ dirty line,
    f (s.but dirty line) =
      ({ s.but dirty line with memory := act.edit { s.memory with dirty }, indexes, schemas }, r)
  fits : act.Fits c s.memory

namespace Effect

variable {s : Store} {c : String} {docs : List Value}

/-- The collection that an operation reads is held. -/
theorem held_of_documentsOf (h : documentsOf s c = .ok docs) :
    Table.has s.memory.collections c = true := by
  simp only [documentsOf] at h
  split at h
  · cases h
  · split at h
    · next held => exact held
    · cases h

theorem acts_rests {r : Result (Option WriteKind)} (nothing : asked? r = none) :
    ∃ act, Acts c (fun s => (s, r)) s act :=
  ⟨.rests, ⟨s.indexes, s.schemas, r, nothing, fun _ _ => rfl⟩, trivial⟩

theorem acts_committed (held : Table.has s.memory.collections c = true) :
    ∃ act, Acts c (committed c docs) s act :=
  ⟨.puts c docs, ⟨s.indexes, s.schemas, _, rfl, fun _ _ => rfl⟩, rfl, .inl held⟩

theorem acts_given {α : Type} {r : Store → Result α} {f : α → Store → Effect}
    (same : ∀ dirty line, r (s.but dirty line) = r s)
    (h : ∀ a, r s = .ok a → ∃ act, Acts c (f a) s act) :
    ∃ act, Acts c (fun s => given s (r s) fun a => f a s) s act := by
  cases hr : r s with
  | error e =>
    refine ⟨.rests, ⟨s.indexes, s.schemas, .error e, rfl, fun dirty line => ?_⟩,
      trivial⟩
    simp only [same, hr, given]
    rfl
  | ok a =>
    obtain ⟨act, ⟨indexes, schemas, r, asks, goes⟩, fits⟩ := h a hr
    refine ⟨act, ⟨indexes, schemas, r, asks, fun dirty line => ?_⟩, fits⟩
    simp only [same, hr, given]
    exact goes dirty line

theorem reindexed_ok {change : Indexes → Indexes × Result Unit} {indexes : Indexes}
    (f : Store → Effect) (done : change s.indexes = (indexes, .ok ())) :
    reindexed s change f = f { s with indexes } := by
  unfold reindexed
  rw [done]

theorem reindexed_error {change : Indexes → Indexes × Result Unit} {indexes : Indexes} {e : Error}
    (f : Store → Effect) (failed : change s.indexes = (indexes, .error e)) :
    reindexed s change f = ({ s with indexes }, .error e) := by
  unfold reindexed
  rw [failed]

theorem acts_reindexed {change : Indexes → Indexes × Result Unit} {f : Store → Effect}
    (h : ∀ indexes, ∃ act, Acts c f { s with indexes } act) :
    ∃ act, Acts c (fun s => reindexed s change f) s act := by
  cases changed : change s.indexes with
  | mk indexes outcome =>
    cases outcome with
    | error e =>
      exact ⟨.rests, ⟨indexes, s.schemas, .error e, rfl, fun _ _ => reindexed_error f changed⟩,
        trivial⟩
    | ok _ =>
      obtain ⟨act, ⟨indexes', schemas, r, asks, same⟩, fits⟩ := h indexes
      exact ⟨act, ⟨indexes', schemas, r, asks, fun dirty line =>
        (reindexed_ok (s := s.but dirty line) f changed).trans (same dirty line)⟩, fits⟩

theorem insert_acts (c : String) (doc : Value) (s : Store) : ∃ act, Acts c (insert c doc) s act := by
  unfold insert
  refine acts_given (fun _ _ => rfl) fun docs hd => acts_given (fun _ _ => rfl) fun known _ => ?_
  cases known with
  | false => exact acts_rests rfl
  | true =>
    simp only [if_true]
    exact acts_reindexed fun _ => acts_committed (held_of_documentsOf hd)

theorem update_acts (c : String) (id changes : Value) (s : Store) :
    ∃ act, Acts c (update c id changes) s act := by
  unfold update
  refine acts_given (fun _ _ => rfl) fun docs hd => acts_given (fun _ _ => rfl) fun place _ => ?_
  cases place with
  | none => exact acts_rests rfl
  | some n =>
    refine acts_given (fun _ _ => rfl) fun new _ => ?_
    exact acts_reindexed fun _ => acts_committed (held_of_documentsOf hd)

theorem delete_acts (c : String) (id : Value) (s : Store) : ∃ act, Acts c (delete c id) s act := by
  unfold delete
  refine acts_given (fun _ _ => rfl) fun docs hd => acts_given (fun _ _ => rfl) fun place _ => ?_
  cases place with
  | none => exact acts_rests rfl
  | some n => exact acts_reindexed fun _ => acts_committed (held_of_documentsOf hd)

theorem deleteMany_acts (c : String) (filter : Value) (s : Store) :
    ∃ act, Acts c (deleteMany c filter) s act := by
  unfold deleteMany
  refine acts_given (fun _ _ => rfl) fun docs hd => acts_given (fun _ _ => rfl) fun found _ => ?_
  cases found.isEmpty with
  | true => exact acts_rests rfl
  | false =>
    simp only [Bool.false_eq_true, if_false]
    refine acts_reindexed fun _ => ?_
    refine acts_given (fun _ _ => rfl) fun ids _ => ?_
    exact acts_given (fun _ _ => rfl) fun left _ => acts_committed (held_of_documentsOf hd)

theorem drop_acts (c : String) (s : Store) : ∃ act, Acts c (drop c) s act := by
  cases connected : s.connected with
  | false =>
    refine ⟨.rests, ⟨s.indexes, s.schemas, .error .adapterNotConnected, rfl, fun dirty line => ?_⟩,
      trivial⟩
    simp only [drop, Store.but, connected, Bool.not_false, if_true]
    rfl
  | true =>
    refine ⟨.drops c, ⟨s.indexes.drop (.string c), Table.drop s.schemas c,
      .ok (some (.remove (.string c))), rfl, fun dirty line => ?_⟩, rfl⟩
    simp only [drop, Store.but, connected, Bool.not_true, Bool.false_eq_true, if_false]
    rfl

/-- Indexes over no documents are not refused. -/
theorem inTurn_builds (c : String) {fields : List (Value × Value)}
    (named : ∀ e ∈ fields, ∃ field, e.1 = .string field) (ix : Indexes) :
    ∃ ix', inTurn (fields.map fun (field, unique) => build c [] field unique) ix =
      (ix', .ok ()) := by
  induction fields generalizing ix with
  | nil => exact ⟨ix, rfl⟩
  | cons e rest ih =>
    obtain ⟨field, unique⟩ := e
    obtain ⟨field, rfl⟩ := named (field, unique) (by simp)
    exact ih (fun e he => named e (by simp [he])) _

theorem create_acts (c : String) (registered : Registered) (s : Store) :
    ∃ act, Acts c (create c registered) s act := by
  cases connected : s.connected with
  | false =>
    refine ⟨.rests, ⟨s.indexes, s.schemas, .error .adapterNotConnected, rfl, fun dirty line => ?_⟩,
      trivial⟩
    simp only [create, Store.but, connected, Bool.not_false, if_true]
    rfl
  | true =>
    let change (docs : List Value) := inTurn ((indexedFields registered.schema).map
      fun (field, unique) => build c docs field unique)
    have goes {m : Memory} (dirty : List Value) (line : Option Nat)
        (created : (s.but dirty line).memory.create (.string c) = .ok (m, c)) :
        create c registered (s.but dirty line) =
          reindexed (declared c registered m (s.but dirty line)) (change (m.documents (.string c)))
            fun s => (s, .ok (some .flush)) := by
      simp only [create, Store.but, connected, Bool.not_true, Bool.false_eq_true, if_false]
      simp only [Store.but] at created
      rw [created]
      rfl
    cases held : s.memory.holds (.string c) with
    | true =>
      have created (dirty : List Value) (line : Option Nat) :=
        goes dirty line (Memory.create_held held)
      cases outcome : change (s.memory.documents (.string c)) (s.indexes.drop (.string c)) with
      | mk indexes r =>
        cases r with
        | error e =>
          exact ⟨.rests, ⟨indexes, Table.put s.schemas c registered, .error e, rfl, fun dirty line =>
            (created dirty line).trans (reindexed_error _ outcome)⟩, trivial⟩
        | ok _ =>
          exact ⟨.asks, ⟨indexes, Table.put s.schemas c registered, .ok (some .flush), rfl,
            fun dirty line => (created dirty line).trans (reindexed_ok _ outcome)⟩, trivial⟩
    | false =>
      have fresh (dirty : List Value) (line : Option Nat) :=
        Memory.create_fresh (m := (s.but dirty line).memory) held
      cases checked : CollectionName.check (.string c) with
      | error e =>
        refine ⟨.rests, ⟨s.indexes, s.schemas, .error e, rfl, fun dirty line => ?_⟩,
          trivial⟩
        have fresh := fresh dirty line
        rw [checked] at fresh
        simp only [create, Store.but, connected, Bool.not_true, Bool.false_eq_true, if_false]
        simp only [Store.but] at fresh
        rw [fresh]
        rfl
      | ok name =>
        rw [checked] at fresh
        obtain ⟨indexes, built⟩ := inTurn_builds c (indexedFields_named registered.schema)
          (s.indexes.drop (.string c))
        have empty (dirty : List Value) (line : Option Nat) :
            (((s.but dirty line).memory.setDocuments c []).markDirty (.string c)).documents
              (.string c) = [] := by
          rw [Memory.documents_string, Memory.markDirty_collections, Memory.setDocuments_collections,
            Table.lookup_put, if_pos rfl]
          rfl
        refine ⟨.puts c [], ⟨indexes, Table.put s.schemas c registered, .ok (some .flush), rfl,
          fun dirty line => ?_⟩, rfl, .inr (CollectionName.plain_of_check checked)⟩
        have created := goes dirty line (fresh dirty line)
        rw [empty] at created
        exact created.trans (reindexed_ok _ built)

end Effect

theorem Operation.acts (op : Operation) (s : Store) :
    ∃ act, Effect.Acts op.collection (fun s => op.effect s) s act := by
  cases op with
  | insert c doc => exact Effect.insert_acts c doc s
  | update c id changes => exact Effect.update_acts c id changes s
  | delete c id => exact Effect.delete_acts c id s
  | deleteMany c filter => exact Effect.deleteMany_acts c filter s
  | create c schema model => exact Effect.create_acts c ⟨schema, model⟩ s
  | drop c => exact Effect.drop_acts c s

/-- An operation leaves the line of its store as it is. -/
theorem Operation.line_effect (op : Operation) (s : Store) : (op.effect s).1.line = s.line := by
  obtain ⟨act, ⟨indexes, schemas, r, -, same⟩, -⟩ := op.acts s
  have goes : op.effect s = _ := same s.memory.dirty s.line
  rw [goes]
  rfl

end DocStore
