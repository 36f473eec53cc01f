import DocStore.Proofs.Calendar.Iso
import DocStore.Proofs.Model.History
import DocStore.Proofs.Schema.Stored
/-!
Ids and times of the documents of a model. A clock that never goes back, and changes that give no times
of their own, leave each document its id and the time it was created at, and a time of its last change
that is not before it.
-/

namespace DocStore

/-- A source later on: its clock has not gone back, and its numbers are used up. -/
structure Source.Later (s s' : Source) : Prop where
  next : s.next ≤ s'.next
  step : s'.step = s.step
  lastId : s.lastId ≤ s'.lastId

namespace Source.Later

variable {s s' s'' : Source}

theorem refl (s : Source) : Later s s := ⟨Int.le_refl _, rfl, Nat.le_refl _⟩

theorem trans (h : Later s s') (h' : Later s' s'') : Later s s'' :=
  ⟨Int.le_trans h.next h'.next, h'.step.trans h.step, Nat.le_trans h.lastId h'.lastId⟩

theorem now (s : Source) (forward : 0 ≤ s.step) : Later s s.now.2 :=
  ⟨by simp only [Source.now]; omega, rfl, Nat.le_refl _⟩

theorem newId (s : Source) (start : String) : Later s (s.newId start).2 :=
  ⟨Int.le_refl _, rfl, Nat.le_succ _⟩

end Source.Later

/-! ## Ids -/

namespace Literal

def hexValue (ds : List Char) : Nat :=
  ds.foldl (fun n c => 16 * n + "0123456789abcdef".toList.idxOf c) 0

theorem hexValue_toDigits (n : Nat) : hexValue (Nat.toDigits 16 n) = n := by
  induction n using Nat.strongRecOn with
  | ind n ih =>
    have digit : ∀ d < 16, "0123456789abcdef".toList.idxOf (Nat.digitChar d) = d := by decide
    rw [Nat.toDigits_eq_if (by decide)]
    split
    · next small => simpa [hexValue] using digit n small
    · next large =>
      have later := ih (n / 16) (by omega)
      rw [hexValue] at later ⊢
      rw [List.foldl_append, later, List.foldl_cons, List.foldl_nil,
        digit _ (Nat.mod_lt _ (by decide))]
      omega

theorem hexValue_hex (width n : Nat) : hexValue (hex width n) = n := by
  have zeros (k : Nat) (ds : List Char) : hexValue (List.replicate k '0' ++ ds) = hexValue ds := by
    induction k with
    | zero => rfl
    | succ k ih => exact ih
  exact (zeros _ _).trans (hexValue_toDigits n)

end Literal

/-- Ids that start alike tell which numbers they were made with. -/
theorem Source.newId_inj {s s' : Source} {start : String}
    (same : (s.newId start).1 = (s'.newId start).1) : s.lastId = s'.lastId := by
  have digits := congrArg String.toList same
  simp only [newId, String.toList_append, String.toList_ofList] at digits
  have value := congrArg Literal.hexValue (List.append_cancel_left digits)
  simp only [Literal.hexValue_hex] at value
  omega

/-! ## Entries that are put over others -/

namespace Document

variable {es cs : Document} {key : String}

theorem lookup_put (es : Document) (key other : String) (v : Value) :
    (put es key v).lookup other = if other = key then some v else es.lookup other := by
  rw [put_eq, Table.lookup_put]

/-- What is put over a document leaves the entries under other keys. -/
theorem lookup_merge_other (other : key ∉ cs.keys) : (merge es cs).lookup key = es.lookup key := by
  induction cs generalizing es with
  | nil => rfl
  | cons c rest ih =>
    obtain ⟨own, later⟩ := not_or.mp fun there => other (List.mem_cons.mpr there)
    refine (@ih (put es c.1 c.2) later).trans ?_
    rw [lookup_put, if_neg own]

theorem lookup_merge (distinct : cs.keys.Nodup) {v : Value} (there : (key, v) ∈ cs) :
    (merge es cs).lookup key = some v := by
  induction cs generalizing es with
  | nil => cases there
  | cons c rest ih =>
    obtain ⟨fresh, later⟩ := List.nodup_cons.mp distinct
    rcases List.mem_cons.mp there with rfl | there
    · exact (@lookup_merge_other (put es key v) _ _ fresh).trans (by rw [lookup_put, if_pos rfl])
    · exact @ih (put es c.1 c.2) later there

end Document

namespace Model

variable {n : Nat} {m : Model} {c : String} {docs docs' : List Value} {source source' : Source}

/-- What is given for a change names no time that is kept: none of creation, and none of the last change
if changes are not timed. No key occurs twice in it. -/
structure Unstamped (m : Model) (data : Value) : Prop where
  distinct : ∀ es, data = .object es → (Document.keys es).Nodup
  created : data.entry? (.string "createdAt") = none
  updated : m.timestamps.truthy = false → data.entry? (.string "updatedAt") = none

variable (distinct : (m.schema.map (·.1)).Nodup) (own : LeavesOwn m.schema)

include distinct own

/-! ## One change -/

/-- What is put over a document that is changed has no time of creation, and for the last change the time
at which it is made, or none. -/
theorem keys_revision {data : Value} {changes : Document} (now : String) (unstamped : Unstamped m data)
    (valid : m.schema.validate .update data = .ok changes) :
    (m.revision changes now).keys.Nodup ∧ "createdAt" ∉ (m.revision changes now).keys ∧
      (m.timestamps.truthy = false → "updatedAt" ∉ (m.revision changes now).keys) := by
  obtain ⟨es, -, rfl, -, -⟩ := Schema.validate_update valid
  obtain ⟨once, named⟩ := Schema.keys_validate_update distinct (unstamped.distinct es rfl) valid
  have absent {key : String} (there : key ∈ ownFields)
      (missing : Value.entry? (.object es) (.string key) = none) :
      key ∉ (Document.drop changes "id").keys := by
    intro inside
    have sub : (Document.drop changes "id").keys ⊆ changes.keys :=
      List.map_subset _ List.filter_sublist.subset
    rcases named key (sub inside) with field | given
    · exact own key there field
    · exact Table.lookup_eq_none_iff.mp missing given
  have dropped : (Document.drop changes "id").keys.Nodup :=
    once.sublist (List.filter_sublist.map _)
  have created : "createdAt" ∉ (Document.drop changes "id").keys := absent (by decide) unstamped.created
  simp only [revision]
  split
  · next timed =>
    rw [Document.put_eq, Document.keys_put]
    refine ⟨Table.nodup_added dropped _, ?_, fun untimed => absurd timed (by simp [untimed])⟩
    split
    · exact created
    · simpa using created
  · exact ⟨dropped, created, fun untimed => absent (by decide) (unstamped.updated untimed)⟩

/-- A document that is changed keeps its id and its time of creation. -/
theorem merged_keeps {es : Document} {data doc : Value} {changes : Document} {now : String}
    (unstamped : Unstamped m data) (valid : m.schema.validate .update data = .ok changes)
    (merged : Store.merged (.object es) (.object (m.revision changes now)) = .ok doc) :
    ∃ es', doc = .object es' ∧ es'.lookup "id" = es.lookup "id" ∧
      es'.lookup "createdAt" = es.lookup "createdAt" ∧
      es'.lookup "updatedAt" =
        if m.timestamps.truthy then some (.string now) else es.lookup "updatedAt" := by
  obtain ⟨once, created, updated⟩ := keys_revision distinct own now unstamped valid
  obtain ⟨id, held, rfl⟩ := Value.merged_entries merged
  refine ⟨_, rfl, ?_, ?_, ?_⟩
  · rw [Document.lookup_put, if_pos rfl, held]
  · rw [Document.lookup_put, if_neg (by decide), Document.lookup_merge_other created]
  · rw [Document.lookup_put, if_neg (by decide)]
    split
    · next timed =>
      refine Document.lookup_merge once ?_
      rw [revision, if_pos timed]
      exact Table.mem_of_lookup (by rw [Document.lookup_put, if_pos rfl])
    · next untimed => exact Document.lookup_merge_other (updated (by simpa using untimed))

omit distinct own in
/-- A new document has the id and the time that it is marked with. -/
theorem lookup_marked (doc : Document) (id now : String) :
    (marked doc id now).lookup "id" = some (.string id) ∧
      (marked doc id now).lookup "createdAt" = some (.string now) ∧
      (marked doc id now).lookup "updatedAt" = some (.string now) := by
  simp only [marked, Document.merge, List.foldl_cons, List.foldl_nil, Document.lookup_put]
  exact ⟨rfl, rfl, rfl⟩

omit distinct own

/-! ## Times -/

/-- A document whose times are readings of the clock from some instant on: that of its creation, and one
that is not earlier, that of its last change. -/
structure Timely (first : Int) (source : Source) (d : Value) : Prop where
  read : ∃ es created updated, d = .object es ∧
    es.lookup "createdAt" = some (.string (Source.stamp created)) ∧
    es.lookup "updatedAt" = some (.string (Source.stamp updated)) ∧
    first ≤ created ∧ created ≤ updated ∧ updated + source.step ≤ source.next

theorem Timely.later {first : Int} {d : Value} (h : Timely first source d) (later : source.Later source') :
    Timely first source' d := by
  obtain ⟨es, created, updated, same, hc, hu, from_first, order, past⟩ := h.read
  refine ⟨es, created, updated, same, hc, hu, from_first, order, ?_⟩
  rw [later.step]
  exact Int.le_trans past later.next

def birth (d : Value) : Value × Value := (d.under "id", d.under "createdAt")

/-- The id and the time that a creation assigns, by the number of the id and the instant. -/
def assigned (m : Model) (issue : Nat × Int) : Value × Value :=
  (.string (m.idStart.display ++ "_" ++ String.ofList (Literal.hex Source.idDigits issue.1)),
    .string (Source.stamp issue.2))

/-- Numbers and instants that were drawn from a source one after the other. -/
structure Issues (before after : Source) (issues : List (Nat × Int)) : Prop where
  later : issues.Pairwise fun i j => i.1 < j.1 ∧ i.2 ≤ j.2
  number : ∀ i ∈ issues, before.lastId < i.1 ∧ i.1 ≤ after.lastId
  time : ∀ i ∈ issues, before.next ≤ i.2 ∧ i.2 + before.step ≤ after.next

variable {before : Source} {issues : List (Nat × Int)}

theorem Issues.widen (h : Issues before source issues) (later : source.Later source') :
    Issues before source' issues := by
  refine ⟨h.later, fun i there => ?_, fun i there => ?_⟩
  · exact ⟨(h.number i there).1, Nat.le_trans (h.number i there).2 later.lastId⟩
  · exact ⟨(h.time i there).1, Int.le_trans (h.time i there).2 later.next⟩

theorem Issues.draw (h : Issues before source issues) (forward : 0 ≤ source.step)
    (since : before.Later source) (start : String) :
    Issues before (source.now.2.newId start).2 (issues ++ [(source.lastId + 1, source.next)]) := by
  have step := since.step
  have lastId := since.lastId
  have next := since.next
  refine ⟨List.pairwise_append.mpr ⟨h.later, List.pairwise_singleton _ _, ?_⟩, ?_, ?_⟩
  · intro i there j added
    obtain rfl := List.mem_singleton.mp added
    have number := h.number i there
    have time := h.time i there
    dsimp only
    omega
  · intro i there
    simp only [Source.newId, Source.now]
    rcases List.mem_append.mp there with there | added
    · have number := h.number i there
      omega
    · obtain rfl := List.mem_singleton.mp added
      dsimp only
      omega
  · intro i there
    simp only [Source.newId, Source.now]
    rcases List.mem_append.mp there with there | added
    · have time := h.time i there
      omega
    · obtain rfl := List.mem_singleton.mp added
      dsimp only
      omega

/-! ## Histories -/

theorem later_change {new changed : Value → Prop} (forward : 0 ≤ source.step)
    (change : Change m new changed Source.Later (docs, source) (docs', source')) :
    source.Later source' := by
  cases change with
  | creates => exact (Source.Later.now source forward).trans (.newId _ _)
  | updates =>
    unfold timed
    split
    · exact .now source forward
    · exact .refl source
  | removes => exact .refl source
  | reads => exact .now source forward
  | numbers => exact .newId source _
  | aside later => exact later

section

variable {new : Value → Prop} {first : Int} (distinct : (m.schema.map (·.1)).Nodup)
  (own : LeavesOwn m.schema) (forward : 0 ≤ source.step)
  (change : Change m new (Unstamped m) Source.Later (docs, source) (docs', source'))

include distinct own forward change

/-- After each change the times of all documents are readings of the clock in order. -/
theorem timely_change (started : first ≤ source.next) (h : ∀ d ∈ docs, Timely first source d) :
    ∀ d ∈ docs', Timely first source' d := by
  have later := later_change forward change
  cases change with
  | @creates _ _ _ doc =>
    intro d there
    rcases List.mem_append.mp there with there | added
    · exact (h d there).later later
    · obtain rfl := List.mem_singleton.mp added
      obtain ⟨-, created, updated⟩ := lookup_marked doc (source.now.2.newId m.idStart.display).1
        source.now.1
      exact ⟨_, source.next, source.next, rfl, created, updated, started, Int.le_refl _, Int.le_refl _⟩
  | updates unstamped valid hn merged =>
    intro d there
    rcases List.mem_or_eq_of_mem_set there with there | rfl
    · exact (h d there).later later
    · obtain ⟨es, created, updated, same, hc, hu, from_first, order, past⟩ :=
        (h _ (List.getElem_mem hn)).read
      rw [same] at merged
      obtain ⟨es', rfl, -, created', updated'⟩ := merged_keeps distinct own unstamped valid merged
      rw [hc] at created'
      split at updated'
      · next timed =>
        simp only [Model.timed, timed, if_true, Source.now]
        exact ⟨es', created, source.next, rfl, created', updated', from_first, by omega, Int.le_refl _⟩
      · next untimed =>
        simp only [Model.timed, untimed]
        exact ⟨es', created, updated, rfl, created', updated'.trans hu, from_first, order, past⟩
  | removes kept => exact fun d there => h d (kept.subset there)
  | reads | numbers | aside => exact fun d there => (h d there).later later

/-- A change adds to the births of documents what a creation assigns, or some documents are gone. -/
theorem births_change (h : ∀ d ∈ docs, Timely first source d) (since : before.Later source)
    (issued : Issues before source issues) :
    ∃ more, Issues before source' (issues ++ more) ∧
      (docs'.map birth).Sublist (docs.map birth ++ more.map m.assigned) := by
  have later := later_change forward change
  have none {docs' : List Value} (kept : (docs'.map birth).Sublist (docs.map birth)) :
      ∃ more, Issues before source' (issues ++ more) ∧
        (docs'.map birth).Sublist (docs.map birth ++ more.map m.assigned) :=
    ⟨[], by simpa using issued.widen later, by simpa using kept⟩
  cases change with
  | @creates _ _ _ doc =>
    refine ⟨[(source.lastId + 1, source.next)], issued.draw forward since _, ?_⟩
    obtain ⟨id, created, -⟩ := lookup_marked doc (source.now.2.newId m.idStart.display).1 source.now.1
    simp only [List.map_append, List.map_cons, List.map_nil, birth, made, Value.under_object, id, created]
    exact .refl _
  | @updates _ _ _ doc _ k unstamped valid hn merged =>
    obtain ⟨es, -, -, same, -⟩ := (h _ (List.getElem_mem hn)).read
    rw [same] at merged
    obtain ⟨es', rfl, id, created, -⟩ := merged_keeps distinct own unstamped valid merged
    have births : (docs.set k (.object es')).map birth = docs.map birth := by
      have hn' : k < (docs.map birth).length := by simpa using hn
      have kept : birth (.object es') = (docs.map birth)[k] := by
        rw [List.getElem_map, same]
        simp only [birth, Value.under_object, id, created]
      rw [List.map_set, kept, List.set_getElem_self]
    exact none (births ▸ .refl _)
  | removes kept => exact none (kept.map _)
  | reads | numbers | aside => exact none (.refl _)

end

/-- A clock that does not go back, and documents whose times were read from it. -/
structure Aged (first : Int) (state : List Value × Source) : Prop where
  forward : 0 ≤ state.2.step
  started : first ≤ state.2.next
  timely : ∀ d ∈ state.1, Timely first state.2 d

/-- Along a history the births of documents are as they were, but for those that creations assign. -/
theorem births_history {new : Value → Prop} {first : Int} {start state : List Value × Source}
    (distinct : (m.schema.map (·.1)).Nodup) (own : LeavesOwn m.schema) (aged : Aged first start)
    (history : Relation.ReflTransGen (Change m new (Unstamped m) Source.Later) start state) :
    Aged first state ∧ start.2.Later state.2 ∧ ∃ issues, Issues start.2 state.2 issues ∧
      (state.1.map birth).Sublist (start.1.map birth ++ issues.map m.assigned) := by
  induction history with
  | refl =>
    refine ⟨aged, .refl _, [], ⟨.nil, by simp, by simp⟩, ?_⟩
    rw [List.map_nil, List.append_nil]
  | tail _ change ih =>
    obtain ⟨aged, since, issues, issued, kept⟩ := ih
    have later := later_change aged.forward change
    obtain ⟨more, issued', kept'⟩ :=
      births_change distinct own aged.forward change aged.timely since issued
    refine ⟨⟨?_, ?_, ?_⟩, since.trans later, issues ++ more, issued', ?_⟩
    · rw [later.step]
      exact aged.forward
    · exact Int.le_trans aged.started later.next
    · exact timely_change distinct own aged.forward change aged.started aged.timely
    · rw [List.map_append, ← List.append_assoc]
      exact kept'.trans (kept.append_right _)

/-- A document with times in the form of timestamps, of which that of the last change is not before that of
the creation. -/
def Stamped (d : Value) : Prop :=
  ∃ created updated, d.under "createdAt" = .string created ∧ d.under "updatedAt" = .string updated ∧
    Iso.isTimestamp created = true ∧ Iso.isTimestamp updated = true ∧ created.le updated

theorem Timely.stamped {d : Value} (h : Timely DateTime.microsPerDay source d)
    (last : source.next ≤ DateTime.lastInstant + source.step) : Stamped d := by
  obtain ⟨es, created, updated, rfl, hc, hu, first, order, past⟩ := h.read
  have inside : DateTime.InCalendar created := ⟨first, by omega⟩
  have inside' : DateTime.InCalendar updated := ⟨by omega, by omega⟩
  refine ⟨_, _, by simp [hc], by simp [hu], ?_, ?_, Source.stamp_mono order inside inside'⟩
  · exact Source.isTimestamp_stamp inside
  · exact Source.isTimestamp_stamp inside'

/-- Writing operations side by side on a collection that was empty, of which no change gives times of its
own, at a clock that does not go back: every document has times in order and in their form, and from one
point of the run to a later one documents keep their ids and times of creation, in their order; those that
are new have what creations in between assigned. -/
theorem births_stay {w : World} {p p' : Pool World Request Unit Unit}
    (distinct : (m.schema.map (·.1)).Nodup) (own : LeavesOwn m.schema) (model : w.model n = m)
    (collection : m.collection = .string c) (held : m.store < w.stores.length)
    (empty : m.documents w = []) (forward : 0 ≤ w.source.step)
    (first : DateTime.microsPerDay ≤ w.source.next)
    (last : p'.state.source.next ≤ DateTime.lastInstant + w.source.step)
    (run : Writes n m (fun _ => True) (Unstamped m) Source.Later { state := w } p)
    (run' : Writes n m (fun _ => True) (Unstamped m) Source.Later p p') :
    (∃ issues, Issues p.state.source p'.state.source issues ∧
      ((m.documents p'.state).map birth).Sublist
        ((m.documents p.state).map birth ++ issues.map m.assigned)) ∧
      ∀ d ∈ m.documents p'.state, Stamped d := by
  obtain ⟨keeps, history⟩ := writes_history collection trivial (.start ⟨model, held⟩) run
  obtain ⟨-, history'⟩ := writes_history collection trivial keeps run'
  have aged : Aged DateTime.microsPerDay (m.documents w, w.source) :=
    ⟨forward, first, by simp [empty]⟩
  obtain ⟨aged, since, -⟩ := births_history distinct own aged history
  obtain ⟨aged', since', issues, issued, kept⟩ := births_history distinct own aged history'
  refine ⟨⟨issues, issued, kept⟩, fun d there => (aged'.timely d there).stamped ?_⟩
  have step := (since.trans since').step
  dsimp only at step ⊢
  omega

/-! ## A note -/

def noteModel : Model :=
  { name := .string "Note", collection := .string "notes", schema := [("title", { type := .string })]
    relations := [], idStart := .string "not", timestamps := .bool true, store := 0, database := 0 }

def noNotes : World :=
  { source := ⟨DateTime.microsPerDay, 1000, 0⟩
    stores := [{ path := "data", indent := .int 2, connected := true
                 memory := { collections := [("notes", [])] } }]
    models := [noteModel] }

def titled (title : String) : Value := .object [("title", .string title)]

/-- Notes after one was created. -/
def noteWritten : Pool World Request Unit Unit :=
  Pool.goes { state := noNotes } 0 ((Write.create (titled "a")).task 0)

/-- Notes after that one was changed as well. -/
def noteChanged (data : Value) : Pool World Request Unit Unit :=
  noteWritten.goes 1 ((Write.update (.string "not_000000000001") data).task 0)

theorem note_leaves_own : LeavesOwn noteModel.schema := by simp [LeavesOwn, ownFields, noteModel]

theorem note_written (changed : Value → Prop) :
    Writes 0 noteModel (fun _ => True) changed Source.Later { state := noNotes } noteWritten :=
  .step .start (.calls ⟨.create (titled "a"), trivial, rfl⟩)

theorem note_changed {new changed : Value → Prop} {data : Value} (given : changed data) :
    Writes 0 noteModel new changed Source.Later noteWritten (noteChanged data) :=
  .step .start (.calls ⟨.update _ data, given, rfl⟩)

/-- The note has its id and the time of its creation still when its title was changed. -/
theorem note_keeps_birth :
    (noteModel.documents (noteChanged (titled "b")).state).length = 1 ∧
      (∃ issues, Issues noteWritten.state.source (noteChanged (titled "b")).state.source issues ∧
        ((noteModel.documents (noteChanged (titled "b")).state).map birth).Sublist
          ((noteModel.documents noteWritten.state).map birth ++ issues.map noteModel.assigned)) ∧
      ∀ d ∈ noteModel.documents (noteChanged (titled "b")).state, Stamped d := by
  have unstamped : Unstamped noteModel (titled "b") := by
    refine ⟨?_, rfl, nofun⟩
    rintro es ⟨⟩
    decide
  exact ⟨by decide +kernel, births_stay (n := 0) (w := noNotes) (by decide) note_leaves_own rfl rfl
    (by decide) rfl (by decide) (by decide) (by decide +kernel) (note_written _)
    (note_changed unstamped)⟩

def misdated : Value := .object [("createdAt", .string "x")]

def birthTexts (d : Value) : Option String × Option String :=
  ((birth d).1.text?, (birth d).2.text?)

/-- A change that gives a time of creation puts it in the place of the one that was assigned. -/
theorem note_birth_lost :
    Writes 0 noteModel (fun _ => True) (fun _ => True) Source.Later { state := noNotes } noteWritten ∧
      Writes 0 noteModel (fun _ => True) (fun _ => True) Source.Later noteWritten
        (noteChanged misdated) ∧
      (noteModel.documents noteWritten.state).map birthTexts =
        [(some "not_000000000001", some "0001-01-01T00:00:00.000Z")] ∧
      (noteModel.documents (noteChanged misdated).state).map birthTexts =
        [(some "not_000000000001", some "x")] ∧
      ¬∀ d ∈ noteModel.documents (noteChanged misdated).state, Stamped d := by
  have after : (noteModel.documents (noteChanged misdated).state).map birthTexts =
      [(some "not_000000000001", some "x")] := by decide +kernel
  refine ⟨note_written _, note_changed trivial, by decide +kernel, after, fun stamped => ?_⟩
  obtain ⟨d, there, own⟩ := List.mem_map.mp (after ▸ List.mem_singleton_self _)
  obtain ⟨created, -, held, -, form, -⟩ := stamped d there
  have same : (d.under "createdAt").text? = some "x" := congrArg Prod.snd own
  rw [held] at same
  obtain rfl := Option.some.inj same
  exact absurd form (by decide)

end Model

end DocStore
