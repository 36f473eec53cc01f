import DocStore.Proofs.Model.Stamps
import DocStore.Proofs.Relation.Junction
import DocStore.Proofs.Store.Bag
/-!
Links that are made and taken back again: along every run of such calls the join rows are the links that
stand, in the order in which they were made and as often as they were made.
-/

namespace DocStore

open Writer (serve)

/-! ## Calls -/

/-- A call that links two documents, or takes their links back. -/
inductive LinkCall where
  | associate (id related : String)
  | dissociate (id related : String)
deriving DecidableEq

namespace LinkCall

def task (n : Nat) (name : Value) : LinkCall → Op Unit
  | associate a b => do let _ ← Model.associate n (.string a) name (.string b)
  | dissociate a b => do let _ ← Model.dissociate n (.string a) name (.string b)

/-- The links that stand after some calls, in the order in which they were made: those that no later call
takes back. -/
def standing : List LinkCall → List (String × String)
  | [] => []
  | associate a b :: later =>
    if dissociate a b ∈ later then standing later else (a, b) :: standing later
  | dissociate _ _ :: later => standing later

/-- How often two documents were linked since their links were taken back last. -/
def since (a b : String) (calls : List LinkCall) : Nat :=
  (calls.reverse.takeWhile (· ≠ dissociate a b)).count (associate a b)

variable {a b : String} {calls : List LinkCall}

theorem standing_associate (a b : String) (calls : List LinkCall) :
    standing (calls ++ [associate a b]) = standing calls ++ [(a, b)] := by
  induction calls with
  | nil => simp [standing]
  | cons call later ih =>
    cases call with
    | associate c d =>
      simp only [List.cons_append, standing, ih, List.mem_append, List.mem_singleton, reduceCtorEq,
        or_false]
      split <;> rfl
    | dissociate c d => exact ih

theorem standing_dissociate (a b : String) (calls : List LinkCall) :
    standing (calls ++ [dissociate a b]) = (standing calls).filter (· ≠ (a, b)) := by
  induction calls with
  | nil => rfl
  | cons call later ih =>
    cases call with
    | associate c d =>
      simp only [List.cons_append, standing, ih, List.mem_append, List.mem_singleton,
        dissociate.injEq]
      by_cases own : c = a ∧ d = b
      · obtain ⟨rfl, rfl⟩ := own
        simp only [and_self, or_true, if_true]
        split
        · rfl
        · simp
      · have other : (c, d) ≠ (a, b) := fun same => own (Prod.ext_iff.mp same)
        simp only [own, or_false]
        split
        · rfl
        · simp [other]
    | dissociate c d => exact ih

/-- A link stands as often as it was made since it was taken back last. -/
theorem count_standing (a b : String) (calls : List LinkCall) :
    (standing calls).count (a, b) = since a b calls := by
  induction calls using List.reverseRecOn with
  | nil => rfl
  | append_singleton calls call ih =>
    simp only [since, List.reverse_append, List.reverse_singleton, List.singleton_append,
      List.takeWhile_cons] at ih ⊢
    cases call with
    | associate c d =>
      rw [standing_associate, List.count_append, ih]
      by_cases own : (c, d) = (a, b)
      · cases own
        simp
      · have other : associate c d ≠ associate a b := by simpa [Prod.ext_iff] using own
        simp [own, other]
    | dissociate c d =>
      rw [standing_dissociate]
      by_cases own : (c, d) = (a, b)
      · cases own
        simp [List.count_eq_zero]
      · have other : dissociate c d ≠ dissociate a b := by simpa [Prod.ext_iff] using own
        have stays : ((standing calls).filter (· ≠ (c, d))).count (a, b) =
            (standing calls).count (a, b) := List.count_filter (decide_eq_true (Ne.symm own))
        rw [stays, ih]
        simp [other]

end LinkCall

/-- A `manyToMany` relation, by its name, that keeps its links in join rows. -/
structure Relation.KeptIn (r : Relation) (name : Value) (J : Junction) : Prop where
  type : r.type = .manyToMany
  foreignKey : r.foreignKey = .string J.own
  join : r.join name = .ok (.string J.collection, .string J.other)

/-- The relation that model `n` has under a name, and the model that it leads to. -/
def Model.Resolves (n : Nat) (name : Value) (r : Relation) (related : Related) (w : World) : Prop :=
  (w.model n).owner.resolve (registryOf (w.model n).database w) name = .ok (r, related)

/-- What happens apart from the links of model `n`: files, other collections and other models may change,
and ids may be drawn. -/
structure Model.Elsewhere (n : Nat) (c : String) (w w' : World) : Prop where
  model : w'.model n = w.model n
  registry : registryOf (w.model n).database w' = registryOf (w.model n).database w
  apart : World.Apart (w.model n).store c w w'
  lastId : w.source.lastId ≤ w'.source.lastId

/-- A run of calls on a relation of model `n` that are awaited one after the other, with anything in between
that leaves the join rows alone; each call may fail. -/
inductive Model.Linking (n : Nat) (name : Value) (c : String) (w : World) : List LinkCall → World → Prop
  | start : Linking n name c w [] w
  | call {calls : List LinkCall} {v : World} (run : Linking n name c w calls v) (call : LinkCall) :
      Linking n name c w (calls ++ [call]) ((call.task n name).run serve v).1
  | aside {calls : List LinkCall} {v v' : World} (run : Linking n name c w calls v)
      (elsewhere : Elsewhere n c v v') : Linking n name c w calls v'

namespace Model

variable {n : Nat} {m : Model} {name : Value} {r : Relation} {related : Related} {J : Junction}
  {w w' : World} {calls : List LinkCall}

/-! ## What a call comes to -/

theorem advance_link (kept : r.KeptIn name J) (resolves : Resolves n name r related w)
    (operation : String) : (link n name operation).advance w =
      (w, .done (.ok (r, .string J.collection, .string J.other))) := by
  simp only [Resolves] at resolves
  simp [link, Task.get, Task.ofResult, bind, Task.bind, Task.advance, resolves, kept.type, kept.join,
    pure]

def rowStart (m : Model) : String := m.idStart.display ++ "rel"

def newRow (n : Nat) (w : World) (a b : String) : Row :=
  ⟨(w.source.now.2.newId (w.model n).rowStart).1, w.source.now.1, (a, b)⟩

def rowDrawn (n : Nat) (w : World) : World :=
  { w with source := (w.source.now.2.newId (w.model n).rowStart).2 }

theorem advance_associate (kept : r.KeptIn name J) (resolves : Resolves n name r related w)
    (a b : String) : (associate n (.string a) name (.string b)).advance w =
      (Store.insert (w.model n).store (.string J.collection) (J.doc (newRow n w a b))).advance
        (rowDrawn n w) := by
  rw [associate, Task.advance_bind_done (advance_link kept resolves "associate"), ← J.merge_doc]
  simp only [kept.foreignKey]
  rfl

theorem advance_dissociate (kept : r.KeptIn name J) (resolves : Resolves n name r related w)
    (a b : String) : (dissociate n (.string a) name (.string b)).advance w =
      (Store.deleteMany (w.model n).store (.string J.collection) (J.filter a b)).advance w := by
  rw [dissociate, Task.advance_bind_done (advance_link kept resolves "dissociate"), ← J.merge_filter]
  simp only [kept.foreignKey]
  rfl

/-! ## What every run keeps -/

/-- The join rows are the links that stand after some calls. Each has an id that was drawn for it. -/
structure Ledger (n : Nat) (m : Model) (name : Value) (r : Relation) (related : Related) (J : Junction)
    (calls : List LinkCall) (w : World) : Prop where
  model : w.model n = m
  resolves : Resolves n name r related w
  rows : ∃ rows : List Row, (w.store m.store).Bag J.collection (rows.map J.doc) ∧
    rows.map Row.link = LinkCall.standing calls ∧
    ∀ row ∈ rows, ∃ s : Source, s.lastId < w.source.lastId ∧ row.id = (s.newId m.rowStart).1

theorem model_spares (h : w.Spares w') (n : Nat) : w'.model n = w.model n := by
  rw [World.model, World.model, h.models]

theorem resolves_spares (resolves : Resolves n name r related w) (h : w.Spares w') :
    Resolves n name r related w' := by
  have registry : registryOf (w.model n).database w' = registryOf (w.model n).database w := by
    simp only [registryOf, World.database, World.model, h.databases, h.models]
  rw [Resolves, model_spares h, registry]
  exact resolves

theorem newId_filled (s : Source) (start : String) : (s.newId start).1 ≠ "" := by
  intro none
  have digits := congrArg String.toList none
  simp [Source.newId] at digits

theorem ledger_associate (kept : r.KeptIn name J) (h : Ledger n m name r related J calls w)
    (a b : String) : Ledger n m name r related J (calls ++ [.associate a b])
      ((associate n (.string a) name (.string b)).run serve w).1 := by
  obtain ⟨rfl, resolves, rows, bag, links, drawn⟩ := h
  have fresh : ∀ d ∈ rows.map J.doc, d.under "id" ≠ (J.doc (newRow n w a b)).under "id" := by
    intro d hd same
    obtain ⟨row, there, rfl⟩ := List.mem_map.mp hd
    obtain ⟨s, earlier, own⟩ := drawn row there
    rw [J.doc_id, J.doc_id, own] at same
    have number := Source.newId_inj (Value.string.inj same)
    exact Nat.ne_of_lt earlier number
  have known := Store.hasId_of_text (J.doc_document _) (J.doc_id (newRow n w a b)) (newId_filled _ _)
  rw [Task.run_advance, advance_associate kept resolves, ← Task.run_advance]
  obtain ⟨-, added⟩ := Store.insert_adds (w := rowDrawn n w) bag (J.doc_document _) known fresh
  have spares := Op.Spares.run
    (Op.spares_insert (w.model n).store (.string J.collection) (J.doc (newRow n w a b))) (rowDrawn n w)
  refine ⟨model_spares spares n, resolves_spares (w := rowDrawn n w) resolves spares,
    rows ++ [newRow n w a b], ?_, ?_, ?_⟩
  · rw [List.map_append]
    exact added
  · rw [LinkCall.standing_associate, List.map_append, links]
    rfl
  · intro row there
    rw [spares.source]
    rcases List.mem_append.mp there with there | new
    · obtain ⟨s, earlier, own⟩ := drawn row there
      exact ⟨s, Nat.lt_succ_of_lt earlier, own⟩
    · obtain rfl := List.mem_singleton.mp new
      exact ⟨w.source.now.2, Nat.lt_succ_self _, rfl⟩

/-- What taking links back does to the rows, and what it replies. -/
theorem dissociate_replies (kept : r.KeptIn name J) (resolves : Resolves n name r related w)
    {docs : List Value} (bag : (w.store (w.model n).store).Bag J.collection docs) (a b : String) :
    let call := dissociate n (.string a) name (.string b)
    let ran := call.run serve w
    w.Spares ran.1 ∧
      (ran.1.store (w.model n).store).Bag J.collection (docs.filter (!J.links a b ·)) ∧
      (ran.2 = .ok (docs.filter (J.links a b)).length ∨ ∃ f, ran.2 = .error (.fault f)) ∧
      (call.Granted serve w → ran.2 = .ok (docs.filter (J.links a b)).length) := by
  have found := J.run_filter a b bag.kept.documents
  obtain ⟨-, left, replies, granted⟩ := Store.deleteMany_replies bag found
  have spares := Op.Spares.run
    (Op.spares_deleteMany (w.model n).store (.string J.collection) (J.filter a b)) w
  simp only [Task.run_advance serve (dissociate n (.string a) name (.string b)),
    Task.granted_advance (t := dissociate n (.string a) name (.string b)),
    advance_dissociate kept resolves, ← Task.run_advance, ← Task.granted_advance]
  exact ⟨spares, left, replies, granted⟩

theorem ledger_dissociate (kept : r.KeptIn name J) (h : Ledger n m name r related J calls w)
    (a b : String) : Ledger n m name r related J (calls ++ [.dissociate a b])
      ((dissociate n (.string a) name (.string b)).run serve w).1 := by
  obtain ⟨rfl, resolves, rows, bag, links, drawn⟩ := h
  obtain ⟨spares, left, -⟩ := dissociate_replies kept resolves bag a b
  refine ⟨model_spares spares n, resolves_spares resolves spares, rows.filter (·.link ≠ (a, b)), ?_, ?_, ?_⟩
  · rw [← J.filter_others]
    exact left
  · rw [LinkCall.standing_dissociate, ← links, List.filter_map]
    rfl
  · intro row there
    rw [spares.source]
    exact drawn row (List.mem_of_mem_filter there)

theorem ledger_elsewhere (h : Ledger n m name r related J calls w)
    (elsewhere : Elsewhere n J.collection w w') : Ledger n m name r related J calls w' := by
  obtain ⟨rfl, resolves, rows, bag, links, drawn⟩ := h
  refine ⟨elsewhere.model, ?_, rows, bag.alike elsewhere.apart.alike, links, fun row there => ?_⟩
  · rw [Resolves, elsewhere.model, elsewhere.registry]
    exact resolves
  · obtain ⟨s, earlier, own⟩ := drawn row there
    exact ⟨s, Nat.lt_of_lt_of_le earlier elsewhere.lastId, own⟩

/-- Along a run the join rows are the links that stand. -/
theorem ledger_run (kept : r.KeptIn name J) (resolves : Resolves n name r related w)
    (empty : (w.store (w.model n).store).Bag J.collection [])
    (run : Linking n name J.collection w calls w') :
    Ledger n (w.model n) name r related J calls w' := by
  have alone {α : Type} (t : Op α) (v : World) :
      ((t >>= fun _ => pure () : Op Unit).run serve v).1 = (t.run serve v).1 := by
    rw [Task.run_bind]
    obtain ⟨v', result⟩ := t.run serve v
    cases result <;> rfl
  induction run with
  | start => exact ⟨rfl, resolves, [], empty, rfl, List.forall_mem_nil _⟩
  | call run call ih =>
    cases call with
    | associate a b =>
      rw [LinkCall.task, alone]
      exact ledger_associate kept ih a b
    | dissociate a b =>
      rw [LinkCall.task, alone]
      exact ledger_dissociate kept ih a b
  | aside run elsewhere ih => exact ledger_elsewhere ih elsewhere

/-! ## What a parent lists -/

open Populate (bearer? holding share)

/-- The stored documents that the links of a document lead to, in the order of the links. -/
def linkedTo (docs : List Value) (links : List (String × String)) (id : String) : List Value :=
  (links.filter (·.1 = id)).filterMap fun l => bearer? docs (.string l.2)

/-- What the rows of a document lead to is what its links lead to. -/
theorem linkedTo_rows (docs : List Value) (rows : List Row) (id : String) :
    ((holding (rows.map J.doc) (.string J.own) (.string id)).filterMap fun row =>
      bearer? docs (row.field (.string J.other))) = linkedTo docs (rows.map Row.link) id := by
  have own (row : Row) : (J.doc row).field (.string J.own) = .string row.link.1 := J.doc_own row
  have other (row : Row) : (J.doc row).field (.string J.other) = .string row.link.2 := J.doc_other row
  rw [linkedTo, holding, List.filter_map, List.filter_map, List.filterMap_map, List.filterMap_map]
  have same : rows.filter ((fun d => strictEq (d.field (.string J.own)) (.string id)) ∘ J.doc) =
      rows.filter ((fun l : String × String => decide (l.1 = id)) ∘ Row.link) := by
    refine List.filter_congr fun row _ => ?_
    rw [Function.comp_apply, Function.comp_apply, own, Bool.eq_iff_iff, strictEq_string,
      decide_eq_true_iff, Value.string.injEq]
  rw [same]
  refine congrArg (fun f => List.filterMap f _) (funext fun row => ?_)
  rw [Function.comp_apply, Function.comp_apply, other]

/-- Loading the relation gives each parent the stored documents that its links lead to. -/
theorem populated_links (kept : r.KeptIn name J) (h : Ledger n m name r related J calls w)
    {parents : List Value} {id : Value → String} (named : ∀ p ∈ parents, idOf p = .ok (.string (id p)))
    (held : (w.store m.store).memory.holds related.collection = true)
    (docs : Labelled ((w.store m.store).memory.documents related.collection)) :
    ∃ journal, (populated n parents (.list [name])).run serve w = ({ w with journal },
      .ok (parents.map fun p => p.putEntry name (.list
        (linkedTo ((w.store m.store).memory.documents related.collection)
          (LinkCall.standing calls) (id p))))) := by
  obtain ⟨rfl, resolves, rows, bag, links, -⟩ := h
  have unfolded : (populated n parents (.list [name])).advance w =
      (Populate.run (w.model n).store (w.model n).owner (registryOf (w.model n).database)
        (.list parents) (.list [name])).advance w := rfl
  cases parents with
  | nil => exact ⟨w.journal, rfl⟩
  | cons first rest =>
    have texts : ∀ p ∈ first :: rest, ∃ t, idOf p = .ok (.string t) := fun p hp => ⟨_, named p hp⟩
    have objects : ∀ p ∈ first :: rest, p.entries?.isSome = true := fun p hp =>
      Value.object_of_idOf (named p hp)
    obtain ⟨journal, stop, -⟩ := Populate.reads_run (i := (w.model n).store)
      (List.cons_ne_nil first rest) (List.cons_ne_nil name []) objects
      (Populate.reads_relations_one resolves)
    have given : r.joinCollection = .string J.collection ∧ r.relatedKey = .string J.other ∧
        r.joinCollection.truthy = true ∧ r.relatedKey.truthy = true := by
      have truthy := (Populate.join_yields name r).only _ kept.join
      have same := ((Populate.join_yields name r).done truthy).symm.trans kept.join
      simp only [Except.ok.injEq, Prod.mk.injEq] at same
      exact ⟨same.1, same.2, truthy⟩
    have joinRows : (w.store (w.model n).store).memory.documents r.joinCollection = rows.map J.doc := by
      rw [given.1, bag.documents]
    have rowObjects : ∀ d ∈ (w.store (w.model n).store).memory.documents r.joinCollection,
        d.entries?.isSome = true := by
      intro d hd
      rw [joinRows] at hd
      obtain ⟨row, -, rfl⟩ := List.mem_map.mp hd
      rfl
    -- related ids are texts, so none is asked for as a type of the same name
    have apart : Populate.Apart ((w.store (w.model n).store).memory.documents related.collection)
        (Populate.relatedKeys (w.store (w.model n).store) r (first :: rest)) := by
      intro d _ t _ typed
      simp only [Populate.relatedKeys, kept.type, joinRows, given.2.1] at typed
      obtain ⟨row, there, key⟩ := List.mem_map.mp typed
      obtain ⟨row, -, rfl⟩ := List.mem_map.mp (List.mem_of_mem_filter there)
      cases (J.doc_other row).symm.trans key
    have loadable : Populate.Loadable (w.store (w.model n).store) r related (first :: rest) := by
      simp only [Populate.Loadable, kept.type, kept.foreignKey, given.1, given.2.1] at given ⊢
      exact ⟨given.2.2, ⟨rfl, bag.connected, bag.held⟩, fun _ => ⟨rfl, bag.connected, held⟩⟩
    rw [(Populate.loaded_joined_yields kept.type rowObjects docs texts apart).done loadable] at stop
    refine ⟨journal, (Task.run_of_done (unfolded.trans stop)).trans ?_⟩
    refine congrArg (fun found => (_, Except.ok found)) (List.map_congr_left fun p hp => ?_)
    have own : p.under "id" = .string (id p) := Value.under_of_idOf (named p hp)
    simp only [share, kept.type, kept.foreignKey, given.2.1, joinRows, own, linkedTo_rows, links]

/-- Along every run of calls on a relation that began without join rows, the rows are the links that stand,
in the order in which they were made. Taking links of two documents back removes just their rows, and
replies with the number of calls that linked them since the last time, unless the writer fails. Parents
that are populated list, once for each of their links and in this order, the related documents that are
stored. -/
theorem links_stand (kept : r.KeptIn name J) (resolves : Resolves n name r related w)
    (empty : (w.store (w.model n).store).Bag J.collection [])
    (run : Linking n name J.collection w calls w') :
    let store (v : World) := (v.store (w.model n).store).memory
    let rows := (store w').documents (.string J.collection)
    (rows.map fun d => (d.under J.own, d.under J.other)) =
        ((LinkCall.standing calls).map fun l => (.string l.1, .string l.2)) ∧
      (∀ a b,
        let call := dissociate n (.string a) name (.string b)
        let ran := call.run serve w'
        (store ran.1).documents (.string J.collection) = rows.filter (!J.links a b ·) ∧
          (rows.filter (J.links a b)).length = LinkCall.since a b calls ∧
          (ran.2 = .ok (LinkCall.since a b calls) ∨ ∃ f, ran.2 = .error (.fault f)) ∧
          (call.Granted serve w' → ran.2 = .ok (LinkCall.since a b calls))) ∧
      ∀ (parents : List Value) (id : Value → String),
        (∀ p ∈ parents, idOf p = .ok (.string (id p))) →
        (store w').holds related.collection = true →
        Labelled ((store w').documents related.collection) →
        ∃ journal, (populated n parents (.list [name])).run serve w' = ({ w' with journal },
          .ok (parents.map fun p => p.putEntry name (.list
            (linkedTo ((store w').documents related.collection) (LinkCall.standing calls) (id p))))) := by
  intro store rows
  have ledger := ledger_run kept resolves empty run
  obtain ⟨made, bag, links, -⟩ := ledger.rows
  have stored : rows = made.map J.doc := bag.documents
  refine ⟨?_, fun a b => ?_, fun parents id named held docs => populated_links kept ledger named held docs⟩
  · rw [stored, ← links, List.map_map, List.map_map]
    refine List.map_congr_left fun row _ => ?_
    rw [Function.comp_apply, Function.comp_apply, J.doc_own, J.doc_other]
  · intro call ran
    have number : (rows.filter (J.links a b)).length = LinkCall.since a b calls := by
      rw [stored, J.filter_docs, List.length_map, ← LinkCall.count_standing, ← links, List.count,
        List.countP_map, List.countP_eq_length_filter]
      refine congrArg List.length (List.filter_congr fun row _ => ?_)
      rw [Function.comp_apply, Bool.eq_iff_iff, decide_eq_true_iff, beq_iff_eq]
    obtain ⟨-, left, replies, granted⟩ :=
      dissociate_replies kept ledger.resolves (ledger.model.symm ▸ bag) a b
    rw [ledger.model] at left
    rw [← stored] at left replies granted
    rw [number] at replies granted
    exact ⟨left.documents, number, replies, granted⟩

/-! ## Tags of a post -/

def tagsOfPost : Relation :=
  ⟨.manyToMany, .string "Tag", .string "postId", .string "post_tags", .string "tagId"⟩

def taggings : Junction := ⟨"post_tags", "postId", "tagId", by decide, by decide, by decide⟩

def post : Value := .object [("id", .string "p")]

def tag : Value := .object [("id", .string "t")]

/-- A world of posts and tags before the collection of join rows is opened. -/
def untagged : World :=
  { directory := some []
    source := ⟨DateTime.microsPerDay, 1000, 0⟩
    stores := [{ path := "data", indent := .int 2, connected := true
                 memory := { collections := [("posts", []), ("tags", [])] } }]
    models := [
      { name := .string "Post", collection := .string "posts", schema := []
        relations := [("tags", tagsOfPost)], idStart := .string "pos", timestamps := .bool true
        store := 0, database := 0 },
      { name := .string "Tag", collection := .string "tags", schema := [], relations := []
        idStart := .string "tag", timestamps := .bool true, store := 0, database := 0 }]
    databases := [{ settings := {}, store := some 0, connected := true
                    models := [(.string "Post", 0), (.string "Tag", 1)] }] }

def taggingSchema : Schema := [("postId", { type := .string, index := .bool true })]

def opened : World :=
  ((Store.createCollection 0 (.string "post_tags") taggingSchema none).run serve untagged).1

/-- A post is tagged twice alike, and once with a tag that is not stored. -/
def taggingCalls : List LinkCall := [.associate "p" "t", .associate "p" "gone", .associate "p" "t"]

/-- The world after the calls. -/
def called : World :=
  taggingCalls.foldl (fun w call => ((call.task 0 (.string "tags")).run serve w).1) opened

def tagStored (w : World) : World :=
  w.setStore 0 { w.store 0 with memory := (w.store 0).memory.setDocuments "tags" [tag] }

theorem tagStored_memory (here : 0 < w.stores.length) :
    ((tagStored w).store 0).memory = (w.store 0).memory.setDocuments "tags" [tag] :=
  congrArg Store.memory (Writer.stores_setStore here _)

theorem tagStored_elsewhere (here : 0 < w.stores.length) (store : (w.model 0).store = 0) :
    Elsewhere 0 "post_tags" w (tagStored w) := by
  refine ⟨rfl, rfl, ⟨Nat.le_of_eq (List.length_set ..).symm, ?_⟩, Nat.le_refl _⟩
  rw [store, tagStored, Writer.stores_setStore here]
  exact ⟨rfl, (Table.lookup_put ..).trans (if_neg (by decide)), rfl, rfl⟩

/-- The post lists its tag twice, and taking it back counts two. -/
theorem tags_stand :
    (∃ journal, (populated 0 [post] (.list [.string "tags"])).run serve (tagStored called) =
      ({ tagStored called with journal }, .ok [post.putEntry (.string "tags") (.list [tag, tag])])) ∧
      ((dissociate 0 (.string "p") (.string "tags") (.string "t")).run serve (tagStored called)).2 =
        .ok 2 := by
  have kept : tagsOfPost.KeptIn (.string "tags") taggings := ⟨rfl, rfl, rfl⟩
  have spares : untagged.Spares opened := Op.Spares.run
    (Op.spares_createCollection 0 (.string "post_tags") taggingSchema none) untagged
  have resolves : Resolves 0 (.string "tags") tagsOfPost ⟨.string "Tag", .string "tags"⟩ opened := by
    refine resolves_spares ?_ spares
    simp [Resolves, Owner.resolve, Owner.relation?, Registry.find, registryOf, untagged, World.model,
      World.database, owner, isSame_string, Value.isHashable, Value.text?, Table.get?, tagsOfPost, bind,
      Except.bind, pure, Except.pure]
  have store : (opened.model 0).store = 0 := congrArg Model.store (model_spares spares 0)
  have empty : (opened.store (opened.model 0).store).Bag "post_tags" [] := by
    rw [store]
    refine .of_created (w := untagged) rfl rfl ?_
    simp [taggingSchema, Value.truthy]
  have calls : Linking 0 (.string "tags") "post_tags" opened taggingCalls called :=
    ((Linking.start.call (.associate "p" "t")).call (.associate "p" "gone")).call (.associate "p" "t")
  have ledger := ledger_run kept resolves empty calls
  have here : 0 < called.stores.length := by
    obtain ⟨_, bag, -⟩ := ledger.rows
    rw [store] at bag
    exact World.here_of_connected bag.connected
  have run := calls.aside (tagStored_elsewhere here ((congrArg Model.store ledger.model).trans store))
  obtain ⟨-, back, lists⟩ := links_stand kept resolves empty run
  rw [store] at lists
  have docs : ((tagStored called).store 0).memory.documents (.string "tags") = [tag] := by
    rw [tagStored_memory here, Memory.documents_string, Memory.setDocuments_collections,
      Table.lookup_put, if_pos rfl]
    rfl
  have held : ((tagStored called).store 0).memory.holds (.string "tags") = true := by
    rw [tagStored_memory here, Memory.holds_string, Memory.setDocuments_collections, Table.has_put]
    rfl
  have labelled : Labelled [tag] :=
    ⟨fun d hd => ⟨"t", by decide, List.mem_singleton.mp hd ▸ rfl⟩, List.pairwise_singleton ..⟩
  have listed := lists [post] (fun _ => "p") (fun p hp => List.mem_singleton.mp hp ▸ rfl) held
    (docs ▸ labelled)
  rw [docs] at listed
  exact ⟨listed, (back "p" "t").2.2.2 (by decide +kernel)⟩

end Model

end DocStore
