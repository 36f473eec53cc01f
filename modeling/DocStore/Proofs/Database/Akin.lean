import DocStore.Proofs.Database.Mirror
import DocStore.Proofs.Store.Akin
/-!
Worlds in which one store is the same but for the order of its tables: operations on collections end alike
in both, whether they succeed or fail, and leave such worlds.
-/

namespace DocStore

open Writer (serve)

/-- Two worlds with akin stores and the same files, times and ids; their models and databases are those of
two worlds that are given. -/
structure World.Akin (i : Nat) (W W' w w' : World) : Prop where
  here : i < w.stores.length
  here' : i < w'.stores.length
  store : (w.store i).Akin (w'.store i)
  directory : w.directory.Akin w'.directory
  source : w'.source = w.source
  models : w.models = W.models
  models' : w'.models = W'.models
  databases : w.databases = W.databases
  databases' : w'.databases = W'.databases

namespace World.Akin

variable {i : Nat} {W W' w w' v v' : World} {s s' : Store}

theorem put (h : Akin i W W' w w') (stores : v.stores = w.stores.set i s)
    (stores' : v'.stores = w'.stores.set i s') (store : s.Akin s')
    (directory : v.directory.Akin v'.directory) (keeps : w.Keeps v) (keeps' : w'.Keeps v') :
    Akin i W W' v v' := by
  refine ⟨?_, ?_, ?_, directory, ?_, ?_, ?_, ?_, ?_⟩
  · rw [stores, List.length_set]
    exact h.here
  · rw [stores', List.length_set]
    exact h.here'
  · rw [store_of_stores h.here stores, store_of_stores h.here' stores']
    exact store
  · rw [keeps.source, keeps'.source, h.source]
  · rw [keeps.models, h.models]
  · rw [keeps'.models, h.models']
  · rw [keeps.databases, h.databases]
  · rw [keeps'.databases, h.databases']

theorem hides (h : Akin i W W' w w') (hides : w.Hides v) (hides' : w'.Hides v') : Akin i W W' v v' := by
  obtain ⟨here, here', store, directory, source, models, models', databases, databases'⟩ := h
  obtain ⟨_, _, _, _, _, _, _, _⟩ := v
  obtain ⟨_, _, _, _, _, _, _, _⟩ := v'
  obtain ⟨rfl, rfl, rfl, rfl, rfl⟩ := hides
  obtain ⟨rfl, rfl, rfl, rfl, rfl⟩ := hides'
  exact ⟨here, here', store, directory, source, models, models', databases, databases'⟩

end World.Akin

namespace Op

variable {α β γ δ : Type} {i : Nat} {W W' w w' : World} {t u : Op α} {f g : α → Op β}
  {Q : γ → δ → World → World → Prop}

/-- One operation does from its world what the other does from its own. -/
abbrev Accords (i : Nat) (W W' : World) (Q : α → β → World → World → Prop) (t : Op α) (u : Op β)
    (w w' : World) : Prop :=
  Task.Accord serve (World.Akin i W W') Q t u w w'

/-- Two operations end with one result in akin worlds. -/
def Equal (i : Nat) (W W' : World) (a b : α) (w w' : World) : Prop := a = b ∧ World.Akin i W W' w w'

/-- Two operations end alike from akin worlds. -/
def Akin (i : Nat) (W W' : World) (t u : Op α) : Prop :=
  ∀ w w', World.Akin i W W' w w' → Accords i W W' (Equal i W W') t u w w'

/-! ## Operations in sequence -/

theorem akin_result (r : Result α) :
    Akin i W W' (Task.ofResult r : Op α) (Task.ofResult r : Op α) := by
  intro w w' akin
  cases r with
  | ok a => exact .ok ⟨rfl, akin⟩
  | error e => exact .error akin

theorem akin_pure (a : α) : Akin i W W' (pure a : Op α) (pure a : Op α) := akin_result (.ok a)

theorem akin_raise (e : Error) : Akin i W W' (Task.raise e : Op α) (Task.raise e : Op α) :=
  akin_result (.error e)

theorem accord_akin {f : α → Op γ} {g : α → Op δ} (h : Akin i W W' t u) (akin : World.Akin i W W' w w')
    (next : ∀ a v v', World.Akin i W W' v v' → Accords i W W' Q (f a) (g a) v v') :
    Accords i W W' Q (t >>= f) (u >>= g) w w' := by
  apply Task.accord_bind (h w w' akin)
  rintro a _ v v' ⟨rfl, later⟩
  exact next a v v' later

theorem akin_bind (h : Akin i W W' t u) (next : ∀ a, Akin i W W' (f a) (g a)) :
    Akin i W W' (t >>= f) (u >>= g) :=
  fun _ _ akin => accord_akin h akin next

theorem akin_given {r : Result α} (next : ∀ a, Akin i W W' (f a) (g a)) :
    Akin i W W' (Task.ofResult r >>= f) (Task.ofResult r >>= g) :=
  akin_bind (akin_result r) next

/-- What two operations see of akin worlds may differ; what they make of it then is akin. -/
theorem akin_get {f g : World → Op β} (next : ∀ v v', World.Akin i W W' v v' → Akin i W W' (f v) (g v')) :
    Akin i W W' (Task.get >>= f) (Task.get >>= g) :=
  fun w w' akin => next w w' akin w w' akin

theorem akin_store {f g : Store → Op β} (next : ∀ s s', s.Akin s' → Akin i W W' (f s) (g s')) :
    Akin i W W' (Op.store i >>= f) (Op.store i >>= g) :=
  fun w w' akin => next _ _ akin.store w w' akin

theorem akin_unseen {t u : Op Unit} (ht : Unseen t) (hu : Unseen u) : Akin i W W' t u := by
  intro w w' akin
  obtain ⟨v, _, ran, hides⟩ := ht w
  obtain ⟨v', _, ran', hides'⟩ := hu w'
  rw [Accords, Task.Accord, ran, ran']
  exact .ok ⟨rfl, akin.hides hides hides'⟩

theorem akin_attempt (h : Akin i W W' t u) : Akin i W W' t.attempt u.attempt := by
  intro w w' akin
  obtain ⟨same, later⟩ := (h w w' akin).same
  rw [Accords, Task.Accord, Task.run_attempt, Task.run_attempt]
  exact .ok ⟨same.symm, later⟩

theorem akin_traced {name : String} {attributes : Document} (h : Akin i W W' t u) :
    Akin i W W' (Op.traced name attributes t) (Op.traced name attributes u) := by
  refine akin_bind (akin_attempt h) fun outcome => ?_
  refine akin_bind (akin_unseen (unseen_modify fun _ => ?_) (unseen_modify fun _ => ?_)) fun _ => ?_
  · exact ⟨rfl, rfl, rfl, rfl, rfl⟩
  · exact ⟨rfl, rfl, rfl, rfl, rfl⟩
  · exact akin_result outcome

theorem accord_observed {operation : String} {c : Value} {t : Op γ} {u : Op δ}
    (h : Accords i W W' Q t u w w')
    (stable : ∀ a b v v' journal journal', Q a b v v' →
      Q a b { v with journal } { v' with journal := journal' }) :
    Accords i W W' Q (Store.observed operation c t) (Store.observed operation c u) w w' := by
  obtain ⟨journal, ran⟩ := run_observed operation c t w
  obtain ⟨journal', ran'⟩ := run_observed operation c u w'
  rw [Accords, Task.Accord] at h ⊢
  rw [ran, ran']
  revert h
  obtain ⟨v, r⟩ := t.run serve w
  obtain ⟨v', r'⟩ := u.run serve w'
  intro h
  cases h with
  | ok related => exact .ok (stable _ _ _ _ _ _ related)
  | error akin => exact .error (akin.hides ⟨rfl, rfl, rfl, rfl, rfl⟩ ⟨rfl, rfl, rfl, rfl, rfl⟩)

theorem akin_observed {operation : String} {c : Value} (h : Akin i W W' t u) :
    Akin i W W' (Store.observed operation c t) (Store.observed operation c u) := by
  intro w w' akin
  refine accord_observed (h w w' akin) ?_
  rintro a b v v' journal journal' ⟨same, later⟩
  exact ⟨same, later.hides ⟨rfl, rfl, rfl, rfl, rfl⟩ ⟨rfl, rfl, rfl, rfl, rfl⟩⟩

/-! ## Steps of the operations -/

theorem akin_checkName (name : Value) :
    Akin i W W' (Storage.checkName name) (Storage.checkName name) := by
  unfold Storage.checkName
  split
  · exact akin_pure ()
  · exact akin_raise _

theorem akin_documentsOf (c : Value) :
    Akin i W W' (Store.documentsOf i c) (Store.documentsOf i c) := by
  refine akin_bind (akin_store fun s s' h => ?_) fun _ => ?_
  · rw [h.connected]
    split
    · exact akin_raise _
    · exact akin_pure ()
  refine akin_bind (akin_bind (akin_checkName c) fun _ => akin_store fun s s' h => ?_) fun held => ?_
  · rw [h.memory.holds]
    exact akin_pure _
  · split
    · refine akin_store fun s s' h => ?_
      rw [h.memory.documents]
      exact akin_pure _
    · exact akin_raise _

theorem akin_reindex {change : Indexes → Indexes × Result Unit} (respects : Indexes.Respects change) :
    Akin i W W' (Store.reindex i change) (Store.reindex i change) := by
  intro w w' akin
  obtain ⟨journal, ran⟩ := run_reindex i change w
  obtain ⟨journal', ran'⟩ := run_reindex i change w'
  obtain ⟨indexes, same⟩ := respects _ _ akin.store.indexes
  have store : Store.Akin { w.store i with indexes := (change (w.store i).indexes).1 }
      { w'.store i with indexes := (change (w'.store i).indexes).1 } :=
    ⟨akin.store.connected, akin.store.indent, akin.store.memory, indexes⟩
  have later : World.Akin i W W' (({ w with journal } : World).setStore i _)
      (({ w' with journal := journal' } : World).setStore i _) :=
    akin.put rfl rfl store akin.directory ⟨rfl, rfl, rfl, rfl⟩ ⟨rfl, rfl, rfl, rfl⟩
  rw [Accords, Task.Accord, ran, ran', same]
  cases (change (w.store i).indexes).2 with
  | ok _ => exact .ok ⟨rfl, later⟩
  | error e => exact .error later

theorem akin_modifyStore {f g : Store → Store} (h : ∀ s s', s.Akin s' → (f s).Akin (g s')) :
    Akin i W W' (Op.modifyStore i f) (Op.modifyStore i g) := by
  intro w w' akin
  exact .ok ⟨rfl, akin.put rfl rfl (h _ _ akin.store) akin.directory ⟨rfl, rfl, rfl, rfl⟩
    ⟨rfl, rfl, rfl, rfl⟩⟩

theorem akin_flush : Akin i W W' (Op.flush i) (Op.flush i) := by
  intro w w' akin
  obtain ⟨v, line, ran, stores, directory⟩ := Writer.run_flush akin.here
  obtain ⟨v', line', ran', stores', directory'⟩ := Writer.run_flush akin.here'
  have keeps := keeps_flush i w
  have keeps' := keeps_flush i w'
  obtain ⟨memory, files, outcome⟩ := Writer.akin_flushed akin.store akin.directory
  rw [← directory, ← directory'] at files
  rw [ran] at keeps
  rw [ran'] at keeps'
  have later := akin.put stores stores'
    ⟨akin.store.connected, akin.store.indent, memory, akin.store.indexes⟩ files keeps keeps'
  rw [Accords, Task.Accord, ran, ran', outcome]
  cases (Writer.flushed (w.store i) w.directory).2.2 with
  | ok _ => exact .ok ⟨rfl, later⟩
  | error f => exact .error later

theorem akin_commit (c : Value) (docs : List Value) :
    Akin i W W' (Store.commit i c docs) (Store.commit i c docs) := by
  refine akin_bind (akin_modifyStore fun s s' h => ?_) fun _ => ?_
  · exact ⟨h.connected, h.indent, (h.memory.setDocuments _ docs).markDirty c, h.indexes⟩
  refine akin_bind (akin_unseen (unseen_modify fun _ => ?_) (unseen_modify fun _ => ?_)) fun _ => akin_flush
  · exact ⟨rfl, rfl, rfl, rfl, rfl⟩
  · exact ⟨rfl, rfl, rfl, rfl, rfl⟩

theorem keeps_commit (c : Value) (docs : List Value) : Keeps (Store.commit i c docs) := by
  refine keeps_bind (keeps_modifyStore i _) fun _ => ?_
  exact keeps_bind (keeps_modify fun _ => ⟨rfl, rfl, rfl, rfl⟩) fun _ => keeps_flush i

/-! ## Documents in hand -/

/-- Operations that begin with what does not show. -/
theorem accord_unseen {t : Op α} {u : Op β} {f : α → Op γ} {g : β → Op δ} (ht : Unseen t)
    (hu : Unseen u) (akin : World.Akin i W W' w w')
    (next : ∀ a b v v', World.Akin i W W' v v' → Accords i W W' Q (f a) (g b) v v') :
    Accords i W W' Q (t >>= f) (u >>= g) w w' := by
  obtain ⟨v, a, ran, hides⟩ := ht w
  obtain ⟨v', b, ran', hides'⟩ := hu w'
  apply Task.accord_ran ran ran'
  exact next a b v v' (akin.hides hides hides')

/-- Operations that begin by taking one document in hand. -/
theorem accord_hands {t u : Op Nat} {f : Nat → Op γ} {g : Nat → Op δ} {doc : Value} (ht : Hands t doc)
    (hu : Hands u doc) (akin : World.Akin i W W' w w')
    (next : ∀ a b v v', World.Akin i W W' v v' → v.sharing.look a = doc → v'.sharing.look b = doc →
      Accords i W W' Q (f a) (g b) v v') :
    Accords i W W' Q (t >>= f) (u >>= g) w w' := by
  obtain ⟨v, a, ran, hides, own⟩ := ht w
  obtain ⟨v', b, ran', hides', own'⟩ := hu w'
  apply Task.accord_ran ran ran'
  exact next a b v v' (akin.hides hides hides') own own'

/-- Operations that set the documents of a collection while others are in hand. -/
theorem accord_commit {c : Value} {docs : List Value} {f : Unit → Op γ} {g : Unit → Op δ}
    (akin : World.Akin i W W' w w')
    (next : ∀ v v', World.Akin i W W' v v' → v.sharing = w.sharing → v'.sharing = w'.sharing →
      Accords i W W' Q (f ()) (g ()) v v') :
    Accords i W W' Q (Store.commit i c docs >>= f) (Store.commit i c docs >>= g) w w' := by
  have ends := akin_commit c docs w w' akin
  have keeps := keeps_commit (i := i) c docs w
  have keeps' := keeps_commit (i := i) c docs w'
  rw [Accords, Task.Accord] at ends
  rw [Accords, Task.Accord, Task.run_bind, Task.run_bind]
  revert ends keeps keeps'
  obtain ⟨v, r⟩ := (Store.commit i c docs).run serve w
  obtain ⟨v', r'⟩ := (Store.commit i c docs).run serve w'
  intro ends keeps keeps'
  cases ends with
  | ok equal => exact next v v' equal.2 keeps.sharing keeps'.sharing
  | error later => exact .error later

theorem accord_handOut {a b : Nat} (akin : World.Akin i W W' w w')
    (same : w.sharing.look a = w'.sharing.look b) :
    Accords i W W' (Equal i W W') (Op.handOut a) (Op.handOut b) w w' := by
  obtain ⟨v, ran, hides⟩ := run_handOut a w
  obtain ⟨v', ran', hides'⟩ := run_handOut b w'
  rw [Accords, Task.Accord, ran, ran', same]
  exact .ok ⟨rfl, akin.hides hides hides'⟩

/-! ## Operations on documents -/

/-- Two operations take documents in hand that are equal. -/
def Takes (i : Nat) (W W' : World) (a b : Nat) (w w' : World) : Prop :=
  World.Akin i W W' w w' ∧ w.sharing.look a = w'.sharing.look b

theorem accord_insertKept (akin : World.Akin i W W' w w') (c doc : Value)
    (origins origins' : List (String × Place)) :
    Accords i W W' (Takes i W W') (Store.insertKept i c doc origins) (Store.insertKept i c doc origins')
      w w' := by
  refine accord_observed ?_ ?_
  · refine accord_akin (akin_documentsOf c) akin fun docs w w' akin => ?_
    refine Task.accord_given akin fun known _ => ?_
    cases known with
    | false => exact .error akin
    | true =>
      refine accord_akin (akin_reindex (Indexes.respects_changeAll _ _ _)) akin fun _ w w' akin => ?_
      have commits (a b : Nat) (x x' : World) (akin : World.Akin i W W' x x')
          (look : x.sharing.look a = doc) (look' : x'.sharing.look b = doc) :
          Accords i W W' (Takes i W W') (Store.commit i c (docs ++ [doc]) >>= fun _ => pure a)
            (Store.commit i c (docs ++ [doc]) >>= fun _ => pure b) x x' :=
        accord_commit akin fun y y' akin same same' =>
          .ok ⟨akin, by rw [same, same', look, look']⟩
      have keeps := accord_hands (hands_keep doc) (hands_keep doc) akin commits
      dsimp only
      cases Store.position ((doc.entry? (.string "id")).getD .null) docs 0 with
      | error e => exact keeps
      | ok place =>
        cases place with
        | some m => exact keeps
        | none =>
          refine accord_unseen (unseen_release _) (unseen_release _) akin fun _ _ x x' akin => ?_
          refine accord_unseen (unseen_each fun _ => unseen_share _ _)
            (unseen_each fun _ => unseen_share _ _) akin fun _ _ y y' akin => ?_
          exact accord_hands (hands_keepStored _ _ _ _) (hands_keepStored _ _ _ _) akin commits
  · rintro a b v v' journal journal' ⟨akin, same⟩
    exact ⟨akin.hides ⟨rfl, rfl, rfl, rfl, rfl⟩ ⟨rfl, rfl, rfl, rfl, rfl⟩, same⟩

theorem akin_insert (c doc : Value) : Akin i W W' (Store.insert i c doc) (Store.insert i c doc) := by
  intro w w' akin
  apply Task.accord_bind (accord_insertKept akin c doc [] [])
  rintro a b v v' ⟨akin, same⟩
  exact accord_handOut akin same

theorem akin_update (c id changes : Value) :
    Akin i W W' (Store.update i c id changes) (Store.update i c id changes) := by
  refine akin_observed (akin_bind (akin_documentsOf c) fun docs => akin_given fun place => ?_)
  cases place with
  | none => exact akin_pure _
  | some m =>
    refine akin_given fun new => ?_
    refine akin_bind (akin_reindex (Indexes.respects_changeAll _ _ _)) fun _ => ?_
    refine akin_bind (akin_unseen (unseen_release _) (unseen_release _)) fun _ => ?_
    intro w w' akin
    refine accord_hands (hands_keepStored _ _ _ _) (hands_keepStored _ _ _ _) akin
      fun a b v v' akin look look' => ?_
    refine accord_commit akin fun x x' akin same same' => ?_
    exact accord_handOut akin (by rw [same, same', look, look'])

theorem akin_delete (c id : Value) : Akin i W W' (Store.delete i c id) (Store.delete i c id) := by
  refine akin_observed (akin_bind (akin_documentsOf c) fun docs => akin_given fun place => ?_)
  cases place with
  | none => exact akin_pure _
  | some m =>
    refine akin_bind (akin_reindex (Indexes.respects_changeAll _ _ _)) fun _ => ?_
    exact akin_bind (akin_commit c _) fun _ => akin_pure _

theorem akin_each {items : List γ} {f g : γ → Op α} (h : ∀ a, Akin i W W' (f a) (g a)) :
    Akin i W W' (Task.each items f) (Task.each items g) := by
  induction items with
  | nil => exact akin_pure []
  | cons a rest ih => exact akin_bind (h a) fun b => akin_bind ih fun bs => akin_pure _

theorem akin_deleteMany (c filter : Value) :
    Akin i W W' (Store.deleteMany i c filter) (Store.deleteMany i c filter) := by
  refine akin_observed (akin_bind (akin_documentsOf c) fun docs => akin_given fun found => ?_)
  split
  · exact akin_pure 0
  · refine akin_bind (akin_each fun _ => akin_reindex (Indexes.respects_changeAll _ _ _)) fun _ => ?_
    refine akin_given fun ids => akin_given fun left => ?_
    exact akin_bind (akin_commit c left) fun _ => akin_pure _

theorem akin_findById (c id : Value) :
    Akin i W W' (Store.findById i c id) (Store.findById i c id) := by
  refine akin_observed (akin_bind (akin_documentsOf c) fun docs => akin_given fun place => ?_)
  cases place with
  | none => exact akin_pure _
  | some m => exact akin_result _

theorem akin_find (c : Value) (options : Result FindOptions) :
    Akin i W W' (Store.find i c options) (Store.find i c options) :=
  akin_observed (akin_bind (akin_documentsOf c) fun _ => akin_given fun _ => akin_result _)

theorem akin_count (c filter : Value) : Akin i W W' (Store.count i c filter) (Store.count i c filter) :=
  akin_observed (akin_bind (akin_documentsOf c) fun _ => akin_result _)

end Op

end DocStore
