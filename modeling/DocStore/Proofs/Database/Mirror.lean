import DocStore.Proofs.Database.Steady
/-!
Writes on two stores that show one picture: they are refused over the same, hand out the same, and leave
one picture again.
-/

namespace DocStore

open Writer (serve)
open Value (IsDocument IsData)

/-- Two worlds show one picture of the same models, with nothing left to write: the one has database `n`
on store `i`, the other on store `j`. -/
def World.Even (n i j : Nat) (S : Shelf) (w w' : World) : Prop :=
  ∃ P : Picture, P.Steady n ∧ P.toShelf = S ∧ w.Shows n i P ∧ w'.Shows n j P

/-- All but what is reported and shared is the same. -/
structure World.Hides (w w' : World) : Prop where
  stores : w'.stores = w.stores
  directory : w'.directory = w.directory
  source : w'.source = w.source
  models : w'.models = w.models
  databases : w'.databases = w.databases

namespace World

variable {n i j : Nat} {S : Shelf} {w w' w'' v v' : World} {P : Picture}

theorem Hides.refl (w : World) : w.Hides w := ⟨rfl, rfl, rfl, rfl, rfl⟩

theorem Hides.trans (h : w.Hides w') (h' : w'.Hides w'') : w.Hides w'' :=
  ⟨h'.stores.trans h.stores, h'.directory.trans h.directory, h'.source.trans h.source,
    h'.models.trans h.models, h'.databases.trans h.databases⟩

theorem Shows.hides (h : w.Shows n i P) (hides : w.Hides w') : w'.Shows n i P :=
  h.aside hides.stores hides.directory hides.source hides.models hides.databases

theorem Even.hides (h : Even n i j S w w') (hides : w.Hides v) (hides' : w'.Hides v') :
    Even n i j S v v' := by
  obtain ⟨P, steady, same, shows, shows'⟩ := h
  exact ⟨P, steady, same, shows.hides hides, shows'.hides hides'⟩

end World

namespace Op

variable {α β γ : Type} {n i j : Nat} {S : Shelf} {w w' : World} {P : Picture} {c : String} {docs : List Value}
  {t u : Op α} {f g : α → Op β}

/-- One operation does from its world what the other does from its own; where they fail, they leave even
worlds. -/
abbrev Mirrors (n i j : Nat) (S : Shelf) (Q : α → β → World → World → Prop) (t : Op α) (u : Op β)
    (w w' : World) : Prop :=
  Task.Mirrors serve (World.Even n i j S) Q t u w w'

/-- Two operations end with one result in even worlds. -/
def Same (n i j : Nat) (S : Shelf) (a b : α) (w w' : World) : Prop := a = b ∧ World.Even n i j S w w'

variable {Q : β → β → World → World → Prop}

/-! ## What does not show -/

/-- A task that ends well, with all but what is reported and shared as it was. -/
def Unseen (t : Op α) : Prop := ∀ w : World, ∃ v a, t.run serve w = (v, .ok a) ∧ w.Hides v

theorem unseen_pure (a : α) : Unseen (pure a : Op α) := fun w => ⟨w, a, rfl, .refl w⟩

theorem unseen_modify {f : World → World} (h : ∀ w : World, w.Hides (f w)) :
    Unseen (Task.modify f : Op Unit) := fun w => ⟨f w, (), rfl, h w⟩

theorem unseen_bind {t : Op α} {f : α → Op β} (ht : Unseen t) (hf : ∀ a, Unseen (f a)) :
    Unseen (t >>= f) := by
  intro w
  obtain ⟨v, a, ran, hides⟩ := ht w
  obtain ⟨v', b, ran', hides'⟩ := hf a v
  exact ⟨v', b, by rw [Task.run_bind, ran]; exact ran', hides.trans hides'⟩

theorem unseen_each {items : List α} {f : α → Op β} (h : ∀ a, Unseen (f a)) :
    Unseen (Task.each items f) := by
  induction items with
  | nil => exact unseen_pure []
  | cons a rest ih =>
    apply unseen_bind (h a)
    exact fun b => unseen_bind ih fun bs => unseen_pure _

theorem unseen_share (origin place : Place) : Unseen (Op.share origin place) :=
  unseen_modify fun _ => ⟨rfl, rfl, rfl, rfl, rfl⟩

theorem unseen_release (gone : Place → Bool) : Unseen (Op.release gone) :=
  unseen_modify fun _ => ⟨rfl, rfl, rfl, rfl, rfl⟩

theorem unseen_count (s : Series) : Unseen (Op.count s) :=
  unseen_modify fun _ => ⟨rfl, rfl, rfl, rfl, rfl⟩

theorem unseen_log (level : Level) (component event : String) (fields : Document) :
    Unseen (Op.log level component event fields) :=
  unseen_modify fun _ => ⟨rfl, rfl, rfl, rfl, rfl⟩

/-- Tasks that begin with what does not show. -/
theorem mirrors_unseen {t : Op α} {u : Op γ} {f : α → Op β} {g : γ → Op β} (ht : Unseen t)
    (hu : Unseen u) (h : w.Shows n i P) (h' : w'.Shows n j P)
    (next : ∀ a b v v', v.Shows n i P → v'.Shows n j P → Mirrors n i j S Q (f a) (g b) v v') :
    Mirrors n i j S Q (t >>= f) (u >>= g) w w' := by
  obtain ⟨v, a, ran, hides⟩ := ht w
  obtain ⟨v', b, ran', hides'⟩ := hu w'
  apply Task.mirrors_ran ran ran'
  exact next a b v v' (h.hides hides) (h'.hides hides')

/-- A task that takes a document in hand and gives its number. -/
def Hands (t : Op Nat) (doc : Value) : Prop :=
  ∀ w : World, ∃ v number, t.run serve w = (v, .ok number) ∧ w.Hides v ∧
    v.sharing.look number = doc

theorem look_keep (s : Sharing) (doc : Value) : (s.keep doc).1.look (s.keep doc).2 = doc := by
  simp [Sharing.keep, Sharing.look]

theorem hands_keep (doc : Value) : Hands (Op.keep doc) doc := fun w =>
  ⟨_, _, rfl, ⟨rfl, rfl, rfl, rfl, rfl⟩, look_keep w.sharing doc⟩

/-- Sharing lists changes no document in hand. -/
theorem look_share (s : Sharing) (origin place : Place) (number : Nat) :
    (s.share origin place).look number = s.look number := by
  unfold Sharing.share
  split <;> rfl

theorem hands_keepStored (i : Nat) (collection id doc : Value) :
    Hands (Op.keepStored i collection id doc) doc := by
  have shares (fields : List Value) (number : Nat) (w : World) :
      ∃ v us, (Task.each fields fun field =>
          Op.share (.stored i collection id field) (.kept number field)).run serve w = (v, .ok us) ∧
        w.Hides v ∧ v.sharing.look number = w.sharing.look number := by
    induction fields generalizing w with
    | nil => exact ⟨w, [], rfl, .refl w, rfl⟩
    | cons field rest ih =>
      let shared : World := { w with
        sharing := w.sharing.share (.stored i collection id field) (.kept number field) }
      obtain ⟨v, us, ran, hides, same⟩ := ih shared
      refine ⟨v, () :: us, ?_, ?_, same.trans (look_share ..)⟩
      · rw [Task.each, Task.run_bind]
        show ((Task.each rest _) >>= _).run serve shared = _
        rw [Task.run_bind, ran]
        rfl
      · have first : w.Hides shared := ⟨rfl, rfl, rfl, rfl, rfl⟩
        exact first.trans hides
  intro w
  obtain ⟨kept, number, ran, hides, own⟩ := hands_keep doc w
  obtain ⟨v, us, ran', hides', same⟩ := shares doc.listFields number kept
  refine ⟨v, number, ?_, hides.trans hides', same.trans own⟩
  rw [Op.keepStored, Task.run_bind, ran]
  show (Task.each doc.listFields _ >>= _).run serve kept = _
  rw [Task.run_bind, ran']
  rfl

/-- Tasks that begin by taking one document in hand. -/
theorem mirrors_hands {t u : Op Nat} {f g : Nat → Op β} {doc : Value} (ht : Hands t doc)
    (hu : Hands u doc) (h : w.Shows n i P) (h' : w'.Shows n j P)
    (next : ∀ a b v v', v.Shows n i P → v'.Shows n j P → v.sharing.look a = doc →
      v'.sharing.look b = doc → Mirrors n i j S Q (f a) (g b) v v') :
    Mirrors n i j S Q (t >>= f) (u >>= g) w w' := by
  obtain ⟨v, a, ran, hides, own⟩ := ht w
  obtain ⟨v', b, ran', hides', own'⟩ := hu w'
  apply Task.mirrors_ran ran ran'
  exact next a b v v' (h.hides hides) (h'.hides hides') own own'

theorem run_handOut (number : Nat) (w : World) :
    ∃ v, (Op.handOut number).run serve w = (v, .ok (w.sharing.look number)) ∧ w.Hides v :=
  ⟨_, rfl, rfl, rfl, rfl, rfl, rfl⟩

theorem mirrors_handOut {a b : Nat} (even : World.Even n i j S w w')
    (same : w.sharing.look a = w'.sharing.look b) :
    Mirrors n i j S (Same n i j S) (Op.handOut a) (Op.handOut b) w w' := by
  obtain ⟨v, ran, hides⟩ := run_handOut a w
  obtain ⟨v', ran', hides'⟩ := run_handOut b w'
  intro granted
  rw [ran, ran', same]
  exact .ok ⟨rfl, even.hides hides hides'⟩

/-- The outcome is reported, and is what it was. -/
theorem run_observed (operation : String) (collection : Value) (t : Op α) (w : World) :
    ∃ journal, (Store.observed operation collection t).run serve w =
      ({ (t.run serve w).1 with journal }, (t.run serve w).2) := by
  rw [Store.observed, Task.run_bind, Task.run_attempt]
  obtain ⟨v, r⟩ := t.run serve w
  obtain ⟨journal, reported⟩ := advance_reported operation collection r v
  exact ⟨journal, Task.run_of_done reported⟩

theorem mirrors_observed {operation : String} {collection : Value} {t u : Op β}
    (h : Mirrors n i j S Q t u w w')
    (stable : ∀ a b v v' journal journal', Q a b v v' →
      Q a b { v with journal } { v' with journal := journal' }) :
    Mirrors n i j S Q (Store.observed operation collection t) (Store.observed operation collection u)
      w w' := by
  intro granted
  have ends := h (Task.granted_attempt.mp (Task.granted_bind.mp granted).1)
  obtain ⟨journal, ran⟩ := run_observed operation collection t w
  obtain ⟨journal', ran'⟩ := run_observed operation collection u w'
  rw [ran, ran']
  revert ends
  obtain ⟨v, r⟩ := t.run serve w
  obtain ⟨v', r'⟩ := u.run serve w'
  intro ends
  cases ends with
  | ok h => exact .ok (stable _ _ _ _ _ _ h)
  | error h => exact .error (h.hides ⟨rfl, rfl, rfl, rfl, rfl⟩ ⟨rfl, rfl, rfl, rfl, rfl⟩)

theorem same_stable {a b : β} {v v' : World} (journal journal' : Journal)
    (h : Same n i j S a b v v') : Same n i j S a b { v with journal } { v' with journal := journal' } :=
  ⟨h.1, h.2.hides ⟨rfl, rfl, rfl, rfl, rfl⟩ ⟨rfl, rfl, rfl, rfl, rfl⟩⟩

/-! ## Operations that are alike -/

/-- Two operations do the same in even worlds: they end with one result, or with one error, and leave even
worlds. -/
def Alike (n i j : Nat) (S : Shelf) (t u : Op α) : Prop :=
  ∀ w w', World.Even n i j S w w' → Mirrors n i j S (Same n i j S) t u w w'

theorem alike_result (r : Result α) :
    Alike n i j S (Task.ofResult r : Op α) (Task.ofResult r : Op α) := by
  intro w w' even granted
  cases r with
  | ok a => exact .ok ⟨rfl, even⟩
  | error e => exact .error even

theorem alike_pure (a : α) : Alike n i j S (pure a : Op α) (pure a : Op α) := alike_result (.ok a)

theorem alike_raise (e : Error) : Alike n i j S (Task.raise e : Op α) (Task.raise e : Op α) :=
  alike_result (.error e)

theorem mirrors_alike {t u : Op α} {f g : α → Op β} (h : Alike n i j S t u)
    (even : World.Even n i j S w w')
    (next : ∀ a v v', World.Even n i j S v v' → Mirrors n i j S Q (f a) (g a) v v') :
    Mirrors n i j S Q (t >>= f) (u >>= g) w w' := by
  apply Task.mirrors_bind (h w w' even)
  rintro a _ v v' ⟨rfl, later⟩
  exact next a v v' later

theorem alike_bind {f g : α → Op β} {t u : Op α} (h : Alike n i j S t u)
    (next : ∀ a, Alike n i j S (f a) (g a)) : Alike n i j S (t >>= f) (u >>= g) :=
  fun _ _ even => mirrors_alike h even next

theorem alike_given {f g : α → Op β} {r : Result α}
    (next : ∀ a, r = .ok a → Alike n i j S (f a) (g a)) :
    Alike n i j S (Task.ofResult r >>= f) (Task.ofResult r >>= g) := by
  intro w w' even
  exact Task.mirrors_given even fun a ha => next a ha w w' even

/-- What two operations see of even worlds may differ; what they make of it then is alike. -/
theorem alike_get {f g : World → Op β}
    (next : ∀ v v', World.Even n i j S v v' → Alike n i j S (f v) (g v')) :
    Alike n i j S (Task.get >>= f) (Task.get >>= g) :=
  fun w w' even => Task.mirrors_get (next w w' even w w' even)

theorem alike_unseen {t u : Op Unit} (ht : Unseen t) (hu : Unseen u) : Alike n i j S t u := by
  intro w w' even granted
  obtain ⟨v, _, ran, hides⟩ := ht w
  obtain ⟨v', _, ran', hides'⟩ := hu w'
  rw [ran, ran']
  exact .ok ⟨rfl, even.hides hides hides'⟩

theorem alike_observed {operation : String} {collection : Value} {t u : Op β}
    (h : Alike n i j S t u) :
    Alike n i j S (Store.observed operation collection t) (Store.observed operation collection u) :=
  fun w w' even => mirrors_observed (h w w' even) fun _ _ _ _ => same_stable

theorem alike_attempt {t u : Op β} (h : Alike n i j S t u) :
    Alike n i j S t.attempt u.attempt := by
  intro w w' even granted
  obtain ⟨same, later⟩ := (h w w' even (Task.granted_attempt.mp granted)).same
  rw [Task.run_attempt, Task.run_attempt]
  exact .ok ⟨same.symm, later⟩

theorem alike_traced {name : String} {attributes : Document} {t u : Op β}
    (h : Alike n i j S t u) :
    Alike n i j S (Op.traced name attributes t) (Op.traced name attributes u) := by
  refine alike_bind (alike_attempt h) fun outcome => ?_
  refine alike_bind (alike_unseen (unseen_modify fun _ => ?_) (unseen_modify fun _ => ?_)) fun _ => ?_
  · exact ⟨rfl, rfl, rfl, rfl, rfl⟩
  · exact ⟨rfl, rfl, rfl, rfl, rfl⟩
  · exact alike_result outcome

/-! ## Steps of the operations -/

theorem documentsOf_shows (h : w.Shows n i P) (c : String) :
    (Store.documentsOf i (.string c)).run serve w =
      (w, match P.docs c with
        | some docs => .ok docs
        | none => .error (.collectionNotFound (.string c))) := by
  rw [Task.run_of_done (advance_documentsOf i c w)]
  have holds : (w.store i).memory.holds (.string c) = (P.docs c).isSome := by
    rw [Memory.holds_string, Table.has, h.docs]
  rw [Effect.documentsOf, h.connected, holds, Memory.documents_string, h.docs]
  cases P.docs c <;> rfl

/-- Operations that read the documents of a collection first. -/
theorem mirrors_documents {f g : List Value → Op β} (steady : P.Steady n) (h : w.Shows n i P)
    (h' : w'.Shows n j P)
    (next : ∀ docs, P.docs c = some docs → Mirrors n i j P.toShelf Q (f docs) (g docs) w w') :
    Mirrors n i j P.toShelf Q (Store.documentsOf i (.string c) >>= f) (Store.documentsOf j (.string c) >>= g)
      w w' := by
  refine Task.mirrors_bind (Q := fun a b v v' => P.docs c = some a ∧ a = b ∧ v = w ∧ v' = w') ?_ ?_
  · intro granted
    rw [documentsOf_shows h, documentsOf_shows h']
    cases held : P.docs c with
    | none => exact .error ⟨P, steady, rfl, h, h'⟩
    | some docs => exact .ok ⟨rfl, rfl, rfl, rfl⟩
  · rintro a b v v' ⟨held, rfl, rfl, rfl⟩
    exact next a held

theorem run_reindex (i : Nat) (change : Indexes → Indexes × Result Unit) (w : World) :
    ∃ journal, (Store.reindex i change).run serve w =
      (({ w with journal } : World).setStore i
          { w.store i with indexes := (change (w.store i).indexes).1 },
        (change (w.store i).indexes).2) := by
  simp only [Store.reindex, Op.store, Op.modifyStore, Task.modify, Task.get, bind, Task.bind, pure,
    Task.run]
  generalize (change (w.store i).indexes).2 = outcome
  split <;> exact ⟨_, rfl⟩

/-- A change of the indexes that none of them refuses. -/
theorem reindex_shows {filed : String → Value → Prop} {next : Indexes}
    (change : Indexes → Indexes × Result Unit) (h : w.Shows n i P) (done : change (w.store i).indexes = (next, .ok ()))
    (reflects : next.Reflects filed P.shapes) :
    ∃ v, (Store.reindex i change).run serve w = (v, .ok ()) ∧ v.Shows n i { P with filed } := by
  obtain ⟨journal, ran⟩ := run_reindex i change w
  rw [done] at ran
  refine ⟨_, ran, ?_⟩
  exact h.put (s := { w.store i with indexes := next }) rfl ⟨rfl, rfl, rfl, rfl⟩ h.connected rfl h.docs h.dirty
    reflects h.directory

theorem reindex_refused {change : Indexes → Indexes × Result Unit} {e : Error} (h : w.Shows n i P)
    (refused : change (w.store i).indexes = ((w.store i).indexes, .error e)) :
    ∃ v, (Store.reindex i change).run serve w = (v, .error e) ∧ v.Shows n i P := by
  obtain ⟨journal, ran⟩ := run_reindex i change w
  rw [refused] at ran
  refine ⟨_, ran, ?_⟩
  exact h.put (s := w.store i) rfl
    ⟨rfl, rfl, rfl, rfl⟩ h.connected rfl h.docs h.dirty h.indexes h.directory

/-- Operations that go on once their indexes took a change on which they agree. -/
theorem mirrors_reindex {filed : String → Value → Prop} {change : Indexes → Indexes × Result Unit}
    {f g : Unit → Op β} (steady : P.Steady n) (h : w.Shows n i P) (h' : w'.Shows n j P)
    (agree : Indexes.Agree P.filed P.shapes filed change)
    (next : ∀ v v', (change (w.store i).indexes).2 = .ok () → v.Shows n i { P with filed } →
      v'.Shows n j { P with filed } → Mirrors n i j P.toShelf Q (f ()) (g ()) v v') :
    Mirrors n i j P.toShelf Q (Store.reindex i change >>= f) (Store.reindex j change >>= g) w w' := by
  refine Task.mirrors_bind (Q := fun _ _ v v' => (change (w.store i).indexes).2 = .ok () ∧
    v.Shows n i { P with filed } ∧ v'.Shows n j { P with filed }) ?_ ?_
  · intro granted
    rcases agree _ _ h.indexes h'.indexes with ⟨e, refused, refused'⟩ |
      ⟨next, next', done, done', reflects, reflects'⟩
    · obtain ⟨v, ran, shows⟩ := reindex_refused h refused
      obtain ⟨v', ran', shows'⟩ := reindex_refused h' refused'
      rw [ran, ran']
      exact .error ⟨P, steady, rfl, shows, shows'⟩
    · obtain ⟨v, ran, shows⟩ := reindex_shows change h done reflects
      obtain ⟨v', ran', shows'⟩ := reindex_shows change h' done' reflects'
      rw [ran, ran']
      exact .ok ⟨by rw [done], shows, shows'⟩
  · rintro _ _ v v' ⟨done, shows, shows'⟩
    exact next v v' done shows shows'

/-- Setting the documents of a collection: the writer has to grant it, and then they are in its file. -/
theorem commit_shows (h : w.Shows n i P) (clean : P.dirty = []) (docs : List Value) :
    ((Store.commit i (.string c) docs).Granted serve w →
        ∃ d, P.directory.Saves P.settings.indentValue c docs d) ∧
      ∀ d, P.directory.Saves P.settings.indentValue c docs d →
        ∃ v, (Store.commit i (.string c) docs).run serve w = (v, .ok ()) ∧
          v.sharing = w.sharing ∧
          v.Shows n i { P with docs := Function.update P.docs c (some docs), directory := d } := by
  obtain ⟨m, changed⟩ : ∃ m, ((w.store i).memory.setDocuments c docs).markDirty (.string c) = m :=
    ⟨_, rfl⟩
  let v : World := w.setStore i { w.store i with memory := m }
  let reported : World := v.gauge (.documents (Value.string c).display) docs.length
  have held (c' : String) : m.collections.lookup c' = Function.update P.docs c (some docs) c' := by
    rw [← changed, Memory.markDirty_collections, Memory.setDocuments_collections, Table.lookup_put,
      Function.update_apply, h.docs]
  have dirty : m.dirty = [.string c] := by
    have none : ((w.store i).memory.setDocuments c docs).dirty = [] := h.dirty.trans clean
    simp [← changed, Memory.markDirty, none]
  have runs : (Store.commit i (.string c) docs).run serve w = (Op.flush i).run serve reported := by
    simp only [reported, v, ← changed]
    rfl
  have grants : (Store.commit i (.string c) docs).Granted serve w ↔
      (Op.flush i).Granted serve reported := by
    simp only [reported, v, ← changed]
    rfl
  have shows : reported.Shows n i
      { P with docs := Function.update P.docs c (some docs), dirty := [.string c] } :=
    h.put (s := { w.store i with memory := m }) rfl ⟨rfl, rfl, rfl, rfl⟩ h.connected
      rfl held dirty h.indexes h.directory
  constructor
  · intro granted
    exact shows.saves_of_granted rfl (Function.update_self ..) (grants.mp granted)
  · intro d saves
    obtain ⟨v', ran, shows', keeps⟩ := shows.flush_one rfl (Function.update_self ..) saves
    refine ⟨v', runs.trans ran, keeps.sharing, ?_⟩
    simpa only [clean] using shows'

end Op

end DocStore
