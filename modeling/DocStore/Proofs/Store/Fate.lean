import DocStore.Proofs.Store.Operation
/-!
What becomes of operations: whether they end at once or wait for the writer, what they hand to their
caller in the end, and which document they have in hand till then.
-/

namespace DocStore

/-! ## Documents in hand -/

namespace Sharing

/-- All documents in hand stay as they are; others may be taken in hand. -/
structure Later (s s' : Sharing) : Prop where
  next : s.next ≤ s'.next
  look : ∀ m < s.next, s'.look m = s.look m

variable {s s' s'' : Sharing}

theorem Later.refl (s : Sharing) : Later s s := ⟨Nat.le_refl _, fun _ _ => rfl⟩

theorem Later.trans (h : Later s s') (h' : Later s' s'') : Later s s'' :=
  ⟨Nat.le_trans h.next h'.next, fun m hm =>
    (h'.look m (Nat.lt_of_lt_of_le hm h.next)).trans (h.look m hm)⟩

theorem later_share (s : Sharing) (origin place : Place) : Later s (s.share origin place) := by
  unfold share
  split
  · exact ⟨Nat.le_refl _, fun _ _ => rfl⟩
  · exact ⟨Nat.le_succ _, fun _ _ => rfl⟩

theorem later_release (s : Sharing) (gone : Place → Bool) : Later s (s.release gone) :=
  ⟨Nat.le_refl _, fun _ _ => rfl⟩

theorem later_keep (s : Sharing) (doc : Value) : Later s (s.keep doc).1 := by
  refine ⟨Nat.le_succ _, fun m hm => ?_⟩
  simp [keep, look, Nat.ne_of_gt hm]

/-- A document that is let go leaves all others in hand as they are. -/
theorem look_drop (s : Sharing) {m number : Nat} (other : m ≠ number) :
    (s.drop number).look m = s.look m := by
  simp only [drop, look, release, List.find?_filter]
  congr 2
  refine congrArg (fun p => List.find? p s.kept) (funext fun entry => ?_)
  by_cases own : entry.1 = m
  · simp [own, other]
  · simp [own]

/-- What is shared after an operation has let go of its document. -/
def freed (hand : Option (Nat × Value)) (s : Sharing) : Sharing :=
  hand.elim s fun own => s.drop own.1

/-- The document in hand is as it was when it was taken. -/
def Has (s : Sharing) (hand : Option (Nat × Value)) : Prop :=
  ∀ m doc, hand = some (m, doc) → s.look m = doc

end Sharing

/-! ## What is handed to the caller -/

namespace Effect

variable (collection : String) (id changes filter : Value) (s : Store)

/-- The document that an update gives; null stands for none. -/
def updated : Result Value := do
  let docs ← documentsOf s collection
  match ← Store.position id docs 0 with
  | none => return .null
  | some n => Store.merged (docs.getD n .null) changes

def found : Result Bool := do
  let docs ← documentsOf s collection
  return (← Store.position id docs 0).isSome

def removed : Result Nat := do
  let docs ← documentsOf s collection
  return (← Store.idsOf (← Query.run { filter } docs)).length

end Effect

namespace Op

variable {α β : Type} {i : Nat} {w w' : World}

/-! ## Up to the first request -/

/-- A task that changes no document in hand up to its first request. -/
def Grows (t : Op α) : Prop := ∀ w : World, w.sharing.Later (t.advance w).1.sharing

theorem grows_same {t : Op α} (h : ∀ w : World, (t.advance w).1.sharing = w.sharing) : Grows t :=
  fun w => h w ▸ .refl _

theorem grows_modify {f : World → World} (h : ∀ w : World, w.sharing.Later (f w).sharing) :
    Grows (Task.modify f : Op Unit) := h

theorem later_bind {t : Op α} {f : α → Op β} (first : w.sharing.Later (t.advance w).1.sharing)
    (hf : ∀ a, Grows (f a)) : w.sharing.Later ((t >>= f).advance w).1.sharing := by
  have stopped := Task.advance_stopped t w
  cases stop : t.advance w with
  | mk v rest =>
    rw [stop] at first stopped
    cases rest with
    | read | write => cases stopped
    | wait request next =>
      rw [Task.advance_bind_wait stop]
      exact first
    | done r =>
      cases r with
      | error e =>
        rw [Task.advance_bind_failed stop]
        exact first
      | ok a =>
        rw [Task.advance_bind_done stop]
        exact first.trans (hf a v)

theorem grows_bind {t : Op α} {f : α → Op β} (ht : Grows t) (hf : ∀ a, Grows (f a)) :
    Grows (t >>= f) := fun w => later_bind (ht w) hf

theorem grows_each {items : List α} {f : α → Op β} (h : ∀ a, Grows (f a)) :
    Grows (Task.each items f) := by
  induction items with
  | nil => exact grows_same fun _ => rfl
  | cons a rest ih =>
    apply grows_bind (h a)
    exact fun b => grows_bind ih fun bs => grows_same fun _ => rfl

theorem grows_attempt {t : Op α} (h : Grows t) : Grows t.attempt := by
  intro w
  have first := h w
  have stopped := Task.advance_stopped t w
  cases stop : t.advance w with
  | mk v rest =>
    rw [stop] at first stopped
    cases rest with
    | read | write => cases stopped
    | wait request next =>
      rw [Task.advance_attempt_wait stop]
      exact first
    | done r =>
      rw [Task.advance_attempt_done stop]
      exact first

theorem grows_observed {t : Op α} (operation : String) (collection : Value) (h : Grows t) :
    Grows (Store.observed operation collection t) := by
  refine grows_bind (grows_attempt h) fun outcome => grows_same fun w => ?_
  obtain ⟨journal, reported⟩ := advance_reported operation collection outcome w
  rw [reported]

theorem grows_documentsOf (i : Nat) (collection : String) :
    Grows (Store.documentsOf i (.string collection)) :=
  grows_same fun w => by rw [advance_documentsOf]

theorem grows_reindex (i : Nat) (change : Indexes → Indexes × Result Unit) :
    Grows (Store.reindex i change) := by
  refine grows_same fun w => ?_
  simp only [Store.reindex, Op.store, Op.modifyStore, Task.modify, Task.get, bind, Task.bind, pure,
    Task.advance]
  generalize (change (w.store i).indexes).2 = outcome
  split <;> rfl

theorem grows_ask (i : Nat) (kind : WriteKind) : Grows (Op.ask i kind) := by
  refine grows_same fun w => ?_
  cases line : (w.store i).line with
  | some l => rw [advance_ask_lined line]
  | none => rw [advance_ask_lineless line]; rfl

theorem grows_keepStored (i : Nat) (collection id doc : Value) :
    Grows (Op.keepStored i collection id doc) := by
  refine grows_bind (fun w => w.sharing.later_keep doc) fun number => ?_
  refine grows_bind (grows_each fun field => ?_) fun _ => grows_same fun _ => rfl
  exact grows_modify fun w => w.sharing.later_share _ _

/-! ## The rest of a task -/

/-- The rest of a task that is told how its request went: it fails as the request did, or replies with
`a`, and lets go of the document in hand. -/
structure Rest (next : Result Unit → Op α) (hand : Option (Nat × Value)) (a : α) : Prop where
  refused : ∀ e v, ∃ v', (next (.error e)).advance v = (v', .done (.error e)) ∧ v'.sharing = v.sharing
  granted : ∀ v : World, v.sharing.Has hand →
    ∃ v', (next (.ok ())).advance v = (v', .done (.ok a)) ∧ v'.sharing = v.sharing.freed hand

variable {next : Result Unit → Op α} {hand : Option (Nat × Value)} {a : α}

/-- A task that asked the writer, and what follows. -/
theorem rest_told {f : Unit → Op α} (h : ∀ v : World, v.sharing.Has hand →
    ∃ v', (f ()).advance v = (v', .done (.ok a)) ∧ v'.sharing = v.sharing.freed hand) :
    Rest (fun answer => (.done answer : Op Unit) >>= f) hand a :=
  ⟨fun _ v => ⟨v, rfl, rfl⟩, h⟩

theorem rest_bind {f : α → Op β} {b : β} (h : Rest next hand a)
    (hf : ∀ v, ∃ v', (f a).advance v = (v', .done (.ok b)) ∧ v'.sharing = v.sharing) :
    Rest (fun answer => next answer >>= f) hand b := by
  constructor
  · intro e v
    obtain ⟨v', stop, same⟩ := h.refused e v
    exact ⟨v', Task.advance_bind_failed stop, same⟩
  · intro v has
    obtain ⟨v', stop, freed⟩ := h.granted v has
    obtain ⟨v'', stop', same⟩ := hf v'
    exact ⟨v'', (Task.advance_bind_done stop).trans stop', same.trans freed⟩

/-- The outcome is reported, and is what it was. -/
theorem rest_attempt {f : Result α → Op α} (h : Rest next hand a)
    (hf : ∀ outcome v, ∃ v', (f outcome).advance v = (v', .done outcome) ∧ v'.sharing = v.sharing) :
    Rest (fun answer => (next answer).attempt >>= f) hand a := by
  constructor
  · intro e v
    obtain ⟨v', stop, same⟩ := h.refused e v
    obtain ⟨v'', stop', same'⟩ := hf (.error e) v'
    exact ⟨v'', (Task.advance_bind_done (Task.advance_attempt_done stop)).trans stop',
      same'.trans same⟩
  · intro v has
    obtain ⟨v', stop, freed⟩ := h.granted v has
    obtain ⟨v'', stop', same⟩ := hf (.ok a) v'
    exact ⟨v'', (Task.advance_bind_done (Task.advance_attempt_done stop)).trans stop',
      same.trans freed⟩

theorem rest_handOut {next : Result Unit → Op Nat} {number : Nat} (h : Rest next none number)
    (doc : Value) :
    Rest (fun answer => next answer >>= Op.handOut) (some (number, doc)) doc := by
  constructor
  · intro e v
    obtain ⟨v', stop, same⟩ := h.refused e v
    exact ⟨v', Task.advance_bind_failed stop, same⟩
  · intro v has
    obtain ⟨v', stop, same⟩ := h.granted v nofun
    have same : v'.sharing = v.sharing := same
    have handed : (Op.handOut number).advance v' =
        ({ v' with sharing := v'.sharing.drop number }, .done (.ok (v'.sharing.look number))) := rfl
    refine ⟨{ v' with sharing := v'.sharing.drop number }, ?_, ?_⟩
    · rw [Task.advance_bind_done stop, handed, same, has number doc rfl]
    · show v'.sharing.drop number = _
      rw [same]
      rfl

/-! ## What becomes of a task -/

/-- What is said of a task that ends well at once, and of one that waits for the writer: with which result
it ends then. -/
structure Fate (α : Type) where
  ends : α → Prop
  waits : Sharing → Option (Nat × Value) → α → Prop

/-- A task fails at once, or meets its fate. -/
inductive Meets (t : Op α) (w : World) (fate : Fate α) : Prop
  | fails {w' : World} {e : Error} (stop : t.advance w = (w', .done (.error e)))
  | ends {w' : World} {a : α} (stop : t.advance w = (w', .done (.ok a))) (h : fate.ends a)
  | waits {w' : World} {request : Request} {next : Result Unit → Op α} {hand : Option (Nat × Value)}
      {a : α} (stop : t.advance w = (w', .wait request next)) (rest : Rest next hand a)
      (h : fate.waits w'.sharing hand a)

variable {fate : Fate β}

theorem meets_bind {t : Op α} {f : α → Op β} (stop : t.advance w = (w', .done (.ok a)))
    (h : Meets (f a) w' fate) : Meets (t >>= f) w fate := by
  have same := Task.advance_bind_done (f := f) stop
  cases h with
  | fails stop' => exact .fails (same.trans stop')
  | ends stop' h => exact .ends (same.trans stop') h
  | waits stop' rest h => exact .waits (same.trans stop') rest h

theorem meets_given {x : Result α} {f : α → Op β} (h : ∀ a, x = .ok a → Meets (f a) w fate) :
    Meets (Task.ofResult x >>= f) w fate := by
  cases x with
  | error e => exact .fails rfl
  | ok a => exact meets_bind rfl (h a rfl)

theorem meets_documents {collection : String} {f : List Value → Op β}
    (h : ∀ docs, Effect.documentsOf (w.store i) collection = .ok docs → Meets (f docs) w fate) :
    Meets (Store.documentsOf i (.string collection) >>= f) w fate := by
  have stop := advance_documentsOf i collection w
  cases held : Effect.documentsOf (w.store i) collection with
  | error e =>
    rw [held] at stop
    exact .fails (Task.advance_bind_failed stop)
  | ok docs =>
    rw [held] at stop
    exact meets_bind stop (h docs held)

/-- Changes of the indexes that may be refused. -/
theorem meets_reindexes {t : Op α} {f : α → Op β} {change : Indexes → Indexes × Result Unit}
    (ht : Reindexes i t change) (grows : Grows t) (hi : i < w.stores.length)
    (h : ∀ a w', w'.stores.length = w.stores.length → w.sharing.Later w'.sharing →
      Meets (f a) w' fate) : Meets (t >>= f) w fate := by
  obtain ⟨w', r, stop, becomes, -⟩ := ht w hi
  have later := grows w
  rw [stop] at later
  cases r with
  | error e => exact .fails (Task.advance_bind_failed stop)
  | ok a => exact meets_bind stop (h a w' becomes.length later)

theorem meets_modifyStore {change : Store → Store} {f : Unit → Op β}
    (h : ∀ w' : World, w'.stores.length = w.stores.length → Meets (f ()) w' fate) :
    Meets (Op.modifyStore i change >>= f) w fate :=
  meets_bind rfl (h _ (List.length_set ..))

theorem meets_map {t : Op α} {g : α → β}
    (h : Meets t w ⟨fun a => fate.ends (g a), fun s hand a => fate.waits s hand (g a)⟩) :
    Meets (t >>= fun a => pure (g a)) w fate := by
  cases h with
  | fails stop => exact .fails (Task.advance_bind_failed stop)
  | ends stop h => exact .ends (Task.advance_bind_done stop) h
  | waits stop rest h =>
    exact .waits (Task.advance_bind_wait stop) (rest_bind rest fun v => ⟨v, rfl, rfl⟩) h

theorem meets_observed {t : Op β} (operation : String) (collection : Value)
    (h : Meets t w fate) : Meets (Store.observed operation collection t) w fate := by
  cases h with
  | fails stop => exact .fails (advance_observed operation collection stop).choose_spec
  | ends stop h => exact .ends (advance_observed operation collection stop).choose_spec h
  | waits stop rest h =>
    refine .waits (Task.advance_bind_wait (Task.advance_attempt_wait stop))
      (rest_attempt rest fun outcome v => ?_) h
    obtain ⟨journal, reported⟩ := advance_reported operation collection outcome v
    exact ⟨_, reported, rfl⟩

theorem meets_of_advance {t u : Op β} (same : t.advance w = u.advance w')
    (h : Meets u w' fate) : Meets t w fate := by
  cases h with
  | fails stop => exact .fails (same.trans stop)
  | ends stop h => exact .ends (same.trans stop) h
  | waits stop rest h => exact .waits (same.trans stop) rest h

/-- A task that asks the writer, and what follows. -/
theorem meets_ask {kind : WriteKind} {f : Unit → Op β} {b : β}
    (rest : ∀ v : World, v.sharing.Has hand →
      ∃ v', (f ()).advance v = (v', .done (.ok b)) ∧ v'.sharing = v.sharing.freed hand)
    (h : fate.waits w.sharing hand b) : Meets (Op.ask i kind >>= f) w fate := by
  cases line : (w.store i).line with
  | some l =>
    exact .waits (Task.advance_bind_wait (advance_ask_lined line)) (rest_told rest) h
  | none =>
    exact .waits (Task.advance_bind_wait (advance_ask_lineless line)) (rest_told rest) h

/-- With no document in hand what follows shares nothing. -/
theorem meets_asked {kind : WriteKind} {f : Unit → Op β} {b : β}
    (rest : ∀ v, ∃ v', (f ()).advance v = (v', .done (.ok b)) ∧ v'.sharing = v.sharing)
    (h : fate.waits w.sharing none b) : Meets (Op.ask i kind >>= f) w fate :=
  meets_ask (fun v _ => rest v) h

/-- A commit asks for a flush, with nothing else shared than before. -/
theorem meets_commit {collection : String} {docs : List Value} {f : Unit → Op β}
    (h : ∀ v : World, v.sharing = w.sharing → Meets (Op.ask i .flush >>= f) v fate) :
    Meets (Store.commit i (.string collection) docs >>= f) w fate := by
  let stored : World := (w.setStore i { w.store i with
    memory := ((w.store i).memory.setDocuments collection docs).markDirty (.string collection) }).gauge
      (.documents (Value.string collection).display) docs.length
  have split : (Store.commit i (.string collection) docs >>= f).advance w =
      (Op.ask i .flush >>= f).advance stored := rfl
  exact meets_of_advance split (h stored rfl)

theorem meets_committed {collection : String} {docs : List Value} {b : β}
    (h : fate.waits w.sharing none b) :
    Meets (Store.commit i (.string collection) docs >>= fun _ => pure b) w fate :=
  meets_commit fun _ same => meets_asked (fun u => ⟨u, rfl, rfl⟩) (same ▸ h)

theorem meets_handed {fate : Fate Value} {collection : String} {docs : List Value} {number : Nat}
    {doc : Value} (h : fate.waits w.sharing (some (number, doc)) doc) :
    Meets (Store.commit i (.string collection) docs >>= fun _ => Op.handOut number) w fate := by
  refine meets_commit fun v same => meets_ask (fun u has => ?_) (same ▸ h)
  refine ⟨{ u with sharing := u.sharing.drop number }, ?_, rfl⟩
  rw [← has number doc rfl]
  rfl

theorem meets_connected {f : Unit → Op β} (h : Meets (f ()) w fate) :
    Meets (Store.requireConnected i >>= f) w fate := by
  have stop := advance_requireConnected i w
  cases connected : (w.store i).connected <;> rw [connected] at stop
  · exact .fails (Task.advance_bind_failed stop)
  · exact meets_bind stop h

/-- What is taken in hand for a stored document is that document. -/
theorem advance_keepStored (i : Nat) (collection id doc : Value) (w : World) :
    ∃ v number, (Op.keepStored i collection id doc).advance w = (v, .done (.ok number)) ∧
      w.sharing.next ≤ number ∧ number < v.sharing.next ∧ v.sharing.look number = doc := by
  let kept : World := { w with sharing := (w.sharing.keep doc).1 }
  let shares := Task.each doc.listFields fun field =>
    Op.share (.stored i collection id field) (.kept w.sharing.next field)
  have shared : Quiet shares := quiet_each fun field _ => quiet_share _ _
  have grows : Grows shares := grows_each fun field => grows_modify fun w => w.sharing.later_share _ _
  obtain ⟨v, us, stop, -⟩ := shared kept
  have later := grows kept
  rw [stop] at later
  have own : w.sharing.next < kept.sharing.next := Nat.lt_succ_self _
  refine ⟨v, w.sharing.next, ?_, Nat.le_refl _, Nat.lt_of_lt_of_le own later.next, ?_⟩
  · rw [Op.keepStored, Task.advance_bind_done (t := Op.keep doc) rfl]
    exact Task.advance_bind_done stop
  · rw [later.look _ own]
    simp [kept, Sharing.keep, Sharing.look]

/-! ## The operations -/

/-- A task replies as told, with a document in hand that it took itself, if it has one. -/
def Fate.told (base : Nat) (x : Result α) : Fate α :=
  ⟨fun a => x = .ok a, fun s hand a => x = .ok a ∧ ∀ m doc, hand = some (m, doc) →
    base ≤ m ∧ m < s.next ∧ s.look m = doc⟩

theorem meets_insertKept (collection : String) (doc : Value) (hi : i < w.stores.length) :
    Meets (Store.insertKept i (.string collection) doc []) w
      ⟨fun _ => False, fun s hand number =>
        hand = none ∧ w.sharing.next ≤ number ∧ number < s.next ∧ s.look number = doc⟩ := by
  refine meets_observed _ _ (meets_documents fun docs _ => meets_given fun known _ => ?_)
  cases known with
  | false => exact .fails rfl
  | true =>
    refine meets_reindexes (reindexes_reindex i _) (grows_reindex i _) hi fun _ v _ later => ?_
    have commits {u : World} {number : Nat} (base : w.sharing.next ≤ number)
        (taken : number < u.sharing.next) (own : u.sharing.look number = doc) :
        Meets (Store.commit i (.string collection) (docs ++ [doc]) >>= fun _ => pure number) u
          ⟨fun _ => False, fun s hand number =>
            hand = none ∧ w.sharing.next ≤ number ∧ number < s.next ∧ s.look number = doc⟩ :=
      meets_committed ⟨rfl, base, taken, own⟩
    dsimp only
    split
    · refine meets_bind rfl (meets_bind rfl ?_)
      obtain ⟨u, number, stop, base, taken, own⟩ := advance_keepStored i (.string collection)
        ((doc.entry? (.string "id")).getD .null) doc
        { v with sharing := v.sharing.release _ }
      exact meets_bind stop (commits (Nat.le_trans later.next base) taken own)
    · refine meets_bind rfl (commits later.next (Nat.lt_succ_self _) ?_)
      simp [Sharing.look]

theorem meets_insert (collection : String) (doc : Value) (hi : i < w.stores.length) :
    Meets (Store.insert i (.string collection) doc) w (.told w.sharing.next (.ok doc)) := by
  cases meets_insertKept collection doc hi with
  | fails stop => exact .fails (Task.advance_bind_failed stop)
  | ends stop none => exact none.elim
  | waits stop rest own =>
    obtain ⟨rfl, base, taken, own⟩ := own
    refine .waits (Task.advance_bind_wait stop) (rest_handOut rest doc) ⟨rfl, ?_⟩
    rintro m d ⟨⟩
    exact ⟨base, taken, own⟩

theorem meets_update (collection : String) (id changes : Value) (hi : i < w.stores.length) :
    Meets (Store.update i (.string collection) id changes) w
      (.told w.sharing.next (Effect.updated collection id changes (w.store i))) := by
  refine meets_observed _ _ (meets_documents fun docs held => meets_given fun place hplace => ?_)
  cases place with
  | none =>
    have reply : Effect.updated collection id changes (w.store i) = .ok .null := by
      simp only [Effect.updated, held, hplace, bind, Except.bind, pure, Except.pure]
    exact .ends rfl reply
  | some n =>
    refine meets_given fun new hnew => ?_
    have reply : Effect.updated collection id changes (w.store i) = .ok new := by
      simp only [Effect.updated, held, hplace, hnew, bind, Except.bind]
    refine meets_reindexes (reindexes_reindex i _) (grows_reindex i _) hi fun _ v _ later => ?_
    refine meets_bind rfl ?_
    obtain ⟨u, number, stop, base, taken, own⟩ := advance_keepStored i (.string collection)
      ((new.entry? (.string "id")).getD .null) new { v with sharing := v.sharing.release _ }
    refine meets_bind stop (meets_handed ⟨reply, ?_⟩)
    rintro m d ⟨⟩
    exact ⟨Nat.le_trans later.next base, taken, own⟩

theorem meets_delete (collection : String) (id : Value) (hi : i < w.stores.length) :
    Meets (Store.delete i (.string collection) id) w
      (.told w.sharing.next (Effect.found collection id (w.store i))) := by
  refine meets_observed _ _ (meets_documents fun docs held => meets_given fun place hplace => ?_)
  have reply : Effect.found collection id (w.store i) = .ok place.isSome := by
    simp only [Effect.found, held, hplace, bind, Except.bind, pure, Except.pure]
  cases place with
  | none => exact .ends rfl reply
  | some n =>
    refine meets_reindexes (reindexes_reindex i _) (grows_reindex i _) hi fun _ v _ _ => ?_
    exact meets_committed ⟨reply, fun _ _ none => by cases none⟩

theorem meets_deleteMany (collection : String) (filter : Value) (hi : i < w.stores.length) :
    Meets (Store.deleteMany i (.string collection) filter) w
      (.told w.sharing.next (Effect.removed collection filter (w.store i))) := by
  refine meets_observed _ _ (meets_documents fun docs held => meets_given fun found hfound => ?_)
  cases empty : found.isEmpty with
  | true =>
    obtain rfl := List.isEmpty_iff.mp empty
    have reply : Effect.removed collection filter (w.store i) = .ok 0 := by
      simp only [Effect.removed, held, hfound, bind, Except.bind]
      rfl
    exact .ends rfl reply
  | false =>
    simp only [Bool.false_eq_true, if_false]
    refine meets_reindexes (reindexes_each fun doc => reindexes_reindex i _)
      (grows_each fun doc => grows_reindex i _) hi fun _ v _ _ => ?_
    refine meets_given fun ids hids => meets_given fun left _ => ?_
    have reply : Effect.removed collection filter (w.store i) = .ok ids.length := by
      simp only [Effect.removed, held, hfound, hids, bind, Except.bind, pure, Except.pure]
    exact meets_committed ⟨reply, fun _ _ none => by cases none⟩

theorem meets_drop (collection : String) (w : World) (i : Nat) :
    Meets (Store.dropCollection i (.string collection)) w (.told w.sharing.next (.ok ())) := by
  refine meets_connected (meets_bind rfl (meets_bind rfl (meets_bind rfl ?_)))
  let left (u : World) : World :=
    u.setStore i { u.store i with memory := (u.store i).memory.drop (.string collection) }
  let rest : Op Unit := do
    Store.reportSize (.string collection) 0
    Op.log .info Store.component "collection_dropped" [("collection", .string collection)]
  refine meets_of_advance
    (show _ = (Op.ask i (.remove (.string collection)) >>= fun _ => rest).advance (left _) from rfl) ?_
  exact meets_asked (fun v => ⟨_, rfl, rfl⟩) ⟨rfl, fun _ _ none => by cases none⟩

theorem grows_setupIndex (i : Nat) (collection : String) (field unique : Value)
    (docs : List Value) : Grows (Store.setupIndex i (.string collection) field unique docs) := by
  refine grows_bind (grows_same fun _ => rfl) fun index => ?_
  exact grows_bind (grows_reindex i _) fun _ => grows_same fun _ => rfl

theorem meets_create (collection : String) (schema : Schema) (model : Option Nat)
    (hi : i < w.stores.length) :
    Meets (Store.createCollection i (.string collection) schema model) w
      (.told w.sharing.next (.ok ())) := by
  refine meets_connected ?_
  cases created : (w.store i).memory.create (.string collection) with
  | error e =>
    have failed : (Storage.create i (.string collection)).advance w = (w, .done (.error e)) := by
      simp only [Storage.create, Op.store, Task.get, Task.ofResult, bind, Task.bind, Task.advance,
        pure, created]
    exact .fails (Task.advance_bind_failed failed)
  | ok named =>
    obtain ⟨memory, name⟩ := named
    have stop : (Storage.create i (.string collection)).advance w =
        (w.setStore i { w.store i with memory }, .done (.ok (memory.documents (.string name)))) := by
      simp only [Storage.create, Op.store, Op.modifyStore, Task.modify, Task.get, Task.ofResult,
        bind, Task.bind, Task.advance, pure, created]
    refine meets_bind stop (meets_modifyStore fun v length => ?_)
    rw [dropIndexes_string]
    refine meets_modifyStore fun v' length' => ?_
    rw [World.setStore, List.length_set] at length
    refine meets_reindexes (reindexes_setupIndex i collection _ _ _)
      (grows_setupIndex i collection _ _ _) (by rw [length', length]; exact hi) fun _ u length'' _ => ?_
    refine meets_reindexes (reindexes_each fun _ => reindexes_setupIndex i collection _ _ _)
      (grows_each fun _ => grows_setupIndex i collection _ _ _)
      (by rw [length'', length', length]; exact hi) fun _ u' _ _ => meets_bind rfl ?_
    exact meets_asked (fun v => ⟨_, rfl, rfl⟩) ⟨rfl, fun _ _ none => by cases none⟩

/-! ## Documents in hand up to the request -/

theorem grows_pure (a : α) : Grows (pure a : Op α) := grows_same fun _ => rfl

theorem grows_result (r : Result α) : Grows (Task.ofResult r : Op α) := grows_same fun _ => rfl

theorem grows_release (gone : Place → Bool) : Grows (Op.release gone) :=
  grows_modify fun w => w.sharing.later_release gone

theorem grows_commit (i : Nat) (collection : String) (docs : List Value) :
    Grows (Store.commit i (.string collection) docs) := by
  refine grows_bind (grows_same fun _ => rfl) fun _ => ?_
  exact grows_bind (grows_same fun _ => rfl) fun _ => grows_ask i .flush

/-- What follows a commit does not count, as a commit always waits. -/
theorem grows_committed (i : Nat) (collection : String) (docs : List Value) (f : Unit → Op α) :
    Grows (Store.commit i (.string collection) docs >>= f) := by
  intro w
  have later := grows_commit i collection docs w
  have waits : ∃ w' request next, (Store.commit i (.string collection) docs).advance w =
      (w', .wait request next) := by
    let stored : World := (w.setStore i { w.store i with
      memory := ((w.store i).memory.setDocuments collection docs).markDirty (.string collection) }).gauge
        (.documents (Value.string collection).display) docs.length
    have split : (Store.commit i (.string collection) docs).advance w =
        (Op.ask i .flush).advance stored := rfl
    cases line : (stored.store i).line with
    | some l => exact ⟨_, _, _, split.trans (advance_ask_lined line)⟩
    | none => exact ⟨_, _, _, split.trans (advance_ask_lineless line)⟩
  obtain ⟨w', request, next, stop⟩ := waits
  rw [stop] at later
  rw [Task.advance_bind_wait stop]
  exact later

theorem grows_insertKept (i : Nat) (collection : String) (doc : Value) :
    Grows (Store.insertKept i (.string collection) doc []) := by
  refine grows_observed _ _ (grows_bind (grows_documentsOf i collection) fun docs => ?_)
  refine grows_bind (grows_result _) fun known => ?_
  cases known with
  | false => exact grows_same fun _ => rfl
  | true =>
    refine grows_bind (grows_reindex i _) fun _ => ?_
    have commits (number : Nat) :
        Grows (Store.commit i (.string collection) (docs ++ [doc]) >>= fun _ => pure number) :=
      grows_bind (grows_commit i collection _) fun _ => grows_pure number
    dsimp only
    split
    · refine grows_bind (grows_release _) fun _ => grows_bind (grows_pure _) fun _ => ?_
      exact grows_bind (grows_keepStored i _ _ _) commits
    · exact grows_bind (fun w => w.sharing.later_keep doc) commits

/-- The document that an insert takes in hand is let go only after its request. -/
theorem later_insert (collection : String) (doc : Value) (hi : i < w.stores.length) :
    w.sharing.Later ((Store.insert i (.string collection) doc).advance w).1.sharing := by
  have later := grows_insertKept i collection doc w
  cases meets_insertKept collection doc hi with
  | fails stop =>
    rw [stop] at later
    rw [Store.insert, Task.advance_bind_failed stop]
    exact later
  | ends stop none => exact none.elim
  | waits stop rest own =>
    rw [stop] at later
    rw [Store.insert, Task.advance_bind_wait stop]
    exact later

theorem grows_update (i : Nat) (collection : String) (id changes : Value) :
    Grows (Store.update i (.string collection) id changes) := by
  refine grows_observed _ _ (grows_bind (grows_documentsOf i collection) fun docs => ?_)
  refine grows_bind (grows_result _) fun place => ?_
  cases place with
  | none => exact grows_pure _
  | some n =>
    refine grows_bind (grows_result _) fun new => grows_bind (grows_reindex i _) fun _ => ?_
    refine grows_bind (grows_release _) fun _ => grows_bind (grows_keepStored i _ _ _) fun number => ?_
    exact grows_committed i collection _ _

theorem grows_delete (i : Nat) (collection : String) (id : Value) :
    Grows (Store.delete i (.string collection) id) := by
  refine grows_observed _ _ (grows_bind (grows_documentsOf i collection) fun docs => ?_)
  refine grows_bind (grows_result _) fun place => ?_
  cases place with
  | none => exact grows_pure _
  | some n =>
    refine grows_bind (grows_reindex i _) fun _ => ?_
    exact grows_bind (grows_commit i collection _) fun _ => grows_pure _

theorem grows_deleteMany (i : Nat) (collection : String) (filter : Value) :
    Grows (Store.deleteMany i (.string collection) filter) := by
  refine grows_observed _ _ (grows_bind (grows_documentsOf i collection) fun docs => ?_)
  refine grows_bind (grows_result _) fun found => ?_
  split
  · exact grows_pure _
  · refine grows_bind (grows_each fun doc => grows_reindex i _) fun _ => ?_
    refine grows_bind (grows_result _) fun ids => grows_bind (grows_result _) fun left => ?_
    exact grows_bind (grows_commit i collection _) fun _ => grows_pure _

theorem grows_connected (i : Nat) : Grows (Store.requireConnected i) := by
  refine grows_same fun w => ?_
  rw [advance_requireConnected]

theorem grows_drop (i : Nat) (collection : String) :
    Grows (Store.dropCollection i (.string collection)) := by
  refine grows_bind (grows_connected i) fun _ => grows_bind (grows_same fun _ => rfl) fun _ => ?_
  refine grows_bind (grows_same fun _ => rfl) fun _ => grows_bind (grows_release _) fun _ => ?_
  refine grows_bind ?_ fun _ => grows_same fun _ => rfl
  refine grows_bind (grows_same fun _ => rfl) fun _ => ?_
  exact grows_bind (grows_same fun _ => rfl) fun _ => grows_ask i _

theorem grows_create (i : Nat) (collection : String) (schema : Schema) (model : Option Nat) :
    Grows (Store.createCollection i (.string collection) schema model) := by
  refine grows_bind (grows_connected i) fun _ => grows_bind ?_ fun docs => ?_
  · refine grows_bind (grows_same fun _ => rfl) fun s => grows_bind (grows_result _) fun named => ?_
    exact grows_same fun _ => rfl
  · refine grows_bind (grows_same fun _ => rfl) fun _ => grows_bind (grows_same fun _ => rfl) fun _ => ?_
    refine grows_bind (grows_setupIndex i collection _ _ _) fun _ => ?_
    refine grows_bind (grows_each fun _ => grows_setupIndex i collection _ _ _) fun _ => ?_
    refine grows_bind (grows_same fun _ => rfl) fun _ => grows_bind (grows_ask i .flush) fun _ => ?_
    exact grows_same fun _ => rfl

end Op

end DocStore
