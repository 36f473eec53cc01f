import DocStore.Model.Basic
import DocStore.Proofs.Store.Frame
/-!
The writing operations of a model under a law. Each of them is made of what is not seen and of changes of
the collection at once, so a law that admits those is kept by every one, in whatever number they are under
way.
-/

namespace DocStore

namespace Model

inductive Write where
  | create (data : Value)
  | createMany (items : Value) (period : Nat)
  | update (id data : Value)
  | updateOrThrow (id data : Value)
  | delete (id : Value)
  | deleteMany (filter : Value)

namespace Write

def task (n : Nat) : Write → Op Unit
  | create data => do let _ ← Model.create n data
  | createMany items period => do let _ ← Model.createMany n items period
  | update id data => do let _ ← Model.update n id data
  | updateOrThrow id data => do let _ ← Model.updateOrThrow n id data
  | delete id => do let _ ← Model.delete n id
  | deleteMany filter => do let _ ← Model.deleteMany n filter

/-- What is given for new documents is as `new` says, and what is given for changes as `changed`. -/
def Gives (new changed : Value → Prop) : Write → Prop
  | create data => new data
  | createMany items _ => ∀ xs, items.members? = some xs → ∀ x ∈ xs, new x
  | update _ data | updateOrThrow _ data => changed data
  | _ => True

end Write

/-- The source of times and ids after a document got both. -/
def drawn (m : Model) (source : Source) : Source := (source.now.2.newId m.idStart.display).2

/-- The document that is made of what a schema made of data. -/
def made (m : Model) (doc : Document) (source : Source) : Value :=
  .object (marked doc (source.now.2.newId m.idStart.display).1 source.now.1)

/-- What is put over a document that is changed at some time. -/
def revision (m : Model) (changes : Document) (now : String) : Document :=
  let changes := Document.drop changes "id"
  if m.timestamps.truthy then Document.put changes "updatedAt" (.string now) else changes

/-- The source after a document was changed. -/
def timed (m : Model) (source : Source) : Source :=
  if m.timestamps.truthy then source.now.2 else source

/-- A law that admits what model `n` does: its documents are made of what is as `new` says, and changed by
what is as `changed` says. -/
structure Admits (L : Law World) (n : Nat) (new changed : Value → Prop) : Prop where
  here : ∀ {w}, L.holds w → (w.model n).store < w.stores.length
  named : ∀ {w}, L.holds w → ∃ c, (w.model n).collection = .string c
  leads : ∀ {w w'}, L.leads w w' → w.sharing.Outlives w'.sharing
  allows : ∀ {w w'}, L.allows w w' → w.sharing.Outlives w'.sharing
  /-- What is not seen does not count. -/
  hushed : ∀ {w w'}, L.holds w → w.Hushed w' → L.Stretch w w'
  creates : ∀ {w w' : World} {c data doc}, L.holds w → (w.model n).collection = .string c → new data →
    (w.model n).schema.validate .create data = .ok doc →
    World.Turns (w.model n).store { w with source := (w.model n).drawn w.source }
      (Effect.insert c ((w.model n).made doc w.source) (w.store (w.model n).store)).1 w' →
    L.Stretch w w'
  updates : ∀ {w w' : World} {c id data changes}, L.holds w → (w.model n).collection = .string c →
    changed data → (w.model n).schema.validate .update data = .ok changes →
    World.Turns (w.model n).store { w with source := (w.model n).timed w.source }
      (Effect.update c id (.object ((w.model n).revision changes w.source.now.1))
        (w.store (w.model n).store)).1 w' →
    L.Stretch w w'
  deletes : ∀ {w w' : World} {c id}, L.holds w → (w.model n).collection = .string c →
    w.Turns (w.model n).store (Effect.delete c id (w.store (w.model n).store)).1 w' → L.Stretch w w'
  deletesMany : ∀ {w w' : World} {c filter}, L.holds w → (w.model n).collection = .string c →
    w.Turns (w.model n).store (Effect.deleteMany c filter (w.store (w.model n).store)).1 w' →
    L.Stretch w w'

/-- What is in hand under some numbers is as new documents are made of. -/
def Holding (new : Value → Prop) (kept : List Nat) (w : World) : Prop :=
  ∀ item ∈ kept, item < w.sharing.next ∧ new (w.sharing.look item)

theorem Holding.outlived {new : Value → Prop} {kept : List Nat} {w w' : World} (null : new .null)
    (h : Holding new kept w) (outlives : w.sharing.Outlives w'.sharing) : Holding new kept w' := by
  intro item there
  obtain ⟨known, good⟩ := h item there
  refine ⟨Nat.lt_of_lt_of_le known outlives.next, ?_⟩
  rcases outlives.look item known with same | gone
  · rw [same]
    exact good
  · rw [gone]
    exact null

/-- All items are taken in hand at once. -/
theorem advance_keepAll {new : Value → Prop} {items : List Value} (given : ∀ x ∈ items, new x)
    (w : World) :
    ∃ sharing kept, (Task.each items Op.keep).advance w = ({ w with sharing }, .done (.ok kept)) ∧
      w.sharing.Later sharing ∧ Holding new kept { w with sharing } := by
  induction items generalizing w with
  | nil => exact ⟨w.sharing, [], rfl, .refl _, nofun⟩
  | cons x rest ih =>
    have first : (Op.keep x).advance w =
        ({ w with sharing := (w.sharing.keep x).1 }, .done (.ok w.sharing.next)) := rfl
    have own := w.sharing.later_keep x
    obtain ⟨sharing, kept, stop, later, holding⟩ := ih (fun y there => given y (by simp [there]))
      { w with sharing := (w.sharing.keep x).1 }
    refine ⟨sharing, w.sharing.next :: kept, ?_, own.trans later, ?_⟩
    · show (Op.keep x >>= _).advance w = _
      rw [Task.advance_bind_done first, Task.advance_bind_done stop]
      rfl
    · rintro item (_ | ⟨_, there⟩)
      · have known : w.sharing.next < (w.sharing.keep x).1.next := Nat.lt_succ_self _
        refine ⟨Nat.lt_of_lt_of_le known later.next, ?_⟩
        rw [later.look _ known]
        simpa [Sharing.keep, Sharing.look] using given x (by simp)
      · exact holding item there

namespace Admits

variable {L : Law World} {n : Nat} {new changed : Value → Prop}

theorem keeps_look (number : Nat) : L.Keeps (Op.look number) :=
  Law.keeps_bind Law.keeps_get fun _ => Law.keeps_pure _

theorem keeps_orThrow (id doc : Value) : L.Keeps (orThrow n id doc) := by
  by_cases gone : doc.isNull = true
  · simp only [orThrow, gone, if_true]
    exact Law.keeps_bind Law.keeps_get fun w =>
      Law.keeps_bind (Law.keeps_raise _) fun _ => Law.keeps_pure doc
  · simp only [orThrow, gone, Bool.false_eq_true, if_false]
    exact Law.keeps_bind (Law.keeps_pure ()) fun _ => Law.keeps_pure doc

variable (admits : Admits L n new changed)

include admits

/-- Documents that are taken in hand, and let go. -/
theorem shares {w : World} {sharing : Sharing} (holds : L.holds w)
    (outlives : w.sharing.Outlives sharing) : L.Stretch w { w with sharing } :=
  admits.hushed holds ⟨⟨rfl, rfl, rfl⟩, ⟨rfl, rfl, rfl, outlives⟩⟩

theorem keeps_handOut (number : Nat) : L.Keeps (Op.handOut number) :=
  fun w holds => admits.shares holds (w.sharing.outlives_drop number)

theorem keeps_createKept {data : Value} (item : Option Nat) (given : new data) :
    L.Keeps (createKept n data item) := by
  intro w holds
  show L.KeepsFrom (Task.ofResult ((w.model n).schema.validate .create data) >>= _) w w
  cases valid : (w.model n).schema.validate .create data with
  | error e => exact ⟨holds, L.refl w⟩
  | ok doc =>
    obtain ⟨c, named⟩ := admits.named holds
    have here := admits.here holds
    let w' : World := { w with source := (w.model n).drawn w.source }
    show L.KeepsFrom (Store.insertKept (w.model n).store (w.model n).collection
      ((w.model n).made doc w.source) (origins n (w.model n) data item)) w w'
    rw [named]
    have has := Op.has_insertKept (w := w') c ((w.model n).made doc w.source)
      (origins n (w.model n) data item) here
    exact Op.upholds_of_has has (Op.spares_insertKept _ _ _ _)
      (fun v turns => admits.creates holds named given valid turns) fun v v' => admits.hushed

theorem keeps_create {data : Value} (given : new data) : L.Keeps (create n data) :=
  Law.keeps_bind (admits.keeps_createKept none given) admits.keeps_handOut

theorem keeps_update {id data : Value} (given : changed data) : L.Keeps (update n id data) := by
  intro w holds
  show L.KeepsFrom (Task.ofResult ((w.model n).schema.validate .update data) >>= _) w w
  cases valid : (w.model n).schema.validate .update data with
  | error e => exact ⟨holds, L.refl w⟩
  | ok changes =>
    obtain ⟨c, named⟩ := admits.named holds
    have here := admits.here holds
    have goesOn : L.KeepsFrom (Store.update (w.model n).store (.string c) id
          (.object ((w.model n).revision changes w.source.now.1))) w
        { w with source := (w.model n).timed w.source } := by
      have has := Op.has_update (w := { w with source := (w.model n).timed w.source }) c id
        (.object ((w.model n).revision changes w.source.now.1)) here
      exact Op.upholds_of_has has (Op.spares_update _ _ _ _)
        (fun v turns => admits.updates holds named given valid turns) fun v v' => admits.hushed
    by_cases timestamps : (w.model n).timestamps.truthy = true
    · simp only [timed, revision, timestamps, if_true] at goesOn
      simpa only [bind, Task.bind, Task.ofResult, pure, Op.now, Task.get, Task.modify, Law.KeepsFrom,
        Law.Upholds, timestamps, if_true, named] using goesOn
    · simp only [timed, revision, timestamps, Bool.false_eq_true, if_false] at goesOn
      simpa only [bind, Task.bind, Task.ofResult, pure, timestamps, Bool.false_eq_true, if_false, named]
        using goesOn

theorem keeps_delete (id : Value) : L.Keeps (delete n id) := by
  intro w holds
  obtain ⟨c, named⟩ := admits.named holds
  show L.KeepsFrom (Store.delete (w.model n).store (w.model n).collection id) w w
  rw [named]
  exact Op.upholds_of_has (Op.has_delete c id (admits.here holds)) (Op.spares_delete _ _ _)
    (fun v turns => admits.deletes holds named turns) fun v v' => admits.hushed

theorem keeps_deleteMany (filter : Value) : L.Keeps (deleteMany n filter) := by
  intro w holds
  obtain ⟨c, named⟩ := admits.named holds
  show L.KeepsFrom (Store.deleteMany (w.model n).store (w.model n).collection filter) w w
  rw [named]
  exact Op.upholds_of_has (Op.has_deleteMany c filter (admits.here holds)) (Op.spares_deleteMany _ _ _)
    (fun v turns => admits.deletesMany holds named turns) fun v v' => admits.hushed

theorem keeps_createMany {items : Value} {period : Nat} (null : new .null)
    (given : ∀ xs, items.members? = some xs → ∀ x ∈ xs, new x) :
    L.Keeps (createMany n items period) := by
  unfold createMany
  cases members : items.members? with
  | none => exact Law.keeps_raise _
  | some xs =>
    have given := given xs members
    intro w holds
    obtain ⟨sharing, kept, stop, later, holding⟩ :=
      advance_keepAll (fun x there => given x (List.mem_of_mem_take there)) w
    have begun := admits.shares holds later.outlives
    rw [Law.keepsFrom_advance, Task.advance_bind_done stop, ← Law.keepsFrom_advance]
    -- While documents are made of the items, those stay in hand.
    have stays (v v' : World) (h : Holding new kept v) (leads : L.leads v v') : Holding new kept v' :=
      h.outlived null (admits.leads leads)
    refine Law.KeepsFrom.alone (P := Holding new kept)
      (fun v v' h allows => h.outlived null (admits.allows allows)) ?_
    refine Law.Keeps.after ?_ ⟨⟨begun.1, holding⟩, begun.2⟩
    refine Law.keeps_bind (Law.keeps_each fun entry there => ?_) fun created => ?_
    · obtain ⟨data, place⟩ := entry
      have good : new data := given data (List.fst_mem_of_mem_zipIdx there)
      dsimp only
      split
      · next item found =>
        intro v holds
        have here : new (v.sharing.look item) := (holds.2 item (List.mem_of_getElem? found)).2
        exact (admits.keeps_createKept (some item) here).also stays v holds
      · exact (admits.keeps_createKept none good).also stays
    · refine Law.keeps_bind (Law.keeps_each fun number _ => (keeps_look number).also stays)
        fun docs => ?_
      refine Law.keeps_bind (Law.keeps_each fun number _ => (admits.keeps_handOut number).also stays)
        fun _ => ?_
      exact Law.keeps_pure docs

/-- Every writing operation of a model keeps a law that admits what the model does. -/
theorem keeps_task {write : Write} (null : new .null) (gives : write.Gives new changed) :
    L.Keeps (write.task n) := by
  cases write with
  | create data => exact Law.keeps_bind (admits.keeps_create gives) fun _ => Law.keeps_pure ()
  | createMany items period =>
    exact Law.keeps_bind (admits.keeps_createMany null gives) fun _ => Law.keeps_pure ()
  | update id data => exact Law.keeps_bind (admits.keeps_update gives) fun _ => Law.keeps_pure ()
  | updateOrThrow id data =>
    refine Law.keeps_bind (Law.keeps_bind (admits.keeps_update gives) fun doc => ?_) fun _ =>
      Law.keeps_pure ()
    exact keeps_orThrow id doc
  | delete id => exact Law.keeps_bind (admits.keeps_delete id) fun _ => Law.keeps_pure ()
  | deleteMany filter =>
    exact Law.keeps_bind (admits.keeps_deleteMany filter) fun _ => Law.keeps_pure ()

end Admits

end Model

end DocStore
