import DocStore.Proofs.Store.Run
import DocStore.Proofs.Store.Traffic
/-!
A collection that is dropped while other demands are under way: once the drop has returned, its file is
gone and no flush writes it again, until the collection is made anew.
-/

namespace DocStore

open CollectionName (fileName fileOf)

/-! ## Collections that are not held -/

namespace Demand

variable {s : Store} {name : String}

theorem named_effect (d : Demand) (named : s.memory.Named) : (d.effect s).1.memory.Named := by
  cases d with
  | change op =>
    obtain ⟨act, ⟨indexes, schemas, r, -, same⟩, fits⟩ := op.acts s
    have goes : op.effect s = _ := same s.memory.dirty s.line
    simp only [effect, goes]
    exact Act.named named fits
  | findById | find | count | list => exact named

/-- Documents are looked for in collections that are held. -/
theorem documentsOf_unheld (unheld : Table.has s.memory.collections name = false) :
    ∃ e, Effect.documentsOf s name = .error e := by
  rw [Effect.documentsOf, Memory.holds_string, unheld]
  split
  · exact ⟨_, rfl⟩
  · exact ⟨_, rfl⟩

theorem unheld_drop (m : Memory) (name : String) :
    Table.has (m.drop (.string name)).collections name = false := by
  rw [Memory.drop_collections, Table.has, Table.lookup_drop, if_pos rfl]
  rfl

/-- A drop is refused, or it forgets the collection and asks for the removal of its file. -/
theorem drop_effect (name : String) (s : Store) :
    (Demand.change (.drop name)).effect s = (s, .error .adapterNotConnected) ∨
      ((Demand.change (.drop name)).effect s).2 = .ok (some (.remove (.string name))) ∧
        Table.has ((Demand.change (.drop name)).effect s).1.memory.collections name = false := by
  simp only [effect, Operation.effect, Effect.drop]
  cases s.connected with
  | false => exact .inl rfl
  | true => exact .inr ⟨rfl, unheld_drop s.memory name⟩

/-- A collection that is not held comes to be only when it is made. -/
theorem unheld_effect {d : Demand} (other : ∀ schema model, d ≠ .change (.create name schema model))
    (unheld : Table.has s.memory.collections name = false) :
    Table.has (d.effect s).1.memory.collections name = false := by
  cases d with
  | findById | find | count | list => exact unheld
  | change op =>
    by_cases own : name = op.collection
    · obtain ⟨e, failed⟩ := documentsOf_unheld unheld
      cases op with
      | insert c | update c | delete c | deleteMany c =>
        obtain rfl : name = c := own
        simp only [effect, Operation.effect, Effect.insert, Effect.update, Effect.delete,
          Effect.deleteMany, failed, Effect.given]
        exact unheld
      | create c schema model =>
        obtain rfl : name = c := own
        exact absurd rfl (other schema model)
      | drop c =>
        obtain rfl : name = c := own
        simp only [effect, Operation.effect, Effect.drop]
        split
        · exact unheld
        · exact unheld_drop s.memory name
    · have alike := (op.alike_elsewhere own s).collection
      simp only [effect, Table.has, alike]
      exact unheld

end Demand

/-! ## Desks in order -/

namespace Desk

/-- Collections go by names of files, and requests and answers by numbers that were given. -/
structure Tidy (v : Desk) : Prop where
  named : v.store.memory.Named
  entries : ∀ file : String, '/' ∈ file.toList → v.directory.entry? file = none
  flight : ∀ f ∈ v.flight, ∃ c, f.1 = .string c ∧ '/' ∉ c.toList
  asked : ∀ q ∈ v.queue, q.1 ≤ v.last
  told : ∀ q ∈ v.told, q.1 ≤ v.last

def Lacks (v : Desk) (name : String) : Prop := Table.has v.store.memory.collections name = false

/-- The collection has no file, and none is in flight. -/
structure Absent (v : Desk) (name : String) : Prop where
  entry : v.directory.entry? (fileName name) = none
  flight : ∀ f ∈ v.flight, fileOf f.1 ≠ fileName name

variable {v v' : Desk} {d? : Option Demand} {name : String} {k : Nat}

/-- What is in flight was held. -/
theorem mem_flight (named : v.store.memory.Named) {files : Snapshot}
    (taken : snapshot v.store.indent v.store.memory v.store.memory.pending = .ok files) :
    ∀ f ∈ files, ∃ c, f.1 = .string c ∧ Table.has v.store.memory.collections c = true := by
  intro f hf
  obtain ⟨names, -⟩ := mem_snapshot taken
  have among : f.1 ∈ files.names := List.mem_map_of_mem hf
  rw [names, Memory.mem_pending] at among
  obtain ⟨changed, held⟩ := among
  obtain ⟨c, own⟩ := named.texts f.1 changed
  rw [own, Memory.holds_string] at held
  exact ⟨c, own, held⟩

/-- A file with a slash in its name is none of those in flight. -/
theorem Tidy.spares (h : v.Tidy) {file : String} (slash : '/' ∈ file.toList) :
    ∀ f ∈ v.flight, fileOf f.1 ≠ file := by
  rintro f hf rfl
  obtain ⟨c, own, plain⟩ := h.flight f hf
  rw [own, CollectionName.fileOf_string] at slash
  exact CollectionName.plain_fileName plain slash

theorem tidy_moves (moves : v.Moves d? v') (h : v.Tidy) : v'.Tidy := by
  cases moves with
  | rests => exact h
  | ends =>
    refine ⟨Demand.named_effect _ h.named, h.entries, h.flight, fun q hq => ?_, fun q hq => ?_⟩
    · exact Nat.le_succ_of_le (h.asked q hq)
    · rcases List.mem_cons.mp hq with rfl | hq
      · exact Nat.le_refl _
      · exact Nat.le_succ_of_le (h.told q hq)
  | asks =>
    refine ⟨Demand.named_effect _ h.named, h.entries, h.flight, fun q hq => ?_,
      fun q hq => Nat.le_succ_of_le (h.told q hq)⟩
    rcases List.mem_append.mp hq with hq | hq
    · exact Nat.le_succ_of_le (h.asked q hq)
    · rw [List.mem_singleton.mp hq]
  | starts first taken =>
    refine ⟨⟨h.named.plain, nofun⟩, h.entries, fun f hf => ?_, h.asked, h.told⟩
    obtain ⟨c, own, held⟩ := mem_flight h.named taken f hf
    exact ⟨c, own, h.named.plain c held⟩
  | works works =>
    exact ⟨h.named, fun file slash => works file (h.entries file slash) (h.spares slash), h.flight,
      h.asked, h.told⟩
  | answers first dirties works removed =>
    refine ⟨⟨?_, fun x hx => ?_⟩, fun file slash => works file (h.entries file slash) (h.spares slash),
      nofun, fun q hq => ?_, fun q hq => ?_⟩
    · show ∀ c, Table.has _ c = true → _
      rw [dirties.collections]
      exact h.named.plain
    · rcases dirties.dirty x hx with before | flies
      · exact h.named.texts x before
      · obtain ⟨f, hf, rfl⟩ := List.mem_map.mp flies
        obtain ⟨c, own, -⟩ := h.flight f hf
        exact ⟨c, own⟩
    · exact h.asked q (by rw [first]; exact List.mem_cons_of_mem _ hq)
    · rcases List.mem_cons.mp hq with rfl | hq
      · exact h.asked _ (by rw [first]; exact List.mem_cons_self)
      · exact h.told q hq

/-! ## A collection that is dropped -/

theorem lacks_moves (moves : v.Moves d? v')
    (may : ∀ d, d? = some d → ∀ schema model, d ≠ .change (.create name schema model))
    (h : v.Lacks name) : v'.Lacks name := by
  cases moves with
  | rests | starts | works => exact h
  | ends | asks => exact Demand.unheld_effect (may _ rfl) h
  | answers first dirties =>
    show Table.has _ name = false
    rw [dirties.collections]
    exact h

/-- A collection that is not held gets no file. -/
theorem absent_moves (named : v.store.memory.Named) (moves : v.Moves d? v') (lacks : v.Lacks name)
    (h : v.Absent name) : v'.Absent name := by
  cases moves with
  | rests | ends | asks => exact ⟨h.entry, h.flight⟩
  | works works => exact ⟨works _ h.entry h.flight, h.flight⟩
  | answers first dirties works removed =>
    exact ⟨works _ h.entry h.flight, nofun⟩
  | starts first taken =>
    refine ⟨h.entry, fun f hf same => ?_⟩
    obtain ⟨c, own, held⟩ := mem_flight named taken f hf
    rw [own, CollectionName.fileOf_string] at same
    rw [CollectionName.fileName_inj same] at held
    cases held.symm.trans lacks

/-- A file that is removed is the one of the collection. -/
theorem entry?_removed {d d' : Directory} (plain : '/' ∉ name.toList)
    (gone : d.remove (fileOf (.string name)) = .ok d') : d'.entry? (fileName name) = none := by
  rw [CollectionName.fileOf_string] at gone
  have found : ∃ entry, d.locate (fileName name) = .ok entry := by
    rw [Directory.remove] at gone
    cases found : d.locate (fileName name) with
    | error f =>
      rw [found] at gone
      cases gone
    | ok entry => exact ⟨entry, rfl⟩
  obtain ⟨entry, found⟩ := found
  rw [Directory.entry?_remove gone, if_pos (Directory.target?_fileName plain found)]

/-- A demand, known by its number, to drop a collection: while it waits, its request is the removal and
the collection is not held; once it is granted, there is no file either. -/
structure Drops (v : Desk) (name : String) (k : Nat) : Prop where
  number : k ≤ v.last
  asked : ∀ kind, (k, kind) ∈ v.queue → kind = .remove (.string name) ∧ v.Lacks name
  told : (k, .ok ()) ∈ v.told → v.Lacks name ∧ v.Absent name

theorem drops_moves (plain : '/' ∉ name.toList) (tidy : v.Tidy) (moves : v.Moves d? v')
    (may : ∀ d, d? = some d → ∀ schema model, d ≠ .change (.create name schema model))
    (h : v.Drops name k) : v'.Drops name k := by
  have lacks (before : v.Lacks name) : v'.Lacks name := lacks_moves moves may before
  have told (before : (k, .ok ()) ∈ v.told) : v'.Lacks name ∧ v'.Absent name :=
    ⟨lacks (h.told before).1, absent_moves tidy.named moves (h.told before).1 (h.told before).2⟩
  have asked (kind : WriteKind) (before : (k, kind) ∈ v.queue) :
      kind = .remove (.string name) ∧ v'.Lacks name := (h.asked kind before).imp_right lacks
  have later : k ≠ v.last + 1 := Nat.ne_of_lt (Nat.lt_succ_of_le h.number)
  cases moves with
  | rests => exact h
  | starts | works => exact ⟨h.number, asked, told⟩
  | ends =>
    refine ⟨Nat.le_succ_of_le h.number, asked, fun there => ?_⟩
    rcases List.mem_cons.mp there with same | before
    · exact absurd (congrArg Prod.fst same) later
    · exact told before
  | asks =>
    refine ⟨Nat.le_succ_of_le h.number, fun kind there => ?_, told⟩
    rcases List.mem_append.mp there with before | same
    · exact asked kind before
    · exact absurd (congrArg Prod.fst (List.mem_singleton.mp same)) later
  | @answers n kind queue m now answer first dirties works removed =>
    refine ⟨h.number, fun kind' there => ?_, fun there => ?_⟩
    · exact asked kind' (by rw [first]; exact List.mem_cons_of_mem _ there)
    · rcases List.mem_cons.mp there with same | before
      · cases same
        obtain ⟨rfl, own⟩ := asked kind (by rw [first]; exact List.mem_cons_self)
        have gone := removed _ rfl rfl
        refine ⟨own, ?_, nofun⟩
        exact entry?_removed plain gone
      · exact told before

/-- The drop of a collection has come. -/
theorem drops_comes (tidy : v.Tidy) (moves : v.Moves (some (.change (.drop name))) v') :
    v'.Drops name (v.last + 1) := by
  have fresh {n : Nat} (given : n ≤ v.last) : n ≠ v.last + 1 := Nat.ne_of_lt (Nat.lt_succ_of_le given)
  cases moves with
  | ends asks =>
    refine ⟨Nat.le_refl _, fun kind there => absurd rfl (fresh (tidy.asked _ there)), fun there => ?_⟩
    rcases List.mem_cons.mp there with same | before
    · rcases Demand.drop_effect name v.store with refused | ⟨asked, -⟩
      · have answer : (Demand.change (.drop name)).reply v.store = .error .adapterNotConnected := by
          rw [Demand.reply, refused]
          rfl
        rw [answer] at same
        cases same
      · rw [asked] at asks
        cases asks
    · exact absurd rfl (fresh (tidy.told _ before))
  | asks line asks =>
    refine ⟨Nat.le_refl _, fun kind there => ?_, fun there => absurd rfl (fresh (tidy.told _ there))⟩
    rcases Demand.drop_effect name v.store with refused | ⟨asked, lacks⟩
    · rw [refused] at asks
      cases asks
    · rw [asked] at asks
      rcases List.mem_append.mp there with earlier | own
      · exact absurd rfl (fresh (tidy.asked _ earlier))
      · cases asks
        cases List.mem_singleton.mp own
        exact ⟨rfl, lacks⟩

end Desk

open Traffic (Run Shows comes desk)

/-- Whatever demands come to a store and whichever of its writes fail: once the drop of a collection has
returned without an error, the collection has no file as long as it is not made again. -/
theorem Store.dropped_stays {i : Nat} {w : World} {s₁ s₂ : Traffic} {name : String} {reply : Reply}
    (here : i < w.stores.length) (named : (w.store i).memory.Named)
    (entries : ∀ file, (w.directory.entry? file).isSome = true → '/' ∉ file.toList)
    (before : Run i (fun _ => True) { state := w } s₁)
    (after : Run i (fun d => ∀ schema model, d ≠ .change (.create name schema model))
      (comes i (.change (.drop name)) s₁) s₂)
    (told : (s₁.last + 1, .ok reply) ∈ s₂.results) :
    s₂.state.directory.entry? (fileName name) = none := by
  obtain ⟨line, shows⟩ := Traffic.shows_start here
  have start : (desk i { state := w } .idle [] []).Tidy := by
    refine ⟨named, fun file slash => ?_, nofun, nofun, nofun⟩
    by_contra there
    exact entries file (Option.isSome_iff_ne_none.mpr there) slash
  obtain ⟨line₁, p₁, cs₁, told₁, shows₁, tidy₁⟩ :=
    Traffic.run_invariant (fun v v' d? _ moves => Desk.tidy_moves moves) shows start before
  obtain ⟨line', p', cs', told', shows', moves⟩ := shows₁.comes (.change (.drop name))
  have tidy' := Desk.tidy_moves moves tidy₁
  by_cases slash : '/' ∈ name.toList
  · obtain ⟨line₂, p₂, cs₂, told₂, shows₂, tidy₂⟩ :=
      Traffic.run_invariant (fun v v' d? _ moves => Desk.tidy_moves moves) shows' tidy' after
    refine tidy₂.entries _ ?_
    rw [Directory.toList_fileName]
    exact List.mem_append_left _ slash
  · have drops' := Desk.drops_comes tidy₁ moves
    obtain ⟨line₂, p₂, cs₂, told₂, shows₂, tidy₂, drops₂⟩ :=
      Traffic.run_invariant (P := fun v => v.Tidy ∧ v.Drops name (s₁.last + 1))
        (fun v v' d? may moves kept =>
          ⟨Desk.tidy_moves moves kept.1, Desk.drops_moves slash kept.1 moves may kept.2⟩)
        shows' ⟨tidy', drops'⟩ after
    exact (drops₂.told (shows₂.results _ _ told)).2.entry

/-! ## A drop behind a flush -/

/-- A collection is made. -/
def made : Traffic :=
  Loop.steps Writer.attend 20 (comes 0 (.change (.create "users" [] none)) { state := Store.opened })

/-- A flush is writing its file. -/
def flying : Traffic :=
  Loop.steps Writer.attend 2 (comes 0 (.change (.insert "users" (.object [("id", .string "a")]))) made)

/-- The collection is dropped meanwhile. -/
def landed : Traffic :=
  Loop.steps Writer.attend 20 (comes 0 (.change (.drop "users")) flying)

theorem run_flying : Run 0 (fun _ => True) { state := Store.opened } flying := by
  have first : Run 0 (fun _ => True) { state := Store.opened } made :=
    .trans (.step .start (.comes _) fun _ _ => trivial) (Traffic.run_steps 20 _)
  exact .trans (.step first (.comes _) fun _ _ => trivial) (Traffic.run_steps 2 _)

theorem Store.dropped_behind_flush :
    Run 0 (fun _ => True) { state := opened } flying ∧ flying.working.length = 1 ∧
      Run 0 (fun d => ∀ schema model, d ≠ .change (.create "users" schema model))
        (comes 0 (.change (.drop "users")) flying) landed ∧ landed.events.isEmpty = true ∧
      landed.state.directory.entry? (fileName "users") = none := by
  have named : (opened.store 0).memory.Named := by
    have memory : (opened.store 0).memory = {} := rfl
    rw [memory]
    exact ⟨nofun, nofun⟩
  have empty : opened.directory = some [] := by decide +kernel
  have here : 0 < opened.stores.length := by decide +kernel
  have told : (landed.results.any fun (n, r) => n == flying.last + 1 && r.isOk) = true := by
    decide +kernel
  have flies : flying.working.length = 1 := by decide +kernel
  have ends : landed.events.isEmpty = true := by decide +kernel
  have after : Run 0 (fun d => ∀ schema model, d ≠ .change (.create "users" schema model))
      (comes 0 (.change (.drop "users")) flying) landed := Traffic.run_steps 20 _
  obtain ⟨⟨n, r⟩, there, own⟩ := List.any_eq_true.mp told
  obtain ⟨same, granted⟩ := Bool.and_eq_true_iff.mp own
  rw [beq_iff_eq.mp same] at there
  cases r with
  | error e => cases granted
  | ok reply =>
    have gone := dropped_stays here named (fun file found => by rw [empty] at found; cases found)
      run_flying after there
    exact ⟨run_flying, flies, after, ends, gone⟩

end DocStore
