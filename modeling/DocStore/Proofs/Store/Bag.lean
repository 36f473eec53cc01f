import DocStore.Proofs.Storage.Single
import DocStore.Proofs.Store.Frame
import DocStore.Proofs.Store.Identity
import DocStore.Proofs.Store.Order
/-!
Collections that take any document with a new id: what is added to them stays even if the writer fails,
and deleting by a filter takes out just what the filter finds.
-/

namespace DocStore

open Indexes
open Value (IsDocument)
open Writer (serve)

/-! ## Collections that take any document -/

/-- A collection of a connected store holds some documents, each with an id of its own. Its indexes, if it
has any, are exact for them, and none but that of ids is unique. -/
structure Store.Bag (c : String) (docs : List Value) (s : Store) : Prop where
  connected : s.connected = true
  held : s.memory.holds (.string c) = true
  documents : s.memory.documents (.string c) = docs
  kept : Kept docs
  exact : AllExact (s.indexes.ofCollection (.string c)) (· ∈ docs)
  free : ∀ e ∈ shape (s.indexes.ofCollection (.string c)), e.2.truthy = true → e.1 = .string "id"

namespace Store.Bag

variable {c : String} {docs left : List Value} {doc filter : Value} {s s' : Store}

theorem alike (h : s.Bag c docs) (same : Alike c s s') : s'.Bag c docs := by
  have documents : s'.memory.documents (.string c) = s.memory.documents (.string c) := by
    rw [Memory.documents_string, Memory.documents_string, same.collection]
  have held : s'.memory.holds (.string c) = s.memory.holds (.string c) := by
    rw [Memory.holds_string, Memory.holds_string, Table.has, Table.has, same.collection]
  refine ⟨same.connected.trans h.connected, held.trans h.held, documents.trans h.documents, h.kept, ?_, ?_⟩
  · rw [same.indexes]
    exact h.exact
  · rw [same.indexes]
    exact h.free

theorem documentsOf (h : s.Bag c docs) : Effect.documentsOf s c = .ok docs := by
  simp [Effect.documentsOf, h.connected, h.held, h.documents]

/-- Other documents with exact indexes that are as unique as before. -/
theorem committed (h : s.Bag c docs) (kept : Kept left) {ix : Indexes}
    (exact : AllExact (ix.ofCollection (.string c)) (· ∈ left))
    (same : shape (ix.ofCollection (.string c)) = shape (s.indexes.ofCollection (.string c))) :
    (Effect.committed c left { s with indexes := ix }).1.Bag c left := by
  refine ⟨h.connected, ?_, Effect.committed_documents c left _, kept, exact, ?_⟩
  · simp [Effect.committed, Memory.holds_string, Table.has_put]
  · intro e he
    exact h.free e (same ▸ he)

/-- A document with a new id is taken. -/
theorem insert (h : s.Bag c docs) (hd : IsDocument doc) (known : Store.hasId doc = .ok true)
    (fresh : ∀ d ∈ docs, d.under "id" ≠ doc.under "id") :
    ∃ s', Effect.insert c doc s = (s', .ok (some .flush)) ∧ s'.Bag c (docs ++ [doc]) := by
  have free : ¬Taken (fun _ => True) (s.indexes.ofCollection (.string c)) (· ∈ docs) doc := by
    rintro ⟨e, he, -, flagged, field, named, d, there, -, same⟩
    obtain rfl : field = "id" := Value.string.inj (named.symm.trans (h.free e he flagged))
    obtain ⟨t, own⟩ := hd.named
    rw [own, strictEq_string] at same
    exact fresh d there (same.trans own.symm)
  obtain ⟨ix, done, exact, same⟩ : ∃ ix, s.indexes.insert (.string c) doc = (ix, .ok ()) ∧
      AllExact (ix.ofCollection (.string c)) (fun d => d ∈ docs ∨ d = doc) ∧
      shape (ix.ofCollection (.string c)) = shape (s.indexes.ofCollection (.string c)) := by
    by_cases none : s.indexes.ofCollection (.string c) = []
    · exact ⟨s.indexes, changeAll_none none, by rw [none]; exact allExact_nil _, rfl⟩
    · rcases insert_writes h.exact none h.kept.documents hd with ⟨taken, -⟩ | ⟨-, settled⟩
      · exact absurd taken free
      · exact settled
  refine ⟨_, ?_, h.committed (h.kept.append hd fresh) (exact.congr fun d => by simp) same⟩
  rw [Effect.insert, h.documentsOf, Effect.given, known, Effect.given, if_pos rfl,
    Effect.reindexed_ok _ done]
  rfl

/-- Deleting by a filter takes out just what it finds, and counts it. -/
theorem deleteMany (h : s.Bag c docs) {p : Value → Bool}
    (run : Query.run { filter } docs = .ok (docs.filter p)) :
    (Effect.deleteMany c filter s).1.Bag c (docs.filter (!p ·)) ∧
      (∃ kind, (Effect.deleteMany c filter s).2 = .ok kind) ∧
      Effect.removed c filter s = .ok (docs.filter p).length := by
  have found : Kept (docs.filter p) := h.kept.sublist List.filter_sublist
  have counted : Effect.removed c filter s = .ok (docs.filter p).length := by
    simp only [Effect.removed, h.documentsOf, run, Store.idsOf_kept found, bind, Except.bind, pure,
      Except.pure, List.length_map]
  cases nothing : (docs.filter p).isEmpty with
  | true =>
    have all : docs.filter (!p ·) = docs := by
      refine List.filter_eq_self.mpr fun d hd => ?_
      have none := List.filter_eq_nil_iff.mp (List.isEmpty_iff.mp nothing) d hd
      simpa using none
    have same : Effect.deleteMany c filter s = (s, .ok none) := by
      simp only [Effect.deleteMany, h.documentsOf, run, Effect.given, nothing, if_true]
    rw [same, all]
    exact ⟨h, ⟨none, rfl⟩, counted⟩
  | false =>
    obtain ⟨ix, done, exact, same⟩ : ∃ ix,
        Effect.inTurn ((docs.filter p).map fun doc => (·.delete (.string c) doc)) s.indexes =
          (ix, .ok ()) ∧
        AllExact (ix.ofCollection (.string c))
          (fun d => d ∈ docs ∧ ∀ f ∈ docs.filter p, d.under "id" ≠ f.under "id") ∧
        shape (ix.ofCollection (.string c)) = shape (s.indexes.ofCollection (.string c)) := by
      by_cases none : s.indexes.ofCollection (.string c) = []
      · exact ⟨s.indexes, Effect.deletes_none none, by rw [none]; exact allExact_nil _, rfl⟩
      · rcases Effect.deletes_writes h.exact none found.documents fun f hf =>
          h.kept.only (List.mem_of_mem_filter hf) with ⟨impossible, -⟩ | ⟨-, settled⟩
        · exact impossible.elim
        · exact settled
    have members (d : Value) : d ∈ docs.filter (!p ·) ↔
        d ∈ docs ∧ ∀ f ∈ docs.filter p, d.under "id" ≠ f.under "id" := by
      rw [List.mem_filter]
      refine and_congr_right fun there => ⟨fun other f hf own => ?_, fun others => ?_⟩
      · obtain ⟨stored, fits⟩ := List.mem_filter.mp hf
        rw [h.kept.only stored d there own, fits] at other
        cases other
      · cases fits : p d with
        | false => rfl
        | true => exact absurd rfl (others d (List.mem_filter.mpr ⟨there, fits⟩))
    have effect : Effect.deleteMany c filter s =
        Effect.committed c (docs.filter (!p ·)) { s with indexes := ix } := by
      simp only [Effect.deleteMany, h.documentsOf, run, Effect.given, nothing, Bool.false_eq_true,
        if_false, Effect.reindexed_ok _ done, Store.idsOf_kept found, Store.without_kept h.kept]
    rw [effect]
    exact ⟨h.committed (h.kept.sublist List.filter_sublist) (exact.congr members) same,
      ⟨some .flush, rfl⟩, counted⟩

end Store.Bag

/-- A collection without documents takes any document once it was opened with a schema in which nothing but
the id is unique. -/
theorem Store.Bag.of_created {i : Nat} {c : String} {schema : Schema} {model : Option Nat} {w w' : World}
    (opened : (createCollection i (.string c) schema model).run serve w = (w', .ok ()))
    (empty : (w'.store i).memory.documents (.string c) = [])
    (free : ∀ e ∈ schema, e.2.unique.truthy = true → e.1 = "id") : (w'.store i).Bag c [] := by
  have none : Kept [] := ⟨List.forall_mem_nil _, List.nodup_nil⟩
  obtain ⟨-, indexed, declared⟩ := opened_indexed opened (empty ▸ none)
  obtain ⟨r, same, declares⟩ := indexed.registered
  obtain rfl := Option.some.inj (same.symm.trans declared)
  refine ⟨indexed.connected, indexed.held, empty, none, empty ▸ indexed.exact, fun e he flagged => ?_⟩
  rcases List.mem_cons.mp (declares.given e he) with rfl | marked
  · rfl
  · obtain ⟨field, hf, rfl⟩ := List.mem_map.mp marked
    exact congrArg Value.string (free field (List.mem_of_mem_filter hf) flagged)

/-! ## Operations that run alone -/

namespace Op

variable {α : Type} {i : Nat} {w w' : World} {t : Op α} {c : String}

/-- An operation that leaves models, databases, times and ids alone leaves them so to its end. -/
theorem Spares.run (h : Spares t) (w : World) : w.Spares (t.run serve w).1 := by
  refine ((h w trivial).run (fun request w _ => ?_) fun _ => trivial).2
  have keeps := Writer.keeps_serve request w
  exact ⟨trivial, keeps.models, keeps.databases, keeps.source, keeps.sharing ▸ .refl _⟩

/-- An operation that is not refused fails with a failure of the writer, or its request was granted. -/
theorem granted_of_has {s : Store} {kind : Option WriteKind} (h : Has i t w (s, .ok kind))
    (hi : i < w.stores.length) :
    (∃ f, (t.run serve w).2 = .error (.fault f)) ∨ Store.Granted t w := by
  obtain ⟨w', r, ran, awaits⟩ := has_awaits h hi
  cases kind with
  | none =>
    obtain ⟨v, a, stop, -⟩ := h
    refine .inr fun w' request next stop' => ?_
    cases stop.symm.trans stop'
  | some kind =>
    obtain ⟨v, next, stop, asks, passes⟩ := h
    cases answer : (serve (.serve (w.lineFor s) i kind) v).2 with
    | ok _ =>
      refine .inr fun w' request next stop' => ?_
      cases stop.symm.trans stop'
      exact answer
    | error e =>
      have failed : ∃ f, r = .error (.fault f) := by
        obtain ⟨-, outcome⟩ := Effect.awaited_outcome (s, .ok (some kind)) w.directory
        rcases outcome _ rfl with ok | ⟨f, fault⟩
        · exfalso
          obtain ⟨u, r', stop', -, refused⟩ := passes (.error e) (serve (.serve (w.lineFor s) i kind) v).1
          rw [Task.run_of_wait stop, answer, Task.run_of_done stop', refused] at ran
          cases ran
          cases awaits.outcome.trans ok
        · rw [← awaits.outcome] at fault
          cases r with
          | ok a => cases fault
          | error e =>
            cases fault
            exact ⟨f, rfl⟩
      rw [ran]
      exact .inl failed

end Op

namespace Store

variable {α β : Type} {i : Nat} {w : World} {t : Op α} {c : String} {filter : Value}
  {docs : List Value} {p : Value → Bool}

theorem Granted.map (h : Granted t w) (g : α → β) : Granted (t >>= fun a => pure (g a)) w := by
  intro w' request next waits
  have stopped := Task.advance_stopped t w
  cases stop : t.advance w with
  | mk v rest =>
    rw [stop] at stopped
    cases rest with
    | read | write => cases stopped
    | wait request' next' =>
      cases (Task.advance_bind_wait stop).symm.trans waits
      exact h _ _ _ stop
    | done r =>
      cases r with
      | ok a => cases (Task.advance_bind_done stop).symm.trans waits
      | error e => cases (Task.advance_bind_failed stop).symm.trans waits

/-- Where all requests are granted, the first is. -/
theorem granted_of_all (h : t.Granted serve w) : Granted t w := by
  intro w' request next waits
  rw [Task.granted_advance, waits] at h
  obtain ⟨⟨_, answered⟩, -⟩ := h
  exact answered

/-- Deleting by a filter replies with the number of documents that it takes out, unless the writer
fails. -/
theorem deleteMany_replies (bag : (w.store i).Bag c docs)
    (run : Query.run { filter } docs = .ok (docs.filter p)) :
    let ran := (Store.deleteMany i (.string c) filter).run serve w
    ran.1.stores.length = w.stores.length ∧ (ran.1.store i).Bag c (docs.filter (!p ·)) ∧
      (ran.2 = .ok (docs.filter p).length ∨ ∃ f, ran.2 = .error (.fault f)) ∧
      ((Store.deleteMany i (.string c) filter).Granted serve w →
        ran.2 = .ok (docs.filter p).length) := by
  have hi := World.here_of_connected bag.connected
  obtain ⟨left, ⟨kind, asks⟩, counted⟩ := bag.deleteMany run
  have has := Op.has_deleteMany c filter hi
  obtain ⟨length, alike⟩ := Op.alike_of_has has hi c
  have replies (granted : Granted (Store.deleteMany i (.string c) filter) w) :
      ((Store.deleteMany i (.string c) filter).run serve w).2 = .ok (docs.filter p).length := by
    obtain ⟨v, ran, -⟩ := Demand.run_granted (d := .change (.deleteMany c filter)) hi
      (granted.map Reply.number)
    have reply : (Demand.change (.deleteMany c filter)).reply (w.store i) =
        .ok (.number (docs.filter p).length) := by
      show ((Effect.deleteMany c filter (w.store i)).2 >>= fun _ =>
        (Effect.removed c filter (w.store i)).map Reply.number) = _
      rw [asks, counted]
      rfl
    have task : (Demand.change (.deleteMany c filter)).task i =
        (Store.deleteMany i (.string c) filter >>= fun k => pure (Reply.number k)) := rfl
    rw [task, Task.run_bind, reply] at ran
    revert ran
    obtain ⟨u, r⟩ := (Store.deleteMany i (.string c) filter).run serve w
    intro ran
    cases r with
    | error e => cases ran
    | ok k =>
      cases ran
      rfl
  refine ⟨length, left.alike alike, ?_, fun granted => replies (granted_of_all granted)⟩
  rw [show Effect.deleteMany c filter (w.store i) =
    ((Effect.deleteMany c filter (w.store i)).1, .ok kind) from Prod.ext rfl asks] at has
  exact (Op.granted_of_has has hi).symm.imp_left replies

/-- A document with a new id is added, even if the writer fails. -/
theorem insert_adds {doc : Value} (bag : (w.store i).Bag c docs) (hd : Value.IsDocument doc)
    (known : Store.hasId doc = .ok true) (fresh : ∀ d ∈ docs, d.under "id" ≠ doc.under "id") :
    let ran := (Store.insert i (.string c) doc).run serve w
    ran.1.stores.length = w.stores.length ∧ (ran.1.store i).Bag c (docs ++ [doc]) := by
  have hi := World.here_of_connected bag.connected
  obtain ⟨s, effect, added⟩ := bag.insert hd known fresh
  obtain ⟨length, alike⟩ := Op.alike_of_has (Op.has_insert c doc hi) hi c
  rw [effect] at alike
  exact ⟨length, added.alike alike⟩

end Store

end DocStore
