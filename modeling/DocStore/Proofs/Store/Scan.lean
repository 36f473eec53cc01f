import DocStore.Proofs.Filter.Scan
import DocStore.Proofs.Store.Demand
import DocStore.Proofs.Store.Identity
/-!
Searches of a collection with a filter: to find, to count and to remove fail together, when some document
comes to a comparison in order with a number beyond the range of doubles.
-/

namespace DocStore

/-- A task fails at once with just what its effect fails with. -/
theorem Op.Has.error_iff {α : Type} {i : Nat} {t : Op α} {w : World} {r : Effect} (h : Op.Has i t w r)
    (e : Error) : (∃ w', t.advance w = (w', .done (.error e))) ↔ r.2 = .error e := by
  match r with
  | (s, .error e') =>
    obtain ⟨v, stop, -⟩ := h
    constructor
    · rintro ⟨w', stop'⟩
      cases stop.symm.trans stop'
      rfl
    · intro same
      cases same
      exact ⟨v, stop⟩
  | (s, .ok none) =>
    obtain ⟨v, a, ends, -⟩ := h
    refine ⟨?_, nofun⟩
    rintro ⟨w', stop⟩
    cases ends.symm.trans stop
  | (s, .ok (some kind)) =>
    obtain ⟨v, next, waits, -⟩ := h
    refine ⟨?_, nofun⟩
    rintro ⟨w', stop⟩
    cases waits.symm.trans stop

/-- What an effect fails with under a condition, its task fails with at once. -/
theorem Op.Has.refused {α : Type} {i : Nat} {t : Op α} {w : World} {r : Effect} {e : Error} {P : Prop}
    (h : Op.Has i t w r) (fails : r.2.FailsOn e P) :
    (P → ∃ w', t.advance w = (w', .done (.error e))) ∧
      (¬P → ∀ w' e', t.advance w ≠ (w', .done (.error e'))) := by
  constructor
  · exact fun p => (h.error_iff e).mpr (fails.failed p)
  · intro free w' e' stop
    obtain ⟨kind, done⟩ := fails.done free
    cases done.symm.trans ((h.error_iff e').mp ⟨w', stop⟩)

namespace Demand

variable {s : Store} {c : String} {filter : Value} {docs : List Value} {d : Demand}

/-- What goes through a collection with a filter; documents are removed by their ids, which must be known. -/
inductive Scans (s : Store) (c : String) (filter : Value) : Demand → Prop where
  | find : Scans s c filter (.find c (.ok { filter }))
  | count : Scans s c filter (.count c filter)
  | deleteMany (known : Store.Watched c s) : Scans s c filter (.change (.deleteMany c filter))

theorem effect_failsOn {e : Error} {P : Prop} (h : d.Scans s c filter)
    (held : Effect.documentsOf s c = .ok docs) (objects : ∀ doc ∈ docs, doc.entries?.isSome = true)
    (scan : (Filter.run filter docs).FailsOn e P) : (d.effect s).2.FailsOn e P := by
  cases h with
  | find =>
    have looked : (Demand.find c (.ok { filter })).look s =
        (Filter.run filter docs >>= fun found => found.mapM Store.entriesOf).map Reply.documents := by
      rw [look, held, ← Query.run_filter]
      rfl
    apply Result.FailsOn.map
    rw [looked]
    apply Result.FailsOn.map
    apply Result.failsOn_then scan
    intro found done
    have sub := Filter.run_sublist done
    exact ⟨found, Store.mapM_entriesOf fun doc hd => objects doc (sub.subset hd)⟩
  | count =>
    have looked : (Demand.count c filter).look s =
        ((Filter.run filter docs).map List.length).map Reply.number := by
      rw [look, held, ← Filter.count_eq]
      rfl
    apply Result.FailsOn.map
    rw [looked]
    exact (scan.map List.length).map Reply.number
  | deleteMany known =>
    have asked : Query.run { filter } docs = Filter.run filter docs := Query.run_filter filter docs
    change Result.FailsOn (Effect.deleteMany c filter s).2 e P
    constructor
    · intro p
      simp only [Effect.deleteMany, held, Effect.given, asked, scan.failed p]
    · intro free
      obtain ⟨found, done⟩ := scan.done free
      -- Where nothing is found there is nothing to write, else what is found is removed and written.
      cases empty : found.isEmpty with
      | true =>
        refine ⟨none, ?_⟩
        simp only [Effect.deleteMany, held, Effect.given, asked, done, empty, if_true]
      | false =>
        obtain ⟨ix, left, same, -⟩ := Effect.deleteMany_found known held (asked.trans done) empty
        exact ⟨_, by rw [same]; rfl⟩

/-- The operators of order fail exactly on two numbers of which one is too large to be asked, and a search
for documents exactly when one of them comes to such a comparison. -/
theorem large_integers_refused (w : World) (i : Nat) :
    (∀ op : Operator, op.isOrdering = true → ∀ v operand,
      (Operator.overflows v operand = true → op.apply v operand = failWith .outOfRange) ∧
        (Operator.overflows v operand = false → ∃ b, op.apply v operand = .ok b)) ∧
    ∀ (c : String) (conditions : Document) (docs : List Value) (d : Demand),
      i < w.stores.length → Effect.documentsOf (w.store i) c = .ok docs →
      (∀ doc ∈ docs, doc.entries?.isSome = true) → Filter.check (.object conditions) = .ok () →
      d.Scans (w.store i) c (.object conditions) →
        let overrun := ∃ doc ∈ docs,
          Filter.Overruns doc (Filter.comparisons (conditions.map fun (k, v) => (.string k, v)))
        (overrun → ∃ w', (d.task i).advance w = (w', .done (failWith .outOfRange))) ∧
          (¬overrun → ∀ w' e, (d.task i).advance w ≠ (w', .done (.error e))) := by
  constructor
  · intro op ordering v operand
    have fails := op.apply_failsOn v operand
    constructor
    · exact fun large => fails.failed ⟨ordering, large⟩
    · intro small
      apply fails.done
      rintro ⟨-, large⟩
      rw [small] at large
      cases large
  · intro c conditions docs d hi held objects checked scans
    have names : ∀ e ∈ conditions.map fun (k, v) => (Value.string k, v), e.1.isHashable = true := by
      intro e he
      obtain ⟨entry, -, rfl⟩ := List.mem_map.mp he
      rfl
    have scan := Filter.run_failsOn rfl names checked objects
    exact (d.has_effect hi).refused (effect_failsOn scans held objects scan)

/-! ## An example -/

def googols : Int := 10 ^ 400

/-- The operator of order has no answer for it. -/
theorem googols_unordered : ¬∃ b, Operator.gt.apply (.int googols) (.int 1) = .ok b := by
  have large : Operator.overflows (.int googols) (.int 1) = true := by decide +kernel
  have fails := Operator.gt.apply_failsOn (.int googols) (.int 1)
  rintro ⟨b, done⟩
  rw [fails.failed ⟨rfl, large⟩] at done
  cases done

/-- A document with such an integer. -/
def star : Value := .object [("id", .string "a"), ("n", .int googols)]

/-- A world of one connected store that holds a collection of this document. -/
def atlas : World :=
  { source := ⟨0, 0, 0⟩
    stores := [{
      path := "data", indent := .int 2, connected := true
      memory := { collections := [("stars", [star])] } }] }

theorem atlas_watched : Store.Watched "stars" (atlas.store 0) := by
  have held : (atlas.store 0).memory.documents (.string "stars") = [star] := rfl
  refine ⟨?_, .inl rfl⟩
  rw [held]
  refine ⟨fun d hd => ?_, List.nodup_singleton _⟩
  obtain rfl := List.mem_singleton.mp hd
  exact ⟨"a", rfl⟩

def pastOne : Document := [("n", .object [("$gt", .int 1)])]

/-- To look for the document is refused, and so is to remove it. -/
theorem atlas_refuses :
    (∃ w', ((Demand.find "stars" (.ok { filter := .object pastOne })).task 0).advance atlas =
      (w', .done (failWith .outOfRange))) ∧
    ∃ w', ((Demand.change (.deleteMany "stars" (.object pastOne))).task 0).advance atlas =
      (w', .done (failWith .outOfRange)) := by
  have refused (d : Demand) (scans : d.Scans (atlas.store 0) "stars" (.object pastOne)) :=
    (large_integers_refused atlas 0).2 "stars" pastOne [star] d (by decide) rfl
      (List.forall_mem_singleton.mpr rfl) rfl scans
  have overrun : ∃ doc ∈ [star],
      Filter.Overruns doc (Filter.comparisons (pastOne.map fun (k, v) => (.string k, v))) :=
    ⟨_, List.mem_singleton_self _, .here rfl (by decide +kernel)⟩
  exact ⟨(refused _ .find).1 overrun, (refused _ (.deleteMany atlas_watched)).1 overrun⟩

end Demand

end DocStore
