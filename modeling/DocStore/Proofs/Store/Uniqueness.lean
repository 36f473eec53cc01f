import DocStore.Proofs.Store.Indexed
/-!
Unique fields: the check that asks the indexes refuses just the writes that a scan of all documents
would refuse, so no two documents ever hold one value in a unique field.
-/

namespace DocStore

open Indexes
open Value (IsDocument)

def Schema.Unique (schema : Schema) (field : String) : Prop :=
  ∃ f, (field, f) ∈ schema ∧ f.unique.truthy = true

/-- Two documents hold one value in a field. -/
def Value.Clash (field : String) (d e : Value) : Prop :=
  d.under field ≠ .null ∧ strictEq (d.under field) (e.under field) = true

/-- No two documents, known by their ids, hold one value in a unique field. -/
def Distinct (schema : Schema) (docs : List Value) : Prop :=
  ∀ field, schema.Unique field →
    ∀ d ∈ docs, ∀ e ∈ docs, d.under "id" ≠ e.under "id" → ¬d.Clash field e

def Result.IsTaken {α : Type} (c : String) (r : Result α) : Prop :=
  ∃ field v, r = .error (.uniqueConstraint (.string c) field v)

namespace Value

variable {d e f : Value} {field : String}

theorem clash_iff (hd : IsDocument d) (he : IsDocument e) :
    d.Clash field e ↔
      d.under field ≠ .null ∧ Key.ofValue (d.under field) = Key.ofValue (e.under field) := by
  rw [Clash, Key.ofValue_eq_iff (plain_under hd.plain field) _ (plain_under he.plain field)]

theorem clash_symm (hd : IsDocument d) (he : IsDocument e) (h : d.Clash field e) :
    e.Clash field d := by
  obtain ⟨valued, same⟩ := (clash_iff hd he).mp h
  refine (clash_iff he hd).mpr ⟨fun null => valued ?_, same.symm⟩
  exact (Key.ofValue_null_iff (plain_under hd.plain field)).mp (null ▸ same)

/-- Ids clash just when they are the same. -/
theorem clash_id (hd : IsDocument d) (he : IsDocument e) :
    d.Clash "id" e ↔ d.under "id" = e.under "id" := by
  obtain ⟨a, ha⟩ := hd.named
  obtain ⟨b, hb⟩ := he.named
  simp [Clash, ha, hb, strictEq, sameScalar]

end Value

/-! ## The indexes of a schema -/

section Declared

variable {schema : Schema} {indexes : List FieldIndex} {docs : List Value} {doc : Value}

/-- The unique indexes are those of ids and of unique fields. -/
theorem Declares.unique_iff {shape : List (Value × Value)} (h : Declares schema shape)
    (names : (Table.names schema).Nodup) (field : String) :
    (∃ flag, (.string field, flag) ∈ shape ∧ flag.truthy = true) ↔
      field = "id" ∨ schema.Unique field := by
  constructor
  · rintro ⟨flag, there, flagged⟩
    rcases List.mem_cons.mp (h.given _ there) with own | declared
    · exact .inl (Value.string.inj (Prod.mk.inj own).1)
    · obtain ⟨⟨name, f⟩, hf, same⟩ := List.mem_map.mp declared
      obtain ⟨named, rfl⟩ := Prod.mk.inj same
      obtain rfl := Value.string.inj named
      exact .inr ⟨f, (List.mem_filter.mp hf).1, flagged⟩
  · rintro (rfl | ⟨f, hf, flagged⟩)
    · exact ⟨_, h.id_unique, rfl⟩
    · by_cases own : field = "id"
      · exact ⟨_, own ▸ h.id_unique, rfl⟩
      · have marked : f.indexed = true := by
          rw [Field.indexed, Field.indexFlag]
          split
          · assumption
          · exact flagged
        obtain ⟨⟨name, flag⟩, there, named⟩ := List.mem_map.mp (h.indexed hf marked)
        obtain rfl : name = .string field := named
        refine ⟨flag, there, ?_⟩
        rcases List.mem_cons.mp (h.given _ there) with same | declared
        · exact absurd (Value.string.inj (Prod.mk.inj same).1) own
        · obtain ⟨⟨name, g⟩, hg, same⟩ := List.mem_map.mp declared
          obtain ⟨named, rfl⟩ := Prod.mk.inj same
          obtain rfl := Value.string.inj named
          have at_f := Table.lookup_of_mem names hf
          have at_g := Table.lookup_of_mem names (List.mem_filter.mp hg).1
          obtain rfl : f = g := Option.some.inj (at_f.symm.trans at_g)
          exact flagged

/-- A document claims what is taken just when a scan finds a document that holds the same id or the
same value in a unique field. -/
theorem taken_iff {asked : Value → Prop} (declares : Declares schema (shape indexes))
    (names : (Table.names schema).Nodup) :
    Taken asked indexes (· ∈ docs) doc ↔
      ∃ d ∈ docs, ∃ field, (field = "id" ∨ schema.Unique field) ∧ asked (.string field) ∧
        d.Clash field doc := by
  constructor
  · rintro ⟨⟨name, flag⟩, there, ask, flagged, field, named, d, hd, clash⟩
    obtain rfl : name = .string field := named
    exact ⟨d, hd, field, (declares.unique_iff names field).mp ⟨flag, there, flagged⟩, ask, clash⟩
  · rintro ⟨d, hd, field, unique, ask, clash⟩
    obtain ⟨flag, there, flagged⟩ := (declares.unique_iff names field).mpr unique
    exact ⟨_, there, ask, flagged, field, rfl, d, hd, clash⟩

end Declared

/-! ## Documents that differ in unique fields -/

namespace Distinct

variable {schema : Schema} {docs left : List Value} {doc old new : Value} {n : Nat}

theorem sublist (h : Distinct schema docs) (sub : left.Sublist docs) : Distinct schema left :=
  fun field unique d hd e he => h field unique d (sub.subset hd) e (sub.subset he)

theorem append (h : Distinct schema docs) (kept : Kept docs) (hd : IsDocument doc)
    (free : ∀ d ∈ docs, ∀ field, schema.Unique field → ¬d.Clash field doc) :
    Distinct schema (docs ++ [doc]) := by
  intro field unique d there e there' other
  rcases List.mem_append.mp there with hd' | last <;>
    rcases List.mem_append.mp there' with he' | last'
  · exact h field unique d hd' e he' other
  · rw [List.mem_singleton.mp last']
    exact free d hd' field unique
  · rw [List.mem_singleton.mp last]
    exact fun clash => free e he' field unique (Value.clash_symm hd (kept.documents e he') clash)
  · rw [List.mem_singleton.mp last, List.mem_singleton.mp last'] at other
    exact absurd rfl other

theorem set (h : Distinct schema docs) (kept : Kept docs) (hn : n < docs.length)
    (hd : IsDocument new)
    (free : ∀ d ∈ docs, d.under "id" ≠ docs[n].under "id" →
      ∀ field, schema.Unique field → ¬d.Clash field new) :
    Distinct schema (docs.set n new) := by
  intro field unique d there e there' other
  rcases (kept.mem_set hn d).mp there with ⟨hd', apart⟩ | last <;>
    rcases (kept.mem_set hn e).mp there' with ⟨he', apart'⟩ | last'
  · exact h field unique d hd' e he' other
  · rw [last']
    exact free d hd' apart field unique
  · rw [last]
    exact fun clash =>
      free e he' apart' field unique (Value.clash_symm hd (kept.documents e he') clash)
  · rw [last, last'] at other
    exact absurd rfl other

end Distinct

/-! ## Collections with unique fields -/

/-- An indexed collection with a schema has documents that differ in its unique fields. -/
structure Store.Guarded (c : String) (schema : Schema) (s : Store) : Prop where
  indexed : s.Indexed c
  registered : ∃ model, s.schemas.lookup c = some ⟨schema, model⟩
  distinct : Distinct schema (s.memory.documents (.string c))

namespace Store.Guarded

variable {c : String} {schema : Schema} {s s' : Store} {doc new : Value} {n : Nat}

theorem alike (h : Guarded c schema s) (same : Alike c s s') : Guarded c schema s' := by
  have documents : s'.memory.documents (.string c) = s.memory.documents (.string c) := by
    rw [Memory.documents_string, Memory.documents_string, same.collection]
  refine ⟨h.indexed.alike same, ?_, ?_⟩
  · rw [same.schema]; exact h.registered
  · rw [documents]; exact h.distinct

theorem declares (h : Guarded c schema s) :
    Declares schema (shape (s.indexes.ofCollection (.string c))) := by
  obtain ⟨r, registered, declares⟩ := h.indexed.registered
  obtain ⟨model, same⟩ := h.registered
  rw [registered] at same
  cases same
  exact declares

/-- An insert is refused just when a scan finds its id or one of its unique values. -/
theorem insert_taken_iff (h : Guarded c schema s) (names : (Table.names schema).Nodup)
    (hd : IsDocument doc) :
    Taken (fun _ => True) (s.indexes.ofCollection (.string c))
        (· ∈ s.memory.documents (.string c)) doc ↔
      ∃ d ∈ s.memory.documents (.string c), d.under "id" = doc.under "id" ∨
        ∃ field, schema.Unique field ∧ d.Clash field doc := by
  rw [taken_iff h.declares names]
  refine exists_congr fun d => and_congr_right fun there => ?_
  have ids := Value.clash_id (h.indexed.kept.documents d there) hd
  constructor
  · rintro ⟨field, rfl | unique, -, clash⟩
    · exact .inl (ids.mp clash)
    · exact .inr ⟨field, unique, clash⟩
  · rintro (same | ⟨field, unique, clash⟩)
    · exact ⟨"id", .inl rfl, trivial, ids.mpr same⟩
    · exact ⟨field, .inr unique, trivial, clash⟩

/-- An update is refused just when a scan finds one of the unique values in another document. -/
theorem update_taken_iff (h : Guarded c schema s) (names : (Table.names schema).Nodup)
    {old : Value} (ho : old ∈ s.memory.documents (.string c)) (hd : IsDocument new)
    (own : new.under "id" = old.under "id") :
    Taken (Moves old new) (s.indexes.ofCollection (.string c))
        (· ∈ s.memory.documents (.string c)) new ↔
      ∃ d ∈ s.memory.documents (.string c), d.under "id" ≠ old.under "id" ∧
        ∃ field, schema.Unique field ∧ d.Clash field new := by
  have document := h.indexed.kept.documents
  have moves (field : String) : Moves old new (.string field) ↔
      Key.ofValue (old.under field) ≠ Key.ofValue (new.under field) := Iff.rfl
  rw [taken_iff h.declares names]
  refine exists_congr fun d => and_congr_right fun there => ?_
  constructor
  · rintro ⟨field, unique, moved, clash⟩
    rw [moves] at moved
    refine ⟨fun same => ?_, field, unique.resolve_left ?_, clash⟩
    · obtain rfl := h.indexed.kept.only ho d there same
      exact moved ((Value.clash_iff (document d there) hd).mp clash).2
    · rintro rfl
      exact moved (by rw [own])
  · rintro ⟨other, field, unique, clash⟩
    refine ⟨field, .inr unique, (moves field).mpr fun same => ?_, clash⟩
    obtain ⟨valued, key⟩ := (Value.clash_iff (document d there) hd).mp clash
    refine h.distinct field unique d there old ho other ?_
    exact (Value.clash_iff (document d there) (document old ho)).mpr ⟨valued, key.trans same.symm⟩

/-- Every write keeps the documents different in the unique fields. -/
theorem of_writes (h : Guarded c schema s) (names : (Table.names schema).Nodup) {op : Operation}
    (writes : op.Writes c) : Guarded c schema (op.effect s).1 := by
  have kept := h.indexed.kept
  have settled {taken : Prop} {docs : List Value}
      (settles : (op.effect s).Settles c s taken docs) (distinct : ¬taken → Distinct schema docs) :
      Guarded c schema (op.effect s).1 := by
    refine ⟨settles.indexed, ?_, ?_⟩
    · rw [settles.schemas]; exact h.registered
    · rcases settles.outcome with ⟨-, same, -⟩ | ⟨free, changed, -⟩
      · rw [same]; exact h.distinct
      · rw [changed]; exact distinct free
  cases Operation.change_of_writes h.indexed writes with
  | nothing same => rw [same]; exact h
  | add doc hd settles =>
    refine settled settles fun free => h.distinct.append kept hd fun d there field unique clash => ?_
    exact free ((h.insert_taken_iff names hd).mpr ⟨d, there, .inr ⟨field, unique, clash⟩⟩)
  | replace n hn new hd own settles =>
    refine settled settles fun free => h.distinct.set kept hn hd
      fun d there other field unique clash => ?_
    exact free ((h.update_taken_iff names (List.getElem_mem hn) hd own).mpr
      ⟨d, there, other, field, unique, clash⟩)
  | remove left sub settles => exact settled settles fun _ => h.distinct.sublist sub

end Store.Guarded

/-! ## The check as callers see it -/

namespace Store

variable {i : Nat} {c : String} {schema : Schema} {model : Option Nat}

/-- Awaiting an operation neither hides nor makes up that a value is taken. -/
theorem isTaken_run_iff {α : Type} {t : Op α} {w : World} {effect : Effect}
    (h : Op.Has i t w effect) (hi : i < w.stores.length) :
    (t.run Writer.serve w).2.IsTaken c ↔ Result.IsTaken c effect.2 := by
  obtain ⟨w', r, ran, awaits⟩ := Op.has_awaits h hi
  obtain ⟨failed, succeeded⟩ := Effect.awaited_outcome effect w.directory
  have outcome := awaits.outcome
  rw [ran]
  constructor
  · rintro ⟨field, v, taken⟩
    obtain rfl : r = _ := taken
    cases ended : effect.2 with
    | error e =>
      rw [failed e ended] at outcome
      cases outcome
      exact ⟨field, v, rfl⟩
    | ok kind =>
      rcases succeeded kind ended with done | ⟨f, fault⟩
      · rw [done] at outcome
        cases outcome
      · rw [fault] at outcome
        cases outcome
  · rintro ⟨field, v, taken⟩
    rw [failed _ taken] at outcome
    cases r with
    | ok a => cases outcome
    | error e =>
      cases outcome
      exact ⟨field, v, rfl⟩

end Store

end DocStore
