import DocStore.Proofs.Database.Mirror
/-!
The writes of two stores that show one picture, whole: an insert, an update and both kinds of removal end
alike and leave one picture.
-/

namespace DocStore

open Writer (serve)
open Value (IsDocument IsData)

namespace Picture.Steady

variable {n i j : Nat} {P : Picture} {c : String} {docs docs' : List Value} {d : Directory}
  {stored : Value → Prop} {v v' : World}

theorem id_unique (h : P.Steady n) (held : P.docs c = some docs) :
    (.string "id", .bool true) ∈ P.shapes c := by
  obtain ⟨schema, same⟩ := h.indexed c docs held
  rw [same]
  exact List.mem_cons_self

/-- Worlds that show new documents which are written and indexed. -/
theorem even_saved (h : P.Steady n) (held : P.docs c = some docs)
    (saves : P.directory.Saves P.settings.indentValue c docs' d) (kept : Kept docs')
    (data : ∀ doc ∈ docs', doc.IsData) (members : ∀ doc, stored doc ↔ doc ∈ docs')
    (shows : v.Shows n i { P with
      docs := Function.update P.docs c (some docs')
      filed := Function.update P.filed c stored
      directory := d })
    (shows' : v'.Shows n j { P with
      docs := Function.update P.docs c (some docs')
      filed := Function.update P.filed c stored
      directory := d }) : World.Even n i j P.toShelf v v' := by
  obtain rfl : stored = (· ∈ docs') := funext fun doc => propext (members doc)
  exact ⟨_, h.saved held saves kept data, rfl, shows, shows'⟩

end Picture.Steady

namespace Op

variable {α β : Type} {n i j : Nat} {S : Shelf} {w w' : World} {P : Picture} {c : String}
  {docs docs' : List Value} {stored : Value → Prop} {doc id changes filter : Value}
  {Q : α → β → World → World → Prop}

/-- Operations that set the documents of a collection, once its indexes are those of the documents. -/
theorem mirrors_commit {f : Unit → Op α} {g : Unit → Op β} (steady : P.Steady n)
    (held : P.docs c = some docs) (kept : Kept docs') (data : ∀ doc ∈ docs', doc.IsData)
    (members : ∀ doc, stored doc ↔ doc ∈ docs')
    (h : w.Shows n i { P with filed := Function.update P.filed c stored })
    (h' : w'.Shows n j { P with filed := Function.update P.filed c stored })
    (next : ∀ v v', World.Even n i j P.toShelf v v' → v.sharing = w.sharing → v'.sharing = w'.sharing →
      Mirrors n i j P.toShelf Q (f ()) (g ()) v v') :
    Mirrors n i j P.toShelf Q (Store.commit i (.string c) docs' >>= f)
      (Store.commit j (.string c) docs' >>= g) w w' := by
  refine Task.mirrors_bind (Q := fun _ _ v v' =>
    World.Even n i j P.toShelf v v' ∧ v.sharing = w.sharing ∧ v'.sharing = w'.sharing) ?_ ?_
  · intro granted
    obtain ⟨asks, runs⟩ := commit_shows (c := c) h steady.clean docs'
    obtain ⟨-, runs'⟩ := commit_shows (c := c) h' steady.clean docs'
    obtain ⟨d, saves⟩ := asks granted
    obtain ⟨v, ran, same, shows⟩ := runs d saves
    obtain ⟨v', ran', same', shows'⟩ := runs' d saves
    rw [ran, ran']
    exact .ok ⟨steady.even_saved held saves kept data members shows shows', same, same'⟩
  · rintro _ _ v v' ⟨even, same, same'⟩
    exact next v v' even same same'

theorem mirrors_insertKept (even : World.Even n i j S w w') (data : doc.IsData)
    (origins : List (String × Place)) :
    Mirrors n i j S (fun a b v v' => World.Even n i j S v v' ∧ v.sharing.look a = v'.sharing.look b)
      (Store.insertKept i (.string c) doc origins) (Store.insertKept j (.string c) doc origins)
      w w' := by
  obtain ⟨P, steady, rfl, h, h'⟩ := even
  refine mirrors_observed ?_ ?_
  · refine mirrors_documents steady h h' fun docs held => ?_
    refine Task.mirrors_given ⟨P, steady, rfl, h, h'⟩ fun known hk => ?_
    cases known with
    | false => exact fun _ => .error ⟨P, steady, rfl, h, h'⟩
    | true =>
      have hd := Store.hasId_document data.plain hk
      have valid := steady.valid c docs held
      refine mirrors_reindex steady h h' (Indexes.agree_insert (steady.indexed_ne_nil held)
        (steady.documents held) hd) fun v v' done shows shows' => ?_
      have fresh := Indexes.fresh_of_insert h.indexes (steady.id_unique held)
        (steady.documents held) hd done
      have kept : Kept (docs ++ [doc]) :=
        valid.kept.append hd fun d there => fresh d ((steady.filed_iff held d).mpr there)
      have commits (a b : Nat) (x x' : World)
          (sx : x.Shows n i { P with
            filed := Function.update P.filed c fun d => P.filed c d ∨ d = doc })
          (sx' : x'.Shows n j { P with
            filed := Function.update P.filed c fun d => P.filed c d ∨ d = doc })
          (look : x.sharing.look a = doc) (look' : x'.sharing.look b = doc) :
          Mirrors n i j P.toShelf
            (fun a b v v' => World.Even n i j P.toShelf v v' ∧ v.sharing.look a = v'.sharing.look b)
            (Store.commit i (.string c) (docs ++ [doc]) >>= fun _ => pure a)
            (Store.commit j (.string c) (docs ++ [doc]) >>= fun _ => pure b) x x' := by
        refine mirrors_commit steady held kept ?_ ?_ sx sx' fun y y' even same same' => ?_
        · intro d hd
          rcases List.mem_append.mp hd with hd | hd
          · exact valid.data d hd
          · exact List.mem_singleton.mp hd ▸ data
        · intro d
          rw [steady.filed_iff held, List.mem_append, List.mem_singleton]
        · exact Task.mirrors_pure ⟨even, by rw [same, same', look, look']⟩
      have keeps := mirrors_hands (hands_keep doc) (hands_keep doc) shows shows' commits
      dsimp only
      cases Store.position ((doc.entry? (.string "id")).getD .null) docs 0 with
      | error e => exact keeps
      | ok place =>
        cases place with
        | some m => exact keeps
        | none =>
          refine mirrors_unseen (unseen_release _) (unseen_release _) shows shows'
            fun _ _ x x' sx sx' => ?_
          refine mirrors_unseen (unseen_each fun _ => unseen_share _ _)
            (unseen_each fun _ => unseen_share _ _) sx sx' fun _ _ y y' sy sy' => ?_
          exact mirrors_hands (hands_keepStored _ _ _ _) (hands_keepStored _ _ _ _) sy sy' commits
  · rintro a b v v' journal journal' ⟨even, same⟩
    exact ⟨even.hides ⟨rfl, rfl, rfl, rfl, rfl⟩ ⟨rfl, rfl, rfl, rfl, rfl⟩, same⟩

theorem alike_insert (data : doc.IsData) :
    Alike n i j S (Store.insert i (.string c) doc) (Store.insert j (.string c) doc) := by
  intro w w' even
  apply Task.mirrors_bind (mirrors_insertKept even data [])
  rintro a b v v' ⟨even, same⟩
  exact mirrors_handOut even same

theorem alike_update (data : changes.IsData) :
    Alike n i j S (Store.update i (.string c) id changes)
      (Store.update j (.string c) id changes) := by
  apply alike_observed
  rintro w w' ⟨P, steady, rfl, h, h'⟩
  refine mirrors_documents steady h h' fun docs held => ?_
  refine Task.mirrors_given ⟨P, steady, rfl, h, h'⟩ fun place hp => ?_
  cases place with
  | none => exact Task.mirrors_pure ⟨rfl, P, steady, rfl, h, h'⟩
  | some m =>
    refine Task.mirrors_given ⟨P, steady, rfl, h, h'⟩ fun new hn => ?_
    obtain ⟨-, hm, -⟩ := Store.position_spec hp
    have hm : m < docs.length := hm
    have valid := steady.valid c docs held
    have there := List.getElem_mem hm
    have at_m : docs.getD m .null = docs[m] := by simp [hm]
    rw [at_m] at hn ⊢
    have old := valid.kept.documents _ there
    obtain ⟨document, own⟩ := Value.merged_document old data.plain hn
    refine mirrors_reindex steady h h' (Indexes.agree_update (steady.indexed_ne_nil held)
      (steady.documents held) ((steady.filed_iff held _).mpr there) document own
      fun d hd => valid.kept.only there d ((steady.filed_iff held d).mp hd)) fun v v' _ shows shows' => ?_
    refine mirrors_unseen (unseen_release _) (unseen_release _) shows shows'
      fun _ _ x x' sx sx' => ?_
    refine mirrors_hands (hands_keepStored _ _ _ _) (hands_keepStored _ _ _ _) sx sx'
      fun a b y y' sy sy' look look' => ?_
    refine mirrors_commit steady held (valid.kept.set hm document own) ?_ ?_ sy sy'
      fun z z' even same same' => ?_
    · intro d hd
      rcases List.mem_or_eq_of_mem_set hd with hd | rfl
      · exact valid.data d hd
      · exact Value.isData_merged old (valid.data _ there) data hn
    · intro d
      rw [valid.kept.mem_set hm]
      simp only [Indexes.Replaced, steady.filed_iff held]
    · exact mirrors_handOut even (by rw [same, same', look, look'])

theorem alike_delete :
    Alike n i j S (Store.delete i (.string c) id) (Store.delete j (.string c) id) := by
  apply alike_observed
  rintro w w' ⟨P, steady, rfl, h, h'⟩
  refine mirrors_documents steady h h' fun docs held => ?_
  refine Task.mirrors_given ⟨P, steady, rfl, h, h'⟩ fun place hp => ?_
  cases place with
  | none => exact Task.mirrors_pure ⟨rfl, P, steady, rfl, h, h'⟩
  | some m =>
    obtain ⟨-, hm, -⟩ := Store.position_spec hp
    have hm : m < docs.length := hm
    have valid := steady.valid c docs held
    have there := List.getElem_mem hm
    have at_m : docs.getD m .null = docs[m] := by simp [hm]
    have old := valid.kept.documents _ there
    have only : FieldIndex.Only (P.filed c) docs[m] := fun d hd =>
      valid.kept.only there d ((steady.filed_iff held d).mp hd)
    simp only [at_m]
    have indexed := steady.indexed_ne_nil held
    obtain ⟨next, done, reflects⟩ := Indexes.reflects_delete h.indexes indexed old only
    obtain ⟨next', done', reflects'⟩ := Indexes.reflects_delete h'.indexes indexed old only
    obtain ⟨v, ran, shows⟩ := reindex_shows (·.delete (.string c) docs[m]) h done reflects
    obtain ⟨v', ran', shows'⟩ := reindex_shows (·.delete (.string c) docs[m]) h' done' reflects'
    apply Task.mirrors_ran ran ran'
    have left := List.eraseIdx_sublist docs m
    refine mirrors_commit steady held (valid.kept.sublist left) ?_ ?_ shows shows'
      fun _ _ even _ _ => Task.mirrors_pure ⟨rfl, even⟩
    · exact fun d hd => valid.data d (left.subset hd)
    · intro d
      rw [valid.kept.mem_eraseIdx hm, steady.filed_iff held]

/-- Documents are taken out of the indexes one after the other. -/
theorem deletes_show {found : List Value} (h : w.Shows n i P) (indexed : P.shapes c ≠ [])
    (hf : ∀ f ∈ found, IsDocument f) (only : ∀ f ∈ found, FieldIndex.Only (P.filed c) f) :
    ∃ v us, (Task.each found fun doc => Store.reindex i (·.delete (.string c) doc)).run serve w =
        (v, .ok us) ∧
      v.Shows n i { P with
        filed := Function.update P.filed c
          (fun d => P.filed c d ∧ ∀ f ∈ found, d.under "id" ≠ f.under "id") } := by
  induction found generalizing w P with
  | nil => exact ⟨w, [], rfl, by simpa using h⟩
  | cons f rest ih =>
    obtain ⟨next, done, reflects⟩ := Indexes.reflects_delete h.indexes indexed (hf f (by simp))
      (only f (by simp))
    obtain ⟨v, ran, shows⟩ := reindex_shows (·.delete (.string c) f) h done reflects
    have others : ∀ g ∈ rest, FieldIndex.Only
        (fun d => P.filed c d ∧ d.under "id" ≠ f.under "id") g :=
      fun g hg d there same => only g (by simp [hg]) d there.1 same
    obtain ⟨v', us, ran', shows'⟩ := ih shows indexed (fun g hg => hf g (by simp [hg]))
      (by simpa using others)
    refine ⟨v', () :: us, ?_, ?_⟩
    · rw [Task.each, Task.run_bind, ran]
      show (Task.each rest _ >>= _).run serve v = _
      rw [Task.run_bind, ran']
      rfl
    · simpa [Function.update_idem, and_assoc] using shows'

theorem alike_deleteMany :
    Alike n i j S (Store.deleteMany i (.string c) filter)
      (Store.deleteMany j (.string c) filter) := by
  apply alike_observed
  rintro w w' ⟨P, steady, rfl, h, h'⟩
  refine mirrors_documents steady h h' fun docs held => ?_
  refine Task.mirrors_given ⟨P, steady, rfl, h, h'⟩ fun found hf => ?_
  cases nothing : found.isEmpty with
  | true => exact Task.mirrors_pure ⟨rfl, P, steady, rfl, h, h'⟩
  | false =>
    have valid := steady.valid c docs held
    have sub : found.Sublist docs := Filter.run_sublist (Query.run_filter filter _ ▸ hf)
    have documents : ∀ f ∈ found, IsDocument f := fun f hf =>
      valid.kept.documents f (sub.subset hf)
    have only : ∀ f ∈ found, FieldIndex.Only (P.filed c) f := fun f hf d hd =>
      valid.kept.only (sub.subset hf) d ((steady.filed_iff held d).mp hd)
    obtain ⟨ids, hids, mem_ids⟩ := Store.idsOf_documents documents
    have texts : ∀ id ∈ ids, ∃ s, id = .string s := by
      intro id hid
      obtain ⟨f, hf, rfl⟩ := (mem_ids id).mp hid
      exact (documents f hf).named
    obtain ⟨left, hleft, sub_left, mem_left⟩ :=
      Store.without_documents texts valid.kept.documents
    have indexed := steady.indexed_ne_nil held
    obtain ⟨v, _, ran, shows⟩ := deletes_show h indexed documents only
    obtain ⟨v', _, ran', shows'⟩ := deletes_show h' indexed documents only
    apply Task.mirrors_ran ran ran'
    apply Task.mirrors_ran (congrArg (Prod.mk v) hids) (congrArg (Prod.mk v') hids)
    apply Task.mirrors_ran (congrArg (Prod.mk v) hleft) (congrArg (Prod.mk v') hleft)
    refine mirrors_commit steady held (valid.kept.sublist sub_left) ?_ ?_ shows shows'
      fun _ _ even _ _ => Task.mirrors_pure ⟨rfl, even⟩
    · exact fun d hd => valid.data d (sub_left.subset hd)
    · intro d
      rw [mem_left, mem_ids, steady.filed_iff held]
      simp only [not_exists, not_and, ne_eq, eq_comm]

end Op

end DocStore
