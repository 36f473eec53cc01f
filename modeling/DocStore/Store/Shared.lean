import DocStore.Store.Document
/-!
Changing a document that was handed out: what is put over it is its own, but its lists are those of
the stored document.
-/

namespace DocStore.Store

/-- Adds an item to the list under a key of a document that was handed out for the stored one with
an id; what `changes` put over it is its own. -/
def extend (i : Nat) (collection id changes item : Value) (doc key : Value) : Op Value := do
  Storage.checkName key
  match doc.entry? key with
  | none => Task.raise (.fault .missingKey)
  | some (.list _) =>
    if (changes.entry? key).isNone then Task.modify (·.append item (.stored i collection id key))
    return doc.appendTo key item
  | some _ => Task.raise (.fault .noSuchMember)

/-- Changes a document that was handed out: puts entries over it, adds an item to its lists under
some keys, and gives the stored document as it is then. -/
def mutate (i : Nat) (collection id changes keys item : Value) : Op Value := do
  let doc ← findById i collection id
  if doc.isNull then Task.raise (.fault .noSuchMember)
  let own := (doc.entry? (.string "id")).getD .null
  let changes ← Task.ofResult (entriesOf changes)
  let some keys := keys.members? | Task.raise (.fault .wrongType)
  let _ ← keys.foldlM (extend i collection own changes item)
    (doc.mergeEntries (changes.entries?.getD []))
  findById i collection id

end DocStore.Store
