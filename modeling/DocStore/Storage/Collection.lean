import DocStore.Storage.Load
/-!
The collections of a store below its schemas and indexes: lists of documents that are changed in
memory and reach their files by the next flush. Only what can be the key of a table is looked up.
-/

namespace DocStore.Storage

def checkName (name : Value) : Op Unit :=
  if name.isHashable then pure () else Task.raise (.fault .wrongType)

def create (i : Nat) (name : Value) : Op (List Value) := do
  let (memory, collection) ← Task.ofResult ((← Op.store i).memory.create name)
  Op.modifyStore i fun s => { s with memory }
  return memory.documents (.string collection)

def holds (i : Nat) (name : Value) : Op Bool := do
  checkName name
  return (← Op.store i).memory.holds name

def documents (i : Nat) (name : Value) : Op (List Value) := do
  if ← holds i name then return (← Op.store i).memory.documents name
  else Task.raise (.fault .missingKey)

def markDirty (i : Nat) (name : Value) : Op Unit := do
  checkName name
  Op.modifyStore i fun s => { s with memory := s.memory.markDirty name }

def append (i : Nat) (name doc : Value) : Op Unit := do
  let docs ← documents i name
  Op.modifyStore i fun s =>
    { s with memory := (s.memory.setDocuments (Memory.textOf name) (docs ++ [doc])).markDirty name }

def drop (i : Nat) (name : Value) : Op Unit := do
  checkName name
  Op.modifyStore i fun s => { s with memory := s.memory.drop name }
  Op.ask i (.remove name)

end DocStore.Storage
