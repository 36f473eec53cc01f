import DocStore.Telemetry.Span
import Mathlib.Data.List.Forall2
import Mathlib.Data.List.Nodup
/-!
Which spans an error marks. An error that a block raises leaves every block that is open around it, so the
block that raised it and those around it are marked with it, each once; blocks that had ended before stay as
they were, and those that were to come are never begun. An interrupt takes the same way and marks none.
-/

namespace DocStore

/-! ## What is told of a span that ends -/

namespace Span

variable {escaped : Option Error}

@[simp] theorem close_name (span : Span) : (span.close escaped).name = span.name := by
  cases escaped with
  | none => rfl
  | some e => simp only [close, apply_ite Span.name, note, mark, ite_self]

@[simp] theorem close_attributes (span : Span) : (span.close escaped).attributes = span.attributes := by
  cases escaped with
  | none => rfl
  | some e => simp only [close, apply_ite Span.attributes, note, mark, ite_self]

theorem close_caught (span : Span) {e : Error} (caught : e.isCaught = true) :
    span.close (some e) = (span.note e).mark e := if_pos caught

theorem close_unmarked (span : Span) (free : ∀ e, escaped = some e → e.isCaught = false) :
    span.close escaped = span := by
  cases escaped with
  | none => rfl
  | some e => simp [close, free e rfl]

end Span

/-! ## What a recorder gets -/

namespace Recorder

/-- Work leaves the open spans as they are and ends the same spans under every recorder, with the same
error. -/
def Ends (work : Recorder → Recorder × Option Error) (spans : List Span) (escaped : Option Error) : Prop :=
  ∀ r, work r = ({ r with ended := r.ended ++ spans }, escaped)

variable {work : Recorder → Recorder × Option Error} {spans : List Span} {escaped : Option Error}
  {name attributes : Value} {as : Document}

/-- A span is closed once around what ends inside it. -/
theorem ends_inSpan (given : Span.attributesGiven attributes = .ok as) (h : Ends work spans escaped) :
    Ends (inSpan name attributes work)
      (spans ++ [({ name, attributes := as } : Span).close escaped]) escaped := by
  intro r
  have inside := h { r with opened := { name, attributes := as } :: r.opened }
  simp only [inSpan, given, start, tell, stop, List.modifyHead_cons, inside, List.append_assoc]

theorem ends_refused {e : Error} (refused : Span.attributesGiven attributes = .error e) :
    Ends (inSpan name attributes work) [{ name }] (some e) := by
  intro r
  simp only [inSpan, refused, start, stop]

end Recorder

namespace SpanTree

open Recorder (Ends)

variable {tree c : SpanTree} {trees children : List SpanTree} {name attributes : Value}
  {raises : Option Error} {as : Document} {e : Error}

/-- The spans of trees one after the other, and the error that leaves them. -/
def runAll (trees : List SpanTree) : List Span × Option Error :=
  let (r, escaped) := traceAll trees {}
  (r.ended, escaped)

theorem run_of_ends {spans : List Span} {escaped : Option Error} (h : Ends tree.trace spans escaped) :
    tree.run = (spans, escaped) := by
  rw [run, h]
  rfl

theorem runAll_of_ends {spans : List Span} {escaped : Option Error}
    (h : Ends (traceAll trees) spans escaped) : runAll trees = (spans, escaped) := by
  rw [runAll, h]
  rfl

theorem trace_node : (node name attributes children raises).trace =
    Recorder.inSpan name attributes fun r =>
      ((traceAll children r).1, (traceAll children r).2.or raises) := by
  funext r
  rw [trace]

/-- After its children a block raises its own error, unless one of theirs leaves it. -/
theorem ends_children {spans : List Span} {escaped : Option Error}
    (h : Ends (traceAll children) spans escaped) :
    Ends (fun r => ((traceAll children r).1, (traceAll children r).2.or raises)) spans
      (escaped.or raises) :=
  fun r => by simp only [h r]

/-- After a tree that an error leaves, the others are not begun. -/
theorem ends_loud {spans : List Span} (h : Ends tree.trace spans (some e)) :
    Ends (traceAll (tree :: trees)) spans (some e) := by
  intro r
  rw [traceAll, h r]

theorem ends_quiet {spans later : List Span} {escaped : Option Error} (h : Ends tree.trace spans none)
    (rest : Ends (traceAll trees) later escaped) :
    Ends (traceAll (tree :: trees)) (spans ++ later) escaped := by
  intro r
  rw [traceAll, h r]
  simp only [rest _, List.append_assoc]

mutual

theorem ends_trace : ∀ tree : SpanTree, Ends tree.trace tree.run.1 tree.run.2
  | .node name attributes children raises => by
    have h : ∃ spans escaped, Ends (trace (.node name attributes children raises)) spans escaped := by
      rw [trace_node]
      cases given : Span.attributesGiven attributes with
      | error e => exact ⟨_, _, Recorder.ends_refused given⟩
      | ok as => exact ⟨_, _, Recorder.ends_inSpan given (ends_children (ends_traceAll children))⟩
    obtain ⟨spans, escaped, h⟩ := h
    rwa [run_of_ends h]
  | .failing e => fun r => by simp [trace, run]

theorem ends_traceAll : ∀ trees : List SpanTree, Ends (traceAll trees) (runAll trees).1 (runAll trees).2
  | [] => fun r => by simp [traceAll, runAll]
  | tree :: trees => by
    have h : ∃ spans escaped, Ends (traceAll (tree :: trees)) spans escaped := by
      have first := ends_trace tree
      cases outcome : tree.run.2 with
      | some e =>
        rw [outcome] at first
        exact ⟨_, _, ends_loud first⟩
      | none =>
        rw [outcome] at first
        exact ⟨_, _, ends_quiet first (ends_traceAll trees)⟩
    obtain ⟨spans, escaped, h⟩ := h
    rwa [runAll_of_ends h]

end

theorem run_node (given : Span.attributesGiven attributes = .ok as) :
    (node name attributes children raises).run =
      ((runAll children).1 ++ [({ name, attributes := as } : Span).close ((runAll children).2.or raises)],
        (runAll children).2.or raises) := by
  apply run_of_ends
  rw [trace_node]
  exact Recorder.ends_inSpan given (ends_children (ends_traceAll children))

theorem runAll_quiet (quiet : tree.run.2 = none) :
    runAll (tree :: trees) = (tree.run.1 ++ (runAll trees).1, (runAll trees).2) := by
  apply runAll_of_ends
  exact ends_quiet (quiet ▸ ends_trace tree) (ends_traceAll trees)

theorem runAll_loud (loud : tree.run.2 = some e) : runAll (tree :: trees) = (tree.run.1, some e) := by
  apply runAll_of_ends
  exact ends_loud (loud ▸ ends_trace tree)

/-- An error leaves trees in sequence when it leaves one of them and none leaves those before it. -/
theorem runAll_error : (runAll trees).2 = some e ↔
    ∃ i c, trees[i]? = some c ∧ (∀ earlier ∈ trees.take i, earlier.run.2 = none) ∧ c.run.2 = some e := by
  induction trees with
  | nil => simp [runAll, traceAll]
  | cons tree rest ih =>
    cases outcome : tree.run.2 with
    | some e' =>
      rw [runAll_loud outcome]
      constructor
      · intro same
        exact ⟨0, tree, rfl, by simp, outcome.trans same⟩
      · rintro ⟨i, c, here, quiet, loud⟩
        cases i with
        | zero =>
          obtain rfl := Option.some.inj here
          exact outcome.symm.trans loud
        | succ i =>
          have first := quiet tree (by simp)
          rw [outcome] at first
          cases first
    | none =>
      rw [runAll_quiet outcome, ih]
      constructor
      · rintro ⟨i, c, here, quiet, loud⟩
        refine ⟨i + 1, c, here, ?_, loud⟩
        simpa [outcome] using quiet
      · rintro ⟨i, c, here, quiet, loud⟩
        cases i with
        | zero =>
          obtain rfl := Option.some.inj here
          rw [outcome] at loud
          cases loud
        | succ i => exact ⟨i, c, here, fun t there => quiet t (by simp [there]), loud⟩

theorem runAll_none : (runAll trees).2 = none ↔ ∀ c ∈ trees, c.run.2 = none := by
  induction trees with
  | nil => simp [runAll, traceAll]
  | cons tree rest ih =>
    cases outcome : tree.run.2 with
    | some e => simp [runAll_loud outcome, outcome]
    | none => simp [runAll_quiet outcome, outcome, ih]

/-! ## Blocks by place -/

/-- A block's place: which child to go to, from the root on. -/
abbrev Place := List Nat

def block? : Place → SpanTree → Option SpanTree
  | [], tree => some tree
  | i :: place, .node _ _ children _ => children[i]?.bind (block? place)
  | _ :: _, .failing _ => none

mutual

/-- All places of a tree, those of the children in order and then the block itself. -/
def postorder : SpanTree → List Place
  | .node _ _ children _ => postorderFrom 0 children ++ [[]]
  | .failing _ => []

def postorderFrom : Nat → List SpanTree → List Place
  | _, [] => []
  | i, tree :: trees => (postorder tree).map (i :: ·) ++ postorderFrom (i + 1) trees

end

/-- Blocks alone, with attributes that can be set. -/
inductive Traceable : SpanTree → Prop
  | node {name attributes : Value} {as : Document} {children : List SpanTree} {raises : Option Error}
      (given : Span.attributesGiven attributes = .ok as) (blocks : ∀ c ∈ children, Traceable c) :
      Traceable (.node name attributes children raises)

/-- The work gets to a block: to the outermost one, and to a child when no error left the children
before it. -/
inductive Enters : SpanTree → Place → Prop
  | root {name attributes : Value} {children : List SpanTree} {raises : Option Error} :
      Enters (.node name attributes children raises) []
  | child {name attributes : Value} {children : List SpanTree} {raises : Option Error} {i : Nat}
      {c : SpanTree} {place : Place} (here : children[i]? = some c)
      (quiet : ∀ earlier ∈ children.take i, earlier.run.2 = none) (enters : Enters c place) :
      Enters (.node name attributes children raises) (i :: place)

/-- A block that the work gets to raises its error, after all its children have ended without one. -/
inductive Raises (e : Error) : SpanTree → Place → Prop
  | root {name attributes : Value} {children : List SpanTree}
      (quiet : ∀ c ∈ children, c.run.2 = none) :
      Raises e (.node name attributes children (some e)) []
  | child {name attributes : Value} {children : List SpanTree} {raises : Option Error} {i : Nat}
      {c : SpanTree} {place : Place} (here : children[i]? = some c)
      (quiet : ∀ earlier ∈ children.take i, earlier.run.2 = none) (inside : Raises e c place) :
      Raises e (.node name attributes children raises) (i :: place)

theorem enters_child {i : Nat} {place : Place} (here : children[i]? = some c) :
    Enters (node name attributes children raises) (i :: place) ↔
      (∀ earlier ∈ children.take i, earlier.run.2 = none) ∧ Enters c place := by
  constructor
  · rintro (_ | ⟨there, quiet, enters⟩)
    obtain rfl := Option.some.inj (here.symm.trans there)
    exact ⟨quiet, enters⟩
  · rintro ⟨quiet, enters⟩
    exact .child here quiet enters

theorem raises_child {i : Nat} {place : Place} (here : children[i]? = some c) :
    Raises e (node name attributes children raises) (i :: place) ↔
      (∀ earlier ∈ children.take i, earlier.run.2 = none) ∧ Raises e c place := by
  constructor
  · rintro (_ | ⟨there, quiet, inside⟩)
    obtain rfl := Option.some.inj (here.symm.trans there)
    exact ⟨quiet, inside⟩
  · rintro ⟨quiet, inside⟩
    exact .child here quiet inside

/-! ## The error that leaves a tree -/

/-- The error that leaves a tree is the one that a block raises. -/
theorem Traceable.run_error (h : Traceable tree) :
    tree.run.2 = some e ↔ ∃ place, Raises e tree place := by
  induction h with
  | @node name attributes as children raises given blocks ih =>
    rw [run_node given]
    show (runAll children).2.or raises = some e ↔ _
    constructor
    · intro leaves
      rcases Option.or_eq_some_iff.mp leaves with inside | ⟨quiet, rfl⟩
      · obtain ⟨i, c, here, quiet, loud⟩ := runAll_error.mp inside
        obtain ⟨place, inside⟩ := (ih c (List.mem_of_getElem? here)).mp loud
        exact ⟨i :: place, .child here quiet inside⟩
      · exact ⟨[], .root (runAll_none.mp quiet)⟩
    · rintro ⟨place, raised⟩
      cases raised with
      | root quiet => rw [runAll_none.mpr quiet, Option.none_or]
      | @child _ _ _ _ i c place here quiet inside =>
        have loud := (ih c (List.mem_of_getElem? here)).mpr ⟨place, inside⟩
        rw [runAll_error.mpr ⟨i, c, here, quiet, loud⟩, Option.some_or]

theorem Traceable.run_none (h : Traceable tree) :
    tree.run.2 = none ↔ ∀ e place, ¬Raises e tree place := by
  rw [Option.eq_none_iff_forall_ne_some]
  exact forall_congr' fun e => (not_congr h.run_error).trans not_exists

/-- A child in which a block raises is not one that ended without an error. -/
theorem Raises.not_quiet (block : Traceable c) {place : Place} (h : Raises e c place) :
    c.run.2 ≠ none := fun quiet => block.run_none.mp quiet e place h

/-- No block raises in a child before one that the work gets to. -/
theorem Raises.not_before (blocks : ∀ c ∈ children, Traceable c) {i j : Nat} {place : Place}
    (quiet : ∀ earlier ∈ children.take i, earlier.run.2 = none) (here : children[j]? = some c)
    (h : Raises e c place) : i ≤ j := by
  apply Nat.le_of_not_lt
  intro before
  have among : c ∈ children.take i := List.mem_of_getElem? (List.getElem?_take_of_lt before ▸ here)
  exact h.not_quiet (blocks c (List.mem_of_getElem? here)) (quiet c among)

/-- One block raises. -/
theorem Traceable.raises_unique (h : Traceable tree) {e' : Error} {place other : Place}
    (raised : Raises e tree place) (raised' : Raises e' tree other) : place = other ∧ e = e' := by
  have same := (h.run_error.mpr ⟨place, raised⟩).symm.trans (h.run_error.mpr ⟨other, raised'⟩)
  refine ⟨?_, Option.some.inj same⟩
  clear same
  induction h generalizing place other with
  | @node name attributes as children raises given blocks ih =>
    cases raised with
    | root quiet =>
      cases raised' with
      | root => rfl
      | child here _ inside =>
        have block := List.mem_of_getElem? here
        exact absurd (quiet _ block) (inside.not_quiet (blocks _ block))
    | child here quiet inside =>
      cases raised' with
      | root quiet' =>
        have block := List.mem_of_getElem? here
        exact absurd (quiet' _ block) (inside.not_quiet (blocks _ block))
      | child here' quiet' inside' =>
        obtain rfl := Nat.le_antisymm (inside'.not_before blocks quiet here')
          (inside.not_before blocks quiet' here)
        obtain rfl := Option.some.inj (here.symm.trans here')
        rw [ih _ (List.mem_of_getElem? here) inside inside']

/-! ## The order of places -/

/-- A place comes before another one outside its tree: where they part, its child has the smaller number. -/
def Left : Place → Place → Prop
  | i :: place, j :: other => i < j ∨ i = j ∧ Left place other
  | _, _ => False

theorem Left.apart {place other : Place} (h : Left place other) :
    ¬other <+: place ∧ ¬Left other place ∧ ¬place <+: other := by
  induction place generalizing other with
  | nil => cases h
  | cons i place ih =>
    cases other with
    | nil => cases h
    | cons j other =>
      simp only [Left, List.cons_prefix_cons] at h ⊢
      rcases h with less | ⟨rfl, h⟩
      · omega
      · obtain ⟨below, right, above⟩ := ih h
        simp [below, right, above]

/-- A place comes before another one: outside its tree, or inside. -/
def Before (place other : Place) : Prop := Left place other ∨ other <+: place ∧ place ≠ other

theorem mem_postorderFrom {k : Nat} {place : Place} : place ∈ postorderFrom k trees ↔
    ∃ i c rest, trees[i]? = some c ∧ rest ∈ postorder c ∧ place = (k + i) :: rest := by
  induction trees generalizing k with
  | nil => simp [postorderFrom]
  | cons tree trees ih =>
    rw [postorderFrom, List.mem_append, List.mem_map, ih]
    constructor
    · rintro (⟨rest, there, rfl⟩ | ⟨i, c, rest, here, there, rfl⟩)
      · exact ⟨0, tree, rest, rfl, there, rfl⟩
      · exact ⟨i + 1, c, rest, here, there, by rw [Nat.add_right_comm, Nat.add_assoc]⟩
    · rintro ⟨i, c, rest, here, there, rfl⟩
      cases i with
      | zero =>
        obtain rfl := Option.some.inj here
        exact .inl ⟨rest, there, rfl⟩
      | succ i => exact .inr ⟨i, c, rest, here, there, by rw [Nat.add_right_comm, Nat.add_assoc]⟩

theorem mem_postorder {place : Place} : place ∈ (node name attributes children raises).postorder ↔
    place = [] ∨ ∃ i c rest, children[i]? = some c ∧ rest ∈ postorder c ∧ place = i :: rest := by
  rw [postorder, List.mem_append, mem_postorderFrom, List.mem_singleton, or_comm]
  simp only [Nat.zero_add]

/-- Places are listed as they come one before the other. -/
theorem Traceable.postorder_before (h : Traceable tree) : tree.postorder.Pairwise Before := by
  induction h with
  | @node name attributes as children raises given blocks ih =>
    have children_before : ∀ (trees : List SpanTree) (k : Nat),
        (∀ c ∈ trees, c.postorder.Pairwise Before) → (postorderFrom k trees).Pairwise Before := by
      intro trees
      induction trees with
      | nil => exact fun _ _ => .nil
      | cons tree trees later =>
        intro k each
        rw [postorderFrom, List.pairwise_append]
        refine ⟨?_, later (k + 1) fun c there => each c (by simp [there]), ?_⟩
        · rw [List.pairwise_map]
          apply (each tree (by simp)).imp
          intro place other before
          rcases before with left | ⟨inside, other⟩
          · exact .inl (.inr ⟨rfl, left⟩)
          · exact .inr ⟨List.cons_prefix_cons.mpr ⟨rfl, inside⟩, by simpa using other⟩
        · intro place first other second
          obtain ⟨place, -, rfl⟩ := List.mem_map.mp first
          obtain ⟨i, c, other, -, -, rfl⟩ := mem_postorderFrom.mp second
          exact .inl (.inl (by omega))
    rw [postorder, List.pairwise_append]
    refine ⟨children_before children 0 ih, List.pairwise_singleton .., fun place there root last => ?_⟩
    obtain rfl := List.mem_singleton.mp last
    obtain ⟨i, c, rest, -, -, rfl⟩ := mem_postorderFrom.mp there
    exact .inr ⟨List.nil_prefix, by simp⟩

/-- Of the places of a tree, those to the left of one are listed before it and lie outside its tree. -/
theorem Traceable.left_iff (h : Traceable tree) {place other : Place} (there : place ∈ tree.postorder)
    (there' : other ∈ tree.postorder) :
    Left place other ↔ [place, other].Sublist tree.postorder ∧ ¬other <+: place := by
  have before := h.postorder_before
  constructor
  · intro left
    refine ⟨?_, left.apart.1⟩
    obtain ⟨front, back, whole⟩ := List.append_of_mem there'
    rw [whole] at there before ⊢
    have apart : place ≠ other := fun same => left.apart.1 (same ▸ List.prefix_refl _)
    rcases List.mem_append.mp there with first | second
    · exact (List.singleton_sublist.mpr first).append (List.singleton_sublist.mpr (by simp))
    · have later : place ∈ back := (List.mem_cons.mp second).resolve_left apart
      have after := (List.pairwise_cons.mp (List.pairwise_append.mp before).2.1).1 place later
      rcases after with right | ⟨inside, -⟩
      · exact absurd right left.apart.2.1
      · exact absurd inside left.apart.2.2
  · rintro ⟨listed, outside⟩
    have first := List.pairwise_pair.mp (before.sublist listed)
    exact first.resolve_right fun inside => outside inside.1

/-! ## Where the work gets to -/

theorem Raises.listed {place : Place} (h : Raises e tree place) : place ∈ tree.postorder := by
  induction h with
  | root => exact mem_postorder.mpr (.inl rfl)
  | child here _ _ ih => exact mem_postorder.mpr (.inr ⟨_, _, _, here, ih, rfl⟩)

/-- The work gets to every block but those to the right of the one that raises. -/
theorem Traceable.enters_iff (h : Traceable tree) {place : Place} (there : place ∈ tree.postorder) :
    Enters tree place ↔ ∀ other e, Raises e tree other → ¬Left other place := by
  induction h generalizing place with
  | @node name attributes as children raises given blocks ih =>
    rcases mem_postorder.mp there with rfl | ⟨i, c, rest, here, inside, rfl⟩
    · exact ⟨fun _ other _ _ => by cases other <;> exact id, fun _ => .root⟩
    · rw [enters_child here, ih c (List.mem_of_getElem? here) inside]
      constructor
      · rintro ⟨quiet, free⟩ other e raised left
        cases raised with
        | root => cases left
        | @child _ _ _ _ j d other child _ raised =>
          rcases left with before | ⟨rfl, left⟩
          · exact absurd before (Nat.not_lt.mpr (raised.not_before blocks quiet child))
          · obtain rfl := Option.some.inj (here.symm.trans child)
            exact free other e raised left
      · intro free
        have quiet : ∀ earlier ∈ children.take i, earlier.run.2 = none := by
          rw [← runAll_none, Option.eq_none_iff_forall_ne_some]
          intro e leaves
          obtain ⟨j, d, child, quiet, loud⟩ := runAll_error.mp leaves
          obtain ⟨before, child⟩ : j < i ∧ children[j]? = some d := by
            rw [List.getElem?_take] at child
            split at child
            · next before => exact ⟨before, child⟩
            · cases child
          rw [List.take_take, Nat.min_eq_left (Nat.le_of_lt before)] at quiet
          obtain ⟨other, raised⟩ := (blocks d (List.mem_of_getElem? child)).run_error.mp loud
          exact free (j :: other) e (.child child quiet raised) (.inl before)
        exact ⟨quiet, fun other e raised left =>
          free (i :: other) e (.child here quiet raised) (.inr ⟨rfl, left⟩)⟩

/-! ## What is recorded of a block -/

/-- The span of a block: with its name and attributes, marked with the error that a block in its tree
raises and with that as its only event, and without either when none does, or when what is raised is an
interrupt. -/
structure Recorded (tree : SpanTree) (place : Place) (span : Span) : Prop where
  block : ∃ name attributes children raises,
    block? place tree = some (.node name attributes children raises) ∧ span.name = name ∧
      Span.attributesGiven attributes = .ok span.attributes
  failed : ∀ other e, Raises e tree other → place <+: other → e.isCaught = true →
    span.status = some e ∧ span.events = [e]
  unset : (∀ other e, Raises e tree other → place <+: other → e.isCaught = false) →
    span.status = none ∧ span.events = []

theorem recorded_root (given : Span.attributesGiven attributes = .ok as)
    (block : Traceable (node name attributes children raises)) :
    Recorded (node name attributes children raises) []
      (({ name, attributes := as } : Span).close ((runAll children).2.or raises)) := by
  have leaves : (node name attributes children raises).run.2 = (runAll children).2.or raises := by
    rw [run_node given]
  constructor
  · refine ⟨name, attributes, children, raises, rfl, Span.close_name _, ?_⟩
    rw [Span.close_attributes, given]
  · intro other e raised _ caught
    rw [← leaves, block.run_error.mpr ⟨other, raised⟩, Span.close_caught _ caught]
    exact ⟨rfl, rfl⟩
  · intro free
    rw [← leaves, Span.close_unmarked]
    · exact ⟨rfl, rfl⟩
    · intro e left
      obtain ⟨other, raised⟩ := block.run_error.mp left
      exact free other e raised List.nil_prefix

theorem Recorded.child {i : Nat} {place : Place} {span : Span} (here : children[i]? = some c)
    (quiet : ∀ earlier ∈ children.take i, earlier.run.2 = none) (h : Recorded c place span) :
    Recorded (node name attributes children raises) (i :: place) span := by
  constructor
  · obtain ⟨name, attributes, children, raises, found, own⟩ := h.block
    exact ⟨name, attributes, children, raises, by rw [block?, here, Option.bind_some, found], own⟩
  · intro other e raised below caught
    obtain ⟨rest, rfl⟩ := below
    exact h.failed _ e ((raises_child here).mp raised).2 (List.prefix_append ..) caught
  · intro free
    apply h.unset
    intro other e raised below
    exact free (i :: other) e (.child here quiet raised) (List.cons_prefix_cons.mpr ⟨rfl, below⟩)

section

open Classical

/-- The places of the blocks that the work gets to, in the order in which they are listed. -/
noncomputable def entered (tree : SpanTree) (places : List Place) : List Place :=
  places.filter (Enters tree ·)

theorem entered_append (places more : List Place) :
    entered tree (places ++ more) = entered tree places ++ entered tree more := List.filter_append ..

theorem entered_child {i : Nat} {places : List Place} (here : children[i]? = some c)
    (quiet : ∀ earlier ∈ children.take i, earlier.run.2 = none) :
    entered (node name attributes children raises) (places.map (i :: ·)) =
      (entered c places).map (i :: ·) := by
  rw [entered, entered, List.filter_map]
  congr 1
  apply List.filter_congr
  intro place _
  exact decide_eq_decide.mpr ((enters_child here).trans (and_iff_right quiet))

/-- After a child that an error leaves, the work gets to no other. -/
theorem entered_later {i : Nat} (here : children[i]? = some c) (loud : c.run.2 = some e) :
    entered (node name attributes children raises) (postorderFrom (i + 1) trees) = [] := by
  apply List.filter_eq_nil_iff.mpr
  intro place there
  obtain ⟨j, d, rest, -, -, rfl⟩ := mem_postorderFrom.mp there
  rw [decide_eq_true_iff]
  rintro (_ | ⟨_, quiet, _⟩)
  have before : i < i + 1 + j := by omega
  have among := quiet c (List.mem_of_getElem? (List.getElem?_take_of_lt before ▸ here))
  rw [loud] at among
  cases among

/-- The spans of children, from one on before which no error left any. -/
theorem recorded_children (before : List SpanTree) (whole : children = before ++ trees)
    (quiet : ∀ earlier ∈ before, earlier.run.2 = none)
    (each : ∀ c ∈ trees, List.Forall₂ (Recorded c) (entered c c.postorder) c.run.1) :
    List.Forall₂ (Recorded (node name attributes children raises))
      (entered (node name attributes children raises) (postorderFrom before.length trees))
      (runAll trees).1 := by
  induction trees generalizing before with
  | nil => exact .nil
  | cons tree rest ih =>
    have here : children[before.length]? = some tree := by simp [whole]
    have quiet' : ∀ earlier ∈ children.take before.length, earlier.run.2 = none := by
      simpa [whole] using quiet
    have first : List.Forall₂ (Recorded (node name attributes children raises))
        (entered (node name attributes children raises)
          (tree.postorder.map (before.length :: ·))) tree.run.1 := by
      rw [entered_child here quiet', List.forall₂_map_left_iff]
      exact (each tree (by simp)).imp fun place span => Recorded.child here quiet'
    rw [postorderFrom, entered_append]
    cases outcome : tree.run.2 with
    | some e =>
      rw [entered_later here outcome, List.append_nil, runAll_loud outcome]
      exact first
    | none =>
      rw [runAll_quiet outcome]
      have later := ih (before ++ [tree]) (by simp [whole])
        (by simpa [outcome, or_imp, forall_and] using quiet) fun c there => each c (by simp [there])
      rw [List.length_append] at later
      exact List.rel_append first later

/-- The spans that end are those of the blocks that the work gets to, in the order of the places. -/
theorem Traceable.recorded (h : Traceable tree) :
    List.Forall₂ (Recorded tree) (entered tree tree.postorder) tree.run.1 := by
  induction h with
  | @node name attributes as children raises given blocks ih =>
    let tree := SpanTree.node name attributes children raises
    have inside : List.Forall₂ (Recorded tree) (entered tree (postorderFrom 0 children))
        (runAll children).1 := recorded_children [] rfl (by simp) ih
    have root : entered tree [[]] = [[]] :=
      List.filter_cons_of_pos (decide_eq_true Enters.root)
    rw [run_node given, postorder, entered_append, root]
    exact List.rel_append inside (.cons (recorded_root given (.node given blocks)) .nil)

end

/-- Spans record the failing path, and nothing else fails: they end in the order of the places of the
blocks that the work gets to; it gets to those before which no block outside their trees raised; the block
that raises and those around it are marked with its error, each by one event, unless it is an interrupt; and
what is raised leaves the tree. -/
theorem failing_path_recorded (h : Traceable tree) :
    List.Forall₂ (Recorded tree) (entered tree tree.postorder) tree.run.1 ∧
      (∀ place ∈ tree.postorder, Enters tree place ↔ ∀ other e,
        [other, place].Sublist tree.postorder → ¬place <+: other → ¬Raises e tree other) ∧
      ∀ e, tree.run.2 = some e ↔ ∃! place, Raises e tree place := by
  refine ⟨h.recorded, ?_, ?_⟩
  · intro place there
    rw [h.enters_iff there]
    constructor
    · intro free other e listed outside raised
      exact free other e raised ((h.left_iff raised.listed there).mpr ⟨listed, outside⟩)
    · intro free other e raised left
      obtain ⟨listed, outside⟩ := (h.left_iff raised.listed there).mp left
      exact free other e listed outside raised
  · intro e
    rw [h.run_error]
    constructor
    · rintro ⟨place, raised⟩
      exact ⟨place, raised, fun other raised' => (h.raises_unique raised' raised).1⟩
    · rintro ⟨place, raised, -⟩
      exact ⟨place, raised⟩

/-! ## An order that cannot be paid -/

def declined : Error := .stated .store "declined"

def order : SpanTree :=
  .node (.string "order") .null
    [.node (.string "reserve") (.object [("items", .int 2)])
       [.node (.string "look up") .null [] none] none,
     .node (.string "pay") .null [.node (.string "charge") .null [] (some declined)] none,
     .node (.string "notify") .null [] (some .notConnected)]
    none

theorem order_traceable : order.Traceable := by
  apply Traceable.node rfl
  intro c there
  simp only [List.mem_cons, List.not_mem_nil, or_false] at there
  rcases there with rfl | rfl | rfl
  · exact .node rfl (by simpa using .node rfl (by simp))
  · exact .node rfl (by simpa using .node rfl (by simp))
  · exact .node rfl (by simp)

theorem order_fails_at_charge : order.Traceable ∧ order.run.1.map (·.status) =
      [none, none, some declined, some declined, some declined] ∧
    List.Forall₂ (Recorded order) (entered order [[0, 0], [0], [1, 0], [1], [2], []]) order.run.1 ∧
    Enters order [0, 0] ∧ ¬Enters order [2] ∧ ∃! place, Raises declined order place := by
  obtain ⟨recorded, enters, leaves⟩ := failing_path_recorded order_traceable
  have raised : Raises declined order [1, 0] :=
    .child rfl (by simp; rfl) (.child rfl (by simp) (.root (by simp)))
  refine ⟨order_traceable, rfl, recorded, .child rfl (by simp) (.child rfl (by simp) .root), ?_,
    (leaves declined).mp rfl⟩
  exact fun gets => (enters [2] (by decide)).mp gets [1, 0] declined (by decide) (by decide) raised

def stopped : Error := .stated (.interrupt "BaseException") "stop"

def stoppedOrder : SpanTree :=
  .node (.string "order") .null [.node (.string "pay") .null [] (some stopped)] none

/-- An interrupt leaves no trace in the spans that it passes through. -/
theorem stopped_unmarked : stoppedOrder.Traceable ∧ Raises stopped stoppedOrder [0] ∧
    stoppedOrder.run = ([{ name := .string "pay" }, { name := .string "order" }], some stopped) := by
  refine ⟨?_, .child rfl (by simp) (.root (by simp)), rfl⟩
  exact .node rfl (by simpa using .node rfl (by simp))

end SpanTree

end DocStore
