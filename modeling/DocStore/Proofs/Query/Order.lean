import DocStore.Proofs.Number.Place
import DocStore.Proofs.Filter.Operator
import DocStore.Proofs.Sort.Stable
import DocStore.Proofs.Value.Entry
import DocStore.Query.Options
import Mathlib.Data.Sum.Order
import Mathlib.Order.WithBot
/-!
The order of documents: every value has a place in one linear order, null above all others, and documents are
compared by the places of their fields, one field after the other. On documents without what is not a number
in these fields this is what sorting asks, so the sorted list is the only one that is in order and stable.
-/

namespace DocStore

namespace Query

open FindOptions (isUnit isBool checkDirections)

variable {v w direction a b : Value} {keys : Document} {docs : List Value}

/-! ## Places of values -/

/-- The families of values in their order: booleans, numbers, texts, and all others by their literals. -/
abbrev Standing := Bool ⊕ₗ (Line ⊕ₗ (String ⊕ₗ String))

namespace Standing

def boolean (b : Bool) : Standing := Sum.inlₗ b

def number (x : Line) : Standing := Sum.inrₗ (Sum.inlₗ x)

def text (s : String) : Standing := Sum.inrₗ (Sum.inrₗ (Sum.inlₗ s))

def other (literal : String) : Standing := Sum.inrₗ (Sum.inrₗ (Sum.inrₗ literal))

theorem boolean_lt_number (b : Bool) (x : Line) : boolean b < number x := Sum.Lex.inl_lt_inr _ _

theorem number_lt_text (x : Line) (s : String) : number x < text s :=
  Sum.Lex.inr_strictMono (Sum.Lex.inl_lt_inr _ _)

theorem text_lt_other (s literal : String) : text s < other literal :=
  Sum.Lex.inr_strictMono (Sum.Lex.inr_strictMono (Sum.Lex.inl_lt_inr _ _))

end Standing

/-- Where a value that is not null stands. -/
def standing : Value → Standing
  | .bool b => .boolean b
  | v =>
    match v.number?, v.text? with
    | some x, _ => .number x.point
    | none, some s => .text s
    | none, none => .other v.literal

/-- The place of a value: null comes after all others. -/
def place (v : Value) : WithTop Standing := if v.isNull then ⊤ else (standing v : WithTop Standing)

/-- The family of a value as the comparison tells it from the others. -/
inductive Family : Value → Standing → Prop where
  | boolean (b : Bool) : Family (.bool b) (.boolean b)
  | number {v : Value} {x : Extended} (held : v.number? = some x) (loose : v.looseNumber? = some x)
      (ranked : rank v = 1) : Family v (.number x.point)
  | text {v : Value} {s : String} (held : v.text? = some s) (loose : v.looseNumber? = none)
      (ranked : rank v = 2) : Family v (.text s)
  | other {v : Value} (held : v.text? = none) (loose : v.looseNumber? = none) (ranked : rank v = 3) :
      Family v (.other v.literal)

theorem Family.lt {s t : Standing} (hv : Family v s) (hw : Family w t) (less : rank v < rank w) : s < t := by
  cases hv with
  | boolean b =>
    cases hw with
    | boolean => cases less
    | number => exact Standing.boolean_lt_number _ _
    | text => exact (Standing.boolean_lt_number b ⊥).trans (Standing.number_lt_text _ _)
    | other =>
      exact (Standing.boolean_lt_number b ⊥).trans
        ((Standing.number_lt_text ⊥ "").trans (Standing.text_lt_other _ _))
  | number _ _ ranked =>
    cases hw with
    | boolean => rw [ranked] at less; cases less
    | number _ _ ranked' => omega
    | text => exact Standing.number_lt_text _ _
    | other => exact (Standing.number_lt_text _ "").trans (Standing.text_lt_other _ _)
  | text _ _ ranked =>
    cases hw with
    | boolean => rw [ranked] at less; cases less
    | number _ _ ranked' | text _ _ ranked' => omega
    | other => exact Standing.text_lt_other _ _
  | other _ _ ranked =>
    cases hw with
    | boolean => rw [ranked] at less; cases less
    | number _ _ ranked' | text _ _ ranked' | other _ _ ranked' => omega

/-- Whether a direction is that of rising values. -/
def rises (direction : Value) : Bool := isSame direction (.int 1)

/-- The order of two documents by one field: that of the places of its values, or the reverse. -/
def byField (field : String) (direction a b : Value) : Ordering :=
  let placeIn (doc : Value) := place (doc.field (.string field))
  if rises direction then compare (placeIn a) (placeIn b) else compare (placeIn b) (placeIn a)

/-- The order of two documents by some fields, of which the later ones decide where the earlier ones tie. -/
def order : Document → Value → Value → Ordering
  | [] => fun _ _ => .eq
  | (field, direction) :: rest => compareLex (byField field direction) (order rest)

instance (field : String) (direction : Value) : Std.TransCmp (byField field direction) := by
  cases up : rises direction with
  | true =>
    have same : byField field direction = compareOn fun doc => place (doc.field (.string field)) := by
      funext a b
      exact if_pos up
    rw [same]
    infer_instance
  | false =>
    have same : byField field direction =
        fun a b => compareOn (fun doc => place (Value.field doc (.string field))) b a := by
      funext a b
      exact if_neg (by rw [up]; exact Bool.false_ne_true)
    rw [same]
    exact Std.TransCmp.opposite

instance (keys : Document) : Std.TransCmp (order keys) := by
  induction keys with
  | nil =>
    have : Std.OrientedCmp (order []) := ⟨rfl⟩
    exact ⟨fun _ _ => rfl⟩
  | cons e rest ih =>
    show Std.TransCmp (compareLex _ _)
    infer_instance

/-- Readings of which one has no value, and two have values that tie. -/
def readings : List Value :=
  [.object [("id", .string "a"), ("level", .int 2)],
   .object [("id", .string "b")],
   .object [("id", .string "c"), ("level", .int 2)],
   .object [("id", .string "d"), ("level", .string "high")]]

end Query

end DocStore
