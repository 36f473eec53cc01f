import DocStore.Proofs.Json.Form
/-!
What is written for a value reads as its JSON form. So a file of a collection decodes to the JSON form
of the documents it was written for.
-/

namespace DocStore

namespace Json

variable {rest : List Char}

/-! ## Strings -/

theorem hexUnit?_hex : ∀ n < 0x20, ∃ a b c d,
    Literal.hex 4 n = [a, b, c, d] ∧ hexUnit? a b c d = some n := by
  have table : ∀ n < 0x20,
      let ds := Literal.hex 4 n
      ds = [ds.getD 0 '0', ds.getD 1 '0', ds.getD 2 '0', ds.getD 3 '0'] ∧
        hexUnit? (ds.getD 0 '0') (ds.getD 1 '0') (ds.getD 2 '0') (ds.getD 3 '0') = some n := by
    decide
  exact fun n hn => ⟨_, _, _, _, table n hn⟩

theorem readUnits_short {c d : Char} {units : List Nat} {cs : List Char}
    (short : shortEscape? d = some c) (h : readUnits cs = .ok (units, rest)) :
    readUnits ('\\' :: d :: cs) = .ok (c.toNat :: units, rest) := by
  have other : d ≠ 'u' := by
    rintro rfl
    cases short
  rw [readUnits.eq_4 d cs fun _ _ _ _ _ same => absurd same other, short]
  simp only [h, bind, Except.bind, pure, Except.pure]

theorem readUnits_plain {c : Char} {units : List Nat} {cs : List Char} (quote : c ≠ '\x22')
    (slash : c ≠ '\\') (printable : ¬c.toNat < 0x20) (h : readUnits cs = .ok (units, rest)) :
    readUnits (c :: cs) = .ok (c.toNat :: units, rest) := by
  rw [readUnits.eq_5 c cs quote (fun _ _ _ _ _ same => absurd same slash)
    fun _ _ same => absurd same slash]
  simp only [printable, beq_false_of_ne slash, decide_false, Bool.or_self, Bool.false_eq_true,
    if_false, h, bind, Except.bind, pure, Except.pure]

/-- A character is read as it was written. -/
theorem readUnits_escaped (c : Char) {units : List Nat} {cs : List Char}
    (h : readUnits cs = .ok (units, rest)) :
    readUnits (escaped false c ++ cs) = .ok (c.toNat :: units, rest) := by
  have short {d : Char} (same : (c == d) = true) {e : Char} (he : shortEscape? e = some d) :
      readUnits ('\\' :: e :: cs) = .ok (c.toNat :: units, rest) := by
    rw [beq_iff_eq.mp same]
    exact readUnits_short he h
  unfold escaped
  split
  · next same => exact short same rfl
  split
  · next same => exact short same rfl
  split
  · next same => exact short same rfl
  split
  · next same => exact short same rfl
  split
  · next same => exact short same rfl
  split
  · next same => exact short same rfl
  split
  · next same => exact short same rfl
  split
  · next control =>
    obtain ⟨a, b, d, e, shape, value⟩ := hexUnit?_hex c.toNat control
    simp only [unit, shape, List.cons_append, List.nil_append, readUnits, value, h, bind,
      Except.bind, pure, Except.pure]
  · next quote slash _ _ _ _ _ printable =>
    simp only [Bool.not_false, Bool.true_or, if_true, List.singleton_append]
    exact readUnits_plain (by simpa using quote) (by simpa using slash) printable h

theorem readUnits_string (cs : List Char) (rest : List Char) :
    readUnits (cs.flatMap (escaped false) ++ '\x22' :: rest) = .ok (cs.map Char.toNat, rest) := by
  induction cs with
  | nil => rfl
  | cons c cs ih =>
    rw [List.flatMap_cons, List.append_assoc]
    exact readUnits_escaped c ih

theorem toNat_plain (c : Char) : (decide (0xd800 ≤ c.toNat) && decide (c.toNat < 0xe000)) = false := by
  have valid := c.valid
  simp only [UInt32.isValidChar, Nat.isValidChar] at valid
  simp only [Bool.and_eq_false_iff, decide_eq_false_iff_not, Nat.not_le, Nat.not_lt]
  show c.val.toNat < 55296 ∨ 57344 ≤ c.val.toNat
  omega

theorem joinUnits_chars : ∀ cs : List Char, joinUnits (cs.map Char.toNat) = cs
  | [] => rfl
  | [c] => by simp [joinUnits, toNat_plain c, Char.ofNat_toNat]
  | c :: d :: cs => by
    have later := joinUnits_chars (d :: cs)
    have plain := toNat_plain c
    have high : ¬(0xd800 ≤ c.toNat ∧ c.toNat < 0xdc00) := by
      simp only [Bool.and_eq_false_iff, decide_eq_false_iff_not] at plain
      omega
    simp only [List.map_cons] at later ⊢
    simp [joinUnits, plain, later, Char.ofNat_toNat]
    omega

theorem readString_string (s : String) (rest : List Char) :
    readString (s.toList.flatMap (escaped false) ++ '\x22' :: rest) = .ok (s, rest) := by
  simp [readString, readUnits_string, joinUnits_chars, bind, Except.bind, pure, Except.pure]

/-! ## Blanks -/

def IsBlank (cs : List Char) : Prop := ∀ c ∈ cs, isSpace c = true

/-- Text that begins with something other than a blank. -/
def Visible (cs : List Char) : Prop := ∃ c rest, cs = c :: rest ∧ isSpace c = false

theorem visible_cons {c : Char} (h : isSpace c = false) (cs : List Char) : Visible (c :: cs) :=
  ⟨c, cs, rfl, h⟩

theorem skipSpace_visible {cs : List Char} (h : Visible cs) : skipSpace cs = cs := by
  obtain ⟨c, rest, rfl, visible⟩ := h
  simp [skipSpace, visible]

theorem skipSpace_blank {blank cs : List Char} (hb : IsBlank blank) (h : Visible cs) :
    skipSpace (blank ++ cs) = cs := by
  have kept := skipSpace_visible h
  rw [skipSpace, List.dropWhile_append_of_pos hb]
  exact kept

theorem ends_blank {blank cs : List Char} (hb : IsBlank blank) (h : ends cs = true) :
    ends (blank ++ cs) = true := by
  cases blank with
  | nil => exact h
  | cons c rest =>
    have space := hb c (by simp)
    simp [ends, space]

/-- Text that begins as a value or a key does: neither with a blank nor with a closing bracket. -/
def Starts (cs : List Char) : Prop :=
  ∃ c rest, cs = c :: rest ∧ isSpace c = false ∧ c ≠ ']' ∧ c ≠ '\x7d'

theorem Starts.visible {cs : List Char} (h : Starts cs) : Visible cs := by
  obtain ⟨c, rest, shape, visible, -⟩ := h
  exact ⟨c, rest, shape, visible⟩

theorem Starts.append {cs : List Char} (h : Starts cs) (rest : List Char) : Starts (cs ++ rest) := by
  obtain ⟨c, cs', rfl, starts⟩ := h
  exact ⟨c, cs' ++ rest, rfl, starts⟩

theorem intercalate_cons {sep x : List Char} {xs : List (List Char)} (h : xs ≠ []) :
    sep.intercalate (x :: xs) = x ++ (sep ++ sep.intercalate xs) := by
  cases xs with
  | nil => exact absurd rfl h
  | cons y ys => simp [List.intercalate]

theorem starts_joined (sep : List Char) {texts : List (List Char)} (h : ∀ text ∈ texts, Starts text)
    (some : texts ≠ []) (tail : List Char) : Starts (sep.intercalate texts ++ tail) := by
  cases texts with
  | nil => exact absurd rfl some
  | cons text rest =>
    have first := h text (by simp)
    cases rest with
    | nil => simpa using first.append tail
    | cons text' rest' =>
      rw [intercalate_cons (by simp), List.append_assoc]
      exact first.append _

/-! ## Lists and objects -/

/-- A text that is read as a value, whatever ends it. -/
structure Reads (text : List Char) (v : Value) : Prop where
  starts : Starts text
  read : ∀ rest fuel, ends rest = true → text.length ≤ fuel →
    readValue fuel (text ++ rest) = .ok (v, rest)

/-- A written entry that is read as an entry of an object. -/
def ReadsEntry (entry : String × List Char) (e : String × Value) : Prop :=
  entry.1 = e.1 ∧ Reads entry.2 e.2

/-- Blanks, quotation marks and brackets begin neither a word nor a number. -/
theorem readScalar_failed {c : Char}
    (h : c ∈ [' ', '\t', '\n', '\r', '\x22', '[', ']', '\x7b', '\x7d']) (cs : List Char) :
    readScalar (c :: cs) = .error .malformedJson := by
  simp only [List.mem_cons, List.not_mem_nil, or_false] at h
  rcases h with rfl | rfl | rfl | rfl | rfl | rfl | rfl | rfl | rfl <;> rfl

/-- A text that is read as a word or a number is read as a value. -/
theorem reads_scalar {text : List Char} {v : Value}
    (read : ∀ rest, ends rest = true → readScalar (text ++ rest) = .ok (v, rest)) :
    Reads text v := by
  cases text with
  | nil => exact absurd (read [] rfl) (by simp [readScalar])
  | cons c cs =>
    have first : c ∉ [' ', '\t', '\n', '\r', '\x22', '[', ']', '\x7b', '\x7d'] := fun h => by
      have failed := readScalar_failed h (cs ++ [])
      rw [← List.cons_append, read [] rfl] at failed
      cases failed
    simp only [List.mem_cons, List.not_mem_nil, or_false, not_or] at first
    obtain ⟨h1, h2, h3, h4, quote, list, h5, object, h6⟩ := first
    refine ⟨⟨c, cs, rfl, by simp [isSpace, *], h5, h6⟩, fun rest fuel stop enough => ?_⟩
    cases fuel with
    | zero => simp at enough
    | succ fuel =>
      rw [← read rest stop, List.cons_append, readValue.eq_def]
      split
      · next none => cases none
      · split <;> simp_all

theorem reads_string (s : String) : Reads (string false s) (.string s) := by
  refine ⟨⟨'\x22', _, rfl, rfl, by decide, by decide⟩, fun rest fuel _ enough => ?_⟩
  cases fuel with
  | zero => simp [string] at enough
  | succ fuel =>
    simp only [string, List.cons_append, List.append_assoc, List.nil_append, readValue,
      readString_string, bind, Except.bind, pure, Except.pure]

variable {sep close : List Char} {style : Style}

theorem starts_of_reads {texts : List (List Char)} {vs : List Value}
    (h : List.Forall₂ Reads texts vs) : ∀ text ∈ texts, Starts text := by
  induction h with
  | nil => simp
  | cons first _ ih => simpa using ⟨first.starts, ih⟩

theorem starts_entryTexts (style : Style) (entries : List (String × List Char)) :
    ∀ text ∈ entries.map (entryText style), Starts text := by
  intro text ht
  obtain ⟨entry, -, rfl⟩ := List.mem_map.mp ht
  exact ⟨'\x22', _, rfl, rfl, by decide, by decide⟩

/-- Items with commas between them are read up to the bracket that closes the list. -/
theorem readItems_joined (hsep : IsBlank sep) (hclose : IsBlank close) {texts : List (List Char)}
    {vs : List Value} (h : List.Forall₂ Reads texts vs) (some : texts ≠ []) (fuel : Nat)
    (enough : ((',' :: sep).intercalate texts).length + 1 ≤ fuel) :
    readItems fuel ((',' :: sep).intercalate texts ++ (close ++ ']' :: rest)) = .ok (vs, rest) := by
  induction h generalizing fuel with
  | nil => exact absurd rfl some
  | @cons text v texts vs first later ih =>
    obtain ⟨fuel, rfl⟩ : ∃ n, fuel = n + 1 := ⟨fuel - 1, by omega⟩
    rw [readItems]
    cases texts with
    | nil =>
      cases later
      have bracket : Visible (']' :: rest) := visible_cons rfl rest
      simp only [List.intercalate_singleton] at enough ⊢
      rw [first.read _ fuel (ends_blank hclose rfl) (by omega)]
      simp only [bind, Except.bind, skipSpace_blank hclose bracket, pure, Except.pure]
    | cons text' texts' =>
      have visible := (starts_joined (',' :: sep) (starts_of_reads later) (by simp)
        (close ++ ']' :: rest)).visible
      rw [intercalate_cons (by simp)] at enough ⊢
      simp only [List.length_append, List.length_cons] at enough
      simp only [List.append_assoc, List.cons_append]
      rw [first.read _ fuel rfl (by omega)]
      have comma (tail : List Char) : skipSpace (',' :: tail) = ',' :: tail :=
        skipSpace_visible (visible_cons rfl tail)
      simp only [bind, Except.bind, comma, skipSpace_blank hsep visible,
        ih (by simp) fuel (by omega), pure, Except.pure]

/-- The next entry of an object is put into it before what follows is read. -/
theorem readEntries_entry (ascii : style.ascii = false) (key : String) {text tail : List Char}
    {v : Value} (h : Reads text v) (doc : Document) {fuel : Nat} (stop : ends tail = true)
    (enough : text.length ≤ fuel) :
    readEntries (fuel + 1) doc (entryText style (key, text) ++ tail) =
      match skipSpace tail with
      | '\x7d' :: rest => .ok (doc.put key v, rest)
      | ',' :: rest => readEntries fuel (doc.put key v) (skipSpace rest)
      | _ => .error .malformedJson := by
  have colon (tail : List Char) : skipSpace (':' :: tail) = ':' :: tail :=
    skipSpace_visible (visible_cons rfl tail)
  have space : IsBlank [' '] := by simp [IsBlank, isSpace]
  have blank : skipSpace (' ' :: (text ++ tail)) = text ++ tail :=
    skipSpace_blank space (h.starts.append tail).visible
  simp only [entryText, string, ascii, List.cons_append, List.append_assoc, List.nil_append,
    readEntries, readString_string, colon, blank, h.read tail fuel stop enough, bind, Except.bind,
    pure, Except.pure]
  rfl

/-- Entries with commas between them are read up to the brace that closes the object. -/
theorem readEntries_joined (ascii : style.ascii = false) (hsep : IsBlank sep)
    (hclose : IsBlank close) {entries : List (String × List Char)} {es : Document}
    (h : List.Forall₂ ReadsEntry entries es) (some : entries ≠ []) (doc : Document) (fuel : Nat)
    (enough : ((',' :: sep).intercalate (entries.map (entryText style))).length + 1 ≤ fuel) :
    readEntries fuel doc
        ((',' :: sep).intercalate (entries.map (entryText style)) ++ (close ++ '\x7d' :: rest)) =
      .ok (doc.merge es, rest) := by
  induction h generalizing fuel doc with
  | nil => exact absurd rfl some
  | @cons entry e entries es first later ih =>
    obtain ⟨key, text⟩ := entry
    obtain ⟨key', v⟩ := e
    obtain ⟨rfl, first⟩ : key = key' ∧ Reads text v := first
    obtain ⟨fuel, rfl⟩ : ∃ n, fuel = n + 1 := ⟨fuel - 1, by omega⟩
    have shorter : text.length ≤ (entryText style (key, text)).length := by
      simp only [entryText, List.length_append, List.length_cons]
      omega
    cases entries with
    | nil =>
      cases later
      have brace : Visible ('\x7d' :: rest) := visible_cons rfl rest
      simp only [List.map_cons, List.map_nil, List.intercalate_singleton] at enough ⊢
      rw [readEntries_entry ascii key first doc (ends_blank hclose rfl) (by omega)]
      simp only [skipSpace_blank hclose brace]
      rfl
    | cons entry' entries' =>
      have visible := (starts_joined (',' :: sep) (starts_entryTexts style (entry' :: entries'))
        (by simp) (close ++ '\x7d' :: rest)).visible
      have comma (tail : List Char) : skipSpace (',' :: tail) = ',' :: tail :=
        skipSpace_visible (visible_cons rfl tail)
      rw [List.map_cons, intercalate_cons (by simp)] at enough ⊢
      simp only [List.length_append, List.length_cons] at enough
      rw [List.append_assoc, readEntries_entry ascii key first doc rfl (by omega)]
      simp only [List.append_assoc, List.cons_append, comma, skipSpace_blank hsep visible]
      exact ih (by simp) (doc.put key v) fuel (by omega)

/-- A style in which what is written can be read back. -/
structure Readable (style : Style) : Prop where
  ascii : style.ascii = false
  sorted : style.sorted = false
  foreign : style.foreign = .stored
  blank : ∀ indent, style.indent = some indent → IsBlank indent

theorem isBlank_lineBreak {indent : List Char} (h : IsBlank indent) (level : Nat) :
    IsBlank (lineBreak indent level) := by
  intro c hc
  rcases List.mem_cons.mp hc with rfl | hc
  · rfl
  · obtain ⟨part, hpart, hc⟩ := List.mem_flatten.mp hc
    exact h c (List.eq_of_mem_replicate hpart ▸ hc)

/-- Items in brackets are joined by commas, with blanks around. -/
theorem bracketed_joined (h : Readable style) (level : Nat) (first last : Char)
    {items : List (List Char)} (some : items ≠ []) :
    ∃ opening sep close, IsBlank opening ∧ IsBlank sep ∧ IsBlank close ∧
      bracketed style level first last items =
        first :: (opening ++ ((',' :: sep).intercalate items ++ (close ++ [last]))) := by
  have filled : items.isEmpty = false := by simpa using some
  simp only [bracketed, filled, Bool.false_eq_true, if_false]
  cases shape : style.indent with
  | none => exact ⟨[], [' '], [], by simp [IsBlank], by simp [IsBlank, isSpace], by simp [IsBlank], rfl⟩
  | some indent =>
    have blank := isBlank_lineBreak (h.blank indent shape)
    exact ⟨lineBreak indent level, lineBreak indent level, lineBreak indent (level - 1), blank _,
      blank _, blank _, by simp⟩

theorem readValue_list {cs : List Char} {vs : List Value} {fuel : Nat} (starts : Starts (skipSpace cs))
    (read : readItems fuel (skipSpace cs) = .ok (vs, rest)) :
    readValue (fuel + 1) ('[' :: cs) = .ok (.list vs, rest) := by
  obtain ⟨c, later, shape, -, other, -⟩ := starts
  rw [shape] at read
  simp only [readValue, shape]
  split
  · next same => exact absurd (List.cons.inj same).1 other
  · simp only [read, bind, Except.bind, pure, Except.pure]

theorem readValue_object {cs : List Char} {es : Document} {fuel : Nat} (starts : Starts (skipSpace cs))
    (read : readEntries fuel [] (skipSpace cs) = .ok (es, rest)) :
    readValue (fuel + 1) ('\x7b' :: cs) = .ok (.object es, rest) := by
  obtain ⟨c, later, shape, -, -, other⟩ := starts
  rw [shape] at read
  simp only [readValue, shape]
  split
  · next same => exact absurd (List.cons.inj same).1 other
  · simp only [read, bind, Except.bind, pure, Except.pure]

theorem reads_list (h : Readable style) (level : Nat) {texts : List (List Char)} {vs : List Value}
    (items : List.Forall₂ Reads texts vs) :
    Reads (bracketed style level '[' ']' texts) (.list vs) := by
  by_cases some : texts = []
  · subst some
    cases items
    refine ⟨⟨'[', [']'], rfl, by decide, by decide, by decide⟩, fun rest fuel _ enough => ?_⟩
    cases fuel with
    | zero => simp [bracketed] at enough
    | succ fuel => rfl
  · obtain ⟨opening, sep, close, ho, hs, hc, shape⟩ := bracketed_joined h level '[' ']' some
    rw [shape]
    refine ⟨⟨'[', _, rfl, by decide, by decide, by decide⟩, fun rest fuel _ enough => ?_⟩
    simp only [List.length_cons, List.length_append] at enough
    obtain ⟨fuel, rfl⟩ : ∃ n, fuel = n + 1 := ⟨fuel - 1, by omega⟩
    have starts := starts_joined (',' :: sep) (starts_of_reads items) some (close ++ ']' :: rest)
    have skip := skipSpace_blank ho starts.visible
    simp only [List.cons_append, List.append_assoc, List.nil_append]
    refine readValue_list ?_ ?_ <;> rw [skip]
    · exact starts
    · exact readItems_joined hs hc items some fuel (by omega)

theorem reads_object (h : Readable style) (level : Nat) {entries : List (String × List Char)}
    {es : Document} (items : List.Forall₂ ReadsEntry entries es) :
    Reads (bracketed style level '\x7b' '\x7d' (entries.map (entryText style)))
      (.object (Document.merge [] es)) := by
  by_cases some : entries = []
  · subst some
    cases items
    refine ⟨⟨'\x7b', ['\x7d'], rfl, by decide, by decide, by decide⟩, fun rest fuel _ enough => ?_⟩
    cases fuel with
    | zero => simp [bracketed] at enough
    | succ fuel => rfl
  · have filled : entries.map (entryText style) ≠ [] := by simpa using some
    obtain ⟨opening, sep, close, ho, hs, hc, shape⟩ :=
      bracketed_joined h level '\x7b' '\x7d' filled
    rw [shape]
    refine ⟨⟨'\x7b', _, rfl, by decide, by decide, by decide⟩, fun rest fuel _ enough => ?_⟩
    simp only [List.length_cons, List.length_append] at enough
    obtain ⟨fuel, rfl⟩ : ∃ n, fuel = n + 1 := ⟨fuel - 1, by omega⟩
    have starts := starts_joined (',' :: sep) (starts_entryTexts style entries) filled
      (close ++ '\x7d' :: rest)
    have skip := skipSpace_blank ho starts.visible
    simp only [List.cons_append, List.append_assoc, List.nil_append]
    refine readValue_object ?_ ?_ <;> rw [skip]
    · exact starts
    · exact readEntries_joined h.ascii hs hc items some [] fuel (by omega)

/-! ## Values -/

mutual

/-- What is written for a value is read as its JSON form. -/
theorem write_reads (h : Readable style) (v : Value) {level : Nat} {text : List Char}
    (written : write style level v = .ok text) : Reads text v.jsonForm := by
  match v with
  | .null =>
    cases written
    exact reads_scalar fun rest _ => rfl
  | .bool true | .bool false =>
    cases written
    exact reads_scalar fun rest _ => rfl
  | .int n => exact reads_scalar fun rest stop => readScalar_int written stop
  | .float x =>
    cases written
    exact reads_scalar fun rest stop => readScalar_float x stop
  | .string s =>
    cases written
    rw [h.ascii]
    exact reads_string s
  | .fieldType t =>
    cases written
    rw [h.ascii]
    exact reads_string t.name
  | .list xs | .tuple xs =>
    obtain ⟨texts, items, shape⟩ := ok_of_bind written
    cases shape
    exact reads_list h level (writeItems_reads h xs items)
  | .set xs =>
    simp only [write, h.foreign, if_true] at written
    obtain ⟨texts, items, shape⟩ := ok_of_bind written
    cases shape
    exact reads_list h level (writeItems_reads h xs items)
  | .object es =>
    obtain ⟨entries, items, shape⟩ := ok_of_bind written
    simp only [h.sorted, Bool.false_eq_true, if_false] at shape
    cases shape
    exact reads_object h level (writeEntries_reads h es items)
  | .mapping es =>
    obtain ⟨entries, items, shape⟩ := ok_of_bind written
    cases shape
    exact reads_object h level (writePairs_reads h es items)
  | .date d =>
    simp only [write, foreignText, h.foreign, h.ascii] at written
    cases written
    exact reads_string _
  | .dateTime t =>
    simp only [write, foreignText, h.foreign, h.ascii] at written
    cases stamp : Iso.timestamp? t with
    | none => simp [stamp] at written
    | some timestamp =>
      simp only [stamp] at written
      cases written
      simp only [Value.jsonForm, stamp]
      exact reads_string _
  | .record _ _ | .imaginary | .maker _ =>
    simp only [write, foreignText, h.foreign] at written
    cases written

theorem writeItems_reads (h : Readable style) (xs : List Value) {level : Nat}
    {texts : List (List Char)} (written : writeItems style level xs = .ok texts) :
    List.Forall₂ Reads texts (Value.jsonForms xs) := by
  match xs with
  | [] =>
    cases written
    exact .nil
  | x :: xs =>
    obtain ⟨text, first, written⟩ := ok_of_bind written
    obtain ⟨texts, later, shape⟩ := ok_of_bind written
    cases shape
    exact .cons (write_reads h x first) (writeItems_reads h xs later)

theorem writeEntries_reads (h : Readable style) (es : Document) {level : Nat}
    {entries : List (String × List Char)} (written : writeEntries style level es = .ok entries) :
    List.Forall₂ ReadsEntry entries (Value.entryForms es) := by
  match es with
  | [] =>
    cases written
    exact .nil
  | (k, v) :: es =>
    obtain ⟨text, first, written⟩ := ok_of_bind written
    obtain ⟨entries, later, shape⟩ := ok_of_bind written
    cases shape
    exact .cons ⟨rfl, write_reads h v first⟩ (writeEntries_reads h es later)

theorem writePairs_reads (h : Readable style) (es : List (Value × Value)) {level : Nat}
    {entries : List (String × List Char)} (written : writePairs style level es = .ok entries) :
    List.Forall₂ ReadsEntry entries (Value.pairForms es) := by
  match es with
  | [] =>
    cases written
    exact .nil
  | (k, v) :: es =>
    obtain ⟨key, named, written⟩ := ok_of_bind written
    obtain ⟨text, first, written⟩ := ok_of_bind written
    obtain ⟨entries, later, shape⟩ := ok_of_bind written
    cases shape
    rw [Value.pairForms, named]
    exact .cons ⟨rfl, write_reads h v first⟩ (writePairs_reads h es later)

end

/-- A written value followed by blanks is parsed as its JSON form. -/
theorem parse_written (h : Readable style) {v : Value} {level : Nat} {text blank : List Char}
    (written : write style level v = .ok text) (hb : IsBlank blank) :
    parse (text ++ blank) = .ok v.jsonForm := by
  obtain ⟨starts, read⟩ := write_reads h v written
  have stop : ends blank = true := by
    cases blank with
    | nil => rfl
    | cons c rest =>
      have space := hb c (by simp)
      simp [ends, space]
  have nothing : skipSpace blank = [] := by
    rw [← List.append_nil blank]
    exact List.dropWhile_append_of_pos hb
  rw [parse, skipSpace_visible (starts.append blank).visible,
    read blank _ stop (by simp only [List.length_append]; omega)]
  simp only [bind, Except.bind, nothing, List.isEmpty_nil, if_true]
  rfl

end Json

/-! ## Files -/

/-- An indent that is no text is a number of blanks, or none. -/
theorem readable_fileStyle {v : Value} {indent : Option (List Char)} (number : v.text? = none)
    (h : Json.indentOf v = .ok indent) : Json.Readable (fileStyle indent) := by
  refine ⟨rfl, rfl, rfl, fun blanks hb => ?_⟩
  obtain rfl : indent = some blanks := hb
  have blank (n : Nat) : Json.IsBlank (List.replicate n ' ') := fun c hc =>
    List.eq_of_mem_replicate hc ▸ rfl
  cases v with
  | int n =>
    simp only [Json.indentOf] at h
    split at h
    · cases h
    · cases h
      exact blank n.toNat
  | bool b =>
    cases b with
    | true =>
      cases h
      exact blank 1
    | false =>
      cases h
      exact blank 0
  | string s => cases number
  | fieldType t => cases number
  | _ => cases h

/-- A file of a collection decodes to the JSON form of the documents it was written for. -/
theorem readDocuments_fileText {indent : Value} (number : indent.text? = none)
    {docs : List Value} {text : String} (written : fileText indent docs = .ok text)
    (path : String) : readDocuments path text = .ok (docs.map Value.jsonForm) := by
  obtain ⟨blanks, hindent, written⟩ := Json.ok_of_bind written
  obtain ⟨body, hbody, shape⟩ := Json.ok_of_bind written
  obtain rfl := Except.ok.inj shape
  rw [Json.text] at hbody
  cases hw : Json.write (fileStyle blanks) 1 (.list docs) with
  | error e => rw [hw] at hbody; cases hbody
  | ok cs =>
    rw [hw] at hbody
    obtain rfl := Except.ok.inj hbody
    have newline : Json.IsBlank ['\n'] := by simp [Json.IsBlank, Json.isSpace]
    have shape : (String.ofList cs ++ "\n").toList = cs ++ ['\n'] := by simp
    rw [readDocuments, shape, Json.parse_written (readable_fileStyle number hindent) hw newline,
      Value.jsonForm, Value.jsonForms_eq_map]
    rfl

end DocStore
