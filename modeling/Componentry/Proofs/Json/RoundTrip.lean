import Componentry.Proofs.Json.Fields
import Componentry.Proofs.Json.Strings
import Componentry.Proofs.Number.Spelling

/-!
# Data values read back

A value that is written is read back as it is if nothing in it lies outside of what the format can
carry: integers are not too long, floating point numbers are canonical, texts are whole, no two
fields of an object share a name, and lists and objects do not stand too deep inside each other.
-/

namespace Componentry

/-- A floating point number as rounding gives it. -/
def Binary64.isCanonical : Binary64 → Bool
  | .finite _ m e => decide (Canonical m e)
  | _ => true

/-- Is this a printable ASCII character? -/
def CodePoint.isAscii (c : CodePoint) : Bool := 0x20 ≤ c.toNat && c.toNat ≤ 0x7e

theorem CodePoint.isAscii_iff {c : CodePoint} : c.isAscii ↔ 0x20 ≤ c.toNat ∧ c.toNat ≤ 0x7e := by
  simp [isAscii]

theorem CodePoint.isHalf_of_isAscii {c : CodePoint} (h : c.isAscii) : c.isHalf = false := by
  cases c with
  | char c => rfl
  | half n =>
    rw [isAscii_iff, toNat, firstHalf] at h
    omega

/-- A text of printable ASCII characters. -/
def Text.Ascii (s : Text) : Prop := ∀ c ∈ s, c.isAscii

instance (s : Text) : Decidable s.Ascii := inferInstanceAs (Decidable (∀ c ∈ s, c.isAscii))

theorem Text.Ascii.append {a b : Text} (ha : a.Ascii) (hb : b.Ascii) : (a ++ b).Ascii := by
  intro c hc
  rcases List.mem_append.mp hc with hc | hc
  · exact ha c hc
  · exact hb c hc

namespace Json

mutual

/-- Can the value be written so that it is read back as it is? -/
def isStorable : Json → Bool
  | .null => true
  | .bool _ => true
  | .int n => decide (Binary64.digitCount n.natAbs ≤ maxDigits)
  | .float x => x.isCanonical
  | .str s => decide s.Whole
  | .arr items => storableItems items
  | .obj fields => decide (Fields.keys fields).Nodup && storableFields fields

/-- Can every item be written so? -/
def storableItems : List Json → Bool
  | [] => true
  | j :: rest => isStorable j && storableItems rest

/-- Can every field be written so, with its name? -/
def storableFields : List (Text × Json) → Bool
  | [] => true
  | (k, j) :: rest => decide k.Whole && isStorable j && storableFields rest

end

mutual

/-- How deep lists and objects stand inside each other. -/
def depth : Json → Nat
  | .arr items => depthItems items + 1
  | .obj fields => depthFields fields + 1
  | _ => 0

/-- The greatest depth of an item. -/
def depthItems : List Json → Nat
  | [] => 0
  | j :: rest => max (depth j) (depthItems rest)

/-- The greatest depth of a field. -/
def depthFields : List (Text × Json) → Nat
  | [] => 0
  | (_, j) :: rest => max (depth j) (depthFields rest)

end

/-! ## Gaps -/

theorem skipGap_cons {c : CodePoint} {s : Text} (h : isGap c = false) : skipGap (c :: s) = c :: s := by
  rw [skipGap, List.dropWhile_cons, h]
  rfl

theorem skipGap_space (s : Text) : skipGap (.char ' ' :: s) = skipGap s := rfl

/-! ## Words and numbers -/

/-- A text that starts as a number does: with a digit, or a minus and a digit. -/
def StartsNumber (s : Text) : Prop :=
  ∃ negative d r, s = signText negative ++ d :: r ∧ d.isDigit = true

theorem startsNumber_int (n : Int) (rest : Text) :
    StartsNumber (Text.ofString (toString n) ++ rest) := by
  obtain ⟨d, ds, eq⟩ := List.exists_cons_of_ne_nil (Text.ofNat_ne_nil n.natAbs)
  refine ⟨decide (n < 0), d, ds ++ rest, ?_, ?_⟩
  · rw [ofString_toString_int, eq, List.append_assoc, List.cons_append]
  · exact Text.digits_ofNat n.natAbs d (eq ▸ List.mem_cons_self ..)

theorem startsNumber_text {m : Nat} {e : Int} (negative : Bool) (h : Binary64.Canonical m e)
    (rest : Text) : StartsNumber ((Binary64.finite negative m e).text ++ rest) := by
  have size : ∃ d ds, (if m = 0 then Text.ofString "0.0"
      else Binary64.decimalText (Binary64.shortest m e)) = d :: ds ∧ d.isDigit = true := by
    split
    · exact ⟨_, _, rfl, rfl⟩
    · next some =>
      have digits := Binary64.digits_shortest_pos h (Nat.pos_of_ne_zero some)
      have wf := Binary64.wellFormed_spelling digits
      obtain ⟨d, ds, eq⟩ := List.exists_cons_of_ne_nil wf.whole_ne
      have text := Binary64.decimalText_eq digits
      rw [Spelling.text, eq, List.cons_append] at text
      exact ⟨d, _, text, wf.whole d (eq ▸ List.mem_cons_self ..)⟩
  obtain ⟨d, ds, eq, digit⟩ := size
  refine ⟨negative, d, ds ++ rest, ?_, digit⟩
  simp only [Binary64.text]
  rw [eq]
  cases negative <;> rfl

/-- What starts as a number is neither a word nor anything else. -/
theorem readValue_number {s : Text} (h : StartsNumber s) (room fuel : Nat) :
    readValue room (fuel + 1) s = readNumber s := by
  obtain ⟨negative, d, r, rfl, digit⟩ := h
  have ne (c : Char) (hc : c.isDigit = false) : d ≠ .char c := by
    rintro rfl
    rw [CodePoint.isDigit, CodePoint.char?, Option.any_some, hc] at digit
    cases digit
  have word : readWord? (signText negative ++ d :: r) = none := by
    cases negative with
    | true => simp [readWord?, signText, Text.after?, Text.ofString, Ne.symm (ne 'I' rfl)]
    | false =>
      simp [readWord?, signText, Text.after?, Text.ofString, Ne.symm (ne 'n' rfl),
        Ne.symm (ne 't' rfl), Ne.symm (ne 'f' rfl), Ne.symm (ne 'N' rfl), Ne.symm (ne 'I' rfl),
        Ne.symm (ne '-' rfl)]
  have first {c : Char} {cs : Text} (hc : c.isDigit = false) (minus : c ≠ '-') :
      signText negative ++ d :: r ≠ .char c :: cs := by
    intro h
    cases negative with
    | true => exact minus (CodePoint.char.inj (List.cons.inj h).1).symm
    | false => exact ne c hc (List.cons.inj h).1
  unfold readValue
  split
  · next h => simp at h
  · next h => exact absurd h (first rfl (by decide))
  · next h => exact absurd h (first rfl (by decide))
  · next h => exact absurd h (first rfl (by decide))
  · rw [word]

theorem readValue_bool (b : Bool) (room fuel : Nat) (rest : Text) :
    readValue room (fuel + 1) (written .spaced (.bool b) ++ rest) = .ok (.bool b, rest) := by
  cases b <;> rfl

theorem readValue_float {x : Binary64} (h : x.isCanonical) (room fuel : Nat) {rest : Text}
    (ends : rest.EndsNumber) :
    readValue room (fuel + 1) (writtenFloat x ++ rest) = .ok (.float x, rest) := by
  match x with
  | .nan => rfl
  | .infinite false => rfl
  | .infinite true => rfl
  | .finite negative m e =>
    have canonical : Binary64.Canonical m e := of_decide_eq_true h
    exact (readValue_number (startsNumber_text negative canonical rest) room fuel).trans
      (readNumber_text negative canonical ends)

/-! ## How a written value starts -/

/-- A text whose first character neither belongs to a gap nor closes a list. -/
def StartsValue (s : Text) : Prop := ∃ c r, s = c :: r ∧ isGap c = false ∧ c ≠ .char ']'

theorem StartsNumber.startsValue {s : Text} (h : StartsNumber s) : StartsValue s := by
  obtain ⟨negative, d, r, rfl, digit⟩ := h
  cases negative with
  | true => exact ⟨_, _, rfl, rfl, by decide⟩
  | false =>
    have ne (c : Char) (hc : c.isDigit = false) : d ≠ .char c := by
      rintro rfl
      rw [CodePoint.isDigit, CodePoint.char?, Option.any_some, hc] at digit
      cases digit
    refine ⟨d, r, rfl, ?_, ne ']' rfl⟩
    simp [isGap, ne ' ' rfl, ne '\t' rfl, ne '\n' rfl, ne '\r' rfl]

theorem startsValue_written {j : Json} (h : j.isStorable) (rest : Text) :
    StartsValue (written .spaced j ++ rest) := by
  match j with
  | .null => exact ⟨_, _, rfl, rfl, by decide⟩
  | .bool true => exact ⟨_, _, rfl, rfl, by decide⟩
  | .bool false => exact ⟨_, _, rfl, rfl, by decide⟩
  | .int n => exact (startsNumber_int n rest).startsValue
  | .float .nan => exact ⟨_, _, rfl, rfl, by decide⟩
  | .float (.infinite false) => exact ⟨_, _, rfl, rfl, by decide⟩
  | .float (.infinite true) => exact ⟨_, _, rfl, rfl, by decide⟩
  | .float (.finite negative m e) =>
    exact (startsNumber_text negative (of_decide_eq_true h) rest).startsValue
  | .str s => exact ⟨_, _, rfl, rfl, by decide⟩
  | .arr items => exact ⟨_, _, rfl, rfl, by decide⟩
  | .obj fields => exact ⟨_, _, rfl, rfl, by decide⟩

theorem StartsValue.skipGap_eq {s : Text} (h : StartsValue s) : skipGap s = s := by
  obtain ⟨c, r, rfl, gap, -⟩ := h
  exact skipGap_cons gap

/-! ## Values -/

theorem writtenItems_cons_cons (l : Layout) (j k : Json) (rest : List Json) :
    writtenItems l (j :: k :: rest) = written l j ++ l.item ++ writtenItems l (k :: rest) := by
  rw [writtenItems]
  simp

theorem writtenFields_cons_cons (l : Layout) (k : Text) (j : Json) (f : Text × Json)
    (rest : List (Text × Json)) :
    writtenFields l ((k, j) :: f :: rest) =
      writtenString k ++ l.field ++ written l j ++ l.item ++ writtenFields l (f :: rest) := by
  rw [writtenFields]
  simp

theorem endsNumber_cons {c : Char} {s : Text} (h : c.isDigit = false) (point : c ≠ '.')
    (lower : c ≠ 'e') (upper : c ≠ 'E') : Text.EndsNumber (.char c :: s) := by
  intro x hx
  cases hx
  refine ⟨?_, ?_, ?_, ?_⟩
  · simpa [CodePoint.isDigit, CodePoint.char?] using h
  · simpa using point
  · simpa using lower
  · simpa using upper

section

variable {room fuel : Nat} {s t v rest : Text} {j : Json} {items : List Json} {k : Text}
  {acc fields : Fields}

/-- The last item of a list. -/
theorem readItems_last (h : readValue room fuel s = .ok (j, .char ']' :: rest)) :
    readItems room (fuel + 1) s = .ok ([j], rest) := by
  have bracket : skipGap (.char ']' :: rest) = .char ']' :: rest := rfl
  simp only [readItems, h, bind, Except.bind, bracket]
  rfl

/-- An item of a list with others behind it. -/
theorem readItems_more (h : readValue room fuel s = .ok (j, .char ',' :: .char ' ' :: t))
    (ht : StartsValue t) (more : readItems room fuel t = .ok (items, rest)) :
    readItems room (fuel + 1) s = .ok (j :: items, rest) := by
  have comma : skipGap (.char ',' :: .char ' ' :: t) = .char ',' :: .char ' ' :: t := rfl
  simp only [readItems, h, bind, Except.bind, comma, skipGap_space, ht.skipGap_eq, more]
  rfl

/-- The name of a field and what follows it. -/
theorem readString_name (hk : k.Whole) (s : Text) :
    readString (k.flatMap writtenChar ++ .char '"' :: s) = .ok (k, s) := by
  rw [readString_written, hk]

/-- The last field of an object. -/
theorem readFields_last (hk : k.Whole) (hv : StartsValue v)
    (h : readValue room fuel v = .ok (j, .char '\x7d' :: rest)) :
    readFields room (fuel + 1) acc (writtenString k ++ (.char ':' :: .char ' ' :: v)) =
      .ok (Fields.set k j acc, rest) := by
  have colon : skipGap (.char ':' :: .char ' ' :: v) = .char ':' :: .char ' ' :: v := rfl
  have brace : skipGap (.char '\x7d' :: rest) = .char '\x7d' :: rest := rfl
  rw [show writtenString k ++ (.char ':' :: .char ' ' :: v) = .char '"' :: (k.flatMap writtenChar ++
    .char '"' :: (.char ':' :: .char ' ' :: v)) by simp [writtenString, Text.ofString]]
  simp only [readFields, readString_name hk, bind, Except.bind, colon, skipGap_space,
    hv.skipGap_eq, h, brace]
  rfl

/-- A field of an object with others behind it. -/
theorem readFields_more (hk : k.Whole) (hv : StartsValue v) (ht : StartsValue t)
    (h : readValue room fuel v = .ok (j, .char ',' :: .char ' ' :: t))
    (more : readFields room fuel (Fields.set k j acc) t = .ok (fields, rest)) :
    readFields room (fuel + 1) acc (writtenString k ++ (.char ':' :: .char ' ' :: v)) =
      .ok (fields, rest) := by
  have colon : skipGap (.char ':' :: .char ' ' :: v) = .char ':' :: .char ' ' :: v := rfl
  have comma : skipGap (.char ',' :: .char ' ' :: t) = .char ',' :: .char ' ' :: t := rfl
  rw [show writtenString k ++ (.char ':' :: .char ' ' :: v) = .char '"' :: (k.flatMap writtenChar ++
    .char '"' :: (.char ':' :: .char ' ' :: v)) by simp [writtenString, Text.ofString]]
  simp only [readFields, readString_name hk, bind, Except.bind, colon, skipGap_space,
    hv.skipGap_eq, h, comma, ht.skipGap_eq, more]

/-- A list that has items. -/
theorem readValue_items (deep : 0 < room) (hs : StartsValue s)
    (h : readItems (room - 1) fuel s = .ok (items, rest)) :
    readValue room (fuel + 1) (.char '[' :: s) = .ok (.arr items, rest) := by
  have skip := hs.skipGap_eq
  obtain ⟨c, r, rfl, -, bracket⟩ := hs
  simp only [readValue, skip]
  rw [if_neg (by omega)]
  split
  · next heq => exact absurd (List.cons.inj heq).1 bracket
  · rw [h]
    rfl

/-- An object that has fields. -/
theorem readValue_fields (deep : 0 < room)
    (h : readFields (room - 1) fuel [] (.char '"' :: s) = .ok (fields, rest)) :
    readValue room (fuel + 1) (.char '\x7b' :: .char '"' :: s) = .ok (.obj fields, rest) := by
  have skip : skipGap (.char '"' :: s) = .char '"' :: s := rfl
  simp only [readValue, skip]
  rw [if_neg (by omega)]
  split
  · next heq => cases heq
  · rw [h]
    rfl

end

theorem startsValue_writtenItems {j : Json} {items : List Json} (h : j.isStorable) (rest : Text) :
    StartsValue (writtenItems .spaced (j :: items) ++ rest) := by
  cases items with
  | nil => exact startsValue_written h rest
  | cons k items =>
    rw [writtenItems_cons_cons, List.append_assoc, List.append_assoc]
    exact startsValue_written h _

theorem exists_writtenFields_append (f : Text × Json) (fields : Fields) (rest : Text) :
    ∃ s, writtenFields .spaced (f :: fields) ++ rest = .char '"' :: s := by
  cases fields <;> exact ⟨_, rfl⟩

theorem length_item : Layout.spaced.item.length = 2 := rfl

theorem length_field : Layout.spaced.field.length = 2 := rfl

theorem notMem_keys_of_nodup {acc fields : Fields} {k : Text} {j : Json}
    (nodup : (acc ++ (k, j) :: fields).keys.Nodup) : k ∉ acc.keys := by
  rw [Fields.keys, List.map_append, List.nodup_append] at nodup
  intro hk
  exact nodup.2.2 k hk k (List.mem_cons_self ..) rfl

mutual

/-- A written value is read back, whatever follows it. -/
theorem readValue_written (j : Json) {room fuel : Nat} {rest : Text} (h : j.isStorable)
    (deep : j.depth ≤ room) (enough : (written .spaced j).length ≤ fuel)
    (ends : rest.EndsNumber) : readValue room fuel (written .spaced j ++ rest) = .ok (j, rest) := by
  obtain ⟨c, r, first, -⟩ := startsValue_written h []
  rw [List.append_nil] at first
  obtain ⟨fuel, rfl⟩ : ∃ n, fuel = n + 1 := ⟨fuel - 1, by simp [first] at enough; omega⟩
  cases j with
  | null => rfl
  | bool b => exact readValue_bool b room fuel rest
  | int n =>
    rw [written, readValue_number (startsNumber_int n rest)]
    exact readNumber_int (of_decide_eq_true h) ends
  | float x => exact readValue_float h room fuel ends
  | str s =>
    have whole : s.Whole := of_decide_eq_true h
    rw [written, writtenString, List.cons_append, List.append_assoc]
    simp only [readValue]
    rw [show Text.ofString "\"" ++ rest = .char '"' :: rest from rfl, readString_name whole]
    rfl
  | arr items =>
    rw [depth] at deep
    rw [written, List.length_cons, List.length_append] at enough
    rw [written, List.cons_append, List.append_assoc]
    cases items with
    | nil =>
      simp only [readValue, writtenItems]
      rw [if_neg (by omega)]
      rfl
    | cons j items =>
      have storable := h
      rw [isStorable, storableItems, Bool.and_eq_true] at storable
      refine readValue_items (by omega) (startsValue_writtenItems storable.1 _) ?_
      exact readItems_written (j :: items) (by simp) h (by omega)
        (by simp [Text.ofString] at enough; omega)
  | obj fields =>
    rw [depth] at deep
    rw [written, List.length_cons, List.length_append] at enough
    rw [isStorable, Bool.and_eq_true, decide_eq_true_eq] at h
    rw [written, List.cons_append, List.append_assoc]
    cases fields with
    | nil =>
      simp only [readValue, writtenFields]
      rw [if_neg (by omega)]
      rfl
    | cons f fields =>
      have read : readFields (room - 1) fuel []
          (writtenFields .spaced (f :: fields) ++ .char '\x7d' :: rest) = .ok (f :: fields, rest) :=
        readFields_written (f :: fields) [] (by simp) h.1 h.2 (by omega)
          (by simp [Text.ofString] at enough; omega)
      obtain ⟨s, quote⟩ := exists_writtenFields_append f fields (.char '\x7d' :: rest)
      rw [quote] at read
      rw [show Text.ofString "\x7d" ++ rest = .char '\x7d' :: rest from rfl, quote]
      exact readValue_fields (by omega) read

/-- The written items of a list are read back. -/
theorem readItems_written (items : List Json) {room fuel : Nat} {rest : Text} (ne : items ≠ [])
    (h : storableItems items) (deep : depthItems items ≤ room)
    (enough : (writtenItems .spaced items).length + 1 ≤ fuel) :
    readItems room fuel (writtenItems .spaced items ++ .char ']' :: rest) = .ok (items, rest) := by
  obtain ⟨fuel, rfl⟩ : ∃ n, fuel = n + 1 := ⟨fuel - 1, by omega⟩
  match items with
  | [] => exact absurd rfl ne
  | [j] =>
    rw [storableItems, Bool.and_eq_true] at h
    rw [depthItems] at deep
    rw [writtenItems] at enough ⊢
    exact readItems_last (readValue_written j h.1 (by omega) (by omega)
      (endsNumber_cons rfl (by decide) (by decide) (by decide)))
  | j :: k :: items =>
    have storable := h
    rw [storableItems, Bool.and_eq_true] at storable
    have next := storable.2
    rw [storableItems, Bool.and_eq_true] at next
    rw [depthItems] at deep
    rw [writtenItems_cons_cons, List.length_append, List.length_append, length_item] at enough
    rw [writtenItems_cons_cons, List.append_assoc, List.append_assoc]
    refine readItems_more (t := writtenItems .spaced (k :: items) ++ .char ']' :: rest) ?_ ?_ ?_
    · exact readValue_written j storable.1 (by omega) (by omega)
        (endsNumber_cons rfl (by decide) (by decide) (by decide))
    · exact startsValue_writtenItems next.1 _
    · exact readItems_written (k :: items) (by simp) storable.2 (by omega) (by omega)

/-- The written fields of an object are read back, after those read before. -/
theorem readFields_written (fields acc : Fields) {room fuel : Nat} {rest : Text}
    (ne : fields ≠ []) (nodup : (acc ++ fields).keys.Nodup) (h : storableFields fields)
    (deep : depthFields fields ≤ room)
    (enough : (writtenFields .spaced fields).length + 1 ≤ fuel) :
    readFields room fuel acc (writtenFields .spaced fields ++ .char '\x7d' :: rest) =
      .ok (acc ++ fields, rest) := by
  obtain ⟨fuel, rfl⟩ : ∃ n, fuel = n + 1 := ⟨fuel - 1, by omega⟩
  match fields with
  | [] => exact absurd rfl ne
  | [(k, j)] =>
    rw [storableFields, Bool.and_eq_true, Bool.and_eq_true, decide_eq_true_eq] at h
    rw [depthFields] at deep
    rw [writtenFields, List.length_append, List.length_append, length_field] at enough
    have fresh : k ∉ acc.keys := notMem_keys_of_nodup nodup
    rw [writtenFields, List.append_assoc, List.append_assoc, ← Fields.set_of_notMem fresh]
    refine readFields_last h.1.1 (startsValue_written h.1.2 _) ?_
    exact readValue_written j h.1.2 (by omega) (by omega)
      (endsNumber_cons rfl (by decide) (by decide) (by decide))
  | (k, j) :: f :: fields =>
    have storable := h
    rw [storableFields, Bool.and_eq_true, Bool.and_eq_true, decide_eq_true_eq] at storable
    rw [depthFields] at deep
    rw [writtenFields_cons_cons, List.length_append, List.length_append, List.length_append,
      List.length_append, length_item, length_field] at enough
    have fresh : k ∉ acc.keys := notMem_keys_of_nodup nodup
    have others : acc ++ (k, j) :: f :: fields = Fields.set k j acc ++ f :: fields := by
      rw [Fields.set_of_notMem fresh, List.append_assoc, List.singleton_append]
    obtain ⟨s, quote⟩ := exists_writtenFields_append f fields (.char '\x7d' :: rest)
    rw [writtenFields_cons_cons]
    simp only [List.append_assoc]
    rw [others] at nodup ⊢
    refine readFields_more (j := j) (t := writtenFields .spaced (f :: fields) ++ .char '\x7d' :: rest)
      storable.1.1 (startsValue_written storable.1.2 _) ?_ ?_ ?_
    · exact ⟨_, _, quote, rfl, by decide⟩
    · exact readValue_written j storable.1.2 (by omega) (by omega)
        (endsNumber_cons rfl (by decide) (by decide) (by decide))
    · exact readFields_written (f :: fields) (Fields.set k j acc) (by simp) nodup storable.2
        (by omega) (by omega)

end

/-! ## Written values are ASCII -/

theorem ascii_digit {c : CodePoint} (h : c.isDigit) : c.isAscii := by
  cases c with
  | half n => cases h
  | char c =>
    have range : 48 ≤ c.val ∧ c.val ≤ 57 := by
      simpa [CodePoint.isDigit, CodePoint.char?, Char.isDigit] using h
    have lower : 48 ≤ c.val.toNat := range.1
    have upper : c.val.toNat ≤ 57 := range.2
    refine CodePoint.isAscii_iff.mpr ?_
    show 0x20 ≤ c.val.toNat ∧ c.val.toNat ≤ 0x7e
    omega

theorem ascii_hexDigit {n : Nat} (h : n < 16) : (Text.hexDigit n).isAscii := by
  have all : ∀ k < 16, (Text.hexDigit k).isAscii := by decide
  exact all n h

theorem ascii_unitEscape (n : Nat) : (unitEscape n).Ascii := by
  rw [unitEscape_eq]
  have digit (k : Nat) : (Text.hexDigit (k % 16)).isAscii := ascii_hexDigit (Nat.mod_lt k (by decide))
  intro c hc
  simp only [List.mem_cons, List.not_mem_nil, or_false] at hc
  rcases hc with rfl | rfl | rfl | rfl | rfl | rfl
  · decide
  · decide
  · exact digit _
  · exact digit _
  · exact digit _
  · exact digit _

theorem ascii_writtenChar (c : CodePoint) : (writtenChar c).Ascii := by
  by_cases short : ∃ e, (c, e) ∈ shortEscapes
  · obtain ⟨e, mem⟩ := short
    have letters : ∀ p ∈ shortEscapes, p.2.isAscii := by decide
    rw [writtenChar_of_short mem]
    intro x hx
    rcases List.mem_cons.mp hx with rfl | hx
    · decide
    · rw [List.mem_singleton.mp hx]
      exact letters (c, e) mem
  · rw [writtenChar_of_not_short short]
    split_ifs with printable unit
    · intro x hx
      rw [List.mem_singleton.mp hx]
      exact CodePoint.isAscii_iff.mpr printable
    · exact ascii_unitEscape _
    · exact (ascii_unitEscape _).append (ascii_unitEscape _)

theorem ascii_writtenString (s : Text) : (writtenString s).Ascii := by
  have body : Text.Ascii (s.flatMap writtenChar) := by
    intro c hc
    obtain ⟨x, -, hx⟩ := List.mem_flatMap.mp hc
    exact ascii_writtenChar x c hx
  have quote : Text.Ascii [.char '"'] := by decide
  exact quote.append (body.append quote)

theorem ascii_digits {s : Text} (h : s.Digits) : s.Ascii := fun c hc => ascii_digit (h c hc)

theorem ascii_signText (negative : Bool) : (signText negative).Ascii := by
  cases negative <;> decide

theorem ascii_spelling {s : Spelling} (wf : s.WellFormed) : s.text.Ascii := by
  have point : Text.Ascii [.char '.'] := by decide
  have fraction : s.fractionText.Ascii := by
    rw [Spelling.fractionText]
    split
    · decide
    · exact point.append (ascii_digits wf.fraction)
  have power : s.powerText.Ascii := by
    rw [Spelling.powerText]
    split
    · decide
    · next negative ds some =>
      have mark : Text.Ascii [.char 'e', if negative then .char '-' else .char '+'] := by
        cases negative <;> decide
      exact mark.append (ascii_digits (wf.power _ some).1)
  exact (ascii_digits wf.whole).append (fraction.append power)

theorem ascii_writtenFloat {x : Binary64} (h : x.isCanonical) : (writtenFloat x).Ascii := by
  match x with
  | .nan => decide
  | .infinite false => decide
  | .infinite true => decide
  | .finite negative m e =>
    have canonical : Binary64.Canonical m e := of_decide_eq_true h
    have size : Text.Ascii (if m = 0 then "0.0"
        else Binary64.decimalText (Binary64.shortest m e)) := by
      split
      · decide
      · next some =>
        have digits := Binary64.digits_shortest_pos canonical (Nat.pos_of_ne_zero some)
        rw [Binary64.decimalText_eq digits]
        exact ascii_spelling (Binary64.wellFormed_spelling digits)
    have signed : writtenFloat (.finite negative m e) = signText negative ++
        (if m = 0 then Text.ofString "0.0" else Binary64.decimalText (Binary64.shortest m e)) := by
      simp only [writtenFloat, Binary64.text]
      cases negative <;> rfl
    rw [signed]
    exact (ascii_signText negative).append size

mutual

/-- A storable value is written in ASCII. -/
theorem ascii_written (j : Json) (h : j.isStorable) : (written .spaced j).Ascii := by
  cases j with
  | null => decide
  | bool b => cases b <;> decide
  | int n =>
    rw [written, ofString_toString_int]
    exact (ascii_signText _).append (ascii_digits (Text.digits_ofNat _))
  | float x => exact ascii_writtenFloat h
  | str s => exact ascii_writtenString s
  | arr items =>
    have front : Text.Ascii [.char '['] := by decide
    have back : Text.Ascii [.char ']'] := by decide
    exact front.append ((ascii_writtenItems items h).append back)
  | obj fields =>
    rw [isStorable, Bool.and_eq_true] at h
    have front : Text.Ascii [.char '\x7b'] := by decide
    have back : Text.Ascii [.char '\x7d'] := by decide
    exact front.append ((ascii_writtenFields fields h.2).append back)

theorem ascii_writtenItems (items : List Json) (h : storableItems items) :
    (writtenItems .spaced items).Ascii := by
  match items with
  | [] => decide
  | [j] =>
    rw [storableItems, Bool.and_eq_true] at h
    exact ascii_written j h.1
  | j :: k :: items =>
    rw [storableItems, Bool.and_eq_true] at h
    have comma : Text.Ascii Layout.spaced.item := by decide
    rw [writtenItems_cons_cons]
    exact ((ascii_written j h.1).append comma).append (ascii_writtenItems (k :: items) h.2)

theorem ascii_writtenFields (fields : Fields) (h : storableFields fields) :
    (writtenFields .spaced fields).Ascii := by
  have colon : Text.Ascii Layout.spaced.field := by decide
  match fields with
  | [] => decide
  | [(k, j)] =>
    rw [storableFields, Bool.and_eq_true, Bool.and_eq_true] at h
    exact ((ascii_writtenString k).append colon).append (ascii_written j h.1.2)
  | (k, j) :: f :: fields =>
    rw [storableFields, Bool.and_eq_true, Bool.and_eq_true] at h
    have comma : Text.Ascii Layout.spaced.item := by decide
    rw [writtenFields_cons_cons]
    exact ((((ascii_writtenString k).append colon).append (ascii_written j h.1.2)).append
      comma).append (ascii_writtenFields (f :: fields) h.2)

end

/-! ## Whole texts -/

/-- **A storable value is read back from its text.** -/
theorem parse_render {j : Json} (h : j.isStorable) {room : Nat} (deep : j.depth ≤ room) :
    parse j.render room = .ok j := by
  have starts := startsValue_written h []
  rw [List.append_nil] at starts
  have read : readValue room (2 * j.render.length + 2) (written .spaced j ++ []) = .ok (j, []) :=
    readValue_written j h deep (by rw [render]; omega) (by simp [Text.EndsNumber])
  rw [List.append_nil, render] at read
  have mark : j.render.head? ≠ some (.char '\ufeff') := by
    intro first
    have := ascii_written j h _ (List.mem_of_mem_head? first)
    revert this
    decide
  have all : readAll room j.render = .ok j := by
    rw [readAll, if_neg]
    · rw [render, starts.skipGap_eq, read]
      rfl
    · exact mark
  rw [parse, all]

end Json

end Componentry
