import Componentry.Proofs.Json.Sorted

/-!
# Texts that tell values apart

The text of a value without floating point numbers determines the value, up to halves that make a
pair: these are written like the character they make. No quote, comma or bracket within a string can
be taken for one around it, and what follows a value is left over as it is, so texts of values within
values are told apart as well.
-/

namespace Componentry

/-! ## Pairs of halves -/

/-- Two halves are written as the character that they make. -/
theorem Json.writtenChar_pair {a b : CodePoint} (ha : a.isHigh) (hb : b.isLow) :
    writtenChar (a.pair b) = writtenChar a ++ writtenChar b := by
  rw [CodePoint.isHigh_iff] at ha
  rw [CodePoint.isLow_iff] at hb
  have number : (a.pair b).toNat = 0x10000 + (a.toNat - 0xD800) * 0x400 + (b.toNat - 0xDC00) :=
    CodePoint.toNat_ofNat (by omega)
  -- a code point above the printable ones has none of the short escapes
  have escape {c : CodePoint} (above : 0x7f ≤ c.toNat) : writtenChar c =
      if c.toNat < 0x10000 then unitEscape c.toNat
      else unitEscape (0xD800 + (c.toNat - 0x10000) / 0x400) ++
        unitEscape (0xDC00 + (c.toNat - 0x10000) % 0x400) := by
    have long : ¬ ∃ e, (c, e) ∈ shortEscapes := by
      rintro ⟨e, mem⟩
      have table : ∀ p ∈ shortEscapes, p.1.toNat < 0x7f := by decide
      exact absurd (table (c, e) mem) (Nat.not_lt.mpr above)
    have printable : ¬ ((.char ' ' : CodePoint) ≤ c ∧ c ≤ (.char '~' : CodePoint)) := by
      rintro ⟨-, upper⟩
      have : c.toNat ≤ 0x7e := upper
      omega
    rw [writtenChar_of_not_short long, if_neg printable]
  have first : 0xD800 + ((a.pair b).toNat - 0x10000) / 0x400 = a.toNat := by omega
  have second : 0xDC00 + ((a.pair b).toNat - 0x10000) % 0x400 = b.toNat := by omega
  rw [escape (by omega), escape (by omega), escape (by omega), if_neg (by omega), first, second,
    if_pos (by omega), if_pos (by omega)]

/-- Pairing halves does not change how a string is written. -/
theorem Json.writtenString_paired (s : Text) : writtenString s.paired = writtenString s := by
  have body : s.paired.flatMap writtenChar = s.flatMap writtenChar := by
    fun_induction Text.paired s with
    | case1 => rfl
    | case2 c => rfl
    | case3 a b s halves ih =>
      rw [Bool.and_eq_true] at halves
      rw [List.flatMap_cons, writtenChar_pair halves.1 halves.2, ih, List.flatMap_cons,
        List.flatMap_cons, List.append_assoc]
    | case4 a b s apart ih => rw [List.flatMap_cons, ih, ← List.flatMap_cons]
  rw [writtenString, writtenString, body]

namespace Json

mutual

/-- The value with the character for each two halves that make one, in all its strings. -/
def allPaired : Json → Json
  | .str s => .str s.paired
  | .arr items => .arr (allPairedItems items)
  | .obj fields => .obj (allPairedFields fields)
  | j => j

/-- Pairs the halves in every item. -/
def allPairedItems : List Json → List Json
  | [] => []
  | j :: rest => allPaired j :: allPairedItems rest

/-- Pairs the halves in every field and its name. -/
def allPairedFields : List (Text × Json) → List (Text × Json)
  | [] => []
  | (k, j) :: rest => (k.paired, allPaired j) :: allPairedFields rest

end

mutual

/-- Is there no floating point number in the value? -/
def isExact : Json → Bool
  | .float _ => false
  | .arr items => exactItems items
  | .obj fields => exactFields fields
  | _ => true

/-- Is there no floating point number in the items? -/
def exactItems : List Json → Bool
  | [] => true
  | j :: rest => isExact j && exactItems rest

/-- Is there no floating point number in the fields? -/
def exactFields : List (Text × Json) → Bool
  | [] => true
  | (_, j) :: rest => isExact j && exactFields rest

end

/-! ## The first character -/

/-- What a value is, as its first character tells. -/
inductive Shape where
  | null
  | true_
  | false_
  | number
  | string
  | list
  | object
  deriving DecidableEq

/-- What the value is. -/
def shape : Json → Shape
  | .null => .null
  | .bool true => .true_
  | .bool false => .false_
  | .int _ => .number
  | .float _ => .number
  | .str _ => .string
  | .arr _ => .list
  | .obj _ => .object

/-- The shape of the values that start with a character, if any do. -/
def shapeOf? (c : CodePoint) : Option Shape :=
  if c = 'n' then some .null else if c = 't' then some .true_ else if c = 'f' then some .false_
  else if c = '"' then some .string else if c = '[' then some .list
  else if c = '\x7b' then some .object else if c = '-' ∨ c.isDigit then some .number else none

theorem shapeOf?_of_isDigit {c : CodePoint} (h : c.isDigit) : shapeOf? c = some .number := by
  have other (x : Char) (hx : x.isDigit = false) : c ≠ .char x := by
    rintro rfl
    rw [CodePoint.isDigit, CodePoint.char?, Option.any_some, hx] at h
    cases h
  simp only [shapeOf?, other _ (by decide : 'n'.isDigit = false),
    other _ (by decide : 't'.isDigit = false), other _ (by decide : 'f'.isDigit = false),
    other _ (by decide : '"'.isDigit = false), other _ (by decide : '['.isDigit = false),
    other _ (by decide : '\x7b'.isDigit = false), h, if_false, or_true, if_true]

/-- **The first character of a text tells what the value is.** -/
theorem exists_written_cons (l : Layout) {j : Json} (h : j.isExact) (x : Text) :
    ∃ c r, written l j ++ x = c :: r ∧ shapeOf? c = some j.shape := by
  cases j with
  | null => exact ⟨_, _, rfl, rfl⟩
  | bool b => cases b <;> exact ⟨_, _, rfl, rfl⟩
  | int n =>
    obtain ⟨negative, d, r, eq, digit⟩ := startsNumber_int n x
    rw [written, eq]
    cases negative with
    | true => exact ⟨_, _, rfl, rfl⟩
    | false => exact ⟨_, _, rfl, shapeOf?_of_isDigit digit⟩
  | float f => cases h
  | str s => exact ⟨_, _, rfl, rfl⟩
  | arr items => exact ⟨_, _, rfl, rfl⟩
  | obj fields => exact ⟨_, _, rfl, rfl⟩

theorem shape_eq_of_written {l : Layout} {a b : Json} {x y : Text} (ha : a.isExact)
    (hb : b.isExact) (h : written l a ++ x = written l b ++ y) : a.shape = b.shape := by
  obtain ⟨c, r, first, shape⟩ := exists_written_cons l ha x
  obtain ⟨c', r', first', shape'⟩ := exists_written_cons l hb y
  rw [first, first'] at h
  obtain ⟨rfl, -⟩ := List.cons.inj h
  exact Option.some.inj (shape.symm.trans shape')

section Shapes

variable {j : Json}

theorem eq_null_of_shape (h : j.shape = .null) : j = .null := by
  cases j with
  | null => rfl
  | bool b => cases b <;> cases h
  | _ => cases h

theorem eq_bool_of_shape {b : Bool} (h : j.shape = (bool b).shape) : j = .bool b := by
  cases j with
  | bool c => cases b <;> cases c <;> first | rfl | cases h
  | _ => cases b <;> cases h

theorem exists_int_of_shape (exact_ : j.isExact) (h : j.shape = .number) : ∃ n, j = .int n := by
  cases j with
  | int n => exact ⟨n, rfl⟩
  | float f => cases exact_
  | bool b => cases b <;> cases h
  | _ => cases h

theorem exists_str_of_shape (h : j.shape = .string) : ∃ s, j = .str s := by
  cases j with
  | str s => exact ⟨s, rfl⟩
  | bool b => cases b <;> cases h
  | _ => cases h

theorem exists_arr_of_shape (h : j.shape = .list) : ∃ items, j = .arr items := by
  cases j with
  | arr items => exact ⟨items, rfl⟩
  | bool b => cases b <;> cases h
  | _ => cases h

theorem exists_obj_of_shape (h : j.shape = .object) : ∃ fields, j = .obj fields := by
  cases j with
  | obj fields => exact ⟨fields, rfl⟩
  | bool b => cases b <;> cases h
  | _ => cases h

end Shapes

/-! ## Integers -/

/-- An integer can be told from its text if no digit follows. -/
theorem ofString_toString_int_inj {n m : Int} {x y : Text} (hx : x.EndsDigits) (hy : y.EndsDigits)
    (h : Text.ofString (toString n) ++ x = Text.ofString (toString m) ++ y) : n = m ∧ x = y := by
  rw [ofString_toString_int, ofString_toString_int, List.append_assoc, List.append_assoc] at h
  have digits (k : Int) := Text.digits_ofNat k.natAbs
  have unsigned (k : Int) (z : Text) : ∃ d r, Text.ofNat k.natAbs ++ z = d :: r ∧ d ≠ .char '-' := by
    obtain ⟨d, ds, eq⟩ := List.exists_cons_of_ne_nil (Text.ofNat_ne_nil k.natAbs)
    have digit := digits k d (eq ▸ List.mem_cons_self ..)
    refine ⟨d, ds ++ z, by rw [eq, List.cons_append], ?_⟩
    rintro rfl
    cases digit
  -- the one starts with a sign if and only if the other does
  have sign : decide (n < 0) = decide (m < 0) ∧
      Text.ofNat n.natAbs ++ x = Text.ofNat m.natAbs ++ y := by
    obtain ⟨d, r, eq, notSign⟩ := unsigned n x
    obtain ⟨d', r', eq', notSign'⟩ := unsigned m y
    cases hn : decide (n < 0) <;> cases hm : decide (m < 0) <;>
      rw [hn, hm] at h <;> simp only [signText, if_true, Bool.false_eq_true, if_false] at h
    · exact ⟨rfl, h⟩
    · rw [eq] at h
      exact absurd (List.cons.inj h).1 notSign
    · rw [eq'] at h
      exact absurd (List.cons.inj h).1.symm notSign'
    · exact ⟨rfl, (List.cons.inj h).2⟩
  have same : Text.ofNat n.natAbs = Text.ofNat m.natAbs := by
    rw [← Text.takeWhile_digits (digits n) hx, sign.2, Text.takeWhile_digits (digits m) hy]
  have size : n.natAbs = m.natAbs := by
    rw [← Text.digitsValue_ofNat n.natAbs, same, Text.digitsValue_ofNat]
  have negative : n < 0 ↔ m < 0 := by simpa using sign.1
  have values : n = m := by
    rcases Int.natAbs_eq_natAbs_iff.mp size with same | opposite
    · exact same
    · omega
  have rest : x = y := by
    rw [← Text.dropWhile_digits (digits n) hx, sign.2, Text.dropWhile_digits (digits m) hy]
  exact ⟨values, rest⟩

/-! ## Values -/

/-- What follows an item of a list: nothing, or a comma and the next items. -/
def moreItems (l : Layout) : List Json → Text
  | [] => []
  | j :: rest => l.item ++ writtenItems l (j :: rest)

/-- What follows a field of an object: nothing, or a comma and the next fields. -/
def moreFields (l : Layout) : List (Text × Json) → Text
  | [] => []
  | f :: rest => l.item ++ writtenFields l (f :: rest)

theorem writtenItems_cons (l : Layout) (j : Json) (rest : List Json) :
    writtenItems l (j :: rest) = written l j ++ moreItems l rest := by
  cases rest with
  | nil => rw [writtenItems, moreItems, List.append_nil]
  | cons k rest => rw [writtenItems_cons_cons, moreItems, List.append_assoc]

theorem writtenFields_cons (l : Layout) (k : Text) (j : Json) (rest : List (Text × Json)) :
    writtenFields l ((k, j) :: rest) =
      writtenString k ++ (l.field ++ (written l j ++ moreFields l rest)) := by
  cases rest with
  | nil => rw [writtenFields, moreFields, List.append_nil, List.append_assoc]
  | cons f rest => simp only [writtenFields_cons_cons, moreFields, List.append_assoc]

theorem endsDigits_moreItems (rest : List Json) (x : Text) :
    Text.EndsDigits (moreItems .compact rest ++ .char ']' :: x) := by
  intro c hc
  cases rest <;> cases hc <;> rfl

theorem endsDigits_moreFields (rest : Fields) (x : Text) :
    Text.EndsDigits (moreFields .compact rest ++ .char '\x7d' :: x) := by
  intro c hc
  cases rest <;> cases hc <;> rfl

mutual

/-- **Texts tell values apart**, and what follows them. -/
theorem written_compact_inj (a : Json) {b : Json} {x y : Text} (ha : a.isExact) (hb : b.isExact)
    (hx : x.EndsDigits) (hy : y.EndsDigits)
    (h : written .compact a ++ x = written .compact b ++ y) :
    a.allPaired = b.allPaired ∧ x = y := by
  have same := shape_eq_of_written ha hb h
  cases a with
  | null =>
    obtain rfl := eq_null_of_shape same.symm
    exact ⟨rfl, List.append_cancel_left h⟩
  | bool v =>
    obtain rfl := eq_bool_of_shape same.symm
    exact ⟨rfl, List.append_cancel_left h⟩
  | int n =>
    obtain ⟨m, rfl⟩ := exists_int_of_shape hb same.symm
    obtain ⟨rfl, rest⟩ := ofString_toString_int_inj hx hy h
    exact ⟨rfl, rest⟩
  | float f => cases ha
  | str s =>
    obtain ⟨t, rfl⟩ := exists_str_of_shape same.symm
    obtain ⟨strings, rest⟩ := writtenString_append_inj h
    exact ⟨congrArg Json.str strings, rest⟩
  | arr items =>
    obtain ⟨others, rfl⟩ := exists_arr_of_shape same.symm
    have inner : writtenItems .compact items ++ .char ']' :: x =
        writtenItems .compact others ++ .char ']' :: y := by
      simpa [written, Text.ofString] using h
    obtain ⟨lists, rest⟩ := writtenItems_compact_inj items ha hb inner
    exact ⟨congrArg Json.arr lists, rest⟩
  | obj fields =>
    obtain ⟨others, rfl⟩ := exists_obj_of_shape same.symm
    have inner : writtenFields .compact fields ++ .char '\x7d' :: x =
        writtenFields .compact others ++ .char '\x7d' :: y := by
      simpa [written, Text.ofString] using h
    obtain ⟨lists, rest⟩ := writtenFields_compact_inj fields ha hb inner
    exact ⟨congrArg Json.obj lists, rest⟩

theorem writtenItems_compact_inj (items : List Json) {others : List Json} {x y : Text}
    (ha : exactItems items) (hb : exactItems others)
    (h : writtenItems .compact items ++ .char ']' :: x =
      writtenItems .compact others ++ .char ']' :: y) :
    allPairedItems items = allPairedItems others ∧ x = y := by
  match items, others with
  | [], [] => exact ⟨rfl, (List.cons.inj h).2⟩
  | [], k :: others =>
    -- no value starts with the closing bracket
    rw [exactItems, Bool.and_eq_true] at hb
    rw [writtenItems_cons, List.append_assoc] at h
    obtain ⟨c, r, first, shape⟩ := exists_written_cons .compact hb.1
      (moreItems .compact others ++ .char ']' :: y)
    obtain ⟨rfl, -⟩ := List.cons.inj (h.trans first)
    cases shape
  | j :: items, [] =>
    rw [exactItems, Bool.and_eq_true] at ha
    rw [writtenItems_cons, List.append_assoc] at h
    obtain ⟨c, r, first, shape⟩ := exists_written_cons .compact ha.1
      (moreItems .compact items ++ .char ']' :: x)
    obtain ⟨rfl, -⟩ := List.cons.inj (h.symm.trans first)
    cases shape
  | j :: items, k :: others =>
    rw [exactItems, Bool.and_eq_true] at ha hb
    rw [writtenItems_cons, writtenItems_cons, List.append_assoc, List.append_assoc] at h
    obtain ⟨values, more⟩ := written_compact_inj j ha.1 hb.1 (endsDigits_moreItems items x)
      (endsDigits_moreItems others y) h
    rw [allPairedItems, allPairedItems, values]
    match items, others with
    | [], [] => exact ⟨rfl, (List.cons.inj more).2⟩
    | j' :: items, k' :: others =>
      obtain ⟨lists, rest⟩ := writtenItems_compact_inj (j' :: items) ha.2 hb.2
        (List.cons.inj more).2
      exact ⟨by rw [lists], rest⟩

theorem writtenFields_compact_inj (fields : Fields) {others : Fields} {x y : Text}
    (ha : exactFields fields) (hb : exactFields others)
    (h : writtenFields .compact fields ++ .char '\x7d' :: x =
      writtenFields .compact others ++ .char '\x7d' :: y) :
    allPairedFields fields = allPairedFields others ∧ x = y := by
  match fields, others with
  | [], [] => exact ⟨rfl, (List.cons.inj h).2⟩
  | [], (k, v) :: others =>
    rw [writtenFields_cons] at h
    cases (List.cons.inj h).1
  | (k, v) :: fields, [] =>
    rw [writtenFields_cons] at h
    cases (List.cons.inj h).1
  | (k, v) :: fields, (k', v') :: others =>
    rw [exactFields, Bool.and_eq_true] at ha hb
    simp only [writtenFields_cons, List.append_assoc] at h
    obtain ⟨names, behind⟩ := writtenString_append_inj h
    obtain ⟨values, more⟩ := written_compact_inj v ha.1 hb.1 (endsDigits_moreFields fields x)
      (endsDigits_moreFields others y) (List.append_cancel_left behind)
    rw [allPairedFields, allPairedFields, names, values]
    match fields, others with
    | [], [] => exact ⟨rfl, (List.cons.inj more).2⟩
    | f :: fields, g :: others =>
      obtain ⟨lists, rest⟩ := writtenFields_compact_inj (f :: fields) ha.2 hb.2
        (List.cons.inj more).2
      exact ⟨by rw [lists], rest⟩

end

mutual

/-- Pairing halves does not change how a value is written. -/
theorem written_allPaired (l : Layout) (j : Json) : written l j.allPaired = written l j := by
  cases j with
  | str s => exact writtenString_paired s
  | arr items => rw [allPaired, written, written, writtenItems_allPaired l items]
  | obj fields => rw [allPaired, written, written, writtenFields_allPaired l fields]
  | _ => rfl

theorem writtenItems_allPaired (l : Layout) (items : List Json) :
    writtenItems l (allPairedItems items) = writtenItems l items := by
  match items with
  | [] => rfl
  | [j] => rw [allPairedItems, allPairedItems, writtenItems, writtenItems, written_allPaired l j]
  | j :: k :: rest =>
    have others := writtenItems_allPaired l (k :: rest)
    rw [allPairedItems] at others
    rw [allPairedItems, allPairedItems, writtenItems_cons_cons, others, written_allPaired l j,
      writtenItems_cons_cons]

theorem writtenFields_allPaired (l : Layout) (fields : Fields) :
    writtenFields l (allPairedFields fields) = writtenFields l fields := by
  match fields with
  | [] => rfl
  | [(k, j)] =>
    rw [allPairedFields, allPairedFields, writtenFields, writtenFields, writtenString_paired,
      written_allPaired l j]
  | (k, j) :: (k', j') :: rest =>
    have others := writtenFields_allPaired l ((k', j') :: rest)
    rw [allPairedFields] at others
    rw [allPairedFields, allPairedFields, writtenFields_cons_cons, others, writtenString_paired,
      written_allPaired l j, writtenFields_cons_cons]

end

/-- **Canonical texts are equal** exactly if the values are, up to the order of fields and to halves
that make a pair. -/
theorem canonical_eq_iff {a b : Json} (ha : a.sorted.isExact) (hb : b.sorted.isExact) :
    a.canonical = b.canonical ↔ a.sorted.allPaired = b.sorted.allPaired := by
  rw [canonical, canonical]
  constructor
  · intro h
    have ends : Text.EndsDigits [] := fun c hc => by cases hc
    exact (written_compact_inj a.sorted ha hb ends ends (by rw [h])).1
  · intro h
    rw [← written_allPaired, h, written_allPaired]

end Json

end Componentry
