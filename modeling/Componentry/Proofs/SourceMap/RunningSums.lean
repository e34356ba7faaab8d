import Componentry.Proofs.SourceMap.Contents
import Componentry.Proofs.SourceMap.Nearest

/-!
# Running sums

The numbers in a mappings text are changes: what a segment says of its source, its place there and
its name are the sums of all changes up to it, and its generated column is the sum of those on its
own line. A sum that says which source or which name must not reach the number of these. It may go
below zero by as much, and then counts from the end; places may lie anywhere. So a map that is read
says what its sums say exactly if none of them ever is below zero.
-/

namespace Componentry.SourceMap

theorem bind_eq_ok_iff {ε α β : Type} {x : Except ε α} {f : α → Except ε β} {b : β} :
    x >>= f = .ok b ↔ ∃ a, x = .ok a ∧ f a = .ok b := by
  refine ⟨exists_of_bind_ok, ?_⟩
  rintro ⟨a, rfl, h⟩
  exact h

theorem converted_eq_ok_iff {α : Type} {r : Except Json.ConversionError α} {a : α} :
    converted r = .ok a ↔ r = .ok a := by
  refine ⟨ok_of_converted, ?_⟩
  rintro rfl
  rfl

/-! ## Changes -/

/-- The numbers of a segment, on its generated line. -/
structure Delta where
  line : Int
  numbers : List Int

/-- The segments of lines with the numbers of these, the first being `line`, in the order in which
they are written. Empty ones are none. -/
def wordsFrom (line : Int) : List Text → List (Int × Text)
  | [] => []
  | text :: rest =>
    ((Text.splitOn ',' text).filter fun word => word ≠ []).map (Prod.mk line) ++
      wordsFrom (line + 1) rest

/-- The segments of a mappings text with their lines. -/
def wordsOf (text : Text) : List (Int × Text) := wordsFrom 1 (Text.splitOn ';' text)

/-- Does the segment spell the change? It has one, four or five numbers. -/
structure Spells (word : Int × Text) (c : Delta) : Prop where
  line : c.line = word.1
  numbers : Vlq.decodeSegment word.2 = .ok c.numbers
  length : c.numbers.length = 1 ∨ c.numbers.length = 4 ∨ c.numbers.length = 5

/-- The sum of the numbers at a place in changes; a number that is not there changes nothing. -/
def total (place : Nat) (cs : List Delta) : Int := (cs.map fun c => c.numbers.getD place 0).sum

/-- The sum of the changes to the generated column of a line. -/
def columnOn (line : Int) (cs : List Delta) : Int := total 0 (cs.filter fun c => c.line = line)

theorem total_append (place : Nat) (cs : List Delta) (c : Delta) :
    total place (cs ++ [c]) = total place cs + c.numbers.getD place 0 := by
  simp [total]

theorem columnOn_append (cs : List Delta) (c : Delta) :
    columnOn c.line (cs ++ [c]) = columnOn c.line cs + c.numbers.getD 0 0 := by
  simp [columnOn, total]

theorem columnOn_eq_zero {line : Int} {cs : List Delta} (h : ∀ c ∈ cs, c.line < line) :
    columnOn line cs = 0 := by
  have none_ : cs.filter (fun c => c.line = line) = [] := by
    refine List.filter_eq_nil_iff.mpr fun c hc => ?_
    have := h c hc
    simp
    omega
  rw [columnOn, none_]
  rfl

/-! ## Mappings -/

/-- Is `x` the item that a sum means? A sum below zero counts from the end of the list. -/
structure IsAt {α : Type} (xs : List α) (sum : Int) (x : α) : Prop where
  lower : -xs.length ≤ sum
  upper : sum < xs.length
  item : xs[(sum % xs.length).toNat]? = some x

/-- The sums of the changes to a source, a line and a column there, and a name. -/
def tallyOf (cs : List Delta) : Tally := ⟨total 1 cs, total 2 cs, total 3 cs, total 4 cs⟩

/-- What a segment means, given its generated column and the sums up to it. -/
inductive Means (sources names : List Text) (column : Int) (t : Tally) (c : Delta) : Mapping → Prop
  | bare (length : c.numbers.length = 1) :
    Means sources names column t c ⟨⟨c.line, column⟩, none, none⟩
  | sourced {source : Text} (length : c.numbers.length = 4)
      (isSource : IsAt sources t.source source) :
    Means sources names column t c
      ⟨⟨c.line, column⟩, some ⟨source, ⟨t.line + 1, t.column⟩⟩, none⟩
  | named {source name : Text} (length : c.numbers.length = 5)
      (isSource : IsAt sources t.source source) (isName : IsAt names t.name name) :
    Means sources names column t c
      ⟨⟨c.line, column⟩, some ⟨source, ⟨t.line + 1, t.column⟩⟩, some name⟩

/-- Do the mappings say what the changes mean, each by the sums of all up to it? -/
inductive Follow (sources names : List Text) : List Delta → List Delta → List Mapping → Prop
  | nil (before : List Delta) : Follow sources names before [] []
  | cons {before cs : List Delta} {c : Delta} {m : Mapping} {ms : List Mapping}
      (means : Means sources names (columnOn c.line (before ++ [c])) (tallyOf (before ++ [c])) c m)
      (follow : Follow sources names (before ++ [c]) cs ms) :
    Follow sources names before (c :: cs) (m :: ms)

section Reading

variable {sources names : List Text}

theorem tallied_eq_ok_iff {α : Type} {xs : List α} {i : Int} {x : α} :
    tallied xs i = .ok x ↔ IsAt xs i x := by
  have found : tallied xs i = .ok x ↔ itemAt? xs i = some x := by
    rw [tallied]
    cases itemAt? xs i with
    | none => simp
    | some y => simp
  rw [found, itemAt?]
  constructor
  · intro h
    split at h
    next nonneg =>
      obtain ⟨bound, -⟩ := List.getElem?_eq_some_iff.mp h
      have place : i % xs.length = i := Int.emod_eq_of_lt nonneg (by omega)
      exact ⟨by omega, by omega, by rw [place, h]⟩
    next neg =>
      split at h
      next bound =>
        have place : i % xs.length = i + xs.length := by
          rw [← Int.add_emod_right, Int.emod_eq_of_lt (by omega) (by omega)]
        refine ⟨by omega, by omega, ?_⟩
        rw [place, show (i + xs.length).toNat = xs.length - i.natAbs by omega, h]
      next => cases h
  · rintro ⟨lower, upper, item⟩
    by_cases nonneg : 0 ≤ i
    · rw [if_pos nonneg]
      rwa [Int.emod_eq_of_lt nonneg upper] at item
    · rw [if_neg nonneg, if_pos (by omega)]
      rw [← Int.add_emod_right, Int.emod_eq_of_lt (by omega) (by omega)] at item
      rwa [show xs.length - i.natAbs = (i + xs.length).toNat by omega]

/-- The sums with one more change. -/
def Tally.add (t : Tally) (c : Delta) : Tally :=
  ⟨t.source + c.numbers.getD 1 0, t.line + c.numbers.getD 2 0, t.column + c.numbers.getD 3 0,
    t.name + c.numbers.getD 4 0⟩

theorem tallyOf_append (cs : List Delta) (c : Delta) :
    tallyOf (cs ++ [c]) = (tallyOf cs).add c := by
  simp only [tallyOf, total_append, Tally.add]

/-- **One segment** is read exactly if it spells a change that means something. -/
theorem readSegment_eq_ok_iff {line column : Int} {t t' : Tally} {text : Text} {m : Mapping} :
    readSegment sources names line column t text = .ok (m, t') ↔
      ∃ c, Spells (line, text) c ∧
        Means sources names (column + c.numbers.getD 0 0) (t.add c) c m ∧ t' = t.add c := by
  rw [readSegment, bind_eq_ok_iff]
  constructor
  · rintro ⟨numbers, decoded, h⟩
    refine ⟨⟨line, numbers⟩, ?_⟩
    split at h
    next c =>
      obtain ⟨rfl, rfl⟩ := Prod.mk.inj (Except.ok.inj h)
      exact ⟨⟨rfl, decoded, .inl rfl⟩, .bare rfl, by simp [Tally.add]⟩
    next c s l k =>
      obtain ⟨source, found, h⟩ := exists_of_bind_ok h
      obtain ⟨rfl, rfl⟩ := Prod.mk.inj (Except.ok.inj h)
      exact ⟨⟨rfl, decoded, .inr (.inl rfl)⟩, .sourced rfl (tallied_eq_ok_iff.mp found),
        by simp [Tally.add]⟩
    next c s l k n =>
      obtain ⟨name, named, h⟩ := exists_of_bind_ok h
      obtain ⟨source, found, h⟩ := exists_of_bind_ok h
      obtain ⟨rfl, rfl⟩ := Prod.mk.inj (Except.ok.inj h)
      exact ⟨⟨rfl, decoded, .inr (.inr rfl)⟩,
        .named rfl (tallied_eq_ok_iff.mp found) (tallied_eq_ok_iff.mp named), rfl⟩
    next => cases h
  · rintro ⟨⟨_, numbers⟩, ⟨rfl, decoded, -⟩, means, rfl⟩
    refine ⟨numbers, decoded, ?_⟩
    cases means with
    | bare length =>
      obtain ⟨c, rfl⟩ := List.length_eq_one_iff.mp length
      simp [Tally.add, pure, Except.pure]
    | sourced length isSource =>
      obtain ⟨c, s, l, k, rfl⟩ := List.length_eq_four.mp length
      have found : tallied sources (t.source + s) = _ := tallied_eq_ok_iff.mpr isSource
      simp [found, Tally.add, bind, Except.bind, pure, Except.pure]
    | named length isSource isName =>
      obtain ⟨c, rest, rfl⟩ := List.exists_cons_of_length_eq_add_one length
      obtain ⟨s, l, k, n, rfl⟩ := List.length_eq_four.mp (Nat.succ.inj length)
      have found : tallied sources (t.source + s) = _ := tallied_eq_ok_iff.mpr isSource
      have called : tallied names (t.name + n) = _ := tallied_eq_ok_iff.mpr isName
      simp [found, called, Tally.add, bind, Except.bind, pure, Except.pure]

theorem Means.column {column : Int} {t : Tally} {c : Delta} {m : Mapping}
    (h : Means sources names column t c m) : m.generated.column = column := by
  cases h <;> rfl

/-- **One line** is read exactly if its segments spell changes that mean something. -/
theorem readLine_eq_ok_iff {before : List Delta} {line : Int} {texts : List Text}
    {ms : List Mapping} {t : Tally} :
    readLine sources names line (columnOn line before) (tallyOf before) texts = .ok (ms, t) ↔
      ∃ cs, List.Forall₂ Spells ((texts.filter fun word => word ≠ []).map (Prod.mk line)) cs ∧
        Follow sources names before cs ms ∧ t = tallyOf (before ++ cs) := by
  induction texts generalizing before ms t with
  | nil =>
    rw [readLine]
    constructor
    · intro h
      obtain ⟨rfl, rfl⟩ := Prod.mk.inj (Except.ok.inj h)
      exact ⟨[], .nil, .nil before, by rw [List.append_nil]⟩
    · rintro ⟨cs, spelled, follow, rfl⟩
      cases spelled
      cases follow
      rw [List.append_nil]
  | cons text texts ih =>
    rw [readLine]
    by_cases empty : text = []
    · rw [if_pos (by simp [empty]), ih, List.filter_cons_of_neg (by simp [empty])]
    · rw [if_neg (by simp [empty]), List.filter_cons_of_pos (by simp [empty]), List.map_cons]
      constructor
      · intro h
        obtain ⟨⟨m, t₁⟩, first, h⟩ := exists_of_bind_ok h
        obtain ⟨⟨rest, t₂⟩, more, h⟩ := exists_of_bind_ok h
        obtain ⟨rfl, rfl⟩ := Prod.mk.inj (Except.ok.inj h)
        obtain ⟨c, spells, means, rfl⟩ := readSegment_eq_ok_iff.mp first
        obtain rfl : c.line = line := spells.line
        rw [← columnOn_append, ← tallyOf_append] at means
        rw [means.column, ← tallyOf_append] at more
        obtain ⟨cs, spelled, follow, rfl⟩ := ih.mp more
        exact ⟨c :: cs, .cons spells spelled, .cons means follow, by simp⟩
      · rintro ⟨cs, spelled, follow, rfl⟩
        cases spelled with
        | @cons _ c _ cs spells spelled =>
          cases follow with
          | @cons _ _ _ m ms means follow =>
            obtain rfl : c.line = line := spells.line
            have more := ih.mpr ⟨cs, spelled, follow, rfl⟩
            rw [← means.column] at more
            have first := readSegment_eq_ok_iff.mpr
              ⟨c, spells, by rwa [columnOn_append, tallyOf_append] at means, (tallyOf_append before c)⟩
            refine bind_eq_ok_iff.mpr ⟨_, first, bind_eq_ok_iff.mpr ⟨_, more, ?_⟩⟩
            simp [pure, Except.pure]

theorem Follow.append {before cs cs' : List Delta} {ms ms' : List Mapping}
    (h : Follow sources names before cs ms) (h' : Follow sources names (before ++ cs) cs' ms') :
    Follow sources names before (cs ++ cs') (ms ++ ms') := by
  induction h with
  | nil before => rwa [List.append_nil] at h'
  | cons means _ ih => exact .cons means (ih (by rwa [List.append_assoc]))

theorem Follow.exists_of_append {before cs cs' : List Delta} {ms : List Mapping}
    (h : Follow sources names before (cs ++ cs') ms) :
    ∃ front back, ms = front ++ back ∧ Follow sources names before cs front ∧
      Follow sources names (before ++ cs) cs' back := by
  induction cs generalizing before ms with
  | nil => exact ⟨[], ms, rfl, .nil before, by rwa [List.append_nil]⟩
  | cons c cs ih =>
    cases h with
    | @cons _ _ _ m ms means follow =>
      obtain ⟨front, back, rfl, follow, rest⟩ := ih follow
      exact ⟨m :: front, back, rfl, .cons means follow, by rwa [List.append_assoc] at rest⟩

theorem exists_of_forall₂_append {α β : Type} {R : α → β → Prop} {xs ys : List α} {zs : List β}
    (h : List.Forall₂ R (xs ++ ys) zs) :
    ∃ front back, zs = front ++ back ∧ List.Forall₂ R xs front ∧ List.Forall₂ R ys back :=
  ⟨zs.take xs.length, zs.drop xs.length, (List.take_append_drop ..).symm,
    (List.forall₂_take_append zs xs ys h.flip).flip, (List.forall₂_drop_append zs xs ys h.flip).flip⟩

theorem line_of_forall₂ {line : Int} {words : List Text} {cs : List Delta}
    (h : List.Forall₂ Spells (words.map (Prod.mk line)) cs) : ∀ c ∈ cs, c.line = line := by
  induction words generalizing cs with
  | nil =>
    cases h
    simp
  | cons word words ih =>
    cases h with
    | cons spells rest => exact List.forall_mem_cons.mpr ⟨spells.line, ih rest⟩

/-- **All lines** are read exactly if their segments spell changes that mean something. -/
theorem readLines_eq_ok_iff {before : List Delta} {line : Int} {texts : List Text}
    {ms : List Mapping} (earlier : ∀ c ∈ before, c.line < line) :
    readLines sources names line (tallyOf before) texts = .ok ms ↔
      ∃ cs, List.Forall₂ Spells (wordsFrom line texts) cs ∧ Follow sources names before cs ms := by
  induction texts generalizing before line ms with
  | nil =>
    rw [readLines]
    constructor
    · intro h
      obtain rfl := Except.ok.inj h
      exact ⟨[], .nil, .nil before⟩
    · rintro ⟨cs, spelled, follow⟩
      cases spelled
      cases follow
      rfl
  | cons text texts ih =>
    -- a new line starts at column zero, for no change before it is on it
    rw [readLines, ← columnOn_eq_zero earlier, wordsFrom]
    have later {cs : List Delta} (h : List.Forall₂ Spells
        (((Text.splitOn ',' text).filter fun word => word ≠ []).map (Prod.mk line)) cs) :
        ∀ c ∈ before ++ cs, c.line < line + 1 := by
      refine List.forall_mem_append.mpr ⟨fun c hc => ?_, fun c hc => ?_⟩
      · have := earlier c hc
        omega
      · have := line_of_forall₂ h c hc
        omega
    constructor
    · intro h
      obtain ⟨⟨own, t⟩, first, h⟩ := exists_of_bind_ok h
      obtain ⟨more, rest, h⟩ := exists_of_bind_ok h
      obtain rfl := Except.ok.inj h
      obtain ⟨cs, spelled, follow, rfl⟩ := readLine_eq_ok_iff.mp first
      obtain ⟨cs', spelled', follow'⟩ := (ih (later spelled)).mp rest
      exact ⟨cs ++ cs', List.rel_append spelled spelled', follow.append follow'⟩
    · rintro ⟨cs, spelled, follow⟩
      obtain ⟨own, rest, rfl, spelled, spelled'⟩ := exists_of_forall₂_append spelled
      obtain ⟨front, back, rfl, follow, follow'⟩ := follow.exists_of_append
      have first := readLine_eq_ok_iff.mpr ⟨own, spelled, follow, rfl⟩
      have more := (ih (later spelled)).mpr ⟨rest, spelled', follow'⟩
      exact bind_eq_ok_iff.mpr ⟨_, first, bind_eq_ok_iff.mpr ⟨_, more, rfl⟩⟩

/-- Each mapping says what its change means by the sums up to it. -/
theorem Follow.means {before cs : List Delta} {ms : List Mapping}
    (h : Follow sources names before cs ms) {i : Nat} {c : Delta} {m : Mapping}
    (hc : cs[i]? = some c) (hm : ms[i]? = some m) :
    Means sources names (columnOn c.line (before ++ cs.take (i + 1)))
      (tallyOf (before ++ cs.take (i + 1))) c m := by
  induction h generalizing i with
  | nil before => cases hc
  | @cons before cs first m' ms means _ ih =>
    cases i with
    | zero =>
      obtain rfl : first = c := by simpa using hc
      obtain rfl : m' = m := by simpa using hm
      simpa using means
    | succ i =>
      have later := ih (i := i) (by simpa using hc) (by simpa using hm)
      simpa using later

end Reading

/-! ## What is in range -/

/-- Does a mapping lie in range, with the source and the name at its sums? -/
structure Faithful (sources names : List Text) (t : Tally) (m : Mapping) : Prop where
  generated : 0 ≤ m.generated.column
  origin : ∀ o ∈ m.origin, (0 ≤ t.source ∧ t.source < sources.length ∧
    sources[t.source.toNat]? = some o.source) ∧ 1 ≤ o.position.line ∧ 0 ≤ o.position.column
  name : ∀ n ∈ m.name, 0 ≤ t.name ∧ t.name < names.length ∧ names[t.name.toNat]? = some n

/-- Are none of the sums that a change is read by below zero? -/
structure NotBelow (column : Int) (t : Tally) (c : Delta) : Prop where
  column : 0 ≤ column
  sourced : c.numbers.length ≠ 1 → 0 ≤ t.source ∧ 0 ≤ t.line ∧ 0 ≤ t.column
  named : c.numbers.length = 5 → 0 ≤ t.name

theorem IsAt.of_nonneg {α : Type} {xs : List α} {sum : Int} {x : α} (h : IsAt xs sum x)
    (nonneg : 0 ≤ sum) : 0 ≤ sum ∧ sum < xs.length ∧ xs[sum.toNat]? = some x := by
  refine ⟨nonneg, h.upper, ?_⟩
  have item := h.item
  rwa [Int.emod_eq_of_lt nonneg h.upper] at item

/-- **A mapping is faithful exactly if its sums are not below zero.** -/
theorem Means.faithful_iff {sources names : List Text} {column : Int} {t : Tally} {c : Delta}
    {m : Mapping} (h : Means sources names column t c m) :
    Faithful sources names t m ↔ NotBelow column t c := by
  cases h with
  | bare length =>
    constructor
    · rintro ⟨generated, -, -⟩
      exact ⟨generated, fun other => absurd length other, fun five => by omega⟩
    · rintro ⟨generated, -, -⟩
      exact ⟨generated, nofun, nofun⟩
  | sourced length isSource =>
    constructor
    · rintro ⟨generated, origin, -⟩
      obtain ⟨⟨source, -, -⟩, line, column⟩ := origin _ rfl
      dsimp only at line
      exact ⟨generated, fun _ => ⟨source, by omega, column⟩, fun five => by omega⟩
    · rintro ⟨generated, sourced, -⟩
      obtain ⟨source, line, column⟩ := sourced (by omega)
      refine ⟨generated, ?_, nofun⟩
      rintro _ ⟨⟩
      exact ⟨isSource.of_nonneg source, Int.le_add_of_nonneg_left line, column⟩
  | named length isSource isName =>
    constructor
    · rintro ⟨generated, origin, name⟩
      obtain ⟨⟨source, -, -⟩, line, column⟩ := origin _ rfl
      obtain ⟨name, -, -⟩ := name _ rfl
      dsimp only at line
      exact ⟨generated, fun _ => ⟨source, by omega, column⟩, fun _ => name⟩
    · rintro ⟨generated, sourced, named⟩
      obtain ⟨source, line, column⟩ := sourced (by omega)
      refine ⟨generated, ?_, ?_⟩
      · rintro _ ⟨⟩
        exact ⟨isSource.of_nonneg source, Int.le_add_of_nonneg_left line, column⟩
      · rintro _ ⟨⟩
        exact isName.of_nonneg (named length)

/-! ## Maps -/

/-- A field of a map, and `other` if there is nothing in it. -/
def fieldOr (other : Json) (key : Text) (fields : Json.Fields) : Json :=
  ((Json.Fields.get? key fields).getD .null).presentOr other

/-- Does `d` have what the fields of a map say beside its mappings? -/
structure Decoded.Heads (fields : Json.Fields) (d : Decoded) : Prop where
  file : d.file = (Json.Fields.get? "file" fields).getD .null
  sources : ∃ items, (fieldOr (.arr []) "sources" fields).elements = .ok items ∧
    d.sources = items.map fun s => joinRoot (fieldOr (.str "") "sourceRoot" fields).shown s.shown
  names : ∃ items, (fieldOr (.arr []) "names" fields).elements = .ok items ∧
    d.names = items.map Json.shown
  contents : (fieldOr (.arr []) "sourcesContent" fields).elements = .ok d.contents

theorem Decoded.ofFields_eq_ok_iff {fields : Json.Fields} {d : Decoded} :
    ofFields fields = .ok d ↔ d.Heads fields ∧
      readMappings d.sources d.names (mappingsField fields) = .ok d.mappings.toList := by
  constructor
  · intro read
    refine ⟨?_, readMappings_of_ofFields read⟩
    obtain ⟨sources, hsources, read⟩ := exists_of_bind_ok read
    obtain ⟨names, hnames, read⟩ := exists_of_bind_ok read
    obtain ⟨contents, hcontents, read⟩ := exists_of_bind_ok read
    obtain ⟨mappings, -, read⟩ := exists_of_bind_ok read
    obtain rfl := Except.ok.inj read
    exact ⟨rfl, ⟨sources, ok_of_converted hsources, rfl⟩, ⟨names, ok_of_converted hnames, rfl⟩,
      ok_of_converted hcontents⟩
  · obtain ⟨file, sources, names, contents, mappings⟩ := d
    rintro ⟨⟨rfl, ⟨sources, hsources, rfl⟩, ⟨names, hnames, rfl⟩, hcontents⟩, read⟩
    refine bind_eq_ok_iff.mpr ⟨sources, converted_eq_ok_iff.mpr hsources, ?_⟩
    refine bind_eq_ok_iff.mpr ⟨names, converted_eq_ok_iff.mpr hnames, ?_⟩
    refine bind_eq_ok_iff.mpr ⟨contents, converted_eq_ok_iff.mpr hcontents, ?_⟩
    exact bind_eq_ok_iff.mpr ⟨_, read, rfl⟩

theorem readMappings_eq_ok_iff {sources names : List Text} {text : Text} {ms : List Mapping} :
    readMappings sources names text = .ok ms ↔ ∃ cs found,
      List.Forall₂ Spells (wordsOf text) cs ∧ Follow sources names [] cs found ∧
        ms = found.mergeSort fun a b => atOrBefore a.generated b.generated := by
  have lines (found : List Mapping) :
      readLines sources names 1 (tallyOf []) (Text.splitOn ';' text) = .ok found ↔
        ∃ cs, List.Forall₂ Spells (wordsOf text) cs ∧ Follow sources names [] cs found :=
    readLines_eq_ok_iff (by simp)
  rw [readMappings, bind_eq_ok_iff]
  constructor
  · rintro ⟨found, read, h⟩
    obtain ⟨cs, spelled, follow⟩ := (lines found).mp read
    exact ⟨cs, found, spelled, follow, (Except.ok.inj h).symm⟩
  · rintro ⟨cs, found, spelled, follow, rfl⟩
    exact ⟨found, (lines found).mpr ⟨cs, spelled, follow⟩, rfl⟩

/-- **What a map is read as.** It is read exactly if its segments spell changes that mean something:
the sum for a source is less than the number of sources and at least the negative of that, and so
for names. Each segment then says what these sums mean, negative ones counted from the end, and the
mappings are these in order. A mapping has its source and its name at its sums and lies in range
exactly if none of its sums is below zero. -/
theorem Decoded.ofJson_eq_ok_iff {raw : Json} {d : Decoded} :
    ofJson raw = .ok d ↔ ∃ fields, load raw = .ok fields ∧ d.Heads fields ∧ ∃ cs found,
      List.Forall₂ Spells (wordsOf (mappingsField fields)) cs ∧
      Follow d.sources d.names [] cs found ∧
      (d.mappings.toList = found.mergeSort fun a b => atOrBefore a.generated b.generated) ∧
      ∀ i c m, cs[i]? = some c → found[i]? = some m →
        (Faithful d.sources d.names (tallyOf (cs.take (i + 1))) m ↔
          NotBelow (columnOn c.line (cs.take (i + 1))) (tallyOf (cs.take (i + 1))) c) := by
  constructor
  · intro read
    obtain ⟨fields, loaded, read⟩ := exists_load_of_ofJson read
    obtain ⟨heads, read⟩ := ofFields_eq_ok_iff.mp read
    obtain ⟨cs, found, spelled, follow, sorted⟩ := readMappings_eq_ok_iff.mp read
    exact ⟨fields, loaded, heads, cs, found, spelled, follow, sorted,
      fun i c m hc hm => (follow.means hc hm).faithful_iff⟩
  · rintro ⟨fields, loaded, heads, cs, found, spelled, follow, sorted, -⟩
    have read := readMappings_eq_ok_iff.mpr ⟨cs, found, spelled, follow, sorted⟩
    exact bind_eq_ok_iff.mpr ⟨fields, loaded, ofFields_eq_ok_iff.mpr ⟨heads, read⟩⟩

/-- A map whose only segment goes back by one source from the first. -/
def backFromFirst : Json := .obj [("version", .int 3), ("sources", .arr [.str "a", .str "b"]),
  ("names", .arr []), ("mappings", .str "ADAA")]

/-- The segment is taken to be of the last source. -/
theorem ofJson_backFromFirst : Decoded.ofJson backFromFirst =
    .ok ⟨.null, ["a", "b"], [], [], #[⟨⟨1, 0⟩, some ⟨"b", ⟨1, 0⟩⟩, none⟩]⟩ := by
  have read : Decoded.ofJson backFromFirst = .ok ⟨.null, ["a", "b"], [], [],
      (List.mergeSort [⟨⟨1, 0⟩, some ⟨"b", ⟨1, 0⟩⟩, none⟩] fun a b =>
        atOrBefore a.generated b.generated).toArray⟩ := rfl
  rw [read, List.mergeSort_singleton]

end Componentry.SourceMap
