import Componentry.Proofs.Files.Basename
import Componentry.Proofs.Files.Tree

/-!
# Addresses of paths

Files are stored under names that are bytes, so two texts may name one file. The address of a path
is where it leads by the bytes of the names on the way, `..` taking one step up. Paths of different
addresses lead to different locations.
-/

namespace Componentry

namespace Text

theorem splitOn_of_not_mem {c : CodePoint} {s : Text} (h : c ∉ s) : splitOn c s = [s] := by
  rcases splitOn_cases c s with ⟨-, split⟩ | ⟨first, rest, -, rfl, -⟩
  · exact split
  · exact absurd (by simp) h

/-- The pieces before a separator and those after it. -/
theorem splitOn_append_cons (c : CodePoint) (a s : Text) :
    splitOn c (a ++ c :: s) = splitOn c a ++ splitOn c s := by
  induction a with
  | nil => exact splitOn_cons_self s
  | cons x a ih =>
    by_cases h : x = c
    · subst h
      rw [List.cons_append, splitOn_cons_self, splitOn_cons_self, ih, List.cons_append]
    · obtain ⟨first, rest, split⟩ := exists_splitOn_eq_cons c a
      rw [List.cons_append, splitOn, if_neg h, splitOn, if_neg h, ih, split]
      rfl

end Text

/-! ## Bytes of names -/

theorem nameBytes_append (a b : Text) : nameBytes (a ++ b) = nameBytes a ++ nameBytes b :=
  List.flatMap_append

theorem nameBytes_cons (c : CodePoint) (s : Text) :
    nameBytes (c :: s) = nameBytes [c] ++ nameBytes s :=
  nameBytes_append [c] s

/-- The name of a text without halves has the bytes of the text. -/
theorem nameBytes_chars (cs : List Char) :
    nameBytes (cs.map .char) = cs.flatMap String.utf8EncodeChar := by
  rw [← bytes_chars, Text.bytes, nameBytes, List.flatMap_map, List.flatMap_map]
  rfl

/-- A half that stands for a byte is that byte in a name. -/
theorem nameBytes_ofRawByte {a : UInt8} (high : 0x80 ≤ a.toNat) : nameBytes [ofRawByte a] = [a] := by
  have bound := a.toNat_lt
  have half : ofRawByte a = .half ⟨0x400 + a.toNat, by omega⟩ := by
    have place : 0xDC00 + a.toNat - CodePoint.firstHalf = 0x400 + a.toNat := by
      show 0xDC00 + a.toNat - 0xD800 = _
      omega
    have inside : 0xDC00 + a.toNat - CodePoint.firstHalf < 2048 ∧
        CodePoint.firstHalf ≤ 0xDC00 + a.toNat := by
      rw [place]
      show _ ∧ 0xD800 ≤ _
      omega
    rw [ofRawByte, CodePoint.ofNat, dif_pos inside]
    exact congrArg CodePoint.half (Fin.ext place)
  have byte : rawByte? (ofRawByte a) = some a := by
    rw [half, rawByte?, if_pos (by simp; omega)]
    simp
  simp [nameBytes, byte]

/-- What is read of bytes has these bytes as a name. -/
theorem nameBytes_of_decodeUtf8 {bytes : List UInt8} {s : Text}
    (h : decodeUtf8 ⟨bytes.toArray⟩ = .ok s) : nameBytes s = bytes := by
  rw [decodeUtf8, String.fromUTF8?] at h
  split at h
  next string read =>
    split at read
    next valid =>
      obtain rfl := Option.some.inj read
      obtain rfl := Except.ok.inj h
      have data : (List.utf8Encode (String.fromUTF8 ⟨bytes.toArray⟩ valid).toList) =
          ⟨bytes.toArray⟩ := by
        rw [← String.toByteArray_ofList, String.ofList_toList]
        rfl
      have list := congrArg (fun b : ByteArray => b.data.toList) data
      rw [Text.ofString, nameBytes_chars]
      simpa [List.utf8Encode, List.data_toByteArray] using list
    next => cases read
  next => cases h

/-- A byte below 0x80 is a character of its own. -/
theorem decodeUtf8_low {a : UInt8} (low : a.toNat < 0x80) :
    decodeUtf8 ⟨#[a]⟩ = .ok [.char (.ofNat a.toNat)] := by
  have whole : ∀ c ∈ [CodePoint.char (.ofNat a.toNat)], c.isHalf = false := by simp [CodePoint.isHalf]
  have value : (Char.ofNat a.toNat).val.toNat = a.toNat := by
    have valid : a.toNat.isValidChar := by
      left
      omega
    have char : Char.ofNat a.toNat = Char.ofNatAux a.toNat valid := dif_pos valid
    rw [char]
    rfl
  have bytes : Text.bytes [CodePoint.char (.ofNat a.toNat)] = [a] := by
    have encoded : String.utf8EncodeChar (.ofNat a.toNat) = [a] := by
      rw [String.utf8EncodeChar]
      simp only [value]
      rw [if_pos (by omega)]
      simp
    simp [Text.bytes, CodePoint.bytes_char, encoded]
  have read := decodeUtf8_bytes whole
  rwa [bytes] at read

theorem characterWidth_pos {a : UInt8} {rest : List UInt8}
    (h : (characterFault 0 (a :: rest)).isNone) : 0 < characterWidth a := by
  refine Nat.pos_of_ne_zero fun zero => ?_
  simp [characterFault, zero] at h

theorem characterWidth_low {a : UInt8} (low : a.toNat < 0x80) : characterWidth a = 1 :=
  if_pos (UInt8.lt_iff_toNat_lt.mpr low)

/-- The text that shows bytes is a name with these bytes. -/
theorem nameBytes_nameOfBytes {fuel : Nat} {bytes : List UInt8} (h : bytes.length ≤ fuel) :
    nameBytes (nameOfBytes fuel bytes) = bytes := by
  induction fuel generalizing bytes with
  | zero =>
    obtain rfl : bytes = [] := List.length_eq_zero_iff.mp (Nat.le_zero.mp h)
    rfl
  | succ fuel ih =>
    cases bytes with
    | nil => rfl
    | cons a rest =>
      have shorter : rest.length ≤ fuel := by simpa using h
      rw [nameOfBytes]
      generalize hwidth : (if (characterFault 0 (a :: rest)).isNone then characterWidth a else 1) =
        width
      split
      next c read =>
        have positive : 0 < width := by
          rw [← hwidth]
          split
          next complete => exact characterWidth_pos complete
          next => exact Nat.one_pos
        rw [nameBytes_append, nameBytes_of_decodeUtf8 read, ih (by simp; omega)]
        obtain ⟨more, rfl⟩ := Nat.exists_eq_succ_of_ne_zero positive.ne'
        simp
      next e failed =>
        -- a low byte would have been read as a character
        have high : 0x80 ≤ a.toNat := by
          refine Nat.le_of_not_lt fun low => ?_
          obtain rfl : width = 1 := by rw [← hwidth, characterWidth_low low, ite_self]
          rw [List.take_succ_cons, List.take_zero, decodeUtf8_low low] at failed
          cases failed
        rw [nameBytes_cons, nameBytes_ofRawByte high, ih shorter]
        rfl

/-- **A name is stored with its own bytes.** -/
@[simp] theorem nameBytes_storedName (s : Text) : nameBytes (storedName s) = nameBytes s := by
  rw [storedName]
  split
  · exact nameBytes_nameOfBytes (Nat.le_refl _)
  · rfl

/-! ## Addresses -/

namespace Path

/-- One name further from an address. -/
def onward (address : List (List UInt8)) (n : Text) : List (List UInt8) :=
  if n = ".." then address.dropLast else address ++ [nameBytes n]

/-- Where the path leads, if it leads anywhere, by the bytes of names. -/
def address (p : Path) : List (List UInt8) := p.names.foldl onward []

/-- The location of a path has the names of its address. -/
theorem address_eq_map_location (p : Path) : p.address = p.location.map nameBytes := by
  have along (names : List Text) (loc : Location) :
      names.foldl onward (loc.map nameBytes) = (names.foldl further loc).map nameBytes := by
    induction names generalizing loc with
    | nil => rfl
    | cons n rest ih =>
      rw [List.foldl_cons, List.foldl_cons, ← ih, onward, further]
      split <;> simp
  exact along p.names []

theorem address_eq_of_location_eq {p q : Path} (h : p.location = q.location) :
    p.address = q.address := by
  rw [address_eq_map_location, address_eq_map_location, h]

theorem address_of_names {p q : Path} {n : Text} (h : p.names = q.names ++ [n]) (up : n ≠ "..") :
    p.address = q.address ++ [nameBytes n] := by
  rw [address, h, List.foldl_append, List.foldl_cons, List.foldl_nil, onward, if_neg up]
  rfl

/-- Names that do not lead up lead further on. -/
theorem address_join {dir q : Path} (relative : q.absolute = false) (up : ∀ n ∈ q.names, n ≠ "..") :
    (dir.join q).address = dir.address ++ q.names.map nameBytes := by
  have along (names : List Text) (start : List (List UInt8)) (up : ∀ n ∈ names, n ≠ "..") :
      names.foldl onward start = start ++ names.map nameBytes := by
    induction names generalizing start with
    | nil => simp
    | cons n rest ih =>
      obtain ⟨here, later⟩ := List.forall_mem_cons.mp up
      rw [List.foldl_cons, onward, if_neg here, ih _ later]
      simp
  have names : (dir.join q).names = dir.names ++ q.names := by simp [join, relative]
  rw [address, names, List.foldl_append, along q.names _ up]
  rfl

/-! ## Paths that are read -/

/-- Is this the name of a file? -/
structure IsName (n : Text) : Prop where
  nonempty : n ≠ ""
  here : n ≠ "."
  up : n ≠ ".."
  single : .char '/' ∉ n

instance (n : Text) : Decidable (IsName n) :=
  decidable_of_iff (n ≠ "" ∧ n ≠ "." ∧ n ≠ ".." ∧ .char '/' ∉ n)
    ⟨fun ⟨nonempty, here, up, single⟩ => ⟨nonempty, here, up, single⟩,
      fun h => ⟨h.nonempty, h.here, h.up, h.single⟩⟩

/-- A text that ends in more than dots is a name. -/
theorem IsName.append {last ending : Text} (hlast : .char '/' ∉ last) (hending : .char '/' ∉ ending)
    (solid : ∃ c ∈ ending, c ≠ .char '.') : IsName (last ++ ending) := by
  obtain ⟨c, hc, other⟩ := solid
  have mem : c ∈ last ++ ending := List.mem_append_right last hc
  have dots {n : Text} (all : ∀ d ∈ n, d = .char '.') : last ++ ending ≠ n :=
    fun same => other (all c (same ▸ mem))
  exact ⟨dots (by decide), dots (by decide), dots (by decide),
    fun slash => (List.mem_append.mp slash).elim hlast hending⟩

/-- Does a text end where a name can begin? -/
def EndsDir (front : Text) : Prop := ∀ c ∈ front.getLast?, c = .char '/'

theorem names_ofText (s : Text) :
    (ofText s).names = (Text.splitOn '/' s).filter fun (n : Text) => n != "" && n != "." := rfl

theorem startsWith_append {slashes front name : Text} (all : ∀ c ∈ slashes, c = .char '/')
    (single : .char '/' ∉ name) :
    Text.startsWith slashes (front ++ name) = Text.startsWith slashes front := by
  induction slashes generalizing front with
  | nil => rfl
  | cons c slashes ih =>
    obtain ⟨rfl, others⟩ := List.forall_mem_cons.mp all
    cases front with
    | nil =>
      cases name with
      | nil => rfl
      | cons d name =>
        have other : CodePoint.char '/' ≠ d := fun same => single (same ▸ List.mem_cons_self ..)
        simp [Text.startsWith, Text.after?, other]
    | cons d front =>
      by_cases same : CodePoint.char '/' = d
      · simpa [Text.startsWith, Text.after?, same] using ih others
      · simp [Text.startsWith, Text.after?, same]

/-- **A name behind a slash is the last name of the path.** -/
theorem ofText_append {front name : Text} (hfront : EndsDir front) (hname : IsName name) :
    ofText (front ++ name) = { ofText front with names := (ofText front).names ++ [name] } := by
  have whole : Text.splitOn '/' name = [name] := Text.splitOn_of_not_mem hname.single
  have kept : [name].filter (fun (n : Text) => n != "" && n != ".") = [name] := by
    simp [hname.nonempty, hname.here]
  have dropped : [([] : Text)].filter (fun (n : Text) => n != "" && n != ".") = [] := rfl
  have names : (ofText (front ++ name)).names = (ofText front).names ++ [name] := by
    rw [names_ofText, names_ofText]
    rcases List.eq_nil_or_concat front with rfl | ⟨init, c, rfl⟩
    · rw [List.nil_append, whole, kept]
      rfl
    · obtain rfl : c = .char '/' := hfront c (by simp)
      rw [List.concat_eq_append, List.append_assoc, List.singleton_append,
        Text.splitOn_append_cons, Text.splitOn_append_cons, whole, List.filter_append,
        List.filter_append, kept, Text.splitOn_nil, dropped, List.append_nil]
  have absolute : (ofText (front ++ name)).absolute = (ofText front).absolute := by
    show ((front ++ name).head? == some (.char '/')) = (front.head? == some (.char '/'))
    cases front with
    | nil =>
      cases name with
      | nil => rfl
      | cons d name =>
        have other : d ≠ .char '/' := fun same => hname.single (same ▸ List.mem_cons_self ..)
        simp [other]
    | cons d front => rfl
  have doubled : (ofText (front ++ name)).doubled = (ofText front).doubled := by
    show (Text.startsWith "//" (front ++ name) && !Text.startsWith "///" (front ++ name)) = _
    rw [startsWith_append (by decide) hname.single, startsWith_append (by decide) hname.single]
    rfl
  calc ofText (front ++ name)
    _ = ⟨(ofText (front ++ name)).absolute, (ofText (front ++ name)).names,
        (ofText (front ++ name)).doubled⟩ := rfl
    _ = { ofText front with names := (ofText front).names ++ [name] } := by
        rw [absolute, names, doubled]

/-- What is seen from a directory by a name behind a slash. -/
theorem child_append {dir : Path} {front name : Text} (hfront : EndsDir front) (hname : IsName name) :
    (dir.child (front ++ name)).names = (dir.child front).names ++ [name] := by
  simp only [child, join, ofText_append hfront hname]
  split
  · rfl
  · exact (List.append_assoc ..).symm

/-- A file seen from a directory has an address in the directory that it is in. -/
theorem address_child_append {dir : Path} {front name : Text} (hfront : EndsDir front)
    (hname : IsName name) :
    (dir.child (front ++ name)).address = (dir.child front).address ++ [nameBytes name] :=
  address_of_names (child_append hfront hname) hname.up

/-- The path with more at the end of its last name. -/
def extended (p : Path) (ending : Text) : Path :=
  { p with names := p.names.dropLast ++ [p.name ++ ending] }

theorem extended_of_names {p q : Path} {n ending : Text} (h : p.names = q.names ++ [n]) :
    (p.extended ending).names = q.names ++ [n ++ ending] := by
  simp [extended, name, h]

theorem renamed_eq_extended {p : Path} {ending : Text} (nonempty : p.names ≠ [])
    (hname : IsName (p.name ++ ending)) : p.renamed (p.name ++ ending) = .ok (p.extended ending) := by
  have single : Text.has (p.name ++ ending) '/' = false := by
    simpa [Text.has] using hname.single
  simp [renamed, withName?, nonempty, hname.nonempty, hname.here, single, extended]

end Path

end Componentry
