import Componentry.Files.Decode
import Componentry.Files.Encode
import Componentry.Files.Name
import Componentry.Proofs.Text.Order
import Mathlib.Data.List.TakeDrop
import Mathlib.Data.List.TakeWhile
import Mathlib.Tactic.SplitIfs

/-!
# Texts as bytes and back

A text without halves has bytes, and its bytes are read as that text. Reading a file also unites the
line ends, so a text without carriage returns comes back from its file as it was written.
-/

namespace Componentry

/-! ## Faults -/

theorem encodeFault?_eq_none_iff {s : Text} :
    encodeFault? s = none ↔ ∀ c ∈ s, c.isHalf = false := by
  have none_iff : encodeFault? s = none ↔ s.dropWhile (fun c => !c.isHalf) = [] := by
    rw [encodeFault?, List.span_eq_takeWhile_dropWhile]
    cases s.dropWhile fun c => !c.isHalf <;> simp
  rw [none_iff, List.dropWhile_eq_nil_iff]
  simp only [Bool.not_eq_true']

theorem nameFault?_eq_none_iff {s : Text} :
    nameFault? s = none ↔ ∀ c ∈ s, (!c.isHalf || (rawByte? c).isSome) = true := by
  have none_iff : nameFault? s = none ↔
      s.dropWhile (fun c => !c.isHalf || (rawByte? c).isSome) = [] := by
    rw [nameFault?, List.span_eq_takeWhile_dropWhile]
    cases s.dropWhile fun c => !c.isHalf || (rawByte? c).isSome <;> simp
  rw [none_iff, List.dropWhile_eq_nil_iff]

/-! ## Bytes -/

/-- A character has the bytes that the library's encoding gives it. -/
theorem CodePoint.bytes_char (c : Char) : (CodePoint.char c).bytes = String.utf8EncodeChar c := by
  have bound := (CodePoint.char c).toNat_lt
  have val : c.val.toNat = (CodePoint.char c).toNat := rfl
  simp only [CodePoint.bytes, String.utf8EncodeChar, val]
  generalize (CodePoint.char c).toNat = n at bound
  -- the same bytes, with the sums the other way round and a remainder that changes nothing
  have byte {a b : Nat} (h : a = b) : UInt8.ofNat a = UInt8.ofNat b := congrArg _ h
  split_ifs
  all_goals first | omega | rfl | skip
  · rw [byte (show 192 + n / 64 = n / 64 % 32 + 192 by omega),
      byte (show 128 + n / 1 % 64 = n % 64 + 128 by omega)]
  · rw [byte (show 224 + n / 4096 = n / 4096 % 16 + 224 by omega), Nat.add_comm 128,
      byte (show 128 + n / 1 % 64 = n % 64 + 128 by omega)]
  · rw [byte (show 240 + n / 262144 = n / 262144 % 8 + 240 by omega), Nat.add_comm 128,
      Nat.add_comm 128, byte (show 128 + n / 1 % 64 = n % 64 + 128 by omega)]

/-- The characters of a text without halves. -/
theorem exists_chars {s : Text} (h : ∀ c ∈ s, c.isHalf = false) :
    ∃ cs : List Char, s = cs.map CodePoint.char := by
  induction s with
  | nil => exact ⟨[], rfl⟩
  | cons c rest ih =>
    obtain ⟨cs, rfl⟩ := ih fun d hd => h d (List.mem_cons_of_mem _ hd)
    cases c with
    | char c => exact ⟨c :: cs, rfl⟩
    | half n => exact absurd (h _ (List.mem_cons_self ..)) (by simp [CodePoint.isHalf])

theorem bytes_chars (cs : List Char) :
    Text.bytes (cs.map CodePoint.char) = cs.flatMap String.utf8EncodeChar := by
  rw [Text.bytes, List.flatMap_map]
  exact congrArg (cs.flatMap ·) (funext CodePoint.bytes_char)

/-- The bytes of a text without halves are read as that text. -/
theorem decodeUtf8_bytes {s : Text} (h : ∀ c ∈ s, c.isHalf = false) :
    decodeUtf8 ⟨(Text.bytes s).toArray⟩ = .ok s := by
  obtain ⟨cs, rfl⟩ := exists_chars h
  have bytes : (⟨(Text.bytes (cs.map CodePoint.char)).toArray⟩ : ByteArray) =
      (String.ofList cs).toByteArray := by
    rw [bytes_chars, String.toByteArray_ofList, List.utf8Encode]
    exact ByteArray.ext List.data_toByteArray.symm
  have read : String.fromUTF8? (String.ofList cs).toByteArray = some (String.ofList cs) := by
    rw [String.fromUTF8?, dif_pos (String.ofList cs).isValidUTF8, String.fromUTF8]
  rw [bytes, decodeUtf8, read]
  show Except.ok (Text.ofString (String.ofList cs)) = _
  rw [Text.ofString, String.toList_ofList]

/-! ## Files -/

theorem Text.unixLines_eq {s : Text} (h : .char '\r' ∉ s) : s.unixLines = s := by
  induction s with
  | nil => rfl
  | cons c rest ih =>
    rw [List.mem_cons, not_or] at h
    rw [Text.unixLines, ih h.2]
    · rintro _ rfl
      exact absurd rfl h.1
    · rintro rfl
      exact absurd rfl h.1

/-- A text without halves and carriage returns comes back from its file. -/
theorem decodeFile_bytes {s : Text} (whole : ∀ c ∈ s, c.isHalf = false) (lines : .char '\r' ∉ s) :
    decodeFile ⟨(Text.bytes s).toArray⟩ = .ok s := by
  rw [decodeFile, decodeUtf8_bytes whole]
  exact congrArg Except.ok (Text.unixLines_eq lines)

end Componentry
