import Componentry.Proofs.Pipeline.Partition

/-!
# Names of partitions

The name of a partition is a row of fields with dashes between them, and the compiler's version, one
of the fields, may have dashes of its own and look like the others. It is the only field of no known
length, apart from words that differ in their last letters, so the name can be taken apart from its
end. Hence partitions beside one cache directory are the same only if everything that sets them
apart is.
-/

namespace Componentry

/-! ## The length of digests -/

@[simp] theorem Text.length_hexFixed (width n : Nat) : (hexFixed width n).length = width := by
  induction width generalizing n with
  | zero => rfl
  | succ width ih => rw [hexFixed, List.length_append, ih, List.length_singleton]

namespace Digest

@[simp] theorem length_littleEndian (count n : Nat) : (littleEndian count n).length = count := by
  induction count generalizing n with
  | zero => rfl
  | succ count ih => rw [littleEndian, List.length_cons, ih]

/-- Every word has eight digits if it is written with four bytes. -/
theorem length_hexWords {bytes : Nat → List UInt8} (four : ∀ n, (bytes n).length = 4)
    (words : List UInt32) : (hexWords bytes words).length = 8 * words.length := by
  have word (w : UInt32) : ((bytes w.toNat).flatMap hexByte).length = 8 := by
    simp [List.length_flatMap, hexByte, four]
  simp [hexWords, List.length_flatMap, word, Nat.mul_comm]

namespace Md5

theorem length_round (block : List UInt32) {state : List UInt32} (h : state.length = 4) (i : Nat)
    (constant : UInt32) : (round block state i constant).length = 4 := by
  unfold round
  split
  · rfl
  · exact h

theorem length_foldl_round (block : List UInt32) (rounds : List (Nat × UInt32))
    {state : List UInt32} (h : state.length = 4) :
    (rounds.foldl (fun s (i, k) => round block s i k) state).length = 4 := by
  induction rounds generalizing state with
  | nil => exact h
  | cons r rest ih => exact ih (length_round block h r.1 r.2)

theorem length_compress {state : List UInt32} (h : state.length = 4) (block : List UInt32) :
    (compress state block).length = 4 := by
  rw [compress, List.length_zipWith, length_foldl_round block _ h, h, Nat.min_self]

theorem length_foldl_compress (blocks : List (List UInt32)) {state : List UInt32}
    (h : state.length = 4) : (blocks.foldl compress state).length = 4 := by
  induction blocks generalizing state with
  | nil => exact h
  | cons block rest ih => exact ih (length_compress h block)

/-- A digest has 32 digits. -/
theorem length_hex (message : List UInt8) : (hex message).length = 32 := by
  rw [hex, length_hexWords (length_littleEndian 4), length_foldl_compress _ rfl]

end Md5

end Digest

@[simp] theorem length_shortDigest (options : Json.Fields) :
    (shortDigest .standard options).length = 6 := by
  rw [shortDigest, List.length_take]
  show min 6 (Digest.Md5.hex _).length = 6
  rw [Digest.Md5.length_hex]
  rfl

/-! ## Taking a name apart -/

namespace PartitionScope

/-- What stands before the digest of the options. -/
def opening (version : Text) (production : Bool) : Text :=
  "-lowering-" ++ version ++ "-" ++ toString preprocessVersion ++ "-" ++
    (if production then "true" else "false")

/-- What stands between the digest of the options and the version of the program. -/
def reload (s : PartitionScope) (hot : Bool) : Text :=
  if hot then "hmr-" ++ shortDigest s.hashing (hotOptions s.runtimePackage) ++ "-" else ""

theorem suffix_eq (s : PartitionScope) (version : Text) (hot : Bool) : s.suffix version hot =
    opening version s.production ++ "--" ++ shortDigest s.hashing s.options.toFields ++ "-" ++
      s.reload hot ++ programVersion := rfl

/-- The words for the flag end differently, whatever stands before them. -/
theorem opening_inj {version version' : Text} {production production' : Bool}
    (h : opening version production = opening version' production') :
    version = version' ∧ production = production' := by
  have flag : production = production' := by
    -- the last three letters of the words
    have letters (b : Bool) : Text.ofString (if b then "true" else "false") =
        Text.ofString (if b then "t" else "fa") ++ Text.ofString (if b then "rue" else "lse") := by
      cases b <;> decide
    simp only [opening, letters, ← List.append_assoc] at h
    have last := List.append_inj_right' h (by cases production <;> cases production' <;> rfl)
    cases production <;> cases production' <;> first | rfl | exact absurd last (by decide)
  subst flag
  simp only [opening, List.append_assoc] at h
  exact ⟨List.append_cancel_right (List.append_cancel_left h), rfl⟩

/-- Where one name goes on with the options for reloading and the other does not, the letters before
the last digest differ. -/
theorem append_hmr_ne (front front' digest digest' : Text) (same : digest.length = digest'.length) :
    front ++ "--" ++ digest ++ "-" ≠ front' ++ ("hmr-" ++ digest' ++ "-") := by
  have dashes : Text.ofString "--" = Text.ofString "-" ++ Text.ofString "-" := rfl
  have letters : Text.ofString "hmr-" = Text.ofString "hm" ++ (Text.ofString "r" ++ Text.ofString "-") :=
    rfl
  rw [dashes, letters]
  intro h
  simp only [← List.append_assoc] at h
  have h := List.append_cancel_right h
  have h := List.append_cancel_right (List.append_inj_left' h same)
  exact absurd (List.append_inj_right' h rfl) (by decide)

variable {s s' : PartitionScope} {version version' : Text} {hot hot' : Bool}

/-- **A name is made up in one way.** -/
theorem suffix_inj (hs : s.hashing = .standard) (hs' : s'.hashing = .standard)
    (h : s.suffix version hot = s'.suffix version' hot') :
    version = version' ∧ s.production = s'.production ∧ hot = hot' ∧
      shortDigest .standard s.options.toFields = shortDigest .standard s'.options.toFields ∧
      (hot → shortDigest .standard (hotOptions s.runtimePackage) =
        shortDigest .standard (hotOptions s'.runtimePackage)) := by
  rw [suffix_eq, suffix_eq, hs, hs'] at h
  have h := List.append_cancel_right h
  have front {a a' : Text} (h : opening version s.production ++ "--" ++ a ++ "-" =
      opening version' s'.production ++ "--" ++ a' ++ "-") (same : a.length = a'.length) :
      version = version' ∧ s.production = s'.production ∧ a = a' := by
    have h := List.append_cancel_right h
    obtain ⟨before, digest⟩ := List.append_inj' h same
    obtain ⟨versions, flags⟩ := opening_inj (List.append_cancel_right before)
    exact ⟨versions, flags, digest⟩
  have long {o o' : Json.Fields} :
      (shortDigest .standard o).length = (shortDigest .standard o').length := by simp
  cases hot <;> cases hot'
  · obtain ⟨versions, flags, digest⟩ := front (List.append_cancel_right h) long
    exact ⟨versions, flags, rfl, digest, nofun⟩
  · rw [reload, reload, hs'] at h
    exact absurd ((List.append_nil _).symm.trans h) (append_hmr_ne _ _ _ _ long)
  · rw [reload, reload, hs] at h
    exact absurd ((List.append_nil _).symm.trans h.symm) (append_hmr_ne _ _ _ _ long)
  · rw [reload, reload, hs, hs'] at h
    obtain ⟨before, behind⟩ := List.append_inj' h (by simp)
    obtain ⟨versions, flags, digest⟩ := front before long
    exact ⟨versions, flags, rfl, digest,
      fun _ => List.append_cancel_left (List.append_cancel_right behind)⟩

/-- Nothing but the version of the compiler can bring a slash into a name. -/
theorem has_slash_suffix (hs : s.hashing = .standard) (hv : version.has '/' = false) :
    (s.suffix version hot).has '/' = false := by
  have short (options : Json.Fields) : (shortDigest s.hashing options).has '/' = false := by
    rw [hs]
    exact ((Hashing.plain_standard.2.2 _).take 6).2
  have flag : (Text.ofString (if s.production then "true" else "false")).has '/' = false := by
    split <;> decide
  have reload : (s.reload hot).has '/' = false := by
    rw [PartitionScope.reload]
    split
    · rw [Text.has_append, Text.has_append, short]
      decide
    · decide
  simp only [suffix_eq, opening, Text.has_append, hv, short, flag, reload]
  decide

/-- **Partitions are separate.** Beside every cache directory that has a name, any two projects with
versions of the compiler that have no slash have partitions, and these have one directory exactly if
the versions, the modes, the digests of the options and the flags for reloading are the same, and,
where modules are reloaded, the digests of the options for it. -/
theorem directories_eq_iff (cache : Path) (s s' : PartitionScope) (version version' : Text)
    (hot hot' : Bool) (named : cache.name ≠ []) (single : cache.name.has '/' = false)
    (hs : s.hashing = .standard) (hs' : s'.hashing = .standard) (hv : version.has '/' = false)
    (hv' : version'.has '/' = false) :
    ∃ d d', s.directory cache version hot = .ok d ∧ s'.directory cache version' hot' = .ok d' ∧
      (d = d' ↔ version = version' ∧ s.production = s'.production ∧ hot = hot' ∧
        shortDigest .standard s.options.toFields = shortDigest .standard s'.options.toFields ∧
        (hot → shortDigest .standard (hotOptions s.runtimePackage) =
          shortDigest .standard (hotOptions s'.runtimePackage))) := by
  have some_ : cache.names ≠ [] := by
    intro none_
    rw [Path.name, none_] at named
    exact named rfl
  refine ⟨_, _, directory_eq (has_slash_suffix hs hv) some_ single,
    directory_eq (has_slash_suffix hs' hv') some_ single, ?_, ?_⟩
  · intro same
    have names := List.append_cancel_left (congrArg Path.names same)
    exact suffix_inj hs hs' (List.append_cancel_left (List.cons.inj names).1)
  · rintro ⟨rfl, flags, rfl, digests, reloads⟩
    have reload : s.reload hot = s'.reload hot := by
      cases hot with
      | false => rfl
      | true => rw [PartitionScope.reload, PartitionScope.reload, hs, hs', reloads rfl]
    rw [suffix_eq, suffix_eq, hs, hs', flags, digests, reload]

/-- A project with the standard options. -/
def sampleScope (production : Bool) : PartitionScope := ⟨{}, production, none, .standard⟩

/-- A version that ends like the name of a partition for reloading has a partition of its own. -/
theorem directories_of_lookalike : ∃ d d',
    (sampleScope true).directory (.ofText "x/cache") "3" true = .ok d ∧
    (sampleScope true).directory (.ofText "x/cache") "3-9-true--c7cf38-hmr" false = .ok d' ∧
    d ≠ d' := by
  obtain ⟨d, d', first, second, same⟩ := directories_eq_iff (.ofText "x/cache") (sampleScope true)
    (sampleScope true) "3" "3-9-true--c7cf38-hmr" true false (by decide) (by decide) rfl rfl
    (by decide) (by decide)
  refine ⟨d, d', first, second, fun equal => ?_⟩
  obtain ⟨versions, -⟩ := same.mp equal
  exact absurd versions (by decide)

end PartitionScope

end Componentry
