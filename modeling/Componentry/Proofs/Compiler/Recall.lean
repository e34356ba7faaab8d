import Componentry.Proofs.Cache.Eviction
import Componentry.Proofs.Cache.Sessions
import Componentry.Proofs.Compiler.Accounting

/-!
# Remembering and recalling

A compiler remembers results under digests and recalls them, from memory or else from disk. However
it is used, its memory stays balanced, and what it holds are the results used last. What is recalled
is the result that was remembered last under the digest, if that one fits into the memory. One that
does not fit goes to disk only, and leaves an earlier one in memory, which is recalled in its place.
-/

namespace Componentry

/-- Does the memory with this limit take the result? -/
def Result.fits (limit : Int) (r : Result) : Bool :=
  match r.size with
  | .ok size => size ≤ limit
  | .error _ => false

theorem Result.fits_iff {limit : Int} {r : Result} :
    r.fits limit ↔ ∃ size, r.size = .ok size ∧ (size : Int) ≤ limit := by
  rw [fits]
  cases r.size with
  | ok size => simp
  | error e => simp

/-- What is asked of a compiler's caches. -/
inductive Access where
  | remember (digest : Text) (result : Result) (persist : Bool)
  | fetch (digest : Text)

/-- Is what is remembered put on disk as well, and does it come back from there as it is? -/
def Access.Kept : Access → Prop
  | .remember _ result persist => result.HasText ∧ persist = true
  | .fetch _ => True

/-- The results that are remembered under a digest, in order. -/
def Access.remembered (digest : Text) : List Access → List Result
  | [] => []
  | .remember d result _ :: rest =>
    if d = digest then result :: remembered digest rest else remembered digest rest
  | .fetch _ :: rest => remembered digest rest

theorem Access.remembered_append (digest : Text) (first rest : List Access) :
    remembered digest (first ++ rest) = remembered digest first ++ remembered digest rest := by
  induction first with
  | nil => rfl
  | cons a more ih =>
    cases a with
    | remember d result persist =>
      simp only [List.cons_append, remembered, ih]
      split <;> simp
    | fetch d => exact ih

variable {σ : Type}

namespace Compiler

/-- The compiler after an access. Recalling that fails leaves it as it is. -/
def access (c : Compiler σ) : Access → Compiler σ
  | .remember digest result persist => (c.remember digest result persist).1
  | .fetch digest =>
    match c.fetch digest with
    | .ok (_, c') => c'
    | .error _ => c

/-- The compiler after accesses, in order. -/
def after (c : Compiler σ) (accesses : List Access) : Compiler σ := accesses.foldl access c

/-- Which digest an access makes the one used last: that of a result which is remembered or
recalled, if the memory takes it. -/
def used? (c : Compiler σ) : Access → Option Text
  | .remember digest result _ => if result.fits c.memory.limit then some digest else none
  | .fetch digest =>
    match c.fetch digest with
    | .ok (some result, _) => if result.fits c.memory.limit then some digest else none
    | _ => none

/-- The digests in the order in which they are used. -/
def uses (c : Compiler σ) : List Access → List Text
  | [] => []
  | a :: rest => (c.used? a).toList ++ uses (c.access a) rest

/-- Is the memory empty, with a limit that sizes can be compared with? -/
structure Blank (c : Compiler σ) : Prop where
  comparable : c.comparable = true
  held : c.memory.held = []
  size : c.memory.size = 0

/-- What the disk has under a digest. -/
def stored (c : Compiler σ) (digest : Text) : Except Failure (Option Result) :=
  match c.disk.bind fun s => s.get? digest with
  | none => .ok none
  | some payload => Result.ofJson? payload

section

variable {c : Compiler σ} {digest : Text} {result : Result}

/-! ## One access -/

theorem remember_eq (comparable : c.comparable = true) (digest : Text) (result : Result)
    (persist : Bool) {size : Nat} (sized : result.size = .ok size) :
    c.remember digest result persist = ({ c with
      disk := if persist then c.disk.map fun s => s.put digest result.toJson c.project.stamp
        else c.disk
      memory := c.memory.remember digest result size }, none) := by
  simp only [remember, sized, comparable, if_true]

/-- A result that the memory does not take leaves it as it is. -/
theorem memory_remember_of_not_fits (large : ¬ result.fits c.memory.limit) (digest : Text)
    (persist : Bool) : (c.remember digest result persist).1.memory = c.memory := by
  rw [remember]
  cases sized : result.size with
  | error f => rfl
  | ok size =>
    have exceeds : c.memory.limit < size := by
      by_contra within
      exact large (Result.fits_iff.mpr ⟨size, sized, by omega⟩)
    dsimp only
    split
    · exact Recent.remember_of_lt exceeds digest result
    · rfl

/-- Remembering changes the disk and the memory alone. -/
theorem remember_fst (c : Compiler σ) (digest : Text) (result : Result) (persist : Bool) :
    (c.remember digest result persist).1 = { c with
      disk := if persist then c.disk.map fun s => s.put digest result.toJson c.project.stamp
        else c.disk
      memory := (c.remember digest result persist).1.memory } := by
  rw [remember]
  cases result.size with
  | error f => rfl
  | ok size =>
    dsimp only
    split <;> rfl

theorem limit_remember (comparable : c.comparable = true) (digest : Text) (result : Result)
    (persist : Bool) : (c.remember digest result persist).1.memory.limit = c.memory.limit := by
  by_cases fits : result.fits c.memory.limit
  · obtain ⟨size, sized, -⟩ := Result.fits_iff.mp fits
    rw [remember_eq comparable digest result persist sized]
    exact Recent.limit_remember ..
  · rw [memory_remember_of_not_fits fits]

/-- What is held after a result was remembered is the result itself, if the memory takes it, or was
held before: under another digest, or in the place of a result that the memory does not take. -/
theorem mem_held_remember (comparable : c.comparable = true) {persist : Bool} {h : Held}
    (mem : h ∈ (c.remember digest result persist).1.memory.held) :
    (h.digest = digest ∧ h.result = result ∧ result.fits c.memory.limit) ∨
      h ∈ c.memory.held ∧ (h.digest = digest → ¬ result.fits c.memory.limit) := by
  by_cases fits : result.fits c.memory.limit
  · obtain ⟨size, sized, within⟩ := Result.fits_iff.mp fits
    rw [remember_eq comparable digest result persist sized] at mem
    rcases Recent.mem_remember within mem with ⟨earlier, apart⟩ | rfl
    · exact .inr ⟨earlier, fun same => absurd same apart⟩
    · exact .inl ⟨rfl, rfl, fits⟩
  · rw [memory_remember_of_not_fits fits] at mem
    exact .inr ⟨mem, fun _ => fits⟩

/-- Recalling asks the memory, and then the disk for what is put back into the memory. -/
theorem fetch_eq (c : Compiler σ) (digest : Text) :
    c.fetch digest = match c.memory.fetch? digest with
      | some (result, memory) => .ok (some result, { c with memory })
      | none =>
        match c.stored digest with
        | .error f => .error f
        | .ok none => .ok (none, c)
        | .ok (some result) =>
          match c.remember digest result false with
          | (c, none) => .ok (some result, c)
          | (_, some f) => .error f := by
  rw [fetch, stored]
  cases c.memory.fetch? digest with
  | some pair => rfl
  | none =>
    cases c.disk.bind fun s => s.get? digest with
    | none => rfl
    | some payload => rfl

theorem hasText_of_stored (found : c.stored digest = .ok (some result)) : result.HasText := by
  rw [stored] at found
  split at found
  · cases found
  · exact Result.hasText_of_ofJson? found

/-- **What recalling does.** A result in memory becomes the one used last. Otherwise a result on
disk is remembered, but not put on disk again. Where neither has a result, or the disk has something
else there, nothing changes. -/
theorem fetch_cases (comparable : c.comparable = true) (digest : Text) :
    (∃ result memory, c.memory.fetch? digest = some (result, memory) ∧
      c.fetch digest = .ok (some result, { c with memory })) ∨
    c.memory.fetch? digest = none ∧
      ((∃ result, c.stored digest = .ok (some result) ∧
          c.fetch digest = .ok (some result, (c.remember digest result false).1)) ∨
        (c.stored digest = .ok none ∧ c.fetch digest = .ok (none, c)) ∨
        ∃ f, c.stored digest = .error f ∧ c.fetch digest = .error f) := by
  rw [fetch_eq]
  cases held : c.memory.fetch? digest with
  | some pair => exact .inl ⟨pair.1, pair.2, rfl, rfl⟩
  | none =>
    refine .inr ⟨rfl, ?_⟩
    cases found : c.stored digest with
    | error f => exact .inr (.inr ⟨f, rfl, rfl⟩)
    | ok found_ =>
      cases found_ with
      | none => exact .inr (.inl ⟨rfl, rfl⟩)
      | some result =>
        -- what was read has a size, so it is remembered without a failure
        obtain ⟨size, sized⟩ := (hasText_of_stored found).exists_size
        refine .inl ⟨result, rfl, ?_⟩
        simp only [remember_eq comparable digest result false sized]

end

/-! ## The memory -/

/-- Is the memory balanced, with this limit, and are the results that it holds those used last? -/
structure Tended (limit : Int) (uses : List Text) (c : Compiler σ) : Prop where
  comparable : c.comparable = true
  limit : c.memory.limit = limit
  balanced : c.memory.Balanced
  inOrder : c.memory.InOrder uses

namespace Tended

variable {limit : Int} {uses : List Text} {c : Compiler σ}

theorem remember (h : c.Tended limit uses) (digest : Text) (result : Result) (persist : Bool) :
    (c.remember digest result persist).1.Tended limit
      (uses ++ (c.used? (.remember digest result persist)).toList) := by
  have comparable : (c.remember digest result persist).1.comparable = true := by
    rw [remember_fst]
    exact h.comparable
  have limit := (limit_remember h.comparable digest result persist).trans h.limit
  by_cases fits : result.fits c.memory.limit
  · obtain ⟨size, sized, within⟩ := Result.fits_iff.mp fits
    have memory : (c.remember digest result persist).1.memory =
        c.memory.remember digest result size := by
      rw [remember_eq h.comparable digest result persist sized]
    refine ⟨comparable, limit, ?_, ?_⟩
    · rw [memory]
      exact h.balanced.remember sized
    · rw [memory, used?, if_pos fits]
      exact h.inOrder.remember h.balanced within
  · have memory := memory_remember_of_not_fits fits digest persist
    refine ⟨comparable, limit, ?_, ?_⟩
    · rw [memory]
      exact h.balanced
    · rw [memory, used?, if_neg fits]
      simpa using h.inOrder

theorem fetch (h : c.Tended limit uses) (digest : Text) :
    (c.access (.fetch digest)).Tended limit (uses ++ (c.used? (.fetch digest)).toList) := by
  rw [access, used?]
  obtain ⟨result, memory, held, fetched⟩ |
    ⟨-, ⟨result, -, fetched⟩ | ⟨-, fetched⟩ | ⟨f, -, fetched⟩⟩ := fetch_cases h.comparable digest
  · obtain ⟨entry, mem, -, rfl, rfl, -⟩ := Recent.exists_of_fetch? held
    -- what is held is within the limit, so that it counts as used
    have fits : entry.result.fits c.memory.limit :=
      Result.fits_iff.mpr ⟨entry.size, h.balanced.sized entry mem, h.balanced.size_held_le mem⟩
    simp only [fetched, fits, if_true]
    exact ⟨h.comparable, h.limit, h.balanced.fetch? held, h.inOrder.fetch? held⟩
  · simp only [fetched]
    exact h.remember digest result false
  · simpa only [fetched, Option.toList_none, List.append_nil] using h
  · simpa only [fetched, Option.toList_none, List.append_nil] using h

/-- **One access** keeps the memory tended. -/
theorem access (h : c.Tended limit uses) (a : Access) :
    (c.access a).Tended limit (uses ++ (c.used? a).toList) := by
  cases a with
  | remember digest result persist => exact h.remember digest result persist
  | fetch digest => exact h.fetch digest

/-- **Every run of accesses** keeps the memory tended. -/
theorem after (h : c.Tended limit uses) (accesses : List Access) :
    (c.after accesses).Tended limit (uses ++ c.uses accesses) := by
  induction accesses generalizing c uses with
  | nil => simpa [Compiler.after, Compiler.uses] using h
  | cons a rest ih =>
    have next := ih (h.access a)
    rw [List.append_assoc] at next
    exact next

end Tended

theorem Blank.tended {c : Compiler σ} (blank : c.Blank) : c.Tended c.memory.limit [] where
  comparable := blank.comparable
  limit := rfl
  balanced := by
    refine ⟨?_, ?_, ?_, fun nonempty => absurd blank.held nonempty⟩
    · rw [blank.held]
      exact List.nodup_nil
    · rw [blank.held]
      exact nofun
    · rw [blank.size, blank.held]
      rfl
  inOrder := by
    rw [Recent.InOrder, blank.held]
    exact List.nil_suffix

/-- **What the memory holds.** Whatever a compiler that starts with an empty memory remembers and
recalls:
* The size that is noted is the total of the sizes of the results that are held. It is within the
  limit; if the limit is negative, nothing is held.
* The results that are held are those used last, in the order of their last use.
* A result within the limit that is remembered next is held then. Of the results that were held
  under other digests and this one, in order, as many stay as fit, from the end. Letting go of the
  others stops before nothing is left.
* A result that is larger than the limit, or has no size, leaves the memory as it is. -/
theorem memory_after {c : Compiler σ} (blank : c.Blank) (accesses : List Access) :
    let limit := c.memory.limit
    let now := c.after accesses
    now.memory.size = Recent.total now.memory.held ∧
    (∀ h ∈ now.memory.held, h.result.size = .ok h.size) ∧
    (0 ≤ limit → now.memory.size ≤ limit) ∧
    (limit < 0 → now.memory.held = []) ∧
    now.memory.held.map Held.digest <:+ (c.uses accesses).dedup ∧
    ∀ digest result persist,
      let next := (now.remember digest result persist).1.memory
      (∀ size : Nat, result.size = .ok size → (size : Int) ≤ limit →
        let entered := now.memory.entered digest result size
        ¬ Recent.RunsDry limit entered.1 entered.2 ∧
        Recent.IsLongest limit entered.1 next.held ∧
        next = { now.memory with
          held := (Recent.evict limit entered.1 entered.2).1
          size := (Recent.evict limit entered.1 entered.2).2 } ∧
        ⟨digest, result, size⟩ ∈ next.held) ∧
      ((∀ size : Nat, result.size = .ok size → limit < size) → next = now.memory) := by
  intro limit now
  have tended := blank.tended.after accesses
  have same : now.memory.limit = limit := tended.limit
  refine ⟨tended.balanced.size, tended.balanced.sized, ?_, ?_, tended.inOrder, ?_⟩
  · rw [← same]
    exact tended.balanced.size_le
  · rw [← same]
    exact tended.balanced.held_eq_nil
  · intro digest result persist next
    refine ⟨?_, ?_⟩
    · intro size sized within entered
      rw [← same] at within ⊢
      have memory : next = now.memory.remember digest result size := by
        show (now.remember digest result persist).1.memory = _
        rw [remember_eq tended.comparable digest result persist sized]
      rw [memory]
      refine ⟨tended.balanced.not_runsDry_entered within, tended.balanced.isLongest_remember within,
        Recent.remember_of_le within digest result, ?_⟩
      exact (tended.balanced.suffix_remember within).mem (List.mem_singleton_self _)
    · intro large
      refine memory_remember_of_not_fits (fun fits => ?_) digest persist
      obtain ⟨size, sized, within⟩ := Result.fits_iff.mp fits
      have := large size sized
      omega

/-- A page with a body. -/
def bodyOf (data : Text) : Result := .page [⟨"body", data⟩]

/-- Two results are remembered, and the first is recalled. -/
def recallFirst : List Access :=
  [.remember "a" (bodyOf "111") true, .remember "b" (bodyOf "22") true, .fetch "a"]

theorem blank_fresh (limit : Int) : (fresh unequipped limit).Blank := ⟨rfl, rfl, rfl⟩

/-- A third result does not fit beside both. It is the second one that is let go, since the first
was recalled. -/
theorem memory_after_recallFirst :
    let now := (fresh unequipped 5).after recallFirst
    let next := (now.remember "c" (bodyOf "33") true).1.memory
    now.memory.size = 5 ∧ now.memory.held.map Held.digest <:+ ["b", "a"] ∧
    Recent.IsLongest 5
      [⟨"b", bodyOf "22", 2⟩, ⟨"a", bodyOf "111", 3⟩, ⟨"c", bodyOf "33", 2⟩] next.held ∧
    next.held.map Held.digest = ["a", "c"] := by
  intro now next
  obtain ⟨size, -, -, -, order, remembered⟩ := memory_after (blank_fresh 5) recallFirst
  obtain ⟨-, longest, next_, -⟩ := (remembered "c" (bodyOf "33") true).1 2 rfl (by decide)
  exact ⟨size.trans rfl, order, longest, (congrArg (·.held.map Held.digest) next_).trans rfl⟩

/-! ## What is recalled -/

/-- For one digest, and the results that were given for it so far, in order: the memory holds the
last one that it could take, or nothing, and the disk, if there is one, has the last one. -/
structure Faithful (limit : Int) (digest : Text) (given : List Result) (c : Compiler σ) : Prop where
  comparable : c.comparable = true
  limit_eq : c.memory.limit = limit
  held : ∀ h ∈ c.memory.held, h.digest = digest →
    (given.filter (Result.fits limit)).getLast? = some h.result
  stored : c.disk.isSome → c.stored digest = .ok given.getLast?

theorem getLast?_filter_of_pos {α : Type} {p : α → Bool} {l : List α} {a : α}
    (last : l.getLast? = some a) (pos : p a) : (l.filter p).getLast? = some a := by
  obtain ⟨front, rfl⟩ := List.getLast?_eq_some_iff.mp last
  rw [List.filter_append, List.filter_cons_of_pos pos]
  simp

/-- What the disk has under a digest after a result was put on it. -/
theorem stored_remember (c : Compiler σ) {digest : Text} {result : Result} (text : result.HasText)
    (name : Text) (disk : c.disk.isSome) :
    (c.remember digest result true).1.stored name =
      if digest = name then .ok (some result) else c.stored name := by
  obtain ⟨s, disk⟩ := Option.isSome_iff_exists.mp disk
  obtain ⟨fields, shape⟩ : ∃ fields, result.toJson = .obj fields := by
    cases result with
    | page parts => exact ⟨_, rfl⟩
    | code m => exact ⟨_, rfl⟩
  rw [stored, remember_fst]
  simp only [if_true, disk, Option.map_some, Option.bind_some, shape, Store.get?_put]
  by_cases same : digest = name
  · simp only [if_pos same]
    rw [← shape, Result.ofJson?_toJson text]
  · simp only [if_neg same, stored, disk, Option.bind_some]

theorem stored_remember_false (c : Compiler σ) (digest : Text) (result : Result) (name : Text) :
    (c.remember digest result false).1.stored name = c.stored name := by
  rw [stored, remember_fst]
  rfl

theorem isSome_disk_remember (c : Compiler σ) (digest : Text) (result : Result) (persist : Bool) :
    (c.remember digest result persist).1.disk.isSome = c.disk.isSome := by
  rw [remember_fst]
  cases persist <;> simp

theorem isSome_disk_of_stored {c : Compiler σ} {digest : Text} {result : Result}
    (found : c.stored digest = .ok (some result)) : c.disk.isSome := by
  cases disk : c.disk with
  | none =>
    rw [stored, disk] at found
    cases found
  | some s => rfl

theorem isSome_disk_access {c : Compiler σ} (comparable : c.comparable = true) (a : Access) :
    (c.access a).disk.isSome = c.disk.isSome := by
  cases a with
  | remember digest result persist => exact isSome_disk_remember c digest result persist
  | fetch digest =>
    rw [access]
    obtain ⟨_, _, -, fetched⟩ | ⟨-, ⟨result, -, fetched⟩ | ⟨-, fetched⟩ | ⟨_, -, fetched⟩⟩ :=
      fetch_cases comparable digest
    · rw [fetched]
    · rw [fetched]
      exact isSome_disk_remember c digest result false
    · rw [fetched]
    · rw [fetched]

namespace Faithful

variable {limit : Int} {digest : Text} {given : List Result} {c : Compiler σ}

theorem stored_eq (h : c.Faithful limit digest given) :
    c.stored digest = .ok (if c.disk.isSome then given.getLast? else none) := by
  split
  next disk => exact h.stored disk
  next absent =>
    rw [Compiler.stored, Option.not_isSome_iff_eq_none.mp absent]
    rfl

/-- The result that is held for the digest fits, and it is the last one that was given unless that
one does not fit. -/
theorem getLast?_eq_iff (h : c.Faithful limit digest given) {entry : Held}
    (mem : entry ∈ c.memory.held) (name : entry.digest = digest) :
    given.getLast? = some entry.result ↔
      ¬ ∃ latest, given.getLast? = some latest ∧ ¬ latest.fits limit := by
  have last := h.held entry mem name
  have taken := List.mem_filter.mp (List.mem_of_getLast? last)
  constructor
  · rintro same ⟨latest, here, large⟩
    obtain rfl := Option.some.inj (same.symm.trans here)
    exact large taken.2
  · intro within
    obtain ⟨latest, here⟩ : ∃ latest, given.getLast? = some latest :=
      Option.isSome_iff_exists.mp (by simpa using List.ne_nil_of_mem taken.1)
    have fits : latest.fits limit := by
      by_contra large
      exact within ⟨latest, here, large⟩
    rw [here, ← last, getLast?_filter_of_pos here fits]

/-- Where nothing is held for the digest, what is recalled is the last result on disk. -/
theorem exists_fetch_of_absent (h : c.Faithful limit digest given)
    (absent : c.memory.fetch? digest = none) :
    ∃ next, c.fetch digest = .ok (if c.disk.isSome then given.getLast? else none, next) := by
  have onDisk := h.stored_eq
  rcases fetch_cases h.comparable digest with ⟨_, _, held, -⟩ |
    ⟨-, ⟨result, found, fetched⟩ | ⟨found, fetched⟩ | ⟨f, found, -⟩⟩
  · rw [absent] at held
    cases held
  · rw [← Except.ok.inj (found.symm.trans onDisk)]
    exact ⟨_, fetched⟩
  · rw [← Except.ok.inj (found.symm.trans onDisk)]
    exact ⟨_, fetched⟩
  · cases found.symm.trans onDisk

/-- **Remembering a result**, under the digest or another one. -/
theorem remember (h : c.Faithful limit digest given) {d : Text} {result : Result} {persist : Bool}
    (kept : c.disk.isSome → (Access.remember d result persist).Kept) :
    (c.remember d result persist).1.Faithful limit digest
      (given ++ Access.remembered digest [.remember d result persist]) where
  comparable := by
    rw [remember_fst]
    exact h.comparable
  limit_eq := (limit_remember h.comparable d result persist).trans h.limit_eq
  held := by
    intro entry mem name
    rw [Access.remembered]
    rcases mem_held_remember h.comparable mem with ⟨rfl, rfl, fits⟩ | ⟨earlier, large⟩
    · rw [if_pos name]
      exact getLast?_filter_of_pos (List.getLast?_concat ..) (h.limit_eq ▸ fits)
    · split
      next same =>
        -- the memory has not taken the result, so the last one that it took is still there
        have large : ¬ result.fits limit := h.limit_eq ▸ large (name.trans same.symm)
        rw [List.filter_append, Access.remembered, List.filter_cons_of_neg large, List.filter_nil,
          List.append_nil]
        exact h.held entry earlier name
      next =>
        rw [Access.remembered, List.append_nil]
        exact h.held entry earlier name
  stored := by
    intro disk
    rw [isSome_disk_remember] at disk
    obtain ⟨text, rfl⟩ := kept disk
    rw [stored_remember c text digest disk, Access.remembered]
    split
    · simp [Access.remembered]
    · rw [Access.remembered, List.append_nil]
      exact h.stored disk

/-- **Recalling a result**, under the digest or another one. -/
theorem fetch (h : c.Faithful limit digest given) (d : Text) :
    (c.access (.fetch d)).Faithful limit digest given := by
  rw [access]
  obtain ⟨result, memory, held, fetched⟩ |
    ⟨-, ⟨result, found, fetched⟩ | ⟨-, fetched⟩ | ⟨f, -, fetched⟩⟩ := fetch_cases h.comparable d
  · simp only [fetched]
    refine ⟨h.comparable, ?_, fun entry mem => h.held entry (Recent.mem_of_fetch? held mem),
      h.stored⟩
    obtain ⟨-, -, -, -, rfl, -⟩ := Recent.exists_of_fetch? held
    exact h.limit_eq
  · simp only [fetched]
    refine ⟨?_, (limit_remember h.comparable d result false).trans h.limit_eq, ?_, ?_⟩
    · rw [remember_fst]
      exact h.comparable
    · intro entry mem name
      rcases mem_held_remember h.comparable mem with ⟨rfl, rfl, fits⟩ | ⟨earlier, -⟩
      · -- what comes from disk is the last result that was given
        rw [name] at found
        have last := (h.stored (isSome_disk_of_stored found)).symm.trans found
        exact getLast?_filter_of_pos (Except.ok.inj last) (h.limit_eq ▸ fits)
      · exact h.held entry earlier name
    · intro disk
      rw [isSome_disk_remember] at disk
      rw [stored_remember_false]
      exact h.stored disk
  · simpa only [fetched] using h
  · simpa only [fetched] using h

/-- **Every run of accesses** keeps memory and disk faithful. -/
theorem after (h : c.Faithful limit digest given) {accesses : List Access}
    (kept : c.disk.isSome → ∀ a ∈ accesses, a.Kept) :
    (c.after accesses).Faithful limit digest (given ++ Access.remembered digest accesses) := by
  induction accesses generalizing c given with
  | nil =>
    rw [Access.remembered, List.append_nil]
    exact h
  | cons a rest ih =>
    have first : (c.access a).Faithful limit digest (given ++ Access.remembered digest [a]) := by
      cases a with
      | remember d result persist =>
        exact h.remember fun disk => kept disk _ (List.mem_cons_self ..)
      | fetch d =>
        rw [Access.remembered, Access.remembered, List.append_nil]
        exact h.fetch d
    have rest_ := ih first fun disk a' mem =>
      kept (isSome_disk_access h.comparable a ▸ disk) a' (List.mem_cons_of_mem _ mem)
    rw [List.append_assoc, ← Access.remembered_append] at rest_
    exact rest_

end Faithful

theorem isSome_disk_after {c : Compiler σ} {limit : Int} {uses : List Text}
    (h : c.Tended limit uses) (accesses : List Access) :
    (c.after accesses).disk.isSome = c.disk.isSome := by
  induction accesses generalizing c uses with
  | nil => rfl
  | cons a rest ih => exact (ih (h.access a)).trans (isSome_disk_access h.comparable a)

/-- **What is recalled is stale only behind a result that did not fit.** Whatever a compiler that
starts with an empty memory remembers and recalls, `given` being what the disk has for a digest at
the beginning and what is remembered under it, in order:
* What is recalled under the digest is the last one of them that fits into the memory if one is held
  there, else the last one if there is a disk, else nothing.
* So it is nothing or the last one, unless one is held while the last one does not fit. -/
theorem fetch_after {c : Compiler σ} (blank : c.Blank) {digest : Text} {initial : Option Result}
    (stored : c.stored digest = .ok initial) {accesses : List Access}
    (kept : c.disk.isSome → ∀ a ∈ accesses, a.Kept) :
    let limit := c.memory.limit
    let now := c.after accesses
    let given := initial.toList ++ Access.remembered digest accesses
    let isHeld := digest ∈ now.memory.held.map Held.digest
    ∃ found next, now.fetch digest = .ok (found, next) ∧
      (isHeld → found = (given.filter (Result.fits limit)).getLast? ∧ found ≠ none) ∧
      (¬ isHeld → found = if c.disk.isSome then given.getLast? else none) ∧
      ((found = none ∨ found = given.getLast?) ↔
        ¬ (isHeld ∧ ∃ latest, given.getLast? = some latest ∧ ¬ latest.fits limit)) := by
  intro limit now given isHeld
  have start : c.Faithful limit digest initial.toList := by
    refine ⟨blank.comparable, rfl, ?_, fun _ => ?_⟩
    · rw [blank.held]
      exact nofun
    · rw [stored]
      cases initial <;> rfl
  have faithful : now.Faithful limit digest given := start.after kept
  have disk : now.disk.isSome = c.disk.isSome := isSome_disk_after blank.tended accesses
  cases held : now.memory.fetch? digest with
  | some pair =>
    obtain ⟨entry, mem, name, same, -, -⟩ := Recent.exists_of_fetch? held
    have here : isHeld := List.mem_map.mpr ⟨entry, mem, name⟩
    refine ⟨some pair.1, { now with memory := pair.2 }, by rw [fetch, held], ?_, ?_, ?_⟩
    · intro _
      rw [faithful.held entry mem name, same]
      exact ⟨rfl, Option.some_ne_none _⟩
    · exact fun absent => absurd here absent
    · rw [← same, eq_comm (b := given.getLast?), faithful.getLast?_eq_iff mem name]
      simp [here]
  | none =>
    have absent : ¬ isHeld := Recent.fetch?_eq_none_iff.mp held
    obtain ⟨next, fetched⟩ := faithful.exists_fetch_of_absent held
    rw [disk] at fetched
    refine ⟨_, next, fetched, fun here => absurd here absent, fun _ => rfl, ?_⟩
    simp only [absent, false_and, not_false_eq_true, iff_true]
    split
    · exact .inr rfl
    · exact .inl rfl

/-- A short result, and then one that is larger than the memory. -/
def shortThenLong : List Access :=
  [.remember "k" (bodyOf "old") true, .remember "k" (bodyOf "newer") true]

/-- With a memory for the short result alone, it is recalled in the place of the long one. -/
theorem fetch_after_shortThenLong :
    let now := (fresh unequipped 3).after shortThenLong
    Access.remembered "k" shortThenLong = [bodyOf "old", bodyOf "newer"] ∧
    ∃ found next, now.fetch "k" = .ok (found, next) ∧ found = some (bodyOf "old") ∧
      ¬ (found = none ∨ found = some (bodyOf "newer")) := by
  intro now
  obtain ⟨found, next, fetched, held, -, stale⟩ :=
    @fetch_after _ _ (blank_fresh 3) "k" none rfl shortThenLong nofun
  have here : Text.ofString "k" ∈ now.memory.held.map Held.digest := List.mem_singleton_self _
  refine ⟨rfl, found, next, fetched, (held here).1, fun fresh_ => ?_⟩
  exact stale.mp fresh_ ⟨here, bodyOf "newer", rfl, by decide⟩

end Compiler

end Componentry
