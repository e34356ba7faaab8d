import Componentry.Proofs.Cache.Recent
import Mathlib.Data.List.Dedup

/-!
# What the memory lets go

The memory is balanced when the size that it notes is the total of what it holds, and that is within
the limit. Then letting go stops before nothing is left to let go, and what stays is as much of the
most recently used results as fits.
-/

namespace Componentry.Recent

/-! ## Totals -/

/-- The total size of results. -/
def total : List Held → Nat
  | [] => 0
  | h :: rest => h.size + total rest

@[simp] theorem total_append (held more : List Held) :
    total (held ++ more) = total held + total more := by
  induction held with
  | nil => simp [total]
  | cons h rest ih =>
    simp only [List.cons_append, total, ih]
    omega

theorem le_total {held : List Held} {h : Held} (mem : h ∈ held) : h.size ≤ total held := by
  obtain ⟨front, back, rfl⟩ := List.append_of_mem mem
  simp only [total_append, total]
  omega

/-- The results other than the one under `digest`. -/
def others (held : List Held) (digest : Text) : List Held := held.filter (·.digest != digest)

/-- The size of the result under `digest`, zero if there is none. -/
def sizeUnder (held : List Held) (digest : Text) : Nat :=
  ((held.find? fun h => h.digest == digest).map Held.size).getD 0

theorem others_of_notMem {held : List Held} {digest : Text}
    (absent : digest ∉ held.map Held.digest) : others held digest = held := by
  refine List.filter_eq_self.mpr fun h hh => ?_
  have : h.digest ≠ digest := fun same => absent (same ▸ List.mem_map_of_mem hh)
  simpa using this

/-- Taking the result under a digest out takes its size out of the total. -/
theorem total_others {held : List Held} (nodup : (held.map Held.digest).Nodup) (digest : Text) :
    total (others held digest) + sizeUnder held digest = total held := by
  induction held with
  | nil => rfl
  | cons h rest ih =>
    obtain ⟨absent, nodup⟩ := List.nodup_cons.mp nodup
    by_cases same : h.digest = digest
    · subst same
      have untouched := others_of_notMem absent
      rw [others] at untouched
      simp [others, sizeUnder, total, untouched]
      omega
    · have rest_ := ih nodup
      simp only [others, sizeUnder] at rest_
      simp [others, sizeUnder, total, same]
      omega

/-! ## Letting go -/

/-- Would letting go come to where nothing is left, the size being over the limit still? -/
def RunsDry (limit : Int) : List Held → Int → Prop
  | [], size => limit < size
  | h :: rest, size => limit < size ∧ RunsDry limit rest (size - h.size)

/-- Is `kept` the longest end of `held` whose total is within the limit? -/
structure IsLongest (limit : Int) (held kept : List Held) : Prop where
  suffix : kept <:+ held
  fits : (total kept : Int) ≤ limit
  longest : ∀ other, other <:+ held → (total other : Int) ≤ limit → other <:+ kept

theorem total_cons_sub (h : Held) (rest : List Held) :
    (total (h :: rest) : Int) - h.size = total rest := by
  simp only [total]
  omega

/-- The size that is noted in the end is the total of what is left. -/
theorem size_evict (limit : Int) (held : List Held) :
    (evict limit held (total held)).2 = total (evict limit held (total held)).1 := by
  induction held with
  | nil => rfl
  | cons h rest ih =>
    rw [evict]
    split
    · rw [total_cons_sub]
      exact ih
    · rfl

/-- **As much as fits stays**, and it is what was used last. -/
theorem isLongest_evict {limit : Int} (nonneg : 0 ≤ limit) (held : List Held) :
    IsLongest limit held (evict limit held (total held)).1 := by
  induction held with
  | nil => exact ⟨List.suffix_rfl, nonneg, fun other suffix _ => suffix⟩
  | cons h rest ih =>
    rw [evict]
    split
    next large =>
      rw [total_cons_sub]
      refine ⟨ih.suffix.trans (List.suffix_cons h rest), ih.fits, ?_⟩
      intro other suffix fits
      -- the whole list is too large, so the other one is an end of the rest
      rcases List.suffix_cons_iff.mp suffix with rfl | suffix
      · omega
      · exact ih.longest other suffix fits
    next small => exact ⟨List.suffix_rfl, Int.not_lt.mp small, fun other suffix _ => suffix⟩

theorem not_runsDry {limit : Int} (nonneg : 0 ≤ limit) (held : List Held) :
    ¬ RunsDry limit held (total held) := by
  induction held with
  | nil =>
    simp only [RunsDry, total]
    omega
  | cons h rest ih =>
    intro dry
    have rest_ := dry.2
    rw [total_cons_sub] at rest_
    exact ih rest_

/-! ## A balanced memory -/

/-- The results that are held while one is remembered, before any is let go, and the size that is
noted for them. -/
def entered (m : Recent) (digest : Text) (result : Result) (size : Nat) : List Held × Int :=
  (others m.held digest ++ [⟨digest, result, size⟩], m.size - sizeUnder m.held digest + size)

theorem remember_of_le {m : Recent} {size : Nat} (fits : (size : Int) ≤ m.limit) (digest : Text)
    (result : Result) :
    let entered := m.entered digest result size
    m.remember digest result size = { m with
      held := (evict m.limit entered.1 entered.2).1
      size := (evict m.limit entered.1 entered.2).2 } := by
  rw [remember, if_neg (by omega)]
  rfl

theorem remember_of_lt {m : Recent} {size : Nat} (large : m.limit < size) (digest : Text)
    (result : Result) : m.remember digest result size = m := by
  rw [remember, if_pos large]

@[simp] theorem limit_remember (m : Recent) (digest : Text) (result : Result) (size : Nat) :
    (m.remember digest result size).limit = m.limit := by
  rw [remember]
  split <;> rfl

/-- What is held after a result was remembered was held before, under another digest, or it is the
result itself. -/
theorem mem_remember {m : Recent} {size : Nat} (fits : (size : Int) ≤ m.limit) {digest : Text}
    {result : Result} {h : Held} (mem : h ∈ (m.remember digest result size).held) :
    (h ∈ m.held ∧ h.digest ≠ digest) ∨ h = ⟨digest, result, size⟩ := by
  rw [remember_of_le fits] at mem
  rcases List.mem_append.mp ((evict_suffix ..).mem mem) with earlier | new
  · obtain ⟨earlier, apart⟩ := List.mem_filter.mp earlier
    exact .inl ⟨earlier, by simpa using apart⟩
  · exact .inr (List.mem_singleton.mp new)

/-- Does the memory hold each result once and with its size, and is the size that it notes the total
and, unless it is empty, within the limit? -/
structure Balanced (m : Recent) : Prop where
  nodup : (m.held.map Held.digest).Nodup
  sized : ∀ h ∈ m.held, h.result.size = .ok h.size
  size : m.size = total m.held
  within : m.held ≠ [] → m.size ≤ m.limit

namespace Balanced

variable {m : Recent} {digest : Text} {result : Result} {size : Nat}

theorem size_le (h : m.Balanced) (nonneg : 0 ≤ m.limit) : m.size ≤ m.limit := by
  by_cases empty : m.held = []
  · rw [h.size, empty]
    exact nonneg
  · exact h.within empty

theorem held_eq_nil (h : m.Balanced) (negative : m.limit < 0) : m.held = [] := by
  by_contra nonempty
  have := h.within nonempty
  have := h.size
  omega

/-- What is held is within the limit by itself. -/
theorem size_held_le (h : m.Balanced) {entry : Held} (mem : entry ∈ m.held) :
    (entry.size : Int) ≤ m.limit := by
  have within := h.within (List.ne_nil_of_mem mem)
  have part := le_total mem
  rw [h.size] at within
  omega

/-- The size that is noted for a result that is remembered is the total. -/
theorem entered_snd (h : m.Balanced) :
    (m.entered digest result size).2 = total (m.entered digest result size).1 := by
  have split := total_others h.nodup digest
  simp only [entered, total_append, total, h.size]
  omega

/-- **As much as fits stays** when a result is remembered, and it is the result and what was used
last before it. -/
theorem isLongest_remember (h : m.Balanced) (fits : (size : Int) ≤ m.limit) :
    IsLongest m.limit (m.entered digest result size).1 (m.remember digest result size).held := by
  rw [remember_of_le fits, h.entered_snd]
  exact isLongest_evict (by omega) _

theorem not_runsDry_entered (h : m.Balanced) (fits : (size : Int) ≤ m.limit) :
    ¬ RunsDry m.limit (m.entered digest result size).1 (m.entered digest result size).2 := by
  rw [h.entered_snd]
  exact not_runsDry (by omega) _

theorem suffix_remember (h : m.Balanced) (fits : (size : Int) ≤ m.limit) :
    [⟨digest, result, size⟩] <:+ (m.remember digest result size).held := by
  refine (h.isLongest_remember fits).longest _ (List.suffix_append ..) ?_
  simpa [total] using fits

theorem nodup_entered (h : m.Balanced) :
    ((m.entered digest result size).1.map Held.digest).Nodup := by
  rw [entered, List.map_append, List.nodup_append]
  refine ⟨h.nodup.sublist (List.filter_sublist.map _), List.nodup_singleton _, ?_⟩
  intro d hd d' hd' same
  obtain ⟨other, hother, rfl⟩ := List.mem_map.mp hd
  have apart : other.digest ≠ digest := by simpa using (List.mem_filter.mp hother).2
  exact apart (same.trans (List.mem_singleton.mp hd'))

/-- **Remembering a result keeps the balance.** -/
theorem remember (h : m.Balanced) (sized : result.size = .ok size) :
    (m.remember digest result size).Balanced := by
  by_cases large : m.limit < size
  · rw [remember_of_lt large]
    exact h
  · have fits : (size : Int) ≤ m.limit := by omega
    have kept : IsLongest m.limit (m.entered digest result size).1
        (m.remember digest result size).held := h.isLongest_remember fits
    have noted : (m.remember digest result size).size =
        total (m.remember digest result size).held := by
      rw [remember_of_le fits, h.entered_snd]
      exact size_evict ..
    refine ⟨h.nodup_entered.sublist (kept.suffix.sublist.map _), ?_, noted, ?_⟩
    · intro entry hentry
      rcases List.mem_append.mp (kept.suffix.mem hentry) with earlier | new
      · exact h.sized entry (List.mem_filter.mp earlier).1
      · rw [List.mem_singleton.mp new]
        exact sized
    · intro _
      rw [noted, limit_remember]
      exact kept.fits

end Balanced

/-! ## Looking up -/

section

variable {m m' : Recent} {digest : Text} {result : Result}

/-- What is looked up moves to the end. -/
theorem exists_of_fetch? (found : m.fetch? digest = some (result, m')) :
    ∃ h, h ∈ m.held ∧ h.digest = digest ∧ h.result = result ∧
      m' = { m with held := others m.held digest ++ [h] } ∧ sizeUnder m.held digest = h.size := by
  rw [fetch?] at found
  cases look : m.held.find? fun h => h.digest == digest with
  | none => simp [look] at found
  | some h =>
    simp only [look, Option.some.injEq, Prod.mk.injEq] at found
    obtain ⟨rfl, rfl⟩ := found
    refine ⟨h, List.mem_of_find?_eq_some look, ?_, rfl, rfl, ?_⟩
    · simpa using List.find?_some look
    · rw [sizeUnder, look]
      rfl

theorem mem_of_fetch? (found : m.fetch? digest = some (result, m')) {h : Held} (mem : h ∈ m'.held) :
    h ∈ m.held := by
  obtain ⟨entry, here, -, -, rfl, -⟩ := exists_of_fetch? found
  rcases List.mem_append.mp mem with kept | last
  · exact (List.mem_filter.mp kept).1
  · rw [List.mem_singleton.mp last]
    exact here

/-- Looking up is in vain exactly if nothing is held under the digest. -/
theorem fetch?_eq_none_iff : m.fetch? digest = none ↔ digest ∉ m.held.map Held.digest := by
  rw [fetch?]
  cases look : m.held.find? fun h => h.digest == digest with
  | none =>
    have absent := List.find?_eq_none.mp look
    simp only [true_iff]
    intro mem
    obtain ⟨h, hh, same⟩ := List.mem_map.mp mem
    exact absent h hh (by simpa using same)
  | some h =>
    have name : h.digest = digest := by simpa using List.find?_some look
    simp only [reduceCtorEq, false_iff, not_not]
    exact name ▸ List.mem_map_of_mem (List.mem_of_find?_eq_some look)

/-- **Looking up keeps the balance.** -/
theorem Balanced.fetch? (h : m.Balanced) (found : m.fetch? digest = some (result, m')) :
    m'.Balanced := by
  obtain ⟨entry, mem, name, -, rfl, size⟩ := exists_of_fetch? found
  have split := total_others h.nodup digest
  have whole : total (others m.held digest ++ [entry]) = total m.held := by
    simp only [total_append, total]
    omega
  refine ⟨?_, ?_, ?_, fun _ => h.within (List.ne_nil_of_mem mem)⟩
  · have nodup : ((m.entered digest result entry.size).1.map Held.digest).Nodup := h.nodup_entered
    simpa [entered, name] using nodup
  · intro other hother
    exact h.sized other (mem_of_fetch? found hother)
  · rw [whole]
    exact h.size

end

/-! ## The order of last use -/

/-- Are the results that are held the ones used last, in the order of their last use? Of `uses`,
each digest counts where it stands last. -/
def InOrder (m : Recent) (uses : List Text) : Prop := m.held.map Held.digest <:+ uses.dedup

/-- One more use of a digest puts it last. -/
theorem dedup_concat (uses : List Text) (digest : Text) :
    (uses ++ [digest]).dedup = uses.dedup.filter (· != digest) ++ [digest] := by
  induction uses with
  | nil => rfl
  | cons d rest ih =>
    by_cases again : d ∈ rest
    · rw [List.cons_append, List.dedup_cons_of_mem (List.mem_append_left _ again), ih,
        List.dedup_cons_of_mem again]
    · by_cases same : d = digest
      · subst same
        rw [List.cons_append, List.dedup_cons_of_mem (by simp), ih, List.dedup_cons_of_notMem again]
        simp
      · have apart : d ∉ rest ++ [digest] := by simp [again, same]
        rw [List.cons_append, List.dedup_cons_of_notMem apart, ih, List.dedup_cons_of_notMem again,
          List.filter_cons_of_pos (by simpa using same), List.cons_append]

theorem map_others (held : List Held) (digest : Text) :
    (others held digest).map Held.digest = (held.map Held.digest).filter (· != digest) := by
  rw [others, List.filter_map]
  rfl

namespace InOrder

variable {m m' : Recent} {uses : List Text} {digest : Text} {result : Result} {size : Nat}

/-- A digest that is used moves to the end of both. -/
theorem concat (h : m.InOrder uses) {held : List Held} {last : Held} (name : last.digest = digest)
    (suffix : held <:+ others m.held digest ++ [last]) :
    held.map Held.digest <:+ (uses ++ [digest]).dedup := by
  have moved := suffix.map Held.digest
  rw [List.map_append, map_others, List.map_singleton, name] at moved
  rw [dedup_concat]
  obtain ⟨front, parts⟩ := h
  refine moved.trans ⟨front.filter (· != digest), ?_⟩
  rw [← parts, List.filter_append, List.append_assoc]

theorem remember (h : m.InOrder uses) (balanced : m.Balanced) (fits : (size : Int) ≤ m.limit) :
    (m.remember digest result size).InOrder (uses ++ [digest]) :=
  h.concat (rfl : (⟨digest, result, size⟩ : Held).digest = digest)
    (balanced.isLongest_remember fits).suffix

theorem fetch? (h : m.InOrder uses) (found : m.fetch? digest = some (result, m')) :
    m'.InOrder (uses ++ [digest]) := by
  obtain ⟨entry, -, name, -, rfl, -⟩ := exists_of_fetch? found
  exact h.concat name List.suffix_rfl

end InOrder

end Componentry.Recent
