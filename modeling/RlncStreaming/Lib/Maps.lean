import Mathlib.Data.List.Nodup
import Mathlib.Data.List.Perm.Basic

/-!
Maps that are iterated over in any order.

A map is its lookup function. A loop over a map meets each key once, in an order of its own
(`Lists`), so the values that two loops meet are the same up to a permutation. A loop that
rewrites the values one by one rewrites all of them (`foldl_modify`).

A map may also be kept as a list of items that know their keys. `dropKey` takes the item of a
key out of it.
-/

namespace RlncStreaming.Lib

open List Function

variable {κ α : Type} {m : κ → Option α} {ks ks' : List κ}

/-- The keys of a map in the order of one iteration. -/
structure Lists (m : κ → Option α) (ks : List κ) : Prop where
  nodup : ks.Nodup
  mem_iff : ∀ k, k ∈ ks ↔ (m k).isSome = true

/-- The values that an iteration meets. -/
def values (m : κ → Option α) (ks : List κ) : List α := ks.filterMap m

theorem Lists.perm (h : Lists m ks) (h' : Lists m ks') : ks.Perm ks' :=
  (perm_ext_iff_of_nodup h.nodup h'.nodup).mpr fun k => (h.mem_iff k).trans (h'.mem_iff k).symm

theorem Lists.values_perm (h : Lists m ks) (h' : Lists m ks') :
    (values m ks).Perm (values m ks') := (h.perm h').filterMap m

theorem Lists.mem_values_iff (h : Lists m ks) {a : α} : a ∈ values m ks ↔ ∃ k, m k = some a := by
  rw [values, mem_filterMap]
  constructor
  · rintro ⟨k, -, hk⟩
    exact ⟨k, hk⟩
  · rintro ⟨k, hk⟩
    exact ⟨k, (h.mem_iff k).mpr (by rw [hk]; rfl), hk⟩

theorem Lists.length_values (h : Lists m ks) : (values m ks).length = ks.length := by
  have hsome : ∀ k ∈ ks, (m k).isSome = true := fun k hk => (h.mem_iff k).mp hk
  clear h
  rw [values]
  induction ks with
  | nil => rfl
  | cons k ks ih =>
    obtain ⟨a, ha⟩ := Option.isSome_iff_exists.mp (hsome k mem_cons_self)
    rw [filterMap_cons_some ha, length_cons, length_cons,
      ih fun k' hk' => hsome k' (mem_cons_of_mem k hk')]

/-- Maps with the same keys are listed alike. -/
theorem Lists.of_isSome {m' : κ → Option α} (h : Lists m ks)
    (hsome : ∀ k, (m' k).isSome = (m k).isSome) : Lists m' ks :=
  ⟨h.nodup, fun k => by rw [h.mem_iff, hsome]⟩

theorem Lists.of_perm (h : Lists m ks) (hperm : ks.Perm ks') : Lists m ks' :=
  ⟨hperm.nodup_iff.mp h.nodup, fun k => by rw [← hperm.mem_iff, h.mem_iff]⟩

section

variable [DecidableEq κ] (h : Lists m ks)

include h

/-- An iteration may start with any key. -/
theorem Lists.start {k : κ} (hk : (m k).isSome = true) : Lists m (k :: ks.erase k) :=
  h.of_perm (perm_cons_erase ((h.mem_iff k).mpr hk))

/-- An iteration may end with any key. -/
theorem Lists.finish {k : κ} (hk : (m k).isSome = true) : Lists m (ks.erase k ++ [k]) :=
  (h.start hk).of_perm (perm_append_singleton k (ks.erase k)).symm

/-- A new key is listed at the end. -/
theorem Lists.update_some {k : κ} (hk : m k = none) (a : α) :
    Lists (update m k (some a)) (ks ++ [k]) := by
  have hnew : k ∉ ks := fun hmem => by simpa [hk] using (h.mem_iff k).mp hmem
  refine ⟨?_, fun k' => ?_⟩
  · rw [nodup_append]
    refine ⟨h.nodup, nodup_singleton k, fun k' hk' k'' hk'' => ?_⟩
    rintro rfl
    exact hnew (mem_singleton.mp hk'' ▸ hk')
  · by_cases heq : k' = k
    · subst heq
      simp
    · rw [update_of_ne heq, ← h.mem_iff]
      simp [heq]

/-- A key that is removed is no longer listed. -/
theorem Lists.update_none (k : κ) : Lists (update m k none) (ks.erase k) := by
  refine ⟨h.nodup.erase k, fun k' => ?_⟩
  rw [h.nodup.mem_erase_iff, h.mem_iff]
  by_cases heq : k' = k
  · subst heq
    simp
  · rw [update_of_ne heq]
    simp [heq]

end

/-- Two maps whose entries are related are updated at one key. -/
theorem rel_update {β : Type} [DecidableEq κ] {m' : κ → Option β}
    {R : κ → Option α → Option β → Prop} (h : ∀ k, R k (m k) (m' k)) {k : κ} {o : Option α}
    {o' : Option β} (hk : R k o o') (k' : κ) :
    R k' (update m k o k') (update m' k o' k') := by
  by_cases heq : k' = k
  · rw [heq, update_self, update_self]
    exact hk
  · rw [update_of_ne heq, update_of_ne heq]
    exact h k'

/-- A map that is given by its entries. -/
theorem lists_lookup [BEq κ] [LawfulBEq κ] (entries : List (κ × α))
    (hnodup : (entries.map Prod.fst).Nodup) :
    Lists (fun k => entries.lookup k) (entries.map Prod.fst) := by
  refine ⟨hnodup, fun k => ?_⟩
  rw [mem_map]
  induction entries with
  | nil => simp
  | cons entry entries ih =>
    have htail := ih (nodup_cons.mp hnodup).2
    rw [lookup_cons]
    by_cases hk : k = entry.1
    · subst hk
      simp
    · rw [beq_eq_false_iff_ne.mpr hk, ← htail]
      simp [Ne.symm hk]

section Modify

variable [DecidableEq κ]

section

variable (m : κ → Option α)

/-- The value under one key is rewritten. -/
def modify (k : κ) (f : α → α) : κ → Option α :=
  fun k' => if k' = k then (m k).map f else m k'

theorem modify_self (k : κ) (f : α → α) : modify m k f k = (m k).map f := if_pos rfl

theorem modify_of_ne {k k' : κ} (h : k' ≠ k) (f : α → α) : modify m k f k' = m k' := if_neg h

theorem modify_isSome (k k' : κ) (f : α → α) : (modify m k f k').isSome = (m k').isSome := by
  by_cases h : k' = k
  · rw [h, modify_self, Option.isSome_map]
  · rw [modify_of_ne m h]

end

/-- A property of all values, after one of them was rewritten. -/
theorem forall_modify {P : α → Prop} {k : κ} {f : α → α} (h : ∀ k' a, m k' = some a → P a)
    (hf : ∀ a, m k = some a → P (f a)) : ∀ k' a, modify m k f k' = some a → P a := by
  intro k' a ha
  by_cases hk : k' = k
  · rw [hk, modify_self] at ha
    obtain ⟨a₀, ha₀, rfl⟩ := Option.map_eq_some_iff.mp ha
    exact hf a₀ ha₀
  · rw [modify_of_ne m hk] at ha
    exact h k' a ha

/-- A loop that rewrites the values of the listed keys. -/
theorem foldl_modify (f : α → α) (hnodup : ks.Nodup) (m : κ → Option α) (k : κ) :
    ks.foldl (fun m k => modify m k f) m k = if k ∈ ks then (m k).map f else m k := by
  induction ks generalizing m with
  | nil => simp
  | cons k₀ ks ih =>
    obtain ⟨hhead, htail⟩ := nodup_cons.mp hnodup
    rw [foldl_cons, ih htail]
    by_cases h : k = k₀
    · subst h
      rw [if_neg hhead, modify_self, if_pos mem_cons_self]
    · rw [modify_of_ne m h]
      simp [h]

/-- A loop over the whole map rewrites every value. -/
theorem Lists.foldl_modify (h : Lists m ks) (f : α → α) (k : κ) :
    ks.foldl (fun m k => modify m k f) m k = (m k).map f := by
  rw [Lib.foldl_modify f h.nodup]
  split
  · rfl
  rename_i hk
  rw [h.mem_iff, Option.not_isSome_iff_eq_none] at hk
  rw [hk]
  rfl

end Modify

/-! ### Items with keys -/

section DropKey

variable [DecidableEq κ] (key : α → κ)

/-- The list without the first item of key `k`. -/
def dropKey (k : κ) (l : List α) : List α := l.eraseP fun a => decide (key a = k)

variable {key} {l : List α} {a : α}

theorem dropKey_sublist (k : κ) : (dropKey key k l).Sublist l := eraseP_sublist

theorem perm_dropKey (hkeys : (l.map key).Nodup) (ha : a ∈ l) :
    l.Perm (a :: dropKey key (key a) l) := by
  obtain ⟨b, before, after, -, hb, hl, hdrop⟩ :=
    exists_of_eraseP (p := fun b => decide (key b = key a)) ha (by simp)
  have hmem : b ∈ l := by rw [hl]; simp
  obtain rfl : b = a := inj_on_of_nodup_map hkeys hmem ha (of_decide_eq_true hb)
  rw [dropKey, hdrop, hl]
  exact perm_middle

end DropKey

end RlncStreaming.Lib
