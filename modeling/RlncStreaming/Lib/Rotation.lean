import Mathlib.Algebra.BigOperators.Group.Finset.Basic

/-!
Taking turns around a list.

Each turn visits the first element of the list that satisfies `p`, and then the list is rotated
by one place. If some elements do not satisfy `p`, then the ones behind them come up more often.
With at most two such elements, the numbers of visits stay within one of each other only if there
is nothing to choose, or in one pattern of four elements (`fair_iff`).
-/

namespace RlncStreaming.Lib

open List

variable {α : Type} {p : α → Bool} {l : List α} {x : α}

/-- The elements that the first `n` turns visit. -/
def visits (p : α → Bool) (l : List α) (n : ℕ) : List α :=
  (List.range n).filterMap fun j => (l.rotate j).find? p

/-- At every moment the numbers of visits of any two elements differ by at most one. -/
def Fair [DecidableEq α] (p : α → Bool) (l : List α) : Prop :=
  ∀ n, ∀ x ∈ l, ∀ y ∈ l, p x = true → p y = true →
    (visits p l n).count x ≤ (visits p l n).count y + 1

/-! ### Visits -/

theorem visits_add (m n : ℕ) : visits p l (m + n) = visits p l m ++ visits p (l.rotate m) n := by
  unfold visits
  rw [range_add, filterMap_append, filterMap_map]
  congr 2
  funext j
  rw [Function.comp_apply, rotate_rotate]

theorem visits_succ (n : ℕ) :
    visits p l (n + 1) = visits p l n ++ ((l.rotate n).find? p).toList := by
  unfold visits
  rw [range_succ, filterMap_append]
  congr 1

theorem mem_of_mem_visits {n : ℕ} (h : x ∈ visits p l n) : x ∈ l ∧ p x = true := by
  obtain ⟨j, -, hj⟩ := mem_filterMap.mp h
  exact ⟨mem_rotate.mp (mem_of_find?_eq_some hj), find?_some hj⟩

/-- The turns from the first one on. If it visits nothing, no later one does. -/
theorem visits_step (n : ℕ) : visits p l (n + 1) = (l.find? p).toList ++
    visits p (if (l.find? p).isSome then l.rotate 1 else l) n := by
  have hone : visits p l 1 = (l.find? p).toList := by
    rw [visits_succ, rotate_zero]
    rfl
  rw [Nat.add_comm, visits_add, hone]
  congr 1
  split
  · rfl
  rename_i hnone
  have hnil : ∀ k, visits p (l.rotate k) n = [] := by
    refine fun k => eq_nil_iff_forall_not_mem.mpr fun x hx => hnone ?_
    obtain ⟨hmem, hpx⟩ := mem_of_mem_visits hx
    exact find?_isSome.mpr ⟨x, mem_rotate.mp hmem, hpx⟩
  rw [hnil 1, ← rotate_zero l, hnil 0]

theorem length_visits (hx : x ∈ l) (hp : p x = true) (n : ℕ) : (visits p l n).length = n := by
  induction n with
  | zero => rfl
  | succ n ih =>
    have hsome : ((l.rotate n).find? p).isSome = true := find?_isSome.mpr ⟨x, mem_rotate.mpr hx, hp⟩
    obtain ⟨y, hy⟩ := Option.isSome_iff_exists.mp hsome
    rw [visits_succ, length_append, ih, hy]
    rfl

/-- Where every element satisfies `p`, the turns go through the list. -/
theorem visits_eq_take (hall : ∀ a ∈ l, p a = true) {r : ℕ} (hr : r ≤ l.length) :
    visits p l r = l.take r := by
  induction r with
  | zero => rfl
  | succ r ih =>
    have hfind : (l.rotate r).find? p = some l[r] := by
      rw [rotate_eq_drop_append_take (by omega), drop_eq_getElem_cons hr,
        cons_append, find?_cons_of_pos (hall _ (getElem_mem hr))]
    rw [visits_succ, ih (by omega), hfind, take_succ_eq_append_getElem hr]
    rfl

variable [DecidableEq α]

/-- After a full circle the turns start again. -/
theorem count_visits_mul_add (x : α) (q r : ℕ) :
    (visits p l (q * l.length + r)).count x =
      q * (visits p l l.length).count x + (visits p l r).count x := by
  induction q with
  | zero => rw [Nat.zero_mul, Nat.zero_add, Nat.zero_mul, Nat.zero_add]
  | succ q ih =>
    rw [Nat.succ_mul, Nat.add_comm _ l.length, Nat.add_assoc, visits_add, count_append,
      rotate_length, ih, Nat.succ_mul]
    omega

/-- A circle is made up of the visits of its elements. -/
theorem sum_count_visits (hx : x ∈ l) (hp : p x = true) (n : ℕ) :
    ∑ a ∈ (l.filter p).toFinset, (visits p l n).count a = n := by
  have hsub : ∀ a ∈ (visits p l n : Multiset α), a ∈ (l.filter p).toFinset := by
    intro a ha
    rw [mem_toFinset, mem_filter]
    exact mem_of_mem_visits ha
  have hsum := Multiset.sum_count_eq_card hsub
  rw [Multiset.coe_card, length_visits hx hp] at hsum
  simpa only [Multiset.coe_count] using hsum

/-! ### Fair turns -/

theorem fair_of_forall (hnodup : l.Nodup) (hall : ∀ a ∈ l, p a = true) : Fair p l := by
  intro n x hx y hy _ _
  have hpos : 0 < l.length := length_pos_of_mem hx
  have hcount : ∀ a ∈ l, ∃ k ≤ 1, (visits p l n).count a = n / l.length + k := by
    intro a ha
    refine ⟨(l.take (n % l.length)).count a, ?_, ?_⟩
    · exact (nodup_iff_count_le_one.mp (hnodup.sublist (take_sublist _ _))) a
    have hsplit := count_visits_mul_add (p := p) (l := l) a (n / l.length) (n % l.length)
    rw [Nat.div_add_mod', visits_eq_take hall (Nat.le_refl _), take_length,
      visits_eq_take hall (Nat.le_of_lt (Nat.mod_lt _ hpos)),
      count_eq_one_of_mem hnodup ha, Nat.mul_one] at hsplit
    exact hsplit
  obtain ⟨k, hk, hx⟩ := hcount x hx
  obtain ⟨k', hk', hy⟩ := hcount y hy
  omega

theorem fair_of_filter (hone : (l.filter p).length ≤ 1) : Fair p l := by
  intro n x hx y hy hpx hpy
  have heq : x = y := by
    have hx' := mem_filter.mpr ⟨hx, hpx⟩
    have hy' := mem_filter.mpr ⟨hy, hpy⟩
    obtain ⟨a, ha⟩ : ∃ a, l.filter p = [a] :=
      length_eq_one_iff.mp (Nat.le_antisymm hone (length_pos_of_mem hx'))
    rw [ha, mem_singleton] at hx' hy'
    exact hx'.trans hy'.symm
  rw [heq]
  exact Nat.le_succ _

section Four

variable {a b s t : α}

/-- One circle of `a`, a skipped element, `b` and a skipped element visits `a`, `b`, `b`, `a`. -/
theorem fair_of_alternating (hab : a ≠ b) (ha : p a = true) (hs : p s = false) (hb : p b = true)
    (ht : p t = false) : Fair p [a, s, b, t] := by
  intro n x hx y hy hpx hpy
  have hother : ∀ z ∈ [a, s, b, t], p z = true → z = a ∨ z = b := by
    intro z hz hpz
    simp only [mem_cons, not_mem_nil, or_false] at hz
    rcases hz with rfl | rfl | rfl | rfl
    · exact Or.inl rfl
    · simp [hs] at hpz
    · exact Or.inr rfl
    · simp [ht] at hpz
  have hcircle : visits p [a, s, b, t] 4 = [a, b, b, a] := by
    simp [visits, range_succ, rotate, ha, hs, hb, ht]
  have hba : b ≠ a := hab.symm
  have hrest : ∀ r < 4, (visits p [a, s, b, t] r).count a ≤ (visits p [a, s, b, t] r).count b + 1 ∧
      (visits p [a, s, b, t] r).count b ≤ (visits p [a, s, b, t] r).count a + 1 := by
    intro r hr
    obtain rfl | rfl | rfl | rfl : r = 0 ∨ r = 1 ∨ r = 2 ∨ r = 3 := by omega
    all_goals
      simp [visits, range_succ, rotate, ha, hs, hb, hab, hba]
  have hsplit : ∀ z, (visits p [a, s, b, t] n).count z =
      n / 4 * [a, b, b, a].count z + (visits p [a, s, b, t] (n % 4)).count z := by
    intro z
    have hcircles := count_visits_mul_add (p := p) (l := [a, s, b, t]) z (n / 4) (n % 4)
    rwa [show [a, s, b, t].length = 4 from rfl, Nat.div_add_mod', hcircle] at hcircles
  have hcount : [a, b, b, a].count a = 2 ∧ [a, b, b, a].count b = 2 := by
    simp [hab, hba]
  have hlt := hrest (n % 4) (Nat.mod_lt n (by decide))
  rw [hsplit x, hsplit y]
  rcases hother x hx hpx with rfl | rfl <;> rcases hother y hy hpy with rfl | rfl
  · exact Nat.le_succ _
  · rw [hcount.1, hcount.2]
    omega
  · rw [hcount.1, hcount.2]
    omega
  · exact Nat.le_succ _

end Four

/-- Fair turns visit every element equally often in one circle. -/
theorem Fair.count_circle (hfair : Fair p l) (hx : x ∈ l) (hpx : p x = true) {y : α} (hy : y ∈ l)
    (hpy : p y = true) : (visits p l l.length).count x = (visits p l l.length).count y := by
  have htwice : ∀ z, (visits p l (2 * l.length + 0)).count z = 2 * (visits p l l.length).count z :=
    fun z => count_visits_mul_add z 2 0
  have hxy := hfair (2 * l.length + 0) x hx y hy hpx hpy
  have hyx := hfair (2 * l.length + 0) y hy x hx hpy hpx
  rw [htwice, htwice] at hxy hyx
  omega

/-- So the length of the circle is a multiple of the number of elements visited. -/
theorem Fair.dvd_length (hnodup : l.Nodup) (hfair : Fair p l) (hx : x ∈ l) (hpx : p x = true) :
    (l.filter p).length ∣ l.length := by
  have hsum := sum_count_visits hx hpx l.length
  have hconst : ∀ a ∈ (l.filter p).toFinset,
      (visits p l l.length).count a = (visits p l l.length).count x := by
    intro a ha
    obtain ⟨hal, hpa⟩ := mem_filter.mp (mem_toFinset.mp ha)
    exact hfair.count_circle hal hpa hx hpx
  rw [Finset.sum_const_nat hconst, toFinset_card_of_nodup (hnodup.filter p)] at hsum
  exact ⟨_, hsum.symm⟩

/-- The pattern in which skipped elements do no harm: two elements, and a skipped one behind
each. -/
def Alternating (p : α → Bool) (l : List α) : Prop :=
  ∃ a s b t, l = [a, s, b, t] ∧ p a = true ∧ p s = false ∧ p b = true ∧ p t = false

/-- Of the circles of four with two elements to visit, only the alternating one is fair. -/
theorem Fair.alternating (hnodup : l.Nodup) (hfair : Fair p l) (hfour : l.length = 4)
    (htwo : (l.filter p).length = 2) : Alternating p l := by
  match l, hfour with
  | [a, b, c, d], _ =>
    simp only [nodup_cons, mem_cons, not_mem_nil, or_false, not_or] at hnodup
    obtain ⟨⟨hab, hac, had⟩, ⟨hbc, hbd⟩, hcd, -⟩ := hnodup
    cases ha : p a <;> cases hb : p b <;> cases hc : p c <;> cases hd : p d <;>
      simp [ha, hb, hc, hd] at htwo
    · -- `c` has both skipped elements before it
      have h := hfair 4 c (by simp) d (by simp) hc hd
      simp [visits, range_succ, rotate, ha, hb, hc, hd, hcd, Ne.symm hcd] at h
    · -- each has one before it, and `b` is visited twice in a row
      have h := hfair 2 b (by simp) d (by simp) hb hd
      simp [visits, range_succ, rotate, ha, hb, hbd] at h
    · have h := hfair 4 b (by simp) c (by simp) hb hc
      simp [visits, range_succ, rotate, ha, hb, hc, hd, hbc, Ne.symm hbc] at h
    · have h := hfair 4 d (by simp) a (by simp) hd ha
      simp [visits, range_succ, rotate, ha, hb, hc, hd, had, Ne.symm had] at h
    · exact ⟨a, b, c, d, rfl, ha, hb, hc, hd⟩
    have h := hfair 4 a (by simp) b (by simp) ha hb
    simp [visits, range_succ, rotate, ha, hb, hc, hd, hab, Ne.symm hab] at h

/-- Turns that skip at most two elements are fair exactly where they skip none, where at most one
element is left, or where the circle alternates. -/
theorem fair_iff (hnodup : l.Nodup) (hfew : (l.filter fun a => !p a).length ≤ 2) :
    Fair p l ↔ (∀ a ∈ l, p a = true) ∨ (l.filter p).length ≤ 1 ∨ Alternating p l := by
  constructor
  · intro hfair
    by_cases hall : ∀ a ∈ l, p a = true
    · exact Or.inl hall
    by_cases hone : (l.filter p).length ≤ 1
    · exact Or.inr (Or.inl hone)
    refine Or.inr (Or.inr ?_)
    push Not at hall hone
    obtain ⟨s, hs, hps⟩ := hall
    obtain ⟨x, hx⟩ := exists_mem_of_length_pos (Nat.zero_lt_of_lt hone)
    obtain ⟨hxl, hpx⟩ := mem_filter.mp hx
    have hskipped : 0 < (l.filter fun a => !p a).length :=
      length_pos_of_mem (mem_filter.mpr ⟨hs, by simpa using hps⟩)
    have hlength : (l.filter p).length + (l.filter fun a => !p a).length = l.length := by
      exact (length_eq_length_filter_add p).symm
    have hdvd : (l.filter p).length ∣ (l.filter fun a => !p a).length := by
      rw [← Nat.dvd_add_right (Nat.dvd_refl (l.filter p).length), hlength]
      exact hfair.dvd_length hnodup hxl hpx
    have hle := Nat.le_of_dvd hskipped hdvd
    exact hfair.alternating hnodup (by omega) (by omega)
  · rintro (hall | hone | ⟨a, s, b, t, rfl, ha, hs, hb, ht⟩)
    · exact fair_of_forall hnodup hall
    · exact fair_of_filter hone
    refine fair_of_alternating ?_ ha hs hb ht
    rintro rfl
    simp at hnodup

end RlncStreaming.Lib
