import Mathlib.Data.List.Basic

/-!
Gap lists: the positions of an index range that are still missing, as intervals.

A list is `Ordered` between two bounds if its intervals are non-empty, ascending and
neither overlap nor touch. `removeRange` takes the positions of a range out of every
interval; it removes exactly these positions (`inGaps_removeRange`) and keeps the order
(`Ordered.removeRange`).
-/

namespace RlncStreaming.Lib

/-- The positions from `start` up to, but without, `stop`. -/
structure Interval where
  start : Nat
  stop : Nat
deriving DecidableEq, Repr

/-- Position `i` is missing. -/
def InGaps (gaps : List Interval) (i : Nat) : Prop := ∃ g ∈ gaps, g.start ≤ i ∧ i < g.stop

/-- The intervals lie in order between `lo` and `hi`, and the last one ends just before
`hi`. -/
def Ordered : Nat → List Interval → Nat → Prop
  | lo, [], hi => lo = hi
  | lo, g :: gs, hi => lo ≤ g.start ∧ g.start < g.stop ∧ Ordered (g.stop + 1) gs hi

/-- What is left of one interval without the positions from `a` up to `b`. -/
def Interval.without (g : Interval) (a b : Nat) : List Interval :=
  (if g.start < min a g.stop then [⟨g.start, min a g.stop⟩] else []) ++
    if max b g.start < g.stop then [⟨max b g.start, g.stop⟩] else []

def removeRange (a b : Nat) (gaps : List Interval) : List Interval :=
  gaps.flatMap fun g => g.without a b

variable {gs before after : List Interval} {g : Interval} {lo hi a b i : Nat}

/-! ### Missing positions -/

@[simp] theorem not_inGaps_nil : ¬ InGaps [] i := by simp [InGaps]

@[simp] theorem inGaps_cons : InGaps (g :: gs) i ↔ (g.start ≤ i ∧ i < g.stop) ∨ InGaps gs i := by
  simp [InGaps]

@[simp] theorem inGaps_append : InGaps (before ++ after) i ↔ InGaps before i ∨ InGaps after i := by
  simp [InGaps, or_and_right, exists_or]

/-- An interval that the range meets. -/
theorem Interval.without_eq (ha : a < g.stop) (hb : g.start < b) :
    g.without a b = (if g.start < a then [⟨g.start, a⟩] else []) ++
      if b < g.stop then [⟨b, g.stop⟩] else [] := by
  rw [Interval.without, Nat.min_eq_left (Nat.le_of_lt ha), Nat.max_eq_left (Nat.le_of_lt hb)]

theorem inGaps_without (hab : a < b) :
    InGaps (g.without a b) i ↔ (g.start ≤ i ∧ i < g.stop) ∧ ¬ (a ≤ i ∧ i < b) := by
  rw [Interval.without, inGaps_append]
  split <;> split <;> simp <;> omega

/-- Exactly the positions of the range are removed. -/
theorem inGaps_removeRange (hab : a < b) :
    InGaps (removeRange a b gs) i ↔ InGaps gs i ∧ ¬ (a ≤ i ∧ i < b) := by
  induction gs with
  | nil => simp [removeRange]
  | cons g gs ih =>
    rw [removeRange, List.flatMap_cons, inGaps_append, inGaps_without hab, ← removeRange, ih,
      inGaps_cons]
    tauto

/-! ### Order -/

namespace Ordered

theorem mono {lo' : Nat} (h : Ordered lo gs hi) (hlo : lo' ≤ lo) (hne : gs ≠ []) :
    Ordered lo' gs hi := by
  cases gs with
  | nil => exact absurd rfl hne
  | cons g gs => exact ⟨Nat.le_trans hlo h.1, h.2⟩

theorem le : ∀ {gs : List Interval} {lo : Nat}, Ordered lo gs hi → lo ≤ hi
  | [], _, h => Nat.le_of_eq h
  | g :: gs, lo, ⟨hstart, hstop, hrest⟩ => by
    have hle := le hrest
    omega

theorem append : ∀ {before : List Interval} {lo : Nat},
    Ordered lo (before ++ after) hi ↔ ∃ mid, Ordered lo before mid ∧ Ordered mid after hi
  | [], lo => by simp [Ordered]
  | g :: before, lo => by
    simp only [List.cons_append, Ordered, append, exists_and_left, and_assoc]

variable (h : Ordered lo gs hi)

include h

theorem mem (hg : g ∈ gs) : lo ≤ g.start ∧ g.start < g.stop ∧ g.stop < hi := by
  induction gs generalizing lo with
  | nil => exact absurd hg (by simp)
  | cons g' gs ih =>
    obtain ⟨hstart, hstop, hrest⟩ := h
    have hle := hrest.le
    rcases List.mem_cons.mp hg with rfl | hmem
    · omega
    have := ih hrest hmem
    omega

theorem pairwise : gs.Pairwise fun g g' => g.stop ≤ g'.start := by
  induction gs generalizing lo with
  | nil => exact List.Pairwise.nil
  | cons g gs ih =>
    refine List.pairwise_cons.mpr ⟨fun g' hg' => ?_, ih h.2.2⟩
    have := h.2.2.mem hg'
    omega

theorem bounds (hi' : InGaps gs i) : lo ≤ i ∧ i + 1 < hi := by
  obtain ⟨g, hg, hgi⟩ := hi'
  have := h.mem hg
  omega

/-- The order survives, if the range does not reach the last position. -/
theorem removeRange (hne : gs ≠ []) (hab : a < b) (hb : b + 1 < hi) :
    Ordered lo (Lib.removeRange a b gs) hi := by
  induction gs generalizing lo with
  | nil => exact absurd rfl hne
  | cons g gs ih =>
    obtain ⟨hstart, hstop, hrest⟩ := h
    rw [Lib.removeRange, List.flatMap_cons, ← Lib.removeRange]
    -- What follows this interval may start as early as its remains end.
    have htail : ∀ lo' ≤ g.stop + 1, gs ≠ [] → Ordered lo' (Lib.removeRange a b gs) hi :=
      fun lo' hlo' hne' => ih (hrest.mono hlo' hne') hne'
    rw [Interval.without]
    by_cases hlast : gs = []
    · subst hlast
      have hend : g.stop + 1 = hi := hrest
      rw [if_pos (show max b g.start < g.stop by omega)]
      split
      · refine ⟨hstart, by assumption, ?_, by simp only; omega, ?_⟩
        · simp only
          omega
        · exact hend
      · refine ⟨by simp only; omega, by simp only; omega, ?_⟩
        exact hend
    · split
      · split
        · refine ⟨hstart, by assumption, ?_, by assumption, htail _ (Nat.le_refl _) hlast⟩
          simp only
          omega
        · exact ⟨hstart, by assumption, htail _ (by simp only; omega) hlast⟩
      · split
        · exact ⟨by simp only; omega, by assumption, htail _ (Nat.le_refl _) hlast⟩
        · exact htail lo (by omega) hlast

end Ordered

theorem removeRange_cons : removeRange a b (g :: gs) = g.without a b ++ removeRange a b gs := by
  rw [removeRange, List.flatMap_cons, removeRange]

theorem removeRange_append :
    removeRange a b (before ++ after) = removeRange a b before ++ removeRange a b after := by
  rw [removeRange, List.flatMap_append, removeRange, removeRange]

/-- Intervals that the range does not meet stay as they are. -/
theorem removeRange_eq_self (hab : a < b)
    (h : ∀ g ∈ gs, g.start < g.stop ∧ (g.stop ≤ a ∨ b ≤ g.start)) : removeRange a b gs = gs := by
  induction gs with
  | nil => rfl
  | cons g gs ih =>
    obtain ⟨hlt, hout⟩ := h g List.mem_cons_self
    rw [removeRange_cons, ih fun g' hg' => h g' (List.mem_cons_of_mem _ hg')]
    rcases hout with hleft | hright
    · rw [Interval.without, if_pos (by omega), if_neg (by omega), Nat.min_eq_right hleft]
      rfl
    · rw [Interval.without, if_neg (by omega), if_pos (by omega), Nat.max_eq_right (by omega)]
      rfl

/-- A range may start earlier if nothing is missing there. -/
theorem removeRange_start {a' : Nat} (hle : a' ≤ a) (hgs : ∀ g ∈ gs, g.start < g.stop)
    (h : ∀ i, a' ≤ i → i < a → ¬ InGaps gs i) : removeRange a' b gs = removeRange a b gs := by
  induction gs with
  | nil => rfl
  | cons g gs ih =>
    have hlt := hgs g List.mem_cons_self
    have hout : g.stop ≤ a' ∨ a ≤ g.start ∨ a' = a := by
      by_contra hcon
      exact h (max a' g.start) (by omega) (by omega) (inGaps_cons.mpr (.inl (by omega)))
    rw [removeRange_cons, removeRange_cons, ih (fun g' hg' => hgs g' (List.mem_cons_of_mem _ hg'))
      fun i hlo hhi hin => h i hlo hhi (inGaps_cons.mpr (.inr hin))]
    congr 1
    rcases hout with hleft | hright | rfl
    · rw [Interval.without, Interval.without, Nat.min_eq_right hleft,
        Nat.min_eq_right (Nat.le_trans hleft hle)]
    · rw [Interval.without, Interval.without, if_neg (show ¬ g.start < min a' g.stop by omega),
        if_neg (show ¬ g.start < min a g.stop by omega)]
    · rfl

end RlncStreaming.Lib
