import RlncStreaming.Lib.Checked

/-!
The rate that is chosen for the next segment (`algorithms/`).

Rates are indexes into the bandwidth list of the representations, the highest one first. Most
algorithms estimate a rate and take the first representation below it
(`selectRepRateWithThroughtput`). Logistic and BBA also look at the rate in use. What they compute
with floating point numbers is given to the model as `Measured`.

No algorithm but Arbiter leaves the list (`nextRepRate_mem`).
-/

namespace RlncStreaming.Godash

open List

inductive Adapt
  | conventional
  | elastic
  | progressive
  | test
  | bba
  | arbiter
  | logistic
  | average
  | geometric
  | exponential
  /-- A name that no case of the `switch` has. -/
  | other
  deriving DecidableEq, Repr

/-- What an algorithm has measured. -/
structure Measured where
  /-- The estimate of Conventional, of Elastic and of the averages. -/
  thr : Int
  /-- The buffer has reached the share of its maximum above which no target is computed. -/
  full : Bool
  /-- The target of Logistic and BBA, as it is compared with the bandwidths. -/
  target : Int
  /-- BBA: the download took longer than the segment lasts. -/
  slow : Bool
  /-- BBA: the buffer is below the reservoir. -/
  below : Bool
  /-- BBA: the download took less than an eighth of the segment. -/
  quick : Bool
  /-- BBA: the download took at most half of the segment. -/
  half : Bool
  /-- The choice of Arbiter. -/
  arbiter : Int
  deriving Inhabited

/-- The first entry but the last that is below the estimate, from index `i` on. -/
def selectFrom (thr : Int) : Int → List Int → Option Int
  | i, b :: b' :: bs => if b < thr then some i else selectFrom thr (i + 1) (b' :: bs)
  | _, _ => none

/-- The loop stops before the last index, so its case for a low estimate is never reached. -/
def selectRepRateWithThroughtput (thr : Int) (bandwithList : List Int)
    (lowestMPDrepRateIndex : Int) : Int :=
  (selectFrom thr 0 bandwithList).getD lowestMPDrepRateIndex

/-- One step from the rate in use towards the optimal one. -/
def towards (lastRateIndex highestMPDrepRateIndex lowestMPDrepRateIndex optRateIndex : Int) : Int :=
  if optRateIndex = 0 then
    if lastRateIndex ≤ lowestMPDrepRateIndex then lowestMPDrepRateIndex else lastRateIndex - 1
  else if optRateIndex ≤ min (lastRateIndex + 1) lowestMPDrepRateIndex then optRateIndex
  else if optRateIndex ≥ max (lastRateIndex - 1) highestMPDrepRateIndex then optRateIndex - 1
  else optRateIndex

/-- `LogisticFunction`, and `bba1VRAA` with other numbers. -/
def logisticFunction (m : Measured) (lastRateIndex : Int) (bandwithList : List Int)
    (highestMPDrepRateIndex lowestMPDrepRateIndex : Int) : Int :=
  towards lastRateIndex highestMPDrepRateIndex lowestMPDrepRateIndex
    (if m.full then 0 else selectRepRateWithThroughtput m.target bandwithList lowestMPDrepRateIndex)

def calculateSelectedIndexBba (m : Measured) (lastRate : Int) (bandwithList : List Int)
    (highestMPDrepRateIndex lowestMPDrepRateIndex : Int) : Int :=
  if m.below then
    if m.slow then bandwithList.length - 1
    else if m.quick then max (lastRate - 1) 0
    else lastRate
  else if m.slow then
    logisticFunction m lastRate bandwithList highestMPDrepRateIndex lowestMPDrepRateIndex
  else
    min (logisticFunction m lastRate bandwithList highestMPDrepRateIndex lowestMPDrepRateIndex)
      (if m.half then max (lastRate - 1) 0 else bandwithList.length - 1)

/-- The rate after a segment. -/
def nextRepRate (adapt : Adapt) (m : Measured) (repRate : Int) (bandwithList : List Int)
    (highestMPDrepRateIndex lowestMPDrepRateIndex : Int) : Int :=
  match adapt with
  | .conventional | .progressive | .elastic | .average | .geometric | .exponential =>
    selectRepRateWithThroughtput m.thr bandwithList lowestMPDrepRateIndex
  | .logistic =>
    logisticFunction m repRate bandwithList highestMPDrepRateIndex lowestMPDrepRateIndex
  | .bba =>
    calculateSelectedIndexBba m repRate bandwithList highestMPDrepRateIndex lowestMPDrepRateIndex
  | .arbiter => m.arbiter
  | .test | .other => repRate

/-! ### Choices are in range -/

/-- The indexes of the bandwidth list. -/
def InList (bandwithList : List Int) (i : Int) : Prop := 0 ≤ i ∧ i ≤ bandwithList.length - 1

theorem selectFrom_bounds {thr i j : Int} {bs : List Int} (h : selectFrom thr i bs = some j) :
    i ≤ j ∧ j < i + bs.length - 1 := by
  induction bs generalizing i with
  | nil => cases h
  | cons b bs ih =>
    cases bs with
    | nil => cases h
    | cons b' bs =>
      rw [selectFrom] at h
      rw [length_cons] at ih ⊢
      split at h
      · cases h
        rw [length_cons]
        omega
      · have := ih h
        rw [length_cons]
        omega

theorem inList_select {bandwithList : List Int} {lowest : Int}
    (hlowest : InList bandwithList lowest) (thr : Int) :
    InList bandwithList (selectRepRateWithThroughtput thr bandwithList lowest) := by
  unfold selectRepRateWithThroughtput
  cases h : selectFrom thr 0 bandwithList with
  | none => exact hlowest
  | some j =>
    have := selectFrom_bounds h
    show InList bandwithList j
    unfold InList
    omega

/-! ### The nearest rate below the estimate -/

/-- The entry at index `i` is the largest one below the estimate, or the least one of a list
without an entry below it. -/
def Nearest (bandwithList : List Int) (thr i : Int) : Prop :=
  ∃ (k : Nat) (b : Int), i = k ∧ bandwithList[k]? = some b ∧
    (b < thr ∧ (∀ x ∈ bandwithList, x < thr → x ≤ b) ∨ ∀ x ∈ bandwithList, thr ≤ x ∧ b ≤ x)

/-- An entry that is above an earlier one stands before that one, too. The last entry is a least
one. -/
def NearestFirst (bandwithList : List Int) : Prop :=
  ∀ pre b post, bandwithList = pre ++ b :: post →
    (∀ x ∈ post, x ≤ b ∨ x ∈ pre) ∧ (post = [] → ∀ x ∈ pre, b ≤ x)

/-- The scan passes the entries from the estimate on and stops at the last entry at the latest. -/
theorem selectFrom_split (thr i first : Int) (rest : List Int) :
    ∃ pre b post, first :: rest = pre ++ b :: post ∧ (∀ x ∈ pre, thr ≤ x) ∧
      (b < thr ∨ post = []) ∧
      (selectFrom thr i (first :: rest)).getD (i + rest.length) = i + pre.length := by
  induction rest generalizing i first with
  | nil => exact ⟨[], first, [], rfl, by simp, Or.inr rfl, rfl⟩
  | cons b' bs ih =>
    rw [selectFrom]
    split
    · next hlt => exact ⟨[], first, b' :: bs, rfl, by simp, Or.inl hlt, by simp⟩
    rename_i hge
    obtain ⟨pre, b, post, hsplit, hpre, hb, hselect⟩ := ih (i + 1) b'
    refine ⟨first :: pre, b, post, by rw [hsplit, cons_append],
      forall_mem_cons.mpr ⟨Int.not_lt.mp hge, hpre⟩, hb, ?_⟩
    rw [length_cons, length_cons,
      show i + ((bs.length + 1 : Nat) : Int) = i + 1 + bs.length by omega, hselect]
    omega

/-- Which lists have the nearest rate selected for every estimate. -/
theorem select_nearest_iff (first : Int) (rest : List Int) :
    (∀ thr, Nearest (first :: rest) thr
      (selectRepRateWithThroughtput thr (first :: rest) rest.length)) ↔
      NearestFirst (first :: rest) := by
  have hscan := fun thr => selectFrom_split thr 0 first rest
  simp only [Int.zero_add] at hscan
  unfold selectRepRateWithThroughtput
  generalize first :: rest = bs at *
  constructor
  · rintro hnearest pre b post rfl
    constructor
    · intro x hx
      -- The estimate just above `x` selects `x`, not later than at `b`.
      refine or_iff_not_imp_left.mpr fun hlt => ?_
      obtain ⟨pre', b', post', hsplit, hpre, -, hselect⟩ := hscan (x + 1)
      obtain ⟨k, _, hk, hget, hcase⟩ := hnearest (x + 1)
      obtain rfl : k = pre'.length := by omega
      have hxmem : x ∈ pre ++ b :: post := by simp [hx]
      rw [hsplit, getElem?_append_right (Nat.le_refl _), Nat.sub_self] at hget
      cases hget
      obtain rfl : b' = x := by
        rcases hcase with ⟨hlow, hle⟩ | hall
        · have := hle x hxmem (by omega)
          omega
        · have := (hall x hxmem).1
          omega
      rcases append_eq_append_iff.mp hsplit with ⟨as, rfl, has⟩ | ⟨as, rfl, has⟩
      · cases as with
        | nil => cases has; omega
        | cons a as =>
            cases has
            have := hpre b (by simp)
            omega
      · cases as with
        | nil => cases has; omega
        | cons a as => cases has; simp
    · rintro rfl x hx
      -- The estimate that no entry is below selects the last one.
      have hthr {y : Int} (hy : y ∈ pre ++ [b]) : (pre ++ [b]).min (by simp) ≤ y :=
        min_le_of_mem hy
      generalize (pre ++ [b]).min _ = thr at hthr
      obtain ⟨pre', b', post', hsplit, -, hb, hselect⟩ := hscan thr
      have hb' := hthr (by rw [hsplit]; simp : b' ∈ pre ++ [b])
      obtain rfl := hb.resolve_left (by omega)
      obtain ⟨rfl, hlast⟩ := append_inj' hsplit rfl
      cases hlast
      obtain ⟨k, _, hk, hget, hcase⟩ := hnearest thr
      obtain rfl : k = pre.length := by omega
      rw [getElem?_append_right (Nat.le_refl _), Nat.sub_self] at hget
      cases hget
      exact ((hcase.resolve_left (by omega)) x (by simp [hx])).2
  · intro hfirst thr
    obtain ⟨pre, b, post, rfl, hpre, hb, hselect⟩ := hscan thr
    obtain ⟨hpost, hlast⟩ := hfirst pre b post rfl
    refine ⟨pre.length, b, hselect, by simp, ?_⟩
    rcases Int.lt_or_le b thr with hlt | hge
    · refine Or.inl ⟨hlt, fun x hx hxlt => ?_⟩
      have hout : x ∉ pre := fun hmem => absurd (hpre x hmem) (by omega)
      rcases mem_append.mp hx with hmem | hmem
      · exact absurd hmem hout
      rcases mem_cons.mp hmem with rfl | hmem
      · exact Int.le_refl x
      · exact (hpost x hmem).resolve_right hout
    · obtain rfl := hb.resolve_left (by omega)
      refine Or.inr fun x hx => ?_
      rcases mem_append.mp hx with hmem | hmem
      · exact ⟨hpre x hmem, hlast rfl x hmem⟩
      obtain rfl := mem_singleton.mp hmem
      exact ⟨hge, Int.le_refl x⟩

/-- A list whose first entry is not below its last one. -/
theorem select_not_nearest :
    let bandwithList : List Int := [4, 1, 3, 0]
    bandwithList[3] ≤ bandwithList[0] ∧
      ¬ Nearest bandwithList 4 (selectRepRateWithThroughtput 4 bandwithList 3) := by
  refine ⟨by decide, fun ⟨k, b, hk, hget, hcase⟩ => ?_⟩
  obtain rfl : k = 1 := by
    have : selectRepRateWithThroughtput 4 [4, 1, 3, 0] 3 = 1 := rfl
    omega
  cases hget
  rcases hcase with ⟨-, hle⟩ | hall
  · exact absurd (hle 3 (by decide) (by decide)) (by decide)
  · exact absurd (hall 0 (by decide)).1 (by decide)

/-! ### A better target -/

/-- The optimal rate 0 is answered with the lowest one, so only two rates keep their order. -/
theorem towards_monotone_iff {last highest lowest : Int} (hhighest : 0 ≤ highest)
    (hlast : highest ≤ last) (hlowest : last ≤ lowest) :
    ((∀ opt opt', 0 ≤ opt → opt ≤ opt' → opt' ≤ lowest →
      towards last highest lowest opt ≤ towards last highest lowest opt') ↔ lowest ≤ 1) ∧
    ((∀ opt, 0 ≤ opt → opt ≤ lowest →
      towards last highest lowest 0 ≤ towards last highest lowest opt) ↔ lowest ≤ 1) := by
  have hzero : towards last highest lowest 0 = lowest := by
    rw [towards, if_pos rfl, if_pos hlowest]
  have hone (h : 1 ≤ lowest) : towards last highest lowest 1 = 1 := by
    rw [towards, if_neg (by decide), if_pos (by omega)]
  have hfew {opt : Int} (h : lowest ≤ 1) (hopt : 0 ≤ opt) (hle : opt ≤ lowest) :
      towards last highest lowest opt = lowest := by
    obtain rfl | ⟨rfl, rfl⟩ : opt = 0 ∨ opt = 1 ∧ lowest = 1 := by omega
    · exact hzero
    · exact hone (Int.le_refl 1)
  refine ⟨⟨fun hmono => ?_, fun h opt opt' hopt hle hopt' => ?_⟩, fun hmono => ?_,
    fun h opt hopt hle => ?_⟩
  · by_contra hlt
    have := hmono 0 1 (by decide) (by decide) (by omega)
    rw [hzero, hone (by omega)] at this
    omega
  · exact Int.le_of_eq ((hfew h hopt (by omega)).trans (hfew h (by omega) hopt').symm)
  · by_contra hlt
    have := hmono 1 (by decide) (by omega)
    rw [hzero, hone (by omega)] at this
    omega
  · exact Int.le_of_eq (hzero.trans (hfew h hopt hle).symm)

theorem towards_monotone_pair : towards 0 0 1 0 ≤ towards 0 0 1 1 :=
  (towards_monotone_iff (by decide) (by decide) (by decide)).1.mpr (by decide) 0 1 (by decide)
    (by decide) (by decide)

/-- A full buffer leads to the lowest of three rates, a less full one to the middle rate. -/
theorem full_buffer_lowers : ¬ towards 1 0 2 0 ≤ towards 1 0 2 1 := by decide

end RlncStreaming.Godash
