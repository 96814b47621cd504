import Mathlib.Algebra.GroupWithZero.Nat
import Mathlib.Data.List.Basic

/-!
Inputs that are read item by item until nothing is left.

A reader of one item returns what it has read, if that is to be kept, and the rest of the
input. If every item takes something off the input, the number of rounds is bounded by the
length of the input, and reading satisfies the equation of the loop (`readItems_cons`).
Encodings that the reader takes off the input, whatever follows them, can be put one after
another (`readItems_append`).
-/

namespace RlncStreaming.Lib

open List

/-! ### Results -/

section Results

variable {ε α β γ : Type} {b : β}

theorem bind_eq_ok {x : Except ε α} {f : α → Except ε β} :
    (x >>= f) = .ok b ↔ ∃ a, x = .ok a ∧ f a = .ok b := by
  cases x with
  | error e =>
    constructor
    · intro h
      cases h
    · rintro ⟨a, ha, -⟩
      cases ha
  | ok a =>
    constructor
    · exact fun h => ⟨a, rfl, h⟩
    rintro ⟨a', ha, h⟩
    cases ha
    exact h

/-- A check in front of a computation. -/
theorem guard_eq_ok {c : Prop} [Decidable c] {e : ε} {f : γ → Except ε β} {x : Except ε β} :
    (if c then (throw e >>= f) else x) = .ok b ↔ ¬ c ∧ x = .ok b := by
  split
  · next hc =>
    constructor
    · intro h
      cases h
    · exact fun h => absurd hc h.1
  · next hc => exact ⟨fun h => ⟨hc, h⟩, fun h => h.2⟩

theorem map_eq_ok {x : Except ε α} {f : α → β} : x.map f = .ok b ↔ ∃ a, x = .ok a ∧ f a = b := by
  cases x <;> simp [Except.map]

theorem pure_eq_ok {a : β} : (pure a : Except ε β) = .ok b ↔ a = b :=
  ⟨Except.ok.inj, fun h => congrArg Except.ok h⟩

/-- The length of encodings that are written one after another. -/
theorem length_flatten_of_mapM {encode : α → Except ε (List β)} {size : α → Nat} {as : List α}
    {bss : List (List β)} (hmap : as.mapM encode = .ok bss)
    (hsize : ∀ a ∈ as, ∀ bs, encode a = .ok bs → bs.length = size a) :
    bss.flatten.length = (as.map size).sum := by
  induction as generalizing bss with
  | nil =>
    cases hmap
    rfl
  | cons a as ih =>
    simp only [mapM_cons, bind_eq_ok, pure_eq_ok] at hmap
    obtain ⟨bs, hbs, bss, hbss, rfl⟩ := hmap
    rw [flatten_cons, length_append, map_cons, sum_cons,
      hsize a mem_cons_self bs hbs,
      ih hbss fun a' ha' => hsize a' (mem_cons_of_mem a ha')]

end Results

/-! ### Items -/

variable {β ε α : Type} (item : List β → Except ε (Option α × List β))

/-- The loop, for at most so many rounds. -/
def readRounds : Nat → List β → Except ε (List α)
  | _, [] => .ok []
  | 0, _ :: _ => .ok []
  | n + 1, b :: bs => do
    let (a, rest) ← item (b :: bs)
    let as ← readRounds n rest
    return a.toList ++ as

/-- All items of an input. -/
def readItems (bs : List β) : Except ε (List α) := readRounds item bs.length bs

/-- Every item takes something off the input. -/
def Progress : Prop := ∀ bs a rest, item bs = .ok (a, rest) → rest.length < bs.length

variable {item}

/-- What holds of every item that can be read holds of all items of an input. -/
theorem forall_mem_readItems {P : α → Prop}
    (hitem : ∀ bs a rest, item bs = .ok (some a, rest) → P a) {bs : List β} {as : List α}
    (h : readItems item bs = .ok as) : ∀ a ∈ as, P a := by
  rw [readItems] at h
  generalize bs.length = n at h
  induction n generalizing bs as with
  | zero =>
    cases bs with
    | nil =>
      cases h
      simp
    | cons b bs =>
      cases h
      simp
  | succ n ih =>
    cases bs with
    | nil =>
      cases h
      simp
    | cons b bs =>
      simp only [readRounds, bind_eq_ok, pure_eq_ok, Prod.exists] at h
      obtain ⟨a, rest, hread, as', hrounds, rfl⟩ := h
      intro a' hmem
      rcases mem_append.mp hmem with hhere | hlater
      · rw [Option.mem_toList.mp hhere] at hread
        exact hitem _ _ _ hread
      · exact ih hrounds a' hlater

variable (hprogress : Progress item)

include hprogress

/-- The number of rounds does not matter if it is large enough. -/
theorem readRounds_congr {n m : Nat} {bs : List β} (hn : bs.length ≤ n) (hm : bs.length ≤ m)
    : readRounds item n bs = readRounds item m bs := by
  induction n generalizing m bs with
  | zero =>
    obtain rfl := length_eq_zero_iff.mp (Nat.le_zero.mp hn)
    cases m <;> rfl
  | succ n ih =>
    cases bs with
    | nil => cases m <;> rfl
    | cons b bs =>
      cases m with
      | zero => exact absurd hm (Nat.not_succ_le_zero _)
      | succ m =>
        rw [readRounds, readRounds]
        cases hitem : item (b :: bs) with
        | error e => rfl
        | ok result =>
          have hlt := hprogress _ _ _ hitem
          simp only [length_cons] at hn hm hlt
          simp only [bind, Except.bind, ih (m := m) (Nat.le_of_lt_succ (Nat.lt_of_lt_of_le hlt hn))
            (Nat.le_of_lt_succ (Nat.lt_of_lt_of_le hlt hm))]

/-- The equation of the loop. -/
theorem readItems_cons (b : β) (bs : List β) : readItems item (b :: bs) = do
      let (a, rest) ← item (b :: bs)
      let as ← readItems item rest
      return a.toList ++ as := by
  rw [readItems, length_cons, readRounds]
  cases hitem : item (b :: bs) with
  | error e => rfl
  | ok result =>
    have hlt := hprogress _ _ _ hitem
    rw [length_cons] at hlt
    simp only [bind, Except.bind, readItems,
      readRounds_congr hprogress (Nat.le_of_lt_succ hlt) (Nat.le_refl result.2.length)]

/-- What the reader takes off the front of an input comes first. -/
theorem readItems_append {enc rest : List β} {a : Option α} {as : List α}
    (hitem : item (enc ++ rest) = .ok (a, rest)) (hrest : readItems item rest = .ok as) :
    readItems item (enc ++ rest) = .ok (a.toList ++ as) := by
  cases hbs : enc ++ rest with
  | nil =>
    have hlt := hprogress _ _ _ hitem
    rw [hbs] at hlt
    exact absurd hlt (Nat.not_lt_zero _)
  | cons b bs =>
    rw [readItems_cons hprogress, ← hbs, hitem]
    simp only [bind, Except.bind, hrest]
    rfl

end RlncStreaming.Lib
