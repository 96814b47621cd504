import Mathlib.Data.Int.Init
import Mathlib.Data.List.Nodup
import RlncStreaming.Lib.Items

/-!
Programs that the runtime may stop.

An index out of range and a division by zero stop a program, and it can leave by itself. `index`,
`quot` and `rem` are the checked operations. `upTo` is the range of a counting loop. A loop whose
body computes a value and then updates a state ends just if every value is there, and then it
is the fold over these values (`foldlM_eq_ok`).
-/

namespace RlncStreaming.Lib

open List

/-- Why a program has not returned. -/
inductive Stop
  | outOfRange
  | divideByZero
  /-- It has left by itself. -/
  | exit
  /-- It is still running after the steps that it was given. -/
  | running
  deriving DecidableEq, Repr

abbrev Go := Except Stop

variable {α : Type}

def index (a : List α) (i : Int) : Go α :=
  if i < 0 then .error .outOfRange
  else match a[i.toNat]? with
    | some x => .ok x
    | none => .error .outOfRange

/-- Division rounds towards zero. -/
def quot (a b : Int) : Go Int := if b = 0 then .error .divideByZero else .ok (a.tdiv b)

def rem (a b : Int) : Go Int := if b = 0 then .error .divideByZero else .ok (a.tmod b)

/-- A result that must be there, or the program leaves. -/
def orExit : Option α → Go α
  | some a => .ok a
  | none => .error .exit

theorem index_eq_ok {a : List α} {i : Int} {x : α} :
    index a i = .ok x ↔ 0 ≤ i ∧ a[i.toNat]? = some x := by
  unfold index
  split
  · next hneg =>
    constructor
    · intro h
      cases h
    · rintro ⟨hnonneg, -⟩
      omega
  rename_i hnonneg
  constructor
  · intro h
    split at h
    · next y hy =>
      cases h
      exact ⟨by omega, hy⟩
    · cases h
  · rintro ⟨-, hx⟩
    rw [hx]

/-- An index is in range, or it stops the program. -/
theorem index_ok_iff {a : List α} {i : Int} : (∃ x, index a i = .ok x) ↔ 0 ≤ i ∧ i < a.length := by
  constructor
  · rintro ⟨x, hx⟩
    obtain ⟨hnonneg, hget⟩ := index_eq_ok.mp hx
    have hlt := (List.getElem?_eq_some_iff.mp hget).1
    omega
  · rintro ⟨hnonneg, hlt⟩
    have hlt' : i.toNat < a.length := by omega
    exact ⟨a[i.toNat], index_eq_ok.mpr ⟨hnonneg, getElem?_eq_getElem hlt'⟩⟩

theorem index_natCast {a : List α} {n : Nat} {x : α} :
    index a (n : Int) = .ok x ↔ a[n]? = some x := by
  rw [index_eq_ok, Int.toNat_natCast]
  exact ⟨fun h => h.2, fun h => ⟨Int.natCast_nonneg n, h⟩⟩

theorem index_eq_error {a : List α} {i : Int} {e : Stop} (h : index a i = .error e) :
    e = .outOfRange := by
  unfold index at h
  split at h
  · cases h
    rfl
  split at h
  · cases h
  cases h
  rfl

theorem index_nil (i : Int) : index ([] : List α) i = .error .outOfRange := by
  unfold index
  split <;> rfl

theorem index_mem {a : List α} {i : Int} {x : α} (h : index a i = .ok x) : x ∈ a :=
  mem_of_getElem? (index_eq_ok.mp h).2

theorem quot_eq_ok {a b q : Int} : quot a b = .ok q ↔ b ≠ 0 ∧ a.tdiv b = q := by
  unfold quot
  split
  · next hzero =>
    constructor
    · intro h
      cases h
    · exact fun h => absurd hzero h.1
  · next hne => exact ⟨fun h => ⟨hne, Except.ok.inj h⟩, fun h => congrArg Except.ok h.2⟩

theorem orExit_eq_ok {o : Option α} {x : α} : orExit o = .ok x ↔ o = some x := by
  cases o with
  | none =>
    constructor
    · intro h
      cases h
    · intro h
      cases h
  | some y =>
    exact ⟨fun h => congrArg some (Except.ok.inj h), fun h => congrArg _ (Option.some.inj h)⟩

/-! ### Counting loops -/

/-- `for i := lo; i <= hi; i++`. -/
def upTo (lo hi : Int) : List Int := (List.range (hi - lo + 1).toNat).map fun n : Nat => lo + n

theorem mem_upTo {lo hi i : Int} : i ∈ upTo lo hi ↔ lo ≤ i ∧ i ≤ hi := by
  unfold upTo
  rw [mem_map]
  constructor
  · rintro ⟨n, hn, rfl⟩
    rw [mem_range] at hn
    omega
  · rintro ⟨hlo, hhi⟩
    refine ⟨(i - lo).toNat, ?_, by omega⟩
    rw [mem_range]
    omega

theorem length_upTo (lo hi : Int) : (upTo lo hi).length = (hi - lo + 1).toNat := by
  rw [upTo, length_map, length_range]

theorem getElem?_upTo {lo hi : Int} {n : Nat} (h : lo + n ≤ hi) :
    (upTo lo hi)[n]? = some (lo + n) := by
  rw [upTo, getElem?_map, getElem?_range (by omega)]
  rfl

theorem nodup_upTo (lo hi : Int) : (upTo lo hi).Nodup := by
  apply List.Nodup.map _ nodup_range
  intro m n h
  simp only at h
  omega

theorem upTo_eq_nil {lo hi : Int} (h : hi < lo) : upTo lo hi = [] := by
  rw [upTo, Int.toNat_of_nonpos (by omega)]
  rfl

theorem upTo_cons {lo hi : Int} (h : lo ≤ hi) : ∃ is, upTo lo hi = lo :: is := by
  obtain ⟨n, hn⟩ : ∃ n, (hi - lo + 1).toNat = n + 1 := ⟨(hi - lo).toNat, by omega⟩
  rw [upTo, hn, range_succ_eq_map, map_cons]
  exact ⟨_, by rw [Int.natCast_zero, Int.add_zero]⟩

variable {ι υ σ : Type}

/-- A loop that computes a value in each round, and then updates its state. -/
theorem foldlM_eq_ok {value : ι → Go υ} {step : σ → ι → υ → σ} [Inhabited υ] {is : List ι}
    {s s' : σ} : is.foldlM (fun s i => value i >>= fun v => pure (step s i v)) s = .ok s' ↔
      (∀ i ∈ is, value i = .ok ((value i).toOption.getD default)) ∧
        s' = is.foldl (fun s i => step s i ((value i).toOption.getD default)) s := by
  induction is generalizing s with
  | nil => exact ⟨fun h => ⟨nofun, (Except.ok.inj h).symm⟩, fun h => congrArg _ h.2.symm⟩
  | cons i is ih =>
    rw [foldlM_cons, foldl_cons, forall_mem_cons, and_assoc]
    cases hv : value i with
    | error e => exact ⟨nofun, fun h => nomatch h.1⟩
    | ok v => exact ih.trans ⟨fun h => ⟨rfl, h⟩, fun h => h.2⟩

/-- What every round keeps holds at the end of a loop. -/
theorem foldlM_keeps {P : σ → Prop} {f : σ → ι → Go σ} {is : List ι} {s s' : σ}
    (hstep : ∀ s i s', P s → f s i = .ok s' → P s') (hs : P s) (h : is.foldlM f s = .ok s') :
    P s' := by
  induction is generalizing s with
  | nil =>
    cases h
    exact hs
  | cons i is ih =>
    rw [foldlM_cons, bind_eq_ok] at h
    obtain ⟨s₁, hfirst, hrest⟩ := h
    exact ih (hstep s i s₁ hs hfirst) hrest

theorem findM?_ok {p : ι → Go Bool} {is : List ι} (h : ∀ i ∈ is, ∃ b, p i = .ok b) :
    ∃ r, is.findM? p = .ok r := by
  induction is with
  | nil => exact ⟨none, rfl⟩
  | cons i is ih =>
    obtain ⟨b, hb⟩ := h i mem_cons_self
    rw [findM?, hb]
    cases b with
    | false => exact ih fun j hj => h j (mem_cons_of_mem i hj)
    | true => exact ⟨some i, rfl⟩

/-- Every element has its value. -/
theorem length_of_mapM {f : ι → Go υ} {is : List ι} {vs : List υ} (h : is.mapM f = .ok vs) :
    vs.length = is.length := by
  induction is generalizing vs with
  | nil =>
    cases h
    rfl
  | cons i is ih =>
    rw [mapM_cons] at h
    obtain ⟨v, -, h⟩ := bind_eq_ok.mp h
    obtain ⟨vs', hrest, h⟩ := bind_eq_ok.mp h
    cases pure_eq_ok.mp h
    rw [length_cons, length_cons, ih hrest]

/-- A loop over two states that do not look at each other. -/
theorem foldl_pair {τ : Type} (f : σ → ι → σ) (g : τ → ι → τ) (is : List ι) (s : σ) (t : τ) :
    is.foldl (fun st i => (f st.1 i, g st.2 i)) (s, t) = (is.foldl f s, is.foldl g t) := by
  induction is generalizing s t with
  | nil => rfl
  | cons i is ih => exact ih (f s i) (g t i)

/-- The last round of a counting loop. -/
theorem upTo_succ {lo hi : Int} (h : lo ≤ hi) : upTo lo hi = upTo lo (hi - 1) ++ [hi] := by
  unfold upTo
  have hcount : (hi - lo + 1).toNat = (hi - 1 - lo + 1).toNat + 1 := by omega
  have hlast : lo + ((hi - 1 - lo + 1).toNat : Int) = hi := by omega
  rw [hcount, range_succ, map_append, map_singleton, hlast]

end RlncStreaming.Lib
