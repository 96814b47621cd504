import Mathlib.Data.Option.Basic
import Mathlib.Data.List.Forall2

/-!
Counted loops whose body may fail.

`forUp` is `for i := lo; i < lo + n; i++` and `forDown` is
`for i := n - 1; i >= 0; i--`, over a state that the body rewrites. A body that
returns `none` has crashed, and so has the loop. The two rules are the usual
ones for a counted loop in total form: an invariant that the body keeps is kept
by the loop, and the loop does not crash. `mapM_spec` is the corresponding rule for
a loop that fills a list.
-/

namespace RlncStreaming.Lib

variable {σ : Type}

/-- `n` iterations, the first one at index `lo`. -/
def forUp (body : Nat → σ → Option σ) : Nat → Nat → σ → Option σ
  | _, 0, s => some s
  | lo, n + 1, s => (body lo s).bind (forUp body (lo + 1) n)

/-- `n` iterations, from index `n - 1` down to index `0`. -/
def forDown (body : Nat → σ → Option σ) : Nat → σ → Option σ
  | 0, s => some s
  | n + 1, s => (body n s).bind (forDown body n)

variable {body : Nat → σ → Option σ}

/-- A loop whose first iteration crashes has crashed. -/
theorem forUp_eq_none {lo n : Nat} {s : σ} (hn : 0 < n) (h : body lo s = none) :
    forUp body lo n s = none := by
  cases n with
  | zero => exact absurd hn (Nat.lt_irrefl 0)
  | succ n => simp [forUp, h]

/-- A loop crashes when some iteration does, from every state that the iterations before
it can lead to. -/
theorem forUp_crash (P : σ → Prop) {bad : Nat} (keep : ∀ k s s', P s → body k s = some s' → P s')
    (crash : ∀ s, P s → body bad s = none) :
    ∀ {lo n : Nat} {s : σ}, P s → lo ≤ bad → bad < lo + n → forUp body lo n s = none := by
  intro lo n
  induction n generalizing lo with
  | zero =>
    intro s _ hlo hhi
    omega
  | succ n ih =>
    intro s hs hlo hhi
    rw [forUp]
    cases hstep : body lo s with
    | none => rfl
    | some s' =>
      rcases Nat.eq_or_lt_of_le hlo with rfl | hlt
      · rw [crash s hs] at hstep
        cases hstep
      · exact ih (keep lo s s' hs hstep) hlt (by omega)

/-- What every iteration keeps holds wherever the loop ends. -/
theorem forUp_keeps {P : σ → Prop} (keep : ∀ k s s', P s → body k s = some s' → P s') {lo n : Nat}
    {s s' : σ} (init : P s) (h : forUp body lo n s = some s') : P s' := by
  induction n generalizing lo s with
  | zero =>
    cases h
    exact init
  | succ n ih =>
    obtain ⟨s₁, hstep, hrest⟩ := Option.bind_eq_some_iff.mp h
    exact ih (keep lo s s₁ init hstep) hrest

theorem forDown_keeps {P : σ → Prop} (keep : ∀ k s s', P s → body k s = some s' → P s') {n : Nat}
    {s s' : σ} (init : P s) (h : forDown body n s = some s') : P s' := by
  induction n generalizing s with
  | zero =>
    cases h
    exact init
  | succ n ih =>
    obtain ⟨s₁, hstep, hrest⟩ := Option.bind_eq_some_iff.mp h
    exact ih (keep n s s₁ init hstep) hrest

section

variable (Inv : Nat → σ → Prop) (body : Nat → σ → Option σ)

/-- Total-correctness rule of the ascending loop. -/
theorem forUp_inv : ∀ (lo n : Nat) {s : σ}, Inv lo s →
      (∀ k s, lo ≤ k → k < lo + n → Inv k s → ∃ s', body k s = some s' ∧ Inv (k + 1) s') →
      ∃ s', forUp body lo n s = some s' ∧ Inv (lo + n) s' := by
  intro lo n
  induction n generalizing lo with
  | zero =>
    intro s init _
    exact ⟨s, rfl, init⟩
  | succ n ih =>
    intro s init step
    obtain ⟨s₁, h₁, inv₁⟩ := step lo s (Nat.le_refl _) (by omega) init
    obtain ⟨s₂, h₂, inv₂⟩ := ih (lo + 1) inv₁ fun k s hlo hhi => step k s (by omega) (by omega)
    refine ⟨s₂, by simp [forUp, h₁, h₂], ?_⟩
    rwa [show lo + (n + 1) = lo + 1 + n by omega]

/-- Total-correctness rule of the descending loop. -/
theorem forDown_inv : ∀ (n : Nat) {s : σ}, Inv n s →
      (∀ k s, k < n → Inv (k + 1) s → ∃ s', body k s = some s' ∧ Inv k s') →
      ∃ s', forDown body n s = some s' ∧ Inv 0 s' := by
  intro n
  induction n with
  | zero =>
    intro s init _
    exact ⟨s, rfl, init⟩
  | succ n ih =>
    intro s init step
    obtain ⟨s₁, h₁, inv₁⟩ := step n s (Nat.lt_succ_self n) init
    obtain ⟨s₂, h₂, inv₂⟩ := ih inv₁ fun k s hk => step k s (by omega)
    exact ⟨s₂, by simp [forDown, h₁, h₂], inv₂⟩

end

/-- A loop that computes one value for each element does not crash when none of the
computations does. -/
theorem mapM_spec {m : Type → Type} [Monad m] [LawfulMonad m] {α β : Type} {f : α → m β}
    {P : α → β → Prop} : ∀ l : List α, (∀ a ∈ l, ∃ b, f a = pure b ∧ P a b) →
      ∃ bs, l.mapM f = pure bs ∧ List.Forall₂ P l bs := by
  intro l
  induction l with
  | nil =>
    intro _
    exact ⟨[], rfl, .nil⟩
  | cons a l ih =>
    intro h
    obtain ⟨b, hb, hP⟩ := h a List.mem_cons_self
    obtain ⟨bs, hbs, hPs⟩ := ih fun a' ha' => h a' (List.mem_cons_of_mem _ ha')
    exact ⟨b :: bs, by simp [hb, hbs], .cons hP hPs⟩

end RlncStreaming.Lib
