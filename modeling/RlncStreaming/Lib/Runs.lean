import Mathlib.Data.List.Basic
import Mathlib.Data.List.Induction

/-!
Runs of a state machine whose steps are functions.

A run is a fold over the list of actions. An invariant may speak about the actions taken
so far; it holds after a run all of whose actions are fit for the state that they meet
(`run_inv`). A step may also crash, or stop the run with an error; such a run crashes just if
it reaches an action that is not safe in the state that it meets (`runUntil_isSome_iff`).
-/

namespace RlncStreaming.Lib

open List

variable {σ α : Type} (step : σ → α → σ)

def run (s : σ) (acts : List α) : σ := acts.foldl step s

@[simp] theorem run_nil (s : σ) : run step s [] = s := rfl

@[simp] theorem run_cons (s : σ) (a : α) (acts : List α) :
    run step s (a :: acts) = run step (step s a) acts := rfl

theorem run_append (s : σ) (acts acts' : List α) :
    run step s (acts ++ acts') = run step (run step s acts) acts' :=
  foldl_append

/-- Every action of the run is fit for the state that it meets. -/
def AllFit (fit : σ → α → Prop) (s : σ) (acts : List α) : Prop :=
  ∀ before a after, acts = before ++ a :: after → fit (run step s before) a

variable {step} {fit : σ → α → Prop}

section

variable {s : σ} {a : α} {acts : List α} (h : AllFit step fit s (a :: acts))

include h

theorem AllFit.head : fit s a := h [] a acts rfl

theorem AllFit.tail : AllFit step fit (step s a) acts := by
  rintro before b after rfl
  exact h (a :: before) b after rfl

end

section

variable {s : σ} {before after : List α} (h : AllFit step fit s (before ++ after))

include h

theorem AllFit.left : AllFit step fit s before := by
  rintro first a rest rfl
  exact h first a (rest ++ after) (by simp)

theorem AllFit.right : AllFit step fit (run step s before) after := by
  rintro first a rest rfl
  rw [← run_append]
  exact h (before ++ first) a rest (by simp)

end

theorem AllFit.nil {s : σ} : AllFit step fit s [] := by
  intro before a after h
  simp at h

theorem AllFit.cons {s : σ} {a : α} {acts : List α} (hhead : fit s a)
    (htail : AllFit step fit (step s a) acts) : AllFit step fit s (a :: acts) := by
  intro before b after h
  cases before with
  | nil =>
    obtain ⟨rfl, -⟩ := cons.inj h
    exact hhead
  | cons c before =>
    obtain ⟨rfl, hrest⟩ := cons.inj h
    exact htail before b after hrest

/-- Invariant rule: `Inv past s` holds of the state `s` that the actions `past` led to. -/
theorem run_inv (fit : σ → α → Prop) (Inv : List α → σ → Prop)
    (hstep : ∀ past s a, Inv past s → fit s a → Inv (past ++ [a]) (step s a)) :
    ∀ (acts past : List α) (s : σ), Inv past s → AllFit step fit s acts →
      Inv (past ++ acts) (run step s acts) := by
  intro acts
  induction acts with
  | nil =>
    intro past s hinv _
    rw [append_nil]
    exact hinv
  | cons a acts ih =>
    intro past s hinv hfit
    have hnext := ih (past ++ [a]) (step s a) (hstep past s a hinv hfit.head) hfit.tail
    rw [append_assoc, singleton_append] at hnext
    exact hnext

/-- The same rule for a condition that speaks about the actions taken so far, too. -/
theorem run_inv_past (fit : List α → σ → α → Prop) (Inv : List α → σ → Prop)
    (hstep : ∀ past s a, Inv past s → fit past s a → Inv (past ++ [a]) (step s a)) (s : σ)
    (hinit : Inv [] s) (acts : List α)
    (hfit : ∀ before a after, acts = before ++ a :: after → fit before (run step s before) a) :
    Inv acts (run step s acts) := by
  induction acts using reverseRecOn with
  | nil => exact hinit
  | append_singleton acts a ih =>
    have hpast : Inv acts (run step s acts) := by
      refine ih fun before b after hacts => hfit before b (after ++ [a]) ?_
      rw [hacts, append_assoc, cons_append]
    rw [run_append]
    exact hstep acts _ a hpast (hfit acts a [] rfl)

/-! ### Runs that may crash or stop -/

section RunUntil

variable {ε : Type} (attempt : σ → α → Option (σ × Option ε))

/-- A run whose steps may crash (`none`), or stop it with an error. -/
def runUntil : σ → List α → Option (σ × Option ε)
  | s, [] => some (s, none)
  | s, a :: acts =>
    match attempt s a with
    | none => none
    | some (s, some e) => some (s, some e)
    | some (s, none) => runUntil s acts

variable {attempt}

theorem runUntil_isSome_iff {safe : σ → α → Prop} {acts : List α}
    (hsafe : ∀ s, ∀ a ∈ acts, (attempt s a).isSome = true ↔ safe s a) (s : σ) :
    (runUntil attempt s acts).isSome = true ↔ ∀ before a after s', acts = before ++ a :: after →
      runUntil attempt s before = some (s', none) → safe s' a := by
  induction acts generalizing s with
  | nil => simp [runUntil]
  | cons a acts ih =>
    have hhead := hsafe s a mem_cons_self
    have htail := ih fun s b hb => hsafe s b (mem_cons_of_mem a hb)
    constructor
    · intro hsome before b after s' hacts hrun
      cases before with
      | nil =>
        obtain ⟨rfl, -⟩ := cons.inj hacts
        obtain ⟨rfl, -⟩ := Prod.mk.inj (Option.some.inj hrun)
        refine hhead.mp ?_
        rw [runUntil] at hsome
        cases hstep : attempt s a with
        | none =>
          rw [hstep] at hsome
          cases hsome
        | some _ => rfl
      | cons c before =>
        obtain ⟨rfl, hrest⟩ := cons.inj hacts
        rw [runUntil] at hsome hrun
        split at hrun
        · cases hrun
        · cases hrun
        rename_i s₁ hstep
        rw [hstep] at hsome
        exact (htail s₁).mp hsome before b after s' hrest hrun
    · intro hreach
      have hfirst := hhead.mpr (hreach [] a acts s rfl rfl)
      rw [runUntil]
      split
      · next hstep =>
        rw [hstep] at hfirst
        cases hfirst
      · rfl
      rename_i s₁ hstep
      refine (htail s₁).mpr fun before b after s' hacts hrun => ?_
      refine hreach (a :: before) b after s' (by rw [hacts, cons_append]) ?_
      rw [runUntil, hstep]
      exact hrun

/-- What every step keeps holds wherever the run ends. -/
theorem runUntil_inv {Inv : σ → Prop}
    (hstep : ∀ s a s' e, Inv s → attempt s a = some (s', e) → Inv s') {acts : List α} {s s' : σ}
    {e : Option ε} (hinv : Inv s) (h : runUntil attempt s acts = some (s', e)) : Inv s' := by
  induction acts generalizing s with
  | nil =>
    cases h
    exact hinv
  | cons a acts ih =>
    rw [runUntil] at h
    split at h
    · cases h
    · next hfirst =>
      cases h
      exact hstep _ _ _ _ hinv hfirst
    · next hfirst => exact ih (hstep _ _ _ _ hinv hfirst) h

end RunUntil

end RlncStreaming.Lib
