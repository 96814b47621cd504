import Mathlib.Data.List.Chain
import Mathlib.Data.List.Perm.Basic

/-!
Looking for the best element of a list with a comparison that need not be an order.

The search keeps a leader, and an element that passes the comparison with it takes its place. If
the comparison is not transitive, then the result depends on the order of the list. An element can
be the result for some order just if it ends a line of leaders: each of them passes against the one
before it, and every other element fails against one of them (`exists_line`, `Line.exists_order`).
-/

namespace RlncStreaming.Lib

open List

variable {α : Type} {passes : α → α → Bool}

/-- The element takes the lead, if it passes against the leader or there is none. -/
def lead (passes : α → α → Bool) (leader : Option α) (a : α) : Option α :=
  if leader.all (passes a) then some a else leader

/-- The leader at the end of the search. -/
def findLeader (passes : α → α → Bool) (l : List α) : Option α := l.foldl (lead passes) none

/-- Leaders in the order in which they take the lead, while none of `others` does. -/
structure Line (passes : α → α → Bool) (line others : List α) : Prop where
  chain : line.IsChain fun a b => passes b a = true
  fails : ∀ b ∈ others, ∃ a ∈ line, passes b a = false

theorem lead_of_fails {a b : α} (h : passes b a = false) : lead passes (some a) b = some a := by
  rw [lead, Option.all_some, h]
  rfl

theorem lead_of_passes {leader : Option α} {b : α} (h : leader.all (passes b) = true) :
    lead passes leader b = some b := if_pos h

theorem Line.eq_nil {others : List α} (h : Line passes [] others) : others = [] := by
  refine eq_nil_iff_forall_not_mem.mpr fun b hb => ?_
  obtain ⟨a, ha, -⟩ := h.fails b hb
  exact not_mem_nil ha

/-- The leaders of a search are a line. -/
theorem exists_line (passes : α → α → Bool) (l : List α) :
    ∃ line others, (line ++ others).Perm l ∧ Line passes line others ∧
      findLeader passes l = line.getLast? := by
  induction l using reverseRecOn with
  | nil => exact ⟨[], [], .refl _, ⟨.nil, fun _ h => absurd h not_mem_nil⟩, rfl⟩
  | append_singleton l b ih =>
    obtain ⟨line, others, hperm, hline, hleader⟩ := ih
    have hstep : findLeader passes (l ++ [b]) = lead passes line.getLast? b := by
      rw [findLeader, foldl_append, ← hleader]
      rfl
    by_cases hpasses : line.getLast?.all (passes b) = true
    · -- `b` takes the lead
      refine ⟨line ++ [b], others, ?_, ⟨?_, fun c hc => ?_⟩, ?_⟩
      · rw [append_assoc, singleton_append]
        exact perm_middle.trans ((hperm.cons b).trans (perm_append_singleton b l).symm)
      · refine hline.chain.append (.singleton b) fun a ha c hc => ?_
        rw [Option.mem_def.mp ha, Option.all_some] at hpasses
        rw [head?_singleton, Option.mem_def, Option.some.injEq] at hc
        rw [← hc]
        exact hpasses
      · obtain ⟨a, ha, hfails⟩ := hline.fails c hc
        exact ⟨a, mem_append_left _ ha, hfails⟩
      · rw [hstep, lead_of_passes hpasses, getLast?_concat]
    · -- `b` fails against the leader
      obtain ⟨a, ha, hfails⟩ : ∃ a, line.getLast? = some a ∧ passes b a = false := by
        cases hlast : line.getLast? with
        | none =>
          rw [hlast] at hpasses
          exact absurd rfl hpasses
        | some a =>
          rw [hlast, Option.all_some, Bool.not_eq_true] at hpasses
          exact ⟨a, rfl, hpasses⟩
      refine ⟨line, others ++ [b], ?_, ⟨hline.chain, ?_⟩, ?_⟩
      · rw [← append_assoc]
        exact hperm.append_right [b]
      · refine forall_mem_append.mpr ⟨hline.fails, fun c hc => ⟨a, ?_, ?_⟩⟩
        · exact mem_of_getLast? ha
        rw [mem_singleton.mp hc]
        exact hfails
      · rw [hstep, ha, lead_of_fails hfails]

/-- Elements that fail against the leader change nothing. -/
theorem foldl_lead_of_fails {a : α} {others : List α} (h : ∀ b ∈ others, passes b a = false) :
    others.foldl (lead passes) (some a) = some a := by
  induction others with
  | nil => rfl
  | cons b others ih =>
    rw [foldl_cons, lead_of_fails (h b mem_cons_self)]
    exact ih fun c hc => h c (mem_cons_of_mem b hc)

variable {line others : List α} (h : Line passes line others)

include h

/-- The search can follow a line from any leader that its first element passes against. -/
theorem Line.exists_foldl (hne : line ≠ []) (leader : Option α)
    (hfirst : ∀ a ∈ line.head?, leader.all (passes a) = true) :
    ∃ l : List α, l.Perm (line ++ others) ∧ l.foldl (lead passes) leader = line.getLast? := by
  induction line generalizing others leader with
  | nil => exact absurd rfl hne
  | cons a line ih =>
    -- those who fail against `a` come next, the other ones later
    let now := others.filter fun b => !passes b a
    let later := others.filter fun b => passes b a
    have hsplit : (now ++ later).Perm others := by
      have hfilter := filter_append_perm (fun b => passes b a) others
      exact perm_append_comm.trans hfilter
    have hnow : now.foldl (lead passes) (some a) = some a :=
      foldl_lead_of_fails fun b hb => by simpa [now] using (mem_filter.mp hb).2
    have hlead : lead passes leader a = some a := lead_of_passes (hfirst a rfl)
    have hlater : ∀ b ∈ later, ∃ c ∈ line, passes b c = false := by
      intro b hb
      obtain ⟨hmem, hpasses⟩ := mem_filter.mp hb
      obtain ⟨c, hc, hfails⟩ := h.fails b hmem
      rcases mem_cons.mp hc with rfl | hc
      · rw [hfails] at hpasses
        cases hpasses
      · exact ⟨c, hc, hfails⟩
    by_cases hline : line = []
    · subst hline
      rw [Line.eq_nil ⟨.nil, hlater⟩, append_nil] at hsplit
      refine ⟨a :: now, hsplit.cons a, ?_⟩
      rw [foldl_cons, hlead, hnow]
      rfl
    · obtain ⟨l, hperm, hlast⟩ := ih ⟨h.chain.tail, hlater⟩ hline (some a)
        fun b hb => h.chain.rel_head? hb
      refine ⟨a :: (now ++ l), ?_, ?_⟩
      · refine List.Perm.cons a ?_
        exact (hperm.append_left now).trans ((perm_append_comm_assoc now line later).trans
          (hsplit.append_left line))
      · rw [foldl_cons, hlead, foldl_append, hnow, hlast, getLast?_cons_of_ne_nil hline]

/-- Every line is the line of leaders of some search. -/
theorem Line.exists_order : ∃ l, l.Perm (line ++ others) ∧ findLeader passes l = line.getLast? := by
  by_cases hne : line = []
  · subst hne
    exact ⟨[], by rw [h.eq_nil, append_nil], rfl⟩
  · exact h.exists_foldl hne none fun _ _ => rfl

end RlncStreaming.Lib
