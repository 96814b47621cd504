import Mathlib.Algebra.GroupWithZero.Nat
import Mathlib.Data.List.Basic

/-!
Mutable cells that may be shared and split.

A heap gives a value to every reference. What a value stands for is a relation `Carries`
between values and atoms. `Moves h h' out` says what a piece of code may do to cells that
others refer to as well: what a cell has lost is carried by a cell of `out`, and no cell
has gained anything. Cells are allocated (`moves_alloc`), rewritten (`moves_write`) and
split (`moves_split`). `total` adds up a measure of cells, and `contents` lists the atoms of
cells; both depend on those cells only (`total_congr`, `contents_congr`).
-/

namespace RlncStreaming.Lib

open List

/-- Cells with a value for every reference; those from `next` on are not in use. -/
structure Heap (α : Type) where
  cells : Nat → α
  next : Nat

namespace Heap

variable {α β : Type}

def empty [Inhabited α] : Heap α := ⟨fun _ => default, 0⟩

def write (h : Heap α) (r : Nat) (a : α) : Heap α :=
  { h with cells := fun r' => if r' = r then a else h.cells r' }

/-- The heap with a new cell, which is `h.next`. -/
def alloc (h : Heap α) (a : α) : Heap α := { h.write h.next a with next := h.next + 1 }

variable {h h' h'' : Heap α} {r : Nat} {a : α}

@[simp] theorem write_self : (h.write r a).cells r = a := if_pos rfl

theorem write_of_ne {r' : Nat} (hne : r' ≠ r) : (h.write r a).cells r' = h.cells r' := if_neg hne

@[simp] theorem alloc_self : (h.alloc a).cells h.next = a := if_pos rfl

theorem alloc_of_lt (hr : r < h.next) : (h.alloc a).cells r = h.cells r :=
  write_of_ne (Nat.ne_of_lt hr)

variable (Carries : α → β → Prop)

/-- What the cells in use have lost is carried by the cells `out`, and they have gained
nothing. -/
structure Moves (h h' : Heap α) (out : List Nat) : Prop where
  next_le : h.next ≤ h'.next
  kept : ∀ r < h.next, ∀ b, Carries (h.cells r) b →
    Carries (h'.cells r) b ∨ ∃ r' ∈ out, Carries (h'.cells r') b
  shrinks : ∀ r < h.next, ∀ b, Carries (h'.cells r) b → Carries (h.cells r) b
  out_lt : ∀ r ∈ out, r < h'.next

variable {Carries} {out out' : List Nat}

theorem Moves.refl (h : Heap α) : Moves Carries h h [] :=
  ⟨Nat.le_refl _, fun _ _ _ hc => .inl hc, fun _ _ _ hc => hc, fun _ hr => absurd hr not_mem_nil⟩

theorem Moves.trans (hm : Moves Carries h h' out) (hm' : Moves Carries h' h'' out') :
    Moves Carries h h'' (out ++ out') where
  next_le := Nat.le_trans hm.next_le hm'.next_le
  kept := by
    intro r hr b hc
    -- Wherever the first step has left `b`, the second step treats that cell.
    have hsecond : ∀ r' < h'.next, Carries (h'.cells r') b →
        Carries (h''.cells r') b ∨ ∃ q ∈ out ++ out', Carries (h''.cells q) b := by
      intro r' hr' hc'
      rcases hm'.kept r' hr' b hc' with hstays | ⟨q, hq, hmoved⟩
      · exact .inl hstays
      · exact .inr ⟨q, mem_append_right _ hq, hmoved⟩
    rcases hm.kept r hr b hc with hstays | ⟨q, hq, hmoved⟩
    · exact hsecond r (Nat.lt_of_lt_of_le hr hm.next_le) hstays
    rcases hsecond q (hm.out_lt q hq) hmoved with hstays | hagain
    · exact .inr ⟨q, mem_append_left _ hq, hstays⟩
    · exact .inr hagain
  shrinks := fun r hr b hc =>
    hm.shrinks r hr b (hm'.shrinks r (Nat.lt_of_lt_of_le hr hm.next_le) b hc)
  out_lt := by
    intro r hr
    rcases mem_append.mp hr with hr | hr
    · exact Nat.lt_of_lt_of_le (hm.out_lt r hr) hm'.next_le
    · exact hm'.out_lt r hr

/-- More cells may be named as receivers. -/
theorem Moves.mono (hm : Moves Carries h h' out) (hsub : out ⊆ out')
    (hlt : ∀ r ∈ out', r < h'.next) : Moves Carries h h' out' where
  next_le := hm.next_le
  kept := fun r hr b hc => (hm.kept r hr b hc).imp id fun ⟨q, hq, hmoved⟩ => ⟨q, hsub hq, hmoved⟩
  shrinks := hm.shrinks
  out_lt := hlt

theorem moves_alloc (a : α) : Moves Carries h (h.alloc a) [h.next] where
  next_le := Nat.le_succ _
  kept := fun r hr b hc => .inl (by rwa [alloc_of_lt hr])
  shrinks := fun r hr b hc => by rwa [alloc_of_lt hr] at hc
  out_lt := fun r hr => by
    rw [mem_singleton.mp hr]
    exact Nat.lt_succ_self _

/-- A cell gets a value that carries the same. -/
theorem moves_write (hsame : ∀ b, Carries a b ↔ Carries (h.cells r) b) :
    Moves Carries h (h.write r a) [] := by
  have hcells : ∀ r' b, Carries ((h.write r a).cells r') b ↔ Carries (h.cells r') b := by
    intro r' b
    by_cases heq : r' = r
    · subst heq
      rw [write_self, hsame]
    · rw [write_of_ne heq]
  exact ⟨Nat.le_refl _, fun r' _ b hc => .inl ((hcells r' b).mpr hc),
    fun r' _ b hc => (hcells r' b).mp hc, fun _ hr => absurd hr not_mem_nil⟩

/-- A cell is split in two: `front` goes to a new cell, `rest` stays. -/
theorem moves_split {front rest : α} (hr : r < h.next)
    (hsplit : ∀ b, Carries (h.cells r) b ↔ Carries front b ∨ Carries rest b) :
    Moves Carries h ((h.alloc front).write r rest) [h.next] where
  next_le := Nat.le_succ _
  kept := by
    intro r' hr' b hc
    by_cases heq : r' = r
    · subst heq
      rw [write_self]
      refine ((hsplit b).mp hc).symm.imp id fun hfront => ⟨h.next, mem_singleton_self _, ?_⟩
      rwa [write_of_ne (Nat.ne_of_gt hr), alloc_self]
    · rw [write_of_ne heq, alloc_of_lt hr']
      exact .inl hc
  shrinks := by
    intro r' hr' b hc
    by_cases heq : r' = r
    · subst heq
      rw [write_self] at hc
      exact (hsplit b).mpr (.inr hc)
    · rwa [write_of_ne heq, alloc_of_lt hr'] at hc
  out_lt := fun r' hr' => by
    rw [mem_singleton.mp hr']
    exact Nat.lt_succ_self _

/-! ### Measures -/

/-- The sum of a measure over the cells `refs`. -/
def total (w : α → Nat) (h : Heap α) (refs : List Nat) : Nat :=
  (refs.map fun r => w (h.cells r)).sum

variable {w : α → Nat} {refs refs' : List Nat}

@[simp] theorem total_nil : h.total w [] = 0 := rfl

@[simp] theorem total_cons : h.total w (r :: refs) = w (h.cells r) + h.total w refs := sum_cons

theorem total_append : h.total w (refs ++ refs') = h.total w refs + h.total w refs' := by
  rw [total, map_append, sum_append]
  rfl

theorem total_congr (hcells : ∀ r ∈ refs, h'.cells r = h.cells r) :
    h'.total w refs = h.total w refs := by
  rw [total, total]
  congr 1
  exact map_congr_left fun r hr => by rw [hcells r hr]

theorem total_mono (hcells : ∀ r ∈ refs, w (h'.cells r) ≤ w (h.cells r)) :
    h'.total w refs ≤ h.total w refs := by
  induction refs with
  | nil => exact Nat.le_refl _
  | cons r refs ih =>
    rw [total_cons, total_cons]
    exact Nat.add_le_add (hcells r mem_cons_self)
      (ih fun r' hr' => hcells r' (mem_cons_of_mem r hr'))

theorem total_lt (hcells : ∀ r ∈ refs, w (h'.cells r) ≤ w (h.cells r)) (hr : r ∈ refs)
    (hlt : w (h'.cells r) < w (h.cells r)) : h'.total w refs < h.total w refs := by
  obtain ⟨before, after, rfl⟩ := append_of_mem hr
  rw [total_append, total_append, total_cons, total_cons]
  have hbefore := total_mono fun r' hr' => hcells r' (mem_append_left _ hr')
  have hafter := total_mono fun r' hr' =>
    hcells r' (mem_append_right _ (mem_cons_of_mem r hr'))
  omega

/-! ### Contents -/

/-- The atoms of the cells `refs`, in order. -/
def contents (atoms : α → List β) (h : Heap α) (refs : List Nat) : List β :=
  refs.flatMap fun r => atoms (h.cells r)

variable {atoms : α → List β}

@[simp] theorem contents_cons :
    h.contents atoms (r :: refs) = atoms (h.cells r) ++ h.contents atoms refs := rfl

@[simp] theorem contents_append :
    h.contents atoms (refs ++ refs') = h.contents atoms refs ++ h.contents atoms refs' :=
  flatMap_append

theorem contents_congr (hcells : ∀ r ∈ refs, atoms (h'.cells r) = atoms (h.cells r)) :
    h'.contents atoms refs = h.contents atoms refs := by
  induction refs with
  | nil => rfl
  | cons r refs ih =>
    rw [contents_cons, contents_cons, hcells r mem_cons_self,
      ih fun r' hr' => hcells r' (mem_cons_of_mem r hr')]

theorem length_contents :
    (h.contents atoms refs).length = h.total (fun a => (atoms a).length) refs :=
  length_flatMap

/-- A cell to which nothing else refers is split in two, and the new cell goes before it. -/
theorem contents_split {front rest : α} (hrefs : ∀ r' ∈ refs, r' < h.next ∧ r' ≠ r)
    (hrefs' : ∀ r' ∈ refs', r' < h.next ∧ r' ≠ r) (hr : r < h.next)
    (hsplit : atoms (h.cells r) = atoms front ++ atoms rest) :
    ((h.alloc front).write r rest).contents atoms (refs ++ h.next :: r :: refs') =
      h.contents atoms (refs ++ r :: refs') := by
  have hkept : ∀ l : List Nat, (∀ r' ∈ l, r' < h.next ∧ r' ≠ r) →
      ((h.alloc front).write r rest).contents atoms l = h.contents atoms l := by
    refine fun l hl => contents_congr fun r' hr' => ?_
    rw [write_of_ne (hl r' hr').2, alloc_of_lt (hl r' hr').1]
  rw [contents_append, contents_append, contents_cons, contents_cons, contents_cons, hkept _ hrefs,
    hkept _ hrefs', write_self, write_of_ne (Nat.ne_of_gt hr), alloc_self, hsplit, append_assoc]

end Heap

end RlncStreaming.Lib
