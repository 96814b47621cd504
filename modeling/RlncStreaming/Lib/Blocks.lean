import Mathlib.Data.List.Basic

/-!
Consecutive blocks of a list.

`block m j l` is the part of `l` from position `m * j` on, at most `m` elements
long, and `blocks m k l` are the first `k` of them. Together they are a prefix of
the list (`flatten_blocks`).
-/

namespace RlncStreaming.Lib

open List

variable {α : Type}

/-- Block `j` of size `m`. -/
def block (m j : Nat) (l : List α) : List α := (l.drop (m * j)).take m

/-- The first `k` blocks of size `m`. -/
def blocks (m k : Nat) (l : List α) : List (List α) := (List.range k).map fun j => block m j l

theorem length_block (m j : Nat) (l : List α) :
    (block m j l).length = min m (l.length - m * j) := by
  rw [block, length_take, length_drop]

theorem length_of_mem_blocks {m k : Nat} {l : List α} (h : m * k ≤ l.length) {b : List α}
    (hb : b ∈ blocks m k l) : b.length = m := by
  obtain ⟨j, hj, rfl⟩ := mem_map.mp hb
  have hle : m * (j + 1) ≤ m * k := Nat.mul_le_mul_left m (mem_range.mp hj)
  rw [length_block]
  rw [Nat.mul_succ] at hle
  omega

section

variable (m k : Nat) (l : List α)

@[simp] theorem length_blocks : (blocks m k l).length = k := by
  simp [blocks]

theorem blocks_succ : blocks m (k + 1) l = blocks m k l ++ [block m k l] := by
  rw [blocks, blocks, range_succ, map_append, map_singleton]

/-- The first block and the blocks of what follows it. -/
theorem blocks_cons : blocks m (k + 1) l = l.take m :: blocks m k (l.drop m) := by
  rw [blocks, range_succ_eq_map, map_cons, map_map, block, Nat.mul_zero, drop_zero, blocks]
  congr 1
  refine map_congr_left fun j _ => ?_
  rw [Function.comp_apply, block, block, drop_drop, Nat.mul_succ, Nat.add_comm]

/-- The first `k` blocks are the first `m * k` elements. -/
theorem flatten_blocks : (blocks m k l).flatten = l.take (m * k) := by
  induction k with
  | zero => simp [blocks]
  | succ k ih =>
    rw [blocks_succ, flatten_append, ih, flatten_singleton, block, Nat.mul_succ, take_add]

end

variable {m : Nat} {ls : List (List α)} (h : ∀ l ∈ ls, l.length = m)

include h

theorem length_flatten_of_length : ls.flatten.length = m * ls.length := by
  induction ls with
  | nil => rfl
  | cons l ls ih =>
    obtain ⟨hl, hls⟩ := forall_mem_cons.mp h
    rw [flatten_cons, length_append, hl, ih hls, length_cons, Nat.mul_succ, Nat.add_comm]

/-- Lists of one length are the blocks of what they make up. -/
theorem blocks_flatten : blocks m ls.length ls.flatten = ls := by
  induction ls with
  | nil => rfl
  | cons l ls ih =>
    obtain ⟨hl, hls⟩ := forall_mem_cons.mp h
    rw [length_cons, flatten_cons, blocks_cons, take_left' hl, drop_left' hl, ih hls]

end RlncStreaming.Lib
