import Mathlib.Data.List.Basic

/-!
Slash-separated paths, read lexically.

A path is a word over an alphabet with a separator and a dot. `clean` drops empty and
one-dot segments and lets a two-dot segment cancel the segment before it; at the root
there is nothing to cancel. `join` cleans a directory followed by a name. Seen from the
directory, a name amounts to leaving a number of directories and then entering others
(`components_join`), so the joined path stays under the directory exactly if the name
enters again what it left (`within_join_iff`).
-/

namespace RlncStreaming.Lib

open List

variable {α : Type} [DecidableEq α] (sep dot : α)

/-- One more segment of a path whose segments so far amount to `out`. -/
def cleanStep (rooted : Bool) (out : List (List α)) (seg : List α) : List (List α) :=
  if seg = [] ∨ seg = [dot] then out
  else if seg = [dot, dot] then
    -- A relative path keeps the two-dot segments that it cannot cancel.
    if rooted ∨ out ≠ [] ∧ out.getLast? ≠ some [dot, dot] then out.dropLast else out ++ [seg]
  else out ++ [seg]

/-- The shortest path with the same lexical meaning. -/
def clean (p : List α) : List α :=
  let rooted := decide (p.head? = some sep)
  let out := (p.splitOn sep).foldl (cleanStep dot rooted) []
  if rooted then sep :: [sep].intercalate out
  else if out = [] then [dot]
  else [sep].intercalate out

/-- The clean path of a name in a directory. -/
def join (dir name : List α) : List α := clean sep dot (dir ++ sep :: name)

/-- The non-empty segments of a path. -/
def components (p : List α) : List (List α) := (p.splitOn sep).filter (· ≠ [])

/-- `p` is the directory `dir` or something below it. -/
def Within (dir p : List α) : Prop := components sep dir <+: components sep p

instance (dir p : List α) : Decidable (Within sep dir p) :=
  inferInstanceAs (Decidable (_ <+: _))

/-- One more segment of a name that so far leaves `m.1` directories and then enters
`m.2`. -/
def moveStep (m : Nat × List (List α)) (seg : List α) : Nat × List (List α) :=
  if seg = [] ∨ seg = [dot] then m
  else if seg = [dot, dot] then
    if m.2 = [] then (m.1 + 1, []) else (m.1, m.2.dropLast)
  else (m.1, m.2 ++ [seg])

/-- The directories that a name leaves, and those it enters afterwards. -/
def moves (name : List α) : Nat × List (List α) := (name.splitOn sep).foldl (moveStep dot) (0, [])

/-! ### Segments -/

theorem splitOn_cons_self (p : List α) : (sep :: p).splitOn sep = [] :: p.splitOn sep := by
  simpa using splitOn_append_cons_self (a := sep) [] p

theorem not_mem_of_mem_splitOn {p seg : List α} (h : seg ∈ p.splitOn sep) : sep ∉ seg := by
  induction p generalizing seg with
  | nil => simp_all
  | cons c p ih =>
    rw [splitOn_cons_eq_if_modifyHead] at h
    split at h
    · rcases mem_cons.mp h with rfl | h
      · exact not_mem_nil
      · exact ih h
    rename_i hne
    -- Only the first segment grows, by a letter that is not the separator.
    cases hp : p.splitOn sep with
    | nil => exact absurd hp (splitOn_ne_nil sep p)
    | cons first rest =>
      rw [hp, modifyHead_cons] at h
      rcases mem_cons.mp h with rfl | h
      · have hfirst : sep ∉ first := ih (by rw [hp]; exact mem_cons_self)
        intro hmem
        rcases mem_cons.mp hmem with rfl | hmem
        · exact hne (by simp)
        · exact hfirst hmem
      · exact ih (by rw [hp]; exact mem_cons_of_mem _ h)

variable {sep dot}

/-- Segments that a clean absolute path may have. -/
def Segments (sep : α) (out : List (List α)) : Prop := ∀ seg ∈ out, seg ≠ [] ∧ sep ∉ seg

theorem Segments.cleanStep {out : List (List α)} {seg : List α} (h : Segments sep out)
    (hseg : sep ∉ seg) : Segments sep (cleanStep dot true out seg) := by
  have hpush : seg ≠ [] → Segments sep (out ++ [seg]) := by
    intro hne s hs
    rcases mem_append.mp hs with hs | hs
    · exact h s hs
    rw [mem_singleton.mp hs]
    exact ⟨hne, hseg⟩
  rw [Lib.cleanStep]
  split
  · exact h
  rename_i hskip
  split
  · rw [if_pos (by simp)]
    exact fun s hs => h s (dropLast_subset _ hs)
  · exact hpush fun hnil => hskip (.inl hnil)

theorem segments_foldl {segs out : List (List α)} (h : Segments sep out)
    (hsegs : ∀ seg ∈ segs, sep ∉ seg) : Segments sep (segs.foldl (cleanStep dot true) out) := by
  induction segs generalizing out with
  | nil => exact h
  | cons seg segs ih =>
    exact ih (h.cleanStep (hsegs seg mem_cons_self)) fun s hs => hsegs s (mem_cons_of_mem _ hs)

theorem components_intercalate {out : List (List α)} (h : Segments sep out) :
    components sep (sep :: [sep].intercalate out) = out := by
  have hfilter : out.filter (· ≠ []) = out := filter_eq_self.mpr fun s hs => by simp [h s hs]
  rw [components, splitOn_cons_self, filter_cons_of_neg (by simp)]
  by_cases hout : out = []
  · subst hout
    simp
  · rw [splitOn_intercalate sep (fun s hs => (h s hs).2) hout, hfilter]

/-- A cleaned absolute path has the segments that were left over. -/
theorem components_clean {p : List α} (habs : p.head? = some sep) :
    components sep (clean sep dot p) = (p.splitOn sep).foldl (cleanStep dot true) [] := by
  have hout : Segments sep ((p.splitOn sep).foldl (cleanStep dot true) []) :=
    segments_foldl (by simp [Segments]) fun _ => not_mem_of_mem_splitOn sep
  simp only [clean, habs, decide_true, if_true]
  exact components_intercalate hout

/-! ### Names -/

section Moves

variable (dot) (dirs : List (List α))

theorem cleanStep_moveStep (m : Nat × List (List α)) (seg : List α) :
    cleanStep dot true (dirs.take (dirs.length - m.1) ++ m.2) seg =
      dirs.take (dirs.length - (moveStep dot m seg).1) ++ (moveStep dot m seg).2 := by
  rw [cleanStep, moveStep]
  split
  · rfl
  split
  · rw [if_pos (by simp)]
    split
    · next hdowns =>
      rw [hdowns, append_nil, append_nil, dropLast_eq_take, take_take, length_take]
      congr 1
      omega
    · next hdowns => rw [dropLast_append_of_ne_nil hdowns]
  · rw [append_assoc]

theorem foldl_cleanStep (segs : List (List α)) (m : Nat × List (List α)) :
    segs.foldl (cleanStep dot true) (dirs.take (dirs.length - m.1) ++ m.2) =
      dirs.take (dirs.length - (segs.foldl (moveStep dot) m).1) ++
        (segs.foldl (moveStep dot) m).2 := by
  induction segs generalizing m with
  | nil => rfl
  | cons seg segs ih => rw [foldl_cons, foldl_cons, cleanStep_moveStep, ih]

end Moves

variable {dir name : List α}

variable (habs : dir.head? = some sep) (hclean : clean sep dot dir = dir)

include habs hclean

/-- A name, seen from a directory: some of its last components go, others come. -/
theorem components_join : components sep (join sep dot dir name) =
      (components sep dir).take ((components sep dir).length - (moves sep dot name).1) ++
        (moves sep dot name).2 := by
  have hdir : (dir.splitOn sep).foldl (cleanStep dot true) [] = components sep dir := by
    rw [← components_clean habs, hclean]
  have hall := foldl_cleanStep dot (components sep dir) (name.splitOn sep) (0, [])
  rw [join, components_clean (by simp [habs]), splitOn_append_cons_self, foldl_append,
    hdir, moves, ← hall]
  simp

/-- A joined path stays under the directory if and only if the name enters again the
directories that it left. -/
theorem within_join_iff : Within sep dir (join sep dot dir name) ↔
      (components sep dir).drop ((components sep dir).length - (moves sep dot name).1) <+:
        (moves sep dot name).2 := by
  rw [Within, components_join habs hclean]
  generalize (components sep dir).length - (moves sep dot name).1 = n
  nth_rewrite 1 [← take_append_drop n (components sep dir)]
  exact prefix_append_right_inj _

end RlncStreaming.Lib
