import Mathlib.Algebra.Group.Nat.Defs
import Mathlib.Algebra.Ring.Int.Defs
import Mathlib.Data.List.DropRight
import Mathlib.Data.List.Infix

/-!
Numbers and tables of numbers as text.

`itoa` and `atoi` are decimal numbers of 64 bits. A number between blanks is read back once they
are trimmed (`atoi_trimSpace_padded`). `readAll` cuts a text into lines and cells at the newlines
and the commas. A table whose cells have no separators comes back from its lines
(`readAll_lines`).
-/

namespace RlncStreaming.Lib

open List

/-! ### Numbers -/

/-- `%d`. -/
def itoa (v : Int) : List Char :=
  if v < 0 then '-' :: Nat.toDigits 10 v.natAbs else Nat.toDigits 10 v.natAbs

def readDigits (cs : List Char) : Option Nat :=
  if cs ≠ [] ∧ cs.all Char.isDigit then some (Nat.ofDigitChars 10 cs 0) else none

/-- A number in decimal, with or without a sign. -/
def readInt (cs : List Char) : Option Int :=
  match cs with
  | '-' :: cs => (readDigits cs).map fun n : Nat => -(n : Int)
  | '+' :: cs => (readDigits cs).map Int.ofNat
  | cs => (readDigits cs).map Int.ofNat

/-- The numbers of 64 bits. -/
def IsInt64 (v : Int) : Prop := -2 ^ 63 ≤ v ∧ v < 2 ^ 63

instance (v : Int) : Decidable (IsInt64 v) := inferInstanceAs (Decidable (_ ∧ _))

/-- `strconv.Atoi` where the error is looked at. -/
def atoi (cs : List Char) : Option Int := (readInt cs).filter fun v => decide (IsInt64 v)

/-- `strconv.Atoi` where the error is ignored: a text that is no number is zero, and a number
that is too large is cut off. -/
def atoiValue (cs : List Char) : Int :=
  match readInt cs with
  | none => 0
  | some v => if v < -2 ^ 63 then -2 ^ 63 else if 2 ^ 63 ≤ v then 2 ^ 63 - 1 else v

theorem isInt64_atoiValue (cs : List Char) : IsInt64 (atoiValue cs) := by
  unfold atoiValue IsInt64
  split
  · omega
  split
  · omega
  · split <;> omega

theorem readDigits_toDigits (n : Nat) : readDigits (Nat.toDigits 10 n) = some n := by
  have hdigits : (Nat.toDigits 10 n).all Char.isDigit = true := by
    rw [all_eq_true]
    intro c hc
    exact Nat.isDigit_of_mem_toDigits (by omega) (by omega) hc
  rw [readDigits, if_pos ⟨Nat.toDigits_ne_nil, hdigits⟩, Nat.ofDigitChars_ten_toDigits]

theorem isDigit_ne {c : Char} (h : c.isDigit = true) : c ≠ '-' ∧ c ≠ '+' := by
  constructor
  · rintro rfl
    exact absurd h (by decide)
  · rintro rfl
    exact absurd h (by decide)

/-- Digits have no sign. -/
theorem readInt_of_isDigit {c : Char} (h : c.isDigit = true) (cs : List Char) :
    readInt (c :: cs) = (readDigits (c :: cs)).map Int.ofNat := by
  obtain ⟨hminus, hplus⟩ := isDigit_ne h
  unfold readInt
  split
  · next heq => exact absurd (cons.inj heq).1 hminus
  · next heq => exact absurd (cons.inj heq).1 hplus
  · rfl

theorem exists_toDigits (n : Nat) : ∃ c cs, Nat.toDigits 10 n = c :: cs ∧ c.isDigit = true := by
  obtain ⟨c, cs, hcs⟩ := exists_cons_of_ne_nil (Nat.toDigits_ne_nil (n := n) (b := 10))
  have hmem : c ∈ Nat.toDigits 10 n := hcs ▸ mem_cons_self
  exact ⟨c, cs, hcs, Nat.isDigit_of_mem_toDigits (by omega) (by omega) hmem⟩

theorem readInt_toDigits (n : Nat) : readInt (Nat.toDigits 10 n) = some (n : Int) := by
  have hread := readDigits_toDigits n
  obtain ⟨c, cs, hcs, hc⟩ := exists_toDigits n
  rw [hcs] at hread ⊢
  rw [readInt_of_isDigit hc, hread]
  rfl

/-- A number with something else behind it is not read. -/
theorem atoiValue_toDigits_append (n : Nat) {c : Char} (h : c.isDigit = false) :
    atoiValue (Nat.toDigits 10 n ++ [c]) = 0 := by
  obtain ⟨d, cs, hcs, hd⟩ := exists_toDigits n
  rw [atoiValue, hcs, cons_append, readInt_of_isDigit hd, readDigits, if_neg (by simp [h])]
  rfl

theorem atoi_toDigits (n : Nat) :
    atoi (Nat.toDigits 10 n) = if n < 2 ^ 63 then some (n : Int) else none := by
  rw [atoi, readInt_toDigits, Option.filter_some]
  by_cases hn : n < 2 ^ 63
  · rw [if_pos hn, if_pos (decide_eq_true ⟨by omega, by omega⟩)]
  refine (if_neg fun hfit => ?_).trans (if_neg hn).symm
  have := (of_decide_eq_true hfit).2
  omega

theorem readInt_itoa (v : Int) : readInt (itoa v) = some v := by
  unfold itoa
  split
  · next hneg =>
    have habs : -(v.natAbs : Int) = v := by omega
    simp only [readInt, readDigits_toDigits, Option.map_some, habs]
  · next hnonneg =>
    have habs : (v.natAbs : Int) = v := by omega
    rw [readInt_toDigits, habs]

/-- What `%d` writes is read back. -/
theorem atoi_itoa {v : Int} (h : IsInt64 v) : atoi (itoa v) = some v := by
  rw [atoi, readInt_itoa, Option.filter_some, if_pos (decide_eq_true h)]

/-- A text without a minus sign is not below zero. -/
theorem atoi_nonneg {cs : List Char} {v : Int} (h : atoi cs = some v) (hsign : '-' ∉ cs) :
    0 ≤ v ∧ v < 2 ^ 63 := by
  obtain ⟨hread, hfit⟩ := Option.filter_eq_some_iff.mp h
  refine ⟨?_, (of_decide_eq_true hfit).2⟩
  unfold readInt at hread
  split at hread
  · exact absurd mem_cons_self hsign
  · obtain ⟨n, -, rfl⟩ := Option.map_eq_some_iff.mp hread
    exact Int.natCast_nonneg n
  · obtain ⟨n, -, rfl⟩ := Option.map_eq_some_iff.mp hread
    exact Int.natCast_nonneg n

theorem mem_itoa {v : Int} {c : Char} (h : c ∈ itoa v) : c = '-' ∨ c.isDigit = true := by
  unfold itoa at h
  split at h
  · rcases mem_cons.mp h with rfl | h
    · exact .inl rfl
    · exact .inr (Nat.isDigit_of_mem_toDigits (by omega) (by omega) h)
  · exact .inr (Nat.isDigit_of_mem_toDigits (by omega) (by omega) h)

theorem itoa_ne_nil (v : Int) : itoa v ≠ [] := by
  unfold itoa
  split
  · exact cons_ne_nil _ _
  · exact Nat.toDigits_ne_nil

/-! ### Blanks and other characters -/

/-- `unicode.IsSpace`. -/
def isSpace (c : Char) : Bool :=
  decide (c.toNat ∈ [9, 10, 11, 12, 13, 32, 133, 160, 5760, 8232, 8233, 8239, 8287, 12288]) ||
    decide (8192 ≤ c.toNat ∧ c.toNat ≤ 8202)

/-- `strings.TrimSpace`. -/
def trimSpace (cs : List Char) : List Char := (cs.dropWhile isSpace).rdropWhile isSpace

/-- `%wd`: blanks to the left up to `w` characters. -/
def padded (w : Nat) (v : Int) : List Char := List.replicate (w - (itoa v).length) ' ' ++ itoa v

/-- `n` blanks. -/
def blanks (n : Nat) : List Char := List.replicate n ' '

theorem all_isSpace_blanks (n : Nat) : (blanks n).all isSpace = true := by
  rw [blanks, all_replicate]
  split
  · rfl
  · decide

theorem not_isSpace_of_mem_itoa {v : Int} {c : Char} (h : c ∈ itoa v) : isSpace c = false := by
  rcases mem_itoa h with rfl | hdigit
  · decide
  have hrange : 48 ≤ c.toNat ∧ c.toNat ≤ 57 := by
    rw [Char.isDigit, Bool.and_eq_true, decide_eq_true_eq, decide_eq_true_eq] at hdigit
    exact hdigit
  unfold isSpace
  simp only [mem_cons, not_mem_nil, or_false, Bool.or_eq_false_iff, decide_eq_false_iff_not]
  omega

theorem dropWhile_itoa (v : Int) (right : List Char) :
    (itoa v ++ right).dropWhile isSpace = itoa v ++ right := by
  cases hv : itoa v with
  | nil => exact absurd hv (itoa_ne_nil v)
  | cons c cs =>
    have hc : isSpace c = false := not_isSpace_of_mem_itoa (hv ▸ mem_cons_self)
    rw [cons_append, dropWhile_cons_of_neg (by simp [hc])]

theorem trimSpace_itoa (v : Int) {left right : List Char} (hleft : left.all isSpace = true)
    (hright : right.all isSpace = true) : trimSpace (left ++ (itoa v ++ right)) = itoa v := by
  rw [trimSpace, dropWhile_append_of_pos (all_eq_true.mp hleft), dropWhile_itoa, rdropWhile,
    reverse_append, dropWhile_append_of_pos (by simpa using hright)]
  have hrev : (itoa v).reverse.dropWhile isSpace = (itoa v).reverse := by
    rw [dropWhile_eq_self_iff]
    intro hpos hblank
    have hmem : (itoa v).reverse[0] ∈ itoa v := mem_reverse.mp (getElem_mem hpos)
    rw [not_isSpace_of_mem_itoa hmem] at hblank
    cases hblank
  rw [hrev, reverse_reverse]

theorem blanks_append (m n : Nat) : blanks m ++ blanks n = blanks (m + n) :=
  replicate_append_replicate

/-- A number between blanks is read back. -/
theorem atoi_trimSpace_padded {v : Int} (hv : IsInt64 v) (w left right : Nat) :
    atoi (trimSpace (blanks left ++ (padded w v ++ blanks right))) = some v := by
  have hshape : blanks left ++ (padded w v ++ blanks right) =
      blanks (left + (w - (itoa v).length)) ++ (itoa v ++ blanks right) := by
    rw [← blanks_append, padded, append_assoc, append_assoc]
    rfl
  rw [hshape, trimSpace_itoa v (all_isSpace_blanks _) (all_isSpace_blanks right), atoi_itoa hv]

/-- `strings.Replace(s, old, new, -1)`. The first argument counts the characters of an occurrence
that are still to be passed over. -/
def replaceFrom (old new : List Char) : Nat → List Char → List Char
  | _, [] => []
  | skip + 1, _ :: cs => replaceFrom old new skip cs
  | 0, c :: cs =>
    if old.isPrefixOf (c :: cs) then new ++ replaceFrom old new (old.length - 1) cs
    else c :: replaceFrom old new 0 cs

def replaceAll (old new cs : List Char) : List Char := replaceFrom old new 0 cs

theorem replaceFrom_skip (old new skipped cs : List Char) :
    replaceFrom old new skipped.length (skipped ++ cs) = replaceAll old new cs := by
  induction skipped with
  | nil => rfl
  | cons c skipped ih => rw [length_cons, cons_append, replaceFrom, ih]

section Replace

variable {old : List Char}

/-- An occurrence at the beginning is replaced. -/
theorem replaceAll_append (h : old ≠ []) (new cs : List Char) :
    replaceAll old new (old ++ cs) = new ++ replaceAll old new cs := by
  obtain ⟨c, old, rfl⟩ := exists_cons_of_ne_nil h
  have hhead : (c :: old).isPrefixOf (c :: (old ++ cs)) = true :=
    isPrefixOf_iff_prefix.mpr (prefix_append (c :: old) cs)
  rw [replaceAll, cons_append, replaceFrom, if_pos hhead]
  exact congrArg (new ++ ·) (replaceFrom_skip (c :: old) new old cs)

theorem replaceAll_cons {c : Char} {cs : List Char} (h : ¬ old <+: c :: cs) (new : List Char) :
    replaceAll old new (c :: cs) = c :: replaceAll old new cs := by
  rw [replaceAll, replaceFrom, if_neg (mt isPrefixOf_iff_prefix.mp h), ← replaceAll]

theorem replaceAll_of_absent {cs : List Char} (h : ¬ old <:+: cs) (new : List Char) :
    replaceAll old new cs = cs := by
  induction cs with
  | nil => rfl
  | cons c cs ih =>
    rw [infix_cons_iff, not_or] at h
    rw [replaceAll_cons h.1, ih h.2]

section

variable (h : old ≠ [])

include h

/-- Induction along the scan, which finds an occurrence or passes over a character. -/
theorem scan_induction {motive : List Char → Prop} (nil : motive [])
    (found : ∀ cs, motive cs → motive (old ++ cs))
    (pass : ∀ c cs, ¬ old <+: c :: cs → motive cs → motive (c :: cs)) (cs : List Char) :
    motive cs := by
  obtain ⟨n, hn⟩ : ∃ n, cs.length ≤ n := ⟨_, Nat.le_refl _⟩
  induction n generalizing cs with
  | zero => rwa [length_eq_zero_iff.mp (Nat.le_zero.mp hn)]
  | succ n ih =>
    by_cases hpre : old <+: cs
    · obtain ⟨rest, rfl⟩ := hpre
      have := length_pos_of_ne_nil h
      rw [length_append] at hn
      exact found rest (ih rest (by omega))
    · cases cs with
      | nil => exact nil
      | cons c cs => exact pass c cs hpre (ih cs (Nat.le_of_succ_le_succ hn))

/-- A character that the old text does not have is kept, and both sides of it are replaced. -/
theorem replaceAll_append_cons {sep : Char} (hsep : sep ∉ old) (new cs rest : List Char) :
    replaceAll old new (cs ++ sep :: rest) =
      replaceAll old new cs ++ sep :: replaceAll old new rest := by
  induction cs using scan_induction h with
  | nil =>
    refine replaceAll_cons (fun hpre => ?_) new
    obtain ⟨c, old, rfl⟩ := exists_cons_of_ne_nil h
    rw [(cons_prefix_cons.mp hpre).1] at hsep
    exact hsep mem_cons_self
  | found cs ih => rw [append_assoc, replaceAll_append h, replaceAll_append h, ih, append_assoc]
  | pass c cs hpre ih =>
    rw [replaceAll_cons hpre, cons_append, cons_append, replaceAll_cons (fun hlong => ?_), ih]
    rw [← cons_append] at hlong
    rcases Nat.lt_or_ge (c :: cs).length old.length with hlt | hle
    · have hmem : (c :: cs) ++ [sep] <+: old :=
        prefix_of_prefix_length_le (by simp) hlong (by rwa [length_append])
      exact hsep (hmem.subset (by simp))
    · exact hpre (prefix_of_prefix_length_le hlong (prefix_append _ _) hle)

/-- Each occurrence changes the length by as much. -/
theorem length_replaceAll (new cs : List Char) : ∃ k,
    (replaceAll old new cs).length + k * old.length = cs.length + k * new.length := by
  induction cs using scan_induction h with
  | nil => exact ⟨0, by rw [Nat.zero_mul, Nat.zero_mul]; rfl⟩
  | found cs ih =>
    obtain ⟨k, hk⟩ := ih
    refine ⟨k + 1, ?_⟩
    rw [replaceAll_append h, length_append, length_append, Nat.succ_mul, Nat.succ_mul]
    omega
  | pass c cs hpre ih =>
    obtain ⟨k, hk⟩ := ih
    refine ⟨k, ?_⟩
    rw [replaceAll_cons hpre, length_cons, length_cons]
    omega

/-- When nothing changes. -/
theorem replaceAll_eq_self_iff (new cs : List Char) :
    replaceAll old new cs = cs ↔ new = old ∨ ¬ old <:+: cs := by
  induction cs using scan_induction h with
  | nil => exact iff_of_true rfl (.inr fun hin => h (infix_nil.mp hin))
  | found cs ih =>
    rw [replaceAll_append h]
    constructor
    · intro heq
      obtain ⟨k, hk⟩ := length_replaceAll h new cs
      have hlen := congrArg length heq
      rw [length_append, length_append] at hlen
      have hsame : (k + 1) * new.length = (k + 1) * old.length := by
        rw [Nat.succ_mul, Nat.succ_mul]
        omega
      exact .inl (append_inj heq (Nat.eq_of_mul_eq_mul_left (Nat.succ_pos k) hsame)).1
    · rintro (rfl | hin)
      · rw [ih.mpr (.inl rfl)]
      · exact absurd (prefix_append old cs).isInfix hin
  | pass c cs hpre ih =>
    rw [replaceAll_cons hpre, cons.injEq, infix_cons_iff, ih]
    simp only [true_and, hpre, false_or]

end

end Replace

/-! ### Lines and cells -/

/-- A line without the carriage return at its end. -/
def chomp (line : List Char) : List Char :=
  if line.getLast? = some '\r' then line.dropLast else line

/-- The lines but for empty ones, cut at the commas. -/
def records (text : List Char) : List (List (List Char)) :=
  (((text.splitOn '\n').map chomp).filter (· ≠ [])).map (·.splitOn ',')

/-- `csv.Reader.ReadAll` on a text without quoted fields: every line has as many cells as the
first. -/
def readAll (text : List Char) : Option (List (List (List Char))) :=
  if '"' ∈ text then none
  else if (records text).all fun cells => cells.length = ((records text).headD []).length then
    some (records text)
  else none

/-- A line that is written. -/
def line (cells : List (List Char)) : List Char := [','].intercalate cells ++ ['\n']

/-- The characters that stand for themselves in a cell. -/
def isPlain (c : Char) : Bool := decide (c ∉ [',', '\n', '\r', '"'])

/-- Cells that one line can hold: there is something in the first, and no separator in any. -/
structure Cells (cells : List (List Char)) : Prop where
  plain : ∀ cell ∈ cells, cell.all isPlain = true
  head : cells.headD [] ≠ []

theorem all_isPlain_blanks (n : Nat) : (blanks n).all isPlain = true := by
  rw [blanks, all_replicate]
  split
  · rfl
  · decide

theorem all_isPlain_padded (w : Nat) (v : Int) : (padded w v).all isPlain = true := by
  have hnumber : (itoa v).all isPlain = true := by
    rw [all_eq_true]
    intro c hc
    rcases mem_itoa hc with rfl | hdigit
    · decide
    apply decide_eq_true
    intro hmem
    simp only [mem_cons, not_mem_nil, or_false] at hmem
    rcases hmem with rfl | rfl | rfl | rfl
    all_goals exact absurd hdigit (by decide)
  rw [padded, all_append, hnumber, ← blanks, all_isPlain_blanks]
  rfl

theorem padded_ne_nil (w : Nat) (v : Int) : padded w v ≠ [] := by
  intro h
  exact itoa_ne_nil v (append_eq_nil_iff.mp h).2

/-- A row has the characters of its cells and commas. -/
theorem mem_intercalate {cells : List (List Char)} {c : Char} (h : c ∈ [','].intercalate cells) :
    c = ',' ∨ ∃ cell ∈ cells, c ∈ cell := by
  induction cells with
  | nil =>
    rw [intercalate_nil] at h
    cases h
  | cons cell cells ih =>
    cases cells with
    | nil =>
      rw [intercalate_singleton] at h
      exact .inr ⟨cell, mem_cons_self, h⟩
    | cons next cells =>
      rw [intercalate_cons_cons, append_assoc, mem_append, mem_append] at h
      rcases h with h | h | h
      · exact .inr ⟨cell, mem_cons_self, h⟩
      · exact .inl (mem_singleton.mp h)
      rcases ih h with rfl | ⟨other, hother, hc⟩
      · exact .inl rfl
      · exact .inr ⟨other, mem_cons_of_mem cell hother, hc⟩

namespace Cells

variable {cells : List (List Char)}

variable (h : Cells cells)

include h

/-- A separator other than the comma is not in the row. -/
theorem not_mem {c : Char} (hc : isPlain c = false) (hcomma : c ≠ ',') :
    c ∉ [','].intercalate cells := by
  intro hmem
  rcases mem_intercalate hmem with rfl | ⟨cell, hcell, hin⟩
  · exact hcomma rfl
  have hplain := all_eq_true.mp (h.plain cell hcell) c hin
  rw [hc] at hplain
  cases hplain

theorem ne_nil : cells ≠ [] := by
  rintro rfl
  exact h.head rfl

theorem row_ne_nil : [','].intercalate cells ≠ [] := by
  cases cells with
  | nil => exact absurd rfl h.head
  | cons cell cells =>
    intro hrow
    cases cells with
    | nil => exact h.head (intercalate_singleton.symm.trans hrow)
    | cons next cells =>
      rw [intercalate_cons_cons, append_assoc] at hrow
      exact h.head (append_eq_nil_iff.mp hrow).1

theorem chomp_row : chomp ([','].intercalate cells) = [','].intercalate cells := by
  rw [chomp, if_neg]
  intro hlast
  exact h.not_mem (by decide) (by decide) (mem_of_getLast? hlast)

theorem splitOn_row : ([','].intercalate cells).splitOn ',' = cells := by
  apply splitOn_intercalate ',' _ h.ne_nil
  intro cell hcell hcomma
  exact absurd (all_eq_true.mp (h.plain cell hcell) ',' hcomma) (by decide)

end Cells

theorem intercalate_cons {cell : List Char} {cells : List (List Char)} (h : cells ≠ []) :
    [','].intercalate (cell :: cells) = cell ++ ',' :: [','].intercalate cells := by
  rw [intercalate_cons_of_ne_nil h, append_assoc, singleton_append]

theorem splitOn_lines {rows : List (List Char)} (h : ∀ row ∈ rows, '\n' ∉ row) :
    (rows.flatMap (· ++ ['\n'])).splitOn '\n' = rows ++ [[]] := by
  induction rows with
  | nil => rfl
  | cons row rows ih =>
    rw [flatMap_cons, append_assoc, singleton_append,
      splitOn_append_cons_self_of_not_mem (h row mem_cons_self),
      ih fun r hr => h r (mem_cons_of_mem row hr), cons_append]

theorem records_lines {table : List (List (List Char))} (h : ∀ cells ∈ table, Cells cells) :
    records (table.flatMap line) = table := by
  have hrows : table.flatMap line = (table.map [','].intercalate).flatMap (· ++ ['\n']) := by
    rw [flatMap_map]
    rfl
  have hnewline : ∀ row ∈ table.map [','].intercalate, '\n' ∉ row := by
    intro row hrow
    obtain ⟨cells, hcells, rfl⟩ := mem_map.mp hrow
    exact (h cells hcells).not_mem (by decide) (by decide)
  have hchomp : (table.map [','].intercalate).map chomp = table.map [','].intercalate := by
    rw [map_map]
    exact map_congr_left fun cells hcells => (h cells hcells).chomp_row
  have hfilter : (table.map [','].intercalate).filter (· ≠ []) = table.map [','].intercalate := by
    rw [filter_eq_self]
    intro row hrow
    obtain ⟨cells, hcells, rfl⟩ := mem_map.mp hrow
    exact decide_eq_true (h cells hcells).row_ne_nil
  have hcut : (table.map [','].intercalate).map (·.splitOn ',') = table := by
    rw [map_map]
    exact (map_congr_left fun cells hcells => (h cells hcells).splitOn_row).trans
      (map_id' table)
  rw [records, hrows, splitOn_lines hnewline, map_append, hchomp, filter_append, hfilter,
    map_append, hcut]
  exact append_nil table

/-- What was written line by line is read back. -/
theorem readAll_lines {table : List (List (List Char))} {width : Nat}
    (h : ∀ cells ∈ table, Cells cells ∧ cells.length = width) :
    readAll (table.flatMap line) = some table := by
  have hquote : '"' ∉ table.flatMap line := by
    intro hmem
    obtain ⟨cells, hcells, hin⟩ := mem_flatMap.mp hmem
    rcases mem_append.mp hin with hrow | hend
    · exact (h cells hcells).1.not_mem (by decide) (by decide) hrow
    · exact absurd hend (by decide)
  have hwidth : table.all (fun cells => cells.length = (table.headD []).length) = true := by
    rw [all_eq_true]
    intro cells hcells
    cases table with
    | nil => cases hcells
    | cons first table =>
      apply decide_eq_true
      rw [(h cells hcells).2]
      exact (h first mem_cons_self).2.symm
  rw [readAll, if_neg hquote, records_lines fun cells hcells => (h cells hcells).1, if_pos hwidth]

end RlncStreaming.Lib
