import RlncStreaming.Godash.Mpd
import RlncStreaming.Lib.Paths

/-!
The table of segment sizes (`http/mpdParsing.go`).

`getSegmentHeaders` computes the size of every segment in every representation that the height
limit allows, and it can write them to a file: two lines with the widths and the heights, and
then a line for each segment. `getNSegmentHeadersFromFile` reads the file. What was written from
the first segment on is read back (`getNSegmentHeadersFromFile_getSegmentHeaders`).

The size of a segment of a byte-range MPD is the difference of the two ends of its media range.
The player asks for both ends, and so for one byte more.
-/

namespace RlncStreaming.Godash

open Lib List Function

/-- `map[int][]int`, the sizes for each representation. -/
abbrev Dictionary := Int → List Int

def Dictionary.append (d : Dictionary) (j size : Int) : Dictionary :=
  update d j (d j ++ [size])

/-- The files in the folder of the logs. -/
abbrev Files := List Char → Option (List Char)

/-- The answers to the requests for a header: the `Content-Length` of a segment in a
representation, if there is an answer. -/
abbrev Server := Int → Int → Option (List Char)

/-! ### Sizes -/

/-- A request without an answer panics, and a length that is no number is ignored. -/
def getContentLengthHeader (server : Server) (currentMPD : MPD)
    (currentMPDRepAdaptSet repRate segmentNumber : Int) : Go Int := do
  let _ ← getNextSegment currentMPD segmentNumber repRate currentMPDRepAdaptSet
  let header ← orExit (server segmentNumber repRate)
  pure (atoiValue header)

/-- The size of segment `i` in representation `j`. -/
def contentLength (server : Server) (currentMPD : MPD) (currentMPDRepAdaptSet : Int)
    (isByteRangeMPD : Bool) (i j : Int) : Go Int :=
  if isByteRangeMPD then do
    let (_, startRange, endRange) ← getNextByteRangeURL currentMPD i j currentMPDRepAdaptSet
    pure (endRange - startRange)
  else getContentLengthHeader server currentMPD currentMPDRepAdaptSet j i

/-- How many bytes the header `bytes=startRange-endRange` asks for. -/
def bytesRequested (startRange endRange : Int) : Int := endRange - startRange + 1

/-! ### The file -/

/-- The name of the file for an MPD. -/
def headerFileName (current : MPD) (segmentDuration : Int) (headerURL : List Char)
    (isByteRangeMPD : Bool) : Go (List Char) := do
  let mpdTitle ← index (headerURL.splitOn '.') 0
  let profiles := current.profiles.splitOn ':'
  let profile ← index profiles (profiles.length - 2)
  pure ("./logs/".toList ++ itoa segmentDuration ++ "sec_".toList ++ mpdTitle ++
    (if isByteRangeMPD then "_byte_range".toList else []) ++ "_".toList ++ profile ++ ".csv".toList)

/-- A line of the file with one value of each representation. -/
def printHeader (value : Representation → Int) (set : AdaptationSet)
    (highestMPDrepRateIndex lowestMPDrepRateIndex : Int) : Go (List Char) := do
  let text ← (upTo highestMPDrepRateIndex lowestMPDrepRateIndex).foldlM (fun text k => do
    let r ← index set.representation k
    pure (text ++ padded 8 (value r) ++
      (if k = lowestMPDrepRateIndex then [] else ',' :: blanks 3))) (blanks 7 ++ [','])
  pure (text ++ ['\n'])

/-- The sizes of segment `i` are put into the dictionary, and into a line of the file. -/
def printSizes (size : Int → Int → Go Int) (highestMPDrepRateIndex lowestMPDrepRateIndex : Int)
    (table : Dictionary × List Char) (i : Int) : Go (Dictionary × List Char) := do
  let table ← (upTo highestMPDrepRateIndex lowestMPDrepRateIndex).foldlM (fun table j => do
    let contentLength ← size i j
    pure (table.1.append j contentLength, table.2 ++ padded 8 contentLength ++
      (if j = lowestMPDrepRateIndex then blanks 3 else ',' :: blanks 3)))
    (table.1, table.2 ++ padded 4 i ++ ',' :: blanks 3)
  pure (table.1, table.2 ++ [' ', '\n'])

/-- What both functions read from the MPD first: the values, the segment duration, and the number
of segments. -/
def tableBounds (mpdList : List MPD) (mpdListIndex currentMPDRepAdaptSet maxHeight streamDuration
    maxBuffer : Int) (isByteRangeMPD : Bool) : Go (MPDValues × Int × Int) := do
  let v ← getMPDValues mpdList mpdListIndex maxHeight streamDuration maxBuffer
    currentMPDRepAdaptSet isByteRangeMPD
  let segmentDuration ← index v.segmentDurationArray mpdListIndex
  let maxSegments ← quot v.maxStreamDuration (millis segmentDuration)
  pure (v, segmentDuration, maxSegments)

def getSegmentHeaders (server : Server) (mpdList : List MPD) (mpdListIndex currentMPDRepAdaptSet
    maxHeight segmentNumber streamDuration : Int) (isByteRangeMPD : Bool) (maxBuffer : Int)
    (headerURL : List Char) (printToFile : Bool) (files : Files) : Go (Dictionary × Files) := do
  let (v, segmentDuration, maxSegments) ← tableBounds mpdList mpdListIndex currentMPDRepAdaptSet
    maxHeight streamDuration maxBuffer isByteRangeMPD
  let current ← index mpdList mpdListIndex
  let size := contentLength server current currentMPDRepAdaptSet isByteRangeMPD
  let row := printSizes size v.highestMPDrepRateIndex v.lowestMPDrepRateIndex
  if printToFile then do
    let fileName ← headerFileName current segmentDuration headerURL isByteRangeMPD
    let set ← current.adaptationSet currentMPDRepAdaptSet
    let widths ← printHeader Representation.width set v.highestMPDrepRateIndex
      v.lowestMPDrepRateIndex
    let heights ← printHeader Representation.height set v.highestMPDrepRateIndex
      v.lowestMPDrepRateIndex
    let table ← (upTo segmentNumber maxSegments).foldlM row (fun _ => [], widths ++ heights)
    pure (table.1, update files fileName (some table.2))
  else do
    let table ← (upTo segmentNumber maxSegments).foldlM row (fun _ => [], [])
    pure (table.1, files)

/-- A cell that is no number is passed over, and the next representation looks at it again. -/
def readCell (columns : List (List Char)) (st : Dictionary × Int) (j : Int) :
    Go (Dictionary × Int) := do
  let cell ← index columns st.2
  match atoi (trimSpace cell) with
  | some i1 => pure (st.1.append j i1, st.2 + 1)
  | none => pure st

def readSizes (highestMPDrepRateIndex lowestMPDrepRateIndex : Int) (columns : List (List Char))
    (d : Dictionary) : Go Dictionary := do
  let st ← (upTo highestMPDrepRateIndex lowestMPDrepRateIndex).foldlM (readCell columns) (d, 1)
  pure st.1

/-- The rows that belong to the segments from `segmentNumber` to `maxSegments`. -/
def readRow (highestMPDrepRateIndex lowestMPDrepRateIndex segmentNumber maxSegments : Int)
    (d : Dictionary) (row : List (List Char) × Nat) : Go Dictionary :=
  if (row.2 : Int) < segmentNumber + 1 then pure d
  else if (row.2 : Int) > maxSegments + 1 then pure d
  else readSizes highestMPDrepRateIndex lowestMPDrepRateIndex row.1 d

def getNSegmentHeadersFromFile (mpdList : List MPD) (mpdListIndex currentMPDRepAdaptSet maxHeight
    segmentNumber streamDuration : Int) (isByteRangeMPD : Bool) (maxBuffer : Int)
    (headerURL : List Char) (files : Files) : Go Dictionary := do
  let (v, segmentDuration, maxSegments) ← tableBounds mpdList mpdListIndex currentMPDRepAdaptSet
    maxHeight streamDuration maxBuffer isByteRangeMPD
  let current ← index mpdList mpdListIndex
  let fileName ← headerFileName current segmentDuration headerURL isByteRangeMPD
  let text ← orExit (files fileName)
  let lines ← orExit (readAll text)
  lines.zipIdx.foldlM (readRow v.highestMPDrepRateIndex v.lowestMPDrepRateIndex segmentNumber
    maxSegments) fun _ => []

/-! ### Lines of the file -/

/-- The cells of a line after the first. Before a number stand the blanks that follow the comma,
and after the last one `tail` blanks. -/
def cellsFrom (tail : Nat) (number : Int → Int) : Nat → List Int → List (List Char)
  | _, [] => []
  | lead, [j] => [blanks lead ++ (padded 8 (number j) ++ blanks tail)]
  | lead, j :: j' :: js =>
    (blanks lead ++ (padded 8 (number j) ++ blanks 0)) :: cellsFrom tail number 3 (j' :: js)

theorem length_cellsFrom (tail : Nat) (number : Int → Int) (lead : Nat) (js : List Int) :
    (cellsFrom tail number lead js).length = js.length := by
  induction lead, js using cellsFrom.induct with
  | case1 lead => rfl
  | case2 lead j => rfl
  | case3 lead j j' js ih =>
    rw [cellsFrom, length_cons, ih]
    rfl

variable {number : Int → Int}

/-- Every cell is a number between blanks. -/
theorem forall₂_cellsFrom {R : Int → List Char → Prop} (tail lead : Nat) {js : List Int}
    (hcell : ∀ j ∈ js, ∀ left right, R j (blanks left ++ (padded 8 (number j) ++ blanks right))) :
    List.Forall₂ R js (cellsFrom tail number lead js) := by
  induction lead, js using cellsFrom.induct with
  | case1 lead => exact .nil
  | case2 lead j => exact .cons (hcell j mem_cons_self lead tail) .nil
  | case3 lead j j' js ih =>
    exact .cons (hcell j mem_cons_self lead 0) (ih fun k hk => hcell k (mem_cons_of_mem j hk))

theorem plain_cellsFrom (tail lead : Nat) (js : List Int) :
    ∀ cell ∈ cellsFrom tail number lead js, cell.all isPlain = true := by
  have hplain : List.Forall₂ (fun _ cell => cell.all isPlain = true) js
      (cellsFrom tail number lead js) := by
    apply forall₂_cellsFrom
    intro j _ left right
    rw [all_append, all_append, all_isPlain_blanks, all_isPlain_padded, all_isPlain_blanks]
    rfl
  intro cell hcell
  obtain ⟨k, hk⟩ := getElem?_of_mem hcell
  obtain ⟨hlt, rfl⟩ := List.getElem?_eq_some_iff.mp hk
  exact hplain.get (by rw [hplain.length_eq]; exact hlt) hlt

/-- A line is printed number by number, and the last one is known by its index. -/
theorem foldl_print {lowest : Int} (mid rest : Nat) {js : List Int} (hlast : lowest ∉ js)
    (start : List Char) (lead : Nat) :
    (js ++ [lowest]).foldl (fun text j => text ++ padded 8 (number j) ++
        (if j = lowest then blanks mid else ',' :: blanks 3)) (start ++ blanks lead) ++
        blanks rest =
      start ++ [','].intercalate (cellsFrom (mid + rest) number lead (js ++ [lowest])) := by
  induction js generalizing start lead with
  | nil =>
    rw [nil_append, foldl_cons, foldl_nil, if_pos rfl, cellsFrom,
      intercalate_singleton, ← blanks_append]
    simp only [append_assoc]
  | cons j js ih =>
    have hj : j ≠ lowest := fun h => hlast (h ▸ mem_cons_self)
    have hnext := ih (fun h => hlast (mem_cons_of_mem j h))
      (start ++ blanks lead ++ padded 8 (number j) ++ [',']) 3
    have hcells : cellsFrom (mid + rest) number lead (j :: js ++ [lowest]) =
        (blanks lead ++ (padded 8 (number j) ++ blanks 0)) ::
          cellsFrom (mid + rest) number 3 (js ++ [lowest]) := by
      cases js with
      | nil => rfl
      | cons j' js => rfl
    have hne : cellsFrom (mid + rest) number 3 (js ++ [lowest]) ≠ [] := by
      apply ne_nil_of_length_pos
      rw [length_cellsFrom, length_append, length_singleton]
      exact Nat.succ_pos _
    rw [hcells, intercalate_cons hne, cons_append, foldl_cons, if_neg hj]
    simp only [append_assoc, singleton_append] at hnext ⊢
    rw [hnext]
    rfl

/-- The cells of a line with one value of each representation. -/
def valueCells (number : Int → Int) (highest lowest : Int) : List (List Char) :=
  blanks 7 :: cellsFrom 0 number 0 (upTo highest lowest)

/-- The cells of the line of segment `i`. -/
def sizeCells (number : Int → Int) (highest lowest i : Int) : List (List Char) :=
  padded 4 i :: cellsFrom 4 number 3 (upTo highest lowest)

section Lines

variable {highest lowest : Int}

section

variable (hle : highest ≤ lowest)

include hle

/-- The numbers of a line, printed one after another. -/
theorem foldl_print_upTo (number : Int → Int) (mid rest : Nat) (start : List Char) (lead : Nat) :
    (upTo highest lowest).foldl (fun text j => text ++ padded 8 (number j) ++
        (if j = lowest then blanks mid else ',' :: blanks 3)) (start ++ blanks lead) ++
        blanks rest =
      start ++ [','].intercalate (cellsFrom (mid + rest) number lead (upTo highest lowest)) := by
  have hlast : lowest ∉ upTo highest (lowest - 1) := by
    rw [mem_upTo]
    omega
  rw [upTo_succ hle]
  exact foldl_print mid rest hlast start lead

theorem cellsFrom_upTo_ne_nil (tail : Nat) (number : Int → Int) (lead : Nat) :
    cellsFrom tail number lead (upTo highest lowest) ≠ [] := by
  apply ne_nil_of_length_pos
  rw [length_cellsFrom, upTo_succ hle, length_append, length_singleton]
  exact Nat.succ_pos _

theorem printHeader_eq_ok {value : Representation → Int} {set : AdaptationSet} {text : List Char}
    (h : printHeader value set highest lowest = .ok text) :
    ∃ number, text = line (valueCells number highest lowest) := by
  obtain ⟨body, hbody, htext⟩ := bind_eq_ok.mp h
  obtain ⟨-, hfold⟩ := foldlM_eq_ok.mp hbody
  let number : Int → Int := fun k => value ((index set.representation k).toOption.getD default)
  have hline := foldl_print_upTo hle number 0 0 (blanks 7 ++ [',']) 0
  rw [show blanks 0 = [] from rfl, append_nil, append_nil, append_assoc] at hline
  refine ⟨number, ?_⟩
  rw [← pure_eq_ok.mp htext, hfold, line, valueCells,
    intercalate_cons (cellsFrom_upTo_ne_nil hle 0 number 0)]
  exact congrArg (· ++ ['\n']) hline

/-- A line of the table: what goes into the dictionary, and what is printed. -/
theorem printSizes_eq_ok {size : Int → Int → Go Int} {i : Int}
    {table table' : Dictionary × List Char}
    (h : printSizes size highest lowest table i = .ok table') :
    (∀ j ∈ upTo highest lowest, size i j = .ok ((size i j).toOption.getD default)) ∧
      table'.1 = (upTo highest lowest).foldl
        (fun d j => d.append j ((size i j).toOption.getD default)) table.1 ∧
      table'.2 = table.2 ++
        line (sizeCells (fun j => (size i j).toOption.getD default) highest lowest i) := by
  obtain ⟨body, hbody, htable⟩ := bind_eq_ok.mp h
  obtain ⟨hsizes, hfold⟩ := foldlM_eq_ok.mp hbody
  let number : Int → Int := fun j => (size i j).toOption.getD default
  have hstart : table.2 ++ padded 4 i ++ ',' :: blanks 3 =
      table.2 ++ padded 4 i ++ [','] ++ blanks 3 := by
    rw [append_assoc _ [','], singleton_append]
  have hpair := foldl_pair (fun (d : Dictionary) j => d.append j (number j))
    (fun text j => text ++ padded 8 (number j) ++
      (if j = lowest then blanks 3 else ',' :: blanks 3)) (upTo highest lowest) table.1
    (table.2 ++ padded 4 i ++ [','] ++ blanks 3)
  have hline := foldl_print_upTo hle number 3 1 (table.2 ++ padded 4 i ++ [',']) 3
  rw [hstart] at hfold
  rw [← pure_eq_ok.mp htable, hfold.trans hpair]
  refine ⟨hsizes, rfl, ?_⟩
  rw [line, sizeCells, intercalate_cons (cellsFrom_upTo_ne_nil hle 4 number 3)]
  -- the blank before the end of the line belongs to the last cell
  rw [show [' ', '\n'] = blanks 1 ++ ['\n'] from rfl, ← append_assoc, hline]
  simp only [append_assoc, cons_append, nil_append, Nat.reduceAdd]

/-- The whole table. -/
theorem foldlM_printSizes {size : Int → Int → Go Int} {is : List Int}
    {table table' : Dictionary × List Char}
    (h : is.foldlM (printSizes size highest lowest) table = .ok table') :
    (∀ i ∈ is, ∀ j ∈ upTo highest lowest, size i j = .ok ((size i j).toOption.getD default)) ∧
      table'.1 = is.foldl (fun d i => (upTo highest lowest).foldl
        (fun d j => d.append j ((size i j).toOption.getD default)) d) table.1 ∧
      table'.2 = table.2 ++ (is.map fun i =>
        sizeCells (fun j => (size i j).toOption.getD default) highest lowest i).flatMap line := by
  induction is generalizing table with
  | nil =>
    cases h
    exact ⟨fun i hi => absurd hi not_mem_nil, rfl, (append_nil _).symm⟩
  | cons i is ih =>
    rw [foldlM_cons, bind_eq_ok] at h
    obtain ⟨next, hrow, hrest⟩ := h
    obtain ⟨hsizes, hdict, htext⟩ := printSizes_eq_ok hle hrow
    obtain ⟨hsizes', hdict', htext'⟩ := ih hrest
    refine ⟨?_, ?_, ?_⟩
    · intro i' hi'
      rcases mem_cons.mp hi' with rfl | hi'
      · exact hsizes
      · exact hsizes' i' hi'
    · rw [hdict', hdict, foldl_cons]
    · rw [htext', htext, map_cons, flatMap_cons, append_assoc]

end

/-! ### Reading -/

/-- A line of numbers is read number by number. -/
theorem foldlM_readCell {js : List Int} {cells : List (List Char)}
    (hcells : List.Forall₂ (fun j cell => atoi (trimSpace cell) = some (number j)) js cells)
    (past : List (List Char)) (d : Dictionary) :
    js.foldlM (readCell (past ++ cells)) (d, (past.length : Int)) =
      .ok (js.foldl (fun d j => d.append j (number j)) d,
        ((past.length + js.length : Nat) : Int)) := by
  induction hcells generalizing past d with
  | nil => rfl
  | @cons j cell js cells hcell _ ih =>
    have hindex : index (past ++ cell :: cells) (past.length : Int) = .ok cell := by
      rw [index_natCast, getElem?_append_right (Nat.le_refl _), Nat.sub_self]
      rfl
    have hnext := ih (past ++ [cell]) (d.append j (number j))
    rw [append_assoc, singleton_append, length_append, length_singleton] at hnext
    rw [foldlM_cons, readCell, hindex, foldl_cons, length_cons, Nat.add_comm js.length 1,
      ← Nat.add_assoc]
    simp only [bind, Except.bind, hcell]
    exact hnext

/-- The line of a segment is read back. -/
theorem readSizes_sizeCells (hsize : ∀ j ∈ upTo highest lowest, IsInt64 (number j)) (i : Int)
    (d : Dictionary) :
    readSizes highest lowest (sizeCells number highest lowest i) d =
      .ok ((upTo highest lowest).foldl (fun d j => d.append j (number j)) d) := by
  have hcells : List.Forall₂ (fun j cell => atoi (trimSpace cell) = some (number j))
      (upTo highest lowest) (cellsFrom 4 number 3 (upTo highest lowest)) := by
    apply forall₂_cellsFrom
    intro j hj left right
    exact atoi_trimSpace_padded (hsize j hj) 8 left right
  have hread := foldlM_readCell hcells [padded 4 i] d
  rw [singleton_append] at hread
  rw [readSizes, sizeCells]
  exact bind_eq_ok.mpr ⟨_, hread, rfl⟩

/-- The lines of the segments are read back, if none of them is beyond the last segment. -/
theorem foldlM_readRow {number : Int → Int → Int} {is : List Int} {maxSegments : Int}
    (hsize : ∀ i ∈ is, ∀ j ∈ upTo highest lowest, IsInt64 (number i j)) {row : Nat} (hrow : 2 ≤ row)
    (hlast : is ≠ [] → (row : Int) + is.length ≤ maxSegments + 2) (d : Dictionary) :
    ((is.map fun i => sizeCells (number i) highest lowest i).zipIdx row).foldlM
        (readRow highest lowest 1 maxSegments) d =
      .ok (is.foldl (fun d i => (upTo highest lowest).foldl
        (fun d j => d.append j (number i j)) d) d) := by
  induction is generalizing row d with
  | nil => rfl
  | cons i is ih =>
    have hlen := hlast (cons_ne_nil i is)
    rw [length_cons, Int.natCast_add] at hlen
    have hfirst : readRow highest lowest 1 maxSegments d
        (sizeCells (number i) highest lowest i, row) =
        .ok ((upTo highest lowest).foldl (fun d j => d.append j (number i j)) d) := by
      rw [readRow, if_neg (by dsimp only; omega), if_neg (by dsimp only; omega)]
      exact readSizes_sizeCells (hsize i mem_cons_self) i d
    have hrow' : 2 ≤ row + 1 := Nat.le_succ_of_le hrow
    have hnext := ih (fun k hk => hsize k (mem_cons_of_mem i hk)) hrow' (fun _ => by omega)
      ((upTo highest lowest).foldl (fun d j => d.append j (number i j)) d)
    rw [map_cons, zipIdx_cons, foldlM_cons, hfirst]
    exact hnext

/-! ### The file as a whole -/

theorem cells_valueCells :
    Cells (valueCells number highest lowest) := by
  constructor
  · intro cell hcell
    rcases mem_cons.mp hcell with rfl | hcell
    · exact all_isPlain_blanks 7
    · exact plain_cellsFrom 0 0 (upTo highest lowest) cell hcell
  · exact cons_ne_nil _ _

theorem cells_sizeCells (highest lowest i : Int) :
    Cells (sizeCells number highest lowest i) := by
  constructor
  · intro cell hcell
    rcases mem_cons.mp hcell with rfl | hcell
    · exact all_isPlain_padded 4 i
    · exact plain_cellsFrom 4 3 (upTo highest lowest) cell hcell
  · exact padded_ne_nil 4 i

end Lines

/-! ### What the file has -/

theorem splitByteRange_eq_ok {byteRange : List Char} {startRange endRange : Int}
    (h : splitByteRange byteRange = .ok (startRange, endRange)) :
    (0 ≤ startRange ∧ startRange < 2 ^ 63) ∧ 0 ≤ endRange ∧ endRange < 2 ^ 63 := by
  obtain ⟨first, hfirst, h⟩ := bind_eq_ok.mp h
  obtain ⟨s, hs, h⟩ := bind_eq_ok.mp h
  obtain ⟨second, hsecond, h⟩ := bind_eq_ok.mp h
  obtain ⟨t, ht, h⟩ := bind_eq_ok.mp h
  cases pure_eq_ok.mp h
  -- the minus sign is the separator
  exact ⟨atoi_nonneg (orExit_eq_ok.mp hs) (not_mem_of_mem_splitOn '-' (index_mem hfirst)),
    atoi_nonneg (orExit_eq_ok.mp ht) (not_mem_of_mem_splitOn '-' (index_mem hsecond))⟩

section Sizes

variable {server : Server} {current : MPD} {currentMPDRepAdaptSet : Int} {isByteRangeMPD : Bool}

theorem contentLength_byteRange {i j size : Int} :
    contentLength server current currentMPDRepAdaptSet true i j = .ok size ↔
      ∃ url startRange endRange, getNextByteRangeURL current i j currentMPDRepAdaptSet =
        .ok (url, startRange, endRange) ∧ size = endRange - startRange := by
  rw [contentLength, if_pos rfl, bind_eq_ok]
  constructor
  · rintro ⟨⟨url, startRange, endRange⟩, hrange, hsize⟩
    exact ⟨url, startRange, endRange, hrange, (pure_eq_ok.mp hsize).symm⟩
  · rintro ⟨url, startRange, endRange, hrange, rfl⟩
    exact ⟨_, hrange, rfl⟩

/-- A size has 64 bits. -/
theorem isInt64_contentLength {i j size : Int}
    (h : contentLength server current currentMPDRepAdaptSet isByteRangeMPD i j = .ok size) :
    IsInt64 size := by
  cases isByteRangeMPD with
  | true =>
    obtain ⟨url, startRange, endRange, hrange, rfl⟩ := contentLength_byteRange.mp h
    obtain ⟨set, -, hrange⟩ := bind_eq_ok.mp hrange
    obtain ⟨r, -, hrange⟩ := bind_eq_ok.mp hrange
    obtain ⟨mediaRange, -, hrange⟩ := bind_eq_ok.mp hrange
    obtain ⟨⟨s, t⟩, hsplit, hrange⟩ := bind_eq_ok.mp hrange
    cases pure_eq_ok.mp hrange
    have hends := splitByteRange_eq_ok hsplit
    unfold IsInt64
    omega
  | false =>
    obtain ⟨_, -, h⟩ := bind_eq_ok.mp h
    obtain ⟨header, -, h⟩ := bind_eq_ok.mp h
    rw [← pure_eq_ok.mp h]
    exact isInt64_atoiValue header

variable (server current currentMPDRepAdaptSet isByteRangeMPD)

/-- The size of a segment, where it has one. -/
def sizeAt (i j : Int) : Int :=
  (contentLength server current currentMPDRepAdaptSet isByteRangeMPD i j).toOption.getD default

/-- A dictionary with the sizes of the segments `is`, and a file with them. -/
structure Written (v : MPDValues) (is : List Int) (d : Dictionary) (text : List Char) : Prop where
  sizes : ∀ i ∈ is, ∀ j ∈ upTo v.highestMPDrepRateIndex v.lowestMPDrepRateIndex,
    contentLength server current currentMPDRepAdaptSet isByteRangeMPD i j =
      .ok (sizeAt server current currentMPDRepAdaptSet isByteRangeMPD i j)
  dictionary : d = is.foldl (fun d i =>
    (upTo v.highestMPDrepRateIndex v.lowestMPDrepRateIndex).foldl (fun d j =>
      Dictionary.append d j (sizeAt server current currentMPDRepAdaptSet isByteRangeMPD i j)) d)
    fun _ => []
  file : ∃ widths heights : Int → Int, text =
    (valueCells widths v.highestMPDrepRateIndex v.lowestMPDrepRateIndex ::
      valueCells heights v.highestMPDrepRateIndex v.lowestMPDrepRateIndex ::
      is.map fun i => sizeCells (sizeAt server current currentMPDRepAdaptSet isByteRangeMPD i)
        v.highestMPDrepRateIndex v.lowestMPDrepRateIndex i).flatMap line

variable {server current currentMPDRepAdaptSet isByteRangeMPD} {v : MPDValues} {is : List Int}
  {d : Dictionary} {text : List Char}

theorem Written.readAll
    (h : Written server current currentMPDRepAdaptSet isByteRangeMPD v is d text) :
    ∃ widths heights : Int → Int, readAll text = some
      (valueCells widths v.highestMPDrepRateIndex v.lowestMPDrepRateIndex ::
        valueCells heights v.highestMPDrepRateIndex v.lowestMPDrepRateIndex ::
        is.map fun i => sizeCells (sizeAt server current currentMPDRepAdaptSet isByteRangeMPD i)
          v.highestMPDrepRateIndex v.lowestMPDrepRateIndex i) := by
  obtain ⟨widths, heights, htext⟩ := h.file
  have hwidth : ∀ tail lead number, (cellsFrom tail number lead
      (upTo v.highestMPDrepRateIndex v.lowestMPDrepRateIndex)).length + 1 =
      (upTo v.highestMPDrepRateIndex v.lowestMPDrepRateIndex).length + 1 := by
    intro tail lead number
    rw [length_cellsFrom]
  refine ⟨widths, heights, ?_⟩
  rw [htext]
  apply readAll_lines
  intro cells hcells
  rcases mem_cons.mp hcells with rfl | hcells
  · exact ⟨cells_valueCells, hwidth 0 0 widths⟩
  rcases mem_cons.mp hcells with rfl | hcells
  · exact ⟨cells_valueCells, hwidth 0 0 heights⟩
  obtain ⟨i, -, rfl⟩ := mem_map.mp hcells
  exact ⟨cells_sizeCells _ _ i, hwidth 4 3 _⟩

/-- The sizes from the first segment on are read back. -/
theorem Written.readRows {maxSegments : Int}
    (h : Written server current currentMPDRepAdaptSet isByteRangeMPD v
      (upTo 1 maxSegments) d text) :
    ∃ lines, Lib.readAll text = some lines ∧ lines.zipIdx.foldlM
      (readRow v.highestMPDrepRateIndex v.lowestMPDrepRateIndex 1 maxSegments) (fun _ => []) =
        .ok d := by
  obtain ⟨widths, heights, hlines⟩ := h.readAll
  have hskip : ∀ d cells (row : Nat), row < 2 → readRow v.highestMPDrepRateIndex
      v.lowestMPDrepRateIndex 1 maxSegments d (cells, row) = .ok d := by
    intro d cells row hrow
    exact if_pos (by dsimp only; omega)
  have hlast : upTo 1 maxSegments ≠ [] →
      ((2 : Nat) : Int) + (upTo 1 maxSegments).length ≤ maxSegments + 2 := by
    intro hne
    have hpos := length_pos_iff.mpr hne
    rw [length_upTo] at hpos ⊢
    omega
  have hrows := foldlM_readRow (fun i hi j hj => isInt64_contentLength (h.sizes i hi j hj))
    (Nat.le_refl 2) hlast fun _ => []
  rw [← h.dictionary] at hrows
  refine ⟨_, hlines, ?_⟩
  rw [zipIdx_cons, zipIdx_cons, foldlM_cons, hskip _ _ 0 (by omega)]
  refine bind_eq_ok.mpr ⟨_, rfl, ?_⟩
  rw [foldlM_cons, hskip _ _ (0 + 1) (by omega)]
  exact hrows

/-- One line of the table adds one size for each of its representations. -/
theorem foldl_append_apply {js : List Int} (hjs : js.Nodup) (k : Int) :
    js.foldl (fun d j => d.append j (number j)) d k =
      if k ∈ js then d k ++ [number k] else d k := by
  induction js generalizing d with
  | nil => rfl
  | cons j js ih =>
    obtain ⟨hj, hjs⟩ := nodup_cons.mp hjs
    rw [foldl_cons, ih hjs, Dictionary.append]
    by_cases hk : k = j
    · subst hk
      rw [if_neg hj, if_pos mem_cons_self, update_self]
    · simp only [update_of_ne hk, mem_cons, hk, false_or]

theorem foldl_table_apply {number : Int → Int → Int} {js : List Int} (hjs : js.Nodup) (j : Int) :
    is.foldl (fun d i => js.foldl (fun d j => Dictionary.append d j (number i j)) d) d j =
      d j ++ if j ∈ js then is.map (number · j) else [] := by
  induction is generalizing d with
  | nil => rw [map_nil, ite_self, append_nil, foldl_nil]
  | cons i is ih =>
    rw [foldl_cons, ih, foldl_append_apply hjs]
    split
    · rw [map_cons, append_assoc, singleton_append]
    · rfl

/-- The sizes of one representation. -/
theorem Written.sizes_of
    (h : Written server current currentMPDRepAdaptSet isByteRangeMPD v is d text) (j : Int) :
    d j = if j ∈ upTo v.highestMPDrepRateIndex v.lowestMPDrepRateIndex then
      is.map (sizeAt server current currentMPDRepAdaptSet isByteRangeMPD · j) else [] := by
  rw [h.dictionary, foldl_table_apply (nodup_upTo _ _)]
  rfl

end Sizes

section Table

variable {server : Server} {mpdList : List MPD} {mpdListIndex currentMPDRepAdaptSet maxHeight
  streamDuration : Int} {isByteRangeMPD : Bool} {maxBuffer : Int} {headerURL : List Char}
  {files files' : Files} {d : Dictionary}

theorem tableBounds_eq_ok {v : MPDValues} {segmentDuration maxSegments : Int}
    (h : tableBounds mpdList mpdListIndex currentMPDRepAdaptSet maxHeight streamDuration maxBuffer
      isByteRangeMPD = .ok (v, segmentDuration, maxSegments)) :
    getMPDValues mpdList mpdListIndex maxHeight streamDuration maxBuffer currentMPDRepAdaptSet
        isByteRangeMPD = .ok v ∧
      index v.segmentDurationArray mpdListIndex = .ok segmentDuration ∧
      v.maxStreamDuration.tdiv (millis segmentDuration) = maxSegments := by
  obtain ⟨v', hvalues, h⟩ := bind_eq_ok.mp h
  obtain ⟨duration, hduration, h⟩ := bind_eq_ok.mp h
  obtain ⟨segments, hsegments, h⟩ := bind_eq_ok.mp h
  cases pure_eq_ok.mp h
  exact ⟨hvalues, hduration, (quot_eq_ok.mp hsegments).2⟩

/-- What `getSegmentHeaders` has written. -/
theorem getSegmentHeaders_eq_ok {segmentNumber : Int}
    (h : getSegmentHeaders server mpdList mpdListIndex currentMPDRepAdaptSet maxHeight segmentNumber
      streamDuration isByteRangeMPD maxBuffer headerURL true files = .ok (d, files')) :
    ∃ v segmentDuration maxSegments current fileName text,
      tableBounds mpdList mpdListIndex currentMPDRepAdaptSet maxHeight streamDuration maxBuffer
        isByteRangeMPD = .ok (v, segmentDuration, maxSegments) ∧
      index mpdList mpdListIndex = .ok current ∧
      headerFileName current segmentDuration headerURL isByteRangeMPD = .ok fileName ∧
      files' = update files fileName (some text) ∧
      v.highestMPDrepRateIndex ≤ v.lowestMPDrepRateIndex ∧
      Written server current currentMPDRepAdaptSet isByteRangeMPD v (upTo segmentNumber maxSegments)
        d text := by
  obtain ⟨⟨v, segmentDuration, maxSegments⟩, hbounds, h⟩ := bind_eq_ok.mp h
  obtain ⟨current, hcurrent, h⟩ := bind_eq_ok.mp h
  rw [if_pos rfl] at h
  obtain ⟨fileName, hname, h⟩ := bind_eq_ok.mp h
  obtain ⟨set, -, h⟩ := bind_eq_ok.mp h
  obtain ⟨widths, hwidths, h⟩ := bind_eq_ok.mp h
  obtain ⟨heights, hheights, h⟩ := bind_eq_ok.mp h
  obtain ⟨table, htable, h⟩ := bind_eq_ok.mp h
  cases pure_eq_ok.mp h
  obtain ⟨-, -, -, -, -, -, -, -, -, hle⟩ := getMPDValues_eq_ok (tableBounds_eq_ok hbounds).1
  obtain ⟨hsizes, hdict, htext⟩ := foldlM_printSizes hle htable
  obtain ⟨width, rfl⟩ := printHeader_eq_ok hle hwidths
  obtain ⟨height, rfl⟩ := printHeader_eq_ok hle hheights
  refine ⟨v, segmentDuration, maxSegments, current, fileName, table.2, hbounds, hcurrent, hname,
    rfl, hle, hsizes, hdict, width, height, ?_⟩
  rw [htext, flatMap_cons, flatMap_cons, append_assoc]
  rfl

variable (mpdList mpdListIndex currentMPDRepAdaptSet maxHeight streamDuration isByteRangeMPD
  maxBuffer headerURL)

/-- The table is right, however it is obtained: the file has the same sizes, and for a byte-range
MPD they are those that the player asks for. -/
structure TableRight (d : Dictionary) (files' : Files) : Prop where
  readBack : getNSegmentHeadersFromFile mpdList mpdListIndex currentMPDRepAdaptSet maxHeight 1
    streamDuration isByteRangeMPD maxBuffer headerURL files' = .ok d
  requested : isByteRangeMPD = true → ∀ current, index mpdList mpdListIndex = .ok current →
    ∀ (j : Int) (k : Nat) (size : Int) url startRange endRange, (d j)[k]? = some size →
      getNextByteRangeURL current (k + 1) j currentMPDRepAdaptSet =
        .ok (url, startRange, endRange) →
      size = bytesRequested startRange endRange

variable {mpdList mpdListIndex currentMPDRepAdaptSet maxHeight streamDuration isByteRangeMPD
  maxBuffer headerURL}
  (h : getSegmentHeaders server mpdList mpdListIndex currentMPDRepAdaptSet maxHeight 1
    streamDuration isByteRangeMPD maxBuffer headerURL true files = .ok (d, files'))

include h

/-- What was written from the first segment on is read back. -/
theorem getNSegmentHeadersFromFile_getSegmentHeaders :
    getNSegmentHeadersFromFile mpdList mpdListIndex currentMPDRepAdaptSet maxHeight 1
      streamDuration isByteRangeMPD maxBuffer headerURL files' = .ok d := by
  obtain ⟨v, segmentDuration, maxSegments, current, fileName, text, hbounds, hcurrent, hname,
    rfl, -, hwritten⟩ := getSegmentHeaders_eq_ok h
  obtain ⟨lines, hlines, hread⟩ := hwritten.readRows
  unfold getNSegmentHeadersFromFile
  refine bind_eq_ok.mpr ⟨_, hbounds, bind_eq_ok.mpr ⟨_, hcurrent, bind_eq_ok.mpr ⟨_, hname,
    bind_eq_ok.mpr ⟨text, ?_, bind_eq_ok.mpr ⟨lines, orExit_eq_ok.mpr hlines, hread⟩⟩⟩⟩⟩
  rw [update_self]
  rfl

/-- The table is right just if the MPD has no byte ranges, or the stream no whole segment. -/
theorem segment_sizes_right_iff :
    TableRight mpdList mpdListIndex currentMPDRepAdaptSet maxHeight streamDuration isByteRangeMPD
        maxBuffer headerURL d files' ↔
      (isByteRangeMPD = true → ∀ v segmentDuration,
        getMPDValues mpdList mpdListIndex maxHeight streamDuration maxBuffer currentMPDRepAdaptSet
          isByteRangeMPD = .ok v →
        index v.segmentDurationArray mpdListIndex = .ok segmentDuration →
        v.maxStreamDuration.tdiv (millis segmentDuration) < 1) := by
  obtain ⟨v, segmentDuration, maxSegments, current, fileName, text, hbounds, hcurrent, -, -, hle,
    hwritten⟩ := getSegmentHeaders_eq_ok h
  obtain ⟨hvalues, hduration, hsegments⟩ := tableBounds_eq_ok hbounds
  constructor
  · intro hright hrange v' segmentDuration' hvalues' hduration'
    cases hvalues.symm.trans hvalues'
    cases hduration.symm.trans hduration'
    by_contra hmany
    have hone : (1 : Int) ∈ upTo 1 maxSegments := mem_upTo.mpr ⟨Int.le_refl 1, by omega⟩
    have hhigh := mem_upTo.mpr ⟨Int.le_refl v.highestMPDrepRateIndex, hle⟩
    have hsize := hwritten.sizes 1 hone _ hhigh
    -- the first segment in the first representation
    subst hrange
    obtain ⟨url, startRange, endRange, hurl, heq⟩ := contentLength_byteRange.mp hsize
    have hentry : (d v.highestMPDrepRateIndex)[0]? =
        some (sizeAt server current currentMPDRepAdaptSet true 1 v.highestMPDrepRateIndex) := by
      rw [hwritten.sizes_of, if_pos hhigh, getElem?_map, getElem?_upTo (mem_upTo.mp hone).2]
      rfl
    have hasked := hright.requested rfl current hcurrent _ 0 _ url startRange endRange hentry hurl
    rw [heq, bytesRequested] at hasked
    omega
  · intro hfew
    refine ⟨getNSegmentHeadersFromFile_getSegmentHeaders h, ?_⟩
    intro hrange current' _ j k size url startRange endRange hentry _
    have hnil : upTo 1 maxSegments = [] :=
      upTo_eq_nil (hsegments ▸ hfew hrange v segmentDuration hvalues hduration)
    rw [hwritten.dictionary, hnil] at hentry
    cases hentry

end Table

/-- A clip of one segment with a media range of its own. -/
def oneRange : MPD where
  mediaPresentationDuration := "PT0H0M2.0S".toList
  maxSegmentDuration := "PT0H0M2.0S".toList
  profiles := "urn:full:2011".toList
  periods := [[{
    representation := [{
      mimeType := .video, codecs := .h264, width := 640, height := 360, bandWidth := 100000
      baseURL := "clip.mp4".toList
      segmentTemplate := ⟨[], 0, 0⟩
      segmentList := ⟨1, 2, ["0-999".toList]⟩ }]
    segmentTemplate := [] }]]

/-- The table has one byte less than the player asks for. -/
theorem byte_range_size_short :
    (getSegmentHeaders (fun _ _ => none) [oneRange] 0 0 1080 1 2000 true 30 "clip.mpd".toList true
        fun _ => none).map (fun r => r.1 0) = .ok [999] ∧
      (getNextByteRangeURL oneRange 1 0 0).map (fun r => bytesRequested r.2.1 r.2.2) =
        .ok 1000 := by
  constructor
  · rfl
  · rfl

/-- A clip of two segments in two heights, under a template. -/
def twoHeights : MPD where
  mediaPresentationDuration := "PT0H0M4.0S".toList
  maxSegmentDuration := "PT0H0M2.0S".toList
  profiles := "urn:full:2011".toList
  periods := [[{
    representation := [(720, 200000), (360, 100000)].map fun (height, bandWidth) => {
      mimeType := .video, codecs := .h264, width := 640, height, bandWidth
      baseURL := []
      segmentTemplate := ⟨"seg$Number$.m4s".toList, 1, 2⟩
      segmentList := ⟨0, 0, []⟩ }
    segmentTemplate := [] }]]

theorem segment_sizes_right_heights :
    let server : Server := fun segment quality => some (itoa (1000 * segment + quality))
    ∃ d files', getSegmentHeaders server [twoHeights] 0 0 1080 1 4000 false 30 "clip.mpd".toList
        true (fun _ => none) = .ok (d, files') ∧ d 0 = [1000, 2000] ∧ d 1 = [1001, 2001] ∧
      TableRight [twoHeights] 0 0 1080 4000 false 30 "clip.mpd".toList d files' := by
  intro server
  have hrun : ∃ r, getSegmentHeaders server [twoHeights] 0 0 1080 1 4000 false 30
      "clip.mpd".toList true (fun _ => none) = .ok r ∧ r.1 0 = [1000, 2000] ∧
        r.1 1 = [1001, 2001] := ⟨_, rfl, rfl, rfl⟩
  obtain ⟨⟨d, files'⟩, hrun, hfirst, hsecond⟩ := hrun
  exact ⟨d, files', hrun, hfirst, hsecond,
    (segment_sizes_right_iff hrun).mpr fun h => absurd h Bool.false_ne_true⟩

end RlncStreaming.Godash
