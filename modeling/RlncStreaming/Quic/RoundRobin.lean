import RlncStreaming.Lib.Rotation
import RlncStreaming.Quic.StreamFramer

/-!
The order in which `RoundRobinIterate` (`streams_map.go`) gives the streams their turns.

A call visits the streams 1 and 3 first, and then the other ones from the round-robin index on.
The index counts the visits, but the streams 1 and 3 stand in the list that it points into. If they
are open, then the stream behind them gets their turns as well (`streams_served_twice`). The turns
are fair only where no more than one other stream is open, where neither 1 nor 3 is, or where both
of them alternate with two other streams (`round_robin_fair_iff`).
-/

namespace RlncStreaming.Quic

open Lib List

namespace StreamsMap

variable {α : Type}

/-- A `streamLambda`, with the variables that it captures. -/
abbrev StreamLambda (α : Type) := α → SendStream → α × SendStream × Bool

/-- The streams that take turns: all but the crypto stream and the header stream. -/
def takesTurns (id : Nat) : Bool := decide (¬ (id = 1 ∨ id = 3))

/-- The lambda goes on after the streams 1 and 3, and stops after any other one. -/
def StopsAfterOne (fn : StreamLambda α) : Prop :=
  ∀ a s, (fn a s).2.1.streamID = s.streamID ∧ (fn a s).2.2 = !takesTurns s.streamID

/-- The lambda, with a record of the streams that it is called for. -/
def recording (fn : StreamLambda α) : StreamLambda (α × List Nat) := fun a s =>
  let (a', s', cont) := fn a.1 s
  ((a', a.2 ++ [s.streamID]), s', cont)

/-- One call of `RoundRobinIterate`. -/
def turn (s : (α × List Nat) × StreamsMap) (fn : StreamLambda α) : (α × List Nat) × StreamsMap :=
  s.2.roundRobinIterate (recording fn) s.1

/-- The streams that the calls visit. -/
def visited (m : StreamsMap) (a : α) (fns : List (StreamLambda α)) : List Nat :=
  (run turn ((a, []), m) fns).1.2

/-- `putStream` and `RemoveStream` keep the list and the map of the open streams together. -/
structure Listed (m : StreamsMap) : Prop where
  nodup : m.openStreams.Nodup
  mem_iff : ∀ id, id ∈ m.openStreams ↔ (m.streams id).isSome = true
  streamIDs : ∀ id s, m.streams id = some s → s.streamID = id

/-- The open streams, from the round-robin index on. -/
def circle (m : StreamsMap) : List Nat := m.openStreams.rotate m.roundRobinIndex

/-! ### One call -/

variable {m : StreamsMap}

theorem Listed.setStream (hm : m.Listed) {id : Nat} {s s' : SendStream} (hs : m.streams id = some s)
    (hid : s'.streamID = s.streamID) : (m.setStream id s').Listed where
  nodup := hm.nodup
  mem_iff := by
    intro id'
    by_cases h : id' = id
    · subst h
      simp [StreamsMap.setStream, hm.mem_iff, hs]
    · simp [StreamsMap.setStream, h, hm.mem_iff]
  streamIDs := by
    intro id' t ht
    by_cases h : id' = id
    · subst h
      have hst : s' = t := by simpa [StreamsMap.setStream] using ht
      rw [← hst, hid, hm.streamIDs _ _ hs]
    · have ht' : m.streams id' = some t := by simpa [StreamsMap.setStream, h] using ht
      exact hm.streamIDs _ _ ht'

theorem Listed.withIndex (hm : m.Listed) (index : Nat) :
    ({ m with roundRobinIndex := index } : StreamsMap).Listed :=
  ⟨hm.nodup, hm.mem_iff, hm.streamIDs⟩

/-- The list that the second loop goes through. -/
theorem range_map_eq_rotate (l : List Nat) (start : Nat) :
    ((range l.length).map fun i => l.getD ((i + start) % l.length) 0) = l.rotate start := by
  refine ext_getElem (by simp) fun i hi hi' => ?_
  have hlt : (i + start) % l.length < l.length := by
    refine Nat.mod_lt _ ?_
    rw [length_map, length_range] at hi
    exact Nat.zero_lt_of_lt hi
  rw [getElem_map, getElem_range, getElem_rotate, getD_eq_getElem?_getD,
    getElem?_eq_getElem hlt, Option.getD_some]

section Call

variable {fn : StreamLambda α} (hfn : StopsAfterOne fn)

include hfn

/-- The first loop goes on, and visits no stream that takes turns. -/
theorem iterateFirst_turn {ids : List Nat} (hids : ∀ id ∈ ids, takesTurns id = false)
    (a : α × List Nat) (hm : m.Listed) :
    let r := iterateFirst (recording fn) ids a m
    r.1.2.filter takesTurns = a.2.filter takesTurns ∧ r.2.2 = true ∧ r.2.1.Listed ∧
      r.2.1.openStreams = m.openStreams ∧ r.2.1.roundRobinIndex = m.roundRobinIndex := by
  induction ids generalizing a m with
  | nil => exact ⟨rfl, rfl, hm, rfl, rfl⟩
  | cons id ids ih =>
    rw [iterateFirst]
    have hrest : ∀ id ∈ ids, takesTurns id = false := fun id h => hids id (mem_cons_of_mem _ h)
    cases hs : m.streams id with
    | none => exact ih hrest a hm
    | some s =>
      have hid := hm.streamIDs id s hs
      have hskip : takesTurns s.streamID = false := hid ▸ hids id mem_cons_self
      obtain ⟨hkeeps, hcont⟩ := hfn a.1 s
      obtain ⟨hseen, hmore⟩ := ih hrest ((fn a.1 s).1, a.2 ++ [s.streamID]) (hm.setStream hs hkeeps)
      simp only [recording, hcont, hskip, Bool.not_false, if_true]
      refine ⟨hseen.trans ?_, hmore⟩
      rw [filter_append, filter_singleton, hskip]
      simp

/-- The second loop visits the first stream that takes turns. -/
theorem iterateRest_turn {ids : List Nat} (a : α × List Nat) (hm : m.Listed)
    (hids : ∀ id ∈ ids, id ∈ m.openStreams) (numStreams : Nat) :
    let r := iterateRest (recording fn) numStreams ids a m
    r.1.2 = a.2 ++ (ids.find? takesTurns).toList ∧ r.2.Listed ∧
      r.2.openStreams = m.openStreams ∧
      r.2.roundRobinIndex = if (ids.find? takesTurns).isSome then
        (m.roundRobinIndex + 1) % numStreams else m.roundRobinIndex := by
  induction ids with
  | nil => exact ⟨by simp [iterateRest], hm, rfl, rfl⟩
  | cons id ids ih =>
    rw [iterateRest]
    by_cases hskip : id = 1 ∨ id = 3
    · have hskip' : ¬ takesTurns id = true := fun h => of_decide_eq_true h hskip
      rw [if_pos hskip, find?_cons_of_neg hskip']
      exact ih fun id h => hids id (mem_cons_of_mem _ h)
    have htakes : takesTurns id = true := decide_eq_true hskip
    have hsome := (hm.mem_iff id).mp (hids id mem_cons_self)
    obtain ⟨s, hs⟩ := Option.isSome_iff_exists.mp hsome
    obtain ⟨hkeeps, hcont⟩ := hfn a.1 s
    have hid := hm.streamIDs id s hs
    rw [if_neg hskip, find?_cons_of_pos htakes, hs]
    simp only [recording, hcont, hid, htakes, Bool.not_true, Bool.false_eq_true, if_false]
    exact ⟨rfl, (hm.setStream hs hkeeps).withIndex _, rfl, rfl⟩

/-- A call visits the first stream of the circle that takes turns, and turns the circle on if
there is one. -/
theorem turn_spec {s : (α × List Nat) × StreamsMap} (hm : s.2.Listed) :
    (turn s fn).1.2.filter takesTurns =
        s.1.2.filter takesTurns ++ (s.2.circle.find? takesTurns).toList ∧
      (turn s fn).2.Listed ∧
      (turn s fn).2.circle =
        if (s.2.circle.find? takesTurns).isSome then s.2.circle.rotate 1 else s.2.circle := by
  obtain ⟨a, m⟩ := s
  have hpriority : ∀ id ∈ [1, 3], takesTurns id = false := by decide
  obtain ⟨hseen, hcont, hlisted, hopen, hindex⟩ := iterateFirst_turn hfn hpriority a hm
  have hcircle : ∀ id ∈ m.circle,
      id ∈ (iterateFirst (recording fn) [1, 3] a m).2.1.openStreams := by
    intro id hid
    rw [hopen]
    exact mem_rotate.mp hid
  obtain ⟨hvisit, hlisted', hopen', hindex'⟩ := iterateRest_turn hfn
    (iterateFirst (recording fn) [1, 3] a m).1 hlisted hcircle m.openStreams.length
  have hturn : turn (a, m) fn = iterateRest (recording fn) m.openStreams.length m.circle
      (iterateFirst (recording fn) [1, 3] a m).1 (iterateFirst (recording fn) [1, 3] a m).2.1 := by
    simp only [turn, roundRobinIterate, hcont, if_true]
    rw [hopen, range_map_eq_rotate, circle]
  rw [hturn]
  refine ⟨?_, hlisted', ?_⟩
  · rw [hvisit, filter_append, hseen]
    congr 1
    cases hfind : m.circle.find? takesTurns with
    | none => rfl
    | some id => rw [Option.toList_some, filter_singleton, find?_some hfind, cond_true]
  · rw [circle, hopen', hopen, hindex', hindex]
    split
    · rw [rotate_mod, circle, rotate_rotate]
    · rfl

end Call

/-! ### Runs -/

/-- The calls visit the streams that take turns, around the circle. -/
theorem run_turn (fns : List (StreamLambda α)) (hfns : ∀ fn ∈ fns, StopsAfterOne fn)
    {s : (α × List Nat) × StreamsMap} (hm : s.2.Listed) :
    (run turn s fns).1.2.filter takesTurns =
      s.1.2.filter takesTurns ++ visits takesTurns s.2.circle fns.length := by
  induction fns generalizing s with
  | nil => simp [visits]
  | cons fn fns ih =>
    obtain ⟨hvisit, hlisted, hcircle⟩ := turn_spec (hfns fn mem_cons_self) hm
    rw [run_cons, ih (fun fn h => hfns fn (mem_cons_of_mem _ h)) hlisted, hvisit, hcircle,
      length_cons, visits_step, append_assoc]

theorem count_visited (hm : m.Listed) (a : α) {fns : List (StreamLambda α)}
    (hfns : ∀ fn ∈ fns, StopsAfterOne fn) {id : Nat} (hid : takesTurns id = true) :
    (visited m a fns).count id = (visits takesTurns m.circle fns.length).count id := by
  have hvisited : (visited m a fns).filter takesTurns = visits takesTurns m.circle fns.length :=
    run_turn fns hfns hm
  rw [← hvisited, count_filter hid]

/-- At most the streams 1 and 3 are passed over. -/
theorem Listed.skipped (hm : m.Listed) : (m.circle.filter fun id => !takesTurns id).length ≤ 2 := by
  have hsub : m.circle.filter (fun id => !takesTurns id) ⊆ [1, 3] := by
    intro id hid
    simpa [takesTurns] using (mem_filter.mp hid).2
  have hnodup : (m.circle.filter fun id => !takesTurns id).Nodup :=
    (nodup_rotate.mpr hm.nodup).filter _
  exact (subperm_of_subset hnodup hsub).length_le

/-- Any two streams that take turns have been visited equally often, up to one visit. -/
def FairTurns (m : StreamsMap) (a : α) (fns : List (StreamLambda α)) : Prop :=
  ∀ x ∈ m.openStreams, ∀ y ∈ m.openStreams, takesTurns x = true → takesTurns y = true →
    (visited m a fns).count x ≤ (visited m a fns).count y + 1

/-- The lambda of a framer whose packets are full after one stream. -/
def takeOne : StreamLambda α := fun a s => (a, s, !takesTurns s.streamID)

theorem stopsAfterOne_takeOne : StopsAfterOne (takeOne (α := α)) := fun _ _ => ⟨rfl, rfl⟩

theorem fairTurns_iff_fair (hm : m.Listed) (a : α) :
    (∀ fns : List (StreamLambda α), (∀ fn ∈ fns, StopsAfterOne fn) → FairTurns m a fns) ↔
      Fair takesTurns m.circle := by
  constructor
  · intro hfair n x hx y hy hpx hpy
    have hfns : ∀ fn ∈ replicate n (takeOne (α := α)), StopsAfterOne fn := by
      intro fn hfn
      rw [eq_of_mem_replicate hfn]
      exact stopsAfterOne_takeOne
    have hxy := hfair _ hfns x (mem_rotate.mp hx) y (mem_rotate.mp hy) hpx hpy
    rwa [count_visited hm a hfns hpx, count_visited hm a hfns hpy, length_replicate] at hxy
  · intro hfair fns hfns x hx y hy hpx hpy
    rw [count_visited hm a hfns hpx, count_visited hm a hfns hpy]
    exact hfair fns.length x (mem_rotate.mpr hx) y (mem_rotate.mpr hy) hpx hpy

theorem forall_takesTurns_iff :
    (∀ id ∈ m.circle, takesTurns id = true) ↔ 1 ∉ m.openStreams ∧ 3 ∉ m.openStreams := by
  constructor
  · intro hall
    refine ⟨fun h => ?_, fun h => ?_⟩
    · exact absurd (hall 1 (mem_rotate.mpr h)) (by decide)
    · exact absurd (hall 3 (mem_rotate.mpr h)) (by decide)
  rintro ⟨hone, hthree⟩ id hid
  have hmem := mem_rotate.mp hid
  refine decide_eq_true ?_
  rintro (rfl | rfl)
  · exact hone hmem
  · exact hthree hmem

/-- The turns are fair in every run exactly where neither stream 1 nor stream 3 is open, where at
most one other stream is, or where the four open streams alternate, beginning with one that takes
turns. -/
theorem round_robin_fair_iff {m : StreamsMap} (hm : m.Listed) (a : α) :
    (∀ fns : List (StreamLambda α), (∀ fn ∈ fns, StopsAfterOne fn) → FairTurns m a fns) ↔
      (1 ∉ m.openStreams ∧ 3 ∉ m.openStreams) ∨
      (m.openStreams.filter takesTurns).length ≤ 1 ∨
      Alternating takesTurns (m.openStreams.rotate m.roundRobinIndex) := by
  have hlength : (m.circle.filter takesTurns).length = (m.openStreams.filter takesTurns).length :=
    ((rotate_perm _ _).filter _).length_eq
  have hnodup : m.circle.Nodup := nodup_rotate.mpr hm.nodup
  rw [fairTurns_iff_fair hm, fair_iff hnodup hm.skipped, forall_takesTurns_iff, hlength, circle]

/-- The streams `ids`, all of them new. -/
def opened (ids : List Nat) : StreamsMap :=
  ⟨fun id => if id ∈ ids then some (newSendStream id) else none, ids, 0⟩

theorem listed_opened {ids : List Nat} (hids : ids.Nodup) : (opened ids).Listed where
  nodup := hids
  mem_iff := by
    intro id
    by_cases h : id ∈ ids <;> simp [opened, h]
  streamIDs := by
    intro id s hs
    by_cases h : id ∈ ids
    · have hs' : newSendStream id = s := by simpa [opened, h] using hs
      rw [← hs']
      rfl
    · simp [opened, h] at hs

/-- Two data streams without the crypto and header streams are served fairly. -/
theorem round_robin_fair_pair :
    (opened [5, 7]).Listed ∧ ∀ fns : List (StreamLambda Unit), (∀ fn ∈ fns, StopsAfterOne fn) →
      FairTurns (opened [5, 7]) () fns :=
  ⟨listed_opened (by decide), (round_robin_fair_iff (listed_opened (by decide)) ()).mpr
    (Or.inl (by decide))⟩

/-- The stream behind the crypto stream is visited twice before the next one is visited once. -/
theorem streams_served_twice :
    (opened [1, 5, 7]).Listed ∧ StopsAfterOne (takeOne (α := Unit)) ∧
      visited (opened [1, 5, 7]) () [takeOne, takeOne] = [1, 5, 1, 5] ∧
      ¬ FairTurns (opened [1, 5, 7]) () [takeOne, takeOne] := by
  have hvisited : visited (opened [1, 5, 7]) () [takeOne, takeOne] = [1, 5, 1, 5] := by decide
  refine ⟨listed_opened (by decide), stopsAfterOne_takeOne, hvisited, fun hfair => ?_⟩
  have h := hfair 5 (by decide) 7 (by decide) (by decide) (by decide)
  rw [hvisited] at h
  exact absurd h (by decide)

end StreamsMap

end RlncStreaming.Quic
