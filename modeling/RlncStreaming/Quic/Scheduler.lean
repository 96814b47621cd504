import RlncStreaming.Lib.Maps
import RlncStreaming.Quic.SentPackets

/-!
The choice of a path for the next packet (`scheduler.go`: `selectPathLowLatency`,
`selectPath`).

The scheduler goes over the paths of the session in the order of the map. It looks for the
lowest RTT, and among paths without a sample for the lowest quota; the initial path is left
out if there are others. When frames are retransmitted, a path may be used beyond its
congestion window. The check that is skipped for this is the one that the path is open, too,
and traffic that is duplicated goes to the first path with a lower quota without any check.

The result is a path that is open and not potentially failed for every order of the map just
if no other path can be the best one (`selectPath_usable_iff`). A closed path is used for
retransmissions, and duplicated traffic goes to a failed path (`selectPath_dead`). Without
retransmissions the result is the optimum of the loop in every order (`low_latency_optimal`).
-/

namespace RlncStreaming.Quic

open Lib Option List

/-! ### The scheduler -/

/-- `sentPacketHandler.SendingAllowed`, with the window of its congestion control. -/
def SentPacketHandler.sendingAllowed {σ : Type} (h : SentPacketHandler σ)
    (congestionWindow : UInt64) : Bool :=
  let congestionLimited := decide (congestionWindow < h.bytesInFlight)
  let maxTrackedLimited :=
    decide (maxTrackedSentPackets ≤ h.retransmissionQueue.length + h.packetHistory.length)
  let haveRetransmissions := !h.retransmissionQueue.isEmpty
  !maxTrackedLimited && (!congestionLimited || haveRetransmissions)

/-- The fields of `path` that the scheduler reads. -/
structure SchedulerPath where
  pathID : UInt8
  isOpen : Bool
  potentiallyFailed : Bool
  /-- `rttStats.SmoothedRTT()` -/
  smoothedRTT : Int64
  sentPacketHandler : SentPacketHandler Nat
  /-- `congestion.GetCongestionWindow()` -/
  congestionWindow : UInt64
deriving DecidableEq

/-- `SendingAllowed`. -/
def SchedulerPath.sendingAllowed (p : SchedulerPath) : Bool :=
  p.isOpen && p.sentPacketHandler.sendingAllowed p.congestionWindow

/-- The path is open and not marked as potentially failed. -/
def SchedulerPath.Usable (p : SchedulerPath) : Prop :=
  p.isOpen = true ∧ p.potentiallyFailed = false

/-- What a call of `selectPath` depends on: the quotas of the scheduler, where a missing one
reads as 0, the paths of the session, and the arguments. -/
structure Selection where
  quotas : UInt8 → UInt64
  paths : UInt8 → Option SchedulerPath
  hasRetransmission : Bool
  hasStreamRetransmission : Bool
  fromPth : Option SchedulerPath

/-- The variables of the loop: `selectedPath`, `lowerRTT` and `selectedPathID`. -/
structure Selected where
  path : Option SchedulerPath
  lowerRTT : Int64
  pathID : UInt8
deriving DecidableEq

namespace Selection

section

variable (s : Selection)

/-- The path is considered for sending. -/
def considers (id : UInt8) (p : SchedulerPath) : Bool :=
  (s.hasRetransmission || p.sendingAllowed) && !p.potentiallyFailed && id != 0

/-- The body of `pathLoop`. -/
def visit (selected : Selected) (id : UInt8) (p : SchedulerPath) : Selected :=
  if !s.considers id p then selected
  else if selected.lowerRTT ≠ 0 ∧ p.smoothedRTT = 0 then selected
  else if p.smoothedRTT = 0 ∧ selected.path.isSome ∧ s.quotas selected.pathID < s.quotas id then
    selected
  else if p.smoothedRTT ≠ 0 ∧ selected.lowerRTT ≠ 0 ∧ selected.path.isSome ∧
      selected.lowerRTT ≤ p.smoothedRTT then
    selected
  else ⟨some p, p.smoothedRTT, id⟩

/-- An iteration of `pathLoop`, at an ID of the map. -/
def iterate (selected : Selected) (id : UInt8) : Selected :=
  match s.paths id with
  | none => selected
  | some p => s.visit selected id p

/-- `pathLoop`, over the paths in the order of the map. -/
def pathLoop (order : List UInt8) : Selected :=
  order.foldl s.iterate ⟨none, 0, 255⟩

/-- The loop for duplicated traffic accepts the path. -/
def duplicatesOn (fromPth : SchedulerPath) (id : UInt8) : Bool :=
  id != 0 && id != fromPth.pathID && decide (s.quotas id < s.quotas fromPth.pathID)

/-- The first path for duplicated traffic, if there is traffic to be duplicated. -/
def duplicate (fromPth : SchedulerPath) (order : List UInt8) : Option SchedulerPath :=
  if fromPth.smoothedRTT = 0 then (order.find? (s.duplicatesOn fromPth)).bind s.paths else none

/-- `selectPathLowLatency`. The outer `none` is a panic: `fromPth`, or the initial path, is
`nil`. The two loops may go over the map in different orders. -/
def selectPathLowLatency (order order' : List UInt8) : Option (Option SchedulerPath) :=
  if order'.length ≤ 1 then
    match s.paths 0 with
    | none => if s.hasRetransmission then some none else none
    | some p => some (if !s.hasRetransmission && !p.sendingAllowed then none else some p)
  else if s.hasRetransmission && s.hasStreamRetransmission then
    match s.fromPth with
    | none => none
    | some fromPth =>
      match s.duplicate fromPth order with
      | some p => some (some p)
      | none => some (s.pathLoop order').path
  else some (s.pathLoop order').path

/-- `selectPath`. -/
def selectPath (order order' : List UInt8) : Option (Option SchedulerPath) :=
  s.selectPathLowLatency order order'

end

/-! ### The best paths -/

/-- The first path is strictly better than the second one. -/
def Better (s : Selection) (id : UInt8) (p : SchedulerPath) (id' : UInt8) (p' : SchedulerPath) :
    Prop :=
  (p.smoothedRTT ≠ 0 ∧ (p'.smoothedRTT = 0 ∨ p.smoothedRTT < p'.smoothedRTT)) ∨
    (p.smoothedRTT = 0 ∧ p'.smoothedRTT = 0 ∧ s.quotas id < s.quotas id')

/-- A path that is considered, and no other one is better. -/
structure Best (s : Selection) (id : UInt8) (p : SchedulerPath) : Prop where
  path : s.paths id = some p
  considered : s.considers id p = true
  best : ∀ id' p', s.paths id' = some p' → s.considers id' p' = true → ¬ s.Better id' p' id p

variable {s : Selection} {id id' id'' : UInt8} {p p' p'' : SchedulerPath}

theorem better_iff : s.Better id p id' p' ↔
    (p.smoothedRTT.toInt ≠ 0 ∧
      (p'.smoothedRTT.toInt = 0 ∨ p.smoothedRTT.toInt < p'.smoothedRTT.toInt)) ∨
    (p.smoothedRTT.toInt = 0 ∧ p'.smoothedRTT.toInt = 0 ∧
      (s.quotas id).toNat < (s.quotas id').toNat) := by
  have hzero : ∀ d : Int64, d = 0 ↔ d.toInt = 0 := fun d => by
    rw [← Int64.toInt_inj, Int64.toInt_zero]
  simp only [Better, ne_eq, hzero, Int64.lt_iff_toInt_lt, UInt64.lt_iff_toNat_lt]

/-- Nothing is better than itself. -/
theorem not_better_self : ¬ s.Better id p id p := by
  rw [better_iff]
  omega

variable {selected : Selected}

/-- A path that is not considered is skipped. -/
theorem visit_of_not_considers (h : s.considers id p = false) :
    s.visit selected id p = selected := by
  unfold visit
  rw [h]
  rfl

/-- The first path that is considered is selected. -/
theorem visit_first (h : s.considers id p = true) :
    s.visit ⟨none, 0, 255⟩ id p = ⟨some p, p.smoothedRTT, id⟩ := by
  unfold visit
  simp [h]

/-- A path with an RTT is kept against every one that is not better. -/
theorem visit_keeps (hrtt : p.smoothedRTT ≠ 0) (h : ¬ s.Better id' p' id p) :
    s.visit ⟨some p, p.smoothedRTT, id⟩ id' p' = ⟨some p, p.smoothedRTT, id⟩ := by
  unfold visit
  unfold Better at h
  by_cases hrtt' : p'.smoothedRTT = 0
  · simp [hrtt, hrtt']
  have hle : p.smoothedRTT ≤ p'.smoothedRTT := Int64.not_lt.mp fun hlt => h (.inl ⟨hrtt', .inr hlt⟩)
  simp [hrtt, hrtt', hle]

/-- A path without an RTT replaces every one that is not better. -/
theorem visit_replaces (hconsiders : s.considers id' p' = true) (hrtt' : p'.smoothedRTT = 0)
    (h : ¬ s.Better id p id' p') :
    s.visit ⟨some p, p.smoothedRTT, id⟩ id' p' = ⟨some p', p'.smoothedRTT, id'⟩ := by
  unfold visit
  unfold Better at h
  have hrtt : p.smoothedRTT = 0 := by
    by_contra hne
    exact h (.inl ⟨hne, .inl hrtt'⟩)
  have hquota : ¬ s.quotas id < s.quotas id' := fun hlt => h (.inr ⟨hrtt, hrtt', hlt⟩)
  simp [hconsiders, hrtt, hrtt', hquota]

/-- A path with a lower RTT replaces the selected one. -/
theorem visit_lower (hconsiders : s.considers id' p' = true) (hrtt' : p'.smoothedRTT ≠ 0)
    (h : s.Better id' p' id p) :
    s.visit ⟨some p, p.smoothedRTT, id⟩ id' p' = ⟨some p', p'.smoothedRTT, id'⟩ := by
  unfold visit
  have hnot : p.smoothedRTT ≠ 0 → ¬ p.smoothedRTT ≤ p'.smoothedRTT := by
    rintro hrtt hle
    rcases h with ⟨-, hzero | hlt⟩ | ⟨hzero, -⟩
    · exact hrtt hzero
    · exact Int64.not_lt.mpr hle hlt
    · exact hrtt' hzero
  by_cases hrtt : p.smoothedRTT = 0
  · simp [hconsiders, hrtt', hrtt]
  · simp [hconsiders, hrtt', hnot hrtt]

theorem Better.asymm (h : s.Better id p id' p') : ¬ s.Better id' p' id p := by
  rw [better_iff] at h ⊢
  omega

/-- Of the selected path and the visited one, the result is one that is at least as good as
the other. -/
theorem visit_some (hconsiders : s.considers id' p' = true) :
    (s.visit ⟨some p, p.smoothedRTT, id⟩ id' p' = ⟨some p, p.smoothedRTT, id⟩ ∧
        ¬ s.Better id' p' id p) ∨
      (s.visit ⟨some p, p.smoothedRTT, id⟩ id' p' = ⟨some p', p'.smoothedRTT, id'⟩ ∧
        ¬ s.Better id p id' p') := by
  by_cases hbetter : s.Better id' p' id p
  · right
    refine ⟨?_, hbetter.asymm⟩
    by_cases hrtt' : p'.smoothedRTT = 0
    · exact visit_replaces hconsiders hrtt' hbetter.asymm
    · exact visit_lower hconsiders hrtt' hbetter
  by_cases hrtt : p.smoothedRTT = 0
  · -- neither path has a sample, so the quotas decide
    have hrtt' : p'.smoothedRTT = 0 := by
      by_contra hne
      exact hbetter (.inl ⟨hne, .inl hrtt⟩)
    by_cases hquota : s.quotas id < s.quotas id'
    · left
      refine ⟨?_, hbetter⟩
      unfold visit
      simp [hrtt, hrtt', hquota]
    right
    have hworse : ¬ s.Better id p id' p' := by
      rintro (⟨hne, -⟩ | ⟨-, -, hlt⟩)
      · exact hne hrtt
      · exact hquota hlt
    exact ⟨visit_replaces hconsiders hrtt' hworse, hworse⟩
  · exact .inl ⟨visit_keeps hrtt hbetter, hbetter⟩

/-! ### The loop over the paths -/

/-- The loop has met the path and considered it. -/
def Seen (s : Selection) (seen : List UInt8) (id : UInt8) (p : SchedulerPath) : Prop :=
  id ∈ seen ∧ s.paths id = some p ∧ s.considers id p = true

variable {seen : List UInt8}

theorem Seen.of_append (h : s.Seen (seen ++ [id]) id' p') (hpath : s.paths id = some p) :
    s.Seen seen id' p' ∨ (id' = id ∧ p' = p ∧ s.considers id p = true) := by
  obtain ⟨hmem, hpath', hconsiders'⟩ := h
  rcases mem_append.mp hmem with hseen | hnew
  · exact .inl ⟨hseen, hpath', hconsiders'⟩
  rw [mem_singleton] at hnew
  subst hnew
  cases hpath.symm.trans hpath'
  exact .inr ⟨rfl, rfl, hconsiders'⟩

/-- The loop variables, after the paths in `seen`: nothing was considered, or the selected
path is at least as good as everything that was. -/
inductive Scanned (s : Selection) (seen : List UInt8) : Selected → Prop
  | nothing (h : ∀ id p, ¬ s.Seen seen id p) : Scanned s seen ⟨none, 0, 255⟩
  | best (id : UInt8) (p : SchedulerPath) (path : s.paths id = some p)
      (considered : s.considers id p = true)
      (best : ∀ id' p', s.Seen seen id' p' → ¬ s.Better id' p' id p) :
      Scanned s seen ⟨some p, p.smoothedRTT, id⟩

/-- A path that is not considered changes nothing. -/
theorem Scanned.skip (h : Scanned s seen selected)
    (hskip : ∀ id' p', s.Seen (seen ++ [id]) id' p' → s.Seen seen id' p') :
    Scanned s (seen ++ [id]) selected := by
  cases h with
  | nothing h => exact .nothing fun id' p' hseen => h id' p' (hskip id' p' hseen)
  | best id₀ p₀ path considered best =>
    exact .best id₀ p₀ path considered fun id' p' hseen => best id' p' (hskip id' p' hseen)

/-- One iteration of `pathLoop`. -/
theorem Scanned.step (h : Scanned s seen selected) (hpath : s.paths id = some p) :
    Scanned s (seen ++ [id]) (s.visit selected id p) := by
  cases hconsiders : s.considers id p with
  | false =>
    rw [visit_of_not_considers hconsiders]
    refine h.skip fun id' p' hseen => (hseen.of_append hpath).resolve_right ?_
    rw [hconsiders]
    simp
  | true =>
    cases h with
    | nothing h =>
      rw [visit_first hconsiders]
      refine .best id p hpath hconsiders fun id' p' hseen => ?_
      rcases hseen.of_append hpath with hseen | ⟨rfl, rfl, -⟩
      · exact absurd hseen (h id' p')
      · exact not_better_self
    | best id₀ p₀ path considered best =>
      rcases visit_some hconsiders with ⟨heq, hnot⟩ | ⟨heq, hnot⟩
      · rw [heq]
        refine .best id₀ p₀ path considered fun id' p' hseen => ?_
        rcases hseen.of_append hpath with hseen | ⟨rfl, rfl, -⟩
        · exact best id' p' hseen
        · exact hnot
      · rw [heq]
        refine .best id p hpath hconsiders fun id' p' hseen => ?_
        rcases hseen.of_append hpath with hseen | ⟨rfl, rfl, -⟩
        · have hbest := best id' p' hseen
          rw [better_iff] at hnot hbest ⊢
          omega
        · exact not_better_self

theorem iterate_eq (hpath : s.paths id = some p) :
    s.iterate selected id = s.visit selected id p := by
  unfold iterate
  rw [hpath]

theorem Scanned.iterate (h : Scanned s seen selected) (id : UInt8) :
    Scanned s (seen ++ [id]) (s.iterate selected id) := by
  cases hpath : s.paths id with
  | some p =>
    rw [iterate_eq hpath]
    exact h.step hpath
  | none =>
    unfold Selection.iterate
    rw [hpath]
    refine h.skip fun id' p' hseen => ⟨?_, hseen.2⟩
    rcases mem_append.mp hseen.1 with hmem | hnew
    · exact hmem
    have hpath' := hseen.2.1
    rw [mem_singleton.mp hnew, hpath] at hpath'
    cases hpath'

variable {order : List UInt8}

/-- The loop over any number of paths. -/
theorem Scanned.run (h : Scanned s seen selected) :
    Scanned s (seen ++ order) (order.foldl s.iterate selected) := by
  induction order generalizing seen selected with
  | nil => simpa using h
  | cons id order ih =>
    have hstep := ih (h.iterate id)
    rwa [append_assoc] at hstep

theorem scanned_pathLoop (order : List UInt8) : Scanned s order (s.pathLoop order) :=
  have hnothing : Scanned s [] ⟨none, 0, 255⟩ := .nothing fun _ _ hseen => by simp [Seen] at hseen
  hnothing.run

/-- Over all paths, the loop selects a best one. -/
theorem pathLoop_best (h : Lists s.paths order) (hp : (s.pathLoop order).path = some p) :
    ∃ id, s.Best id p := by
  have hscanned := scanned_pathLoop (s := s) order
  generalize s.pathLoop order = selected at hscanned hp
  cases hscanned with
  | nothing => cases hp
  | best id p path considered best =>
    cases hp
    refine ⟨id, path, considered, fun id' p' hpath' hconsiders' => ?_⟩
    exact best id' p' ⟨(h.mem_iff id').mpr (by rw [hpath']; rfl), hpath', hconsiders'⟩

/-- A best path with an RTT stays selected. -/
theorem Best.foldl_keeps (h : s.Best id p) (hrtt : p.smoothedRTT ≠ 0) :
    order.foldl s.iterate ⟨some p, p.smoothedRTT, id⟩ = ⟨some p, p.smoothedRTT, id⟩ := by
  induction order with
  | nil => rfl
  | cons id' order ih =>
    have hstep : s.iterate ⟨some p, p.smoothedRTT, id⟩ id' = ⟨some p, p.smoothedRTT, id⟩ := by
      cases hpath : s.paths id' with
      | none =>
        unfold iterate
        rw [hpath]
      | some p' =>
        rw [iterate_eq hpath]
        cases hconsiders : s.considers id' p' with
        | false => exact visit_of_not_considers hconsiders
        | true => exact visit_keeps hrtt (h.best id' p' hpath hconsiders)
    rw [foldl_cons, hstep, ih]

/-- A best path without an RTT is selected when it is met. -/
theorem Best.visit_takes (h : s.Best id p) (hrtt : p.smoothedRTT = 0)
    (hscanned : Scanned s seen selected) : s.visit selected id p = ⟨some p, p.smoothedRTT, id⟩ := by
  cases hscanned with
  | nothing => exact visit_first h.considered
  | best id₀ p₀ path considered best =>
    exact visit_replaces h.considered hrtt (h.best id₀ p₀ path considered)

/-- Every best path is selected in some order of the map: with an RTT, if it comes first, and
without one, if it comes last. -/
theorem Best.exists_order (h : s.Best id p) (hlists : Lists s.paths order) :
    ∃ order', Lists s.paths order' ∧ (s.pathLoop order').path = some p := by
  have hsome : (s.paths id).isSome = true := by
    rw [h.path]
    rfl
  by_cases hrtt : p.smoothedRTT = 0
  · refine ⟨order.erase id ++ [id], hlists.finish hsome, ?_⟩
    have hseen := scanned_pathLoop (s := s) (order.erase id)
    unfold pathLoop at hseen ⊢
    rw [foldl_append, foldl_cons, foldl_nil, iterate_eq h.path, h.visit_takes hrtt hseen]
  · refine ⟨id :: order.erase id, hlists.start hsome, ?_⟩
    unfold pathLoop
    rw [foldl_cons, iterate_eq h.path, visit_first h.considered, h.foldl_keeps hrtt]

/-! ### Duplicated traffic -/

/-- Traffic of `fromPth` is duplicated on the path. -/
def Duplicates (s : Selection) (id : UInt8) : Prop :=
  s.hasRetransmission = true ∧ s.hasStreamRetransmission = true ∧
    ∃ fromPth, s.fromPth = some fromPth ∧ fromPth.smoothedRTT = 0 ∧ s.duplicatesOn fromPth id = true

/-! ### The selected path -/

variable {order order' : List UInt8}

section

variable (hlen : 1 < order'.length)

include hlen

/-- `selectPath` with several paths: a path for duplicated traffic, or the result of
`pathLoop`. -/
theorem selectPath_eq :
    s.selectPath order order' =
      if s.hasRetransmission && s.hasStreamRetransmission then
        s.fromPth.map fun fromPth => (s.duplicate fromPth order).or (s.pathLoop order').path
      else some (s.pathLoop order').path := by
  unfold selectPath selectPathLowLatency
  rw [if_neg (by omega)]
  congr 1
  cases s.fromPth with
  | none => rfl
  | some fromPth =>
    simp only [map_some]
    cases s.duplicate fromPth order <;> rfl

theorem selectPath_of_duplicate (h : s.Duplicates id) (hlists : Lists s.paths order)
    (hpath : s.paths id = some p) :
    ∃ order₁, Lists s.paths order₁ ∧ s.selectPath order₁ order' = some (some p) := by
  obtain ⟨hretr, hstream, fromPth, hfrom, hrtt, hon⟩ := h
  refine ⟨id :: order.erase id, hlists.start (by rw [hpath]; rfl), ?_⟩
  rw [selectPath_eq hlen, hretr, hstream, hfrom, map_some, duplicate, if_pos hrtt,
    find?_cons_of_pos hon, bind_some, hpath]
  rfl

/-- Without duplicated traffic, the result is that of `pathLoop`. -/
theorem selectPath_of_not_duplicates
    (hfrom : s.hasRetransmission = true → s.hasStreamRetransmission = true → s.fromPth ≠ none)
    (h : ∀ id p, s.paths id = some p → ¬ s.Duplicates id) :
    s.selectPath order order' = some (s.pathLoop order').path := by
  rw [selectPath_eq hlen]
  split
  · rename_i hflags
    obtain ⟨hretr, hstream⟩ := Bool.and_eq_true_iff.mp hflags
    obtain ⟨fromPth, hsome⟩ := ne_none_iff_exists'.mp (hfrom hretr hstream)
    have hdup : s.duplicate fromPth order = none := by
      by_contra hne
      obtain ⟨p, hp⟩ := ne_none_iff_exists'.mp hne
      unfold duplicate at hp
      split at hp
      · next hrtt =>
        obtain ⟨id, hfind, hpath⟩ := bind_eq_some_iff.mp hp
        exact h id p hpath ⟨hretr, hstream, fromPth, hsome, hrtt, find?_some hfind⟩
      · cases hp
    rw [hsome, map_some, hdup, none_or]
  · rfl

/-- With duplicated traffic, the result is a path for it. -/
theorem selectPath_of_duplicates (hlists : Lists s.paths order) (hpath : s.paths id = some p)
    (h : s.Duplicates id) :
    ∃ id' p', s.paths id' = some p' ∧ s.Duplicates id' ∧
      s.selectPath order order' = some (some p') := by
  obtain ⟨hretr, hstream, fromPth, hfrom, hrtt, hon⟩ := h
  have hfind : (order.find? (s.duplicatesOn fromPth)).isSome = true := by
    rw [find?_isSome]
    exact ⟨id, (hlists.mem_iff id).mpr (by rw [hpath]; rfl), hon⟩
  obtain ⟨id', hid'⟩ := isSome_iff_exists.mp hfind
  obtain ⟨p', hpath'⟩ := isSome_iff_exists.mp ((hlists.mem_iff id').mp (mem_of_find?_eq_some hid'))
  refine ⟨id', p', hpath', ⟨hretr, hstream, fromPth, hfrom, hrtt, find?_some hid'⟩, ?_⟩
  have hdup : s.duplicate fromPth order = some p' := by
    unfold duplicate
    rw [if_pos hrtt, hid', bind_some, hpath']
  rw [selectPath_eq hlen, hretr, hstream, hfrom, map_some, hdup]
  rfl

end

theorem considers_iff : s.considers id p = true ↔
    (s.hasRetransmission = false → p.sendingAllowed = true) ∧ p.potentiallyFailed = false ∧
      id ≠ 0 := by
  unfold considers
  cases s.hasRetransmission <;> simp [and_assoc]

/-- A best path is usable if frames are not retransmitted, or if it is open. -/
theorem Best.usable (h : s.Best id p) (hopen : s.hasRetransmission = true → p.isOpen = true) :
    p.Usable := by
  obtain ⟨hallowed, hfailed, -⟩ := considers_iff.mp h.considered
  refine ⟨?_, hfailed⟩
  cases hretr : s.hasRetransmission with
  | true => exact hopen hretr
  | false => exact (Bool.and_eq_true_iff.mp (hallowed hretr)).1

/-- With more than one path, the scheduler selects nothing or a path that is open and not
potentially failed, in every order of the map, just if: `fromPth` is set when it is read;
the paths that traffic can be duplicated on are open and not failed; and when frames are
retransmitted without such a path, for every closed path that is not marked as failed there is
a better one that is not marked. -/
theorem selectPath_usable_iff (s : Selection) {paths : List UInt8} (hpaths : Lists s.paths paths)
    (hlen : 1 < paths.length) :
    (∀ order order', Lists s.paths order → Lists s.paths order' →
      ∃ selected, s.selectPath order order' = some selected ∧ ∀ p, selected = some p → p.Usable) ↔
    (s.hasRetransmission = true → s.hasStreamRetransmission = true → s.fromPth ≠ none) ∧
      (∀ id p, s.paths id = some p → s.Duplicates id → p.Usable) ∧
      (s.hasRetransmission = true → (∀ id p, s.paths id = some p → ¬ s.Duplicates id) →
        ∀ id p, s.paths id = some p → id ≠ 0 → p.potentiallyFailed = false → p.isOpen = false →
          ∃ id' p', s.paths id' = some p' ∧ id' ≠ 0 ∧ p'.potentiallyFailed = false ∧
            s.Better id' p' id p) := by
  have hlength : ∀ order, Lists s.paths order → 1 < order.length := fun order horder => by
    rwa [(horder.perm hpaths).length_eq]
  constructor
  · intro h
    refine ⟨fun hretr hstream hnone => ?_, fun id p hpath hdup => ?_,
      fun hretr hnone id p hpath hid hfailed hclosed => ?_⟩
    · obtain ⟨selected, hselected, -⟩ := h paths paths hpaths hpaths
      rw [selectPath_eq hlen, hretr, hstream, hnone] at hselected
      cases hselected
    · obtain ⟨order, horder, heq⟩ := selectPath_of_duplicate hlen hdup hpaths hpath
      obtain ⟨selected, hselected, husable⟩ := h order paths horder hpaths
      rw [heq] at hselected
      cases hselected
      exact husable p rfl
    by_contra hbetter
    -- nothing is better than the closed path, so some order selects it
    have hbest : s.Best id p := by
      refine ⟨hpath, ?_, fun id' p' hpath' hconsiders' hbetter' => hbetter ?_⟩
      · rw [considers_iff, hretr]
        exact ⟨nofun, hfailed, hid⟩
      · obtain ⟨-, hfailed', hid'⟩ := considers_iff.mp hconsiders'
        exact ⟨id', p', hpath', hid', hfailed', hbetter'⟩
    obtain ⟨order', horder', hloop⟩ := hbest.exists_order hpaths
    obtain ⟨selected, hselected, husable⟩ := h paths order' hpaths horder'
    have hfrom : s.hasRetransmission = true → s.hasStreamRetransmission = true →
        s.fromPth ≠ none := fun _ hstream hnil => by
      rw [selectPath_eq (hlength order' horder'), hretr, hstream, hnil] at hselected
      cases hselected
    rw [selectPath_of_not_duplicates (hlength order' horder') hfrom hnone] at hselected
    have hopen := (husable p ((some.inj hselected).symm.trans hloop)).1
    rw [hclosed] at hopen
    cases hopen
  · rintro ⟨hfrom, hdup, hclosed⟩ order order' horder horder'
    by_cases hexists : ∃ id p, s.paths id = some p ∧ s.Duplicates id
    · obtain ⟨id, p, hpath, hid⟩ := hexists
      obtain ⟨id', p', hpath', hid', heq⟩ :=
        selectPath_of_duplicates (hlength order' horder') horder hpath hid
      refine ⟨some p', heq, fun p hp => ?_⟩
      cases hp
      exact hdup id' p' hpath' hid'
    have hnone : ∀ id p, s.paths id = some p → ¬ s.Duplicates id := fun id p hpath hid =>
      hexists ⟨id, p, hpath, hid⟩
    refine ⟨_, selectPath_of_not_duplicates (hlength order' horder') hfrom hnone, ?_⟩
    intro p hp
    obtain ⟨id, hbest⟩ := pathLoop_best horder' hp
    refine hbest.usable fun hretr => ?_
    by_contra hopen
    obtain ⟨-, hfailed, hid⟩ := considers_iff.mp hbest.considered
    obtain ⟨id', p', hpath', hid', hfailed', hbetter⟩ := hclosed hretr hnone id p hbest.path hid
      hfailed (Bool.eq_false_iff.mpr hopen)
    refine hbest.best id' p' hpath' ?_ hbetter
    rw [considers_iff, hretr]
    exact ⟨nofun, hfailed', hid'⟩

/-- A path on which nothing was sent. -/
def idlePath (id : UInt8) (isOpen potentiallyFailed : Bool) (smoothedRTT : Int64) :
    SchedulerPath :=
  ⟨id, isOpen, potentiallyFailed, smoothedRTT, newSentPacketHandler, 32⟩

/-- Paths 1 and 3, where two packets were sent on path 1 and one on path 3. -/
def twoPaths (first second : SchedulerPath) (hasRetransmission hasStreamRetransmission : Bool) :
    Selection where
  quotas := fun id => if id = 1 then 2 else if id = 3 then 1 else 0
  paths := fun id => [((1 : UInt8), first), (3, second)].lookup id
  hasRetransmission := hasRetransmission
  hasStreamRetransmission := hasStreamRetransmission
  fromPth := some first

/-- An open path with the lower RTT is selected for retransmissions, though the other one is
closed. -/
theorem selectPath_usable_open :
    ∃ selected,
      (twoPaths (idlePath 1 true false 10) (idlePath 3 false false 20) true false).selectPath
        [1, 3] [3, 1] = some selected ∧ ∀ p, selected = some p → p.Usable := by
  have hlists : Lists
      (twoPaths (idlePath 1 true false 10) (idlePath 3 false false 20) true false).paths [1, 3] :=
    lists_lookup _ (by decide)
  have hlists' := hlists.of_perm (List.Perm.swap 3 1 [])
  refine (selectPath_usable_iff _ hlists (by decide)).mpr ⟨nofun, ?_, ?_⟩ _ _ hlists hlists'
  · rintro id p hpath ⟨-, hstream, -⟩
    cases hstream
  intro hretr hnone id p hpath hid hfailed hclosed
  refine ⟨1, idlePath 1 true false 10, rfl, by decide, rfl, ?_⟩
  have hmem : id ∈ [(1 : UInt8), 3] := (hlists.mem_iff id).mpr (by rw [hpath]; rfl)
  rcases mem_pair.mp hmem with rfl | rfl
  · cases hpath
    cases hclosed
  · cases hpath
    exact .inl ⟨by decide, .inr (by decide)⟩

/-- For retransmissions a closed path is selected over an open one, and duplicated traffic is
sent on a path that is marked as failed. -/
theorem selectPath_dead :
    (∀ first second retr stream, Lists (twoPaths first second retr stream).paths [1, 3]) ∧
      (twoPaths (idlePath 1 true false 20) (idlePath 3 false false 10) true false).selectPath
        [1, 3] [1, 3] = some (some (idlePath 3 false false 10)) ∧
      (twoPaths (idlePath 1 true false 0) (idlePath 3 true true 0) true true).selectPath
        [1, 3] [1, 3] = some (some (idlePath 3 true true 0)) ∧
      ¬ (idlePath 3 false false 10).Usable ∧ ¬ (idlePath 3 true true 0).Usable := by
  refine ⟨fun _ _ _ _ => lists_lookup _ (by simp), by decide, by decide, ?_, ?_⟩
  · rintro ⟨hopen, -⟩
    cases hopen
  · rintro ⟨-, hfailed⟩
    cases hfailed

/-! ### The optimum -/

/-- A path of the session other than the initial one that is open, allowed to send and not marked as
failed. -/
structure Eligible (s : Selection) (id : UInt8) (p : SchedulerPath) : Prop where
  path : s.paths id = some p
  later : id ≠ 0
  allowed : p.sendingAllowed = true
  alive : p.potentiallyFailed = false

theorem eligible_iff (hretr : s.hasRetransmission = false) :
    s.Eligible id p ↔ s.paths id = some p ∧ s.considers id p = true := by
  rw [considers_iff]
  constructor
  · intro h
    exact ⟨h.path, fun _ => h.allowed, h.alive, h.later⟩
  · rintro ⟨hpath, hallowed, halive, hlater⟩
    exact ⟨hpath, hlater, hallowed hretr, halive⟩

/-- The loop selects nothing just if it considers nothing. -/
theorem pathLoop_eq_none_iff (hlists : Lists s.paths order) :
    (s.pathLoop order).path = none ↔ ∀ id p, s.paths id = some p → ¬ s.considers id p = true := by
  have hscanned := scanned_pathLoop (s := s) order
  generalize s.pathLoop order = selected at hscanned
  cases hscanned with
  | nothing h =>
    refine iff_of_true rfl fun id p hpath hconsiders => h id p ⟨?_, hpath, hconsiders⟩
    rw [hlists.mem_iff, hpath]
    rfl
  | best id p path considered best =>
    exact iff_of_false nofun fun h => h id p path considered

/-- What is best among the eligible paths: the lowest RTT, or without any RTT the lowest quota. -/
structure Optimal (s : Selection) (id : UInt8) (p : SchedulerPath) : Prop where
  eligible : s.Eligible id p
  lowestRTT : (∃ id' p', s.Eligible id' p' ∧ p'.smoothedRTT ≠ 0) → p.smoothedRTT ≠ 0 ∧
    ∀ id' p', s.Eligible id' p' → p'.smoothedRTT ≠ 0 → p.smoothedRTT ≤ p'.smoothedRTT
  lowestQuota : (∀ id' p', s.Eligible id' p' → p'.smoothedRTT = 0) →
    ∀ id' p', s.Eligible id' p' → s.quotas id ≤ s.quotas id'

theorem Best.optimal (h : s.Best id p) (hretr : s.hasRetransmission = false) : s.Optimal id p := by
  have hbest : ∀ id' p', s.Eligible id' p' → ¬ s.Better id' p' id p := by
    intro id' p' heligible
    obtain ⟨hpath, hconsiders⟩ := (eligible_iff hretr).mp heligible
    exact h.best id' p' hpath hconsiders
  have heligible : s.Eligible id p := (eligible_iff hretr).mpr ⟨h.path, h.considered⟩
  refine ⟨heligible, ?_, ?_⟩
  · rintro ⟨id₀, p₀, heligible₀, hrtt₀⟩
    have hrtt : p.smoothedRTT ≠ 0 := fun hzero =>
      hbest id₀ p₀ heligible₀ (.inl ⟨hrtt₀, .inl hzero⟩)
    refine ⟨hrtt, fun id' p' heligible' hrtt' => Int64.not_lt.mp fun hlt => ?_⟩
    exact hbest id' p' heligible' (.inl ⟨hrtt', .inr hlt⟩)
  · intro hzero id' p' heligible'
    refine UInt64.not_lt.mp fun hlt => hbest id' p' heligible' (.inr ⟨?_, ?_, hlt⟩)
    · exact hzero id' p' heligible'
    · exact hzero id p heligible

/-- **The choice of a path.** With more than one path and nothing to retransmit, and for every order
of the map, the scheduler selects nothing just if no path is eligible, and otherwise an eligible
path with the lowest RTT, or with the lowest quota if no eligible path has an RTT. -/
theorem low_latency_optimal (s : Selection) (hretr : s.hasRetransmission = false)
    (order order' : List UInt8) (hlists : Lists s.paths order') (hlen : 1 < order'.length) :
    ∃ selected, s.selectPathLowLatency order order' = some selected ∧
      (selected = none ↔ ∀ id p, ¬ s.Eligible id p) ∧
      ∀ p, selected = some p → ∃ id, s.Optimal id p := by
  refine ⟨(s.pathLoop order').path, ?_, ?_, ?_⟩
  · have heq : s.selectPath order order' = _ := selectPath_eq hlen
    rw [hretr, Bool.false_and] at heq
    exact heq
  · rw [pathLoop_eq_none_iff hlists]
    refine forall₂_congr fun id p => ?_
    rw [eligible_iff hretr, not_and]
  · intro p hp
    obtain ⟨id, hbest⟩ := pathLoop_best hlists hp
    exact ⟨id, hbest.optimal hretr⟩

/-- Of two paths with a sample the one with the lower RTT is selected. -/
theorem low_latency_optimal_two :
    ∃ p, selectPathLowLatency
        (twoPaths (idlePath 1 true false 20) (idlePath 3 true false 10) false false)
        [1, 3] [3, 1] = some (some p) ∧ p.smoothedRTT ≤ 10 := by
  have hlists : Lists
      (twoPaths (idlePath 1 true false 20) (idlePath 3 true false 10) false false).paths [1, 3] :=
    lists_lookup _ (by decide)
  have heligible :
      (twoPaths (idlePath 1 true false 20) (idlePath 3 true false 10) false false).Eligible 3
        (idlePath 3 true false 10) := ⟨rfl, by decide, by decide, rfl⟩
  obtain ⟨selected, hselected, hnone, hoptimal⟩ := low_latency_optimal _ rfl [1, 3] [3, 1]
    (hlists.of_perm (List.Perm.swap 3 1 [])) (by decide)
  cases selected with
  | none => exact absurd heligible (hnone.mp rfl 3 _)
  | some p =>
    obtain ⟨id, hp⟩ := hoptimal p rfl
    have hrtt : (idlePath 3 true false 10).smoothedRTT ≠ 0 := by decide
    exact ⟨p, hselected, (hp.lowestRTT ⟨3, _, heligible, hrtt⟩).2 3 _ heligible hrtt⟩

end Selection

end RlncStreaming.Quic
