import Mathlib.Data.List.Nodup
import RlncStreaming.Lib.Runs
import RlncStreaming.Quic.PathManager

/-!
Path identities over the life of a session (`path_manager.go`: `createPath`,
`createPathFromRemote`).

The IDs of the paths that are created locally are counted up by two in 8 bits, and `createPath`
enters a path under the next ID without a look at the table. On the client the 129th path
replaces path 1, on the server the 128th path replaces the initial path
(`initial_path_overwritten`). Up to there no entry is ever replaced; the parity of the IDs and
the address pairs of the paths are right in any case (`path_identities_iff`).
-/

namespace RlncStreaming.Quic

open Lib PathManager List

/-! ### Sequences of calls -/

inductive PathCall where
  /-- `createPath` with a local and a remote address. -/
  | createPath (conn : Conn)
  /-- `createPathFromRemote`, for a packet on a new path. -/
  | createPathFromRemote (pathID : UInt8) (conn : Conn)
deriving DecidableEq

/-- The path manager, and the positions of the paths that `createPath` has created. -/
structure PathRun where
  manager : PathManager
  created : List Nat

namespace PathRun

/-- `setup`: the initial path is there before any call. -/
def setup (perspective : Perspective) (conn : Conn) : PathRun := ⟨.setup perspective conn, []⟩

/-- The call creates a path with the next ID. -/
def creates (r : PathRun) : PathCall → Bool
  | .createPath conn => !r.manager.hasConn conn
  | .createPathFromRemote _ _ => false

/-- One call. A packet that `createPathFromRemote` refuses changes nothing. -/
def step (r : PathRun) (e : PathCall) : PathRun where
  manager :=
    match e with
    | .createPath conn => r.manager.createPath conn
    | .createPathFromRemote pathID conn =>
      match r.manager.createPathFromRemote pathID conn with
      | .ok manager => manager
      | .error _ => r.manager
  created := if r.creates e then r.created ++ [r.manager.objects.length] else r.created

/-- The number of calls that create a path with an ID of this side. -/
def creations : PathRun → List PathCall → Nat
  | _, [] => 0
  | r, e :: events => (if r.creates e then 1 else 0) + creations (r.step e) events

/-- No entry of the path table is replaced. -/
def Keeps (r : PathRun) (e : PathCall) : Prop :=
  ∀ id i, r.manager.paths.lookup id = some i → (r.step e).manager.paths.lookup id = some i

/-- The remainder modulo 2 of the IDs of this side. -/
def parity : Perspective → Nat
  | .client => 1
  | .server => 0

/-- IDs that were created locally are odd on the client and even on the server. -/
def LocalIds (r : PathRun) : Prop :=
  ∀ i ∈ r.created, ∃ pth, r.manager.objects[i]? = some pth ∧
    pth.pathID.toNat % 2 = parity r.manager.perspective

/-- Entries that `createPath` has created have different address pairs. -/
def DistinctPairs (r : PathRun) : Prop :=
  ∀ id id' i i' pth pth', r.manager.paths.lookup id = some i → i ∈ r.created →
    r.manager.objects[i]? = some pth → r.manager.paths.lookup id' = some i' → i' ∈ r.created →
    r.manager.objects[i']? = some pth' → pth.conn = pth'.conn → id = id'

/-- How many paths a side can create before its IDs are used up. -/
def maxCreations : Perspective → Nat
  | .client => 128
  | .server => 127

/-! ### What the calls do -/

variable {r : PathRun} {e : PathCall}

/-- A packet creates a path only with a new ID of the other side. -/
theorem createPathFromRemote_id {pm pm' : PathManager} {pathID : UInt8} {conn : Conn}
    (h : pm.createPathFromRemote pathID conn = .ok pm') :
    pm.paths.lookup pathID = none ∧ pathID.toNat % 2 ≠ parity pm.perspective := by
  unfold createPathFromRemote at h
  split at h
  · cases h
  rename_i hnew
  refine ⟨Option.not_isSome_iff_eq_none.mp hnew, ?_⟩
  have hmod : pathID % 2 = 0 ↔ pathID.toNat % 2 = 0 := by
    rw [← UInt8.toNat_inj, UInt8.toNat_mod]
    rfl
  split at h
  · cases h
  rename_i hclient
  split at h
  · cases h
  rename_i hserver
  cases hside : pm.perspective with
  | client =>
    have hodd : ¬ pathID % 2 ≠ 0 := fun hodd => hclient ⟨hside, hodd⟩
    rw [not_not, hmod] at hodd
    simp [parity, hodd]
  | server =>
    have heven : ¬ pathID % 2 = 0 := fun heven => hserver ⟨hside, heven⟩
    rwa [hmod] at heven

/-- Every call leaves the state as it is, enters a path with the next ID of this side, or
enters a path with a new ID of the other side. -/
theorem step_cases (r : PathRun) (e : PathCall) :
    (r.creates e = false ∧ r.step e = r) ∨
      (∃ conn, r.creates e = true ∧ r.manager.hasConn conn = false ∧
        r.step e = ⟨{ r.manager.addPath r.manager.nxtPathID conn with
            nxtPathID := r.manager.nxtPathID + 2 },
          r.created ++ [r.manager.objects.length]⟩) ∨
      (∃ pathID conn, r.creates e = false ∧ r.manager.paths.lookup pathID = none ∧
        pathID.toNat % 2 ≠ parity r.manager.perspective ∧
        r.step e = ⟨r.manager.addPath pathID conn, r.created⟩) := by
  cases e with
  | createPath conn =>
    cases hconn : r.manager.hasConn conn with
    | true =>
      left
      simp [step, creates, createPath, hconn]
    | false =>
      right; left
      refine ⟨conn, ?_, hconn, ?_⟩
      · simp [creates, hconn]
      · simp [step, creates, createPath, hconn]
  | createPathFromRemote pathID conn =>
    cases hok : r.manager.createPathFromRemote pathID conn with
    | error err =>
      left
      simp [step, creates, hok]
    | ok manager =>
      right; right
      obtain ⟨hnew, hid⟩ := createPathFromRemote_id hok
      refine ⟨pathID, conn, rfl, hnew, hid, ?_⟩
      simp [step, creates, hok, createPathFromRemote_ok hok]

/-! ### The next ID -/

/-- The state after `n` paths were created locally. -/
structure Counted (n : Nat) (r : PathRun) : Prop where
  nxt : r.manager.nxtPathID.toNat = (2 - parity r.manager.perspective + 2 * n) % 256
  /-- Of the IDs of this side, those that were counted are used. -/
  used : ∀ id : UInt8, id.toNat % 2 = parity r.manager.perspective →
    ((r.manager.paths.lookup id).isSome = true ↔
      id = 0 ∨ ∃ k < n, id.toNat = (2 - parity r.manager.perspective + 2 * k) % 256)

theorem parity_lt (perspective : Perspective) : parity perspective < 2 := by
  cases perspective <;> simp [parity]

theorem counted_setup (perspective : Perspective) (conn : Conn) :
    Counted 0 (setup perspective conn) := by
  constructor
  · cases perspective <;> rfl
  intro id _
  unfold setup PathManager.setup
  simp

/-- The next ID is one of this side. -/
theorem Counted.nxt_parity {n : Nat} (h : Counted n r) :
    r.manager.nxtPathID.toNat % 2 = parity r.manager.perspective := by
  have hparity := parity_lt r.manager.perspective
  rw [h.nxt]
  omega

/-- The next ID is in use just if the IDs are used up. -/
theorem Counted.nxt_used_iff {n : Nat} (h : Counted n r)
    (hn : n ≤ maxCreations r.manager.perspective) :
    (r.manager.paths.lookup r.manager.nxtPathID).isSome = true ↔
      n = maxCreations r.manager.perspective := by
  rw [h.used _ h.nxt_parity, ← UInt8.toNat_inj, h.nxt]
  cases hside : r.manager.perspective with
  | client =>
    rw [hside] at hn
    simp only [maxCreations, parity] at hn ⊢
    constructor
    · rintro (hzero | ⟨k, hk, heq⟩)
      · simp at hzero
        omega
      · omega
    · intro hall
      exact .inr ⟨0, by omega, by omega⟩
  | server =>
    rw [hside] at hn
    simp only [maxCreations, parity] at hn ⊢
    constructor
    · rintro (hzero | ⟨k, hk, heq⟩)
      · simp at hzero
        omega
      · omega
    · intro hall
      left
      rw [hall]
      rfl

/-- One call counts up by one if it creates a path. -/
theorem Counted.step {n : Nat} (h : Counted n r) (e : PathCall) :
    Counted (n + if r.creates e then 1 else 0) (r.step e) := by
  rcases step_cases r e with ⟨hcreates, heq⟩ | ⟨conn, hcreates, -, heq⟩ |
    ⟨pathID, conn, hcreates, hnew, hid, heq⟩
  · rw [hcreates, heq]
    exact h
  · rw [hcreates, heq]
    constructor
    · change (r.manager.nxtPathID + 2).toNat = _
      rw [UInt8.toNat_add, h.nxt]
      simp only [addPath, if_true, UInt8.reduceToNat]
      omega
    intro id hside
    change ((r.manager.addPath r.manager.nxtPathID conn).paths.lookup id).isSome = true ↔ _
    rw [lookup_addPath]
    by_cases hid : id = r.manager.nxtPathID
    · rw [if_pos hid]
      refine ⟨fun _ => .inr ⟨n, Nat.lt_succ_self n, ?_⟩, fun _ => rfl⟩
      rw [hid]
      exact h.nxt
    rw [if_neg hid, h.used id hside]
    apply or_congr_right
    constructor
    · rintro ⟨k, hk, hkid⟩
      exact ⟨k, Nat.lt_succ_of_lt hk, hkid⟩
    rintro ⟨k, hk, hkid⟩
    -- the last ID that was counted is the one of the new path
    have hne : k ≠ n := by
      rintro rfl
      exact hid (UInt8.toNat_inj.mp (hkid.trans h.nxt.symm))
    exact ⟨k, Nat.lt_of_le_of_ne (Nat.le_of_lt_succ hk) hne, hkid⟩
  · rw [hcreates, heq]
    constructor
    · exact h.nxt
    intro id hside
    have hne : id ≠ pathID := by
      rintro rfl
      exact hid hside
    change ((r.manager.addPath pathID conn).paths.lookup id).isSome = true ↔ _
    rw [lookup_addPath, if_neg hne]
    exact h.used id hside

/-! ### Entries and their addresses -/

/-- The entries of the table refer to paths, and those of `createPath` are as they should
be. -/
structure Sound (r : PathRun) : Prop where
  inRange : ∀ id i, r.manager.paths.lookup id = some i → i < r.manager.objects.length
  localIds : r.LocalIds
  distinctPairs : r.DistinctPairs

theorem LocalIds.lt (h : r.LocalIds) {i : Nat} (hi : i ∈ r.created) :
    i < r.manager.objects.length := by
  obtain ⟨pth, hpth, -⟩ := h i hi
  exact (List.getElem?_eq_some_iff.mp hpth).1

theorem sound_setup (perspective : Perspective) (conn : Conn) : (setup perspective conn).Sound := by
  refine ⟨fun id i hi => ?_, nofun, fun _ _ _ _ _ _ _ hi => nomatch hi⟩
  obtain ⟨before, after, heq, -⟩ := lookup_eq_some_iff.mp hi
  have hmem : (id, i) ∈ [((0 : UInt8), 0)] := by
    change [((0 : UInt8), 0)] = _ at heq
    rw [heq]
    simp
  simp only [mem_singleton, Prod.mk.injEq] at hmem
  rw [hmem.2]
  exact Nat.zero_lt_one

/-- A path that is entered is the last object. -/
theorem objects_addPath (pm : PathManager) (pathID : UInt8) (conn : Conn) :
    (pm.addPath pathID conn).objects[pm.objects.length]? = some (Path.setup pathID conn) := by
  unfold addPath
  simp

theorem objects_addPath_of_lt {pm : PathManager} {i : Nat} (hi : i < pm.objects.length)
    (pathID : UInt8) (conn : Conn) :
    (pm.addPath pathID conn).objects[i]? = pm.objects[i]? := by
  unfold addPath
  rw [getElem?_append_left hi]

/-- After a path was entered, an entry of the table is the new one or an old one. -/
theorem Sound.lookup_addPath_cases (h : r.Sound) (pathID : UInt8) (conn : Conn) {id : UInt8}
    {i : Nat} (hi : (r.manager.addPath pathID conn).paths.lookup id = some i) :
    (id = pathID ∧ i = r.manager.objects.length) ∨
      (r.manager.paths.lookup id = some i ∧ i < r.manager.objects.length) := by
  rw [lookup_addPath] at hi
  split at hi
  · rename_i hid
    exact .inl ⟨hid, (Option.some.inj hi).symm⟩
  · exact .inr ⟨hi, h.inRange id i hi⟩

/-- A new path may be counted among those of `createPath` if its address pair is new and its
ID is one of this side. -/
def MayCount (r : PathRun) (pathID : UInt8) (conn : Conn) : Prop :=
  r.manager.hasConn conn = false ∧ pathID.toNat % 2 = parity r.manager.perspective

theorem Sound.enter (h : r.Sound) {pathID : UInt8} {conn : Conn} {created : List Nat}
    (hcreated : ∀ i ∈ created,
      i ∈ r.created ∨ (i = r.manager.objects.length ∧ r.MayCount pathID conn)) (nxt : UInt8) :
    Sound ⟨{ r.manager.addPath pathID conn with nxtPathID := nxt }, created⟩ := by
  have hold : ∀ i ∈ created, i < r.manager.objects.length → i ∈ r.created := fun i hi hlt =>
    (hcreated i hi).resolve_right fun hnew => Nat.ne_of_lt hlt hnew.1
  have hnew : r.manager.objects.length ∈ created → r.MayCount pathID conn := fun hi =>
    ((hcreated _ hi).resolve_left fun hin => Nat.lt_irrefl _ (h.localIds.lt hin)).2
  refine ⟨fun id i hi => ?_, fun i hi => ?_, ?_⟩
  · change i < (r.manager.objects ++ [Path.setup pathID conn]).length
    rw [length_append, length_singleton]
    rcases h.lookup_addPath_cases pathID conn hi with ⟨-, rfl⟩ | ⟨-, hlt⟩
    · exact Nat.lt_succ_self _
    · exact Nat.lt_succ_of_lt hlt
  · rcases hcreated i hi with hin | ⟨rfl, -, hparity⟩
    · obtain ⟨pth, hpth, hid⟩ := h.localIds i hin
      exact ⟨pth, extends_addPath _ pathID i pth hpth, hid⟩
    · exact ⟨_, objects_addPath _ pathID conn, hparity⟩
  · -- of two entries with one address pair, neither is the new one
    have hother : ∀ {id i pth pth'}, r.manager.paths.lookup id = some i →
        r.manager.objects.length ∈ created →
        (r.manager.addPath pathID conn).objects[i]? = some pth →
        (r.manager.addPath pathID conn).objects[r.manager.objects.length]? = some pth' →
        pth.conn ≠ pth'.conn := by
      intro id i pth pth' hi hmem hpth hpth'
      rw [objects_addPath_of_lt (h.inRange id i hi)] at hpth
      rw [objects_addPath] at hpth'
      cases hpth'
      intro (hconn : pth.conn = conn)
      obtain ⟨before, after, heq, -⟩ := lookup_eq_some_iff.mp hi
      have hnone := (hnew hmem).1
      unfold hasConn at hnone
      have hnot := any_eq_false.mp hnone (id, i) (by rw [heq]; simp)
      simp [hpth, hconn] at hnot
    intro id id' i i' pth pth' hi hmem hpth hi' hmem' hpth' hconn
    rcases h.lookup_addPath_cases pathID conn hi with ⟨hid, rfl⟩ | ⟨hlookup, hlt⟩
    · rcases h.lookup_addPath_cases pathID conn hi' with ⟨hid', -⟩ | ⟨hlookup', hlt'⟩
      · exact hid.trans hid'.symm
      · exact absurd hconn.symm (hother hlookup' hmem hpth' hpth)
    rcases h.lookup_addPath_cases pathID conn hi' with ⟨-, rfl⟩ | ⟨hlookup', hlt'⟩
    · exact absurd hconn (hother hlookup hmem' hpth hpth')
    change (r.manager.addPath pathID conn).objects[_]? = _ at hpth hpth'
    rw [objects_addPath_of_lt hlt] at hpth
    rw [objects_addPath_of_lt hlt'] at hpth'
    exact h.distinctPairs id id' i i' pth pth' hlookup (hold i hmem hlt) hpth hlookup'
      (hold i' hmem' hlt') hpth' hconn

theorem Sound.step (h : r.Sound)
    (hnxt : r.manager.nxtPathID.toNat % 2 = parity r.manager.perspective) (e : PathCall) :
    (r.step e).Sound := by
  rcases step_cases r e with ⟨-, heq⟩ | ⟨conn, -, hconn, heq⟩ | ⟨pathID, conn, -, -, -, heq⟩
  · rw [heq]
    exact h
  · rw [heq]
    apply h.enter
    intro i hi
    rcases mem_append.mp hi with hin | hnew
    · exact .inl hin
    · exact .inr ⟨mem_singleton.mp hnew, hconn, hnxt⟩
  · rw [heq]
    exact h.enter (fun i hi => .inl hi) _

/-- A call keeps the entries of the table unless it creates a path when the IDs are used
up. -/
theorem Counted.keeps_iff {n : Nat} (h : Counted n r) (hsound : r.Sound)
    (hn : n ≤ maxCreations r.manager.perspective) (e : PathCall) :
    r.Keeps e ↔ (r.creates e = true → n < maxCreations r.manager.perspective) := by
  unfold Keeps
  rcases step_cases r e with ⟨hcreates, heq⟩ | ⟨conn, hcreates, -, heq⟩ |
    ⟨pathID, conn, hcreates, hnew, hid, heq⟩
  · rw [hcreates, heq]
    simp
  · rw [hcreates, heq]
    have hused := h.nxt_used_iff hn
    constructor
    · intro hkeeps _
      refine Nat.lt_of_le_of_ne hn fun hall => ?_
      obtain ⟨i, hi⟩ := Option.isSome_iff_exists.mp (hused.mpr hall)
      have hlookup := hkeeps _ i hi
      change (r.manager.addPath r.manager.nxtPathID conn).paths.lookup _ = _ at hlookup
      rw [lookup_addPath, if_pos rfl] at hlookup
      exact Nat.ne_of_gt (hsound.inRange _ i hi) (Option.some.inj hlookup)
    · intro hlt id i hi
      change (r.manager.addPath r.manager.nxtPathID conn).paths.lookup id = some i
      rw [lookup_addPath, if_neg, hi]
      rintro rfl
      exact Nat.ne_of_lt (hlt rfl) (hused.mp (by rw [hi]; rfl))
  · rw [hcreates, heq]
    refine ⟨fun _ => nofun, fun _ id i hi => ?_⟩
    change (r.manager.addPath pathID conn).paths.lookup id = some i
    rw [lookup_addPath, if_neg, hi]
    rintro rfl
    rw [hnew] at hi
    cases hi

/-! ### Whole runs -/

theorem step_perspective :
    (r.step e).manager.perspective = r.manager.perspective := by
  rcases step_cases r e with ⟨-, heq⟩ | ⟨conn, -, -, heq⟩ | ⟨pathID, conn, -, -, -, heq⟩
  all_goals rw [heq]
  all_goals rfl

/-- All calls keep the entries just if not too many of them create a path. -/
theorem Counted.allFit_keeps_iff {n : Nat} (h : Counted n r) (hsound : r.Sound)
    (hn : n ≤ maxCreations r.manager.perspective) (events : List PathCall) :
    AllFit PathRun.step Keeps r events ↔
      n + r.creations events ≤ maxCreations r.manager.perspective := by
  induction events generalizing n r with
  | nil => exact ⟨fun _ => hn, fun _ => .nil⟩
  | cons e events ih =>
    have hhead := h.keeps_iff hsound hn e
    have hsum : n + r.creations (e :: events) =
        n + (if r.creates e then 1 else 0) + (r.step e).creations events :=
      (Nat.add_assoc _ _ _).symm
    rw [hsum]
    have htail := ih (h.step e) (hsound.step h.nxt_parity e)
    rw [step_perspective] at htail
    constructor
    · intro hfit
      refine (htail ?_).mp hfit.tail
      have hlt := hhead.mp hfit.head
      split
      · rename_i hcreates
        exact hlt hcreates
      · exact hn
    · intro hle
      have hle' : n + (if r.creates e then 1 else 0) ≤ maxCreations r.manager.perspective :=
        Nat.le_of_add_right_le hle
      refine .cons (hhead.mpr fun hcreates => ?_) ((htail hle').mpr hle)
      rw [if_pos hcreates] at hle'
      exact hle'

/-- Every state of a run is counted and sound. -/
theorem exists_counted (perspective : Perspective) (conn : Conn) (events : List PathCall) :
    ∃ n, Counted n (run step (setup perspective conn) events) ∧
      (run step (setup perspective conn) events).Sound := by
  refine run_inv (fun _ _ => True)
    (fun _ r => ∃ n, Counted n r ∧ r.Sound) ?_ events [] _
    ⟨0, counted_setup perspective conn, sound_setup perspective conn⟩ fun _ _ _ _ => trivial
  rintro past r e ⟨n, hcounted, hsound⟩ -
  exact ⟨_, hcounted.step e, hsound.step hcounted.nxt_parity e⟩

/-- In a run, no entry of the path table is ever replaced, the IDs that are created locally are
odd on the client and even on the server, and the entries of `createPath` have different
address pairs, just if at most 128 calls on the client, or 127 on the server, create a path with
an ID of this side. -/
theorem path_identities_iff (perspective : Perspective) (conn : Conn) (events : List PathCall) :
    (AllFit step Keeps (setup perspective conn) events ∧
      ∀ before after, events = before ++ after →
        (run step (setup perspective conn) before).LocalIds ∧
          (run step (setup perspective conn) before).DistinctPairs) ↔
      (setup perspective conn).creations events ≤ maxCreations perspective := by
  have hkeeps := (counted_setup perspective conn).allFit_keeps_iff (sound_setup perspective conn)
    (Nat.zero_le _) events
  rw [Nat.zero_add] at hkeeps
  constructor
  · intro h
    exact hkeeps.mp h.1
  intro h
  refine ⟨hkeeps.mpr h, fun before after _ => ?_⟩
  obtain ⟨n, -, hsound⟩ := exists_counted perspective conn before
  exact ⟨hsound.localIds, hsound.distinctPairs⟩

/-- Every address pair that no path has had creates a path. -/
theorem creations_of_new {conns : List Conn} (hnodup : conns.Nodup)
    (hnew : ∀ conn ∈ conns, ∀ pth ∈ r.manager.objects, pth.conn ≠ conn) :
    r.creations (conns.map .createPath) = conns.length := by
  induction conns generalizing r with
  | nil => rfl
  | cons conn conns ih =>
    obtain ⟨hhead, htail⟩ := nodup_cons.mp hnodup
    have hconn : r.manager.hasConn conn = false := by
      unfold hasConn
      rw [any_eq_false]
      intro entry _ heq
      obtain ⟨pth, hpth, hpair⟩ := Option.map_eq_some_iff.mp (beq_iff_eq.mp heq)
      exact hnew conn mem_cons_self pth (mem_of_getElem? hpth) hpair
    have hcreates : r.creates (.createPath conn) = true := by
      simp [creates, hconn]
    have hobjects : (r.step (.createPath conn)).manager.objects =
        r.manager.objects ++ [Path.setup r.manager.nxtPathID conn] := by
      simp [step, createPath, hconn, addPath]
    rw [map_cons, creations, if_pos hcreates, length_cons, ih htail, Nat.add_comm]
    intro conn' hconn' pth hpth
    rw [hobjects, mem_append, mem_singleton] at hpth
    rcases hpth with hold | rfl
    · exact hnew conn' (mem_cons_of_mem conn hconn') pth hold
    rintro rfl
    exact hhead hconn'

/-- `n` address pairs. -/
def addresses (n : Nat) : List Conn :=
  (List.range n).map fun k => ⟨"local", String.ofList (List.replicate k '1')⟩

theorem nodup_addresses (n : Nat) : (addresses n).Nodup := by
  apply List.Nodup.map _ nodup_range
  intro k k' h
  have hlength := congrArg (fun conn => conn.remoteAddr.length) h
  simpa using hlength

/-- The address pairs are not the one of the initial path. -/
theorem addresses_new (perspective : Perspective) (n : Nat) : ∀ conn ∈ addresses n,
    ∀ pth ∈ (setup perspective ⟨"any", "remote"⟩).manager.objects, pth.conn ≠ conn := by
  intro conn hconn pth hpth heq
  obtain ⟨k, -, rfl⟩ := mem_map.mp hconn
  obtain rfl : pth = Path.setup 0 ⟨"any", "remote"⟩ := mem_singleton.mp hpth
  have haddr : "any" = "local" := congrArg Conn.localAddr heq
  exact absurd haddr (by decide)

/-- The 128th path of a server replaces the initial path, and the 129th path of a client the
first one. -/
theorem initial_path_overwritten :
    ¬ AllFit step Keeps (setup .server ⟨"any", "remote"⟩) ((addresses 128).map .createPath) ∧
      ¬ AllFit step Keeps (setup .client ⟨"any", "remote"⟩) ((addresses 129).map .createPath) := by
  have hlength : ∀ n, (addresses n).length = n := fun n => by simp [addresses]
  constructor
  · rw [(counted_setup _ _).allFit_keeps_iff (sound_setup _ _) (Nat.zero_le _),
      creations_of_new (nodup_addresses 128) (addresses_new _ _), hlength]
    exact Nat.not_succ_le_self 127
  · rw [(counted_setup _ _).allFit_keeps_iff (sound_setup _ _) (Nat.zero_le _),
      creations_of_new (nodup_addresses 129) (addresses_new _ _), hlength]
    exact Nat.not_succ_le_self 128

end PathRun

end RlncStreaming.Quic
