import Mathlib.Algebra.Group.Nat.Defs
import Mathlib.Data.List.Basic

/-!
The paths of a session and their packet numbers (`path.go`, `path_manager.go`,
`packet_number_generator.go`).

A path is an object of its own: `createPath` may overwrite an entry of the session's path
table once the 8-bit path ids are used up, and the path that was there before lives on in
its goroutine. So `objects` lists every path ever set up, and the table refers to them by
position. Creating paths leaves the existing ones as they are (`Extends`). A new generator has 0
as the number to skip, which it does not meet (`pops_eq_range'`).
-/

namespace RlncStreaming.Quic

/-! ### Packet numbers -/

/-- `packetNumberGenerator`, with 64-bit numbers. -/
structure PacketNumberGenerator where
  averagePeriod : Nat
  next : Nat
  nextToSkip : Nat
deriving DecidableEq, Repr

/-- `protocol.SkipPacketAveragePeriodLength`. -/
def skipPacketAveragePeriodLength : Nat := 500

def newPacketNumberGenerator (averagePeriod : Nat) : PacketNumberGenerator := ⟨averagePeriod, 1, 0⟩

namespace PacketNumberGenerator

section

variable (p : PacketNumberGenerator)

def peek : Nat := p.next

/-- `generateNewSkip`. The random 16-bit number is `none` if the source of randomness
fails; the error is dropped by the caller. -/
def generateNewSkip (num : Option Nat) : PacketNumberGenerator :=
  match num with
  | none => p
  | some num =>
    let period := if p.averagePeriod = 0 then 2 ^ 64 - 1 else p.averagePeriod - 1
    let skip := num * period % 2 ^ 64 / (65535 / 2)
    { p with nextToSkip := (p.next + 2 + skip) % 2 ^ 64 }

/-- `Pop`: the number, and the generator after the call. -/
def pop (num : Option Nat) : Nat × PacketNumberGenerator :=
  let next := p.next
  let p := { p with next := (p.next + 1) % 2 ^ 64 }
  if p.next = p.nextToSkip then
    (next, { p with next := (p.next + 1) % 2 ^ 64 }.generateNewSkip num)
  else (next, p)

end

variable {p : PacketNumberGenerator} {num : Option Nat}

@[simp] theorem generateNewSkip_next : (p.generateNewSkip num).next = p.next := by
  cases num with
  | none => rfl
  | some num => rfl

@[simp] theorem pop_fst : (p.pop num).1 = p.next := by
  rw [pop]
  split <;> rfl

/-- Short of the 64-bit range the next number is a greater one. -/
theorem lt_pop_next (h : p.next + 2 < 2 ^ 64) :
    p.next < (p.pop num).2.next ∧ (p.pop num).2.next < 2 ^ 64 := by
  have hone : (p.next + 1) % 2 ^ 64 = p.next + 1 := Nat.mod_eq_of_lt (by omega)
  have htwo : (p.next + 1 + 1) % 2 ^ 64 = p.next + 1 + 1 := Nat.mod_eq_of_lt (by omega)
  simp only [pop, hone, htwo]
  split
  · rw [generateNewSkip_next]
    simp only
    omega
  · simp only
    omega

/-! ### Skipped numbers -/

/-- The numbers of successive calls of `Pop`, with what the source of randomness has for each. -/
def pops : PacketNumberGenerator → List Nat → List Nat
  | _, [] => []
  | p, num :: nums => (p.pop (some num)).1 :: pops (p.pop (some num)).2 nums

/-- The numbers rise, no two in a row are left out, and so many calls leave out at least one. -/
structure Defends (averagePeriod : Nat) (numbers : List Nat) : Prop where
  increasing : numbers.Pairwise (· < ·)
  apart : numbers.IsChain fun a b => b ≤ a + 2
  recurs : ∀ window, window <:+: numbers → window.length = 3 * averagePeriod + 3 →
    ¬ window.IsChain fun a b => b = a + 1

theorem pop_next_lt : (p.pop num).2.next < 2 ^ 64 := by
  rw [pop]
  split
  · rw [generateNewSkip_next]
    exact Nat.mod_lt _ (by decide)
  · exact Nat.mod_lt _ (by decide)

/-- Numbers that rise have not wrapped around. -/
theorem length_of_increasing {nums : List Nat} (h : p.next < 2 ^ 64)
    (hpops : (p.pops nums).Pairwise (· < ·)) : p.next + nums.length ≤ 2 ^ 64 := by
  induction nums generalizing p with
  | nil => exact Nat.le_of_lt h
  | cons num nums ih =>
    rw [pops, pop_fst, List.pairwise_cons] at hpops
    have hle := ih pop_next_lt hpops.2
    cases nums with
    | nil => exact h
    | cons num' nums =>
      have hlt := hpops.1 (p.pop (some num)).2.next (by simp [pops])
      simp only [List.length_cons] at hle ⊢
      omega

/-- The number to skip is 0 at first. It is not met before the numbers wrap around. -/
theorem pops_eq_range' {averagePeriod next : Nat} {nums : List Nat}
    (h : next + nums.length ≤ 2 ^ 64) :
    pops ⟨averagePeriod, next, 0⟩ nums = List.range' next nums.length := by
  induction nums generalizing next with
  | nil => rfl
  | cons num nums ih =>
    rw [List.length_cons] at h
    rw [pops, pop_fst, List.length_cons, List.range'_succ]
    cases nums with
    | nil => rfl
    | cons num' nums =>
      rw [List.length_cons] at h
      have hnext : (next + 1) % 2 ^ 64 = next + 1 := Nat.mod_eq_of_lt (by omega)
      simp only [pop, hnext, Nat.add_eq_zero_iff, Nat.one_ne_zero, and_false, if_false]
      rw [ih (by rw [List.length_cons]; omega)]

/-- A new generator leaves out no number, so it defends only the runs that are too short for it. -/
theorem new_defends_iff (averagePeriod : Nat) (nums : List Nat) :
    Defends averagePeriod ((newPacketNumberGenerator averagePeriod).pops nums) ↔
      nums.length < 3 * averagePeriod + 3 ∧ nums.length < 2 ^ 64 := by
  have hrange := @pops_eq_range' averagePeriod 1 nums
  constructor
  · intro h
    have hsize : 1 + nums.length ≤ 2 ^ 64 :=
      length_of_increasing (show 1 < 2 ^ 64 by decide) h.increasing
    refine ⟨Nat.lt_of_not_le fun hle => ?_, by omega⟩
    obtain ⟨n, hn⟩ := Nat.exists_eq_add_of_le hle
    refine h.recurs (List.range' 1 (3 * averagePeriod + 3)) ?_ List.length_range' ?_
    · rw [newPacketNumberGenerator, hrange (by omega), hn,
        ← List.range'_append (m := 3 * averagePeriod + 3)]
      exact (List.prefix_append _ _).isInfix
    · exact List.isChain_range' _ _ _
  · rintro ⟨hshort, hsize⟩
    rw [newPacketNumberGenerator, hrange (by omega)]
    refine ⟨List.pairwise_lt_range', ?_, fun window hwindow hlen => ?_⟩
    · exact (List.isChain_range' 1 nums.length 1).imp fun a b h => by omega
    have := hwindow.length_le
    rw [List.length_range'] at this
    omega

/-- Nine calls with an average period of two. -/
theorem new_leaves_out_none :
    ¬ Defends 2 ((newPacketNumberGenerator 2).pops (List.replicate 9 0)) :=
  fun h => h.recurs [1, 2, 3, 4, 5, 6, 7, 8, 9] ⟨[], [], rfl⟩ rfl (by decide)

end PacketNumberGenerator

/-! ### Paths -/

inductive Perspective where
  | server
  | client
deriving DecidableEq, Repr

/-- The local and the remote address of a connection, as the strings that are compared. -/
structure Conn where
  localAddr : String
  remoteAddr : String
deriving DecidableEq, Repr

/-- `path`: its id, its connection and its packet numbers. -/
structure Path where
  pathID : UInt8
  conn : Conn
  packetNumberGenerator : PacketNumberGenerator
deriving DecidableEq, Repr

/-- A new path after `setup`. -/
def Path.setup (pathID : UInt8) (conn : Conn) : Path :=
  ⟨pathID, conn, newPacketNumberGenerator skipPacketAveragePeriodLength⟩

/-- The path manager with the path table of its session. -/
structure PathManager where
  perspective : Perspective
  /-- Every path that was ever set up. -/
  objects : List Path
  /-- `sess.paths`, with positions in `objects`. -/
  paths : List (UInt8 × Nat)
  nxtPathID : UInt8
deriving DecidableEq, Repr

inductive PathError where
  /-- `trying to create already existing path` -/
  | exists
  /-- `server tries to create odd pathID` -/
  | oddFromServer
  /-- `client tries to create even pathID` -/
  | evenFromClient
deriving DecidableEq, Repr

namespace PathManager

/-- `setup`: the initial path has the id 0. -/
def setup (perspective : Perspective) (conn : Conn) : PathManager :=
  ⟨perspective, [Path.setup 0 conn], [(0, 0)], match perspective with
    | .client => 1
    | .server => 2⟩

section

variable (pm : PathManager)

/-- Set up a path and enter it into the table, over an older entry of the same id. -/
def addPath (pathID : UInt8) (conn : Conn) : PathManager :=
  { pm with
    objects := pm.objects ++ [Path.setup pathID conn]
    paths := (pathID, pm.objects.length) :: pm.paths.filter fun entry => entry.1 ≠ pathID }

/-- A path of the table uses the connection. -/
def hasConn (conn : Conn) : Bool :=
  pm.paths.any fun entry => (pm.objects[entry.2]?.map Path.conn) == some conn

/-- `createPath`, up to the PING frame on the new path. -/
def createPath (conn : Conn) : PathManager :=
  if pm.hasConn conn then pm
  else { pm.addPath pm.nxtPathID conn with nxtPathID := pm.nxtPathID + 2 }

/-- `createPathFromRemote`, for a packet with the given path id. -/
def createPathFromRemote (pathID : UInt8) (conn : Conn) : Except PathError PathManager :=
  if (pm.paths.lookup pathID).isSome then .error .exists
  else if pm.perspective = .client ∧ pathID % 2 ≠ 0 then .error .oddFromServer
  else if pm.perspective = .server ∧ pathID % 2 = 0 then .error .evenFromClient
  else .ok (pm.addPath pathID conn)

/-- Store the packet numbers of a path. -/
def setGenerator (i : Nat) (p : PacketNumberGenerator) : PathManager :=
  { pm with objects := pm.objects.modify i fun pth => { pth with packetNumberGenerator := p } }

end

/-- The paths of `pm` are still there in `pm'`, as they were. -/
def Extends (pm pm' : PathManager) : Prop :=
  ∀ (i : Nat) (pth : Path), pm.objects[i]? = some pth → pm'.objects[i]? = some pth

variable {pm : PathManager} {conn : Conn}

theorem lookup_filter_ne {id id' : UInt8} (h : id' ≠ id) (l : List (UInt8 × Nat)) :
    (l.filter fun entry => entry.1 ≠ id).lookup id' = l.lookup id' := by
  induction l with
  | nil => rfl
  | cons entry l ih =>
    obtain ⟨id₁, i⟩ := entry
    by_cases hid : id₁ = id
    · rw [List.filter_cons_of_neg (by simpa using hid), ih, List.lookup_cons,
        beq_eq_false_iff_ne.mpr (by rw [hid]; exact h)]
    · rw [List.filter_cons_of_pos (by simpa using hid), List.lookup_cons, List.lookup_cons, ih]

section

variable (pm : PathManager)

/-- A new path is found under its id, the others under theirs. -/
theorem lookup_addPath (pathID id : UInt8) :
    (pm.addPath pathID conn).paths.lookup id =
      if id = pathID then some pm.objects.length else pm.paths.lookup id := by
  rw [addPath, List.lookup_cons]
  by_cases h : id = pathID
  · simp [h]
  · rw [if_neg h, beq_eq_false_iff_ne.mpr h, lookup_filter_ne h]

theorem Extends.refl : pm.Extends pm := fun _ _ h => h

theorem extends_addPath (pathID : UInt8) : pm.Extends (pm.addPath pathID conn) := by
  intro i pth h
  rw [addPath, List.getElem?_append_left (List.getElem?_eq_some_iff.mp h).1]
  exact h

theorem extends_createPath : pm.Extends (pm.createPath conn) := by
  rw [createPath]
  split
  · exact .refl pm
  · exact extends_addPath pm pm.nxtPathID

end

section

variable {pm' : PathManager} {pathID : UInt8} (h : pm.createPathFromRemote pathID conn = .ok pm')

include h

/-- What `createPathFromRemote` accepts becomes a path. -/
theorem createPathFromRemote_ok : pm' = pm.addPath pathID conn := by
  rw [createPathFromRemote] at h
  split at h
  · cases h
  split at h
  · cases h
  split at h
  · cases h
  cases h
  rfl

theorem extends_createPathFromRemote : pm.Extends pm' := by
  rw [createPathFromRemote_ok h]
  exact extends_addPath pm pathID

end

theorem setGenerator_self {i : Nat} {pth : Path} (h : pm.objects[i]? = some pth)
    (p : PacketNumberGenerator) :
    (pm.setGenerator i p).objects[i]? = some { pth with packetNumberGenerator := p } := by
  simp [setGenerator, h]

end PathManager

end RlncStreaming.Quic
