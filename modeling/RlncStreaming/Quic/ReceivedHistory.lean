import RlncStreaming.Lib.Runs
import RlncStreaming.Quic.AckFrames

/-!
The history of received packet numbers (`ackhandler`: `received_packet_history.go`).

The numbers are kept as a list of intervals in ascending order. A new number is placed by a
walk from the back, which extends an interval, merges it with the one before it, or inserts
a new one; a deletion walks from the front and may cut an interval. Both keep the intervals
canonical, and they change the set of numbers exactly as they should
(`insertFromBack_spec`, `deleteFrom_spec`), so that the history is the set of the numbers
received since the last deletion that reached them (`history_exact`).
-/

namespace RlncStreaming.Quic

open List

/-! ### The history -/

/-- The packet numbers from `start` to `stop`. -/
structure PacketInterval where
  start : Nat
  stop : Nat
deriving DecidableEq, Repr

/-- The intervals stand from the front of the list to its back. -/
structure ReceivedPacketHistory where
  ranges : List PacketInterval
  lowestInReceivedPacketNumbers : Nat
deriving DecidableEq, Repr

inductive HistoryError where
  | tooManyOutstandingReceivedAckRanges
deriving DecidableEq, Repr

def maxTrackedReceivedAckRanges : Nat := 2500

def newReceivedPacketHistory : ReceivedPacketHistory := ⟨[], 0⟩

/-- An interval was extended: it is merged with the interval before it if the two touch. -/
def mergePrev (el : PacketInterval) : List PacketInterval → List PacketInterval
  | [] => [el]
  | prev :: before =>
    if add64 prev.stop 1 = el.start then ⟨prev.start, el.stop⟩ :: before
    else el :: prev :: before

/-- The loop of `ReceivedPacket`, over the intervals from the back to the front. -/
def insertFromBack (p : Nat) : List PacketInterval → List PacketInterval
  | [] => [⟨p, p⟩]
  | el :: before =>
    if el.start ≤ p ∧ p ≤ el.stop then el :: before
    else if el.stop = sub64 p 1 then mergePrev ⟨el.start, p⟩ before
    else if el.start = add64 p 1 then mergePrev ⟨p, el.stop⟩ before
    else if el.stop < p then ⟨p, p⟩ :: el :: before
    else el :: insertFromBack p before

/-- The loop of `DeleteUpTo`, over the intervals from the front to the back. -/
def deleteFrom (p : Nat) : List PacketInterval → List PacketInterval
  | [] => []
  | el :: after =>
    if el.start ≤ p ∧ p < el.stop then ⟨add64 p 1, el.stop⟩ :: deleteFrom p after
    else if el.stop ≤ p then deleteFrom p after
    else el :: after

namespace ReceivedPacketHistory

variable (h : ReceivedPacketHistory)

/-- `ReceivedPacket`. -/
def receivedPacket (p : Nat) : Except HistoryError ReceivedPacketHistory :=
  if maxTrackedReceivedAckRanges ≤ h.ranges.length then
    .error .tooManyOutstandingReceivedAckRanges
  else if h.ranges.length = 0 then .ok { h with ranges := [⟨p, p⟩] }
  else .ok { h with ranges := (insertFromBack p h.ranges.reverse).reverse }

/-- `DeleteUpTo`. -/
def deleteUpTo (p : Nat) : ReceivedPacketHistory :=
  ⟨deleteFrom p h.ranges, max h.lowestInReceivedPacketNumbers (add64 p 1)⟩

/-- `GetAckRanges`. -/
def getAckRanges : List AckRange :=
  h.ranges.reverse.map fun el => ⟨el.start, el.stop⟩

/-- `GetHighestAckRange`. -/
def getHighestAckRange : AckRange :=
  match h.ranges.getLast? with
  | some el => ⟨el.start, el.stop⟩
  | none => ⟨0, 0⟩

end ReceivedPacketHistory

/-! ### Canonical intervals -/

/-- Number `n` lies in one of the intervals. -/
def Covers (ranges : List PacketInterval) (n : Nat) : Prop :=
  ∃ el ∈ ranges, el.start ≤ n ∧ n ≤ el.stop

/-- The intervals hold packet numbers, none is empty, and between two of them at least one
number is missing. -/
structure Canonical (ranges : List PacketInterval) : Prop where
  nonempty : ∀ el ∈ ranges, el.start ≤ el.stop
  apart : ranges.Pairwise fun el next => el.stop + 1 < next.start
  range : ∀ el ∈ ranges, 1 ≤ el.start ∧ el.stop < 2 ^ 64

variable {ranges before after : List PacketInterval} {el : PacketInterval} {p n : Nat}

@[simp] theorem not_covers_nil : ¬ Covers [] n := by simp [Covers]

@[simp] theorem covers_cons : Covers (el :: ranges) n ↔
    (el.start ≤ n ∧ n ≤ el.stop) ∨ Covers ranges n := by
  simp [Covers]

@[simp] theorem covers_reverse : Covers ranges.reverse n ↔ Covers ranges n := by
  simp [Covers]

/-- The same from the back to the front. -/
structure CanonicalBack (ranges : List PacketInterval) : Prop where
  nonempty : ∀ el ∈ ranges, el.start ≤ el.stop
  apart : ranges.Pairwise fun el prev => prev.stop + 1 < el.start
  range : ∀ el ∈ ranges, 1 ≤ el.start ∧ el.stop < 2 ^ 64

theorem canonicalBack_reverse : CanonicalBack ranges.reverse ↔ Canonical ranges := by
  constructor
  · rintro ⟨hne, hapart, hrange⟩
    exact ⟨fun el hel => hne el (mem_reverse.mpr hel), pairwise_reverse.mp hapart,
      fun el hel => hrange el (mem_reverse.mpr hel)⟩
  · rintro ⟨hne, hapart, hrange⟩
    exact ⟨fun el hel => hne el (mem_reverse.mp hel), pairwise_reverse.mpr hapart,
      fun el hel => hrange el (mem_reverse.mp hel)⟩

namespace CanonicalBack

/-- An interval behind canonical ones that leaves a number out before it starts. -/
theorem cons (hbefore : CanonicalBack before) (hne : el.start ≤ el.stop) (hstart : 1 ≤ el.start)
    (hstop : el.stop < 2 ^ 64) (hapart : ∀ n, Covers before n → n + 1 < el.start) :
    CanonicalBack (el :: before) := by
  refine ⟨forall_mem_cons.mpr ⟨hne, hbefore.nonempty⟩, .cons ?_ hbefore.apart,
    forall_mem_cons.mpr ⟨⟨hstart, hstop⟩, hbefore.range⟩⟩
  intro prev hprev
  exact hapart prev.stop ⟨prev, hprev, hbefore.nonempty prev hprev, Nat.le_refl _⟩

theorem tail (h : CanonicalBack (el :: before)) : CanonicalBack before :=
  ⟨fun prev hprev => h.nonempty prev (mem_cons_of_mem el hprev),
    (pairwise_cons.mp h.apart).2, fun prev hprev => h.range prev (mem_cons_of_mem el hprev)⟩

theorem head (h : CanonicalBack (el :: before)) : el.start ≤ el.stop ∧ 1 ≤ el.start ∧
    el.stop < 2 ^ 64 ∧ ∀ n, Covers before n → n + 1 < el.start := by
  have hrange := h.range el mem_cons_self
  refine ⟨h.nonempty el mem_cons_self, hrange.1, hrange.2, ?_⟩
  rintro n ⟨prev, hprev, -, hle⟩
  have hapart := (pairwise_cons.mp h.apart).1 prev hprev
  omega

end CanonicalBack

/-! ### Insertion -/

theorem mergePrev_spec (el : PacketInterval) (hbefore : CanonicalBack before)
    (hne : el.start ≤ el.stop) (hstart : 1 ≤ el.start) (hstop : el.stop < 2 ^ 64)
    (hbelow : ∀ n, Covers before n → n < el.start) :
    CanonicalBack (mergePrev el before) ∧
      ∀ n, Covers (mergePrev el before) n ↔ (el.start ≤ n ∧ n ≤ el.stop) ∨ Covers before n := by
  cases before with
  | nil => exact ⟨hbefore.cons hne hstart hstop (by simp), by simp [mergePrev]⟩
  | cons prev before =>
    obtain ⟨hprevne, hprevstart, -, hprevapart⟩ := hbefore.head
    have hprev := hbelow prev.stop (covers_cons.mpr (.inl ⟨hprevne, Nat.le_refl _⟩))
    rw [mergePrev, add64_of_lt (by omega)]
    split
    · next htouch =>
      refine ⟨hbefore.tail.cons (by simp only; omega) hprevstart hstop hprevapart, fun n => ?_⟩
      rw [covers_cons, covers_cons, ← or_assoc]
      refine or_congr_left ?_
      simp only
      omega
    · next hgap =>
      refine ⟨hbefore.cons hne hstart hstop fun n hn => ?_, fun n => covers_cons⟩
      rcases covers_cons.mp hn with hprevn | hn
      · omega
      have hlt := hprevapart n hn
      omega

/-- Insertion adds exactly the number that was received. -/
theorem insertFromBack_spec (hp : 1 ≤ p) (hp64 : p < 2 ^ 64) (h : CanonicalBack ranges) :
    CanonicalBack (insertFromBack p ranges) ∧
      ∀ n, Covers (insertFromBack p ranges) n ↔ n = p ∨ Covers ranges n := by
  induction ranges with
  | nil =>
    refine ⟨h.cons (Nat.le_refl p) hp hp64 (by simp), fun n => ?_⟩
    simp only [insertFromBack, covers_cons, not_covers_nil, or_false]
    omega
  | cons el before ih =>
    obtain ⟨hne, hstart, hstop, hapart⟩ := h.head
    have hbelow : ∀ n, Covers before n → n < el.start := fun n hn => by
      have := hapart n hn
      omega
    rw [insertFromBack, sub64_of_le hp]
    split
    · refine ⟨h, fun n => ?_⟩
      rw [covers_cons, ← or_assoc]
      exact or_congr_left (by omega)
    rename_i hout
    split
    · next hend =>
      obtain ⟨hcanonical, hcovers⟩ :=
        mergePrev_spec ⟨el.start, p⟩ h.tail (by simp only; omega) hstart hp64 hbelow
      refine ⟨hcanonical, fun n => ?_⟩
      rw [hcovers, covers_cons, ← or_assoc]
      exact or_congr_left (by simp only; omega)
    rename_i hend
    split
    · next hbegin =>
      -- The successor of the largest number wraps to zero, where no interval starts.
      have hnext : el.start = p + 1 := by
        rw [add64] at hbegin
        omega
      obtain ⟨hcanonical, hcovers⟩ :=
        mergePrev_spec ⟨p, el.stop⟩ h.tail (by simp only; omega) hp hstop fun n hn => by
          have := hapart n hn
          simp only
          omega
      refine ⟨hcanonical, fun n => ?_⟩
      rw [hcovers, covers_cons, ← or_assoc]
      exact or_congr_left (by simp only; omega)
    · next hbegin =>
      split
      · next hlater =>
        refine ⟨h.cons (Nat.le_refl p) hp hp64 fun n hn => ?_, fun n => ?_⟩
        · rcases covers_cons.mp hn with hhere | hn
          · simp only
            omega
          · have := hapart n hn
            simp only
            omega
        · rw [covers_cons]
          exact or_congr_left (by simp only; omega)
      · next hearlier =>
        have hsucc : el.start ≠ p + 1 := by
          intro heq
          rw [add64_of_lt (by omega)] at hbegin
          exact hbegin heq
        obtain ⟨hcanonical, hcovers⟩ := ih h.tail
        refine ⟨hcanonical.cons hne hstart hstop fun n hn => ?_, fun n => ?_⟩
        · rcases (hcovers n).mp hn with rfl | hn
          · omega
          · exact hapart n hn
        · rw [covers_cons, covers_cons, hcovers, or_left_comm]

/-! ### Deletion -/

namespace Canonical

/-- An interval before canonical ones that leaves a number out after it stops. -/
theorem cons (hafter : Canonical after) (hne : el.start ≤ el.stop) (hstart : 1 ≤ el.start)
    (hstop : el.stop < 2 ^ 64) (hapart : ∀ n, Covers after n → el.stop + 1 < n) :
    Canonical (el :: after) := by
  refine ⟨forall_mem_cons.mpr ⟨hne, hafter.nonempty⟩, .cons ?_ hafter.apart,
    forall_mem_cons.mpr ⟨⟨hstart, hstop⟩, hafter.range⟩⟩
  intro next hnext
  exact hapart next.start ⟨next, hnext, Nat.le_refl _, hafter.nonempty next hnext⟩

theorem tail (h : Canonical (el :: after)) : Canonical after :=
  ⟨fun next hnext => h.nonempty next (mem_cons_of_mem el hnext),
    (pairwise_cons.mp h.apart).2, fun next hnext => h.range next (mem_cons_of_mem el hnext)⟩

theorem head (h : Canonical (el :: after)) : el.start ≤ el.stop ∧ 1 ≤ el.start ∧
    el.stop < 2 ^ 64 ∧ ∀ n, Covers after n → el.stop + 1 < n := by
  have hrange := h.range el mem_cons_self
  refine ⟨h.nonempty el mem_cons_self, hrange.1, hrange.2, ?_⟩
  rintro n ⟨next, hnext, hle, -⟩
  have hapart := (pairwise_cons.mp h.apart).1 next hnext
  omega

end Canonical

/-- Deletion removes exactly the numbers up to `p`. -/
theorem deleteFrom_spec (h : Canonical ranges) : Canonical (deleteFrom p ranges) ∧
    ∀ n, Covers (deleteFrom p ranges) n ↔ p < n ∧ Covers ranges n := by
  induction ranges with
  | nil => exact ⟨h, by simp [deleteFrom]⟩
  | cons el after ih =>
    obtain ⟨hne, hstart, hstop, hapart⟩ := h.head
    obtain ⟨hcanonical, hcovers⟩ := ih h.tail
    rw [deleteFrom]
    split
    · next hcut =>
      rw [add64_of_lt (by omega)]
      refine ⟨hcanonical.cons (by simp only; omega) (by simp only; omega) hstop fun n hn => ?_,
        fun n => ?_⟩
      · exact hapart n ((hcovers n).mp hn).2
      rw [covers_cons, covers_cons, hcovers, and_or_left]
      exact or_congr_left (by simp only; omega)
    · split
      · refine ⟨hcanonical, fun n => ?_⟩
        rw [covers_cons, hcovers, and_or_left, or_iff_right (by omega)]
      refine ⟨h, fun n => (and_iff_right_of_imp fun hn => ?_).symm⟩
      -- What is left starts above `p`.
      rcases covers_cons.mp hn with hhere | hn
      · omega
      have := hapart n hn
      omega

/-! ### Calls -/

namespace ReceivedPacketHistory

theorem receivedPacket_eq {h : ReceivedPacketHistory}
    (hlen : h.ranges.length < maxTrackedReceivedAckRanges) :
    h.receivedPacket p = .ok { h with ranges := (insertFromBack p h.ranges.reverse).reverse } := by
  rw [receivedPacket, if_neg (Nat.not_le.mpr hlen)]
  split
  · next hnil => rw [length_eq_zero_iff.mp hnil]; rfl
  · rfl

theorem receivedPacket_spec {h h' : ReceivedPacketHistory} (hp : 1 ≤ p) (hp64 : p < 2 ^ 64)
    (hranges : Canonical h.ranges) (hcall : h.receivedPacket p = .ok h') :
    Canonical h'.ranges ∧ ∀ n, Covers h'.ranges n ↔ n = p ∨ Covers h.ranges n := by
  have hlen : h.ranges.length < maxTrackedReceivedAckRanges := by
    refine Nat.not_le.mp fun hfull => ?_
    rw [receivedPacket, if_pos hfull] at hcall
    cases hcall
  rw [receivedPacket_eq hlen] at hcall
  cases hcall
  obtain ⟨hcanonical, hcovers⟩ := insertFromBack_spec hp hp64 (canonicalBack_reverse.mpr hranges)
  refine ⟨?_, fun n => ?_⟩
  · rw [← canonicalBack_reverse, reverse_reverse]
    exact hcanonical
  · rw [covers_reverse, hcovers, covers_reverse]

theorem deleteUpTo_spec {h : ReceivedPacketHistory} (hranges : Canonical h.ranges) :
    Canonical (h.deleteUpTo p).ranges ∧
      ∀ n, Covers (h.deleteUpTo p).ranges n ↔ p < n ∧ Covers h.ranges n :=
  deleteFrom_spec hranges

end ReceivedPacketHistory

inductive HistoryCall where
  | receivedPacket (p : Nat)
  | deleteUpTo (p : Nat)
deriving DecidableEq, Repr

namespace HistoryCall

/-- A call that returns an error leaves the history as it is. -/
def step (h : ReceivedPacketHistory) : HistoryCall → ReceivedPacketHistory
  | receivedPacket p => (h.receivedPacket p).toOption.getD h
  | deleteUpTo p => h.deleteUpTo p

/-- The arguments are packet numbers, a received one is not zero, and the history has room. -/
def Fit (h : ReceivedPacketHistory) : HistoryCall → Prop
  | receivedPacket p => 1 ≤ p ∧ p < 2 ^ 64 ∧ h.ranges.length < maxTrackedReceivedAckRanges
  | deleteUpTo p => p < 2 ^ 64

instance (h : ReceivedPacketHistory) : (call : HistoryCall) → Decidable (call.Fit h)
  | receivedPacket p => inferInstanceAs
      (Decidable (1 ≤ p ∧ p < 2 ^ 64 ∧ h.ranges.length < maxTrackedReceivedAckRanges))
  | deleteUpTo p => inferInstanceAs (Decidable (p < 2 ^ 64))

/-- Number `n` was received, and no later deletion reached it. -/
def Outstanding (calls : List HistoryCall) (n : Nat) : Prop :=
  ∃ before after, calls = before ++ receivedPacket n :: after ∧ ∀ q, deleteUpTo q ∈ after → q < n

theorem outstanding_snoc {calls : List HistoryCall} {call : HistoryCall} :
    Outstanding (calls ++ [call]) n ↔
      call = receivedPacket n ∨ Outstanding calls n ∧ ∀ q, call = deleteUpTo q → q < n := by
  constructor
  · rintro ⟨before, after, hcalls, hafter⟩
    rcases eq_nil_or_concat after with rfl | ⟨rest, last, rfl⟩
    · exact .inl (cons.inj (append_inj_right' hcalls rfl)).1
    rw [concat_eq_append] at hcalls hafter
    rw [← cons_append, ← append_assoc] at hcalls
    obtain ⟨hbefore, hlast⟩ := append_inj' hcalls rfl
    obtain rfl : call = last := (cons.inj hlast).1
    refine .inr ⟨⟨before, rest, hbefore, fun q hq => hafter q (mem_append_left _ hq)⟩, ?_⟩
    rintro q rfl
    exact hafter q (by simp)
  · rintro (rfl | ⟨⟨before, after, rfl, hafter⟩, hcall⟩)
    · exact ⟨calls, [], rfl, by simp⟩
    refine ⟨before, after ++ [call], by simp, fun q hq => ?_⟩
    rcases mem_append.mp hq with hq | hq
    · exact hafter q hq
    · exact hcall q (mem_singleton.mp hq).symm

end HistoryCall

open Lib HistoryCall

/-- The intervals are canonical and hold the outstanding numbers. -/
structure Exact (calls : List HistoryCall) (h : ReceivedPacketHistory) : Prop where
  canonical : Canonical h.ranges
  covers : ∀ n, Covers h.ranges n ↔ Outstanding calls n

theorem Exact.step {calls : List HistoryCall} {h : ReceivedPacketHistory} {call : HistoryCall}
    (hexact : Exact calls h) (hfit : call.Fit h) : Exact (calls ++ [call]) (step h call) := by
  obtain ⟨hcanonical, hcovers⟩ := hexact
  cases call with
  | receivedPacket p =>
    obtain ⟨hp, hp64, hlen⟩ := hfit
    have hcall := ReceivedPacketHistory.receivedPacket_eq (p := p) hlen
    obtain ⟨hcanonical', hcovers'⟩ :=
      ReceivedPacketHistory.receivedPacket_spec hp hp64 hcanonical hcall
    rw [HistoryCall.step, hcall]
    refine ⟨hcanonical', fun n => (hcovers' n).trans ?_⟩
    rw [hcovers, outstanding_snoc]
    simp [eq_comm]
  | deleteUpTo p =>
    obtain ⟨hcanonical', hcovers'⟩ := ReceivedPacketHistory.deleteUpTo_spec (p := p) hcanonical
    refine ⟨hcanonical', fun n => (hcovers' n).trans ?_⟩
    rw [hcovers, outstanding_snoc]
    simp [and_comm]

/-- **The history is an exact set.** After any calls that meet a history with room, the
intervals are in order, not empty and apart, and they hold exactly the numbers received since
the last deletion that reached them. The ranges of an ACK frame are the same intervals from
the highest to the lowest. -/
theorem history_exact (calls : List HistoryCall)
    (hfit : AllFit HistoryCall.step (fun h call => call.Fit h) newReceivedPacketHistory calls) :
    let h := run step newReceivedPacketHistory calls
    (∀ el ∈ h.ranges, el.start ≤ el.stop) ∧
      h.ranges.Pairwise (fun el next => el.stop + 1 < next.start) ∧
      (∀ n, (∃ el ∈ h.ranges, el.start ≤ n ∧ n ≤ el.stop) ↔ Outstanding calls n) ∧
      h.getAckRanges.reverse = h.ranges.map (fun el => ⟨el.start, el.stop⟩) ∧
      h.getAckRanges.Pairwise (fun above r => r.last + 1 < above.first) := by
  intro h
  have hinit : Exact [] newReceivedPacketHistory :=
    ⟨⟨by simp [newReceivedPacketHistory], .nil, by simp [newReceivedPacketHistory]⟩,
      by simp [newReceivedPacketHistory, Outstanding]⟩
  have hexact := run_inv _ Exact (fun _ _ _ hexact hfit => hexact.step hfit) calls []
    newReceivedPacketHistory hinit hfit
  refine ⟨hexact.canonical.nonempty, hexact.canonical.apart, hexact.covers, ?_, ?_⟩
  · rw [ReceivedPacketHistory.getAckRanges, ← map_reverse, reverse_reverse]
  rw [ReceivedPacketHistory.getAckRanges, pairwise_map, pairwise_reverse]
  exact hexact.canonical.apart

/-- Numbers out of order and twice, a merge, and a deletion that cuts an interval. -/
theorem history_exact_reordered :
    run HistoryCall.step newReceivedPacketHistory
        [.receivedPacket 5, .receivedPacket 3, .receivedPacket 9, .receivedPacket 4,
          .receivedPacket 5, .deleteUpTo 3] = ⟨[⟨4, 5⟩, ⟨9, 9⟩], 4⟩ ∧
      ∀ n, (∃ el ∈ [PacketInterval.mk 4 5, PacketInterval.mk 9 9], el.start ≤ n ∧ n ≤ el.stop) ↔
        Outstanding [.receivedPacket 5, .receivedPacket 3, .receivedPacket 9, .receivedPacket 4,
          .receivedPacket 5, .deleteUpTo 3] n := by
  refine ⟨by decide, (history_exact [.receivedPacket 5, .receivedPacket 3, .receivedPacket 9,
    .receivedPacket 4, .receivedPacket 5, .deleteUpTo 3] ?_).2.2.1⟩
  exact .cons (by decide) (.cons (by decide) (.cons (by decide) (.cons (by decide)
    (.cons (by decide) (.cons (by decide) .nil)))))

end RlncStreaming.Quic
