import RlncStreaming.Quic.FlowControl

/-!
The receive window of a flow controller over whole runs (`flow_controller.go`).

A window update sets the window to the bytes read and an increment above them. The increment is
doubled when updates come too often, and limited by the configured maximum. The maximum is not
compared with the window that the peer knows already: with a small one the doubling shrinks the
increment, and the window falls back behind what was granted (`receive_window_shrinks`). Where the
maximum reaches up to the window, and nothing overflows, the window never decreases
(`receive_window_monotone`).
-/

namespace RlncStreaming.Quic

open Lib FlowController UInt64

/-- The calls of a flow controller that have to do with receiving. The controller of a stream is
told the offset, the controller of the connection the increment. -/
inductive WindowCall where
  | updateHighestReceived (byteOffset : UInt64)
  | incrementHighestReceived (increment : UInt64)
  | addBytesRead (now : Int) (n : UInt64)
  | ensureMinimumWindowIncrement (inc : UInt64)
  | maybeUpdateWindow (r : WindowReadings)

namespace FlowController

section

variable (c : FlowController)

/-- One call. -/
def call : WindowCall → FlowController
  | .updateHighestReceived byteOffset => (c.updateHighestReceived byteOffset).2
  | .incrementHighestReceived increment => c.incrementHighestReceived increment
  | .addBytesRead now n => c.addBytesRead now n
  | .ensureMinimumWindowIncrement inc => c.ensureMinimumWindowIncrement inc
  | .maybeUpdateWindow r => (c.maybeUpdateWindow r).2.2.2

/-- What is received violates no window, and no more is read than was received. -/
def Legal : WindowCall → Prop
  | .updateHighestReceived byteOffset =>
    (c.updateHighestReceived byteOffset).2.checkFlowControlViolation = false
  | .incrementHighestReceived increment =>
    (c.incrementHighestReceived increment).checkFlowControlViolation = false
  | .addBytesRead _ n => c.bytesRead.toNat + n.toNat ≤ c.highestReceived.toNat
  | _ => True

instance : DecidablePred c.Legal
  | .updateHighestReceived _ => inferInstanceAs (Decidable (_ = _))
  | .incrementHighestReceived _ => inferInstanceAs (Decidable (_ = _))
  | .addBytesRead _ _ => inferInstanceAs (Decidable (_ ≤ _))
  | .ensureMinimumWindowIncrement _ => inferInstanceAs (Decidable True)
  | .maybeUpdateWindow _ => inferInstanceAs (Decidable True)

/-- The window is so far used up that it is updated. -/
def UpdateDue : Prop := c.receiveWindow - c.bytesRead < c.receiveWindowIncrement / 2

/-- Updates come too often: the last one is known, and less than two RTTs ago. -/
def TooOften (r : WindowReadings) : Prop :=
  ∃ last, c.lastWindowUpdateTime = some last ∧ r.smoothedRTT ≠ 0 ∧
    r.now - last < 2 * max r.smoothedRTT (max 0 r.maxRemoteRTT)

/-- If the window is to be updated, then the increment above the bytes read is no overflow; and if
the increment is to be doubled for it, then the maximum reaches up to the window that was granted,
and neither is an overflow. -/
def Fits : WindowCall → Prop
  | .maybeUpdateWindow r => c.UpdateDue →
      (¬ c.TooOften r → c.bytesRead.toNat + c.receiveWindowIncrement.toNat < 2 ^ 64) ∧
        (c.TooOften r →
          2 * c.receiveWindowIncrement.toNat < 2 ^ 64 ∧
            c.receiveWindow.toNat ≤ c.bytesRead.toNat + c.maxReceiveWindowIncrement.toNat ∧
            c.bytesRead.toNat + c.maxReceiveWindowIncrement.toNat < 2 ^ 64)
  | _ => True

/-- Everything read and received is within the window. -/
structure Within : Prop where
  read : c.bytesRead ≤ c.receiveWindow
  received : c.highestReceived ≤ c.receiveWindow

end

variable {c : FlowController} {r : WindowReadings}

/-! ### Single calls -/

/-- The increment after `maybeAdjustWindowIncrement`: as before, or, if updates come too often,
doubled within the maximum. -/
inductive Adjusted (c : FlowController) (r : WindowReadings) : UInt64 → Prop
  | same (rare : ¬ c.TooOften r) : Adjusted c r c.receiveWindowIncrement
  | doubled (often : c.TooOften r)
      (within : 2 * c.receiveWindowIncrement < c.maxReceiveWindowIncrement) :
      Adjusted c r (2 * c.receiveWindowIncrement)
  | limited (often : c.TooOften r) : Adjusted c r c.maxReceiveWindowIncrement

theorem maybeAdjustWindowIncrement_eq (c : FlowController) (r : WindowReadings) :
    ∃ inc, Adjusted c r inc ∧
      c.maybeAdjustWindowIncrement r = { c with receiveWindowIncrement := inc } := by
  unfold maybeAdjustWindowIncrement
  split
  · next hnone =>
    refine ⟨_, .same ?_, rfl⟩
    rintro ⟨last, hsome, -⟩
    cases hnone.symm.trans hsome
  next last htime =>
  split
  · next hzero => exact ⟨_, .same fun ⟨_, _, hrtt, _⟩ => hrtt hzero, rfl⟩
  next hrtt =>
  split
  · next hlong =>
    refine ⟨_, .same ?_, rfl⟩
    rintro ⟨last', htime', -, hshort⟩
    cases htime.symm.trans htime'
    exact Int.not_le.mpr hshort hlong
  next hshort =>
  have hoften : c.TooOften r := ⟨last, htime, hrtt, Int.not_le.mp hshort⟩
  by_cases hwithin : 2 * c.receiveWindowIncrement < c.maxReceiveWindowIncrement
  · exact ⟨_, .doubled hoften hwithin, by simp only [if_pos hwithin]⟩
  · exact ⟨_, .limited hoften, by simp only [if_neg hwithin]⟩

/-- The controller after `MaybeUpdateWindow`. -/
theorem maybeUpdateWindow_eq (c : FlowController) (r : WindowReadings) :
    (¬ c.UpdateDue ∧ (c.maybeUpdateWindow r).2.2.2 = c) ∨
      (c.UpdateDue ∧ ∃ inc, Adjusted c r inc ∧ (c.maybeUpdateWindow r).2.2.2 = { c with
        lastWindowUpdateTime := some r.now
        receiveWindow := c.bytesRead + inc
        receiveWindowIncrement := inc }) := by
  unfold maybeUpdateWindow
  split
  · next hdue =>
    obtain ⟨inc, hadjusted, heq⟩ := maybeAdjustWindowIncrement_eq c r
    refine .inr ⟨hdue, inc, hadjusted, ?_⟩
    simp only [heq]
  · next hdue => exact .inl ⟨hdue, rfl⟩

/-- A window update within the condition raises the window. -/
theorem Adjusted.raises {inc : UInt64} (h : Adjusted c r inc)
    (hread : c.bytesRead ≤ c.receiveWindow) (hdue : c.UpdateDue)
    (hfits : c.Fits (.maybeUpdateWindow r)) :
    c.receiveWindow ≤ c.bytesRead + inc := by
  obtain ⟨hplain, hgrown⟩ := hfits hdue
  have hleft : c.receiveWindow.toNat - c.bytesRead.toNat < c.receiveWindowIncrement.toNat / 2 := by
    have hlt := lt_iff_toNat_lt.mp hdue
    rwa [UInt64.toNat_sub_of_le _ _ hread, UInt64.toNat_div] at hlt
  rw [le_iff_toNat_le, UInt64.toNat_add]
  cases h with
  | same hrare =>
    rw [Nat.mod_eq_of_lt (hplain hrare)]
    omega
  | doubled hoften hwithin =>
    obtain ⟨hdouble, hreach, hmax⟩ := hgrown hoften
    have htwice : (2 * c.receiveWindowIncrement).toNat = 2 * c.receiveWindowIncrement.toNat := by
      rw [UInt64.toNat_mul]
      exact Nat.mod_eq_of_lt hdouble
    rw [lt_iff_toNat_lt, htwice] at hwithin
    rw [htwice, Nat.mod_eq_of_lt (by omega)]
    omega
  | limited hoften =>
    obtain ⟨-, hreach, hmax⟩ := hgrown hoften
    rwa [Nat.mod_eq_of_lt hmax]

theorem checkFlowControlViolation_eq_false :
    c.checkFlowControlViolation = false ↔ c.highestReceived ≤ c.receiveWindow := by
  unfold checkFlowControlViolation
  rw [decide_eq_false_iff_not, UInt64.not_lt]

/-- `UpdateHighestReceived` changes nothing but the highest offset. -/
theorem updateHighestReceived_eq (byteOffset : UInt64) :
    ∃ highest, (c.updateHighestReceived byteOffset).2 = { c with highestReceived := highest } := by
  unfold updateHighestReceived
  split
  · exact ⟨_, rfl⟩
  split
  · exact ⟨_, rfl⟩
  · exact ⟨_, rfl⟩

/-- One call keeps what is read and received within the window, and does not lower the window. -/
theorem Within.call {a : WindowCall} (h : c.Within) (hlegal : c.Legal a) (hfits : c.Fits a) :
    (c.call a).Within ∧ c.receiveWindow ≤ (c.call a).receiveWindow := by
  cases a with
  | updateHighestReceived byteOffset =>
    obtain ⟨highest, heq⟩ := updateHighestReceived_eq byteOffset
    have hvalid := checkFlowControlViolation_eq_false.mp hlegal
    rw [heq] at hvalid
    rw [FlowController.call, heq]
    exact ⟨⟨h.read, hvalid⟩, UInt64.le_refl _⟩
  | incrementHighestReceived increment =>
    exact ⟨⟨h.read, checkFlowControlViolation_eq_false.mp hlegal⟩, UInt64.le_refl _⟩
  | addBytesRead now n =>
    refine ⟨⟨?_, h.received⟩, UInt64.le_refl _⟩
    have hread : c.bytesRead.toNat + n.toNat ≤ c.highestReceived.toNat := hlegal
    have hbound := c.highestReceived.toNat_lt
    have hsum : (c.bytesRead + n).toNat = c.bytesRead.toNat + n.toNat := by
      rw [UInt64.toNat_add]
      exact Nat.mod_eq_of_lt (by omega)
    refine UInt64.le_trans ?_ h.received
    rw [le_iff_toNat_le]
    exact Nat.le_trans (Nat.le_of_eq hsum) hread
  | ensureMinimumWindowIncrement inc =>
    rw [FlowController.call, ensureMinimumWindowIncrement]
    split
    · exact ⟨⟨h.read, h.received⟩, UInt64.le_refl _⟩
    · exact ⟨⟨h.read, h.received⟩, UInt64.le_refl _⟩
  | maybeUpdateWindow r =>
    rw [FlowController.call]
    rcases maybeUpdateWindow_eq c r with ⟨-, heq⟩ | ⟨hdue, inc, hadjusted, heq⟩
    · rw [heq]
      exact ⟨h, UInt64.le_refl _⟩
    · have hraises := hadjusted.raises h.read hdue hfits
      rw [heq]
      exact ⟨⟨UInt64.le_trans h.read hraises, UInt64.le_trans h.received hraises⟩, hraises⟩

/-! ### Runs -/

theorem within_new (streamID : UInt32) (contributesToConnection : Bool) (params : FlowParameters) :
    (newFlowController streamID contributesToConnection params).Within := by
  constructor
  · exact UInt64.zero_le
  · exact UInt64.zero_le

/-- A run of legal calls within the condition, from a controller within its window. -/
theorem Within.run {calls : List WindowCall} (h : c.Within)
    (hfit : AllFit FlowController.call (fun c a => c.Legal a ∧ c.Fits a) c calls) :
    (Lib.run FlowController.call c calls).Within ∧
      c.receiveWindow ≤ (Lib.run FlowController.call c calls).receiveWindow := by
  induction calls generalizing c with
  | nil => exact ⟨h, UInt64.le_refl _⟩
  | cons a calls ih =>
    obtain ⟨hlegal, hfits⟩ := hfit.head
    obtain ⟨hwithin, hle⟩ := h.call hlegal hfits
    obtain ⟨hrun, hle'⟩ := ih hwithin hfit.tail
    exact ⟨hrun, UInt64.le_trans hle hle'⟩

/-! ### Configured windows -/

/-- An increment within the maximum stays there. -/
theorem call_increment_le (a : WindowCall)
    (hle : c.receiveWindowIncrement ≤ c.maxReceiveWindowIncrement) :
    (c.call a).receiveWindowIncrement ≤ (c.call a).maxReceiveWindowIncrement := by
  cases a with
  | updateHighestReceived byteOffset =>
    obtain ⟨highest, heq⟩ := updateHighestReceived_eq byteOffset
    rw [call, heq]
    exact hle
  | incrementHighestReceived increment => exact hle
  | addBytesRead now n => exact hle
  | ensureMinimumWindowIncrement inc =>
    rw [call, ensureMinimumWindowIncrement]
    split
    · simp only
      split
      · next hlt => exact UInt64.le_of_lt hlt
      · exact UInt64.le_refl _
    · exact hle
  | maybeUpdateWindow r =>
    rw [call]
    rcases maybeUpdateWindow_eq c r with ⟨-, heq⟩ | ⟨-, inc, hadjusted, heq⟩
    · rw [heq]
      exact hle
    · rw [heq]
      cases hadjusted with
      | same _ => exact hle
      | doubled _ hwithin => exact UInt64.le_of_lt hwithin
      | limited _ => exact UInt64.le_refl _

/-- A maximum that is not below the increment reaches up to the window whenever that is updated. -/
theorem fits_of_increment_le (a : WindowCall) (hread : c.bytesRead ≤ c.receiveWindow)
    (hle : c.receiveWindowIncrement ≤ c.maxReceiveWindowIncrement)
    (hbound : c.bytesRead.toNat + c.maxReceiveWindowIncrement.toNat < 2 ^ 63) : c.Fits a := by
  cases a with
  | maybeUpdateWindow r =>
    intro hdue
    rw [le_iff_toNat_le] at hle
    have hleft := lt_iff_toNat_lt.mp hdue
    rw [UInt64.toNat_sub_of_le _ _ hread, UInt64.toNat_div] at hleft
    have hhalf : c.receiveWindowIncrement.toNat / (2 : UInt64).toNat ≤
        c.receiveWindowIncrement.toNat := Nat.div_le_self _ _
    exact ⟨fun _ => by omega, fun _ => ⟨by omega, by omega, by omega⟩⟩
  | _ => trivial

/-- A configured maximum that is not below the initial window is enough, as long as the bytes read
and the maximum stay below `2 ^ 63`. -/
theorem allFit_of_configured {calls : List WindowCall} (h : c.Within)
    (hle : c.receiveWindowIncrement ≤ c.maxReceiveWindowIncrement)
    (hlegal : AllFit call (fun c a => c.Legal a ∧
      c.bytesRead.toNat + c.maxReceiveWindowIncrement.toNat < 2 ^ 63) c calls) :
    AllFit call (fun c a => c.Legal a ∧ c.Fits a) c calls := by
  induction calls generalizing c with
  | nil => exact .nil
  | cons a calls ih =>
    obtain ⟨hhead, hbound⟩ := hlegal.head
    have hfits := fits_of_increment_le a h.read hle hbound
    exact .cons ⟨hhead, hfits⟩ (ih (h.call hhead hfits).1 (call_increment_le a hle) hlegal.tail)

end FlowController

open FlowController

/-- **When receive windows never shrink.** In every run of legal calls from a new controller, with
any configured windows, in which each update meets the condition `Fits`, the window never decreases
and what was read is within it. -/
theorem receive_window_monotone (streamID : UInt32) (contributesToConnection : Bool)
    (params : FlowParameters) (before after : List WindowCall)
    (hfit : AllFit call (fun c a => c.Legal a ∧ c.Fits a)
      (newFlowController streamID contributesToConnection params) (before ++ after)) :
    (run call (newFlowController streamID contributesToConnection params) before).receiveWindow ≤
        (run call (newFlowController streamID contributesToConnection params)
          (before ++ after)).receiveWindow ∧
      (run call (newFlowController streamID contributesToConnection params)
          (before ++ after)).bytesRead ≤
        (run call (newFlowController streamID contributesToConnection params)
          (before ++ after)).receiveWindow := by
  obtain ⟨hbefore, -⟩ := (within_new streamID contributesToConnection params).run hfit.left
  obtain ⟨hafter, hle⟩ := hbefore.run hfit.right
  rw [run_append]
  exact ⟨hle, hafter.read⟩

/-- Windows of 32 kB for a stream and 48 kB for the connection, and a maximum for both. -/
def windowsUpTo (maximum : UInt64) : FlowParameters := ⟨0, 0, 32768, 49152, maximum, maximum⟩

/-- All of the window is received, two thirds are read, and the window is updated within an RTT. -/
def fastReader : List WindowCall :=
  [.updateHighestReceived 32768, .addBytesRead 1000 20000, .maybeUpdateWindow ⟨1001, 100, 0⟩]

theorem receive_window_monotone_doubled :
    (run call (newFlowController 5 true (windowsUpTo 65536)) fastReader).receiveWindow = 85536 ∧
      (newFlowController 5 true (windowsUpTo 65536)).receiveWindow ≤ 85536 := by
  have hlegal : AllFit call (fun c a => c.Legal a ∧
      c.bytesRead.toNat + c.maxReceiveWindowIncrement.toNat < 2 ^ 63)
      (newFlowController 5 true (windowsUpTo 65536)) fastReader :=
    .cons ⟨by decide, by decide⟩ <| .cons ⟨by decide, by decide⟩ <|
      .cons ⟨trivial, by decide⟩ .nil
  have hfit := allFit_of_configured (within_new 5 true _) (by decide) hlegal
  exact ⟨by decide, (receive_window_monotone 5 true (windowsUpTo 65536) [] fastReader hfit).1⟩

/-- With a maximum of 1 kB the window falls from 32768 to 21024, behind what was received; when the
rest is read, the subtraction underflows. -/
theorem receive_window_shrinks :
    AllFit call Legal (newFlowController 5 true (windowsUpTo 1024))
        (fastReader ++ [.addBytesRead 1002 12768]) ∧
      (newFlowController 5 true (windowsUpTo 1024)).receiveWindow = 32768 ∧
      (run call (newFlowController 5 true (windowsUpTo 1024)) fastReader).receiveWindow = 21024 ∧
      (run call (newFlowController 5 true (windowsUpTo 1024))
          (fastReader ++ [.addBytesRead 1002 12768])).receiveWindow <
        (run call (newFlowController 5 true (windowsUpTo 1024))
          (fastReader ++ [.addBytesRead 1002 12768])).bytesRead := by
  refine ⟨.cons ?_ (.cons ?_ (.cons trivial (.cons ?_ .nil))), by decide, by decide, by decide⟩
  · decide
  · decide
  · decide

end RlncStreaming.Quic
