import RlncStreaming.Quic.StreamTable

/-!
The limits of open streams (`streams_map.go`, `connection_parameters_manager.go`).

The counters of the table go by the parity of the IDs, the limits by direction. On the server
outgoing streams are the even ones and everything fits together. On the client they are the odd
ones, and yet `OpenStream` compares the limit of outgoing streams with the number of even
streams, and `openRemoteStream` that of incoming streams with the number of odd ones
(`stream_limits_swapped`). The limits hold as long as the other counter gives the same answer
(`stream_limits`).
-/

namespace RlncStreaming.Quic.StreamTable

open Lib

variable {σ : Type}

inductive StreamCall where
  | openStream
  | getOrOpenStream (id : UInt32)
  | removeStream (id : UInt32)
deriving DecidableEq

/-- The table after a call. -/
def step (newStream : UInt32 → σ) (m : StreamTable σ) : StreamCall → StreamTable σ
  | .openStream => (m.openStream newStream).1
  | .getOrOpenStream id =>
    match m.getOrOpenStream newStream id with
    | some (m, _) => m
    | none => m
  | .removeStream id =>
    match m.removeStream id with
    | .ok m => m
    | .error _ => m

/-- The number of open streams that this side has opened, and that the peer has. -/
def localStreams (m : StreamTable σ) : Nat := m.openStreams.countP (isLocal m.perspective)

def peerStreams (m : StreamTable σ) : Nat :=
  m.openStreams.countP fun id => !isLocal m.perspective id

/-- The comparisons of the call with the limits come out as with the right counters, and the
next stream is new. -/
def Fits (m : StreamTable σ) : StreamCall → Prop
  | .openStream => m.streams m.nextStream = none ∧
      (m.perspective = .client →
        (m.numOutgoingStreams < m.maxOutgoingStreams ↔ m.numIncomingStreams < m.maxOutgoingStreams))
  | .getOrOpenStream id => m.perspective = .client → isLocal .client id = false →
      m.highestStreamOpenedByPeer < id → m.numIncomingStreams < m.maxIncomingStreams →
        m.numOutgoingStreams.toNat + m.newStreams id ≤ m.maxIncomingStreams.toNat
  | .removeStream _ => True

/-! ### Counters and streams -/

variable {m m' : StreamTable σ} {newStream : UInt32 → σ} {id : UInt32}

theorem not_isLocal_eq :
    (!isLocal .server id) = (id % 2 == 1) ∧ (!isLocal .client id) = (id % 2 == 0) := by
  unfold isLocal
  rcases mod_two_cases id with h | h
  · simp [h]
  · simp [h]

/-- The counters on the two sides. -/
theorem Counted.localStreams (h : m.Counted) : m.localStreams =
    (match m.perspective with
      | .server => m.numOutgoingStreams
      | .client => m.numIncomingStreams).toNat := by
  unfold StreamTable.localStreams
  cases m.perspective with
  | server => exact h.outgoing.symm
  | client => exact h.incoming.symm

theorem Counted.peerStreams (h : m.Counted) : m.peerStreams =
    (match m.perspective with
      | .server => m.numIncomingStreams
      | .client => m.numOutgoingStreams).toNat := by
  unfold StreamTable.peerStreams
  cases m.perspective with
  | server =>
    rw [show (fun id => !isLocal .server id) = fun id => id % 2 == 1 from
      funext fun id => not_isLocal_eq.1]
    exact h.incoming.symm
  | client =>
    rw [show (fun id => !isLocal .client id) = fun id => id % 2 == 0 from
      funext fun id => not_isLocal_eq.2]
    exact h.outgoing.symm

/-- The state of the table between two calls, with the limits of the connection. -/
structure Limited (maxOutgoing maxIncoming : UInt32) (m : StreamTable σ) : Prop where
  counted : m.Counted
  peerIds : m.PeerIds
  nextLocal : isLocal m.perspective m.nextStream = true
  isOpen : m.closeErr = none
  outgoing : m.maxOutgoingStreams = maxOutgoing
  incoming : m.maxIncomingStreams = maxIncoming
  localLimit : m.localStreams ≤ maxOutgoing.toNat
  peerLimit : m.peerStreams ≤ maxIncoming.toNat

theorem limited_new (perspective : Perspective) (maxOutgoing maxIncoming : UInt32) :
    Limited maxOutgoing maxIncoming
      (newStreamsMap perspective maxOutgoing maxIncoming : StreamTable σ) where
  counted := counted_new perspective maxOutgoing maxIncoming
  peerIds := (orderly_new perspective maxOutgoing maxIncoming).peerIds
  nextLocal := (orderly_new perspective maxOutgoing maxIncoming).nextLocal
  isOpen := rfl
  outgoing := rfl
  incoming := rfl
  localLimit := Nat.zero_le _
  peerLimit := Nat.zero_le _

/-! ### One call -/

variable {maxOutgoing maxIncoming : UInt32}

theorem localStreams_enter (s : σ) :
    (m.enter id s).localStreams = m.localStreams + if isLocal m.perspective id then 1 else 0 := by
  unfold localStreams enter
  rw [List.countP_append, List.countP_singleton]

theorem peerStreams_enter (s : σ) :
    (m.enter id s).peerStreams = m.peerStreams + if isLocal m.perspective id then 0 else 1 := by
  unfold peerStreams enter
  rw [List.countP_append, List.countP_singleton]
  cases isLocal m.perspective id <;> rfl

/-- The counter that a new stream is added to. -/
theorem Counted.counter (h : m.Counted) (id : UInt32) :
    (if id % 2 = 0 then m.numOutgoingStreams else m.numIncomingStreams).toNat =
      if isLocal m.perspective id then m.localStreams else m.peerStreams := by
  rw [h.localStreams, h.peerStreams]
  cases m.perspective with
  | server =>
    by_cases hid : id % 2 = 0
    · rw [if_pos hid, if_pos (isLocal_server.mpr hid)]
    · rw [if_neg hid, if_neg fun hlocal => hid (isLocal_server.mp hlocal)]
  | client =>
    by_cases hid : id % 2 = 0
    · rw [if_pos hid, if_neg fun hlocal => isLocal_client.mp hlocal hid]
    · rw [if_neg hid, if_pos (isLocal_client.mpr hid)]

section

variable (h : Limited maxOutgoing maxIncoming m)

include h

/-- A stream that is entered below the limit of its side. -/
theorem Limited.enter (hnew : m.streams id = none) (s : σ)
    (hroom : (if isLocal m.perspective id then m.localStreams else m.peerStreams) <
      (if isLocal m.perspective id then maxOutgoing else maxIncoming).toNat) :
    (m.enter id s).Counted ∧ (m.enter id s).localStreams ≤ maxOutgoing.toNat ∧
      (m.enter id s).peerStreams ≤ maxIncoming.toNat := by
  have hcounter := hroom
  rw [← h.counted.counter] at hcounter
  refine ⟨h.counted.enter hnew s (UInt32.lt_iff_toNat_lt.mpr hcounter), ?_, ?_⟩
  · rw [localStreams_enter]
    cases hlocal : isLocal m.perspective id with
    | true =>
      simp only [hlocal, if_true] at hroom
      exact hroom
    | false => exact h.localLimit
  · rw [peerStreams_enter]
    cases hlocal : isLocal m.perspective id with
    | true => exact h.peerLimit
    | false =>
      simp only [hlocal, Bool.false_eq_true, if_false] at hroom
      exact hroom

/-- `OpenStream` compares the limit with the number of streams of this side. -/
theorem Limited.outgoing_iff (hfit : m.Fits .openStream) :
    m.numOutgoingStreams < m.maxOutgoingStreams ↔ m.localStreams < maxOutgoing.toNat := by
  rw [← h.outgoing, h.counted.localStreams]
  cases hside : m.perspective with
  | server => exact UInt32.lt_iff_toNat_lt
  | client =>
    rw [hfit.2 hside]
    exact UInt32.lt_iff_toNat_lt

theorem Limited.openStream (hfit : m.Fits .openStream) :
    Limited maxOutgoing maxIncoming (m.openStream newStream).1 := by
  rcases openStream_cases newStream h.isOpen hfit.1 h.nextLocal with ⟨-, heq⟩ | ⟨hroom, heq⟩
  · rw [heq]
    exact h
  rw [heq]
  obtain ⟨hcounted, hlocals, hpeers⟩ := h.enter hfit.1 (newStream m.nextStream) (by
    simp only [h.nextLocal, if_true]
    exact (h.outgoing_iff hfit).mp hroom)
  refine ⟨⟨hcounted.lists, hcounted.outgoing, hcounted.incoming⟩,
    ⟨fun id hid hremote => ?_, h.peerIds.highest⟩, ?_, h.isOpen, h.outgoing, h.incoming,
    hlocals, hpeers⟩
  · have hne : id ≠ m.nextStream := by
      rintro rfl
      exact Bool.noConfusion (h.nextLocal.symm.trans hremote)
    change (Function.update m.streams m.nextStream _ id).isSome = true at hid
    rw [Function.update_of_ne hne] at hid
    exact h.peerIds.below id hid hremote
  · exact (isLocal_add_two m.perspective).trans h.nextLocal

end

/-- The client may open `n` more streams of the peer, if it opens any. -/
def Room (n : Nat) (m : StreamTable σ) : Prop :=
  m.perspective = .client → m.numIncomingStreams < m.maxIncomingStreams →
    m.numOutgoingStreams.toNat + n ≤ m.maxIncomingStreams.toNat

/-- One stream of the peer. -/
theorem Limited.opens {n : Nat} (h : Limited maxOutgoing maxIncoming m) (hroom : m.Room (n + 1))
    (hopens : Opens newStream m m') : Limited maxOutgoing maxIncoming m' ∧ m'.Room n := by
  have hpeer : m.peerStreams < maxIncoming.toNat := by
    rw [h.counted.peerStreams, ← h.incoming]
    cases hside : m.perspective with
    | server => exact UInt32.lt_iff_toNat_lt.mp hopens.room
    | client =>
      have hle := hroom hside hopens.room
      change m.numOutgoingStreams.toNat < _
      omega
  obtain ⟨hcounted, hlocals, hpeers⟩ := h.enter hopens.new (newStream m.firstSid) (by
    simp only [hopens.remote, Bool.false_eq_true, if_false]
    exact hpeer)
  have hids := hopens.peerIds h.peerIds
  have hresult := hopens.result
  subst hresult
  refine ⟨⟨⟨hcounted.lists, hcounted.outgoing, hcounted.incoming⟩, hids, h.nextLocal, h.isOpen,
    h.outgoing, h.incoming, hlocals, hpeers⟩, fun hside _ => ?_⟩
  -- on the client the new stream is counted as an outgoing one
  have hside' : m.perspective = .client := hside
  have hle := hroom hside' hopens.room
  have heven : m.firstSid % 2 = 0 := by
    have hremote := hopens.remote
    rw [hside', Bool.eq_false_iff, ne_eq, isLocal_client, not_not] at hremote
    exact hremote
  have hlt : m.numOutgoingStreams < m.maxIncomingStreams := UInt32.lt_iff_toNat_lt.mpr (by omega)
  change (if m.firstSid % 2 = 0 then m.numOutgoingStreams + 1 else _).toNat + n ≤ _
  rw [if_pos heven, toNat_add_one hlt]
  change _ ≤ m.maxIncomingStreams.toNat
  omega

section

variable (h : Limited maxOutgoing maxIncoming m)

include h

theorem Limited.getOrOpenStream (hfit : m.Fits (.getOrOpenStream id)) :
    Limited maxOutgoing maxIncoming (m.step newStream (.getOrOpenStream id)) := by
  by_cases hknown : isLocal m.perspective id = true ∨ id ≤ m.highestStreamOpenedByPeer
  · obtain ⟨r, heq⟩ := getOrOpenStream_known newStream hknown
    simp only [step, heq]
    exact h
  obtain ⟨hlocal, hle⟩ := not_or.mp hknown
  have hremote := Bool.eq_false_iff.mpr hlocal
  have hid := UInt32.not_le.mp hle
  have hroom : m.Room (m.newStreams id) := fun hside => by
    rw [hside] at hremote
    exact hfit hside hremote hid
  obtain ⟨k, m', r, heq, hlimited, -⟩ := getOrOpenStream_rule newStream
    (fun n m => Limited maxOutgoing maxIncoming m ∧ m.Room n) (fun _ _ hP => hP.1.peerIds)
    (fun _ _ _ hP hopens => hP.1.opens hP.2 hopens) ⟨h, hroom⟩ hremote hid
  simp only [step, heq]
  exact hlimited.1

theorem Limited.removeStream (hok : m.removeStream id = .ok m') :
    Limited maxOutgoing maxIncoming m' := by
  have hcounted := h.counted.remove hok
  obtain ⟨-, heq⟩ := removeStream_ok hok
  have hsub : (m.openStreams.erase id).Sublist m.openStreams := List.erase_sublist
  have hlocals : (m.openStreams.erase id).countP (isLocal m.perspective) ≤ maxOutgoing.toNat :=
    Nat.le_trans hsub.countP_le h.localLimit
  have hpeers : (m.openStreams.erase id).countP (fun id => !isLocal m.perspective id) ≤
      maxIncoming.toNat := Nat.le_trans hsub.countP_le h.peerLimit
  rw [heq] at hcounted ⊢
  refine ⟨hcounted, ⟨fun id' hid' hremote => ?_, h.peerIds.highest⟩, h.nextLocal, h.isOpen,
    h.outgoing, h.incoming, hlocals, hpeers⟩
  change (Function.update m.streams id none id').isSome = true at hid'
  by_cases hne : id' = id
  · subst hne
    simp at hid'
  · rw [Function.update_of_ne hne] at hid'
    exact h.peerIds.below id' hid' hremote

theorem Limited.step {call : StreamCall} (hfit : m.Fits call) :
    Limited maxOutgoing maxIncoming (m.step newStream call) := by
  cases call with
  | openStream => exact h.openStream hfit
  | getOrOpenStream id => exact h.getOrOpenStream hfit
  | removeStream id =>
    cases hok : m.removeStream id with
    | error =>
      simp only [StreamTable.step, hok]
      exact h
    | ok m' =>
      simp only [StreamTable.step, hok]
      exact h.removeStream hok

/-- `OpenStream` fails just if this side has opened as many streams as it may. -/
theorem Limited.tooMany (hfit : m.Fits .openStream)
    (htoo : (m.openStream newStream).2 = .error .tooManyOpenStreams) :
    maxOutgoing.toNat ≤ m.localStreams := by
  rcases openStream_cases newStream h.isOpen hfit.1 h.nextLocal with ⟨hlimit, -⟩ | ⟨-, heq⟩
  · apply Nat.not_lt.mp
    intro hlt
    exact UInt32.not_le.mpr ((h.outgoing_iff hfit).mpr hlt) hlimit
  · rw [heq] at htoo
    cases htoo

end

/-! ### Whole runs -/

/-- In every run whose calls all meet `Fits`, the streams of both sides stay within their
limits, and `OpenStream` fails with `TooManyOpenStreams` only at the limit of this side. -/
theorem stream_limits (newStream : UInt32 → σ) (perspective : Perspective)
    (maxOutgoing maxIncoming : UInt32) (calls : List StreamCall)
    (hfit : AllFit (step newStream) Fits (newStreamsMap perspective maxOutgoing maxIncoming) calls)
    (before after : List StreamCall) (hcalls : calls = before ++ after) :
    let m := run (step newStream) (newStreamsMap perspective maxOutgoing maxIncoming) before
    m.localStreams ≤ maxOutgoing.toNat ∧ m.peerStreams ≤ maxIncoming.toNat ∧
      (∀ rest, after = .openStream :: rest →
        (m.openStream newStream).2 = .error .tooManyOpenStreams →
          maxOutgoing.toNat ≤ m.localStreams) := by
  subst hcalls
  have h := run_inv Fits (fun _ => Limited maxOutgoing maxIncoming)
    (fun _ m call (h : Limited maxOutgoing maxIncoming m) hfit => h.step hfit) before []
    (newStreamsMap perspective maxOutgoing maxIncoming)
    (limited_new perspective maxOutgoing maxIncoming) hfit.left
  refine ⟨h.localLimit, h.peerLimit, fun rest hrest htoo => ?_⟩
  subst hrest
  exact h.tooMany (hfit before .openStream rest rfl) htoo

/-- A server that may open one stream, and has opened it beside two streams of its client. -/
theorem stream_limits_server :
    let calls := [.openStream, .getOrOpenStream 3, .openStream]
    let m := run (step fun _ => ()) (newStreamsMap .server 1 2) [.openStream, .getOrOpenStream 3]
    AllFit (step fun _ => ()) Fits (newStreamsMap .server 1 2) calls ∧
      m.localStreams ≤ 1 ∧ m.peerStreams ≤ 2 ∧
      ((m.openStream fun _ => ()).2 = .error .tooManyOpenStreams → 1 ≤ m.localStreams) := by
  intro calls m
  have hfit : AllFit (step fun _ => ()) Fits (newStreamsMap .server 1 2) calls :=
    .cons ⟨rfl, nofun⟩ (.cons nofun (.cons ⟨by decide, nofun⟩ .nil))
  obtain ⟨hlocals, hpeers, htoo⟩ := stream_limits (fun _ => ()) .server 1 2 calls hfit
    [.openStream, .getOrOpenStream 3] [.openStream] rfl
  exact ⟨hfit, hlocals, hpeers, htoo [] rfl⟩

/-- A client that may open one stream opens two. It lets the server open 111 streams with one frame,
where `GetMaxIncomingStreams` allows 110, and it is refused its first stream because the server
has opened one. -/
theorem stream_limits_swapped :
    let m := run (step fun _ => ()) (newStreamsMap .client 1 110)
    (m [.openStream, .openStream]).localStreams = 2 ∧
      (m [.getOrOpenStream 222]).peerStreams = 111 ∧
      ((m [.getOrOpenStream 2]).openStream fun _ => ()).2 = .error .tooManyOpenStreams ∧
      (m [.getOrOpenStream 2]).localStreams = 0 := by
  refine ⟨by decide, by decide +kernel, ?_, by decide⟩
  rfl

end RlncStreaming.Quic.StreamTable
