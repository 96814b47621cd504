import RlncStreaming.Lib.Maps
import RlncStreaming.Lib.Runs
import RlncStreaming.Quic.PathManager

/-!
Opening, accepting and removing streams (`streams_map.go`), for any type of streams.

Two counters limit the number of open streams. `RemoveStream` counts by the parity of the ID,
so that `numOutgoingStreams` is the number of even streams and `numIncomingStreams` that of odd
ones, on both sides; `openRemoteStream` and `OpenStream` agree with that (`Counted`).

A frame for a new stream of the peer opens all streams up to it. One iteration of that loop is
`Opens`, and what every iteration keeps holds after the call (`getOrOpenStream_rule`).
-/

namespace RlncStreaming.Quic

open Lib Function

/-! ### The table -/

inductive StreamsError where
  /-- `closeErr`, the error that the session was closed with. -/
  | closed (reason : String)
  | tooManyOpenStreams
  /-- `attempted to open stream %d from client-side` -/
  | fromClientSide (id : UInt32)
  /-- `attempted to open stream %d from server-side` -/
  | fromServerSide (id : UInt32)
  /-- `attempted to open stream %d, which is a lot smaller than the highest opened stream, %d` -/
  | smallStreamID (id highest : UInt32)
  /-- `attempted to remove non-existing stream: %d` -/
  | removeNonExisting (id : UInt32)
deriving DecidableEq, Repr

/-- `streamsMap`, with the limits of its connection parameters. -/
structure StreamTable (σ : Type) where
  perspective : Perspective
  maxOutgoingStreams : UInt32
  maxIncomingStreams : UInt32
  streams : UInt32 → Option σ
  openStreams : List UInt32
  roundRobinIndex : UInt32
  nextStream : UInt32
  highestStreamOpenedByPeer : UInt32
  closeErr : Option String
  nextStreamToAccept : UInt32
  numOutgoingStreams : UInt32
  numIncomingStreams : UInt32

/-- `protocol.MaxNewStreamIDDelta`. -/
def maxNewStreamIDDelta : UInt32 := 400

/-- `newStreamsMap`. -/
def newStreamsMap {σ : Type} (perspective : Perspective)
    (maxOutgoingStreams maxIncomingStreams : UInt32) : StreamTable σ where
  perspective := perspective
  maxOutgoingStreams := maxOutgoingStreams
  maxIncomingStreams := maxIncomingStreams
  streams := fun _ => none
  openStreams := []
  roundRobinIndex := 0
  nextStream := match perspective with
    | .client => 1
    | .server => 2
  highestStreamOpenedByPeer := 0
  closeErr := none
  nextStreamToAccept := match perspective with
    | .client => 2
    | .server => 1
  numOutgoingStreams := 0
  numIncomingStreams := 0

namespace StreamTable

variable {σ : Type}

/-- `putStream`; the error for a stream that exists is dropped by the callers. -/
def putStream (m : StreamTable σ) (id : UInt32) (s : σ) : StreamTable σ :=
  if (m.streams id).isSome then m
  else { m with
    streams := update m.streams id (some s)
    openStreams := m.openStreams ++ [id] }

/-- `openRemoteStream`. -/
def openRemoteStream (newStream : UInt32 → σ) (m : StreamTable σ) (id : UInt32) :
    Except StreamsError (StreamTable σ) :=
  if m.maxIncomingStreams ≤ m.numIncomingStreams then .error .tooManyOpenStreams
  else if id + maxNewStreamIDDelta < m.highestStreamOpenedByPeer then
    .error (.smallStreamID id m.highestStreamOpenedByPeer)
  else
    let m := match m.perspective with
      | .server => { m with numIncomingStreams := m.numIncomingStreams + 1 }
      | .client => { m with numOutgoingStreams := m.numOutgoingStreams + 1 }
    let m :=
      if m.highestStreamOpenedByPeer < id then { m with highestStreamOpenedByPeer := id } else m
    .ok (m.putStream id (newStream id))

/-- The loop of `GetOrOpenStream` that opens the streams from `sid` to `id`. -/
def openRemoteStreams (newStream : UInt32 → σ) (id : UInt32) :
    Nat → UInt32 → StreamTable σ → Option (StreamTable σ × Option StreamsError)
  | 0, _, _ => none
  | fuel + 1, sid, m =>
    if sid ≤ id then
      match m.openRemoteStream newStream sid with
      | .error e => some (m, some e)
      | .ok m => openRemoteStreams newStream id fuel (sid + 2) m
    else some (m, none)

/-- The first stream that `GetOrOpenStream` opens. -/
def firstSid (m : StreamTable σ) : UInt32 :=
  let sid := m.highestStreamOpenedByPeer + 2
  if sid = 2 ∧ m.perspective = .server then 1 else sid

/-- The ID belongs to a stream that this side opens. -/
def isLocal : Perspective → UInt32 → Bool
  | .server, id => id % 2 == 0
  | .client, id => id % 2 == 1

/-- The error for a stream that the other side cannot open. -/
def wrongSide : Perspective → UInt32 → StreamsError
  | .server, id => .fromClientSide id
  | .client, id => .fromServerSide id

section

variable (newStream : UInt32 → σ) (m : StreamTable σ)

/-- `GetOrOpenStream`. The result is `none` for a stream that was closed already. -/
def getOrOpenStream (id : UInt32) : Option (StreamTable σ × Except StreamsError (Option σ)) :=
  match m.streams id with
  | some s => some (m, .ok (some s))
  | none =>
    if isLocal m.perspective id then
      if id ≤ m.nextStream then some (m, .ok none)
      else some (m, .error (wrongSide m.perspective id))
    else if id ≤ m.highestStreamOpenedByPeer then some (m, .ok none)
    else
      (openRemoteStreams newStream id (id.toNat + 2) m.firstSid m).map fun (m, err) =>
        (m, match err with
          | some e => .error e
          | none => .ok (m.streams id))

/-- `openStreamImpl`. -/
def openStreamImpl : StreamTable σ × Except StreamsError σ :=
  let id := m.nextStream
  if m.maxOutgoingStreams ≤ m.numOutgoingStreams then (m, .error .tooManyOpenStreams)
  else
    let m := match m.perspective with
      | .server => { m with numOutgoingStreams := m.numOutgoingStreams + 1 }
      | .client => { m with numIncomingStreams := m.numIncomingStreams + 1 }
    let s := newStream id
    ({ m with nextStream := m.nextStream + 2 }.putStream id s, .ok s)

/-- `OpenStream`. -/
def openStream : StreamTable σ × Except StreamsError σ :=
  match m.closeErr with
  | some reason => (m, .error (.closed reason))
  | none => m.openStreamImpl newStream

end

/-- `AcceptStream`, for one turn of its loop: `none` if it waits. -/
def acceptStream (m : StreamTable σ) : Option (StreamTable σ × Except StreamsError σ) :=
  match m.closeErr with
  | some reason => some (m, .error (.closed reason))
  | none =>
    match m.streams m.nextStreamToAccept with
    | none => none
    | some s => some ({ m with nextStreamToAccept := m.nextStreamToAccept + 2 }, .ok s)

/-- `RemoveStream`. -/
def removeStream (m : StreamTable σ) (id : UInt32) : Except StreamsError (StreamTable σ) :=
  match m.streams id with
  | none => .error (.removeNonExisting id)
  | some _ =>
    let m := if id % 2 = 0 then { m with numOutgoingStreams := m.numOutgoingStreams - 1 }
      else { m with numIncomingStreams := m.numIncomingStreams - 1 }
    .ok { m with
      openStreams := m.openStreams.erase id
      roundRobinIndex :=
        if id ∈ m.openStreams ∧ (m.openStreams.idxOf id).toUInt32 < m.roundRobinIndex then
          m.roundRobinIndex - 1
        else m.roundRobinIndex
      streams := update m.streams id none }

/-! ### Entering and removing a stream -/

variable {m m' : StreamTable σ} {newStream : UInt32 → σ} {id sid : UInt32}

/-- The table with a new stream, which is counted by the parity of its ID. -/
def enter (m : StreamTable σ) (id : UInt32) (s : σ) : StreamTable σ :=
  { m with
    streams := update m.streams id (some s)
    openStreams := m.openStreams ++ [id]
    numOutgoingStreams := if id % 2 = 0 then m.numOutgoingStreams + 1 else m.numOutgoingStreams
    numIncomingStreams := if id % 2 = 0 then m.numIncomingStreams else m.numIncomingStreams + 1 }

theorem mod_two_cases (id : UInt32) : id % 2 = 0 ∨ id % 2 = 1 := by
  rcases Nat.mod_two_eq_zero_or_one id.toNat with hzero | hone
  · exact .inl (UInt32.toNat_inj.mp hzero)
  · exact .inr (UInt32.toNat_inj.mp hone)

theorem isLocal_server : isLocal .server id = true ↔ id % 2 = 0 := by
  unfold isLocal
  exact beq_iff_eq

theorem isLocal_client : isLocal .client id = true ↔ id % 2 ≠ 0 := by
  unfold isLocal
  rcases mod_two_cases id with h | h
  · simp [h]
  · simp [h]

/-- A stream that the peer opens. -/
theorem openRemoteStream_ok (h : m.openRemoteStream newStream id = .ok m')
    (hnew : m.streams id = none) (hremote : isLocal m.perspective id = false) :
    m.numIncomingStreams < m.maxIncomingStreams ∧
      ¬ id + maxNewStreamIDDelta < m.highestStreamOpenedByPeer ∧
      m' = { m.enter id (newStream id) with
        highestStreamOpenedByPeer :=
          if m.highestStreamOpenedByPeer < id then id else m.highestStreamOpenedByPeer } := by
  unfold openRemoteStream at h
  split at h
  · cases h
  rename_i hlimit
  split at h
  · cases h
  rename_i hdelta
  refine ⟨UInt32.not_le.mp hlimit, hdelta, ?_⟩
  cases h
  cases hside : m.perspective with
  | server =>
    rw [hside, Bool.eq_false_iff, ne_eq, isLocal_server] at hremote
    by_cases hhigher : m.highestStreamOpenedByPeer < id
    · simp [putStream, enter, hhigher, hnew, hremote, hside]
    · simp [putStream, enter, hhigher, hnew, hremote, hside]
  | client =>
    rw [hside, Bool.eq_false_iff, ne_eq, isLocal_client, not_not] at hremote
    by_cases hhigher : m.highestStreamOpenedByPeer < id
    · simp [putStream, enter, hhigher, hnew, hremote, hside]
    · simp [putStream, enter, hhigher, hnew, hremote, hside]

/-- A stream that this side opens, or none. -/
theorem openStream_cases (newStream : UInt32 → σ) (hclose : m.closeErr = none)
    (hnew : m.streams m.nextStream = none) (hlocal : isLocal m.perspective m.nextStream = true) :
    (m.maxOutgoingStreams ≤ m.numOutgoingStreams ∧
        m.openStream newStream = (m, .error .tooManyOpenStreams)) ∨
      (m.numOutgoingStreams < m.maxOutgoingStreams ∧
        m.openStream newStream = ({ m.enter m.nextStream (newStream m.nextStream) with
          nextStream := m.nextStream + 2 }, .ok (newStream m.nextStream))) := by
  unfold openStream openStreamImpl
  rw [hclose]
  by_cases hlimit : m.maxOutgoingStreams ≤ m.numOutgoingStreams
  · left
    simp [hlimit]
  right
  refine ⟨UInt32.not_le.mp hlimit, ?_⟩
  cases hside : m.perspective with
  | server =>
    rw [hside, isLocal_server] at hlocal
    simp [putStream, enter, hlimit, hnew, hlocal, hside, hclose]
  | client =>
    rw [hside, isLocal_client] at hlocal
    simp [putStream, enter, hlimit, hnew, hlocal, hside, hclose]

/-- What `OpenStream` does, whether or not the next stream is new: it counts, and puts the
stream. -/
theorem openStream_eq :
    (m.openStream newStream).1 = m ∨ ∃ numOutgoingStreams numIncomingStreams,
      (m.openStream newStream).1 =
        { m with numOutgoingStreams, numIncomingStreams
                 nextStream := m.nextStream + 2 }.putStream m.nextStream
          (newStream m.nextStream) := by
  unfold openStream openStreamImpl
  split
  · exact .inl rfl
  split
  · exact .inl rfl
  right
  cases hside : m.perspective with
  | server => exact ⟨_, _, rfl⟩
  | client => exact ⟨_, _, rfl⟩

theorem acceptStream_some (hclose : m.closeErr = none) {s : σ}
    (hs : m.streams m.nextStreamToAccept = some s) :
    m.acceptStream = some ({ m with nextStreamToAccept := m.nextStreamToAccept + 2 }, .ok s) := by
  simp only [acceptStream, hclose, hs]

theorem acceptStream_eq_none_iff (hclose : m.closeErr = none) :
    m.acceptStream = none ↔ m.streams m.nextStreamToAccept = none := by
  cases hs : m.streams m.nextStreamToAccept with
  | none => simp [acceptStream, hclose, hs]
  | some s => simp [acceptStream_some hclose hs]

/-- `AcceptStream` only moves on. -/
theorem acceptStream_table {r : Except StreamsError σ} (h : m.acceptStream = some (m', r)) :
    ∃ nextStreamToAccept, m' = { m with nextStreamToAccept } := by
  unfold acceptStream at h
  split at h
  · cases h
    exact ⟨m.nextStreamToAccept, rfl⟩
  split at h
  · cases h
  cases h
  exact ⟨_, rfl⟩

/-! ### The counters -/

/-- The number of open streams with even IDs, and with odd ones. -/
def evens (m : StreamTable σ) : Nat := m.openStreams.countP fun id => id % 2 == 0

def odds (m : StreamTable σ) : Nat := m.openStreams.countP fun id => id % 2 == 1

/-- The open streams are listed, and the counters count them by the parity of their IDs. -/
structure Counted (m : StreamTable σ) : Prop where
  lists : Lists m.streams m.openStreams
  outgoing : m.numOutgoingStreams.toNat = m.evens
  incoming : m.numIncomingStreams.toNat = m.odds

theorem counted_new (perspective : Perspective) (maxOutgoing maxIncoming : UInt32) :
    Counted (newStreamsMap perspective maxOutgoing maxIncoming : StreamTable σ) :=
  ⟨⟨List.nodup_nil, fun _ => by simp [newStreamsMap]⟩, rfl, rfl⟩

theorem evens_enter (s : σ) :
    (m.enter id s).evens = m.evens + if id % 2 = 0 then 1 else 0 := by
  unfold evens enter
  rw [List.countP_append, List.countP_singleton]
  rcases mod_two_cases id with h | h
  · simp [h]
  · simp [h]

theorem odds_enter (s : σ) :
    (m.enter id s).odds = m.odds + if id % 2 = 0 then 0 else 1 := by
  unfold odds enter
  rw [List.countP_append, List.countP_singleton]
  rcases mod_two_cases id with h | h
  · simp [h]
  · simp [h]

theorem toNat_add_one {n bound : UInt32} (h : n < bound) : (n + 1).toNat = n.toNat + 1 := by
  have hlt := UInt32.lt_iff_toNat_lt.mp h
  have hbound := bound.toNat_lt
  rw [UInt32.toNat_add, UInt32.toNat_one]
  exact Nat.mod_eq_of_lt (by omega)

/-- A stream that is entered below a bound of its counter is counted. -/
theorem Counted.enter (h : m.Counted) (hnew : m.streams id = none) (s : σ) {bound : UInt32}
    (hroom : (if id % 2 = 0 then m.numOutgoingStreams else m.numIncomingStreams) < bound) :
    (m.enter id s).Counted := by
  refine ⟨h.lists.update_some hnew s, ?_, ?_⟩
  · rw [evens_enter, ← h.outgoing]
    by_cases hid : id % 2 = 0
    · rw [if_pos hid] at hroom
      simp [StreamTable.enter, hid, toNat_add_one hroom]
    · simp [StreamTable.enter, hid]
  · rw [odds_enter, ← h.incoming]
    by_cases hid : id % 2 = 0
    · simp [StreamTable.enter, hid]
    rw [if_neg hid] at hroom
    simp [StreamTable.enter, hid, toNat_add_one hroom]

theorem removeStream_ok (h : m.removeStream id = .ok m') :
    (m.streams id).isSome = true ∧ m' = { m with
      numOutgoingStreams := if id % 2 = 0 then m.numOutgoingStreams - 1 else m.numOutgoingStreams
      numIncomingStreams := if id % 2 = 0 then m.numIncomingStreams else m.numIncomingStreams - 1
      openStreams := m.openStreams.erase id
      roundRobinIndex := m'.roundRobinIndex
      streams := update m.streams id none } := by
  unfold removeStream at h
  split at h
  · cases h
  rename_i s hs
  refine ⟨by rw [hs]; rfl, ?_⟩
  cases h
  by_cases hid : id % 2 = 0
  · simp [hid]
  · simp [hid]

theorem toNat_sub_one {n : UInt32} {k : Nat} (h : n.toNat = k + 1) : (n - 1).toNat = k := by
  rw [UInt32.toNat_sub_of_le n 1 (UInt32.le_iff_toNat_le.mpr (by simp [h])), h]
  rfl

theorem Counted.remove (h : m.Counted) (hok : m.removeStream id = .ok m') : m'.Counted := by
  obtain ⟨hsome, heq⟩ := removeStream_ok hok
  have hmem : id ∈ m.openStreams := (h.lists.mem_iff id).mpr hsome
  have houtgoing := h.outgoing
  have hincoming := h.incoming
  unfold evens at houtgoing
  unfold odds at hincoming
  rw [(List.perm_cons_erase hmem).countP_eq, List.countP_cons] at houtgoing hincoming
  rw [heq]
  refine ⟨h.lists.update_none id, ?_, ?_⟩
  · unfold evens
    rcases mod_two_cases id with hid | hid
    · simp only [hid, beq_self_eq_true, if_true] at houtgoing ⊢
      exact toNat_sub_one houtgoing
    · simpa [hid] using houtgoing
  · unfold odds
    rcases mod_two_cases id with hid | hid
    · simpa [hid] using hincoming
    simp only [hid, beq_self_eq_true, if_true] at hincoming ⊢
    simpa using toNat_sub_one hincoming

/-! ### Streams that the peer opens -/

/-- The IDs of the peer's streams, up to the highest one. -/
structure PeerIds (m : StreamTable σ) : Prop where
  below : ∀ id, (m.streams id).isSome = true → isLocal m.perspective id = false →
    id ≤ m.highestStreamOpenedByPeer
  highest : m.highestStreamOpenedByPeer = 0 ∨
    isLocal m.perspective m.highestStreamOpenedByPeer = false

/-- An iteration of the loop in `GetOrOpenStream`: the next stream of the peer is opened. -/
structure Opens (newStream : UInt32 → σ) (m m' : StreamTable σ) : Prop where
  higher : m.highestStreamOpenedByPeer < m.firstSid
  remote : isLocal m.perspective m.firstSid = false
  new : m.streams m.firstSid = none
  room : m.numIncomingStreams < m.maxIncomingStreams
  result : m' = { m.enter m.firstSid (newStream m.firstSid) with
    highestStreamOpenedByPeer := m.firstSid }

/-- The parity of the peer's IDs. -/
def remoteParity : Perspective → Nat
  | .server => 1
  | .client => 0

theorem isLocal_eq_false_iff {perspective : Perspective} :
    isLocal perspective id = false ↔ id.toNat % 2 = remoteParity perspective := by
  have hmod : id % 2 = 0 ↔ id.toNat % 2 = 0 := by
    rw [← UInt32.toNat_inj, UInt32.toNat_mod]
    rfl
  rw [Bool.eq_false_iff, ne_eq]
  cases perspective with
  | server =>
    rw [isLocal_server, hmod, remoteParity]
    omega
  | client =>
    rw [isLocal_client, ne_eq, not_not, hmod, remoteParity]

theorem isLocal_add_two (perspective : Perspective) :
    isLocal perspective (id + 2) = isLocal perspective id := by
  have hmod : (id + 2) % 2 = id % 2 := by
    rw [← UInt32.toNat_inj, UInt32.toNat_mod, UInt32.toNat_mod, UInt32.toNat_add]
    simp only [UInt32.reduceToNat]
    omega
  cases perspective with
  | server => exact congrArg (· == 0) hmod
  | client => exact congrArg (· == 1) hmod

theorem toNat_firstSid : m.firstSid.toNat =
    if m.highestStreamOpenedByPeer.toNat = 0 ∧ m.perspective = .server then 1
    else (m.highestStreamOpenedByPeer.toNat + 2) % 2 ^ 32 := by
  have hlt := m.highestStreamOpenedByPeer.toNat_lt
  have hsum : (m.highestStreamOpenedByPeer + 2).toNat =
      (m.highestStreamOpenedByPeer.toNat + 2) % 2 ^ 32 := UInt32.toNat_add _ _
  have htwo : m.highestStreamOpenedByPeer + 2 = 2 ↔ m.highestStreamOpenedByPeer.toNat = 0 := by
    rw [← UInt32.toNat_inj, hsum]
    simp only [UInt32.reduceToNat]
    omega
  simp only [firstSid, htwo]
  split
  · rfl
  · exact hsum

/-- The first stream to be opened is the next one of the peer. -/
theorem PeerIds.firstSid_spec (h : m.PeerIds) (hid : m.highestStreamOpenedByPeer < id)
    (hremote : isLocal m.perspective id = false) :
    m.highestStreamOpenedByPeer < m.firstSid ∧ isLocal m.perspective m.firstSid = false ∧
      m.firstSid ≤ id := by
  have hhighest := h.highest
  rw [← UInt32.toNat_inj] at hhighest
  rw [isLocal_eq_false_iff] at hhighest hremote ⊢
  rw [UInt32.lt_iff_toNat_lt] at hid ⊢
  rw [UInt32.le_iff_toNat_le, toNat_firstSid]
  have hlt := id.toNat_lt
  simp only [UInt32.toNat_zero] at hhighest
  cases hside : m.perspective with
  | server =>
    rw [hside, remoteParity] at hhighest hremote
    rw [remoteParity]
    split
    · omega
    rename_i hne
    have hne' : m.highestStreamOpenedByPeer.toNat ≠ 0 := fun hzero => hne ⟨hzero, rfl⟩
    omega
  | client =>
    rw [hside, remoteParity] at hhighest hremote
    rw [remoteParity, if_neg (by simp)]
    omega

/-- The number of streams that `GetOrOpenStream` has to open. -/
def newStreams (m : StreamTable σ) (id : UInt32) : Nat :=
  (id.toNat - m.highestStreamOpenedByPeer.toNat + 1) / 2

/-- The next streams, after one was opened. -/
theorem Opens.peerIds (h : m.PeerIds) (hopens : Opens newStream m m') : m'.PeerIds := by
  rw [hopens.result]
  refine ⟨fun id hid hremote => ?_, .inr hopens.remote⟩
  change (update m.streams m.firstSid _ id).isSome = true at hid
  by_cases heq : id = m.firstSid
  · exact UInt32.le_of_eq heq
  rw [update_of_ne heq] at hid
  exact UInt32.le_trans (h.below id hid hremote) (UInt32.le_of_lt hopens.higher)

/-- One call of `openRemoteStream` in the loop. -/
theorem PeerIds.opens (h : m.PeerIds) (hid : m.highestStreamOpenedByPeer < id)
    (hremote : isLocal m.perspective id = false)
    (hok : m.openRemoteStream newStream m.firstSid = .ok m') : Opens newStream m m' := by
  obtain ⟨hhigher, hfirst, -⟩ := h.firstSid_spec hid hremote
  have hnew : m.streams m.firstSid = none := by
    by_contra hne
    have hle := h.below m.firstSid (Option.isSome_iff_ne_none.mpr hne) hfirst
    exact UInt32.not_le.mpr hhigher hle
  obtain ⟨hroom, -, heq⟩ := openRemoteStream_ok hok hnew hfirst
  rw [if_pos hhigher] at heq
  exact ⟨hhigher, hfirst, hnew, hroom, heq⟩

theorem Opens.highest (hopens : Opens newStream m m') :
    m'.highestStreamOpenedByPeer = m.firstSid := by
  rw [hopens.result]

theorem Opens.perspective (hopens : Opens newStream m m') : m'.perspective = m.perspective := by
  rw [hopens.result]
  rfl

/-- The loop goes on with the next stream of the peer. -/
theorem Opens.firstSid (hopens : Opens newStream m m') : m'.firstSid = m.firstSid + 2 := by
  have hpos := UInt32.lt_iff_toNat_lt.mp hopens.higher
  rw [← UInt32.toNat_inj, toNat_firstSid, hopens.highest, if_neg, UInt32.toNat_add]
  · rfl
  rintro ⟨hzero, -⟩
  omega

/-- Behind the last ID the loop starts again with the first one, which is refused. -/
theorem openRemoteStream_wrapped (hsid : sid.toNat < 2)
    (hhighest : 2 ^ 32 - 2 ≤ m.highestStreamOpenedByPeer.toNat) :
    ∃ e, m.openRemoteStream newStream sid = .error e := by
  unfold openRemoteStream
  split
  · exact ⟨_, rfl⟩
  rw [if_pos]
  · exact ⟨_, rfl⟩
  rw [UInt32.lt_iff_toNat_lt, UInt32.toNat_add]
  simp only [maxNewStreamIDDelta, UInt32.reduceToNat]
  omega

/-- A stream above the mark is refused only at the limit, unless its ID is at the end of the IDs. -/
theorem openRemoteStream_error {e : StreamsError} (hhigher : m.highestStreamOpenedByPeer < sid)
    (hbound : sid.toNat + 400 < 2 ^ 32) (h : m.openRemoteStream newStream sid = .error e) :
    e = .tooManyOpenStreams := by
  unfold openRemoteStream at h
  split at h
  · cases h
    rfl
  have hdelta : (sid + maxNewStreamIDDelta).toNat = sid.toNat + 400 := by
    rw [UInt32.toNat_add]
    exact Nat.mod_eq_of_lt hbound
  rw [UInt32.lt_iff_toNat_lt] at hhigher
  rw [if_neg (by rw [UInt32.lt_iff_toNat_lt, hdelta]; omega)] at h
  cases h

/-- The loop ends once the stream is opened. -/
theorem openRemoteStreams_last (hid : m.highestStreamOpenedByPeer = id)
    (fuel : Nat) :
    ∃ e, openRemoteStreams newStream id (fuel + 1) (id + 2) m = some (m, e) ∧
      (id.toNat + 400 < 2 ^ 32 → e = none) := by
  unfold openRemoteStreams
  by_cases hle : id + 2 ≤ id
  · have hwrap : (id + 2).toNat = (id.toNat + 2) % 2 ^ 32 := UInt32.toNat_add _ _
    have hlt := id.toNat_lt
    have hle' := UInt32.le_iff_toNat_le.mp hle
    have hfirst : (id + 2).toNat < 2 := by omega
    obtain ⟨e, he⟩ := openRemoteStream_wrapped hfirst
      (show 2 ^ 32 - 2 ≤ m.highestStreamOpenedByPeer.toNat by rw [hid]; omega)
    rw [if_pos hle, he]
    exact ⟨some e, rfl, fun hbound => by omega⟩
  · rw [if_neg hle]
    exact ⟨none, rfl, fun _ => rfl⟩

/-- Rule for the loop of `GetOrOpenStream`: what every opened stream keeps holds at its end.
`P n` says that `n` more streams may be opened. -/
theorem openRemoteStreams_rule (P : Nat → StreamTable σ → Prop) (hpeer : ∀ n m, P n m → m.PeerIds)
    (hopen : ∀ n m m', P (n + 1) m → Opens newStream m m' → P n m')
    {n fuel : Nat} (hfuel : n < fuel) (h : P n m)
    (hid : m.highestStreamOpenedByPeer < id) (hremote : isLocal m.perspective id = false)
    (hn : id.toNat < m.firstSid.toNat + 2 * n) :
    ∃ k m' e, openRemoteStreams newStream id fuel m.firstSid m = some (m', e) ∧ P k m' ∧
      (e = none → m'.highestStreamOpenedByPeer = id) ∧
      (id.toNat + 400 < 2 ^ 32 → e = none ∨ e = some .tooManyOpenStreams) := by
  induction n generalizing m fuel with
  | zero =>
    have hle := UInt32.le_iff_toNat_le.mp ((hpeer _ _ h).firstSid_spec hid hremote).2.2
    omega
  | succ n ih =>
    obtain ⟨fuel, rfl⟩ : ∃ f, fuel = f + 1 := ⟨fuel - 1, by omega⟩
    obtain ⟨hhigher, hfirst, hle⟩ := (hpeer _ _ h).firstSid_spec hid hremote
    rw [openRemoteStreams, if_pos hle]
    cases hstep : m.openRemoteStream newStream m.firstSid with
    | error e =>
      have hle' := UInt32.le_iff_toNat_le.mp hle
      refine ⟨n + 1, m, some e, rfl, h, nofun, fun hbound => .inr (congrArg some ?_)⟩
      exact openRemoteStream_error hhigher (by omega) hstep
    | ok m' =>
      have hopens := (hpeer _ _ h).opens hid hremote hstep
      have hnext := hopen n m m' h hopens
      simp only
      by_cases hlast : m.firstSid = id
      · have hhighest : m'.highestStreamOpenedByPeer = id := hopens.highest.trans hlast
        obtain ⟨fuel, rfl⟩ : ∃ f, fuel = f + 1 := ⟨fuel - 1, by omega⟩
        obtain ⟨e, he, hend⟩ := openRemoteStreams_last hhighest fuel
        rw [hlast, he]
        exact ⟨n, m', e, rfl, hnext, fun _ => hhighest, fun hbound => .inl (hend hbound)⟩
      have hlt : m'.highestStreamOpenedByPeer < id := by
        rw [hopens.highest]
        exact UInt32.lt_of_le_of_ne hle hlast
      have hremote' : isLocal m'.perspective id = false := by
        rw [hopens.perspective]
        exact hremote
      have hhigher' := ((hpeer _ _ hnext).firstSid_spec hlt hremote').1
      have hsum : (m.firstSid + 2).toNat = (m.firstSid.toNat + 2) % 2 ^ 32 := UInt32.toNat_add _ _
      rw [hopens.highest, hopens.firstSid, UInt32.lt_iff_toNat_lt] at hhigher'
      have hbound := (m.firstSid).toNat_lt
      rw [← hopens.firstSid]
      refine ih (by omega) hnext hlt hremote' ?_
      rw [hopens.firstSid]
      omega

/-- The streams up to `id` are as many as `newStreams` says. -/
theorem PeerIds.newStreams_spec (h : m.PeerIds) (hid : m.highestStreamOpenedByPeer < id)
    (hremote : isLocal m.perspective id = false) :
    id.toNat < m.firstSid.toNat + 2 * m.newStreams id ∧ m.newStreams id < id.toNat + 2 := by
  obtain ⟨hhigher, -, -⟩ := h.firstSid_spec hid hremote
  rw [UInt32.lt_iff_toNat_lt] at hid hhigher
  rw [toNat_firstSid] at hhigher ⊢
  unfold newStreams
  split at hhigher
  · rename_i hzero
    rw [if_pos hzero]
    omega
  · rename_i hzero
    rw [if_neg hzero]
    have hlt := m.highestStreamOpenedByPeer.toNat_lt
    omega

/-- A stream of this side, or one that the peer has opened before, opens nothing. -/
theorem getOrOpenStream_known (newStream : UInt32 → σ)
    (h : isLocal m.perspective id = true ∨ id ≤ m.highestStreamOpenedByPeer) :
    ∃ r, m.getOrOpenStream newStream id = some (m, r) := by
  unfold getOrOpenStream
  split
  · exact ⟨_, rfl⟩
  split
  · split
    · exact ⟨_, rfl⟩
    · exact ⟨_, rfl⟩
  · rename_i hlocal
    rw [if_pos (h.resolve_left hlocal)]
    exact ⟨_, rfl⟩

/-- What every opened stream keeps, `GetOrOpenStream` keeps, and it returns. -/
theorem getOrOpenStream_rule (newStream : UInt32 → σ) (P : Nat → StreamTable σ → Prop)
    (hpeer : ∀ n m, P n m → m.PeerIds)
    (hopen : ∀ n m m', P (n + 1) m → Opens newStream m m' → P n m')
    (h : P (m.newStreams id) m) (hremote : isLocal m.perspective id = false)
    (hid : m.highestStreamOpenedByPeer < id) :
    ∃ k m' r, m.getOrOpenStream newStream id = some (m', r) ∧ P k m' ∧
      (∀ s, r = .ok s → m'.highestStreamOpenedByPeer = id ∧ s = m'.streams id) ∧
      (id.toNat + 400 < 2 ^ 32 → ∀ e, r = .error e → e = .tooManyOpenStreams) := by
  have hnew : m.streams id = none := by
    by_contra hne
    exact UInt32.not_le.mpr hid ((hpeer _ _ h).below id (Option.isSome_iff_ne_none.mpr hne) hremote)
  obtain ⟨hn, hfuel⟩ := (hpeer _ _ h).newStreams_spec hid hremote
  obtain ⟨k, m', e, heq, hP, hlast, herror⟩ :=
    openRemoteStreams_rule P hpeer hopen hfuel h hid hremote hn
  unfold getOrOpenStream
  rw [hnew]
  simp only [hremote, Bool.false_eq_true, if_false, UInt32.not_le.mpr hid, heq, Option.map_some]
  refine ⟨k, m', _, rfl, hP, fun s hs => ?_, fun hbound e' hr => ?_⟩
  · cases e with
    | none => exact ⟨hlast rfl, (Except.ok.inj hs).symm⟩
    | some e => cases hs
  · cases e with
    | none => cases hr
    | some e =>
      cases hr
      simpa using herror hbound

/-- The stream that `GetOrOpenStream` returns is in the table. -/
theorem getOrOpenStream_found {s : σ}
    (h : m.getOrOpenStream newStream id = some (m', .ok (some s))) : m'.streams id = some s := by
  unfold getOrOpenStream at h
  split at h
  · rename_i s' hs
    cases h
    exact hs
  split at h
  · split at h
    · cases h
    · cases h
  split at h
  · cases h
  obtain ⟨⟨m₁, err⟩, -, heq⟩ := Option.map_eq_some_iff.mp h
  obtain ⟨rfl, hr⟩ := Prod.mk.inj heq
  cases err with
  | none => exact Except.ok.inj hr
  | some e => cases hr

/-! ### Between calls -/

/-- The state of the table between two calls. -/
structure Orderly (m : StreamTable σ) : Prop where
  lists : Lists m.streams m.openStreams
  peerIds : m.PeerIds
  nextLocal : isLocal m.perspective m.nextStream = true
  /-- The peer has no stream 0. -/
  zero : isLocal m.perspective 0 = false → m.streams 0 = none

theorem orderly_new (perspective : Perspective) (maxOutgoing maxIncoming : UInt32) :
    Orderly (newStreamsMap perspective maxOutgoing maxIncoming : StreamTable σ) where
  lists := (counted_new perspective maxOutgoing maxIncoming).lists
  peerIds := ⟨fun _ h _ => by simp [newStreamsMap] at h, .inl rfl⟩
  nextLocal := match perspective with
    | .server => show isLocal .server 2 = true by decide
    | .client => show isLocal .client 1 = true by decide
  zero := fun _ => rfl

theorem Orderly.opens (h : m.Orderly) (hopens : Opens newStream m m') : m'.Orderly := by
  have hpos : (0 : UInt32) ≠ m.firstSid := by
    intro hzero
    have hhigher := hopens.higher
    rw [← hzero] at hhigher
    exact absurd hhigher UInt32.not_lt_zero
  have hids := hopens.peerIds h.peerIds
  have hlists := h.lists.update_some hopens.new (newStream m.firstSid)
  have hresult := hopens.result
  subst hresult
  refine ⟨hlists, hids, h.nextLocal, fun hremote => ?_⟩
  change update m.streams m.firstSid _ 0 = none
  rw [update_of_ne hpos]
  exact h.zero hremote

theorem Orderly.openStream (newStream : UInt32 → σ) (h : m.Orderly) :
    (m.openStream newStream).1.Orderly := by
  have hnext := (isLocal_add_two m.perspective).trans h.nextLocal
  rcases openStream_eq with heq | ⟨numOutgoing, numIncoming, heq⟩
  · rw [heq]
    exact h
  rw [heq]
  unfold putStream
  split
  · exact ⟨h.lists, ⟨h.peerIds.below, h.peerIds.highest⟩, hnext, h.zero⟩
  rename_i hnew
  rw [Option.not_isSome_iff_eq_none] at hnew
  refine ⟨h.lists.update_some hnew _, ⟨fun id hid hremote => ?_, h.peerIds.highest⟩, hnext,
    fun hremote => ?_⟩
  · change (update m.streams m.nextStream _ id).isSome = true at hid
    rw [update_of_ne fun heq => ?_] at hid
    · exact h.peerIds.below id hid hremote
    rw [heq] at hremote
    exact Bool.noConfusion (h.nextLocal.symm.trans hremote)
  · change update m.streams m.nextStream _ 0 = none
    rw [update_of_ne fun heq => ?_]
    · exact h.zero hremote
    rw [heq] at hremote
    exact Bool.noConfusion (h.nextLocal.symm.trans hremote)

/-- A stream of the table is replaced. -/
theorem Orderly.store (h : m.Orderly) (hid : (m.streams id).isSome = true) (s : σ) :
    Orderly { m with streams := update m.streams id (some s) } := by
  have hsome : ∀ id', (update m.streams id (some s) id').isSome = (m.streams id').isSome := by
    intro id'
    by_cases heq : id' = id
    · rw [heq, update_self, hid]
      rfl
    · rw [update_of_ne heq]
  refine ⟨h.lists.of_isSome hsome, ⟨fun id' hid' => ?_, h.peerIds.highest⟩, h.nextLocal,
    fun hremote => ?_⟩
  · exact h.peerIds.below id' ((hsome id').symm.trans hid')
  rw [← Option.not_isSome_iff_eq_none, hsome, h.zero hremote]
  simp

theorem Orderly.removeStream (h : m.Orderly) (hok : m.removeStream id = .ok m') : m'.Orderly := by
  obtain ⟨-, heq⟩ := removeStream_ok hok
  have hsub : ∀ id', update m.streams id none id' = none ∨
      update m.streams id none id' = m.streams id' := by
    intro id'
    by_cases hid' : id' = id
    · rw [hid', update_self]
      exact .inl rfl
    · rw [update_of_ne hid']
      exact .inr rfl
  rw [heq]
  refine ⟨h.lists.update_none id, ⟨fun id' hid' => ?_, h.peerIds.highest⟩, h.nextLocal,
    fun hremote => ?_⟩
  · change (update m.streams id none id').isSome = true at hid'
    rcases hsub id' with hnone | hsame
    · rw [hnone] at hid'
      cases hid'
    · rw [hsame] at hid'
      exact h.peerIds.below id' hid'
  · rcases hsub 0 with hnone | hsame
    · exact hnone
    · exact hsame.trans (h.zero hremote)

end StreamTable

end RlncStreaming.Quic
