import RlncStreaming.Quic.SessionStreams

/-!
`AcceptStream` in a session (`streams_map.go`, `session.go`).

`AcceptStream` waits for one ID after the other. Streams of the peer are opened in the order of
their IDs, so that the stream it waits for is there before any later one. But
`garbageCollectStreams` also removes streams that have not been accepted: one that the peer
resets at once is finished, and `AcceptStream` then waits for it for ever
(`accept_streams_stuck`). If streams are accepted before they are removed, it returns the
streams of the peer in order and waits only if it has returned all of them (`accept_streams`).
-/

namespace RlncStreaming.Quic

open Lib Relation StreamTable Function UInt32

/-- A session with the IDs of the streams that `AcceptStream` has returned, and the errors of the
frames that were handled. -/
structure Acceptance where
  session : SessionStreams
  accepted : List Nat
  errors : List StreamLayerError

namespace Acceptance

def new (perspective : Perspective) (maxOutgoing maxIncoming : UInt32) (params : FlowParameters) :
    Acceptance :=
  ⟨SessionStreams.new perspective maxOutgoing maxIncoming params, [], []⟩

def step (a : Acceptance) (call : SessionCall) : Acceptance where
  session := (a.session.step call).1
  accepted :=
    match call with
    | .acceptStream =>
      match a.session.table.acceptStream with
      | some (_, .ok str) => a.accepted ++ [str.streamID]
      | _ => a.accepted
    | _ => a.accepted
  errors := a.errors ++ (a.session.step call).2.toList

/-- No stream of the peer is removed before it was accepted, and the IDs of accepted streams do
not wrap around. -/
def Fits (a : Acceptance) : SessionCall → Prop
  | .garbageCollectStreams => ∀ id str, a.session.table.streams id = some str →
      str.finished = true → isLocal a.session.table.perspective id = false →
        id < a.session.table.nextStreamToAccept
  | .acceptStream => (a.session.table.streams a.session.table.nextStreamToAccept).isSome = true →
      a.session.table.nextStreamToAccept.toNat + 2 < 2 ^ 32
  | _ => True

/-! ### The invariant -/

/-- The streams of the peer below `nextStreamToAccept` were accepted, and the others that it has
opened are in the table. -/
structure Accepts (perspective : Perspective) (m : StreamTable SessionStream)
    (accepted : List Nat) : Prop where
  orderly : m.Orderly
  side : m.perspective = perspective
  isOpen : m.closeErr = none
  streamIDs : ∀ id str, m.streams id = some str → str.streamID = id.toNat
  next : isLocal perspective m.nextStreamToAccept = false
  pending : ∀ id, isLocal perspective id = false → m.nextStreamToAccept ≤ id →
    id ≤ m.highestStreamOpenedByPeer → (m.streams id).isSome = true
  increasing : accepted.Pairwise (· < ·)
  mem_iff : ∀ n, n ∈ accepted ↔
    0 < n ∧ n % 2 = remoteParity perspective ∧ n < m.nextStreamToAccept.toNat

variable {perspective : Perspective} {m m' : StreamTable SessionStream} {accepted : List Nat}

theorem accepts_new (maxOutgoing maxIncoming : UInt32) :
    Accepts perspective (newStreamsMap perspective maxOutgoing maxIncoming) [] where
  orderly := orderly_new perspective maxOutgoing maxIncoming
  side := rfl
  isOpen := rfl
  streamIDs := fun id str h => by simp [newStreamsMap] at h
  next := match perspective with
    | .server => show isLocal .server 1 = false by decide
    | .client => show isLocal .client 2 = false by decide
  pending := fun id _ hnext hhighest => by
    have hle := UInt32.le_trans hnext hhighest
    cases perspective with
    | server => exact absurd hle (show ¬ (1 : UInt32) ≤ 0 by decide)
    | client => exact absurd hle (show ¬ (2 : UInt32) ≤ 0 by decide)
  increasing := .nil
  mem_iff := fun n => by
    cases perspective with
    | server =>
      simp only [newStreamsMap, remoteParity, reduceToNat, List.not_mem_nil, false_iff]
      omega
    | client =>
      simp only [newStreamsMap, remoteParity, reduceToNat, List.not_mem_nil, false_iff]
      omega

theorem streamID_new (id : UInt32) : (newSessionStream id).streamID = id.toNat := rfl

section

variable (h : Accepts perspective m accepted)

include h

/-- A stream is put into the table, or replaced. -/
theorem Accepts.put (horderly : m'.Orderly) {id : UInt32} {str : SessionStream}
    (hstr : str.streamID = id.toNat)
    (hstreams : m'.streams = update m.streams id (some str))
    (hside : m'.perspective = m.perspective) (hclose : m'.closeErr = m.closeErr)
    (hnext : m'.nextStreamToAccept = m.nextStreamToAccept)
    (hhighest : ∀ id', isLocal perspective id' = false → id' ≠ id →
      id' ≤ m'.highestStreamOpenedByPeer → id' ≤ m.highestStreamOpenedByPeer) :
    Accepts perspective m' accepted := by
  refine ⟨horderly, hside.trans h.side, hclose.trans h.isOpen, ?_, ?_, ?_, h.increasing, ?_⟩
  · rw [hstreams]
    refine (forall_update_iff m.streams fun id o =>
      ∀ str, o = some str → str.streamID = id.toNat).mpr ⟨?_, fun id _ => h.streamIDs id⟩
    rintro str ⟨⟩
    exact hstr
  · rw [hnext]
    exact h.next
  · rw [hstreams, hnext]
    refine (forall_update_iff m.streams fun id o => isLocal perspective id = false →
      m.nextStreamToAccept ≤ id → id ≤ m'.highestStreamOpenedByPeer → o.isSome = true).mpr
      ⟨fun _ _ _ => rfl, ?_⟩
    intro id' hne hremote hle hid'
    exact h.pending id' hremote hle (hhighest id' hremote hne hid')
  · rw [hnext]
    exact h.mem_iff

theorem Accepts.opens (hopens : Opens newSessionStream m m') : Accepts perspective m' accepted := by
  have horderly := h.orderly.opens hopens
  have hresult := hopens.result
  subst hresult
  refine h.put horderly (streamID_new m.firstSid) rfl rfl rfl rfl ?_
  -- no stream of the peer lies between the highest one and the next
  intro id hremote hne hle
  apply UInt32.not_lt.mp
  intro hlt
  rw [← h.side] at hremote
  exact hne (UInt32.le_antisymm hle (h.orderly.peerIds.firstSid_spec hlt hremote).2.2)

theorem Accepts.own : Accepts perspective (m.openStream newSessionStream).1 accepted := by
  have horderly := h.orderly.openStream newSessionStream
  rcases openStream_eq with heq | ⟨outgoing, incoming, heq⟩
  · rw [heq]
    exact h
  rw [heq] at horderly ⊢
  unfold putStream at horderly ⊢
  split at horderly
  · rename_i hsome
    rw [if_pos hsome]
    exact { h with orderly := horderly }
  · rename_i hnew
    rw [if_neg hnew]
    exact h.put horderly (streamID_new m.nextStream) rfl rfl rfl rfl fun _ _ _ hle => hle

theorem Accepts.tableStep (hstep : SessionStreams.TableStep m m') :
    Accepts perspective m' accepted := by
  cases hstep with
  | remote hopens => exact h.opens hopens
  | own => exact h.own
  | store hstr str' hid =>
    have horderly := h.orderly.store (by rw [hstr]; rfl) str'
    exact h.put horderly (hid.trans (h.streamIDs _ _ hstr)) rfl rfl rfl rfl fun _ _ _ hle => hle

theorem Accepts.tableSteps (hsteps : ReflTransGen SessionStreams.TableStep m m') :
    Accepts perspective m' accepted := by
  induction hsteps with
  | refl => exact h
  | tail _ hstep ih => exact ih.tableStep hstep

theorem Accepts.removeStream {id : UInt32}
    (hid : isLocal perspective id = false → id < m.nextStreamToAccept)
    (hok : m.removeStream id = .ok m') : Accepts perspective m' accepted := by
  have horderly := h.orderly.removeStream hok
  obtain ⟨-, heq⟩ := removeStream_ok hok
  rw [heq] at horderly ⊢
  refine { h with orderly := horderly, streamIDs := ?_, pending := ?_ }
  · refine (forall_update_iff m.streams fun id o =>
      ∀ str, o = some str → str.streamID = id.toNat).mpr ⟨?_, fun id _ => h.streamIDs id⟩
    rintro str ⟨⟩
  · refine (forall_update_iff m.streams fun id o => isLocal perspective id = false →
      m.nextStreamToAccept ≤ id → id ≤ m.highestStreamOpenedByPeer → o.isSome = true).mpr
      ⟨fun hremote hle _ => ?_, fun id _ => h.pending id⟩
    exact absurd (hid hremote) (UInt32.not_lt.mpr hle)

/-- `AcceptStream` returns the next stream. -/
theorem Accepts.accept {str : SessionStream} (hstr : m.streams m.nextStreamToAccept = some str)
    (hlast : m.nextStreamToAccept.toNat + 2 < 2 ^ 32) :
    Accepts perspective { m with nextStreamToAccept := m.nextStreamToAccept + 2 }
      (accepted ++ [str.streamID]) := by
  have hnext : (m.nextStreamToAccept + 2).toNat = m.nextStreamToAccept.toNat + 2 := by
    rw [UInt32.toNat_add]
    exact Nat.mod_eq_of_lt hlast
  have hparity := isLocal_eq_false_iff.mp h.next
  -- the peer has no stream 0
  have hpos : 0 < m.nextStreamToAccept.toNat := by
    apply Nat.pos_of_ne_zero
    intro hzero
    have hid : m.nextStreamToAccept = 0 := UInt32.toNat_inj.mp hzero
    have hremote := h.next
    rw [hid] at hstr hremote
    rw [h.orderly.zero (by rw [h.side]; exact hremote)] at hstr
    cases hstr
  rw [h.streamIDs _ str hstr]
  refine ⟨⟨h.orderly.lists, ⟨h.orderly.peerIds.below, h.orderly.peerIds.highest⟩,
    h.orderly.nextLocal, h.orderly.zero⟩, h.side, h.isOpen, h.streamIDs, ?_, ?_, ?_, ?_⟩
  · exact (isLocal_add_two perspective).trans h.next
  · intro id hremote hle
    apply h.pending id hremote
    change m.nextStreamToAccept + 2 ≤ id at hle
    rw [le_iff_toNat_le] at hle ⊢
    omega
  · rw [List.pairwise_append]
    refine ⟨h.increasing, List.pairwise_singleton _ _, fun n hn n' hn' => ?_⟩
    rw [List.mem_singleton.mp hn']
    exact ((h.mem_iff n).mp hn).2.2
  · intro n
    rw [List.mem_append, h.mem_iff, List.mem_singleton]
    change _ ↔ _ ∧ _ ∧ n < (m.nextStreamToAccept + 2).toNat
    omega

end

/-! ### Whole runs -/

variable {a : Acceptance} {call : SessionCall}

/-- `garbageCollectStreams`, if it removes only streams that were accepted. -/
theorem Accepts.collect (h : Accepts perspective a.session.table accepted)
    (hfit : a.Fits .garbageCollectStreams) :
    Accepts perspective a.session.garbageCollectStreams.table accepted := by
  refine (SessionStreams.collect_rule (fun s => Accepts perspective s.table accepted ∧
    ∀ id str, s.table.streams id = some str → str.finished = true →
      isLocal perspective id = false → id < s.table.nextStreamToAccept) ?_ _ ⟨h, ?_⟩).1
  · rintro s id str table ⟨hs, hfinished⟩ hstr hdone hok
    refine ⟨hs.removeStream (hfinished id str hstr hdone) hok, ?_⟩
    obtain ⟨-, heq⟩ := removeStream_ok hok
    rw [heq]
    exact (forall_update_iff s.table.streams fun id o => ∀ str, o = some str →
      str.finished = true → isLocal perspective id = false →
        id < s.table.nextStreamToAccept).mpr ⟨by rintro str ⟨⟩, fun id _ => hfinished id⟩
  · rw [← h.side]
    exact hfit

theorem Accepts.step (h : Accepts perspective a.session.table a.accepted) (hfit : a.Fits call) :
    Accepts perspective (a.step call).session.table (a.step call).accepted := by
  cases call with
  | acceptStream =>
    cases hstr : a.session.table.streams a.session.table.nextStreamToAccept with
    | none =>
      have hwaits := (acceptStream_eq_none_iff h.isOpen).mpr hstr
      simp only [Acceptance.step, SessionStreams.step, hwaits]
      exact h
    | some str =>
      simp only [Acceptance.step, SessionStreams.step, acceptStream_some h.isOpen hstr]
      exact h.accept hstr (hfit (by rw [hstr]; rfl))
  | garbageCollectStreams => exact h.collect hfit
  | _ => exact h.tableSteps (SessionStreams.table_step h.orderly.peerIds trivial)

/-- In every run whose calls all meet `Fits`, `AcceptStream` has returned streams of the peer in
the order of their IDs, each once, and it waits only if all streams of the peer that are open
were returned. -/
theorem accept_streams (perspective : Perspective) (maxOutgoing maxIncoming : UInt32)
    (params : FlowParameters) (calls : List SessionCall)
    (hfit : AllFit step Fits (new perspective maxOutgoing maxIncoming params) calls) :
    let a := run step (new perspective maxOutgoing maxIncoming params) calls
    a.accepted.Pairwise (· < ·) ∧
      (∀ n ∈ a.accepted, ∃ id : UInt32, id.toNat = n ∧ isLocal perspective id = false) ∧
      (a.session.table.acceptStream = none → ∀ id, (a.session.table.streams id).isSome = true →
        isLocal perspective id = false → id.toNat ∈ a.accepted) := by
  intro a
  have h : Accepts perspective a.session.table a.accepted :=
    run_inv Fits (fun _ a => Accepts perspective a.session.table a.accepted)
      (fun _ _ _ h hfit => h.step hfit) calls [] _ (accepts_new maxOutgoing maxIncoming)
      hfit
  refine ⟨h.increasing, fun n hn => ?_, fun hwaits id hid hremote => ?_⟩
  · obtain ⟨-, hparity, hlt⟩ := (h.mem_iff n).mp hn
    have hn' : n.toUInt32.toNat = n := by
      rw [Nat.toUInt32_eq, toNat_ofNat']
      exact Nat.mod_eq_of_lt (Nat.lt_trans hlt (toNat_lt _))
    exact ⟨n.toUInt32, hn', isLocal_eq_false_iff.mpr (by rw [hn']; exact hparity)⟩
  · -- the stream that it waits for was not opened yet
    have hnone := (acceptStream_eq_none_iff h.isOpen).mp hwaits
    have hbelow := h.orderly.peerIds.below id hid (by rw [h.side]; exact hremote)
    have hlt : id < a.session.table.nextStreamToAccept := by
      apply UInt32.not_le.mp
      intro hle
      have hpending := h.pending _ h.next (UInt32.le_refl _) (UInt32.le_trans hle hbelow)
      rw [hnone] at hpending
      cases hpending
    have hpos : 0 < id.toNat := by
      apply Nat.pos_of_ne_zero
      intro hzero
      rw [UInt32.toNat_inj.mp (hzero.trans UInt32.toNat_zero.symm)] at hid hremote
      rw [h.orderly.zero (by rw [h.side]; exact hremote)] at hid
      cases hid
    exact (h.mem_iff _).mpr ⟨hpos, isLocal_eq_false_iff.mp hremote, lt_iff_toNat_lt.mp hlt⟩

/-- A server accepts the crypto stream and stream 3 before the latter is reset and removed. -/
theorem accept_streams_in_time :
    let calls := [.getOrOpenStream 1, .acceptStream, .rstStreamFrame 3 0 0, .acceptStream,
      .garbageCollectStreams, .streamFrame 5 ⟨0, [7], false⟩, .acceptStream]
    let a := run step (new .server 10 10 ⟨100, 100, 100, 100, 100, 100⟩) calls
    AllFit step Fits (new .server 10 10 ⟨100, 100, 100, 100, 100, 100⟩) calls ∧
      a.accepted.Pairwise (· < ·) ∧
      (a.session.table.acceptStream = none → ∀ id, (a.session.table.streams id).isSome = true →
        isLocal .server id = false → id.toNat ∈ a.accepted) := by
  intro calls a
  have hfit : AllFit step Fits (new .server 10 10 ⟨100, 100, 100, 100, 100, 100⟩) calls := by
    refine .cons trivial (.cons (fun _ => by decide) (.cons trivial (.cons (fun _ => by decide)
      (.cons ?_ (.cons trivial (.cons (fun _ => by decide) .nil))))))
    -- only the streams 1 and 3 are open
    intro id str hstr _ _
    by_cases h3 : id = 3
    · rw [h3]
      exact show (3 : UInt32) < 5 by decide
    by_cases h1 : id = 1
    · rw [h1]
      exact show (1 : UInt32) < 5 by decide
    · have hnone := ((update_of_ne h3 _ _).trans
        ((update_of_ne h3 _ _).trans (update_of_ne h1 _ _))).symm.trans hstr
      cases hnone
  obtain ⟨hincreasing, -, hwaits⟩ :=
    accept_streams .server 10 10 ⟨100, 100, 100, 100, 100, 100⟩ calls hfit
  exact ⟨hfit, hincreasing, hwaits⟩

/-- A server accepts the crypto stream. The client resets stream 3 before it was accepted, the
stream is removed, and `AcceptStream` waits for it although stream 5 is open. -/
theorem accept_streams_stuck :
    let a := run step (new .server 10 10 ⟨100, 100, 100, 100, 100, 100⟩)
      [.getOrOpenStream 1, .acceptStream, .rstStreamFrame 3 0 0, .garbageCollectStreams,
        .streamFrame 5 ⟨0, [7], false⟩, .acceptStream]
    a.errors = [] ∧ a.accepted = [1] ∧ a.session.table.acceptStream.isNone = true ∧
      (a.session.table.streams 5).isSome = true ∧ isLocal .server 5 = false := by
  refine ⟨?_, ?_, ?_, ?_, ?_⟩
  · rfl
  · rfl
  · rfl
  · rfl
  · rfl

end Acceptance

end RlncStreaming.Quic
