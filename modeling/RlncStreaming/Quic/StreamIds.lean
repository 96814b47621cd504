import RlncStreaming.Quic.StreamLimits

/-!
Closed streams and streams that were never opened (`streams_map.go`: `GetOrOpenStream`).

The table does not remember removed streams. It infers them from two marks: `nextStream`, for the
streams of this side, and `highestStreamOpenedByPeer`. A history of the streams that were opened and
removed, beside the table, says what it should answer (`Told`).

`nextStream` is the ID of a stream that is not yet open, and yet a frame for it is taken for one of
a closed stream, as is one for stream 0 (`unopened_stream_ignored`). At the end of the IDs the marks
wrap around. Apart from that the marks and the history agree in every run (`streams_told_apart`).
-/

namespace RlncStreaming.Quic

open Lib List Function

variable {σ : Type}

/-! ### The loop of `GetOrOpenStream` -/

namespace StreamTable

variable {m m' : StreamTable σ} {newStream : UInt32 → σ} {id sid : UInt32} {ids : List UInt32}

/-- The next streams of the peer are opened, one after the other. -/
inductive OpensAll (newStream : UInt32 → σ) : StreamTable σ → List UInt32 → StreamTable σ → Prop
  | nil (m : StreamTable σ) : OpensAll newStream m [] m
  | cons {m m₁ m' : StreamTable σ} {ids : List UInt32} (first : Opens newStream m m₁)
      (rest : OpensAll newStream m₁ ids m') : OpensAll newStream m (m.firstSid :: ids) m'

section

variable (h : OpensAll newStream m ids m')

include h

theorem OpensAll.orderly (hm : m.Orderly) : m'.Orderly := by
  induction h with
  | nil => exact hm
  | cons first rest ih => exact ih (hm.opens first)

/-- What the loop leaves as it is. -/
theorem OpensAll.same :
    m'.perspective = m.perspective ∧ m'.nextStream = m.nextStream ∧ m'.closeErr = m.closeErr := by
  induction h with
  | nil => exact ⟨rfl, rfl, rfl⟩
  | cons first rest ih =>
    rw [first.result] at ih
    exact ih

theorem OpensAll.openStreams : m'.openStreams = m.openStreams ++ ids := by
  induction h with
  | nil => exact (append_nil _).symm
  | cons first rest ih =>
    rw [ih, first.result, append_cons]
    rfl

/-- The streams that are opened are those of the peer between the old and the new mark. -/
theorem OpensAll.mem_iff (hm : m.PeerIds) :
    m.highestStreamOpenedByPeer ≤ m'.highestStreamOpenedByPeer ∧ ∀ sid, sid ∈ ids ↔
      isLocal m.perspective sid = false ∧ m.highestStreamOpenedByPeer < sid ∧
        sid ≤ m'.highestStreamOpenedByPeer := by
  induction h with
  | nil m =>
    refine ⟨UInt32.le_refl _, fun sid => iff_of_false not_mem_nil ?_⟩
    rintro ⟨-, hlt, hle⟩
    exact UInt32.not_le.mpr hlt hle
  | @cons m m₁ m' ids first rest ih =>
    obtain ⟨hmark, hids⟩ := ih (first.peerIds hm)
    rw [first.highest] at hmark
    refine ⟨UInt32.le_trans (UInt32.le_of_lt first.higher) hmark, fun sid => ?_⟩
    rw [mem_cons, hids, first.highest, first.perspective]
    constructor
    · rintro (rfl | ⟨hremote, hlt, hle⟩)
      · exact ⟨first.remote, first.higher, hmark⟩
      · exact ⟨hremote, UInt32.lt_trans first.higher hlt, hle⟩
    · rintro ⟨hremote, hlt, hle⟩
      by_cases heq : sid = m.firstSid
      · exact .inl heq
      have hfirst := (hm.firstSid_spec hlt hremote).2.2
      exact .inr ⟨hremote, UInt32.lt_of_le_of_ne hfirst (Ne.symm heq), hle⟩

theorem OpensAll.nodup (hm : m.PeerIds) : ids.Nodup := by
  induction h with
  | nil => exact nodup_nil
  | cons first rest ih =>
    have hrest := first.peerIds hm
    refine nodup_cons.mpr ⟨fun hmem => ?_, ih hrest⟩
    obtain ⟨-, hlt, -⟩ := ((rest.mem_iff hrest).2 _).mp hmem
    rw [first.highest] at hlt
    exact UInt32.lt_irrefl _ hlt

/-- The new streams are in the table, and the others as before. -/
theorem OpensAll.streams (hm : m.PeerIds) (sid : UInt32) :
    m'.streams sid = if sid ∈ ids then some (newStream sid) else m.streams sid := by
  induction h with
  | nil => rfl
  | @cons m m₁ m' ids first rest ih =>
    have hstreams : m₁.streams = update m.streams m.firstSid (some (newStream m.firstSid)) := by
      rw [first.result]
      rfl
    rw [ih (first.peerIds hm), hstreams]
    by_cases hmem : sid ∈ ids
    · rw [if_pos hmem, if_pos (mem_cons_of_mem _ hmem)]
    rw [if_neg hmem]
    by_cases heq : sid = m.firstSid
    · rw [heq, update_self, if_pos mem_cons_self]
    rw [update_of_ne heq, if_neg]
    rintro (_ | ⟨_, hmem'⟩)
    · exact heq rfl
    · exact hmem hmem'

theorem OpensAll.snoc {m'' : StreamTable σ} (last : Opens newStream m' m'') :
    OpensAll newStream m (ids ++ [m'.firstSid]) m'' := by
  induction h with
  | nil m => exact .cons last (.nil m'')
  | cons first _ ih => exact .cons first (ih last)

end

/-- `GetOrOpenStream` for a stream of the peer above the mark. -/
theorem getOrOpenStream_new (hm : m.PeerIds)
    (hid : m.highestStreamOpenedByPeer < id) (hremote : isLocal m.perspective id = false)
    (hbound : id.toNat + 400 < 2 ^ 32) :
    ∃ ids m', OpensAll newStream m ids m' ∧
      ((m'.highestStreamOpenedByPeer = id ∧
          m.getOrOpenStream newStream id = some (m', .ok (m'.streams id))) ∨
        m.getOrOpenStream newStream id = some (m', .error .tooManyOpenStreams)) := by
  obtain ⟨-, m', r, heq, ⟨-, ids, hall⟩, hok, herror⟩ := getOrOpenStream_rule newStream
    (fun _ m₁ => m₁.PeerIds ∧ ∃ ids, OpensAll newStream m ids m₁) (fun _ _ h => h.1)
    (fun _ _ _ ⟨hpeer, _, hall⟩ hopens => ⟨hopens.peerIds hpeer, _, hall.snoc hopens⟩)
    ⟨hm, [], .nil m⟩ hremote hid
  refine ⟨ids, m', hall, ?_⟩
  cases r with
  | ok str =>
    obtain ⟨hhighest, rfl⟩ := hok str rfl
    exact .inl ⟨hhighest, heq⟩
  | error e =>
    rw [herror hbound e rfl] at heq
    exact .inr heq

/-! ### The history -/

/-- The streams that a call creates: the next one of this side, or those of the peer that are added
to the list of open streams. -/
def creates (newStream : UInt32 → σ) (m : StreamTable σ) : StreamCall → List UInt32
  | .openStream =>
    match (m.openStream newStream).2 with
    | .ok _ => [m.nextStream]
    | .error _ => []
  | .getOrOpenStream id =>
    (m.step newStream (.getOrOpenStream id)).openStreams.drop m.openStreams.length
  | .removeStream _ => []

/-- The streams that a call removes. -/
def removes (m : StreamTable σ) : StreamCall → List UInt32
  | .removeStream id => if (m.streams id).isSome then [id] else []
  | _ => []

/-- The call does not reach the end of the IDs, and asks neither for stream 0 nor for the stream
that this side opens next. -/
def Clear (m : StreamTable σ) : StreamCall → Prop
  | .openStream => m.nextStream.toNat + 2 < 2 ^ 32
  | .getOrOpenStream id => id ≠ 0 ∧ id ≠ m.nextStream ∧
      (isLocal m.perspective id = false → m.highestStreamOpenedByPeer < id →
        id.toNat + 400 < 2 ^ 32)
  | .removeStream _ => True

end StreamTable

open StreamTable

/-- The table with its history: the streams that were opened, in order, and removed. -/
structure StreamLog (σ : Type) where
  table : StreamTable σ
  opened : List UInt32
  removed : List UInt32

namespace StreamLog

/-- A new table. -/
def new (perspective : Perspective) (maxOutgoing maxIncoming : UInt32) : StreamLog σ :=
  ⟨newStreamsMap perspective maxOutgoing maxIncoming, [], []⟩

/-- A call, and its record. -/
def step (newStream : UInt32 → σ) (h : StreamLog σ) (call : StreamCall) : StreamLog σ :=
  ⟨h.table.step newStream call, h.opened ++ h.table.creates newStream call,
    h.removed ++ h.table.removes call⟩

/-- The marks of the table and its streams agree with the history. -/
structure Recorded (h : StreamLog σ) : Prop where
  orderly : h.table.Orderly
  isOpen : h.table.closeErr = none
  own_iff : ∀ id, isLocal h.table.perspective id = true →
    (id ∈ h.opened ↔ id ≠ 0 ∧ id < h.table.nextStream)
  peer_iff : ∀ id, isLocal h.table.perspective id = false →
    (id ∈ h.opened ↔ id ≠ 0 ∧ id ≤ h.table.highestStreamOpenedByPeer)
  next_ne : h.table.nextStream ≠ 0
  nodup : h.opened.Nodup
  removed_sub : ∀ id ∈ h.removed, id ∈ h.opened
  open_iff : ∀ id, (h.table.streams id).isSome = true ↔ id ∈ h.opened ∧ id ∉ h.removed

variable {h : StreamLog σ} {newStream : UInt32 → σ} {id : UInt32}

theorem recorded_new (perspective : Perspective) (maxOutgoing maxIncoming : UInt32) :
    Recorded (new perspective maxOutgoing maxIncoming : StreamLog σ) where
  orderly := orderly_new perspective maxOutgoing maxIncoming
  isOpen := rfl
  own_iff := by
    intro id hlocal
    refine iff_of_false not_mem_nil ?_
    rintro ⟨hne, hlt⟩
    have hparity : ¬ id.toNat % 2 = remoteParity perspective := fun heq =>
      Bool.noConfusion ((isLocal_eq_false_iff.mpr heq).symm.trans hlocal)
    rw [ne_eq, ← UInt32.toNat_inj] at hne
    cases perspective with
    | server =>
      have hlt' : id.toNat < 2 := UInt32.lt_iff_toNat_lt.mp hlt
      simp only [remoteParity, UInt32.toNat_zero] at hparity hne
      omega
    | client =>
      have hlt' : id.toNat < 1 := UInt32.lt_iff_toNat_lt.mp hlt
      simp only [UInt32.toNat_zero] at hne
      omega
  peer_iff := by
    intro id _
    refine iff_of_false not_mem_nil ?_
    rintro ⟨hne, hle⟩
    exact hne (UInt32.le_zero_iff.mp hle)
  next_ne := by
    cases perspective with
    | server => exact (by decide : (2 : UInt32) ≠ 0)
    | client => exact (by decide : (1 : UInt32) ≠ 0)
  nodup := nodup_nil
  removed_sub := fun _ hmem => absurd hmem not_mem_nil
  open_iff := fun id => iff_of_false Bool.false_ne_true fun hmem => not_mem_nil hmem.1

/-! #### Single calls -/

/-- The stream that this side opens next was not opened before. -/
theorem Recorded.next_not_mem (hr : h.Recorded) : h.table.nextStream ∉ h.opened := by
  rw [hr.own_iff _ hr.orderly.nextLocal]
  exact fun hlt => UInt32.lt_irrefl _ hlt.2

theorem Recorded.not_open (hr : h.Recorded) (hid : id ∉ h.opened) : h.table.streams id = none := by
  rw [← Option.not_isSome_iff_eq_none, hr.open_iff]
  exact fun hmem => hid hmem.1

/-- What new streams, which were not opened before, do to the record. -/
theorem Recorded.append (hr : h.Recorded) {ids : List UInt32} {streams : UInt32 → Option σ}
    (hids : ids.Nodup) (hnew : ∀ id ∈ ids, id ∉ h.opened)
    (hstreams : ∀ id, (streams id).isSome = true ↔ id ∈ ids ∨ (h.table.streams id).isSome = true) :
    (h.opened ++ ids).Nodup ∧ (∀ id ∈ h.removed, id ∈ h.opened ++ ids) ∧
      ∀ id, (streams id).isSome = true ↔ id ∈ h.opened ++ ids ∧ id ∉ h.removed := by
  refine ⟨?_, fun id hid => mem_append_left ids (hr.removed_sub id hid), fun id => ?_⟩
  · refine nodup_append.mpr ⟨hr.nodup, hids, ?_⟩
    rintro id hid _ hid' rfl
    exact hnew id hid' hid
  rw [hstreams, hr.open_iff, mem_append]
  constructor
  · rintro (hid | ⟨hid, hnot⟩)
    · exact ⟨.inr hid, fun hremoved => hnew id hid (hr.removed_sub id hremoved)⟩
    · exact ⟨.inl hid, hnot⟩
  · rintro ⟨hid | hid, hnot⟩
    · exact .inr ⟨hid, hnot⟩
    · exact .inl hid

/-- IDs of one side differ by an even number. -/
theorem same_parity {perspective : Perspective} {id id' : UInt32}
    (hid : isLocal perspective id = true) (hid' : isLocal perspective id' = true) :
    id.toNat % 2 = id'.toNat % 2 := by
  have hparity : ∀ id : UInt32, isLocal perspective id = true →
      ¬ id.toNat % 2 = remoteParity perspective := fun id hlocal heq =>
    Bool.noConfusion ((isLocal_eq_false_iff.mpr heq).symm.trans hlocal)
  have h := hparity id hid
  have h' := hparity id' hid'
  have hbound : remoteParity perspective < 2 := by
    cases perspective
    · decide
    · decide
  omega

theorem Recorded.openStream (hr : h.Recorded) (hclear : h.table.Clear .openStream) :
    (h.step newStream .openStream).Recorded := by
  have hnew := hr.not_open hr.next_not_mem
  have horderly := hr.orderly.openStream newStream
  rcases openStream_cases newStream hr.isOpen hnew hr.orderly.nextLocal with
    ⟨-, heq⟩ | ⟨-, heq⟩
  · have hsame : h.step newStream .openStream = h := by
      simp only [StreamLog.step, StreamTable.step, creates, removes, heq, append_nil]
    rw [hsame]
    exact hr
  have hstep : h.step newStream .openStream =
      ⟨{ h.table.enter h.table.nextStream (newStream h.table.nextStream) with
          nextStream := h.table.nextStream + 2 }, h.opened ++ [h.table.nextStream],
        h.removed⟩ := by
    simp only [StreamLog.step, StreamTable.step, creates, removes, heq, append_nil]
  have hsum : (h.table.nextStream + 2).toNat = h.table.nextStream.toNat + 2 := by
    rw [UInt32.toNat_add]
    exact Nat.mod_eq_of_lt hclear
  have hstreams : ∀ id, (update h.table.streams h.table.nextStream
      (some (newStream h.table.nextStream)) id).isSome = true ↔
      id ∈ [h.table.nextStream] ∨ (h.table.streams id).isSome = true := by
    intro id
    rw [mem_singleton]
    by_cases hid : id = h.table.nextStream
    · rw [hid, update_self]
      exact iff_of_true rfl (.inl rfl)
    · rw [update_of_ne hid, or_iff_right hid]
  obtain ⟨hnodup, hsub, hopen⟩ := hr.append (nodup_singleton _)
    (fun id hid => mem_singleton.mp hid ▸ hr.next_not_mem) hstreams
  rw [heq] at horderly
  rw [hstep]
  refine ⟨horderly, hr.isOpen, fun id hlocal => ?_, fun id hremote => ?_, ?_, hnodup, hsub, hopen⟩
  · -- the new stream is the one between the old mark and the new one
    have hparity := same_parity hlocal hr.orderly.nextLocal
    have hne := hr.next_ne
    rw [mem_append, mem_singleton, hr.own_iff id hlocal]
    simp only [ne_eq, ← UInt32.toNat_inj, UInt32.lt_iff_toNat_lt, hsum, UInt32.toNat_zero] at hne ⊢
    omega
  · have hne : id ≠ h.table.nextStream := by
      rintro rfl
      exact Bool.noConfusion (hr.orderly.nextLocal.symm.trans hremote)
    rw [mem_append, mem_singleton, or_iff_left hne]
    exact hr.peer_iff id hremote
  · intro hzero
    rw [← UInt32.toNat_inj] at hzero
    exact absurd (hsum.symm.trans hzero) (Nat.succ_ne_zero _)

/-- A call that opens streams of the peer. -/
theorem step_new {ids : List UInt32} {m' : StreamTable σ} {r : Except StreamsError (Option σ)}
    (hall : OpensAll newStream h.table ids m')
    (heq : h.table.getOrOpenStream newStream id = some (m', r)) :
    h.step newStream (.getOrOpenStream id) = ⟨m', h.opened ++ ids, h.removed⟩ := by
  simp only [StreamLog.step, StreamTable.step, creates, removes, heq, hall.openStreams,
    drop_left, append_nil]

section

variable (hr : h.Recorded)

include hr

theorem Recorded.opensAll {ids : List UInt32} {m' : StreamTable σ}
    (hall : OpensAll newStream h.table ids m') :
    Recorded ⟨m', h.opened ++ ids, h.removed⟩ := by
  have hpeer := hr.orderly.peerIds
  obtain ⟨hperspective, hnext, hclose⟩ := hall.same
  obtain ⟨hmark, hmem⟩ := hall.mem_iff hpeer
  have hnew : ∀ id ∈ ids, id ∉ h.opened := by
    intro id hid
    obtain ⟨hremote, hlt, -⟩ := (hmem id).mp hid
    rw [hr.peer_iff id hremote]
    exact fun hmem => UInt32.not_le.mpr hlt hmem.2
  have hstreams : ∀ id, (m'.streams id).isSome = true ↔
      id ∈ ids ∨ (h.table.streams id).isSome = true := by
    intro id
    rw [hall.streams hpeer]
    by_cases hid : id ∈ ids
    · rw [if_pos hid]
      exact iff_of_true rfl (.inl hid)
    · rw [if_neg hid, or_iff_right hid]
  obtain ⟨hnodup, hsub, hopen⟩ := hr.append (hall.nodup hpeer) hnew hstreams
  refine ⟨hall.orderly hr.orderly, hclose.trans hr.isOpen, fun id hlocal => ?_,
    fun id hremote => ?_, fun hzero => hr.next_ne (hnext.symm.trans hzero), hnodup, hsub, hopen⟩
  · change isLocal m'.perspective id = true at hlocal
    rw [hperspective] at hlocal
    have hnot : id ∉ ids := by
      rw [hmem]
      exact fun hremote => Bool.noConfusion (hlocal.symm.trans hremote.1)
    change _ ↔ id ≠ 0 ∧ id < m'.nextStream
    rw [hnext, mem_append, or_iff_left hnot]
    exact hr.own_iff id hlocal
  change isLocal m'.perspective id = false at hremote
  rw [hperspective] at hremote
  change _ ↔ id ≠ 0 ∧ id ≤ m'.highestStreamOpenedByPeer
  rw [mem_append, hmem, hr.peer_iff id hremote]
  constructor
  · rintro (⟨hne, hle⟩ | ⟨-, hlt, hle⟩)
    · exact ⟨hne, UInt32.le_trans hle hmark⟩
    refine ⟨?_, hle⟩
    rintro rfl
    exact UInt32.not_lt_zero hlt
  · rintro ⟨hne, hle⟩
    by_cases hold : id ≤ h.table.highestStreamOpenedByPeer
    · exact .inl ⟨hne, hold⟩
    · exact .inr ⟨hremote, UInt32.not_le.mp hold, hle⟩

theorem Recorded.getOrOpenStream (hclear : h.table.Clear (.getOrOpenStream id)) :
    (h.step newStream (.getOrOpenStream id)).Recorded := by
  by_cases hknown : isLocal h.table.perspective id = true ∨ id ≤ h.table.highestStreamOpenedByPeer
  · obtain ⟨r, heq⟩ := getOrOpenStream_known newStream hknown
    simpa only [StreamLog.step, StreamTable.step, creates, removes, heq, drop_length, append_nil]
      using hr
  obtain ⟨hlocal, hle⟩ := not_or.mp hknown
  have hremote := Bool.eq_false_iff.mpr hlocal
  have hid := UInt32.not_le.mp hle
  obtain ⟨ids, m', hall, ⟨-, heq⟩ | heq⟩ := getOrOpenStream_new hr.orderly.peerIds hid
    hremote (hclear.2.2 hremote hid)
  · rw [step_new hall heq]
    exact hr.opensAll hall
  · rw [step_new hall heq]
    exact hr.opensAll hall

theorem Recorded.removeStream : (h.step newStream (.removeStream id)).Recorded := by
  cases hok : h.table.removeStream id with
  | error e =>
    have hnone : h.table.streams id = none := by
      unfold StreamTable.removeStream at hok
      split at hok
      · assumption
      · cases hok
    have hsame : h.step newStream (.removeStream id) = h := by
      simp only [StreamLog.step, StreamTable.step, creates, removes, hok, hnone,
        Option.isSome_none, Bool.false_eq_true, if_false, append_nil]
    rw [hsame]
    exact hr
  | ok m' =>
    have horderly := hr.orderly.removeStream hok
    obtain ⟨hsome, heq⟩ := removeStream_ok hok
    have hstep : h.step newStream (.removeStream id) = ⟨m', h.opened, h.removed ++ [id]⟩ := by
      simp only [StreamLog.step, StreamTable.step, creates, removes, hok, hsome, if_true,
        append_nil]
    have hopened := ((hr.open_iff id).mp hsome).1
    rw [hstep]
    refine ⟨horderly, ?_, ?_, ?_, ?_, hr.nodup, fun id' hid' => ?_, fun id' => ?_⟩
    · rw [heq]
      exact hr.isOpen
    · rw [heq]
      exact hr.own_iff
    · rw [heq]
      exact hr.peer_iff
    · rw [heq]
      exact hr.next_ne
    · rcases mem_append.mp hid' with hid' | hid'
      · exact hr.removed_sub id' hid'
      · exact mem_singleton.mp hid' ▸ hopened
    rw [heq]
    change (update h.table.streams id none id').isSome = true ↔ _
    rw [mem_append, mem_singleton, not_or]
    by_cases hid' : id' = id
    · rw [hid', update_self]
      exact iff_of_false Bool.false_ne_true fun hmem => hmem.2.2 rfl
    · rw [update_of_ne hid', hr.open_iff, and_iff_left hid']

theorem Recorded.step {call : StreamCall} (hclear : h.table.Clear call) :
    (h.step newStream call).Recorded := by
  cases call with
  | openStream => exact hr.openStream hclear
  | getOrOpenStream id => exact hr.getOrOpenStream hclear
  | removeStream id => exact hr.removeStream

end

/-! #### The answers -/

/-- What `GetOrOpenStream` should answer, with the table after the call: an open stream, `nil` just
for a stream that was opened and removed, an error for a stream of this side that was never opened,
and otherwise the new stream, with all streams of the peer below it, or the error for the limit. -/
structure Told (newStream : UInt32 → σ) (h : StreamLog σ) (id : UInt32) (m' : StreamTable σ)
    (r : Except StreamsError (Option σ)) : Prop where
  found : ∀ s, h.table.streams id = some s → r = .ok (some s)
  closed_iff : r = .ok none ↔ id ∈ h.opened ∧ id ∈ h.removed
  wrong : isLocal h.table.perspective id = true → id ∉ h.opened →
    r = .error (wrongSide h.table.perspective id)
  opens : isLocal h.table.perspective id = false → id ∉ h.opened →
    (r = .ok (some (newStream id)) ∧
      ∀ sid, isLocal h.table.perspective sid = false → sid ≠ 0 → sid ≤ id → sid ∉ h.opened →
        m'.streams sid = some (newStream sid)) ∨
    r = .error .tooManyOpenStreams

/-- An answer for a stream that was opened before. -/
theorem Recorded.told_opened (hr : h.Recorded) (hid : id ∈ h.opened) :
    h.table.getOrOpenStream newStream id = some (h.table, .ok (h.table.streams id)) ∧
      Told newStream h id h.table (.ok (h.table.streams id)) := by
  constructor
  · unfold StreamTable.getOrOpenStream
    split
    · next s hs => rw [hs]
    rename_i hnone
    rw [hnone]
    cases hlocal : isLocal h.table.perspective id with
    | true =>
      have hlt := ((hr.own_iff id hlocal).mp hid).2
      simp only [if_true, UInt32.le_of_lt hlt]
    | false =>
      have hle := ((hr.peer_iff id hlocal).mp hid).2
      simp only [Bool.false_eq_true, if_false, hle, if_true]
  · refine ⟨fun s hs => congrArg _ hs, ?_, fun _ hnot => absurd hid hnot,
      fun _ hnot => absurd hid hnot⟩
    have hremoved : id ∈ h.removed ↔ h.table.streams id = none := by
      rw [← Option.not_isSome_iff_eq_none, hr.open_iff]
      simp [hid]
    rw [and_iff_right hid, hremoved]
    constructor
    · exact fun hok => Except.ok.inj hok
    · exact fun hnone => congrArg _ hnone

section

variable (hr : h.Recorded) (hclear : h.table.Clear (.getOrOpenStream id))

include hr hclear

/-- An answer for a stream of this side that was never opened. -/
theorem Recorded.told_own (hid : id ∉ h.opened) (hlocal : isLocal h.table.perspective id = true) :
    h.table.getOrOpenStream newStream id =
        some (h.table, .error (wrongSide h.table.perspective id)) ∧
      Told newStream h id h.table (.error (wrongSide h.table.perspective id)) := by
  obtain ⟨hzero, hnext, -⟩ := hclear
  have hnone := hr.not_open hid
  have habove : ¬ id ≤ h.table.nextStream := by
    intro hle
    exact hid ((hr.own_iff id hlocal).mpr ⟨hzero, UInt32.lt_of_le_of_ne hle hnext⟩)
  constructor
  · unfold StreamTable.getOrOpenStream
    rw [hnone]
    simp only [hlocal, if_true, habove, if_false]
  · refine ⟨fun s hs => ?_, iff_of_false nofun fun hmem => hid hmem.1, fun _ _ => rfl,
      fun hremote => Bool.noConfusion (hlocal.symm.trans hremote)⟩
    rw [hnone] at hs
    cases hs

/-- An answer for a stream of the peer that was never opened. -/
theorem Recorded.told_peer (hid : id ∉ h.opened) (hremote : isLocal h.table.perspective id = false)
    : ∃ m' r, h.table.getOrOpenStream newStream id = some (m', r) ∧ Told newStream h id m' r := by
  obtain ⟨hzero, -, hbound⟩ := hclear
  have hpeer := hr.orderly.peerIds
  have hnone := hr.not_open hid
  have hlt : h.table.highestStreamOpenedByPeer < id := by
    refine UInt32.not_le.mp fun hle => hid ?_
    exact (hr.peer_iff id hremote).mpr ⟨hzero, hle⟩
  have hfound : ∀ (r : Except StreamsError (Option σ)) s, h.table.streams id = some s →
      r = .ok (some s) := by
    intro r s hs
    rw [hnone] at hs
    cases hs
  have hwrong : ∀ r : Except StreamsError (Option σ), isLocal h.table.perspective id = true →
      id ∉ h.opened → r = .error (wrongSide h.table.perspective id) := fun _ hlocal =>
    Bool.noConfusion (hlocal.symm.trans hremote)
  obtain ⟨ids, m', hall, ⟨hmark, heq⟩ | heq⟩ :=
    getOrOpenStream_new hpeer hlt hremote (hbound hremote hlt)
  · have hnew : ∀ sid, isLocal h.table.perspective sid = false → sid ≠ 0 → sid ≤ id →
        sid ∉ h.opened → m'.streams sid = some (newStream sid) := by
      intro sid hremote' hzero' hle hnot
      have habove : h.table.highestStreamOpenedByPeer < sid := by
        refine UInt32.not_le.mp fun hle' => hnot ?_
        exact (hr.peer_iff sid hremote').mpr ⟨hzero', hle'⟩
      rw [hall.streams hpeer, if_pos]
      exact ((hall.mem_iff hpeer).2 sid).mpr ⟨hremote', habove, hmark.symm ▸ hle⟩
    have hstream := hnew id hremote hzero (UInt32.le_refl _) hid
    rw [hstream] at heq
    refine ⟨m', _, heq, hfound _, iff_of_false nofun fun hmem => hid hmem.1, hwrong _, ?_⟩
    exact fun _ _ => .inl ⟨rfl, hnew⟩
  · exact ⟨m', _, heq, hfound _, iff_of_false nofun fun hmem => hid hmem.1, hwrong _,
      fun _ _ => .inr rfl⟩

theorem Recorded.told :
    ∃ m' r, h.table.getOrOpenStream newStream id = some (m', r) ∧ Told newStream h id m' r := by
  by_cases hid : id ∈ h.opened
  · exact ⟨_, _, hr.told_opened hid⟩
  cases hlocal : isLocal h.table.perspective id with
  | true => exact ⟨_, _, hr.told_own hclear hid hlocal⟩
  | false => exact hr.told_peer hclear hid hlocal

end

/-! #### Whole runs -/

/-- **Closed streams and streams that were never opened.** In every run whose calls all meet
`Clear`, no stream is created twice, and every `GetOrOpenStream` answers by the history. -/
theorem streams_told_apart (newStream : UInt32 → σ) (perspective : Perspective)
    (maxOutgoing maxIncoming : UInt32) (calls : List StreamCall)
    (hclear : AllFit (step newStream) (fun h call => h.table.Clear call)
      (new perspective maxOutgoing maxIncoming) calls)
    (before after : List StreamCall) (hcalls : calls = before ++ after) :
    let h := run (step newStream) (new perspective maxOutgoing maxIncoming) before
    h.opened.Nodup ∧ ∀ id rest, after = .getOrOpenStream id :: rest →
      ∃ m' r, h.table.getOrOpenStream newStream id = some (m', r) ∧ Told newStream h id m' r := by
  subst hcalls
  have hr := run_inv (fun h call => h.table.Clear call) (fun _ (h : StreamLog σ) => h.Recorded)
    (fun _ _ _ hr hclear => hr.step hclear) before [] (new perspective maxOutgoing maxIncoming)
    (recorded_new perspective maxOutgoing maxIncoming) hclear.left
  refine ⟨hr.nodup, fun id rest hrest => ?_⟩
  subst hrest
  exact hr.told (hclear before (.getOrOpenStream id) rest rfl)

/-- A server that has removed the second of two streams of its client answers `nil` for it. -/
theorem streams_told_apart_removed :
    ∃ m' r, (run (step fun id : UInt32 => id) (new .server 10 10)
        [.getOrOpenStream 3, .removeStream 3]).table.getOrOpenStream (fun id => id) 3 =
        some (m', r) ∧ r = .ok none := by
  have hclear : AllFit (step fun id : UInt32 => id) (fun h call => h.table.Clear call)
      (new .server 10 10) [.getOrOpenStream 3, .removeStream 3, .getOrOpenStream 3] :=
    .cons ⟨by decide, by decide, fun _ _ => by decide⟩ <| .cons trivial <|
      .cons ⟨by decide, by decide, fun _ _ => by decide⟩ .nil
  obtain ⟨-, htold⟩ := streams_told_apart (fun id : UInt32 => id) .server 10 10 _ hclear
    [.getOrOpenStream 3, .removeStream 3] [.getOrOpenStream 3] rfl
  obtain ⟨m', r, heq, htold⟩ := htold 3 [] rfl
  exact ⟨m', r, heq, htold.closed_iff.mpr (by decide)⟩

/-- A new server answers `nil` for its own stream 2, and for stream 0, which it has not opened; a
new client for its own stream 1, and for stream 0. -/
theorem unopened_stream_ignored :
    let answer := fun (perspective : Perspective) (id : UInt32) =>
      ((new perspective 10 10).table.getOrOpenStream (fun id : UInt32 => id) id).map (·.2)
    answer .server 2 = some (.ok none) ∧ answer .server 0 = some (.ok none) ∧
      answer .client 1 = some (.ok none) ∧ answer .client 0 = some (.ok none) ∧
      ∀ perspective id, id ∉ (new perspective 10 10 : StreamLog UInt32).opened := by
  refine ⟨rfl, rfl, rfl, rfl, ?_⟩
  intro perspective id
  exact not_mem_nil

end StreamLog

end RlncStreaming.Quic
