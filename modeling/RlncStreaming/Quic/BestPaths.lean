import Mathlib.Algebra.Order.Field.Basic
import RlncStreaming.Lib.Leader
import RlncStreaming.Quic.Olia

/-!
The best paths of OLIA (`olia_sender.go`: `getEpsilon`).

A path is best if it transfers the most between two losses, relative to the square of its RTT.
`getEpsilon` looks for it with products of 64 bits, in which paths whose RTT is not known take part.
So the comparison of two paths need not be an order, and what is found may depend on the order of
the map. In whatever order, the senders that take the lead in the search form a line of
which every other sender fails against one. The paths that get a share are the best ones, in every
order, exactly where the comparison with the end of every such line tells so (`best_paths_iff`). It
does if every RTT is known and the products fit (`Measured`).

With RTTs of 50 ms and 100 ms a thousand bytes are enough for an overflow (`best_path_overflow`).
-/

namespace RlncStreaming.Quic

open Lib OliaSender List Option

/-! ### What is to be found -/

/-- What the path transfers between two losses, relative to the square of its RTT. -/
def OliaSender.quality (s : OliaSender) : ℚ := s.tmpBytes.toNat / (s.smoothedRTT.toInt : ℚ) ^ 2

/-- The path has an RTT, and no other such path is better. -/
structure BestPath (senders : OliaSenders) (s : OliaSender) : Prop where
  measured : s.smoothedRTT ≠ 0
  upper : ∀ id t, senders id = some t → t.smoothedRTT ≠ 0 → t.quality ≤ s.quality

/-- The window is below the largest one. -/
def BelowMax (senders : OliaSenders) (s : OliaSender) : Prop :=
  ∃ id t, senders id = some t ∧ s.congestionWindow < t.congestionWindow

/-- The senders with a share are those with a best path and a smaller window. -/
def FindsBest (senders : OliaSenders) (order : EpsilonOrder) : Prop :=
  ∀ id s s', senders id = some s → getEpsilon senders order id = some s' →
    (0 < s'.olia.epsilonNum ↔ BelowMax senders s ∧ BestPath senders s)

/-! ### The comparison -/

/-- The comparison of `getEpsilon`, against the sender that is the best one so far. -/
def OliaSender.passes (s t : OliaSender) : Bool := s.isBest (t.tmpRTT, t.tmpBytes)

/-- The same for two keys of the map. -/
def passesAt (senders : OliaSenders) (i j : UInt8) : Bool :=
  ((senders i).bind fun s => (senders j).map s.passes).getD false

/-- `bestRTT` and `bestBytes`, if the sender `leader` is the best one so far. -/
def bestOf (senders : OliaSenders) (leader : Option UInt8) : Int64 × UInt64 :=
  ((leader.bind senders).map fun t => (t.tmpRTT, t.tmpBytes)).getD (0, 0)

theorem isBest_bestOf {senders : OliaSenders} {leader : Option UInt8} {i : UInt8} {s : OliaSender}
    (hs : senders i = some s) (hleader : ∀ j ∈ leader, (senders j).isSome = true) :
    s.isBest (bestOf senders leader) = leader.all (passesAt senders i) := by
  cases leader with
  | none => simp [bestOf, isBest]
  | some j =>
    obtain ⟨t, ht⟩ := isSome_iff_exists.mp (hleader j rfl)
    simp [bestOf, passesAt, passes, hs, ht]

/-- The first loop of `getEpsilon` keeps the key of the leader. -/
theorem foldl_getBest {senders : OliaSenders} (ids : List UInt8)
    (hids : ∀ i ∈ ids, (senders i).isSome = true) (leader : Option UInt8)
    (hleader : ∀ j ∈ leader, (senders j).isSome = true) :
    (values senders ids).foldl
        (fun best s => if s.isBest best then (s.tmpRTT, s.tmpBytes) else best)
        (bestOf senders leader) =
      bestOf senders (ids.foldl (lead (passesAt senders)) leader) := by
  induction ids generalizing leader with
  | nil => rfl
  | cons i ids ih =>
    obtain ⟨hi, hids⟩ := forall_mem_cons.mp hids
    obtain ⟨s, hs⟩ := isSome_iff_exists.mp hi
    rw [values, filterMap_cons_some hs, foldl_cons, foldl_cons, ← values,
      isBest_bestOf hs hleader, lead]
    split
    · have hnext : ∀ j ∈ some i, (senders j).isSome = true := by
        rintro j ⟨⟩
        exact hi
      rw [← ih hids (some i) hnext]
      simp [bestOf, hs]
    · exact ih hids leader hleader

theorem getBest_eq {senders : OliaSenders} {ids : List UInt8} (hids : Lists senders ids) :
    getBest (values senders ids) = bestOf senders (findLeader (passesAt senders) ids) :=
  foldl_getBest ids (fun i hi => (hids.mem_iff i).mp hi) none fun _ h => nomatch h

/-! ### The shares -/

section Shares

variable {senders : OliaSenders} {order : EpsilonOrder} {id : UInt8} {s s' : OliaSender}

theorem belowMax_iff {ids : List UInt8} (hids : Lists senders ids) (hs : senders id = some s) :
    BelowMax senders s ↔ s.congestionWindow ≠ getMaxCwnd (values senders ids) := by
  have hmem : s ∈ values senders ids := hids.mem_values_iff.mpr ⟨id, hs⟩
  constructor
  · rintro ⟨id', t, ht, hlt⟩ heq
    have hle := le_getMaxCwnd (hids.mem_values_iff.mpr ⟨id', ht⟩)
    rw [← heq] at hle
    exact absurd hlt (UInt64.not_lt.mpr hle)
  intro hne
  obtain ⟨t, ht, heq⟩ := exists_getMaxCwnd (ne_nil_of_mem hmem)
  obtain ⟨id', hid'⟩ := hids.mem_values_iff.mp ht
  refine ⟨id', t, hid', ?_⟩
  rw [heq]
  exact UInt64.lt_of_le_of_ne (le_getMaxCwnd hmem) hne

/-- The last loop of `getEpsilon` gives a share to the senders of the set `BNotM`. -/
theorem Sizes.share_pos_iff {ids : List UInt8} {maxCwnd : UInt64} {best : Int64 × UInt64}
    {m b : Nat} (h : Sizes (values senders ids) maxCwnd best m b) (hids : Lists senders ids)
    (hs : senders id = some s) :
    0 < (s.share ids.length maxCwnd best (UInt8.ofNat m) (UInt8.ofNat b)).olia.epsilonNum ↔
      s.inBNotM maxCwnd best = true := by
  obtain ⟨num, den, hshare, hden, -, hratio⟩ := h.share_spec hids hs
  have hmem : s ∈ values senders ids := hids.mem_values_iff.mpr ⟨id, hs⟩
  have hlen : (0 : ℚ) < ids.length := by
    rw [← hids.length_values]
    exact Nat.cast_pos.mpr (length_pos_of_mem hmem)
  have hnum : 0 < num ↔ (0 : ℚ) < num.toInt / den.toNat := by
    rw [Int64.lt_iff_toInt_lt, Int64.toInt_zero, div_pos_iff_of_pos_right (Nat.cast_pos.mpr hden),
      Int.cast_pos]
  rw [hshare]
  change 0 < num ↔ _
  rw [hnum, hratio]
  cases hset : s.inBNotM maxCwnd best with
  | true =>
    have hb : 0 < b := h.countB ▸ countP_pos_iff.mpr ⟨s, hmem, hset⟩
    rw [if_neg (Nat.pos_iff_ne_zero.mp hb), if_pos rfl]
    exact iff_of_true (one_div_pos.mpr (mul_pos hlen (Nat.cast_pos.mpr hb))) rfl
  | false =>
    refine iff_of_false (not_lt.mpr ?_) Bool.false_ne_true
    have hneg : -1 / ((ids.length : ℚ) * m) ≤ 0 :=
      div_nonpos_of_nonpos_of_nonneg (by norm_num) (mul_nonneg hlen.le (Nat.cast_nonneg m))
    rw [if_neg Bool.false_ne_true]
    split
    · exact le_refl _
    split
    · exact hneg
    · exact le_refl _

/-- A sender gets a share if its window is not the largest and it passes. -/
theorem epsilonNum_pos_iff (h : order.Of senders) (hs : senders id = some s)
    (hs' : getEpsilon senders order id = some s') :
    0 < s'.olia.epsilonNum ↔
      BelowMax senders s ∧ s.isBest (getBest (values senders order.best)) = true := by
  rw [getEpsilon_apply h, hs, map_some, some.injEq] at hs'
  rw [← hs', (h.sizes_of h.shares).share_pos_iff h.shares hs, inBNotM, Bool.and_eq_true,
    bne_iff_ne, belowMax_iff h.maxCwnd hs]

theorem findsBest_iff (h : order.Of senders) :
    FindsBest senders order ↔ ∀ id s, senders id = some s → BelowMax senders s →
      (s.isBest (getBest (values senders order.best)) = true ↔ BestPath senders s) := by
  constructor
  · intro hfinds id s hs hbelow
    obtain ⟨num, den, hs', -, -⟩ := getEpsilon_spec h hs
    have hiff := (epsilonNum_pos_iff h hs hs').symm.trans (hfinds id s _ hs hs')
    exact ⟨fun hbest => (hiff.mp ⟨hbelow, hbest⟩).2, fun hbest => (hiff.mpr ⟨hbelow, hbest⟩).2⟩
  · intro hfinds id s s' hs hs'
    rw [epsilonNum_pos_iff h hs hs']
    exact and_congr_right fun hbelow => hfinds id s hs hbelow

end Shares

/-! ### Lines of leaders -/

/-- The senders `line` take the lead in turn, each passing against the one before, while every
other sender fails against one of them; `b` is the last one. -/
structure Leaders (senders : OliaSenders) (line others : List UInt8) (b : OliaSender) : Prop where
  lists : Lists senders (line ++ others)
  leads : Line (passesAt senders) line others
  last : line.getLast?.bind senders = some b

/-- The comparison with the last leader of every line tells which paths are best. -/
def TellsBest (senders : OliaSenders) : Prop :=
  ∀ line others b, Leaders senders line others b →
    ∀ id s, senders id = some s → BelowMax senders s → (s.passes b = true ↔ BestPath senders s)

/-- Every path has an RTT, and no product of the comparison overflows. -/
def Measured (senders : OliaSenders) : Prop :=
  ∀ i j s t, senders i = some s → senders j = some t →
    s.smoothedRTT ≠ 0 ∧ t.tmpBytes.toNat * s.smoothedRTT.toInt ^ 2 < 2 ^ 63

section Search

variable {senders : OliaSenders}

theorem bestOf_last {leader : Option UInt8} {b : OliaSender} (h : leader.bind senders = some b) :
    bestOf senders leader = (b.tmpRTT, b.tmpBytes) := by
  rw [bestOf, h]
  rfl

/-- Every search has a line of leaders. -/
theorem exists_leaders {ids : List UInt8} (hids : Lists senders ids) {id : UInt8} {s : OliaSender}
    (hs : senders id = some s) :
    ∃ line others b, Leaders senders line others b ∧
      getBest (values senders ids) = (b.tmpRTT, b.tmpBytes) := by
  obtain ⟨line, others, hperm, hline, hleader⟩ := exists_line (passesAt senders) ids
  have hlists : Lists senders (line ++ others) := hids.of_perm hperm.symm
  have hne : line ≠ [] := by
    rintro rfl
    have hmem : id ∈ [] ++ others := (hlists.mem_iff id).mpr (by rw [hs]; rfl)
    rw [hline.eq_nil] at hmem
    exact not_mem_nil hmem
  have hlast : line.getLast? = some (line.getLast hne) := getLast?_eq_some_getLast hne
  have hkey : line.getLast hne ∈ line ++ others := mem_append_left _ (getLast_mem hne)
  obtain ⟨b, hb⟩ := isSome_iff_exists.mp ((hlists.mem_iff _).mp hkey)
  have hbind : line.getLast?.bind senders = some b := by rw [hlast, bind_some, hb]
  refine ⟨line, others, b, ⟨hlists, hline, hbind⟩, ?_⟩
  rw [getBest_eq hids, hleader, bestOf_last hbind]

theorem findsBest_iff_tellsBest :
    (∀ order : EpsilonOrder, order.Of senders → FindsBest senders order) ↔ TellsBest senders := by
  constructor
  · intro hfinds line others b hleaders id s hs hbelow
    obtain ⟨ids, hperm, hleader⟩ := hleaders.leads.exists_order
    have hids : Lists senders ids := hleaders.lists.of_perm hperm.symm
    have hbest : getBest (values senders ids) = (b.tmpRTT, b.tmpBytes) := by
      rw [getBest_eq hids, hleader, bestOf_last hleaders.last]
    have horder : (⟨ids, ids, ids, ids⟩ : EpsilonOrder).Of senders := ⟨hids, hids, hids, hids⟩
    have htold := (findsBest_iff horder).mp (hfinds _ horder) id s hs hbelow
    rwa [hbest] at htold
  · intro htells order horder
    refine (findsBest_iff horder).mpr fun id s hs hbelow => ?_
    obtain ⟨line, others, b, hleaders, hbest⟩ := exists_leaders horder.best hs
    rw [hbest]
    exact htells line others b hleaders id s hs hbelow

end Search

/-! ### Measured paths -/

section Measured

variable {senders : OliaSenders} {s t : OliaSender}

theorem toInt_product (h : t.tmpBytes.toNat * s.smoothedRTT.toInt ^ 2 < 2 ^ 63) :
    (t.tmpBytes.toInt64 * s.tmpRTT).toInt = t.tmpBytes.toNat * s.smoothedRTT.toInt ^ 2 := by
  have hnonneg := mul_nonneg (Int.natCast_nonneg t.tmpBytes.toNat) (sq_nonneg s.smoothedRTT.toInt)
  have hbytes : t.tmpBytes.toInt64.toInt = (t.tmpBytes.toNat : Int).bmod (2 ^ 64) :=
    BitVec.toInt_eq_toNat_bmod _
  rw [tmpRTT, Int64.toInt_mul, Int64.toInt_mul, hbytes, Int.mul_bmod_bmod, Int.bmod_mul_bmod,
    ← pow_two, Int.bmod_eq_of_le (by omega) (by omega)]

theorem Measured.passes_iff (h : Measured senders) {i j : UInt8} (hs : senders i = some s)
    (ht : senders j = some t) : s.passes t = true ↔ t.quality ≤ s.quality := by
  obtain ⟨hrtt, hfits⟩ := h i j s t hs ht
  obtain ⟨hrtt', hfits'⟩ := h j i t s ht hs
  have hpos : ∀ {r : Int64}, r ≠ 0 → (0 : ℚ) < (r.toInt : ℚ) ^ 2 := fun hr =>
    sq_pos_of_ne_zero (Int.cast_ne_zero.mpr fun h => hr (Int64.toInt_inj.mp h))
  rw [passes, isBest, decide_eq_true_eq, Int64.le_iff_toInt_le, toInt_product hfits,
    toInt_product hfits', quality, quality, div_le_div_iff₀ (hpos hrtt') (hpos hrtt),
    ← Int.cast_le (R := ℚ)]
  simp only [Int.cast_mul, Int.cast_pow, Int.cast_natCast]

/-- The last leader of a line is then a best path. -/
theorem Leaders.quality_le (hm : Measured senders) {line others : List UInt8} {b : OliaSender}
    {id : UInt8} (h : Leaders senders line others b) (ht : senders id = some t) :
    t.quality ≤ b.quality := by
  obtain ⟨last, hlast, hb⟩ := bind_eq_some_iff.mp h.last
  let value : UInt8 → ℚ := fun i => (senders i).elim 0 quality
  have hpasses : ∀ i ∈ line ++ others, ∀ j ∈ line ++ others,
      (passesAt senders i j = true ↔ value j ≤ value i) := by
    intro i hi j hj
    obtain ⟨s, hs⟩ := isSome_iff_exists.mp ((h.lists.mem_iff i).mp hi)
    obtain ⟨t, ht⟩ := isSome_iff_exists.mp ((h.lists.mem_iff j).mp hj)
    simp only [value, passesAt, hs, ht]
    exact hm.passes_iff hs ht
  have hmax : ∀ i ∈ line, value i ≤ value last := by
    intro i hi
    have hchain : line.IsChain fun i j => value i ≤ value j := h.leads.chain.imp_of_mem_imp
      fun i j hi hj => (hpasses j (mem_append_left _ hj) i (mem_append_left _ hi)).mp
    rw [← (getLast_eq_iff_getLast?_eq_some (ne_nil_of_mem hi)).mpr hlast]
    exact hchain.pairwise.rel_getLast hi
  have hle : value id ≤ value last := by
    have hid := (h.lists.mem_iff id).mpr (isSome_iff_exists.mpr ⟨t, ht⟩)
    rcases mem_append.mp hid with hmem | hmem
    · exact hmax id hmem
    obtain ⟨i, hi, hfails⟩ := h.leads.fails id hmem
    have hnot := (hpasses id hid i (mem_append_left _ hi)).not.mp (ne_true_of_eq_false hfails)
    exact (le_of_not_ge hnot).trans (hmax i hi)
  simpa only [value, ht, hb, elim_some] using hle

theorem Measured.tellsBest (h : Measured senders) : TellsBest senders := by
  intro line others b hleaders id s hs _
  obtain ⟨last, -, hb⟩ := bind_eq_some_iff.mp hleaders.last
  rw [h.passes_iff hs hb]
  exact ⟨fun hle => ⟨(h id id s s hs hs).1, fun _ _ ht _ => (hleaders.quality_le h ht).trans hle⟩,
    fun hbest => hbest.upper last b hb (h last last b b hb hb).1⟩

end Measured

/-! ### The order of the map -/

section Order

variable {senders : OliaSenders} {order order' : EpsilonOrder} {s : OliaSender}

theorem getMaxCwnd_eq {ids ids' : List UInt8} (hids : Lists senders ids)
    (hids' : Lists senders ids') {id : UInt8} (hs : senders id = some s) :
    getMaxCwnd (values senders ids) = getMaxCwnd (values senders ids') := by
  have hle : ∀ {ids ids'}, Lists senders ids → Lists senders ids' →
      getMaxCwnd (values senders ids) ≤ getMaxCwnd (values senders ids') := by
    intro ids ids' hids hids'
    obtain ⟨t, ht, heq⟩ := exists_getMaxCwnd (ne_nil_of_mem (hids.mem_values_iff.mpr ⟨id, hs⟩))
    rw [← heq]
    exact le_getMaxCwnd ((hids.values_perm hids').mem_iff.mp ht)
  exact UInt64.le_antisymm (hle hids hids') (hle hids' hids)

theorem share_eq {n : Nat} {maxCwnd : UInt64} {best : Int64 × UInt64} {M BNotM : UInt8}
    (hle : s.congestionWindow ≤ maxCwnd) :
    s.share n maxCwnd best M BNotM = if BNotM = 0 then s.setEpsilon 0 1
      else if s.inBNotM maxCwnd best then s.setEpsilon 1 (UInt32.ofNat n * BNotM.toUInt32)
      else if s.congestionWindow = maxCwnd then s.setEpsilon (-1) (UInt32.ofNat n * M.toUInt32)
      else s.setEpsilon 0 1 := by
  have hset : (s.congestionWindow < maxCwnd ∧ s.isBest best = true) ↔
      s.inBNotM maxCwnd best = true := by
    rw [inBNotM, Bool.and_eq_true, bne_iff_ne]
    exact and_congr_left fun _ => ⟨UInt64.ne_of_lt, UInt64.lt_of_le_of_ne hle⟩
  simp only [share, hset]

/-- Where the best paths are found in two orders, the shares are the same. -/
theorem getEpsilon_order (h : order.Of senders) (h' : order'.Of senders)
    (hfinds : FindsBest senders order) (hfinds' : FindsBest senders order') :
    getEpsilon senders order = getEpsilon senders order' := by
  funext id
  rw [getEpsilon_apply h, getEpsilon_apply h']
  cases hs : senders id with
  | none => rw [map_none, map_none]
  | some s =>
    rw [getMaxCwnd_eq h'.maxCwnd h.maxCwnd hs, (h'.shares.perm h.shares).length_eq,
      ← (h.sizes.values_perm h'.sizes).countP_eq, ← (h.sizes.values_perm h'.sizes).countP_eq]
    generalize hmax : getMaxCwnd (values senders order.maxCwnd) = maxCwnd
    have hset : ∀ t ∈ values senders order.sizes,
        t.inBNotM maxCwnd (getBest (values senders order.best)) =
          t.inBNotM maxCwnd (getBest (values senders order'.best)) := by
      intro t ht
      obtain ⟨id', hid'⟩ := h.sizes.mem_values_iff.mp ht
      rw [inBNotM, inBNotM, Bool.eq_iff_iff, Bool.and_eq_true,
        Bool.and_eq_true, bne_iff_ne, ← hmax, ← belowMax_iff h.maxCwnd hid']
      refine and_congr_right fun hbelow => ?_
      exact ((findsBest_iff h).mp hfinds id' t hid' hbelow).trans
        ((findsBest_iff h').mp hfinds' id' t hid' hbelow).symm
    have hle : s.congestionWindow ≤ maxCwnd :=
      hmax ▸ le_getMaxCwnd (h.maxCwnd.mem_values_iff.mpr ⟨id, hs⟩)
    have hcount := countP_congr fun t ht => Bool.eq_iff_iff.mp (hset t ht)
    have hmem := hset s (h.sizes.mem_values_iff.mpr ⟨id, hs⟩)
    simp only [hcount, hmem, map_some, share_eq hle]

end Order

/-- **The best paths get the shares**, in whatever order the loops of `getEpsilon` go over the map,
and the order makes no difference, exactly where the comparison with the last leader of every line
tells which paths are best, as it does if every RTT is known and no product overflows. -/
theorem best_paths_iff (senders : OliaSenders) :
    (((∀ order : EpsilonOrder, order.Of senders → FindsBest senders order) ∧
      ∀ order order' : EpsilonOrder, order.Of senders → order'.Of senders →
        getEpsilon senders order = getEpsilon senders order') ↔ TellsBest senders) ∧
    (Measured senders → TellsBest senders) := by
  refine ⟨⟨?_, fun htells => ?_⟩, Measured.tellsBest⟩
  · rintro ⟨hfinds, -⟩
    exact findsBest_iff_tellsBest.mp hfinds
  · have hfinds := findsBest_iff_tellsBest.mpr htells
    exact ⟨hfinds, fun order order' h h' =>
      getEpsilon_order h h' (hfinds order h) (hfinds order' h')⟩

/-- Two paths with RTTs of 100 ms and 50 ms, the second of which transfers more. -/
def slowAndFast : OliaSenders := fun id => List.lookup id
  [(1, { newOliaSender 32 2500 with
      congestionWindow := 40, smoothedRTT := 100000000, olia := { newOlia 0 with loss3 := 1000 } }),
    (3, { newOliaSender 32 2500 with
      smoothedRTT := 50000000, olia := { newOlia 0 with loss3 := 2000 } })]

/-- The product of 2000 bytes and the square of 100 ms overflows, so that the second path does not
pass, and nothing is moved to it. -/
theorem best_path_overflow :
    ∃ order s s', order.Of slowAndFast ∧ slowAndFast 3 = some s ∧ BelowMax slowAndFast s ∧
      BestPath slowAndFast s ∧ getEpsilon slowAndFast order 3 = some s' ∧
      s'.olia.epsilonNum = 0 := by
  have hlists : Lists slowAndFast [1, 3] := lists_lookup _ (by decide)
  have hcases : ∀ id t, slowAndFast id = some t → id = 1 ∨ id = 3 := fun id t ht => by
    simpa using (hlists.mem_iff id).mpr (by rw [ht]; rfl)
  refine ⟨⟨[1, 3], [1, 3], [1, 3], [1, 3]⟩, _, _, ⟨hlists, hlists, hlists, hlists⟩, rfl,
    ⟨1, _, rfl, by decide⟩, ⟨by decide, fun id t ht _ => ?_⟩, rfl, by decide +kernel⟩
  rcases hcases id t ht with rfl | rfl <;> cases ht <;> decide +kernel

end RlncStreaming.Quic
