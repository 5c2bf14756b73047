import Mathlib.Tactic.SplitIfs
import Oce.OnlineCenter.Analysis.Bitmap

/-!
# A pool against its bytes

`SyncBitmap` goes up through the ids of a pool: it clears those before the next user, stores that
user, and clears those after the last. What the loops leave is described from the id they began
at (`Sweep.Wrote`); each round adds one id to it (`Sweep.Wrote.store`).

Behind the last user `pos` is moved twice. The id between the two (`SyncBitmapData.skipped`) is
passed over, and its byte stays; the last loop goes on to the end of `int`, one index further
than the bitmap has.
-/

set_option autoImplicit false

namespace Oce.OnlineCenter

open Oce.Base Oce.TalkCommon

variable {l : List (ℤ × ℤ)} {u : ℤ × ℤ} {avatar : Avatar} {i : ℤ} {endpoint : String} {c : Center}
  {r : Sweep}

/-! ## Ids of a pool -/

/-- The ids of one pool from `lo` up to `hi`. -/
def Span (lo hi id : ℤ) : Prop := lo ≤ id ∧ id < hi ∧ (id - lo) % kUserPoolCount = 0

instance (lo hi id : ℤ) : Decidable (Span lo hi id) := inferInstanceAs (Decidable (_ ∧ _ ∧ _))

variable {lo hi id : ℤ}

theorem span_self : ¬ Span lo lo id := fun h => by
  have := h.1
  have := h.2.1
  omega

theorem span_add (hle : lo ≤ hi) (hmod : (hi - lo) % kUserPoolCount = 0) :
    Span lo (hi + kUserPoolCount) id ↔ Span lo hi id ∨ id = hi := by
  unfold Span
  simp only [kUserPoolCount] at *
  omega

theorem Span.emod (h : Span lo hi id) : id % kUserPoolCount = lo % kUserPoolCount := by
  have hmod := h.2.2
  simp only [kUserPoolCount] at *
  omega

/-- Two stretches with one id between them. -/
theorem Span.not_behind {last : ℤ} (h : Span lo hi id) : ¬ Span (hi + kUserPoolCount) last id := by
  intro hbehind
  have hlt := h.2.1
  have hge := hbehind.1
  simp only [kUserPoolCount] at *
  omega

/-- Past the end of `int` there is nothing more to go through. -/
theorem span_end (hle : 2 ^ 31 ≤ hi) (hlt : hi < 2 ^ 31 + kUserPoolCount)
    (hmod : (hi - lo) % kUserPoolCount = 0) : Span lo hi id ↔ Span lo (2 ^ 31) id := by
  unfold Span
  simp only [kUserPoolCount] at *
  omega

/-! ## What is to be stored -/

/-- The byte that a list of users has for an id. -/
def valueIn : List (ℤ × ℤ) → ℤ → BitVec 8
  | [], _ => 0
  | u :: l, id => if id = u.1 then BitVec.ofInt 8 u.2 else valueIn l id

/-- The id in the pool after the last user; `i` if there is none. -/
def nextId (i : ℤ) (l : List (ℤ × ℤ)) : ℤ := l.foldl (fun _ u => u.1 + kUserPoolCount) i

theorem valueIn_of_not_mem (h : ∀ u ∈ l, u.1 ≠ id) : valueIn l id = 0 := by
  induction l with
  | nil => rfl
  | cons u l ih =>
      have hne : id ≠ u.1 := (h u List.mem_cons_self).symm
      rw [valueIn, if_neg hne]
      exact ih fun w hw => h w (List.mem_cons_of_mem u hw)

theorem valueIn_of_mem (hsorted : l.Pairwise fun u w => u.1 < w.1) (hu : u ∈ l) :
    valueIn l u.1 = BitVec.ofInt 8 u.2 := by
  induction l with
  | nil => cases hu
  | cons w l ih =>
      rw [List.pairwise_cons] at hsorted
      rw [valueIn]
      rcases List.mem_cons.mp hu with rfl | hu
      · rw [if_pos rfl]
      · rw [if_neg (hsorted.1 u hu).ne']
        exact ih hsorted.2 hu

/-! ## The loops -/

namespace Sweep

/-- What the loops have made of `s` when they come to the id `e`: the bytes `v` from where they
began up to there. -/
structure Wrote (v : ℤ → BitVec 8) (s s' : Sweep) (e : ℤ) : Prop where
  pos : s'.pos = asInt e
  ahead : s.pos ≤ e
  aligned : (e - s.pos) % kUserPoolCount = 0
  bytes : ∀ id, s'.bitmap id = if Span s.pos e id then v id else s.bitmap id
  indices : ∀ id, id ∈ s'.touched ↔ id ∈ s.touched ∨ Span s.pos e id

variable {v : ℤ → BitVec 8} {s s' : Sweep} {e u : ℤ}

theorem Wrote.refl (h : IsInt s.pos) : Wrote v s s s.pos where
  pos := (asInt_of_isInt h).symm
  ahead := le_rfl
  aligned := by rw [Int.sub_self, Int.zero_emod]
  bytes := fun id => by rw [if_neg span_self]
  indices := fun id => by simp [span_self]

/-- **One id more.** -/
theorem Wrote.store (h : Wrote v s s' e) {t : ℤ} (ht : BitVec.ofInt 8 t = v e) :
    Wrote v s (s'.store e t).advance (e + kUserPoolCount) where
  pos := by
    have hpos : (s'.store e t).advance.pos = asInt (s'.pos + kUserPoolCount) := rfl
    rw [hpos, h.pos, asInt_asInt_add]
  ahead := by
    have := h.ahead
    simp only [kUserPoolCount]
    omega
  aligned := by
    have := h.aligned
    simp only [kUserPoolCount] at *
    omega
  bytes := fun id => by
    have hbytes : (s'.store e t).advance.bitmap id =
        if id = e then BitVec.ofInt 8 t else s'.bitmap id := Function.update_apply ..
    rw [hbytes, h.bytes, if_congr (span_add h.ahead h.aligned) rfl rfl]
    by_cases hid : id = e
    · rw [if_pos hid, if_pos (.inr hid), ht, hid]
    · rw [if_neg hid]
      exact if_congr (by simp [hid]) rfl rfl
  indices := fun id => by
    have htouched : (s'.store e t).advance.touched = s'.touched ++ [e] := rfl
    rw [htouched, List.mem_append, List.mem_singleton, h.indices, span_add h.ahead h.aligned,
      or_assoc]

theorem Wrote.clear (h : Wrote v s s' e) (he : IsInt e) (hv : v e = 0) :
    Wrote v s s'.clear (e + kUserPoolCount) := by
  have hpos : s'.pos = e := h.pos.trans (asInt_of_isInt he)
  have hclear : s'.clear = (s'.store e 0).advance := by rw [Sweep.clear, hpos]
  rw [hclear]
  exact h.store (by rw [hv]; rfl)

/-- The ids before the next user. -/
theorem Wrote.gap (h : Wrote v s s' e) (h0 : 0 ≤ s.pos) (hu : u < 2 ^ 31) (heu : e ≤ u)
    (hmod : (u - e) % kUserPoolCount = 0) (hv : ∀ id, e ≤ id → id < u → v id = 0) :
    ∃ t, Returns (fun fuel => gap u fuel s') t ∧ Wrote v s t u := by
  have hahead := h.ahead
  -- on the way `pos` is an id of the pool between `e` and `u`
  obtain ⟨t, ht, ⟨e', he', hle, hmod', hwrote⟩, hcond⟩ := whileLoop_total
    (fun t => decide (t.pos < u)) Sweep.clear
    (fun t => ∃ e', e ≤ e' ∧ e' ≤ u ∧ (u - e') % kUserPoolCount = 0 ∧ Wrote v s t e')
    (fun t => (u - t.pos).toNat)
    (fun t ⟨e', he', hle, hmod', hwrote⟩ hlt => by
      have hint : IsInt e' := ⟨by omega, by omega⟩
      have hpos : t.pos = e' := hwrote.pos.trans (asInt_of_isInt hint)
      have hlt : e' < u := hpos ▸ of_decide_eq_true hlt
      have hnext : e' + kUserPoolCount ≤ u := by
        simp only [kUserPoolCount] at *
        omega
      have hclear := hwrote.clear hint (hv e' he' hlt)
      have hpos' : t.clear.pos = e' + kUserPoolCount :=
        hclear.pos.trans (asInt_of_isInt ⟨by simp only [kUserPoolCount]; omega, by omega⟩)
      refine ⟨⟨e' + kUserPoolCount, ?_, hnext, ?_, hclear⟩, ?_⟩
      · simp only [kUserPoolCount]
        omega
      · simp only [kUserPoolCount] at *
        omega
      · rw [hpos, hpos']
        simp only [kUserPoolCount] at *
        omega)
    ⟨e, le_rfl, heu, hmod, h⟩
  have hpos : t.pos = e' := hwrote.pos.trans (asInt_of_isInt ⟨by omega, by omega⟩)
  have hend : ¬ t.pos < u := of_decide_eq_false hcond
  obtain rfl : e' = u := by omega
  exact ⟨t, ht, hwrote⟩

/-- **The loop over the users**, by induction on those that are left. -/
theorem Wrote.users (h : Wrote v s s' e) (h0 : 0 ≤ s.pos)
    (hl : ∀ u ∈ l, e ≤ u.1 ∧ u.1 < 2 ^ 31 ∧ (u.1 - e) % kUserPoolCount = 0)
    (hsorted : l.Pairwise fun u w => u.1 < w.1) (hv : ∀ id, e ≤ id → v id = valueIn l id) :
    ∃ t, Returns (fun fuel => users fuel l s') t ∧ Wrote v s t (nextId e l) := by
  induction l generalizing s' e with
  | nil => exact ⟨s', returns_const s', h⟩
  | cons u l ih =>
      obtain ⟨heu, hu, hmod⟩ := hl u List.mem_cons_self
      rw [List.pairwise_cons] at hsorted
      have hahead := h.ahead
      obtain ⟨t, ht, hwrote⟩ := h.gap h0 hu heu hmod fun id hid hlt => by
        rw [hv id hid]
        refine valueIn_of_not_mem fun w hw => ?_
        rcases List.mem_cons.mp hw with rfl | hw
        · exact hlt.ne'
        · exact (hlt.trans (hsorted.1 w hw)).ne'
      have hvalue : BitVec.ofInt 8 u.2 = v u.1 := by rw [hv u.1 heu, valueIn, if_pos rfl]
      have hstore := hwrote.store hvalue
      obtain ⟨r, hr, hrest⟩ := ih hstore (fun w hw => by
          obtain ⟨-, hw31, hwmod⟩ := hl w (List.mem_cons_of_mem u hw)
          have hlt := hsorted.1 w hw
          refine ⟨?_, hw31, ?_⟩
          · simp only [kUserPoolCount] at *
            omega
          · simp only [kUserPoolCount] at *
            omega) hsorted.2 fun id hid => by
        have hlt : u.1 < id := by
          simp only [kUserPoolCount] at hid
          omega
        rw [hv id (by omega), valueIn, if_neg hlt.ne']
      exact ⟨r, ht.bind hr, hrest⟩

/-- The last loop, when the id that it begins at is an `int`. -/
theorem tail_runs (hpos : s.advance.pos = e) (h0 : 0 < e) (he : e < 2 ^ 31) :
    ∃ t e', Returns (fun fuel => tail fuel s) t ∧ 2 ^ 31 ≤ e' ∧ e' < 2 ^ 31 + kUserPoolCount ∧
      Wrote (fun _ => 0) s.advance t e' := by
  have hint : IsInt e := ⟨by omega, he⟩
  -- `pos` is positive as long as its id is an `int`, and negative after the one round that runs
  -- over the end
  obtain ⟨t, ht, ⟨e', hlo, hhi, hwrote⟩, hcond⟩ := whileLoop_total
    (fun t => decide (0 < t.pos)) Sweep.clear
    (fun t => ∃ e', 0 < e' ∧ e' < 2 ^ 31 + kUserPoolCount ∧ Wrote (fun _ => 0) s.advance t e')
    (fun t => if 0 < t.pos then (2 ^ 31 - t.pos).toNat else 0)
    (fun t ⟨e', hlo, hhi, hwrote⟩ hlt => by
      have hlt : 0 < t.pos := of_decide_eq_true hlt
      have hin : e' < 2 ^ 31 := by
        by_contra hout
        have hneg := hwrote.pos.trans (asInt_of_le (by omega) (by
          simp only [kUserPoolCount] at hhi
          omega))
        simp only [kUserPoolCount] at hhi
        omega
      have hpos' : t.pos = e' := hwrote.pos.trans (asInt_of_isInt ⟨by omega, hin⟩)
      have hclear := hwrote.clear ⟨by omega, hin⟩ rfl
      refine ⟨⟨e' + kUserPoolCount, ?_, ?_, hclear⟩, ?_⟩
      · simp only [kUserPoolCount]
        omega
      · omega
      · rw [if_pos hlt, hpos', hclear.pos]
        by_cases hnext : e' + kUserPoolCount < 2 ^ 31
        · have hstill : 0 < e' + kUserPoolCount := by
            simp only [kUserPoolCount]
            omega
          rw [asInt_of_isInt ⟨by omega, hnext⟩, if_pos hstill]
          simp only [kUserPoolCount] at *
          omega
        · have hover : ¬ 0 < e' + kUserPoolCount - 2 ^ 32 := by
            simp only [kUserPoolCount]
            omega
          have hnear : e' + kUserPoolCount < 2 ^ 32 := by
            simp only [kUserPoolCount]
            omega
          rw [asInt_of_le (by omega) (by omega), if_neg hover]
          omega)
    ⟨e, h0, by simp only [kUserPoolCount]; omega, hpos ▸ Wrote.refl (hpos ▸ hint)⟩
  have hout : 2 ^ 31 ≤ e' := by
    by_contra hin
    have hpos' := hwrote.pos.trans (asInt_of_isInt ⟨by omega, by omega⟩)
    have hle : ¬ 0 < t.pos := of_decide_eq_false hcond
    omega
  exact ⟨t, e', ht, hout, hhi, hwrote⟩

/-- **The last loop** runs on from the id after the one that is passed over. -/
theorem tail_spec (hpos : s.pos = asInt e) (h0 : 0 ≤ e) (he : e < 2 ^ 31 + kUserPoolCount) :
    ∃ t, Returns (fun fuel => tail fuel s) t ∧
      (∀ id, t.bitmap id = if Span (e + kUserPoolCount) (2 ^ 31) id then 0 else s.bitmap id) ∧
      ∀ id, id ∈ t.touched ↔ id ∈ s.touched ∨ Span (e + kUserPoolCount) (2 ^ 31) id := by
  have hadvance : s.advance.pos = asInt (e + kUserPoolCount) := by
    have hstep : s.advance.pos = asInt (s.pos + kUserPoolCount) := rfl
    rw [hstep, hpos, asInt_asInt_add]
  have hfirst : 0 < e + kUserPoolCount := by
    simp only [kUserPoolCount]
    omega
  by_cases hend : e + kUserPoolCount < 2 ^ 31
  · have hbegin : s.advance.pos = e + kUserPoolCount :=
      hadvance.trans (asInt_of_isInt ⟨by omega, hend⟩)
    obtain ⟨t, e', ht, hout, hhi, hwrote⟩ := tail_runs hbegin hfirst hend
    have hspan : ∀ id, Span s.advance.pos e' id ↔ Span (e + kUserPoolCount) (2 ^ 31) id :=
      fun id => by rw [span_end hout hhi hwrote.aligned, hbegin]
    refine ⟨t, ht, fun id => ?_, fun id => ?_⟩
    · rw [hwrote.bytes, if_congr (hspan id) rfl rfl]
      rfl
    · rw [hwrote.indices, hspan]
      rfl
  · have hneg : s.advance.pos = e + kUserPoolCount - 2 ^ 32 :=
      hadvance.trans (asInt_of_le (by omega) (by simp only [kUserPoolCount] at *; omega))
    have hstop : decide (0 < s.advance.pos) = false := by
      rw [hneg]
      simp only [kUserPoolCount] at *
      exact decide_eq_false (by omega)
    have hnone : ∀ id, ¬ Span (e + kUserPoolCount) (2 ^ 31) id := fun id hid => by
      have := hid.1
      have := hid.2.1
      omega
    have hreturns : Returns (fun fuel => tail fuel s) s.advance :=
      ⟨0, fun fuel _ => by
        dsimp only [tail]
        exact whileLoop_of_not (by exact hstop) fuel⟩
    refine ⟨s.advance, hreturns, fun id => ?_, fun id => ?_⟩
    · rw [if_neg (hnone id)]
      rfl
    · rw [or_iff_left (hnone id)]
      rfl

end Sweep

/-! ## What a pool is to leave -/

/-- What is sent for a pool: `getPool` takes no negative id. -/
structure Snapshot (data : SyncBitmapData) : Prop where
  index : 0 ≤ data.userPoolIndex ∧ data.userPoolIndex < kUserPoolCount
  ascending : data.stateSeq.Pairwise fun u w => u.1 < w.1
  ids : ∀ u ∈ data.stateSeq, 0 ≤ u.1 ∧ u.1 < 2 ^ 31 ∧ u.1 % kUserPoolCount = data.userPoolIndex

/-- The bytes of the pool are those of its users, and 0 for the others; all other bytes are as they
were, and no index is used that the bitmap does not have. -/
structure WritesPool (data : SyncBitmapData) (bitmap : Bitmap) (s : Sweep) : Prop where
  listed : ∀ u ∈ data.stateSeq, s.bitmap u.1 = BitVec.ofInt 8 u.2
  cleared : ∀ id, 0 ≤ id → id < BITMAP_SIZE → id % kUserPoolCount = data.userPoolIndex →
    (∀ u ∈ data.stateSeq, u.1 ≠ id) → s.bitmap id = 0
  kept : ∀ id, id % kUserPoolCount ≠ data.userPoolIndex → s.bitmap id = bitmap id
  inside : ∀ id ∈ s.touched, 0 ≤ id ∧ id < BITMAP_SIZE

/-- The id that is passed over. -/
def SyncBitmapData.skipped (data : SyncBitmapData) : ℤ := nextId data.userPoolIndex data.stateSeq

/-- No user has the last `int` for an id; and if the bitmap has a byte for the id that is passed
over, that byte is 0 and the pool is not the one of the last `int`. -/
structure Spared (data : SyncBitmapData) (bitmap : Bitmap) : Prop where
  users : ∀ u ∈ data.stateSeq, u.1 < BITMAP_SIZE
  skipped : data.skipped < BITMAP_SIZE →
    bitmap data.skipped = 0 ∧ BITMAP_SIZE % kUserPoolCount ≠ data.userPoolIndex

variable {data : SyncBitmapData} {bitmap : Bitmap} {reloadCount : ℤ}

/-! ### What is sent is a pool -/

section Sent

variable {p : UserPool} {userId : ℤ}

theorem isSome_add (h : ((p.add avatar).2.users.find userId).isSome) :
    userId = avatar.jid.userId ∨ (p.users.find userId).isSome := by
  by_cases hi : userId = avatar.jid.userId
  · exact .inl hi
  · refine .inr ?_
    unfold UserPool.add at h
    by_cases hempty : avatar.jid.endpoint = ""
    · rw [if_pos hempty] at h
      exact h
    · rw [if_neg hempty] at h
      cases hfind : p.users.find avatar.jid.userId with
      | none =>
          simp only [hfind] at h
          split_ifs at h
          · rwa [OrdMap.find_insert_ne _ _ hi] at h
          · exact h
      | some u =>
          simp only [hfind] at h
          rwa [OrdMap.find_insert_ne _ _ hi] at h

theorem isSome_put {s : AvatarLists × User} (hi : (p.users.find i).isSome)
    (h : ((p.put i s).users.find userId).isSome) : (p.users.find userId).isSome := by
  by_cases hu : userId = i
  · exact hu ▸ hi
  · unfold UserPool.put at h
    dsimp only at h
    split_ifs at h
    · rwa [OrdMap.find_erase, if_neg hu] at h
    · rwa [OrdMap.find_insert_ne _ _ hu] at h

theorem isSome_remove {jid : Jid} (h : ((p.remove jid).users.find userId).isSome) :
    (p.users.find userId).isSome := by
  unfold UserPool.remove at h
  cases hfind : p.users.find jid.userId with
  | none => simpa only [hfind] using h
  | some u =>
      simp only [hfind] at h
      exact isSome_put (by rw [hfind]; rfl) h

theorem isSome_removeEndpointOf (h : ((p.removeEndpointOf endpoint i).users.find userId).isSome) :
    (p.users.find userId).isSome := by
  unfold UserPool.removeEndpointOf at h
  cases hfind : p.users.find i with
  | none => simpa only [hfind] using h
  | some u =>
      simp only [hfind] at h
      exact isSome_put (by rw [hfind]; rfl) h

theorem isSome_removeEndpoint (h : ((p.removeEndpoint endpoint).users.find userId).isSome) :
    (p.users.find userId).isSome := by
  unfold UserPool.removeEndpoint at h
  generalize p.users.entries.map Prod.fst = ids at h
  induction ids generalizing p with
  | nil => exact h
  | cons i ids ih => exact isSome_removeEndpointOf (ih h)

/-- A pool has the users whose ids belong there, which are not negative. -/
def Homed (c : Center) : Prop :=
  ∀ i userId, ((c.pools i).users.find userId).isSome →
    0 ≤ userId ∧ userId < 2 ^ 31 ∧ userId % kUserPoolCount = i

/-- The id that comes in with the call is an `int`. -/
def CenterOp.HasInt : CenterOp → Prop
  | .presence avatar => avatar.jid.userId < 2 ^ 31
  | _ => True

theorem homed_setPool (h : Homed c) (i : ℤ) (pool : UserPool)
    (hpool : ∀ userId, (pool.users.find userId).isSome →
      0 ≤ userId ∧ userId < 2 ^ 31 ∧ userId % kUserPoolCount = i) : Homed (c.setPool i pool) := by
  intro j userId hj
  rw [pools_setPool] at hj
  split_ifs at hj with hij
  · exact hij ▸ hpool userId hj
  · exact h j userId hj

theorem homed_presence (h : Homed c) (hint : avatar.jid.userId < 2 ^ 31) : Homed (c.presence avatar) := by
  by_cases hskip : ¬ 0 ≤ avatar.jid.userId ∨ avatar.jid.endpoint = "web"
  · rw [presence_ignored hskip]
    exact h
  · rw [not_or, not_not] at hskip
    have hadd := homed_setPool h (avatar.jid.userId % kUserPoolCount)
      ((c.poolOf avatar.jid.userId).add avatar).2 fun userId hsome => by
        rcases isSome_add hsome with rfl | hold
        · exact ⟨hskip.1, hint, rfl⟩
        · exact h _ userId hold
    rw [presence_eq hskip.1 hskip.2]
    split_ifs
    · exact hadd
    · exact hadd

theorem homed_step (a : CenterOp) (h : Homed c) (ha : a.HasInt) : Homed (CenterOp.step c a) := by
  cases a with
  | presence avatar => exact homed_presence h ha
  | offline jid =>
      by_cases hneg : 0 ≤ jid.userId
      · have hremove := homed_setPool h (jid.userId % kUserPoolCount)
          ((c.poolOf jid.userId).remove jid) fun userId hsome =>
            h _ userId (isSome_remove hsome)
        rw [CenterOp.step, offline_eq hneg]
        exact hremove
      · have hsame : c.offline jid = c := by
          unfold Center.offline
          simp only [getPool_of_neg hneg]
        rw [CenterOp.step, hsame]
        exact h
  | closeProxyServer endpoint =>
      intro i userId hsome
      unfold CenterOp.step Center.closeProxyServer at hsome
      dsimp only at hsome
      split_ifs at hsome
      · exact h i userId (isSome_removeEndpoint hsome)
      · exact h i userId hsome

theorem snapshot_of_homed (h : Homed c) (h0 : 0 ≤ i) (hi : i < kUserPoolCount) :
    Snapshot (c.reloadUserPool i) where
  index := ⟨h0, hi⟩
  ascending := List.pairwise_map.mpr (List.pairwise_map.mp (c.pools _).users.sorted)
  ids := by
    intro u hu
    obtain ⟨e, he, rfl⟩ := List.mem_map.mp hu
    have hfind := (c.pools _).users.mem_entries_iff.mp he
    have hhome := h _ e.1 (by rw [hfind]; rfl)
    rwa [Int.emod_eq_of_lt h0 hi] at hhome

/-- **Whatever calls the manager has had, what it sends for a pool is one.** -/
theorem snapshot_run {ops : List CenterOp} (hops : ∀ a ∈ ops, a.HasInt) (h0 : 0 ≤ i)
    (hi : i < kUserPoolCount) : Snapshot ((runOps CenterOp.step .new ops).reloadUserPool i) := by
  have hnew : Homed .new := fun _ _ h => by cases h
  refine snapshot_of_homed (run_invariant (fun c a h ha => homed_step a h ha) hnew ?_) h0 hi
  exact stepsMeet_of_forall _ hops

end Sent

/-! ### The whole call -/

theorem nextId_lt (hl : ∀ u ∈ l, u.1 < 2 ^ 31) (hi : i < 2 ^ 31 + kUserPoolCount) :
    nextId i l < 2 ^ 31 + kUserPoolCount := by
  induction l generalizing i with
  | nil => exact hi
  | cons u l ih =>
      have hu := hl u List.mem_cons_self
      have hnext : u.1 + kUserPoolCount < 2 ^ 31 + kUserPoolCount := by omega
      exact ih (fun w hw => hl w (List.mem_cons_of_mem u hw)) hnext

theorem nextId_eq (i : ℤ) (l : List (ℤ × ℤ)) :
    nextId i l = i ∨ ∃ u ∈ l, nextId i l = u.1 + kUserPoolCount := by
  induction l generalizing i with
  | nil => exact .inl rfl
  | cons u l ih =>
      rcases ih (u.1 + kUserPoolCount) with hnext | ⟨w, hw, hnext⟩
      · exact .inr ⟨u, List.mem_cons_self, hnext⟩
      · exact .inr ⟨w, List.mem_cons_of_mem u hw, hnext⟩

/-- It is in the pool, and behind all users. -/
theorem lt_nextId (hl : ∀ u ∈ l, i ≤ u.1 ∧ (u.1 - i) % kUserPoolCount = 0)
    (hsorted : l.Pairwise fun u w => u.1 < w.1) :
    i ≤ nextId i l ∧ (nextId i l - i) % kUserPoolCount = 0 ∧ ∀ u ∈ l, u.1 < nextId i l := by
  induction l generalizing i with
  | nil =>
      have hself : nextId i [] = i := rfl
      rw [hself, Int.sub_self, Int.zero_emod]
      exact ⟨le_rfl, rfl, fun u hu => by cases hu⟩
  | cons u l ih =>
      rw [List.pairwise_cons] at hsorted
      obtain ⟨hiu, hmod⟩ := hl u List.mem_cons_self
      have hnext : nextId i (u :: l) = nextId (u.1 + kUserPoolCount) l := rfl
      obtain ⟨hle, haligned, hrest⟩ := @ih (u.1 + kUserPoolCount) (fun w hw => by
        obtain ⟨-, hwmod⟩ := hl w (List.mem_cons_of_mem u hw)
        have hlt := hsorted.1 w hw
        simp only [kUserPoolCount] at *
        omega) hsorted.2
      rw [← hnext] at hle haligned hrest
      simp only [kUserPoolCount] at *
      refine ⟨by omega, by omega, fun w hw => ?_⟩
      rcases List.mem_cons.mp hw with rfl | hw
      · omega
      · exact hrest w hw

theorem Snapshot.ahead (h : Snapshot data) (hu : u ∈ data.stateSeq) :
    data.userPoolIndex ≤ u.1 ∧ u.1 < 2 ^ 31 ∧ (u.1 - data.userPoolIndex) % kUserPoolCount = 0 := by
  obtain ⟨h0, h31, hmod⟩ := h.ids u hu
  have hindex := h.index
  simp only [kUserPoolCount] at *
  omega

/-- What a call leaves: the bytes of the users and of those between them up to the id that is
passed over, and zeros behind it; these are the indices that it uses. -/
structure Leaves (data : SyncBitmapData) (bitmap : Bitmap) (r : Sweep) : Prop where
  bytes : ∀ id, r.bitmap id =
    if Span data.userPoolIndex data.skipped id then valueIn data.stateSeq id
    else if Span (data.skipped + kUserPoolCount) (2 ^ 31) id then 0 else bitmap id
  indices : ∀ id, id ∈ r.touched ↔ Span data.userPoolIndex data.skipped id ∨
    Span (data.skipped + kUserPoolCount) (2 ^ 31) id

/-- **What `SyncBitmap` leaves for a pool.** -/
theorem SyncBitmap_leaves (bitmap : Bitmap) (h : Snapshot data) (hreload : 1 < reloadCount) :
    ∃ r, Returns (SyncBitmap reloadCount data bitmap) r ∧ Leaves data bitmap r := by
  obtain ⟨h0, hlt⟩ := h.index
  have hlt31 : data.userPoolIndex < 2 ^ 31 + kUserPoolCount := by omega
  have hint : IsInt data.userPoolIndex :=
    ⟨by omega, by simp only [kUserPoolCount] at hlt; omega⟩
  obtain ⟨t, ht, hwrote⟩ := (Sweep.Wrote.refl (s := ⟨data.userPoolIndex, bitmap, []⟩)
    (v := valueIn data.stateSeq) hint).users h0 (fun u hu => h.ahead hu) h.ascending
    fun id _ => rfl
  have hahead := hwrote.ahead
  obtain ⟨r, hr, hbytes, hindices⟩ := Sweep.tail_spec hwrote.pos (h0.trans hahead)
    (nextId_lt (fun u hu => (h.ids u hu).2.1) hlt31)
  refine ⟨r, ?_, ⟨fun id => ?_, fun id => ?_⟩⟩
  · have hbatch : SyncBitmap reloadCount data bitmap = fun fuel =>
        (Sweep.users fuel data.stateSeq ⟨data.userPoolIndex, bitmap, []⟩).bind (Sweep.tail fuel) := by
      funext fuel
      rw [SyncBitmap, if_pos h0, if_neg hreload.ne', if_pos hreload]
    rw [hbatch]
    exact ht.bind hr
  · have hboth : r.bitmap id =
        if Span (data.skipped + kUserPoolCount) (2 ^ 31) id then 0
        else if Span data.userPoolIndex data.skipped id then valueIn data.stateSeq id
        else bitmap id := by
      rw [hbytes, hwrote.bytes]
      rfl
    rw [hboth]
    by_cases hspan : Span data.userPoolIndex data.skipped id
    · rw [if_neg hspan.not_behind, if_pos hspan, if_pos hspan]
    · rw [if_neg hspan, if_neg hspan]
  · rw [hindices, hwrote.indices]
    simp [SyncBitmapData.skipped]

theorem Snapshot.skipped (h : Snapshot data) :
    data.userPoolIndex ≤ data.skipped ∧ data.skipped % kUserPoolCount = data.userPoolIndex ∧
      ∀ u ∈ data.stateSeq, Span data.userPoolIndex data.skipped u.1 := by
  obtain ⟨hle, haligned, hlast⟩ :=
    lt_nextId (fun u hu => ⟨(h.ahead hu).1, (h.ahead hu).2.2⟩) h.ascending
  refine ⟨hle, ?_, fun u hu => ⟨(h.ahead hu).1, hlast u hu, (h.ahead hu).2.2⟩⟩
  have hindex := h.index
  unfold SyncBitmapData.skipped
  simp only [kUserPoolCount] at *
  omega

/-- The id that is passed over is in neither stretch. -/
theorem Leaves.skipped (hleft : Leaves data bitmap r) :
    r.bitmap data.skipped = bitmap data.skipped := by
  have hbefore : ¬ Span data.userPoolIndex data.skipped data.skipped := fun h =>
    lt_irrefl _ h.2.1
  have hbehind : ¬ Span (data.skipped + kUserPoolCount) (2 ^ 31) data.skipped := fun h => by
    have hle := h.1
    simp only [kUserPoolCount] at hle
    omega
  rw [hleft.bytes, if_neg hbefore, if_neg hbehind]

/-- If exactly the pool is written, nothing is passed over but a 0, and the end is not passed. -/
theorem Leaves.spared (h : Snapshot data) (hleft : Leaves data bitmap r)
    (hwrites : WritesPool data bitmap r) : Spared data bitmap := by
  obtain ⟨hle, hpool, husers⟩ := h.skipped
  have h0 := h.index.1
  refine ⟨fun u hu => (hwrites.inside u.1 ((hleft.indices u.1).mpr (.inl (husers u hu)))).2,
    fun hskipped => ⟨?_, fun hlast => ?_⟩⟩
  · have hcleared := hwrites.cleared data.skipped (h0.trans hle) hskipped hpool fun u hu =>
      (husers u hu).2.1.ne
    rw [hleft.skipped] at hcleared
    exact hcleared
  · have hend : Span (data.skipped + kUserPoolCount) (2 ^ 31) BITMAP_SIZE := by
      unfold Span
      simp only [kUserPoolCount, BITMAP_SIZE] at *
      omega
    have hinside := (hwrites.inside BITMAP_SIZE ((hleft.indices _).mpr (.inr hend))).2
    exact lt_irrefl _ hinside

/-- And if it is so, exactly the pool is written. -/
theorem Leaves.writesPool (h : Snapshot data) (hleft : Leaves data bitmap r)
    (hspared : Spared data bitmap) : WritesPool data bitmap r := by
  obtain ⟨hle, hpool, husers⟩ := h.skipped
  obtain ⟨h0, hlt⟩ := h.index
  refine ⟨fun u hu => ?_, fun id hid0 hid hmod hnot => ?_, fun id hmod => ?_, fun id hid => ?_⟩
  · rw [hleft.bytes, if_pos (husers u hu), valueIn_of_mem h.ascending hu]
  · rw [hleft.bytes]
    by_cases hspan : Span data.userPoolIndex data.skipped id
    · rw [if_pos hspan]
      exact valueIn_of_not_mem hnot
    · rw [if_neg hspan]
      by_cases htail : Span (data.skipped + kUserPoolCount) (2 ^ 31) id
      · rw [if_pos htail]
      · -- the id that is passed over is the only one left
        have heq : id = data.skipped := by
          unfold Span at hspan htail
          simp only [kUserPoolCount, BITMAP_SIZE] at *
          omega
        rw [if_neg htail, heq]
        exact (hspared.skipped (heq ▸ hid)).1
  · have hindex : data.userPoolIndex % kUserPoolCount = data.userPoolIndex :=
      Int.emod_eq_of_lt h0 hlt
    have hbefore : ¬ Span data.userPoolIndex data.skipped id := fun hspan =>
      hmod (hspan.emod.trans hindex)
    have hbehind : ¬ Span (data.skipped + kUserPoolCount) (2 ^ 31) id := fun htail =>
      hmod (htail.emod.trans ((Int.add_emod_right _ _).trans hpool))
    rw [hleft.bytes, if_neg hbefore, if_neg hbehind]
  · rcases (hleft.indices id).mp hid with hspan | htail
    · refine ⟨h0.trans hspan.1, ?_⟩
      rcases nextId_eq data.userPoolIndex data.stateSeq with hnil | ⟨u, hu, hnext⟩
      · rw [← SyncBitmapData.skipped] at hnil
        exact absurd (hnil ▸ hspan) span_self
      · rw [← SyncBitmapData.skipped] at hnext
        have hsize := hspared.users u hu
        unfold Span at hspan
        simp only [kUserPoolCount] at *
        omega
    · have hskipped : data.skipped < BITMAP_SIZE := by
        unfold Span at htail
        simp only [kUserPoolCount, BITMAP_SIZE] at *
        omega
      have hother := (hspared.skipped hskipped).2
      unfold Span at htail
      simp only [kUserPoolCount, BITMAP_SIZE] at *
      omega

/-- **A pool against its bytes.** `SyncBitmap` returns, and it writes exactly the pool unless the
byte that is passed over is set or an index past the bitmap is used. -/
theorem SyncBitmap_writesPool_iff (bitmap : Bitmap) (h : Snapshot data)
    (hreload : 1 < reloadCount) :
    ∃ r, Returns (SyncBitmap reloadCount data bitmap) r ∧
      (WritesPool data bitmap r ↔ Spared data bitmap) := by
  obtain ⟨r, hr, hleft⟩ := SyncBitmap_leaves bitmap h hreload
  exact ⟨r, hr, fun hwrites => hleft.spared h hwrites, fun hspared => hleft.writesPool h hspared⟩

/-- Users 5 and 200005 are there, and 100005 between them is not. -/
def sampleSync : SyncBitmapData := ⟨5, [(5, 4), (200005, 20)]⟩

theorem snapshot_sampleSync : Snapshot sampleSync where
  index := by decide
  ascending := by decide
  ids := by decide

/-- The bytes before: user 100005, who has gone, user 200005 with another client, and user 7 of another
pool. -/
def sampleBytes : Bitmap := fun id =>
  if id = 100005 then 4 else if id = 200005 then 4 else if id = 7 then 20 else 0

/-- User 100005 is cleared, user 200005 is written, and user 7 is kept. -/
theorem SyncBitmap_writesPool_sample :
    ∃ r, Returns (SyncBitmap 2 sampleSync sampleBytes) r ∧ WritesPool sampleSync sampleBytes r := by
  obtain ⟨r, hr, hiff⟩ := SyncBitmap_writesPool_iff sampleBytes snapshot_sampleSync
    (show (1 : ℤ) < 2 by decide)
  exact ⟨r, hr, hiff.mpr ⟨by decide, fun _ => ⟨rfl, by decide⟩⟩⟩

/-- User 5 has gone and nobody else is in the pool: the byte of user 5 stays. -/
theorem SyncBitmap_passes_over :
    ¬ ∃ r, Returns (SyncBitmap 2 ⟨5, []⟩ fun id => if id = 5 then 4 else 0) r ∧
      WritesPool ⟨5, []⟩ (fun id => if id = 5 then 4 else 0) r := by
  rintro ⟨r, hr, hwrites⟩
  have hsnapshot : Snapshot ⟨5, []⟩ := ⟨by decide, List.Pairwise.nil, fun u hu => by cases hu⟩
  obtain ⟨r', hr', hleft⟩ := SyncBitmap_leaves (fun id => if id = 5 then 4 else 0) hsnapshot
    (show (1 : ℤ) < 2 by decide)
  have hcleared := hwrites.cleared 5 (by decide) (by decide) (by decide) fun u hu => by cases hu
  have hstays := hleft.skipped
  rw [← hr.unique hr'] at hstays
  exact absurd (hcleared.symm.trans hstays) (by decide)

end Oce.OnlineCenter
