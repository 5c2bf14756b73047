import Oce.OnlineCenter.Analysis.Registry
import Oce.OnlineCenter.Model.Manager

/-!
# The bitmap against the pools

What a user shows is a function of its avatars (`shown`), and each operation of a pool leaves
a known part of them (`avatarsOf_*`). A presence sends the value of `shown`; an offline sends
its kinds alone, which is the value when there is no avatar left or the status is `offline`;
the end of a proxy sends nothing, which is right for a user who shows the same without the
avatars there.
-/

set_option autoImplicit false

namespace Oce.OnlineCenter

open Oce.Base Oce.TalkCommon

variable {p : UserPool} {userId : ℤ} {c : Center}

variable {i : ℤ} {avatar : Avatar} {pool : UserPool} {l : List (ℤ × Pos)}

/-! ## The avatars of a user -/

/-- The avatars of a user, none for a user who is not there. -/
def avatarsOf (p : UserPool) (userId : ℤ) : List (ℤ × Pos) :=
  match p.users.find userId with
  | none => []
  | some u => u.avatars.entries

theorem avatarsOf_insert {users : OrdMap ℤ User} {lists : AvatarLists} {nodes : ℕ} {u : User} :
    avatarsOf ⟨users.insert i u, lists, nodes⟩ userId =
      if userId = i then u.avatars.entries else avatarsOf ⟨users, lists, nodes⟩ userId := by
  unfold avatarsOf
  dsimp only
  rw [OrdMap.find_insert]
  by_cases hi : userId = i <;> simp [hi]

theorem avatarsOf_put {s : AvatarLists × User} :
    avatarsOf (p.put i s) userId =
      if userId = i then s.2.avatars.entries else avatarsOf p userId := by
  unfold avatarsOf UserPool.put
  dsimp only
  by_cases hnil : s.2.avatars.entries = []
  · rw [if_pos (by simpa using hnil), OrdMap.find_erase, hnil]
    by_cases hi : userId = i <;> simp [hi]
  · rw [if_neg (by simpa using hnil), OrdMap.find_insert]
    by_cases hi : userId = i <;> simp [hi]

/-- What `remove` leaves of a user. -/
def remaining (jid : Jid) (l : List (ℤ × Pos)) : List (ℤ × Pos) := l.filter fun e => e.1 ≠ jid.index

theorem avatarsOf_remove (p : UserPool) (jid : Jid) :
    avatarsOf (p.remove jid) userId =
      if userId = jid.userId then remaining jid (avatarsOf p jid.userId) else avatarsOf p userId := by
  unfold UserPool.remove
  cases hfind : p.users.find jid.userId with
  | none =>
      dsimp only
      split_ifs with hi
      · rw [hi]
        simp [avatarsOf, hfind, remaining]
      · rfl
  | some u =>
      dsimp only
      rw [avatarsOf_put, User.avatars_remove]
      simp [avatarsOf, hfind, remaining, OrdMap.erase]

/-- The avatars of a user that are not at `endpoint`. -/
def elsewhere (endpoint : String) (l : List (ℤ × Pos)) : List (ℤ × Pos) :=
  l.filter fun e => e.2.avatar.jid.endpoint ≠ endpoint

theorem avatarsOf_removeEndpointOf (p : UserPool) (endpoint : String) (i : ℤ) :
    avatarsOf (p.removeEndpointOf endpoint i) userId =
      if userId = i then elsewhere endpoint (avatarsOf p userId) else avatarsOf p userId := by
  unfold UserPool.removeEndpointOf
  cases hfind : p.users.find i with
  | none =>
      dsimp only
      split_ifs with hi
      · rw [hi]
        simp [avatarsOf, hfind, elsewhere]
      · rfl
  | some u =>
      dsimp only
      rw [avatarsOf_put, User.avatars_removeEndpoint]
      split_ifs with hi
      · rw [hi]
        simp [avatarsOf, hfind, elsewhere]
      · rfl

theorem elsewhere_elsewhere (endpoint : String) (l : List (ℤ × Pos)) :
    elsewhere endpoint (elsewhere endpoint l) = elsewhere endpoint l := by
  unfold elsewhere
  rw [List.filter_filter]
  simp

theorem avatarsOf_foldl (ids : List ℤ) (p : UserPool) (endpoint : String) :
    avatarsOf (ids.foldl (UserPool.removeEndpointOf endpoint) p) userId =
      if userId ∈ ids then elsewhere endpoint (avatarsOf p userId) else avatarsOf p userId := by
  induction ids generalizing p with
  | nil => simp
  | cons i ids ih =>
      rw [List.foldl_cons, ih, avatarsOf_removeEndpointOf]
      by_cases hi : userId = i
      · subst hi
        simp [elsewhere_elsewhere]
      · simp [hi]

theorem avatarsOf_removeEndpoint (p : UserPool) (endpoint : String) :
    avatarsOf (p.removeEndpoint endpoint) userId = elsewhere endpoint (avatarsOf p userId) := by
  unfold UserPool.removeEndpoint
  rw [avatarsOf_foldl]
  split_ifs with hmem
  · rfl
  · have hnone : p.users.find userId = none := by
      cases hfind : p.users.find userId with
      | none => rfl
      | some u =>
          have hentry : (userId, u) ∈ p.users.entries := p.users.mem_entries_iff.mpr hfind
          exact absurd (List.mem_map_of_mem hentry) hmem
    simp [avatarsOf, hnone, elsewhere]

/-- An added avatar belongs to its user only. -/
theorem avatarsOf_add (h : userId ≠ avatar.jid.userId ∨ (p.add avatar).1 = false) :
    avatarsOf (p.add avatar).2 userId = avatarsOf p userId := by
  unfold UserPool.add at *
  by_cases hempty : avatar.jid.endpoint = ""
  · rw [if_pos hempty]
  · rw [if_neg hempty] at h ⊢
    cases hfind : p.users.find avatar.jid.userId with
    | none =>
        simp only [hfind] at h ⊢
        by_cases hsuccess : (User.new.add (p.avatars.pushBack ⟨p.nodes, avatar⟩) ⟨p.nodes, avatar⟩).1
        · rw [if_pos hsuccess, avatarsOf_insert, if_neg (h.resolve_right (by simp [hsuccess]))]
          rfl
        · rw [if_neg hsuccess]
          rfl
    | some u =>
        simp only [hfind] at h ⊢
        rw [avatarsOf_insert]
        split_ifs with hi
        · have hrefused := h.resolve_left (not_not.mpr hi)
          have hacc : User.accepts avatar.jid = false := by
            by_contra hacc
            rw [User.add_success (by simpa using hacc)] at hrefused
            cases hrefused
          rw [User.add_refused hacc, hi]
          simp [avatarsOf, hfind]
        · rfl

/-! ## What a user shows -/

/-- The kinds that avatars show. -/
def shownKinds (l : List (ℤ × Pos)) : ℕ :=
  if l = [] ∨ User.leastStat (l.map Prod.snd) = .invisiable then unknowType
  else User.unionOfTypes (l.map Prod.snd)

/-- The status that avatars show. -/
def shownStat (l : List (ℤ × Pos)) : OnlineStat :=
  if l = [] then .offline else User.leastStat (l.map Prod.snd)

/-- The value of the bitmap for a user with these avatars. -/
def shown (l : List (ℤ × Pos)) : ℕ := shownKinds l ||| (shownStat l).val <<< 4

theorem getUserOnlineType_eq (h : UsersSettled p) (userId : ℤ) :
    p.getUserOnlineType userId = shownKinds (avatarsOf p userId) := by
  unfold UserPool.getUserOnlineType avatarsOf
  cases hfind : p.users.find userId with
  | none => simp [shownKinds]
  | some u =>
      have hu := h userId u hfind
      unfold User.shownType shownKinds
      simp only [hu.type_eq, hu.stat_eq, hu.nonempty, OrdMap.values, false_or]

theorem getUserOnlineStat_eq (h : UsersSettled p) (userId : ℤ) :
    p.getUserOnlineStat userId = shownStat (avatarsOf p userId) := by
  unfold UserPool.getUserOnlineStat avatarsOf
  cases hfind : p.users.find userId with
  | none => simp [shownStat]
  | some u =>
      have hu := h userId u hfind
      unfold shownStat
      simp only [hu.stat_eq, hu.nonempty, OrdMap.values, if_false]

theorem getUserBitmapValue_eq (h : UsersSettled p) (userId : ℤ) :
    p.getUserBitmapValue userId = shown (avatarsOf p userId) := by
  unfold shown
  rw [← getUserOnlineType_eq h, ← getUserOnlineStat_eq h]
  unfold UserPool.getUserBitmapValue UserPool.getUserOnlineType UserPool.getUserOnlineStat
  cases p.users.find userId <;> rfl

theorem typeOf_mem (pos : Pos) : User.typeOf pos ∈ [0, 2, 4, 8] := by
  unfold User.typeOf
  split <;> decide

/-- Kinds are even numbers below 16. -/
theorem unionOfTypes_bits (l : List Pos) (t : ℕ) (h : t < 16 ∧ t % 2 = 0) :
    l.foldl (fun t pos => t ||| User.typeOf pos) t < 16 ∧
      l.foldl (fun t pos => t ||| User.typeOf pos) t % 2 = 0 := by
  induction l generalizing t with
  | nil => exact h
  | cons pos l ih =>
      have hor : ∀ t < 16, t % 2 = 0 → ∀ k ∈ [0, 2, 4, 8], (t ||| k) < 16 ∧ (t ||| k) % 2 = 0 := by
        decide
      exact ih _ (hor t h.1 h.2 _ (typeOf_mem pos))

theorem shownKinds_bits (l : List (ℤ × Pos)) : shownKinds l < 16 ∧ shownKinds l % 2 = 0 := by
  unfold shownKinds
  split_ifs
  · decide
  · exact unionOfTypes_bits _ _ (by decide)

/-- The bitmap service reads the two halves of the value back. -/
theorem decode_value (t : ℕ) (h : t < 16) (heven : t % 2 = 0) (s : OnlineStat) :
    (BitVec.ofNat 8 (t ||| s.val <<< 4) &&& 14#8).toNat = t ∧
      (BitVec.ofNat 8 (t ||| s.val <<< 4)).toInt >>> 4 = (s.val : ℤ) := by
  have hall : ∀ t < 16, t % 2 = 0 → ∀ v < 6,
      (BitVec.ofNat 8 (t ||| v <<< 4) &&& 14#8).toNat = t ∧
        (BitVec.ofNat 8 (t ||| v <<< 4)).toInt >>> 4 = (v : ℤ) := by
    decide
  exact hall t h heven s.val (Nat.lt_succ_of_le (User.val_le_five s))

/-! ## The manager -/

/-- The pool of a user. -/
def Center.poolOf (c : Center) (userId : ℤ) : UserPool := c.pools (userId % kUserPoolCount)

/-- Every user is settled, and the byte of every user with a positive id is what it shows. -/
structure Followed (c : Center) : Prop where
  settled : ∀ i, UsersSettled (c.pools i)
  byte : ∀ userId, 0 < userId → c.bitmap userId = BitVec.ofNat 8 (shown (avatarsOf (c.poolOf userId) userId))

theorem followed_new : Followed .new where
  settled _ _ _ h := by cases h
  byte userId _ := by
    have hnil : avatarsOf (Center.new.poolOf userId) userId = [] := rfl
    rw [hnil]
    rfl

/-- What a call finds when what it sends, or does not, is right: an offline leaves no avatar, or
one that is offline; the end of a proxy changes nothing that a user shows. -/
def CenterOp.Shows (c : Center) : CenterOp → Prop
  | .presence _ => True
  | .offline jid =>
    let l := remaining jid (avatarsOf (c.poolOf jid.userId) jid.userId)
    jid.userId ≤ 0 ∨ l = [] ∨ ∃ e ∈ l, e.2.avatar.stat = .offline
  | .closeProxyServer endpoint =>
    ∀ userId, 0 < userId →
      shown (elsewhere endpoint (avatarsOf (c.poolOf userId) userId)) =
        shown (avatarsOf (c.poolOf userId) userId)

theorem getPool_of_nonneg (h : 0 ≤ userId) : Center.getPool userId = some (userId % kUserPoolCount) := by
  unfold Center.getPool
  rw [if_pos h]

theorem getPool_of_neg (h : ¬ 0 ≤ userId) : Center.getPool userId = none := by
  unfold Center.getPool
  rw [if_neg h]

@[simp] theorem poolOf_sync (c : Center) (i : ℤ) (t : ℕ) : (c.sync i t).poolOf userId = c.poolOf userId :=
  rfl

@[simp] theorem bitmap_setPool (c : Center) (i : ℤ) (pool : UserPool) :
    (c.setPool i pool).bitmap = c.bitmap :=
  rfl

theorem pools_setPool (c : Center) (i j : ℤ) (pool : UserPool) :
    (c.setPool i pool).pools j = if j = i then pool else c.pools j :=
  Function.update_apply c.pools i pool j

theorem bitmap_sync (c : Center) (i : ℤ) (t : ℕ) (hpos : 0 < userId) :
    (c.sync i t).bitmap userId = if userId = i then BitVec.ofNat 8 t else c.bitmap userId := by
  unfold Center.sync Bitmap.syncBitmap
  simp only [List.foldl_cons, List.foldl_nil]
  by_cases hi : userId = i
  · subst hi
    rw [if_pos hpos, Function.update_self, if_pos rfl]
  · rw [if_neg hi]
    by_cases h0 : 0 < i
    · rw [if_pos h0, Function.update_of_ne hi]
    · rw [if_neg h0]

/-- The pool of user `i` is put back with nothing but the avatars of that user changed. -/
theorem avatarsOf_setPool
    (hother : ∀ userId, userId ≠ i → avatarsOf pool userId = avatarsOf (c.poolOf i) userId) :
    avatarsOf ((c.setPool (i % kUserPoolCount) pool).poolOf userId) userId =
      if userId = i then avatarsOf pool i else avatarsOf (c.poolOf userId) userId := by
  unfold Center.poolOf at *
  rw [pools_setPool]
  by_cases hpool : userId % kUserPoolCount = i % kUserPoolCount
  · rw [if_pos hpool, hpool]
    split_ifs with hi
    · rw [hi]
    · exact hother userId hi
  · rw [if_neg hpool, if_neg]
    rintro rfl
    exact hpool rfl

theorem settled_setPool (h : ∀ i, UsersSettled (c.pools i)) (hpool : UsersSettled pool) (j : ℤ) :
    UsersSettled ((c.setPool i pool).pools j) := by
  rw [pools_setPool]
  split_ifs
  · exact hpool
  · exact h j

theorem presence_eq (h : 0 ≤ avatar.jid.userId) (hweb : avatar.jid.endpoint ≠ "web") : let i := avatar.jid.userId
    let r := (c.poolOf i).add avatar
    c.presence avatar =
      if r.1 then (c.setPool (i % kUserPoolCount) r.2).sync i (r.2.getUserBitmapValue i)
      else c.setPool (i % kUserPoolCount) r.2 := by
  unfold Center.presence
  simp only [getPool_of_nonneg h, if_neg hweb]
  rfl

theorem presence_ignored (h : ¬ 0 ≤ avatar.jid.userId ∨ avatar.jid.endpoint = "web") :
    c.presence avatar = c := by
  unfold Center.presence
  by_cases hneg : 0 ≤ avatar.jid.userId
  · simp only [getPool_of_nonneg hneg, if_pos (h.resolve_left (not_not.mpr hneg))]
  · simp only [getPool_of_neg hneg]

/-- A presence is followed by the bitmap. -/
theorem followed_presence (h : Followed c) (avatar : Avatar) : Followed (c.presence avatar) := by
  by_cases hskip : ¬ 0 ≤ avatar.jid.userId ∨ avatar.jid.endpoint = "web"
  · rw [presence_ignored hskip]
    exact h
  rw [not_or, not_not] at hskip
  have hsettled : UsersSettled ((c.poolOf avatar.jid.userId).add avatar).2 :=
    usersSettled_add (h.settled _)
  rw [presence_eq hskip.1 hskip.2]
  by_cases hsuccess : ((c.poolOf avatar.jid.userId).add avatar).1
  · have hother : ∀ userId, userId ≠ avatar.jid.userId →
        avatarsOf ((c.poolOf avatar.jid.userId).add avatar).2 userId =
          avatarsOf (c.poolOf avatar.jid.userId) userId :=
      fun userId hne => avatarsOf_add (.inl hne)
    rw [if_pos hsuccess]
    refine ⟨settled_setPool h.settled hsettled, fun userId hpos => ?_⟩
    rw [bitmap_sync _ _ _ hpos, poolOf_sync, avatarsOf_setPool hother]
    split_ifs
    · rw [getUserBitmapValue_eq hsettled]
    · exact h.byte userId hpos
  · have hrefused : ∀ userId, avatarsOf ((c.poolOf avatar.jid.userId).add avatar).2 userId =
        avatarsOf (c.poolOf avatar.jid.userId) userId :=
      fun userId => avatarsOf_add (.inr (by simpa using hsuccess))
    rw [if_neg hsuccess]
    refine ⟨settled_setPool h.settled hsettled, fun userId hpos => ?_⟩
    rw [bitmap_setPool, h.byte userId hpos, avatarsOf_setPool fun userId _ => hrefused userId]
    split_ifs with hi
    · rw [hrefused, hi]
    · rfl

/-- An avatar with the lowest status there is gives it to the user. -/
theorem shownStat_offline_iff :
    shownStat l = .offline ↔ l = [] ∨ ∃ e ∈ l, e.2.avatar.stat = .offline := by
  have hval : ∀ s : OnlineStat, s = .offline ↔ s.val = 0 := by
    intro s
    cases s <;> decide
  obtain ⟨hfrom, -, hall⟩ := User.leastStat_aux (l.map Prod.snd) .online
  change User.leastStat (l.map Prod.snd) = _ ∨ _ at hfrom
  unfold shownStat
  by_cases hnil : l = []
  · simp [hnil]
  rw [if_neg hnil]
  constructor
  · intro hoff
    right
    rcases hfrom with hfrom | ⟨pos, hpos, heq⟩
    · rw [hfrom] at hoff
      cases hoff
    · obtain ⟨e, he, rfl⟩ := List.mem_map.mp hpos
      exact ⟨e, he, heq.trans hoff⟩
  · rintro (hnil' | ⟨e, he, hoff⟩)
    · exact absurd hnil' hnil
    · have hle := hall e.2 (List.mem_map_of_mem he)
      rw [(hval _).mp hoff] at hle
      exact (hval _).mpr (Nat.le_zero.mp hle)

/-- What an offline sends is what the user shows exactly when the status is `offline`. -/
theorem shownKinds_eq_shown_iff :
    shownKinds l = shown l ↔ l = [] ∨ ∃ e ∈ l, e.2.avatar.stat = .offline := by
  rw [← shownStat_offline_iff]
  unfold shown
  have hbits := shownKinds_bits l
  have hall : ∀ t < 16, ∀ v < 6, t = (t ||| v <<< 4) → v = 0 := by decide
  constructor
  · intro heq
    have hzero := hall _ hbits.1 _ (Nat.lt_succ_of_le (User.val_le_five (shownStat l))) heq
    revert hzero
    cases shownStat l <;> decide
  · intro hoff
    rw [hoff]
    exact (Nat.or_zero _).symm

theorem offline_eq {jid : Jid} (h : 0 ≤ jid.userId) :
    let i := jid.userId
    let pool := (c.poolOf i).remove jid
    c.offline jid = (c.setPool (i % kUserPoolCount) pool).sync i (pool.getUserOnlineType i) := by
  unfold Center.offline
  simp only [getPool_of_nonneg h]
  rfl

theorem followed_offline (h : Followed c) (jid : Jid) (hc : (CenterOp.offline jid).Shows c) :
    Followed (c.offline jid) := by
  by_cases hneg : 0 ≤ jid.userId
  · have hsettled : UsersSettled ((c.poolOf jid.userId).remove jid) :=
      usersSettled_remove (h.settled _) jid
    have hother : ∀ userId, userId ≠ jid.userId → avatarsOf ((c.poolOf jid.userId).remove jid) userId =
        avatarsOf (c.poolOf jid.userId) userId := by
      intro userId hne
      rw [avatarsOf_remove, if_neg hne]
    rw [offline_eq hneg]
    refine ⟨settled_setPool h.settled hsettled, fun userId hpos => ?_⟩
    rw [bitmap_sync _ _ _ hpos, poolOf_sync, avatarsOf_setPool hother]
    split_ifs with hi
    · have hleft := hc.resolve_left (by omega)
      rw [getUserOnlineType_eq hsettled, avatarsOf_remove, if_pos rfl,
        shownKinds_eq_shown_iff.mpr hleft]
    · exact h.byte userId hpos
  · unfold Center.offline
    simp only [getPool_of_neg hneg]
    exact h

theorem followed_closeProxyServer (h : Followed c) (endpoint : String)
    (hc : (CenterOp.closeProxyServer endpoint).Shows c) : Followed (c.closeProxyServer endpoint) := by
  unfold Center.closeProxyServer
  refine ⟨fun i => ?_, fun userId hpos => ?_⟩
  · dsimp only
    split_ifs
    · exact usersSettled_step (c.pools i) (.removeEndpoint endpoint) (h.settled i)
    · exact h.settled i
  · have hin : 0 ≤ userId % kUserPoolCount ∧ userId % kUserPoolCount < kUserPoolCount := by
      unfold kUserPoolCount
      omega
    unfold Center.poolOf
    dsimp only
    rw [if_pos hin, avatarsOf_removeEndpoint]
    exact (h.byte userId hpos).trans (congrArg (BitVec.ofNat 8) (hc userId hpos).symm)

theorem followed_step (c : Center) (a : CenterOp) (h : Followed c) (ha : a.Shows c) :
    Followed (a.step c) := by
  cases a with
  | presence avatar => exact followed_presence h avatar
  | offline jid => exact followed_offline h jid ha
  | closeProxyServer endpoint => exact followed_closeProxyServer h endpoint ha

/-- **In every run whose offlines leave no avatar, or one that is offline, and whose ends of a
proxy change nothing that a user shows, the byte of every positive id is the value of the
registry, and the bitmap service answers the kinds and the status that the registry shows.** -/
theorem bitmap_follows (ops : List CenterOp) (h : StepsMeet CenterOp.step CenterOp.Shows .new ops) :
    let c := runOps CenterOp.step .new ops
    ∀ userId, 0 < userId →
      c.bitmap userId = BitVec.ofNat 8 ((c.poolOf userId).getUserBitmapValue userId) ∧
        c.bitmap.getUserType userId = (c.poolOf userId).getUserOnlineType userId ∧
        c.bitmap.getUserStat userId = ((c.poolOf userId).getUserOnlineStat userId).val := by
  intro c userId hpos
  have hc : Followed c := run_invariant followed_step followed_new h
  have hsettled : UsersSettled (c.poolOf userId) := hc.settled _
  have hbits := shownKinds_bits (avatarsOf (c.poolOf userId) userId)
  have hdecode := decode_value _ hbits.1 hbits.2 (shownStat (avatarsOf (c.poolOf userId) userId))
  unfold Bitmap.getUserType Bitmap.getUserStat
  rw [getUserBitmapValue_eq hsettled, getUserOnlineType_eq hsettled, getUserOnlineStat_eq hsettled,
    hc.byte userId hpos]
  exact ⟨rfl, hdecode⟩

/-! ## Sample runs -/

/-- A client comes on, and goes. -/
def comeAndGo : List CenterOp :=
  [.presence (sampleAvatar 42 "T:p1" 7 .busy), .offline ⟨42, "T:p1", 7⟩]

/-- A client goes whose user stays on with a web pager. -/
def pagerStays : List CenterOp :=
  [.presence (sampleAvatar 42 "T:p1" 7 .online), .presence (sampleAvatar 42 "WPage" 0 .busy),
    .offline ⟨42, "T:p1", 7⟩]

/-- A client comes on, and its proxy ends. -/
def proxyEnds : List CenterOp :=
  [.presence (sampleAvatar 42 "T:p1" 7 .online), .closeProxyServer "T:p1"]

theorem bitmap_follows_comeAndGo :
    (runOps CenterOp.step .new comeAndGo).bitmap 42 =
      BitVec.ofNat 8 (((runOps CenterOp.step .new comeAndGo).poolOf 42).getUserBitmapValue 42) :=
  (bitmap_follows comeAndGo ⟨trivial, .inr (.inl (by decide)), trivial⟩ 42 (by decide)).1

/-- The bitmap loses the status of the user who stays, and keeps the user whose proxy ended. -/
theorem bitmap_lags :
    (runOps CenterOp.step .new pagerStays).bitmap 42 = 2 ∧
      ((runOps CenterOp.step .new pagerStays).poolOf 42).getUserBitmapValue 42 = 50 ∧
      (runOps CenterOp.step .new pagerStays).bitmap.getUserStat 42 = 0 ∧
      ((runOps CenterOp.step .new pagerStays).poolOf 42).getUserOnlineStat 42 = .busy ∧
      (runOps CenterOp.step .new proxyEnds).bitmap 42 = 84 ∧
      ((runOps CenterOp.step .new proxyEnds).poolOf 42).getUserBitmapValue 42 = 0 ∧
      (runOps CenterOp.step .new proxyEnds).bitmap.getUserType 42 = 4 := by
  decide

end Oce.OnlineCenter
