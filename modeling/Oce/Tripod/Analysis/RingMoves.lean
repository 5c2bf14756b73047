import Oce.Tripod.Analysis.PointOwners

/-!
# Where the keys of a holder are

After `renew` all lookups of a holder come from one node for each key, the first by name of those
that want the point which is reached from its hash (`Cpp.OwnerOf`, `Cpp.getPair_renew`). It is
found in the vector of nodes as in the map of names, since a point is inserted into both for the
same node. A node that goes or comes leaves the keys that are not its own where they are
(`Cpp.ownerOf_erase`, `Cpp.ownerOf_insert`).
-/

set_option autoImplicit false

namespace Oce.Tripod.Cpp

open Oce.Base

variable {T : Type*} (md5 : MD5)

/-! ## Owners -/

/-- The names in a configuration. -/
def names (config : OrdMap String T) : Set String := {name | (config.find name).isSome}

/-- The node wants the point. -/
def WantsPoint (name : String) (p : ℕ) : Prop := p ∈ points md5 name

/-- The node that owns the first point from the hash of the key on, or else the first point. -/
def OwnerOf (config : OrdMap String T) (key : List Byte) (name : String) : Prop :=
  NodeOf (WantsPoint md5) (names config) (hashKey md5 key) name

variable {md5} {config : OrdMap String T} {key : List Byte} {name : String}

theorem exists_wantsPoint (md5 : MD5) (name : String) : ∃ p, WantsPoint md5 name p :=
  ⟨word (stringToMD5 md5 (utf8 name ++ natDigits 0)) 0, List.mem_flatMap.mpr
    ⟨0, by decide, List.mem_map.mpr ⟨0, List.mem_finRange 0, rfl⟩⟩⟩

theorem mem_names_of_mem {e : String × T} (he : e ∈ config.entries) : e.1 ∈ names config :=
  Option.isSome_iff_exists.mpr ⟨e.2, config.mem_entries_iff.mp he⟩

/-- The points of a ring, whatever is kept at them. -/
theorem isSome_claimAll_iff {β : Type*} (v : String × T → β) (p : ℕ) :
    ((OrdMap.claimAll (fun it : String × T => points md5 it.1) v config.entries .empty).find
        p).isSome ↔ Wanted (WantsPoint md5) (names config) p := by
  rw [OrdMap.isSome_claimAll]
  constructor
  · rintro ⟨e, he, hp⟩
    exact ⟨e.1, mem_names_of_mem he, hp⟩
  · rintro ⟨name, hname, hp⟩
    obtain ⟨t, ht⟩ := Option.isSome_iff_exists.mp hname
    exact ⟨(name, t), config.mem_entries_iff.mpr ht, hp⟩

/-- A ring has points when there are nodes. -/
theorem claimAll_entries_nil_iff {β : Type*} (v : String × T → β) :
    (OrdMap.claimAll (fun it : String × T => points md5 it.1) v config.entries .empty).entries =
      [] ↔ config.entries = [] := by
  constructor
  · intro hnil
    rw [List.eq_nil_iff_forall_not_mem]
    intro e he
    obtain ⟨p, hp⟩ := exists_wantsPoint md5 e.1
    have hsome := (isSome_claimAll_iff v p).mpr ⟨e.1, mem_names_of_mem he, hp⟩
    rw [OrdMap.find_eq_none_of_nil hnil] at hsome
    cases hsome
  · intro hnil
    rw [hnil]
    rfl

/-- **The pair for a key**: its node is the owner, and the name at its point is that of the
owner. -/
theorem getPair_renew (md5 : MD5) (hne : config.entries ≠ []) (key : List Byte) :
    ∃ e name, getPair (hashKey md5 key) (renew md5 config) = some e ∧
      OwnerOf md5 config key name ∧ config.find name = some e.2 ∧
      (hashNames md5 config).find e.1 = some name := by
  have hring : (hashConfig md5 config).entries ≠ [] := fun hnil =>
    hne ((claimAll_entries_nil_iff Prod.snd).mp hnil)
  obtain ⟨e, hpair, hreaches, hfind⟩ := getPair_spec (hashKey md5 key) hring
  obtain ⟨name, t, hleast, hname, rfl⟩ :=
    (OrdMap.find_claimAll_entries (points md5) Prod.snd config e.1 e.2).mp hfind
  refine ⟨e, name, hpair, ⟨e.1, hreaches.congr (isSome_claimAll_iff Prod.snd), hleast⟩, hname, ?_⟩
  exact (OrdMap.find_claimAll_entries (points md5) Prod.fst config e.1 name).mpr
    ⟨name, _, hleast, hname, rfl⟩

theorem not_ownerOf_of_nil (hnil : config.entries = []) : ¬OwnerOf md5 config key name := by
  intro howner
  have hmem : (config.find name).isSome := howner.mem
  rw [OrdMap.find_eq_none_of_nil hnil] at hmem
  cases hmem

/-- Every key has one owner, where there is a node. -/
theorem existsUnique_ownerOf (md5 : MD5) (hne : config.entries ≠ []) (key : List Byte) :
    ∃! name, OwnerOf md5 config key name := by
  obtain ⟨-, name, -, howner, -, -⟩ := getPair_renew md5 hne key
  exact ⟨name, howner, fun other hother => hother.unique howner⟩

/-! ## Lookups -/

namespace HashHolder

/-- **`get` finds the owner.** -/
theorem get_renew_iff {t : T} :
    (renew md5 config).get md5 key = some t ↔
      ∃ name, OwnerOf md5 config key name ∧ config.find name = some t := by
  show Cpp.get md5 (Cpp.renew md5 config) key = some t ↔ _
  by_cases hnil : config.entries = []
  · have hring : Cpp.renew md5 config = [] := (claimAll_entries_nil_iff Prod.snd).mpr hnil
    rw [hring]
    refine iff_of_false (fun h => ?_) ?_
    · cases h
    · rintro ⟨name, howner, -⟩
      exact not_ownerOf_of_nil hnil howner
  · have hring : (Cpp.renew md5 config).length ≠ 0 := fun hlength =>
      hnil ((claimAll_entries_nil_iff Prod.snd).mp (List.length_eq_zero_iff.mp hlength))
    obtain ⟨e, name, hpair, howner, hname, -⟩ := getPair_renew md5 hnil key
    rw [Cpp.get, if_neg hring, hpair, Option.map_some]
    constructor
    · intro h
      cases h
      exact ⟨name, howner, hname⟩
    · rintro ⟨other, hother, hfind⟩
      obtain rfl : other = name := hother.unique howner
      exact hname.symm.trans hfind

/-- `get` is what the batches ask for, when there is a ring. -/
theorem getIn_eq_get (holder : HashHolder T) (hne : ¬holder.configIndex.length = 0)
    (key : List Byte) : getIn md5 key holder.configIndex = holder.get md5 key := by
  rw [get, Cpp.get, if_neg hne]
  rfl

theorem get_of_length_eq_zero {holder : HashHolder T} (hlength : holder.configIndex.length = 0)
    (key : List Byte) : holder.get md5 key = none := by
  rw [get, Cpp.get, if_pos hlength]

section Batches

variable [LinearOrder T] (holder : HashHolder T)

/-- **The batch over keys.** -/
theorem find_getKeySeq (keys : List (List Byte)) (t : T) :
    (holder.getKeySeq md5 keys).find t =
      if ∃ key ∈ keys, holder.get md5 key = some t then
        some (keys.filter fun key => holder.get md5 key = some t)
      else none := by
  unfold getKeySeq
  by_cases hlength : holder.configIndex.length = 0
  · simp [hlength, get_of_length_eq_zero hlength]
  · simp only [hlength, if_false, getIn_eq_get holder hlength]
    rw [OrdMap.find_group]
    have hself : ∀ l : List (List Byte), l.foldl (fun newKeys it => newKeys ++ [it]) [] = l := by
      intro l
      rw [List.foldl_append_eq_append, List.nil_append, ← List.flatMap_def, List.flatMap_singleton']
    simp only [hself]

attribute [local instance] byteOrder

/-- **The batch over data.** -/
theorem find_getDataMap (data : OrdMap (List Byte) (List Byte)) (t : T) :
    (holder.getDataMap md5 data).find t =
      if ∃ e ∈ data.entries, holder.get md5 e.1 = some t then
        some (data.filterMap fun key v => if holder.get md5 key = some t then some v else none)
      else none := by
  unfold getDataMap
  by_cases hlength : holder.configIndex.length = 0
  · simp [hlength, get_of_length_eq_zero hlength]
  · simp only [hlength, if_false, getIn_eq_get holder hlength]
    rw [OrdMap.find_group]
    have hgroup := OrdMap.insertAll_filter data fun e => decide (holder.get md5 e.1 = some t)
    simp only [decide_eq_true_eq] at hgroup
    rw [← hgroup]
    rfl

end Batches

open Classical in
/-- **The filter keeps the keys whose owner is listed.** -/
theorem getPrxKeySeq_renew (md5 : MD5) (config : OrdMap String T) (keys : List (List Byte))
    (prxVec : List String) :
    (renew md5 config).getPrxKeySeq md5 keys prxVec =
      keys.filter fun key => decide (∃ name ∈ prxVec, OwnerOf md5 config key name) := by
  unfold getPrxKeySeq
  show (if (hashNames md5 config).entries.length = 0 then [] else _) = _
  by_cases hnil : config.entries = []
  · have hnames : (hashNames md5 config).entries.length = 0 :=
      List.length_eq_zero_iff.mpr ((claimAll_entries_nil_iff Prod.fst).mpr hnil)
    rw [if_pos hnames, eq_comm, List.filter_eq_nil_iff]
    rintro key - hlisted
    obtain ⟨name, -, howner⟩ := of_decide_eq_true hlisted
    exact not_ownerOf_of_nil hnil howner
  · have hnames : (hashNames md5 config).entries.length ≠ 0 := fun hlength =>
      hnil ((claimAll_entries_nil_iff Prod.fst).mp (List.length_eq_zero_iff.mp hlength))
    rw [if_neg hnames]
    by_cases hprx : prxVec = []
    · simp [hprx]
    · rw [if_neg (by simpa using hprx)]
      refine List.filter_congr fun key _ => ?_
      obtain ⟨e, name, hpair, howner, -, hpoint⟩ := getPair_renew md5 hnil key
      have hpair' : getPair (hashKey md5 key) (renew md5 config).configIndex = some e := hpair
      have hpoint' : (renew md5 config).virtualNodesToRealNodesIndex.find e.1 = some name := hpoint
      rw [hpair']
      dsimp only
      rw [hpoint']
      dsimp only
      refine decide_eq_decide.mpr ⟨fun hmem => ⟨name, hmem, howner⟩, ?_⟩
      rintro ⟨other, hmem, hother⟩
      exact howner.unique hother ▸ hmem

end HashHolder

/-! ## Moves -/

theorem names_erase_subset (config : OrdMap String T) (gone : String) :
    names (config.erase gone) ⊆ names config := by
  intro name hname
  change ((config.erase gone).find name).isSome at hname
  rw [OrdMap.find_erase] at hname
  split_ifs at hname
  · cases hname
  · exact hname

theorem mem_names_erase {gone : String} (hne : name ≠ gone) (hmem : name ∈ names config) :
    name ∈ names (config.erase gone) := by
  show ((config.erase gone).find name).isSome
  rw [OrdMap.find_erase, if_neg hne]
  exact hmem

/-- **A node that goes takes its own keys only.** -/
theorem ownerOf_erase {gone : String} (hgone : ¬OwnerOf md5 config key gone) (name : String) :
    OwnerOf md5 (config.erase gone) key name ↔ OwnerOf md5 config key name := by
  have hsub := names_erase_subset config gone
  by_cases hnil : config.entries = []
  · refine iff_of_false (fun howner => ?_) (not_ownerOf_of_nil hnil)
    have hmem : (config.find name).isSome := hsub howner.mem
    rw [OrdMap.find_eq_none_of_nil hnil] at hmem
    cases hmem
  · obtain ⟨owner, howner, -⟩ := existsUnique_ownerOf md5 hnil key
    have hne : owner ≠ gone := fun heq => hgone (heq ▸ howner)
    exact nodeOf_iff_of_subset hsub (mem_names_erase hne howner.mem) howner name

/-- **A node that comes takes keys for itself only.** -/
theorem ownerOf_insert {new : String} {t : T} (hnew : ¬OwnerOf md5 (config.insert new t) key new)
    (name : String) : OwnerOf md5 (config.insert new t) key name ↔ OwnerOf md5 config key name := by
  have hsub : names config ⊆ names (config.insert new t) := by
    intro other hother
    show ((config.insert new t).find other).isSome
    rw [OrdMap.find_insert]
    split_ifs
    · rfl
    · exact hother
  have hnodes : (config.insert new t).entries ≠ [] := by
    intro hnil
    have hfind := OrdMap.find_insert_self config new t
    rw [OrdMap.find_eq_none_of_nil hnil] at hfind
    cases hfind
  obtain ⟨owner, howner, -⟩ := existsUnique_ownerOf md5 hnodes key
  have hne : owner ≠ new := fun heq => hnew (heq ▸ howner)
  have hmem : ((config.insert new t).find owner).isSome := howner.mem
  rw [OrdMap.find_insert_ne config t hne] at hmem
  exact (nodeOf_iff_of_subset hsub hmem howner name).symm

/-- The same owners, kept at the same nodes, make the same lookup. -/
theorem HashHolder.get_congr {config' : OrdMap String T}
    (howner : ∀ name, OwnerOf md5 config' key name ↔ OwnerOf md5 config key name)
    (hfind : ∀ name, OwnerOf md5 config key name → config'.find name = config.find name) :
    (renew md5 config').get md5 key = (renew md5 config).get md5 key := by
  apply Option.ext
  intro t
  rw [get_renew_iff, get_renew_iff]
  refine exists_congr fun name => ?_
  rw [howner]
  exact and_congr_right fun h => by rw [hfind name h]

/-! ## The ring -/

section Consistent

variable [LinearOrder T]

attribute [local instance] byteOrder

open Classical in
/-- The lookups of a renewed holder agree on an owner, which stays where others go and come. -/
structure Consistent (md5 : MD5) (config : OrdMap String T) : Prop where
  /-- A key has one owner, where there are nodes. -/
  owner : config.entries ≠ [] → ∀ key, ∃! name, OwnerOf md5 config key name
  /-- `get(key)`. -/
  get : ∀ key t, (HashHolder.renew md5 config).get md5 key = some t ↔
    ∃ name, OwnerOf md5 config key name ∧ config.find name = some t
  /-- `get(keys)`: under a node its keys, in their order. -/
  getKeySeq : ∀ keys t, ((HashHolder.renew md5 config).getKeySeq md5 keys).find t =
    if ∃ key ∈ keys, (HashHolder.renew md5 config).get md5 key = some t then
      some (keys.filter fun key => (HashHolder.renew md5 config).get md5 key = some t)
    else none
  /-- `get(data)`: under a node its data. -/
  getDataMap : ∀ data t, ((HashHolder.renew md5 config).getDataMap md5 data).find t =
    if ∃ e ∈ data.entries, (HashHolder.renew md5 config).get md5 e.1 = some t then
      some (data.filterMap fun key v =>
        if (HashHolder.renew md5 config).get md5 key = some t then some v else none)
    else none
  /-- `get(keys, names)`: the keys of the nodes with these names. -/
  getPrxKeySeq : ∀ keys prxVec, (HashHolder.renew md5 config).getPrxKeySeq md5 keys prxVec =
    keys.filter fun key => decide (∃ name ∈ prxVec, OwnerOf md5 config key name)
  /-- Without a node the keys of the others are where they were. -/
  remove : ∀ gone key, ¬OwnerOf md5 config key gone →
    (∀ name, OwnerOf md5 (config.erase gone) key name ↔ OwnerOf md5 config key name) ∧
      (HashHolder.renew md5 (config.erase gone)).get md5 key =
        (HashHolder.renew md5 config).get md5 key
  /-- With a new node the keys that are not its own are where they were. -/
  add : ∀ new t key, ¬OwnerOf md5 (config.insert new t) key new →
    (∀ name, OwnerOf md5 (config.insert new t) key name ↔ OwnerOf md5 config key name) ∧
      (HashHolder.renew md5 (config.insert new t)).get md5 key =
        (HashHolder.renew md5 config).get md5 key

/-- **The ring is consistent**, for every hash function and every configuration. -/
theorem hashHolder_consistent (md5 : MD5) (config : OrdMap String T) : Consistent md5 config where
  owner := existsUnique_ownerOf md5
  get _ _ := HashHolder.get_renew_iff
  getKeySeq := HashHolder.find_getKeySeq _
  getDataMap := HashHolder.find_getDataMap _
  getPrxKeySeq := HashHolder.getPrxKeySeq_renew md5 config
  remove gone key hgone := by
    refine ⟨ownerOf_erase hgone, HashHolder.get_congr (ownerOf_erase hgone) fun name howner => ?_⟩
    have hne : name ≠ gone := fun heq => hgone (heq ▸ howner)
    rw [OrdMap.find_erase, if_neg hne]
  add new t key hnew := by
    have hsame := ownerOf_insert hnew
    refine ⟨hsame, HashHolder.get_congr hsame fun name howner => ?_⟩
    have hne : name ≠ new := fun heq => hnew (heq ▸ (hsame name).mpr howner)
    exact OrdMap.find_insert_ne config t hne

end Consistent

end Oce.Tripod.Cpp
