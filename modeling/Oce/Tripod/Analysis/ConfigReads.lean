import Oce.Tripod.Model.ConfigManager

/-!
# What a read leaves in the tree

One lemma for each function of the manager, on the reads that succeed. `Fresh` is a child that
was read from the node it belongs to; `updateNamespaces_spec` says of every namespace that it is
fresh, or the one that was there with the version that was read.
-/

set_option autoImplicit false

namespace Oce.Tripod

open Oce.Base

variable {zk : Zk} {path : List String} {buflen : ℕ} {n : ZNode} {x name : String}
  {c config read : ConfigData} {e : String × ConfigData} {needVersion updateFlag : Bool}
  {old rest result : List (String × ConfigData)}

/-- The children have the names of the node's children. -/
def SameChildren (c : ConfigData) (n : ZNode) : Prop := ∀ x, (c.child x).isSome ↔ x ∈ n.names

/-- A child with the version and the children of the node at a path. -/
def Fresh (c : ConfigData) (zk : Zk) (path : List String) : Prop :=
  ∃ n, zk.node path = some n ∧ c.version = n.data ∧ SameChildren c n

/-- No data is longer than the buffer it is read into. -/
def Fits (zk : Zk) : Prop :=
  ∀ path n, zk.node path = some n → n.data.length ≤ ConfigManager.bufferSize

/-! ## Calls -/

namespace Zk

theorem zooGet_eq_some {v : List Byte} (h : zk.zooGet path buflen = some v) :
    ∃ n, zk.node path = some n ∧ v = n.data.take buflen := by
  unfold zooGet at h
  split_ifs at h
  obtain ⟨n, hn, hv⟩ := Option.map_eq_some_iff.mp h
  exact ⟨n, hn, hv.symm⟩

theorem zooGetChildren_eq_some {l : List String} (h : zk.zooGetChildren path = some l) :
    ∃ n, zk.node path = some n ∧ l = n.names := by
  unfold zooGetChildren at h
  split_ifs at h
  obtain ⟨n, hn, hl⟩ := Option.map_eq_some_iff.mp h
  exact ⟨n, hn, hl.symm⟩

end Zk

theorem Fits.take (h : Fits zk) (hn : zk.node path = some n) :
    n.data.take ConfigManager.bufferSize = n.data :=
  List.take_of_length_le (h path n hn)

theorem ConfigData.mem_of_mem_insertNew {l : List (String × ConfigData)}
    (h : e ∈ ConfigData.insertNew x c l) : e = (x, c) ∨ e ∈ l := by
  unfold ConfigData.insertNew at h
  split_ifs at h with hx
  · exact .inr h
  · exact OrdMap.mem_of_mem_insertEntry h

theorem ConfigData.isSome_insertNew (x y : String) (c : ConfigData)
    (l : List (String × ConfigData)) :
    (OrdMap.findEntry y (ConfigData.insertNew x c l)).isSome ↔
      y = x ∨ (OrdMap.findEntry y l).isSome := by
  rw [ConfigData.findEntry_insertNew]
  by_cases hy : y = x <;> simp [hy]

namespace ConfigManager

variable {zk : Zk}

/-! ## The children of a node -/

theorem readChild_eq_some (h : readChild zk path needVersion name = some c) :
    c.name = name ∧
      (needVersion = true → ∃ m, zk.node (path ++ [name]) = some m ∧
        c.version = m.data.take bufferSize) := by
  unfold readChild at h
  split_ifs at h with hneed
  · obtain ⟨v, hv, rfl⟩ := Option.map_eq_some_iff.mp h
    obtain ⟨m, hm, rfl⟩ := Zk.zooGet_eq_some hv
    exact ⟨rfl, fun _ => ⟨m, hm, rfl⟩⟩
  · cases h
    exact ⟨rfl, fun h => absurd h hneed⟩

/-- The loop over the names: every name is there, and what is new is what was read. -/
theorem readChildren_spec (names : List String) (l : List (String × ConfigData))
    (h : (readChildren zk path needVersion names l).1 = true) :
    (∀ x, (OrdMap.findEntry x (readChildren zk path needVersion names l).2).isSome ↔
        x ∈ names ∨ (OrdMap.findEntry x l).isSome) ∧
      ∀ e ∈ (readChildren zk path needVersion names l).2,
        e ∈ l ∨ readChild zk path needVersion e.1 = some e.2 := by
  induction names generalizing l with
  | nil => exact ⟨fun x => by simp [readChildren], fun e he => .inl he⟩
  | cons name names ih =>
      unfold readChildren at h ⊢
      cases hread : readChild zk path needVersion name with
      | none => simp [hread] at h
      | some c =>
          rw [hread] at h
          dsimp only at h ⊢
          obtain ⟨hkeys, hentries⟩ := ih _ h
          have hname : c.name = name := (readChild_eq_some hread).1
          refine ⟨fun x => ?_, fun e he => ?_⟩
          · rw [hkeys, ConfigData.isSome_insertNew, hname, List.mem_cons]
            exact or_left_comm.trans or_assoc.symm
          · rcases hentries e he with he | he
            · rcases ConfigData.mem_of_mem_insertNew he with rfl | he
              · rw [hname]
                exact .inr hread
              · exact .inl he
            · exact .inr he

/-- Names without versions. -/
theorem getChildrenDatas_names (h : (getChildrenDatas config zk path needVersion).1 = true) :
    ∃ n, zk.node path = some n ∧
      SameChildren (getChildrenDatas config zk path needVersion).2 n ∧
      (getChildrenDatas config zk path needVersion).2.version = config.version ∧
      (getChildrenDatas config zk path needVersion).2.name = config.name := by
  unfold getChildrenDatas at h ⊢
  cases hlist : zk.zooGetChildren path with
  | none => simp [hlist] at h
  | some l =>
      rw [hlist] at h
      obtain ⟨n, hn, rfl⟩ := Zk.zooGetChildren_eq_some hlist
      refine ⟨n, hn, fun x => ?_, rfl, rfl⟩
      dsimp only
      rw [ConfigData.child_setChildren, (readChildren_spec _ _ h).1 x]
      simp [OrdMap.findEntry]

/-- The same, of a node that is known. -/
theorem getChildrenDatas_of_node (hn : zk.node path = some n)
    (h : (getChildrenDatas config zk path needVersion).1 = true) :
    (getChildrenDatas config zk path needVersion).2.version = config.version ∧
      SameChildren (getChildrenDatas config zk path needVersion).2 n := by
  obtain ⟨n', hn', hsame, hversion, -⟩ := getChildrenDatas_names h
  obtain rfl : n = n' := Option.some.inj (hn.symm.trans hn')
  exact ⟨hversion, hsame⟩

/-- Names with the versions of their nodes. -/
theorem getChildrenDatas_versions (hfits : Fits zk)
    (h : (getChildrenDatas config zk path true).1 = true) :
    ∀ e ∈ (getChildrenDatas config zk path true).2.childrenDatas,
      e.2.name = e.1 ∧ ∃ m, zk.node (path ++ [e.1]) = some m ∧ e.2.version = m.data := by
  unfold getChildrenDatas at h ⊢
  cases hlist : zk.zooGetChildren path with
  | none => simp [hlist] at h
  | some l =>
      rw [hlist] at h
      intro e he
      rcases (readChildren_spec _ _ h).2 e he with he | he
      · simp at he
      · obtain ⟨hname, hversion⟩ := readChild_eq_some he
        obtain ⟨m, hm, hv⟩ := hversion rfl
        rw [hfits.take hm] at hv
        exact ⟨hname, m, hm, hv⟩

/-! ## Manager and producers -/

theorem updateManagerConfig_first (hfits : Fits zk)
    (h : (updateManagerConfig config zk false).suc = true) :
    Fresh (updateManagerConfig config zk false).config zk [TRIPOD_MANAGER] := by
  unfold updateManagerConfig at h ⊢
  have hexists : zk.zooExists [TRIPOD_MANAGER] = true := by
    by_contra hno
    simp [Bool.eq_false_of_not_eq_true hno] at h
  simp only [hexists, Bool.not_true, Bool.false_eq_true, if_false] at h ⊢
  cases hget : zk.zooGet [TRIPOD_MANAGER] bufferSize with
  | none => simp [hget] at h
  | some version =>
      rw [hget] at h
      obtain ⟨n, hn, rfl⟩ := Zk.zooGet_eq_some hget
      simp only [Bool.false_and, Bool.false_eq_true, if_false] at h ⊢
      obtain ⟨hversion, hsame⟩ := getChildrenDatas_of_node hn h
      exact ⟨n, hn, hversion.trans (hfits.take hn), hsame⟩

/-- A check reads the managers if their version is new. -/
theorem updateManagerConfig_check (hfits : Fits zk)
    (h : (updateManagerConfig config zk true).suc = true) :
    ∃ n, zk.node [TRIPOD_MANAGER] = some n ∧
      ((config.version = n.data ∧ (updateManagerConfig config zk true).updateFlag = false ∧
          (updateManagerConfig config zk true).config = config) ∨
        (config.version ≠ n.data ∧ (updateManagerConfig config zk true).updateFlag = true ∧
          Fresh (updateManagerConfig config zk true).config zk [TRIPOD_MANAGER])) := by
  unfold updateManagerConfig at h ⊢
  have hexists : zk.zooExists [TRIPOD_MANAGER] = true := by
    by_contra hno
    simp [Bool.eq_false_of_not_eq_true hno] at h
  simp only [hexists, Bool.not_true, Bool.false_eq_true, if_false] at h ⊢
  cases hget : zk.zooGet [TRIPOD_MANAGER] bufferSize with
  | none => simp [hget] at h
  | some version =>
      rw [hget] at h
      obtain ⟨n, hn, rfl⟩ := Zk.zooGet_eq_some hget
      rw [hfits.take hn] at h ⊢
      refine ⟨n, hn, ?_⟩
      dsimp only at h ⊢
      by_cases hv : config.version = n.data
      · exact .inl ⟨hv, by simp [hv], by simp [hv]⟩
      · simp only [Bool.true_and, beq_iff_eq, if_neg hv] at h ⊢
        obtain ⟨hversion, hsame⟩ := getChildrenDatas_of_node hn h
        exact .inr ⟨hv, h, n, hn, hversion, hsame⟩

/-- The first read of one half, into a buffer of any length. -/
theorem updateProducerHalf_first
    (h : (updateProducerHalf name buflen updateFlag config zk false).1.suc = true) :
    ∃ n c, zk.node [TRIPOD_PRODUCER, name] = some n ∧ c.version = n.data.take buflen ∧
      SameChildren c n ∧
      updateProducerHalf name buflen updateFlag config zk false =
        (⟨true, true, config.setChildren (ConfigData.insertNew name c config.childrenDatas)⟩,
          (n.data.take buflen).length) := by
  unfold updateProducerHalf at h ⊢
  have hexists : zk.zooExists [TRIPOD_PRODUCER, name] = true := by
    by_contra hno
    simp [Bool.eq_false_of_not_eq_true hno] at h
  simp only [hexists, Bool.not_true, Bool.false_eq_true, if_false] at h ⊢
  cases hget : zk.zooGet [TRIPOD_PRODUCER, name] buflen with
  | none => simp [hget] at h
  | some version =>
      rw [hget] at h
      obtain ⟨n, hn, rfl⟩ := Zk.zooGet_eq_some hget
      dsimp only at h ⊢
      split_ifs at h ⊢ with hsuc
      obtain ⟨hversion, hsame⟩ := getChildrenDatas_of_node hn hsuc
      exact ⟨n, _, hn, hversion, hsame, rfl⟩

/-- **A later read of one half**: the version is compared as far as the buffer goes. -/
theorem updateProducerHalf_check
    (h : (updateProducerHalf name buflen updateFlag config zk true).1.suc = true) :
    ∃ n found, zk.node [TRIPOD_PRODUCER, name] = some n ∧ config.child name = some found ∧
      ((found.version = n.data.take buflen ∧
          updateProducerHalf name buflen updateFlag config zk true =
            (⟨true, updateFlag, config⟩, (n.data.take buflen).length)) ∨
        (found.version ≠ n.data.take buflen ∧ ∃ c, c.version = n.data.take buflen ∧
          SameChildren c n ∧
          updateProducerHalf name buflen updateFlag config zk true =
            (⟨true, true, config.setChild name c⟩, (n.data.take buflen).length))) := by
  unfold updateProducerHalf at h ⊢
  have hexists : zk.zooExists [TRIPOD_PRODUCER, name] = true := by
    by_contra hno
    simp [Bool.eq_false_of_not_eq_true hno] at h
  simp only [hexists, Bool.not_true, Bool.false_eq_true, if_false] at h ⊢
  cases hget : zk.zooGet [TRIPOD_PRODUCER, name] buflen with
  | none => simp [hget] at h
  | some version =>
      rw [hget] at h
      obtain ⟨n, hn, rfl⟩ := Zk.zooGet_eq_some hget
      dsimp only [if_true] at h ⊢
      cases hfound : config.child name with
      | none => simp [hfound] at h
      | some found =>
          rw [hfound] at h
          refine ⟨n, found, hn, rfl, ?_⟩
          by_cases hv : found.version = n.data.take buflen
          · exact .inl ⟨hv, by simp [hv]⟩
          · simp only [bne_iff_ne, ne_eq, hv, not_false_eq_true, if_true] at h ⊢
            obtain ⟨hversion, hsame⟩ := getChildrenDatas_of_node hn h
            exact .inr ⟨trivial, _, hversion, hsame, by rw [h]⟩

/-! ## Namespaces -/

/-- What an update makes of a namespace: the one that was there, if it has the version that was
read, or one that was read anew. -/
def Brought (zk : Zk) (old : List (String × ConfigData)) (x : String) (read c : ConfigData) :
    Prop :=
  c.version = read.version ∧
    (OrdMap.findEntry x old = some c ∨
      ∃ n, zk.node [TRIPOD_CACHE, x] = some n ∧ SameChildren c n)

/-- Some namespace that was there has another version now. -/
def Bumped (old entries : List (String × ConfigData)) : Prop :=
  ∃ e ∈ entries, ∃ found, OrdMap.findEntry e.1 old = some found ∧ e.2.version ≠ found.version

theorem bumped_cons :
    Bumped old (e :: rest) ↔
      (∃ found, OrdMap.findEntry e.1 old = some found ∧ e.2.version ≠ found.version) ∨
        Bumped old rest := by
  simp [Bumped]

/-- One namespace more in the tree that the loop builds. -/
theorem brought_cons {children : List (String × ConfigData)} (hc : Brought zk old x read c)
    (ih : (∀ y, (OrdMap.findEntry y result).isSome ↔
        y ∈ rest.map Prod.fst ∨ (OrdMap.findEntry y (ConfigData.insertNew x c children)).isSome) ∧
      ∀ e ∈ result, e ∈ ConfigData.insertNew x c children ∨
        ∃ read, (e.1, read) ∈ rest ∧ Brought zk old e.1 read e.2) :
    (∀ y, (OrdMap.findEntry y result).isSome ↔
        y ∈ ((x, read) :: rest).map Prod.fst ∨ (OrdMap.findEntry y children).isSome) ∧
      ∀ e ∈ result, e ∈ children ∨
        ∃ read', (e.1, read') ∈ (x, read) :: rest ∧ Brought zk old e.1 read' e.2 := by
  refine ⟨fun y => ?_, fun e he => ?_⟩
  · rw [ih.1, ConfigData.isSome_insertNew, List.map_cons, List.mem_cons]
    exact or_left_comm.trans or_assoc.symm
  · rcases ih.2 e he with he | ⟨read', hmem, hbrought⟩
    · rcases ConfigData.mem_of_mem_insertNew he with rfl | he
      · exact .inr ⟨read, List.mem_cons_self, hc⟩
      · exact .inl he
    · exact .inr ⟨read', List.mem_cons_of_mem _ hmem, hbrought⟩

/-- **The loop that compares versions.** -/
theorem updateNamespaces_spec (entries : List (String × ConfigData))
    (hnames : ∀ e ∈ entries, e.2.name = e.1) (updateFlag : Bool)
    (children : List (String × ConfigData))
    (h : (updateNamespaces zk old entries updateFlag children).1 = true) :
    ((∀ y, (OrdMap.findEntry y (updateNamespaces zk old entries updateFlag children).2.2).isSome ↔
        y ∈ entries.map Prod.fst ∨ (OrdMap.findEntry y children).isSome) ∧
      ∀ e ∈ (updateNamespaces zk old entries updateFlag children).2.2, e ∈ children ∨
        ∃ read, (e.1, read) ∈ entries ∧ Brought zk old e.1 read e.2) ∧
      ((updateNamespaces zk old entries updateFlag children).2.1 = true ↔
        updateFlag = true ∨ Bumped old entries) := by
  induction entries generalizing updateFlag children with
  | nil => simp [updateNamespaces, Bumped]
  | cons e rest ih =>
      obtain ⟨x, read⟩ := e
      have hname : read.name = x := hnames (x, read) List.mem_cons_self
      have ih := ih fun e he => hnames e (List.mem_cons_of_mem _ he)
      rw [bumped_cons]
      unfold updateNamespaces at h ⊢
      cases hfound : OrdMap.findEntry x old with
      | some found =>
          rw [hfound] at h
          dsimp only at h ⊢
          by_cases hv : read.version = found.version
          · simp only [bne_iff_ne, ne_eq, hv, not_true_eq_false, if_false] at h ⊢
            have hbrought : Brought zk old x read found := ⟨hv.symm, .inl hfound⟩
            refine ⟨brought_cons hbrought (ih _ _ h).1, (ih _ _ h).2.trans ?_⟩
            simp
          · simp only [bne_iff_ne, ne_eq, hv, not_false_eq_true, if_true] at h ⊢
            by_cases hsuc : (getChildrenDatas (found.setVersion read.version) zk
                [TRIPOD_CACHE, x] false).1 = true
            · rw [if_pos hsuc] at h ⊢
              obtain ⟨n, hn, hsame, hversion, -⟩ := getChildrenDatas_names hsuc
              refine ⟨brought_cons ⟨hversion, .inr ⟨n, hn, hsame⟩⟩ (ih _ _ h).1,
                (ih _ _ h).2.trans ?_⟩
              simp [hv]
            · simp [if_neg hsuc] at h
      | none =>
          rw [hfound] at h
          dsimp only at h ⊢
          by_cases hsuc : (getChildrenDatas (.mk read.name read.version []) zk
              [TRIPOD_CACHE, x] false).1 = true
          · rw [if_pos hsuc] at h ⊢
            obtain ⟨n, hn, hsame, hversion, hname'⟩ := getChildrenDatas_names hsuc
            rw [hname'.trans hname] at h ⊢
            refine ⟨brought_cons ⟨hversion, .inr ⟨n, hn, hsame⟩⟩ (ih _ _ h).1,
              (ih _ _ h).2.trans ?_⟩
            simp
          · simp [if_neg hsuc] at h

/-- The loop of the first read. -/
theorem readNamespaces_spec (entries children : List (String × ConfigData))
    (h : (readNamespaces zk entries children).1 = true) :
    (∀ y, (OrdMap.findEntry y (readNamespaces zk entries children).2).isSome ↔
        y ∈ entries.map Prod.fst ∨ (OrdMap.findEntry y children).isSome) ∧
      ∀ e ∈ (readNamespaces zk entries children).2, e ∈ children ∨
        ∃ read, (e.1, read) ∈ entries ∧ Brought zk [] e.1 read e.2 := by
  induction entries generalizing children with
  | nil => simp [readNamespaces]
  | cons e rest ih =>
      obtain ⟨x, read⟩ := e
      unfold readNamespaces at h ⊢
      dsimp only at h ⊢
      by_cases hsuc : (getChildrenDatas (.mk read.name read.version []) zk
          [TRIPOD_CACHE, x] false).1 = true
      · rw [if_pos hsuc] at h ⊢
        obtain ⟨n, hn, hsame, hversion, -⟩ := getChildrenDatas_names hsuc
        exact brought_cons ⟨hversion, .inr ⟨n, hn, hsame⟩⟩ (ih _ h)
      · simp [if_neg hsuc] at h

/-- What an update of the cache tree leaves: the namespaces of the state that was read, each with
the version of its node, and with its children or as it was. -/
structure CacheRead (zk : Zk) (old : List (String × ConfigData)) (config : ConfigData) : Prop where
  names : ∃ n, zk.node [TRIPOD_CACHE] = some n ∧ SameChildren config n
  brought : ∀ x c, config.child x = some c →
    ∃ n, zk.node [TRIPOD_CACHE, x] = some n ∧ c.version = n.data ∧
      (OrdMap.findEntry x old = some c ∨ SameChildren c n)

/-- The tree that a loop over the namespaces built, from what the loop is known to do. -/
theorem cacheRead_of_loop (hn : zk.node [TRIPOD_CACHE] = some n) (hsame : SameChildren read n)
    (hread : ∀ e ∈ read.childrenDatas, e.2.name = e.1 ∧
      ∃ m, zk.node [TRIPOD_CACHE, e.1] = some m ∧ e.2.version = m.data)
    (hkeys : ∀ y, (OrdMap.findEntry y result).isSome ↔
      y ∈ read.childrenDatas.map Prod.fst ∨
        (OrdMap.findEntry y ([] : List (String × ConfigData))).isSome)
    (hresult : ∀ e ∈ result, e ∈ ([] : List (String × ConfigData)) ∨
      ∃ r, (e.1, r) ∈ read.childrenDatas ∧ Brought zk old e.1 r e.2) :
    CacheRead zk old (config.setChildren result) where
  names := by
    refine ⟨n, hn, fun x => ?_⟩
    rw [ConfigData.child_setChildren, hkeys, ← hsame x, ConfigData.child, OrdMap.findEntry_isSome,
      OrdMap.findEntry_isSome]
    exact or_iff_left (by simp)
  brought := by
    intro x c hc
    rcases hresult (x, c) (OrdMap.findEntry_mem hc) with hmem | ⟨r, hmem, hversion, hbrought⟩
    · cases hmem
    · obtain ⟨-, m, hm, hdata⟩ := hread _ hmem
      refine ⟨m, hm, hversion.trans hdata, hbrought.imp id ?_⟩
      rintro ⟨m', hm', hsame'⟩
      obtain rfl : m = m' := Option.some.inj (hm.symm.trans hm')
      exact hsame'

theorem node_cache_isSome (hn : zk.node [TRIPOD_CACHE] = some n) (x : String) :
    (zk.node [TRIPOD_CACHE, x]).isSome ↔ x ∈ n.names := by
  have happend := zk.root.node_append [TRIPOD_CACHE] x
  rw [show zk.root.node [TRIPOD_CACHE] = some n from hn, Option.bind_some, ZNode.node_cons] at happend
  rw [Zk.node, show [TRIPOD_CACHE, x] = [TRIPOD_CACHE] ++ [x] from rfl, happend, ZNode.names,
    ← OrdMap.findEntry_isSome]
  cases OrdMap.findEntry x n.children with
  | none => simp
  | some c => simp

theorem updateCacheConfig_first (hfits : Fits zk)
    (h : (updateCacheConfig config zk false).suc = true) :
    CacheRead zk [] (updateCacheConfig config zk false).config := by
  unfold updateCacheConfig at h ⊢
  have hexists : zk.zooExists [TRIPOD_CACHE] = true := by
    by_contra hno
    simp [Bool.eq_false_of_not_eq_true hno] at h
  have hread : (getChildrenDatas .empty zk [TRIPOD_CACHE] true).1 = true := by
    by_contra hno
    simp [Bool.eq_false_of_not_eq_true hno] at h
  simp only [hexists, hread, Bool.not_true, Bool.false_eq_true, if_false] at h ⊢
  obtain ⟨n, hn, hsame, -⟩ := getChildrenDatas_names hread
  obtain ⟨hkeys, hresult⟩ := readNamespaces_spec _ _ h
  exact cacheRead_of_loop hn hsame (getChildrenDatas_versions hfits hread) hkeys hresult

/-- **A later update of the cache tree**: the flag is set exactly if a namespace that was there
has another version now. -/
theorem updateCacheConfig_check (hfits : Fits zk)
    (h : (updateCacheConfig config zk true).suc = true) :
    CacheRead zk config.childrenDatas (updateCacheConfig config zk true).config ∧
      ((updateCacheConfig config zk true).updateFlag = true ↔
        ∃ x found n, config.child x = some found ∧ zk.node [TRIPOD_CACHE, x] = some n ∧
          found.version ≠ n.data) := by
  unfold updateCacheConfig at h ⊢
  have hexists : zk.zooExists [TRIPOD_CACHE] = true := by
    by_contra hno
    simp [Bool.eq_false_of_not_eq_true hno] at h
  have hread : (getChildrenDatas .empty zk [TRIPOD_CACHE] true).1 = true := by
    by_contra hno
    simp [Bool.eq_false_of_not_eq_true hno] at h
  simp only [hexists, hread, Bool.not_true, Bool.false_eq_true, if_false, if_true] at h ⊢
  obtain ⟨n, hn, hsame, -⟩ := getChildrenDatas_names hread
  have hversions := getChildrenDatas_versions hfits hread
  obtain ⟨⟨hkeys, hresult⟩, hflag⟩ := updateNamespaces_spec _ (fun e he => (hversions e he).1) _ _ h
  refine ⟨cacheRead_of_loop hn hsame hversions hkeys hresult, hflag.trans ?_⟩
  rw [or_iff_right Bool.false_ne_true]
  constructor
  · rintro ⟨e, he, found, hfound, hne⟩
    obtain ⟨-, m, hm, hdata⟩ := hversions e he
    exact ⟨e.1, found, m, hfound, hm, fun heq => hne (hdata.trans heq.symm)⟩
  · rintro ⟨x, found, m, hfound, hm, hne⟩
    have hx : x ∈ n.names := (node_cache_isSome hn x).mp (by rw [hm]; rfl)
    obtain ⟨c, hc⟩ := Option.isSome_iff_exists.mp ((hsame x).mpr hx)
    have hmem := OrdMap.findEntry_mem hc
    obtain ⟨-, m', hm', hdata⟩ := hversions _ hmem
    obtain rfl : m = m' := Option.some.inj (hm.symm.trans hm')
    exact ⟨(x, c), hmem, found, hfound, fun heq => hne (heq.symm.trans hdata)⟩

end ConfigManager

end Oce.Tripod
