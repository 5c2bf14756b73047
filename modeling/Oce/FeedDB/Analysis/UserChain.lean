import Oce.FeedDB.Analysis.ChainRemoval
import Oce.FeedDB.Analysis.MasterAllocation

/-!
# The law of a user's chain

The master and the data nodes together: after any run of puts and removals, a `get` from
the newest block of a user returns the first items of what the user was given and kept,
newest block first.

The invariant gives every user a chain that the data node of the user's server holds, and
every block handed out an owner, so that what is done for one user touches no block of
another (`ClusterInv.only`). The newest block is not full as long as the master sends
records to it, because it holds no more items than the count of its record.

A pointer record goes through the task of a put with a feed that nobody set. If that is negative,
the task takes a feed out of the chain (`pointerRecord_removes`).
-/

set_option autoImplicit false

namespace Oce.FeedDB

open Function Oce.Base Node

variable {c c' : Cluster} {own own' : BlockPos → ℤ} {u garbage feed userId : ℤ}
  {d new : BlockData} {chain : List BlockId} {item : FeedItem} {m : DataNodeManager} {fuel : ℕ}

/-- The block of a record as its data node names it. -/
def BlockData.id (d : BlockData) : BlockId := ⟨d.fileId, d.blockIndex⟩

/-- A block of a server. -/
def posOf (server : ℤ) (id : BlockId) : BlockPos := ⟨server, id.fileId, id.blockIndex⟩

/-- The user `u` with record `d` has the blocks `chain`, which hold what was kept. -/
structure UserInv (c : Cluster) (own : BlockPos → ℤ) (u : ℤ) (d : BlockData)
    (chain : List BlockId) : Prop where
  newest : chain.head? = some d.id
  holds : (c.nodes d.serverId).Holds (uint32 u) chain
  handed : ∀ id ∈ chain, posOf d.serverId id ∈ c.master.handedOut ∧ own (posOf d.serverId id) = u
  counts : 1 ≤ d.curCount ∧ d.curCount ≤ recordPerBlock
  room : ∀ l ∈ (c.kept u).head?, (l.length : ℤ) ≤ d.curCount
  keeps : KeptAs ((c.nodes d.serverId).itemsOf chain) (c.kept u)

/-- The invariant of the cluster. -/
structure ClusterInv (c : Cluster) (own : BlockPos → ℤ) : Prop where
  alloc : AllocInv c.master
  fileIds : ∀ s node, c.master.dataNodes.find s = some node → 1 ≤ node.fileId
  cached : ∀ s id, ((c.nodes s).cache id).isSome → posOf s id ∈ c.master.handedOut
  files : ∀ s, ∀ f ∈ (c.nodes s).files, ∃ node, c.master.dataNodes.find s = some node ∧ f ≤ node.fileId
  nothing : ∀ u, u = 0 ∨ c.master.hashDB.get u = none → c.kept u = []
  sorted : ∀ u, ∀ l ∈ c.kept u, Descending FeedItem.feed l
  users : ∀ u d, u ≠ 0 → c.master.hashDB.get u = some d → ∃ chain, UserInv c own u d chain

/-- Fresh data nodes: nothing in memory, no file located. -/
def Cluster.fresh (m : DataNodeManager) (disk : ℤ → BlockId → Block)
    (log logOld : ℤ → ℤ → List FeedItemBlockInfo) : Cluster where
  master := m
  nodes := fun s => .started [] (disk s) (log s) (logOld s)
  kept := fun _ => []

/-! ## One operation -/

/-- Files up to `f` leave room for file `f`. -/
theorem locateFile_of_le {files : List ℤ} {f : ℤ} (h : ∀ g ∈ files, g ≤ f) :
    ∃ files', locateFile files f = some files' ∧ ∀ g ∈ files', g ≤ f := by
  unfold locateFile
  by_cases hf : f ∈ files
  · exact ⟨files, if_pos hf, h⟩
  rw [if_neg hf]
  cases hlast : files.getLast? with
  | none => exact ⟨[f], rfl, by simp⟩
  | some high =>
      have hhigh := h high (List.mem_of_getLast? hlast)
      refine ⟨files ++ [f], if_neg (by omega), fun g hg => ?_⟩
      rcases List.mem_append.mp hg with hg | hg
      · exact h g hg
      · rw [List.mem_singleton.mp hg]

/-- What an operation for user `u` may change: nothing of another user. -/
structure OnlyFor (c c' : Cluster) (own own' : BlockPos → ℤ) (u : ℤ) : Prop where
  handed : ∀ p ∈ c.master.handedOut, p ∈ c'.master.handedOut
  owners : ∀ p ∈ c.master.handedOut, own' p = own p
  frame : ∀ s, Frame (fun id => posOf s id ∈ c.master.handedOut → own (posOf s id) = u)
    (c.nodes s) (c'.nodes s)
  kept : ∀ v, v ≠ u → c'.kept v = c.kept v
  records : ∀ v, v ≠ 0 → v ≠ u → c'.master.hashDB.get v = c.master.hashDB.get v

/-- **The chain of another user stays as it is.** -/
theorem UserInv.other {v : ℤ} (h : UserInv c own v d chain) (hop : OnlyFor c c' own own' u)
    (hvu : v ≠ u) : UserInv c' own' v d chain := by
  have hview : ∀ id ∈ chain, (c'.nodes d.serverId).view id = (c.nodes d.serverId).view id := by
    intro id hid
    obtain ⟨hmem, hown⟩ := h.handed id hid
    exact (hop.frame d.serverId).view fun hs => hvu (hown.symm.trans (hs hmem))
  refine ⟨h.newest, ?_, ?_, h.counts, ?_, ?_⟩
  · refine h.holds.of_same (hop.frame d.serverId).files ?_ ?_
    · intro id hid
      rw [hview id hid]
    · intro id hid
      unfold preOf nextOf
      rw [hview id hid]
      exact ⟨rfl, rfl⟩
  · intro id hid
    obtain ⟨hmem, hown⟩ := h.handed id hid
    exact ⟨hop.handed _ hmem, (hop.owners _ hmem).trans hown⟩
  · rw [hop.kept v hvu]
    exact h.room
  · have hitems : (c'.nodes d.serverId).itemsOf chain = (c.nodes d.serverId).itemsOf chain :=
      itemsOf_congr fun id hid => by rw [hview id hid]
    rw [hop.kept v hvu, hitems]
    exact h.keeps

/-- An operation for user `u` that leaves `u` with a chain. -/
theorem ClusterInv.only (h : ClusterInv c own) (hop : OnlyFor c c' own own' u) (hu : u ≠ 0)
    (halloc : AllocInv c'.master)
    (hfileIds : ∀ s node, c'.master.dataNodes.find s = some node → 1 ≤ node.fileId)
    (hcached : ∀ s id, ((c'.nodes s).cache id).isSome → posOf s id ∈ c'.master.handedOut)
    (hfiles : ∀ s, ∀ f ∈ (c'.nodes s).files,
      ∃ node, c'.master.dataNodes.find s = some node ∧ f ≤ node.fileId)
    (hsorted : ∀ l ∈ c'.kept u, Descending FeedItem.feed l)
    (hget : c'.master.hashDB.get u = some d) (chain : List BlockId)
    (huser : UserInv c' own' u d chain) : ClusterInv c' own' where
  alloc := halloc
  fileIds := hfileIds
  cached := hcached
  files := hfiles
  nothing v hv := by
    have hvu : v ≠ u := by
      rintro rfl
      rcases hv with rfl | hv
      · exact hu rfl
      · rw [hget] at hv
        cases hv
    rw [hop.kept v hvu]
    refine h.nothing v ?_
    by_cases h0 : v = 0
    · exact Or.inl h0
    · rw [hop.records v h0 hvu] at hv
      exact hv
  sorted v := by
    by_cases hvu : v = u
    · subst hvu
      exact hsorted
    · rw [hop.kept v hvu]
      exact h.sorted v
  users v e h0 hve := by
    by_cases hvu : v = u
    · subst hvu
      rw [hget] at hve
      cases hve
      exact ⟨chain, huser⟩
    · rw [hop.records v h0 hvu] at hve
      obtain ⟨chain', h'⟩ := h.users v e h0 hve
      exact ⟨chain', h'.other hop hvu⟩

section Update

variable {c : Cluster} {server : ℤ} {n : Node} {S : BlockId → Prop}

/-- The nodes after one of them was written. -/
theorem frame_update (h : Frame S (c.nodes server) n) {T : ℤ → BlockId → Prop}
    (hST : ∀ id, S id → T server id) (s : ℤ) :
    Frame (T s) (c.nodes s) (update c.nodes server n s) := by
  by_cases hs : s = server
  · subst hs
    rw [update_self]
    exact h.mono hST
  · rw [update_of_ne hs]
    exact .refl _ _

theorem cached_update (h : ClusterInv c own) (hframe : Frame S (c.nodes server) n)
    {handedOut : List BlockPos} (hsub : ∀ p ∈ c.master.handedOut, p ∈ handedOut)
    (hS : ∀ id, S id → posOf server id ∈ handedOut) (s : ℤ) (id : BlockId)
    (hcached : ((update c.nodes server n s).cache id).isSome) :
    posOf s id ∈ handedOut := by
  by_cases hs : s = server
  · subst hs
    rw [update_self] at hcached
    by_cases hid : S id
    · exact hS id hid
    · rw [hframe.cache id hid] at hcached
      exact hsub _ (h.cached s id hcached)
  · rw [update_of_ne hs] at hcached
    exact hsub _ (h.cached s id hcached)

end Update

theorem length_insertFeed_le (x : FeedItem) {l : List FeedItem}
    (hl : Descending FeedItem.feed l) : (insertFeed x l).length ≤ l.length + 1 := by
  rw [← place_eq_insertFeed x hl, length_place]
  split <;> omega

/-- A record of the newest block. -/
theorem ClusterInv.count (h : ClusterInv c own) {old : BlockData} (hu : u ≠ 0)
    (hget : c.master.hashDB.get u = some old) (hroom : old.curCount < recordPerBlock)
    (hitem : 0 ≤ item.feed) (garbage : ℤ) (fuel : ℕ) : let new := { old with curCount := old.curCount + 1, totalCount := old.totalCount + 1 }
    let info := DataNodeManager.blockDataToBlockInfo u new
    ClusterInv
      { master := c.master.putBlock u new
        nodes := update c.nodes info.serverId
          ((c.nodes info.serverId).asyncPutWith garbage (recordOf item info) false fuel)
        kept := update c.kept u
          (keepItem info (recordOf item info).item (c.kept u)) } own := by
  intro new info
  obtain ⟨chain, huser⟩ := h.users u old hu hget
  obtain ⟨hnewest, hholds, hhanded, ⟨hc1, -⟩, hlen, hkeeps⟩ := huser
  cases chain with
  | nil => cases hnewest
  | cons id chain =>
      obtain rfl : id = old.id := Option.some.inj hnewest
      -- the newest block and what was kept of it
      obtain ⟨l, ls, hkept⟩ : ∃ l ls, c.kept u = l :: ls := by
        cases hk : c.kept u with
        | nil =>
            rw [hk] at hkeeps
            cases hkeeps.1
        | cons l ls => exact ⟨l, ls, rfl⟩
      rw [hkept] at hkeeps hlen
      have hl : ((c.nodes old.serverId).view old.id).items = l := Option.some.inj hkeeps.1
      have hlen' : (l.length : ℤ) ≤ old.curCount := hlen l rfl
      have hsortedL : Descending FeedItem.feed l := h.sorted u l (by rw [hkept]; exact List.mem_cons_self)
      have hcur : info.curCount ≠ 1 := by
        show old.curCount + 1 ≠ 1
        omega
      have hle : uint32 info.curCount ≤ UInt32.ofNat recordPerBlock := by
        refine uint32_le_recordPerBlock ?_ ?_
        · show 0 ≤ old.curCount + 1
          omega
        · show old.curCount + 1 ≤ recordPerBlock
          omega
      have hfull : ((c.nodes old.serverId).view old.id).items.length ≠ recordPerBlock := by
        rw [hl]
        omega
      obtain ⟨hholds', hitems', hframe', hfiles'⟩ := Holds.filled (recordOf item info) hholds rfl
        hitem hcur hle hfull fuel
      have hserver : info.serverId = old.serverId := rfl
      rw [hserver]
      generalize hn : (c.nodes old.serverId).asyncPutWith garbage (recordOf item info) false fuel = n'
      rw [hn] at hholds' hitems' hframe' hfiles'
      have hkept' : keepItem info (recordOf item info).item (c.kept u) =
          insertFeed (recordOf item info).item l :: ls := by
        rw [hkept, keepItem_next hcur]
      have hop : OnlyFor c
          { master := c.master.putBlock u new
            nodes := update c.nodes old.serverId n'
            kept := update c.kept u
              (keepItem info (recordOf item info).item (c.kept u)) } own own u := by
        refine ⟨fun p hp => hp, fun p _ => rfl, ?_, ?_, ?_⟩
        · refine frame_update hframe' fun id' hid' _ => ?_
          rw [hid']
          exact (hhanded old.id List.mem_cons_self).2
        · exact fun v hv => update_of_ne hv _ _
        · exact fun v _ hv => get_put_ne _ _ hv
      refine h.only hop hu (h.alloc.putBlock hu new) h.fileIds ?_ ?_ ?_ (get_put_self _ _ _)
        (old.id :: chain) ⟨hnewest, ?_, hhanded, ⟨?_, ?_⟩, ?_, ?_⟩
      · refine cached_update h hframe' (fun p hp => hp) fun id' hid' => ?_
        rw [hid']
        exact (hhanded old.id List.mem_cons_self).1
      · intro s f hf
        refine h.files s f ?_
        by_cases hs : s = old.serverId
        · subst hs
          simp only [update_self] at hf
          rwa [hfiles'] at hf
        · simp only [update_of_ne hs] at hf
          exact hf
      · simp only [update_self]
        exact descending_keepItem _ _ (h.sorted u)
      · show (update c.nodes old.serverId n' old.serverId).Holds _ _
        rw [update_self]
        exact hholds'
      · show 1 ≤ old.curCount + 1
        omega
      · show old.curCount + 1 ≤ recordPerBlock
        omega
      · simp only [update_self]
        rw [hkept']
        intro l' hl'
        obtain rfl : insertFeed (recordOf item info).item l = l' := Option.some.inj hl'
        have hins := length_insertFeed_le (recordOf item info).item hsortedL
        show _ ≤ old.curCount + 1
        omega
      · show KeptAs ((update c.nodes old.serverId n' old.serverId).itemsOf _)
          (update c.kept u _ u)
        rw [update_self, update_self, hkept', hitems', hl]
        have hcons : (c.nodes old.serverId).itemsOf (old.id :: chain) =
            ((c.nodes old.serverId).view old.id).items ::
              (c.nodes old.serverId).itemsOf chain := rfl
        rw [hcons] at hkeeps
        exact hkeeps.cons_of_cons

/-- What the master did when it opened a block for a user. -/
structure Opened (m m' : DataNodeManager) (u : ℤ) (new : BlockData) : Prop where
  alloc : AllocInv m'
  handedOut : m'.handedOut = new.pos :: m.handedOut
  fresh : new.pos ∉ m.handedOut
  index : 0 ≤ new.blockIndex ∧ new.blockIndex < blockCount
  file : ∃ node node', m.dataNodes.find new.serverId = some node ∧
    m'.dataNodes = m.dataNodes.insert new.serverId node' ∧ node.fileId ≤ new.fileId ∧
    new.fileId = node'.fileId
  record : m'.hashDB.get u = some new
  records : ∀ v, v ≠ 0 → v ≠ u → m'.hashDB.get v = m.hashDB.get v
  first : new.curCount = 1

/-- The block that was opened is not in memory, and its file can be located. -/
theorem ClusterInv.unused_block (h : ClusterInv c own) (hm : Opened c.master m u new) :
    (c.nodes new.serverId).cache new.id = none ∧ new.id.isNone = false ∧
      ∃ files, locateFile (c.nodes new.serverId).files new.fileId = some files ∧
        ∀ g ∈ files, g ≤ new.fileId := by
  obtain ⟨-, -, hfresh, hindex, ⟨node, node', hfind, -, hle, -⟩, -, -, -⟩ := hm
  have hpos : posOf new.serverId new.id = new.pos := rfl
  have hfileId := h.fileIds _ _ hfind
  refine ⟨?_, ?_, ?_⟩
  · by_contra hne
    exact hfresh (hpos ▸ h.cached new.serverId new.id (Option.isSome_iff_ne_none.mpr hne))
  · have hne : ¬ (new.fileId = 0 ∨ new.blockIndex = -1) := by omega
    exact decide_eq_false hne
  · have hbound : ∀ g ∈ (c.nodes new.serverId).files, g ≤ new.fileId := by
      intro g hg
      obtain ⟨node₁, hfind₁, hg'⟩ := h.files new.serverId g hg
      rw [hfind] at hfind₁
      cases hfind₁
      omega
    exact locateFile_of_le hbound

/-- The first record of a block. -/
theorem ClusterInv.opens (h : ClusterInv c own) (hu : u ≠ 0) (hm : Opened c.master m u new)
    (chain : List BlockId) (hholds : (c.nodes new.serverId).Holds (uint32 u) chain)
    (hhanded : ∀ id ∈ chain, posOf new.serverId id ∈ c.master.handedOut ∧
      own (posOf new.serverId id) = u)
    (hkeeps : KeptAs ((c.nodes new.serverId).itemsOf chain) (c.kept u)) (info : BlockInfo)
    (hserver : info.serverId = new.serverId) (hid : info.id = new.id) (huserId : info.userId = u)
    (hcur : info.curCount = 1) (hpre : info.preId.ptr = chain.head?) (hitem : 0 ≤ item.feed)
    (hgarbage : info.preId.isNone = false → 0 ≤ garbage) (fuel : ℕ) :
    ClusterInv
      { master := m
        nodes := update c.nodes info.serverId
          ((c.nodes info.serverId).asyncPutWith garbage (recordOf item info) false fuel)
        kept := update c.kept u
          (keepItem info (recordOf item info).item (c.kept u)) }
      (update own new.pos u) := by
  obtain ⟨hcache, hnamed, files, hlocate, hfilesLe⟩ := h.unused_block hm
  obtain ⟨halloc, hout, hfresh, hindex, ⟨node, node', hfind, hnodes, hle, hfile'⟩, hrecord,
    hrecords, hfirst⟩ := hm
  have hpos : posOf new.serverId new.id = new.pos := rfl
  have hnew : new.id ∉ chain := fun hmem => hfresh (hpos ▸ (hhanded new.id hmem).1)
  have hfileId := h.fileIds _ _ hfind
  have hrid : (recordOf item info).blk.id = new.id := hid
  have hruser : (recordOf item info).blk.userId = u := huserId
  have hrfile : (recordOf item info).blk.fileId = new.fileId := congrArg BlockId.fileId hid
  obtain ⟨hholds', hitems', hframe', hfiles'⟩ := Holds.pushed (recordOf item info)
    (by rw [hruser]; exact hholds) hgarbage hitem hcur (by rw [hrid]; exact hcache)
    (by rw [hrid]; exact hnew) (by rw [hrid]; exact hnamed) (by rw [hrid]; exact hindex)
    (by rw [hrfile]; exact hlocate) hpre fuel
  rw [hserver]
  generalize hn : (c.nodes new.serverId).asyncPutWith garbage (recordOf item info) false fuel = n'
  rw [hn, hrid] at hitems' hframe'
  rw [hn, hrid, hruser] at hholds'
  rw [hn] at hfiles'
  have hkept' : keepItem info (recordOf item info).item (c.kept u) =
      [(recordOf item info).item] :: c.kept u := keepItem_first hcur _ _
  have hown : ∀ p ∈ c.master.handedOut, update own new.pos u p = own p := by
    intro p hp
    refine update_of_ne ?_ _ _
    rintro rfl
    exact hfresh hp
  have hsub : ∀ p ∈ c.master.handedOut, p ∈ m.handedOut := by
    intro p hp
    rw [hout]
    exact List.mem_cons_of_mem _ hp
  have hnewOut : new.pos ∈ m.handedOut := by
    rw [hout]
    exact List.mem_cons_self
  have hop : OnlyFor c
      { master := m
        nodes := update c.nodes new.serverId n'
        kept := update c.kept u
          (keepItem info (recordOf item info).item (c.kept u)) }
      own (update own new.pos u) u := by
    refine ⟨hsub, hown, ?_, fun v hv => update_of_ne hv _ _, hrecords⟩
    refine frame_update hframe' fun id hid' hmem => ?_
    rcases hid' with rfl | hid'
    · exact absurd hmem hfresh
    · exact (hhanded id hid').2
  refine h.only hop hu halloc ?_ ?_ ?_ ?_ hrecord (new.id :: chain) ⟨rfl, ?_, ?_, ⟨?_, ?_⟩, ?_, ?_⟩
  · intro s node₁ hs
    rw [hnodes, OrdMap.find_insert] at hs
    split at hs
    · cases hs
      omega
    · exact h.fileIds s node₁ hs
  · refine cached_update h hframe' hsub fun id hid' => ?_
    rcases hid' with rfl | hid'
    · exact hnewOut
    · exact hsub _ (hhanded id hid').1
  · intro s f hf
    by_cases hs : s = new.serverId
    · subst hs
      simp only [update_self] at hf
      rw [hfiles'] at hf
      refine ⟨node', ?_, ?_⟩
      · rw [hnodes, OrdMap.find_insert_self]
      · have hf' := hfilesLe f hf
        omega
    · simp only [update_of_ne hs] at hf
      obtain ⟨node₁, hfind₁, hf'⟩ := h.files s f hf
      exact ⟨node₁, by rw [hnodes, OrdMap.find_insert_ne _ _ hs, hfind₁], hf'⟩
  · simp only [update_self]
    exact descending_keepItem _ _ (h.sorted u)
  · show (update c.nodes new.serverId n' new.serverId).Holds _ _
    rw [update_self]
    exact hholds'
  · intro id hid'
    rcases List.mem_cons.mp hid' with rfl | hid'
    · exact ⟨hnewOut, update_self ..⟩
    · obtain ⟨hmem, hu'⟩ := hhanded id hid'
      exact ⟨hsub _ hmem, (hown _ hmem).trans hu'⟩
  · rw [hfirst]
  · rw [hfirst]
    decide
  · simp only [update_self]
    rw [hkept', hfirst]
    intro l hl
    obtain rfl : [(recordOf item info).item] = l := Option.some.inj hl
    rfl
  · show KeptAs ((update c.nodes new.serverId n' new.serverId).itemsOf _)
      (update c.kept u _ u)
    rw [update_self, update_self, hkept', hitems']
    exact hkeeps.cons _

/-- An allocation opens a block. -/
theorem opened_of_advances (h : AllocInv m) (hu : u ≠ 0) {nodeId : ℤ} {node node' : DataNode}
    {blk : BlockData} (new : BlockData) (hfind : m.dataNodes.find nodeId = some node)
    (hadv : Advances node node' blk) (hpos : new.pos = blk.pos) (hcount : new.curCount = 1) :
    Opened m ((m.handOut nodeId node' blk).putBlock u new) u new := by
  simp only [BlockData.pos, BlockPos.mk.injEq] at hpos
  obtain ⟨hserver, hfile, hindex⟩ := hpos
  have hnode : blk.serverId = nodeId := by rw [hadv.blkServer, (h.table nodeId node hfind).1]
  have hpos' : new.pos = blk.pos := by
    rw [BlockData.pos, BlockData.pos, hserver, hfile, hindex]
  refine ⟨(h.handOut hfind hadv).putBlock hu new, ?_, ?_, ?_, ⟨node, node', ?_, ?_, ?_, ?_⟩,
    get_put_self _ _ _, ?_, hcount⟩
  · rw [hpos']
    rfl
  · rw [hpos']
    exact Covers.not_mem h.table h.covers hfind hadv
  · rw [hindex]
    exact hadv.index
  · rw [hserver, hnode]
    exact hfind
  · rw [hserver, hnode]
    rfl
  · rw [hfile]
    exact hadv.file.1
  · rw [hfile]
    exact hadv.file.2
  · intro v h0 hv
    exact (get_put_ne _ _ hv).trans (get_handOut m nodeId node' blk h0)

/-- The master's allocation cursor plays no part. -/
theorem ClusterInv.setCursor (h : ClusterInv c own) (curNode curCount : ℤ) :
    ClusterInv { c with
      master := { c.master with curNode := curNode, curCount := curCount } } own := by
  refine ⟨h.alloc.setCursor curNode curCount, h.fileIds, h.cached, h.files, h.nothing, h.sorted, ?_⟩
  intro u d hu hget
  obtain ⟨chain, huser⟩ := h.users u d hu hget
  exact ⟨chain, huser.newest, huser.holds, huser.handed, huser.counts, huser.room, huser.keeps⟩

namespace ClusterOp

/-- A put that opens a block after another one has a pointer record whose feed is not negative; a
feed that is put is not negative, which is how a removal is told from a put; one that is removed is
positive, and the loop of a removal may visit every block handed out; and what the master does is
defined. -/
def Allowed (c : Cluster) : ClusterOp → Prop
  | put userId item garbage _ => 0 ≤ item.feed ∧
      (∀ d ∈ c.master.hashDB.get userId, ¬d.curCount < recordPerBlock → 0 ≤ garbage) ∧
      (MasterOp.getBlock userId true).Defined c.master
  | removeFeed userId feed fuel => 0 < feed ∧ c.master.handedOut.length < fuel ∧
      DataNodeManager.HasMutex userId

instance (c : Cluster) : (op : ClusterOp) → Decidable (op.Allowed c)
  | put _ _ _ _ => by unfold Allowed; infer_instance
  | removeFeed _ _ _ => by unfold Allowed; infer_instance

end ClusterOp

/-- A put that is allowed has a result, and keeps the invariant. -/
theorem ClusterInv.put (h : ClusterInv c own)
    (hop : (ClusterOp.put u item garbage fuel).Allowed c) :
    ∃ c' ∈ ClusterOp.apply c (.put u item garbage fuel), ∃ own', ClusterInv c' own' := by
  obtain ⟨hitem, hgarbage, hdef⟩ := hop
  obtain ⟨reply, m, hstep, heff⟩ := goes_getBlock hdef
  refine ⟨_, Option.map_eq_some_iff.mpr ⟨(reply, m), hstep, rfl⟩, ?_⟩
  dsimp only
  cases heff with
  | idle _ _ curNode curCount hreply =>
      have hsame := h.setCursor curNode curCount
      rcases hreply with rfl | rfl
      · exact ⟨own, hsame⟩
      · exact ⟨own, hsame⟩
  | count u old hu hget hroom => exact ⟨own, h.count hu hget hroom hitem garbage fuel⟩
  | first u curNode curCount node node' blk hu hget hfind hadv =>
      have hadv := hadv h.alloc.table
      have hcursor := h.setCursor curNode curCount
      have hm := opened_of_advances hcursor.alloc hu blk hfind hadv rfl hadv.counts.1
      have hnil : c.kept u = [] := h.nothing u (Or.inr hget)
      refine ⟨_, hcursor.opens hu hm [] ⟨?_, List.nodup_nil, chain_nil⟩ ?_ ?_
        (DataNodeManager.blockDataToBlockInfo u blk) rfl rfl rfl hadv.counts.1 rfl hitem nofun fuel⟩
      · intro id hid
        cases hid
      · intro id hid
        cases hid
      · show KeptAs [] (c.kept u)
        rw [hnil]
        exact ⟨rfl, rfl⟩
  | next u old node node' blk hu hget hfull hfind hadv =>
      have hadv := hadv h.alloc.table
      have hm := opened_of_advances h.alloc hu
        { blk with totalCount := old.totalCount + 1 } hfind hadv rfl hadv.counts.1
      obtain ⟨chain, huser⟩ := h.users u old hu hget
      have hserver : blk.serverId = old.serverId := by
        rw [hadv.blkServer, (h.alloc.table _ node hfind).1]
      have hpre : old.id.ptr = chain.head? := by
        rw [huser.newest]
        refine BlockId.ptr_of_not_none (huser.holds.owns old.id ?_).named
        exact List.mem_of_head? huser.newest
      refine ⟨_, h.opens hu hm chain ?_ ?_ ?_
        (DataNodeManager.infoAfter u { blk with totalCount := old.totalCount + 1 } old)
        rfl rfl rfl hadv.counts.1 hpre hitem (fun _ => hgarbage old hget hfull) fuel⟩
      · show (c.nodes blk.serverId).Holds _ _
        rw [hserver]
        exact huser.holds
      · show ∀ id ∈ chain, posOf blk.serverId id ∈ _ ∧ own (posOf blk.serverId id) = u
        rw [hserver]
        exact huser.handed
      · show KeptAs ((c.nodes blk.serverId).itemsOf _) _
        rw [hserver]
        exact huser.keeps

/-- A chain is no longer than the list of the blocks handed out. -/
theorem UserInv.length_le (h : UserInv c own u d chain) :
    chain.length ≤ c.master.handedOut.length := by
  have hinj : Injective (posOf d.serverId) := by
    intro a b hab
    simp only [posOf, BlockPos.mk.injEq, true_and] at hab
    cases a
    cases b
    simp_all
  have hnodup : (chain.map (posOf d.serverId)).Nodup := h.holds.nodup.map hinj
  have hsub : chain.map (posOf d.serverId) ⊆ c.master.handedOut := by
    intro p hp
    obtain ⟨id, hid, rfl⟩ := List.mem_map.mp hp
    exact (h.handed id hid).1
  simpa using (hnodup.subperm hsub).length_le

/-- What the master answers to a read. -/
theorem get_read {m : DataNodeManager} {u : ℤ} (hmutex : DataNodeManager.HasMutex u) :
    (∃ d, u ≠ 0 ∧ m.hashDB.get u = some d ∧
      m.get u false = some (.block (DataNodeManager.blockDataToBlockInfo u d), m)) ∨
    (u = 0 ∨ m.hashDB.get u = none) ∧ m.get u false = some (.null, m) := by
  unfold DataNodeManager.get
  rw [if_neg (not_not_intro hmutex)]
  by_cases hu : u = 0
  · rw [if_pos hu]
    exact Or.inr ⟨Or.inl hu, rfl⟩
  rw [if_neg hu]
  cases hget : m.hashDB.get u with
  | none => exact Or.inr ⟨Or.inr rfl, rfl⟩
  | some d => exact Or.inl ⟨d, hu, rfl, rfl⟩

theorem length_dropFirst_le {k : ℤ} {ls : List (List FeedItem)}
    (h : ∀ l ∈ ls.head?, (l.length : ℤ) ≤ k) :
    ∀ l ∈ (dropFirst feed ls).head?, (l.length : ℤ) ≤ k := by
  cases ls with
  | nil => exact h
  | cons a ls =>
      have ha := h a rfl
      unfold dropFirst
      split
      · intro l hl
        obtain rfl : dropFeed feed a = l := Option.some.inj hl
        have hle := List.length_filter_le (fun b : FeedItem => decide (b.feed ≠ feed)) a
        show ((dropFeed feed a).length : ℤ) ≤ k
        unfold dropFeed
        omega
      · intro l hl
        obtain rfl : a = l := Option.some.inj hl
        exact ha

/-- A removal that is allowed has a result, and keeps the invariant. -/
theorem ClusterInv.removeFeed (h : ClusterInv c own)
    (hop : (ClusterOp.removeFeed u feed fuel).Allowed c) :
    ∃ c' ∈ ClusterOp.apply c (.removeFeed u feed fuel), ClusterInv c' own := by
  obtain ⟨hfeed, hfuel, hmutex⟩ := hop
  rcases @get_read c.master u hmutex with ⟨d, hu, hget, hreply⟩ | ⟨-, hreply⟩
  · refine ⟨_, Option.map_eq_some_iff.mpr ⟨_, hreply, rfl⟩, ?_⟩
    dsimp only [ClusterOp.removeAt]
    obtain ⟨chain, huser⟩ := h.users u d hu hget
    have hstart : d.id.ptr = chain.head? := by
      rw [huser.newest]
      exact BlockId.ptr_of_not_none (huser.holds.owns d.id (List.mem_of_head? huser.newest)).named
    have hchain : chain.length < fuel := lt_of_le_of_lt huser.length_le hfuel
    obtain ⟨chain', hholds', hhead, hsub, hframe, hfiles, hkeeps⟩ :=
      huser.holds.removed (DataNodeManager.blockDataToBlockInfo u d) hstart hchain hfeed
    have hserver : (DataNodeManager.blockDataToBlockInfo u d).serverId = d.serverId := rfl
    rw [hserver]
    generalize (c.nodes d.serverId).asyncRemove (DataNodeManager.blockDataToBlockInfo u d) feed
      fuel = n' at *
    have hop : OnlyFor c
        { master := c.master
          nodes := update c.nodes d.serverId n'
          kept := update c.kept u (dropFirst feed (c.kept u)) } own own u := by
      refine ⟨fun p hp => hp, fun p _ => rfl, ?_, fun v hv => update_of_ne hv _ _,
        fun v _ _ => rfl⟩
      exact frame_update hframe fun id hid _ => (huser.handed id hid).2
    refine h.only hop hu h.alloc h.fileIds ?_ ?_ ?_ hget chain'
      ⟨hhead.trans huser.newest, ?_, fun id hid => huser.handed id (hsub hid), huser.counts, ?_, ?_⟩
    · exact cached_update h hframe (fun p hp => hp) fun id hid => (huser.handed id hid).1
    · intro s f hf
      refine h.files s f ?_
      by_cases hs : s = d.serverId
      · subst hs
        simp only [update_self] at hf
        rwa [hfiles] at hf
      · simp only [update_of_ne hs] at hf
        exact hf
    · simp only [update_self]
      exact descending_dropFirst feed (h.sorted u)
    · show (update c.nodes d.serverId n' d.serverId).Holds _ _
      rw [update_self]
      exact hholds'
    · simp only [update_self]
      exact length_dropFirst_le huser.room
    · show KeptAs ((update c.nodes d.serverId n' d.serverId).itemsOf _)
        (update c.kept u _ u)
      rw [update_self, update_self]
      exact hkeeps.trans (huser.keeps.dropFirst feed)
  · exact ⟨_, Option.map_eq_some_iff.mpr ⟨_, hreply, rfl⟩, h⟩

/-! ## Whole runs -/

/-- A fresh cluster has no chains. -/
theorem clusterInv_fresh {cluster : ℕ} {curNode curCount : ℤ}
    (hfresh : DataNodeManager.fresh cluster curNode curCount = some m)
    (disk : ℤ → BlockId → Block) (log logOld : ℤ → ℤ → List FeedItemBlockInfo) :
    ClusterInv (.fresh m disk log logOld) fun _ => 0 := by
  refine ⟨allocInv_uninitialised.init hfresh, ?_, ?_, ?_, fun _ _ => rfl, ?_, ?_⟩
  · intro s node hs
    change m.dataNodes.find s = some node at hs
    rw [(fresh_eq hfresh).1] at hs
    rw [find_freshNodes cluster hs]
  · intro s id hcached
    cases hcached
  · intro s f hf
    cases hf
  · intro u l hl
    cases hl
  · intro u d hu hd
    have hnone : m.hashDB.get u = none := get_init hfresh hu
    change m.hashDB.get u = some d at hd
    rw [hnone] at hd
    cases hd

/-- What was kept of the user is in descending order, block by block, and a `get` for any number of
items from the newest block ends and returns that many of them; a user without a block was given
nothing. -/
def Cluster.Answers (c : Cluster) (userId : ℤ) : Prop :=
  (∀ l ∈ c.kept userId, Descending FeedItem.feed l) ∧
    ∃ reply, c.master.get userId false = some (reply, c.master) ∧
      ((reply = .null ∧ c.kept userId = []) ∨
        ∃ info, reply = .block info ∧ ∃ enough, ∀ fuel ≥ enough, ∀ count,
          (c.nodes info.serverId).get info count fuel = some ((c.kept userId).flatten.take count))

/-- The law after a run: it has a result, and the user is answered as it says. -/
def ChainLaw (cluster : ℕ) (curNode curCount : ℤ) (disk : ℤ → BlockId → Block)
    (log logOld : ℤ → ℤ → List FeedItemBlockInfo) (ops : List ClusterOp) (userId : ℤ) : Prop :=
  ∃ m ∈ DataNodeManager.fresh cluster curNode curCount,
    ∃ c ∈ runOps ClusterOp.step (some (.fresh m disk log logOld)) ops, c.Answers userId

/-- A get reads along the chain. -/
theorem ClusterInv.answers (h : ClusterInv c own) (hmutex : DataNodeManager.HasMutex userId) :
    c.Answers userId := by
  refine ⟨h.sorted userId, ?_⟩
  rcases @get_read c.master userId hmutex with ⟨d, hu, hget, hreply⟩ | ⟨hnone, hreply⟩
  · obtain ⟨chain, huser⟩ := h.users userId d hu hget
    have hstart : d.id.ptr = chain.head? := by
      rw [huser.newest]
      exact BlockId.ptr_of_not_none (huser.holds.owns d.id (List.mem_of_head? huser.newest)).named
    refine ⟨_, hreply, .inr ⟨_, rfl, chain.length + 1, fun fuel hfuel count => ?_⟩⟩
    rw [← huser.keeps.flatten]
    exact huser.holds.get (DataNodeManager.blockDataToBlockInfo userId d) rfl hstart hfuel count
  · exact ⟨_, hreply, .inl ⟨rfl, h.nothing userId hnone⟩⟩

/-- **After any run whose operations are allowed, a `get` for `count` items from a user's newest block
ends, and returns the first `count` of the items the user was given and kept, newest block first and
each block in descending order. A user without a block was given nothing.** -/
theorem userChain_law (cluster : ℕ) (curNode curCount : ℤ) (disk : ℤ → BlockId → Block)
    (log logOld : ℤ → ℤ → List FeedItemBlockInfo) (ops : List ClusterOp)
    (hstart : (MasterOp.restart cluster curNode curCount).Defined .uninitialised)
    (hops : ∀ m ∈ DataNodeManager.fresh cluster curNode curCount,
      StepsMeet ClusterOp.step (WhenLive fun c op => op.Allowed c)
        (some (.fresh m disk log logOld)) ops)
    (userId : ℤ) (hmutex : DataNodeManager.HasMutex userId) :
    ChainLaw cluster curNode curCount disk log logOld ops userId := by
  obtain ⟨m, hfresh⟩ := init_of_defined hstart
  have hstep : ∀ c op, (∃ own, ClusterInv c own) → op.Allowed c →
      ∃ c' ∈ ClusterOp.apply c op, ∃ own, ClusterInv c' own := by
    rintro c op ⟨own, h⟩ hop
    cases op with
    | put u item garbage fuel => exact h.put hop
    | removeFeed u feed fuel =>
        obtain ⟨c', hc', h'⟩ := h.removeFeed hop
        exact ⟨c', hc', own, h'⟩
  obtain ⟨c, hc, own, h⟩ := partial_run_invariant hstep
    ⟨_, clusterInv_fresh hfresh disk log logOld⟩ (hops m hfresh)
  exact ⟨m, hfresh, c, hc, h.answers hmutex⟩

/-- The feeds `1` to `64` of user 7, which open a second block whose pointer record has the feed
`garbage`. -/
def twoBlocks (garbage : ℤ) : List ClusterOp :=
  (List.range 64).map fun (i : ℕ) => .put 7 ⟨i + 1, 0, 0, 0, 0, 0⟩ garbage 2

/-- A second block is opened, and a feed of the first one is removed. -/
theorem userChain_law_removed :
    ChainLaw 1 0 0 (fun _ _ => .zeroed) (fun _ _ => []) (fun _ _ => [])
      (twoBlocks 9 ++ [.removeFeed 7 5 3]) 7 :=
  userChain_law 1 0 0 _ _ _ _ (by decide) (by decide +kernel) 7 (by decide)

/-! ## A pointer record that removes a feed -/

/-- A loop that has ended ends alike with more blocks to go. -/
theorem getLoop_mono {fuel' : ℕ} (hle : fuel ≤ fuel') {n : Node} {id : BlockId} {count : ℕ}
    {items : List FeedItem} (h : getLoop userId fuel n id count = some items) :
    getLoop userId fuel' n id count = some items := by
  induction fuel generalizing fuel' n id count items with
  | zero => cases h
  | succ fuel ih =>
      obtain ⟨fuel', rfl⟩ : ∃ k, fuel' = k + 1 := ⟨fuel' - 1, by omega⟩
      unfold getLoop at h ⊢
      split
      · rwa [if_pos (by assumption)] at h
      · rw [if_neg (by assumption)] at h
        cases hf : n.find id true with
        | none =>
            rw [hf] at h
            exact h
        | some r =>
            rw [hf] at h
            dsimp only at h ⊢
            split
            · rwa [if_pos (by assumption)] at h
            · rw [if_neg (by assumption)] at h
              obtain ⟨rest, hrest, rfl⟩ := Option.map_eq_some_iff.mp h
              rw [ih (by omega) hrest]
              rfl

/-- The feeds that are read from the user's newest block, in at most three blocks. -/
def Cluster.feeds (c : Cluster) (userId : ℤ) : Option (List ℤ) :=
  (c.master.get userId false).bind fun got =>
    match got.1 with
    | .block info =>
      ((c.nodes info.serverId).get info 64 3).map fun items => items.map FeedItem.feed
    | _ => none

/-- **The memory of the pointer record holds -5: the task of the record takes feed 5 out of the
block that it should have linked.** -/
theorem pointerRecord_removes :
    ¬ ChainLaw 1 0 0 (fun _ _ => .zeroed) (fun _ _ => []) (fun _ _ => []) (twoBlocks (-5)) 7 := by
  rintro ⟨m, hm, c, hc, -, reply, hreply, hanswer⟩
  have hfacts : ((DataNodeManager.fresh 1 0 0).bind fun m => runOps ClusterOp.step
      (some (.fresh m (fun _ _ => .zeroed) (fun _ _ => []) fun _ _ => [])) (twoBlocks (-5))).map
        (fun c => ((c.kept 7).flatten.length, (c.feeds 7).map List.length)) =
      some (64, some 63) := by decide +kernel
  rw [Option.mem_def.mp hm, Option.bind_some, Option.mem_def.mp hc, Option.map_some] at hfacts
  simp only [Option.some.injEq, Prod.mk.injEq] at hfacts
  obtain ⟨hkept, hread⟩ := hfacts
  unfold Cluster.feeds at hread
  rw [hreply, Option.bind_some] at hread
  rcases hanswer with ⟨rfl, -⟩ | ⟨info, rfl, enough, hget⟩
  · cases hread
  · dsimp only at hread
    rw [Option.map_map, Option.map_eq_some_iff] at hread
    obtain ⟨items, hitems, hlength⟩ := hread
    have hmore := getLoop_mono (Nat.le_max_right enough 3) hitems
    have hsame := (hget _ (Nat.le_max_left enough 3) 64).symm.trans hmore
    have hlen := congrArg List.length (Option.some.inj hsame)
    rw [List.length_take, hkept] at hlen
    simp only [comp, List.length_map] at hlength
    omega

end Oce.FeedDB
