import Oce.Base.Run
import Oce.Tripod.Analysis.ConfigReads

/-!
# What is published, against the tree

What is published is a copy that remembers, for the manager, the producers in C++ and every
namespace, the version its children were read under (`Remembered`). If a version tells what the
children are (`VersionsTell`), a child whose version has not moved is up to date, and one whose
version has moved is read again.

Two things fall outside. The version of the producers in Java is read into what the version of
the C++ producers left of the buffer, so only its first bytes count (`javaRead`). And the set of
the namespaces has no version of its own: it is rebuilt on every update, but what was rebuilt is
published only if some version has moved (`Noticed`). `Shows` says that neither hides a change,
and `agrees_iff` that the published tree is that of ZooKeeper exactly in this case.
-/

set_option autoImplicit false

namespace Oce.Tripod

open Oce.Base ConfigManager

variable {d d' config c : ConfigData} {zk : Zk} {path : List String} {read : Option (List Byte)}
  {zks : List Zk} {n java cache : ZNode} {x : String} {published : Option ConfigData}
  {data version : List Byte} {l : List (String × ZNode)} {fails : ZkCall → Bool}

/-! ## Versions that tell the children -/

/-- Nodes at the same place with the same data have the same children. -/
def Tells (t t' : ZNode) : Prop :=
  ∀ path n n', t.node path = some n → t'.node path = some n' → n.data = n'.data →
    ∀ x, x ∈ n.names ↔ x ∈ n'.names

/-- Each change of a node's children comes with a change of its version. -/
def VersionsTell (zks : List Zk) : Prop := ∀ zk ∈ zks, ∀ zk' ∈ zks, Tells zk.root zk'.root

/-! ## Places in the published tree -/

namespace ConfigData

/-- The version that is remembered for a place. -/
def versionAt (d : ConfigData) (path : List String) : Option (List Byte) :=
  (d.descendant path).map ConfigData.version

end ConfigData

/-- The version that a place has in ZooKeeper. -/
def Zk.versionAt (zk : Zk) (path : List String) : Option (List Byte) :=
  (zk.node path).map ZNode.data

/-- The place has the children of the node there. -/
def SameAt (d : ConfigData) (zk : Zk) (path : List String) : Prop :=
  ∃ c n, d.descendant path = some c ∧ zk.node path = some n ∧ SameChildren c n

/-- The managers, producers, namespaces and caches are those in ZooKeeper. -/
structure Agrees (d : ConfigData) (zk : Zk) : Prop where
  manager : SameAt d zk [TRIPOD_MANAGER]
  cc : SameAt d zk [TRIPOD_PRODUCER, TRIPOD_PRODUCER_CC]
  java : SameAt d zk [TRIPOD_PRODUCER, TRIPOD_PRODUCER_JAVA]
  cache : SameAt d zk [TRIPOD_CACHE]
  caches : ∀ x n, zk.node [TRIPOD_CACHE, x] = some n → SameAt d zk [TRIPOD_CACHE, x]

/-- An update that reports success leaves the tree in ZooKeeper published, and one that reports
failure leaves what was published. -/
def Follows (published : Option ConfigData) (zk : Zk) : Prop :=
  ((updateConfig published zk).2 = true →
      ∃ d, (updateConfig published zk).1 = some d ∧ Agrees d zk) ∧
    ((updateConfig published zk).2 = false → (updateConfig published zk).1 = published)

/-! ## What an update can see -/

/-- The version of the Java producers as far as it is read: the buffer has the length that the
version of the C++ producers had. -/
def javaRead (zk : Zk) : Option (List Byte) :=
  (zk.node [TRIPOD_PRODUCER, TRIPOD_PRODUCER_CC]).bind fun cc =>
    (zk.node [TRIPOD_PRODUCER, TRIPOD_PRODUCER_JAVA]).map fun java =>
      java.data.take cc.data.length

/-- Some version is not the one that is remembered. -/
def Noticed (d : ConfigData) (zk : Zk) : Prop :=
  d.versionAt [TRIPOD_MANAGER] ≠ zk.versionAt [TRIPOD_MANAGER] ∨
    d.versionAt [TRIPOD_PRODUCER, TRIPOD_PRODUCER_CC] ≠
      zk.versionAt [TRIPOD_PRODUCER, TRIPOD_PRODUCER_CC] ∨
    d.versionAt [TRIPOD_PRODUCER, TRIPOD_PRODUCER_JAVA] ≠ javaRead zk ∨
    ∃ x found n, d.descendant [TRIPOD_CACHE, x] = some found ∧
      zk.node [TRIPOD_CACHE, x] = some n ∧ found.version ≠ n.data

/-- Nothing hides a change: if the Java producers are not those that are published, the first
bytes of their version have moved, and if the namespaces are not those that are published, some
version has. -/
structure Shows (d : ConfigData) (zk : Zk) : Prop where
  java : SameAt d zk [TRIPOD_PRODUCER, TRIPOD_PRODUCER_JAVA] ∨
    d.versionAt [TRIPOD_PRODUCER, TRIPOD_PRODUCER_JAVA] ≠ javaRead zk
  cache : SameAt d zk [TRIPOD_CACHE] ∨ Noticed d zk

/-! ## One update -/

/-- A child whose version is compared with what was read: it stays if the version is the same
and is read again if not. -/
def ComparedAt (d d' : ConfigData) (zk : Zk) (path : List String) (read : Option (List Byte)) :
    Prop :=
  ∃ n found c v, zk.node path = some n ∧ d.descendant path = some found ∧
    d'.descendant path = some c ∧ read = some v ∧
    ((found.version = v ∧ c = found) ∨ (found.version ≠ v ∧ c.version = v ∧ SameChildren c n))

theorem ComparedAt.same_of_ne (h : ComparedAt d d' zk path read) (hne : d.versionAt path ≠ read) :
    SameAt d' zk path := by
  obtain ⟨n, found, c, v, hn, hfound, hc, rfl, ⟨hv, -⟩ | ⟨-, -, hsame⟩⟩ := h
  · exact absurd (by rw [ConfigData.versionAt, hfound, Option.map_some, hv]) hne
  · exact ⟨c, n, hc, hn, hsame⟩

theorem ComparedAt.kept_of_eq (h : ComparedAt d d' zk path read) (heq : d.versionAt path = read) :
    d'.descendant path = d.descendant path := by
  obtain ⟨n, found, c, v, hn, hfound, hc, rfl, ⟨-, rfl⟩ | ⟨hv, -⟩⟩ := h
  · rw [hc, hfound]
  · rw [ConfigData.versionAt, hfound, Option.map_some] at heq
    exact absurd (Option.some.inj heq) hv

/-- What a later update makes of the tree. -/
structure Updates (d d' : ConfigData) (zk : Zk) : Prop where
  manager : ComparedAt d d' zk [TRIPOD_MANAGER] (zk.versionAt [TRIPOD_MANAGER])
  cc : ComparedAt d d' zk [TRIPOD_PRODUCER, TRIPOD_PRODUCER_CC]
    (zk.versionAt [TRIPOD_PRODUCER, TRIPOD_PRODUCER_CC])
  java : ComparedAt d d' zk [TRIPOD_PRODUCER, TRIPOD_PRODUCER_JAVA] (javaRead zk)
  cache : SameAt d' zk [TRIPOD_CACHE]
  caches : ∀ x c, d'.descendant [TRIPOD_CACHE, x] = some c →
    ∃ n, zk.node [TRIPOD_CACHE, x] = some n ∧ c.version = n.data ∧
      (d.descendant [TRIPOD_CACHE, x] = some c ∨ SameChildren c n)

namespace ConfigManager

variable {zk : Zk}

/-- The two halves of the producers: the second is read with what the first left of the buffer. -/
theorem updateProducerConfig_check (hfits : Fits zk)
    (h : (updateProducerConfig config zk true).suc = true) :
    ∃ ncc njava found found' c c',
      zk.node [TRIPOD_PRODUCER, TRIPOD_PRODUCER_CC] = some ncc ∧
      zk.node [TRIPOD_PRODUCER, TRIPOD_PRODUCER_JAVA] = some njava ∧
      config.child TRIPOD_PRODUCER_CC = some found ∧
      config.child TRIPOD_PRODUCER_JAVA = some found' ∧
      (updateProducerConfig config zk true).config.child TRIPOD_PRODUCER_CC = some c ∧
      (updateProducerConfig config zk true).config.child TRIPOD_PRODUCER_JAVA = some c' ∧
      ((found.version = ncc.data ∧ c = found) ∨
        (found.version ≠ ncc.data ∧ c.version = ncc.data ∧ SameChildren c ncc)) ∧
      ((found'.version = njava.data.take ncc.data.length ∧ c' = found') ∨
        (found'.version ≠ njava.data.take ncc.data.length ∧
          c'.version = njava.data.take ncc.data.length ∧ SameChildren c' njava)) ∧
      ((updateProducerConfig config zk true).updateFlag = true ↔
        found.version ≠ ncc.data ∨ found'.version ≠ njava.data.take ncc.data.length) := by
  have hjava : TRIPOD_PRODUCER_JAVA ≠ TRIPOD_PRODUCER_CC := by decide
  unfold updateProducerConfig at h ⊢
  dsimp only at h ⊢
  have hsuc : (updateProducerHalf TRIPOD_PRODUCER_CC bufferSize false config zk true).1.suc =
      true := by
    by_contra hno
    rw [if_neg hno] at h
    exact hno h
  rw [if_pos hsuc] at h ⊢
  obtain ⟨ncc, found, hncc, hfound, hcc⟩ := updateProducerHalf_check hsuc
  rw [hfits.take hncc] at hcc
  obtain ⟨hv, heq⟩ | ⟨hv, c, hcv, hsame, heq⟩ := hcc
  · rw [heq] at h ⊢
    obtain ⟨njava, found', hnjava, hfound', ⟨hv', heq'⟩ | ⟨hv', c', hcv', hsame', heq'⟩⟩ :=
      updateProducerHalf_check h
    · rw [heq']
      exact ⟨ncc, njava, found, found', found, found', hncc, hnjava, hfound, hfound', hfound,
        hfound', .inl ⟨hv, rfl⟩, .inl ⟨hv', rfl⟩, by simp [hv, hv']⟩
    · rw [heq']
      refine ⟨ncc, njava, found, found', found, c', hncc, hnjava, hfound, hfound', ?_,
        ConfigData.child_setChild_self _ _ _, .inl ⟨hv, rfl⟩, .inr ⟨hv', hcv', hsame'⟩,
        by simp [hv']⟩
      rw [ConfigData.child_setChild_ne _ _ hjava.symm]
      exact hfound
  · rw [heq] at h ⊢
    obtain ⟨njava, found', hnjava, hfound', hhalf⟩ := updateProducerHalf_check h
    rw [ConfigData.child_setChild_ne _ _ hjava] at hfound'
    obtain ⟨hv', heq'⟩ | ⟨hv', c', hcv', hsame', heq'⟩ := hhalf
    · rw [heq']
      refine ⟨ncc, njava, found, found', c, found', hncc, hnjava, hfound, hfound',
        ConfigData.child_setChild_self _ _ _, ?_, .inr ⟨hv, hcv, hsame⟩, .inl ⟨hv', rfl⟩,
        by simp [hv]⟩
      rw [ConfigData.child_setChild_ne _ _ hjava]
      exact hfound'
    · rw [heq']
      refine ⟨ncc, njava, found, found', c, c', hncc, hnjava, hfound, hfound', ?_,
        ConfigData.child_setChild_self _ _ _, .inr ⟨hv, hcv, hsame⟩, .inr ⟨hv', hcv', hsame'⟩,
        by simp [hv]⟩
      rw [ConfigData.child_setChild_ne _ _ hjava.symm]
      exact ConfigData.child_setChild_self _ _ _

/-- The first read of the producers. -/
theorem updateProducerConfig_first (hfits : Fits zk) (hempty : config.childrenDatas = [])
    (h : (updateProducerConfig config zk false).suc = true) :
    ∃ ncc njava c c',
      zk.node [TRIPOD_PRODUCER, TRIPOD_PRODUCER_CC] = some ncc ∧
      zk.node [TRIPOD_PRODUCER, TRIPOD_PRODUCER_JAVA] = some njava ∧
      (updateProducerConfig config zk false).config.child TRIPOD_PRODUCER_CC = some c ∧
      (updateProducerConfig config zk false).config.child TRIPOD_PRODUCER_JAVA = some c' ∧
      c.version = ncc.data ∧ SameChildren c ncc ∧ SameChildren c' njava := by
  have hjava : TRIPOD_PRODUCER_JAVA ≠ TRIPOD_PRODUCER_CC := by decide
  unfold updateProducerConfig at h ⊢
  dsimp only at h ⊢
  have hsuc : (updateProducerHalf TRIPOD_PRODUCER_CC bufferSize false config zk false).1.suc =
      true := by
    by_contra hno
    rw [if_neg hno] at h
    exact hno h
  rw [if_pos hsuc] at h ⊢
  obtain ⟨ncc, c, hncc, hcv, hsame, heq⟩ := updateProducerHalf_first hsuc
  rw [hfits.take hncc] at hcv heq
  rw [heq] at h ⊢
  obtain ⟨njava, c', hnjava, -, hsame', heq'⟩ := updateProducerHalf_first h
  rw [heq']
  refine ⟨ncc, njava, c, c', hncc, hnjava, ?_, ?_, hcv, hsame, hsame'⟩
  · simp [ConfigData.findEntry_insertNew, hempty, hjava.symm, OrdMap.findEntry]
  · simp [ConfigData.findEntry_insertNew, hempty, hjava, OrdMap.findEntry]

/-- A later update that succeeds has brought all three trees up to date. -/
theorem init_some_eq (h : (init (some d) zk).1 = true) :
    ∃ m p k, d.child TRIPOD_MANAGER = some m ∧ d.child TRIPOD_PRODUCER = some p ∧
      d.child TRIPOD_CACHE = some k ∧ (updateManagerConfig m zk true).suc = true ∧
      (updateProducerConfig p zk true).suc = true ∧ (updateCacheConfig k zk true).suc = true ∧
      init (some d) zk = (true,
        (updateCacheConfig k zk true).updateFlag || (updateProducerConfig p zk true).updateFlag ||
          (updateManagerConfig m zk true).updateFlag,
        some (((d.setChild TRIPOD_MANAGER (updateManagerConfig m zk true).config).setChild
          TRIPOD_PRODUCER (updateProducerConfig p zk true).config).setChild
            TRIPOD_CACHE (updateCacheConfig k zk true).config)) := by
  have hPM : TRIPOD_PRODUCER ≠ TRIPOD_MANAGER := by decide
  have hCM : TRIPOD_CACHE ≠ TRIPOD_MANAGER := by decide
  have hCP : TRIPOD_CACHE ≠ TRIPOD_PRODUCER := by decide
  unfold init at h ⊢
  dsimp only at h ⊢
  cases hm : d.child TRIPOD_MANAGER with
  | none => simp [hm] at h
  | some m =>
      rw [hm] at h
      dsimp only at h ⊢
      have hsucm : (updateManagerConfig m zk true).suc = true := by
        by_contra hno
        simp [Bool.eq_false_of_not_eq_true hno] at h
      simp only [hsucm, Bool.not_true, Bool.false_eq_true, if_false,
        ConfigData.child_setChild_ne _ _ hPM, ConfigData.child_setChild_ne _ _ hCP,
        ConfigData.child_setChild_ne _ _ hCM] at h ⊢
      cases hp : d.child TRIPOD_PRODUCER with
      | none => simp [hp] at h
      | some p =>
          rw [hp] at h
          dsimp only at h ⊢
          have hsucp : (updateProducerConfig p zk true).suc = true := by
            by_contra hno
            simp [Bool.eq_false_of_not_eq_true hno] at h
          simp only [hsucp, Bool.not_true, Bool.false_eq_true, if_false] at h ⊢
          cases hk : d.child TRIPOD_CACHE with
          | none => simp [hk] at h
          | some k =>
              rw [hk] at h
              dsimp only at h ⊢
              have hsuck : (updateCacheConfig k zk true).suc = true := by
                by_contra hno
                simp [Bool.eq_false_of_not_eq_true hno] at h
              exact ⟨m, p, k, rfl, rfl, rfl, hsucm, hsucp, hsuck, by simp [hsuck]⟩

/-- **A later update that succeeds**: it finds something new exactly if some version has moved. -/
theorem init_check (hfits : Fits zk) (h : (init (some d) zk).1 = true) :
    ∃ d', (init (some d) zk).2.2 = some d' ∧ Updates d d' zk ∧
      ((init (some d) zk).2.1 = true ↔ Noticed d zk) := by
  have hPM : TRIPOD_PRODUCER ≠ TRIPOD_MANAGER := by decide
  have hCM : TRIPOD_CACHE ≠ TRIPOD_MANAGER := by decide
  have hCP : TRIPOD_CACHE ≠ TRIPOD_PRODUCER := by decide
  obtain ⟨m, p, k, hm, hp, hk, hsucm, hsucp, hsuck, heq⟩ := init_some_eq h
  obtain ⟨nm, hnm, hmanager⟩ := updateManagerConfig_check hfits hsucm
  obtain ⟨ncc, njava, found, found', c, c', hncc, hnjava, hfound, hfound', hc, hc', hcc, hjava,
    hpflag⟩ := updateProducerConfig_check hfits hsucp
  obtain ⟨hcache, hkflag⟩ := updateCacheConfig_check hfits hsuck
  obtain ⟨nk, hnk, hsame⟩ := hcache.names
  have hjavaRead : javaRead zk = some (njava.data.take ncc.data.length) := by
    rw [javaRead, hncc, Option.bind_some, hnjava, Option.map_some]
  have hmflag : (updateManagerConfig m zk true).updateFlag = true ↔ m.version ≠ nm.data := by
    rcases hmanager with ⟨hv, hflag, -⟩ | ⟨hv, hflag, -⟩
    · rw [hflag]
      exact iff_of_false Bool.false_ne_true (not_not.mpr hv)
    · rw [hflag]
      exact iff_of_true rfl hv
  rw [heq]
  refine ⟨_, rfl, ⟨?_, ?_, ?_, ?_, ?_⟩, ?_⟩
  · refine ⟨nm, m, (updateManagerConfig m zk true).config, nm.data, hnm, ?_, ?_, ?_, ?_⟩
    · rw [ConfigData.descendant_one, hm]
    · rw [ConfigData.descendant_one, ConfigData.child_setChild_ne _ _ hCM.symm,
        ConfigData.child_setChild_ne _ _ hPM.symm, ConfigData.child_setChild_self]
    · rw [Zk.versionAt, hnm, Option.map_some]
    · rcases hmanager with ⟨hv, -, hconfig⟩ | ⟨hv, -, n, hn, hversion, hchildren⟩
      · exact .inl ⟨hv, hconfig⟩
      · obtain rfl : nm = n := Option.some.inj (hnm.symm.trans hn)
        exact .inr ⟨hv, hversion, hchildren⟩
  · refine ⟨ncc, found, c, ncc.data, hncc, ?_, ?_, ?_, hcc⟩
    · rw [ConfigData.descendant_two, hp, Option.bind_some, hfound]
    · rw [ConfigData.descendant_two, ConfigData.child_setChild_ne _ _ hCP.symm,
        ConfigData.child_setChild_self, Option.bind_some, hc]
    · rw [Zk.versionAt, hncc, Option.map_some]
  · refine ⟨njava, found', c', _, hnjava, ?_, ?_, hjavaRead, hjava⟩
    · rw [ConfigData.descendant_two, hp, Option.bind_some, hfound']
    · rw [ConfigData.descendant_two, ConfigData.child_setChild_ne _ _ hCP.symm,
        ConfigData.child_setChild_self, Option.bind_some, hc']
  · refine ⟨_, nk, ?_, hnk, hsame⟩
    rw [ConfigData.descendant_one, ConfigData.child_setChild_self]
  · intro x cx hcx
    rw [ConfigData.descendant_two, ConfigData.child_setChild_self, Option.bind_some] at hcx
    obtain ⟨n, hn, hversion, hold⟩ := hcache.brought x cx hcx
    refine ⟨n, hn, hversion, ?_⟩
    rw [ConfigData.descendant_two, hk, Option.bind_some]
    exact hold
  · simp only [Bool.or_eq_true, hkflag, hpflag, hmflag, Noticed, ConfigData.versionAt,
      Zk.versionAt, ConfigData.descendant_one, ConfigData.descendant_two, hm, hp, hk, hnm, hncc,
      hfound, hfound', hjavaRead, Option.bind_some, Option.map_some, ne_eq, Option.some.injEq]
    constructor
    · rintro ((hcaches | hcc | hjava) | hmanager)
      · exact .inr (.inr (.inr hcaches))
      · exact .inr (.inl hcc)
      · exact .inr (.inr (.inl hjava))
      · exact .inl hmanager
    · rintro (hmanager | hcc | hjava | hcaches)
      · exact .inr hmanager
      · exact .inl (.inr (.inl hcc))
      · exact .inl (.inr (.inr hjava))
      · exact .inl (.inl hcaches)

/-- A first update that succeeds has read all three trees. -/
theorem init_none_eq (h : (init none zk).1 = true) :
    ∃ m p k, m = updateManagerConfig (ConfigData.empty.setName TRIPOD_MANAGER) zk false ∧
      p = updateProducerConfig (ConfigData.empty.setName TRIPOD_PRODUCER) zk false ∧
      k = updateCacheConfig (ConfigData.empty.setName TRIPOD_CACHE) zk false ∧
      m.suc = true ∧ p.suc = true ∧ k.suc = true ∧
      ∃ d, init none zk = (true, true, some d) ∧ d.child TRIPOD_MANAGER = some m.config ∧
        d.child TRIPOD_PRODUCER = some p.config ∧ d.child TRIPOD_CACHE = some k.config := by
  refine ⟨_, _, _, rfl, rfl, rfl, ?_⟩
  unfold init at h ⊢
  dsimp only at h ⊢
  split_ifs at h ⊢ with hsuc
  rw [Bool.and_eq_true, Bool.and_eq_true] at hsuc
  refine ⟨hsuc.1.1, hsuc.1.2, hsuc.2, _, rfl, ?_, ?_, ?_⟩
  · simp [ConfigData.findEntry_insertNew, OrdMap.findEntry, TRIPOD_MANAGER, TRIPOD_PRODUCER,
      TRIPOD_CACHE]
  · simp [ConfigData.findEntry_insertNew, OrdMap.findEntry, TRIPOD_MANAGER, TRIPOD_PRODUCER,
      TRIPOD_CACHE]
  · simp [ConfigData.findEntry_insertNew, OrdMap.findEntry, TRIPOD_MANAGER, TRIPOD_PRODUCER,
      TRIPOD_CACHE]

end ConfigManager

/-! ## What is remembered -/

/-- The places whose version is compared in full. -/
def Watched (path : List String) : Prop :=
  path = [TRIPOD_MANAGER] ∨ path = [TRIPOD_PRODUCER, TRIPOD_PRODUCER_CC] ∨
    ∃ x, path = [TRIPOD_CACHE, x]

/-- Every watched place has the version and the children of one of the states. -/
def Remembered (zks : List Zk) (d : ConfigData) : Prop :=
  ∀ path, Watched path → ∀ c, d.descendant path = some c → ∃ zk ∈ zks, Fresh c zk path

/-- A watched place whose version has not moved has the children of the node. -/
theorem Remembered.same (h : Remembered zks d) (htell : ∀ zk' ∈ zks, Tells zk'.root zk.root)
    (hpath : Watched path) (hc : d.descendant path = some c) (hn : zk.node path = some n)
    (hversion : c.version = n.data) : SameChildren c n := by
  obtain ⟨zk', hmem, n', hn', hversion', hsame⟩ := h path hpath c hc
  intro x
  rw [hsame x]
  exact htell zk' hmem path n' n hn' hn (hversion'.symm.trans hversion) x

theorem Remembered.mono {zks' : List Zk} (h : Remembered zks d) (hsub : ∀ zk ∈ zks, zk ∈ zks') :
    Remembered zks' d := by
  intro path hpath c hc
  obtain ⟨zk, hmem, hfresh⟩ := h path hpath c hc
  exact ⟨zk, hsub zk hmem, hfresh⟩

/-- A compared place after an update. -/
theorem ComparedAt.fresh (h : ComparedAt d d' zk path (zk.versionAt path))
    (hc : d'.descendant path = some c) : d.descendant path = some c ∨ Fresh c zk path := by
  obtain ⟨n, found, c', v, hn, hfound, hc', hread, ⟨-, rfl⟩ | ⟨-, hversion, hsame⟩⟩ := h
  · exact .inl (hfound.trans (hc'.symm.trans hc))
  · obtain rfl : c' = c := Option.some.inj (hc'.symm.trans hc)
    rw [Zk.versionAt, hn, Option.map_some] at hread
    exact .inr ⟨n, hn, hversion.trans (Option.some.inj hread).symm, hsame⟩

/-- What an update leaves is remembered, whether it is published or not. -/
theorem Remembered.updates (h : Remembered zks d) (hupd : Updates d d' zk) :
    Remembered (zks ++ [zk]) d' := by
  have hold := h.mono fun z hz => List.mem_append_left [zk] hz
  have hmem : zk ∈ zks ++ [zk] := by simp
  intro path hpath c hc
  rcases hpath with rfl | rfl | ⟨x, rfl⟩
  · rcases hupd.manager.fresh hc with hkept | hfresh
    · exact hold _ (.inl rfl) c hkept
    · exact ⟨zk, hmem, hfresh⟩
  · rcases hupd.cc.fresh hc with hkept | hfresh
    · exact hold _ (.inr (.inl rfl)) c hkept
    · exact ⟨zk, hmem, hfresh⟩
  · obtain ⟨n, hn, hversion, hkept | hsame⟩ := hupd.caches x c hc
    · exact hold _ (.inr (.inr ⟨x, rfl⟩)) c hkept
    · exact ⟨zk, hmem, n, hn, hversion, hsame⟩

/-! ## When the published tree is the one that was read -/

theorem SameAt.of_descendant_eq (h : d'.descendant path = d.descendant path) :
    SameAt d' zk path ↔ SameAt d zk path := by
  simp only [SameAt, h]

/-- A compared place that is watched is up to date after the update. -/
theorem ComparedAt.same (h : ComparedAt d d' zk path (zk.versionAt path))
    (hrem : Remembered zks d) (htell : ∀ zk' ∈ zks, Tells zk'.root zk.root) (hpath : Watched path) :
    SameAt d' zk path := by
  obtain ⟨n, found, c, v, hn, hfound, hc, hread, ⟨hversion, rfl⟩ | ⟨-, -, hsame⟩⟩ := h
  · rw [Zk.versionAt, hn, Option.map_some] at hread
    exact ⟨c, n, hc, hn,
      hrem.same htell hpath hfound hn (hversion.trans (Option.some.inj hread).symm)⟩
  · exact ⟨c, n, hc, hn, hsame⟩

/-- The namespaces of the updated tree have the caches of the state that was read. -/
theorem Updates.caches_same (h : Updates d d' zk) (hrem : Remembered zks d)
    (htell : ∀ zk' ∈ zks, Tells zk'.root zk.root) (hn : zk.node [TRIPOD_CACHE, x] = some n) :
    SameAt d' zk [TRIPOD_CACHE, x] := by
  obtain ⟨k, nk, hk, hnk, hsame⟩ := h.cache
  have hx : x ∈ nk.names := (node_cache_isSome hnk x).mp (by rw [hn]; rfl)
  obtain ⟨c, hc⟩ := Option.isSome_iff_exists.mp ((hsame x).mpr hx)
  have hdesc : d'.descendant [TRIPOD_CACHE, x] = some c := by
    rw [ConfigData.descendant_two, ← ConfigData.descendant_one, hk, Option.bind_some, hc]
  obtain ⟨n', hn', hversion, hkept | hsame'⟩ := h.caches x c hdesc
  · exact ⟨c, n', hdesc, hn', hrem.same htell (.inr (.inr ⟨x, rfl⟩)) hkept hn' hversion⟩
  · exact ⟨c, n', hdesc, hn', hsame'⟩

/-- The updated tree, published or not, differs from ZooKeeper at most in the Java producers. -/
theorem Updates.agrees_iff (h : Updates d d' zk) (hrem : Remembered zks d)
    (htell : ∀ zk' ∈ zks, Tells zk'.root zk.root) :
    Agrees d' zk ↔ SameAt d' zk [TRIPOD_PRODUCER, TRIPOD_PRODUCER_JAVA] :=
  ⟨fun hagrees => hagrees.java, fun hjava =>
    { manager := h.manager.same hrem htell (.inl rfl)
      cc := h.cc.same hrem htell (.inr (.inl rfl))
      java := hjava
      cache := h.cache
      caches := fun _ _ hn => h.caches_same hrem htell hn }⟩

/-- The Java producers of the updated tree. -/
theorem Updates.java_iff (h : Updates d d' zk) :
    SameAt d' zk [TRIPOD_PRODUCER, TRIPOD_PRODUCER_JAVA] ↔
      SameAt d zk [TRIPOD_PRODUCER, TRIPOD_PRODUCER_JAVA] ∨
        d.versionAt [TRIPOD_PRODUCER, TRIPOD_PRODUCER_JAVA] ≠ javaRead zk := by
  by_cases hread : d.versionAt [TRIPOD_PRODUCER, TRIPOD_PRODUCER_JAVA] = javaRead zk
  · rw [SameAt.of_descendant_eq (h.java.kept_of_eq hread)]
    exact (or_iff_left (not_not.mpr hread)).symm
  · exact iff_of_true (h.java.same_of_ne hread) (.inr hread)

/-- The tree that is published already, when no version has moved. -/
theorem Updates.agrees_old_iff (h : Updates d d' zk) (hrem : Remembered zks d)
    (htell : ∀ zk' ∈ zks, Tells zk'.root zk.root) (hnot : ¬Noticed d zk) : Agrees d zk ↔
      SameAt d zk [TRIPOD_PRODUCER, TRIPOD_PRODUCER_JAVA] ∧ SameAt d zk [TRIPOD_CACHE] := by
  unfold Noticed at hnot
  push Not at hnot
  obtain ⟨hmanager, hcc, -, hcaches⟩ := hnot
  refine ⟨fun hagrees => ⟨hagrees.java, hagrees.cache⟩, fun ⟨hjava, hcache⟩ => ?_⟩
  refine ⟨?_, ?_, hjava, hcache, fun x n hn => ?_⟩
  · rw [← SameAt.of_descendant_eq (h.manager.kept_of_eq hmanager)]
    exact h.manager.same hrem htell (.inl rfl)
  · rw [← SameAt.of_descendant_eq (h.cc.kept_of_eq hcc)]
    exact h.cc.same hrem htell (.inr (.inl rfl))
  · obtain ⟨k, nk, hk, hnk, hsame⟩ := hcache
    have hx : x ∈ nk.names := (node_cache_isSome hnk x).mp (by rw [hn]; rfl)
    obtain ⟨c, hc⟩ := Option.isSome_iff_exists.mp ((hsame x).mpr hx)
    have hdesc : d.descendant [TRIPOD_CACHE, x] = some c := by
      rw [ConfigData.descendant_two, ← ConfigData.descendant_one, hk, Option.bind_some, hc]
    exact ⟨c, n, hdesc, hn,
      hrem.same htell (.inr (.inr ⟨x, rfl⟩)) hdesc hn (hcaches x c n hdesc hn)⟩

namespace ConfigManager

variable {zk : Zk}

/-- The first update publishes the tree that it read. -/
theorem init_none_spec (hfits : Fits zk) (h : (init none zk).1 = true) :
    ∃ d, init none zk = (true, true, some d) ∧ Agrees d zk ∧ Remembered [zk] d := by
  obtain ⟨m, p, k, rfl, rfl, rfl, hsucm, hsucp, hsuck, d, heq, hm, hp, hk⟩ := init_none_eq h
  have hmanager := updateManagerConfig_first hfits hsucm
  obtain ⟨ncc, njava, c, c', hncc, hnjava, hc, hc', hversion, hsame, hsame'⟩ :=
    updateProducerConfig_first hfits rfl hsucp
  have hcache := updateCacheConfig_first hfits hsuck
  have hcaches : ∀ x cx, d.descendant [TRIPOD_CACHE, x] = some cx →
      Fresh cx zk [TRIPOD_CACHE, x] := by
    intro x cx hcx
    rw [ConfigData.descendant_two, hk, Option.bind_some] at hcx
    obtain ⟨n, hn, hv, hold | hchildren⟩ := hcache.brought x cx hcx
    · cases hold
    · exact ⟨n, hn, hv, hchildren⟩
  have hcc : d.descendant [TRIPOD_PRODUCER, TRIPOD_PRODUCER_CC] = some c := by
    rw [ConfigData.descendant_two, hp, Option.bind_some, hc]
  obtain ⟨nk, hnk, hnames⟩ := hcache.names
  refine ⟨d, heq, ⟨?_, ⟨c, ncc, hcc, hncc, hsame⟩, ⟨c', njava, ?_, hnjava, hsame'⟩, ?_, ?_⟩, ?_⟩
  · obtain ⟨n, hn, -, hchildren⟩ := hmanager
    exact ⟨_, n, (d.descendant_one _).trans hm, hn, hchildren⟩
  · rw [ConfigData.descendant_two, hp, Option.bind_some, hc']
  · exact ⟨_, nk, (d.descendant_one _).trans hk, hnk, hnames⟩
  · intro x n hn
    have hx : x ∈ nk.names := (node_cache_isSome hnk x).mp (by rw [hn]; rfl)
    obtain ⟨cx, hcx⟩ := Option.isSome_iff_exists.mp ((hnames x).mpr hx)
    have hdesc : d.descendant [TRIPOD_CACHE, x] = some cx := by
      rw [ConfigData.descendant_two, hk, Option.bind_some, hcx]
    obtain ⟨n', hn', -, hchildren⟩ := hcaches x cx hdesc
    exact ⟨cx, n', hdesc, hn', hchildren⟩
  · intro path hpath e he
    refine ⟨zk, by simp, ?_⟩
    rcases hpath with rfl | rfl | ⟨x, rfl⟩
    · rw [ConfigData.descendant_one, hm] at he
      cases he
      exact hmanager
    · rw [hcc] at he
      cases he
      exact ⟨ncc, hncc, hversion, hsame⟩
    · exact hcaches x e he

/-- An update that reports failure publishes nothing. -/
theorem updateConfig_failed (h : (updateConfig published zk).2 = false) :
    (updateConfig published zk).1 = published := by
  have hsuc : (init published zk).1 = false := h
  simp [updateConfig, hsuc]

/-- What is published after an update is remembered. -/
theorem updateConfig_remembered (hfits : Fits zk)
    (hrem : ∀ d, published = some d → Remembered zks d)
    (hd : (updateConfig published zk).1 = some d) : Remembered (zks ++ [zk]) d := by
  have hold : published = some d → Remembered (zks ++ [zk]) d := fun h =>
    (hrem d h).mono fun z hz => List.mem_append_left [zk] hz
  cases hsuc : (updateConfig published zk).2 with
  | false =>
      rw [updateConfig_failed hsuc] at hd
      exact hold hd
  | true =>
      have hinit : (init published zk).1 = true := hsuc
      cases published with
      | none =>
          obtain ⟨d', heq, -, hd'⟩ := init_none_spec hfits hinit
          rw [updateConfig, heq] at hd
          obtain rfl : d' = d := Option.some.inj hd
          exact hd'.mono fun z hz => List.mem_append_right zks hz
      | some d₀ =>
          obtain ⟨d', heq, hupd, -⟩ := init_check hfits hinit
          unfold updateConfig at hd
          dsimp only at hd
          split_ifs at hd
          · rw [heq] at hd
            obtain rfl : d' = d := Option.some.inj hd
            exact (hrem d₀ rfl).updates hupd
          · exact hold hd

/-- **What a successful update publishes.** -/
theorem updateConfig_agrees_iff (hfits : Fits zk)
    (hrem : ∀ d, published = some d → Remembered zks d)
    (htell : ∀ zk' ∈ zks, Tells zk'.root zk.root) (hsuc : (updateConfig published zk).2 = true) :
    (∃ d, (updateConfig published zk).1 = some d ∧ Agrees d zk) ↔
      ∀ d, published = some d → Shows d zk := by
  have hinit : (init published zk).1 = true := hsuc
  cases published with
  | none =>
      obtain ⟨d, heq, hagrees, -⟩ := init_none_spec hfits hinit
      refine iff_of_true ⟨d, by rw [updateConfig, heq]; rfl, hagrees⟩ ?_
      intro d hd
      cases hd
  | some d =>
      obtain ⟨d', heq, hupd, hflag⟩ := init_check hfits hinit
      have hrem := hrem d rfl
      have hshows : (∀ e, some d = some e → Shows e zk) ↔ Shows d zk :=
        ⟨fun h => h d rfl, fun h e he => Option.some.inj he ▸ h⟩
      rw [hshows]
      by_cases hnoticed : Noticed d zk
      · have hpublished : (updateConfig (some d) zk).1 = some d' := by
          simp [updateConfig, hinit, hflag.mpr hnoticed, heq]
        have hnew : (∃ e, (updateConfig (some d) zk).1 = some e ∧ Agrees e zk) ↔ Agrees d' zk := by
          simp [hpublished]
        rw [hnew, hupd.agrees_iff hrem htell, hupd.java_iff]
        exact ⟨fun h => ⟨h, .inr hnoticed⟩, fun h => h.java⟩
      · have hpublished : (updateConfig (some d) zk).1 = some d := by
          simp [updateConfig, Bool.eq_false_of_not_eq_true (hflag.not.mpr hnoticed)]
        have hkept : (∃ e, (updateConfig (some d) zk).1 = some e ∧ Agrees e zk) ↔ Agrees d zk := by
          simp [hpublished]
        have hread : d.versionAt [TRIPOD_PRODUCER, TRIPOD_PRODUCER_JAVA] = javaRead zk := by
          by_contra hne
          exact hnoticed (.inr (.inr (.inl hne)))
        rw [hkept, hupd.agrees_old_iff hrem htell hnoticed]
        exact ⟨fun h => ⟨.inl h.1, .inl h.2⟩, fun h =>
          ⟨h.java.resolve_right (not_not.mpr hread), h.cache.resolve_right hnoticed⟩⟩

/-! ## Runs -/

/-- What is published after an update. -/
def publish (published : Option ConfigData) (zk : Zk) : Option ConfigData :=
  (updateConfig published zk).1

/-- A successful update finds every change that it has to find: the first one always. -/
def Seen (published : Option ConfigData) (zk : Zk) : Prop :=
  (updateConfig published zk).2 = true → ∀ d, published = some d → Shows d zk

theorem follows_iff (hfits : Fits zk) (hrem : ∀ d, published = some d → Remembered zks d)
    (htell : ∀ zk' ∈ zks, Tells zk'.root zk.root) : Follows published zk ↔ Seen published zk := by
  have hfailed : (updateConfig published zk).2 = false →
      (updateConfig published zk).1 = published := updateConfig_failed
  refine (and_iff_left hfailed).trans ?_
  exact forall_congr' fun hsuc => updateConfig_agrees_iff hfits hrem htell hsuc

/-- The same of a run that goes on from a state in which what is published is remembered. -/
theorem run_follows_from (zks past : List Zk) (published : Option ConfigData)
    (hrem : ∀ d, published = some d → Remembered past d) (hfits : ∀ zk ∈ zks, Fits zk)
    (htell : VersionsTell (past ++ zks)) :
    StepsMeet publish Follows published zks ↔ StepsMeet publish Seen published zks := by
  induction zks generalizing past published with
  | nil => exact Iff.rfl
  | cons zk zks ih =>
      have hzk : Fits zk := hfits zk List.mem_cons_self
      have hpast : ∀ zk' ∈ past, Tells zk'.root zk.root := fun zk' hmem =>
        htell zk' (List.mem_append_left _ hmem) zk (by simp)
      have hnext := ih (past ++ [zk]) (publish published zk)
        (fun d hd => updateConfig_remembered hzk hrem hd)
        (fun z hz => hfits z (List.mem_cons_of_mem _ hz)) (by simpa using htell)
      rw [stepsMeet_cons, stepsMeet_cons, follows_iff hzk hrem hpast, hnext]

/-- **The published configuration follows the tree.** In every run in which a version tells the
children, each update that reports success leaves the tree it read published, and each that
reports failure leaves what was published, exactly if each successful update sees what changed. -/
theorem run_follows_iff (zks : List Zk) (hfits : ∀ zk ∈ zks, Fits zk) (htell : VersionsTell zks) :
    StepsMeet publish Follows none zks ↔ StepsMeet publish Seen none zks := by
  refine run_follows_from zks [] none ?_ hfits htell
  intro d hd
  cases hd

/-! ### A change that is not seen -/

/-- A tree with one manager and one C++ producer. -/
def treeOf (java cache : ZNode) : ZNode :=
  .mk [] [(TRIPOD_MANAGER, .mk [1] [("m", .mk [] [])]),
    (TRIPOD_PRODUCER, .mk [] [(TRIPOD_PRODUCER_CC, .mk [1] [("p", .mk [] [])]),
      (TRIPOD_PRODUCER_JAVA, java)]), (TRIPOD_CACHE, cache)]

/-- One namespace with one cache. -/
def oneNamespace : ZNode := .mk [2] [("user", .mk [1] [("c", .mk [] [])])]

/-- A tree without namespaces. -/
def treeBefore : Zk := ⟨treeOf (.mk [1, 1] [("q", .mk [] [])]) (.mk [1] []), fun _ => false⟩

/-- Another Java producer and a namespace: the version of the one moves behind its first byte. -/
def treeUnseen : Zk := ⟨treeOf (.mk [1, 2] [("r", .mk [] [])]) oneNamespace, fun _ => false⟩

/-- The same, where the version moves in its first byte. -/
def treeSeen : Zk := ⟨treeOf (.mk [2, 1] [("r", .mk [] [])]) oneNamespace, fun _ => false⟩

theorem tells_refl (t : ZNode) : Tells t t := by
  intro path n n' hn hn' _ x
  rw [Option.some.inj (hn.symm.trans hn')]

theorem tells_symm {t t' : ZNode} (h : Tells t t') : Tells t' t :=
  fun path n n' hn hn' hdata x => (h path n' n hn' hn hdata.symm x).symm

theorem tells_mk {data' : List Byte} {l' : List (String × ZNode)}
    (hnames : data = data' → ∀ x, x ∈ l.map Prod.fst ↔ x ∈ l'.map Prod.fst)
    (hchildren : ∀ x c c', OrdMap.findEntry x l = some c → OrdMap.findEntry x l' = some c' →
      Tells c c') : Tells (.mk data l) (.mk data' l') := by
  intro path n n' hn hn' hdata
  cases path with
  | nil =>
      rw [ZNode.node_nil] at hn hn'
      cases hn
      cases hn'
      exact hnames hdata
  | cons x path =>
      rw [ZNode.node_cons] at hn hn'
      obtain ⟨c, hc, hn⟩ := Option.bind_eq_some_iff.mp hn
      obtain ⟨c', hc', hn'⟩ := Option.bind_eq_some_iff.mp hn'
      exact hchildren x c c' hc hc' path n n' hn hn' hdata

theorem fits_mk (hdata : data.length ≤ bufferSize) (hchildren : ∀ e ∈ l, Fits ⟨e.2, fails⟩) :
    Fits ⟨.mk data l, fails⟩ := by
  intro path n hn
  cases path with
  | nil =>
      rw [Zk.node, ZNode.node_nil] at hn
      cases hn
      exact hdata
  | cons x path =>
      rw [Zk.node, ZNode.node_cons] at hn
      obtain ⟨c, hc, hn⟩ := Option.bind_eq_some_iff.mp hn
      exact hchildren (x, c) (OrdMap.findEntry_mem hc) path n hn

/-- One child, which has none itself. -/
theorem fits_one (hdata : data.length ≤ bufferSize) : Fits ⟨.mk data [(x, .mk [] [])], fails⟩ := by
  apply fits_mk hdata
  intro e he
  rw [List.mem_singleton.mp he]
  exact fits_mk (by decide) fun e he => by cases he

/-- A tree tells what its two halves tell. -/
theorem treeOf_tells {java' cache' : ZNode} (hjava : Tells java java')
    (hcache : Tells cache cache') : Tells (treeOf java cache) (treeOf java' cache') := by
  have hproducer : ∀ y e e', OrdMap.findEntry y [(TRIPOD_PRODUCER_CC, ZNode.mk [1]
      [("p", .mk [] [])]), (TRIPOD_PRODUCER_JAVA, java)] = some e →
      OrdMap.findEntry y [(TRIPOD_PRODUCER_CC, ZNode.mk [1] [("p", .mk [] [])]),
        (TRIPOD_PRODUCER_JAVA, java')] = some e' → Tells e e' := by
    intro y e e' he he'
    unfold OrdMap.findEntry OrdMap.findEntry OrdMap.findEntry at he he'
    split_ifs at he he'
    · cases he
      cases he'
      exact tells_refl _
    · cases he
      cases he'
      exact hjava
  refine tells_mk (fun _ _ => Iff.rfl) fun x c c' hc hc' => ?_
  unfold OrdMap.findEntry OrdMap.findEntry OrdMap.findEntry OrdMap.findEntry at hc hc'
  split_ifs at hc hc'
  · cases hc
    cases hc'
    exact tells_refl _
  · cases hc
    cases hc'
    exact tells_mk (fun _ _ => Iff.rfl) hproducer
  · cases hc
    cases hc'
    exact hcache

theorem fits_treeOf (hjava : Fits ⟨java, fails⟩) (hcache : Fits ⟨cache, fails⟩) :
    Fits ⟨treeOf java cache, fails⟩ := by
  apply fits_mk (by decide)
  intro e he
  simp only [List.mem_cons, List.not_mem_nil, or_false] at he
  obtain rfl | rfl | rfl := he
  · exact fits_one (by decide)
  · apply fits_mk (by decide)
    intro e he
    simp only [List.mem_cons, List.not_mem_nil, or_false] at he
    obtain rfl | rfl := he
    · exact fits_one (by decide)
    · exact hjava
  · exact hcache

theorem fits_before : Fits treeBefore :=
  fits_treeOf (fits_one (by decide)) (fits_mk (by decide) fun e he => by cases he)

theorem fits_after (h : version.length ≤ bufferSize) :
    Fits ⟨treeOf (.mk version [("r", .mk [] [])]) oneNamespace, fun _ => false⟩ := by
  refine fits_treeOf (fits_one h) (fits_mk (by decide) ?_)
  intro e he
  rw [List.mem_singleton.mp he]
  exact fits_one (by decide)

/-- The two states differ in the children of the Java producers and of the cache tree, and in the
versions of both. -/
theorem versionsTell_after (h : [1, 1] ≠ version) :
    VersionsTell [treeBefore,
      ⟨treeOf (.mk version [("r", .mk [] [])]) oneNamespace, fun _ => false⟩] := by
  have hstep : Tells treeBefore.root (treeOf (.mk version [("r", .mk [] [])]) oneNamespace) := by
    apply treeOf_tells
    · refine tells_mk (fun hdata => absurd hdata h) fun x c c' hc hc' => ?_
      unfold OrdMap.findEntry OrdMap.findEntry at hc hc'
      split_ifs at hc hc'
      cases hc
      cases hc'
      exact tells_refl _
    · refine tells_mk (fun hdata => absurd hdata (by decide)) fun x c c' hc _ => ?_
      cases hc
  intro zk hzk zk' hzk'
  simp only [List.mem_cons, List.not_mem_nil, or_false] at hzk hzk'
  obtain rfl | rfl := hzk <;> obtain rfl | rfl := hzk'
  · exact tells_refl _
  · exact hstep
  · exact tells_symm hstep
  · exact tells_refl _

theorem run_follows_iff_seen : StepsMeet publish Follows none [treeBefore, treeSeen] := by
  refine (run_follows_iff _ ?_ (versionsTell_after (by decide))).mpr ⟨?_, ?_, trivial⟩
  · intro zk hzk
    simp only [List.mem_cons, List.not_mem_nil, or_false] at hzk
    obtain rfl | rfl := hzk
    · exact fits_before
    · exact fits_after (by decide)
  · intro _ d hd
    cases hd
  · intro _ d hd
    have hversion : (publish none treeBefore).map (fun d =>
        d.versionAt [TRIPOD_PRODUCER, TRIPOD_PRODUCER_JAVA]) = some (some [1]) := by decide
    rw [hd, Option.map_some] at hversion
    have hne : d.versionAt [TRIPOD_PRODUCER, TRIPOD_PRODUCER_JAVA] ≠ javaRead treeSeen := by
      rw [Option.some.inj hversion]
      decide
    exact ⟨.inr hne, .inr (.inr (.inr (.inl hne)))⟩

/-- A new namespace, and a Java version that moves behind its first byte while the C++ version is
one byte long: the update reports success and publishes nothing. -/
theorem addition_not_published :
    (∀ zk ∈ [treeBefore, treeUnseen], Fits zk) ∧ VersionsTell [treeBefore, treeUnseen] ∧
      ¬StepsMeet publish Follows none [treeBefore, treeUnseen] := by
  refine ⟨?_, versionsTell_after (by decide), ?_⟩
  · intro zk hzk
    simp only [List.mem_cons, List.not_mem_nil, or_false] at hzk
    obtain rfl | rfl := hzk
    · exact fits_before
    · exact fits_after (by decide)
  · rintro ⟨-, ⟨hfollows, -⟩, -⟩
    obtain ⟨d, hd, hagrees⟩ := hfollows (by decide)
    obtain ⟨c, n, hc, -, -⟩ := hagrees.caches "user" (.mk [1] [("c", .mk [] [])]) rfl
    have hnone : ((updateConfig (publish none treeBefore) treeUnseen).1.bind fun d =>
        d.descendant [TRIPOD_CACHE, "user"]).isSome = false := by decide
    rw [hd, Option.bind_some, hc] at hnone
    cases hnone

end ConfigManager

end Oce.Tripod
