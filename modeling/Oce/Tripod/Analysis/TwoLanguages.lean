import Mathlib.Data.List.Induction
import Oce.Tripod.Analysis.RingMoves

/-!
# The node for a key, in C++ and in Java

A configuration is published to clients in both languages (`Published`). After the same last
configuration a C++ client has a ring for every namespace in it; a Java client has one for every
namespace it ever saw, that of a namespace which is gone being the last it had
(`Java.find_after`). On the namespaces of the last configuration the two rings have the same
points, and the search finds the same one; `SameOwner` says when its owner is the same.
-/

set_option autoImplicit false

namespace Oce.Tripod

open Oce.Base

/-! ## One ring -/

/-- Searching by name among clients that stand for the nodes they are named after. -/
theorem map_find_of_named {T : Type*} {l : List (String × T)} {f : T → List Byte}
    {P Q : String → Bool} (hf : ∀ e ∈ l, f e.2 = utf8 e.1) (hPQ : ∀ e ∈ l, P e.1 = Q e.1) :
    ((l.find? fun e => P e.1).map Prod.snd).map f = ((l.map Prod.fst).find? Q).map utf8 := by
  induction l with
  | nil => rfl
  | cons e l ih =>
      rw [List.find?_cons, List.map_cons, List.find?_cons, ← hPQ e List.mem_cons_self]
      cases hP : P e.1 with
      | true => simp [hf e List.mem_cons_self]
      | false =>
          exact ih (fun e he => hf e (List.mem_cons_of_mem _ he))
            (fun e he => hPQ e (List.mem_cons_of_mem _ he))

/-- The node wants the point. -/
def Wants (md5 : MD5) (p : ℕ) (name : String) : Bool := decide (p ∈ Java.points md5 name)

theorem exists_point (md5 : MD5) (name : String) : ∃ p, Wants md5 p name = true := by
  refine ⟨word (md5 (utf8 name ++ natDigits 0)) 0, decide_eq_true ?_⟩
  exact List.mem_flatMap.mpr ⟨0, by decide, List.mem_map.mpr ⟨0, List.mem_finRange 0, rfl⟩⟩

section Ring

variable (md5 : MD5) {clients : OrdMap String Cpp.MemcachedClientPool}
  {l : List (String × List Byte)}

/-- **In C++ a point belongs to the first node that wants it.** -/
theorem Cpp.owner_eq (hnode : ∀ e ∈ clients.entries, e.2.node = utf8 e.1)
    (hzero : ∀ e ∈ clients.entries, (0 : Byte) ∉ utf8 e.1) (p : ℕ) :
    ((Cpp.hashConfig md5 clients).find p).map Cpp.MemcachedClientPool.node =
      ((clients.entries.map Prod.fst).find? (Wants md5 p)).map utf8 := by
  rw [Cpp.hashConfig, OrdMap.find_claimAll, OrdMap.find_empty, Option.none_or]
  refine map_find_of_named hnode (P := fun x => decide (p ∈ Cpp.points md5 x)) fun e he => ?_
  rw [Wants, Cpp.points_eq (hzero e he)]

/-- **In Java it belongs to the last.** -/
theorem Java.owner_eq (hnode : ∀ e ∈ l, e.2 = utf8 e.1) (p : ℕ) :
    (Java.hashConfig md5 l).find p = ((l.map Prod.fst).reverse.find? (Wants md5 p)).map utf8 := by
  have hreverse : ∀ e ∈ l.reverse, id e.2 = utf8 e.1 := fun e he => hnode e (List.mem_reverse.mp he)
  rw [Java.hashConfig, OrdMap.find_assignAll, OrdMap.find_empty, Option.or_none, ← List.map_reverse,
    ← map_find_of_named hreverse (fun e _ => rfl), Option.map_id]
  rfl

/-- The points of the C++ ring are those wanted. -/
theorem Cpp.isSome_find (hzero : ∀ e ∈ clients.entries, (0 : Byte) ∉ utf8 e.1) (p : ℕ) :
    ((Cpp.hashConfig md5 clients).find p).isSome ↔
      ∃ x ∈ clients.entries.map Prod.fst, Wants md5 p x = true := by
  rw [Cpp.hashConfig, OrdMap.isSome_claimAll]
  constructor
  · rintro ⟨e, he, hp⟩
    rw [Cpp.points_eq (hzero e he)] at hp
    exact ⟨e.1, List.mem_map.mpr ⟨e, he, rfl⟩, decide_eq_true hp⟩
  · rintro ⟨x, hx, hp⟩
    obtain ⟨e, he, rfl⟩ := List.mem_map.mp hx
    refine ⟨e, he, ?_⟩
    rw [Cpp.points_eq (hzero e he)]
    exact of_decide_eq_true hp

theorem Java.isSome_find (p : ℕ) :
    ((Java.hashConfig md5 l).find p).isSome ↔
      ∃ x ∈ l.map Prod.fst, Wants md5 p x = true := by
  rw [Java.hashConfig, OrdMap.isSome_assignAll]
  constructor
  · rintro ⟨e, he, hp⟩
    exact ⟨e.1, List.mem_map.mpr ⟨e, he, rfl⟩, decide_eq_true hp⟩
  · rintro ⟨x, hx, hp⟩
    obtain ⟨e, he, rfl⟩ := List.mem_map.mp hx
    exact ⟨e, he, of_decide_eq_true hp⟩

/-- A ring with a point has entries. -/
theorem entries_ne_nil {T : Type*} {m : OrdMap ℕ T} {p : ℕ} (h : (m.find p).isSome) :
    m.entries ≠ [] := by
  intro hnil
  rw [OrdMap.find_eq_none_of_nil hnil] at h
  cases h

/-- At the point that is reached, the first node that wants it is the last in the order of
Java. -/
def SameAtPoint (md5 : MD5) (key : List Byte) (names iterated : List String) : Prop :=
  ∀ p, Reaches (fun q => ∃ x ∈ names, Wants md5 q x = true) (Java.hashKey md5 key) p →
    names.find? (Wants md5 p) = iterated.reverse.find? (Wants md5 p)

/-- **Two rings of the same nodes.** -/
theorem get_agree_iff {key : List Byte} (hkey : (0 : Byte) ∉ key)
    (hnode : ∀ e ∈ clients.entries, e.2.node = utf8 e.1)
    (hzero : ∀ e ∈ clients.entries, (0 : Byte) ∉ utf8 e.1) (hnode' : ∀ e ∈ l, e.2 = utf8 e.1)
    (hsame : ∀ x, x ∈ clients.entries.map Prod.fst ↔ x ∈ l.map Prod.fst) :
    (Cpp.get md5 (Cpp.renew md5 clients) key).map Cpp.MemcachedClientPool.node =
        (Java.get md5 (Java.hashConfig md5 l) key).named ↔
      SameAtPoint md5 key (clients.entries.map Prod.fst) (l.map Prod.fst) := by
  have hpoints : ∀ q, (∃ x ∈ l.map Prod.fst, Wants md5 q x = true) ↔
      ∃ x ∈ clients.entries.map Prod.fst, Wants md5 q x = true := fun q =>
    exists_congr fun x => and_congr_left' (hsame x).symm
  cases hentries : clients.entries with
  | nil =>
      have hl : l = [] := by
        rw [← List.map_eq_nil_iff (f := Prod.fst), List.eq_nil_iff_forall_not_mem]
        intro x hx
        rw [← hsame, hentries] at hx
        cases hx
      subst hl
      have hcpp : Cpp.renew md5 clients = [] := by
        rw [Cpp.renew, Cpp.hashConfig, hentries]
        rfl
      rw [hcpp]
      refine iff_of_true rfl ?_
      rintro p ⟨⟨x, hx, -⟩, -⟩
      cases hx
  | cons e rest =>
      rw [← hentries]
      obtain ⟨q, hq⟩ := exists_point md5 e.1
      have hwanted : ∃ x ∈ clients.entries.map Prod.fst, Wants md5 q x = true :=
        ⟨e.1, by rw [hentries]; simp, hq⟩
      obtain ⟨p, v, hget, hreaches, hfind⟩ := Cpp.get_spec md5 key
        (entries_ne_nil ((Cpp.isSome_find md5 hzero q).mpr hwanted))
      obtain ⟨p', v', hget', hreaches', hfind'⟩ := Java.get_spec md5 key
        (entries_ne_nil ((Java.isSome_find md5 q).mpr ((hpoints q).mpr hwanted)))
      rw [Cpp.hashKey_eq hkey] at hreaches
      have hreaches := hreaches.congr (Cpp.isSome_find md5 hzero)
      have hreaches' := hreaches'.congr fun q => (Java.isSome_find md5 q).trans (hpoints q)
      obtain rfl : p = p' := hreaches.unique hreaches'
      have howner := Cpp.owner_eq md5 hnode hzero p
      have howner' := Java.owner_eq md5 hnode' p
      rw [hfind, Option.map_some] at howner
      rw [hfind'] at howner'
      rw [Cpp.renew, hget, hget', Option.map_some, howner, howner']
      constructor
      · intro heq p₀ hp₀
        obtain rfl : p₀ = p := hp₀.unique hreaches
        exact Option.map_injective utf8_injective heq
      · intro h
        rw [h p hreaches]

end Ring

/-! ## One configuration -/

/-- The names of the children. -/
def childNames (d : ConfigData) : List String := d.childrenDatas.map Prod.fst

/-- The nodes of a namespace as a C++ client sees them: a `std::map` of hosts and ports. -/
structure CppNodes (a : ConfigData) : Prop where
  sorted : (childNames a).Pairwise (· < ·)
  named : ∀ e ∈ a.childrenDatas, e.2.name = e.1
  hosts : ∀ x ∈ childNames a, WellNamed x

/-- The cache tree as a C++ client sees it. -/
structure CppCache (k : ConfigData) : Prop where
  sorted : (childNames k).Pairwise (· < ·)
  named : ∀ e ∈ k.childrenDatas, e.2.name = e.1
  nodes : ∀ e ∈ k.childrenDatas, CppNodes e.2

/-- The cache tree as a Java client sees it. -/
structure JavaCache (k : ConfigData) : Prop where
  nodup : (childNames k).Nodup
  hosts : ∀ e ∈ k.childrenDatas, ∀ x ∈ childNames e.2, WellNamed x

/-- **A published configuration**, as the two languages see it: the same namespaces with the same
nodes. -/
structure Published (c j : ConfigData) : Prop where
  cpp : ∃ k, c.child TRIPOD_CACHE = some k ∧ CppCache k
  java : ∃ k, j.child TRIPOD_CACHE = some k ∧ JavaCache k
  namespaces : ∀ ns, (c.descendant [TRIPOD_CACHE, ns]).isSome ↔
    (j.descendant [TRIPOD_CACHE, ns]).isSome
  nodes : ∀ ns a b, c.descendant [TRIPOD_CACHE, ns] = some a →
    j.descendant [TRIPOD_CACHE, ns] = some b → ∀ x, x ∈ childNames a ↔ x ∈ childNames b

/-- The pools of a namespace: one for each node, with the name of the node. -/
theorem Cpp.makeClients_eq (l : List (String × ConfigData))
    (acc : OrdMap String Cpp.MemcachedClientPool)
    (hsorted : ((acc.entries.map Prod.fst) ++ l.map Prod.fst).Pairwise (· < ·))
    (hnamed : ∀ e ∈ l, e.2.name = e.1) (hhosts : ∀ x ∈ l.map Prod.fst, WellNamed x)
    (hacc : ∀ e ∈ acc.entries, e.2.node = utf8 e.1) :
    ∃ clients, Cpp.makeClients l acc = some clients ∧
      clients.entries.map Prod.fst = acc.entries.map Prod.fst ++ l.map Prod.fst ∧
      ∀ e ∈ clients.entries, e.2.node = utf8 e.1 := by
  induction l generalizing acc with
  | nil => exact ⟨acc, rfl, by simp, hacc⟩
  | cons e l ih =>
      obtain ⟨x, node⟩ := e
      have hx : node.name = x := hnamed (x, node) List.mem_cons_self
      obtain ⟨pool, hpool, hnode⟩ := Cpp.makePool_of_wellNamed (hhosts x List.mem_cons_self)
      have hbelow : ∀ y ∈ acc.entries.map Prod.fst, y < x := fun y hy =>
        (List.pairwise_append.mp hsorted).2.2 y hy x List.mem_cons_self
      have hfree : acc.find x = none := by
        by_contra hne
        obtain ⟨v, hv⟩ := Option.ne_none_iff_exists'.mp hne
        have hmem : x ∈ acc.entries.map Prod.fst :=
          List.mem_map.mpr ⟨(x, v), acc.mem_entries_iff.mpr hv, rfl⟩
        exact lt_irrefl x (hbelow x hmem)
      have hentries : (acc.insertNew x pool).entries = acc.entries ++ [(x, pool)] := by
        rw [OrdMap.insertNew, hfree]
        exact OrdMap.insertEntry_append x pool hbelow
      obtain ⟨clients, hclients, hnames, hnodes⟩ := ih (acc.insertNew x pool)
        (by rw [hentries]; simpa using hsorted)
        (fun e he => hnamed e (List.mem_cons_of_mem _ he))
        (fun y hy => hhosts y (List.mem_cons_of_mem _ hy)) (by
          intro e he
          rw [hentries, List.mem_append, List.mem_singleton] at he
          rcases he with he | rfl
          · exact hacc e he
          · exact hnode)
      refine ⟨clients, ?_, ?_, hnodes⟩
      · rw [Cpp.makeClients, hx, hpool]
        exact hclients
      · rw [hnames, hentries]
        simp

/-- The rings that a C++ client builds from a cache tree. -/
theorem Cpp.find_makeHolders (md5 : MD5) (l : List (String × ConfigData))
    (acc : Cpp.CacheConfigClient) (hsorted : (l.map Prod.fst).Pairwise (· < ·))
    (hnamed : ∀ e ∈ l, e.2.name = e.1) (hnodes : ∀ e ∈ l, CppNodes e.2) :
    ∃ m, Cpp.makeHolders md5 l acc = some m ∧ ∀ ns,
      match OrdMap.findEntry ns l with
      | none => m.find ns = acc.find ns
      | some a => ∃ clients : OrdMap String Cpp.MemcachedClientPool,
          m.find ns = some (Cpp.renew md5 clients) ∧
          clients.entries.map Prod.fst = childNames a ∧
          ∀ e ∈ clients.entries, e.2.node = utf8 e.1 := by
  induction l generalizing acc with
  | nil => exact ⟨acc, rfl, fun ns => rfl⟩
  | cons e l ih =>
      obtain ⟨x, a⟩ := e
      have hx : a.name = x := hnamed (x, a) List.mem_cons_self
      have ha : CppNodes a := hnodes (x, a) List.mem_cons_self
      obtain ⟨hfirst, hrest⟩ := List.pairwise_cons.mp hsorted
      obtain ⟨clients, hclients, hnames, hnode⟩ := Cpp.makeClients_eq a.childrenDatas .empty
        (by simpa [OrdMap.empty, childNames] using ha.sorted) ha.named ha.hosts
        (fun e he => absurd he List.not_mem_nil)
      obtain ⟨m, hm, hfind⟩ := ih (acc.insert x (Cpp.renew md5 clients)) hrest
        (fun e he => hnamed e (List.mem_cons_of_mem _ he))
        (fun e he => hnodes e (List.mem_cons_of_mem _ he))
      refine ⟨m, ?_, fun ns => ?_⟩
      · rw [Cpp.makeHolders, hclients, hx]
        exact hm
      · have hfind := hfind ns
        rw [OrdMap.findEntry]
        by_cases hns : ns = x
        · subst hns
          have hgone : OrdMap.findEntry ns l = none := by
            by_contra hne
            obtain ⟨b, hb⟩ := Option.ne_none_iff_exists'.mp hne
            have hmem : ns ∈ l.map Prod.fst :=
              List.mem_map.mpr ⟨(ns, b), OrdMap.findEntry_mem hb, rfl⟩
            exact lt_irrefl ns (hfirst ns hmem)
          rw [hgone, OrdMap.find_insert_self] at hfind
          rw [if_pos rfl]
          exact ⟨clients, hfind, by simpa [OrdMap.empty, childNames] using hnames, hnode⟩
        · rw [if_neg hns]
          rw [OrdMap.find_insert_ne _ _ hns] at hfind
          exact hfind

/-- The clients of a namespace in Java. -/
def javaClients (b : ConfigData) : List (String × List Byte) :=
  (childNames b).map fun x => (x, utf8 x)

theorem Java.makeClients_eq {l : List (String × ConfigData)}
    (h : ∀ x ∈ l.map Prod.fst, WellNamed x) :
    Java.makeClients l = some ((l.map Prod.fst).map fun x => (x, utf8 x)) := by
  induction l with
  | nil => rfl
  | cons e l ih =>
      rw [List.map_cons] at h
      rw [Java.makeClients, Java.makePool_of_wellNamed (h e.1 List.mem_cons_self),
        ih fun x hx => h x (List.mem_cons_of_mem _ hx)]
      rfl

/-- The rings of a Java client after a cache tree: those of the tree, and those it had. -/
theorem Java.find_makeHolders {md5 : MD5} {order : Java.Order} (l : List (String × ConfigData))
    (acc : Java.CacheConfigClient) (hnodup : (l.map Prod.fst).Nodup)
    (hhosts : ∀ e ∈ l, ∀ x ∈ childNames e.2, WellNamed x) (ns : String) :
    (Java.makeHolders md5 order l acc).2.find ns =
      ((OrdMap.findEntry ns l).map fun b => Java.hashConfig md5 (order (javaClients b))).or
        (acc.find ns) := by
  induction l generalizing acc with
  | nil => rfl
  | cons e l ih =>
      obtain ⟨x, b⟩ := e
      obtain ⟨hfirst, hrest⟩ := List.nodup_cons.mp hnodup
      have hclients : Java.makeClients b.childrenDatas = some (javaClients b) :=
        Java.makeClients_eq (hhosts (x, b) List.mem_cons_self)
      rw [Java.makeHolders, hclients]
      dsimp only
      rw [ih _ hrest fun e he => hhosts e (List.mem_cons_of_mem _ he), OrdMap.findEntry]
      by_cases hns : ns = x
      · subst hns
        have hgone : OrdMap.findEntry ns l = none := by
          by_contra hne
          obtain ⟨b', hb'⟩ := Option.ne_none_iff_exists'.mp hne
          exact hfirst (List.mem_map.mpr ⟨(ns, b'), OrdMap.findEntry_mem hb', rfl⟩)
        simp [hgone]
      · simp [hns, OrdMap.find_insert_ne _ _ hns]

/-! ## Sequences of configurations -/

/-- A C++ client after configurations. -/
def cppAfter (md5 : MD5) (configs : List ConfigData) : Cpp.CacheConfigClient :=
  configs.foldl (Cpp.CacheConfigClient.update md5) .empty

/-- A Java client after configurations. -/
def javaAfter (md5 : MD5) (order : Java.Order) (configs : List ConfigData) :
    Java.CacheConfigClient :=
  configs.foldl (Java.CacheConfigClient.update md5 order) .empty

/-- A namespace as it was when it was last there. -/
def lastSeen (configs : List ConfigData) (ns : String) : Option ConfigData :=
  configs.foldl (fun seen j => (j.descendant [TRIPOD_CACHE, ns]).or seen) none

/-- **A Java client has the last ring of every namespace it ever saw.** -/
theorem Java.find_after (md5 : MD5) (order : Java.Order) (configs : List ConfigData)
    (h : ∀ j ∈ configs, ∃ k, j.child TRIPOD_CACHE = some k ∧ JavaCache k) (ns : String) :
    (javaAfter md5 order configs).find ns =
      (lastSeen configs ns).map fun b => Java.hashConfig md5 (order (javaClients b)) := by
  induction configs using List.reverseRecOn with
  | nil => rfl
  | append_singleton configs j ih =>
      have hstep : javaAfter md5 order (configs ++ [j]) =
          Java.CacheConfigClient.update md5 order (javaAfter md5 order configs) j :=
        List.foldl_concat ..
      have hseen : lastSeen (configs ++ [j]) ns =
          (j.descendant [TRIPOD_CACHE, ns]).or (lastSeen configs ns) := List.foldl_concat ..
      obtain ⟨k, hk, hcache⟩ := h j (by simp)
      rw [hstep, hseen, Java.CacheConfigClient.update, hk]
      dsimp only
      rw [Java.find_makeHolders _ _ hcache.nodup hcache.hosts,
        ih fun j' hj' => h j' (List.mem_append_left _ hj'), ConfigData.descendant_two, hk,
        Option.bind_some, ConfigData.child, Option.map_or]

/-- A C++ client has the rings of the last configuration. -/
theorem Cpp.find_after (md5 : MD5) (configs : List ConfigData) {c k : ConfigData}
    (hk : c.child TRIPOD_CACHE = some k) (hcache : CppCache k) (ns : String) :
    match k.child ns with
    | none => (cppAfter md5 (configs ++ [c])).find ns = none
    | some a => ∃ clients : OrdMap String Cpp.MemcachedClientPool,
        (cppAfter md5 (configs ++ [c])).find ns = some (Cpp.renew md5 clients) ∧
        clients.entries.map Prod.fst = childNames a ∧
        ∀ e ∈ clients.entries, e.2.node = utf8 e.1 := by
  have hstep : cppAfter md5 (configs ++ [c]) =
      Cpp.CacheConfigClient.update md5 (cppAfter md5 configs) c := List.foldl_concat ..
  obtain ⟨m, hm, hfind⟩ := Cpp.find_makeHolders md5 k.childrenDatas .empty hcache.sorted
    hcache.named hcache.nodes
  rw [hstep, Cpp.CacheConfigClient.update, hk]
  dsimp only
  rw [hm]
  exact hfind ns

/-! ## Which node a key has -/

/-- The order in which a Java client iterates the nodes of a namespace. -/
def iterated (order : Java.Order) (b : ConfigData) : List String :=
  (order (javaClients b)).map Prod.fst

/-- When both clients name the same node, or both none: in a namespace of the last configuration,
the first node by name that wants the point of the key is the one that Java iterates last; a
namespace that is gone is one that the Java client never had, or that was empty when it was last
there. -/
structure SameOwner (md5 : MD5) (order : Java.Order) (before : List ConfigData)
    (c j : ConfigData) (key : List Byte) (ns : String) : Prop where
  present : ∀ a b, c.descendant [TRIPOD_CACHE, ns] = some a →
    j.descendant [TRIPOD_CACHE, ns] = some b →
      SameAtPoint md5 key (childNames a) (iterated order b)
  gone : c.descendant [TRIPOD_CACHE, ns] = none →
    ∀ b, lastSeen before ns = some b → childNames b = []

theorem mem_javaClients {b : ConfigData} {e : String × List Byte} (h : e ∈ javaClients b) :
    e.2 = utf8 e.1 := by
  obtain ⟨x, -, rfl⟩ := List.mem_map.mp h
  rfl

/-- A Java ring names a node unless it is empty. -/
theorem Java.get_named_eq_none_iff {md5 : MD5} {key : List Byte} {order : Java.Order}
    (horder : ∀ l, (order l).Perm l) (b : ConfigData) :
    (Java.get md5 (Java.hashConfig md5 (order (javaClients b))) key).named = none ↔
      childNames b = [] := by
  constructor
  · intro hnone
    by_contra hne
    obtain ⟨x, hx⟩ := List.exists_mem_of_ne_nil _ hne
    obtain ⟨q, hq⟩ := exists_point md5 x
    have hmem : (x, utf8 x) ∈ order (javaClients b) :=
      (horder _).mem_iff.mpr (List.mem_map.mpr ⟨x, hx, rfl⟩)
    have hsome : ((Java.hashConfig md5 (order (javaClients b))).find q).isSome :=
      (Java.isSome_find md5 q).mpr ⟨x, List.mem_map.mpr ⟨_, hmem, rfl⟩, hq⟩
    obtain ⟨p, v, hget, -, -⟩ := Java.get_spec md5 key (entries_ne_nil hsome)
    rw [hnone] at hget
    cases hget
  · intro hempty
    have hnil : order (javaClients b) = [] := by
      apply List.Perm.eq_nil
      rw [← show javaClients b = [] by rw [javaClients, hempty]; rfl]
      exact horder _
    rw [hnil]
    rfl

/-- **The node for a key in the two languages.** -/
theorem getPrx_agree_iff (md5 : MD5) {order : Java.Order} (horder : ∀ l, (order l).Perm l)
    (beforeCpp : List ConfigData) {before : List ConfigData}
    (hbefore : ∀ j ∈ before, ∃ k, j.child TRIPOD_CACHE = some k ∧ JavaCache k)
    {c j : ConfigData} (hlatest : Published c j) {key : List Byte} (hkey : (0 : Byte) ∉ key)
    (ns : String) :
    ((cppAfter md5 (beforeCpp ++ [c])).getPrx md5 key ns).map Cpp.MemcachedClientPool.node =
        ((javaAfter md5 order (before ++ [j])).getPrx md5 key ns).named ↔
      SameOwner md5 order before c j key ns := by
  obtain ⟨k, hk, hcache⟩ := hlatest.cpp
  obtain ⟨k', hk', hcache'⟩ := hlatest.java
  have hcpp := Cpp.find_after md5 beforeCpp hk hcache ns
  have hjava := Java.find_after md5 order (before ++ [j]) (by
    intro j' hj'
    rcases List.mem_append.mp hj' with hj' | hj'
    · exact hbefore j' hj'
    · rw [List.mem_singleton.mp hj']
      exact hlatest.java) ns
  have hseen : lastSeen (before ++ [j]) ns =
      (j.descendant [TRIPOD_CACHE, ns]).or (lastSeen before ns) := List.foldl_concat ..
  have hdesc : c.descendant [TRIPOD_CACHE, ns] = k.child ns := by
    rw [ConfigData.descendant_two, hk, Option.bind_some]
  have hiff := hlatest.namespaces ns
  unfold Cpp.CacheConfigClient.getPrx Java.CacheConfigClient.getPrx
  rw [hjava, hseen]
  cases ha : k.child ns with
  | none =>
      rw [ha] at hcpp
      dsimp only at hcpp
      rw [hdesc, ha] at hiff
      have hgone : j.descendant [TRIPOD_CACHE, ns] = none := by
        rw [← Option.not_isSome_iff_eq_none, ← hiff]
        exact Bool.false_ne_true
      rw [hcpp, hgone, Option.none_or]
      have hsame : SameOwner md5 order before c j key ns ↔
          ∀ b, lastSeen before ns = some b → childNames b = [] := by
        refine ⟨fun h => h.gone (hdesc.trans ha), fun h => ⟨fun a b ha' => ?_, fun _ => h⟩⟩
        rw [hdesc, ha] at ha'
        cases ha'
      rw [hsame]
      cases hlast : lastSeen before ns with
      | none => exact iff_of_true rfl fun b hb => by cases hb
      | some b =>
          rw [Option.map_some]
          dsimp only [Option.map_none]
          rw [eq_comm, Java.get_named_eq_none_iff horder]
          exact ⟨fun h b' hb' => Option.some.inj hb' ▸ h, fun h => h b rfl⟩
  | some a =>
      rw [ha] at hcpp
      obtain ⟨clients, hfind, hnames, hnode⟩ := hcpp
      rw [hdesc, ha] at hiff
      obtain ⟨b, hb⟩ := Option.isSome_iff_exists.mp (hiff.mp rfl)
      have hnodes := hcache.nodes (ns, a) (OrdMap.findEntry_mem ha)
      have hmem : ∀ x, x ∈ clients.entries.map Prod.fst ↔
          x ∈ (order (javaClients b)).map Prod.fst := by
        intro x
        rw [hnames, hlatest.nodes ns a b (hdesc.trans ha) hb x, ((horder _).map Prod.fst).mem_iff,
          javaClients, List.map_map]
        simp [Function.comp_def]
      have hagree := get_agree_iff md5 hkey hnode (by
          intro e he
          have hx : e.1 ∈ childNames a := hnames ▸ List.mem_map.mpr ⟨e, he, rfl⟩
          exact (hnodes.hosts e.1 hx).zero_not_mem)
        (fun e he => mem_javaClients ((horder _).mem_iff.mp he)) hmem
      rw [hfind, hb, Option.some_or, Option.map_some]
      dsimp only
      rw [hagree, hnames]
      have hsame : SameOwner md5 order before c j key ns ↔
          SameAtPoint md5 key (childNames a) (iterated order b) := by
        refine ⟨fun h => h.present a b (hdesc.trans ha) hb, fun h => ⟨?_, ?_⟩⟩
        · intro a' b' ha' hb'
          obtain rfl : a = a' := Option.some.inj ((hdesc.trans ha).symm.trans ha')
          obtain rfl : b = b' := Option.some.inj (hb.symm.trans hb')
          exact h
        · intro hnone
          rw [hdesc, ha] at hnone
          cases hnone
      exact hsame.symm

/-! ### A namespace that is gone -/

/-- A configuration of the namespaces that are given. -/
def cacheTree (namespaces : List (String × ConfigData)) : ConfigData :=
  .mk "" [] [(TRIPOD_CACHE, .mk TRIPOD_CACHE [] namespaces)]

/-- One namespace with the nodes that are given. -/
def userSpace (nodes : List String) : ConfigData :=
  cacheTree [("user", .mk "user" [] (nodes.map fun x => (x, .mk x [] [])))]

/-- A hash function that sends everything to one point. -/
def flat : MD5 := fun _ _ => 0

theorem published_none : Published (cacheTree []) (cacheTree []) where
  cpp := ⟨_, rfl, ⟨List.Pairwise.nil, fun e he => absurd he List.not_mem_nil,
    fun e he => absurd he List.not_mem_nil⟩⟩
  java := ⟨_, rfl, ⟨List.nodup_nil, fun e he => absurd he List.not_mem_nil⟩⟩
  namespaces := fun _ => Iff.rfl
  nodes := by
    intro ns a b ha
    rw [ConfigData.descendant_two] at ha
    cases ha

/-- Both languages see the namespace as it is. -/
theorem published_userSpace {nodes : List String} (hsorted : nodes.Pairwise (· < ·))
    (hnamed : ∀ x ∈ nodes, WellNamed x) : Published (userSpace nodes) (userSpace nodes) := by
  have hnames : ∀ e ∈ [("user", ConfigData.mk "user" [] (nodes.map fun x => (x, .mk x [] [])))],
      childNames e.2 = nodes := by
    intro e he
    rw [List.mem_singleton.mp he]
    simp [childNames, ConfigData.childrenDatas, Function.comp_def]
  refine ⟨⟨_, rfl, ⟨List.pairwise_singleton _ _, ?_, ?_⟩⟩,
    ⟨_, rfl, ⟨List.pairwise_singleton _ _, fun e he => hnames e he ▸ hnamed⟩⟩, fun _ => Iff.rfl, ?_⟩
  · intro e he
    rw [List.mem_singleton.mp he]
    rfl
  · intro e he
    refine ⟨hnames e he ▸ hsorted, ?_, hnames e he ▸ hnamed⟩
    rw [List.mem_singleton.mp he]
    intro e' he'
    obtain ⟨x, -, rfl⟩ := List.mem_map.mp he'
    rfl
  · intro ns a b ha hb x
    rw [Option.some.inj (ha.symm.trans hb)]

theorem wellNamed_a : WellNamed "a:1" :=
  ⟨[97], 1, by decide +kernel, by decide, by decide, by decide, by decide⟩

theorem published_one : Published (userSpace ["a:1"]) (userSpace ["a:1"]) :=
  published_userSpace (List.pairwise_singleton _ _) fun _ hx => List.mem_singleton.mp hx ▸ wellNamed_a

/-- A hash function that looks at the first byte only. -/
def byFirst : MD5 := fun text _ => text.headD 0

/-- Two nodes on two points: both languages name the node whose point follows the key's, in whichever
order Java iterates them. -/
theorem getPrx_agree_two :
    let cpp := cppAfter byFirst ([cacheTree []] ++ [userSpace ["a:1", "b:1"]])
    let java := fun order => javaAfter byFirst order ([userSpace ["a:1"]] ++ [userSpace ["a:1", "b:1"]])
    (cpp.getPrx byFirst (ascii "b") "user").map Cpp.MemcachedClientPool.node = some (ascii "b:1") ∧
      (cpp.getPrx byFirst (ascii "k") "user").map Cpp.MemcachedClientPool.node = some (ascii "a:1") ∧
      (cpp.getPrx byFirst (ascii "b") "user").map Cpp.MemcachedClientPool.node =
        ((java List.reverse).getPrx byFirst (ascii "b") "user").named ∧
      (cpp.getPrx byFirst (ascii "k") "user").map Cpp.MemcachedClientPool.node =
        ((java id).getPrx byFirst (ascii "k") "user").named := by
  have hb : WellNamed "b:1" := ⟨[98], 1, by decide +kernel, by decide, by decide, by decide, by decide⟩
  have htwo : Published (userSpace ["a:1", "b:1"]) (userSpace ["a:1", "b:1"]) := by
    apply published_userSpace (by decide)
    intro x hx
    rcases List.mem_pair.mp hx with rfl | rfl
    exacts [wellNamed_a, hb]
  have hbefore : ∀ j ∈ [userSpace ["a:1"]], ∃ k, j.child TRIPOD_CACHE = some k ∧ JavaCache k :=
    fun j hj => List.mem_singleton.mp hj ▸ published_one.java
  -- a point that one node wants is not one of the other's
  have hpoint : ∀ p x, x ∈ ["a:1", "b:1"] → Wants byFirst p x = true →
      ["a:1", "b:1"].find? (Wants byFirst p) = ["b:1", "a:1"].find? (Wants byFirst p) := by
    have hall : ∀ p ∈ Java.points byFirst "a:1" ++ Java.points byFirst "b:1",
        ["a:1", "b:1"].find? (Wants byFirst p) = ["b:1", "a:1"].find? (Wants byFirst p) := by
      decide +kernel
    intro p x hx hp
    apply hall
    rw [List.mem_append]
    rcases List.mem_pair.mp hx with rfl | rfl
    exacts [.inl (of_decide_eq_true hp), .inr (of_decide_eq_true hp)]
  refine ⟨by decide +kernel, by decide +kernel, ?_, ?_⟩
  · refine (getPrx_agree_iff byFirst (fun l => List.reverse_perm l) _ hbefore htwo (by decide)
      "user").mpr ⟨?_, fun hgone => ?_⟩
    · intro a b ha hb p _
      cases ha
      cases hb
      rfl
    · cases hgone
  · refine (getPrx_agree_iff byFirst (fun l => List.Perm.refl l) _ hbefore htwo (by decide)
      "user").mpr ⟨?_, fun hgone => ?_⟩
    · intro a b ha hb p hp
      cases ha
      cases hb
      obtain ⟨x, hx, hwants⟩ := hp.1
      exact hpoint p x hx hwants
    · cases hgone

/-- A namespace is published and then removed: in C++ no node is named for its keys any more, in
Java still the node that it had. -/
theorem removed_namespace_kept :
    Published (userSpace ["a:1"]) (userSpace ["a:1"]) ∧ Published (cacheTree []) (cacheTree []) ∧
      ((cppAfter flat [userSpace ["a:1"], cacheTree []]).getPrx flat (ascii "k") "user").map
          Cpp.MemcachedClientPool.node = none ∧
      ((javaAfter flat id [userSpace ["a:1"], cacheTree []]).getPrx flat (ascii "k")
        "user").named = some (ascii "a:1") :=
  ⟨published_one, published_none, by decide +kernel, by decide +kernel⟩

/-- Two nodes on one point: C++ names the first, Java the last that it iterates. -/
example :
    ((cppAfter flat [userSpace ["a:1", "b:1"]]).getPrx flat (ascii "k") "user").map
        Cpp.MemcachedClientPool.node = some (ascii "a:1") ∧
      ((javaAfter flat id [userSpace ["a:1", "b:1"]]).getPrx flat (ascii "k") "user").named =
        some (ascii "b:1") := by
  decide +kernel

end Oce.Tripod
