import Oce.MemcProxy.Analysis.Requests

/-!
# One node for all commands on a key

A get, a set and an append are sent to the node of the key, a delete to the node of the key
followed by ` 0`, which the parser leaves in the key of a delete. The two texts name the
same cluster, so it is the places of the two on its ring that must have one node.
-/

set_option autoImplicit false

namespace Oce.MemcProxy

open Oce.Base

variable (cl : Clusters)

/-- The get for `keys` asks endpoint `e` for `key`, and no other. -/
def GetSentTo (keys : List (List Byte)) (key : List Byte) (e : Endpoint) : Prop :=
  (∃ line, (e, line) ∈ routed cl (MemcachedClient.get keys) ∧ key ∈ keysAsked line) ∧
    ∀ e' line, (e', line) ∈ routed cl (MemcachedClient.get keys) → key ∈ keysAsked line → e' = e

/-- All commands on a key reach one node: each is parsed and sent to it as it is, a get with
whatever other keys it asks for. -/
def SameNode (key : List Byte) : Prop :=
  ∃ e, (∀ keys, key ∈ keys → (∀ k ∈ keys, PlainKey k) → GetSentTo cl keys key e) ∧
    (∀ value flags timeout, routed cl (MemcachedClient.set key value flags timeout) =
      [(e, MemcachedClient.set key value flags timeout)]) ∧
    (∀ value flags, routed cl (MemcachedClient.append key value flags) =
      [(e, MemcachedClient.append key value flags)]) ∧
    routed cl (MemcachedClient.delete key) = [(e, MemcachedClient.delete key)]

/-- Two texts have the same node, each on the ring that it names. -/
def SamePlace (key key' : List Byte) : Prop :=
  (cl.continuumOf key).locateHash (doobsHash key) = (cl.continuumOf key').locateHash (doobsHash key')

instance (key key' : List Byte) : Decidable (SamePlace cl key key') :=
  inferInstanceAs (Decidable (_ = _))

/-- The key is not empty, as far as its first zero byte, and its node is that of the text before
the zero byte and of this text followed by ` 0`. -/
def RingAgrees (key : List Byte) : Prop :=
  cString key ≠ [] ∧ SamePlace cl (cString key) key ∧ SamePlace cl (cString key ++ ascii " 0") key

/-- A get sends a key to the node of the key alone. -/
theorem getSentTo_iff {keys : List (List Byte)} {key : List Byte} (hmem : key ∈ keys)
    (h : ∀ k ∈ keys, PlainKey k) (hne : key ≠ []) (e : Endpoint) :
    GetSentTo cl keys key e ↔ e = getEndpointByKey cl key := by
  have hkeys : keys ≠ [] := List.ne_nil_of_mem hmem
  have hasked : ∀ {e' line}, (e', line) ∈ routed cl (MemcachedClient.get keys) →
      (key ∈ keysAsked line ↔ getEndpointByKey cl key = e') := by
    intro e' line hline
    obtain ⟨ks, hks, hksne, rfl⟩ := (mem_routed_get cl h hkeys).mp hline
    have hplain : ∀ k ∈ ks, PlainKey k := by
      intro k hk
      rw [hks] at hk
      exact h k (List.mem_of_mem_filter (List.mem_of_mem_filter hk))
    rw [(parserHead_get hplain hksne).2.2, List.mem_filter, hks, List.mem_filter, List.mem_filter]
    simp [hmem, hne]
  have hsent : ∃ line, (getEndpointByKey cl key, line) ∈ routed cl (MemcachedClient.get keys) := by
    have hin : key ∈ (keys.filter (· ≠ [])).filter fun k => getEndpointByKey cl k = getEndpointByKey cl key := by
      rw [List.mem_filter, List.mem_filter]
      simp [hmem, hne]
    exact ⟨_, (mem_routed_get cl h hkeys).mpr ⟨_, rfl, List.ne_nil_of_mem hin, rfl⟩⟩
  constructor
  · rintro ⟨⟨line, hline, hkey⟩, -⟩
    exact ((hasked hline).mp hkey).symm
  · rintro rfl
    obtain ⟨line, hline⟩ := hsent
    exact ⟨⟨line, hline, (hasked hline).mpr rfl⟩, fun e' line' hline' hkey' =>
      ((hasked hline').mp hkey').symm⟩

/-- **All commands on a key reach the same node**, exactly when the ring has one node for the key
and for what a delete looks up. -/
theorem sameNode_iff (key : List Byte) (h : PlainKey key) : SameNode cl key ↔ RingAgrees cl key := by
  constructor
  · rintro ⟨e, hget, hset, -, hdelete⟩
    have hset₀ := hset [] 0 0
    rw [routed_set cl [] h] at hset₀
    rw [routed_delete cl h] at hdelete
    have hcstr : cString key ≠ [] := by
      intro hnil
      rw [if_pos hnil] at hset₀
      cases hset₀
    rw [if_neg hcstr] at hset₀
    have hne : key ≠ [] := by
      rintro rfl
      exact hcstr rfl
    have heset : getEndpointByKey cl (cString key) = e := by
      injection hset₀ with hhead
      exact congrArg Prod.fst hhead
    have hedelete : getEndpointByKey cl (cString key ++ ascii " 0") = e := by
      injection hdelete with hhead
      exact congrArg Prod.fst hhead
    have heget : e = getEndpointByKey cl key := by
      apply (getSentTo_iff cl (List.mem_singleton.mpr rfl) _ hne e).mp
      · apply hget [key] (List.mem_singleton.mpr rfl)
        simpa using h
      · simpa using h
    exact ⟨hcstr, heset.trans heget, hedelete.trans heget⟩
  · rintro ⟨hcstr, hset, hdelete⟩
    have hne : key ≠ [] := by
      rintro rfl
      exact hcstr rfl
    have hset' : getEndpointByKey cl (cString key) = getEndpointByKey cl key := hset
    have hdelete' : getEndpointByKey cl (cString key ++ ascii " 0") = getEndpointByKey cl key := hdelete
    refine ⟨getEndpointByKey cl key, ?_, ?_, ?_, ?_⟩
    · intro keys hmem hplain
      exact (getSentTo_iff cl hmem hplain hne _).mpr rfl
    · intro value flags timeout
      rw [routed_set cl value h, if_neg hcstr, hset']
    · intro value flags
      rw [routed_append cl value h, if_neg hcstr, hset']
    · rw [routed_delete cl h, hdelete']

/-! ## The cluster of a delete -/

/-- What follows the key of a delete does not change the cluster. -/
theorem continuumOf_append {key rest : List Byte} (h : (35 : Byte) ∉ rest) :
    cl.continuumOf (key ++ rest) = cl.continuumOf key := by
  unfold Clusters.continuumOf
  cases hk : key.idxOf? 35 with
  | none =>
      have hnot : (35 : Byte) ∉ key ++ rest := by
        rw [List.mem_append, not_or]
        exact ⟨List.idxOf?_eq_none_iff.mp hk, h⟩
      rw [List.idxOf?_eq_none_iff.mpr hnot]
  | some pos =>
      obtain ⟨hlt, hpos, hbefore⟩ := List.idxOf?_eq_some_iff.mp hk
      have happ : (key ++ rest).idxOf? 35 = some pos := by
        rw [List.idxOf?_eq_some_iff]
        refine ⟨by rw [List.length_append]; omega, ?_, fun j hj => ?_⟩
        · rw [List.getElem_append_left hlt]
          exact hpos
        · rw [List.getElem_append_left (by omega)]
          exact hbefore j hj
      have htake : (key ++ rest).take pos = key.take pos := List.take_append_of_le_length (by omega)
      simp only [happ, htake]

/-- For a key without zero bytes the condition is about two places of one ring. -/
theorem ringAgrees_iff {key : List Byte} (hzero : (0 : Byte) ∉ key) :
    RingAgrees cl key ↔ key ≠ [] ∧
      (cl.continuumOf key).locateHash (doobsHash (key ++ ascii " 0")) =
        (cl.continuumOf key).locateHash (doobsHash key) := by
  have hcluster : cl.continuumOf (key ++ ascii " 0") = cl.continuumOf key :=
    continuumOf_append cl (by decide)
  unfold RingAgrees SamePlace
  rw [cString_eq_self hzero, hcluster]
  simp

/-! ## Two nodes -/

/-- A ring with one point for each of the given nodes. -/
def ringOf (nodes : OrdMap Endpoint ℕ)
    (h : (cachePointsOf nodes).Pairwise fun p q => p.hashPoint ≤ q.hashPoint) : Continuum :=
  ⟨nodes, cachePointsOf nodes, .refl _, h⟩

/-- Clusters that all have one ring. -/
def oneRing (c : Continuum) : Clusters := ⟨c, fun _ => none⟩

def twoNodes : Continuum :=
  ringOf (OrdMap.insert (OrdMap.insert .empty (toLex (1, 1)) 1) (toLex (2, 1)) 1) (by decide +kernel)

/-- With two nodes the key `c` and what a delete of it looks up have different hashes, both before
the first point, so that all commands reach the node of that point. -/
theorem sameNode_iff_twoNodes :
    doobsHash (ascii "c 0") ≠ doobsHash (ascii "c") ∧
      getEndpointByKey (oneRing twoNodes) (ascii "c") ≠ getEndpointByKey (oneRing twoNodes) (ascii "f") ∧
      SameNode (oneRing twoNodes) (ascii "c") := by
  refine ⟨by decide +kernel, by decide +kernel,
    (sameNode_iff (oneRing twoNodes) (ascii "c") ⟨?_, ?_, ?_⟩).mpr ⟨?_, ?_, ?_⟩⟩ <;> decide +kernel

/-- With two nodes the key `d` is set on one and deleted on the other. -/
theorem delete_elsewhere : ¬ ∀ (cl : Clusters) (key : List Byte), PlainKey key → SameNode cl key := by
  intro hall
  have hplain : PlainKey (ascii "d") := ⟨by decide, by decide, by decide⟩
  obtain ⟨e, -, hset, -, hdelete⟩ := hall (oneRing twoNodes) (ascii "d") hplain
  have heset := hset [] 0 0
  rw [routed_set _ [] hplain, if_neg (by decide)] at heset
  rw [routed_delete _ hplain] at hdelete
  have hsame : getEndpointByKey (oneRing twoNodes) (cString (ascii "d")) =
      getEndpointByKey (oneRing twoNodes) (cString (ascii "d") ++ ascii " 0") := by
    injection heset with hhead
    injection hdelete with hhead'
    exact (congrArg Prod.fst hhead).trans (congrArg Prod.fst hhead').symm
  revert hsame
  decide +kernel

end Oce.MemcProxy
