import Oce.Buddy.Model.BuddyList

/-!
# The bit filter against the lists

A byte of the table is read only behind its index, so a table of the right length never throws,
and a bit that is set stays set. So where there is a table it has the bit of every user of the
lists, and a lookup that the table turns away would have found nothing. Where there are too many
friends for a table, every lookup is turned away.
-/

set_option autoImplicit false

namespace Oce.Buddy

open Oce.Base

variable {r : BuddyRelation} {index : Byte} {prime : ℕ} {table table' : List Byte} {id : ℕ}

/-! ## Searches -/

theorem findSeq_iff {x : ℤ} {s : AscSeq ℤ} : findSeq x s = true ↔ x ∈ s := by
  unfold findSeq
  rw [decide_eq_true_eq]
  exact AscSeq.head?_lowerBound s.sorted

theorem mem_hashed {x : ℤ} : x ∈ r.hashed ↔ x ∈ r.friends ∨ x ∈ r.apply ∨ x ∈ r.applied ∨
    x ∈ r.block ∨ x ∈ r.blocked ∨ x ∈ r.biblock := by
  unfold BuddyRelation.hashed
  simp [AscSeq.mem_def]

/-- A user in none of the lists has no relation. -/
theorem getDesc_of_not_mem {x : ℤ} (h : x ∉ r.hashed) : r.getDesc x = .noPath := by
  have hnone : ∀ s : AscSeq ℤ, x ∉ s → findSeq x s = false := by
    intro s hs
    rw [Bool.eq_false_iff, ne_eq, findSeq_iff]
    exact hs
  rw [mem_hashed] at h
  simp only [not_or] at h
  obtain ⟨hfriends, happly, happlied, hblock, hblocked, hbiblock⟩ := h
  unfold BuddyRelation.getDesc
  simp [hnone _ hfriends, hnone _ happly, hnone _ happlied, hnone _ hblock, hnone _ hblocked,
    hnone _ hbiblock]

/-- An `int` comes back from the `uint32_t` it was made. -/
theorem ofUInt32_toUInt32 {n : ℤ} (h : IsInt n) : ofUInt32 (toUInt32 n) = n := by
  obtain ⟨hlo, hhi⟩ := h
  have hcast : ((toUInt32 n : ℕ) : ℤ) = n % 2 ^ 32 :=
    Int.toNat_of_nonneg (Int.emod_nonneg _ (by decide))
  unfold ofUInt32 asInt
  rw [hcast, show (2 : ℤ) ^ 32 = ((2 ^ 32 : ℕ) : ℤ) from rfl, Int.emod_bmod]
  exact Int.bmod_eq_of_le (by omega) (by omega)

/-! ## The bits of the table -/

/-- The bit of an offset. -/
def bitAt (table : List Byte) (offset : ℕ) : Bool :=
  (table[offset / 8]?).any fun byte => byte &&& bitOf (offset % 8) ≠ 0

theorem bitOf_ne_zero : ∀ {k : ℕ}, k < 8 → bitOf k ≠ 0 := by decide

theorem or_and_distrib (a b c : Byte) : (a ||| b) &&& c = (a &&& c) ||| (b &&& c) := by
  apply UInt8.toBitVec_inj.mp
  ext i
  simp [Bool.and_or_distrib_right]

/-- A byte with a bit set has the bits that it had, and that one. -/
theorem or_and_ne_zero {a b c : Byte} (h : a &&& c ≠ 0 ∨ b = c ∧ c ≠ 0) : (a ||| b) &&& c ≠ 0 := by
  rw [or_and_distrib, ne_eq, UInt8.or_eq_zero_iff, not_and_or]
  refine h.imp id ?_
  rintro ⟨rfl, hc⟩
  rwa [UInt8.and_self]

/-- What setting a bit leaves. -/
theorem setBit_spec (hprime : primeArray[index.toNat]? = some prime) (hpos : 0 < prime)
    (hlen : table.length = prime / 8 + 1) (id : ℕ) :
    ∃ table', setBit id table index = some table' ∧ table'.length = prime / 8 + 1 ∧
      bitAt table' (id % prime) = true ∧ ∀ o, bitAt table o = true → bitAt table' o = true := by
  have hmod := Nat.mod_lt id hpos
  have hlt : id % prime / 8 < table.length := by omega
  obtain ⟨byte, hbyte⟩ : ∃ byte, table[id % prime / 8]? = some byte := ⟨_, List.getElem?_eq_getElem hlt⟩
  refine ⟨table.set (id % prime / 8) (byte ||| bitOf (id % prime % 8)), ?_, ?_, ?_, ?_⟩
  · unfold setBit
    simp [hprime, hbyte]
  · rw [List.length_set, hlen]
  · unfold bitAt
    rw [List.getElem?_set_self hlt]
    simpa using or_and_ne_zero (.inr ⟨rfl, bitOf_ne_zero (by omega)⟩)
  · intro o ho
    unfold bitAt at ho ⊢
    by_cases heq : id % prime / 8 = o / 8
    · rw [← heq, hbyte] at ho
      rw [← heq, List.getElem?_set_self hlt]
      simpa using or_and_ne_zero (.inl (by simpa using ho))
    · rw [List.getElem?_set_ne heq]
      exact ho

/-- What setting the bits of all the ids leaves. -/
theorem setBits_spec (hprime : primeArray[index.toNat]? = some prime) (hpos : 0 < prime) (ids : List ℤ)
    (hlen : table.length = prime / 8 + 1) :
    ∃ table', ids.foldlM (fun t id => setBit (toUInt32 id) t index) table = some table' ∧
      table'.length = prime / 8 + 1 ∧ (∀ o, bitAt table o = true → bitAt table' o = true) ∧
      ∀ x ∈ ids, bitAt table' (toUInt32 x % prime) = true := by
  induction ids generalizing table with
  | nil => exact ⟨table, rfl, hlen, fun _ h => h, fun x hx => absurd hx List.not_mem_nil⟩
  | cons x ids ih =>
      obtain ⟨table₁, hset, hlen₁, hbit, hkeep⟩ := setBit_spec hprime hpos hlen (toUInt32 x)
      obtain ⟨table₂, hfold, hlen₂, hkeep₂, hbits⟩ := ih hlen₁
      refine ⟨table₂, ?_, hlen₂, fun o ho => hkeep₂ o (hkeep o ho), ?_⟩
      · rw [List.foldlM_cons, hset]
        exact hfold
      · intro y hy
        cases hy with
        | head => exact hkeep₂ _ hbit
        | tail _ hy => exact hbits y hy

/-- A lookup in a table of the right length finds the bit of the id. -/
theorem findHash_eq (hprime : primeArray[index.toNat]? = some prime) (hpos : 0 < prime)
    (hindex : index ≠ 0xFF) (hlen : table.length = prime / 8 + 1) (id : ℕ) :
    findHash id table index = some (bitAt table (id % prime)) := by
  have hmod := Nat.mod_lt id hpos
  have hlt : id % prime / 8 < table.length := by omega
  have hne : table ≠ [] := by
    rintro rfl
    cases hlen
  unfold findHash bitAt
  simp [hne, hindex, hprime, List.getElem?_eq_getElem hlt]

/-! ## The size classes -/

theorem getPrimeNum_eq_iff (num : ℕ) : getPrimeNum num = 0xFF ↔ 500 ≤ num := by
  unfold getPrimeNum
  split_ifs <;> simp <;> omega

/-- Every class but the last has its prime. -/
theorem primeArray_getPrimeNum {num : ℕ} (h : num < 500) :
    ∃ prime, primeArray[(getPrimeNum num).toNat]? = some prime ∧ 0 < prime := by
  unfold getPrimeNum
  split_ifs
  · exact ⟨431, rfl, by decide⟩
  · exact ⟨761, rfl, by decide⟩
  · exact ⟨1103, rfl, by decide⟩
  · exact ⟨131, rfl, by decide⟩
  · exact ⟨71, rfl, by decide⟩
  · exact ⟨29, rfl, by decide⟩

/-! ## The answers -/

/-- For a user's id, the list with its table answers what a search of the six lists does. -/
def SameAnswers (r : BuddyRelation) (id : ℤ) : Prop :=
  ∃ l, BuddyList.create r = some l ∧
    (∀ hit total, (l.getDesc (toUInt32 id) hit total).map Prod.fst = some (r.getDesc id)) ∧
    l.isFriend (toUInt32 id) = some (findSeq id r.friends)

/-- Where there is a table, it has the bit of every user of the lists. -/
theorem create_of_lt (h : r.friends.vals.length % 2 ^ 32 < 500) :
    ∃ l, BuddyList.create r = some l ∧ l.hbr = r ∧
      ∃ found : ℕ → Bool, (∀ id, findHash id l.hlittlehash l.hindex = some (found id)) ∧
        ∀ x ∈ r.hashed, found (toUInt32 x) = true := by
  obtain ⟨prime, hprime, hpos⟩ := primeArray_getPrimeNum h
  have hindex : getPrimeNum (r.friends.vals.length % 2 ^ 32) ≠ 0xFF := by
    rw [ne_eq, getPrimeNum_eq_iff]
    omega
  have hnew : (List.replicate (prime / 8 + 1) (0 : Byte)).length = prime / 8 + 1 := List.length_replicate
  obtain ⟨table, hfold, hlen, -, hbits⟩ := setBits_spec hprime hpos r.hashed hnew
  refine ⟨⟨r, table, getPrimeNum (r.friends.vals.length % 2 ^ 32)⟩, ?_, rfl,
    fun id => bitAt table (id % prime), ?_, hbits⟩
  · have hinit : initHash r = some (table, getPrimeNum (r.friends.vals.length % 2 ^ 32)) := by
      unfold initHash
      dsimp only
      rw [if_neg hindex, hprime]
      change Option.bind (List.foldlM _ _ r.hashed) _ = _
      rw [hfold]
      rfl
    unfold BuddyList.create
    rw [hinit]
    rfl
  · exact findHash_eq hprime hpos hindex hlen

theorem sameAnswers_of_lt (h : r.friends.vals.length % 2 ^ 32 < 500) {id : ℤ} (hid : IsInt id) :
    SameAnswers r id := by
  obtain ⟨l, hcreate, hbr, found, hfound, hbits⟩ := create_of_lt h
  refine ⟨l, hcreate, fun hit total => ?_, ?_⟩
  · unfold BuddyList.getDesc
    rw [hfound, hbr, ofUInt32_toUInt32 hid]
    by_cases hbit : found (toUInt32 id) = true
    · simp [hbit]
    · have hnot : id ∉ r.hashed := fun hmem => hbit (hbits id hmem)
      simp [hbit, getDesc_of_not_mem hnot]
  · unfold BuddyList.isFriend
    rw [hfound, hbr, ofUInt32_toUInt32 hid]
    by_cases hbit : found (toUInt32 id) = true
    · simp [hbit]
    · have hnot : findSeq id r.friends = false := by
        rw [Bool.eq_false_iff, ne_eq, findSeq_iff]
        exact fun hmem => hbit (hbits id (mem_hashed.mpr (.inl hmem)))
      simp [hbit, hnot]

/-- Without a table no friend is one. -/
theorem not_sameAnswers_of_le (h : 500 ≤ r.friends.vals.length % 2 ^ 32) {id : ℤ} (hid : id ∈ r.friends) :
    ¬SameAnswers r id := by
  rintro ⟨l, hcreate, -, hfriend⟩
  have hl : l = ⟨r, [], 0xFF⟩ := by
    have hinit : initHash r = some ([], 0xFF) := by
      unfold initHash
      dsimp only
      rw [(getPrimeNum_eq_iff _).mpr h, if_pos rfl]
    unfold BuddyList.create at hcreate
    rw [hinit] at hcreate
    exact (Option.some.inj hcreate).symm
  rw [hl, findSeq_iff.mpr hid] at hfriend
  unfold BuddyList.isFriend findHash at hfriend
  simp at hfriend

/-- All ids of the lists are `int`s. -/
def BuddyRelation.Ints (r : BuddyRelation) : Prop := ∀ x ∈ r.hashed, IsInt x

instance (r : BuddyRelation) : Decidable r.Ints :=
  inferInstanceAs (Decidable (∀ x ∈ r.hashed, IsInt x))

/-- **The filter has no false negatives, as long as there is one.** -/
theorem sameAnswers_iff (r : BuddyRelation) (hints : r.Ints) :
    (∀ id, IsInt id → SameAnswers r id) ↔ r.friends.vals.length % 2 ^ 32 < 500 := by
  refine ⟨fun hsame => ?_, fun h id hid => sameAnswers_of_lt h hid⟩
  by_contra hle
  have hpos : 0 < r.friends.vals.length := by
    by_contra hzero
    rw [Nat.eq_zero_of_not_pos hzero] at hle
    exact hle (by decide)
  have hmem : r.friends.vals[0] ∈ r.friends := List.getElem_mem hpos
  exact not_sameAnswers_of_le (by omega) hmem (hsame _ (hints _ (mem_hashed.mpr (.inl hmem))))

/-- A user with friends, an applicant and someone it blocks. -/
def sociable : BuddyRelation :=
  { BuddyRelation.empty with
    friends := ⟨[3, 9, 123456789], by decide⟩
    applied := ⟨[7], by decide⟩
    block := ⟨[-2], by decide⟩ }

/-- The filter lets the users of the lists through and stops the stranger, and the answers are those
of the lists. -/
theorem sameAnswers_iff_sociable : (∀ id, IsInt id → SameAnswers sociable id) ∧
    (BuddyList.create sociable).map (fun l =>
      ([9, 7, 2 ^ 32 - 2, 8].map fun id => findHash id l.hlittlehash l.hindex,
        [9, 7, 2 ^ 32 - 2, 8].map fun id => l.isFriend id,
        [9, 7, 2 ^ 32 - 2, 8].map fun id => (l.getDesc id 0 0).map Prod.fst)) =
      some ([some true, some true, some true, some false],
        [some true, some false, some false, some false],
        [some .friend, some .applied, some .block, some .noPath]) :=
  ⟨(sameAnswers_iff sociable (by decide)).mpr (by decide), by decide +kernel⟩

/-- A user whose friends are the users from 0 to 499. -/
def crowded : BuddyRelation :=
  { BuddyRelation.empty with
    friends := ⟨(List.range 500).map Int.ofNat,
      List.pairwise_lt_range.map _ fun _ _ h => Int.ofNat_lt.mpr h⟩ }

/-- Five hundred friends are strangers. -/
theorem crowded_strangers : ¬∀ id, IsInt id → SameAnswers crowded id := by
  intro h
  have hlen : crowded.friends.vals.length = 500 := by simp [crowded]
  have hmem : (7 : ℤ) ∈ crowded.friends := by
    unfold crowded
    rw [AscSeq.mem_def, List.mem_map]
    exact ⟨7, by simp, rfl⟩
  have hmany : 500 ≤ crowded.friends.vals.length % 2 ^ 32 := by omega
  exact not_sameAnswers_of_le hmany hmem (h 7 (by decide))

end Oce.Buddy
