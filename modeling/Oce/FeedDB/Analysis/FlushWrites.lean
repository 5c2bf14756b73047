import Mathlib.Data.List.Pairwise
import Oce.FeedDB.Analysis.StoreSteps
import Oce.FeedDB.Model.DataFile

/-!
# Flush writes what it marks clean

The loop of `Flush` hands over, in ascending order, the dirty blocks of the range that are in
memory, and clears their bits and no others (`mem_flushLoop`, `dirty_flushLoop`). The executor's
requests cover byte `o` of the file as often as the list has a block at `o / BLOCKSIZE - 1`
(`countP_execute`), whatever runs and batches the list falls into, and what a request puts there
is that byte of that block (`value_execute`).

More blocks than the buffer holds are refused as a whole, after their bits were cleared; a
`flush_count_cfg` from 17000 on allows for that.
-/

set_option autoImplicit false

namespace Oce.FeedDB

open Oce.Base

variable {caches : List CachedBlock} {p : Patch UInt8} {f : DataFile} {i j k index count : ℕ}
  {c : CachedBlock}

/-! ## The executor -/

namespace IOExecutor

theorem blockSize_pos : 0 < blockSize := by decide

/-- The blocks of a run have consecutive indexes. -/
theorem index_of_run {prev k : ℕ} {rest : List CachedBlock} (h : k < runLength prev rest) :
    ∃ cache, rest[k]? = some cache ∧ cache.index = prev + 1 + k := by
  induction rest generalizing prev k with
  | nil => exact absurd h (Nat.not_lt_zero k)
  | cons cache rest ih =>
      rw [runLength] at h
      split at h
      · exact absurd h (Nat.not_lt_zero k)
      · rename_i hnext
        have hindex : cache.index = prev + 1 := not_not.mp hnext
        cases k with
        | zero => exact ⟨cache, rfl, hindex⟩
        | succ k =>
            obtain ⟨c, hc, hci⟩ := @ih cache.index k (by omega)
            exact ⟨c, hc, by omega⟩

/-- How often a run has a block that lies at `q` blocks of the file. -/
theorem countP_run (prev q : ℕ) (rest : List CachedBlock) :
    (rest.take (runLength prev rest)).countP (fun cache => cache.index + 1 = q) =
      if prev + 2 ≤ q ∧ q < prev + 2 + runLength prev rest then 1 else 0 := by
  induction rest generalizing prev with
  | nil =>
      rw [if_neg (by simp only [runLength]; omega)]
      rfl
  | cons cache rest ih =>
      rw [runLength]
      by_cases hnext : cache.index ≠ prev + 1
      · rw [if_pos hnext, if_neg (by omega)]
        rfl
      · have hindex : cache.index = prev + 1 := not_not.mp hnext
        rw [if_neg hnext, List.take_succ_cons, List.countP_cons, ih, hindex]
        simp only [decide_eq_true_eq]
        split_ifs <;> omega

/-- The requests of the blocks from place `i` on. -/
def runs : ℕ → ℕ → List CachedBlock → List Iocb
  | fuel + 1, i, cache :: rest => prepare i cache rest ::
      runs fuel (i + (runLength cache.index rest + 1)) (rest.drop (runLength cache.index rest))
  | _, _, _ => []

/-- The batches hold the requests, each once, in their order. -/
theorem flatten_executeLoop (fuel i : ℕ) (rest : List CachedBlock) (iocbSeq : List Iocb)
    (hfuel : rest.length ≤ fuel) (hlast : rest = [] → iocbSeq = []) :
    (executeLoop fuel i rest iocbSeq).flatten = iocbSeq ++ runs fuel i rest := by
  induction fuel generalizing i rest iocbSeq with
  | zero =>
      obtain rfl := List.length_eq_zero_iff.mp (Nat.le_zero.mp hfuel)
      rw [hlast rfl]
      rfl
  | succ fuel ih =>
      cases rest with
      | nil =>
          rw [hlast rfl]
          rfl
      | cons cache rest =>
          have hle : (rest.drop (runLength cache.index rest)).length ≤ fuel := by
            rw [List.length_drop]
            rw [List.length_cons] at hfuel
            omega
          rw [executeLoop, runs]
          split
          · rw [List.flatten_cons, ih _ _ _ hle fun _ => rfl, List.nil_append, List.append_assoc]
            rfl
          · rename_i hmore
            rw [ih _ _ _ hle fun hnil => absurd (Or.inr hnil) hmore, List.append_assoc]
            rfl

/-- A request covers the bytes of the blocks of its run. -/
theorem covers_prepare (buffer : ℕ → UInt8) (i : ℕ) (cache : CachedBlock) (rest : List CachedBlock)
    (o : ℕ) : ((prepare i cache rest).patch buffer).covers o = true ↔
      cache.index + 1 ≤ o / blockSize ∧
        o / blockSize < cache.index + 1 + (runLength cache.index rest + 1) := by
  rw [Patch.covers_iff, Nat.le_div_iff_mul_le blockSize_pos, Nat.div_lt_iff_lt_mul blockSize_pos,
    Nat.add_mul (cache.index + 1)]
  rfl

/-- Each block is covered by one patch for each time it is listed. -/
theorem countP_runs (buffer : ℕ → UInt8) (o fuel i : ℕ) (rest : List CachedBlock)
    (hfuel : rest.length ≤ fuel) :
    ((runs fuel i rest).map (Iocb.patch buffer)).countP (fun p => p.covers o) =
      rest.countP fun cache => cache.index + 1 = o / blockSize := by
  induction fuel generalizing i rest with
  | zero =>
      obtain rfl := List.length_eq_zero_iff.mp (Nat.le_zero.mp hfuel)
      rfl
  | succ fuel ih =>
      cases rest with
      | nil => rfl
      | cons cache rest =>
          have hle : (rest.drop (runLength cache.index rest)).length ≤ fuel := by
            rw [List.length_drop]
            rw [List.length_cons] at hfuel
            omega
          have hrest : rest.countP (fun c => decide (c.index + 1 = o / blockSize)) =
              (rest.take (runLength cache.index rest)).countP
                (fun c => decide (c.index + 1 = o / blockSize)) +
              (rest.drop (runLength cache.index rest)).countP
                (fun c => decide (c.index + 1 = o / blockSize)) := by
            rw [← List.countP_append, List.take_append_drop]
          rw [runs, List.map_cons, List.countP_cons, ih _ _ hle, List.countP_cons, hrest, countP_run]
          simp only [covers_prepare, decide_eq_true_eq]
          split_ifs <;> omega

/-- What a request puts into a byte that it covers. -/
theorem value_runs (o fuel i : ℕ) (rest : List CachedBlock) {io : Iocb} (buffer : ℕ → UInt8)
    (hio : io ∈ runs fuel i rest) (hcovers : (io.patch buffer).covers o = true) :
    ∃ p cache, rest[p]? = some cache ∧ cache.index + 1 = o / blockSize ∧
      (io.patch buffer).value (o - (io.patch buffer).lo) =
        buffer ((i + p) * blockSize + o % blockSize) := by
  induction fuel generalizing i rest with
  | zero => exact absurd hio List.not_mem_nil
  | succ fuel ih =>
      cases rest with
      | nil => exact absurd hio List.not_mem_nil
      | cons cache rest =>
          rcases List.mem_cons.mp hio with rfl | hrest
          · rw [covers_prepare] at hcovers
            obtain ⟨t, ht⟩ := Nat.exists_eq_add_of_le hcovers.1
            have hblock : ∃ c, (cache :: rest)[t]? = some c ∧ c.index + 1 = o / blockSize := by
              cases t with
              | zero => exact ⟨cache, rfl, by omega⟩
              | succ t =>
                  obtain ⟨c, hc, hci⟩ := @index_of_run cache.index t rest (by omega)
                  exact ⟨c, hc, by omega⟩
            obtain ⟨c, hc, hci⟩ := hblock
            refine ⟨t, c, hc, hci, ?_⟩
            refine congrArg buffer ?_
            show i * blockSize + (o - (cache.index + 1) * blockSize) = _
            have hsplit := Nat.div_add_mod' o blockSize
            rw [ht, Nat.add_mul (cache.index + 1) t] at hsplit
            rw [Nat.add_mul i t]
            omega
          · obtain ⟨p, c, hc, hci, hvalue⟩ := ih _ _ hrest
            rw [List.getElem?_drop] at hc
            have hplace : i + (runLength cache.index rest + 1) + p =
                i + (runLength cache.index rest + p + 1) := by omega
            rw [hplace] at hvalue
            exact ⟨runLength cache.index rest + p + 1, c, hc, hci, hvalue⟩

/-- The bytes of the block at place `p` of the buffer. -/
theorem buffer_block {p r : ℕ} {cache : CachedBlock} (h : caches[p]? = some cache)
    (hr : r < blockSize) : buffer caches (p * blockSize + r) = cache.buf r := by
  have hdiv : (p * blockSize + r) / blockSize = p := by
    rw [Nat.add_comm, Nat.add_mul_div_right _ _ blockSize_pos, Nat.div_eq_of_lt hr, Nat.zero_add]
  have hmod : (p * blockSize + r) % blockSize = r := by
    rw [Nat.add_comm, Nat.add_mul_mod_self_right, Nat.mod_eq_of_lt hr]
  unfold buffer
  rw [hdiv, h, hmod]

/-- The buffer holds the blocks, so the executor does not refuse them. -/
def Fits (caches : List CachedBlock) : Prop := caches.length * blockSize ≤ maxBuffer

theorem flatten_execute (h : Fits caches) :
    (execute caches).flatten = runs caches.length 0 caches := by
  unfold execute
  by_cases hnil : caches = []
  · subst hnil
    rfl
  · rw [if_neg (by rintro (h' | h'); exacts [hnil h', Nat.not_lt.mpr h h']),
      flatten_executeLoop _ _ _ _ (Nat.le_refl _) fun h' => absurd h' hnil]
    rfl

theorem execute_of_not_fits (h : ¬ Fits caches) : execute caches = [] :=
  if_pos (Or.inr (Nat.not_le.mp h))

/-- **A byte of the file is written as often as the list has the block it belongs to.** -/
theorem countP_execute (h : Fits caches) (o : ℕ) :
    ((execute caches).flatten.map (Iocb.patch (buffer caches))).countP (fun p => p.covers o) =
      caches.countP fun cache => cache.index + 1 = o / blockSize := by
  rw [flatten_execute h]
  exact countP_runs _ o _ 0 caches (Nat.le_refl _)

/-- **And it is written with that byte of that block.** -/
theorem value_execute (h : Fits caches) {o : ℕ}
    (hp : p ∈ (execute caches).flatten.map (Iocb.patch (buffer caches)))
    (hcovers : p.covers o = true) :
    ∃ cache ∈ caches, cache.index + 1 = o / blockSize ∧
      p.value (o - p.lo) = cache.buf (o % blockSize) := by
  rw [flatten_execute h] at hp
  obtain ⟨io, hio, rfl⟩ := List.mem_map.mp hp
  obtain ⟨k, cache, hcache, hindex, hvalue⟩ := value_runs o _ 0 caches _ hio hcovers
  refine ⟨cache, List.mem_of_getElem? hcache, hindex, ?_⟩
  rw [hvalue, Nat.zero_add]
  exact buffer_block hcache (Nat.mod_lt _ blockSize_pos)

end IOExecutor

/-! ## The bitmap -/

namespace DataFile

theorem dirty_eq (f : DataFile) (i : ℕ) : f.dirty i = (f.dirtyBitmap (i / 8)).getLsbD (i % 8) := by
  unfold dirty
  rw [BitVec.and_twoPow]
  cases (f.dirtyBitmap (i / 8)).getLsbD (i % 8) with
  | false => simp
  | true =>
      have hbit : BitVec.twoPow 8 (i % 8) ≠ 0#8 := by
        intro h
        have hset := congrArg (fun b => b.getLsbD (i % 8)) h
        simp [Nat.mod_lt] at hset
      simp [hbit]

theorem dirty_setClean (f : DataFile) (i j : ℕ) :
    (f.setClean i).dirty j = (f.dirty j && decide (j ≠ i)) := by
  rw [dirty_eq, dirty_eq]
  unfold setClean
  dsimp only
  by_cases hbyte : j / 8 = i / 8
  · have hlt : j % 8 < 8 := Nat.mod_lt _ (by decide)
    rw [hbyte, Function.update_self]
    simp only [BitVec.getLsbD_and, BitVec.getLsbD_not, BitVec.getLsbD_twoPow, hlt, decide_true,
      Bool.true_and]
    congr 1
    by_cases hij : j = i
    · simp [hij, Nat.mod_lt]
    · have hne : i % 8 ≠ j % 8 := fun h => hij (by omega)
      simp [hij, hne]
  · have hij : j ≠ i := fun h => hbyte (by rw [h])
    rw [Function.update_of_ne hbyte]
    simp [hij]

/-! ## The loop of `Flush` -/

/-- `Flush` takes block `j`: it is a block of the file, dirty, and in memory. -/
def Flushable (f : DataFile) (j : ℕ) : Prop :=
  (j : ℤ) < blockCount ∧ f.dirty j = true ∧ (f.blocks j).isSome = true

instance (f : DataFile) (j : ℕ) : Decidable (f.Flushable j) := inferInstanceAs (Decidable (_ ∧ _))

theorem flushable_setClean (h : j ≠ i) : (f.setClean i).Flushable j ↔ f.Flushable j := by
  unfold Flushable
  rw [dirty_setClean, decide_eq_true h, Bool.and_true]
  exact Iff.rfl

/-- The blocks from index `i` on that `Flush` takes. -/
def taken (f : DataFile) (i n : ℕ) : List CachedBlock :=
  (List.range' i n).filterMap fun j =>
    if f.Flushable j then (f.blocks j).map (CachedBlock.mk j) else none

theorem taken_succ (f : DataFile) (i n : ℕ) :
    f.taken i (n + 1) = (if f.Flushable i then (f.blocks i).map (CachedBlock.mk i) else none).toList ++
      f.taken (i + 1) n := by
  have hcons : ∀ (g : ℕ → Option CachedBlock) (l : List ℕ),
      (i :: l).filterMap g = (g i).toList ++ l.filterMap g := by
    intro g l
    rw [List.filterMap_cons]
    cases g i <;> rfl
  unfold taken
  rw [List.range'_succ, hcons]

theorem taken_setClean (f : DataFile) (i n : ℕ) :
    (f.setClean i).taken (i + 1) n = f.taken (i + 1) n := by
  refine List.filterMap_congr fun j hj => ?_
  have hne : j ≠ i := by
    have hlow := (List.mem_range'_1.mp hj).1
    omega
  simp only [flushable_setClean hne]
  rfl

theorem taken_of_le (h : blockCount ≤ i) (n : ℕ) : f.taken i n = [] := by
  refine List.filterMap_eq_nil_iff.mpr fun j hj => if_neg fun hflush => ?_
  have hlow := (List.mem_range'_1.mp hj).1
  have hlt := hflush.1
  omega

theorem flushLoop_take (h : f.Flushable i) {buf : ℕ → UInt8} (hbuf : f.blocks i = some buf)
    (n : ℕ) :
    flushLoop (n + 1) i f = ((flushLoop n (i + 1) (f.setClean i)).1,
      ⟨i, buf⟩ :: (flushLoop n (i + 1) (f.setClean i)).2) := by
  rw [flushLoop, if_pos h.1, if_pos h.2.1, hbuf]

theorem flushLoop_skip (hlt : (i : ℤ) < blockCount) (h : ¬ f.Flushable i) (n : ℕ) :
    flushLoop (n + 1) i f = flushLoop n (i + 1) f := by
  rw [flushLoop, if_pos hlt]
  split
  · rename_i hdirty
    cases hbuf : f.blocks i with
    | none => rfl
    | some buf => exact absurd ⟨hlt, hdirty, by rw [hbuf]; rfl⟩ h
  · rfl

/-- What the loop does in memory: it takes the blocks and clears their bits. -/
theorem flushLoop_eq (n i : ℕ) (f : DataFile) :
    (flushLoop n i f).1.blocks = f.blocks ∧ (flushLoop n i f).1.bytes = f.bytes ∧
    (flushLoop n i f).2 = f.taken i n ∧
    ∀ j, (flushLoop n i f).1.dirty j =
      (f.dirty j && !decide (i ≤ j ∧ j < i + n ∧ f.Flushable j)) := by
  induction n generalizing i f with
  | zero =>
      refine ⟨rfl, rfl, rfl, fun j => ?_⟩
      have hout : ¬ (i ≤ j ∧ j < i + 0 ∧ f.Flushable j) := fun h => by omega
      rw [decide_eq_false hout, Bool.not_false, Bool.and_true]
      rfl
  | succ n ih =>
      have hshift : ∀ {j : ℕ} (_ : j ≠ i) (P : Prop),
          (i + 1 ≤ j ∧ j < i + 1 + n ∧ P) ↔ (i ≤ j ∧ j < i + (n + 1) ∧ P) :=
        fun hij P => and_congr (by omega) (and_congr_left' (by omega))
      by_cases hlt : (i : ℤ) < blockCount
      · rw [taken_succ]
        by_cases hflush : f.Flushable i
        · obtain ⟨buf, hbuf⟩ := Option.isSome_iff_exists.mp hflush.2.2
          obtain ⟨hblocks, hbytes, hlist, hdirty⟩ := ih (i + 1) (f.setClean i)
          rw [flushLoop_take hflush hbuf, if_pos hflush, hbuf]
          refine ⟨hblocks, hbytes, ?_, fun j => ?_⟩
          · rw [hlist, taken_setClean]
            rfl
          · rw [hdirty, dirty_setClean]
            by_cases hij : j = i
            · subst hij
              have hin : j ≤ j ∧ j < j + (n + 1) ∧ f.Flushable j := ⟨by omega, by omega, hflush⟩
              simp [hin]
            · have hiff := (hshift hij ((f.setClean i).Flushable j)).trans
                (and_congr_right' (and_congr_right' (flushable_setClean hij)))
              rw [decide_eq_true hij, Bool.and_true, decide_eq_decide.mpr hiff]
        · obtain ⟨hblocks, hbytes, hlist, hdirty⟩ := ih (i + 1) f
          rw [flushLoop_skip hlt hflush, if_neg hflush]
          refine ⟨hblocks, hbytes, hlist, fun j => ?_⟩
          have hiff : (i + 1 ≤ j ∧ j < i + 1 + n ∧ f.Flushable j) ↔
              (i ≤ j ∧ j < i + (n + 1) ∧ f.Flushable j) := by
            by_cases hij : j = i
            · subst hij
              exact iff_of_false (fun h => hflush h.2.2) fun h => hflush h.2.2
            · exact hshift hij _
          rw [hdirty, decide_eq_decide.mpr hiff]
      · rw [flushLoop, if_neg hlt, taken_of_le (not_lt.mp hlt)]
        refine ⟨rfl, rfl, rfl, fun j => ?_⟩
        have hout : ¬ (i ≤ j ∧ j < i + (n + 1) ∧ f.Flushable j) := by
          rintro ⟨hle, -, hfile, -⟩
          omega
        rw [decide_eq_false hout, Bool.not_false, Bool.and_true]

theorem mem_taken {n : ℕ} :
    c ∈ f.taken i n ↔
      i ≤ c.index ∧ c.index < i + n ∧ f.Flushable c.index ∧ f.blocks c.index = some c.buf := by
  unfold taken
  rw [List.mem_filterMap]
  constructor
  · rintro ⟨j, hj, he⟩
    obtain ⟨hlow, hhigh⟩ := List.mem_range'_1.mp hj
    split at he
    · rename_i hflush
      obtain ⟨buf, hbuf, rfl⟩ := Option.map_eq_some_iff.mp he
      exact ⟨hlow, hhigh, hflush, hbuf⟩
    · cases he
  · rintro ⟨hlow, hhigh, hflush, hbuf⟩
    refine ⟨c.index, List.mem_range'_1.mpr ⟨hlow, hhigh⟩, ?_⟩
    rw [if_pos hflush, hbuf]
    rfl

/-- The blocks are taken in ascending order. -/
theorem taken_ascending (f : DataFile) (i n : ℕ) :
    (f.taken i n).Pairwise fun c d => c.index < d.index := by
  unfold taken
  refine List.Pairwise.filterMap _ ?_ (List.pairwise_lt_range' (s := i) (n := n))
  intro j k hjk c hc d hd
  split at hc
  · split at hd
    · obtain ⟨_, _, rfl⟩ := Option.map_eq_some_iff.mp hc
      obtain ⟨_, _, rfl⟩ := Option.map_eq_some_iff.mp hd
      exact hjk
    · cases hd
  · cases hc

theorem length_taken (f : DataFile) (i n : ℕ) :
    (f.taken i n).length = (List.range' i n).countP fun j => f.Flushable j := by
  unfold taken
  rw [List.length_filterMap_eq_countP]
  refine List.countP_congr fun j _ => ?_
  by_cases hflush : f.Flushable j
  · obtain ⟨buf, hbuf⟩ := Option.isSome_iff_exists.mp hflush.2.2
    simp [hflush, hbuf]
  · simp [hflush]

/-- A block that is taken is taken once. -/
theorem countP_taken {n : ℕ} (hc : c ∈ f.taken i n) :
    (f.taken i n).countP (fun d => d.index + 1 = c.index + 1) = 1 := by
  have hasc := taken_ascending f i n
  generalize f.taken i n = l at hc hasc
  induction l with
  | nil => cases hc
  | cons d l ih =>
      obtain ⟨hd, hrest⟩ := List.pairwise_cons.mp hasc
      rw [List.countP_cons]
      rcases List.mem_cons.mp hc with rfl | hmem
      · have hzero : l.countP (fun d => d.index + 1 = c.index + 1) = 0 := by
          refine List.countP_eq_zero.mpr fun e he => ?_
          have hlt := hd e he
          simp only [decide_eq_true_eq]
          omega
        rw [hzero]
        simp
      · have hlt := hd c hmem
        rw [ih hmem hrest, if_neg (by simp only [decide_eq_true_eq]; omega)]

/-! ## Flush and the executor -/

/-- Each byte of a block is written by one of the patches, and whatever order they are written
in, the block is on disk afterwards. -/
def WrittenOnce (bytes : ℕ → UInt8) (patches : List (Patch UInt8)) (i : ℕ) (buf : ℕ → UInt8) : Prop :=
  ∀ k < blockSize, patches.countP (fun p => p.covers ((i + 1) * blockSize + k)) = 1 ∧
    ∀ order, order.Perm patches → Patch.writeAll bytes order ((i + 1) * blockSize + k) = buf k

theorem flush_eq (f : DataFile) (index count : ℕ) :
    (f.flush index count).2 = (IOExecutor.execute (f.taken index count)).flatten.map
      (Iocb.patch (IOExecutor.buffer (f.taken index count))) := by
  unfold flush
  dsimp only
  rw [(flushLoop_eq count index f).2.2.1]

/-- The place of a byte of a block in the file. -/
theorem place_of_byte (hk : k < blockSize) :
    ((i + 1) * blockSize + k) / blockSize = i + 1 ∧ ((i + 1) * blockSize + k) % blockSize = k := by
  constructor
  · rw [Nat.add_comm, Nat.add_mul_div_right _ _ IOExecutor.blockSize_pos, Nat.div_eq_of_lt hk,
      Nat.zero_add]
  · rw [Nat.add_comm, Nat.add_mul_mod_self_right, Nat.mod_eq_of_lt hk]

/-- **The executor writes every block that it gets, if its buffer holds them.** -/
theorem writtenOnce_of_fits (hfits : IOExecutor.Fits (f.taken index count))
    (hc : c ∈ f.taken index count) (bytes : ℕ → UInt8) :
    WrittenOnce bytes (f.flush index count).2 c.index c.buf := by
  intro k hk
  obtain ⟨hdiv, hmod⟩ := place_of_byte (i := c.index) hk
  have hone : (f.flush index count).2.countP
      (fun p => p.covers ((c.index + 1) * blockSize + k)) = 1 := by
    rw [flush_eq, IOExecutor.countP_execute hfits, hdiv]
    exact countP_taken hc
  refine ⟨hone, fun order horder => ?_⟩
  have hone' : order.countP (fun p => p.covers ((c.index + 1) * blockSize + k)) = 1 := by
    rw [horder.countP_eq, hone]
  obtain ⟨p, hp, hcovers⟩ := List.countP_pos_iff.mp (by omega : 0 < order.countP
    (fun p => p.covers ((c.index + 1) * blockSize + k)))
  rw [Patch.writeAll_of_covers hone' hp hcovers]
  have hp' := horder.mem_iff.mp hp
  rw [flush_eq] at hp'
  obtain ⟨d, hd, hindex, hvalue⟩ := IOExecutor.value_execute hfits hp' hcovers
  rw [hdiv] at hindex
  rw [hvalue, hmod]
  have hbuf := (mem_taken.mp hd).2.2.2
  have hsame : d.index = c.index := by omega
  rw [hsame, (mem_taken.mp hc).2.2.2] at hbuf
  rw [Option.some.inj hbuf]

/-- The blocks of the range that `Flush` takes are at most as many as the buffer holds. -/
def RangeFits (f : DataFile) (index count : ℕ) : Prop :=
  (List.range' index count).countP (fun j => f.Flushable j) * blockSize ≤ maxBuffer

/-- **`Flush` writes what it marks clean** exactly if the buffer holds the dirty blocks. -/
theorem flush_writes (f : DataFile) (index count : ℕ) :
    (∀ i, f.dirty i = true → (f.flush index count).1.dirty i = false →
      ∃ buf, f.blocks i = some buf ∧ WrittenOnce f.bytes (f.flush index count).2 i buf) ↔
    f.RangeFits index count := by
  have hlen : f.RangeFits index count ↔ IOExecutor.Fits (f.taken index count) := by
    unfold RangeFits IOExecutor.Fits
    rw [length_taken]
  have hdirty := (flushLoop_eq count index f).2.2.2
  rw [hlen]
  constructor
  · intro hwritten
    by_contra hfits
    have hnone : (f.flush index count).2 = [] := by
      rw [flush_eq, IOExecutor.execute_of_not_fits hfits]
      rfl
    obtain ⟨c, hc⟩ : ∃ c, c ∈ f.taken index count := by
      refine List.exists_mem_of_ne_nil _ fun hnil => hfits ?_
      rw [hnil]
      exact Nat.le_of_ble_eq_true rfl
    obtain ⟨hlow, hhigh, hflush, -⟩ := mem_taken.mp hc
    have hclean : (f.flush index count).1.dirty c.index = false := by
      refine (hdirty c.index).trans ?_
      rw [decide_eq_true ⟨hlow, hhigh, hflush⟩, Bool.not_true, Bool.and_false]
    obtain ⟨buf, -, honce⟩ := hwritten c.index hflush.2.1 hclean
    have hone := (honce 0 (by decide)).1
    rw [hnone] at hone
    cases hone
  · intro hfits i hd hclean
    have hin : i ≥ index ∧ i < index + count ∧ f.Flushable i := by
      by_contra hout
      have hkept := hdirty i
      rw [decide_eq_false hout, Bool.not_false, Bool.and_true] at hkept
      exact absurd (hclean.symm.trans (hkept.trans hd)) (by decide)
    obtain ⟨buf, hbuf⟩ := Option.isSome_iff_exists.mp hin.2.2.2.2
    have hc : (⟨i, buf⟩ : CachedBlock) ∈ f.taken index count :=
      mem_taken.mpr ⟨hin.1, hin.2.1, hin.2.2, hbuf⟩
    exact ⟨buf, hbuf, writtenOnce_of_fits hfits hc f.bytes⟩

end DataFile

open DataFile

/-- **For every `flush_count_cfg` that `updateConfig` accepts, `Flush` writes each block that it
marks clean exactly once, where it belongs and as it is in memory, if and only if the buffer of
the executor holds the dirty blocks of the range.** -/
theorem flush_writes_iff (f : DataFile) (index : ℕ) (cfg : FlushCount) :
    (∀ i, f.dirty i = true → (f.flush index cfg.value.toNat).1.dirty i = false →
      ∃ buf, f.blocks i = some buf ∧
        WrittenOnce f.bytes (f.flush index cfg.value.toNat).2 i buf) ↔
    f.RangeFits index cfg.value.toNat :=
  flush_writes f index cfg.value.toNat

/-- A file with all blocks in memory and dirty. -/
def allDirty : DataFile := ⟨fun _ => some fun _ => 0, fun _ => 255#8, fun _ => 0⟩

theorem flushable_allDirty (h : (j : ℤ) < blockCount) : allDirty.Flushable j := by
  refine ⟨h, ?_, rfl⟩
  have hbits : ∀ k < 8, (255#8).getLsbD k = true := by decide
  rw [dirty_eq]
  exact hbits _ (Nat.mod_lt _ (by decide))

/-- With 17000 blocks a time, which `updateConfig` accepts, nothing is written. -/
theorem flush_drops_blocks : ¬ ∀ (f : DataFile) (index : ℕ) (cfg : FlushCount) (i : ℕ),
    f.dirty i = true → (f.flush index cfg.value.toNat).1.dirty i = false →
      ∃ buf, f.blocks i = some buf ∧
        WrittenOnce f.bytes (f.flush index cfg.value.toNat).2 i buf := by
  intro h
  have hcfg : (FlushCount.perTime.updateConfig (some 17000)).value.toNat = 17000 := rfl
  have hfits := (flush_writes allDirty 0 _).mp
    (h allDirty 0 (FlushCount.perTime.updateConfig (some 17000)))
  have hall : (List.range' 0 17000).countP (fun j => allDirty.Flushable j) = 17000 := by
    rw [List.countP_eq_length.mpr fun j hj => ?_, List.length_range']
    have hlt := (List.mem_range'_1.mp hj).2
    have hfile : (j : ℤ) < blockCount := by
      have h17 : (17000 : ℤ) < blockCount := by decide
      omega
    exact decide_eq_true (flushable_allDirty hfile)
  unfold RangeFits at hfits
  rw [hcfg, hall] at hfits
  exact absurd hfits (by decide)

/-! ## The flush of the node -/

/-- The data file with its blocks in memory, its bitmap and its bytes is file `fileId` of the
node, `encode` being the bytes of a block. -/
structure Stores (encode : Block → ℕ → UInt8) (n : Node) (fileId : ℤ) (f : DataFile) : Prop where
  dirty : ∀ i : ℕ, (i : ℤ) < blockCount → f.dirty i = n.dirty ⟨fileId, i⟩
  blocks : ∀ i : ℕ, (i : ℤ) < blockCount → f.blocks i = (n.cache ⟨fileId, i⟩).map encode
  bytes : ∀ i : ℕ, (i : ℤ) < blockCount → ∀ k < blockSize,
    f.bytes ((i + 1) * blockSize + k) = encode (n.disk ⟨fileId, i⟩) k

section Stores

variable {encode : Block → ℕ → UInt8} {n : Node} {fileId : ℤ} {f : DataFile}

/-- The node and the data file take the same blocks. -/
theorem Stores.mem_dirtys_iff (h : Stores encode n fileId f) (index count : ℕ)
    (hi : (i : ℤ) < blockCount) :
    (⟨fileId, i⟩ : BlockId) ∈ n.dirtys fileId index count ↔
      index ≤ i ∧ i < index + count ∧ f.Flushable i := by
  rw [Oce.FeedDB.mem_dirtys_iff]
  unfold Flushable
  rw [h.dirty i hi, h.blocks i hi, Option.isSome_map]
  dsimp only
  constructor
  · rintro ⟨-, hlow, hhigh, hlt, hrest⟩
    exact ⟨by omega, by omega, hlt, hrest⟩
  · rintro ⟨hlow, hhigh, hlt, hrest⟩
    exact ⟨rfl, by omega, by omega, hlt, hrest⟩

theorem Stores.length_dirtys (h : Stores encode n fileId f) (index count : ℕ) :
    (n.dirtys fileId index count).length = (f.taken index count).length := by
  have hsame : ∀ i : ℕ, ((i : ℤ) < blockCount ∧ n.dirty ⟨fileId, i⟩ = true ∧
      (n.cache ⟨fileId, i⟩).isSome = true) ↔ f.Flushable i := by
    intro i
    unfold Flushable
    refine and_congr_right fun hi => ?_
    rw [h.dirty i hi, h.blocks i hi, Option.isSome_map]
  rw [length_taken, List.range'_eq_map_range, List.countP_map]
  unfold Node.dirtys
  rw [← List.countP_eq_length_filter, List.countP_map]
  refine List.countP_congr fun k _ => ?_
  rw [Function.comp_apply, Function.comp_apply, decide_eq_true_eq, decide_eq_true_eq]
  exact hsame (index + k)

/-- The node writes its dirty blocks when the executor does. -/
theorem Stores.fits_iff (h : Stores encode n fileId f) (index count : ℕ) :
    (n.dirtys fileId index count).length ≤ Node.maxFlush ↔
      IOExecutor.Fits (f.taken index count) := by
  rw [h.length_dirtys]
  exact Nat.le_div_iff_mul_le IOExecutor.blockSize_pos

/-- A block that `Flush` does not take is not written to. -/
theorem not_covered_of_not_taken (hk : k < blockSize)
    (hi : ∀ c ∈ f.taken index count, c.index ≠ i) (hp : p ∈ (f.flush index count).2) :
    p.covers ((i + 1) * blockSize + k) = false := by
  obtain ⟨hdiv, -⟩ := place_of_byte (i := i) hk
  by_contra hcovers
  rw [Bool.not_eq_false] at hcovers
  rw [flush_eq] at hp
  by_cases hfits : IOExecutor.Fits (f.taken index count)
  · obtain ⟨c, hc, hindex, -⟩ := IOExecutor.value_execute hfits hp hcovers
    rw [hdiv] at hindex
    exact hi c hc (by omega)
  · rw [IOExecutor.execute_of_not_fits hfits] at hp
    exact absurd hp List.not_mem_nil

/-- **The flush of the node is what `Flush` and the executor do**, whatever order the requests
are carried out in. -/
theorem Stores.flush (h : Stores encode n fileId f) (index count : ℕ) {order : List (Patch UInt8)}
    (horder : order.Perm (f.flush index count).2) :
    Stores encode (n.flush fileId index count) fileId
      { (f.flush index count).1 with bytes := Patch.writeAll f.bytes order } where
  dirty i hi := by
    have hiff := h.mem_dirtys_iff index count hi
    refine ((flushLoop_eq count index f).2.2.2 i).trans ?_
    rw [h.dirty i hi, ← decide_eq_decide.mpr hiff]
    rfl
  blocks i hi := by
    refine (congrFun (flushLoop_eq count index f).1 i).trans ?_
    exact h.blocks i hi
  bytes i hi k hk := by
    show Patch.writeAll f.bytes order _ = encode (ite _ _ _) k
    have hiff := h.mem_dirtys_iff index count hi
    have hfitsIff := h.fits_iff index count
    by_cases htaken : (index ≤ i ∧ i < index + count ∧ f.Flushable i) ∧
        IOExecutor.Fits (f.taken index count)
    · obtain ⟨htaken, hfits⟩ := htaken
      rw [if_pos ⟨hiff.mpr htaken, hfitsIff.mpr hfits⟩]
      have hblock := h.blocks i hi
      obtain ⟨buf, hbuf⟩ := Option.isSome_iff_exists.mp htaken.2.2.2.2
      have hc : (⟨i, buf⟩ : CachedBlock) ∈ f.taken index count :=
        mem_taken.mpr ⟨htaken.1, htaken.2.1, htaken.2.2, hbuf⟩
      rw [hbuf] at hblock
      obtain ⟨b, hb, rfl⟩ := Option.map_eq_some_iff.mp hblock.symm
      rw [hb]
      exact (writtenOnce_of_fits hfits hc f.bytes k hk).2 order horder
    · rw [if_neg fun hin => htaken ⟨hiff.mp hin.1, hfitsIff.mp hin.2⟩,
        Patch.writeAll_of_not_covered ?_]
      · exact h.bytes i hi k hk
      · intro p hp
        have hp' := horder.mem_iff.mp hp
        by_cases hfits : IOExecutor.Fits (f.taken index count)
        · refine not_covered_of_not_taken hk (fun c hc hci => htaken ⟨?_, hfits⟩) hp'
          obtain ⟨hlow, hhigh, hflush, -⟩ := mem_taken.mp hc
          rw [hci] at hlow hhigh hflush
          exact ⟨hlow, hhigh, hflush⟩
        · rw [flush_eq, IOExecutor.execute_of_not_fits hfits] at hp'
          exact absurd hp' List.not_mem_nil

end Stores

end Oce.FeedDB
