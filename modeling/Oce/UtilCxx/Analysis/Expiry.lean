import Oce.UtilCxx.Analysis.LruOrder
import Oce.UtilCxx.Model.Evictor
import Oce.UtilCxx.Model.TimedEvictor

/-!
# What the timed evictor expires

A `TimedList` is what the evictor is to be: the entries in the order of their last use, of which an
add leaves those that were used recently enough. As long as the clock never goes back the times are
in that order too, so the loop that stops at the first fresh entry from the back finds all old ones.
What it takes for old is told by an `int`, and where that is another time than the one meant, an
entry between the two is kept or lost against the list.
-/

set_option autoImplicit false

namespace Oce.UtilCxx

open Base HookedEvictor

variable {κ α : Type*} [DecidableEq κ]

/-! ## The list -/

/-- The entries in the order of their last use, the last one first. -/
structure TimedList (κ α : Type*) where
  entries : List (κ × Timed α)
  duration : ℤ

namespace TimedList

/-- The entries behind an add, before the old ones are taken out. -/
def front (l : TimedList κ α) (obj : α) (id : κ) (now : ℤ) : List (κ × Timed α) :=
  (id, ⟨obj, now⟩) :: SizedEvictor.without l.entries id

/-- An add leaves what is not older than the clock minus the duration. -/
def add (l : TimedList κ α) (obj : α) (id : κ) (now now' : ℤ) : TimedList κ α :=
  if 0 < l.duration then
    { l with entries := (l.front obj id now).filter fun p => now' - l.duration ≤ p.2.timestamp }
  else { l with entries := l.front obj id now }

def find (l : TimedList κ α) (id : κ) : Option α := (SizedEvictor.lookup l.entries id).map Timed.obj

def locate (l : TimedList κ α) (id : κ) (now : ℤ) : TimedList κ α :=
  match l.find id with
  | some obj => { l with entries := l.front obj id now }
  | none => l

/-- A call of the list, with the object that it returns. -/
def step (l : TimedList κ α) : TimedOp κ α → Option α × TimedList κ α
  | .add obj id now now' => (none, l.add obj id now now')
  | .locate id dflt now => (some ((l.find id).getD dflt), l.locate id now)
  | .find id dflt => (some ((l.find id).getD dflt), l)
  | .remove id => (l.find id, { l with entries := SizedEvictor.without l.entries id })
  | .clear => (none, { l with entries := [] })
  | .duration d => (none, { l with duration := d })

/-- The times are in the order of the entries, and none is behind what the clock is to tell. -/
structure Ordered (l : TimedList κ α) (times : List ℤ) : Prop where
  order : l.entries.Pairwise fun p q => q.2.timestamp ≤ p.2.timestamp
  past : ∀ p ∈ l.entries, ∀ t ∈ times, p.2.timestamp ≤ t

variable {l : TimedList κ α} {times : List ℤ} {obj : α} {id : κ} {now now' : ℤ}

omit [DecidableEq κ] in
theorem Ordered.sublist (h : l.Ordered times) {entries : List (κ × Timed α)}
    (hsub : entries.Sublist l.entries) {times' : List ℤ} (htimes : ∀ t ∈ times', t ∈ times) (d : ℤ) :
    Ordered ⟨entries, d⟩ times' :=
  ⟨h.order.sublist hsub, fun p hp t ht => h.past p (hsub.subset hp) t (htimes t ht)⟩

/-- An entry of now goes to the front. -/
theorem Ordered.front (h : l.Ordered (now :: times)) (htimes : ∀ t ∈ times, now ≤ t) (obj : α) (id : κ)
    (d : ℤ) : Ordered ⟨l.front obj id now, d⟩ times := by
  have hsub : (SizedEvictor.without l.entries id).Sublist l.entries := List.filter_sublist
  constructor
  · refine List.pairwise_cons.mpr ⟨fun p hp => ?_, h.order.sublist hsub⟩
    exact h.past p (hsub.subset hp) now List.mem_cons_self
  · intro p hp t ht
    cases hp with
    | head => exact htimes t ht
    | tail _ hp => exact h.past p (hsub.subset hp) t (List.mem_cons_of_mem _ ht)

/-- **No call puts the times out of order**, as long as the clock does not go back. -/
theorem Ordered.step (op : TimedOp κ α) (h : l.Ordered (op.readings ++ times))
    (hclock : (op.readings ++ times).Pairwise (· ≤ ·)) : (l.step op).2.Ordered times := by
  cases op with
  | add obj id now now' =>
      obtain ⟨hnow, hrest⟩ := List.pairwise_cons.mp hclock
      have hfront := Ordered.front h hnow obj id l.duration
      have hfront' : Ordered ⟨l.front obj id now, l.duration⟩ times :=
        hfront.sublist (.refl _) (fun t ht => List.mem_cons_of_mem _ ht) _
      change (l.add obj id now now').Ordered times
      unfold add
      split_ifs with hpos
      · exact hfront'.sublist List.filter_sublist (fun t ht => ht) _
      · exact hfront'
  | locate id dflt now =>
      obtain ⟨hnow, hrest⟩ := List.pairwise_cons.mp hclock
      change (l.locate id now).Ordered times
      unfold locate
      cases l.find id with
      | none => exact h.sublist (.refl _) (fun t ht => List.mem_cons_of_mem _ ht) _
      | some obj => exact Ordered.front h hnow obj id l.duration
  | find id dflt => exact h
  | remove id => exact h.sublist List.filter_sublist (fun t ht => ht) _
  | clear => exact h.sublist (List.nil_sublist _) (fun t ht => ht) _
  | duration d => exact h.sublist (.refl _) (fun t ht => ht) _

end TimedList

namespace TimedEvictor

variable {e : TimedEvictor κ α} {l : TimedList κ α} {id : κ} {map : EvictorMap κ (Timed α)}
  {nodes : List (ℕ × κ)} {entries : List (κ × Timed α)} {clock now now' : ℤ}

/-! ## The map and the queue -/

/-- The evictor holds the entries of the list, and a node that it gets next is a new one. -/
structure Follows (e : TimedEvictor κ α) (l : TimedList κ α) : Prop where
  duration : e.duration = l.duration
  kept : Kept e.map e.queue.nodes l.entries
  fresh : ∀ n ∈ e.queue.nodes, n.1 < e.queue.next

theorem follows_new (d : ℤ) : Follows (new d : TimedEvictor κ α) ⟨[], d⟩ :=
  ⟨rfl, kept_empty, fun _ hn => nomatch hn⟩

/-- What a key that is taken out leaves. -/
theorem Follows.erase (h : Follows e l) {entry : EvictorEntry (Timed α)}
    (hl : e.map.lookup id = some entry) :
    ∃ q, e.queue.erase entry.pos = some q ∧
      Follows { e with map := e.map.erase id, queue := q }
        { l with entries := SizedEvictor.without l.entries id } := by
  have hpos : entry.pos ∈ e.queue.nodes.map Prod.fst := by
    rw [List.mem_map]
    exact ⟨(entry.pos, id), (h.kept.mem_of_lookup hl).1, rfl⟩
  refine ⟨_, if_pos hpos, h.duration, h.kept.erase hl, ?_⟩
  exact fun n hn => h.fresh n (List.mem_filter.mp hn).1

/-- What a key that is put in leaves. -/
theorem Follows.hook (h : Follows e l) (hl : e.map.lookup id = none) (obj : α) (now : ℤ) :
    Follows (e.hook id obj now) { l with entries := (id, ⟨obj, now⟩) :: l.entries } := by
  refine ⟨h.duration, ?_, ?_⟩
  · refine h.kept.push hl ?_ _
    intro hmem
    obtain ⟨n, hn, hpos⟩ := List.mem_map.mp hmem
    have hnext : n.1 = e.queue.next := hpos
    have hlt := h.fresh n hn
    omega
  · intro n hn
    change n.1 < e.queue.next + 1
    cases hn with
    | head => exact Nat.lt_succ_self _
    | tail _ hn => exact Nat.lt_succ_of_lt (h.fresh n hn)

/-- What the evictor takes for old. -/
def taken (lastTime : ℤ) (p : κ × Timed α) : Bool := p.2.expired lastTime

/-- **The loop of `evict` cuts off what is old at the back.** -/
theorem kept_evictLoop (h : Kept map nodes entries) (lastTime : ℤ) :
    ∃ map' nodes', evictLoop lastTime map nodes = some (map', nodes') ∧
      Kept map' nodes' (entries.dropWhile (taken lastTime)) ∧ nodes' <:+ nodes := by
  induction nodes generalizing map entries with
  | nil =>
      obtain rfl : entries = [] := List.forall₂_nil_left_iff.mp h.hooks
      exact ⟨map, [], rfl, h, List.suffix_refl _⟩
  | cons n nodes ih =>
      obtain ⟨p, entries, hhook, -, rfl⟩ := List.forall₂_cons_left_iff.mp h.hooks
      obtain ⟨hkey, hlook⟩ := hhook
      unfold TimedEvictor.evictLoop
      rw [hkey, hlook]
      dsimp only
      by_cases hold : taken lastTime p = true
      · obtain ⟨map', nodes', hloop, hkept, hsuffix⟩ := ih h.tail
        rw [hkey] at hloop
        rw [List.dropWhile_cons_of_pos hold]
        unfold taken at hold
        rw [if_pos hold, if_pos rfl]
        exact ⟨map', nodes', hloop, hkept, hsuffix.trans (List.suffix_cons _ _)⟩
      · rw [List.dropWhile_cons_of_neg hold]
        unfold taken at hold
        rw [if_neg hold]
        exact ⟨map, n :: nodes, rfl, h, List.suffix_refl _⟩

omit [DecidableEq κ] in
/-- Where the times are in order, the old entries at the back are all old entries. -/
theorem dropWhile_eq_filter {entries : List (κ × Timed α)}
    (h : entries.Pairwise fun p q => p.2.timestamp ≤ q.2.timestamp) (cut : ℤ) :
    entries.dropWhile (taken cut) = entries.filter fun p => !taken cut p := by
  induction entries with
  | nil => rfl
  | cons p entries ih =>
      by_cases hold : taken cut p = true
      · rw [List.dropWhile_cons_of_pos hold, ih h.of_cons, List.filter_cons_of_neg (by simp [hold])]
      · rw [List.dropWhile_cons_of_neg hold, eq_comm, List.filter_eq_self]
        intro q hq
        have hpq : p.2.timestamp ≤ q.2.timestamp := by
          cases hq with
          | head => exact Int.le_refl _
          | tail _ hq => exact List.rel_of_pairwise_cons h hq
        unfold taken Timed.expired at hold ⊢
        rw [decide_eq_true_eq] at hold
        simp
        omega

/-- What `evict` leaves. -/
theorem Follows.evict (h : Follows e l)
    (horder : l.entries.Pairwise fun p q => q.2.timestamp ≤ p.2.timestamp) (now : ℤ) :
    ∃ e', e.evict now = some e' ∧ Follows e'
      { l with entries := if 0 < l.duration then l.entries.filter fun p => !taken (now - l.duration) p
        else l.entries } := by
  unfold TimedEvictor.evict
  rw [h.duration]
  by_cases hpos : 0 < l.duration
  · rw [if_pos hpos]
    obtain ⟨map', nodes', hloop, hkept, hsuffix⟩ := kept_evictLoop h.kept.reverse (now - l.duration)
    rw [hloop]
    refine ⟨_, rfl, rfl, ?_, ?_⟩
    · have hfilter := dropWhile_eq_filter (List.pairwise_reverse.mpr horder) (now - l.duration)
      have hkept' := hkept.reverse
      rw [hfilter, ← List.filter_reverse, List.reverse_reverse] at hkept'
      change Kept map' nodes'.reverse (if 0 < l.duration then _ else _)
      rw [if_pos hpos]
      exact hkept'
    · intro n hn
      have hmem : n ∈ e.queue.nodes.reverse := hsuffix.subset (List.mem_reverse.mp hn)
      exact h.fresh n (List.mem_reverse.mp hmem)
  · rw [if_neg hpos]
    refine ⟨e, rfl, h.duration, ?_, h.fresh⟩
    rw [if_neg hpos]
    exact h.kept

/-! ## The calls -/

/-- What an add leaves in truth, where the time is cut to an `int`. -/
def cutAdd (l : TimedList κ α) (obj : α) (id : κ) (now now' : ℤ) : TimedList κ α :=
  { l with entries :=
      if 0 < l.duration then (l.front obj id now).filter fun p => !taken (now' - l.duration) p
      else l.front obj id now }

theorem Follows.without (h : Follows e l) (hl : e.map.lookup id = none) :
    Follows e { l with entries := SizedEvictor.without l.entries id } := by
  refine ⟨h.duration, ?_, h.fresh⟩
  change Kept e.map e.queue.nodes (SizedEvictor.without l.entries id)
  rw [h.kept.without_of_none hl]
  exact h.kept

/-- An added entry comes to the front. -/
theorem Follows.add (h : Follows e l) (obj : α) (id : κ) (now now' : ℤ)
    (horder : (l.front obj id now).Pairwise fun p q => q.2.timestamp ≤ p.2.timestamp) :
    ∃ e', e.add obj id now now' = some e' ∧ Follows e' (cutAdd l obj id now now') := by
  unfold TimedEvictor.add
  cases hl : e.map.lookup id with
  | none => exact ((h.without hl).hook hl obj now).evict horder now'
  | some entry =>
      obtain ⟨q, hq, hrest⟩ := h.erase hl
      dsimp only
      rw [hq]
      exact (hrest.hook (AList.lookup_erase id e.map) obj now).evict horder now'

theorem Follows.find_eq (h : Follows e l) (id : κ) :
    l.find id = (e.map.lookup id).map fun entry => entry.obj.obj := by
  unfold TimedList.find
  rw [h.kept.lookup_eq, Option.map_map]
  rfl

/-- A located entry moves to the front. -/
theorem Follows.locate (h : Follows e l) (id : κ) (dflt : α) (now : ℤ) :
    ∃ e', e.locate id dflt now = some ((l.find id).getD dflt, e') ∧ Follows e' (l.locate id now) := by
  unfold TimedEvictor.locate TimedList.locate
  rw [h.find_eq]
  cases hl : e.map.lookup id with
  | none => exact ⟨e, rfl, h⟩
  | some entry =>
      obtain ⟨q, hq, hrest⟩ := h.erase hl
      have hhook := hrest.hook (AList.lookup_erase id e.map) entry.obj.obj now
      unfold TimedEvictor.hook at hhook
      dsimp only at hhook ⊢
      rw [insert_erase] at hhook
      rw [hq]
      exact ⟨_, rfl, hhook⟩

theorem Follows.remove (h : Follows e l) (id : κ) :
    ∃ e', e.remove id = some (l.find id, e') ∧
      Follows e' { l with entries := SizedEvictor.without l.entries id } := by
  unfold TimedEvictor.remove
  rw [h.find_eq]
  cases hl : e.map.lookup id with
  | none => exact ⟨e, rfl, h.without hl⟩
  | some entry =>
      obtain ⟨q, hq, hrest⟩ := h.erase hl
      dsimp only
      rw [hq]
      exact ⟨_, rfl, hrest⟩

theorem Follows.find (h : Follows e l) (id : κ) (dflt : α) : e.find id dflt = (l.find id).getD dflt := by
  unfold TimedEvictor.find
  rw [h.find_eq]
  cases e.map.lookup id with
  | none => rfl
  | some entry => rfl

/-- The list behind a call in truth. -/
def cutStep (l : TimedList κ α) : TimedOp κ α → TimedList κ α
  | .add obj id now now' => cutAdd l obj id now now'
  | op => (l.step op).2

/-- **A call of the evictor returns what the list does and leaves the list of the cut time.** -/
theorem Follows.step (h : Follows e l) (op : TimedOp κ α) {times : List ℤ}
    (horder : l.Ordered (op.readings ++ times)) (hclock : (op.readings ++ times).Pairwise (· ≤ ·)) :
    ∃ e', op.step e = some ((l.step op).1, e') ∧ Follows e' (cutStep l op) := by
  cases op with
  | add obj id now now' =>
      have hnow := (List.pairwise_cons.mp hclock).1
      have hfront := TimedList.Ordered.front horder hnow obj id l.duration
      obtain ⟨e', he', hfollows⟩ := h.add obj id now now' hfront.order
      refine ⟨e', ?_, hfollows⟩
      change (e.add obj id now now').map (none, ·) = _
      rw [he']
      rfl
  | locate id dflt now =>
      obtain ⟨e', he', hfollows⟩ := h.locate id dflt now
      refine ⟨e', ?_, hfollows⟩
      change (e.locate id dflt now).map (fun r => (some r.1, r.2)) = _
      rw [he']
      rfl
  | find id dflt =>
      refine ⟨e, ?_, h⟩
      change some (some (e.find id dflt), e) = _
      rw [h.find]
      rfl
  | remove id => exact h.remove id
  | clear => exact ⟨e.clear, rfl, h.duration, kept_empty, fun _ hn => nomatch hn⟩
  | duration d => exact ⟨e.setDuration d, rfl, rfl, h.kept, h.fresh⟩

/-! ## Whole runs -/

/-- The queue has the keys of the map, each once, and every entry of the map leads to its own node. -/
structure Hooked (e : TimedEvictor κ α) : Prop where
  perm : (e.queue.nodes.map Prod.snd).Perm e.map.keys
  distinct : (e.queue.nodes.map Prod.fst).Nodup
  own : ∀ id entry, e.map.lookup id = some entry → (entry.pos, id) ∈ e.queue.nodes

/-- The objects with their times, in the order of the queue. -/
def contents (e : TimedEvictor κ α) : List (κ × Timed α) :=
  e.queue.nodes.filterMap fun n => (e.map.lookup n.2).map fun entry => (n.2, entry.obj)

/-- The map and the queue are in step, the queue by times, and they hold what the list does. -/
structure Right (e : TimedEvictor κ α) (l : TimedList κ α) : Prop where
  hooked : Hooked e
  order : e.contents.Pairwise fun p q => q.2.timestamp ≤ p.2.timestamp
  contents : e.contents = l.entries

/-- Every call of the run returns what that of the list does, and before and behind each the evictor
is as the list. -/
def Expires (e : TimedEvictor κ α) (l : TimedList κ α) : List (TimedOp κ α) → Prop
  | [] => Right e l
  | op :: ops => Right e l ∧ ∃ e', op.step e = some ((l.step op).1, e') ∧ Expires e' (l.step op).2 ops

/-- No entry of an add is old by the time meant and not by the time cut to an `int`, or the other
way round. -/
def Fits (l : TimedList κ α) : TimedOp κ α → Prop
  | .add obj id now now' => 0 < l.duration → ∀ p ∈ l.front obj id now,
      (p.2.timestamp < asInt (now' - l.duration) ↔ p.2.timestamp < now' - l.duration)
  | _ => True

/-- Every add of the run has its entries on one side of both times. -/
def AllFit (l : TimedList κ α) : List (TimedOp κ α) → Prop
  | [] => True
  | op :: ops => Fits l op ∧ AllFit (l.step op).2 ops

theorem Follows.contents (h : Follows e l) : e.contents = l.entries := h.kept.filterMap_eq

theorem Follows.right (h : Follows e l) {times : List ℤ} (horder : l.Ordered times) : Right e l where
  hooked := by
    refine ⟨?_, h.kept.distinct, fun _ _ hl => (h.kept.mem_of_lookup hl).1⟩
    rw [h.kept.map_snd]
    exact h.kept.perm
  order := by
    rw [h.contents]
    exact horder.order
  contents := h.contents

theorem eq_of_filter_eq {β : Type*} {p q : β → Bool} {xs : List β} (h : xs.filter p = xs.filter q) {x : β}
    (hx : x ∈ xs) : p x = q x := by
  have hiff : x ∈ xs.filter p ↔ x ∈ xs.filter q := by rw [h]
  rw [List.mem_filter, List.mem_filter, and_iff_right hx, and_iff_right hx] at hiff
  exact Bool.eq_iff_iff.mpr hiff

/-- A call leaves what the list does exactly when no entry is between the two times. -/
theorem cutStep_entries_eq_iff (l : TimedList κ α) (op : TimedOp κ α) :
    (cutStep l op).entries = (l.step op).2.entries ↔ Fits l op := by
  cases op with
  | add obj id now now' =>
      change (if 0 < l.duration then _ else _) = (l.add obj id now now').entries ↔ _
      unfold TimedList.add Fits
      by_cases hpos : 0 < l.duration
      · have hiff : ∀ p : κ × Timed α, (!taken (now' - l.duration) p) = decide (now' - l.duration ≤ p.2.timestamp) ↔
            (p.2.timestamp < asInt (now' - l.duration) ↔ p.2.timestamp < now' - l.duration) := by
          intro p
          unfold taken Timed.expired
          rw [Bool.eq_iff_iff, Bool.not_eq_true', decide_eq_false_iff_not, decide_eq_true_eq]
          omega
        rw [if_pos hpos, if_pos hpos]
        constructor
        · intro heq _ p hp
          dsimp only at heq
          have hpoint := eq_of_filter_eq heq hp
          exact (hiff p).mp hpoint
        · intro hfits
          exact List.filter_congr fun p hp => (hiff p).mpr (hfits hpos p hp)
      · rw [if_neg hpos, if_neg hpos]
        exact ⟨fun _ h => absurd h hpos, fun _ => rfl⟩
  | locate id dflt now => exact ⟨fun _ => trivial, fun _ => rfl⟩
  | find id dflt => exact ⟨fun _ => trivial, fun _ => rfl⟩
  | remove id => exact ⟨fun _ => trivial, fun _ => rfl⟩
  | clear => exact ⟨fun _ => trivial, fun _ => rfl⟩
  | duration d => exact ⟨fun _ => trivial, fun _ => rfl⟩

theorem cutStep_duration (l : TimedList κ α) (op : TimedOp κ α) :
    (cutStep l op).duration = (l.step op).2.duration := by
  cases op with
  | add obj id now now' =>
      change l.duration = (l.add obj id now now').duration
      unfold TimedList.add
      split_ifs <;> rfl
  | locate id dflt now => rfl
  | find id dflt => rfl
  | remove id => rfl
  | clear => rfl
  | duration d => rfl

theorem cutStep_eq_of_fits {op : TimedOp κ α} (h : Fits l op) : cutStep l op = (l.step op).2 := by
  have hentries := (cutStep_entries_eq_iff l op).mpr h
  have hduration := cutStep_duration l op
  cases hcut : cutStep l op with
  | mk entries d =>
      rw [hcut] at hentries hduration
      cases hstep : (l.step op).2 with
      | mk entries' d' =>
          rw [hstep] at hentries hduration
          dsimp only at hentries hduration
          rw [hentries, hduration]

/-- A run from an evictor that follows a list. -/
theorem Follows.right_run_iff (h : Follows e l) (ops : List (TimedOp κ α))
    (horder : l.Ordered (ops.flatMap TimedOp.readings))
    (hclock : (ops.flatMap TimedOp.readings).Pairwise (· ≤ ·)) : Expires e l ops ↔ AllFit l ops := by
  induction ops generalizing e l with
  | nil => exact ⟨fun _ => trivial, fun _ => h.right horder⟩
  | cons op ops ih =>
      rw [List.flatMap_cons] at horder hclock
      obtain ⟨e₁, hstep, hcut⟩ := h.step op horder hclock
      have horder₁ := TimedList.Ordered.step op horder hclock
      have hclock₁ := (List.pairwise_append.mp hclock).2.1
      unfold Expires AllFit
      constructor
      · rintro ⟨-, e', hstep', hrest⟩
        rw [hstep] at hstep'
        cases hstep'
        have hright : Right e₁ (l.step op).2 := by
          cases ops with
          | nil => exact hrest
          | cons op' ops => exact hrest.1
        have hfits : Fits l op := by
          rw [← cutStep_entries_eq_iff, ← hcut.contents]
          exact hright.contents
        rw [cutStep_eq_of_fits hfits] at hcut
        exact ⟨hfits, (ih hcut horder₁ hclock₁).mp hrest⟩
      · rintro ⟨hfits, hrest⟩
        rw [cutStep_eq_of_fits hfits] at hcut
        exact ⟨h.right horder, e₁, hstep, (ih hcut horder₁ hclock₁).mpr hrest⟩

/-- **The evictor expires exactly the old entries as long as no entry is between the time meant and
the time cut to an `int`.** -/
theorem expires_iff (d : ℤ) (ops : List (TimedOp κ α))
    (hclock : (ops.flatMap TimedOp.readings).Pairwise (· ≤ ·)) :
    Expires (new d) ⟨[], d⟩ ops ↔ AllFit ⟨[], d⟩ ops :=
  (follows_new d).right_run_iff ops ⟨.nil, fun _ hp => absurd hp List.not_mem_nil⟩ hclock

/-- Where the clock fits an `int` an add fits, whatever the entries are. -/
theorem fits_add {l : TimedList κ α} {now' : ℤ} (h : asInt (now' - l.duration) = now' - l.duration)
    (obj : α) (id : κ) (now : ℤ) : Fits l (.add obj id now now') := by
  intro _ p _
  rw [h]

/-- Two adds, a use of the first entry, and an add when only the second one is old. -/
def usedAgain : List (TimedOp ℕ Char) :=
  [.add 'a' 1 100 100, .add 'b' 2 110 110, .locate 1 'z' 150, .add 'c' 3 180 180, .find 2 'z',
    .find 1 'z']

/-- The entry that was used again stays, the other one expires. -/
theorem expires_iff_usedAgain : Expires (new 60) ⟨[], 60⟩ usedAgain ∧
    (usedAgain.foldl (fun l op => (TimedList.step l op).2) (⟨[], 60⟩ : TimedList ℕ Char)).entries.map
      Prod.fst = [3, 1] := by
  refine ⟨(expires_iff 60 usedAgain (by decide)).mpr ?_, by decide⟩
  exact ⟨fits_add (by decide) _ _ _, fits_add (by decide) _ _ _, trivial, fits_add (by decide) _ _ _,
    trivial, trivial, trivial⟩

/-- Two adds with more than a minute between them, when the clock no longer fits an `int`. -/
def lateAdds : List (TimedOp ℕ Char) :=
  [.add 'a' 1 (2 ^ 31) (2 ^ 31), .add 'b' 2 (2 ^ 31 + 1000) (2 ^ 31 + 1000)]

/-- Then nothing is old any more. -/
theorem late_adds_stay : ¬∀ (d : ℤ) (ops : List (TimedOp ℕ Char)),
    (ops.flatMap TimedOp.readings).Pairwise (· ≤ ·) → Expires (new d) ⟨[], d⟩ ops := by
  intro h
  have hexpires := h 60 lateAdds (by decide)
  rw [(follows_new 60).right_run_iff lateAdds ⟨.nil, fun p hp => absurd hp List.not_mem_nil⟩ (by decide)]
    at hexpires
  obtain ⟨-, hfits, -⟩ := hexpires
  have hkept : (1, ⟨'a', 2 ^ 31⟩) ∈ (TimedList.step (⟨[], 60⟩ : TimedList ℕ Char)
      (.add 'a' 1 (2 ^ 31) (2 ^ 31))).2.front 'b' 2 (2 ^ 31 + 1000) := by
    decide
  have hiff := hfits (by decide) _ hkept
  revert hiff
  decide

end TimedEvictor

end Oce.UtilCxx
