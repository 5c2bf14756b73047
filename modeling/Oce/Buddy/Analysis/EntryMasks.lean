import Mathlib.Data.Fintype.Basic
import Mathlib.Data.List.Pairwise
import Mathlib.Tactic.ByCases
import Oce.Buddy.Model.EntryList

/-!
# The segment as a sorted map

An entry that agrees with the key on the bits of the mask lies between the key with every other bit
cleared and the key with every other bit set, so the searches cut away no entry that a query is
about, whatever holes the mask has. Every update keeps the entries ascending, which is what the
searches rest on. What can go wrong is the trace of `set(key)` behind the last entry.
-/

set_option autoImplicit false

namespace Oce.Buddy

open Oce.Base EntryListHolder

variable {l rest : List Entry} {key mask keyMask value valueMask e x : Entry} {trace : Bool}

/-! ## Masks -/

theorem toNat_and_le (a b : BitVec 32) : a &&& b ≤ a := by
  rw [BitVec.le_def, BitVec.toNat_and]
  exact Nat.and_le_left

/-- What agrees on the bits of a mask is at least what those bits alone make. -/
theorem and_le_of_and_eq {a b m : BitVec 32} (h : a &&& m = b &&& m) : a &&& m ≤ b := by
  rw [h]
  exact toNat_and_le b m

/-- What agrees on the bits of a mask is at most what all the other bits make with them. -/
theorem le_or_of_and_eq {a b m : BitVec 32} (h : a &&& m = b &&& m) : b ≤ a ||| ~~~m := by
  have hsub : (a ||| ~~~m) &&& b = b := by
    apply BitVec.eq_of_getLsbD_eq
    intro i hi
    have hbit := congrArg (fun v => v.getLsbD i) h
    simp only [BitVec.getLsbD_and] at hbit
    rw [BitVec.getLsbD_and, BitVec.getLsbD_or, BitVec.getLsbD_not]
    cases hm : m.getLsbD i with
    | false => simp [hi]
    | true =>
        rw [hm, Bool.and_true, Bool.and_true] at hbit
        simp [hbit]
  calc b = (a ||| ~~~m) &&& b := hsub.symm
    _ ≤ a ||| ~~~m := toNat_and_le _ _

theorem and_eq_iff {a b m : BitVec 32} :
    a &&& m = b &&& m ↔ ∀ i : Fin 32, m.getLsbD i = true → a.getLsbD i = b.getLsbD i := by
  constructor
  · intro h i hm
    have hbit := congrArg (fun v => v.getLsbD i) h
    simp only [BitVec.getLsbD_and] at hbit
    rwa [hm, Bool.and_true, Bool.and_true] at hbit
  · intro h
    apply BitVec.eq_of_getLsbD_eq
    intro i hi
    rw [BitVec.getLsbD_and, BitVec.getLsbD_and]
    cases hm : m.getLsbD i with
    | false => rw [Bool.and_false, Bool.and_false]
    | true => rw [h ⟨i, hi⟩ hm]

/-- The two agree wherever the mask has a bit. -/
def Agrees (key e mask : Entry) : Prop :=
  (∀ i : Fin 32, mask.toId.getLsbD i = true → key.toId.getLsbD i = e.toId.getLsbD i) ∧
    ∀ i : Fin 32, mask.desc.getLsbD i = true → key.desc.getLsbD i = e.desc.getLsbD i

instance (key e mask : Entry) : Decidable (Agrees key e mask) :=
  inferInstanceAs (Decidable (_ ∧ _))

theorem equals_iff : equals key e mask = true ↔ Agrees key e mask := by
  unfold equals Agrees
  rw [decide_eq_true_eq, and_eq_iff, and_eq_iff]

theorem equals_eq_decide (key e mask : Entry) : equals key e mask = decide (Agrees key e mask) := by
  rw [Bool.eq_iff_iff, equals_iff, decide_eq_true_eq]

theorem begin_le_of_equals (h : equals key e mask = true) : (infoBegin key mask).toId ≤ e.toId := by
  unfold equals at h
  rw [decide_eq_true_eq] at h
  exact and_le_of_and_eq h.1

theorem le_end_of_equals (h : equals key e mask = true) : e.toId ≤ (infoEnd key mask).toId := by
  unfold equals at h
  rw [decide_eq_true_eq] at h
  exact le_or_of_and_eq h.1

/-! ## Searches in an ascending segment -/

/-- The entries stand by ascending ids. -/
def Ascending (l : List Entry) : Prop := l.Pairwise fun x y => x.toId < y.toId

theorem parted_lessEntry (h : Ascending l) (key : Entry) : Parted (fun e => lessEntry e key) l := by
  refine h.imp fun hxy hy => ?_
  unfold lessEntry at hy ⊢
  rw [decide_eq_true_eq] at hy ⊢
  exact BitVec.lt_trans hxy hy

theorem parted_lessEqualEntry (h : Ascending l) (key : Entry) :
    Parted (fun e => lessEqualEntry e key) l := by
  refine h.imp fun hxy hy => ?_
  unfold lessEqualEntry at hy ⊢
  rw [decide_eq_true_eq] at hy ⊢
  exact BitVec.le_trans (BitVec.le_of_lt hxy) hy

theorem mem_take_lowerBound (h : Ascending l) (hx : x ∈ l.take (lowerBound lessEntry l key)) :
    x.toId < key.toId := by
  have hless := bisect_take (parted_lessEntry h key) hx
  unfold lessEntry at hless
  rwa [decide_eq_true_eq] at hless

theorem mem_drop_lowerBound (h : Ascending l) (hx : x ∈ l.drop (lowerBound lessEntry l key)) :
    key.toId ≤ x.toId := by
  have hless := bisect_drop (parted_lessEntry h key) hx
  unfold lessEntry at hless
  rw [decide_eq_false_iff_not] at hless
  exact BitVec.not_lt.mp hless

theorem mem_drop_upperBound (h : Ascending l) (hx : x ∈ l.drop (lowerBound lessEqualEntry l key)) :
    key.toId < x.toId := by
  have hless := bisect_drop (parted_lessEqualEntry h key) hx
  unfold lessEqualEntry at hless
  rw [decide_eq_false_iff_not] at hless
  exact BitVec.not_le.mp hless

theorem Ascending.drop (h : Ascending l) (n : ℕ) : Ascending (l.drop n) :=
  List.Pairwise.sublist (List.drop_sublist n l) h

/-- Nothing before the range agrees with the key. -/
theorem not_equals_before (h : Ascending l)
    (hx : x ∈ l.take (lowerBound lessEntry l (infoBegin key mask))) : equals key x mask = false := by
  rw [Bool.eq_false_iff]
  intro hequals
  exact BitVec.not_lt.mpr (begin_le_of_equals hequals) (mem_take_lowerBound h hx)

/-- Nothing behind the range agrees with the key. -/
theorem not_equals_behind (h : Ascending l)
    (hx : x ∈ l.drop (lowerBound lessEqualEntry l (infoEnd key mask))) : equals key x mask = false := by
  rw [Bool.eq_false_iff]
  intro hequals
  exact BitVec.not_lt.mpr (le_end_of_equals hequals) (mem_drop_upperBound h hx)

/-! ## Queries and masked updates -/

/-- **A query misses nothing and finds nothing else.** -/
theorem get_eq (h : Ascending l) (key mask : Entry) :
    EntryListHolder.get l key mask = l.filter fun e => Agrees key e mask ∧ e.desc ≠ maxInt := by
  have hmatch : ∀ e : Entry, decide (Agrees key e mask ∧ e.desc ≠ maxInt) =
      decide (equals key e mask = true ∧ e.desc ≠ maxInt) := fun e => by simp [equals_iff]
  simp only [hmatch]
  unfold EntryListHolder.get
  set itBegin := lowerBound lessEntry l (infoBegin key mask) with hbegin
  set itEnd := lowerBound lessEqualEntry (l.drop itBegin) (infoEnd key mask) with hend
  have hbefore : (l.take itBegin).filter (fun e => equals key e mask = true ∧ e.desc ≠ maxInt) = [] := by
    rw [List.filter_eq_nil_iff]
    intro x hx
    simp [not_equals_before h hx]
  have hbehind : ((l.drop itBegin).drop itEnd).filter
      (fun e => equals key e mask = true ∧ e.desc ≠ maxInt) = [] := by
    rw [List.filter_eq_nil_iff]
    intro x hx
    simp [not_equals_behind (h.drop _) hx]
  conv_rhs => rw [← List.take_append_drop itBegin l, ← List.take_append_drop itEnd (l.drop itBegin)]
  rw [List.filter_append, List.filter_append, hbefore, hbehind, List.nil_append, List.append_nil]

theorem remove_eq (h : Ascending l) (key mask : Entry) :
    remove l key mask = l.filter fun e => ¬Agrees key e mask := by
  have hmatch : ∀ e : Entry, decide (¬Agrees key e mask) = !equals key e mask := fun e => by
    rw [equals_eq_decide, decide_not]
  simp only [hmatch]
  unfold remove
  set itBegin := lowerBound lessEntry l (infoBegin key mask) with hbegin
  have hbefore : (l.take itBegin).filter (fun e => !equals key e mask) = l.take itBegin := by
    rw [List.filter_eq_self]
    intro x hx
    simp [not_equals_before h hx]
  conv_rhs => rw [← List.take_append_drop itBegin l]
  rw [List.filter_append, hbefore]

/-- What a masked update makes of an entry. -/
def masked (key keyMask value valueMask e : Entry) : Entry :=
  if equals key e keyMask then rewrite value valueMask e else e

theorem masked_toId : (masked key keyMask value valueMask e).toId = e.toId := by
  unfold masked
  split_ifs <;> rfl

/-- The masked entries are set in place. -/
theorem setMasked_eq (h : Ascending l) (hmask : keyMask.toId ||| valueMask.toId = maxInt) :
    setMasked l key keyMask value valueMask = l.map (masked key keyMask value valueMask) := by
  unfold setMasked
  rw [if_neg (not_not.mpr hmask)]
  dsimp only
  set itBegin := lowerBound lessEntry l (infoBegin key keyMask) with hbegin
  set itEnd := lowerBound lessEqualEntry (l.drop itBegin) (infoEnd key keyMask) with hend
  have hbefore : (l.take itBegin).map (masked key keyMask value valueMask) = l.take itBegin := by
    rw [List.map_congr_left, List.map_id]
    intro x hx
    unfold masked
    rw [not_equals_before h hx]
    rfl
  have hbehind : ((l.drop itBegin).drop itEnd).map (masked key keyMask value valueMask) =
      (l.drop itBegin).drop itEnd := by
    rw [List.map_congr_left, List.map_id]
    intro x hx
    unfold masked
    rw [not_equals_behind (h.drop _) hx]
    rfl
  conv_rhs => rw [← List.take_append_drop itBegin l, ← List.take_append_drop itEnd (l.drop itBegin)]
  rw [List.map_append, List.map_append, hbefore, hbehind, List.append_assoc]
  rfl

theorem Ascending.map (h : Ascending l) {f : Entry → Entry} (hf : ∀ e, (f e).toId = e.toId) :
    Ascending (l.map f) := by
  refine List.pairwise_map.mpr (h.imp fun hxy => ?_)
  rwa [hf, hf]

theorem ascending_setMasked (h : Ascending l) : Ascending (setMasked l key keyMask value valueMask) := by
  by_cases hmask : keyMask.toId ||| valueMask.toId = maxInt
  · rw [setMasked_eq h hmask]
    exact h.map fun _ => masked_toId
  · unfold setMasked
    rwa [if_pos hmask]

/-- The value's bits stand where its mask has them, the entry's own elsewhere. -/
theorem rewrite_desc (value valueMask e : Entry) (i : Fin 32) :
    (rewrite value valueMask e).desc.getLsbD i =
      if valueMask.desc.getLsbD i then value.desc.getLsbD i else e.desc.getLsbD i := by
  unfold rewrite
  have hi := i.isLt
  rw [BitVec.getLsbD_or, BitVec.getLsbD_and, BitVec.getLsbD_and, BitVec.getLsbD_not]
  cases hm : valueMask.desc.getLsbD i <;> simp [hi]

/-! ## Single updates -/

/-- Adding is setting without the trace. -/
theorem set_false (l : List Entry) (key : Entry) : EntryListHolder.set false l key = some (add l key) := by
  unfold EntryListHolder.set add
  dsimp only
  split
  · split_ifs <;> rfl
  · rfl

/-- The trace reads behind the last entry where no entry is at the key or behind it. -/
theorem set_true (l : List Entry) (key : Entry) : EntryListHolder.set true l key =
    if l.drop (lowerBound lessEntry l key) = [] then none else some (add l key) := by
  unfold EntryListHolder.set add
  dsimp only
  split
  · next hdrop =>
      rw [hdrop, if_neg (List.cons_ne_nil _ _)]
      split_ifs <;> rfl
  · next hdrop =>
      rw [hdrop]
      rfl

theorem drop_lowerBound_eq_nil (h : Ascending l) :
    l.drop (lowerBound lessEntry l key) = [] ↔ ∀ e ∈ l, e.toId < key.toId := by
  constructor
  · intro hdrop e he
    rw [← List.take_append_drop (lowerBound lessEntry l key) l, hdrop, List.append_nil] at he
    exact mem_take_lowerBound h he
  · intro hless
    rw [List.eq_nil_iff_forall_not_mem]
    intro e he
    exact BitVec.not_lt.mpr (mem_drop_lowerBound h he) (hless e (List.mem_of_mem_drop he))

/-- What adding leaves: the entry between the lesser and the greater ones. -/
theorem add_eq (h : Ascending l) (e : Entry) : add l e =
    l.filter (fun x => x.toId < e.toId) ++ e :: l.filter fun x => e.toId < x.toId := by
  set it := lowerBound lessEntry l e with hit
  have htake : ∀ x ∈ l.take it, x.toId < e.toId := fun x hx => mem_take_lowerBound h hx
  have hdrop : ∀ x ∈ l.drop it, e.toId ≤ x.toId := fun x hx => mem_drop_lowerBound h hx
  have hlow : l.filter (fun x => x.toId < e.toId) = l.take it := by
    conv_lhs => rw [← List.take_append_drop it l]
    rw [List.filter_append, List.filter_eq_self.mpr fun x hx => decide_eq_true (htake x hx),
      List.filter_eq_nil_iff.mpr fun x hx => by simpa using hdrop x hx, List.append_nil]
  have hhigh : l.filter (fun x => e.toId < x.toId) = (l.drop it).filter fun x => e.toId < x.toId := by
    conv_lhs => rw [← List.take_append_drop it l]
    rw [List.filter_append, List.filter_eq_nil_iff.mpr fun x hx => by
      simpa using BitVec.le_of_lt (htake x hx), List.nil_append]
  rw [hlow, hhigh]
  unfold add
  dsimp only
  rw [← hit]
  have hasc := h.drop it
  cases hrest : l.drop it with
  | nil => rfl
  | cons y rest =>
      rw [hrest] at hasc hdrop
      have hbehind : rest.filter (fun x => e.toId < x.toId) = rest := by
        rw [List.filter_eq_self]
        intro x hx
        have hxy := List.rel_of_pairwise_cons hasc hx
        have hle := hdrop y List.mem_cons_self
        rw [BitVec.le_def] at hle
        rw [BitVec.lt_def] at hxy
        exact decide_eq_true (BitVec.lt_def.mpr (by omega))
      dsimp only
      by_cases heq : y.toId = e.toId
      · rw [if_pos heq, List.filter_cons_of_neg (by simp [heq]), hbehind, heq]
      · have hlt : e.toId < y.toId := by
          have hle := hdrop y List.mem_cons_self
          rw [BitVec.le_def] at hle
          rw [BitVec.lt_def]
          have hne : e.toId.toNat ≠ y.toId.toNat := fun hnat => heq (BitVec.eq_of_toNat_eq hnat.symm)
          omega
        rw [if_neg heq, List.filter_cons_of_pos (by simpa using hlt), hbehind]

theorem ascending_add (h : Ascending l) (e : Entry) : Ascending (add l e) := by
  rw [add_eq h]
  refine List.pairwise_append.mpr ⟨h.sublist List.filter_sublist, ?_, ?_⟩
  · refine List.pairwise_cons.mpr ⟨fun x hx => ?_, h.sublist List.filter_sublist⟩
    exact of_decide_eq_true (List.mem_filter.mp hx).2
  · intro x hx y hy
    have hxe : x.toId < e.toId := of_decide_eq_true (List.mem_filter.mp hx).2
    cases hy with
    | head => exact hxe
    | tail _ hy => exact BitVec.lt_trans hxe (of_decide_eq_true (List.mem_filter.mp hy).2)

theorem mem_add (h : Ascending l) (e x : Entry) : x ∈ add l e ↔ x = e ∨ x ∈ l ∧ x.toId ≠ e.toId := by
  have hne : x.toId ≠ e.toId ↔ x.toId < e.toId ∨ e.toId < x.toId := by
    rw [BitVec.lt_def, BitVec.lt_def, ne_eq, ← BitVec.toNat_inj]
    omega
  rw [add_eq h, List.mem_append, List.mem_cons, List.mem_filter, List.mem_filter, hne, decide_eq_true_eq,
    decide_eq_true_eq]
  tauto

/-! ## Runs -/

/-- What an update is to make of the segment. -/
def Done (l l' : List Entry) : Update → Prop
  | .add e | .set e => ∀ x, x ∈ l' ↔ x = e ∨ x ∈ l ∧ x.toId ≠ e.toId
  | .setMasked key keyMask value valueMask => keyMask.toId = maxInt →
      ∃ written : Entry → Entry, l' = l.map written ∧ ∀ e, (written e).toId = e.toId ∧
        ∀ i : Fin 32, (written e).desc.getLsbD i =
          if Agrees key e keyMask ∧ valueMask.desc.getLsbD i then value.desc.getLsbD i
          else e.desc.getLsbD i
  | .remove key mask => l' = l.filter fun e => ¬Agrees key e mask

/-- Every query finds the entries it asks for, in order. -/
def Answers (l : List Entry) : Prop :=
  ∀ key mask, EntryListHolder.get l key mask = l.filter fun e => Agrees key e mask ∧ e.desc ≠ maxInt

/-- Every update of the run does what it is to do, and every segment of it is ascending and answers
its queries. -/
def Exact (trace : Bool) : List Entry → List Update → Prop
  | l, [] => Ascending l ∧ Answers l
  | l, op :: ops => Ascending l ∧ Answers l ∧
      ∃ l', update trace l op = some l' ∧ Done l l' op ∧ Exact trace l' ops

/-- With the trace on, `set(key)` has an entry to print. -/
def Printable (trace : Bool) (l : List Entry) : Update → Prop
  | .set key => trace = true → ∃ e ∈ l, key.toId ≤ e.toId
  | _ => True

/-- Every update of the run has an entry to print. -/
def AllPrintable (trace : Bool) : List Entry → List Update → Prop
  | _, [] => True
  | l, op :: ops => Printable trace l op ∧ ∀ l', update trace l op = some l' → AllPrintable trace l' ops

/-- One update. -/
theorem update_eq_some {op : Update} (h : Ascending l) (hprint : Printable trace l op) :
    ∃ l', update trace l op = some l' ∧ Ascending l' ∧ Done l l' op := by
  cases op with
  | add e => exact ⟨_, rfl, ascending_add h e, mem_add h e⟩
  | set key =>
      refine ⟨add l key, ?_, ascending_add h key, mem_add h key⟩
      cases trace with
      | false => exact set_false l key
      | true =>
          obtain ⟨e, he, hle⟩ := hprint rfl
          have hdrop : l.drop (lowerBound lessEntry l key) ≠ [] := by
            rw [ne_eq, drop_lowerBound_eq_nil h]
            exact fun hless => BitVec.not_lt.mpr hle (hless e he)
          calc update true l (.set key) = EntryListHolder.set true l key := rfl
            _ = some (add l key) := by rw [set_true, if_neg hdrop]
  | setMasked key keyMask value valueMask =>
      refine ⟨_, rfl, ascending_setMasked h, fun hones => ?_⟩
      have hmask : keyMask.toId ||| valueMask.toId = maxInt := by
        rw [hones]
        exact BitVec.allOnes_or
      refine ⟨masked key keyMask value valueMask, setMasked_eq h hmask, fun e => ⟨masked_toId, fun i => ?_⟩⟩
      unfold masked
      by_cases hequals : equals key e keyMask = true
      · rw [if_pos hequals, rewrite_desc]
        simp [equals_iff.mp hequals]
      · rw [if_neg hequals, if_neg fun hboth => hequals (equals_iff.mpr hboth.1)]
  | remove key mask =>
      refine ⟨_, rfl, ?_, remove_eq h key mask⟩
      rw [remove_eq h]
      exact h.sublist List.filter_sublist

/-- An update without an entry to print reads behind the segment. -/
theorem update_eq_none {op : Update} (h : Ascending l) (hprint : ¬Printable trace l op) :
    update trace l op = none := by
  cases op with
  | set key =>
      unfold Printable at hprint
      push Not at hprint
      obtain ⟨rfl, hless⟩ := hprint
      have hdrop := (drop_lowerBound_eq_nil h).mpr fun e he => BitVec.not_le.mp (hless e he)
      calc update true l (.set key) = EntryListHolder.set true l key := rfl
        _ = none := by rw [set_true, if_pos hdrop]
  | add e => exact absurd trivial hprint
  | setMasked key keyMask value valueMask => exact absurd trivial hprint
  | remove key mask => exact absurd trivial hprint

/-- **The segment is an exact sorted map, where no trace reads behind its end.** -/
theorem exact_iff (trace : Bool) (l : List Entry) (ops : List Update) (h : Ascending l) :
    Exact trace l ops ↔ AllPrintable trace l ops := by
  induction ops generalizing l with
  | nil => exact ⟨fun _ => trivial, fun _ => ⟨h, get_eq h⟩⟩
  | cons op ops ih =>
      unfold Exact AllPrintable
      constructor
      · rintro ⟨-, -, l', hupdate, -, hexact⟩
        have hprint : Printable trace l op := by
          by_contra hnot
          rw [update_eq_none h hnot] at hupdate
          cases hupdate
        obtain ⟨l₁, hl₁, hasc, -⟩ := update_eq_some h hprint
        rw [hupdate] at hl₁
        cases hl₁
        refine ⟨hprint, fun l₂ hl₂ => ?_⟩
        rw [hupdate] at hl₂
        cases hl₂
        exact (ih l' hasc).mp hexact
      · rintro ⟨hprint, hrest⟩
        obtain ⟨l', hupdate, hasc, hdone⟩ := update_eq_some h hprint
        exact ⟨h, get_eq h, l', hupdate, hdone, (ih l' hasc).mpr (hrest l' hupdate)⟩

instance (trace : Bool) (l : List Entry) : (op : Update) → Decidable (Printable trace l op)
  | .set key => inferInstanceAs (Decidable (trace = true → ∃ e ∈ l, key.toId ≤ e.toId))
  | .add _ | .setMasked _ _ _ _ | .remove _ _ => isTrue trivial

/-- Whether a run has its entries to print can be computed. -/
instance decidableAllPrintable (trace : Bool) :
    (l : List Entry) → (ops : List Update) → Decidable (AllPrintable trace l ops)
  | _, [] => isTrue trivial
  | l, op :: ops =>
    have : DecidablePred fun l' => AllPrintable trace l' ops := fun l' =>
      decidableAllPrintable trace l' ops
    inferInstanceAs (Decidable (Printable trace l op ∧
      ∀ l' ∈ update trace l op, AllPrintable trace l' ops))

/-- Entries are put in, set with the trace on, changed under a mask and taken out. -/
def traced : List Update :=
  [.add ⟨5, 1⟩, .set ⟨7, 4⟩, .setMasked ⟨5, 0⟩ ⟨maxInt, 0⟩ ⟨0, 8⟩ ⟨0, 9⟩, .set ⟨1, 2⟩,
    .remove ⟨0, 4⟩ ⟨0, 4⟩, .set ⟨9, 6⟩]

/-- The segment stays sorted and has what was asked for. -/
theorem exact_iff_traced : Exact true [⟨3, 1⟩, ⟨7, 2⟩, ⟨9, 1⟩] traced ∧
    traced.foldlM (update true) [⟨3, 1⟩, ⟨7, 2⟩, ⟨9, 1⟩] =
      some [⟨1, 2⟩, ⟨3, 1⟩, ⟨5, 8⟩, ⟨9, 6⟩] :=
  ⟨(exact_iff true [⟨3, 1⟩, ⟨7, 2⟩, ⟨9, 1⟩] traced (by unfold Ascending; decide)).mpr (by decide),
    by decide⟩

/-- The trace of the first entry of a segment. -/
theorem traced_first_entry : ¬∀ trace l ops, Ascending l → Exact trace l ops := by
  intro h
  obtain ⟨-, -, l', hupdate, -⟩ := h true [] [.set ⟨5, 0x10⟩] .nil
  cases hupdate

end Oce.Buddy
