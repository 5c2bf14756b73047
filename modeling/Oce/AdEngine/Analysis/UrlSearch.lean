import Mathlib.Tactic.ByCases
import Mathlib.Tactic.SplitIfs
import Oce.AdEngine.Model.InvertedIndex
import Oce.Base.Wildcard

/-!
# When a search of the tree is right

The node at a path is labelled with whether it was made as an end and with the zones inserted there,
and both can be told from the list of the inserts. A search walks one path only. As long as at every
character the patterns leave no other way to read the text than the one it takes, it finds what
matches; a text with a `*` in it is taken for the pattern itself.

The search keeps one node where the patterns may allow several. `Clear` follows it through a text
and asks at each character that they do not: that no pattern goes on with the character and another
with a `*`, that a number being read at a `*` is not taken to pieces, that nothing but a number stands
for a `*`. Then the search is right. A `*` in the text is taken for a `*` in a pattern, so a tree is
right for every text only if it holds no pattern with one.
-/

set_option autoImplicit false

namespace Oce.AdEngine

open Oce.Base DictNode DictTree

section Tree

variable {ζ : Type} {n m : DictNode ζ} {zone : ζ} {c : Byte} {u v p s w : List Byte}
  {inserts : List (List Byte × ζ)} {opened last : Bool}

/-! ## Nodes by their paths -/

namespace DictNode

/-- The node at the end of a path. -/
def nodeAt : List Byte → DictNode ζ → Option (DictNode ζ)
  | [], n => some n
  | c :: u, n => (n.node c).bind (nodeAt u)

theorem nodeAt_append (u v : List Byte) (n : DictNode ζ) :
    nodeAt (u ++ v) n = (nodeAt u n).bind (nodeAt v) := by
  induction u generalizing n with
  | nil => rfl
  | cons c u ih =>
      rw [List.cons_append, nodeAt, nodeAt]
      cases n.node c with
      | none => rfl
      | some m => exact ih m

theorem nodeAt_snoc (h : nodeAt u n = some m) (c : Byte) : nodeAt (u ++ [c]) n = m.node c := by
  rw [nodeAt_append, h, Option.bind_some, nodeAt]
  cases m.node c with
  | none => rfl
  | some m' => rfl

/-- Whether a pattern ends at the node, and its zones. -/
def label (n : DictNode ζ) : Bool × List ζ := (n.wordend, n.refererZones)

/-- The label at the end of a path. -/
def labelAt (u : List Byte) (n : DictNode ζ) : Option (Bool × List ζ) := (nodeAt u n).map label

theorem labelAt_cons (c : Byte) (u : List Byte) (n : DictNode ζ) :
    labelAt (c :: u) n = (n.node c).bind (labelAt u) := by
  unfold labelAt
  rw [nodeAt]
  cases n.node c with
  | none => rfl
  | some m => rfl

theorem node_setNode_self (n : DictNode ζ) (c : Byte) (m : DictNode ζ) :
    (n.setNode c m).node c = some m := if_pos rfl

theorem node_setNode_ne {d : Byte} (h : d ≠ c) (n m : DictNode ζ) :
    (n.setNode c m).node d = n.node d := if_neg h

end DictNode

/-! ## Inserts -/

/-- What an insert makes of the label at a path of its text. -/
def touched (p : List Byte) (zone : ζ) (u : List Byte) : Option (Bool × List ζ) → Bool × List ζ
  | some (wordend, zones) => (wordend, zones ++ if u = p then [zone] else [])
  | none => (u = p, if u = p then [zone] else [])

/-- An insertion marks the nodes on its way. -/
theorem labelAt_insertAt (zone : ζ) (p u : List Byte) (n : DictNode ζ) :
    labelAt u (insertAt zone p n) = if u <+: p then some (touched p zone u (labelAt u n)) else labelAt u n := by
  induction u generalizing p n with
  | nil =>
      rw [if_pos List.nil_prefix]
      cases p with
      | nil => rfl
      | cons d p =>
          change some (n.wordend, n.refererZones) = some (n.wordend, n.refererZones ++ [])
          rw [List.append_nil]
  | cons c u ih =>
      cases p with
      | nil =>
          rw [if_neg (by simp)]
          rfl
      | cons d p =>
          rw [insertAt, labelAt_cons, labelAt_cons]
          by_cases hcd : c = d
          · subst hcd
            have htouched : ∀ l, touched (c :: p) zone (c :: u) l = touched p zone u l := by
              intro l
              cases l <;> simp [touched]
            rw [node_setNode_self, Option.bind_some, ih, htouched]
            simp only [List.cons_prefix_cons, true_and]
            unfold DictNode.insert
            cases hnode : n.node c with
            | some m => rfl
            | none =>
                rw [Option.getD_none, Option.bind_none]
                by_cases hfront : u <+: p
                · rw [if_pos hfront, if_pos hfront]
                  cases u with
                  | nil => cases p <;> simp [touched, labelAt, nodeAt, label, wordend, refererZones]
                  | cons e u => rfl
                · rw [if_neg hfront, if_neg hfront]
                  cases u with
                  | nil => exact absurd List.nil_prefix hfront
                  | cons e u => rfl
          · rw [node_setNode_ne hcd, if_neg fun hfront => hcd (List.cons_prefix_cons.mp hfront).1]

/-- Some pattern begins with the text. -/
def Goes (inserts : List (List Byte × ζ)) (u : List Byte) : Prop := ∃ e ∈ inserts, u <+: e.1

/-- The text is a pattern, and was so before a longer pattern came that begins with it. -/
def Ends (inserts : List (List Byte × ζ)) (u : List Byte) : Prop :=
  u ≠ [] ∧ (inserts.find? fun e => u.isPrefixOf e.1).map Prod.fst = some u

instance (inserts : List (List Byte × ζ)) (u : List Byte) : Decidable (Goes inserts u) :=
  inferInstanceAs (Decidable (∃ e ∈ inserts, _))

instance (inserts : List (List Byte × ζ)) (u : List Byte) : Decidable (Ends inserts u) :=
  inferInstanceAs (Decidable (_ ∧ _))

/-- The zones of a pattern in the order they came. -/
def insertedZones (inserts : List (List Byte × ζ)) (u : List Byte) : List ζ :=
  (inserts.filter fun e => u = e.1).map Prod.snd

theorem goes_concat {e : List Byte × ζ} : Goes (inserts ++ [e]) u ↔ Goes inserts u ∨ u <+: e.1 := by
  unfold Goes
  simp [or_and_right, exists_or]

theorem ends_concat_of_goes {e : List Byte × ζ} (h : Goes inserts u) :
    Ends (inserts ++ [e]) u ↔ Ends inserts u := by
  obtain ⟨e', he', hfront⟩ := h
  have hsome : (inserts.find? fun e => u.isPrefixOf e.1).isSome = true :=
    List.find?_isSome.mpr ⟨e', he', List.isPrefixOf_iff_prefix.mpr hfront⟩
  unfold Ends
  rw [List.find?_append, Option.or_of_isSome hsome]

theorem ends_concat_of_not_goes {e : List Byte × ζ} (h : ¬Goes inserts u) (hfront : u <+: e.1) :
    Ends (inserts ++ [e]) u ↔ u ≠ [] ∧ u = e.1 := by
  have hnone : (inserts.find? fun e => u.isPrefixOf e.1) = none := by
    rw [List.find?_eq_none]
    intro e' he' hfront'
    exact h ⟨e', he', List.isPrefixOf_iff_prefix.mp hfront'⟩
  have hone : ([e].find? fun e => u.isPrefixOf e.1) = some e :=
    List.find?_cons_of_pos (List.isPrefixOf_iff_prefix.mpr hfront)
  unfold Ends
  rw [List.find?_append, hnone, Option.none_or, hone]
  simp [eq_comm]

theorem insertedZones_concat {e : List Byte × ζ} :
    insertedZones (inserts ++ [e]) u = insertedZones inserts u ++ if u = e.1 then [e.2] else [] := by
  unfold insertedZones
  rw [List.filter_append, List.map_append]
  by_cases h : u = e.1
  · rw [if_pos h, List.filter_cons_of_pos (by simpa using h)]
    rfl
  · rw [if_neg h, List.filter_cons_of_neg (by simpa using h)]
    rfl

theorem insertedZones_of_not_goes (h : ¬Goes inserts u) : insertedZones inserts u = [] := by
  unfold insertedZones
  rw [List.map_eq_nil_iff, List.filter_eq_nil_iff]
  intro e he heq
  exact h ⟨e, he, (of_decide_eq_true heq) ▸ List.prefix_rfl⟩

/-- **The labels of the tree.** -/
theorem labelAt_build (inserts : List (List Byte × ζ)) (u : List Byte) :
    labelAt u (build inserts) =
      if u = [] ∨ Goes inserts u then some (decide (Ends inserts u), insertedZones inserts u) else none := by
  induction inserts using List.reverseRecOn with
  | nil =>
      cases u with
      | nil => rfl
      | cons c u =>
          rw [if_neg (by simp [Goes])]
          rfl
  | append_singleton inserts e ih =>
      have hbuild : build (inserts ++ [e]) = insertAt e.2 e.1 (build inserts) := by
        unfold build
        rw [List.foldl_append]
        rfl
      rw [hbuild, labelAt_insertAt, ih, insertedZones_concat]
      by_cases hfront : u <+: e.1
      · have hnew : u = [] ∨ Goes (inserts ++ [e]) u := .inr (goes_concat.mpr (.inr hfront))
        rw [if_pos hfront, if_pos hnew]
        by_cases hgoes : Goes inserts u
        · have hold : u = [] ∨ Goes inserts u := .inr hgoes
          rw [if_pos hold, touched, decide_eq_decide.mpr (ends_concat_of_goes hgoes)]
        · by_cases hnil : u = []
          · subst hnil
            rw [if_pos (.inl rfl), touched]
            simp [Ends]
          · have hold : ¬(u = [] ∨ Goes inserts u) := not_or.mpr ⟨hnil, hgoes⟩
            have hends : decide (Ends (inserts ++ [e]) u) = decide (u = e.1) := by
              rw [decide_eq_decide, ends_concat_of_not_goes hgoes hfront, and_iff_right hnil]
            rw [if_neg hold, touched, insertedZones_of_not_goes hgoes, List.nil_append, hends]
      · have hne : u ≠ e.1 := fun heq => hfront (heq ▸ List.prefix_rfl)
        have hnil : u ≠ [] := fun heq => hfront (heq ▸ List.nil_prefix)
        rw [if_neg hfront, if_neg hne, List.append_nil]
        by_cases hgoes : Goes inserts u
        · have hold : u = [] ∨ Goes inserts u := .inr hgoes
          have hnew : u = [] ∨ Goes (inserts ++ [e]) u := .inr (goes_concat.mpr (.inl hgoes))
          rw [if_pos hold, if_pos hnew, decide_eq_decide.mpr (ends_concat_of_goes hgoes)]
        · have hold : ¬(u = [] ∨ Goes inserts u) := not_or.mpr ⟨hnil, hgoes⟩
          have hnew : ¬(u = [] ∨ Goes (inserts ++ [e]) u) := by
            rw [goes_concat]
            tauto
          rw [if_neg hold, if_neg hnew]

end Tree

variable {ζ : Type} {n m : DictNode ζ} {c : Byte} {u p s w : List Byte}
  {inserts : List (List Byte × ζ)} {opened last : Bool} {read : List Byte → Prop}

/-! ## Nodes of the tree -/

/-- What a node of the tree says of the patterns. -/
theorem spec_of_nodeAt (h : nodeAt u (build inserts) = some m) :
    (u = [] ∨ Goes inserts u) ∧ m.wordend = decide (Ends inserts u) ∧ m.refererZones = insertedZones inserts u := by
  have hlabel : labelAt u (build inserts) = some (label m) := by
    unfold labelAt
    rw [h]
    rfl
  rw [labelAt_build] at hlabel
  by_cases hgoes : u = [] ∨ Goes inserts u
  · rw [if_pos hgoes] at hlabel
    obtain ⟨hends, hzones⟩ := Prod.mk.inj (Option.some.inj hlabel)
    exact ⟨hgoes, hends.symm, hzones.symm⟩
  · rw [if_neg hgoes] at hlabel
    cases hlabel

theorem not_goes_of_nodeAt (h : nodeAt u (build inserts) = none) : ¬Goes inserts u := by
  intro hgoes
  have hlabel := labelAt_build inserts u
  unfold labelAt at hlabel
  rw [h, if_pos (.inr hgoes)] at hlabel
  cases hlabel

theorem goes_of_nodeAt_snoc (h : nodeAt (u ++ [c]) (build inserts) = some m) : Goes inserts (u ++ [c]) :=
  (spec_of_nodeAt h).1.resolve_left (by simp)

theorem goes_of_ends (h : Ends inserts u) : u ∈ inserts.map Prod.fst := by
  obtain ⟨-, hfind⟩ := h
  obtain ⟨e, he, rfl⟩ := Option.map_eq_some_iff.mp hfind
  exact List.mem_map_of_mem (List.mem_of_find?_eq_some he)

theorem Goes.of_front {e : List Byte × ζ} (he : e ∈ inserts) (h : u <+: e.1) : Goes inserts u := ⟨e, he, h⟩

/-! ## What a search is to find -/

/-- A node is found exactly where a pattern is read, and has the zones of one. -/
structure Finds (inserts : List (List Byte × ζ)) (read : List Byte → Prop) (r : Option (DictNode ζ)) :
    Prop where
  hit : ∀ m, r = some m → ∃ e ∈ inserts, read e.1 ∧ m.refererZones = insertedZones inserts e.1
  miss : r = none → ∀ e ∈ inserts, ¬read e.1

theorem Finds.congr {read' : List Byte → Prop} {r : Option (DictNode ζ)} (h : Finds inserts read' r)
    (hread : ∀ e ∈ inserts, read e.1 ↔ read' e.1) : Finds inserts read r := by
  constructor
  · intro m hm
    obtain ⟨e, he, hr, hzones⟩ := h.hit m hm
    exact ⟨e, he, (hread e he).mpr hr, hzones⟩
  · exact fun hr e he hread' => h.miss hr e he ((hread e he).mp hread')

theorem finds_none (h : ∀ e ∈ inserts, ¬read e.1) : Finds inserts read none :=
  ⟨fun _ hm => (nomatch hm), fun _ => h⟩

/-- The last character leads to a node that can be told by whether its path is a pattern. -/
theorem finds_landed (hm : nodeAt w (build inserts) = some m)
    (hends : w ∈ inserts.map Prod.fst → Ends inserts w) : Finds inserts (fun p => p = w) (m.landed true) := by
  obtain ⟨-, hword, hzones⟩ := spec_of_nodeAt hm
  unfold landed
  rw [hword]
  by_cases h : Ends inserts w
  · obtain ⟨e, he, hew⟩ := List.mem_map.mp (goes_of_ends h)
    rw [if_neg (by simp [h])]
    refine ⟨fun m' hm' => ⟨e, he, hew, ?_⟩, fun hnone => nomatch hnone⟩
    cases hm'
    rw [hzones, hew]
  · rw [if_pos (by simp [h])]
    apply finds_none
    rintro e he rfl
    exact h (hends (List.mem_map_of_mem he))

/-! ## Reading without a choice -/

/-- At no character of what is left of the text is there another way to read it than the one that is
taken; `u` is the path of the node, and `opened` says that a number is being read at its `*`. What is
read in the end is no pattern that came behind a longer one which begins with it. -/
def Clear (inserts : List (List Byte × ζ)) : List Byte → Bool → Bool → List Byte → Prop
  | u, opened, _, [] =>
    let w := if opened then u ++ [star] else u
    w ∈ inserts.map Prod.fst → Ends inserts w
  | u, true, _, c :: s =>
    c ≠ star ∧ ¬Goes inserts (u ++ [c]) ∧
      if isDigit c then
        ¬Goes inserts (u ++ [star, c]) ∧ ¬Goes inserts (u ++ [star, star]) ∧ Clear inserts u true true s
      else Goes inserts (u ++ [star, c]) → Clear inserts (u ++ [star, c]) false false s
  | u, false, last, c :: s =>
    (c = star → ¬Goes inserts (u ++ [star])) ∧
      if Goes inserts (u ++ [c]) then
        (isDigit c → ¬Goes inserts (u ++ [star])) ∧ Clear inserts (u ++ [c]) false (isDigit c) s
      else if isDigit c then Goes inserts (u ++ [star]) → Clear inserts u true true s
      else last = true → ¬Goes inserts (u ++ [star, c])

/-! ## One character -/

section Character

variable {e : List Byte × ζ} (he : e ∈ inserts)
include he

theorem rest_lit (hstar : c ≠ star) (h : isDigit c = true → ¬Goes inserts (u ++ [star])) :
    Rest star isDigit u false e.1 (c :: s) ↔ Rest star isDigit (u ++ [c]) false e.1 s := by
  rw [rest_cons_closed, and_iff_right hstar, or_iff_left]
  rintro ⟨hdigit, hrest⟩
  exact h hdigit (.of_front he hrest.prefix_open)

theorem not_rest_closed (hc : ¬Goes inserts (u ++ [c])) (h : isDigit c = true → ¬Goes inserts (u ++ [star])) :
    ¬Rest star isDigit u false e.1 (c :: s) := by
  rw [rest_cons_closed]
  rintro (⟨-, hrest⟩ | ⟨hdigit, hrest⟩)
  · exact hc (.of_front he hrest.prefix_closed)
  · exact h hdigit (.of_front he hrest.prefix_open)

theorem rest_begin (hc : ¬Goes inserts (u ++ [c])) (hdigit : isDigit c = true) :
    Rest star isDigit u false e.1 (c :: s) ↔ Rest star isDigit u true e.1 s := by
  rw [rest_cons_closed, and_iff_right hdigit, or_iff_right]
  rintro ⟨-, hrest⟩
  exact hc (.of_front he hrest.prefix_closed)

theorem rest_more (hc : ¬Goes inserts (u ++ [star, c])) (h : ¬Goes inserts (u ++ [star, star]))
    (hdigit : isDigit c = true) :
    Rest star isDigit u true e.1 (c :: s) ↔ Rest star isDigit u true e.1 s := by
  rw [rest_cons_open, and_iff_right hdigit, or_iff_right]
  apply not_rest_closed he
  · rwa [List.append_assoc]
  · intro _
    rwa [List.append_assoc]

theorem rest_over (hstar : c ≠ star) (hdigit : isDigit c = false) :
    Rest star isDigit u true e.1 (c :: s) ↔ Rest star isDigit (u ++ [star, c]) false e.1 s := by
  have hnot : ¬isDigit c = true := by simp [hdigit]
  rw [rest_cons_open, or_iff_left fun h => hnot h.1, rest_lit he hstar fun h => absurd h hnot,
    List.append_assoc]
  rfl

theorem not_rest_open (hc : ¬Goes inserts (u ++ [star, c])) (hdigit : isDigit c = false) :
    ¬Rest star isDigit u true e.1 (c :: s) := by
  have hnot : ¬isDigit c = true := by simp [hdigit]
  rw [rest_cons_open, or_iff_left fun h => hnot h.1]
  apply not_rest_closed he
  · rwa [List.append_assoc]
  · exact fun h => absurd h hnot

end Character

theorem bind_searchFrom_nil (last : Bool) (o : Option (DictNode ζ)) : o.bind (searchFrom last []) = o := by
  cases o with
  | none => rfl
  | some m => rfl

/-- From every node where there is no choice, the text is read as the patterns do. -/
def Searches (inserts : List (List Byte × ζ)) (s : List Byte) : Prop :=
  ∀ ⦃u n opened last⦄, nodeAt u (build inserts) = some n →
    (opened = true → last = true ∧ Goes inserts (u ++ [star])) → Clear inserts u opened last s →
      Finds inserts (fun p => Rest star isDigit u opened p s) (searchFrom last s n)

section Step

variable (ih : s ≠ [] → Searches inserts s)
include ih

/-- The search goes to the node at `w`, and so does every pattern. -/
theorem finds_go (hm : nodeAt w (build inserts) = some m) (hclear : Clear inserts w false (isDigit c) s)
    (hread : ∀ e ∈ inserts, Rest star isDigit u opened e.1 (c :: s) ↔ Rest star isDigit w false e.1 s) :
    Finds inserts (fun p => Rest star isDigit u opened p (c :: s))
      ((m.landed (s = [])).bind (searchFrom (isDigit c) s)) := by
  by_cases hnil : s = []
  · subst hnil
    rw [bind_searchFrom_nil]
    have hlast : Finds inserts (fun p => Rest star isDigit w false p []) (m.landed true) :=
      (finds_landed hm hclear).congr fun e he => rest_nil_closed
    exact hlast.congr hread
  · have hland : m.landed (decide (s = [])) = some m := by
      unfold landed
      simp [hnil]
    rw [hland, Option.bind_some]
    have hrest := ih hnil hm (fun h => absurd h Bool.false_ne_true) hclear
    exact hrest.congr hread

/-- The search stays and reads a number, and so does every pattern. -/
theorem finds_stay (hn : nodeAt u (build inserts) = some n)
    (hm : nodeAt (u ++ [star]) (build inserts) = some m) (hdigit : isDigit c = true)
    (hclear : Clear inserts u true true s)
    (hread : ∀ e ∈ inserts, Rest star isDigit u opened e.1 (c :: s) ↔ Rest star isDigit u true e.1 s) :
    Finds inserts (fun p => Rest star isDigit u opened p (c :: s))
      ((if s = [] then m.landed true else some n).bind (searchFrom (isDigit c) s)) := by
  by_cases hnil : s = []
  · subst hnil
    rw [if_pos rfl, bind_searchFrom_nil]
    have hlast : Finds inserts (fun p => Rest star isDigit u true p []) (m.landed true) :=
      (finds_landed hm hclear).congr fun e he => rest_nil_open
    exact hlast.congr hread
  · rw [if_neg hnil, Option.bind_some, hdigit]
    have hrest := ih hnil hn (fun _ => ⟨rfl, goes_of_nodeAt_snoc hm⟩) hclear
    exact hrest.congr hread

/-- A digit where there is a node of the `*`. -/
theorem finds_digit (hn : nodeAt u (build inserts) = some n)
    (hstarred : nodeAt (u ++ [star]) (build inserts) = some m) (hnot : ¬Goes inserts (u ++ [c]))
    (hdigit : isDigit c = true) (hclear : Clear inserts u opened last (c :: s)) :
    Finds inserts (fun p => Rest star isDigit u opened p (c :: s))
      ((if s = [] then m.landed true else some n).bind (searchFrom (isDigit c) s)) := by
  cases opened with
  | true =>
      obtain ⟨-, -, hclear⟩ := hclear
      rw [if_pos hdigit] at hclear
      obtain ⟨hnotc, hnotstar, hclear⟩ := hclear
      exact finds_stay ih hn hstarred hdigit hclear fun e he => rest_more he hnotc hnotstar hdigit
  | false =>
      obtain ⟨-, hclear⟩ := hclear
      rw [if_neg hnot, if_pos hdigit] at hclear
      have hgoes := goes_of_nodeAt_snoc hstarred
      exact finds_stay ih hn hstarred hdigit (hclear hgoes) fun e he => rest_begin he hnot hdigit

/-- A character behind a number that has been read. -/
theorem finds_over (hstarred : nodeAt (u ++ [star]) (build inserts) = some m) (hdigit : isDigit c = false)
    (hclear : Clear inserts u true last (c :: s)) :
    Finds inserts (fun p => Rest star isDigit u true p (c :: s))
      ((match m.node c with
        | some m' => m'.landed (s = [])
        | none => none).bind (searchFrom (isDigit c) s)) := by
  have hbehind := nodeAt_snoc hstarred c
  rw [List.append_assoc] at hbehind
  obtain ⟨hne, -, hclear⟩ := hclear
  rw [if_neg (by simp [hdigit])] at hclear
  cases hnode : m.node c with
  | some m' =>
      rw [hnode] at hbehind
      have hgoes : Goes inserts (u ++ [star, c]) := (spec_of_nodeAt hbehind).1.resolve_left (by simp)
      have hclear' : Clear inserts (u ++ [star, c]) false (isDigit c) s := by
        rw [hdigit]
        exact hclear hgoes
      exact finds_go ih hbehind hclear' fun e he => rest_over he hne hdigit
  | none =>
      rw [hnode] at hbehind
      exact finds_none fun e he => not_rest_open he (not_goes_of_nodeAt hbehind) hdigit

end Step

/-- **Where there is no choice, what is left of the text is read as the patterns do.** -/
theorem finds_searchFrom (hs : s ≠ []) : Searches inserts s := by
  induction s with
  | nil => exact absurd rfl hs
  | cons c s ih =>
      intro u n opened last hn hopen hclear
      have hchild := nodeAt_snoc hn c
      have hstarred := nodeAt_snoc hn star
      unfold searchFrom getNext2
      cases hnode : n.node c with
      | some m =>
          rw [hnode] at hchild
          have hgoes := goes_of_nodeAt_snoc hchild
          cases opened with
          | true => exact absurd hgoes hclear.2.1
          | false =>
              obtain ⟨hstar, hclear⟩ := hclear
              rw [if_pos hgoes] at hclear
              have hne : c ≠ star := fun heq => hstar heq (heq ▸ hgoes)
              exact finds_go ih hchild hclear.2 fun e he => rest_lit he hne hclear.1
      | none =>
          rw [hnode] at hchild
          have hnot := not_goes_of_nodeAt hchild
          cases hnodestar : n.node star with
          | none =>
              rw [hnodestar] at hstarred
              have hnotstar := not_goes_of_nodeAt hstarred
              cases opened with
              | true => exact absurd (hopen rfl).2 hnotstar
              | false => exact finds_none fun e he => not_rest_closed he hnot fun _ => hnotstar
          | some m =>
              rw [hnodestar] at hstarred
              dsimp only
              by_cases hdigit : isDigit c = true
              · rw [if_pos hdigit]
                simp only [decide_eq_true_eq]
                exact finds_digit ih hn hstarred hnot hdigit hclear
              · rw [if_neg hdigit]
                cases opened with
                | true =>
                    rw [if_pos (hopen rfl).1]
                    exact finds_over ih hstarred (by simpa using hdigit) hclear
                | false =>
                    -- no pattern goes on here, and the search finds none either
                    have hmiss : ∀ e ∈ inserts, ¬Rest star isDigit u false e.1 (c :: s) :=
                      fun e he => not_rest_closed he hnot fun h => absurd h hdigit
                    obtain ⟨-, hclear⟩ := hclear
                    rw [if_neg hnot, if_neg hdigit] at hclear
                    by_cases hlast : last = true
                    · have hbehind := nodeAt_snoc hstarred c
                      rw [List.append_assoc] at hbehind
                      rw [if_pos hlast]
                      cases hnode' : m.node c with
                      | some m' =>
                          rw [hnode'] at hbehind
                          have hgoes : Goes inserts (u ++ [star, c]) :=
                            (spec_of_nodeAt hbehind).1.resolve_left (by simp)
                          exact absurd hgoes (hclear hlast)
                      | none => exact finds_none hmiss
                    · rw [if_neg hlast]
                      exact finds_none hmiss

/-! ## The whole -/

/-- A search of the text finds something exactly where a pattern matches it, and then the zones of
one that does. -/
structure Right (inserts : List (List Byte × ζ)) (s : List Byte) : Prop where
  found : (∃ zones, search (build inserts) s = some zones) ↔
    ∃ e ∈ inserts, Matches star isDigit e.1 s
  zones : ∀ zones, search (build inserts) s = some zones →
    ∃ e ∈ inserts, Matches star isDigit e.1 s ∧ zones = insertedZones inserts e.1

theorem Finds.right (h : Finds inserts (fun p => Matches star isDigit p s) (searchFrom false s (build inserts))) :
    Right inserts s := by
  have hzones : ∀ zones, search (build inserts) s = some zones →
      ∃ e ∈ inserts, Matches star isDigit e.1 s ∧ zones = insertedZones inserts e.1 := by
    intro zones hsearch
    obtain ⟨m, hm, rfl⟩ := Option.map_eq_some_iff.mp hsearch
    exact h.hit m hm
  refine ⟨⟨?_, ?_⟩, hzones⟩
  · rintro ⟨zones, hsearch⟩
    obtain ⟨e, he, hmatch, -⟩ := hzones zones hsearch
    exact ⟨e, he, hmatch⟩
  · rintro ⟨e, he, hmatch⟩
    unfold search
    cases hm : searchFrom false s (build inserts) with
    | none => exact absurd hmatch (h.miss hm e he)
    | some m => exact ⟨_, rfl⟩

theorem right_of_clear (hs : s ≠ []) (h : Clear inserts [] false false s) : Right inserts s := by
  have hroot : nodeAt [] (build inserts) = some (build inserts) := rfl
  have hfinds := finds_searchFrom hs hroot (fun h => absurd h Bool.false_ne_true) h
  exact (hfinds.congr fun e _ => rest_start.symm).right

/-- Nothing is asked of an empty text but the empty pattern. -/
theorem right_nil_iff : Right inserts [] ↔ [] ∈ inserts.map Prod.fst := by
  have hsearch : search (build inserts) [] = some (build inserts).refererZones := rfl
  constructor
  · rintro ⟨hfound, -⟩
    obtain ⟨e, he, hmatch⟩ := hfound.mp ⟨_, hsearch⟩
    rw [← matches_nil_iff.mp hmatch]
    exact List.mem_map_of_mem he
  · intro h
    obtain ⟨e, he, hnil⟩ := List.mem_map.mp h
    have hmatch : Matches star isDigit e.1 [] := matches_nil_iff.mpr hnil
    refine ⟨⟨fun _ => ⟨e, he, hmatch⟩, fun _ => ⟨_, hsearch⟩⟩, fun zones hzones => ⟨e, he, hmatch, ?_⟩⟩
    rw [hsearch] at hzones
    cases hzones
    rw [hnil]
    exact (spec_of_nodeAt (u := []) (m := build inserts) rfl).2.2

/-- A text that is the path of a node is found exactly when a pattern was seen to end there. -/
theorem searchFrom_path (hn : nodeAt u (build inserts) = some n) (hgoes : Goes inserts (u ++ s)) (hs : s ≠ [])
    (last : Bool) : (searchFrom last s n).isSome = decide (Ends inserts (u ++ s)) := by
  induction s generalizing u n last with
  | nil => exact absurd rfl hs
  | cons c s ih =>
      have hchild := nodeAt_snoc hn c
      have hsplit : u ++ c :: s = u ++ [c] ++ s := by rw [List.append_assoc, List.singleton_append]
      rw [hsplit] at hgoes ⊢
      cases hnode : n.node c with
      | none =>
          rw [hnode] at hchild
          obtain ⟨e, he, hfront⟩ := hgoes
          exact absurd ⟨e, he, (List.prefix_append _ _).trans hfront⟩ (not_goes_of_nodeAt hchild)
      | some m =>
          rw [hnode] at hchild
          unfold searchFrom getNext2
          rw [hnode]
          dsimp only
          by_cases hnil : s = []
          · subst hnil
            obtain ⟨-, hword, -⟩ := spec_of_nodeAt hchild
            rw [bind_searchFrom_nil, List.append_nil]
            unfold landed
            rw [hword]
            by_cases hends : Ends inserts (u ++ [c])
            · simp [hends]
            · simp [hends]
          · have hland : m.landed (decide (s = [])) = some m := by
              unfold landed
              simp [hnil]
            rw [hland, Option.bind_some]
            exact ih hchild hgoes hnil _

/-- The first pattern with a `*` comes before all that begin with it. -/
theorem exists_ends (h : ∃ e ∈ inserts, DictNode.star ∈ e.1) :
    ∃ e ∈ inserts, DictNode.star ∈ e.1 ∧ Ends inserts e.1 := by
  obtain ⟨e, he, hstar⟩ := h
  have hsome : (inserts.find? fun e => decide (DictNode.star ∈ e.1)).isSome = true :=
    List.find?_isSome.mpr ⟨e, he, decide_eq_true hstar⟩
  obtain ⟨first, hfirst⟩ := Option.isSome_iff_exists.mp hsome
  obtain ⟨hmem, before, behind, hsplit, hbefore⟩ := List.find?_eq_some_iff_append.mp hfirst
  have hin : DictNode.star ∈ first.1 := of_decide_eq_true hmem
  have hfind : (inserts.find? fun e => first.1.isPrefixOf e.1) = some first := by
    rw [List.find?_eq_some_iff_append]
    refine ⟨List.isPrefixOf_iff_prefix.mpr List.prefix_rfl, before, behind, hsplit, fun e' he' => ?_⟩
    rw [Bool.not_eq_true', Bool.eq_false_iff]
    intro hfront
    have hin' : DictNode.star ∈ e'.1 := (List.isPrefixOf_iff_prefix.mp hfront).subset hin
    have hnot := hbefore e' he'
    simp [hin'] at hnot
  refine ⟨first, List.mem_of_find?_eq_some hfirst, hin, List.ne_nil_of_mem hin, ?_⟩
  rw [hfind]
  rfl

/-- The empty pattern is there, none has a `*`, and none came behind a longer one that begins with
it for the first time. -/
structure Plain (inserts : List (List Byte × ζ)) : Prop where
  empty : [] ∈ inserts.map Prod.fst
  literal : ∀ e ∈ inserts, star ∉ e.1
  ends : ∀ e ∈ inserts, e.1 ≠ [] → Ends inserts e.1

theorem Plain.clear (h : Plain inserts) (s : List Byte) (hs : u ++ s ≠ []) (last : Bool) :
    Clear inserts u false last s := by
  have hnot : ∀ v, star ∈ v → ¬Goes inserts v := by
    rintro v hv ⟨e, he, hfront⟩
    exact h.literal e he (hfront.subset hv)
  induction s generalizing u last with
  | nil =>
      intro hmem
      rw [List.append_nil] at hs
      obtain ⟨e, he, heq⟩ := List.mem_map.mp hmem
      have hends := h.ends e he (heq ▸ hs)
      rwa [heq] at hends
  | cons c s ih =>
      have hstar : ¬Goes inserts (u ++ [star]) := hnot _ (by simp)
      refine ⟨fun _ => hstar, ?_⟩
      split_ifs with hgoes hdigit
      · exact ⟨fun _ => hstar, ih (by simp) _⟩
      · exact fun hgoes' => absurd hgoes' hstar
      · exact fun _ => hnot _ (by simp)

/-- **The tree is right for every text exactly when it is plain**; and with any patterns it is right
for a text at which the patterns leave it no choice. -/
theorem search_right (inserts : List (List Byte × ζ)) :
    ((∀ s, Right inserts s) ↔ Plain inserts) ∧
      ∀ s, s ≠ [] → Clear inserts [] false false s → Right inserts s := by
  refine ⟨⟨fun h => ?_, fun h s => ?_⟩, fun s => right_of_clear⟩
  · have hpath : ∀ e ∈ inserts, e.1 ≠ [] →
        ((∃ e' ∈ inserts, Matches star isDigit e'.1 e.1) ↔ Ends inserts e.1) := by
      intro e he hne
      have hsome := searchFrom_path (u := []) (n := build inserts) rfl ⟨e, he, List.prefix_rfl⟩ hne false
      rw [← (h e.1).found, ← Option.isSome_iff_exists]
      unfold search
      rw [Option.isSome_map, hsome, decide_eq_true_eq]
      rfl
    have hliteral : ∀ e ∈ inserts, star ∉ e.1 := by
      intro e he hstar
      obtain ⟨first, hfirst, hin, hends⟩ := exists_ends ⟨e, he, hstar⟩
      obtain ⟨e', -, hmatch⟩ := (hpath first hfirst (List.ne_nil_of_mem hin)).mpr hends
      exact hmatch.not_mem rfl hin
    have hends : ∀ e ∈ inserts, e.1 ≠ [] → Ends inserts e.1 := fun e he hne =>
      (hpath e he hne).mp ⟨e, he, matches_self (hliteral e he)⟩
    exact ⟨right_nil_iff.mp (h []), hliteral, hends⟩
  · by_cases hs : s = []
    · rw [hs]
      exact right_nil_iff.mpr h.empty
    · exact right_of_clear hs (h.clear (u := []) s hs false)

/-- The pattern `/*` and the text `/7`. -/
theorem search_right_number : Right [([47, 42], 5)] [47, 55] := by
  have hclear : Clear [([47, 42], 5)] [] false false [47, 55] := by
    refine ⟨by decide, ?_⟩
    rw [if_pos (by decide)]
    refine ⟨by decide, by decide, ?_⟩
    rw [if_neg (by decide), if_pos (by decide)]
    intro _ _
    decide
  exact (search_right [([47, 42], 5)]).2 [47, 55] (by decide) hclear

/-- The pattern `/p` behind `/p*`. -/
theorem shorter_pattern_missed : ¬∀ (inserts : List (List Byte × ℕ)) (s : List Byte), Right inserts s := by
  intro h
  obtain ⟨zones, hsearch⟩ := (h [([47, 112, 42], 7), ([47, 112], 8)] [47, 112]).found.mpr
    ⟨([47, 112], 8), by simp, matches_self (by decide)⟩
  have hmiss : search (build [([47, 112, 42], 7), ([47, 112], 8)]) [47, 112] = none := rfl
  rw [hmiss] at hsearch
  cases hsearch

end Oce.AdEngine
