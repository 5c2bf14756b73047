import Oce.MemcProxy.Analysis.PhotoStore

/-!
# What the cache of photos gives back

What was stored last for a photo is what a get should find for it. It does so if the entries read back
as they were set, and no two targets share a key; and since a get may be for one id alone, only then.
-/

set_option autoImplicit false

namespace Oce.MemcProxy.PhotoCache

open Oce.Base

variable {lz : QuickLz} {o o' : Op} {id : Int64} {uid : Int32}

/-! ## What should be found -/

namespace Op

/-- A content, or the mark that there is none. -/
def content? : Op → Option (Option PhotoContent)
  | setPhotoContent content => some (some content)
  | setEmptyPhotoContent _ => some none
  | _ => none

def rankInfo? : Op → Option (Option PhotoRankInfo)
  | setPhotoRankInfo rankInfo => some (some rankInfo)
  | setEmptyPhotoRankInfo _ => some none
  | _ => none

/-- No photos are the mark. -/
def seq : Op → List ContentItem
  | setPhotoSeq _ photoSeq => photoSeq
  | _ => []

end Op

/-- The content that was stored last for a photo. -/
def lastContent (history : List Op) (id : Int64) : Option (Option PhotoContent) :=
  (lastOf history (.content id)).bind Op.content?

def lastRankInfo (history : List Op) (id : Int64) : Option (Option PhotoRankInfo) :=
  (lastOf history (.rankInfo id)).bind Op.rankInfo?

def lastSeq (history : List Op) (uid : Int32) : List ContentItem :=
  ((lastOf history (.seq uid)).map Op.seq).getD []

/-- After the history every get for one id or more returns what was stored last for each; whatever the
memory of a new object holds. -/
structure RoundTrip (l : Libraries) (history : List Op) : Prop where
  content : ∀ ids ≠ [], ∃ dict, getPhotoContentDict l (stored l history) ids = some dict ∧
    ∀ id ∈ ids, dict id = lastContent history id
  rankInfo : ∀ memory, ∀ ids ≠ [], ∃ dict,
    getPhotoRankInfoDict l memory (stored l history) ids = some dict ∧
      ∀ id ∈ ids, dict id = lastRankInfo history id
  seq : ∀ uid, getPhotoSeq l (stored l history) uid = lastSeq history uid

/-! ## The libraries -/

/-- Parsing gives a message back, also with the two bytes behind it. -/
structure Protobuf.Inverts {α : Type} (p : Protobuf α) (m : α) : Prop where
  serialized : p.parse (p.serialize m) = m
  tail : p.parse (p.serialize m ++ [9, 0]) = m

structure QuickLz.Inverts (lz : QuickLz) (data : List Byte) : Prop where
  size : lz.sizeDecompressed (lz.compress data) = data.length
  decompress : lz.decompress (lz.compress data) = data

/-- What a content is of which nothing has been parsed. -/
def defaultContent : PbPhotoContent := ⟨0, [], [], [], 0, []⟩

/-- Parsing nothing leaves the defaults, which are short. -/
structure Libraries.Defaults (l : Libraries) : Prop where
  content : l.content.parse [] = defaultContent
  short : (l.content.serialize defaultContent).length + 2 ≤ 16 * 1024
  seq : l.seq.parse [] = []

namespace Op

/-- The libraries give back what a set hands them. -/
def Inverted (l : Libraries) : Op → Prop
  | setPhotoContent content =>
    l.content.Inverts content.pb ∧ l.lz.Inverts (l.content.serialize content.pb)
  | setPhotoSeq _ photoSeq =>
    l.seq.Inverts (photoSeqPb photoSeq) ∧ l.lz.Inverts (l.seq.serialize (photoSeqPb photoSeq))
  | _ => True

end Op

/-! ## When an entry reads back -/

/-- The value is not the mark, and if it is compressed the buffer holds it. -/
def Packs (lz : QuickLz) (mark serialized : List Byte) : Prop :=
  (pack lz serialized).2 ≠ mark ∧ ((pack lz serialized).1 = true → serialized.length + 2 ≤ 16 * 1024)

/-- Which sets are read back as they were. -/
def Op.Fits (l : Libraries) : Op → Prop
  | .setPhotoContent content =>
    0 ∉ content.albumname ∧ Packs l.lz kEmptyPhotoContent (l.content.serialize content.pb)
  | .setPhotoRankInfo _ => False
  | .setPhotoSeq _ photoSeq =>
    photoSeq ≠ [] → Packs l.lz kEmptyPhotoSeq (l.seq.serialize (photoSeqPb photoSeq))
  | .setEmptyPhotoContent id | .setEmptyPhotoRankInfo id => id = -1
  | .setEmptyPhotoSeq _ => True

instance (lz : QuickLz) (mark serialized : List Byte) : Decidable (Packs lz mark serialized) :=
  inferInstanceAs (Decidable (_ ∧ _))

instance (l : Libraries) (o : Op) : Decidable (o.Fits l) := by
  cases o <;> unfold Op.Fits <;> infer_instance

instance (history : List Op) : Decidable (DistinctKeys history) :=
  inferInstanceAs (Decidable (∀ o ∈ history, ∀ o' ∈ history, _))

section Read

variable {l : Libraries}

/-- What is packed is unpacked, unless the buffer is too small. -/
theorem unpack_pack {data : List Byte} (h : lz.Inverts data) :
    unpack lz (entryOf (pack lz data)) =
      if (pack lz data).1 = true then (if data.length + 2 > 16 * 1024 then [] else data ++ [9, 0])
      else data := by
  unfold pack compress entryOf
  dsimp only
  by_cases hshort : (lz.compress data).length < data.length
  · rw [if_pos hshort]
    unfold unpack decompress
    dsimp only
    rw [if_pos rfl, if_pos rfl, if_pos (by decide), h.size, h.decompress, List.take_length]
  · rw [if_neg hshort]
    unfold unpack
    dsimp only
    rw [if_neg Bool.false_ne_true, if_neg Bool.false_ne_true, if_neg (by decide)]

theorem parse_unpack {α : Type} {p : Protobuf α} {m : α} (hp : p.Inverts m)
    (hlz : lz.Inverts (p.serialize m)) :
    p.parse (unpack lz (entryOf (pack lz (p.serialize m)))) =
      if (pack lz (p.serialize m)).1 = true → (p.serialize m).length + 2 ≤ 16 * 1024 then m
      else p.parse [] := by
  rw [unpack_pack hlz]
  by_cases hpacked : (pack lz (p.serialize m)).1 = true
  · rw [if_pos hpacked]
    by_cases hbig : (p.serialize m).length + 2 > 16 * 1024
    · rw [if_pos hbig, if_neg fun h => Nat.not_le.mpr hbig (h hpacked)]
    · rw [if_neg hbig, if_pos fun _ => Nat.le_of_not_lt hbig, hp.tail]
  · rw [if_neg hpacked, if_pos fun h => absurd h hpacked, hp.serialized]

theorem cString_ne {s : List Byte} (h : (0 : Byte) ∈ s) : cString s ≠ s := by
  intro heq
  rw [← heq] at h
  exact absurd (List.mem_takeWhile_imp h) (by decide)

theorem pbToIce_pb (content : PhotoContent) :
    photoContentPbToIce content.pb = { content with albumname := cString content.albumname } := rfl

/-- **The entry of a content.** -/
theorem read_content (hdefault : l.Defaults) {content : PhotoContent}
    (h : (Op.setPhotoContent content).Inverted l) (key : List Byte) :
    readPhotoContent l (key, (Op.setPhotoContent content).entry l) = (content.photoid, some content) ↔
      (Op.setPhotoContent content).Fits l := by
  obtain ⟨hp, hlz⟩ := h
  have hparse := parse_unpack hp hlz
  have hentry : (Op.setPhotoContent content).entry l =
      entryOf (pack l.lz (l.content.serialize content.pb)) := rfl
  unfold readPhotoContent Op.Fits Packs
  dsimp only
  rw [hentry]
  by_cases hmark : (pack l.lz (l.content.serialize content.pb)).2 = kEmptyPhotoContent
  · rw [if_pos (show (entryOf _).value = _ from hmark)]
    exact ⟨fun heq => absurd (Prod.mk.inj heq).2 nofun, fun hfits => absurd hmark hfits.2.1⟩
  · rw [if_neg (show (entryOf _).value ≠ _ from hmark), hparse]
    split
    · rename_i hfit
      rw [pbToIce_pb]
      constructor
      · intro heq
        have halbum := congrArg PhotoContent.albumname (Option.some.inj (Prod.mk.inj heq).2)
        exact ⟨fun hzero => cString_ne hzero halbum, hmark, hfit⟩
      · rintro ⟨hzero, -, -⟩
        rw [cString_eq_self hzero]
    · rename_i hbig
      rw [hdefault.content]
      refine ⟨fun heq => absurd ?_ hbig, fun hfits => absurd hfits.2.2 hbig⟩
      have hcontent := Option.some.inj (Prod.mk.inj heq).2
      rw [← hcontent]
      exact fun _ => hdefault.short

/-- What is set for a photo is read back as it was exactly if it fits. -/
theorem read_content? (hdefault : l.Defaults) (h : o.Inverted l) (ho : o.target = .content id) :
    ∃ v, o.content? = some v ∧
      (readPhotoContent l (getPhotoContentKey id, o.entry l) = (id, v) ↔ o.Fits l) := by
  cases o with
  | setPhotoContent content =>
      cases ho
      exact ⟨_, rfl, read_content hdefault h _⟩
  | setEmptyPhotoContent i =>
      cases ho
      have hread : readPhotoContent l (getPhotoContentKey id, (Op.setEmptyPhotoContent id).entry l) =
          (-1, none) := by
        rw [← getPhotoId4Content_key id]
        exact if_pos rfl
      refine ⟨none, rfl, ?_⟩
      rw [hread]
      exact ⟨fun heq => (Prod.mk.inj heq).1.symm, fun hfits => by rw [show id = -1 from hfits]⟩
  | setPhotoRankInfo _ => cases ho
  | setEmptyPhotoRankInfo _ => cases ho
  | setPhotoSeq _ _ => cases ho
  | setEmptyPhotoSeq _ => cases ho

/-- A rank info is read under whatever id is in the memory. -/
theorem read_rankInfo? (ho : o.target = .rankInfo id) : ∃ v, o.rankInfo? = some v ∧
    ((∀ memory, readPhotoRankInfo l memory (getPhotoRankInfoKey id, o.entry l) = (id, v)) ↔ o.Fits l) := by
  cases o with
  | setPhotoRankInfo rankInfo =>
      cases ho
      refine ⟨_, rfl, fun h => ?_, fun hfits => absurd hfits id⟩
      obtain ⟨other, hother⟩ : ∃ other : Int64, other ≠ rankInfo.photoid := by
        by_cases hzero : rankInfo.photoid = 0
        · exact ⟨1, by rw [hzero]; decide⟩
        · exact ⟨0, Ne.symm hzero⟩
      have hread := h fun _ => ⟨other, 0, 0, 0, 0⟩
      unfold readPhotoRankInfo at hread
      split at hread
      · exact absurd (Prod.mk.inj hread).2 nofun
      · exact absurd (Prod.mk.inj hread).1 hother
  | setEmptyPhotoRankInfo i =>
      cases ho
      have hread : ∀ memory, readPhotoRankInfo l memory
          (getPhotoRankInfoKey id, (Op.setEmptyPhotoRankInfo id).entry l) = (-1, none) := by
        intro memory
        rw [← getPhotoId4RankInfo_key id]
        exact if_pos rfl
      refine ⟨none, rfl, fun h => ?_, fun hfits memory => ?_⟩
      · have heq := h fun _ => ⟨0, 0, 0, 0, 0⟩
        rw [hread] at heq
        exact (Prod.mk.inj heq).1.symm
      · rw [hread, show id = -1 from hfits]
  | setPhotoContent _ => cases ho
  | setEmptyPhotoContent _ => cases ho
  | setPhotoSeq _ _ => cases ho
  | setEmptyPhotoSeq _ => cases ho

theorem photoSeqPbToIce_pb (photoSeq : List ContentItem) :
    photoSeqPbToIce (photoSeqPb photoSeq) = photoSeq := by
  unfold photoSeqPbToIce photoSeqPb
  rw [List.map_map]
  exact List.map_id photoSeq

/-- A sequence is read back exactly when it fits. -/
theorem read_seq (hdefault : l.Defaults) (h : o.Inverted l) (ho : o.target = .seq uid) :
    readPhotoSeq l (o.entry l) = o.seq ↔ o.Fits l := by
  cases o with
  | setPhotoSeq i photoSeq =>
      obtain ⟨hp, hlz⟩ := h
      have hparse := parse_unpack hp hlz
      unfold readPhotoSeq Op.Fits Packs Op.seq
      dsimp only
      by_cases hnil : photoSeq = []
      · have hentry : (Op.setPhotoSeq i photoSeq).entry l = entryOf (false, []) := congrArg entryOf (if_pos hnil)
        rw [hentry, if_neg (by decide)]
        refine ⟨fun _ hne => absurd hnil hne, fun _ => ?_⟩
        have hunpack : unpack l.lz (entryOf (false, [])) = [] := if_neg (by decide)
        rw [hunpack, hdefault.seq, hnil]
        rfl
      · have hentry : (Op.setPhotoSeq i photoSeq).entry l =
            entryOf (pack l.lz (l.seq.serialize (photoSeqPb photoSeq))) := congrArg entryOf (if_neg hnil)
        rw [hentry]
        by_cases hmark : (pack l.lz (l.seq.serialize (photoSeqPb photoSeq))).2 = kEmptyPhotoSeq
        · rw [if_pos (show (entryOf _).value = _ from hmark)]
          exact ⟨fun heq => absurd heq.symm hnil, fun hfits => absurd hmark (hfits hnil).1⟩
        · rw [if_neg (show (entryOf _).value ≠ _ from hmark), hparse]
          split
          · rename_i hfit
            exact ⟨fun _ _ => ⟨hmark, hfit⟩, fun _ => photoSeqPbToIce_pb photoSeq⟩
          · rename_i hbig
            rw [hdefault.seq]
            exact ⟨fun heq => absurd heq.symm hnil, fun hfits => absurd (hfits hnil).2 hbig⟩
  | setEmptyPhotoSeq i => exact ⟨fun _ => trivial, fun _ => if_pos rfl⟩
  | setPhotoContent _ => cases ho
  | setEmptyPhotoContent _ => cases ho
  | setPhotoRankInfo _ => cases ho
  | setEmptyPhotoRankInfo _ => cases ho

end Read

/-! ## Gets -/

section Gets

variable {l : Libraries} {history : List Op} {α : Type} {keyOf : Int64 → List Byte}
  {targetOf : Int64 → Target} {read : List Byte × Entry → Int64 × α} {view : Op → Option α}

/-- Entries that read back as they were set are found under their ids. -/
theorem getDict_right (hkeyOf : ∀ id, (targetOf id).key = keyOf id)
    (htargetOf : Function.Injective targetOf) (hkeys : DistinctKeys history)
    (hread : ∀ id o, lastUnder history (keyOf id) = some o →
      ∃ j v, o.target = targetOf j ∧ view o = some v ∧ read (keyOf j, o.entry l) = (j, v))
    {ids : List Int64} (hids : ids ≠ []) : ∃ dict, getDict (stored l history) keyOf read ids = some dict ∧
      ∀ id ∈ ids, dict id = (lastOf history (targetOf id)).bind view := by
  obtain ⟨dict, hdict, hsome, hunder⟩ := @getDict_eq α (stored l history) keyOf read ids hids
  refine ⟨dict, hdict, fun id hid => ?_⟩
  have hvalue : ∀ v, dict id = some v → (lastOf history (targetOf id)).bind view = some v := by
    intro v hv
    obtain ⟨i, -, entry, hentry, hr⟩ := hsome id v hv
    rw [stored_eq] at hentry
    obtain ⟨o, ho, rfl⟩ := Option.map_eq_some_iff.mp hentry
    obtain ⟨j, v', hj, hview, hback⟩ := hread i o ho
    have hkey := (lastUnder_mem ho).2
    have hkeyj : keyOf j = keyOf i := by rw [← hkeyOf, ← hj, hkey]
    rw [← hkeyj, hback] at hr
    obtain ⟨rfl, rfl⟩ := Prod.mk.inj hr
    have hlast := lastOf_of_lastUnder (hkey ▸ ho)
    rw [hj] at hlast
    rw [hlast]
    exact hview
  cases hd : dict id with
  | some v => exact (hvalue v hd).symm
  | none =>
      cases hlast : lastOf history (targetOf id) with
      | none => rfl
      | some o =>
          -- the last set for the photo is the last under its key, and its entry is found
          have ho := hkeys.lastUnder hlast
          rw [hkeyOf] at ho
          obtain ⟨j, v, hj, -, hback⟩ := hread id o ho
          obtain rfl : j = id := htargetOf (hj.symm.trans (lastOf_mem hlast).2)
          have hentry : stored l history (keyOf j) = some (o.entry l) := by
            rw [stored_eq, ho]
            rfl
          have hfound := hunder j hid _ hentry
          rw [hback, hd] at hfound
          cases hfound

/-- What a get for one id finds has been read from the entry under its key. -/
theorem read_of_right (hright : ∃ dict, getDict (stored l history) keyOf read [id] = some dict ∧
      ∀ i ∈ [id], dict i = (lastOf history (targetOf i)).bind view)
    (ho : lastUnder history (keyOf id) = some o) (ho' : lastOf history (targetOf id) = some o')
    {v : α} (hv : view o' = some v) : read (keyOf id, o.entry l) = (id, v) := by
  obtain ⟨dict, hdict, heq⟩ := hright
  obtain ⟨dict', hdict', hsome, -⟩ :=
    @getDict_eq α (stored l history) keyOf read [id] (List.cons_ne_nil id [])
  obtain rfl : dict' = dict := Option.some.inj (hdict'.symm.trans hdict)
  have hd := heq id List.mem_cons_self
  rw [ho', Option.bind_some, hv] at hd
  obtain ⟨i, hi, entry, hentry, hr⟩ := hsome id v hd
  obtain rfl := List.mem_singleton.mp hi
  rw [stored_eq, ho] at hentry
  rw [← Option.some.inj hentry] at hr
  exact hr

/-- Two photos with one key are the same if its entry is read under both. -/
theorem target_of_read (hkeyOf : ∀ id, (targetOf id).key = keyOf id) {j : Int64} {v v' : α}
    (hj : o.target = targetOf j) (hkey : o.target.key = keyOf id)
    (hback : read (keyOf j, o.entry l) = (j, v)) (hread : read (keyOf id, o.entry l) = (id, v')) :
    o.target = targetOf id := by
  have hkeyj : keyOf j = keyOf id := by rw [← hkeyOf, ← hj, hkey]
  rw [← hkeyj, hback] at hread
  rw [hj, (Prod.mk.inj hread).1]

theorem getPhotoSeq_eq (ho : lastUnder history (getPhotoSeqKey uid) = some o) :
    getPhotoSeq l (stored l history) uid = readPhotoSeq l (o.entry l) ∧ lastSeq history uid = o.seq := by
  have htarget := Target.seq_of_key (lastUnder_mem ho).2
  have hlast := lastOf_of_lastUnder ((lastUnder_mem ho).2.symm ▸ ho)
  rw [htarget] at hlast
  unfold getPhotoSeq lastSeq
  rw [stored_eq, ho, hlast]
  exact ⟨rfl, rfl⟩

end Gets

/-! ## The round trip -/

section RoundTrip

variable {l : Libraries} {history : List Op}

/-- A set that is read is one that fits. -/
theorem RoundTrip.fits (h : RoundTrip l history) (hdefault : l.Defaults) (hinv : o.Inverted l)
    (ho : lastUnder history o.target.key = some o) : o.Fits l := by
  have hlast := lastOf_of_lastUnder ho
  cases ht : o.target with
  | content id =>
      rw [ht] at ho hlast
      obtain ⟨v, hv, hiff⟩ := read_content? hdefault hinv ht
      exact hiff.mp (read_of_right (h.content [id] (List.cons_ne_nil id [])) ho hlast hv)
  | rankInfo id =>
      rw [ht] at ho hlast
      obtain ⟨v, hv, hiff⟩ := read_rankInfo? (l := l) ht
      exact hiff.mp fun memory =>
        read_of_right (h.rankInfo memory [id] (List.cons_ne_nil id [])) ho hlast hv
  | seq uid =>
      rw [ht] at ho
      obtain ⟨hget, hseq⟩ := getPhotoSeq_eq (l := l) ho
      have hright := h.seq uid
      rw [hget, hseq] at hright
      exact (read_seq hdefault hinv ht).mp hright

/-- What stands under the key of a target for which something has been set is for that target. -/
theorem RoundTrip.target_eq (h : RoundTrip l history) (hdefault : l.Defaults)
    (hinv : ∀ o ∈ history, o.Inverted l) {t : Target} (ho : lastUnder history t.key = some o)
    (ho' : lastOf history t = some o') : o.target = t := by
  obtain ⟨hmem, hkey⟩ := lastUnder_mem ho
  obtain ⟨hmem', ht'⟩ := lastOf_mem ho'
  have hfits := h.fits hdefault (hinv o hmem) (hkey.symm ▸ ho)
  cases t with
  | content id =>
      obtain ⟨j, hj⟩ := Target.content_of_key hkey
      obtain ⟨v, -, hiff⟩ := read_content? hdefault (hinv o hmem) hj
      obtain ⟨v', hv', -⟩ := read_content? hdefault (hinv o' hmem') ht'
      have hread := read_of_right (h.content [id] (List.cons_ne_nil id [])) ho ho' hv'
      exact target_of_read (fun _ => rfl) hj hkey (hiff.mpr hfits) hread
  | rankInfo id =>
      obtain ⟨j, hj⟩ := Target.rankInfo_of_key hkey
      obtain ⟨v, -, hiff⟩ := read_rankInfo? (l := l) hj
      obtain ⟨v', hv', -⟩ := read_rankInfo? (l := l) ht'
      let memory : List Byte → PhotoRankInfo := fun _ => ⟨0, 0, 0, 0, 0⟩
      have hread := read_of_right (h.rankInfo memory [id] (List.cons_ne_nil id [])) ho ho' hv'
      exact target_of_read (fun _ => rfl) hj hkey (hiff.mpr hfits memory) hread
  | seq uid => exact Target.seq_of_key hkey

theorem RoundTrip.distinctKeys (h : RoundTrip l history) (hdefault : l.Defaults)
    (hinv : ∀ o ∈ history, o.Inverted l) : DistinctKeys history := by
  intro o ho o' ho' hkey
  obtain ⟨last, hlast⟩ := exists_lastUnder ho
  obtain ⟨o₁, ho₁⟩ := exists_lastOf ho
  obtain ⟨o₂, ho₂⟩ := exists_lastOf ho'
  have htarget := h.target_eq hdefault hinv hlast ho₁
  rw [← htarget]
  exact h.target_eq hdefault hinv (hkey ▸ hlast) ho₂

/-- If the last value under each key fits, every kind is read back. -/
theorem roundTrip_of_fits (hdefault : l.Defaults) (hinv : ∀ o ∈ history, o.Inverted l)
    (hfits : ∀ o ∈ history, lastUnder history o.target.key = some o → o.Fits l)
    (hkeys : DistinctKeys history) : RoundTrip l history where
  content ids hids := by
    refine getDict_right (fun _ => rfl) (fun _ _ h => Target.content.inj h) hkeys (fun id o ho => ?_) hids
    obtain ⟨hmem, hkey⟩ := lastUnder_mem ho
    obtain ⟨j, hj⟩ := Target.content_of_key hkey
    obtain ⟨v, hv, hiff⟩ := read_content? hdefault (hinv o hmem) hj
    exact ⟨j, v, hj, hv, hiff.mpr (hfits o hmem (hkey.symm ▸ ho))⟩
  rankInfo memory ids hids := by
    refine getDict_right (fun _ => rfl) (fun _ _ h => Target.rankInfo.inj h) hkeys (fun id o ho => ?_) hids
    obtain ⟨hmem, hkey⟩ := lastUnder_mem ho
    obtain ⟨j, hj⟩ := Target.rankInfo_of_key hkey
    obtain ⟨v, hv, hiff⟩ := read_rankInfo? (l := l) hj
    exact ⟨j, v, hj, hv, hiff.mpr (hfits o hmem (hkey.symm ▸ ho)) memory⟩
  seq uid := by
    cases hlast : lastUnder history (getPhotoSeqKey uid) with
    | none =>
        have hnone : lastOf history (.seq uid) = none := by
          cases hof : lastOf history (.seq uid) with
          | none => rfl
          | some o => exact absurd (hlast.symm.trans (hkeys.lastUnder hof)) nofun
        unfold getPhotoSeq lastSeq
        rw [stored_eq, hlast, hnone]
        rfl
    | some o =>
        obtain ⟨hmem, hkey⟩ := lastUnder_mem hlast
        obtain ⟨hget, hseq⟩ := getPhotoSeq_eq (l := l) hlast
        rw [hget, hseq]
        have hfit := hfits o hmem (hkey.symm ▸ hlast)
        exact (read_seq hdefault (hinv o hmem) (Target.seq_of_key hkey)).mpr hfit

end RoundTrip

/-- **The photos come back exactly if the last set under every key fits, and no two targets share a
key.** -/
theorem roundTrip_iff (l : Libraries) (history : List Op) (hdefault : l.Defaults)
    (hinv : ∀ o ∈ history, o.Inverted l) :
    RoundTrip l history ↔
      (∀ o ∈ history, lastUnder history o.target.key = some o → o.Fits l) ∧ DistinctKeys history :=
  ⟨fun h => ⟨fun o ho hlast => h.fits hdefault (hinv o ho) hlast, h.distinctKeys hdefault hinv⟩,
    fun ⟨hfits, hkeys⟩ => roundTrip_of_fits hdefault hinv hfits hkeys⟩

/-! ### Examples -/

def samplePhoto : PhotoContent := ⟨5, 2, ascii "u", ascii "a", ascii "t", []⟩

def sampleSeq : List ContentItem := [⟨5, 2⟩]

/-- A type of which one message is known, beside the one that is there by default. -/
def oneMessage {α : Type} [DecidableEq α] (m default : α) (bytes defaultBytes : List Byte) :
    Protobuf α where
  serialize x := if x = m then bytes else defaultBytes
  parse text := if text = bytes ∨ text = bytes ++ [9, 0] then m else default

/-- Protobuf and quicklz on the bytes of the samples, in which nothing repeats. -/
def sampleLibraries : Libraries where
  content := oneMessage samplePhoto.pb defaultContent [8, 5, 18, 1, 117, 26, 1, 116, 34, 1, 97, 40, 2]
    [8, 0, 18, 0, 26, 0, 34, 0, 40, 0]
  rankInfo := oneMessage ⟨0, 0, 0, 0, 0⟩ ⟨0, 0, 0, 0, 0⟩ [8, 0, 16, 0, 24, 0, 32, 0, 40, 0] []
  seq := oneMessage (photoSeqPb sampleSeq) [] [10, 4, 8, 5, 16, 2] []
  lz :=
    { compress := fun data =>
        [69, UInt8.ofNat (data.length + 7), UInt8.ofNat data.length, 0, 0, 0, 128] ++ data
      sizeDecompressed := fun data => (data.getD 2 0).toNat
      decompress := fun data => data.drop 7 }

theorem sampleLibraries_defaults : sampleLibraries.Defaults :=
  ⟨by decide +kernel, by decide +kernel, by decide +kernel⟩

/-- A photo without content is not found. -/
theorem empty_lost : ¬RoundTrip sampleLibraries [.setEmptyPhotoContent 5] := by
  intro h
  have hfits := h.fits sampleLibraries_defaults (o := .setEmptyPhotoContent 5) trivial (by decide +kernel)
  exact absurd (show (5 : Int64) = -1 from hfits) (by decide)

/-- A photo that is set after it was marked empty, and the photos of two users. -/
theorem roundTrip_iff_sample : RoundTrip sampleLibraries
    [.setEmptyPhotoContent 5, .setPhotoContent samplePhoto, .setPhotoSeq 2 sampleSeq, .setEmptyPhotoSeq 3] := by
  have hcontent : (Op.setPhotoContent samplePhoto).Inverted sampleLibraries :=
    ⟨⟨by decide +kernel, by decide +kernel⟩, ⟨by decide +kernel, by decide +kernel⟩⟩
  have hseq : (Op.setPhotoSeq 2 sampleSeq).Inverted sampleLibraries :=
    ⟨⟨by decide +kernel, by decide +kernel⟩, ⟨by decide +kernel, by decide +kernel⟩⟩
  refine (roundTrip_iff sampleLibraries _ sampleLibraries_defaults ?_).mpr
    ⟨by decide +kernel, by decide +kernel⟩
  simp only [List.forall_mem_cons]
  exact ⟨trivial, hcontent, hseq, trivial, fun _ h => absurd h List.not_mem_nil⟩

end Oce.MemcProxy.PhotoCache
