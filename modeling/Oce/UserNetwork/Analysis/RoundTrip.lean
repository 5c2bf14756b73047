import Mathlib.Logic.Equiv.Basic
import Mathlib.Tactic.SplitIfs
import Oce.UserNetwork.Model.Serialize

/-!
# What is serialised is read back

Fields are added in pieces: four bytes for an `int`, the length and the characters of a string. A
piece that does not fit makes the buffer grow to what it needs, or by 64 bytes if that is more.
Short of 2^31 bytes nothing but these 64 bytes overflows, and no piece is written past the room.

Every reader of a record takes off what the fields of the record were added as, so that the object
is filled with the records in their order. Short of 2^31 bytes the buffer is built unless a new room
overflows or a school is of the base class, and it is read back unless its compressed form is so
long that the count of it is negative.
-/

set_option autoImplicit false

namespace Oce.UserNetwork.Packed

open Oce.Base

variable {n cap len : ℕ} {ns : List ℕ} {str : List UInt8} {fs : List Field} {d : NetworkData}

/-! ## Pieces -/

@[simp] theorem length_intBytes (v : Int32) : (intBytes v).length = 4 := rfl

/-- Strings whose length is an `int`. -/
def Field.Short : Field → Prop
  | .int _ => True
  | .text str => str.length < 2 ^ 31

def Field.bytes : Field → List UInt8
  | .int value => intBytes value
  | .text str => intBytes (.ofNat str.length) ++ str

/-- What is written for a field, one write after the other. -/
def Field.pieces : Field → List (List UInt8)
  | .int value => [intBytes value]
  | .text str => intBytes (.ofNat str.length) :: if str = [] then [] else [str]

/-- The sizes of the pieces. -/
def Field.sizes : Field → List ℕ
  | .int _ => [4]
  | .text str => 4 :: if str = [] then [] else [str.length]

theorem Field.flatten_pieces (f : Field) : f.pieces.flatten = f.bytes := by
  cases f with
  | int value => exact List.append_nil _
  | text str =>
      change (intBytes (.ofNat str.length) :: if str = [] then [] else [str]).flatten = _ ++ str
      split_ifs with hempty
      · simp [hempty]
      · simp

theorem Field.map_length_pieces (f : Field) : f.pieces.map List.length = f.sizes := by
  cases f with
  | int value => rfl
  | text str =>
      change (intBytes (.ofNat str.length) :: if str = [] then [] else [str]).map List.length =
        4 :: if str = [] then [] else [str.length]
      split_ifs
      · rfl
      · rfl

theorem Field.sizes_pos (f : Field) : ∀ n ∈ f.sizes, 0 < n := by
  cases f with
  | int value => simp [sizes]
  | text str =>
      change ∀ n ∈ 4 :: if str = [] then [] else [str.length], 0 < n
      split_ifs with hempty
      · simp
      · simp [List.length_pos_iff, hempty]

namespace BinString

/-- The two steps of every addition. -/
def append (b : BinString) (bs : List UInt8) : Option BinString :=
  (b.reserve bs.length bs.length).bind fun b => b.write bs

theorem add_eq {f : Field} (hf : f.Short) (b : BinString) : f.add b = f.pieces.foldlM append b := by
  cases f with
  | int value =>
      change b.append (intBytes value) = (b.append (intBytes value)).bind some
      exact (Option.bind_fun_some _).symm
  | text str =>
      have hint : asInt str.length = str.length := asInt_of_isInt ⟨by omega, by exact_mod_cast hf⟩
      change ((b.append (intBytes (.ofNat str.length))).bind fun b' => if str = [] then some b'
        else (b'.reserve (asInt str.length) str.length).bind fun b => b.write str) =
        (b.append (intBytes (.ofNat str.length))).bind fun b' =>
          (if str = [] then [] else [str]).foldlM append b'
      refine congrArg (Option.bind _) (funext fun b' => ?_)
      split_ifs
      · rfl
      · rw [hint]
        exact (Option.bind_fun_some _).symm

theorem intSum_natCast {m : ℕ} (h : m + n < 2 ^ 31) : intSum m n = some ((m + n : ℕ) : ℤ) := by
  unfold intSum
  rw [if_pos ⟨by omega, by omega⟩]
  rfl

/-- The new room, unless it is no `int`. -/
theorem addBuffer_mk (buf : List UInt8) (cap : ℤ) (htotal : buf.length + n < 2 ^ 31) :
    addBuffer ⟨buf, buf.length, cap⟩ n =
      if buf.length + max 64 n < 2 ^ 31 then
        some ⟨buf, buf.length, (buf.length + max 64 n : ℕ)⟩
      else none := by
  have hn : asInt n = n := asInt_of_isInt ⟨by omega, by omega⟩
  have hsum : asInt ((buf.length : ℤ) + n) = buf.length + n := asInt_of_isInt ⟨by omega, by omega⟩
  unfold addBuffer
  dsimp only
  rw [hn, hsum]
  by_cases hsmall : n < 64
  · have hmax : max 64 n = 64 := Nat.max_eq_left (by omega)
    rw [if_pos (by omega), hmax]
    by_cases hint : buf.length + 64 < 2 ^ 31
    · have hroom : intSum buf.length 64 = some ((buf.length + 64 : ℕ) : ℤ) := intSum_natCast hint
      rw [hroom, if_pos hint, Option.bind_eq_bind, Option.bind_some, if_neg (by omega)]
    · have hroom : intSum buf.length 64 = none := if_neg fun hok => hint (by have := hok.2; omega)
      rw [hroom, if_neg hint]
      rfl
  · have hmax : max 64 n = n := Nat.max_eq_right (by omega)
    rw [if_neg (by omega), hmax, if_pos htotal, Option.bind_eq_bind, Option.bind_some, if_neg (by omega)]
    rfl

/-- A write that the room is large enough for. -/
theorem write_mk (buf bs : List UInt8) (hroom : buf.length + bs.length ≤ cap) :
    write ⟨buf, buf.length, cap⟩ bs = some ⟨buf ++ bs, (buf ++ bs).length, cap⟩ := by
  unfold write
  dsimp only
  rw [if_pos (by exact_mod_cast hroom), List.length_append]
  rfl

/-- **A piece is added in the room there is, or in a new one, unless the new one is no `int`.** -/
theorem append_mk (buf bs : List UInt8) (htotal : buf.length + bs.length < 2 ^ 31) :
    append ⟨buf, buf.length, cap⟩ bs =
      if buf.length + bs.length ≤ cap then some ⟨buf ++ bs, (buf ++ bs).length, cap⟩
      else if buf.length + max 64 bs.length < 2 ^ 31 then
        some ⟨buf ++ bs, (buf ++ bs).length, (buf.length + max 64 bs.length : ℕ)⟩
      else none := by
  unfold append reserve
  dsimp only
  rw [intSum_natCast htotal, Option.bind_eq_bind, Option.bind_some]
  by_cases hroom : buf.length + bs.length ≤ cap
  · rw [if_neg (by omega), if_pos hroom, Option.bind_some, write_mk buf bs hroom]
  · rw [if_pos (by omega), if_neg hroom, addBuffer_mk buf cap htotal]
    by_cases hgrow : buf.length + max 64 bs.length < 2 ^ 31
    · have hnew : buf.length + bs.length ≤ buf.length + max 64 bs.length :=
        Nat.add_le_add_left (Nat.le_max_right 64 _) _
      rw [if_pos hgrow, if_pos hgrow, Option.bind_some, write_mk buf bs hnew]
    · rw [if_neg hgrow, if_neg hgrow]
      rfl

end BinString

/-- Every time that the buffer has to grow, its new room is an `int`. The arguments are the bytes
there are, the room for them, and the sizes of the pieces to come. -/
def Fits : ℕ → ℕ → List ℕ → Prop
  | _, _, [] => True
  | len, cap, n :: ns =>
    if len + n ≤ cap then Fits (len + n) cap ns
    else len + max 64 n < 2 ^ 31 ∧ Fits (len + n) (len + max 64 n) ns

instance decidableFits : ∀ (len cap : ℕ) (ns : List ℕ), Decidable (Fits len cap ns)
  | _, _, [] => .isTrue trivial
  | len, cap, n :: ns =>
    have := decidableFits (len + n) cap ns
    have := decidableFits (len + n) (len + max 64 n) ns
    inferInstanceAs (Decidable (if len + n ≤ cap then _ else _ ∧ _))

theorem fits_cons (len cap n : ℕ) (ns : List ℕ) : Fits len cap (n :: ns) ↔
    if len + n ≤ cap then Fits (len + n) cap ns
    else len + max 64 n < 2 ^ 31 ∧ Fits (len + n) (len + max 64 n) ns := Iff.rfl

/-- Pieces that there is room for. -/
theorem fits_append_of_le (h : len + ns.sum ≤ cap) (ms : List ℕ) :
    Fits len cap (ns ++ ms) ↔ Fits (len + ns.sum) cap ms := by
  induction ns generalizing len with
  | nil => rfl
  | cons n ns ih =>
      rw [List.sum_cons] at h ⊢
      rw [List.cons_append, fits_cons, if_pos (by omega), ih (by omega), Nat.add_assoc]

/-- With 64 bytes to spare, no sum overflows. -/
theorem fits_of_sum_lt (h : len + ns.sum + 63 < 2 ^ 31) (hpos : ∀ n ∈ ns, 0 < n) : Fits len cap ns := by
  induction ns generalizing len cap with
  | nil => trivial
  | cons n ns ih =>
      have hn := hpos n List.mem_cons_self
      rw [List.sum_cons] at h
      have hrest : ∀ cap', Fits (len + n) cap' ns :=
        fun cap' => ih (by omega) fun m hm => hpos m (List.mem_cons_of_mem n hm)
      unfold Fits
      split_ifs
      · exact hrest cap
      · exact ⟨by omega, hrest _⟩

namespace BinString

variable {buf : List UInt8} {cap : ℕ}

/-- **All pieces are added where every new room fits**; otherwise the addition that makes the buffer
grow too far fails. -/
theorem foldlM_append (pieces : List (List UInt8))
    (htotal : buf.length + pieces.flatten.length < 2 ^ 31) :
    ∃ cap' : ℕ, pieces.foldlM append ⟨buf, buf.length, cap⟩ =
      if Fits buf.length cap (pieces.map List.length) then
        some ⟨buf ++ pieces.flatten, (buf ++ pieces.flatten).length, cap'⟩
      else none := by
  induction pieces generalizing buf cap with
  | nil => exact ⟨cap, by simp [Fits]⟩
  | cons bs pieces ih =>
      rw [List.flatten_cons, List.length_append] at htotal
      have hlen : (buf ++ bs).length = buf.length + bs.length := List.length_append
      have hrest : (buf ++ bs).length + pieces.flatten.length < 2 ^ 31 := by omega
      rw [List.foldlM_cons, append_mk buf bs (by omega), List.flatten_cons, ← List.append_assoc,
        List.map_cons]
      simp only [fits_cons]
      rw [← hlen]
      by_cases hroom : (buf ++ bs).length ≤ cap
      · simp only [if_pos hroom]
        exact ih hrest
      · simp only [if_neg hroom]
        by_cases hgrow : buf.length + max 64 bs.length < 2 ^ 31
        · simp only [hgrow, true_and]
          exact ih hrest
        · simp only [hgrow, false_and, if_false]
          exact ⟨cap, rfl⟩

end BinString

/-! ## Fields -/

theorem intOf_intBytes (v : Int32) : intOf (intBytes v) = v := by
  have hlt : v.toBitVec.toNat < 2 ^ 32 := v.toBitVec.isLt
  apply Int32.toBitVec_inj.mp
  apply BitVec.eq_of_toNat_eq
  change (_ + 2 ^ 8 * (_ + 2 ^ 8 * (_ + 2 ^ 8 * (_ + 2 ^ 8 * 0)))) % 2 ^ 32 = v.toBitVec.toNat
  simp only [UInt8.toNat_ofNat']
  omega

theorem reads_getInt (assign : Int32 → NetworkData → NetworkData) (v : Int32) (d : NetworkData) :
    Reads (getInt assign) d v (assign v d) (intBytes v) := by
  have hnext := Reads.next d (intBytes v) (fun bs => assign (intOf bs)) (length_intBytes v)
  have hread : Reads (getInt assign) d (intOf (intBytes v)) (assign (intOf (intBytes v)) d)
    (intBytes v ++ []) := hnext.bind (Reads.pure _ _)
  rwa [intOf_intBytes, List.append_nil] at hread

theorem reads_getString (hstr : str.length < 2 ^ 31) (d : NetworkData) :
    Reads getString d str d (intBytes (.ofNat str.length) ++ str) := by
  apply (reads_getInt (fun _ d => d) (.ofNat str.length) d).bind
  rw [Int32.toInt_ofNat_of_lt hstr, if_neg (by omega)]
  exact Reads.next d str (fun _ d => d) rfl

section

variable {α : Type} {d d' : NetworkData} {w : α} {bs : List UInt8}

theorem reads_int {v : Int32} {f : Int32 → NetworkReader α} (h : Reads (f v) d w d' bs) :
    Reads (getLocal >>= f) d w d' ((Field.int v).bytes ++ bs) := (reads_getInt _ v d).bind h

theorem reads_text {f : List UInt8 → NetworkReader α} (hstr : (Field.text str).Short)
    (h : Reads (f str) d w d' bs) :
    Reads (getString >>= f) d w d' ((Field.text str).bytes ++ bs) := (reads_getString hstr d).bind h

end

/-! ## Records -/

/-- The fields of a record that is of the derived class. -/
def ElementarySchoolInfo.packed (r : ElementarySchoolInfo) : List Field :=
  [.int (r.id.getD 0), .int r.elementarySchoolId, .text r.elementarySchoolName,
    .int r.elementarySchoolYear]

def JuniorHighSchoolInfo.packed (r : JuniorHighSchoolInfo) : List Field :=
  [.int (r.id.getD 0), .int r.juniorHighSchoolId, .text r.juniorHighSchoolName,
    .int r.juniorHighSchoolYear]

variable {userId : Int32}

theorem reads_readNetwork (r : Network) (huser : r.userId = userId) (hshort : ∀ f ∈ r.fields, f.Short)
    (d : NetworkData) :
    Reads (readNetwork userId) d () { d with networks := d.networks ++ [r] } (r.fields.flatMap Field.bytes) := by
  subst huser
  unfold Network.fields at hshort ⊢
  apply reads_int
  apply reads_int
  apply reads_int
  apply reads_text (hshort _ (by simp))
  apply reads_int
  apply reads_text (hshort _ (by simp))
  apply reads_int
  apply reads_int
  exact Reads.fill _ d

theorem reads_readHighSchool (r : HighSchoolInfo) (huser : r.userId = userId) (hshort : ∀ f ∈ r.fields, f.Short)
    (d : NetworkData) :
    Reads (readHighSchool userId) d () { d with highschools := d.highschools ++ [r] } (r.fields.flatMap Field.bytes) := by
  subst huser
  unfold HighSchoolInfo.fields at hshort ⊢
  apply reads_int
  apply reads_int
  apply reads_text (hshort _ (by simp))
  apply reads_int
  apply reads_text (hshort _ (by simp))
  apply reads_text (hshort _ (by simp))
  apply reads_text (hshort _ (by simp))
  exact Reads.fill _ d

theorem reads_readUniversity (r : UniversityInfo) (huser : r.userId = userId) (hshort : ∀ f ∈ r.fields, f.Short)
    (d : NetworkData) :
    Reads (readUniversity userId) d () { d with universities := d.universities ++ [r] } (r.fields.flatMap Field.bytes) := by
  subst huser
  unfold UniversityInfo.fields at hshort ⊢
  apply reads_int
  apply reads_int
  apply reads_text (hshort _ (by simp))
  apply reads_text (hshort _ (by simp))
  apply reads_text (hshort _ (by simp))
  apply reads_text (hshort _ (by simp))
  apply reads_int
  exact Reads.fill _ d

theorem reads_readWorkspace (r : WorkspaceInfo) (huser : r.userId = userId) (hshort : ∀ f ∈ r.fields, f.Short)
    (d : NetworkData) :
    Reads (readWorkspace userId) d () { d with workspaces := d.workspaces ++ [r] } (r.fields.flatMap Field.bytes) := by
  subst huser
  unfold WorkspaceInfo.fields at hshort ⊢
  apply reads_int
  apply reads_int
  apply reads_text (hshort _ (by simp))
  apply reads_text (hshort _ (by simp))
  apply reads_text (hshort _ (by simp))
  apply reads_text (hshort _ (by simp))
  apply reads_int
  apply reads_text (hshort _ (by simp))
  apply reads_int
  apply reads_int
  apply reads_int
  apply reads_int
  apply reads_int
  apply reads_int
  apply reads_int
  exact Reads.fill _ d

theorem reads_readCollege (r : CollegeInfo) (huser : r.userId = userId) (hshort : ∀ f ∈ r.fields, f.Short)
    (d : NetworkData) :
    Reads (readCollege userId) d () { d with colleges := d.colleges ++ [r] } (r.fields.flatMap Field.bytes) := by
  subst huser
  unfold CollegeInfo.fields at hshort ⊢
  apply reads_int
  apply reads_int
  apply reads_text (hshort _ (by simp))
  apply reads_text (hshort _ (by simp))
  apply reads_int
  exact Reads.fill _ d

theorem reads_readElementary (r : ElementarySchoolInfo) (huser : r.userId = userId) (hid : r.id.isSome)
    (hshort : ∀ f ∈ r.packed, f.Short) (d : NetworkData) :
    Reads (readElementary userId) d () { d with elementaries := d.elementaries ++ [r] }
      (r.packed.flatMap Field.bytes) := by
  subst huser
  obtain ⟨id, userId, schoolId, schoolName, schoolYear⟩ := r
  obtain ⟨id, rfl⟩ := Option.isSome_iff_exists.mp hid
  unfold ElementarySchoolInfo.packed at hshort ⊢
  apply reads_int
  apply reads_int
  apply reads_text (hshort _ (by simp))
  apply reads_int
  exact Reads.fill _ d

theorem reads_readJuniorHighSchool (r : JuniorHighSchoolInfo) (huser : r.userId = userId) (hid : r.id.isSome)
    (hshort : ∀ f ∈ r.packed, f.Short) (d : NetworkData) :
    Reads (readJuniorHighSchool userId) d () { d with juniorhighschools := d.juniorhighschools ++ [r] }
      (r.packed.flatMap Field.bytes) := by
  subst huser
  obtain ⟨id, userId, schoolId, schoolName, schoolYear⟩ := r
  obtain ⟨id, rfl⟩ := Option.isSome_iff_exists.mp hid
  unfold JuniorHighSchoolInfo.packed at hshort ⊢
  apply reads_int
  apply reads_int
  apply reads_text (hshort _ (by simp))
  apply reads_int
  exact Reads.fill _ d

theorem reads_readRegion (r : RegionInfo) (huser : r.userId = userId) (hshort : ∀ f ∈ r.fields, f.Short)
    (d : NetworkData) :
    Reads (readRegion userId) d () { d with regions := d.regions ++ [r] } (r.fields.flatMap Field.bytes) := by
  subst huser
  unfold RegionInfo.fields at hshort ⊢
  apply reads_int
  apply reads_int
  apply reads_text (hshort _ (by simp))
  apply reads_text (hshort _ (by simp))
  exact Reads.fill _ d

/-! ## The whole object -/

/-- The fields of an object whose schools are of the derived classes. -/
def NetworkData.packed (d : NetworkData) : List Field :=
  [.int d.userId] ++ seqFields Network.fields d.networks ++
    seqFields HighSchoolInfo.fields d.highschools ++ seqFields UniversityInfo.fields d.universities ++
    seqFields WorkspaceInfo.fields d.workspaces ++ seqFields CollegeInfo.fields d.colleges ++
    seqFields ElementarySchoolInfo.packed d.elementaries ++
    seqFields JuniorHighSchoolInfo.packed d.juniorhighschools ++ seqFields RegionInfo.fields d.regions

namespace NetworkData

/-- The bytes of the fields. -/
def bytes (d : NetworkData) : List UInt8 := d.packed.flatMap Field.bytes

/-- The records are the owner's. -/
structure Owned (d : NetworkData) : Prop where
  networks : ∀ r ∈ d.networks, r.userId = d.userId
  highschools : ∀ r ∈ d.highschools, r.userId = d.userId
  universities : ∀ r ∈ d.universities, r.userId = d.userId
  workspaces : ∀ r ∈ d.workspaces, r.userId = d.userId
  colleges : ∀ r ∈ d.colleges, r.userId = d.userId
  elementaries : ∀ r ∈ d.elementaries, r.userId = d.userId
  juniorhighschools : ∀ r ∈ d.juniorhighschools, r.userId = d.userId
  regions : ∀ r ∈ d.regions, r.userId = d.userId

/-- The schools are of the derived classes, which have an id. -/
structure Derived (d : NetworkData) : Prop where
  elementaries : ∀ r ∈ d.elementaries, r.id.isSome
  juniorhighschools : ∀ r ∈ d.juniorhighschools, r.id.isSome

end NetworkData

theorem Field.length_bytes (f : Field) : 4 ≤ f.bytes.length := by
  cases f with
  | int value => exact Nat.le_refl _
  | text str =>
      unfold bytes
      simp

/-- In less than 2^31 bytes every string is short. -/
theorem short_of_length (h : (fs.flatMap Field.bytes).length < 2 ^ 31) : ∀ f ∈ fs, f.Short := by
  intro f hf
  cases f with
  | int value => trivial
  | text str =>
      obtain ⟨before, behind, rfl⟩ := List.append_of_mem hf
      have hbytes : (Field.text str).bytes.length = 4 + str.length := by
        rw [Field.bytes, List.length_append, length_intBytes]
      rw [List.flatMap_append, List.flatMap_cons, List.length_append, List.length_append, hbytes] at h
      change str.length < 2 ^ 31
      omega

section

variable {ι : Type} {fields : ι → List Field}

/-- Every record takes bytes. -/
theorem length_le_seqFields (hne : ∀ r, fields r ≠ []) (rs : List ι) :
    rs.length ≤ ((seqFields fields rs).flatMap Field.bytes).length := by
  unfold seqFields
  rw [List.flatMap_cons, List.flatMap_assoc, List.length_append]
  suffices hrs : rs.length ≤ (rs.flatMap fun r => (fields r).flatMap Field.bytes).length by omega
  induction rs with
  | nil => exact Nat.le_refl _
  | cons r rs ih =>
      rw [List.flatMap_cons, List.length_append, List.length_cons]
      obtain ⟨f, fs, hfields⟩ := List.exists_cons_of_ne_nil (hne r)
      have hf := f.length_bytes
      rw [hfields, List.flatMap_cons, List.length_append]
      omega

/-- **A loop reads a sequence.** -/
theorem reads_section {body : NetworkReader Unit} (add : NetworkData → List ι → NetworkData)
    (hnil : ∀ d, add d [] = d) (hcons : ∀ d x xs, add (add d [x]) xs = add d (x :: xs))
    (hne : ∀ r, fields r ≠ []) {rs : List ι}
    (hlen : ((seqFields fields rs).flatMap Field.bytes).length < 2 ^ 31)
    (hbody : ∀ r ∈ rs, (∀ f ∈ fields r, f.Short) → ∀ d,
      Reads body d () (add d [r]) ((fields r).flatMap Field.bytes))
    (d : NetworkData) :
    Reads (readSection body) d () (add d rs) ((seqFields fields rs).flatMap Field.bytes) := by
  have hsize : rs.length < 2 ^ 31 := Nat.lt_of_le_of_lt (length_le_seqFields hne rs) hlen
  have hshort : ∀ r ∈ rs, ∀ f ∈ fields r, f.Short := fun r hr f hf =>
    short_of_length hlen f (List.mem_cons_of_mem _ (List.mem_flatMap.mpr ⟨r, hr, hf⟩))
  unfold seqFields
  rw [List.flatMap_cons, List.flatMap_assoc]
  apply reads_int
  rw [Int32.toInt_ofNat_of_lt hsize, Int.toNat_natCast]
  exact Reads.times hnil hcons rs (fun r hr => hbody r hr (hshort r hr)) d

end

/-- **The object is filled with all that it was serialised from.** -/
theorem reads_readData (howner : d.Owned) (hderived : d.Derived)
    (htotal : d.bytes.length < 2 ^ 31) : Reads readData NetworkData.empty () d d.bytes := by
  unfold NetworkData.bytes NetworkData.packed at htotal ⊢
  simp only [List.flatMap_append, List.length_append] at htotal
  simp only [List.flatMap_append, List.append_assoc]
  apply (reads_getInt (fun x d => { d with userId := x }) d.userId NetworkData.empty).bind
  apply (reads_section (fun d rs => { d with networks := d.networks ++ rs }) (by simp) (by simp)
    (by simp [Network.fields]) (by omega)
    (fun r hr hshort => reads_readNetwork r (howner.networks r hr) hshort) _).bind
  apply (reads_section (fun d rs => { d with highschools := d.highschools ++ rs }) (by simp) (by simp)
    (by simp [HighSchoolInfo.fields]) (by omega)
    (fun r hr hshort => reads_readHighSchool r (howner.highschools r hr) hshort) _).bind
  apply (reads_section (fun d rs => { d with universities := d.universities ++ rs }) (by simp) (by simp)
    (by simp [UniversityInfo.fields]) (by omega)
    (fun r hr hshort => reads_readUniversity r (howner.universities r hr) hshort) _).bind
  apply (reads_section (fun d rs => { d with workspaces := d.workspaces ++ rs }) (by simp) (by simp)
    (by simp [WorkspaceInfo.fields]) (by omega)
    (fun r hr hshort => reads_readWorkspace r (howner.workspaces r hr) hshort) _).bind
  apply (reads_section (fun d rs => { d with colleges := d.colleges ++ rs }) (by simp) (by simp)
    (by simp [CollegeInfo.fields]) (by omega)
    (fun r hr hshort => reads_readCollege r (howner.colleges r hr) hshort) _).bind
  apply (reads_section (fun d rs => { d with elementaries := d.elementaries ++ rs }) (by simp) (by simp)
    (by simp [ElementarySchoolInfo.packed]) (by omega)
    (fun r hr hshort => reads_readElementary r (howner.elementaries r hr) (hderived.elementaries r hr) hshort) _).bind
  apply (reads_section (fun d rs => { d with juniorhighschools := d.juniorhighschools ++ rs }) (by simp) (by simp)
    (by simp [JuniorHighSchoolInfo.packed]) (by omega)
    (fun r hr hshort => reads_readJuniorHighSchool r (howner.juniorhighschools r hr) (hderived.juniorhighschools r hr) hshort) _).bind
  exact reads_section (fun d rs => { d with regions := d.regions ++ rs }) (by simp) (by simp)
    (by simp [RegionInfo.fields]) (by omega)
    (fun r hr hshort => reads_readRegion r (howner.regions r hr) hshort) _

/-! ## The buffer -/

theorem mapM_ite {ι κ : Type} (p : ι → Prop) [DecidablePred p] (f : ι → κ) (xs : List ι) :
    (xs.mapM fun x => if p x then some (f x) else none) =
      if ∀ x ∈ xs, p x then some (xs.map f) else none := by
  induction xs with
  | nil => simp
  | cons x xs ih =>
      rw [List.mapM_cons, ih]
      by_cases hx : p x
      · by_cases hxs : ∀ y ∈ xs, p y
        · rw [if_pos hx, if_pos hxs, if_pos (List.forall_mem_cons.mpr ⟨hx, hxs⟩)]
          rfl
        · rw [if_pos hx, if_neg hxs, if_neg fun hall => hxs (List.forall_mem_cons.mp hall).2]
          rfl
      · rw [if_neg hx, if_neg fun hall => hx (List.forall_mem_cons.mp hall).1]
        rfl

theorem fields_elementary : ElementarySchoolInfo.fields =
    fun r => if r.id.isSome then some r.packed else none := by
  funext ⟨id, _, _, _, _⟩
  cases id <;> rfl

theorem fields_juniorHighSchool : JuniorHighSchoolInfo.fields =
    fun r => if r.id.isSome then some r.packed else none := by
  funext ⟨id, _, _, _, _⟩
  cases id <;> rfl

theorem seqFields_map {ι : Type} (fields : ι → List Field) (rs : List ι) :
    seqFields (fun fs => fs) (rs.map fields) = seqFields fields rs := by
  unfold seqFields
  rw [List.length_map, List.flatMap_map]

theorem fields_of_derived (hderived : d.Derived) : d.fields = some d.packed := by
  unfold NetworkData.fields
  rw [fields_elementary, fields_juniorHighSchool, mapM_ite, mapM_ite,
    if_pos hderived.elementaries, if_pos hderived.juniorhighschools]
  change some _ = _
  rw [seqFields_map, seqFields_map]
  rfl

theorem fields_of_not_derived (hderived : ¬d.Derived) : d.fields = none := by
  unfold NetworkData.fields
  rw [fields_elementary, fields_juniorHighSchool, mapM_ite, mapM_ite]
  by_cases helementaries : ∀ r ∈ d.elementaries, r.id.isSome
  · rw [if_pos helementaries, if_neg fun hjunior => hderived ⟨helementaries, hjunior⟩]
    rfl
  · rw [if_neg helementaries]
    rfl

/-- The additions of short fields are the additions of their pieces. -/
theorem foldlM_add (hshort : ∀ f ∈ fs, f.Short) (b : BinString) :
    fs.foldlM Field.add b = (fs.flatMap Field.pieces).foldlM BinString.append b := by
  induction fs generalizing b with
  | nil => rfl
  | cons f fs ih =>
      rw [List.foldlM_cons, List.flatMap_cons, List.foldlM_append,
        BinString.add_eq (hshort f List.mem_cons_self)]
      refine congrArg (Option.bind _) (funext fun b' => ?_)
      exact ih (fun g hg => hshort g (List.mem_cons_of_mem f hg)) b'

theorem flatten_flatMap_pieces (fs : List Field) :
    (fs.flatMap Field.pieces).flatten = fs.flatMap Field.bytes := by
  induction fs with
  | nil => rfl
  | cons f fs ih => rw [List.flatMap_cons, List.flatten_append, ih, f.flatten_pieces, List.flatMap_cons]

theorem map_length_flatMap_pieces (fs : List Field) :
    (fs.flatMap Field.pieces).map List.length = fs.flatMap Field.sizes := by
  rw [List.map_flatMap]
  exact congrArg fs.flatMap (funext Field.map_length_pieces)

namespace NetworkData

/-- Every room that the buffer needs for the fields is an `int`. -/
def Fits (d : NetworkData) : Prop := Packed.Fits 0 64 (d.packed.flatMap Field.sizes)

instance (d : NetworkData) : Decidable d.Fits := inferInstanceAs (Decidable (Packed.Fits _ _ _))

/-- The object is serialised and read back. -/
def RoundTrips (gz : Gzip) (d : NetworkData) : Prop :=
  ∃ bp, d.serialize gz = some bp ∧ unSerialize gz bp = some d

end NetworkData

/-- Objects that stay 64 bytes short of 2^31 fit. -/
theorem NetworkData.fits_of_length (h : d.bytes.length + 63 < 2 ^ 31) : d.Fits := by
  have hsum : (d.packed.flatMap Field.sizes).sum = d.bytes.length := by
    rw [← map_length_flatMap_pieces, ← List.length_flatten, flatten_flatMap_pieces]
    rfl
  apply fits_of_sum_lt
  · omega
  · intro n hn
    obtain ⟨f, -, hsize⟩ := List.mem_flatMap.mp hn
    exact f.sizes_pos n hsize

section

variable {d : NetworkData} (gz : Gzip)

theorem contents_mk (buf : List UInt8) (cap : ℤ) :
    (BinString.mk buf buf.length cap).contents = some buf := by
  unfold BinString.contents
  dsimp only
  rw [if_neg (by omega), Int.toNat_natCast, List.take_length]

/-- The additions to the new buffer. -/
theorem foldlM_add_packed (htotal : d.bytes.length < 2 ^ 31) :
    d.packed.foldlM Field.add BinString.empty =
      (d.packed.flatMap Field.pieces).foldlM BinString.append ⟨[], ([] : List UInt8).length, (64 : ℕ)⟩ :=
  foldlM_add (short_of_length htotal) _

/-- **The buffer holds the bytes where the schools have their ids and the rooms fit.** -/
theorem serialize_of_fits (hderived : d.Derived) (hfits : d.Fits) (htotal : d.bytes.length < 2 ^ 31) :
    ∃ cap, d.serialize gz = some ⟨gz.compress d.bytes, asInt (gz.compress d.bytes).length, cap⟩ := by
  have hpieces : (d.packed.flatMap Field.pieces).flatten = d.bytes := flatten_flatMap_pieces d.packed
  have hlen : ([] : List UInt8).length + (d.packed.flatMap Field.pieces).flatten.length < 2 ^ 31 := by
    rwa [hpieces, List.length_nil, Nat.zero_add]
  obtain ⟨cap, hadd⟩ := @BinString.foldlM_append [] 64 (d.packed.flatMap Field.pieces) hlen
  have hroom : Fits ([] : List UInt8).length 64 (d.packed.flatMap Field.sizes) := hfits
  rw [map_length_flatMap_pieces, if_pos hroom] at hadd
  refine ⟨cap, ?_⟩
  unfold NetworkData.serialize
  rw [fields_of_derived hderived, Option.bind_eq_bind, Option.bind_some, foldlM_add_packed htotal, hadd,
    hpieces, List.nil_append, Option.bind_eq_bind, Option.bind_some]
  unfold BinString.compress
  rw [contents_mk]
  rfl

/-- Otherwise nothing is serialised. -/
theorem serialize_eq_none (htotal : d.bytes.length < 2 ^ 31) (h : ¬(d.Derived ∧ d.Fits)) :
    d.serialize gz = none := by
  have hpieces : (d.packed.flatMap Field.pieces).flatten = d.bytes := flatten_flatMap_pieces d.packed
  unfold NetworkData.serialize
  by_cases hderived : d.Derived
  · have hlen : ([] : List UInt8).length + (d.packed.flatMap Field.pieces).flatten.length < 2 ^ 31 := by
      rwa [hpieces, List.length_nil, Nat.zero_add]
    obtain ⟨cap, hadd⟩ := @BinString.foldlM_append [] 64 (d.packed.flatMap Field.pieces) hlen
    have hroom : ¬Fits ([] : List UInt8).length 64 (d.packed.flatMap Field.sizes) :=
      fun hfits => h ⟨hderived, hfits⟩
    rw [map_length_flatMap_pieces, if_neg hroom] at hadd
    rw [fields_of_derived hderived, Option.bind_eq_bind, Option.bind_some, foldlM_add_packed htotal, hadd]
    rfl
  · rw [fields_of_not_derived hderived]
    rfl

theorem four_le_length_bytes (d : NetworkData) : 4 ≤ d.bytes.length := by
  unfold NetworkData.bytes NetworkData.packed
  simp only [List.flatMap_append, List.length_append, List.flatMap_cons, Field.bytes, length_intBytes]
  omega

/-- What is read from a buffer whose count is no overflow. -/
theorem unSerialize_eq (howner : d.Owned) (hderived : d.Derived) (htotal : d.bytes.length < 2 ^ 31)
    (hlen : (gz.compress d.bytes).length < 2 ^ 31) (cap : ℤ) :
    NetworkData.unSerialize gz
      ⟨gz.compress d.bytes, asInt (gz.compress d.bytes).length, cap⟩ = some d := by
  have hcount : asInt (gz.compress d.bytes).length = (gz.compress d.bytes).length :=
    asInt_of_isInt ⟨by omega, by omega⟩
  have htotal' : asInt d.bytes.length = d.bytes.length := asInt_of_isInt ⟨by omega, by omega⟩
  have hpos := four_le_length_bytes d
  unfold NetworkData.unSerialize BinString.unCompress
  rw [hcount, contents_mk, Option.map_some, Option.map_some, gz.uncompress_compress d.bytes htotal]
  dsimp only
  have hread := reads_readData howner hderived htotal [] d.bytes.length (Int.le_refl _)
  rw [List.append_nil] at hread
  rw [htotal', if_neg (by omega), hread]

/-- A count that has become negative is the length of no string. -/
theorem unSerialize_eq_none (htotal : d.bytes.length < 2 ^ 31)
    (hlen : ¬(gz.compress d.bytes).length < 2 ^ 31) (cap : ℤ) :
    NetworkData.unSerialize gz
      ⟨gz.compress d.bytes, asInt (gz.compress d.bytes).length, cap⟩ = none := by
  have hbound := gz.length_compress d.bytes htotal
  have hcount : asInt (gz.compress d.bytes).length < 0 := by
    rw [asInt, Int.bmod_def]
    split_ifs <;> omega
  unfold NetworkData.unSerialize BinString.unCompress BinString.contents
  rw [if_pos hcount]
  rfl

end

/-- **An object is serialised and read back exactly when its schools are of the derived classes, no
room that the buffer needs overflows, and the compressed bytes are less than 2^31.** -/
theorem roundTrips_iff (gz : Gzip) (d : NetworkData) (howner : d.Owned)
    (htotal : d.bytes.length < 2 ^ 31) :
    d.RoundTrips gz ↔ d.Derived ∧ d.Fits ∧ (gz.compress d.bytes).length < 2 ^ 31 := by
  constructor
  · rintro ⟨bp, hser, hun⟩
    by_cases hbuild : d.Derived ∧ d.Fits
    · refine ⟨hbuild.1, hbuild.2, ?_⟩
      by_contra hlen
      obtain ⟨cap, heq⟩ := serialize_of_fits gz hbuild.1 hbuild.2 htotal
      rw [heq, Option.some_inj] at hser
      rw [← hser, unSerialize_eq_none gz htotal hlen] at hun
      cases hun
    · rw [serialize_eq_none gz htotal hbuild] at hser
      cases hser
  · rintro ⟨hderived, hfits, hlen⟩
    obtain ⟨cap, heq⟩ := serialize_of_fits gz hderived hfits htotal
    exact ⟨_, heq, unSerialize_eq gz howner hderived htotal hlen cap⟩

/-- zlib on one input, whose compressed form is given. -/
def Gzip.ofPair (plain packed : List UInt8) (hplain : plain.length < 2 ^ 32)
    (hpacked : packed.length < 2 ^ 32) : Gzip where
  compress := Equiv.swap plain packed
  uncompress := Equiv.swap plain packed
  uncompress_compress bs _ := Equiv.congr_fun (Equiv.swap_swap plain packed) bs
  length_compress bs hbs := by
    rw [Equiv.swap_apply_def]
    split_ifs <;> omega

/-- One region of a user, and what zlib makes of its bytes. -/
theorem roundTrips_iff_region :
    let d : NetworkData := { NetworkData.empty with userId := 7, regions := [⟨1, 7, 3, [97, 98], []⟩] }
    let packed : List UInt8 :=
      [120, 218, 99, 103, 192, 15, 24, 161, 152, 25, 136, 153, 128, 56, 49, 9, 36, 10, 0, 6, 70, 0, 210]
    d.RoundTrips (Gzip.ofPair d.bytes packed (by decide) (by decide)) := by
  refine (roundTrips_iff _ _ ?_ (by decide)).mpr ⟨?_, NetworkData.fits_of_length (by decide), ?_⟩
  · constructor <;> simp [NetworkData.empty]
  · constructor <;> simp [NetworkData.empty]
  · unfold Gzip.ofPair
    dsimp only
    rw [Equiv.swap_apply_left]
    decide

/-! ## A long name -/

/-- A user with one region, whose province has a name of `n` bytes. -/
def longRegion (n : ℕ) : NetworkData :=
  { NetworkData.empty with regions := [⟨0, 0, 0, List.replicate n 0, []⟩] }

theorem length_bytes_longRegion (n : ℕ) : (longRegion n).bytes.length = 52 + n := by
  unfold longRegion NetworkData.bytes NetworkData.packed seqFields RegionInfo.fields NetworkData.empty
  simp [Field.bytes]
  omega

/-- After the name there is no room left, and the new one for the length of the city's overflows. -/
theorem not_fits_longRegion (h : 2 ^ 31 ≤ n + 112) : ¬(longRegion n).Fits := by
  have hsizes : (longRegion n).packed.flatMap Field.sizes =
      [4, 4, 4, 4, 4, 4, 4, 4, 4, 4, 4, 4] ++ [n, 4] := by
    unfold longRegion NetworkData.packed seqFields RegionInfo.fields NetworkData.empty
    have hne : n ≠ 0 := by omega
    simp [Field.sizes, hne]
  have hmax : max 64 n = n := Nat.max_eq_right (by omega)
  unfold NetworkData.Fits
  rw [hsizes, fits_append_of_le (by decide)]
  change ¬Fits 48 64 [n, 4]
  rw [fits_cons, if_neg (by omega), fits_cons, if_neg (by omega), hmax]
  rintro ⟨-, hgrow, -⟩
  have hlast : 48 + n + 64 < 2 ^ 31 := hgrow
  omega

/-- **A region whose province has a name of 2^31 - 100 bytes is lost**, although all its bytes are
less than 2^31. -/
theorem long_region_lost : (longRegion (2 ^ 31 - 100)).Owned ∧
    (longRegion (2 ^ 31 - 100)).bytes.length < 2 ^ 31 ∧
    ∀ gz, ¬(longRegion (2 ^ 31 - 100)).RoundTrips gz := by
  generalize hn : 2 ^ 31 - 100 = n
  have howner : (longRegion n).Owned := by
    constructor <;> simp [longRegion, NetworkData.empty]
  have htotal : (longRegion n).bytes.length < 2 ^ 31 := by
    rw [length_bytes_longRegion]
    omega
  refine ⟨howner, htotal, fun gz hround => ?_⟩
  obtain ⟨bp, hser, -⟩ := hround
  rw [serialize_eq_none gz htotal fun hbuild => not_fits_longRegion (by omega) hbuild.2] at hser
  cases hser

end Oce.UserNetwork.Packed
