import Mathlib.Data.List.Induction
import Oce.MemcProxy.Model.KeyMapping

/-!
# What the proxy makes of the client's requests

One lemma for each request: which key the parser cuts out of it and where it is sent. The
lines of a get are taken together: the line for an endpoint asks for the keys whose
endpoint it is, in the order of the request.
-/

set_option autoImplicit false

namespace Oce.MemcProxy

open Oce.Base

variable {key : List Byte} {keys : List (List Byte)}

/-- No spaces and no line breaks. -/
structure PlainKey (key : List Byte) : Prop where
  space : space ∉ key
  cr : cr ∉ key
  lf : (10 : Byte) ∉ key

theorem PlainKey.cString (h : PlainKey key) : PlainKey (cString key) :=
  ⟨fun hm => h.space ((cString_sublist key).subset hm), fun hm => h.cr ((cString_sublist key).subset hm),
    fun hm => h.lf ((cString_sublist key).subset hm)⟩

theorem memchr_append {l r : List Byte} {c : Byte} (h : c ∉ l) {n : ℕ} (hn : l.length < n) :
    memchr (l ++ c :: r) c n = some l.length := by
  unfold memchr
  have htake : (l ++ c :: r).take n = l ++ c :: r.take (n - l.length - 1) := by
    rw [List.take_append, List.take_of_length_le (by omega)]
    obtain ⟨m, hm⟩ : ∃ m, n - l.length = m + 1 := ⟨n - l.length - 1, by omega⟩
    rw [hm, List.take_succ_cons, Nat.add_sub_cancel]
  rw [htake, List.idxOf?_eq_some_iff]
  refine ⟨by simp, by simp, ?_⟩
  intro j hj
  rw [List.getElem_append_left hj]
  exact fun he => h (he ▸ List.getElem_mem hj)

/-! ## Numbers -/

/-- No `int` is below the least one. -/
theorem le_castInt (n : ℤ) : -2 ^ 31 ≤ castInt n := by
  have := Int.le_bmod (x := n) (m := 2 ^ 32) (by decide)
  unfold castInt
  omega

/-- What does not fit an `int` gets smaller in it. -/
theorem castInt_le {n : ℤ} (h : -2 ^ 31 ≤ n) : castInt n ≤ n := by
  unfold castInt
  rw [Int.bmod_def]
  have hdiv := Int.emod_add_mul_ediv n (2 ^ 32 : ℕ)
  split <;> omega

/-- A length that is too long for a `size_t` is taken as none. -/
theorem lexicalCast_natDigits_getD_le (n : ℕ) :
    0 ≤ (lexicalCast (natDigits n)).getD 0 ∧ (lexicalCast (natDigits n)).getD 0 ≤ n := by
  unfold lexicalCast
  rw [readInt_natDigits, Option.filter_some]
  split
  · exact ⟨Int.natCast_nonneg n, Int.le_refl _⟩
  · exact ⟨Int.le_refl _, Int.natCast_nonneg n⟩

/-! ## Commands with data -/

/-- A command word, its words, and the data. -/
def dataRequest (word : List Byte) (words : List (List Byte)) (value : List Byte) : List Byte :=
  word ++ words.flatMap (space :: ·) ++ (crlf ++ (value ++ crlf))

theorem set_eq (key value : List Byte) (flags timeout : ℤ) :
    MemcachedClient.set key value flags timeout =
      dataRequest (ascii "set") [cString key, intDigits flags, intDigits timeout, natDigits value.length]
        value := by
  have hword : ascii "set " = ascii "set" ++ [space] := rfl
  simp [MemcachedClient.set, dataRequest, hword]

theorem append_eq (key value : List Byte) (flags : ℤ) :
    MemcachedClient.append key value flags =
      dataRequest (ascii "append") [cString key, intDigits flags, ascii "0", natDigits value.length]
        value := by
  have hword : ascii "append " = ascii "append" ++ [space] := rfl
  simp [MemcachedClient.append, dataRequest, hword]

/-- What the words of a request are: no separators in them, and only the key may be empty. -/
structure Words (word key : List Byte) (rest : List (List Byte)) : Prop where
  word : space ∉ word ∧ cr ∉ word
  key : space ∉ key ∧ cr ∉ key
  rest : ∀ u ∈ rest, space ∉ u ∧ cr ∉ u ∧ u ≠ []

section Data

variable {word key : List Byte} {rest : List (List Byte)}

theorem cr_not_mem_line (h : Words word key rest) :
    cr ∉ word ++ (key :: rest).flatMap (space :: ·) := by
  have hne : cr ≠ space := by decide
  rw [List.mem_append, List.mem_flatMap]
  rintro (hw | ⟨u, hu, hm⟩)
  · exact h.word.2 hw
  · rcases List.mem_cons.mp hm with he | hm
    · exact hne he
    · rcases List.mem_cons.mp hu with rfl | hu
      · exact h.key.2 hm
      · exact (h.rest u hu).2.1 hm

theorem memchr_dataRequest (value : List Byte) (h : Words word key rest) :
    memchr (dataRequest word (key :: rest) value) cr (dataRequest word (key :: rest) value).length =
      some (word ++ (key :: rest).flatMap (space :: ·)).length := by
  apply memchr_append (cr_not_mem_line h)
  simp only [dataRequest, crlf, List.length_append, List.length_cons]
  omega

/-- The words that the parser finds: an empty key is not among them. -/
theorem words_dataRequest (value : List Byte) (h : Words word key rest) (hrest : rest ≠ []) :
    splitCompress space ((dataRequest word (key :: rest) value).take
      (word ++ (key :: rest).flatMap (space :: ·)).length) =
        if key = [] then word :: rest else word :: key :: rest := by
  have hseps : ∀ u ∈ key :: rest, space ∉ u := by
    intro u hu
    rcases List.mem_cons.mp hu with rfl | hu
    · exact h.key.1
    · exact (h.rest u hu).1
  have hne : ∀ u ∈ rest, u ≠ [] := fun u hu => (h.rest u hu).2.2
  unfold dataRequest
  rw [List.take_left, splitCompress_of_splitOn (splitOn_join space h.word.1 hseps)]
  split
  · next hk =>
      obtain ⟨u, rest, rfl⟩ := List.exists_cons_of_ne_nil hrest
      rw [hk, compressTail_nil_cons, compressTail_of_ne_nil hne]
  · next hk =>
      rw [compressTail_of_ne_nil]
      intro u hu
      rcases List.mem_cons.mp hu with rfl | hu
      · exact hk
      · exact hne u hu

/-- The key of a request with data is what stands between the first two spaces. -/
theorem keySize_dataRequest (value : List Byte) (h : Words word key rest) (hrest : rest ≠ []) :
    cmdKeySize ((dataRequest word (key :: rest) value).drop (word.length + 1))
      ((dataRequest word (key :: rest) value).length - (word.length + 1)) = key.length ∧
    ((dataRequest word (key :: rest) value).drop (word.length + 1)).take key.length = key := by
  obtain ⟨u, rest, rfl⟩ := List.exists_cons_of_ne_nil hrest
  have hdrop : (dataRequest word (key :: u :: rest) value).drop (word.length + 1) =
      key ++ space :: (u ++ rest.flatMap (space :: ·) ++ (crlf ++ (value ++ crlf))) := by
    unfold dataRequest
    rw [List.append_assoc, ← List.drop_drop, List.drop_left]
    simp
  have hlen : (dataRequest word (key :: u :: rest) value).length - (word.length + 1) =
      (key ++ space :: (u ++ rest.flatMap (space :: ·) ++ (crlf ++ (value ++ crlf)))).length := by
    rw [← hdrop, List.length_drop]
  rw [hlen, hdrop]
  constructor
  · unfold cmdKeySize
    rw [memchr_append h.key.1 (by simp)]
  · exact List.take_left

/-- A request with data as the parser sees it. -/
theorem parserHead_dataRequest (value : List Byte) {type : CmdType} (h : Words word key rest)
    (hlast : rest.getLastD [] = natDigits value.length) (hthree : rest.length = 3)
    (htype : getCmdType (dataRequest word (key :: rest) value) = type)
    (hkind : keyAndWords type = some (word.length + 1, 5)) :
    let buf := dataRequest word (key :: rest) value
    if key = [] then (parserHead buf buf.length).succ = .err
    else (parserHead buf buf.length).succ = .suc ∧ (parserHead buf buf.length).type = type ∧
      (parserHead buf buf.length).keyBytes buf = key := by
  intro buf
  have hrest : rest ≠ [] := by
    rintro rfl
    cases hthree
  have hp := memchr_dataRequest value h
  have hwords := words_dataRequest value h hrest
  obtain ⟨hsize, hkey⟩ := keySize_dataRequest value h hrest
  have hhead : parserHead buf buf.length = parserData ⟨.err, type, 0, 0, 0, 0, 0, 0⟩ buf buf.length
      (word ++ (key :: rest).flatMap (space :: ·)).length := by
    unfold parserHead
    rw [htype]
    cases type <;> first | cases hkind | simp [buf, hp]
  rw [hhead]
  unfold parserData
  rw [hkind]
  simp only [buf, hwords]
  split
  · next hk => simp [hthree]
  · next hk =>
      have hlength : (word :: key :: rest).length = 5 := by simp [hthree]
      have hlast' : (word :: key :: rest).getLastD [] = natDigits value.length := by
        rw [← hlast]
        obtain ⟨u, rest, rfl⟩ := List.exists_cons_of_ne_nil hrest
        simp [List.getLastD_eq_getLast?]
      rw [if_neg (by rw [hlength]; exact fun hn => hn rfl), hlast']
      refine ⟨?_, rfl, ?_⟩
      · have hread := lexicalCast_natDigits_getD_le value.length
        have hbody := castInt_le (n := (lexicalCast (natDigits value.length)).getD 0) (by omega)
        have hbody' := le_castInt ((lexicalCast (natDigits value.length)).getD 0)
        dsimp only
        rw [if_neg]
        apply not_lt_of_ge
        apply (castInt_le (by omega)).trans
        simp only [dataRequest, crlf, List.length_append, List.length_cons, List.length_nil]
        omega
      · simp only [MemCmdHead.keyBytes, hsize, Int.toNat_natCast]
        exact hkey

end Data

/-! ## Where they are sent -/

theorem digits_words (n : ℤ) : space ∉ intDigits n ∧ cr ∉ intDigits n ∧ intDigits n ≠ [] :=
  ⟨not_mem_intDigits rfl (by decide) n, not_mem_intDigits rfl (by decide) n, intDigits_ne_nil n⟩

variable (cl : Clusters)

/-- What the proxy does with a complete request. -/
def routed (request : List Byte) : List (Endpoint × List Byte) := route cl request request.length

/-- A request with data goes to the node of its key; without a key it goes nowhere. -/
theorem routed_dataRequest {word : List Byte} {rest : List (List Byte)} (value : List Byte)
    {type : CmdType} (h : Words word key rest) (hlast : rest.getLastD [] = natDigits value.length)
    (hthree : rest.length = 3) (htype : getCmdType (dataRequest word (key :: rest) value) = type)
    (hkind : keyAndWords type = some (word.length + 1, 5)) (hvalue : type ≠ .value) :
    routed cl (dataRequest word (key :: rest) value) =
      if key = [] then [] else
        [(getEndpointByKey cl key, dataRequest word (key :: rest) value)] := by
  have hhead := parserHead_dataRequest value h hlast hthree htype hkind
  unfold routed route
  by_cases hk : key = []
  · rw [if_pos hk] at hhead
    rw [if_pos hk]
    simp only [hhead]
  · rw [if_neg hk] at hhead
    obtain ⟨hsuc, ht, hkey⟩ := hhead
    rw [if_neg hk]
    simp only [hsuc, ht, parserSetCmd, hkey, List.take_length]
    cases type <;> first | rfl | cases hkind | exact absurd rfl hvalue

theorem routed_set (value : List Byte) (h : PlainKey key) (flags timeout : ℤ) :
    routed cl (MemcachedClient.set key value flags timeout) =
      if cString key = [] then [] else
        [(getEndpointByKey cl (cString key), MemcachedClient.set key value flags timeout)] := by
  rw [set_eq]
  have hwords : Words (ascii "set") (cString key)
      [intDigits flags, intDigits timeout, natDigits value.length] :=
    ⟨by decide, ⟨h.cString.space, h.cString.cr⟩, by
      simpa using ⟨digits_words flags, digits_words timeout, digits_words value.length⟩⟩
  have hne : CmdType.set ≠ .value := by decide
  exact routed_dataRequest cl value hwords rfl rfl rfl rfl hne

theorem routed_append (value : List Byte) (h : PlainKey key) (flags : ℤ) :
    routed cl (MemcachedClient.append key value flags) =
      if cString key = [] then [] else
        [(getEndpointByKey cl (cString key), MemcachedClient.append key value flags)] := by
  rw [append_eq]
  have hzero : space ∉ ascii "0" ∧ cr ∉ ascii "0" ∧ ascii "0" ≠ [] := by decide
  have hwords : Words (ascii "append") (cString key)
      [intDigits flags, ascii "0", natDigits value.length] :=
    ⟨by decide, ⟨h.cString.space, h.cString.cr⟩, by
      simpa using ⟨digits_words flags, hzero, digits_words value.length⟩⟩
  have hne : CmdType.append ≠ .value := by decide
  exact routed_dataRequest cl value hwords rfl rfl rfl rfl hne

/-- A delete is sent to the node of its key with the rest of the line behind it. -/
theorem routed_delete (h : PlainKey key) :
    routed cl (MemcachedClient.delete key) =
      [(getEndpointByKey cl (cString key ++ ascii " 0"), MemcachedClient.delete key)] := by
  have hbuf : MemcachedClient.delete key =
      (ascii "delete " ++ (cString key ++ ascii " 0")) ++ cr :: [10] := by
    simp [MemcachedClient.delete, crlf, cr]
  have hcr : cr ∉ ascii "delete " ++ (cString key ++ ascii " 0") := by
    rw [List.mem_append, List.mem_append]
    rintro (hm | hm | hm)
    · exact absurd hm (by decide)
    · exact h.cString.cr hm
    · exact absurd hm (by decide)
  have hp : memchr (MemcachedClient.delete key) cr (MemcachedClient.delete key).length =
      some (ascii "delete " ++ (cString key ++ ascii " 0")).length := by
    rw [hbuf]
    exact memchr_append hcr (by simp)
  have htype : getCmdType (MemcachedClient.delete key) = .delete := rfl
  have hkey : ((MemcachedClient.delete key).drop 7).take (cString key ++ ascii " 0").length =
      cString key ++ ascii " 0" := by
    rw [hbuf, List.append_assoc]
    exact List.take_left
  have hlen : (ascii "delete " ++ (cString key ++ ascii " 0")).length =
      7 + (cString key ++ ascii " 0").length := by
    rw [List.length_append]
    rfl
  unfold routed route parserHead
  simp only [htype, hp, parserSetCmd, MemCmdHead.keyBytes, List.take_length]
  rw [if_neg (by decide)]
  simp only [hlen]
  have hnat : ((7 + (cString key ++ ascii " 0").length : ℕ) - 7 : ℤ).toNat =
      (cString key ++ ascii " 0").length := by omega
  rw [hnat, hkey]

/-! ## Gets -/

/-- The keys that a line asks for, as the proxy and the nodes read it. -/
def keysAsked (line : List Byte) : List (List Byte) := getKeys (parserHead line line.length) line

/-- The keys of a request are read back. -/
theorem parserHead_get (h : ∀ k ∈ keys, PlainKey k) (hne : keys ≠ []) :
    (parserHead (MemcachedClient.get keys) (MemcachedClient.get keys).length).succ = .suc ∧
      (parserHead (MemcachedClient.get keys) (MemcachedClient.get keys).length).type = .get ∧
      keysAsked (MemcachedClient.get keys) = keys.filter (· ≠ []) := by
  have hbuf : MemcachedClient.get keys = (ascii "get" ++ keys.flatMap (space :: ·)) ++ cr :: [10] := rfl
  have hcr : cr ∉ ascii "get" ++ keys.flatMap (space :: ·) := by
    rw [List.mem_append, List.mem_flatMap]
    rintro (hm | ⟨k, hk, hm⟩)
    · exact absurd hm (by decide)
    · rcases List.mem_cons.mp hm with he | hm
      · exact absurd he (by decide)
      · exact (h k hk).cr hm
  have hp : memchr (MemcachedClient.get keys) cr (MemcachedClient.get keys).length =
      some (ascii "get" ++ keys.flatMap (space :: ·)).length := by
    rw [hbuf]
    exact memchr_append hcr (by simp)
  have htype : getCmdType (MemcachedClient.get keys) = .get := rfl
  have hhead : parserHead (MemcachedClient.get keys) (MemcachedClient.get keys).length =
      ⟨.suc, .get, ((ascii "get" ++ keys.flatMap (space :: ·)).length : ℤ) + 2, 0, 0, 4,
        ((ascii "get" ++ keys.flatMap (space :: ·)).length : ℤ) - 4, 0⟩ := by
    unfold parserHead
    simp only [htype, hp]
    rw [if_neg (by decide)]
  refine ⟨by rw [hhead], by rw [hhead], ?_⟩
  obtain ⟨k, ks, rfl⟩ := List.exists_cons_of_ne_nil hne
  have hbytes : ((MemcachedClient.get (k :: ks)).drop 4).take (k ++ ks.flatMap (space :: ·)).length =
      k ++ ks.flatMap (space :: ·) := by
    have hdrop : (MemcachedClient.get (k :: ks)).drop 4 = (k ++ ks.flatMap (space :: ·)) ++ crlf := by
      rw [MemcachedClient.get, List.flatMap_cons]
      simp [ascii]
    rw [hdrop]
    exact List.take_left
  have hlen : (((ascii "get" ++ (k :: ks).flatMap (space :: ·)).length : ℤ) - 4).toNat =
      (k ++ ks.flatMap (space :: ·)).length := by
    rw [List.flatMap_cons]
    simp only [List.length_append, List.length_cons]
    have hthree : (ascii "get").length = 3 := rfl
    omega
  unfold keysAsked getKeys MemCmdHead.keyBytes
  rw [hhead, hlen, hbytes, filter_splitCompress,
    splitOn_join space (h k (by simp)).space fun u hu => (h u (by simp [hu])).space]

/-- The map of lines holds for every endpoint the keys whose endpoint it is. -/
theorem find_foldl_addKey (keys : List (List Byte)) (e : Endpoint) :
    (keys.foldl (addKey cl) .empty).find e =
      if keys.filter (fun k => getEndpointByKey cl k = e) = [] then none
      else some (ascii "get" ++ (keys.filter fun k => getEndpointByKey cl k = e).flatMap (space :: ·)) := by
  induction keys using List.reverseRecOn with
  | nil => rfl
  | append_singleton keys k ih =>
      rw [List.foldl_append, List.foldl_cons, List.foldl_nil, List.filter_append]
      by_cases he : getEndpointByKey cl k = e
      · subst he
        rw [addKey, OrdMap.find_insert_self, ih]
        by_cases hnil : keys.filter (fun j => getEndpointByKey cl j = getEndpointByKey cl k) = []
        · simp [hnil]
        · simp [hnil]
      · rw [addKey, OrdMap.find_insert_ne _ _ (Ne.symm he), ih]
        simp [he]

/-- **The lines of a get.** -/
theorem mem_routed_get (h : ∀ k ∈ keys, PlainKey k) (hne : keys ≠ []) {e : Endpoint}
    {line : List Byte} :
    (e, line) ∈ routed cl (MemcachedClient.get keys) ↔
      ∃ ks, ks = (keys.filter (· ≠ [])).filter (fun k => getEndpointByKey cl k = e) ∧ ks ≠ [] ∧
        line = MemcachedClient.get ks := by
  obtain ⟨hsuc, htype, hkeys⟩ := parserHead_get h hne
  have hroute : routed cl (MemcachedClient.get keys) =
      (((keys.filter (· ≠ [])).foldl (addKey cl) .empty).entries).map fun e => (e.1, e.2 ++ crlf) := by
    unfold routed route
    simp only [hsuc, htype]
    unfold parserGetCmd
    rw [← hkeys]
    rfl
  rw [hroute, List.mem_map]
  constructor
  · rintro ⟨⟨e', bytes⟩, hmem, he⟩
    cases he
    rw [OrdMap.mem_entries_iff, find_foldl_addKey] at hmem
    split at hmem
    · cases hmem
    · next hks =>
        cases hmem
        exact ⟨_, rfl, hks, rfl⟩
  · rintro ⟨ks, rfl, hks, rfl⟩
    refine ⟨(e, _), ?_, rfl⟩
    rw [OrdMap.mem_entries_iff, find_foldl_addKey, if_neg hks]

end Oce.MemcProxy
