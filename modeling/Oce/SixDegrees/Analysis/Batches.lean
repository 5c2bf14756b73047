import Mathlib.Data.List.Flatten
import Mathlib.Data.List.Perm.Basic
import Oce.SixDegrees.Analysis.Pairs
import Oce.SixDegrees.Model.Search

/-!
# Where the batches are

The stream of a user is what has been cut into batches, what is cached for the next one and what
is still to come (`Flow.Kept.stream`). Each batch that has been cut is in one place: with a push
task, in the data of the user, in the queue of the calculation or joined. Each step of a thread
takes a batch from its place to the next.
-/

set_option autoImplicit false

namespace Oce.SixDegrees

variable {stream : List IndexInfo} {u : Flow} {i : ℤ}

namespace Flow

/-- The data of the user in the cache, new when there is none. -/
def data (u : Flow) : AsynIndexData := u.dataOf u.asyn

/-- The batches in the data of the user that the search has not taken yet. -/
def unfetched (u : Flow) : List IndexData := u.data.freshersDataSeq.drop u.index

/-- Whatever data a thread has is that in the cache, and the push thread is on the way to set it
finished when nothing is left to come. -/
structure Refers (u : Flow) : Prop where
  stored : ∀ i, u.asyn = some i → i < u.datas.length
  tasks : ∀ t ∈ u.tasks, ∀ i, t.located = .data i → u.asyn = some i
  missing : u.pusher = .finishing .missing → u.asyn = none
  pusher : ∀ i, u.pusher = .finishing (.data i) → u.asyn = some i
  finishing : ∀ located, u.pusher = .finishing located →
    u.todo = [] ∧ u.indexCache = [] ∧ u.tasks = []
  held : ∀ i, u.held = some i → u.asyn = some i

/-- Nothing is lost, and the first numbers agree with the second ones. -/
structure Kept (stream : List IndexInfo) (u : Flow) : Prop where
  stream : stream = u.cut.flatten ++ u.indexCache ++ u.todo
  places : u.cut.Perm (u.joined ++ u.newFriends ++ u.unfetched ++ u.tasks.map (·.batch))
  filled : ∀ b ∈ u.cut, b ≠ []
  few : u.cut.length ≤ MAX_DATA
  dataSum : u.data.dataSum = u.data.freshersDataSeq.length
  index_le : u.index ≤ u.data.freshersDataSeq.length
  fetched : u.index = u.joined.length + u.newFriends.length
  hand : u.hand = [] ∨ u.data.freshersDataSeq[u.index]? = some u.hand
  finished : u.data.finish = true → u.todo = [] ∧ u.indexCache = [] ∧ u.tasks = []
  sorted : SortedById u.allFriends
  ids : ∀ i, HasId u.allFriends i ↔ ∃ b ∈ u.joined, HasId b i
  refers : u.Refers

theorem kept_new (stream : List IndexInfo) : (new stream).Kept stream where
  stream := rfl
  places := .nil
  filled := nofun
  few := Nat.zero_le _
  dataSum := rfl
  index_le := Nat.zero_le _
  fetched := rfl
  hand := .inl rfl
  finished := nofun
  sorted := .nil
  ids i := by
    refine iff_of_false not_hasId_nil ?_
    rintro ⟨b, hb, -⟩
    cases hb
  refers := ⟨nofun, nofun, nofun, nofun, nofun, nofun⟩

/-! ## The data -/

theorem data_of_none (h : u.asyn = none) : u.data = .new := by
  unfold data dataOf
  rw [h]
  rfl

/-- A change of the data that is in the cache. -/
theorem Refers.data_setData (h : u.Refers) {i : ℕ} (hi : u.asyn = some i)
    (f : AsynIndexData → AsynIndexData) : (u.setData i f).data = f u.data := by
  unfold setData data dataOf
  rw [hi]
  simp only [Option.bind_some, List.getElem?_modify_eq]
  rw [List.getElem?_eq_getElem (h.stored i hi)]
  rfl

/-- A step of a call that puts new data in the cache only when there is none: what is in the data
of the user stays, and so does each number that a thread has. -/
theorem Refers.locateAsynIndex (h : u.Refers) (located : Located)
    (hmissing : located = .missing → u.asyn = none) (hdata : ∀ i, located = .data i → u.asyn = some i) :
    ∃ datas asyn, (u.locateAsynIndex located).2 = { u with datas := datas, asyn := asyn } ∧
      ({ u with datas := datas, asyn := asyn } : Flow).data = u.data ∧
      (∀ i, u.asyn = some i → asyn = some i) ∧ (∀ i, asyn = some i → i < datas.length) ∧
      ((u.locateAsynIndex located).1 = .missing → asyn = none) ∧
      ∀ i, (u.locateAsynIndex located).1 = .data i → asyn = some i := by
  cases located with
  | nothing =>
      refine ⟨u.datas, u.asyn, rfl, rfl, fun i hi => hi, h.stored, ?_⟩
      unfold Flow.locateAsynIndex
      cases u.asyn with
      | none => exact ⟨fun _ => rfl, nofun⟩
      | some i =>
          refine ⟨nofun, fun j hj => ?_⟩
          cases hj
          rfl
  | missing =>
      have hnone := hmissing rfl
      refine ⟨u.datas ++ [.new], some u.datas.length, rfl, ?_, fun i hi => ?_, fun i hi => ?_, nofun,
        fun i hi => ?_⟩
      · rw [data_of_none hnone]
        unfold data dataOf
        simp
      · rw [hnone] at hi
        cases hi
      · cases hi
        rw [List.length_append]
        exact Nat.lt_succ_self _
      · cases hi
        rfl
  | data i =>
      refine ⟨u.datas, u.asyn, rfl, rfl, fun j hj => hj, h.stored, nofun, fun j hj => ?_⟩
      cases hj
      exact hdata i rfl

/-- What is kept stays so when threads only look for the data. -/
theorem Kept.relocate (h : u.Kept stream) {datas : List AsynIndexData} {asyn : Option ℕ}
    {tasks : List PushTask} {pusher : PushPlace}
    (hdata : ({ u with datas := datas, asyn := asyn } : Flow).data = u.data)
    (htasks : tasks.map (·.batch) = u.tasks.map (·.batch))
    (hrefers : ({ u with datas := datas, asyn := asyn, tasks := tasks, pusher := pusher } : Flow).Refers) :
    ({ u with datas := datas, asyn := asyn, tasks := tasks, pusher := pusher } : Flow).Kept stream := by
  have hdata' : ({ u with datas := datas, asyn := asyn, tasks := tasks, pusher := pusher } : Flow).data =
    u.data := hdata
  have hunfetched :
      ({ u with datas := datas, asyn := asyn, tasks := tasks, pusher := pusher } : Flow).unfetched =
        u.unfetched := congrArg (fun d => d.freshersDataSeq.drop u.index) hdata'
  refine { h with
    places := ?_, dataSum := ?_, index_le := ?_, hand := ?_, finished := ?_, refers := hrefers }
  · rw [hunfetched, htasks]
    exact h.places
  · rw [hdata']
    exact h.dataSum
  · rw [hdata']
    exact h.index_le
  · rw [hdata']
    exact h.hand
  · rw [hdata']
    intro hfinish
    obtain ⟨htodo, hcache, hnil⟩ := h.finished hfinish
    rw [hnil] at htasks
    exact ⟨htodo, hcache, List.map_eq_nil_iff.mp htasks⟩

/-! ## The builder and the push thread -/

/-- An entry is pushed. -/
theorem Kept.build (h : u.Kept stream) : u.build.Kept stream := by
  unfold Flow.build
  split
  · exact h
  · exact h
  · next e rest htodo hpusher =>
      have hrefers : ({ u with todo := rest, indexCache := u.indexCache ++ [e] } : Flow).Refers :=
        { h.refers with
          finishing := fun located hfinishing => absurd hfinishing (hpusher located) }
      refine { h with stream := ?_, finished := fun hfinish => ?_, refers := hrefers }
      · rw [h.stream, htodo]
        simp
      · have hnil := (h.finished hfinish).1
        rw [htodo] at hnil
        cases hnil

/-- The push thread takes a batch. -/
theorem Kept.cut (h : u.Kept stream) (hcache : u.indexCache ≠ [])
    (hfew : u.cut.length < MAX_DATA) :
    ({ u with
      indexCache := []
      tasks := u.tasks ++ [⟨u.indexCache, .nothing⟩]
      cut := u.cut ++ [u.indexCache]
      pusher := .checking } : Flow).Kept stream := by
  refine { h with stream := ?_, places := ?_, filled := ?_, few := ?_, finished := ?_, refers := ?_ }
  · rw [h.stream]
    simp
  · have hplaces := h.places.append_right [u.indexCache]
    rw [List.append_assoc] at hplaces
    rw [List.map_append]
    exact hplaces
  · intro b hb
    rcases List.mem_append.mp hb with hb | hb
    · exact h.filled b hb
    · rw [List.mem_singleton.mp hb]
      exact hcache
  · rw [List.length_append]
    exact hfew
  · exact fun hfinish => absurd (h.finished hfinish).2.1 hcache
  · refine { h.refers with
      tasks := fun t ht i hi => ?_, missing := nofun, pusher := nofun, finishing := nofun }
    rcases List.mem_append.mp ht with ht | ht
    · exact h.refers.tasks t ht i hi
    · rw [List.mem_singleton.mp ht] at hi
      cases hi

/-- The push thread sets the data finished. -/
theorem Kept.setFinish (h : u.Kept stream) {i : ℕ} (hpusher : u.pusher = .finishing (.data i)) :
    ({ u.setData i (·.setFinish true) with pusher := .ended } : Flow).Kept stream := by
  have hdata : ({ u.setData i (·.setFinish true) with pusher := .ended } : Flow).data =
      u.data.setFinish true := h.refers.data_setData (h.refers.pusher i hpusher) _
  refine { h with
    places := ?_, dataSum := ?_, index_le := ?_, hand := ?_, finished := ?_, refers := ?_ }
  · have hunfetched : ({ u.setData i (·.setFinish true) with pusher := .ended } : Flow).unfetched =
        u.unfetched := congrArg (fun d => d.freshersDataSeq.drop u.index) hdata
    rw [hunfetched]
    exact h.places
  · rw [hdata]
    exact h.dataSum
  · rw [hdata]
    exact h.index_le
  · rw [hdata]
    exact h.hand
  · exact fun _ => h.refers.finishing _ hpusher
  · refine { h.refers with stored := fun j hj => ?_, missing := nofun, pusher := nofun, finishing := nofun }
    change j < (u.datas.modify i _).length
    rw [List.length_modify]
    exact h.refers.stored j hj

/-- The push thread goes on in a call of `locateAsynIndex`. -/
theorem Kept.finishing (h : u.Kept stream) {located : Located} (hpusher : u.pusher = .finishing located) :
    ({ (u.locateAsynIndex located).2 with
      pusher := .finishing (u.locateAsynIndex located).1 } : Flow).Kept stream := by
  have hnil := h.refers.finishing located hpusher
  obtain ⟨datas, asyn, heq, hdata, hkeep, hstored, hmissing, hfound⟩ :=
    h.refers.locateAsynIndex located (fun hl => h.refers.missing (hl ▸ hpusher))
      fun i hl => h.refers.pusher i (hl ▸ hpusher)
  rw [heq]
  refine h.relocate hdata rfl ⟨hstored, fun t ht i hi => hkeep i (h.refers.tasks t ht i hi), fun hm => ?_,
    fun i hi => ?_, fun _ _ => hnil, fun i hi => hkeep i (h.refers.held i hi)⟩
  · exact hmissing (PushPlace.finishing.inj hm)
  · exact hfound i (PushPlace.finishing.inj hi)

/-- The push thread cuts a batch or finishes the data. -/
theorem Kept.pushIndex (h : u.Kept stream) (stop : Bool)
    (hguard : u.pusher = .waiting →
      if u.indexCache = [] then u.todo = [] ∧ u.tasks = [] else u.cut.length < MAX_DATA) :
    (u.pushIndex stop).Kept stream := by
  unfold Flow.pushIndex
  split
  · refine { h with refers := { h.refers with missing := ?_, pusher := ?_, finishing := ?_ } }
    all_goals
      split_ifs
      · nofun
      · nofun
  · next hpusher =>
      have hg := hguard hpusher
      by_cases hcache : u.indexCache = []
      · rw [if_pos hcache] at hg ⊢
        exact { h with
          refers := { h.refers with
            missing := nofun
            pusher := nofun
            finishing := fun _ _ => ⟨hg.1, hcache, hg.2⟩ } }
      · rw [if_neg hcache] at hg ⊢
        exact h.cut hcache hg
  · next i hpusher => exact h.setFinish hpusher
  · next located _ hpusher => exact h.finishing hpusher
  · exact h

/-! ## Push tasks -/

/-- A batch is put behind those that are in the data of the user. -/
theorem push_few {d : AsynIndexData} (hfew : d.dataSum ≤ MAX_DATA) (batch : IndexData) :
    (d.push batch).freshersDataSeq = d.freshersDataSeq ++ [batch] ∧
      (d.push batch).dataSum = d.dataSum + 1 ∧ (d.push batch).finish = d.finish := by
  unfold AsynIndexData.push
  rw [if_neg (Nat.not_lt.mpr hfew)]
  exact ⟨rfl, rfl, rfl⟩

/-- All batches that the data has had are among those that have been cut. -/
theorem Kept.dataSum_add_le (h : u.Kept stream) : u.data.dataSum + u.tasks.length ≤ u.cut.length := by
  have hlength := h.places.length_eq
  rw [List.length_append, List.length_append, List.length_append, List.length_map] at hlength
  have hunfetched : u.unfetched.length = u.data.freshersDataSeq.length - u.index := List.length_drop
  have hindex := h.index_le
  have hfetched := h.fetched
  rw [h.dataSum]
  omega

/-- A task brings its batch to the data. -/
theorem Kept.push (h : u.Kept stream) {k i : ℕ} {batch : IndexData}
    (hget : u.tasks[k]? = some ⟨batch, .data i⟩) :
    ({ u.setData i (·.push batch) with tasks := u.tasks.eraseIdx k } : Flow).Kept stream := by
  obtain ⟨hlt, htask⟩ := List.getElem?_eq_some_iff.mp hget
  have hdata : ({ u.setData i (·.push batch) with tasks := u.tasks.eraseIdx k } : Flow).data =
      u.data.push batch :=
    h.refers.data_setData (h.refers.tasks _ (List.mem_of_getElem? hget) i rfl) _
  have hfew : u.data.dataSum ≤ MAX_DATA := by
    have := h.dataSum_add_le
    have := h.few
    omega
  obtain ⟨hseq, hsum, hfinish⟩ := push_few hfew batch
  have hunfetched : ({ u.setData i (·.push batch) with tasks := u.tasks.eraseIdx k } : Flow).unfetched =
      u.unfetched ++ [batch] := by
    unfold unfetched
    rw [hdata, hseq]
    exact List.drop_append_of_le_length h.index_le
  refine { h with
    places := ?_, dataSum := ?_, index_le := ?_, hand := ?_, finished := ?_, refers := ?_ }
  · have htasks : (u.tasks.map (·.batch)).Perm (batch :: (u.tasks.eraseIdx k).map (·.batch)) := by
      have hperm := (List.getElem_cons_eraseIdx_perm hlt).symm.map PushTask.batch
      rw [htask] at hperm
      exact hperm
    have hmoved : u.joined ++ u.newFriends ++ (u.unfetched ++ [batch]) ++
        (u.tasks.eraseIdx k).map (·.batch) = u.joined ++ u.newFriends ++ u.unfetched ++
          (batch :: (u.tasks.eraseIdx k).map (·.batch)) := by simp
    rw [hunfetched]
    refine h.places.trans ((htasks.append_left _).trans ?_)
    rw [← hmoved]
    exact List.Perm.refl _
  · rw [hdata, hsum, hseq, h.dataSum, List.length_append, List.length_singleton]
  · rw [hdata, hseq, List.length_append]
    exact Nat.le_add_right_of_le h.index_le
  · refine h.hand.imp_right fun hhand => ?_
    rw [hdata, hseq]
    exact (List.getElem?_append_left (List.getElem?_eq_some_iff.mp hhand).1).trans hhand
  · -- the data is not finished while there is a task
    rw [hdata, hfinish]
    intro hold
    rw [(h.finished hold).2.2] at hlt
    cases hlt
  · refine { h.refers with stored := fun j hj => ?_, tasks := fun t ht => ?_, finishing := fun l hl => ?_ }
    · change j < (u.datas.modify i _).length
      rw [List.length_modify]
      exact h.refers.stored j hj
    · exact h.refers.tasks t (List.mem_of_mem_eraseIdx ht)
    · have hnil := (h.refers.finishing l hl).2.2
      rw [hnil] at hlt
      cases hlt

/-- A push task that finds its object adds its batch. -/
theorem Kept.pushTask (h : u.Kept stream) (k : ℕ)
    (hguard : (u.tasks[k]?.map fun t => t.located) = some .missing → u.asyn = none) :
    (u.pushTask k).Kept stream := by
  unfold Flow.pushTask
  split
  · exact h
  · next batch i hget => exact h.push hget
  · next batch located _ hget =>
      rw [hget] at hguard
      have hlt := (List.getElem?_eq_some_iff.mp hget).1
      have htask := h.refers.tasks _ (List.mem_of_getElem? hget)
      obtain ⟨datas, asyn, heq, hdata, hkeep, hstored, hmissing, hfound⟩ :=
        h.refers.locateAsynIndex located (fun hl => hguard (congrArg some hl)) fun i hl => htask i hl
      have hfinishing : ∀ l, u.pusher = .finishing l → False := by
        intro l hl
        rw [(h.refers.finishing l hl).2.2] at hlt
        cases hlt
      dsimp only
      rw [heq]
      refine h.relocate hdata ?_ ⟨hstored, fun t ht i hi => ?_, fun hm => (hfinishing _ hm).elim,
        fun i hi => (hfinishing _ hi).elim, fun l hl => (hfinishing l hl).elim,
        fun i hi => hkeep i (h.refers.held i hi)⟩
      · rw [List.map_set]
        refine List.ext_getElem? fun j => ?_
        rw [List.getElem?_set]
        by_cases hj : k = j
        · subst hj
          rw [if_pos rfl, List.length_map, if_pos hlt, List.getElem?_map, hget]
          rfl
        · rw [if_neg hj]
      · obtain ht | rfl := List.mem_or_eq_of_mem_set ht
        · exact hkeep i (h.refers.tasks t ht i hi)
        · exact hfound i hi

/-! ## The search -/

theorem Kept.hold (h : u.Kept stream) : u.hold.Kept stream :=
  { h with refers := { h.refers with held := fun _ hi => hi } }

/-- The next batch is fetched. -/
theorem Kept.fetch (h : u.Kept stream) : u.fetch.Kept stream := by
  refine { h with hand := ?_, refers := { h.refers with } }
  change (u.dataOf u.held).getFreshersData u.index = [] ∨
    u.data.freshersDataSeq[u.index]? = some ((u.dataOf u.held).getFreshersData u.index)
  unfold AsynIndexData.getFreshersData
  rw [List.getD_eq_getElem?_getD]
  cases hheld : u.held with
  | none => exact .inl rfl
  | some i =>
      rw [← h.refers.held i hheld]
      change (u.data.freshersDataSeq[u.index]?).getD [] = [] ∨
        u.data.freshersDataSeq[u.index]? = some ((u.data.freshersDataSeq[u.index]?).getD [])
      cases u.data.freshersDataSeq[u.index]? with
      | none => exact .inl rfl
      | some b => exact .inr rfl

theorem unfetched_of_hand {b : IndexData}
    (hb : u.data.freshersDataSeq[u.index]? = some b) :
    u.unfetched = b :: u.data.freshersDataSeq.drop (u.index + 1) := by
  obtain ⟨hlt, rfl⟩ := List.getElem?_eq_some_iff.mp hb
  exact List.drop_eq_getElem_cons hlt

/-- The fetched batch is put behind the others. -/
theorem Kept.pushIndexSeq (h : u.Kept stream) : u.pushIndexSeq.Kept stream := by
  unfold Flow.pushIndexSeq
  by_cases hnil : u.hand = []
  · rw [if_pos hnil]
    exact h
  · rw [if_neg hnil]
    have hhand := h.hand.resolve_left hnil
    have hunfetched := unfetched_of_hand hhand
    have hlt := (List.getElem?_eq_some_iff.mp hhand).1
    refine { h with
      places := ?_, index_le := hlt, fetched := ?_, hand := .inl rfl, refers := { h.refers with } }
    · have hplaces := h.places
      rw [hunfetched] at hplaces
      have hmoved : u.joined ++ u.newFriends ++
          (u.hand :: u.data.freshersDataSeq.drop (u.index + 1)) ++ u.tasks.map (·.batch) =
          u.joined ++ (u.newFriends ++ [u.hand]) ++
            u.data.freshersDataSeq.drop (u.index + 1) ++ u.tasks.map (·.batch) := by
        simp
      rw [hmoved] at hplaces
      exact hplaces
    · have hfetched := h.fetched
      dsimp only
      rw [List.length_append, List.length_singleton]
      omega

theorem hasId_join (u : Flow) : HasId u.join.allFriends i ↔ HasId u.allFriends i ∨ HasId u.newest i :=
  hasId_addNewFriends u.newest u.allFriends

/-- The join loses no batch. -/
theorem Kept.join (h : u.Kept stream) : u.join.Kept stream := by
  have hqueue : u.newFriends.dropLast ++ u.newFriends.getLast?.toList = u.newFriends := by
    cases hlast : u.newFriends.getLast? with
    | none =>
        rw [List.getLast?_eq_none_iff.mp hlast]
        rfl
    | some b => exact List.dropLast_append_getLast? b hlast
  have hlength : u.newFriends.dropLast.length + u.newFriends.getLast?.toList.length =
      u.newFriends.length := by
    rw [← List.length_append, hqueue]
  have hsorted : SortedById u.join.allFriends := sorted_addNewFriends u.newest h.sorted
  refine { h with
    places := ?_, fetched := ?_, sorted := hsorted, ids := fun i => ?_, refers := { h.refers with } }
  · have hswap : (u.joined ++ u.newFriends).Perm
        (u.joined ++ u.newFriends.getLast?.toList ++ u.newFriends.dropLast) := by
      have hcomm : (u.newFriends.dropLast ++ u.newFriends.getLast?.toList).Perm
          (u.newFriends.getLast?.toList ++ u.newFriends.dropLast) := List.perm_append_comm
      rw [hqueue] at hcomm
      rw [List.append_assoc]
      exact hcomm.append_left u.joined
    exact h.places.trans ((hswap.append_right u.unfetched).append_right (u.tasks.map (·.batch)))
  · have hfetched := h.fetched
    change u.index = (u.joined ++ u.newFriends.getLast?.toList).length + u.newFriends.dropLast.length
    rw [List.length_append]
    omega
  · rw [hasId_join, h.ids i]
    change _ ↔ ∃ b ∈ u.joined ++ u.newFriends.getLast?.toList, HasId b i
    unfold Flow.newest
    cases hlast : u.newFriends.getLast? with
    | none =>
        rw [Option.getD_none, or_iff_left not_hasId_nil]
        simp
    | some b => simp [or_comm, or_and_right, exists_or]

/-! ## When all is joined -/

/-- No entry is still to come, and no batch still to be joined. -/
structure Drained (u : Flow) : Prop where
  todo : u.todo = []
  indexCache : u.indexCache = []
  tasks : u.tasks = []
  unfetched : u.unfetched = []
  newFriends : u.newFriends = []

theorem Kept.hand_nil (h : u.Kept stream) (hu : u.Drained) : u.hand = [] := by
  refine h.hand.resolve_right fun hhand => ?_
  have hunfetched := unfetched_of_hand hhand
  rw [hu.unfetched] at hunfetched
  cases hunfetched

/-- Without entries nothing is on its way. -/
theorem Kept.drained_of_nil (h : u.Kept []) : u.Drained := by
  have hstream := h.stream
  rw [eq_comm, List.append_eq_nil_iff, List.append_eq_nil_iff, List.flatten_eq_nil_iff] at hstream
  obtain ⟨⟨hcut, hcache⟩, htodo⟩ := hstream
  have hnil : u.cut = [] := by
    refine List.eq_nil_iff_forall_not_mem.mpr fun b hb => ?_
    exact h.filled b hb (hcut b hb)
  have hplaces := h.places
  rw [hnil] at hplaces
  have hall := hplaces.nil_eq
  rw [eq_comm, List.append_eq_nil_iff, List.append_eq_nil_iff, List.append_eq_nil_iff] at hall
  exact ⟨htodo, hcache, List.map_eq_nil_iff.mp hall.2, hall.1.2, hall.1.1.2⟩

/-- What is joined is the whole stream. -/
theorem Kept.hasId_iff (h : u.Kept stream) (hu : u.Drained) : HasId u.allFriends i ↔ HasId stream i := by
  have hplaces := h.places
  rw [hu.newFriends, hu.unfetched, hu.tasks, List.map_nil, List.append_nil, List.append_nil,
    List.append_nil] at hplaces
  rw [h.ids i, h.stream, hu.todo, hu.indexCache, List.append_nil, List.append_nil]
  constructor
  · rintro ⟨b, hb, e, he, rfl⟩
    exact ⟨e, List.mem_flatten.mpr ⟨b, hplaces.mem_iff.mpr hb, he⟩, rfl⟩
  · rintro ⟨e, he, rfl⟩
    obtain ⟨b, hb, he⟩ := List.mem_flatten.mp he
    exact ⟨b, hplaces.mem_iff.mp hb, e, he, rfl⟩

theorem Drained.build (hu : u.Drained) : u.build.Drained := by
  unfold Flow.build
  split
  · exact hu
  · exact hu
  · next e rest htodo _ =>
      rw [hu.todo] at htodo
      cases htodo

/-- The push thread has nothing left to hand over. -/
theorem Drained.pushIndex (h : u.Kept stream) (hu : u.Drained) (stop : Bool) :
    (u.pushIndex stop).Drained := by
  unfold Flow.pushIndex
  split
  · exact { hu with }
  · rw [if_pos hu.indexCache]
    exact { hu with }
  · next i hpusher =>
      have hdata : ({ u.setData i (·.setFinish true) with pusher := .ended } : Flow).data =
          u.data.setFinish true := h.refers.data_setData (h.refers.pusher i hpusher) _
      have hunfetched : ({ u.setData i (·.setFinish true) with pusher := .ended } : Flow).unfetched =
          u.unfetched := congrArg (fun d => d.freshersDataSeq.drop u.index) hdata
      exact { hu with unfetched := hunfetched.trans hu.unfetched }
  · next located _ hpusher =>
      obtain ⟨datas, asyn, heq, hdata, -⟩ :=
        h.refers.locateAsynIndex located (fun hl => h.refers.missing (hl ▸ hpusher))
          fun i hl => h.refers.pusher i (hl ▸ hpusher)
      dsimp only
      rw [heq]
      have hunfetched : ({ u with datas := datas, asyn := asyn } : Flow).unfetched = u.unfetched :=
        congrArg (fun d => d.freshersDataSeq.drop u.index) hdata
      exact { hu with unfetched := hunfetched.trans hu.unfetched }
  · exact hu

theorem Drained.pushTask (hu : u.Drained) (k : ℕ) : (u.pushTask k).Drained := by
  unfold Flow.pushTask
  rw [hu.tasks]
  exact hu

theorem Drained.pushIndexSeq (h : u.Kept stream) (hu : u.Drained) : u.pushIndexSeq.Drained := by
  unfold Flow.pushIndexSeq
  rw [if_pos (h.hand_nil hu)]
  exact hu

theorem Drained.join (hu : u.Drained) : u.join.Drained := by
  refine { hu with newFriends := ?_ }
  change u.newFriends.dropLast = []
  rw [hu.newFriends]
  rfl

end Flow

end Oce.SixDegrees
