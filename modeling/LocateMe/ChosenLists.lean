import LocateMe.TidyStore
import LocateMe.PlaceDetail

/-!
# The lists chosen on the save screen

Done runs two loops, over the selected rows and over the titles of a saved place,
and one request for the record between them: a new one, one written over, or a
deleted one. In a tidy store these add up to the membership that was chosen.

Results:
1. `lists_done`: what the two loops do to one list.
2. `done_computes_membership`: Done puts the place into the selected lists and no
   others, changes nothing else, and leaves the store tidy.
-/

namespace LocateMe

open Documents StoreLemmas SaveLemmas DetailLemmas TidyLemmas

/-! ## 1. The membership that was chosen -/

/-- The save screen over the rows of the store, with these rows selected. -/
def SavePlaceView.selecting (s : UserStore) (place : Place) (selected : List Nat) :
    SavePlaceView :=
  { SavePlaceView.load s place with selectedLists := selected }

/-- The list document of a selected row. -/
def SavePlaceView.Selects (v : SavePlaceView) (i : Nat) : Prop :=
  ∃ row ∈ v.selectedLists, ∃ list, v.lists[row]? = some list ∧ list.id = some i

/-- The place is the record that is stored under `j`. -/
structure IsRecord (s : UserStore) (place : Place) (j : Nat) : Prop where
  dbId : place.dbId = some j
  record : s.history.get j = some (docOfPlace place place.list place.id)

/-- From `s` to `t` the place, under the document id `j` and the id `k`, has come
into the selected lists and out of all others. -/
structure PutInSelected (s t : UserStore) (v : SavePlaceView) (j : Nat) (k : Int) : Prop where
  record : t.history.get j =
    if v.selectedLists = [] then none else some (docOfPlace v.currentPlace v.listTitles k)
  otherRecords : ∀ i, i ≠ j → t.history.get i = s.history.get i
  lists : ∀ i doc, s.lists.get i = some doc → ∃ doc', t.lists.get i = some doc' ∧
    doc'.title = doc.title ∧ (k ∈ doc'.places ↔ v.Selects i) ∧
    doc'.places.filter (· ≠ k) = doc.places.filter (· ≠ k)
  noOtherLists : ∀ i, s.lists.get i = none → t.lists.get i = none

/-! ## 2. The two loops -/

namespace ChosenLemmas

/-- The rows of the store are valid, so a selection of them is that of a fresh
screen. -/
theorem saveFresh_selecting {s : UserStore} {place : Place}
    (hstored : place.list ≠ [] → place.dbId ≠ none) {selected : List Nat}
    (hrows : ∀ row ∈ selected, row < (SavePlaceView.load s place).lists.length) :
    SaveFresh s (.selecting s place selected) :=
  { saveFresh_load hstored with
    rows := fun row hrow => ⟨_, List.getElem?_eq_getElem (hrows row hrow)⟩ }

/-- What Done does to one list, for a new place and for a saved one. -/
theorem lists_done {s : UserStore} (hs : Consistent s) {v : SavePlaceView} (hv : SaveFresh s v)
    (hknown : ∀ t ∈ v.currentPlace.list, ListTitle s t) {issued : Issued}
    (hdone : v.tappedDoneBtn = some issued) (i : Nat) :
    (applyAll s issued.writes).lists.get i =
      let record := if i ∈ v.added then (s.lists.get i).map (ListDoc.addPlaces [v.highestId])
        else s.lists.get i
      if i ∈ v.removed then record.map (ListDoc.removePlaces [v.highestId]) else record := by
  cases hsaved : v.alreadySavedPlace with
  | false =>
    have hnone : v.removed = [] := by simp [SavePlaceView.removed, list_of_new hv hsaved]
    rw [done_new hv hsaved hdone, hnone]
    show (applyAll s (v.newPart v.added true)).lists.get i = _
    rw [SavePlaceView.newPart, applyAll_append]
    exact lists_unions s v.added v.highestId i
  | true =>
    obtain ⟨j, hj⟩ := Option.ne_none_iff_exists'.mp (hv.stored (list_of_saved hv hsaved))
    have hid : v.highestId = v.currentPlace.id := by simp [SavePlaceView.highestId, hsaved]
    rw [done_saved hs hv hsaved hj (fun t ht _ => hknown t ht) hdone, hid]
    show (applyAll s (v.savedPart j v.added true v.removed)).lists.get i = _
    rw [SavePlaceView.savedPart, applyAll_append, applyAll_append, lists_removes]
    -- the request between the loops is for the record
    have hrecord : ∀ u, (applyAll u (if true then [v.recordWrite j] else [])).lists = u.lists := by
      intro u
      show ((v.recordWrite j).apply u).lists = u.lists
      unfold SavePlaceView.recordWrite
      split <;> rfl
    rw [hrecord, lists_unions]

/-- A list document after Done: its title is kept, it has the id iff the title is
selected, and its other ids are those it had. -/
theorem list_done {v : SavePlaceView} {i : Nat} {doc : ListDoc} {k : Int}
    (hmember : k ∈ doc.places ↔ doc.title ∈ v.currentPlace.list)
    (hadd : i ∈ v.added ↔ doc.title ∈ v.listTitles ∧ doc.title ∉ v.currentPlace.list)
    (hremove : i ∈ v.removed ↔ doc.title ∈ v.currentPlace.list ∧ doc.title ∉ v.listTitles) :
    ∃ doc', (let record := if i ∈ v.added then some (doc.addPlaces [k]) else some doc
        if i ∈ v.removed then record.map (ListDoc.removePlaces [k]) else record) = some doc' ∧
      doc'.title = doc.title ∧ (k ∈ doc'.places ↔ doc.title ∈ v.listTitles) ∧
      doc'.places.filter (· ≠ k) = doc.places.filter (· ≠ k) := by
  by_cases hsel : doc.title ∈ v.listTitles
  · have hnot : i ∉ v.removed := fun h => (hremove.mp h).2 hsel
    by_cases hin : doc.title ∈ v.currentPlace.list
    · have hnot' : i ∉ v.added := fun h => (hadd.mp h).2 hin
      refine ⟨doc, by simp [hnot, hnot'], rfl, ?_, rfl⟩
      exact iff_of_true (hmember.mpr hin) hsel
    · refine ⟨doc.addPlaces [k], by simp [hnot, hadd.mpr ⟨hsel, hin⟩], rfl, ?_, ?_⟩
      · exact iff_of_true (by simp [ListDoc.addPlaces]) hsel
      · have hout : k ∉ doc.places := fun h => hin (hmember.mp h)
        simp [ListDoc.addPlaces, arrayUnion_singleton, hout]
  · have hnot : i ∉ v.added := fun h => hsel (hadd.mp h).1
    by_cases hin : doc.title ∈ v.currentPlace.list
    · refine ⟨doc.removePlaces [k], by simp [hnot, hremove.mpr ⟨hin, hsel⟩], rfl, ?_, ?_⟩
      · exact iff_of_false (by simp [ListDoc.removePlaces]) hsel
      · simp [ListDoc.removePlaces, arrayRemove, List.filter_filter]
    · have hnot' : i ∉ v.removed := fun h => hin (hremove.mp h).1
      refine ⟨doc, by simp [hnot, hnot'], rfl, ?_, rfl⟩
      exact iff_of_false (fun h => hin (hmember.mp h)) hsel

/-- No two rows have the same title. -/
theorem nodup_titles {s : UserStore} (hs : Consistent s) (place : Place) :
    ((SavePlaceView.load s place).lists.map PlaceList.title).Nodup := by
  have htitles := Collection.nodup_keys (keyUnique_titles hs)
  have hperm := (sortedByTitle_perm (getAllList s)).map PlaceList.title
  refine hperm.nodup_iff.mpr ?_
  rwa [getAllList, List.map_map]

/-- Selected rows write different titles. -/
theorem nodup_listTitles {s : UserStore} (hs : Consistent s) {place : Place} {selected : List Nat}
    (hnodup : selected.Nodup) : (SavePlaceView.selecting s place selected).listTitles.Nodup := by
  refine hnodup.filterMap fun row row' title hrow hrow' => ?_
  have hall := nodup_titles hs place
  obtain ⟨l, hl, rfl⟩ := Option.map_eq_some_iff.mp hrow
  obtain ⟨l', hl', htitle⟩ := Option.map_eq_some_iff.mp hrow'
  obtain ⟨hlt, rfl⟩ := List.getElem?_eq_some_iff.mp hl
  obtain ⟨hlt', rfl⟩ := List.getElem?_eq_some_iff.mp hl'
  have hrow₁ : row < ((SavePlaceView.load s place).lists.map PlaceList.title).length := by
    rw [List.length_map]
    exact hlt
  have hrow₂ : row' < ((SavePlaceView.load s place).lists.map PlaceList.title).length := by
    rw [List.length_map]
    exact hlt'
  refine (@List.Nodup.getElem_inj_iff _ _ hall row hrow₁ row' hrow₂).mp ?_
  rw [List.getElem_map, List.getElem_map]
  exact htitle.symm

theorem selects_iff {s : UserStore} (hs : Consistent s) {v : SavePlaceView} (hv : SaveFresh s v)
    {i : Nat} {title : String} (hi : Titled s i title) :
    v.Selects i ↔ title ∈ v.listTitles := by
  rw [mem_listTitles]
  constructor
  · rintro ⟨row, hrow, l, hl, hid⟩
    obtain ⟨i', hid', htitled⟩ := hv.lists l (List.mem_of_getElem? hl)
    obtain rfl := Option.some.inj (hid.symm.trans hid')
    exact ⟨row, hrow, l, hl, titled_unique htitled hi⟩
  · rintro ⟨row, hrow, l, hl, rfl⟩
    obtain ⟨i', hid', htitled⟩ := hv.lists l (List.mem_of_getElem? hl)
    obtain rfl := hs.titles hi htitled
    exact ⟨row, hrow, l, hl, hid'⟩

/-- The id of the place is in a list iff the place knows the list. -/
theorem member_iff {s : UserStore} (hs : Consistent s) {place : Place} {k : Int}
    (hrecorded : ∀ title, Recorded s k title ↔ title ∈ place.list) {i : Nat} {doc : ListDoc}
    (hdoc : s.lists.get i = some doc) : k ∈ doc.places ↔ doc.title ∈ place.list := by
  rw [← hrecorded, ← hs.integrity i doc.title k ⟨doc, hdoc, rfl⟩]
  simp [Listed, hdoc]

/-- A stored place knows what is recorded for its id. -/
theorem recorded_of_isRecord {s : UserStore} (hs : Consistent s) {place : Place} {j : Nat}
    (hplace : IsRecord s place j) (title : String) :
    Recorded s place.id title ↔ title ∈ place.list :=
  recorded_of_get hs hplace.record

theorem sameRecord_of_isRecord {s : UserStore} (hs : Consistent s) {place : Place} {j : Nat}
    (hplace : IsRecord s place j) : SameRecord s j place.id :=
  sameRecord_of_get hs hplace.record

/-- Valid rows give each a title. -/
theorem listTitles_eq_nil {s : UserStore} {v : SavePlaceView} (hv : SaveFresh s v) :
    v.listTitles = [] ↔ v.selectedLists = [] := by
  constructor
  · intro hnil
    by_contra hne
    obtain ⟨row, hrow⟩ := List.exists_mem_of_ne_nil _ hne
    obtain ⟨l, hl⟩ := hv.rows row hrow
    have hin : l.title ∈ v.listTitles := mem_listTitles.mpr ⟨row, hrow, l, hl, rfl⟩
    rw [hnil] at hin
    cases hin
  · intro hnil
    simp [SavePlaceView.listTitles, hnil]

/-- Done puts the place into the selected lists, when its request for the record is
as it should be. -/
theorem putInSelected_done {s : UserStore} (hs : Consistent s) {v : SavePlaceView}
    (hv : SaveFresh s v) (hknown : ∀ t ∈ v.currentPlace.list, ListTitle s t)
    (hrecorded : ∀ title, Recorded s v.highestId title ↔ title ∈ v.currentPlace.list)
    {issued : Issued} (hdone : v.tappedDoneBtn = some issued) {j : Nat}
    (hrecord : (applyAll s issued.writes).history.get j =
      if v.listTitles = [] then none else some (docOfPlace v.currentPlace v.listTitles v.highestId))
    (hother : ∀ i, i ≠ j → (applyAll s issued.writes).history.get i = s.history.get i) :
    PutInSelected s (applyAll s issued.writes) v j v.highestId where
  record := by simpa only [listTitles_eq_nil hv] using hrecord
  otherRecords := hother
  lists := by
    intro i doc hdoc
    have hi : Titled s i doc.title := ⟨doc, hdoc, rfl⟩
    obtain ⟨doc', hdoc', htitle, hin, hrest⟩ := list_done (member_iff hs hrecorded hdoc)
      (mem_added hs hv hi) (mem_removed hs hv hi)
    refine ⟨doc', ?_, htitle, hin.trans (selects_iff hs hv hi).symm, hrest⟩
    rw [lists_done hs hv hknown hdone i, hdoc]
    exact hdoc'
  noOtherLists := by
    intro i hnone
    rw [lists_done hs hv hknown hdone i, hnone]
    split <;> split <;> rfl

/-- The store stays tidy: the record of the place lists the selected titles, if any. -/
theorem tidy_put {s t : UserStore} (hs : Tidy s) (ht : Consistent t) {v : SavePlaceView}
    (hv : SaveFresh s v) (hnodup : v.listTitles.Nodup) {j : Nat} {k : Int}
    (hput : PutInSelected s t v j k) : Tidy t := by
  have htitles : ∀ title, ListTitle s title → ListTitle t title := by
    rintro title ⟨i, doc, hdoc, rfl⟩
    obtain ⟨doc', hdoc', htitle, -, -⟩ := hput.lists i doc hdoc
    exact ⟨i, doc', hdoc', htitle⟩
  -- a record is the place's or an old one
  have hcases : ∀ i r, t.history.get i = some r →
      (v.listTitles ≠ [] ∧ r.list = v.listTitles) ∨ s.history.get i = some r := by
    intro i r hr
    rcases eq_or_ne i j with rfl | hne
    · rw [hput.record] at hr
      split at hr
      · cases hr
      · next hselected =>
        obtain rfl := Option.some.inj hr
        exact .inl ⟨fun hnil => hselected ((listTitles_eq_nil hv).mp hnil), rfl⟩
    · exact .inr ((hput.otherRecords i hne).symm.trans hr)
  refine { ht with listed := fun i r hr => ?_, nodup := fun i r hr => ?_, known := fun i r hr => ?_ }
  · rcases hcases i r hr with ⟨hne, hlist⟩ | hold
    · rwa [hlist]
    · exact hs.listed i r hold
  · rcases hcases i r hr with ⟨-, hlist⟩ | hold
    · rwa [hlist]
    · exact hs.nodup i r hold
  · rcases hcases i r hr with ⟨-, hlist⟩ | hold
    · intro title hin
      rw [hlist] at hin
      obtain ⟨row, hrow, l, hl, rfl⟩ := mem_listTitles.mp hin
      obtain ⟨i', -, htitled⟩ := hv.lists l (List.mem_of_getElem? hl)
      exact htitles _ ⟨i', htitled⟩
    · exact fun title hin => htitles title (hs.known i r hold title hin)

/-- A stored place is ready for Done. -/
theorem saveReady_selecting {s : UserStore} (hs : Tidy s) {place : Place} {j : Nat}
    (hplace : IsRecord s place j) (selected : List Nat) :
    SaveReady s (.selecting s place selected) where
  same := by
    intro i hi
    obtain rfl := Option.some.inj (hplace.dbId.symm.trans hi)
    exact sameRecord_of_isRecord hs.toConsistent hplace
  known t ht _ := hs.known j _ hplace.record t ht
  agrees t _ _ := (recorded_of_isRecord hs.toConsistent hplace t).symm

end ChosenLemmas

open ChosenLemmas

/-! ## 3. Done -/

/-- From a tidy store, whatever rows are selected for a place that is unsaved or its
record: Done does not trap, the place comes into exactly the selected lists, an
unsaved one with a new id, everything else stays as it is, and the store stays tidy. -/
theorem done_computes_membership {s : UserStore} (hs : Tidy s) {place : Place}
    (hplace : place.list ≠ [] → ∃ j, IsRecord s place j) {selected : List Nat}
    (hnodup : selected.Nodup)
    (hrows : ∀ row ∈ selected, row < (SavePlaceView.load s place).lists.length)
    (hcheck : ¬ (selected = [] ∧ place.list = [])) :
    ∃ issued j k, (SavePlaceView.selecting s place selected).tappedDoneBtn = some issued ∧
      issued.trapped = false ∧
      (if place.list = [] then s.history.get j = none ∧ ∀ i, ¬ IdAt s i k
        else IsRecord s place j ∧ k = place.id) ∧
      PutInSelected s (applyAll s issued.writes) (.selecting s place selected) j k ∧
      Tidy (applyAll s issued.writes) := by
  have hstored : place.list ≠ [] → place.dbId ≠ none := by
    intro hne
    obtain ⟨j, hj⟩ := hplace hne
    simp [hj.dbId]
  let v := SavePlaceView.selecting s place selected
  have hv : SaveFresh s v := saveFresh_selecting hstored hrows
  have htitles : v.listTitles.Nodup := nodup_listTitles hs.toConsistent hnodup
  have hsaved : v.alreadySavedPlace = decide (0 < place.list.length) := rfl
  have hknown : ∀ t ∈ place.list, ListTitle s t := by
    intro t ht
    obtain ⟨j, hj⟩ := hplace (List.ne_nil_of_mem ht)
    exact hs.known j _ hj.record t ht
  obtain ⟨issued, hdone⟩ : ∃ issued, v.tappedDoneBtn = some issued := by
    refine ⟨_, if_neg fun h => hcheck ⟨List.eq_nil_of_length_eq_zero h.1, ?_⟩⟩
    have hzero := h.2
    rw [hsaved] at hzero
    simpa using hzero
  obtain ⟨hok, hcons⟩ := consistent_tappedDoneBtn hs.toConsistent hv (fun hyes => by
    have hne : place.list ≠ [] := list_of_saved hv hyes
    obtain ⟨j, hj⟩ := hplace hne
    exact saveReady_selecting hs hj selected) hdone
  rcases history_done hv hdone with ⟨hnew, hselected, hhistory⟩ | ⟨j, hold, hj, hhistory⟩
  · have hnil : place.list = [] := list_of_new hv hnew
    have hfresh := highestId_fresh hv hnew
    have hput : PutInSelected s (applyAll s issued.writes) v s.history.next v.highestId := by
      refine putInSelected_done hs.toConsistent hv hknown (fun title => ?_) hdone ?_ fun i hne => ?_
      · refine iff_of_false (fun h => ?_) (by simp [v, SavePlaceView.selecting,
          SavePlaceView.load, openSavePlaceView, hnil])
        obtain ⟨i, hi⟩ := recorded_idAt h
        exact hfresh i hi
      · have hne : v.listTitles ≠ [] := fun h => hselected ((listTitles_eq_nil hv).mp h)
        rw [hhistory, Collection.get_add_self, if_neg hne]
      · rw [hhistory, Collection.get_add, if_neg hne]
    refine ⟨issued, s.history.next, v.highestId, hdone, hok, ?_, hput,
      tidy_put hs hcons hv htitles hput⟩
    rw [if_pos hnil]
    exact ⟨Collection.get_next s.history, hfresh⟩
  · have hne : place.list ≠ [] := list_of_saved hv hold
    obtain ⟨j', hj'⟩ := hplace hne
    obtain rfl : j' = j := Option.some.inj (hj'.dbId.symm.trans hj)
    have hid : v.highestId = place.id := if_pos hold
    have hput : PutInSelected s (applyAll s issued.writes) v j' v.highestId := by
      refine putInSelected_done hs.toConsistent hv hknown (fun title => ?_) hdone ?_ fun i hne => ?_
      · rw [hid]
        exact recorded_of_isRecord hs.toConsistent hj' title
      · rw [hhistory, hid]
        split
        · simp
        · exact if_pos rfl
      · rw [hhistory]
        split
        · rw [Collection.get_delete, if_neg hne]
        · rw [Collection.get_set, if_neg hne]
    refine ⟨issued, j', v.highestId, hdone, hok, ?_, hput, tidy_put hs hcons hv htitles hput⟩
    rw [if_neg hne]
    exact ⟨hj', hid⟩

/-- The place of the first list is moved to the second one. -/
theorem done_computes_membership_moved :
    ∃ issued j k, (SavePlaceView.selecting exTidy exSavedPlace [1]).tappedDoneBtn = some issued ∧
      issued.trapped = false ∧
      (if exSavedPlace.list = [] then exTidy.history.get j = none ∧ ∀ i, ¬ IdAt exTidy i k
        else IsRecord exTidy exSavedPlace j ∧ k = exSavedPlace.id) ∧
      PutInSelected exTidy (applyAll exTidy issued.writes) (.selecting exTidy exSavedPlace [1]) j k ∧
      Tidy (applyAll exTidy issued.writes) :=
  done_computes_membership (by decide +kernel) (fun _ => ⟨0, rfl, by decide +kernel⟩) (by decide)
    (by decide +kernel) (by decide)

end LocateMe
