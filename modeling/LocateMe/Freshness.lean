import LocateMe.SaveDone
import LocateMe.HeldPlaces

/-!
# What the screens know of the store

The rows of the save, saved and edit screens are those of the store: nothing
changes a list behind them. The titles that a held place lists are not, because
no screen reloads a place after a write.

Results:
1. `saveFresh_row`, `saveFresh_listAdded`: the save screen stays fresh.
2. `savedFresh_showSaved`, `savedFresh_listAdded`, `savedFresh_listDeleted`: the
   saved screen is fresh when it appears and stays so.
3. `editFresh_load`, `editFresh_tappedDelete`: so is the edit screen.
-/

namespace LocateMe

open Documents StoreLemmas ScreenLemmas SaveLemmas

/-! ## 1. The save screen -/

/-- A place on a map has a document when it is in a list. -/
def StoredIfListed (p : Place) : Prop := p.list ≠ [] → p.dbId ≠ none

/-- The screen when its queries have answered. -/
theorem saveFresh_load {s : UserStore} {place : Place} (hstored : StoredIfListed place) :
    SaveFresh s (SavePlaceView.load s place) where
  lists := by
    intro l hl
    obtain ⟨i, d, hd, rfl⟩ := mem_getAllList.mp (mem_sortedByTitle.mp hl)
    exact ⟨i, rfl, d, hd, rfl⟩
  covers := by
    rintro i t ⟨d, hd, rfl⟩
    exact ⟨listOfDoc i d, mem_sortedByTitle.mpr (mem_getAllList.mpr ⟨i, d, hd, rfl⟩), rfl⟩
  ids := by
    rintro j k ⟨r, hr, rfl⟩
    exact mem_getAllPlacesIds.mpr ⟨j, r, hr, rfl⟩
  rows := by simp [SavePlaceView.load, openSavePlaceView]
  rendered := by simp [SavePlaceView.load, openSavePlaceView]
  saved := rfl
  stored := hstored

theorem saveFresh_row {s : UserStore} {v w : SavePlaceView} {e : RowEvent} (hv : SaveFresh s v)
    (h : rowStep v e = some w) : SaveFresh s w := by
  obtain ⟨hplace, halready, hlists, hids⟩ := rowStep_frame h
  obtain ⟨hrendered, hrows⟩ := rowStep_rows (P := fun row => ∃ l, v.lists[row]? = some l)
    (fun row l hl => ⟨l, hl⟩) hv.rendered hv.rows h
  constructor
  · rw [hlists]
    exact hv.lists
  · rw [hlists]
    exact hv.covers
  · rw [hids]
    exact hv.ids
  · rw [hlists]
    exact hrows
  · rw [hlists]
    exact hrendered
  · rw [halready, hplace]
    exact hv.saved
  · rw [hplace]
    exact hv.stored

/-- A list that is added from the screen joins its rows. -/
theorem saveFresh_listAdded {s : UserStore} {v : SavePlaceView} (hv : SaveFresh s v)
    (title : String) :
    SaveFresh ((Write.addList title).apply s) (v.listAdded title s.lists.next) where
  lists := by
    intro l hl
    rcases List.mem_append.mp (mem_sortedByTitle.mp hl) with hold | hnew
    · obtain ⟨i, hid, hi⟩ := hv.lists l hold
      exact ⟨i, hid, titled_addList.mpr (.inr hi)⟩
    · rw [List.mem_singleton.mp hnew]
      exact ⟨s.lists.next, rfl, titled_addList.mpr (.inl ⟨rfl, rfl⟩)⟩
  covers := by
    intro i t hi
    rcases titled_addList.mp hi with ⟨-, rfl⟩ | hold
    · exact ⟨_, mem_sortedByTitle.mpr (List.mem_append_right _ (List.mem_singleton_self _)), rfl⟩
    · obtain ⟨l, hl, rfl⟩ := hv.covers i t hold
      exact ⟨l, mem_sortedByTitle.mpr (List.mem_append_left _ hl), rfl⟩
  ids := hv.ids
  rows := by simp [SavePlaceView.listAdded]
  rendered := by simp [SavePlaceView.listAdded]
  saved := hv.saved
  stored := hv.stored

/-! ## 2. The saved screen -/

/-- The rows of the saved screen are lists of the store, each once, with at least
the ids that the store has; every id of a record is that of a place on screen;
and no list shows two places of one document. -/
structure SavedFresh (s : UserStore) (c : SavedController) : Prop where
  lists : ∀ l ∈ c.lists, ∃ i, l.id = some i ∧ Titled s i l.title ∧
    ∀ k, Listed s i k → k ∈ l.placeIds
  once : (c.lists.map PlaceList.id).Nodup
  covers : ∀ j k, IdAt s j k → ∃ p ∈ c.places, p.id = k
  nodup : ∀ l ∈ c.lists, ((c.placesOf l).map Place.dbId).Nodup

theorem nodup_getAllList (s : UserStore) : ((getAllList s).map PlaceList.id).Nodup := by
  have hids : (getAllList s).map PlaceList.id = (s.lists.documents.map Prod.fst).map some := by
    rw [getAllList, List.map_map, List.map_map]
    rfl
  rw [hids]
  exact (Collection.nodup_documents s.lists).map (Option.some_injective _)

/-- The screen as it appears. When the history is empty the places are those of
an earlier appearance, but then no list shows any of them. -/
theorem savedFresh_showSaved {s : UserStore} (hs : Consistent s) (c : SavedController) :
    SavedFresh s { c.retrieveHistory (getAllPlaces s) with
      lists := sortedByTitle (getAllList s) } := by
  let places := (c.retrieveHistory (getAllPlaces s)).places
  have hlists : ∀ l ∈ sortedByTitle (getAllList s), ∃ i, l.id = some i ∧ Titled s i l.title ∧
      ∀ k, k ∈ l.placeIds ↔ Listed s i k := by
    intro l hl
    obtain ⟨i, d, hd, rfl⟩ := mem_getAllList.mp (mem_sortedByTitle.mp hl)
    refine ⟨i, rfl, ⟨d, hd, rfl⟩, fun k => ⟨fun hk => ⟨d, hd, hk⟩, ?_⟩⟩
    rintro ⟨d', hd', hk⟩
    obtain rfl := Option.some.inj (hd.symm.trans hd')
    exact hk
  have hempty : getAllPlaces s = [] → ∀ j k, ¬ IdAt s j k := by
    rintro hnone j k ⟨r, hr, -⟩
    have hmem : placeOfDoc j r ∈ getAllPlaces s := mem_getAllPlaces.mpr ⟨j, r, hr, rfl⟩
    rw [hnone] at hmem
    cases hmem
  refine ⟨fun l hl => ?_, ?_, fun j k hj => ?_, fun l hl => ?_⟩
  · obtain ⟨i, hid, hi, hk⟩ := hlists l hl
    exact ⟨i, hid, hi, fun k hin => (hk k).mpr hin⟩
  · exact ((sortedByTitle_perm _).map PlaceList.id).nodup_iff.mpr (nodup_getAllList s)
  · show ∃ p ∈ places, p.id = k
    rcases places_retrieveHistory c (getAllPlaces s) with hperm | ⟨hnone, -⟩
    · obtain ⟨r, hr, rfl⟩ := hj
      exact ⟨placeOfDoc j r, hperm.mem_iff.mpr (mem_getAllPlaces.mpr ⟨j, r, hr, rfl⟩), rfl⟩
    · exact absurd hj (hempty hnone j k)
  · show ((places.filter fun p => l.placeIds.contains p.id).map Place.dbId).Nodup
    rcases places_retrieveHistory c (getAllPlaces s) with hperm | ⟨hnone, -⟩
    · have hall : (places.map Place.dbId).Nodup :=
        (hperm.map Place.dbId).nodup_iff.mpr (nodup_getAllPlaces s)
      exact hall.sublist (List.filter_sublist.map _)
    · have hfilter : places.filter (fun p => l.placeIds.contains p.id) = [] := by
        rw [List.filter_eq_nil_iff]
        intro p _ hp
        obtain ⟨i, -, hi, hk⟩ := hlists l hl
        obtain ⟨j, hj⟩ := recorded_idAt
          ((hs.integrity i l.title p.id hi).mp ((hk p.id).mp (List.contains_iff_mem.mp hp)))
        exact hempty hnone j _ hj
      rw [hfilter]
      exact List.nodup_nil

theorem savedFresh_listAdded {s : UserStore} {c : SavedController} (hc : SavedFresh s c)
    (title : String) :
    SavedFresh ((Write.addList title).apply s) (c.listAdded title s.lists.next) where
  lists := by
    intro l hl
    rcases List.mem_append.mp (mem_sortedByTitle.mp hl) with hold | hnew
    · obtain ⟨i, hid, hi, hk⟩ := hc.lists l hold
      exact ⟨i, hid, titled_addList.mpr (.inr hi), fun k hin => hk k (listed_addList.mp hin)⟩
    · rw [List.mem_singleton.mp hnew]
      refine ⟨s.lists.next, rfl, titled_addList.mpr (.inl ⟨rfl, rfl⟩), fun k hin => ?_⟩
      obtain ⟨d, hd, -⟩ := listed_addList.mp hin
      rw [Collection.get_next] at hd
      cases hd
  once := by
    refine ((sortedByTitle_perm _).map PlaceList.id).nodup_iff.mpr ?_
    rw [List.map_append, List.nodup_append]
    refine ⟨hc.once, List.nodup_singleton _, ?_⟩
    rintro id hid _ hnew rfl
    obtain ⟨l, hl, hid⟩ := List.mem_map.mp hid
    obtain ⟨i, hid', ⟨d, hd, -⟩, -⟩ := hc.lists l hl
    rw [List.map_singleton, List.mem_singleton, ← hid, hid'] at hnew
    exact absurd (Option.some.inj hnew) (Collection.lt_next hd).ne
  covers := hc.covers
  nodup := by
    intro l hl
    rcases List.mem_append.mp (mem_sortedByTitle.mp hl) with hold | hnew
    · exact hc.nodup l hold
    · rw [List.mem_singleton.mp hnew]
      simp [SavedController.placesOf]

/-! ## 3. A deleted list -/

/-- Removals change the history only, and no id of a record. -/
theorem removals_frame {s : UserStore} (title : String) (xs : List (Nat × HistoryDoc)) :
    let t := applyAll s (xs.map fun x => removal x.1 x.2.list title)
    t.lists = s.lists ∧ ∀ j k, IdAt t j k → IdAt s j k ∧
      ∀ x ∈ xs, x.1 = j → x.2.list.length ≠ 1 := by
  induction xs generalizing s with
  | nil => exact ⟨rfl, fun j k h => ⟨h, by simp⟩⟩
  | cons x xs ih =>
    obtain ⟨hlists, hids⟩ := ih (s := (removal x.1 x.2.list title).apply s)
    refine ⟨hlists.trans ?_, fun j k hj => ?_⟩
    · unfold removal
      split <;> rfl
    · obtain ⟨hold, hrest⟩ := hids j k hj
      rw [removal] at hold
      split at hold
      · obtain ⟨hne, hold⟩ := idAt_deleteHistory.mp hold
        refine ⟨hold, fun y hy hyj => ?_⟩
        rcases List.mem_cons.mp hy with rfl | hin
        · exact absurd hyj.symm hne
        · exact hrest y hin hyj
      · next hlen =>
        refine ⟨idAt_removeTitles.mp hold, fun y hy hyj => ?_⟩
        rcases List.mem_cons.mp hy with rfl | hin
        · exact hlen
        · exact hrest y hin hyj

/-- The delete action, for a row of the saved screen: the list is gone, and so
are the records whose ids the screen is told. -/
theorem deleteAction_frame {s : UserStore} (hs : Consistent s) {list : PlaceList} {l : Nat}
    (hid : list.id = some l) :
    let t := applyAll s (SavedController.deleteAction s list).writes
    (∀ i u, Titled t i u ↔ i ≠ l ∧ Titled s i u) ∧ (∀ i k, Listed t i k → Listed s i k) ∧
      ∀ j k, IdAt t j k → IdAt s j k ∧ k ∉ SavedController.deletedIds s list.title := by
  obtain ⟨hlists, hids⟩ := removals_frame (s := s) list.title (recordsListing s list.title)
  rw [deleteAction_eq s hid, Issued.send, applyAll_append, applyAll_cons, applyAll_nil]
  refine ⟨fun i u => ?_, fun i k hk => ?_, fun j k hj => ?_⟩
  · rw [titled_deleteList, titled_congr hlists]
  · exact (listed_congr hlists).mp (listed_deleteList.mp hk).2
  · obtain ⟨hold, hkept⟩ := hids j k hj
    refine ⟨hold, fun hdeleted => ?_⟩
    obtain ⟨⟨j', r⟩, hmem, rfl⟩ := List.mem_map.mp hdeleted
    obtain ⟨hquery, hlen⟩ := List.mem_filter.mp hmem
    have hr : s.history.get j' = some r := (mem_recordsListing.mp hquery).1
    obtain rfl := hs.ids hold ⟨r, hr, rfl⟩
    exact hkept (j, r) hquery rfl (of_decide_eq_true hlen)

theorem listDeleted_sublist (c : SavedController) (tag : Nat) (ids : List Int) :
    (c.listDeleted tag ids).places.Sublist c.places := by
  simp only [SavedController.listDeleted]
  induction ids generalizing c with
  | nil => exact List.Sublist.refl _
  | cons k ids ih =>
    exact (ih { c with places := c.places.eraseP (·.id = k) }).trans List.eraseP_sublist

/-- A place with another id stays on the screen. -/
theorem mem_listDeleted {c : SavedController} {tag : Nat} {ids : List Int} {p : Place}
    (hp : p ∈ c.places) (hid : p.id ∉ ids) : p ∈ (c.listDeleted tag ids).places := by
  simp only [SavedController.listDeleted]
  induction ids generalizing c with
  | nil => exact hp
  | cons k ids ih =>
    obtain ⟨hne, hrest⟩ := not_or.mp (fun h => hid (List.mem_cons.mpr h))
    refine ih (c := { c with places := c.places.eraseP (·.id = k) }) ?_ hrest
    exact (List.mem_eraseP_of_neg (by simpa using hne)).mpr hp

theorem savedFresh_listDeleted {s : UserStore} (hs : Consistent s) {c : SavedController}
    (hc : SavedFresh s c) {tag : Nat} {list : PlaceList} (hlist : c.lists[tag]? = some list) :
    SavedFresh (applyAll s (SavedController.deleteAction s list).writes)
      (c.listDeleted tag (SavedController.deletedIds s list.title)) := by
  obtain ⟨l, hid, -, -⟩ := hc.lists list (List.mem_of_getElem? hlist)
  obtain ⟨htitled, hlisted, hids⟩ := deleteAction_frame hs hid
  obtain ⟨htag, hget⟩ := List.getElem?_eq_some_iff.mp hlist
  -- the row of the deleted list is the only one with its id
  have hother : ∀ l' ∈ c.lists.eraseIdx tag, l' ∈ c.lists ∧ l'.id ≠ some l := by
    intro l' hl'
    refine ⟨List.mem_of_mem_eraseIdx hl', fun heq => ?_⟩
    have hperm := (List.getElem_cons_eraseIdx_perm htag).map PlaceList.id
    have honce := hperm.nodup_iff.mpr hc.once
    rw [List.map_cons, hget, List.nodup_cons] at honce
    exact honce.1 (hid.trans heq.symm ▸ List.mem_map_of_mem hl')
  refine ⟨fun l' hl' => ?_, ?_, fun j k hj => ?_, fun l' hl' => ?_⟩
  · obtain ⟨hmem, hne⟩ := hother l' hl'
    obtain ⟨i, hi, htitle, hk⟩ := hc.lists l' hmem
    have hil : i ≠ l := fun h => hne (h ▸ hi)
    exact ⟨i, hi, (htitled i l'.title).mpr ⟨hil, htitle⟩, fun k hin => hk k (hlisted i k hin)⟩
  · exact hc.once.sublist ((List.eraseIdx_sublist _ _).map _)
  · obtain ⟨hold, hkept⟩ := hids j k hj
    obtain ⟨p, hp, rfl⟩ := hc.covers j k hold
    exact ⟨p, mem_listDeleted hp hkept, rfl⟩
  · exact (hc.nodup l' (hother l' hl').1).sublist
      (((listDeleted_sublist c tag _).filter _).map _)

/-! ## 4. The edit screen -/

/-- The edit screen for a row of the saved screen. -/
theorem editFresh_load {s : UserStore} (hs : Integrity s) {c : SavedController}
    (hc : SavedFresh s c) (hstored : ∀ p ∈ c.places, p.dbId ≠ none) {i : Nat} {list : PlaceList}
    (hlist : c.lists[i]? = some list) :
    EditFresh s (EditListController.load list (c.placesOf list)) := by
  have hmem := List.mem_of_getElem? hlist
  obtain ⟨l, hid, htitle, hids⟩ := hc.lists list hmem
  constructor
  · exact ⟨l, hid, htitle⟩
  · intro p hp
    rw [EditListController.load, List.append_nil, mem_placesOf] at hp
    exact hstored p hp.1
  · rw [EditListController.load, List.append_nil]
    exact hc.nodup list hmem
  · intro k hk
    obtain ⟨j, hj⟩ := recorded_idAt hk
    obtain ⟨p, hp, rfl⟩ := hc.covers j k hj
    have hin := hids p.id ((hs l list.title p.id htitle).mpr hk)
    exact ⟨p, List.mem_append_left _ (mem_placesOf.mpr ⟨hp, hin⟩), rfl⟩

theorem editFresh_tappedDelete {s : UserStore} {e : EditListController} (he : EditFresh s e)
    (placeId : Int) : EditFresh s (e.tappedDelete placeId) := by
  have hperm := perm_tappedDelete e placeId
  have hlist : (e.tappedDelete placeId).list = e.list := by
    unfold EditListController.tappedDelete
    split <;> rfl
  constructor
  · rw [hlist]
    exact he.list
  · exact fun p hp => he.stored p (hperm.mem_iff.mp hp)
  · exact (hperm.map Place.dbId).nodup_iff.mpr he.nodup
  · rw [hlist]
    intro k hk
    obtain ⟨p, hp, hid⟩ := he.covers k hk
    exact ⟨p, hperm.mem_iff.mpr hp, hid⟩

theorem editFresh_title {s : UserStore} {e : EditListController} (he : EditFresh s e)
    (text : String) : EditFresh s (e.animatedFieldDidEndEditing text) := by
  unfold EditListController.animatedFieldDidEndEditing
  split
  · exact he
  · exact ⟨he.list, he.stored, he.nodup, he.covers⟩

end LocateMe
