import LocateMe.TidyStore

/-!
# Done on the edit screen

The delete buttons of `EditListController` move places from one array to another.
Done takes the title of the list from the places of the second array and, when the
title was edited, writes the places of the first one over.

Results:
1. `perm_taps`, `mem_selectedPlaces_taps`: how the taps split the places.
2. `tappedDone_records`: the requests of Done, for the records that are shown.
3. `edit_done_correct`: what Done does to every document of a tidy store.
-/

namespace LocateMe

open Documents StoreLemmas ScreenLemmas TidyLemmas

/-! ## 1. The screen and what Done should do -/

/-- The edit screen of a list after taps on delete, with this title in its field. -/
def EditListController.edited (list : PlaceList) (places : List Place) (taps : List Int)
    (newTitle : String) : EditListController :=
  { taps.foldl EditListController.tappedDelete (.load list places) with
    editedListTitle := newTitle }

/-- The record with a title replaced where it stands. -/
def HistoryDoc.retitled (oldTitle newTitle : String) (r : HistoryDoc) : HistoryDoc :=
  { r with list := r.list.map fun title => if title = oldTitle then newTitle else title }

/-- From `s` to `t` list `l` has got the new title and lost the removed places. -/
structure EditedList (s t : UserStore) (l : Nat) (doc : ListDoc) (newTitle : String)
    (kept removed : List Place) : Prop where
  list : ∃ doc', t.lists.get l = some doc' ∧ doc'.title = newTitle ∧
    ∀ k, k ∈ doc'.places ↔ k ∈ kept.map Place.id
  otherLists : ∀ i, i ≠ l → t.lists.get i = s.lists.get i
  removedRecords : ∀ j r, s.history.get j = some r → r.id ∈ removed.map Place.id →
    t.history.get j = if r.list = [doc.title] then none
      else some { r with list := r.list.filter (· ≠ doc.title) }
  keptRecords : ∀ j r, s.history.get j = some r → r.id ∈ kept.map Place.id →
    t.history.get j = some (r.retitled doc.title newTitle)
  otherRecords : ∀ j r, s.history.get j = some r → r.id ∉ removed.map Place.id →
    r.id ∉ kept.map Place.id → t.history.get j = some r
  noOtherRecords : ∀ j, s.history.get j = none → t.history.get j = none

/-! ## 2. The taps -/

namespace EditLemmas

/-- The taps neither lose nor repeat a place. -/
theorem perm_taps (c : EditListController) (taps : List Int) :
    ((taps.foldl EditListController.tappedDelete c).places ++
      (taps.foldl EditListController.tappedDelete c).selectedPlaces).Perm
        (c.places ++ c.selectedPlaces) := by
  induction taps generalizing c with
  | nil => exact List.Perm.refl _
  | cons placeId taps ih => exact (ih (c.tappedDelete placeId)).trans (perm_tappedDelete c placeId)

/-- A tap leaves the title and the list alone. -/
theorem list_taps (c : EditListController) (taps : List Int) :
    (taps.foldl EditListController.tappedDelete c).list = c.list := by
  induction taps generalizing c with
  | nil => rfl
  | cons placeId taps ih =>
    rw [List.foldl_cons, ih]
    unfold EditListController.tappedDelete
    split <;> rfl

/-- A tap moves the place with the id, if it is there. -/
theorem mem_tappedDelete {c : EditListController} (hnodup : (c.places.map Place.id).Nodup)
    (placeId : Int) (p : Place) :
    (p ∈ (c.tappedDelete placeId).places ↔ p ∈ c.places ∧ p.id ≠ placeId) ∧
      (p ∈ (c.tappedDelete placeId).selectedPlaces ↔
        p ∈ c.selectedPlaces ∨ (p ∈ c.places ∧ p.id = placeId)) := by
  unfold EditListController.tappedDelete
  split
  · next hnone =>
    have habsent : ∀ q ∈ c.places, q.id ≠ placeId := by
      simpa [List.findIdx?_eq_none_iff] using hnone
    constructor
    · exact ⟨fun h => ⟨h, habsent p h⟩, And.left⟩
    · exact ⟨.inl, fun h => h.resolve_right fun hand => habsent p hand.1 hand.2⟩
  · next index hindex =>
    obtain ⟨hlt, hid, -⟩ := List.findIdx?_eq_some_iff_getElem.mp hindex
    simp only [decide_eq_true_eq] at hid
    -- the place with the id is the one at the index
    have hown : ∀ q ∈ c.places, q.id = placeId → q = c.places[index] := by
      intro q hq heq
      exact List.inj_on_of_nodup_map hnodup hq (List.getElem_mem hlt) (heq.trans hid.symm)
    have herase : c.places.eraseIdx index = c.places.erase c.places[index] :=
      ((List.Nodup.of_map Place.id hnodup).erase_getElem index hlt).symm
    constructor
    · rw [herase, (List.Nodup.of_map Place.id hnodup).mem_erase_iff]
      constructor
      · exact fun ⟨hne, hin⟩ => ⟨hin, fun heq => hne (hown p hin heq)⟩
      · rintro ⟨hin, hne⟩
        refine ⟨?_, hin⟩
        rintro rfl
        exact hne hid
    · rw [List.getElem?_eq_getElem hlt, Option.toList_some, List.mem_append, List.mem_singleton]
      refine or_congr_right ⟨?_, fun ⟨hin, heq⟩ => hown p hin heq⟩
      rintro rfl
      exact ⟨List.getElem_mem hlt, hid⟩

/-- After the taps the places with the tapped ids have moved, whether or not every
id was there. -/
theorem mem_selectedPlaces_taps {c : EditListController} (hnodup : (c.places.map Place.id).Nodup)
    (taps : List Int) (p : Place) :
    p ∈ (taps.foldl EditListController.tappedDelete c).selectedPlaces ↔
      p ∈ c.selectedPlaces ∨ (p ∈ c.places ∧ p.id ∈ taps) := by
  induction taps generalizing c with
  | nil => simp
  | cons placeId taps ih =>
    obtain ⟨hplaces, hselected⟩ := mem_tappedDelete hnodup placeId p
    have hnodup' : ((c.tappedDelete placeId).places.map Place.id).Nodup := by
      refine hnodup.sublist (List.Sublist.map Place.id ?_)
      unfold EditListController.tappedDelete
      split
      · exact List.Sublist.refl _
      · exact List.eraseIdx_sublist _ _
    rw [List.foldl_cons, ih hnodup', hselected, hplaces, List.mem_cons]
    tauto

/-! ## 3. The requests of Done -/

/-- The places of some records. -/
def placesOfRecords (xs : List (Nat × HistoryDoc)) : List Place :=
  xs.map fun x => placeOfDoc x.1 x.2

/-- The requests that change the history before the title is changed. -/
theorem removeSelected_eq (title : String) (xs : List (Nat × HistoryDoc)) :
    removeListFromAllSelectedPlaces title (placesOfRecords xs) =
      .send (xs.map fun x => removal x.1 x.2.list title) := by
  rw [removeListFromAllSelectedPlaces, placesOfRecords, Issued.forEach, List.foldr_map]
  show Issued.forEach xs (fun x => removeListOf (some x.1) x.2.list title) = _
  rw [Issued.forEach_send fun x _ => removeListOf_some x.1 x.2.list title, ← List.map_eq_flatMap]

/-- The request that writes a record over with its title renamed. -/
def renameRecord (oldTitle newTitle : String) (x : Nat × HistoryDoc) : Write :=
  .setHistory x.1 { x.2 with list := renameFirst oldTitle newTitle x.2.list }

theorem updateTitleInPlaces_eq (oldTitle newTitle : String) (xs : List (Nat × HistoryDoc)) :
    updateTitleInPlaces oldTitle newTitle (placesOfRecords xs) =
      .send (xs.map (renameRecord oldTitle newTitle)) := by
  rw [updateTitleInPlaces, placesOfRecords, Issued.forEach, List.foldr_map]
  show Issued.forEach xs (fun x => updatePlace (placeOfDoc x.1 x.2)
    (renameFirst oldTitle newTitle x.2.list)) = _
  have hsend : ∀ x ∈ xs, updatePlace (placeOfDoc x.1 x.2)
      (renameFirst oldTitle newTitle x.2.list) = .send [renameRecord oldTitle newTitle x] :=
    fun _ _ => rfl
  rw [Issued.forEach_send hsend, ← List.map_eq_flatMap]

/-- The requests of Done, for kept records `ks` and removed records `rs`. -/
def doneWrites (l : Nat) (oldTitle newTitle : String) (ks rs : List (Nat × HistoryDoc)) :
    List Write :=
  rs.map (fun x => removal x.1 x.2.list oldTitle) ++ ([.removePlaces l (rs.map (·.2.id))] ++
    if oldTitle = newTitle then []
    else .setTitle l newTitle :: ks.map (renameRecord oldTitle newTitle))

/-- Done on a screen that holds records. -/
theorem tappedDone_records {e : EditListController} {l : Nat} (hid : e.list.id = some l)
    {ks rs : List (Nat × HistoryDoc)} (hkept : e.places = placesOfRecords ks)
    (hremoved : e.selectedPlaces = placesOfRecords rs) :
    e.tappedDone = .send (doneWrites l e.list.title e.editedListTitle ks rs) := by
  have hids : (placesOfRecords rs).map Place.id = rs.map (·.2.id) := by
    rw [placesOfRecords, List.map_map]
    rfl
  rw [EditListController.tappedDone, hkept, hremoved, removeSelected_eq, removeAllPlaceFromList, hid,
    updateListTitle, updateTitleInPlaces_eq, hids, doneWrites]
  by_cases htitle : e.list.title = e.editedListTitle
  · rw [if_neg (not_not.mpr htitle), if_pos htitle]
    rfl
  · rw [if_pos htitle, if_neg htitle]
    rfl

theorem retitled_self (title : String) (r : HistoryDoc) : r.retitled title title = r := by
  have hid : (fun u => if u = title then title else u) = id := by
    funext u
    split
    · next h => exact h.symm
    · rfl
  rw [HistoryDoc.retitled, hid, List.map_id]

/-- What Done does to the history: the removed records lose the title, the kept ones
have it renamed, and no other record changes. -/
theorem doneWrites_history {s : UserStore} (l : Nat) (oldTitle newTitle : String)
    {ks rs : List (Nat × HistoryDoc)} (hkeys : ((ks ++ rs).map Prod.fst).Nodup)
    (hget : ∀ x ∈ ks ++ rs, s.history.get x.1 = some x.2)
    (hnodup : ∀ x ∈ ks, x.2.list.Nodup) :
    let t := applyAll s (doneWrites l oldTitle newTitle ks rs)
    (∀ x ∈ rs, t.history.get x.1 = x.2.withoutTitle oldTitle) ∧
      (∀ x ∈ ks, t.history.get x.1 = some (x.2.retitled oldTitle newTitle)) ∧
      ∀ j, j ∉ (ks ++ rs).map Prod.fst → t.history.get j = s.history.get j := by
  rw [List.map_append, List.nodup_append] at hkeys
  obtain ⟨hks, hrs, hdisjoint⟩ := hkeys
  obtain ⟨-, hremoved, hrest⟩ := removals_get oldTitle hrs
    fun x hx => hget x (List.mem_append_right ks hx)
  let u := applyAll s (rs.map fun x => removal x.1 x.2.list oldTitle)
  -- the requests after the removals, and what they do to the kept records
  let ws := [Write.removePlaces l (rs.map (·.2.id))] ++ if oldTitle = newTitle then []
    else .setTitle l newTitle :: ks.map (renameRecord oldTitle newTitle)
  have hlast : (∀ j, j ∉ ks.map Prod.fst → (applyAll u ws).history.get j = u.history.get j) ∧
      ∀ x ∈ ks, (applyAll u ws).history.get x.1 = some (x.2.retitled oldTitle newTitle) := by
    have hkept : ∀ x ∈ ks, u.history.get x.1 = some x.2 := by
      intro x hx
      rw [hrest x.1 fun hin => hdisjoint x.1 (List.mem_map_of_mem hx) x.1 hin rfl]
      exact hget x (List.mem_append_left rs hx)
    by_cases htitle : oldTitle = newTitle
    · subst htitle
      have hws : ws = [.removePlaces l (rs.map (·.2.id))] := by simp [ws]
      rw [hws]
      refine ⟨fun _ _ => rfl, fun x hx => ?_⟩
      rw [retitled_self]
      exact hkept x hx
    · have hws : ws = .removePlaces l (rs.map (·.2.id)) :: .setTitle l newTitle ::
          ks.map (renameRecord oldTitle newTitle) := by simp [ws, htitle]
      have hbatch := applyAll_history_batch (renameRecord oldTitle newTitle) Prod.fst
        (fun x _ => some { x.2 with list := renameFirst oldTitle newTitle x.2.list })
        (fun _ _ => rfl)
        ((Write.setTitle l newTitle).apply ((Write.removePlaces l (rs.map (·.2.id))).apply u)) ks
      rw [hws, applyAll_cons, applyAll_cons, hbatch]
      refine ⟨fun j hj => Collection.get_alterAll_of_not_mem hj, fun x hx => ?_⟩
      refine (Collection.get_alterAll hks hx).trans ?_
      rw [renameFirst_eq_map (hnodup x hx)]
      rfl
  obtain ⟨hother, hkept⟩ := hlast
  rw [doneWrites, applyAll_append]
  refine ⟨fun x hx => ?_, hkept, fun j hj => ?_⟩
  · have hnot : x.1 ∉ ks.map Prod.fst :=
      fun hin => hdisjoint x.1 hin x.1 (List.mem_map_of_mem hx) rfl
    exact (hother x.1 hnot).trans (hremoved x hx)
  · rw [List.map_append, List.mem_append, not_or] at hj
    exact (hother j hj.1).trans (hrest j hj.2)

/-- What Done does to the lists. -/
theorem doneWrites_lists {s : UserStore} {l : Nat} {doc : ListDoc} (hdoc : s.lists.get l = some doc)
    (newTitle : String) (ks : List (Nat × HistoryDoc)) {rs : List (Nat × HistoryDoc)}
    (hkeys : (rs.map Prod.fst).Nodup) (hget : ∀ x ∈ rs, s.history.get x.1 = some x.2) :
    let t := applyAll s (doneWrites l doc.title newTitle ks rs)
    t.lists.get l = some ⟨newTitle, arrayRemove doc.places (rs.map (·.2.id))⟩ ∧
      ∀ i, i ≠ l → t.lists.get i = s.lists.get i := by
  obtain ⟨hlists, -, -⟩ := removals_get doc.title hkeys hget
  rw [doneWrites, applyAll_append]
  by_cases htitle : doc.title = newTitle
  · rw [if_pos htitle]
    subst htitle
    refine ⟨?_, fun i hi => ?_⟩
    · simp [Write.apply, hlists, hdoc, ListDoc.removePlaces]
    · simp [Write.apply, hlists, hi]
  · rw [if_neg htitle]
    have hbatch : ∀ u, (applyAll u (ks.map (renameRecord doc.title newTitle))).lists = u.lists := by
      intro u
      rw [applyAll_history_batch (renameRecord doc.title newTitle) Prod.fst
        (fun x _ => some { x.2 with list := renameFirst doc.title newTitle x.2.list })
        (fun _ _ => rfl) u ks]
    refine ⟨?_, fun i hi => ?_⟩
    · simp [hbatch, Write.apply, hlists, hdoc, ListDoc.removePlaces, ListDoc.setTitle]
    · simp [hbatch, Write.apply, hlists, hi]

/-! ## 4. Done -/

/-- The two arrays hold the records of the list between them. -/
theorem split_records {s : UserStore} (hs : Consistent s) {l : Nat} {doc : ListDoc}
    (hdoc : s.lists.get l = some doc) {kept removed : List Place}
    (hshown : ShowsList s doc (kept ++ removed)) :
    ∃ ks rs, kept = placesOfRecords ks ∧ removed = placesOfRecords rs ∧
      (ks ++ rs).Perm (recordsListing s doc.title) := by
  obtain ⟨xs, heq, hperm⟩ := records_of_shown hs hdoc hshown
  obtain ⟨ks, rs, rfl, hks, hrs⟩ := List.map_eq_append_iff.mp heq.symm
  exact ⟨ks, rs, hks.symm, hrs.symm, hperm⟩

/-- Among stored records the id of a record tells whether it is one of them. -/
theorem id_mem_iff {s : UserStore} (hs : Consistent s) {xs : List (Nat × HistoryDoc)}
    (hget : ∀ x ∈ xs, s.history.get x.1 = some x.2) {j : Nat} {r : HistoryDoc}
    (hr : s.history.get j = some r) :
    r.id ∈ (placesOfRecords xs).map Place.id ↔ (j, r) ∈ xs := by
  have hids : (placesOfRecords xs).map Place.id = xs.map (·.2.id) := by
    rw [placesOfRecords, List.map_map]
    rfl
  rw [hids, List.mem_map]
  constructor
  · rintro ⟨⟨i, r'⟩, hx, hid⟩
    have hr' : s.history.get i = some r' := hget _ hx
    obtain rfl := hs.ids ⟨r', hr', hid⟩ ⟨r, hr, rfl⟩
    rwa [← Option.some.inj (hr.symm.trans hr')] at hx
  · exact fun hx => ⟨(j, r), hx, rfl⟩

/-- A record of the list loses its last title with its only one. -/
theorem withoutTitle_eq {title : String} {r : HistoryDoc} (hin : title ∈ r.list) :
    r.withoutTitle title = if r.list = [title] then none
      else some { r with list := r.list.filter (· ≠ title) } := by
  have hone : r.list.length = 1 ↔ r.list = [title] := by
    constructor
    · intro h
      obtain ⟨only, honly⟩ := List.length_eq_one_iff.mp h
      rw [honly, List.mem_singleton] at hin
      rw [honly, hin]
    · intro h
      rw [h]
      rfl
  have hremove : r.removeTitles [title] = { r with list := r.list.filter (· ≠ title) } := by
    simp [HistoryDoc.removeTitles, arrayRemove]
  rw [HistoryDoc.withoutTitle, hremove]
  simp only [hone]

/-- Done edits the list, for the records that the screen holds. -/
theorem editedList_done {s : UserStore} (hs : Tidy s) {l : Nat} {doc : ListDoc}
    (hdoc : s.lists.get l = some doc) (newTitle : String) {ks rs : List (Nat × HistoryDoc)}
    (hperm : (ks ++ rs).Perm (recordsListing s doc.title)) :
    EditedList s (applyAll s (doneWrites l doc.title newTitle ks rs)) l doc newTitle
      (placesOfRecords ks) (placesOfRecords rs) := by
  have hkeys : ((ks ++ rs).map Prod.fst).Nodup :=
    (hperm.map Prod.fst).nodup_iff.mpr (nodup_recordsListing s doc.title)
  have hrecords : ∀ x ∈ ks ++ rs, s.history.get x.1 = some x.2 ∧ doc.title ∈ x.2.list :=
    fun x hx => mem_recordsListing.mp (hperm.mem_iff.mp hx)
  have hget : ∀ x ∈ ks ++ rs, s.history.get x.1 = some x.2 := fun x hx => (hrecords x hx).1
  have hgetk : ∀ x ∈ ks, s.history.get x.1 = some x.2 :=
    fun x hx => hget x (List.mem_append_left rs hx)
  have hgetr : ∀ x ∈ rs, s.history.get x.1 = some x.2 :=
    fun x hx => hget x (List.mem_append_right ks hx)
  obtain ⟨hremoved, hkept, hother⟩ := doneWrites_history l doc.title newTitle hkeys hget
    fun x hx => hs.nodup x.1 x.2 (hgetk x hx)
  have hkeysr : (rs.map Prod.fst).Nodup :=
    hkeys.sublist ((List.sublist_append_right ks rs).map Prod.fst)
  obtain ⟨hlist, hlists⟩ := doneWrites_lists hdoc newTitle ks hkeysr hgetr
  refine ⟨⟨_, hlist, rfl, fun k => ?_⟩, hlists, fun j r hr hin => ?_, fun j r hr hin => ?_,
    fun j r hr hnot hnot' => ?_, fun j hnone => ?_⟩
  · -- the ids of the list are those of all its records, and no two records share one
    rw [mem_arrayRemove, mem_places_iff hs.toConsistent hdoc hperm]
    constructor
    · rintro ⟨⟨⟨j, r⟩, hx, rfl⟩, hnot⟩
      have hx' : (j, r) ∈ ks := by
        refine (List.mem_append.mp hx).resolve_right fun hin => hnot ?_
        exact List.mem_map_of_mem (f := fun x : Nat × HistoryDoc => x.2.id) hin
      exact (id_mem_iff hs.toConsistent hgetk (hgetk _ hx')).mpr hx'
    · intro hin
      obtain ⟨p, hp, rfl⟩ := List.mem_map.mp hin
      obtain ⟨x, hx, rfl⟩ := List.mem_map.mp hp
      refine ⟨⟨x, List.mem_append_left rs hx, rfl⟩, fun hin' => ?_⟩
      obtain ⟨y, hy, hid⟩ := List.mem_map.mp hin'
      have hxy : x.1 = y.1 := hs.ids ⟨x.2, hgetk x hx, rfl⟩ ⟨y.2, hgetr y hy, hid⟩
      rw [List.map_append, List.nodup_append] at hkeys
      exact hkeys.2.2 x.1 (List.mem_map_of_mem hx) y.1 (List.mem_map_of_mem hy) hxy
  · have hx := (id_mem_iff hs.toConsistent hgetr hr).mp hin
    have hlisting := (hrecords _ (List.mem_append_right ks hx)).2
    exact (hremoved _ hx).trans (withoutTitle_eq hlisting)
  · exact hkept _ ((id_mem_iff hs.toConsistent hgetk hr).mp hin)
  · rw [hother j, hr]
    intro hin
    obtain ⟨⟨i, r'⟩, hx, rfl⟩ := List.mem_map.mp hin
    obtain rfl := Option.some.inj (hr.symm.trans (hget _ hx))
    rcases List.mem_append.mp hx with hk | hr'
    · exact hnot' ((id_mem_iff hs.toConsistent hgetk hr).mpr hk)
    · exact hnot ((id_mem_iff hs.toConsistent hgetr hr).mpr hr')
  · rw [hother j, hnone]
    intro hin
    obtain ⟨⟨i, r'⟩, hx, rfl⟩ := List.mem_map.mp hin
    rw [hget _ hx] at hnone
    cases hnone

theorem dbIds_records (xs : List (Nat × HistoryDoc)) :
    (placesOfRecords xs).map Place.dbId = (xs.map Prod.fst).map some := by
  rw [placesOfRecords, List.map_map, List.map_map]
  rfl

/-- The screen is fresh: its arrays hold the records of a list of the store. -/
theorem editFresh_records {s : UserStore} {e : EditListController} {l : Nat} {doc : ListDoc}
    (hdoc : s.lists.get l = some doc) (hid : e.list.id = some l) (htitle : e.list.title = doc.title)
    {ks rs : List (Nat × HistoryDoc)} (hkept : e.places = placesOfRecords ks)
    (hremoved : e.selectedPlaces = placesOfRecords rs)
    (hperm : (ks ++ rs).Perm (recordsListing s doc.title)) : EditFresh s e := by
  have hall : e.places ++ e.selectedPlaces = placesOfRecords (ks ++ rs) := by
    rw [hkept, hremoved, placesOfRecords, placesOfRecords, placesOfRecords, List.map_append]
  refine ⟨⟨l, hid, doc, hdoc, htitle.symm⟩, fun p hp => ?_, ?_, fun k hk => ?_⟩
  · rw [hall] at hp
    obtain ⟨x, -, rfl⟩ := List.mem_map.mp hp
    exact Option.some_ne_none x.1
  · rw [hall, dbIds_records]
    have hkeys := (hperm.map Prod.fst).nodup_iff.mpr (nodup_recordsListing s doc.title)
    exact hkeys.map (Option.some_injective Nat)
  · obtain ⟨j, r, hr, rfl, hin⟩ := hk
    rw [htitle] at hin
    rw [hall]
    exact ⟨placeOfDoc j r, List.mem_map_of_mem (f := fun x : Nat × HistoryDoc => placeOfDoc x.1 x.2)
      (hperm.mem_iff.mpr (mem_recordsListing.mpr ⟨hr, hin⟩)), rfl⟩

/-- A place that was built from a record of the store is up to date. -/
theorem upToDate_record {s : UserStore} (hs : Consistent s) {j : Nat} {r : HistoryDoc}
    (hr : s.history.get j = some r) : UpToDate s (placeOfDoc j r) where
  same := by
    rintro _ ⟨rfl⟩
    exact sameRecord_of_get hs hr
  agrees _ _ := (recorded_of_get hs hr).symm

theorem editReady_records {s : UserStore} (hs : Tidy s) {e : EditListController} {l : Nat}
    {doc : ListDoc} (hdoc : s.lists.get l = some doc) (htitle : e.list.title = doc.title)
    (hnew : ∀ i, Titled s i e.editedListTitle → i = l) {ks rs : List (Nat × HistoryDoc)}
    (hkept : e.places = placesOfRecords ks) (hremoved : e.selectedPlaces = placesOfRecords rs)
    (hperm : (ks ++ rs).Perm (recordsListing s doc.title)) : EditReady s e := by
  have hrecords : ∀ x ∈ ks ++ rs, x ∈ recordsListing s doc.title :=
    fun x hx => hperm.mem_iff.mp hx
  refine ⟨fun p hp => ?_, fun hne => ?_, fun _ p hp => ?_⟩
  · rw [hremoved] at hp
    obtain ⟨x, hx, rfl⟩ := List.mem_map.mp hp
    rw [htitle]
    exact removable_of_query hs.toConsistent (hrecords x (List.mem_append_right ks hx))
  · -- a title of no list is in no record
    have hlist : ¬ ListTitle s e.editedListTitle := by
      rintro ⟨i, hi⟩
      obtain rfl := hnew i hi
      exact hne (htitle.trans (titled_unique ⟨doc, hdoc, rfl⟩ hi))
    refine ⟨hlist, ?_⟩
    rintro k ⟨j, r, hr, -, hin⟩
    exact hlist (hs.known j r hr _ hin)
  · rw [hkept] at hp
    obtain ⟨x, hx, rfl⟩ := List.mem_map.mp hp
    obtain ⟨hget, hin⟩ := mem_recordsListing.mp (hrecords x (List.mem_append_left rs hx))
    rw [htitle]
    exact ⟨upToDate_record hs.toConsistent hget, hin⟩

/-- Something is left of titles that are not the title alone. -/
theorem filter_ne_nil {title : String} {titles : List String} (hnodup : titles.Nodup)
    (hne : titles ≠ []) (hother : titles ≠ [title]) : titles.filter (· ≠ title) ≠ [] := by
  intro hnil
  have hall : ∀ u ∈ titles, u = title := by simpa using hnil
  obtain ⟨first, rest, rfl⟩ := List.exists_cons_of_ne_nil hne
  obtain rfl := hall first List.mem_cons_self
  refine hother (congrArg (first :: ·) (List.eq_nil_iff_forall_not_mem.mpr fun u hu => ?_))
  rw [hall u (List.mem_cons_of_mem _ hu)] at hu
  exact (List.nodup_cons.mp hnodup).1 hu

/-- A new title repeats no other. -/
theorem nodup_retitled {oldTitle newTitle : String} {r : HistoryDoc} (hnodup : r.list.Nodup)
    (hown : newTitle ∈ r.list → newTitle = oldTitle) :
    (r.retitled oldTitle newTitle).list.Nodup := by
  refine hnodup.map_on fun u hu v hv heq => ?_
  split_ifs at heq with h h' h'
  · rw [h, h']
  · subst heq
    exact absurd (hown hv) h'
  · subst heq
    exact absurd (hown hu) h
  · exact heq

/-- The edited store is tidy. -/
theorem tidy_edited {s t : UserStore} (hs : Tidy s) (ht : Consistent t) {l : Nat} {doc : ListDoc}
    (hdoc : s.lists.get l = some doc) {newTitle : String}
    (hnew : ∀ i, Titled s i newTitle → i = l) {kept removed : List Place}
    (hedit : EditedList s t l doc newTitle kept removed)
    (hcover : ∀ j r, s.history.get j = some r → doc.title ∈ r.list →
      r.id ∈ removed.map Place.id ∨ r.id ∈ kept.map Place.id) : Tidy t := by
  obtain ⟨doc', hdoc', htitle', -⟩ := hedit.list
  have htitles : ∀ u, ListTitle s u → u ≠ doc.title → ListTitle t u := by
    rintro u ⟨i, hi⟩ hne
    have hil : i ≠ l := by
      rintro rfl
      exact hne (titled_unique hi ⟨doc, hdoc, rfl⟩)
    obtain ⟨d, hd, rfl⟩ := hi
    exact ⟨i, d, (hedit.otherLists i hil).trans hd, rfl⟩
  have hown : ∀ r : HistoryDoc, (∀ u ∈ r.list, ListTitle s u) → newTitle ∈ r.list →
      newTitle = doc.title := by
    intro r hknown hin
    obtain ⟨i, hi⟩ := hknown newTitle hin
    obtain rfl := hnew i hi
    exact titled_unique hi ⟨doc, hdoc, rfl⟩
  have hrecord : ∀ j r', t.history.get j = some r' → r'.list ≠ [] ∧ r'.list.Nodup ∧
      ∀ u ∈ r'.list, ListTitle t u := by
    intro j r' hr'
    cases hr : s.history.get j with
    | none =>
      rw [hedit.noOtherRecords j hr] at hr'
      cases hr'
    | some r =>
      have hne := hs.listed j r hr
      have hnodup := hs.nodup j r hr
      have hknown := hs.known j r hr
      by_cases hin : r.id ∈ removed.map Place.id
      · rw [hedit.removedRecords j r hr hin] at hr'
        split at hr'
        · cases hr'
        · next hother =>
          obtain rfl := Option.some.inj hr'
          refine ⟨filter_ne_nil hnodup hne hother, hnodup.filter _, fun u hu => ?_⟩
          obtain ⟨hu, hne'⟩ := List.mem_filter.mp hu
          exact htitles u (hknown u hu) (by simpa using hne')
      · by_cases hin' : r.id ∈ kept.map Place.id
        · rw [hedit.keptRecords j r hr hin'] at hr'
          obtain rfl := Option.some.inj hr'
          refine ⟨by simpa [HistoryDoc.retitled] using hne, nodup_retitled hnodup (hown r hknown),
            fun u hu => ?_⟩
          obtain ⟨v, hv, rfl⟩ := List.mem_map.mp hu
          split
          · exact ⟨l, doc', hdoc', htitle'⟩
          · next hne' => exact htitles v (hknown v hv) hne'
        · rw [hedit.otherRecords j r hr hin hin'] at hr'
          obtain rfl := Option.some.inj hr'
          refine ⟨hne, hnodup, fun u hu => htitles u (hknown u hu) ?_⟩
          rintro rfl
          rcases hcover j r hr hu with h | h
          · exact hin h
          · exact hin' h
  exact { ht with
    listed := fun j r hr => (hrecord j r hr).1
    nodup := fun j r hr => (hrecord j r hr).2.1
    known := fun j r hr => (hrecord j r hr).2.2 }

end EditLemmas

open EditLemmas

/-- From a tidy store, whatever buttons are tapped and whatever title is entered that
no other list has: the taps split the places of the list, and Done gives the list the
new title and the kept places, takes the title from the others, and leaves everything
else as it is and the store tidy. -/
theorem edit_done_correct {s : UserStore} (hs : Tidy s) {l : Nat} {doc : ListDoc}
    (hdoc : s.lists.get l = some doc) {list : PlaceList} (hid : list.id = some l)
    (htitle : list.title = doc.title) {places : List Place} (hshown : ShowsList s doc places)
    (taps : List Int) {newTitle : String} (hnew : ∀ i, Titled s i newTitle → i = l) :
    let e := EditListController.edited list places taps newTitle
    let t := applyAll s e.tappedDone.writes
    (e.places ++ e.selectedPlaces).Perm places ∧
      (∀ p, p ∈ e.selectedPlaces ↔ p ∈ places ∧ p.id ∈ taps) ∧
      e.tappedDone.trapped = false ∧
      EditedList s t l doc newTitle e.places e.selectedPlaces ∧ Tidy t := by
  let e := EditListController.edited list places taps newTitle
  have hlist : e.list = list := list_taps (.load list places) taps
  have hperm : (e.places ++ e.selectedPlaces).Perm places := by
    have htaps := perm_taps (.load list places) taps
    rwa [EditListController.load, List.append_nil] at htaps
  obtain ⟨ks, rs, hkept, hremoved, hrecords⟩ :=
    split_records hs.toConsistent hdoc (hperm.trans hshown)
  have hidl : e.list.id = some l := by rw [hlist, hid]
  have htitlel : e.list.title = doc.title := by rw [hlist, htitle]
  have hdone : e.tappedDone = .send (doneWrites l doc.title newTitle ks rs) := by
    rw [tappedDone_records hidl hkept hremoved, htitlel]
    rfl
  have hfresh := editFresh_records hdoc hidl htitlel hkept hremoved hrecords
  have hready := editReady_records hs hdoc htitlel hnew hkept hremoved hrecords
  obtain ⟨hok, hcons⟩ := consistent_tappedDone hs.toConsistent hfresh hready
  have hedit : EditedList s (applyAll s e.tappedDone.writes) l doc newTitle e.places
      e.selectedPlaces := by
    rw [hdone, hkept, hremoved]
    exact editedList_done hs hdoc newTitle hrecords
  refine ⟨hperm, fun p => ?_, hok, hedit, tidy_edited hs hcons hdoc hnew hedit fun j r hr hin => ?_⟩
  · have hselected := mem_selectedPlaces_taps (c := .load list places)
      (nodup_shown hs.toConsistent hshown) taps p
    refine hselected.trans ?_
    simp [EditListController.load]
  · obtain ⟨p, hp, hpid⟩ := hfresh.covers r.id ⟨j, r, hr, rfl, htitlel ▸ hin⟩
    rw [← hpid]
    rcases List.mem_append.mp hp with hk | hr'
    · exact .inr (List.mem_map_of_mem hk)
    · exact .inl (List.mem_map_of_mem hr')

/-- The places of the list "A" of `exTidy`, as the saved screen has them. -/
def exPlaces : List Place :=
  (getAllPlaces exTidy).filter fun place => [1, 2].contains place.id

/-- One of its places is removed, an absent one is tapped, and "A" becomes "C". -/
theorem edit_done_correct_renamed :
    let e := EditListController.edited (listOfDoc 0 ⟨"A", [1, 2]⟩) exPlaces [1, 7] "C"
    let t := applyAll exTidy e.tappedDone.writes
    (e.places ++ e.selectedPlaces).Perm exPlaces ∧
      (∀ p, p ∈ e.selectedPlaces ↔ p ∈ exPlaces ∧ p.id ∈ [1, 7]) ∧
      e.tappedDone.trapped = false ∧
      EditedList exTidy t 0 ⟨"A", [1, 2]⟩ "C" e.places e.selectedPlaces ∧ Tidy t := by
  have hnone : ¬ ListTitle exTidy "C" := by decide +kernel
  have hdoc : exTidy.lists.get 0 = some ⟨"A", [1, 2]⟩ := by decide +kernel
  exact edit_done_correct (by decide +kernel) hdoc rfl rfl (List.Perm.refl _) [1, 7]
    fun i hi => absurd ⟨i, hi⟩ hnone

end LocateMe
