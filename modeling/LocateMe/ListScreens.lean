import LocateMe.DbControllers

/-!
# The screens that show and edit saved lists

The handlers of `ListDetailController`, `EditListController` and
`SavedController` that change the store, as functions of the objects these
screens hold.

Results:
1. `places_retrieveHistory`, `perm_tappedDelete`: which places a screen holds.
2. `deleteAction_eq`: the requests that delete a list.
-/

namespace LocateMe

open Documents

/-! ## 1. ListDetailController -/

/-- The confirmed `tableView(_:commit:forRowAt:)`: a place is swiped out of the
list on screen. The list id `""` is that of "Recently Saved". -/
def commitDelete (s : UserStore) (list : PlaceList) (place : Place) : Issued :=
  match list.id with
  | none => (removePlaceFromAllList s place.id place.list).andThen (deletePlace place.dbId)
  | some listId =>
    (removePlaceFromList (some listId) place.id).andThen
      (removeListOf place.dbId place.list list.title)

/-- Every request of a swipe, whether or not it runs to its end. -/
theorem mem_commitDelete {s : UserStore} {list : PlaceList} {place : Place} {w : Write}
    (hw : w ∈ (commitDelete s list place).writes) :
    (∃ l, w = .removePlaces l [place.id]) ∨ (∃ j, w = .deleteHistory j) ∨
      (list.id ≠ none ∧ w ∈ (removeListOf place.dbId place.list list.title).writes) := by
  unfold commitDelete at hw
  split at hw
  · rcases Issued.mem_andThen hw with hw | hw
    · unfold removePlaceFromAllList at hw
      split at hw
      · cases hw
      · obtain ⟨l, -, hw⟩ := Issued.mem_forEach hw
        obtain ⟨id, -, rfl⟩ := Issued.mem_write hw
        exact .inl ⟨id, rfl⟩
    · obtain ⟨j, -, rfl⟩ := Issued.mem_write hw
      exact .inr (.inl ⟨j, rfl⟩)
  · next l hid =>
    rcases Issued.mem_andThen hw with hw | hw
    · obtain ⟨id, -, rfl⟩ := Issued.mem_write hw
      exact .inl ⟨id, rfl⟩
    · exact .inr (.inr ⟨by simp [hid], hw⟩)

/-! ## 2. EditListController -/

structure EditListController where
  list : PlaceList
  places : List Place
  selectedPlaces : List Place
  editedListTitle : String
  doneEnabled : Bool
deriving DecidableEq

namespace EditListController

/-- The screen that `SavedController.didTapEdit` opens. -/
def load (list : PlaceList) (places : List Place) : EditListController :=
  ⟨list, places, [], list.title, true⟩

/-- `tappedDelete` on the cell of a place with this id. -/
def tappedDelete (c : EditListController) (placeId : Int) : EditListController :=
  match c.places.findIdx? (·.id = placeId) with
  | none => c
  | some index =>
    { c with
      selectedPlaces := c.selectedPlaces ++ (c.places[index]?).toList
      places := c.places.eraseIdx index }

/-- `animatedFieldDidEndEditing`. The field of a default list takes no input. The
length is in code points, where the app counts characters. -/
def animatedFieldDidEndEditing (c : EditListController) (text : String) : EditListController :=
  if checkIfDefaultList c.list.title then c
  else { c with editedListTitle := text, doneEnabled := decide (3 ≤ text.length) }

/-- `tappedDone`. -/
def tappedDone (c : EditListController) : Issued :=
  (removeListFromAllSelectedPlaces c.list.title c.selectedPlaces).andThen <|
  (removeAllPlaceFromList c.list.id (c.selectedPlaces.map Place.id)).andThen <|
  if c.list.title ≠ c.editedListTitle then
    (updateListTitle c.list.id c.editedListTitle).andThen
      (updateTitleInPlaces c.list.title c.editedListTitle c.places)
  else .none

end EditListController

/-! ## 3. SavedController -/

/-- `isEmpty` is the field `empty`, and `seeAllHidden` whether `SeeAllBtn` is
hidden. -/
structure SavedController where
  lists : List PlaceList
  places : List Place
  isEmpty : Bool
  seeAllHidden : Bool
deriving DecidableEq

/-- The lists that `addDefaultLists` hands to its completion, when the next
document ids start at `next`. -/
def defaultLists (next : Nat) : List PlaceList :=
  [⟨"Favourite", some next, "heart", .lightRed, [], 0⟩,
    ⟨"To explore", some (next + 1), "flag", .lightGreen, [], 0⟩,
    ⟨"Recreational", some (next + 2), "music.house", .lightTeal, [], 0⟩,
    ⟨"Starred", some (next + 3), "star", .lightOrange, [], 0⟩]

namespace SavedController

/-- The controller before its queries have answered. -/
def initial : SavedController := ⟨[], [], false, false⟩

/-- The completion of `retrieveHistory`. -/
def retrieveHistory (c : SavedController) (allPlaces : List Place) : SavedController :=
  match allPlaces with
  | [] => { c with isEmpty := true, seeAllHidden := true }
  | [place] => { c with places := [place], seeAllHidden := true }
  | places => { c with places := places.insertionSort fun a b => b.id ≤ a.id }

/-- The places that the row of a list shows. -/
def placesOf (c : SavedController) (list : PlaceList) : List Place :=
  c.places.filter fun place => list.placeIds.contains place.id

/-- The requests of the delete action of `didTapEdit`. -/
def deleteAction (s : UserStore) (list : PlaceList) : Issued :=
  (removeListFromAllPlaces s list.title).andThen (deleteList list.id)

/-- The ids that `removeListFromAllPlaces` reports: the records it deletes. -/
def deletedIds (s : UserStore) (listTitle : String) : List Int :=
  ((recordsListing s listTitle).filter (·.2.list.length = 1)).map (·.2.id)

/-- The rest of the delete action, on the screen's own arrays. -/
def listDeleted (c : SavedController) (tag : Nat) (deletedIds : List Int) : SavedController :=
  { c with
    places := deletedIds.foldl (fun places placeId => places.eraseP (·.id = placeId)) c.places
    lists := c.lists.eraseIdx tag }

/-- The completion of `addNewList` in `NewListTapped`. -/
def listAdded (c : SavedController) (title : String) (listId : Nat)
    (lowercased : String → String := UnicodeCase.lowercased) : SavedController :=
  { c with
    lists := sortedByTitle (c.lists ++
      [⟨title, some listId, (setNewListIcon title).1, (setNewListIcon title).2, [], 0⟩])
      lowercased }

/-- `collectionView(_:numberOfItemsInSection:)`. -/
def numberOfItemsInSection (c : SavedController) : Nat := if c.isEmpty then 1 else c.places.length

/-- The label that `collectionView(_:cellForItemAt:)` reads for a row:
`place.list[0]`, or nothing of a place when the screen shows the empty cell.
`none` is the trap. -/
def cellForItemAt (c : SavedController) (row : Nat) : Option String :=
  if c.isEmpty then some ""
  else
    match c.places[row]? with
    | none => none
    | some place => place.list[0]?

end SavedController

/-! ## 4. What the screens hold -/

namespace ScreenLemmas

@[simp] theorem mem_placesOf {c : SavedController} {list : PlaceList} {p : Place} :
    p ∈ c.placesOf list ↔ p ∈ c.places ∧ p.id ∈ list.placeIds := by
  simp [SavedController.placesOf]

/-- The history that a screen holds after a query: the answer, unless that was
empty. -/
theorem places_retrieveHistory (c : SavedController) (allPlaces : List Place) :
    (c.retrieveHistory allPlaces).places.Perm allPlaces ∨
      allPlaces = [] ∧ (c.retrieveHistory allPlaces).places = c.places := by
  unfold SavedController.retrieveHistory
  split
  · exact .inr ⟨rfl, rfl⟩
  · exact .inl (List.Perm.refl _)
  · exact .inl (List.perm_insertionSort _ _)

/-- A tap on delete moves one place at most, from one array to the other. -/
theorem perm_tappedDelete (c : EditListController) (placeId : Int) :
    ((c.tappedDelete placeId).places ++ (c.tappedDelete placeId).selectedPlaces).Perm
      (c.places ++ c.selectedPlaces) := by
  unfold EditListController.tappedDelete
  split
  · exact List.Perm.refl _
  · next index hindex =>
    have hlt : index < c.places.length := (List.findIdx?_eq_some_iff_getElem.mp hindex).1
    have hperm : (c.places[index] :: c.places.eraseIdx index).Perm c.places :=
      List.getElem_cons_eraseIdx_perm hlt
    simp only [List.getElem?_eq_getElem hlt, Option.toList_some]
    calc (c.places.eraseIdx index ++ (c.selectedPlaces ++ [c.places[index]])).Perm
          (c.places[index] :: (c.places.eraseIdx index ++ c.selectedPlaces)) := by
            rw [← List.append_assoc]
            exact List.perm_append_singleton _ _
      _ |>.Perm (c.places ++ c.selectedPlaces) := hperm.append_right c.selectedPlaces

/-- The requests of the delete action for a list with an id. -/
theorem deleteAction_eq (s : UserStore) {list : PlaceList} {l : Nat} (hid : list.id = some l) :
    SavedController.deleteAction s list =
      .send ((recordsListing s list.title).map (fun x => removal x.1 x.2.list list.title) ++
        [.deleteList l]) := by
  rw [SavedController.deleteAction, removeListFromAllPlaces_eq, deleteList, hid]
  rfl

end ScreenLemmas

end LocateMe
