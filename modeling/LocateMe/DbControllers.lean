import LocateMe.Store

/-!
# The database controllers

`ListDbController` and `PlaceDbController`: the queries that the screens read
and the requests they send. A query reads the store as it is; a request is a
write, with the traps of the Firestore client.

Results:
1. `mem_getAllPlaces` and its siblings: what each query returns.
2. `removeListFromAllPlaces_eq`: a query is followed by one request for each
   record it returns.
-/

namespace LocateMe

open Documents

/-! ## 1. ListDbController -/

/-- The titles of `addDefaultLists`. -/
def defaultTitles : List String := ["Favourite", "To explore", "Recreational", "Starred"]

def addNewList (title : String) : Issued := .send [.addList title]

def addDefaultLists : Issued := .send (defaultTitles.map Write.addList)

def addNewPlaceToList (listId : Option Nat) (placeId : Int) : Issued :=
  .write listId (.unionPlaces · [placeId])

def updateListTitle (listId : Option Nat) (newTitle : String) : Issued :=
  .write listId (.setTitle · newTitle)

def getAllList (s : UserStore) : List PlaceList :=
  s.lists.documents.map fun (documentID, doc) => listOfDoc documentID doc

def deleteList (listId : Option Nat) : Issued := .write listId .deleteList

def removePlaceFromList (listId : Option Nat) (placeId : Int) : Issued :=
  .write listId (.removePlaces · [placeId])

def removeAllPlaceFromList (listId : Option Nat) (placeIds : List Int) : Issued :=
  .write listId (.removePlaces · placeIds)

/-- The lists whose title is one of `titles`. -/
def listsTitled (s : UserStore) (titles : List String) : List Nat :=
  (s.lists.documents.filter (·.2.title ∈ titles)).map Prod.fst

/-- `removePlaceFromAllList`. An `in` filter with no element or more than ten
is a trap. -/
def removePlaceFromAllList (s : UserStore) (placeId : Int) (listTitle : List String) : Issued :=
  if listTitle = [] ∨ 10 < listTitle.length then .trap
  else .forEach (listsTitled s listTitle) fun listId => removePlaceFromList (some listId) placeId

/-! ## 2. PlaceDbController -/

def addPlaceToHistory (place : Place) (listTitle : List String) (count : Int) : Issued :=
  .send [.addHistory (docOfPlace place listTitle count)]

def removeListInPlace (placeId : Option Nat) (listTitle : String) : Issued :=
  .write placeId (.removeTitles · [listTitle])

def deletePlace (placeId : Option Nat) : Issued := .write placeId .deleteHistory

def updatePlace (place : Place) (listTitle : List String) : Issued :=
  .write place.dbId (.setHistory · (docOfPlace place listTitle place.id))

/-- The records that list `listTitle`. -/
def recordsListing (s : UserStore) (listTitle : String) : List (Nat × HistoryDoc) :=
  s.history.documents.filter (listTitle ∈ ·.2.list)

/-- What `removeListFromAllPlaces` does with a record, and its sibling
`removeListFromAllSelectedPlaces` with a place: a last title takes the record
with it. -/
def removeListOf (placeId : Option Nat) (list : List String) (listTitle : String) : Issued :=
  if list.length = 1 then deletePlace placeId else removeListInPlace placeId listTitle

/-- The request of `removeListOf` for a stored record. -/
def removal (placeId : Nat) (list : List String) (listTitle : String) : Write :=
  if list.length = 1 then .deleteHistory placeId else .removeTitles placeId [listTitle]

@[simp] theorem removeListOf_some (placeId : Nat) (list : List String) (listTitle : String) :
    removeListOf (some placeId) list listTitle = .send [removal placeId list listTitle] := by
  unfold removeListOf removal
  split <;> rfl

/-- A place that has a document gets one request, another one a trap. -/
theorem mem_removeListOf {placeId : Option Nat} {list : List String} {listTitle : String}
    {w : Write} (hw : w ∈ (removeListOf placeId list listTitle).writes) :
    ∃ j, placeId = some j ∧ w = removal j list listTitle := by
  cases placeId with
  | none =>
    unfold removeListOf at hw
    split at hw <;> cases hw
  | some j =>
    rw [removeListOf_some] at hw
    exact ⟨j, rfl, List.mem_singleton.mp hw⟩

theorem removal_cases (placeId : Nat) (list : List String) (listTitle : String) :
    removal placeId list listTitle = .deleteHistory placeId ∨
      removal placeId list listTitle = .removeTitles placeId [listTitle] := by
  unfold removal
  split
  · exact .inl rfl
  · exact .inr rfl

def removeListFromAllPlaces (s : UserStore) (listTitle : String) : Issued :=
  .forEach (recordsListing s listTitle) fun (documentID, doc) =>
    removeListOf (some documentID) doc.list listTitle

/-- A query returns documents, so every round sends its request. -/
theorem removeListFromAllPlaces_eq (s : UserStore) (listTitle : String) :
    removeListFromAllPlaces s listTitle =
      .send ((recordsListing s listTitle).map fun x => removal x.1 x.2.list listTitle) := by
  rw [removeListFromAllPlaces,
    Issued.forEach_send fun x _ => removeListOf_some x.1 x.2.list listTitle,
    ← List.map_eq_flatMap]

def removeListFromAllSelectedPlaces (listTitle : String) (places : List Place) : Issued :=
  .forEach places fun place => removeListOf place.dbId place.list listTitle

/-- `place.list[index] = newTitle` at the first index of `oldTitle`. -/
def renameFirst (oldTitle newTitle : String) : List String → List String
  | [] => []
  | title :: rest =>
    if title = oldTitle then newTitle :: rest else title :: renameFirst oldTitle newTitle rest

/-- `ListDbController.updateTitleInPlaces`. -/
def updateTitleInPlaces (oldTitle newTitle : String) (places : List Place) : Issued :=
  .forEach places fun place => updatePlace place (renameFirst oldTitle newTitle place.list)

/-- `getAllPlaces`, by descending id. -/
def getAllPlaces (s : UserStore) : List Place :=
  (s.history.documents.map fun (documentID, doc) => placeOfDoc documentID doc).insertionSort
    fun a b => b.id ≤ a.id

def getAllPlacesForList (s : UserStore) (listTitle : String) : List Place :=
  (recordsListing s listTitle).map fun (documentID, doc) => placeOfDoc documentID doc

/-- The answers that `getPlaceByAddress` chooses one from: the document order of
the server decides which. -/
def placesByAddress (s : UserStore) (address : String) : List Place :=
  (s.history.documents.filter (·.2.address = address)).map fun (documentID, doc) =>
    placeOfDoc documentID doc

def getAllPlacesIds (s : UserStore) : List Int := s.history.documents.map (·.2.id)

/-! ## 3. What the queries return -/

@[simp] theorem mem_getAllList {s : UserStore} {l : PlaceList} :
    l ∈ getAllList s ↔ ∃ i d, s.lists.get i = some d ∧ l = listOfDoc i d := by
  simp [getAllList, eq_comm]

@[simp] theorem mem_listsTitled {s : UserStore} {titles : List String} {i : Nat} :
    i ∈ listsTitled s titles ↔ ∃ d, s.lists.get i = some d ∧ d.title ∈ titles := by
  simp [listsTitled]

@[simp] theorem mem_recordsListing {s : UserStore} {title : String} {j : Nat} {r : HistoryDoc} :
    (j, r) ∈ recordsListing s title ↔ s.history.get j = some r ∧ title ∈ r.list := by
  simp [recordsListing]

/-- Sorting neither drops nor repeats a record. -/
theorem getAllPlaces_perm (s : UserStore) :
    (getAllPlaces s).Perm (s.history.documents.map fun x => placeOfDoc x.1 x.2) :=
  List.perm_insertionSort _ _

@[simp] theorem mem_getAllPlaces {s : UserStore} {p : Place} :
    p ∈ getAllPlaces s ↔ ∃ j r, s.history.get j = some r ∧ p = placeOfDoc j r := by
  rw [(getAllPlaces_perm s).mem_iff]
  simp [eq_comm]

@[simp] theorem mem_getAllPlacesForList {s : UserStore} {title : String} {p : Place} :
    p ∈ getAllPlacesForList s title ↔
      ∃ j r, s.history.get j = some r ∧ title ∈ r.list ∧ p = placeOfDoc j r := by
  simp [getAllPlacesForList, eq_comm, and_assoc]

@[simp] theorem mem_placesByAddress {s : UserStore} {address : String} {p : Place} :
    p ∈ placesByAddress s address ↔
      ∃ j r, s.history.get j = some r ∧ r.address = address ∧ p = placeOfDoc j r := by
  simp [placesByAddress, eq_comm, and_assoc]

@[simp] theorem mem_getAllPlacesIds {s : UserStore} {k : Int} :
    k ∈ getAllPlacesIds s ↔ ∃ j r, s.history.get j = some r ∧ r.id = k := by
  simp [getAllPlacesIds]

/-- The document ids of the places that a query of the history returns are
distinct. -/
theorem nodup_getAllPlaces (s : UserStore) : ((getAllPlaces s).map Place.dbId).Nodup := by
  have hids : (s.history.documents.map fun x => placeOfDoc x.1 x.2).map Place.dbId =
      (s.history.documents.map Prod.fst).map some := by
    rw [List.map_map, List.map_map]
    rfl
  rw [((getAllPlaces_perm s).map Place.dbId).nodup_iff, hids]
  exact (Collection.nodup_documents s.history).map (Option.some_injective _)

end LocateMe
