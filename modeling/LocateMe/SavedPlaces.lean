import LocateMe.DbControllers
import LocateMe.TracedSearch

/-!
# Saving a place and reading it back

`addPlaceToHistory` and `updatePlace` write a place as a dictionary of fields;
`getAllPlaces`, `getAllPlacesForList` and `getPlaceByAddress` read each field with a
cast and build a place again, with the icon that `PlaceDbController.setPlaceIcon`
has for the category. The map has an icon table of its own.

Results:
1. `decodePlace_data`, `getAllPlaces_answer` and its siblings: documents that the
   app has written are read back as the queries of the model say.
2. `icons_agree_iff`: the categories for which the two tables have the same icon.
3. `reloaded_iff`: a saved place is read back as it was shown iff its category is
   none of five.
-/

namespace LocateMe

open Documents

/-! ## 1. The data of a document -/

/-- The value of a field. A `GeoPoint` outside the range of coordinates cannot be
built; a place that has been saved has passed that. -/
inductive FieldValue
  | string (s : String)
  | int (i : Int)
  | strings (xs : List String)
  | geoPoint (latitude longitude : Rat)
deriving DecidableEq

/-- `doc.data()`. -/
structure DocumentData where
  fields : List (String × FieldValue)
deriving DecidableEq

namespace DocumentData

/-- `data[key] as? String`. -/
def string? (data : DocumentData) (key : String) : Option String :=
  match data.fields.lookup key with
  | some (.string s) => some s
  | _ => none

/-- `data[key] as? Int`. -/
def int? (data : DocumentData) (key : String) : Option Int :=
  match data.fields.lookup key with
  | some (.int i) => some i
  | _ => none

/-- `data[key] as? [String]`. -/
def strings? (data : DocumentData) (key : String) : Option (List String) :=
  match data.fields.lookup key with
  | some (.strings xs) => some xs
  | _ => none

/-- `data[key] as? GeoPoint`, as a coordinate. -/
def geoPoint? (data : DocumentData) (key : String) : Option Coordinate :=
  match data.fields.lookup key with
  | some (.geoPoint latitude longitude) => some ⟨latitude, longitude⟩
  | _ => none

end DocumentData

/-- The dictionary in `addPlaceToHistory`. -/
def addPlaceData (place : Place) (listTitle : List String) (count : Int) : DocumentData where
  fields :=
    [("name", .string place.name), ("address", .string place.address),
      ("category", .string place.category), ("phone", .string place.phone),
      ("website", .string place.website),
      ("coordinate", .geoPoint place.coordinate.latitude place.coordinate.longitude),
      ("list", .strings listTitle), ("id", .int count)]

/-- The dictionary in `updatePlace`. -/
def updatePlaceData (place : Place) (listTitle : List String) : DocumentData where
  fields :=
    [("name", .string place.name), ("address", .string place.address),
      ("category", .string place.category), ("phone", .string place.phone),
      ("website", .string place.website),
      ("coordinate", .geoPoint place.coordinate.latitude place.coordinate.longitude),
      ("list", .strings listTitle), ("id", .int place.id)]

/-- The data of a stored record. -/
def HistoryDoc.data (doc : HistoryDoc) : DocumentData where
  fields :=
    [("name", .string doc.name), ("address", .string doc.address),
      ("category", .string doc.category), ("phone", .string doc.phone),
      ("website", .string doc.website),
      ("coordinate", .geoPoint doc.coordinate.latitude doc.coordinate.longitude),
      ("list", .strings doc.list), ("id", .int doc.id)]

/-! ## 2. The decoders -/

/-- `URL` of Foundation: `absoluteString`, and `URL(string:)`. -/
structure Foundation where
  URL : Type
  absoluteString : URL → String
  url : String → Option URL

/-- The `absoluteString` of some URL. -/
def Foundation.IsURL (F : Foundation) (s : String) : Prop := ∃ u, F.absoluteString u = s

/-- What becomes of one document: a place, an early `return`, or a trap. -/
inductive Decoded
  | place (p : Place)
  | returned
  | trapped
deriving DecidableEq

/-- What a query hands to its completion, if it is called. -/
inductive QueryAnswer
  | places (ps : List Place)
  | silent
  | trapped
deriving DecidableEq

/-- The loop body of `getAllPlaces` and `getAllPlacesForList`: a missing coordinate
returns from the query, any other missing field is a forced unwrap. -/
def decodePlace (F : Foundation) (documentID : Nat) (data : DocumentData) : Decoded :=
  match data.geoPoint? "coordinate" with
  | none => .returned
  | some coordinate =>
    match data.string? "name", data.string? "address", data.string? "category",
      data.string? "phone", (data.string? "website").bind F.url, data.int? "id",
      data.strings? "list" with
    | some name, some address, some category, some phone, some website, some id, some list =>
      .place
        { name := name
          address := address
          phone := phone
          website := F.absoluteString website
          category := category
          coordinate := coordinate
          time := "0"
          distance := 0
          id := id
          dbId := some documentID
          list := list
          icon := (setPlaceIcon category).1
          color := (setPlaceIcon category).2 }
    | _, _, _, _, _, _, _ => .trapped

/-- The body of `getPlaceByAddress`: without one of the fields the completion is not
called, and only the URL is unwrapped. -/
def decodeByAddress (F : Foundation) (documentID : Nat) (data : DocumentData) : Decoded :=
  match data.string? "name", data.string? "address", data.string? "category",
    data.string? "phone", data.string? "website", data.int? "id", data.strings? "list",
    data.geoPoint? "coordinate" with
  | some name, some address, some category, some phone, some website, some id, some list,
    some coordinate =>
    match F.url website with
    | none => .trapped
    | some website =>
      .place
        { name := name
          address := address
          phone := phone
          website := F.absoluteString website
          category := category
          coordinate := coordinate
          time := "0"
          distance := 0
          id := id
          dbId := some documentID
          list := list
          icon := (setPlaceIcon category).1
          color := (setPlaceIcon category).2 }
  | _, _, _, _, _, _, _, _ => .returned

/-- The loop over the documents of a query. -/
def decodeAll (F : Foundation) : List (Nat × HistoryDoc) → QueryAnswer
  | [] => .places []
  | (documentID, doc) :: rest =>
    match decodePlace F documentID doc.data with
    | .place p =>
      match decodeAll F rest with
      | .places ps => .places (p :: ps)
      | other => other
    | .returned => .silent
    | .trapped => .trapped

/-- `getAllPlaces`, with the documents by descending id. -/
def getAllPlacesAnswer (F : Foundation) (s : UserStore) : QueryAnswer :=
  decodeAll F (s.history.documents.insertionSort fun a b => b.2.id ≤ a.2.id)

def getAllPlacesForListAnswer (F : Foundation) (s : UserStore) (listTitle : String) : QueryAnswer :=
  decodeAll F (recordsListing s listTitle)

/-- `getPlaceByAddress`: what becomes of each document that the server can choose. -/
def getPlaceByAddressAnswers (F : Foundation) (s : UserStore) (address : String) :
    List Decoded :=
  (s.history.documents.filter (·.2.address = address)).map fun (documentID, doc) =>
    decodeByAddress F documentID doc.data

/-! ## 3. Saving and reading back -/

/-- The store after the place has been saved, and the document that holds it: a new
one, or the one that the place has in `dbId`. -/
inductive Saved (s : UserStore) (place : Place) (listTitle : List String) :
    Nat → UserStore → Prop
  | added (count : Int) :
      Saved s place listTitle s.history.next
        (applyAll s (addPlaceToHistory place listTitle count).writes)
  | updated (j : Nat) (id : Int) :
      Saved s place listTitle j
        (applyAll s (updatePlace { place with dbId := some j, id := id } listTitle).writes)

/-- The place that is read back, beside the one that was saved. -/
structure SameAsSaved (place : Place) (listTitle : List String) (p : Place) : Prop where
  name : p.name = place.name
  address : p.address = place.address
  phone : p.phone = place.phone
  website : p.website = place.website
  category : p.category = place.category
  coordinate : p.coordinate = place.coordinate
  list : p.list = listTitle
  icon : p.icon = place.icon
  color : p.color = place.color

/-- Every query that the record answers reads the place back from it. -/
structure Reloaded (F : Foundation) (t : UserStore) (place : Place) (listTitle : List String)
    (j : Nat) : Prop where
  all : ∃ ps p, getAllPlacesAnswer F t = .places ps ∧ p ∈ ps ∧ p.dbId = some j ∧
    SameAsSaved place listTitle p
  forList : ∀ title ∈ listTitle, ∃ ps p, getAllPlacesForListAnswer F t title = .places ps ∧
    p ∈ ps ∧ p.dbId = some j ∧ SameAsSaved place listTitle p
  byAddress : ∃ p, getPlaceByAddressAnswers F t place.address = [.place p] ∧
    p.dbId = some j ∧ SameAsSaved place listTitle p

/-- No record but `j` has the address of the place. -/
def OnlyRecord (s : UserStore) (address : String) (j : Nat) : Prop :=
  ∀ k r, s.history.get k = some r → r.address = address → k = j

/-- The websites in the store are those of URLs, as `addPlaceToHistory` and
`updatePlace` write them. -/
def StoredURLs (F : Foundation) (s : UserStore) : Prop :=
  ∀ k r, s.history.get k = some r → F.IsURL r.website

/-- A request that writes the websites of URLs only. -/
def WritesURLs (F : Foundation) : Write → Prop
  | .addHistory doc => F.IsURL doc.website
  | .setHistory _ doc => F.IsURL doc.website
  | _ => True

/-- The categories that the map has an icon for, and `PlaceDbController` has not. -/
def mapOnlyCategories : List String := ["Gas", "Restaurants", "Parks", "Shop", "Shops"]

/-- The query text, or else the raw category of the item, does not stand for one of
these. -/
def KeepsIcon (searchText : String) (pointOfInterestCategory : Option String) : Prop :=
  if pointOfInterestCategory.getD searchText = searchText then
    capitalizingFirstLetter searchText ∉ mapOnlyCategories
  else (pointOfInterestCategory.getD searchText).replace "MKPOICategory" "" ∉ mapOnlyCategories

namespace ReloadLemmas

/-! ## 4. What is written is read -/

/-- Both encoders write the data of the model's record. -/
theorem addPlaceData_eq (place : Place) (listTitle : List String) (count : Int) :
    addPlaceData place listTitle count = (docOfPlace place listTitle count).data := rfl

theorem updatePlaceData_eq (place : Place) (listTitle : List String) :
    updatePlaceData place listTitle = (docOfPlace place listTitle place.id).data := rfl

variable {F : Foundation} (hback : ∀ u, F.url (F.absoluteString u) = some u)

include hback

/-- A record with the website of a URL has every field that the loop unwraps. -/
theorem decodePlace_data {doc : HistoryDoc} (h : F.IsURL doc.website) (documentID : Nat) :
    decodePlace F documentID doc.data = .place (placeOfDoc documentID doc) := by
  obtain ⟨u, hu⟩ := h
  have hwebsite : (doc.data.string? "website").bind F.url = some u := by
    show F.url doc.website = some u
    rw [← hu, hback]
  unfold decodePlace
  rw [hwebsite]
  show Decoded.place { placeOfDoc documentID doc with website := F.absoluteString u } = _
  rw [hu]
  rfl

theorem decodeByAddress_data {doc : HistoryDoc} (h : F.IsURL doc.website) (documentID : Nat) :
    decodeByAddress F documentID doc.data = .place (placeOfDoc documentID doc) := by
  obtain ⟨u, hu⟩ := h
  have hwebsite : F.url doc.website = some u := by
    rw [← hu, hback]
  show (match F.url doc.website with
    | none => Decoded.trapped
    | some website =>
      .place { placeOfDoc documentID doc with website := F.absoluteString website }) = _
  rw [hwebsite]
  show Decoded.place { placeOfDoc documentID doc with website := F.absoluteString u } = _
  rw [hu]
  rfl

theorem decodeAll_eq {docs : List (Nat × HistoryDoc)} (h : ∀ x ∈ docs, F.IsURL x.2.website) :
    decodeAll F docs = .places (docs.map fun x => placeOfDoc x.1 x.2) := by
  induction docs with
  | nil => rfl
  | cons x rest ih =>
    obtain ⟨hx, hrest⟩ := List.forall_mem_cons.mp h
    unfold decodeAll
    rw [decodePlace_data hback hx, ih hrest]
    rfl

variable {s : UserStore} (hstore : StoredURLs F s)

include hstore

theorem getAllPlaces_answer : getAllPlacesAnswer F s = .places (getAllPlaces s) := by
  have hsites : ∀ x ∈ s.history.documents.insertionSort (fun a b => b.2.id ≤ a.2.id),
      F.IsURL x.2.website := by
    intro x hx
    have hstored := (List.perm_insertionSort _ s.history.documents).mem_iff.mp hx
    exact hstore x.1 x.2 (Collection.mem_documents.mp hstored)
  rw [getAllPlacesAnswer, decodeAll_eq hback hsites]
  exact congrArg QueryAnswer.places (List.map_insertionSort _ _ _ _ fun a _ b _ => Iff.rfl)

theorem getAllPlacesForList_answer (listTitle : String) :
    getAllPlacesForListAnswer F s listTitle = .places (getAllPlacesForList s listTitle) := by
  refine decodeAll_eq hback fun x hx => ?_
  exact hstore x.1 x.2 (mem_recordsListing.mp hx).1

theorem getPlaceByAddress_answers (address : String) :
    getPlaceByAddressAnswers F s address = (placesByAddress s address).map .place := by
  unfold getPlaceByAddressAnswers placesByAddress
  rw [List.map_map]
  refine List.map_congr_left fun x hx => ?_
  have hstored := Collection.mem_documents.mp (List.mem_filter.mp hx).1
  exact decodeByAddress_data hback (hstore x.1 x.2 hstored) x.1

omit hback hstore

/-! ## 5. The store after saving -/

/-- Saving leaves every other record as it is. -/
theorem saved_history {place : Place} {listTitle : List String} {j : Nat} {t : UserStore}
    (h : Saved s place listTitle j t) :
    ∃ id, ∀ k, t.history.get k =
      if k = j then some (docOfPlace place listTitle id) else s.history.get k := by
  cases h with
  | added count => exact ⟨count, fun k => Collection.get_add _ _ k⟩
  | updated j id => exact ⟨id, fun k => Collection.get_set _ _ _ k⟩

theorem storedURLs_empty : StoredURLs F .empty := by
  intro k r hr
  cases hr

/-- No other request touches a website. -/
theorem storedURLs_apply {w : Write} (hw : WritesURLs F w) (hstore : StoredURLs F s) :
    StoredURLs F (w.apply s) := by
  intro k r hr
  cases w with
  | addList _ | unionPlaces _ _ | removePlaces _ _ | setTitle _ _ | deleteList _ =>
    exact hstore k r hr
  | addHistory doc =>
    rcases Collection.get_add_eq_some.mp hr with ⟨-, rfl⟩ | hstored
    · exact hw
    · exact hstore k r hstored
  | setHistory i doc =>
    replace hr : (if k = i then some doc else s.history.get k) = some r := hr
    split at hr
    · obtain rfl := Option.some.inj hr
      exact hw
    · exact hstore k r hr
  | removeTitles i titles =>
    replace hr : (if k = i then (s.history.get i).map (HistoryDoc.removeTitles titles)
      else s.history.get k) = some r := hr
    split at hr
    · obtain ⟨r', hr', rfl⟩ := Option.map_eq_some_iff.mp hr
      exact hstore i r' hr'
    · exact hstore k r hr
  | deleteHistory i =>
    replace hr : (if k = i then none else s.history.get k) = some r := hr
    split at hr
    · cases hr
    · exact hstore k r hr

theorem storedURLs_applyAll {ws : List Write} (hws : ∀ w ∈ ws, WritesURLs F w)
    (hstore : StoredURLs F s) : StoredURLs F (applyAll s ws) :=
  applyAll_invariant (I := StoredURLs F) (fun w hw _ => storedURLs_apply (hws w hw)) hstore

theorem storedURLs_saved {place : Place} {listTitle : List String} {j : Nat} {t : UserStore}
    (hstore : StoredURLs F s) (hplace : F.IsURL place.website)
    (h : Saved s place listTitle j t) : StoredURLs F t := by
  cases h with
  | added count =>
    refine storedURLs_applyAll (fun w hw => ?_) hstore
    obtain rfl := List.mem_singleton.mp hw
    exact hplace
  | updated j id =>
    refine storedURLs_applyAll (fun w hw => ?_) hstore
    obtain rfl := List.mem_singleton.mp hw
    exact hplace

/-- The record of the place is the only one with its address. -/
theorem placesByAddress_saved {place : Place} {listTitle : List String} {j : Nat}
    {t : UserStore} {id : Int}
    (hget : ∀ k, t.history.get k =
      if k = j then some (docOfPlace place listTitle id) else s.history.get k)
    (hone : OnlyRecord s place.address j) :
    placesByAddress t place.address = [placeOfDoc j (docOfPlace place listTitle id)] := by
  have hnodup : (t.history.documents.filter (·.2.address = place.address)).Nodup :=
    ((Collection.nodup_documents t.history).of_map _).filter _
  have hmem : ∀ x, x ∈ t.history.documents.filter (·.2.address = place.address) ↔
      x ∈ [(j, docOfPlace place listTitle id)] := by
    rintro ⟨k, r⟩
    rw [List.mem_filter, Collection.mem_documents, List.mem_singleton, hget]
    split
    · next hk =>
      subst hk
      constructor
      · rintro ⟨hr, -⟩
        rw [Option.some.inj hr]
      · intro hr
        obtain ⟨-, rfl⟩ := Prod.mk.inj hr
        exact ⟨rfl, decide_eq_true rfl⟩
    · next hk =>
      constructor
      · rintro ⟨hr, haddress⟩
        exact absurd (hone k r hr (of_decide_eq_true haddress)) hk
      · intro hr
        exact absurd (Prod.mk.inj hr).1 hk
  have hdocs := List.perm_singleton.mp
    ((List.perm_ext_iff_of_nodup hnodup (List.nodup_singleton _)).mpr hmem)
  unfold placesByAddress
  rw [hdocs]
  rfl

/-! ## 6. The icons -/

/-- The two tables differ for five categories. -/
theorem icons_agree_iff (title : String) :
    setPlaceIcon title = setMapPlaceIcon title ↔ title ∉ mapOnlyCategories := by
  unfold setPlaceIcon setMapPlaceIcon mapOnlyCategories
  constructor
  · intro h hmem
    simp only [List.mem_cons, List.not_mem_nil, or_false] at hmem
    rcases hmem with rfl | rfl | rfl | rfl | rfl <;> exact absurd h (by decide)
  · intro h
    simp only [List.mem_cons, List.not_mem_nil, or_false, not_or] at h
    obtain ⟨hgas, hrestaurants, hparks, hshop, hshops⟩ := h
    simp only [hgas, hrestaurants, hparks, hshop, hshops, or_false, false_or, if_false]

/-- A filtered category is one of the five iff it was before `Gas Station` got its
space. -/
theorem filterMapCategory_mem_iff (category : String) :
    filterMapCategory category ∈ mapOnlyCategories ↔
      category.replace "MKPOICategory" "" ∈ mapOnlyCategories := by
  unfold filterMapCategory
  dsimp only
  split
  · next h =>
    rw [h]
    decide
  · rfl

/-- A place that is read back has the icon that it was saved with. -/
theorem reloaded_icon {F : Foundation} (hback : ∀ u, F.url (F.absoluteString u) = some u)
    {t : UserStore} (ht : StoredURLs F t) {place : Place} {listTitle : List String} {j : Nat}
    {id : Int} (hj : t.history.get j = some (docOfPlace place listTitle id))
    (h : Reloaded F t place listTitle j) :
    setPlaceIcon place.category = (place.icon, place.color) := by
  obtain ⟨ps, p, hps, hp, hdb, hsame⟩ := h.all
  rw [getAllPlaces_answer hback ht] at hps
  obtain rfl := QueryAnswer.places.inj hps
  obtain ⟨k, r, hr, rfl⟩ := mem_getAllPlaces.mp hp
  obtain rfl := Option.some.inj hdb
  obtain rfl := Option.some.inj (hj.symm.trans hr)
  exact Prod.ext hsame.icon hsame.color

theorem keepsIcon_iff (searchText : String) (pointOfInterestCategory : Option String) :
    KeepsIcon searchText pointOfInterestCategory ↔
      formatCategory searchText (pointOfInterestCategory.getD searchText) ∉
        mapOnlyCategories := by
  unfold KeepsIcon formatCategory
  split
  · rfl
  · rw [filterMapCategory_mem_iff]

end ReloadLemmas

open ReloadLemmas

/-! ## 7. Reading back -/

/-- A place that the map has built from an item (`createPlaceList` builds each of its
places so) is saved, and no other record has its address: the queries read it back
without a trap, with all its fields and its list, and with the icon and colour it was
shown with, iff its category is none of the five that only the map has an icon for. -/
theorem reloaded_iff {F : Foundation} (hback : ∀ u, F.url (F.absoluteString u) = some u)
    (hgoogle : F.IsURL "https://www.google.com") (dist : Coordinate → Coordinate → Rat)
    (searchText : String) (location : Option Coordinate) {item : MapItem}
    (hitem : ∀ site, item.url = some site → F.IsURL site) {s t : UserStore}
    (hstore : StoredURLs F s) {listTitle : List String} {j : Nat}
    (hsaved : Saved s (createPlaceitems dist searchText location item) listTitle j t)
    (hone : OnlyRecord s (createPlaceitems dist searchText location item).address j) :
    Reloaded F t (createPlaceitems dist searchText location item) listTitle j ↔
      KeepsIcon searchText item.pointOfInterestCategory := by
  generalize hplace : createPlaceitems dist searchText location item = place at hsaved hone ⊢
  have hcategory : place.category =
      formatCategory searchText (item.pointOfInterestCategory.getD searchText) := by
    rw [← hplace]
    rfl
  have hicon : (place.icon, place.color) = setMapPlaceIcon place.category := by
    rw [← hplace]
    rfl
  have hwebsite : F.IsURL place.website := by
    rw [← hplace]
    show F.IsURL (item.url.getD "https://www.google.com")
    cases hurl : item.url with
    | none => exact hgoogle
    | some site => exact hitem site hurl
  obtain ⟨id, hget⟩ := saved_history hsaved
  have ht := storedURLs_saved hstore hwebsite hsaved
  have hj : t.history.get j = some (docOfPlace place listTitle id) := by
    rw [hget, if_pos rfl]
  rw [keepsIcon_iff, ← hcategory, ← icons_agree_iff, ← hicon]
  constructor
  · exact reloaded_icon hback ht hj
  · intro h
    have hsame : SameAsSaved place listTitle (placeOfDoc j (docOfPlace place listTitle id)) :=
      { name := rfl
        address := rfl
        phone := rfl
        website := rfl
        category := rfl
        coordinate := rfl
        list := rfl
        icon := congrArg Prod.fst h
        color := congrArg Prod.snd h }
    refine ⟨⟨_, _, getAllPlaces_answer hback ht, mem_getAllPlaces.mpr ⟨j, _, hj, rfl⟩, rfl,
      hsame⟩, fun title htitle => ?_, ⟨_, ?_, rfl, hsame⟩⟩
    · exact ⟨_, _, getAllPlacesForList_answer hback ht title,
        mem_getAllPlacesForList.mpr ⟨j, _, hj, htitle, rfl⟩, rfl, hsame⟩
    · rw [getPlaceByAddress_answers hback ht, placesByAddress_saved hget hone]
      rfl

/-- URLs that are their strings. -/
def exFoundation : Foundation := ⟨String, id, some⟩

/-- A search for "cafe", saved as a new record. -/
theorem reloaded_cafe :
    Reloaded exFoundation
      (applyAll .empty (addPlaceToHistory
        (createPlaceitems groundDistance "cafe" none (exItem "A" ⟨0, 0⟩)) ["Favourite"] 1).writes)
      (createPlaceitems groundDistance "cafe" none (exItem "A" ⟨0, 0⟩)) ["Favourite"] 0 :=
  (reloaded_iff (F := exFoundation) (fun _ => rfl) ⟨_, rfl⟩ groundDistance "cafe" none
    (fun _ h => by cases h) storedURLs_empty (.added 1)
    (fun _ _ h => by cases h)).mpr (by
      rw [keepsIcon_iff]
      decide +kernel)

/-- The "Gas" icon of the search panel searches for "Gas". -/
theorem gas_icon_lost :
    ¬ ∀ (F : Foundation) (dist : Coordinate → Coordinate → Rat) (searchText : String)
        (location : Option Coordinate) (item : MapItem) (s t : UserStore)
        (listTitle : List String) (j : Nat),
      (∀ u, F.url (F.absoluteString u) = some u) → F.IsURL "https://www.google.com" →
      (∀ site, item.url = some site → F.IsURL site) → StoredURLs F s →
      Saved s (createPlaceitems dist searchText location item) listTitle j t →
      OnlyRecord s (createPlaceitems dist searchText location item).address j →
      Reloaded F t (createPlaceitems dist searchText location item) listTitle j := by
  intro h
  have hreloaded := h exFoundation groundDistance (searchIconText 2) none (exItem "A" ⟨0, 0⟩)
    .empty _ ["Favourite"] 0 (fun _ => rfl) ⟨_, rfl⟩ (fun _ h => by cases h)
    storedURLs_empty (.added 1) (fun _ _ h => by cases h)
  have hicon := reloaded_icon (fun _ => rfl) (fun _ r _ => ⟨r.website, rfl⟩) rfl hreloaded
  revert hicon
  decide +kernel

end LocateMe
