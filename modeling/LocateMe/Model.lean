import Mathlib
import LocateMe.Lib.UnicodeCase

/-!
# The data of the app

The value types that the screens and the database controllers pass around:
`Place` and `List` as the app holds them in memory, and the two kinds of
document that Firestore stores for a user, together with the icon and title
tables that decode a document into the object a screen shows.
-/

namespace LocateMe

/-- `CLLocationCoordinate2D`. Its `==` compares both components; finite doubles
are rationals. -/
structure Coordinate where
  latitude : Rat
  longitude : Rat
deriving DecidableEq

inductive UIColor
  | lightRed
  | lightBlue
  | lightOrange
  | lightGreen
  | lightPurple
  | lightTeal
deriving DecidableEq

/-- `class Place`. A document id of `""` (a place that is not stored) is `none`,
and `website` is the `absoluteString` of the URL that every initialiser sets. -/
structure Place where
  name : String
  address : String
  phone : String
  website : String
  category : String
  coordinate : Coordinate
  time : String
  distance : Rat
  id : Int
  dbId : Option Nat
  list : List String
  icon : String
  color : UIColor
deriving DecidableEq

/-- `struct List`. The id `""` of "Recently Saved" and of the lists shown to a
visitor is `none`. -/
structure PlaceList where
  title : String
  id : Option Nat
  icon : String
  color : UIColor
  placeIds : List Int
  count : Nat
deriving DecidableEq

/-- A document of `users/<id>/lists`. -/
structure ListDoc where
  title : String
  places : List Int
deriving DecidableEq

/-- A document of `users/<id>/history`. -/
structure HistoryDoc where
  name : String
  address : String
  category : String
  phone : String
  website : String
  coordinate : Coordinate
  list : List String
  id : Int
deriving DecidableEq

/-! ## Decoding documents -/

/-- `PlaceDbController.setPlaceIcon`. -/
def setPlaceIcon (title : String) : String × UIColor :=
  if title = "Gas Station" then ("gasicon", .lightBlue)
  else if title = "Restaurant" ∨ title = "Food" then ("restauranticon", .lightOrange)
  else if title = "Park" then ("parkicon", .lightGreen)
  else ("locationicon", .lightRed)

/-- `ListDbController.setListIcon`. -/
def setListIcon (title : String) : String × UIColor :=
  if title = "Favourite" then ("heart.circle.fill", .lightRed)
  else if title = "To explore" then ("flag.circle.fill", .lightGreen)
  else if title = "Starred" then ("star.circle.fill", .lightOrange)
  else if title = "Recreational" then ("folder.circle.fill", .lightTeal)
  else ("folder.circle.fill", .lightPurple)

/-- `UIView.setListIcon`, which the two "New List" alerts use. -/
def setNewListIcon (title : String) : String × UIColor :=
  if title = "Favourite" then ("heart.fill", .lightRed)
  else if title = "To explore" then ("flag.fill", .lightGreen)
  else if title = "Starred" then ("star.fill", .lightOrange)
  else if title = "Recreational" then ("folder.fill", .lightTeal)
  else ("list.bullet", .lightPurple)

/-- `String.checkIfDefaultList`. -/
def checkIfDefaultList (title : String) : Bool :=
  title == "Favourite" || title == "Recreational" || title == "Starred" || title == "To explore"

/-- The `Place` that every history query builds from a document. -/
def placeOfDoc (documentID : Nat) (doc : HistoryDoc) : Place where
  name := doc.name
  address := doc.address
  phone := doc.phone
  website := doc.website
  category := doc.category
  coordinate := doc.coordinate
  time := "0"
  distance := 0
  id := doc.id
  dbId := some documentID
  list := doc.list
  icon := (setPlaceIcon doc.category).1
  color := (setPlaceIcon doc.category).2

/-- The `List` that `getAllList` builds from a document. -/
def listOfDoc (documentID : Nat) (doc : ListDoc) : PlaceList where
  title := doc.title
  id := some documentID
  icon := (setListIcon doc.title).1
  color := (setListIcon doc.title).2
  placeIds := doc.places
  count := doc.places.length

/-- The document that `addPlaceToHistory` and `updatePlace` write for a place. -/
def docOfPlace (place : Place) (listTitle : List String) (id : Int) : HistoryDoc where
  name := place.name
  address := place.address
  category := place.category
  phone := place.phone
  website := place.website
  coordinate := place.coordinate
  list := listTitle
  id := id

@[simp] theorem docOfPlace_id (place : Place) (listTitle : List String) (id : Int) :
    (docOfPlace place listTitle id).id = id := rfl

@[simp] theorem docOfPlace_list (place : Place) (listTitle : List String) (id : Int) :
    (docOfPlace place listTitle id).list = listTitle := rfl

/-- `lists.sorted { $0.title.lowercased() < $1.title.lowercased() }`. The order
decides only which row shows which list. Strings are compared code point by code point,
as the app compares those in normal form. -/
def sortedByTitle (lists : List PlaceList)
    (lowercased : String → String := UnicodeCase.lowercased) : List PlaceList :=
  lists.insertionSort fun a b => lowercased a.title ≤ lowercased b.title

/-- Sorting the rows neither drops nor repeats a list. -/
theorem sortedByTitle_perm (lists : List PlaceList)
    (lowercased : String → String := UnicodeCase.lowercased) :
    (sortedByTitle lists lowercased).Perm lists :=
  List.perm_insertionSort _ _

@[simp] theorem mem_sortedByTitle {lists : List PlaceList} {lowercased : String → String}
    {l : PlaceList} : l ∈ sortedByTitle lists lowercased ↔ l ∈ lists :=
  (sortedByTitle_perm lists lowercased).mem_iff

end LocateMe
