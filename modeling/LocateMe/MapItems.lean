import LocateMe.Model

/-!
# Map items and the places built from them

What `MKLocalSearch` returns and how `MapController` formats it: address,
category, icon and distance of the `Place` that stands for a result.
-/

namespace LocateMe

/-- The parts of an `MKPlacemark` that the app reads. -/
structure Placemark where
  subThoroughfare : Option String
  thoroughfare : Option String
  locality : Option String
  coordinate : Coordinate
deriving DecidableEq

/-- The parts of an `MKMapItem` that the app reads; the category is the raw
value of `pointOfInterestCategory`, the URL its `absoluteString`. -/
structure MapItem where
  name : Option String
  phoneNumber : Option String
  url : Option String
  pointOfInterestCategory : Option String
  placemark : Placemark
deriving DecidableEq

/-- `String.capitalizingFirstLetter`: `prefix(1).capitalized + dropFirst()`. Of a first
`Character` with several code points the first is the one that has case. -/
def capitalizingFirstLetter (s : String) : String := UnicodeCase.capitalizingFirst s

/-- `MapController.formatAddress`. -/
def formatAddress (placemark : Placemark) : String :=
  placemark.subThoroughfare.getD "" ++ " " ++ placemark.thoroughfare.getD "" ++ " " ++
    placemark.locality.getD ""

/-- `String.filterMapCategory`. -/
def filterMapCategory (category : String) : String :=
  let parsedCategory := category.replace "MKPOICategory" ""
  if parsedCategory = "GasStation" then "Gas Station" else parsedCategory

/-- `MapController.formatCategory`, with the `searchText` it reads. -/
def formatCategory (searchText unfilteredCategory : String) : String :=
  if unfilteredCategory = searchText then capitalizingFirstLetter searchText
  else filterMapCategory unfilteredCategory

/-- `UIViewController.setPlaceIcon`, which the map screens use. -/
def setMapPlaceIcon (title : String) : String × UIColor :=
  if title = "Gas Station" ∨ title = "Gas" then ("gasicon", .lightBlue)
  else if title = "Restaurants" ∨ title = "Restaurant" ∨ title = "Food" then
    ("restauranticon", .lightOrange)
  else if title = "Park" ∨ title = "Parks" then ("parkicon", .lightGreen)
  else if title = "Shop" ∨ title = "Shops" then ("shopicon", .lightPurple)
  else ("locationicon", .lightRed)

/-- `MapController.createPlaceitems`, with the fields of the controller that it
reads: `searchText` and `locationManager.location`. -/
def createPlaceitems (dist : Coordinate → Coordinate → Rat) (searchText : String)
    (location : Option Coordinate) (item : MapItem) : Place :=
  let category := formatCategory searchText (item.pointOfInterestCategory.getD searchText)
  { name := item.name.getD ""
    address := formatAddress item.placemark
    phone := item.phoneNumber.getD ""
    website := item.url.getD "https://www.google.com"
    category := category
    coordinate := item.placemark.coordinate
    time := "0"
    distance := (location.map fun here => dist here item.placemark.coordinate).getD 0
    id := 0
    dbId := none
    list := []
    icon := (setMapPlaceIcon category).1
    color := (setMapPlaceIcon category).2 }

/-- `MapController.createPlaceList`. Its loop runs over `matchingItems`, which
is also the argument at the only call. -/
def createPlaceList (dist : Coordinate → Coordinate → Rat) (searchText : String)
    (location : Option Coordinate) (matchingItems : List MapItem) : List Place :=
  matchingItems.map (createPlaceitems dist searchText location)

@[simp] theorem createPlaceitems_coordinate (dist : Coordinate → Coordinate → Rat)
    (searchText : String) (location : Option Coordinate) (item : MapItem) :
    (createPlaceitems dist searchText location item).coordinate = item.placemark.coordinate := rfl

@[simp] theorem createPlaceitems_name (dist : Coordinate → Coordinate → Rat)
    (searchText : String) (location : Option Coordinate) (item : MapItem) :
    (createPlaceitems dist searchText location item).name = item.name.getD "" := rfl

/-- An item without details, for examples. -/
def exItem (name : String) (coordinate : Coordinate) : MapItem where
  name := some name
  phoneNumber := none
  url := none
  pointOfInterestCategory := none
  placemark := ⟨none, none, none, coordinate⟩

end LocateMe
