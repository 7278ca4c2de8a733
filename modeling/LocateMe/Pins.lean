import LocateMe.DbControllers
import LocateMe.ListScreens
import LocateMe.LocalSearch
import LocateMe.TracedSearch

/-!
# Tapping a pin

`addAnotation` makes a pin of a place and keeps no link to it. A tap on the pin,
or on its name in the action sheet of a cluster, finds the place again as the
first of `matchingPlaces` at the coordinate of the pin. `MapController` and
`ListMapController` have the same handler.

Results:
1. `pin_opens_own_iff`: a tap passes on the place of its own pin iff no earlier
   place has the coordinate.
-/

namespace LocateMe

/-! ## 1. Pins and taps -/

/-- An object of `class Place`, told apart from others by `ref`. -/
structure PlaceObject where
  ref : Nat
  place : Place
deriving DecidableEq

/-- A `MKPointAnnotation`. `createdFrom` is no field of it: it says which place
`addAnotation` had. -/
structure PointAnnotation where
  coordinate : Coordinate
  title : String
  subtitle : String
  createdFrom : PlaceObject
deriving DecidableEq

def addAnotation (object : PlaceObject) : PointAnnotation :=
  ⟨object.place.coordinate, object.place.name, object.place.category, object⟩

/-- The fields of a map screen that its pins use. -/
structure PinMap where
  matchingPlaces : List PlaceObject
  annotations : List PointAnnotation
  tableViewSelect : Bool
deriving DecidableEq

/-- A screen that shows places, each of them an object with a pin of its own. -/
def PinMap.showing (places : List Place) (tableViewSelect : Bool) : PinMap :=
  let objects := places.mapIdx fun i place => ⟨i, place⟩
  ⟨objects, objects.map addAnotation, tableViewSelect⟩

def getSamePlace (m : PinMap) (coordinate : Coordinate) : Option PlaceObject :=
  m.matchingPlaces.find? (·.place.coordinate = coordinate)

/-- What `MKMapView` selects: a pin, or a cluster of pins. -/
inductive AnnotationView
  | pin (a : PointAnnotation)
  | cluster (memberAnnotations : List PointAnnotation)
deriving DecidableEq

/-- A row of the action sheet. -/
structure AlertAction where
  title : String
  annotation : PointAnnotation
deriving DecidableEq

/-- What `mapView(_:didSelect:)` does: nothing, look up a place for
`getDistanceAndTime`, or present the sheet of a cluster. -/
inductive Selected
  | ignored
  | tappedItem (place : Option PlaceObject)
  | actionSheet (actions : List AlertAction)
deriving DecidableEq

/-- `mapView(_:didSelect:)`. -/
def didSelect (m : PinMap) (view : AnnotationView) : Selected :=
  if m.tableViewSelect = true then .ignored
  else
    match view with
    | .cluster memberAnnotations => .actionSheet (memberAnnotations.map fun a => ⟨a.title, a⟩)
    | .pin annotation => .tappedItem (getSamePlace m annotation.coordinate)

/-- A tap on a pin, or on a cluster and then on a row of its sheet. -/
inductive PinTap
  | pin (a : PointAnnotation)
  | action (memberAnnotations : List PointAnnotation) (row : Nat)
deriving DecidableEq

/-- The pin that is tapped or chosen. -/
def PinTap.annotation : PinTap → Option PointAnnotation
  | .pin annotation => some annotation
  | .action memberAnnotations row => memberAnnotations[row]?

/-- The place that a tap passes to `getDistanceAndTime`. -/
def PinMap.passed (m : PinMap) : PinTap → Option PlaceObject
  | .pin annotation =>
    match didSelect m (.pin annotation) with
    | .tappedItem place => place
    | _ => none
  | .action memberAnnotations row =>
    match didSelect m (.cluster memberAnnotations) with
    | .actionSheet actions =>
      (actions[row]?).bind fun action => getSamePlace m action.annotation.coordinate
    | _ => none

/-- If the tap passes on a place, it is the one that the pin was created from. -/
def PinMap.OpensOwn (m : PinMap) (tap : PinTap) : Prop :=
  ∀ annotation object, tap.annotation = some annotation → m.passed tap = some object →
    object = annotation.createdFrom

/-! ## 2. The lists that are shown -/

/-- The distances that a map screen sets on the places of a list. -/
def setDistances (dist : Coordinate → Coordinate → Rat) (location : Option Coordinate)
    (places : List Place) : List Place :=
  places.map fun place =>
    { place with distance := (location.map fun here => dist here place.coordinate).getD 0 }

/-- The places that a map screen shows: the results of a local search, those of a
traced search, a list asked for by its title, and a list whose places are looked up
by their ids. -/
inductive ShownPlaces (dist : Coordinate → Coordinate → Rat)
    (isEqual : MapItemObject → MapItemObject → Bool) (answer : Centre → List MapItem) :
    List Place → Prop
  | localSearch (searchDistance : Rat) (signedIn : Bool) (searches : List Search)
      (es : List SearchEvent) (i : Nat) (mapItems : List MapItemObject)
      (location : Option Coordinate) (m t : SearchMap) :
      Machine.run (searchStep dist isEqual) (initialSearchMap searchDistance signedIn searches) es =
        some m →
      searchStep dist isEqual m (.response i mapItems location) = some t →
      ShownPlaces dist isEqual answer t.matchingPlaces
  | tracedSearch (m t : TracedMap) (centres : List Coordinate) (handlings : List Handling) :
      handleAll dist answer (startTracedSearch m centres) handlings = some t →
      ShownPlaces dist isEqual answer t.matchingPlaces
  | listByTitle (s : UserStore) (listTitle : String) (location : Option Coordinate) :
      ShownPlaces dist isEqual answer
        (setDistances dist location (getAllPlacesForList s listTitle))
  | listById (s : UserStore) (list : PlaceList) (location : Option Coordinate) :
      ShownPlaces dist isEqual answer (setDistances dist location
        ((SavedController.initial.retrieveHistory (getAllPlaces s)).placesOf list))

namespace PinLemmas

/-- What a tap looks up, unless a row of the table is being selected. -/
theorem passed_eq {m : PinMap} {tap : PinTap} {a : PointAnnotation}
    (ha : tap.annotation = some a) :
    m.passed tap = if m.tableViewSelect = true then none else getSamePlace m a.coordinate := by
  rcases Bool.eq_false_or_eq_true m.tableViewSelect with hsel | hsel
  · cases tap with
    | pin annotation => simp [PinMap.passed, didSelect, hsel]
    | action memberAnnotations row => simp [PinMap.passed, didSelect, hsel]
  · cases tap with
    | pin annotation =>
      obtain rfl := Option.some.inj ha
      simp [PinMap.passed, didSelect, hsel]
    | action memberAnnotations row =>
      have hrow : memberAnnotations[row]? = some a := ha
      simp [PinMap.passed, didSelect, hsel, hrow]

/-- The first place at the coordinate of the `i`-th place is that one iff none
before it is there. -/
theorem getSamePlace_eq_iff {places : List Place} (selecting : Bool) {i : Nat} {place : Place}
    (hplace : places[i]? = some place) :
    getSamePlace (PinMap.showing places selecting) place.coordinate = some ⟨i, place⟩ ↔
      ∀ j earlier, j < i → places[j]? = some earlier → earlier.coordinate ≠ place.coordinate := by
  obtain ⟨hi, hget⟩ := List.getElem?_eq_some_iff.mp hplace
  unfold getSamePlace PinMap.showing
  rw [List.find?_eq_some_iff_getElem]
  constructor
  · rintro ⟨-, k, hk, hfound, hbefore⟩ j earlier hj hearlier
    obtain ⟨rfl, -⟩ := PlaceObject.mk.inj ((List.getElem_mapIdx ..).symm.trans hfound)
    obtain ⟨hjlen, rfl⟩ := List.getElem?_eq_some_iff.mp hearlier
    simpa using hbefore j hj
  · intro hfirst
    refine ⟨by simp, i, by simpa using hi, by simp [hget], fun j hj => ?_⟩
    have hne := hfirst j places[j] hj (List.getElem?_eq_getElem (by omega))
    simpa using hne

/-- Some place is found for a pin. -/
theorem getSamePlace_isSome {places : List Place} (selecting : Bool) {i : Nat} {place : Place}
    (hplace : places[i]? = some place) :
    (getSamePlace (PinMap.showing places selecting) place.coordinate).isSome := by
  obtain ⟨hi, hget⟩ := List.getElem?_eq_some_iff.mp hplace
  refine List.find?_isSome.mpr ⟨⟨i, place⟩, ?_, by simp⟩
  exact List.mem_mapIdx.mpr ⟨i, hi, by rw [hget]⟩

theorem opensOwn_iff {places : List Place} {selecting : Bool} {tap : PinTap} {i : Nat}
    {place : Place} (hplace : places[i]? = some place)
    (htap : tap.annotation = some ( addAnotation ⟨i, place⟩)) :
    (PinMap.showing places selecting).OpensOwn tap ↔
      selecting = true ∨ ∀ j earlier, j < i → places[j]? = some earlier →
        earlier.coordinate ≠ place.coordinate := by
  have hpassed : (PinMap.showing places selecting).passed tap =
      if selecting = true then none
      else getSamePlace (PinMap.showing places selecting) place.coordinate := passed_eq htap
  rw [← getSamePlace_eq_iff selecting hplace]
  constructor
  · intro hown
    cases selecting with
    | true => exact .inl rfl
    | false =>
      right
      obtain ⟨object, hobject⟩ := Option.isSome_iff_exists.mp (getSamePlace_isSome false hplace)
      rw [if_neg Bool.false_ne_true, hobject] at hpassed
      rw [hobject]
      exact congrArg some (hown _ object htap hpassed)
  · rintro hor annotation object hannotation hobject
    obtain rfl := Option.some.inj (htap.symm.trans hannotation)
    rw [hpassed] at hobject
    obtain ⟨hsel, hfound⟩ := Option.ite_none_left_eq_some.mp hobject
    rcases hor with h | h
    · exact absurd h hsel
    · exact Option.some.inj (hfound.symm.trans h)

end PinLemmas

open PinLemmas

/-- For every list of places that a map shows with a pin for each, a tap on the pin
of the `i`-th one, directly or through the sheet of a cluster, passes on no other
place than that one iff none of the places before it has its coordinate, or a row of
the table is being selected, when a tap passes on nothing. Otherwise it passes on
some place. -/
theorem pin_opens_own_iff (places : List Place) (selecting : Bool) (tap : PinTap) (i : Nat)
    (place : Place) (hplace : places[i]? = some place)
    (htap : tap.annotation = some ( addAnotation ⟨i, place⟩)) :
    ((PinMap.showing places selecting).OpensOwn tap ↔
      selecting = true ∨ ∀ j earlier, j < i → places[j]? = some earlier →
        earlier.coordinate ≠ place.coordinate) ∧
    ((PinMap.showing places selecting).passed tap = none ↔ selecting = true) := by
  refine ⟨opensOwn_iff hplace htap, ?_⟩
  have hsome := getSamePlace_isSome selecting hplace
  have hpassed : (PinMap.showing places selecting).passed tap =
      if selecting = true then none
      else getSamePlace (PinMap.showing places selecting) place.coordinate := passed_eq htap
  rw [hpassed]
  constructor
  · intro hnone
    by_contra hsel
    rw [if_neg hsel] at hnone
    simp [hnone] at hsome
  · intro hsel
    rw [if_pos hsel]

/-- Two restaurants next to each other, and a third one behind them. -/
def exPinned : List Place :=
  createPlaceList groundDistance "Food" none
    [exItem "A" ⟨1/1000, 0⟩, exItem "B" ⟨1/500, 0⟩, exItem "C" ⟨1/250, 0⟩]

theorem pin_opens_own_iff_cluster :
    ∃ place, exPinned[1]? = some place ∧
      ((PinMap.showing exPinned false).OpensOwn (.action [ addAnotation ⟨1, place⟩] 0) ↔
        false = true ∨ ∀ j earlier, j < 1 → exPinned[j]? = some earlier →
          earlier.coordinate ≠ place.coordinate) ∧
      ((PinMap.showing exPinned false).passed (.action [ addAnotation ⟨1, place⟩] 0) = none ↔
        false = true) :=
  ⟨createPlaceitems groundDistance "Food" none (exItem "B" ⟨1/500, 0⟩), rfl,
    pin_opens_own_iff exPinned false _ 1 _ rfl rfl⟩

/-- A local search that finds two businesses in one building. -/
def exBuilding : SearchEvent :=
  .response 0 [⟨0, exItem "A" ⟨1/1000, 0⟩⟩, ⟨1, exItem "B" ⟨1/1000, 0⟩⟩] none

/-- The pin of the second business opens the first one. -/
theorem shared_building_opens_other :
    ¬ ∀ (places : List Place) (selecting : Bool) (tap : PinTap) (a : PointAnnotation),
      ShownPlaces groundDistance exSameObject exAnswer places →
        a ∈ (PinMap.showing places selecting).annotations →
        tap.annotation = some a → (PinMap.showing places selecting).OpensOwn tap := by
  intro hall
  have hsearch : ((Machine.run (searchStep groundDistance exSameObject)
      (initialSearchMap 1000 true []) [.startSearch "Food" (some ⟨0, 0⟩)]).bind fun m =>
        searchStep groundDistance exSameObject m exBuilding).map
      (fun t => t.matchingPlaces.map Place.coordinate) = some [⟨1/1000, 0⟩, ⟨1/1000, 0⟩] := by
    decide +kernel
  obtain ⟨t, hbind, hcoordinates⟩ := Option.map_eq_some_iff.mp hsearch
  obtain ⟨m, hm, ht⟩ := Option.bind_eq_some_iff.mp hbind
  obtain ⟨first, rest, hplaces, hfirst, hrest⟩ := List.map_eq_cons_iff.mp hcoordinates
  obtain ⟨second, rest', rfl, hsecond, -⟩ := List.map_eq_cons_iff.mp hrest
  have hshown : ShownPlaces groundDistance exSameObject exAnswer t.matchingPlaces :=
    .localSearch 1000 true [] _ 0 _ none m t hm ht
  have hget : t.matchingPlaces[1]? = some second := by
    rw [hplaces]
    rfl
  have hown := hall t.matchingPlaces false (.pin ( addAnotation ⟨1, second⟩))
    ( addAnotation ⟨1, second⟩) hshown (by simp [PinMap.showing, hplaces]) rfl
  rcases (opensOwn_iff hget rfl).mp hown with hsel | hnone
  · cases hsel
  · refine hnone 0 first Nat.one_pos ?_ (hfirst.trans hsecond.symm)
    rw [hplaces]
    rfl

end LocateMe
