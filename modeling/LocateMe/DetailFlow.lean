import LocateMe.Lib.Machine
import LocateMe.Pins

/-!
# Opening the details of a place

A tap on a row or a pin asks `MKDirections` for the way to the place; the reply, at
any later time, presents the details and selects the annotation at the place's
coordinate with a forced unwrap. Closing the list of places, every start of a search
and the cancel button of the search bar remove all annotations; the replies of
searches and lists add theirs.

Results:
1. `annotations_step`: which annotations a handler leaves on the map.
2. `reply_lands_iff`: in a run no reply finds the map without the annotation iff at
   every reply the place was pinned after the annotations were last removed, or the
   user stands there.
-/

namespace LocateMe

/-! ## 1. The controller -/

/-- The fields of `MapController` that the details of a place depend on, and what has
not been answered or has not run yet. `queries` and `centres` are the requests of
searches, `detailBlocks` the places of the completions of `getDetailFcp`, `places`
those of `listDetailVC` (`nil` is `[]`), and `directions` the places of the requests
of `getDistanceAndTime`. -/
structure DetailMap where
  map : TracedMap
  matchingItems : List MapItemObject
  queries : List Query
  centres : List Centre
  listQueries : Nat
  detailBlocks : List (List Place)
  places : List Place
  actionSheet : List Coordinate
  tableViewSelect : Bool
  directions : List Place

/-- What a search reads when it starts: the trace and `locationManager.location`. -/
structure SearchStart where
  coordinates : List Coordinate
  location : Option Coordinate
deriving DecidableEq

/-- The handlers: the search bar and the rows and icons of its panel, the replies of
searches and lists, the completion of `getDetailFcp`, taps on rows and pins, the
replies of `MKDirections`, and the two close buttons. Replies and completions are
given by their place among those that wait. -/
inductive FlowEvent
  | searchBarSearchButtonClicked (text : String) (start : SearchStart)
  | searchBarCancelButtonClicked
  | tappedSearchIcon (tag : Nat) (start : SearchStart)
  | didSelectRecentSearch (title : String) (start : SearchStart)
  | didSelectList (signedIn : Bool)
  | localResponse (i : Nat) (mapItems : List MapItemObject) (location : Option Coordinate)
  | localFailure (i : Nat)
  | tracedResponse (i : Nat) (mapItems : List MapItem) (userPin location : Option Coordinate)
  | tracedFailure (i : Nat)
  | listReply (allPlaces : List Place) (location : Option Coordinate)
  | detailBlock (i : Nat)
  | didSelectRow (row : Nat) (location : Option Coordinate)
  | didSelectPin (coordinate : Coordinate) (userPin location : Option Coordinate)
  | didSelectCluster (memberAnnotations : List Coordinate)
  | tappedAction (row : Nat) (location : Option Coordinate)
  | directionsReply (i : Nat) (success : Bool) (userPin : Option Coordinate)
  | removeDetailFpc
  | removeInfoFpc
deriving DecidableEq

/-- The map when the app has started. -/
def initialDetailMap (searchDistance : Rat) : DetailMap where
  map := ⟨"", searchDistance, [], [], [], 0, .empty, 0, []⟩
  matchingItems := []
  queries := []
  centres := []
  listQueries := 0
  detailBlocks := []
  places := []
  actionSheet := []
  tableViewSelect := false
  directions := []

namespace DetailMap

/-- `myMap.removeAnnotations(myMap.annotations)`. -/
def removeAnnotations (m : DetailMap) : DetailMap :=
  { m with map := { m.map with annotations := [] } }

/-- `deactivate`, without the look of the search bar. -/
def deactivate (m : DetailMap) : DetailMap := m.removeAnnotations

/-- A traced search or its handler changes the map and calls `getDetailFcp`. -/
def setMap (m : DetailMap) (map : TracedMap) : DetailMap :=
  { m with
    map := map
    detailBlocks := m.detailBlocks ++
      (map.detailCalls.drop m.map.detailCalls.length).map DetailCall.places }

/-- The end of the handlers of a local search and of a list: the places become
`matchingPlaces`, get their pins and are handed to `getDetailFcp`. -/
def adjustMap (m : DetailMap) (places : List Place) : DetailMap :=
  { m with
    map := { m.map with
      matchingPlaces := places
      annotations := m.map.annotations ++ places.map Place.coordinate }
    detailBlocks := m.detailBlocks ++ [places] }

def getSamePlace (m : DetailMap) (coordinate : Coordinate) : Option Place :=
  m.map.matchingPlaces.find? (·.coordinate = coordinate)

/-- `getDistanceAndTime`. `none` is the trap of `locationManager.location!`. -/
def getDistanceAndTime (m : DetailMap) (location : Option Coordinate) (place : Place) :
    Option DetailMap :=
  location.map fun _ => { m with directions := m.directions ++ [place] }

/-- A place is looked up by the coordinate of an annotation and, if found, asked
about. -/
def openSamePlace (m : DetailMap) (location : Option Coordinate) (coordinate : Coordinate) :
    Option DetailMap :=
  match m.getSamePlace coordinate with
  | some place => m.getDistanceAndTime location place
  | none => some m

/-- `animateAnnotation`. `none` is the trap of `selectedAnnotation!`. -/
def animateAnnotation (m : DetailMap) (userPin : Option Coordinate)
    (coordinate : Coordinate) : Option DetailMap :=
  if coordinate ∈ userPin.toList ++ m.map.annotations then
    some { m with tableViewSelect := false }
  else none

/-- `searchItems` for a text. `none` is the trap of `1...coordinates.count-1`. -/
def searchItems (dist : Coordinate → Coordinate → Rat) (m : DetailMap) (searchText : String)
    (start : SearchStart) : Option DetailMap :=
  let m := { m with matchingItems := [], map := { m.map with searchText := searchText } }
  match start.coordinates with
  | [] => some { m with queries := m.queries ++ (start.location.map (⟨searchText, ·⟩)).toList }
  | first :: rest => do
    let _ ← closedRange 1 (start.coordinates.length - 1)
    let map := startTracedSearch m.map
      (first :: matchCoordinates dist m.map.searchDistance first m.map.searchDistance rest)
    some { m.setMap map with centres := m.centres ++ map.allLoc }

end DetailMap

section

variable (dist : Coordinate → Coordinate → Rat) (isEqual : MapItemObject → MapItemObject → Bool)

/-- One handler. There is no next state when the row, the pin, the request or the
completion is not there, or after a trap. -/
def flowStep (m : DetailMap) : FlowEvent → Option DetailMap
  | .searchBarSearchButtonClicked text start =>
    if text = "" then some m.removeAnnotations else m.deactivate.searchItems dist text start
  | .searchBarCancelButtonClicked => some m.deactivate
  | .tappedSearchIcon tag start => m.deactivate.searchItems dist (searchIconText tag) start
  | .didSelectRecentSearch title start => m.deactivate.searchItems dist title start
  | .didSelectList signedIn =>
    some (if signedIn then { m.deactivate with listQueries := m.listQueries + 1 } else m.deactivate)
  | .localResponse i mapItems location => do
    let query ← m.queries[i]?
    let matchingItems :=
      collectItems dist isEqual m.map.searchDistance query.loc m.matchingItems mapItems
    let m := { m with queries := m.queries.eraseIdx i, matchingItems := matchingItems }
    some (m.adjustMap
      (createPlaceList dist m.map.searchText location (matchingItems.map MapItemObject.item)))
  | .localFailure i => do
    let _ ← m.queries[i]?
    some { m with queries := m.queries.eraseIdx i }
  | .tracedResponse i mapItems userPin location => do
    let centre ← m.centres[i]?
    let map ← searchingFromCoordinates dist (fun _ => mapItems) m.map
      ⟨centre, userPin, location⟩
    some { m.setMap map with centres := m.centres.eraseIdx i }
  | .tracedFailure i => do
    let _ ← m.centres[i]?
    some { m with centres := m.centres.eraseIdx i }
  | .listReply allPlaces location =>
    if m.listQueries = 0 then none
    else
      some ({ m with listQueries := m.listQueries - 1 }.adjustMap
        (setDistances dist location allPlaces))
  | .detailBlock i => do
    let places ← m.detailBlocks[i]?
    some { m with detailBlocks := m.detailBlocks.eraseIdx i, places := places }
  | .didSelectRow row location => do
    let place ← m.places[row]?
    { m with tableViewSelect := true }.getDistanceAndTime location place
  | .didSelectPin coordinate userPin location =>
    if coordinate ∈ userPin.toList ++ m.map.annotations then
      if m.tableViewSelect = true then some m else m.openSamePlace location coordinate
    else none
  | .didSelectCluster memberAnnotations =>
    if memberAnnotations ⊆ m.map.annotations then
      if m.tableViewSelect = true then some m else some { m with actionSheet := memberAnnotations }
    else none
  | .tappedAction row location => do
    let coordinate ← m.actionSheet[row]?
    { m with actionSheet := [] }.openSamePlace location coordinate
  | .directionsReply i success userPin => do
    let place ← m.directions[i]?
    let m := { m with directions := m.directions.eraseIdx i }
    if success then m.animateAnnotation userPin place.coordinate else some m
  | .removeDetailFpc => some { m.removeAnnotations with places := [] }
  | .removeInfoFpc => some { m with tableViewSelect := false }

/-! ## 2. What a handler leaves on the map -/

/-- The handlers that remove the annotations. -/
def FlowEvent.removesAnnotations : FlowEvent → Bool
  | .searchBarSearchButtonClicked _ _ => true
  | .searchBarCancelButtonClicked => true
  | .tappedSearchIcon _ _ => true
  | .didSelectRecentSearch _ _ => true
  | .didSelectList _ => true
  | .removeDetailFpc => true
  | _ => false

/-- The coordinates of the places that a reply adds to the map: the places in range of
a local search, the accepted ones of a traced search, those of a list. -/
def DetailMap.pinned (m : DetailMap) : FlowEvent → List Coordinate
  | .localResponse i mapItems _ =>
    ((m.queries[i]?).map fun query =>
      (collectItems dist isEqual m.map.searchDistance query.loc m.matchingItems mapItems).map
        (·.item.placemark.coordinate)).getD []
  | .tracedResponse i mapItems userPin location =>
    ((m.centres[i]?).map fun centre =>
      (acceptedItems dist (fun _ => mapItems) m.map ⟨centre, userPin, location⟩).map
        (·.placemark.coordinate)).getD []
  | .listReply allPlaces _ => allPlaces.map Place.coordinate
  | _ => []

/-- Along the run a reply adds a place at the coordinate, and after it no handler
removes the annotations. -/
def PinnedSince (m : DetailMap) (es : List FlowEvent) (coordinate : Coordinate) : Prop :=
  Machine.Since (flowStep dist isEqual)
    (fun m e => coordinate ∈ m.pinned dist isEqual e) (·.removesAnnotations = true) m es

end

namespace FlowLemmas

theorem annotations_getDistanceAndTime {m t : DetailMap} {location : Option Coordinate}
    {place : Place} (h : m.getDistanceAndTime location place = some t) :
    t.map.annotations = m.map.annotations := by
  obtain ⟨_, -, rfl⟩ := Option.map_eq_some_iff.mp h
  rfl

theorem annotations_openSamePlace {m t : DetailMap} {location : Option Coordinate}
    {coordinate : Coordinate} (h : m.openSamePlace location coordinate = some t) :
    t.map.annotations = m.map.annotations := by
  unfold DetailMap.openSamePlace at h
  split at h
  · exact annotations_getDistanceAndTime h
  · obtain rfl := Option.some.inj h
    rfl

/-- A search that starts has no annotations left. -/
theorem annotations_searchItems {dist : Coordinate → Coordinate → Rat} {m t : DetailMap}
    {text : String} {start : SearchStart}
    (h : m.deactivate.searchItems dist text start = some t) : t.map.annotations = [] := by
  unfold DetailMap.searchItems at h
  dsimp only at h
  split at h
  · obtain rfl := Option.some.inj h
    rfl
  · obtain ⟨range, -, hrest⟩ := Option.bind_eq_some_iff.mp h
    obtain rfl := Option.some.inj hrest
    rfl

theorem annotations_adjustMap (m : DetailMap) (places : List Place) :
    (m.adjustMap places).map.annotations = m.map.annotations ++ places.map Place.coordinate := rfl

/-- A handler that adds its places to the map. -/
theorem mem_annotations_append {t m : DetailMap} {added : List Coordinate} {x : Coordinate}
    (h : t.map.annotations = m.map.annotations ++ added) {e : FlowEvent}
    (he : e.removesAnnotations = false) :
    x ∈ t.map.annotations ↔ x ∈ added ∨ x ∈ m.map.annotations ∧ ¬ e.removesAnnotations = true := by
  rw [h, List.mem_append, he]
  simp [or_comm]

/-- A handler that removes them. -/
theorem mem_annotations_removed {t m : DetailMap} {x : Coordinate} (h : t.map.annotations = [])
    {e : FlowEvent} (he : e.removesAnnotations = true) :
    x ∈ t.map.annotations ↔ x ∈ [] ∨ x ∈ m.map.annotations ∧ ¬ e.removesAnnotations = true := by
  simp [h, he]

/-- A handler that leaves them alone. -/
theorem mem_annotations_same {t m : DetailMap} {x : Coordinate}
    (h : t.map.annotations = m.map.annotations) {e : FlowEvent}
    (he : e.removesAnnotations = false) :
    x ∈ t.map.annotations ↔ x ∈ [] ∨ x ∈ m.map.annotations ∧ ¬ e.removesAnnotations = true := by
  simp [h, he]

/-- The annotations after a handler: those that it adds, and the old ones unless it
removes them. -/
theorem annotations_step {dist : Coordinate → Coordinate → Rat}
    {isEqual : MapItemObject → MapItemObject → Bool} {m t : DetailMap} {e : FlowEvent}
    (h : flowStep dist isEqual m e = some t) {x : Coordinate} :
    x ∈ t.map.annotations ↔
      x ∈ m.pinned dist isEqual e ∨ x ∈ m.map.annotations ∧ ¬ e.removesAnnotations = true := by
  cases e with
  | searchBarSearchButtonClicked text start =>
    simp only [flowStep] at h
    split at h
    · obtain rfl := Option.some.inj h
      exact mem_annotations_removed rfl rfl
    · exact mem_annotations_removed (annotations_searchItems h) rfl
  | searchBarCancelButtonClicked =>
    obtain rfl := Option.some.inj h
    exact mem_annotations_removed rfl rfl
  | tappedSearchIcon tag start => exact mem_annotations_removed (annotations_searchItems h) rfl
  | didSelectRecentSearch title start =>
    exact mem_annotations_removed (annotations_searchItems h) rfl
  | didSelectList signedIn =>
    obtain rfl := Option.some.inj h
    refine mem_annotations_removed ?_ rfl
    split <;> rfl
  | localResponse i mapItems location =>
    obtain ⟨query, hquery, hrest⟩ := Option.bind_eq_some_iff.mp h
    obtain rfl := Option.some.inj hrest
    refine mem_annotations_append ?_ rfl
    rw [annotations_adjustMap]
    simp [DetailMap.pinned, hquery, createPlaceList, Function.comp_def]
  | localFailure i =>
    obtain ⟨query, -, hrest⟩ := Option.bind_eq_some_iff.mp h
    obtain rfl := Option.some.inj hrest
    exact mem_annotations_same rfl rfl
  | tracedResponse i mapItems userPin location =>
    obtain ⟨centre, hcentre, hrest⟩ := Option.bind_eq_some_iff.mp h
    obtain ⟨map, hmap, hrest⟩ := Option.bind_eq_some_iff.mp hrest
    obtain rfl := Option.some.inj hrest
    obtain ⟨-, hannotations, -⟩ := TracedLemmas.searching_frame hmap
    refine mem_annotations_append ?_ rfl
    show map.annotations = _
    simpa [DetailMap.pinned, hcentre] using hannotations
  | tracedFailure i =>
    obtain ⟨centre, -, hrest⟩ := Option.bind_eq_some_iff.mp h
    obtain rfl := Option.some.inj hrest
    exact mem_annotations_same rfl rfl
  | listReply allPlaces location =>
    obtain ⟨-, hrest⟩ := Option.ite_none_left_eq_some.mp h
    obtain rfl := Option.some.inj hrest
    refine mem_annotations_append ?_ rfl
    rw [annotations_adjustMap]
    simp [DetailMap.pinned, setDistances, Function.comp_def]
  | detailBlock i =>
    obtain ⟨places, -, hrest⟩ := Option.bind_eq_some_iff.mp h
    obtain rfl := Option.some.inj hrest
    exact mem_annotations_same rfl rfl
  | didSelectRow row location =>
    obtain ⟨place, -, hrest⟩ := Option.bind_eq_some_iff.mp h
    exact mem_annotations_same (annotations_getDistanceAndTime hrest) rfl
  | didSelectPin coordinate userPin location =>
    obtain ⟨-, hrest⟩ := Option.ite_none_right_eq_some.mp h
    split at hrest
    · obtain rfl := Option.some.inj hrest
      exact mem_annotations_same rfl rfl
    · exact mem_annotations_same (annotations_openSamePlace hrest) rfl
  | didSelectCluster memberAnnotations =>
    obtain ⟨-, hrest⟩ := Option.ite_none_right_eq_some.mp h
    split at hrest
    · obtain rfl := Option.some.inj hrest
      exact mem_annotations_same rfl rfl
    · obtain rfl := Option.some.inj hrest
      exact mem_annotations_same rfl rfl
  | tappedAction row location =>
    obtain ⟨coordinate, -, hrest⟩ := Option.bind_eq_some_iff.mp h
    exact mem_annotations_same (annotations_openSamePlace hrest) rfl
  | directionsReply i success userPin =>
    obtain ⟨place, -, hrest⟩ := Option.bind_eq_some_iff.mp h
    dsimp only at hrest
    split at hrest
    · obtain ⟨-, hanimated⟩ := Option.ite_none_right_eq_some.mp hrest
      obtain rfl := Option.some.inj hanimated
      exact mem_annotations_same rfl rfl
    · obtain rfl := Option.some.inj hrest
      exact mem_annotations_same rfl rfl
  | removeDetailFpc =>
    obtain rfl := Option.some.inj h
    exact mem_annotations_removed rfl rfl
  | removeInfoFpc =>
    obtain rfl := Option.some.inj h
    exact mem_annotations_same rfl rfl

/-- After a run exactly the places are on the map that were pinned since the
annotations were last removed. -/
theorem mem_annotations_iff {dist : Coordinate → Coordinate → Rat}
    {isEqual : MapItemObject → MapItemObject → Bool} {searchDistance : Rat}
    {es : List FlowEvent} {m : DetailMap}
    (hrun : Machine.run (flowStep dist isEqual) (initialDetailMap searchDistance) es = some m)
    (x : Coordinate) :
    x ∈ m.map.annotations ↔
      PinnedSince dist isEqual (initialDetailMap searchDistance) es x := by
  refine Machine.run_since (P := fun m => x ∈ m.map.annotations) ?_ ?_ hrun
  · exact fun _ _ _ hstep => annotations_step hstep
  · simp [initialDetailMap]

/-- The annotation to select is there iff the user's own or a pinned one is. -/
theorem animateAnnotation_isSome_iff {m : DetailMap} {userPin : Option Coordinate}
    {x : Coordinate} :
    (m.animateAnnotation userPin x).isSome ↔
      userPin = some x ∨ x ∈ m.map.annotations := by
  unfold DetailMap.animateAnnotation
  split
  · next h => simpa using h
  · next h => simpa using h

end FlowLemmas

open FlowLemmas

/-! ## 3. The replies -/

/-- A reply that reaches `setUpPlaceDetail` finds an annotation to select. -/
def DetailMap.ReplyLands (m : DetailMap) (e : FlowEvent) : Prop :=
  ∀ i userPin place, e = .directionsReply i true userPin →
    m.directions[i]? = some place →
    (m.animateAnnotation userPin place.coordinate).isSome

/-- In a run of searches, taps, closings and search-bar activity, with the replies at
any time, every reply that reaches `setUpPlaceDetail` finds an annotation at the
place's coordinate iff at every such reply the user stands there or the place was
pinned since a handler last removed the annotations. -/
theorem reply_lands_iff (dist : Coordinate → Coordinate → Rat)
    (isEqual : MapItemObject → MapItemObject → Bool) (searchDistance : Rat)
    (es : List FlowEvent) :
    Machine.Meets (flowStep dist isEqual) DetailMap.ReplyLands
        (initialDetailMap searchDistance) es ↔
      ∀ before i userPin after m place,
        es = before ++ .directionsReply i true userPin :: after →
        Machine.run (flowStep dist isEqual) (initialDetailMap searchDistance) before = some m →
        m.directions[i]? = some place →
          userPin = some place.coordinate ∨
            PinnedSince dist isEqual (initialDetailMap searchDistance) before place.coordinate := by
  rw [Machine.meets_iff_split]
  constructor
  · intro h before i userPin after m place heq hrun hplace
    have hlands := h before _ after m heq hrun i userPin place rfl hplace
    rwa [animateAnnotation_isSome_iff, mem_annotations_iff hrun] at hlands
  · rintro h before e after m heq hrun i userPin place rfl hplace
    rw [animateAnnotation_isSome_iff, mem_annotations_iff hrun]
    exact h before i userPin after m place heq hrun hplace

/-- A search, a tap on its only row, and the close button before the reply. -/
def exClosed : List FlowEvent :=
  [.tappedSearchIcon 1 ⟨[], some ⟨0, 0⟩⟩,
    .localResponse 0 [⟨0, exItem "A" ⟨1/1000, 0⟩⟩] (some ⟨0, 0⟩), .detailBlock 0,
    .didSelectRow 0 (some ⟨0, 0⟩), .removeDetailFpc]

/-- The reply finds no annotation at the place of the row. -/
theorem closed_panel_reply_traps :
    ¬ ∀ es : List FlowEvent,
      Machine.Meets (flowStep groundDistance exSameObject) DetailMap.ReplyLands
        (initialDetailMap 1000) es := by
  intro hall
  have hsplit := Machine.meets_iff_split.mp (hall (exClosed ++ [.directionsReply 0 true none]))
  have hrun : ((Machine.run (flowStep groundDistance exSameObject) (initialDetailMap 1000)
      exClosed).bind fun m => (m.directions[0]?).map fun place =>
        (m.animateAnnotation none place.coordinate).isSome) = some false := by decide +kernel
  obtain ⟨m, hm, hreply⟩ := Option.bind_eq_some_iff.mp hrun
  obtain ⟨place, hplace, hnone⟩ := Option.map_eq_some_iff.mp hreply
  have hlands := hsplit exClosed _ [] m rfl hm 0 none place rfl hplace
  rw [hnone] at hlands
  cases hlands

end LocateMe
