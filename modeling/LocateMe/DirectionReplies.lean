import LocateMe.DetailFlow

/-!
# Failed requests for directions

A tap on a row sets `tableViewSelect`, so that the pin that the reply selects does
not ask for directions a second time. The flag is cleared when a reply selects its
pin, and by the close button of `MapController`, not by that of
`ListMapController`. A reply without a response returns before that.

Results:
1. `selection_step`, `selection_failed`: what a handler of `MapController` does to
   the flag and to the requests in flight; `listSelection_step` and
   `listSelection_failed` for `ListMapController`.
2. `usable_iff`: in a run of either screen the flag is off whenever no request is in
   flight iff no reply without a response answers the only request while the flag is
   on.
-/

namespace LocateMe

/-! ## 1. The flag and the requests -/

/-- What the completion of `MKDirections` gets: a route, a response without routes, or
no response, with an error or without one. -/
inductive DirectionsReply
  | route
  | noRoutes
  | noResponse
deriving DecidableEq

/-- The flag, and the places of the requests in flight. -/
structure Selection where
  tableViewSelect : Bool
  directions : List Place

namespace Selection

/-- The next tap on a pin is not discarded, unless a reply is still to come. -/
def Usable (s : Selection) : Prop := s.directions = [] → s.tableViewSelect = false

/-- The handler is not a failing reply to the only request while the flag is on. -/
def KeptBy (s : Selection) (failing : Bool) : Prop :=
  failing = true → s.directions.length = 1 → s.tableViewSelect = false

instance (s : Selection) (failing : Bool) : Decidable (s.KeptBy failing) :=
  inferInstanceAs (Decidable (_ = _ → _ = _ → _ = _))

/-- What the handlers other than a failing reply do: they clear the flag, leave a
request in flight, or keep the flag and all requests. -/
def Handled (s t : Selection) : Prop :=
  t.tableViewSelect = false ∨ t.directions ≠ [] ∨
    t.tableViewSelect = s.tableViewSelect ∧ s.directions <+: t.directions

end Selection

/-! ## 2. `MapController` -/

/-- The handlers of `flowStep`, where a reply has a route or no response, and the
reply without a route. -/
inductive MapEvent
  | handler (e : FlowEvent)
  | noRoutes (i : Nat)
deriving DecidableEq

/-- A response without routes is the trap of `routes[0]`. -/
def mapStep (dist : Coordinate → Coordinate → Rat)
    (isEqual : MapItemObject → MapItemObject → Bool) (m : DetailMap) :
    MapEvent → Option DetailMap
  | .handler e => flowStep dist isEqual m e
  | .noRoutes _ => none

def DetailMap.selection (m : DetailMap) : Selection := ⟨m.tableViewSelect, m.directions⟩

/-- A reply without a response. -/
def MapEvent.failing : MapEvent → Bool
  | .handler (.directionsReply _ false _) => true
  | _ => false

/-! ## 3. `ListMapController` -/

/-- The fields that the details of a place depend on; `places` are those of
`listDetailVC`. -/
structure ListMapController where
  matchingPlaces : List Place
  currentPlace : Option Place
  count : Nat
  places : List Place
  annotations : List Coordinate
  actionSheet : List Coordinate
  tableViewSelect : Bool
  directions : List Place

inductive ListMapEvent
  | viewWillAppear
  | didSelectRow (row : Nat) (location : Option Coordinate)
  | didSelectPin (coordinate : Coordinate) (userPin location : Option Coordinate)
  | didSelectCluster (memberAnnotations : List Coordinate)
  | tappedAction (row : Nat) (location : Option Coordinate)
  | directionsReply (i : Nat) (reply : DirectionsReply) (userPin : Option Coordinate)
  | removeInfoFpc
deriving DecidableEq

namespace ListMapController

/-- `getDistanceAndTime`. `none` is the trap of `locationManager.location!`. -/
def getDistanceAndTime (c : ListMapController) (location : Option Coordinate) (place : Place) :
    Option ListMapController :=
  location.map fun _ => { c with directions := c.directions ++ [place] }

/-- `viewDidLoad`: the list of places, or the request for the one place. -/
def viewDidLoad (matchingPlaces : List Place) (currentPlace : Option Place)
    (location : Option Coordinate) : Option ListMapController :=
  let c : ListMapController := ⟨matchingPlaces, currentPlace, 0, [], [], [], false, []⟩
  match currentPlace with
  | none => some { c with places := matchingPlaces }
  | some place => c.getDistanceAndTime location place

/-- `viewWillAppear`, without the distances. -/
def viewWillAppear (c : ListMapController) : ListMapController :=
  let c :=
    if 0 < c.matchingPlaces.length ∧ c.count = 0 then
      { c with
        annotations := c.annotations ++ c.matchingPlaces.map Place.coordinate
        count := c.count + 1 }
    else c
  { c with annotations := c.annotations ++ (c.currentPlace.map Place.coordinate).toList }

/-- A place is looked up by the coordinate of an annotation and, if found, asked
about. -/
def openSamePlace (c : ListMapController) (location : Option Coordinate)
    (coordinate : Coordinate) : Option ListMapController :=
  match c.matchingPlaces.find? (·.coordinate = coordinate) with
  | some place => c.getDistanceAndTime location place
  | none => some c

/-- `animateAnnotation`. `none` is the trap of `selectedAnnotation!`. -/
def animateAnnotation (c : ListMapController) (userPin : Option Coordinate)
    (coordinate : Coordinate) : Option ListMapController :=
  if coordinate ∈ userPin.toList ++ c.annotations then
    some { c with tableViewSelect := false }
  else none

def selection (c : ListMapController) : Selection := ⟨c.tableViewSelect, c.directions⟩

end ListMapController

/-- One handler. There is no next state when the row, the pin or the request is not
there, or after a trap. -/
def listMapStep (c : ListMapController) : ListMapEvent → Option ListMapController
  | .viewWillAppear => some c.viewWillAppear
  | .didSelectRow row location => do
    let place ← c.places[row]?
    { c with tableViewSelect := true }.getDistanceAndTime location place
  | .didSelectPin coordinate userPin location =>
    if coordinate ∈ userPin.toList ++ c.annotations then
      if c.tableViewSelect = true then some c else c.openSamePlace location coordinate
    else none
  | .didSelectCluster memberAnnotations =>
    if memberAnnotations ⊆ c.annotations then
      if c.tableViewSelect = true then some c else some { c with actionSheet := memberAnnotations }
    else none
  | .tappedAction row location => do
    let coordinate ← c.actionSheet[row]?
    { c with actionSheet := [] }.openSamePlace location coordinate
  | .directionsReply i reply userPin => do
    let place ← c.directions[i]?
    let c := { c with directions := c.directions.eraseIdx i }
    match reply with
    | .route => c.animateAnnotation userPin place.coordinate
    | .noRoutes => none
    | .noResponse => some c
  -- the flag is not cleared here
  | .removeInfoFpc => some c

def ListMapEvent.failing : ListMapEvent → Bool
  | .directionsReply _ .noResponse _ => true
  | _ => false

/-! ## 4. What a handler does -/

namespace SelectionLemmas

theorem handled_refl {s t : Selection} (h : t = s) : s.Handled t :=
  .inr (.inr ⟨by rw [h], by rw [h]⟩)

/-- A request is sent, whatever happens to the flag. -/
theorem handled_request {s t : Selection} {ds : List Place} {place : Place}
    (h : t.directions = ds ++ [place]) : s.Handled t :=
  .inr (.inl (by simp [h]))

theorem usable_handled {s t : Selection} (hs : s.Usable) (h : s.Handled t) : t.Usable := by
  intro hnil
  rcases h with hclear | hsent | ⟨hflag, hprefix⟩
  · exact hclear
  · exact absurd hnil hsent
  · rw [hnil, List.prefix_nil] at hprefix
    exact hflag.trans (hs hprefix)

theorem usable_handled_iff {s t : Selection} (hs : s.Usable) (h : s.Handled t) :
    t.Usable ↔ s.KeptBy false := by
  have hkept : s.KeptBy false := by
    intro hfailing
    cases hfailing
  exact iff_of_true (usable_handled hs h) hkept

/-- A failing reply keeps the flag and takes one request away. -/
theorem usable_failed_iff {s : Selection} {i : Nat} (hi : i < s.directions.length) :
    Selection.Usable ⟨s.tableViewSelect, s.directions.eraseIdx i⟩ ↔ s.KeptBy true := by
  have hlast : s.directions.eraseIdx i = [] ↔ s.directions.length = 1 := by
    rw [← List.length_eq_zero_iff, List.length_eraseIdx_of_lt hi]
    omega
  simp only [Selection.Usable, Selection.KeptBy, hlast, forall_const]

/-! ### `MapController` -/

section

variable {dist : Coordinate → Coordinate → Rat} {isEqual : MapItemObject → MapItemObject → Bool}
  {m t : DetailMap}

theorem selection_openSamePlace {location : Option Coordinate} {coordinate : Coordinate}
    (h : m.openSamePlace location coordinate = some t) : m.selection.Handled t.selection := by
  unfold DetailMap.openSamePlace at h
  split at h
  · obtain ⟨_, -, rfl⟩ := Option.map_eq_some_iff.mp h
    exact handled_request rfl
  · obtain rfl := Option.some.inj h
    exact handled_refl rfl

theorem selection_searchItems {text : String} {start : SearchStart}
    (h : m.deactivate.searchItems dist text start = some t) : t.selection = m.selection := by
  unfold DetailMap.searchItems at h
  dsimp only at h
  split at h
  · obtain rfl := Option.some.inj h
    rfl
  · obtain ⟨range, -, hrest⟩ := Option.bind_eq_some_iff.mp h
    obtain rfl := Option.some.inj hrest
    rfl

/-- A handler that is no failing reply. -/
theorem selection_step {e : FlowEvent} (h : flowStep dist isEqual m e = some t)
    (he : (MapEvent.handler e).failing = false) : m.selection.Handled t.selection := by
  cases e with
  | searchBarSearchButtonClicked text start =>
    simp only [flowStep] at h
    split at h
    · obtain rfl := Option.some.inj h
      exact handled_refl rfl
    · exact handled_refl (selection_searchItems h)
  | searchBarCancelButtonClicked =>
    obtain rfl := Option.some.inj h
    exact handled_refl rfl
  | tappedSearchIcon tag start => exact handled_refl (selection_searchItems h)
  | didSelectRecentSearch title start => exact handled_refl (selection_searchItems h)
  | didSelectList signedIn =>
    obtain rfl := Option.some.inj h
    refine handled_refl ?_
    split <;> rfl
  | localResponse i mapItems location =>
    obtain ⟨query, -, hrest⟩ := Option.bind_eq_some_iff.mp h
    obtain rfl := Option.some.inj hrest
    exact handled_refl rfl
  | localFailure i =>
    obtain ⟨query, -, hrest⟩ := Option.bind_eq_some_iff.mp h
    obtain rfl := Option.some.inj hrest
    exact handled_refl rfl
  | tracedResponse i mapItems userPin location =>
    obtain ⟨centre, -, hrest⟩ := Option.bind_eq_some_iff.mp h
    obtain ⟨map, -, hrest⟩ := Option.bind_eq_some_iff.mp hrest
    obtain rfl := Option.some.inj hrest
    exact handled_refl rfl
  | tracedFailure i =>
    obtain ⟨centre, -, hrest⟩ := Option.bind_eq_some_iff.mp h
    obtain rfl := Option.some.inj hrest
    exact handled_refl rfl
  | listReply allPlaces location =>
    obtain ⟨-, hrest⟩ := Option.ite_none_left_eq_some.mp h
    obtain rfl := Option.some.inj hrest
    exact handled_refl rfl
  | detailBlock i =>
    obtain ⟨places, -, hrest⟩ := Option.bind_eq_some_iff.mp h
    obtain rfl := Option.some.inj hrest
    exact handled_refl rfl
  | didSelectRow row location =>
    obtain ⟨place, -, hrest⟩ := Option.bind_eq_some_iff.mp h
    obtain ⟨_, -, rfl⟩ := Option.map_eq_some_iff.mp hrest
    exact handled_request rfl
  | didSelectPin coordinate userPin location =>
    obtain ⟨-, hrest⟩ := Option.ite_none_right_eq_some.mp h
    split at hrest
    · obtain rfl := Option.some.inj hrest
      exact handled_refl rfl
    · exact selection_openSamePlace hrest
  | didSelectCluster memberAnnotations =>
    obtain ⟨-, hrest⟩ := Option.ite_none_right_eq_some.mp h
    split at hrest
    · obtain rfl := Option.some.inj hrest
      exact handled_refl rfl
    · obtain rfl := Option.some.inj hrest
      exact handled_refl rfl
  | tappedAction row location =>
    obtain ⟨coordinate, -, hrest⟩ := Option.bind_eq_some_iff.mp h
    exact selection_openSamePlace (m := { m with actionSheet := [] }) hrest
  | directionsReply i success userPin =>
    obtain ⟨place, -, hrest⟩ := Option.bind_eq_some_iff.mp h
    cases success with
    | false => cases he
    | true =>
      obtain ⟨-, hanimated⟩ := Option.ite_none_right_eq_some.mp hrest
      obtain rfl := Option.some.inj hanimated
      exact .inl rfl
  | removeDetailFpc =>
    obtain rfl := Option.some.inj h
    exact handled_refl rfl
  | removeInfoFpc =>
    obtain rfl := Option.some.inj h
    exact .inl rfl

theorem selection_failed {i : Nat} {userPin : Option Coordinate}
    (h : flowStep dist isEqual m (.directionsReply i false userPin) = some t) :
    i < m.directions.length ∧ t.selection = ⟨m.tableViewSelect, m.directions.eraseIdx i⟩ := by
  obtain ⟨place, hplace, hrest⟩ := Option.bind_eq_some_iff.mp h
  obtain rfl := Option.some.inj hrest
  exact ⟨(List.getElem?_eq_some_iff.mp hplace).1, rfl⟩

theorem usable_mapStep {e : MapEvent} (hm : m.selection.Usable)
    (h : mapStep dist isEqual m e = some t) :
    t.selection.Usable ↔ m.selection.KeptBy e.failing := by
  cases e with
  | noRoutes i => cases h
  | handler e =>
    cases hfailing : (MapEvent.handler e).failing with
    | false => exact usable_handled_iff hm (selection_step h hfailing)
    | true =>
      cases e <;> simp only [MapEvent.failing, reduceCtorEq] at hfailing
      next i success userPin =>
        cases success with
        | true => cases hfailing
        | false =>
          have hstep : flowStep dist isEqual m (.directionsReply i false userPin) = some t := h
          obtain ⟨hi, ht⟩ := selection_failed hstep
          rw [ht]
          exact usable_failed_iff (s := m.selection) hi

end

/-! ### `ListMapController` -/

section

variable {c t : ListMapController}

theorem listSelection_openSamePlace {location : Option Coordinate} {coordinate : Coordinate}
    (h : c.openSamePlace location coordinate = some t) : c.selection.Handled t.selection := by
  unfold ListMapController.openSamePlace at h
  split at h
  · obtain ⟨_, -, rfl⟩ := Option.map_eq_some_iff.mp h
    exact handled_request rfl
  · obtain rfl := Option.some.inj h
    exact handled_refl rfl

theorem listSelection_step {e : ListMapEvent} (h : listMapStep c e = some t)
    (he : e.failing = false) : c.selection.Handled t.selection := by
  cases e with
  | viewWillAppear =>
    obtain rfl := Option.some.inj h
    refine handled_refl ?_
    unfold ListMapController.viewWillAppear
    dsimp only
    split <;> rfl
  | didSelectRow row location =>
    obtain ⟨place, -, hrest⟩ := Option.bind_eq_some_iff.mp h
    obtain ⟨_, -, rfl⟩ := Option.map_eq_some_iff.mp hrest
    exact handled_request rfl
  | didSelectPin coordinate userPin location =>
    obtain ⟨-, hrest⟩ := Option.ite_none_right_eq_some.mp h
    split at hrest
    · obtain rfl := Option.some.inj hrest
      exact handled_refl rfl
    · exact listSelection_openSamePlace hrest
  | didSelectCluster memberAnnotations =>
    obtain ⟨-, hrest⟩ := Option.ite_none_right_eq_some.mp h
    split at hrest
    · obtain rfl := Option.some.inj hrest
      exact handled_refl rfl
    · obtain rfl := Option.some.inj hrest
      exact handled_refl rfl
  | tappedAction row location =>
    obtain ⟨coordinate, -, hrest⟩ := Option.bind_eq_some_iff.mp h
    exact listSelection_openSamePlace (c := { c with actionSheet := [] }) hrest
  | directionsReply i reply userPin =>
    obtain ⟨place, -, hrest⟩ := Option.bind_eq_some_iff.mp h
    cases reply with
    | route =>
      obtain ⟨-, hanimated⟩ := Option.ite_none_right_eq_some.mp hrest
      obtain rfl := Option.some.inj hanimated
      exact .inl rfl
    | noRoutes => cases hrest
    | noResponse => cases he
  | removeInfoFpc =>
    obtain rfl := Option.some.inj h
    exact handled_refl rfl

theorem listSelection_failed {i : Nat} {userPin : Option Coordinate}
    (h : listMapStep c (.directionsReply i .noResponse userPin) = some t) :
    i < c.directions.length ∧ t.selection = ⟨c.tableViewSelect, c.directions.eraseIdx i⟩ := by
  obtain ⟨place, hplace, hrest⟩ := Option.bind_eq_some_iff.mp h
  obtain rfl := Option.some.inj hrest
  exact ⟨(List.getElem?_eq_some_iff.mp hplace).1, rfl⟩

theorem usable_listMapStep {e : ListMapEvent} (hc : c.selection.Usable)
    (h : listMapStep c e = some t) :
    t.selection.Usable ↔ c.selection.KeptBy e.failing := by
  cases hfailing : e.failing with
  | false => exact usable_handled_iff hc (listSelection_step h hfailing)
  | true =>
    cases e <;> simp only [ListMapEvent.failing, reduceCtorEq] at hfailing
    next i reply userPin =>
      cases reply with
      | route => cases hfailing
      | noRoutes => cases hfailing
      | noResponse =>
        obtain ⟨hi, ht⟩ := listSelection_failed h
        rw [ht]
        exact usable_failed_iff (s := c.selection) hi

/-- The screen starts with the flag off. -/
theorem usable_viewDidLoad {matchingPlaces : List Place} {currentPlace : Option Place}
    {location : Option Coordinate}
    (h : ListMapController.viewDidLoad matchingPlaces currentPlace location = some c) :
    c.selection.Usable := by
  unfold ListMapController.viewDidLoad at h
  dsimp only at h
  split at h
  · obtain rfl := Option.some.inj h
    exact fun _ => rfl
  · obtain ⟨_, -, rfl⟩ := Option.map_eq_some_iff.mp h
    exact fun _ => rfl

end

end SelectionLemmas

open SelectionLemmas

/-! ## 5. Runs -/

/-- On both screens: in a run the flag is off in every state without a request in
flight iff, at every step, no reply without a response answers the only request while
the flag is on. -/
theorem usable_iff (dist : Coordinate → Coordinate → Rat)
    (isEqual : MapItemObject → MapItemObject → Bool) (searchDistance : Rat)
    {es : List MapEvent} {m : DetailMap} {matchingPlaces : List Place}
    {currentPlace : Option Place} {location : Option Coordinate} {start c : ListMapController}
    {fs : List ListMapEvent}
    (hmap : Machine.run (mapStep dist isEqual) (initialDetailMap searchDistance) es = some m)
    (hload : ListMapController.viewDidLoad matchingPlaces currentPlace location = some start)
    (hlist : Machine.run listMapStep start fs = some c) :
    ((∀ before u, before <+: es →
        Machine.run (mapStep dist isEqual) (initialDetailMap searchDistance) before = some u →
        u.selection.Usable) ↔
      Machine.Meets (mapStep dist isEqual) (fun m e => m.selection.KeptBy e.failing)
        (initialDetailMap searchDistance) es) ∧
    ((∀ before u, before <+: fs → Machine.run listMapStep start before = some u →
        u.selection.Usable) ↔
      Machine.Meets listMapStep (fun c e => c.selection.KeptBy e.failing) start fs) := by
  constructor
  · exact Machine.run_exact_prefix (J := fun _ => True) (I := fun m => m.selection.Usable)
      (fun _ _ _ _ _ => trivial) (fun _ _ _ _ hm h => usable_mapStep hm h) trivial
      (fun _ => rfl) hmap
  · exact Machine.run_exact_prefix (J := fun _ => True) (I := fun c => c.selection.Usable)
      (fun _ _ _ _ _ => trivial) (fun _ _ _ _ hc h => usable_listMapStep hc h) trivial
      (usable_viewDidLoad hload) hlist

/-- A search and a tap on its only row; the reply is still to come. -/
def exRowTapped : List MapEvent :=
  [.handler (.tappedSearchIcon 1 ⟨[], some ⟨0, 0⟩⟩),
    .handler (.localResponse 0 [⟨0, exItem "A" ⟨1/1000, 0⟩⟩] (some ⟨0, 0⟩)),
    .handler (.detailBlock 0), .handler (.didSelectRow 0 (some ⟨0, 0⟩))]

/-- A list of one place on the map, and a tap on its row. -/
def exListTapped : List ListMapEvent := [.viewWillAppear, .didSelectRow 0 (some ⟨0, 0⟩)]

/-- The place of the list. -/
def exListed : Place := createPlaceitems groundDistance "cafe" none (exItem "A" ⟨0, 0⟩)

/-- The replies have a route. -/
theorem usable_answered :
    ∃ m c, Machine.run (mapStep groundDistance exSameObject) (initialDetailMap 1000)
        (exRowTapped ++ [.handler (.directionsReply 0 true none)]) = some m ∧
      Machine.run listMapStep ⟨[exListed], none, 0, [exListed], [], [], false, []⟩
        (exListTapped ++ [.directionsReply 0 .route none]) = some c ∧
      m.selection.Usable ∧ c.selection.Usable := by
  obtain ⟨m, hmap⟩ := Option.isSome_iff_exists.mp (show (Machine.run
    (mapStep groundDistance exSameObject) (initialDetailMap 1000)
    (exRowTapped ++ [.handler (.directionsReply 0 true none)])).isSome by decide +kernel)
  obtain ⟨c, hlist⟩ := Option.isSome_iff_exists.mp (show (Machine.run listMapStep
    ⟨[exListed], none, 0, [exListed], [], [], false, []⟩
    (exListTapped ++ [.directionsReply 0 .route none])).isSome by decide +kernel)
  have hload : ListMapController.viewDidLoad [exListed] none none =
      some ⟨[exListed], none, 0, [exListed], [], [], false, []⟩ := rfl
  obtain ⟨hm, hc⟩ := usable_iff groundDistance exSameObject 1000 hmap hload hlist
  exact ⟨m, c, hmap, hlist, hm.mpr (by decide +kernel) _ m (List.prefix_refl _) hmap,
    hc.mpr (by decide +kernel) _ c (List.prefix_refl _) hlist⟩

/-- On both screens the request fails, and the flag stays on. -/
theorem failed_request_leaves_flag :
    (¬ ∀ (dist : Coordinate → Coordinate → Rat)
        (isEqual : MapItemObject → MapItemObject → Bool) (searchDistance : Rat)
        (es : List MapEvent) (t : DetailMap),
      Machine.run (mapStep dist isEqual) (initialDetailMap searchDistance) es = some t →
        t.selection.Usable) ∧
      ¬ ∀ (matchingPlaces : List Place) (currentPlace : Option Place)
          (location : Option Coordinate) (c t : ListMapController) (es : List ListMapEvent),
        ListMapController.viewDidLoad matchingPlaces currentPlace location = some c →
        Machine.run listMapStep c es = some t → t.selection.Usable := by
  constructor
  · intro h
    have hrun : (Machine.run (mapStep groundDistance exSameObject) (initialDetailMap 1000)
        (exRowTapped ++ [.handler (.directionsReply 0 false none)])).map
        (fun t => (t.directions.length, t.tableViewSelect)) = some (0, true) := by decide +kernel
    obtain ⟨t, ht, hpair⟩ := Option.map_eq_some_iff.mp hrun
    obtain ⟨hnone, hflag⟩ := Prod.mk.inj hpair
    cases hflag.symm.trans (h _ _ _ _ t ht (List.length_eq_zero_iff.mp hnone))
  · intro h
    have hrun : (Machine.run listMapStep ⟨[exListed], none, 0, [exListed], [], [], false, []⟩
        (exListTapped ++ [.directionsReply 0 .noResponse none])).map
        (fun t => (t.directions.length, t.tableViewSelect)) = some (0, true) := by decide +kernel
    obtain ⟨t, ht, hpair⟩ := Option.map_eq_some_iff.mp hrun
    obtain ⟨hnone, hflag⟩ := Prod.mk.inj hpair
    cases hflag.symm.trans
      (h [exListed] none none _ t _ rfl ht (List.length_eq_zero_iff.mp hnone))

end LocateMe
