import LocateMe.PanelSwipes
import LocateMe.Panels

/-!
# The map of a list

`SavedController` opens `ListMapController` with a list and its places, or with one
place and no list. In the first case the list lies in `fpc`, its rows can be swiped out,
and the details of a place are laid over it in `infoFpc`; in the second there are only the
details, which come with the reply to the request that `viewDidLoad` makes.

Results:
1. `placed_listMapStep`, `pinned_listMapStep`: the places that are asked about have a pin.
2. `list_map_traps_iff`: when a handler traps, once the screen has appeared.
3. `list_map_panels`: the details of a place are on screen iff they were presented and
   not closed since, and otherwise the list is, if there is one.
-/

namespace LocateMe

/-! ## 1. The screen -/

/-- What `SavedController` sets: `collectionView(_:didSelectItemAt:)` one place, the others
a list and its places. -/
inductive OpenedWith
  | place (place : Place)
  | list (list : PlaceList) (places : List Place)

/-- A handler of the map, or one of the table in `fpc`: a swipe and the two buttons of its
question, with the documents that are stored then. -/
inductive ListScreenEvent
  | map (e : ListMapEvent)
  | commit (row : Nat) (s : UserStore)
  | deleteAction (s : UserStore)
  | cancelAction

/-- `alert` is the row that the question on the screen is about. -/
structure ListScreen where
  list : Option PlaceList
  map : ListMapController
  fpc : Panel
  infoFpc : Panel
  alert : Option Nat

/-- `viewDidLoad`. `none` is its trap. -/
def OpenedWith.viewDidLoad (o : OpenedWith) (location : Option Coordinate) : Option ListScreen :=
  match o with
  | .place currentPlace => (ListMapController.viewDidLoad [] (some currentPlace) location).map
      fun map => ⟨none, map, ⟨false, false⟩, ⟨false, false⟩, none⟩
  | .list l places => (ListMapController.viewDidLoad places none location).map
      fun map => ⟨some l, map, ⟨true, false⟩, ⟨false, false⟩, none⟩

/-- `resetListTable`. The pins and the places of the map stay. -/
def ListMapController.resetListTable (c : ListMapController) (row : Nat) : ListMapController :=
  { c with places := c.places.eraseIdx row }

namespace ListScreen

/-- What a handler of the map does to the panels. -/
def handle (w : ListScreen) (map : ListMapController) : ListMapEvent → ListScreen
  | .didSelectRow _ _ => { w with map := map, infoFpc := w.infoFpc.removePanelFromParent }
  | .directionsReply _ .route _ =>
    { w with map := map, fpc := w.fpc.hide, infoFpc := w.infoFpc.addPanel }
  | .removeInfoFpc =>
    { w with map := map, fpc := w.fpc.unhide, infoFpc := w.infoFpc.removePanelFromParent }
  | _ => { w with map := map }

/-- The row goes before the requests. -/
def delete (w : ListScreen) (list : PlaceList) (row : Nat) (s : UserStore) : Option ListScreen := do
  let place ← w.map.places[row]?
  if (commitDelete s list place).trapped then none
  else some { w with map := w.map.resetListTable row }

/-- `tableView(_:commit:forRowAt:)`: a row of "Recently Saved" is asked about first. -/
def commit (w : ListScreen) (row : Nat) (s : UserStore) : Option ListScreen :=
  match w.list with
  | none => some w
  | some list => if list.id = none then some { w with alert := some row } else w.delete list row s

def deleteAction (w : ListScreen) (s : UserStore) : Option ListScreen := do
  let row ← w.alert
  let list ← w.list
  { w with alert := none }.delete list row s

/-- The row, pin, button or request is there, and no question lies over it. The close
button of a place without a list closes the screen. -/
def Offered (w : ListScreen) : ListScreenEvent → Prop
  | .map (.didSelectRow row _) =>
    w.alert = none ∧ w.fpc.visible = true ∧ row < w.map.places.length
  | .map (.didSelectPin coordinate userPin _) =>
    w.alert = none ∧ coordinate ∈ userPin.toList ++ w.map.annotations
  | .map (.didSelectCluster memberAnnotations) =>
    w.alert = none ∧ memberAnnotations ⊆ w.map.annotations
  | .map (.tappedAction row _) => row < w.map.actionSheet.length
  | .map (.directionsReply i _ _) => i < w.map.directions.length
  | .map .removeInfoFpc => w.alert = none ∧ w.infoFpc.visible = true ∧ w.list.isSome = true
  | .map .viewWillAppear => True
  | .commit row _ => w.alert = none ∧ w.fpc.visible = true ∧ row < w.map.places.length
  | .deleteAction _ => w.alert ≠ none
  | .cancelAction => w.alert ≠ none

instance (w : ListScreen) : DecidablePred w.Offered
  | .map (.didSelectRow row _) => inferInstanceAs
    (Decidable (w.alert = none ∧ w.fpc.visible = true ∧ row < w.map.places.length))
  | .map (.didSelectPin coordinate userPin _) => inferInstanceAs
    (Decidable (w.alert = none ∧ coordinate ∈ userPin.toList ++ w.map.annotations))
  | .map (.didSelectCluster memberAnnotations) => inferInstanceAs
    (Decidable (w.alert = none ∧ memberAnnotations ⊆ w.map.annotations))
  | .map (.tappedAction row _) => inferInstanceAs (Decidable (row < w.map.actionSheet.length))
  | .map (.directionsReply i _ _) => inferInstanceAs (Decidable (i < w.map.directions.length))
  | .map .removeInfoFpc => inferInstanceAs
    (Decidable (w.alert = none ∧ w.infoFpc.visible = true ∧ w.list.isSome = true))
  | .map .viewWillAppear => .isTrue trivial
  | .commit row _ => inferInstanceAs
    (Decidable (w.alert = none ∧ w.fpc.visible = true ∧ row < w.map.places.length))
  | .deleteAction _ => inferInstanceAs (Decidable (w.alert ≠ none))
  | .cancelAction => inferInstanceAs (Decidable (w.alert ≠ none))

end ListScreen

/-- One handler that the screen offers; there is no next state after a trap. -/
def listScreenStep (w : ListScreen) (e : ListScreenEvent) : Option ListScreen :=
  if w.Offered e then
    match e with
    | .map e => (listMapStep w.map e).map fun map => w.handle map e
    | .commit row s => w.commit row s
    | .deleteAction s => w.deleteAction s
    | .cancelAction => some { w with alert := none }
  else none

/-! ## 2. What is asked about has a pin -/

namespace ListMapController

/-- The coordinate is that of a place of the list. -/
def Known (c : ListMapController) (coordinate : Coordinate) : Prop :=
  ∃ place ∈ c.matchingPlaces, place.coordinate = coordinate

instance (c : ListMapController) : DecidablePred c.Known := fun coordinate =>
  inferInstanceAs (Decidable (∃ place ∈ c.matchingPlaces, place.coordinate = coordinate))

/-- The handler asks for directions without a location, or gets a response without
routes. -/
def Traps (c : ListMapController) : ListMapEvent → Prop
  | .didSelectRow _ location => location = none
  | .didSelectPin coordinate _ location =>
    location = none ∧ c.tableViewSelect = false ∧ c.Known coordinate
  | .tappedAction row location =>
    location = none ∧ ∃ coordinate ∈ c.actionSheet[row]?, c.Known coordinate
  | .directionsReply _ reply _ => reply = .noRoutes
  | _ => False

/-- The places that rows and requests are about. -/
structure Placed (c : ListMapController) : Prop where
  rows : ∀ place ∈ c.places, place ∈ c.matchingPlaces
  directions : ∀ place ∈ c.directions, place ∈ c.matchingPlaces ∨ c.currentPlace = some place
  counted : 0 < c.count → ∀ place ∈ c.matchingPlaces, place.coordinate ∈ c.annotations

/-- Every place has its pin. -/
def Pinned (c : ListMapController) : Prop :=
  ∀ place, place ∈ c.matchingPlaces ∨ c.currentPlace = some place →
    place.coordinate ∈ c.annotations

end ListMapController

namespace ListScreen

/-- A handler of the map traps, or the requests for a row that is swiped out. -/
def Traps (w : ListScreen) : ListScreenEvent → Prop
  | .map e => w.map.Traps e
  | .commit row _ => ∃ list ∈ w.list, list.id ≠ none ∧
    ∃ place ∈ w.map.places[row]?, SwipeTraps list place
  | .deleteAction _ => ∃ row ∈ w.alert, ∃ list ∈ w.list,
    ∃ place ∈ w.map.places[row]?, SwipeTraps list place
  | .cancelAction => False

/-- Whatever is tapped or asked about is there. -/
structure Kept (w : ListScreen) : Prop where
  placed : w.map.Placed
  alert : ∀ row ∈ w.alert, row < w.map.places.length ∧ w.list ≠ none

end ListScreen

namespace ListMapLemmas

open ListMapController PanelSwipeLemmas

/-- A place that is looked up is asked about when there is a location. -/
theorem openSamePlace_cases {c d : ListMapController} {location : Option Coordinate}
    {coordinate : Coordinate} (h : c.openSamePlace location coordinate = some d) :
    d = c ∨ ∃ place ∈ c.matchingPlaces, d = { c with directions := c.directions ++ [place] } := by
  unfold openSamePlace at h
  split at h
  · next place hfind =>
    obtain ⟨-, -, rfl⟩ := Option.map_eq_some_iff.mp h
    exact .inr ⟨place, List.mem_of_find?_eq_some hfind, rfl⟩
  · exact .inl (Option.some.inj h).symm

theorem openSamePlace_eq_none {c : ListMapController} {location : Option Coordinate}
    {coordinate : Coordinate} :
    c.openSamePlace location coordinate = none ↔ location = none ∧ c.Known coordinate := by
  unfold openSamePlace
  split
  · next place hfind =>
    have hknown : c.Known coordinate :=
      ⟨place, List.mem_of_find?_eq_some hfind, by simpa using List.find?_some hfind⟩
    simp [getDistanceAndTime, hknown]
  · next hfind =>
    have hunknown : ¬ c.Known coordinate := by
      rintro ⟨place, hmem, hcoordinate⟩
      exact absurd hcoordinate (by simpa using List.find?_eq_none.mp hfind place hmem)
    simp [hunknown]

theorem placed_request {c : ListMapController} (hc : c.Placed) {place : Place}
    (hplace : place ∈ c.matchingPlaces) (select : Bool) (sheet : List Coordinate) :
    Placed { c with directions := c.directions ++ [place], tableViewSelect := select,
                    actionSheet := sheet } := by
  refine ⟨hc.rows, fun other hother => ?_, hc.counted⟩
  rcases List.mem_append.mp hother with hother | hother
  · exact hc.directions other hother
  · exact .inl (List.mem_singleton.mp hother ▸ hplace)

/-- What a handler does to the fields that the requests depend on. -/
theorem placed_listMapStep {c d : ListMapController} {e : ListMapEvent} (hc : c.Placed)
    (h : listMapStep c e = some d) :
    d.Placed ∧ d.places = c.places ∧ d.matchingPlaces = c.matchingPlaces ∧
      d.currentPlace = c.currentPlace ∧ c.annotations <+: d.annotations := by
  have hask : ∀ {b : ListMapController} {location : Option Coordinate} {coordinate : Coordinate},
      b.Placed → b.openSamePlace location coordinate = some d →
        d.Placed ∧ d.places = b.places ∧ d.matchingPlaces = b.matchingPlaces ∧
          d.currentPlace = b.currentPlace ∧ b.annotations <+: d.annotations := by
    intro b location coordinate hb hopen
    rcases openSamePlace_cases hopen with rfl | ⟨place, hplace, rfl⟩
    · exact ⟨hb, rfl, rfl, rfl, List.prefix_rfl⟩
    · exact ⟨placed_request hb hplace b.tableViewSelect b.actionSheet, rfl, rfl, rfl,
        List.prefix_rfl⟩
  cases e with
  | viewWillAppear =>
    obtain rfl := Option.some.inj h
    unfold viewWillAppear
    dsimp only
    split
    · refine ⟨⟨hc.rows, hc.directions, fun _ place hplace => ?_⟩, rfl, rfl, rfl, ?_⟩
      · exact List.mem_append_left _
          (List.mem_append_right _ (List.mem_map_of_mem hplace))
      · rw [List.append_assoc]
        exact List.prefix_append ..
    · refine ⟨⟨hc.rows, hc.directions, fun hcount place hplace => ?_⟩, rfl, rfl, rfl,
        List.prefix_append ..⟩
      exact List.mem_append_left _ (hc.counted hcount place hplace)
  | didSelectRow row location =>
    obtain ⟨place, hplace, hask⟩ := Option.bind_eq_some_iff.mp h
    obtain ⟨-, -, rfl⟩ := Option.map_eq_some_iff.mp hask
    exact ⟨placed_request hc (hc.rows place (List.mem_of_getElem? hplace)) true c.actionSheet, rfl,
      rfl, rfl, List.prefix_rfl⟩
  | didSelectPin coordinate userPin location =>
    obtain ⟨-, hrest⟩ := Option.ite_none_right_eq_some.mp h
    split at hrest
    · obtain rfl := Option.some.inj hrest
      exact ⟨hc, rfl, rfl, rfl, List.prefix_rfl⟩
    · exact hask hc hrest
  | didSelectCluster memberAnnotations =>
    obtain ⟨-, hrest⟩ := Option.ite_none_right_eq_some.mp h
    split at hrest
    · obtain rfl := Option.some.inj hrest
      exact ⟨hc, rfl, rfl, rfl, List.prefix_rfl⟩
    · obtain rfl := Option.some.inj hrest
      exact ⟨⟨hc.rows, hc.directions, hc.counted⟩, rfl, rfl, rfl, List.prefix_rfl⟩
  | tappedAction row location =>
    obtain ⟨coordinate, -, hopen⟩ := Option.bind_eq_some_iff.mp h
    exact hask (b := { c with actionSheet := [] }) ⟨hc.rows, hc.directions, hc.counted⟩ hopen
  | directionsReply i reply userPin =>
    obtain ⟨place, -, hrest⟩ := Option.bind_eq_some_iff.mp h
    have hleft : ∀ other ∈ c.directions.eraseIdx i,
        other ∈ c.matchingPlaces ∨ c.currentPlace = some other :=
      fun other hother => hc.directions other (List.mem_of_mem_eraseIdx hother)
    cases reply with
    | route =>
      obtain ⟨-, heq⟩ := Option.ite_none_right_eq_some.mp hrest
      obtain rfl := Option.some.inj heq
      exact ⟨⟨hc.rows, hleft, hc.counted⟩, rfl, rfl, rfl, List.prefix_rfl⟩
    | noRoutes => cases hrest
    | noResponse =>
      obtain rfl := Option.some.inj hrest
      exact ⟨⟨hc.rows, hleft, hc.counted⟩, rfl, rfl, rfl, List.prefix_rfl⟩
  | removeInfoFpc =>
    obtain rfl := Option.some.inj h
    exact ⟨hc, rfl, rfl, rfl, List.prefix_rfl⟩

theorem pinned_listMapStep {c d : ListMapController} {e : ListMapEvent} (hc : c.Placed)
    (hpinned : c.Pinned) (h : listMapStep c e = some d) : d.Pinned := by
  obtain ⟨-, -, hplaces, hcurrent, hprefix⟩ := placed_listMapStep hc h
  intro place hplace
  rw [hplaces, hcurrent] at hplace
  exact hprefix.subset (hpinned place hplace)

/-- The first appearance puts the pins on the map. -/
theorem pinned_viewWillAppear {c : ListMapController} (hc : c.Placed) :
    c.viewWillAppear.Pinned := by
  by_cases hfirst : 0 < c.matchingPlaces.length ∧ c.count = 0
  · simp only [viewWillAppear, if_pos hfirst]
    rintro place (hplace | hplace)
    · exact List.mem_append_left _ (List.mem_append_right _ (List.mem_map_of_mem hplace))
    · have hcurrent : c.currentPlace = some place := hplace
      exact List.mem_append_right _ (by simp [hcurrent])
  · simp only [viewWillAppear, if_neg hfirst]
    rintro place (hplace | hplace)
    · have hlength : 0 < c.matchingPlaces.length := List.length_pos_of_mem hplace
      exact List.mem_append_left _ (hc.counted (by omega) place hplace)
    · have hcurrent : c.currentPlace = some place := hplace
      exact List.mem_append_right _ (by simp [hcurrent])

theorem placed_viewDidLoad {o : OpenedWith} {location : Option Coordinate} {w : ListScreen}
    (h : o.viewDidLoad location = some w) : w.map.Placed := by
  cases o with
  | place currentPlace =>
    obtain ⟨c, hc, rfl⟩ := Option.map_eq_some_iff.mp h
    obtain ⟨-, -, rfl⟩ := Option.map_eq_some_iff.mp hc
    exact ⟨by simp, by simp, by simp⟩
  | list list places =>
    obtain rfl := Option.some.inj h
    exact ⟨by simp, by simp, by simp⟩

/-- The handlers that the screen offers stop only at a trap. -/
theorem listMapStep_eq_none_iff {w : ListScreen} {e : ListMapEvent} (hc : w.map.Placed)
    (hpinned : w.map.Pinned) (hoffered : w.Offered (.map e)) :
    listMapStep w.map e = none ↔ w.map.Traps e := by
  cases e with
  | viewWillAppear => simp [listMapStep, Traps]
  | didSelectRow row location =>
    have hlt : row < w.map.places.length := hoffered.2.2
    have hrow : w.map.places[row]? = some w.map.places[row] := List.getElem?_eq_getElem hlt
    simp [listMapStep, Traps, hrow, getDistanceAndTime]
  | didSelectPin coordinate userPin location =>
    have hpin : coordinate ∈ userPin.toList ++ w.map.annotations := hoffered.2
    simp only [listMapStep, Traps]
    rw [if_pos hpin]
    split
    · next hselect => simp [hselect]
    · next hselect =>
      rw [openSamePlace_eq_none]
      simp [hselect]
  | didSelectCluster memberAnnotations =>
    have hpins : memberAnnotations ⊆ w.map.annotations := hoffered.2
    simp only [listMapStep, Traps, iff_false]
    rw [if_pos hpins]
    split <;> simp
  | tappedAction row location =>
    have hlt : row < w.map.actionSheet.length := hoffered
    have hrow : w.map.actionSheet[row]? = some w.map.actionSheet[row] :=
      List.getElem?_eq_getElem hlt
    simp only [listMapStep, Traps, hrow, Option.bind_eq_bind, Option.bind_some]
    rw [openSamePlace_eq_none]
    simp [Known]
  | directionsReply i reply userPin =>
    have hlt : i < w.map.directions.length := hoffered
    have hi : w.map.directions[i]? = some w.map.directions[i] := List.getElem?_eq_getElem hlt
    have hpin := hpinned _ (hc.directions _ (List.getElem_mem hlt))
    cases reply with
    | route =>
      simp only [listMapStep, Traps, hi, Option.bind_eq_bind, Option.bind_some, reduceCtorEq,
        iff_false, animateAnnotation]
      rw [if_pos (List.mem_append_right _ hpin)]
      simp
    | noRoutes => simp [listMapStep, Traps]
    | noResponse => simp [listMapStep, Traps, hi]
  | removeInfoFpc => simp [listMapStep, Traps]

/-- What a swipe that is not asked about, or the answer to the question, does. -/
theorem delete_eq_some {w v : ListScreen} {list : PlaceList} {row : Nat} {s : UserStore}
    (h : w.delete list row s = some v) : v = { w with map := w.map.resetListTable row } := by
  obtain ⟨place, -, heq⟩ := Option.bind_eq_some_iff.mp h
  obtain ⟨-, heq⟩ := Option.ite_none_left_eq_some.mp heq
  exact (Option.some.inj heq).symm

theorem delete_eq_none_iff {w : ListScreen} {list : PlaceList} {row : Nat} {s : UserStore}
    (hrow : row < w.map.places.length) :
    w.delete list row s = none ↔ ∃ place ∈ w.map.places[row]?, SwipeTraps list place := by
  have hplace : w.map.places[row]? = some w.map.places[row] := List.getElem?_eq_getElem hrow
  have htraps : ∀ place, (commitDelete s list place).trapped = true ↔ SwipeTraps list place := by
    intro place
    rw [← not_iff_not, ← trapped_commitDelete (s := s), Bool.not_eq_true]
  simp [ListScreen.delete, hplace, htraps]

/-- A step of the screen is a handler of the map, or it changes only the rows and the
question about one of them. -/
theorem listScreenStep_cases {w v : ListScreen} {e : ListScreenEvent}
    (h : listScreenStep w e = some v) :
    (∃ f map, e = .map f ∧ w.Offered (.map f) ∧ listMapStep w.map f = some map ∧
      v = w.handle map f) ∨
    ((∀ f, e ≠ .map f) ∧ ∃ rows alert, rows ⊆ w.map.places ∧
      (∀ row ∈ alert, row < rows.length ∧ w.list ≠ none) ∧
      v = { w with map := { w.map with places := rows }, alert := alert }) := by
  obtain ⟨hoffered, heq⟩ := Option.ite_none_right_eq_some.mp h
  have hdelete : ∀ {u : ListScreen} {list : PlaceList} {row : Nat} {s : UserStore},
      u = { w with alert := none } → u.delete list row s = some v →
        ∃ rows alert, rows ⊆ w.map.places ∧
          (∀ row ∈ alert, row < rows.length ∧ w.list ≠ none) ∧
          v = { w with map := { w.map with places := rows }, alert := alert } := by
    rintro u list row s rfl hv
    exact ⟨w.map.places.eraseIdx row, none, List.eraseIdx_subset, by simp, delete_eq_some hv⟩
  cases e with
  | map f =>
    obtain ⟨map, hmap, rfl⟩ := Option.map_eq_some_iff.mp heq
    exact .inl ⟨f, map, rfl, hoffered, hmap, rfl⟩
  | commit row s =>
    refine .inr ⟨by simp, ?_⟩
    have hclosed : w = { w with alert := none } := by rw [← hoffered.1]
    simp only [ListScreen.commit] at heq
    split at heq
    · obtain rfl := Option.some.inj heq
      exact ⟨w.map.places, none, List.Subset.refl _, by simp, hclosed⟩
    · next list hlist =>
      split at heq
      · obtain rfl := Option.some.inj heq
        refine ⟨w.map.places, some row, List.Subset.refl _, fun r hr => ?_, rfl⟩
        obtain rfl := Option.mem_some.mp hr
        exact ⟨hoffered.2.2, by simp [hlist]⟩
      · exact hdelete hclosed heq
  | deleteAction s =>
    obtain ⟨row, -, hrow⟩ := Option.bind_eq_some_iff.mp heq
    obtain ⟨list, -, hv⟩ := Option.bind_eq_some_iff.mp hrow
    exact .inr ⟨by simp, hdelete rfl hv⟩
  | cancelAction =>
    obtain rfl := Option.some.inj heq
    exact .inr ⟨by simp, w.map.places, none, List.Subset.refl _, by simp, rfl⟩

theorem handle_fields (w : ListScreen) (map : ListMapController) (e : ListMapEvent) :
    (w.handle map e).map = map ∧ (w.handle map e).list = w.list ∧
      (w.handle map e).alert = w.alert := by
  unfold ListScreen.handle
  split <;> exact ⟨rfl, rfl, rfl⟩

theorem kept_listScreenStep {w v : ListScreen} {e : ListScreenEvent} (hw : w.Kept)
    (h : listScreenStep w e = some v) : v.Kept := by
  rcases listScreenStep_cases h with
    ⟨f, map, rfl, -, hmap, rfl⟩ | ⟨-, rows, alert, hrows, halert, rfl⟩
  · obtain ⟨hmapf, hlistf, halertf⟩ := handle_fields w map f
    obtain ⟨hplaced, hrows, -⟩ := placed_listMapStep hw.placed hmap
    constructor
    · rw [hmapf]
      exact hplaced
    · rw [hmapf, hlistf, halertf, hrows]
      exact hw.alert
  · refine ⟨⟨fun place hplace => ?_, hw.placed.directions, hw.placed.counted⟩, halert⟩
    exact hw.placed.rows place (hrows hplace)

theorem pinned_listScreenStep {w v : ListScreen} {e : ListScreenEvent} (hw : w.Kept)
    (hpinned : w.map.Pinned) (h : listScreenStep w e = some v) : v.map.Pinned := by
  rcases listScreenStep_cases h with ⟨f, map, rfl, -, hmap, rfl⟩ | ⟨-, rows, alert, -, -, rfl⟩
  · rw [(handle_fields w map f).1]
    exact pinned_listMapStep hw.placed hpinned hmap
  · exact hpinned

theorem kept_viewDidLoad {o : OpenedWith} {location : Option Coordinate} {w : ListScreen}
    (h : o.viewDidLoad location = some w) : w.Kept := by
  refine ⟨placed_viewDidLoad h, fun row hrow => ?_⟩
  cases o with
  | place currentPlace =>
    obtain ⟨c, -, rfl⟩ := Option.map_eq_some_iff.mp h
    cases hrow
  | list l places =>
    obtain rfl := Option.some.inj h
    cases hrow

/-- The handlers that the screen offers stop only at a trap. -/
theorem listScreenStep_eq_none_iff {w : ListScreen} {e : ListScreenEvent} (hw : w.Kept)
    (hpinned : w.map.Pinned) (hoffered : w.Offered e) :
    listScreenStep w e = none ↔ w.Traps e := by
  unfold listScreenStep
  rw [if_pos hoffered]
  cases e with
  | map f =>
    rw [Option.map_eq_none_iff]
    exact listMapStep_eq_none_iff hw.placed hpinned hoffered
  | commit row s =>
    cases hlist : w.list with
    | none => simp [ListScreen.commit, ListScreen.Traps, hlist]
    | some list =>
      by_cases hid : list.id = none
      · simp [ListScreen.commit, ListScreen.Traps, hlist, hid]
      · simp only [ListScreen.commit, hlist, if_neg hid]
        rw [delete_eq_none_iff hoffered.2.2]
        simp [ListScreen.Traps, hlist, hid]
  | deleteAction s =>
    obtain ⟨row, hrow⟩ := Option.ne_none_iff_exists'.mp hoffered
    obtain ⟨hlt, hset⟩ := hw.alert row hrow
    obtain ⟨list, hlist⟩ := Option.ne_none_iff_exists'.mp hset
    have hstep : w.deleteAction s = { w with alert := none }.delete list row s := by
      simp [ListScreen.deleteAction, hrow, hlist]
    refine (hstep ▸ delete_eq_none_iff (w := { w with alert := none }) hlt).trans ?_
    simp [ListScreen.Traps, hrow, hlist]
  | cancelAction => simp [ListScreen.Traps]

end ListMapLemmas

open ListMapLemmas

/-- From both ways to open the screen, and in every run that begins with its appearance:
a handler that the screen offers traps iff it asks for directions without a location, gets
a response without routes, or swipes out a place whose requests trap. In particular a reply
with a route always finds the pin that it selects, whatever has been swiped out. -/
theorem list_map_traps_iff (o : OpenedWith) (location : Option Coordinate)
    (es : List ListScreenEvent) (w₀ w : ListScreen) (hopen : o.viewDidLoad location = some w₀)
    (hrun : Machine.run listScreenStep w₀ (.map .viewWillAppear :: es) = some w)
    (e : ListScreenEvent) (hoffered : w.Offered e) : listScreenStep w e = none ↔ w.Traps e := by
  obtain ⟨w₁, hfirst, hrest⟩ := Machine.run_cons.mp hrun
  have hkept := kept_viewDidLoad hopen
  have hpinned : w₁.map.Pinned := by
    obtain rfl := Option.some.inj hfirst
    exact pinned_viewWillAppear hkept.placed
  have hinv : w.Kept ∧ w.map.Pinned :=
    Machine.run_invariant' (I := fun w => w.Kept ∧ w.map.Pinned)
      (fun _ _ _ hu hstep =>
        ⟨kept_listScreenStep hu.1 hstep, pinned_listScreenStep hu.1 hu.2 hstep⟩)
      ⟨kept_listScreenStep hkept hfirst, hpinned⟩ hrest
  exact listScreenStep_eq_none_iff hinv.1 hinv.2 hoffered

/-- A list with one place. -/
def exListOpened : OpenedWith := .list exTrips [exTripPlace]

/-- Its row is tapped and then swiped out. -/
def exListSwiped : List ListScreenEvent :=
  [.map .viewWillAppear, .map (.didSelectRow 0 (some ⟨0, 0⟩)), .commit 0 .empty]

/-- A response without routes comes for the row that is gone. -/
theorem list_map_traps_iff_listed :
    let e := ListScreenEvent.map (.directionsReply 0 .noRoutes none)
    ∃ w₀ w, exListOpened.viewDidLoad none = some w₀ ∧
      Machine.run listScreenStep w₀ exListSwiped = some w ∧
      listScreenStep w e = none ∧ (listScreenStep w e = none ↔ w.Traps e) :=
  ⟨_, _, rfl, rfl, rfl, list_map_traps_iff exListOpened none exListSwiped.tail _ _ rfl rfl
    (.map (.directionsReply 0 .noRoutes none)) (by decide)⟩

/-! ## 3. The panels -/

namespace ListScreenEvent

/-- The reply that presents the details of a place. -/
def presents : ListScreenEvent → Bool
  | .map (.directionsReply _ .route _) => true
  | _ => false

/-- The details of a place are taken away. -/
def closes : ListScreenEvent → Bool
  | .map (.didSelectRow _ _) => true
  | .map .removeInfoFpc => true
  | _ => false

end ListScreenEvent

/-- The details are in front of the list, which is there when the screen has one. -/
structure ListScreen.Layered (w : ListScreen) : Prop where
  shown : w.infoFpc.isHidden = false
  covered : w.fpc.isHidden = w.infoFpc.attached
  listed : w.fpc.attached = w.list.isSome

namespace ListMapLemmas

theorem layered_step {w v : ListScreen} {e : ListScreenEvent} (hw : w.Layered)
    (h : listScreenStep w e = some v) : v.Layered ∧ v.list = w.list := by
  obtain ⟨hshown, hcovered, hlisted⟩ := hw
  rcases listScreenStep_cases h with ⟨f, map, rfl, hoffered, -, rfl⟩ | ⟨-, rows, alert, -, -, rfl⟩
  · refine ⟨?_, (handle_fields w map f).2.1⟩
    cases f with
    | didSelectRow row location =>
      -- the row is visible, so nothing lies over the list
      have hvisible : w.fpc.attached = true ∧ w.fpc.isHidden = false := by
        simpa [Panel.visible] using hoffered.2.1
      exact ⟨hshown, hvisible.2, hlisted⟩
    | directionsReply i reply userPin =>
      cases reply with
      | route => exact ⟨hshown, rfl, hlisted⟩
      | noRoutes => exact ⟨hshown, hcovered, hlisted⟩
      | noResponse => exact ⟨hshown, hcovered, hlisted⟩
    | removeInfoFpc => exact ⟨hshown, rfl, hlisted⟩
    | viewWillAppear | didSelectPin | didSelectCluster | tappedAction =>
      exact ⟨hshown, hcovered, hlisted⟩
  · exact ⟨⟨hshown, hcovered, hlisted⟩, rfl⟩

theorem attached_step {w v : ListScreen} {e : ListScreenEvent} (h : listScreenStep w e = some v) :
    v.infoFpc.attached = true ↔
      e.presents = true ∨ w.infoFpc.attached = true ∧ ¬ e.closes = true := by
  rcases listScreenStep_cases h with ⟨f, map, rfl, -, -, rfl⟩ | ⟨htable, rows, alert, -, -, rfl⟩
  · cases f with
    | directionsReply i reply userPin =>
      cases reply <;>
        simp [ListScreen.handle, ListScreenEvent.presents, ListScreenEvent.closes, Panel.addPanel]
    | _ =>
      simp [ListScreen.handle, ListScreenEvent.presents, ListScreenEvent.closes,
        Panel.removePanelFromParent]
  · cases e with
    | map f => exact absurd rfl (htable f)
    | _ => simp [ListScreenEvent.presents, ListScreenEvent.closes]

/-- A screen that was just opened. -/
theorem opened_spec {o : OpenedWith} {location : Option Coordinate} {w : ListScreen}
    (h : o.viewDidLoad location = some w) :
    w.Layered ∧ w.infoFpc.attached = false ∧
      (w.list.isSome = true ↔ ∃ list places, o = .list list places) := by
  cases o with
  | place currentPlace =>
    obtain ⟨c, hc, rfl⟩ := Option.map_eq_some_iff.mp h
    exact ⟨⟨rfl, rfl, rfl⟩, rfl, by simp⟩
  | list l places =>
    obtain rfl := Option.some.inj h
    exact ⟨⟨rfl, rfl, rfl⟩, rfl, by simp⟩

end ListMapLemmas

/-- In every run of the screen the details of a place are visible iff a reply with a
route has presented them and they were not taken away since; the list is visible iff the
screen was opened with one and the details are not. -/
theorem list_map_panels (o : OpenedWith) (location : Option Coordinate)
    (es : List ListScreenEvent) (w₀ w : ListScreen) (hopen : o.viewDidLoad location = some w₀)
    (hrun : Machine.run listScreenStep w₀ es = some w) :
    (w.infoFpc.visible = true ↔ Machine.Since listScreenStep (fun _ e => e.presents = true)
      (fun e => e.closes = true) w₀ es) ∧
    (w.fpc.visible = true ↔
      (∃ list places, o = .list list places) ∧ ¬ w.infoFpc.visible = true) := by
  obtain ⟨hlayered, hclosed, hlist⟩ := opened_spec hopen
  have hinv : w.Layered ∧ w.list = w₀.list := by
    refine Machine.run_invariant' (I := fun w => w.Layered ∧ w.list = w₀.list)
      (fun u e v hu hstep => ?_) ⟨hlayered, rfl⟩ hrun
    obtain ⟨hkept, hsame⟩ := layered_step hu.1 hstep
    exact ⟨hkept, hsame.trans hu.2⟩
  obtain ⟨⟨hshown, hcovered, hlisted⟩, hsame⟩ := hinv
  have hsince := Machine.run_since (P := fun w => w.infoFpc.attached = true)
    (fun _ _ _ => attached_step) (by simp [hclosed]) hrun
  constructor
  · rw [← hsince]
    simp [Panel.visible, hshown]
  · rw [← hlist, ← hsame, ← hlisted]
    simp [Panel.visible, hshown, hcovered]

/-- The reply with a route comes after a tap on the row. -/
def exListScreen : List ListScreenEvent :=
  [.map .viewWillAppear, .map (.didSelectRow 0 (some ⟨0, 0⟩)),
    .map (.directionsReply 0 .route none)]

theorem list_map_panels_listed : ∃ w₀ w, exListOpened.viewDidLoad none = some w₀ ∧
    Machine.run listScreenStep w₀ exListScreen = some w ∧
    (w.infoFpc.visible = true ↔ Machine.Since listScreenStep (fun _ e => e.presents = true)
      (fun e => e.closes = true) w₀ exListScreen) ∧
    (w.fpc.visible = true ↔
      (∃ list places, exListOpened = .list list places) ∧ ¬ w.infoFpc.visible = true) :=
  ⟨_, _, rfl, rfl, list_map_panels exListOpened none exListScreen _ _ rfl rfl⟩

end LocateMe
