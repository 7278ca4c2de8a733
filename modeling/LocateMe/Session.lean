import LocateMe.Lib.Machine
import LocateMe.MapItems
import LocateMe.SavePlaceView
import LocateMe.ListScreens

/-!
# A session of one client

The screens of one signed-in user on top of the store, with the objects that
each controller holds: `MapController` at the root, and `SavedController`,
`ListMapController`, `EditListController` and `SavePlaceView` pushed over it.
An event is a tap; its queries and writes are done before the next one. A trap
in a request ends the session; other traps are not followed here.

Results:
1. `store_step`: a tap changes the store by what it issues, when the store has
   a list.
2. `loaded_retrieveLists`, `retrieveLists_eq`: loading the rows changes nothing
   then.
-/

namespace LocateMe

/-! ## 1. Screens -/

/-- `MapBaseController` with its panels: the list and places of the list panel,
the places on the map, and the place of the detail panel. -/
structure MapScreen where
  list : Option PlaceList
  places : List Place
  matchingPlaces : List Place
  info : Option Place
deriving DecidableEq

def MapScreen.initial : MapScreen := ⟨none, [], [], none⟩

/-- What is pushed over the root. -/
inductive Screen
  | map
  | mapSave (v : SavePlaceView)
  | saved (c : SavedController)
  | listMap (c : SavedController) (m : MapScreen)
  | listMapSave (c : SavedController) (m : MapScreen) (v : SavePlaceView)
  | edit (c : SavedController) (e : EditListController)
  | crashed

/-- The store and the screens. `searchLists` are the rows of the search panel
and `root` is the root's own map. -/
structure Session where
  store : UserStore
  searchLists : List PlaceList
  root : MapScreen
  screen : Screen

/-- Taps on a map screen, on the root or in `ListMapController`. `answer`
chooses among the records that `getPlaceByAddress` may return. -/
inductive MapTap
  | row (i : Nat) (answer : Nat)
  | pin (coordinate : Coordinate) (answer : Nat)
  | swipe (i : Nat)
  | save
deriving DecidableEq

/-- Taps on the search panel and the menu of the root. -/
inductive RootTap
  | searchAnswered (searchText : String) (location : Option Coordinate) (items : List MapItem)
  | savedList (i : Nat)
  | closePanel
  | openSaved
deriving DecidableEq

inductive SavedTap
  | row (i : Nat)
  | item (i : Nat)
  | seeAll
  | edit (i : Nat)
  | delete (i : Nat)
  | newList (title : String)
  | back
deriving DecidableEq

inductive SaveTap
  | row (e : RowEvent)
  | newList (title : String)
  | done
  | back
deriving DecidableEq

inductive EditTap
  | delete (placeId : Int)
  | title (text : String)
  | done
  | back
deriving DecidableEq

inductive Tap
  | relaunch
  | root (tap : RootTap)
  | map (tap : MapTap)
  | saved (tap : SavedTap)
  | save (tap : SaveTap)
  | edit (tap : EditTap)
deriving DecidableEq

/-! ## 2. Handlers -/

/-- Issue requests and go on with the new store, or crash. -/
def Session.issue (σ : Session) (issued : Issued) (next : Session → Session) : Session :=
  let σ := { σ with store := applyAll σ.store issued.writes }
  if issued.trapped then { σ with screen := .crashed } else next σ

/-- The rows for the lists of the store; when it has none, the default lists are
added to it and to the rows. -/
def Session.retrieveLists (σ : Session) (rows : List PlaceList) : Session × List PlaceList :=
  match getAllList σ.store with
  | [] =>
    ({ σ with store := applyAll σ.store addDefaultLists.writes },
      sortedByTitle (rows ++ defaultLists σ.store.lists.next))
  | lists => (σ, sortedByTitle lists)

/-- `MapController.retrieveLists`. -/
def Session.reloadRoot (σ : Session) : Session :=
  let (σ, rows) := σ.retrieveLists σ.searchLists
  { σ with searchLists := rows }

/-- `SavedController.viewWillAppear`. -/
def Session.showSaved (c : SavedController) (σ : Session) : Session :=
  let c := c.retrieveHistory (getAllPlaces σ.store)
  let (σ, rows) := σ.retrieveLists c.lists
  { σ with screen := .saved { c with lists := rows } }

/-- The app starts. -/
def Session.launch (s : UserStore) : Session :=
  Session.reloadRoot ⟨s, [], .initial, .map⟩

section

variable (dist : Coordinate → Coordinate → Rat)

/-- `setUpPlaceDetail`. The detail screen of a place without a document id looks
for a record with the same address. -/
def MapScreen.openPlace (m : MapScreen) (s : UserStore) (place : Place) (answer : Nat) :
    MapScreen :=
  let found := placesByAddress s place.address
  let currentPlace :=
    if place.dbId = none then (found[answer % found.length]?).getD place else place
  { m with info := some currentPlace }

/-- The map screen after a tap that issues nothing. -/
def MapScreen.tapped (m : MapScreen) (s : UserStore) : MapTap → Option MapScreen
  | .row i answer => (m.places[i]?).map fun place => m.openPlace s place answer
  | .pin coordinate answer =>
    (m.matchingPlaces.find? (·.coordinate = coordinate)).map fun place =>
      m.openPlace s place answer
  | _ => none

/-- `resetListTable`. -/
def MapScreen.resetListTable (m : MapScreen) (row : Nat) : MapScreen :=
  { m with places := m.places.eraseIdx row }

/-- A tap on a map screen `m`. `shown` puts a changed map screen back, and `push`
shows the save screen over it. -/
def mapTap (σ : Session) (m : MapScreen) (shown : MapScreen → Session → Session)
    (push : SavePlaceView → Session → Session) : MapTap → Option Session
  | .save => m.info.map fun place => push (SavePlaceView.load σ.store place) σ
  | .swipe i => do
    let place ← m.places[i]?
    -- the panel of a search has no list, and swiping there does nothing
    let list ← m.list
    some (σ.issue (commitDelete σ.store list place) (shown (m.resetListTable i)))
  | tap => (m.tapped σ.store tap).map fun m => shown m σ

/-- A tap on the search panel, a list row or the menu of the root. While a saved
list is shown the search panel is hidden. -/
def rootTap (σ : Session) : RootTap → Option Session
  | .searchAnswered searchText location items =>
    if σ.root.list.isSome then none
    else
      let places := createPlaceList dist searchText location items
      some { σ with root := { σ.root with places := places, matchingPlaces := places } }
  | .savedList i =>
    (σ.searchLists[i]?).map fun list =>
      let allPlaces := getAllPlacesForList σ.store list.title
      { σ with root :=
        { σ.root with list := some list, places := allPlaces, matchingPlaces := allPlaces } }
  | .closePanel => some ({ σ with root := { σ.root with list := none, places := [] } }.reloadRoot)
  | .openSaved => some (σ.showSaved .initial)

/-- A tap on the saved screen. -/
def savedTap (σ : Session) (c : SavedController) : SavedTap → Option Session
  | .row i =>
    (c.lists[i]?).map fun list =>
      let places := c.placesOf list
      { σ with screen := .listMap c ⟨some list, places, places, none⟩ }
  | .item i =>
    if c.isEmpty then none
    else (c.places[i]?).map fun place =>
      { σ with screen := .listMap c (MapScreen.initial.openPlace σ.store place 0) }
  | .seeAll =>
    if c.seeAllHidden then none
    else
      let list : PlaceList := ⟨"Recently Saved", none, "bookmark", .lightPurple, [], 0⟩
      some { σ with screen := .listMap c ⟨some list, c.places, c.places, none⟩ }
  | .edit i =>
    (c.lists[i]?).map fun list =>
      { σ with screen := .edit c (.load list (c.placesOf list)) }
  | .delete i => do
    let list ← c.lists[i]?
    if checkIfDefaultList list.title then none
    else
      let deleted := SavedController.deletedIds σ.store list.title
      some (σ.issue (SavedController.deleteAction σ.store list) fun σ =>
        { σ with screen := .saved (c.listDeleted i deleted) })
  | .newList title =>
    if title = "" then none
    else
      let listId := σ.store.lists.next
      some (σ.issue (addNewList title) fun σ =>
        { σ with screen := .saved (c.listAdded title listId) })
  | .back => some ({ σ with screen := .map }.reloadRoot)

/-- A tap on the save screen. `shown` puts a changed save screen back, and `pop`
leaves it. -/
def saveTap (σ : Session) (v : SavePlaceView) (shown : SavePlaceView → Session → Session)
    (pop : Session → Session) : SaveTap → Option Session
  | .row e => (rowStep v e).map fun v => shown v σ
  | .newList title =>
    if title = "" then none
    else
      let listId := σ.store.lists.next
      some (σ.issue (addNewList title) (shown (v.listAdded title listId)))
  | .done =>
    match v.tappedDoneBtn with
    | none => some σ
    | some issued => some (σ.issue issued pop)
  | .back => some (pop σ)

/-- A tap on the edit screen. -/
def editTap (σ : Session) (c : SavedController) (e : EditListController) : EditTap → Option Session
  | .delete placeId => some { σ with screen := .edit c (e.tappedDelete placeId) }
  | .title text => some { σ with screen := .edit c (e.animatedFieldDidEndEditing text) }
  | .done =>
    if e.doneEnabled then some (σ.issue e.tappedDone (Session.showSaved c)) else none
  | .back => some (σ.showSaved c)

/-- One tap. There is no next state when its screen is not on top. `crashed` follows the
trap of a request only: that of the search panel's table after the default lists and that
of a tap without a location are in models of their own. -/
def tapStep (σ : Session) (tap : Tap) : Option Session :=
  match σ.screen, tap with
  | _, .relaunch => some (Session.launch σ.store)
  | .map, .root tap => rootTap dist σ tap
  | .map, .map tap =>
    mapTap σ σ.root (fun m σ => { σ with root := m, screen := .map })
      (fun v σ => { σ with screen := .mapSave v }) tap
  | .mapSave v, .save tap =>
    saveTap σ v (fun v σ => { σ with screen := .mapSave v })
      (fun σ => { σ with screen := .map }) tap
  | .saved c, .saved tap => savedTap σ c tap
  | .listMap c _, .saved .back => some (σ.showSaved c)
  | .listMap c m, .map tap =>
    mapTap σ m (fun m σ => { σ with screen := .listMap c m })
      (fun v σ => { σ with screen := .listMapSave c m v }) tap
  | .listMapSave c m v, .save tap =>
    saveTap σ v (fun v σ => { σ with screen := .listMapSave c m v })
      (fun σ => { σ with screen := .listMap c m }) tap
  | .edit c e, .edit tap => editTap σ c e tap
  | _, _ => none

end

/-- The session of a new account. -/
def Session.initial : Session := Session.launch .empty

/-! ## 3. What a tap issues -/

/-- A tap on a map screen: a swipe in a list panel. -/
def MapScreen.issued (m : MapScreen) (s : UserStore) : MapTap → Issued
  | .swipe i =>
    match m.places[i]?, m.list with
    | some place, some list => commitDelete s list place
    | _, _ => .none
  | _ => .none

/-- A tap on the save screen. -/
def SavePlaceView.issued (v : SavePlaceView) : SaveTap → Issued
  | .newList title => addNewList title
  | .done => v.tappedDoneBtn.getD .none
  | _ => .none

/-- A tap on the saved screen. -/
def SavedController.issued (c : SavedController) (s : UserStore) : SavedTap → Issued
  | .newList title => addNewList title
  | .delete i => ((c.lists[i]?).map (deleteAction s)).getD .none
  | _ => .none

/-- A tap on the edit screen. -/
def EditListController.issued (e : EditListController) : EditTap → Issued
  | .done => e.tappedDone
  | _ => .none

/-- The requests of a tap that has a next state. -/
def Session.issued (σ : Session) (tap : Tap) : Issued :=
  match σ.screen, tap with
  | .map, .map tap => σ.root.issued σ.store tap
  | .listMap _ m, .map tap => m.issued σ.store tap
  | .mapSave v, .save tap => v.issued tap
  | .listMapSave _ _ v, .save tap => v.issued tap
  | .saved c, .saved tap => c.issued σ.store tap
  | .edit _ e, .edit tap => e.issued tap
  | _, _ => .none

/-- A store after a screen has loaded its rows: the store before, with the default
lists when it had no list. -/
def Loaded (s t : UserStore) : Prop :=
  t = s ∨ (getAllList s = [] ∧ t = applyAll s addDefaultLists.writes)

namespace SessionLemmas

theorem loaded_retrieveLists (σ : Session) (rows : List PlaceList) :
    Loaded σ.store (σ.retrieveLists rows).1.store := by
  unfold Session.retrieveLists
  split
  · next hempty => exact .inr ⟨hempty, rfl⟩
  · exact .inl rfl

theorem loaded_history {s t : UserStore} (h : Loaded s t) : t.history = s.history := by
  rcases h with rfl | ⟨-, rfl⟩
  · rfl
  · rfl

/-- With a list in the store, loading the rows adds none. -/
theorem retrieveLists_eq {σ : Session} (h : getAllList σ.store ≠ []) (rows : List PlaceList) :
    σ.retrieveLists rows = (σ, sortedByTitle (getAllList σ.store)) := by
  unfold Session.retrieveLists
  split
  · next hempty => exact absurd hempty h
  · rfl

/-- Requests either end the session or go on with the store they leave. -/
theorem issue_cases (σ : Session) (issued : Issued) (next : Session → Session) :
    σ.issue issued next = { σ with store := applyAll σ.store issued.writes, screen := .crashed } ∨
      σ.issue issued next = next { σ with store := applyAll σ.store issued.writes } := by
  unfold Session.issue
  cases issued.trapped
  · exact .inr rfl
  · exact .inl rfl

/-- Loading the rows leaves the history and the screens alone. -/
theorem retrieveLists_frame (σ : Session) (rows : List PlaceList) :
    (σ.retrieveLists rows).1.store.history = σ.store.history ∧
      (σ.retrieveLists rows).1.root = σ.root ∧ (σ.retrieveLists rows).1.screen = σ.screen := by
  unfold Session.retrieveLists
  split
  · exact ⟨rfl, rfl, rfl⟩
  · exact ⟨rfl, rfl, rfl⟩

/-- What a tap on a map screen does: it opens the save screen, swipes a place
out of the list on screen, or changes what is on screen. -/
theorem mapTap_cases {σ σ' : Session} {m : MapScreen} {shown : MapScreen → Session → Session}
    {push : SavePlaceView → Session → Session} {tap : MapTap}
    (h : mapTap σ m shown push tap = some σ') :
    (∃ place, tap = .save ∧ m.info = some place ∧
      σ' = push (SavePlaceView.load σ.store place) σ) ∨
    (∃ i place list, tap = .swipe i ∧ m.places[i]? = some place ∧ m.list = some list ∧
      σ' = σ.issue (commitDelete σ.store list place) (shown (m.resetListTable i))) ∨
    ((∀ i, tap ≠ .swipe i) ∧ ∃ m', m.tapped σ.store tap = some m' ∧ σ' = shown m' σ) := by
  cases tap with
  | save =>
    obtain ⟨place, hplace, rfl⟩ := Option.map_eq_some_iff.mp h
    exact .inl ⟨place, rfl, hplace, rfl⟩
  | swipe i =>
    obtain ⟨place, hplace, h⟩ := Option.bind_eq_some_iff.mp h
    obtain ⟨list, hlist, h⟩ := Option.bind_eq_some_iff.mp h
    exact .inr (.inl ⟨i, place, list, rfl, hplace, hlist, (Option.some.inj h).symm⟩)
  | row i answer =>
    obtain ⟨m', hm', rfl⟩ := Option.map_eq_some_iff.mp h
    exact .inr (.inr ⟨by simp, m', hm', rfl⟩)
  | pin coordinate answer =>
    obtain ⟨m', hm', rfl⟩ := Option.map_eq_some_iff.mp h
    exact .inr (.inr ⟨by simp, m', hm', rfl⟩)

/-- What a tap on the save screen does: it changes a row, adds a list, or leaves
the screen, after the requests of Done or without any. -/
theorem saveTap_cases {σ σ' : Session} {v : SavePlaceView}
    {shown : SavePlaceView → Session → Session} {pop : Session → Session} {tap : SaveTap}
    (h : saveTap σ v shown pop tap = some σ') :
    (∃ e w, tap = .row e ∧ rowStep v e = some w ∧ σ' = shown w σ) ∨
    (∃ title, tap = .newList title ∧ σ' = σ.issue (addNewList title)
      (shown (v.listAdded title σ.store.lists.next))) ∨
    (tap = .done ∧ v.tappedDoneBtn = none ∧ σ' = σ) ∨
    (∃ issued, tap = .done ∧ v.tappedDoneBtn = some issued ∧ σ' = σ.issue issued pop) ∨
    (tap = .back ∧ σ' = pop σ) := by
  cases tap with
  | row e =>
    obtain ⟨w, hw, rfl⟩ := Option.map_eq_some_iff.mp h
    exact .inl ⟨e, w, rfl, hw, rfl⟩
  | newList title =>
    simp only [saveTap] at h
    split at h
    · cases h
    · exact .inr (.inl ⟨title, rfl, (Option.some.inj h).symm⟩)
  | done =>
    simp only [saveTap] at h
    split at h
    · next hnone => exact .inr (.inr (.inl ⟨rfl, hnone, (Option.some.inj h).symm⟩))
    · next issued hdone =>
      exact .inr (.inr (.inr (.inl ⟨issued, rfl, hdone, (Option.some.inj h).symm⟩)))
  | back => exact .inr (.inr (.inr (.inr ⟨rfl, (Option.some.inj h).symm⟩)))

/-- What a tap on the saved screen does: it shows a list, a place or all places on the
map, edits, deletes or adds a list, or leaves the screen. -/
theorem savedTap_cases {σ σ' : Session} {c : SavedController} {tap : SavedTap}
    (h : savedTap σ c tap = some σ') :
    (∃ i list, tap = .row i ∧ c.lists[i]? = some list ∧
      σ' = { σ with screen := .listMap c ⟨some list, c.placesOf list, c.placesOf list, none⟩ }) ∨
    (∃ i place, tap = .item i ∧ c.isEmpty = false ∧ c.places[i]? = some place ∧
      σ' = { σ with screen := .listMap c (MapScreen.initial.openPlace σ.store place 0) }) ∨
    (∃ list, tap = .seeAll ∧ c.seeAllHidden = false ∧
      σ' = { σ with screen := .listMap c ⟨some list, c.places, c.places, none⟩ }) ∨
    (∃ i list, tap = .edit i ∧ c.lists[i]? = some list ∧
      σ' = { σ with screen := .edit c (.load list (c.placesOf list)) }) ∨
    (∃ i list, tap = .delete i ∧ c.lists[i]? = some list ∧
      checkIfDefaultList list.title = false ∧
      σ' = σ.issue (SavedController.deleteAction σ.store list) fun τ =>
        { τ with
          screen := .saved (c.listDeleted i (SavedController.deletedIds σ.store list.title)) }) ∨
    (∃ title, tap = .newList title ∧ title ≠ "" ∧
      σ' = σ.issue (addNewList title) fun τ =>
        { τ with screen := .saved (c.listAdded title σ.store.lists.next) }) ∨
    (tap = .back ∧ σ' = { σ with screen := .map }.reloadRoot) := by
  cases tap with
  | row i =>
    obtain ⟨list, hlist, rfl⟩ := Option.map_eq_some_iff.mp h
    exact .inl ⟨i, list, rfl, hlist, rfl⟩
  | item i =>
    simp only [savedTap] at h
    split at h
    · cases h
    · next hempty =>
      obtain ⟨place, hplace, rfl⟩ := Option.map_eq_some_iff.mp h
      exact .inr (.inl ⟨i, place, rfl, Bool.eq_false_of_not_eq_true hempty, hplace, rfl⟩)
  | seeAll =>
    simp only [savedTap] at h
    split at h
    · cases h
    · next hhidden =>
      exact .inr (.inr (.inl ⟨_, rfl, Bool.eq_false_of_not_eq_true hhidden,
        (Option.some.inj h).symm⟩))
  | edit i =>
    obtain ⟨list, hlist, rfl⟩ := Option.map_eq_some_iff.mp h
    exact .inr (.inr (.inr (.inl ⟨i, list, rfl, hlist, rfl⟩)))
  | delete i =>
    obtain ⟨list, hlist, h⟩ := Option.bind_eq_some_iff.mp h
    split at h
    · cases h
    · next hdefault =>
      exact .inr (.inr (.inr (.inr (.inl ⟨i, list, rfl, hlist,
        Bool.eq_false_of_not_eq_true hdefault, (Option.some.inj h).symm⟩))))
  | newList title =>
    simp only [savedTap] at h
    split at h
    · cases h
    · next htitle =>
      exact .inr (.inr (.inr (.inr (.inr (.inl ⟨title, rfl, htitle, (Option.some.inj h).symm⟩)))))
  | back => exact .inr (.inr (.inr (.inr (.inr (.inr ⟨rfl, (Option.some.inj h).symm⟩)))))

/-- Requests whose continuation only loads rows. -/
theorem issue_store {σ : Session} {issued : Issued} {next : Session → Session}
    (hnext : ∀ τ, Loaded τ.store (next τ).store) :
    Loaded (applyAll σ.store issued.writes) (σ.issue issued next).store := by
  rcases issue_cases σ issued next with h | h
  · rw [h]
    exact .inl rfl
  · rw [h]
    exact hnext _

theorem mapTap_store {σ σ' : Session} {m : MapScreen} {shown : MapScreen → Session → Session}
    {push : SavePlaceView → Session → Session} {tap : MapTap}
    (h : mapTap σ m shown push tap = some σ') (hshown : ∀ m τ, (shown m τ).store = τ.store)
    (hpush : ∀ v τ, (push v τ).store = τ.store) :
    Loaded (applyAll σ.store (m.issued σ.store tap).writes) σ'.store := by
  rcases mapTap_cases h with ⟨place, rfl, -, rfl⟩ | ⟨i, place, list, rfl, hplace, hlist, rfl⟩ |
    ⟨hswipe, m', -, rfl⟩
  · exact .inl (hpush _ _)
  · simp only [MapScreen.issued, hplace, hlist]
    exact issue_store fun τ => .inl (hshown _ τ)
  · cases tap with
    | swipe i => exact absurd rfl (hswipe i)
    | row i answer => exact .inl (hshown _ _)
    | pin coordinate answer => exact .inl (hshown _ _)
    | save => exact .inl (hshown _ _)

theorem saveTap_store {σ σ' : Session} {v : SavePlaceView}
    {shown : SavePlaceView → Session → Session} {pop : Session → Session} {tap : SaveTap}
    (h : saveTap σ v shown pop tap = some σ') (hshown : ∀ v τ, (shown v τ).store = τ.store)
    (hpop : ∀ τ, (pop τ).store = τ.store) :
    Loaded (applyAll σ.store (v.issued tap).writes) σ'.store := by
  rcases saveTap_cases h with ⟨e, w, rfl, -, rfl⟩ | ⟨title, rfl, rfl⟩ | ⟨rfl, hnone, rfl⟩ |
    ⟨issued, rfl, hdone, rfl⟩ | ⟨rfl, rfl⟩
  · exact .inl (hshown _ _)
  · exact issue_store fun τ => .inl (hshown _ τ)
  · simp only [SavePlaceView.issued, hnone]
    exact .inl rfl
  · simp only [SavePlaceView.issued, hdone]
    exact issue_store fun τ => .inl (hpop τ)
  · exact .inl (hpop _)

theorem savedTap_store {σ σ' : Session} {c : SavedController} {tap : SavedTap}
    (h : savedTap σ c tap = some σ') :
    Loaded (applyAll σ.store (c.issued σ.store tap).writes) σ'.store := by
  rcases savedTap_cases h with ⟨i, list, rfl, -, rfl⟩ | ⟨i, place, rfl, -, -, rfl⟩ |
    ⟨list, rfl, -, rfl⟩ | ⟨i, list, rfl, -, rfl⟩ | ⟨i, list, rfl, hlist, -, rfl⟩ |
    ⟨title, rfl, -, rfl⟩ | ⟨rfl, rfl⟩
  · exact .inl rfl
  · exact .inl rfl
  · exact .inl rfl
  · exact .inl rfl
  · simp only [SavedController.issued, hlist]
    exact issue_store fun _ => .inl rfl
  · exact issue_store fun _ => .inl rfl
  · exact loaded_retrieveLists _ _

theorem editTap_store {σ σ' : Session} {c : SavedController} {e : EditListController}
    {tap : EditTap} (h : editTap σ c e tap = some σ') :
    Loaded (applyAll σ.store (e.issued tap).writes) σ'.store := by
  cases tap with
  | delete placeId =>
    cases h
    exact .inl rfl
  | title text =>
    cases h
    exact .inl rfl
  | done =>
    simp only [editTap] at h
    split at h
    · cases h
      exact issue_store fun _ => loaded_retrieveLists _ _
    · cases h
  | back =>
    cases h
    exact loaded_retrieveLists _ _

end SessionLemmas

open SessionLemmas

/-- The store after a tap: what the tap issues succeeds, and then a screen may
load its rows. -/
theorem store_step {dist : Coordinate → Coordinate → Rat} {σ σ' : Session} {tap : Tap}
    (h : tapStep dist σ tap = some σ') :
    Loaded (applyAll σ.store (σ.issued tap).writes) σ'.store := by
  unfold tapStep at h
  split at h
  · -- relaunch
    next hscreen =>
    obtain rfl := Option.some.inj h
    have hnone : σ.issued .relaunch = .none := by
      unfold Session.issued
      split <;> simp_all
    rw [hnone]
    exact loaded_retrieveLists _ _
  · next tap hscreen =>
    simp only [Session.issued, hscreen]
    cases tap with
    | searchAnswered searchText location items =>
      simp only [rootTap] at h
      split at h
      · cases h
      · cases h
        exact .inl rfl
    | savedList i =>
      obtain ⟨list, -, rfl⟩ := Option.map_eq_some_iff.mp h
      exact .inl rfl
    | closePanel =>
      cases h
      exact loaded_retrieveLists _ _
    | openSaved =>
      cases h
      exact loaded_retrieveLists _ _
  · next tap hscreen =>
    simp only [Session.issued, hscreen]
    exact mapTap_store h (fun _ _ => rfl) fun _ _ => rfl
  · next v tap hscreen =>
    simp only [Session.issued, hscreen]
    exact saveTap_store h (fun _ _ => rfl) fun _ => rfl
  · next c tap hscreen =>
    simp only [Session.issued, hscreen]
    exact savedTap_store h
  · next hscreen =>
    simp only [Session.issued, hscreen]
    cases h
    exact loaded_retrieveLists _ _
  · next c m tap hscreen =>
    simp only [Session.issued, hscreen]
    exact mapTap_store h (fun _ _ => rfl) fun _ _ => rfl
  · next c m v tap hscreen =>
    simp only [Session.issued, hscreen]
    exact saveTap_store h (fun _ _ => rfl) fun _ => rfl
  · next c e tap hscreen =>
    simp only [Session.issued, hscreen]
    exact editTap_store h
  · cases h

end LocateMe
