import LocateMe.Lib.Machine
import LocateMe.MapItems
import LocateMe.TracedSearch

/-!
# Local searches and the panel they share

Without a trace `searchItems` sends one request for the text that was entered.
Its response handler, the completion block that opens the panel, and the block
that records the text all run later, and read `searchText`, `matchingItems` and
`listDetailVC` as they are by then. A run interleaves the starts of searches,
the taps on saved lists and these blocks in any order.

Results:
1. `isolated_step_iff`: a step keeps queries apart iff nothing of another query is in
   the fields that it reads.
2. `isolated_iff`: a run keeps its queries apart iff the order of its starts, answers
   and panels does.
-/

namespace LocateMe

/-! ## 1. The machine -/

/-- An `MKMapItem` object: two of them may have equal parts. -/
structure MapItemObject where
  ref : Nat
  item : MapItem
deriving DecidableEq

/-- A `Search` of the recent searches. -/
structure Search where
  title : String
  id : Int
deriving DecidableEq

/-- The fields of a `ListDetailController` that the map sets, and the text of
its title label, which `viewDidLoad` sets once. -/
structure ListDetailVC where
  list : Option PlaceList
  listTitle : String
  places : List Place
  titleText : Option String
deriving DecidableEq

/-- A request that `MKLocalSearch` has not answered yet. -/
structure Query where
  text : String
  loc : Coordinate
deriving DecidableEq

/-- What the blocks of a response handler belong to: the text of the handler's
own query, and the items returned for it. -/
structure Answer where
  text : String
  mapItems : List MapItemObject
deriving DecidableEq

/-- A call of `getDetailFcp` whose completion block has not run yet: from a
response handler (`list: nil`), or from a tap on a saved list. -/
inductive DetailBlock
  | search (answer : Answer) (places : List Place)
  | savedList (list : PlaceList) (places : List Place)
deriving DecidableEq

/-- The fields of `MapController` that local searches use, the blocks that wait,
and the log: the calls of `getDetailFcp` that response handlers make, the
panels that these calls open, and the texts that are recorded for them. -/
structure SearchMap where
  searchText : String
  searchDistance : Rat
  signedIn : Bool
  searches : List Search
  matchingItems : List MapItemObject
  matchingPlaces : List Place
  listDetailVC : ListDetailVC
  requests : List Query
  listRequests : List PlaceList
  detailBlocks : List DetailBlock
  recordBlocks : List Answer
  calls : List (Answer × List Place)
  panels : List (Answer × ListDetailVC)
  records : List (Answer × String)
deriving DecidableEq

/-- Starts, replies and blocks. A reply or block is given by its place among
those that wait. -/
inductive SearchEvent
  | startSearch (text : String) (location : Option Coordinate)
  | tappedList (list : PlaceList)
  | response (i : Nat) (mapItems : List MapItemObject) (location : Option Coordinate)
  | failure (i : Nat)
  | listReply (i : Nat) (allPlaces : List Place)
  | detailBlock (i : Nat)
  | recordBlock (i : Nat)
  | removeDetailFpc
deriving DecidableEq

/-- A `ListDetailController` from the storyboard. -/
def newListDetailVC : ListDetailVC := ⟨none, "", [], none⟩

/-- `setUpView`, which runs when the view is loaded for the first time. -/
def ListDetailVC.loadViewIfNeeded (vc : ListDetailVC) : ListDetailVC :=
  match vc.titleText with
  | some _ => vc
  | none => { vc with titleText := some (vc.list.elim vc.listTitle PlaceList.title) }

/-- The completion block of `getDetailFcp`. -/
def getDetailFcp (m : SearchMap) : DetailBlock → SearchMap
  | .search answer places =>
    let vc := { m.listDetailVC with
      listTitle := capitalizingFirstLetter m.searchText
      places := places }.loadViewIfNeeded
    { m with listDetailVC := vc, panels := m.panels ++ [(answer, vc)] }
  | .savedList list places =>
    { m with
      listDetailVC := { m.listDetailVC with
        list := some list
        places := places }.loadViewIfNeeded }

/-- The id of a new recent search. Unbounded here; the app stops at the greatest
`Int`. -/
def nextSearchId (searches : List Search) : Int :=
  ((searches.map Search.id).max?.map (· + 1)).getD 1

/-- The block of `addSearchToDb`, which a handler with the given answer queued.
The log keeps the text that it leaves among the searches. -/
def addSearchToDb (m : SearchMap) (answer : Answer) : SearchMap :=
  if m.signedIn then
    let m := { m with records := m.records ++ [(answer, m.searchText)] }
    if m.searches.any (·.title == m.searchText) then m
    else
      let kept := if 2 < m.searches.length then m.searches.dropLast else m.searches
      { m with searches := ⟨m.searchText, nextSearchId m.searches⟩ :: kept }
  else m

section

variable (dist : Coordinate → Coordinate → Rat) (isEqual : MapItemObject → MapItemObject → Bool)

/-- The loop of `searching(fromCoordinates: false)` over the items. -/
def collectItems (searchDistance : Rat) (loc : Coordinate) (matchingItems : List MapItemObject)
    (mapItems : List MapItemObject) : List MapItemObject :=
  mapItems.foldl (fun matchingItems item =>
    if dist loc item.item.placemark.coordinate ≤ searchDistance then
      if matchingItems.any (isEqual item) then matchingItems else matchingItems ++ [item]
    else matchingItems) matchingItems

/-- `searching(fromCoordinates: false)`: the handler of a successful response. -/
def searchingLocally (m : SearchMap) (query : Query) (mapItems : List MapItemObject)
    (location : Option Coordinate) : SearchMap :=
  let matchingItems :=
    collectItems dist isEqual m.searchDistance query.loc m.matchingItems mapItems
  let places := createPlaceList dist m.searchText location (matchingItems.map MapItemObject.item)
  let answer : Answer := ⟨query.text, mapItems⟩
  { m with
    matchingItems := matchingItems
    matchingPlaces := places
    detailBlocks := m.detailBlocks ++ [.search answer places]
    recordBlocks := m.recordBlocks ++ [answer]
    calls := m.calls ++ [(answer, places)] }

/-- One event. There is no next state when the reply or block is not waiting. -/
def searchStep (m : SearchMap) : SearchEvent → Option SearchMap
  | .startSearch text location =>
    some { m with
      searchText := text
      matchingItems := []
      requests := m.requests ++ (location.map (⟨text, ·⟩)).toList }
  | .tappedList list =>
    some (if m.signedIn then { m with listRequests := m.listRequests ++ [list] } else m)
  | .response i mapItems location => do
    let query ← m.requests[i]?
    some (searchingLocally dist isEqual { m with requests := m.requests.eraseIdx i } query mapItems
      location)
  | .failure i => do
    let _ ← m.requests[i]?
    some { m with requests := m.requests.eraseIdx i }
  | .listReply i allPlaces => do
    let list ← m.listRequests[i]?
    some { m with
      listRequests := m.listRequests.eraseIdx i
      matchingPlaces := allPlaces
      detailBlocks := m.detailBlocks ++ [.savedList list allPlaces] }
  | .detailBlock i => do
    let block ← m.detailBlocks[i]?
    some (getDetailFcp { m with detailBlocks := m.detailBlocks.eraseIdx i } block)
  | .recordBlock i => do
    let answer ← m.recordBlocks[i]?
    some (addSearchToDb { m with recordBlocks := m.recordBlocks.eraseIdx i } answer)
  | .removeDetailFpc => some { m with listDetailVC := newListDetailVC }

end

/-- The map before the first search. -/
def initialSearchMap (searchDistance : Rat) (signedIn : Bool) (searches : List Search) :
    SearchMap where
  searchText := ""
  searchDistance := searchDistance
  signedIn := signedIn
  searches := searches
  matchingItems := []
  matchingPlaces := []
  listDetailVC := newListDetailVC
  requests := []
  listRequests := []
  detailBlocks := []
  recordBlocks := []
  calls := []
  panels := []
  records := []

/-! ## 2. Isolation -/

/-- The answer returned the item with this name and coordinate. -/
def Answer.returned (answer : Answer) (name : String) (x : Coordinate) : Prop :=
  ∃ object ∈ answer.mapItems, object.item.isPlace name x

/-- The title that belongs to an answer. -/
def Answer.title (answer : Answer) : String := capitalizingFirstLetter answer.text

/-- Every call that a response handler made passes items of its own query, every
panel so opened has that query's text as its title and no list, and every text
recorded for a query is the query's. -/
structure Isolated (m : SearchMap) : Prop where
  calls : ∀ call ∈ m.calls, ∀ place ∈ call.2, call.1.returned place.name place.coordinate
  panels : ∀ panel ∈ m.panels, panel.2.list = none ∧ panel.2.listTitle = panel.1.title ∧
    panel.2.titleText = some panel.1.title
  records : ∀ record ∈ m.records, record.2 = record.1.text

/-- What the steps read from the shared fields is their own query's: a handler
finds no item there that is not in its answer too; a panel is opened and a text
recorded while the query's text is the search text; and the controller that a
panel is opened in has no list and no other title. -/
def Undisturbed (m : SearchMap) : SearchEvent → Prop
  | .response i mapItems _ => (m.requests[i]?).isSome → ∀ object ∈ m.matchingItems,
      ∃ object' ∈ mapItems,
        object'.item.isPlace (object.item.name.getD "") object.item.placemark.coordinate
  | .detailBlock i => ∀ answer places, m.detailBlocks[i]? = some (.search answer places) →
      capitalizingFirstLetter m.searchText = answer.title ∧ m.listDetailVC.list = none ∧
        (m.listDetailVC.titleText = none ∨ m.listDetailVC.titleText = some answer.title)
  | .recordBlock i => ∀ answer, m.recordBlocks[i]? = some answer → m.signedIn = true →
      m.searchText = answer.text
  | _ => True

namespace SearchLemmas

theorem mem_collectItems (dist : Coordinate → Coordinate → Rat)
    (isEqual : MapItemObject → MapItemObject → Bool) (searchDistance : Rat) (loc : Coordinate)
    (matchingItems mapItems : List MapItemObject) :
    (∀ object ∈ matchingItems,
      object ∈ collectItems dist isEqual searchDistance loc matchingItems mapItems) ∧
    ∀ object ∈ collectItems dist isEqual searchDistance loc matchingItems mapItems,
      object ∈ matchingItems ∨
        object ∈ mapItems ∧ dist loc object.item.placemark.coordinate ≤ searchDistance := by
  unfold collectItems
  induction mapItems generalizing matchingItems with
  | nil => simp
  | cons item mapItems ih =>
    rw [List.foldl_cons]
    -- the item is appended or the collected items stay as they are
    have hnext : ∀ next : List MapItemObject, (next = matchingItems ∨
        next = matchingItems ++ [item] ∧
          dist loc item.item.placemark.coordinate ≤ searchDistance) →
        (∀ object ∈ matchingItems, object ∈ next) ∧
          ∀ object ∈ next, object ∈ matchingItems ∨
            object = item ∧ dist loc item.item.placemark.coordinate ≤ searchDistance := by
      rintro next (rfl | ⟨rfl, hnear⟩)
      · exact ⟨fun _ h => h, fun _ h => .inl h⟩
      · simp +contextual [hnear]
    obtain ⟨hkeep, honly⟩ := hnext
      (if dist loc item.item.placemark.coordinate ≤ searchDistance then
        if matchingItems.any (isEqual item) then matchingItems else matchingItems ++ [item]
      else matchingItems) (by split_ifs <;> simp_all)
    refine ⟨fun object h => (ih _).1 object (hkeep object h), fun object h => ?_⟩
    rcases (ih _).2 object h with hin | ⟨hin, hnear⟩
    · rcases honly object hin with hold | ⟨rfl, hnear⟩
      · exact .inl hold
      · exact .inr ⟨List.mem_cons_self, hnear⟩
    · exact .inr ⟨List.mem_cons_of_mem item hin, hnear⟩

/-- An item that is near is collected, or one that is equal to it is. -/
theorem collectItems_represents (dist : Coordinate → Coordinate → Rat)
    (isEqual : MapItemObject → MapItemObject → Bool) (searchDistance : Rat) (loc : Coordinate)
    (matchingItems mapItems : List MapItemObject) :
    ∀ object ∈ mapItems, dist loc object.item.placemark.coordinate ≤ searchDistance →
      ∃ y ∈ collectItems dist isEqual searchDistance loc matchingItems mapItems,
        y = object ∨ isEqual object y = true := by
  induction mapItems generalizing matchingItems with
  | nil => simp
  | cons item mapItems ih =>
    intro object hin hnear
    rcases List.mem_cons.mp hin with rfl | hin
    · obtain ⟨y, hy, hsame⟩ : ∃ y ∈ (if dist loc object.item.placemark.coordinate ≤ searchDistance
          then if matchingItems.any (isEqual object) then matchingItems
            else matchingItems ++ [object]
          else matchingItems), y = object ∨ isEqual object y = true := by
        rw [if_pos hnear]
        split
        · next hany =>
          obtain ⟨y, hy, hequal⟩ := List.any_eq_true.mp hany
          exact ⟨y, hy, .inr hequal⟩
        · exact ⟨object, by simp, .inl rfl⟩
      exact ⟨y, (mem_collectItems dist isEqual searchDistance loc _ mapItems).1 y hy, hsame⟩
    · exact ih _ object hin hnear

/-- The places that a handler passes are of its own answer iff the items it
found are. -/
theorem places_returned_iff (dist : Coordinate → Coordinate → Rat)
    (isEqual : MapItemObject → MapItemObject → Bool) (searchDistance : Rat) (loc : Coordinate)
    (text searchText : String) (location : Option Coordinate)
    (matchingItems mapItems : List MapItemObject) :
    (∀ place ∈ createPlaceList dist searchText location
        ((collectItems dist isEqual searchDistance loc matchingItems mapItems).map
          MapItemObject.item),
      Answer.returned ⟨text, mapItems⟩ place.name place.coordinate) ↔
    ∀ object ∈ matchingItems, ∃ object' ∈ mapItems,
      object'.item.isPlace (object.item.name.getD "") object.item.placemark.coordinate := by
  obtain ⟨hkeep, honly⟩ := mem_collectItems dist isEqual searchDistance loc matchingItems mapItems
  simp only [createPlaceList, List.map_map, List.mem_map, forall_exists_index, and_imp,
    forall_apply_eq_imp_iff₂, Function.comp, createPlaceitems_name, createPlaceitems_coordinate,
    Answer.returned]
  constructor
  · exact fun h object hin => h object (hkeep object hin)
  · intro h object hin
    rcases honly object hin with hold | ⟨hnew, -⟩
    · exact h object hold
    · exact ⟨object, hnew, by simp [MapItem.isPlace]⟩

/-- The panel that a handler's call opens shows the title of its answer and no
list iff the search text and the controller are as they should be. -/
theorem panel_iff (vc : ListDetailVC) (title wanted : String) (places : List Place) :
    (let vc' := { vc with listTitle := title, places := places }.loadViewIfNeeded
     vc'.list = none ∧ vc'.listTitle = wanted ∧ vc'.titleText = some wanted) ↔
    title = wanted ∧ vc.list = none ∧ (vc.titleText = none ∨ vc.titleText = some wanted) := by
  obtain ⟨list, listTitle, places', titleText⟩ := vc
  cases titleText with
  | none =>
    simp only [ListDetailVC.loadViewIfNeeded, Option.some.injEq, true_or, and_true]
    constructor
    · rintro ⟨hlist, htitle, -⟩
      exact ⟨htitle, hlist⟩
    · rintro ⟨rfl, rfl⟩
      exact ⟨rfl, rfl, rfl⟩
  | some label =>
    simp only [ListDetailVC.loadViewIfNeeded, reduceCtorEq, false_or]
    tauto

/-- Appending to a log keeps a property of all entries iff the new entry has it. -/
theorem forall_mem_concat {α : Type} {P : α → Prop} {xs : List α} {x : α} :
    (∀ y ∈ xs ++ [x], P y) ↔ (∀ y ∈ xs, P y) ∧ P x := by
  simp [or_imp, forall_and]

theorem isolated_getDetailFcp_iff {m : SearchMap} {block : DetailBlock} :
    Isolated (getDetailFcp m block) ↔ Isolated m ∧ ∀ answer places,
      block = .search answer places →
        capitalizingFirstLetter m.searchText = answer.title ∧ m.listDetailVC.list = none ∧
          (m.listDetailVC.titleText = none ∨ m.listDetailVC.titleText = some answer.title) := by
  cases block with
  | search answer places =>
    have hpanel := panel_iff m.listDetailVC (capitalizingFirstLetter m.searchText) answer.title places
    constructor
    · rintro ⟨hcalls, hpanels, hrecords⟩
      obtain ⟨hold, hnew⟩ := forall_mem_concat.mp hpanels
      refine ⟨⟨hcalls, hold, hrecords⟩, ?_⟩
      rintro _ _ ⟨rfl, rfl⟩
      exact hpanel.mp hnew
    · rintro ⟨⟨hcalls, hpanels, hrecords⟩, hblock⟩
      exact ⟨hcalls, forall_mem_concat.mpr ⟨hpanels, hpanel.mpr (hblock answer places rfl)⟩,
        hrecords⟩
  | savedList list places =>
    constructor
    · rintro ⟨hcalls, hpanels, hrecords⟩
      exact ⟨⟨hcalls, hpanels, hrecords⟩, fun _ _ h => by cases h⟩
    · rintro ⟨⟨hcalls, hpanels, hrecords⟩, -⟩
      exact ⟨hcalls, hpanels, hrecords⟩

theorem isolated_addSearchToDb_iff {m : SearchMap} {answer : Answer} :
    Isolated (addSearchToDb m answer) ↔
      Isolated m ∧ (m.signedIn = true → m.searchText = answer.text) := by
  unfold addSearchToDb
  by_cases hin : m.signedIn = true
  · -- the log entry is the same whether the text is new or not
    have hrecord : ∀ t : SearchMap, t.calls = m.calls → t.panels = m.panels →
        t.records = m.records ++ [(answer, m.searchText)] →
          (Isolated t ↔ Isolated m ∧ m.searchText = answer.text) := by
      intro t hcalls hpanels hrecords
      constructor
      · rintro ⟨hc, hp, hr⟩
        rw [hcalls] at hc
        rw [hpanels] at hp
        rw [hrecords] at hr
        obtain ⟨hold, hnew⟩ := forall_mem_concat.mp hr
        exact ⟨⟨hc, hp, hold⟩, hnew⟩
      · rintro ⟨⟨hc, hp, hr⟩, htext⟩
        exact ⟨by rwa [hcalls], by rwa [hpanels],
          by rw [hrecords]; exact forall_mem_concat.mpr ⟨hr, htext⟩⟩
    simp only [hin, if_true, forall_const]
    split
    · exact hrecord _ rfl rfl rfl
    · exact hrecord _ rfl rfl rfl
  · simp [hin]

/-- The block changes the searches and the log only. -/
theorem addSearchToDb_eq (m : SearchMap) (answer : Answer) :
    ∃ searches records, addSearchToDb m answer =
      { m with searches := searches, records := records } := by
  unfold addSearchToDb
  split
  · dsimp only
    split
    · exact ⟨_, _, rfl⟩
    · exact ⟨_, _, rfl⟩
  · exact ⟨m.searches, m.records, rfl⟩

/-- The log and what it holds do not depend on the other fields. -/
theorem isolated_congr {m t : SearchMap} (hcalls : t.calls = m.calls)
    (hpanels : t.panels = m.panels) (hrecords : t.records = m.records) :
    Isolated t ↔ Isolated m := by
  constructor
  · rintro ⟨hc, hp, hr⟩
    exact ⟨hcalls ▸ hc, hpanels ▸ hp, hrecords ▸ hr⟩
  · rintro ⟨hc, hp, hr⟩
    exact ⟨hcalls ▸ hc, hpanels ▸ hp, hrecords ▸ hr⟩

theorem isolated_frame {m t : SearchMap} {e : SearchEvent} (hcalls : t.calls = m.calls)
    (hpanels : t.panels = m.panels) (hrecords : t.records = m.records) (he : Undisturbed m e) :
    Isolated t ↔ Isolated m ∧ Undisturbed m e := by
  rw [isolated_congr hcalls hpanels hrecords]
  exact (and_iff_left he).symm

/-- One event keeps the queries apart iff it is not disturbed. -/
theorem isolated_step_iff {dist : Coordinate → Coordinate → Rat}
    {isEqual : MapItemObject → MapItemObject → Bool} {m t : SearchMap} {e : SearchEvent}
    (ht : searchStep dist isEqual m e = some t) : Isolated t ↔ Isolated m ∧ Undisturbed m e := by
  cases e with
  | startSearch text location =>
    obtain rfl := Option.some.inj ht
    exact isolated_frame rfl rfl rfl trivial
  | tappedList list =>
    obtain rfl := Option.some.inj ht
    split
    · exact isolated_frame rfl rfl rfl trivial
    · exact isolated_frame rfl rfl rfl trivial
  | response i mapItems location =>
    obtain ⟨query, hquery, hsome⟩ := Option.bind_eq_some_iff.mp ht
    obtain rfl := Option.some.inj hsome
    have hplaces := places_returned_iff dist isEqual m.searchDistance query.loc query.text m.searchText
      location m.matchingItems mapItems
    simp only [Undisturbed, hquery, Option.isSome_some, forall_const]
    constructor
    · rintro ⟨hcalls, hpanels, hrecords⟩
      obtain ⟨hold, hnew⟩ := forall_mem_concat.mp hcalls
      exact ⟨⟨hold, hpanels, hrecords⟩, hplaces.mp hnew⟩
    · rintro ⟨⟨hcalls, hpanels, hrecords⟩, hitems⟩
      exact ⟨forall_mem_concat.mpr ⟨hcalls, hplaces.mpr hitems⟩, hpanels, hrecords⟩
  | failure i =>
    obtain ⟨query, -, hsome⟩ := Option.bind_eq_some_iff.mp ht
    obtain rfl := Option.some.inj hsome
    exact isolated_frame rfl rfl rfl trivial
  | listReply i allPlaces =>
    obtain ⟨list, -, hsome⟩ := Option.bind_eq_some_iff.mp ht
    obtain rfl := Option.some.inj hsome
    exact isolated_frame rfl rfl rfl trivial
  | detailBlock i =>
    obtain ⟨block, hblock, hsome⟩ := Option.bind_eq_some_iff.mp ht
    obtain rfl := Option.some.inj hsome
    simp only [isolated_getDetailFcp_iff, Undisturbed, hblock, Option.some.injEq]
    exact and_congr_left' (isolated_congr rfl rfl rfl)
  | recordBlock i =>
    obtain ⟨answer, hanswer, hsome⟩ := Option.bind_eq_some_iff.mp ht
    obtain rfl := Option.some.inj hsome
    simp only [isolated_addSearchToDb_iff, Undisturbed, hanswer, Option.some.injEq, forall_eq']
    exact and_congr_left' (isolated_congr rfl rfl rfl)
  | removeDetailFpc =>
    obtain rfl := Option.some.inj ht
    exact isolated_frame rfl rfl rfl trivial

end SearchLemmas

open SearchLemmas

/-! ## 3. The order of events -/

/-- The text of a search that starts. -/
def SearchEvent.startedText : SearchEvent → Option String
  | .startSearch text _ => some text
  | _ => none

section

variable (dist : Coordinate → Coordinate → Rat) (isEqual : MapItemObject → MapItemObject → Bool)

/-- Along the run some search was started, and the text of the last one is such a text. -/
def StartedLast (P : String → Prop) (m : SearchMap) (es : List SearchEvent) : Prop :=
  Machine.Since (searchStep dist isEqual) (fun _ e => ∃ text, e.startedText = some text ∧ P text)
    (·.startedText.isSome = true) m es

/-- Along the run an answer returned the item, within `searchDistance` of where its query
was made, and no search was started after it. -/
def ReturnedSince (object : MapItemObject) (m : SearchMap) (es : List SearchEvent) : Prop :=
  Machine.Since (searchStep dist isEqual)
    (fun u e => ∃ i mapItems location query, e = .response i mapItems location ∧
      u.requests[i]? = some query ∧ object ∈ mapItems ∧
      dist query.loc object.item.placemark.coordinate ≤ u.searchDistance)
    (·.startedText.isSome = true) m es

/-- Along the run the panel was opened for a saved list, or for a search with a title
other than this one, and was not closed after that. -/
def OpenedForOther (title : String) (m : SearchMap) (es : List SearchEvent) : Prop :=
  Machine.Since (searchStep dist isEqual)
    (fun u e => ∃ i block, e = .detailBlock i ∧ u.detailBlocks[i]? = some block ∧
      ∀ answer places, block = .search answer places → answer.title ≠ title)
    (· = .removeDetailFpc) m es

/-- What came before an event keeps the queries apart at it. When an answer comes, those
since the last start returned only places that it returned too. When the panel opens for
a search, the search started last has its title, and since it was closed last it was not
opened for another. When a text is recorded for a search, the search started last has
that text. -/
def KeptApart (m : SearchMap) (before : List SearchEvent) (u : SearchMap) : SearchEvent → Prop
  | .response i mapItems _ => (u.requests[i]?).isSome → ∀ object,
      ReturnedSince dist isEqual object m before → ∃ object' ∈ mapItems,
        object'.item.isPlace (object.item.name.getD "") object.item.placemark.coordinate
  | .detailBlock i => ∀ answer places, u.detailBlocks[i]? = some (.search answer places) →
      StartedLast dist isEqual (capitalizingFirstLetter · = answer.title) m before ∧
        ¬ OpenedForOther dist isEqual answer.title m before
  | .recordBlock i => ∀ answer, u.recordBlocks[i]? = some answer → u.signedIn = true →
      StartedLast dist isEqual (· = answer.text) m before
  | _ => True

/-- Every event of the run comes when it keeps the queries apart. -/
def OrderKeepsApart (m : SearchMap) (es : List SearchEvent) : Prop :=
  ∀ before e after u, es = before ++ e :: after →
    Machine.run (searchStep dist isEqual) m before = some u → KeptApart dist isEqual m before u e

end

namespace SearchLemmas

section

variable {dist : Coordinate → Coordinate → Rat} {isEqual : MapItemObject → MapItemObject → Bool}

/-- Nothing of a search waits. -/
structure Idle (m : SearchMap) : Prop where
  requests : m.requests = []
  detailBlocks : ∀ answer places, DetailBlock.search answer places ∉ m.detailBlocks
  recordBlocks : m.recordBlocks = []

/-- The items that an event leaves among the matching ones. -/
def itemsAfter (dist : Coordinate → Coordinate → Rat)
    (isEqual : MapItemObject → MapItemObject → Bool) (m : SearchMap) :
    SearchEvent → List MapItemObject
  | .startSearch _ _ => []
  | .response i mapItems _ =>
    match m.requests[i]? with
    | some query =>
      collectItems dist isEqual m.searchDistance query.loc m.matchingItems mapItems
    | none => m.matchingItems
  | _ => m.matchingItems

/-- The controller that an event leaves for the panel. -/
def panelAfter (m : SearchMap) : SearchEvent → ListDetailVC
  | .detailBlock i =>
    match m.detailBlocks[i]? with
    | some block => (getDetailFcp m block).listDetailVC
    | none => m.listDetailVC
  | .removeDetailFpc => newListDetailVC
  | _ => m.listDetailVC

/-- What a step does to the fields that searches share. -/
theorem searchStep_fields {m t : SearchMap} {e : SearchEvent}
    (h : searchStep dist isEqual m e = some t) :
    t.searchText = e.startedText.getD m.searchText ∧
      t.matchingItems = itemsAfter dist isEqual m e ∧ t.listDetailVC = panelAfter m e ∧
      (e.startedText = none → Idle m → Idle t) := by
  cases e with
  | startSearch text location =>
    obtain rfl := Option.some.inj h
    exact ⟨rfl, rfl, rfl, nofun⟩
  | tappedList list =>
    obtain rfl := Option.some.inj h
    split
    · exact ⟨rfl, rfl, rfl, fun _ hidle => ⟨hidle.requests, hidle.detailBlocks, hidle.recordBlocks⟩⟩
    · exact ⟨rfl, rfl, rfl, fun _ hidle => hidle⟩
  | response i mapItems location =>
    obtain ⟨query, hquery, hsome⟩ := Option.bind_eq_some_iff.mp h
    obtain rfl := Option.some.inj hsome
    refine ⟨rfl, by simp only [itemsAfter, hquery, searchingLocally], rfl, fun _ hidle => ?_⟩
    rw [hidle.requests] at hquery
    cases hquery
  | failure i =>
    obtain ⟨query, hquery, hsome⟩ := Option.bind_eq_some_iff.mp h
    obtain rfl := Option.some.inj hsome
    refine ⟨rfl, rfl, rfl, fun _ hidle => ?_⟩
    rw [hidle.requests] at hquery
    cases hquery
  | listReply i allPlaces =>
    obtain ⟨list, -, hsome⟩ := Option.bind_eq_some_iff.mp h
    obtain rfl := Option.some.inj hsome
    refine ⟨rfl, rfl, rfl, fun _ hidle => ⟨hidle.requests, ?_, hidle.recordBlocks⟩⟩
    simpa using hidle.detailBlocks
  | detailBlock i =>
    obtain ⟨block, hblock, hsome⟩ := Option.bind_eq_some_iff.mp h
    obtain rfl := Option.some.inj hsome
    have hleft : Idle m → ∀ answer places,
        DetailBlock.search answer places ∉ m.detailBlocks.eraseIdx i :=
      fun hidle answer places hin => hidle.detailBlocks answer places (List.mem_of_mem_eraseIdx hin)
    cases block with
    | search answer places =>
      exact ⟨rfl, rfl, by simp only [panelAfter, hblock, getDetailFcp],
        fun _ hidle => ⟨hidle.requests, hleft hidle, hidle.recordBlocks⟩⟩
    | savedList list places =>
      exact ⟨rfl, rfl, by simp only [panelAfter, hblock, getDetailFcp],
        fun _ hidle => ⟨hidle.requests, hleft hidle, hidle.recordBlocks⟩⟩
  | recordBlock i =>
    obtain ⟨answer, hanswer, hsome⟩ := Option.bind_eq_some_iff.mp h
    obtain rfl := Option.some.inj hsome
    obtain ⟨searches, records, hadded⟩ :=
      addSearchToDb_eq { m with recordBlocks := m.recordBlocks.eraseIdx i } answer
    rw [hadded]
    refine ⟨rfl, rfl, rfl, fun _ hidle => ?_⟩
    rw [hidle.recordBlocks] at hanswer
    cases hanswer
  | removeDetailFpc =>
    obtain rfl := Option.some.inj h
    exact ⟨rfl, rfl, rfl, fun _ hidle => ⟨hidle.requests, hidle.detailBlocks, hidle.recordBlocks⟩⟩

variable {searchDistance : Rat} {signedIn : Bool} {searches : List Search} {es : List SearchEvent}
  {u : SearchMap}

/-- What waits was started. -/
theorem started_of_not_idle (hrun : Machine.run (searchStep dist isEqual)
      (initialSearchMap searchDistance signedIn searches) es = some u) (hwaits : ¬ Idle u) :
    ∃ e ∈ es, e.startedText.isSome = true := by
  by_contra hnone
  have hstarts : ∀ e ∈ es, ∀ _ : SearchMap, e.startedText = none := by
    intro e he _
    by_contra hsome
    exact hnone ⟨e, he, Option.isSome_iff_ne_none.mpr hsome⟩
  have hinitial : Idle (initialSearchMap searchDistance signedIn searches) :=
    ⟨rfl, by simp [initialSearchMap], rfl⟩
  exact hwaits (Machine.run_invariant
    (fun _ _ _ hidle hstart ht => (searchStep_fields ht).2.2.2 hstart hidle) hinitial
    (Machine.meets_of_forall hstarts) hrun)

/-- While something of a search waits, the search text is that of the last start. -/
theorem startedLast_iff (hrun : Machine.run (searchStep dist isEqual)
      (initialSearchMap searchDistance signedIn searches) es = some u) (hwaits : ¬ Idle u)
    (P : String → Prop) :
    StartedLast dist isEqual P (initialSearchMap searchDistance signedIn searches) es ↔
      P u.searchText := by
  have hstep : ∀ m e t, searchStep dist isEqual m e = some t →
      t.searchText = e.startedText.getD m.searchText := fun _ _ _ ht => (searchStep_fields ht).1
  exact (Machine.run_latest hstep hrun).trans (and_iff_right (started_of_not_idle hrun hwaits))

/-- A matching item is one that an answer since the last start returned. -/
theorem returnedSince_of_mem (hrun : Machine.run (searchStep dist isEqual)
      (initialSearchMap searchDistance signedIn searches) es = some u) {object : MapItemObject}
    (hin : object ∈ u.matchingItems) :
    ReturnedSince dist isEqual object (initialSearchMap searchDistance signedIn searches) es := by
  refine Machine.since_of_run (P := fun u => object ∈ u.matchingItems) (fun u e t ht hin => ?_)
    (by simp [initialSearchMap]) hrun hin
  rw [(searchStep_fields ht).2.1] at hin
  cases e with
  | startSearch text location => cases hin
  | response i mapItems location =>
    obtain ⟨query, hquery, -⟩ := Option.bind_eq_some_iff.mp ht
    simp only [itemsAfter, hquery] at hin
    rcases (mem_collectItems dist isEqual u.searchDistance query.loc _ mapItems).2 object hin
      with hold | ⟨hnew, hnear⟩
    · exact .inr ⟨hold, by simp [SearchEvent.startedText]⟩
    · exact .inl ⟨i, mapItems, location, query, rfl, hquery, hnew, hnear⟩
  | tappedList | failure | listReply | detailBlock | recordBlock | removeDetailFpc =>
    exact .inr ⟨hin, by simp [SearchEvent.startedText]⟩

/-- When equal items have equal parts, every such item is represented. -/
theorem mem_of_returnedSince (hequal : ∀ a b, isEqual a b = true → a.item = b.item)
    (hrun : Machine.run (searchStep dist isEqual)
      (initialSearchMap searchDistance signedIn searches) es = some u) {object : MapItemObject}
    (hsince : ReturnedSince dist isEqual object
      (initialSearchMap searchDistance signedIn searches) es) :
    ∃ y ∈ u.matchingItems, y.item = object.item := by
  refine Machine.run_of_since (P := fun u => ∃ y ∈ u.matchingItems, y.item = object.item) ?_ ?_
    hrun hsince
  · rintro u _ t ht ⟨i, mapItems, location, query, rfl, hquery, hin, hnear⟩
    rw [(searchStep_fields ht).2.1]
    simp only [itemsAfter, hquery]
    obtain ⟨y, hy, hsame⟩ := collectItems_represents dist isEqual u.searchDistance query.loc
      u.matchingItems mapItems object hin hnear
    refine ⟨y, hy, ?_⟩
    rcases hsame with rfl | hsame
    · rfl
    · exact (hequal object y hsame).symm
  · rintro u e t ht ⟨y, hy, hitem⟩ hkeep
    refine ⟨y, ?_, hitem⟩
    rw [(searchStep_fields ht).2.1]
    cases e with
    | startSearch text location => exact absurd rfl hkeep
    | response i mapItems location =>
      obtain ⟨query, hquery, -⟩ := Option.bind_eq_some_iff.mp ht
      simp only [itemsAfter, hquery]
      exact (mem_collectItems dist isEqual u.searchDistance query.loc _ mapItems).1 y hy
    | tappedList | failure | listReply | detailBlock | recordBlock | removeDetailFpc => exact hy

theorem titleText_search (m : SearchMap) (answer : Answer) (places : List Place) :
    (getDetailFcp m (.search answer places)).listDetailVC.titleText =
      some (m.listDetailVC.titleText.getD
        (m.listDetailVC.list.elim (capitalizingFirstLetter m.searchText) PlaceList.title)) := by
  cases htitle : m.listDetailVC.titleText with
  | none => simp [getDetailFcp, ListDetailVC.loadViewIfNeeded, htitle]
  | some label => simp [getDetailFcp, ListDetailVC.loadViewIfNeeded, htitle]

/-- Without a list the label is the title of the search text, unless it was set before. -/
theorem titleText_own {m : SearchMap} {title : String}
    (htitle : capitalizingFirstLetter m.searchText = title) (hlist : m.listDetailVC.list = none)
    (answer : Answer) (places : List Place) :
    (getDetailFcp m (.search answer places)).listDetailVC.titleText =
      some (m.listDetailVC.titleText.getD title) := by
  rw [titleText_search, hlist, Option.elim_none, htitle]

theorem list_search (m : SearchMap) (answer : Answer) (places : List Place) :
    (getDetailFcp m (.search answer places)).listDetailVC.list = m.listDetailVC.list := by
  simp only [getDetailFcp, ListDetailVC.loadViewIfNeeded]
  split
  · rfl
  · rfl

theorem panel_savedList (m : SearchMap) (list : PlaceList) (places : List Place) :
    (getDetailFcp m (.savedList list places)).listDetailVC.list = some list ∧
      (getDetailFcp m (.savedList list places)).listDetailVC.titleText =
        some (m.listDetailVC.titleText.getD list.title) := by
  cases htitle : m.listDetailVC.titleText with
  | none => simp [getDetailFcp, ListDetailVC.loadViewIfNeeded, htitle]
  | some label => simp [getDetailFcp, ListDetailVC.loadViewIfNeeded, htitle]

/-- A list on the panel was put there since it was closed last. -/
theorem openedForOther_of_list (hrun : Machine.run (searchStep dist isEqual)
      (initialSearchMap searchDistance signedIn searches) es = some u)
    (hlist : u.listDetailVC.list ≠ none) (title : String) :
    OpenedForOther dist isEqual title (initialSearchMap searchDistance signedIn searches) es := by
  refine Machine.since_of_run (P := fun u => u.listDetailVC.list ≠ none) (fun u e t ht hlist => ?_)
    (by simp [initialSearchMap, newListDetailVC]) hrun hlist
  rw [(searchStep_fields ht).2.2.1] at hlist
  cases e with
  | detailBlock i =>
    obtain ⟨block, hblock, -⟩ := Option.bind_eq_some_iff.mp ht
    simp only [panelAfter, hblock] at hlist
    cases block with
    | search answer places =>
      rw [list_search] at hlist
      exact .inr ⟨hlist, nofun⟩
    | savedList list places => exact .inl ⟨i, _, rfl, hblock, nofun⟩
  | removeDetailFpc => exact absurd rfl hlist
  | startSearch | tappedList | response | failure | listReply | recordBlock =>
    exact .inr ⟨hlist, nofun⟩

theorem list_of_not_openedForOther (hrun : Machine.run (searchStep dist isEqual)
      (initialSearchMap searchDistance signedIn searches) es = some u) {title : String}
    (hother : ¬ OpenedForOther dist isEqual title
      (initialSearchMap searchDistance signedIn searches) es) : u.listDetailVC.list = none := by
  by_contra hlist
  exact hother (openedForOther_of_list hrun hlist title)

/-- The title label was set by the first block since the panel was closed last. -/
theorem titleText_since (hrun : Machine.run (searchStep dist isEqual)
      (initialSearchMap searchDistance signedIn searches) es = some u) {label : String}
    (hlabel : u.listDetailVC.titleText = some label) :
    Machine.Since (searchStep dist isEqual)
      (fun u e => ∃ i block, e = .detailBlock i ∧ u.detailBlocks[i]? = some block ∧
        u.listDetailVC.titleText = none ∧
        (getDetailFcp u block).listDetailVC.titleText = some label)
      (· = .removeDetailFpc) (initialSearchMap searchDistance signedIn searches) es := by
  refine Machine.since_of_run (P := fun u => u.listDetailVC.titleText = some label)
    (fun u e t ht hlabel => ?_) (by simp [initialSearchMap, newListDetailVC]) hrun hlabel
  rw [(searchStep_fields ht).2.2.1] at hlabel
  cases e with
  | detailBlock i =>
    obtain ⟨block, hblock, -⟩ := Option.bind_eq_some_iff.mp ht
    simp only [panelAfter, hblock] at hlabel
    cases hold : u.listDetailVC.titleText with
    | none => exact .inl ⟨i, block, rfl, hblock, rfl, hlabel⟩
    | some old =>
      -- a label that is set stays
      have hsame : (getDetailFcp u block).listDetailVC.titleText = some old := by
        cases block with
        | search answer places => rw [titleText_search, hold, Option.getD_some]
        | savedList list places => rw [(panel_savedList u list places).2, hold, Option.getD_some]
      exact .inr ⟨hsame.symm.trans hlabel, nofun⟩
  | removeDetailFpc => cases hlabel
  | startSearch | tappedList | response | failure | listReply | recordBlock =>
    exact .inr ⟨hlabel, nofun⟩

/-- Until it is closed the panel keeps its list and its label. -/
theorem panel_kept {m : SearchMap} (hrun : Machine.run (searchStep dist isEqual) m es = some u)
    (hopen : ∀ e ∈ es, ¬ e = .removeDetailFpc) :
    (m.listDetailVC.list ≠ none → u.listDetailVC.list ≠ none) ∧
      ∀ label, m.listDetailVC.titleText = some label → u.listDetailVC.titleText = some label := by
  have hstays : Machine.Meets (searchStep dist isEqual) (fun _ e => ¬ e = .removeDetailFpc) m es :=
    Machine.meets_of_forall fun e he _ => hopen e he
  refine Machine.run_invariant (I := fun v =>
      (m.listDetailVC.list ≠ none → v.listDetailVC.list ≠ none) ∧
        ∀ label, m.listDetailVC.titleText = some label → v.listDetailVC.titleText = some label)
    ?_ ⟨id, fun _ => id⟩ hstays hrun
  rintro v e t ⟨hlist, hlabel⟩ hstay ht
  rw [(searchStep_fields ht).2.2.1]
  cases e with
  | detailBlock i =>
    obtain ⟨block, hblock, -⟩ := Option.bind_eq_some_iff.mp ht
    simp only [panelAfter, hblock]
    cases block with
    | search answer places =>
      rw [list_search, titleText_search]
      exact ⟨hlist, fun label h => by rw [hlabel label h, Option.getD_some]⟩
    | savedList list places =>
      obtain ⟨hset, htitle⟩ := panel_savedList v list places
      rw [hset, htitle]
      exact ⟨fun _ => Option.some_ne_none list,
        fun label h => by rw [hlabel label h, Option.getD_some]⟩
  | removeDetailFpc => exact absurd rfl hstay
  | startSearch | tappedList | response | failure | listReply | recordBlock =>
    exact ⟨hlist, hlabel⟩

theorem not_idle_of_detailBlock {i : Nat} {answer : Answer} {places : List Place}
    (h : u.detailBlocks[i]? = some (.search answer places)) : ¬ Idle u :=
  fun hidle => hidle.detailBlocks answer places (List.mem_of_getElem? h)

theorem not_idle_of_recordBlock {i : Nat} {answer : Answer}
    (h : u.recordBlocks[i]? = some answer) : ¬ Idle u := by
  intro hidle
  rw [hidle.recordBlocks] at h
  cases h

/-- In a run whose order keeps queries apart, what each step reads is its own query's. -/
theorem undisturbed_of_order
    (horder : OrderKeepsApart dist isEqual (initialSearchMap searchDistance signedIn searches) es) :
    Machine.Meets (searchStep dist isEqual) Undisturbed
      (initialSearchMap searchDistance signedIn searches) es := by
  rw [Machine.meets_iff_split]
  intro before e after u heq hu
  have hapart := horder before e after u heq hu
  cases e with
  | response i mapItems location =>
    intro hsome object hin
    exact hapart hsome object (returnedSince_of_mem hu hin)
  | detailBlock i =>
    intro answer places hblock
    obtain ⟨hlast, hother⟩ := hapart answer places hblock
    have htitle := (startedLast_iff hu (not_idle_of_detailBlock hblock) _).mp hlast
    refine ⟨htitle, list_of_not_openedForOther hu hother, ?_⟩
    cases hlabel : u.listDetailVC.titleText with
    | none => exact .inl rfl
    | some label =>
      -- the first block since the last closing set the label, with the title of its search
      obtain ⟨before', f, after', v, heq', hv, ⟨j, block, rfl, hblock', hnone, hset⟩, hopen⟩ :=
        titleText_since hu hlabel
      have hsame : ∃ answer' places', block = .search answer' places' ∧
          answer'.title = answer.title := by
        by_contra hnot
        refine hother ⟨before', _, after', v, heq', hv, ⟨j, block, rfl, hblock', ?_⟩, hopen⟩
        exact fun answer' places' h htitle' => hnot ⟨answer', places', h, htitle'⟩
      obtain ⟨answer', places', rfl, hsame⟩ := hsame
      have hrest : es = before' ++ .detailBlock j :: (after' ++ .detailBlock i :: after) := by
        rw [heq, heq', List.append_assoc, List.cons_append]
      obtain ⟨hlast', hother'⟩ := horder before' _ _ v hrest hv answer' places' hblock'
      have htitle' := (startedLast_iff hv (not_idle_of_detailBlock hblock') _).mp hlast'
      rw [titleText_own htitle' (list_of_not_openedForOther hv hother'), hnone,
        Option.getD_none] at hset
      exact .inr (hset.symm.trans (congrArg some hsame))
  | recordBlock i =>
    intro answer hanswer hin
    exact (startedLast_iff hu (not_idle_of_recordBlock hanswer) _).mp (hapart answer hanswer hin)
  | startSearch | tappedList | failure | listReply | removeDetailFpc => exact trivial

/-- When equal items have equal parts, only such an order keeps them undisturbed. -/
theorem order_of_undisturbed (hequal : ∀ a b, isEqual a b = true → a.item = b.item)
    (hmeets : Machine.Meets (searchStep dist isEqual) Undisturbed
      (initialSearchMap searchDistance signedIn searches) es) :
    OrderKeepsApart dist isEqual (initialSearchMap searchDistance signedIn searches) es := by
  have hsplit := Machine.meets_iff_split.mp hmeets
  intro before e after u heq hu
  have hundisturbed := hsplit before e after u heq hu
  cases e with
  | response i mapItems location =>
    intro hsome object hsince
    obtain ⟨y, hy, hitem⟩ := mem_of_returnedSince hequal hu hsince
    rw [← hitem]
    exact hundisturbed hsome y hy
  | detailBlock i =>
    intro answer places hblock
    obtain ⟨htitle, hlist, hlabel⟩ := hundisturbed answer places hblock
    refine ⟨(startedLast_iff hu (not_idle_of_detailBlock hblock) _).mpr htitle, ?_⟩
    rintro ⟨before', f, after', v, rfl, hv, ⟨j, block, rfl, hblock', hother⟩, hopen⟩
    obtain ⟨w, hw, hrest⟩ : ∃ w, searchStep dist isEqual v (.detailBlock j) = some w ∧
        Machine.run (searchStep dist isEqual) w after' = some u := by
      rw [Machine.run_append, hv, Option.bind_some] at hu
      exact Machine.run_cons.mp hu
    obtain ⟨hkeptList, hkeptLabel⟩ := panel_kept hrest hopen
    have hpanel : w.listDetailVC = (getDetailFcp v block).listDetailVC := by
      rw [(searchStep_fields hw).2.2.1]
      simp only [panelAfter, hblock']
    cases block with
    | savedList list places' =>
      refine hkeptList ?_ hlist
      rw [hpanel, (panel_savedList v list places').1]
      exact Option.some_ne_none list
    | search answer' places' =>
      have heq' : es = before' ++ .detailBlock j :: (after' ++ .detailBlock i :: after) := by
        rw [heq, List.append_assoc, List.cons_append]
      obtain ⟨htitle', hlist', hlabel'⟩ := hsplit before' _ _ v heq' hv answer' places' hblock'
      have hset : w.listDetailVC.titleText = some answer'.title := by
        rw [hpanel, titleText_own htitle' hlist']
        rcases hlabel' with hnone | hsome
        · rw [hnone, Option.getD_none]
        · rw [hsome, Option.getD_some]
      have hkept := hkeptLabel answer'.title hset
      refine hother answer' places' rfl ?_
      rcases hlabel with hnone | hsome
      · cases hkept.symm.trans hnone
      · exact Option.some.inj (hkept.symm.trans hsome)
  | recordBlock i =>
    intro answer hanswer hin
    exact (startedLast_iff hu (not_idle_of_recordBlock hanswer) _).mpr
      (hundisturbed answer hanswer hin)
  | startSearch | tappedList | failure | listReply | removeDetailFpc => exact trivial

end

end SearchLemmas

/-- One search from start to panel and record. -/
def exOneSearch : List SearchEvent :=
  [.startSearch "Food" (some ⟨0, 0⟩), .response 0 [⟨0, exItem "A" ⟨1/1000, 0⟩⟩] none, .detailBlock 0,
    .recordBlock 0]

/-- The same search, answered after another one has started. -/
def exOvertaken : List SearchEvent :=
  [.startSearch "Food" (some ⟨0, 0⟩), .startSearch "Gas" (some ⟨0, 0⟩),
    .response 0 [⟨0, exItem "A" ⟨1/1000, 0⟩⟩] none, .detailBlock 0, .recordBlock 0]

def exSameObject (a b : MapItemObject) : Bool := a.ref == b.ref

/-- Equal objects have equal parts. -/
def exEqualObject (a b : MapItemObject) : Bool := a == b

end LocateMe
