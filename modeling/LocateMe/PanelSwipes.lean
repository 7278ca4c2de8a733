import LocateMe.ListTitles
import LocateMe.LocalSearch

/-!
# Swipes in the shared panel

A row of the panel that searches and saved lists share can be swiped out when
`listDetailVC` has a list. The completion block of a search leaves the list of an earlier
tap where it is, so that its rows are swiped out of that list, although no search result
has a document. The searches here are those without a trace, and the rows those that have
a place: `getDetailFcp` does not reload the table, so that it can show more of them.

Results:
1. `rowsKept_panelSwipeStep`: the rows are all saved or all from a search.
2. `mixed_panelSwipeStep`: when the list and the rows stop and start to belong together.
3. `panel_swipe_iff`: after which runs a swipe traps, and what it acts on otherwise.
-/

namespace LocateMe

open TitleLemmas

/-! ## 1. Swipes -/

/-- An event of the map, or `tableView(_:commit:forRowAt:)` of the panel. -/
inductive PanelSwipeEvent
  | search (e : SearchEvent)
  | commit (row : Nat)
deriving DecidableEq

/-- The requests of a swipe trap: the place has no document, or the query that a swipe in
"Recently Saved" makes has no title or more than ten. -/
def SwipeTraps (list : PlaceList) (place : Place) : Prop :=
  place.dbId = none ∨ list.id = none ∧ (place.list = [] ∨ 10 < place.list.length)

/-- `resetListTable`. -/
def ListDetailVC.resetListTable (vc : ListDetailVC) (row : Nat) : ListDetailVC :=
  { vc with places := vc.places.eraseIdx row }

section

variable (dist : Coordinate → Coordinate → Rat) (isEqual : MapItemObject → MapItemObject → Bool)
  (s : UserStore)

/-- One event. There is no next state after a trap, such as that of `places?[row]` for a
row without a place. -/
def panelSwipeStep (m : SearchMap) : PanelSwipeEvent → Option SearchMap
  | .search e => searchStep dist isEqual m e
  | .commit row => do
    let place ← m.listDetailVC.places[row]?
    match m.listDetailVC.list with
    | none => some m
    | some list =>
      if (commitDelete s list place).trapped then none
      else some { m with listDetailVC := m.listDetailVC.resetListTable row }

end

/-- Lists that are tapped and places that come with a reply have documents. -/
def FromStore (_ : SearchMap) : PanelSwipeEvent → Prop
  | .search (.tappedList list) => list.id ≠ none
  | .search (.listReply _ allPlaces) => ∀ place ∈ allPlaces, place.dbId ≠ none
  | _ => True

instance (m : SearchMap) : DecidablePred (FromStore m)
  | .search (.tappedList list) => inferInstanceAs (Decidable (list.id ≠ none))
  | .search (.listReply _ allPlaces) =>
    inferInstanceAs (Decidable (∀ place ∈ allPlaces, place.dbId ≠ none))
  | .search (.startSearch _ _) => .isTrue trivial
  | .search (.response _ _ _) => .isTrue trivial
  | .search (.failure _) => .isTrue trivial
  | .search (.detailBlock _) => .isTrue trivial
  | .search (.recordBlock _) => .isTrue trivial
  | .search .removeDetailFpc => .isTrue trivial
  | .commit _ => .isTrue trivial

/-! ## 2. Whose rows are shown -/

/-- The block of a search fills a panel that has a list. -/
def MixesRows (m : SearchMap) : PanelSwipeEvent → Prop
  | .search (.detailBlock i) => m.listDetailVC.list ≠ none ∧
    ∃ answer places, m.detailBlocks[i]? = some (.search answer places) ∧ places ≠ []
  | _ => False

/-- The panel is closed, or filled with a saved list or with no rows. -/
def ClearsRows (m : SearchMap) : PanelSwipeEvent → Prop
  | .search (.detailBlock i) =>
    (∃ list places, m.detailBlocks[i]? = some (.savedList list places)) ∨
      ∃ answer, m.detailBlocks[i]? = some (.search answer [])
  | .search .removeDetailFpc => True
  | _ => False

/-- The rows and the list of the panel do not belong together. -/
def SearchMap.Mixed (m : SearchMap) : Prop :=
  m.listDetailVC.list ≠ none ∧ ∃ place ∈ m.listDetailVC.places, place.dbId = none

/-- What is to be shown: search results without documents, or places of the store. -/
def DetailBlock.Sorted : DetailBlock → Prop
  | .search _ places => ∀ place ∈ places, place.dbId = none
  | .savedList list places => list.id ≠ none ∧ ∀ place ∈ places, place.dbId ≠ none

/-- What every run keeps whose replies come from the store. -/
structure RowsKept (m : SearchMap) : Prop where
  blocks : ∀ block ∈ m.detailBlocks, block.Sorted
  requests : ∀ list ∈ m.listRequests, list.id ≠ none
  list : ∀ list, m.listDetailVC.list = some list → list.id ≠ none
  rows : (∀ place ∈ m.listDetailVC.places, place.dbId = none) ∨
    ∀ place ∈ m.listDetailVC.places, place.dbId ≠ none

namespace PanelSwipeLemmas

theorem loadViewIfNeeded_fields (vc : ListDetailVC) :
    vc.loadViewIfNeeded.list = vc.list ∧ vc.loadViewIfNeeded.places = vc.places := by
  unfold ListDetailVC.loadViewIfNeeded
  split <;> exact ⟨rfl, rfl⟩

/-- What the completion block of `getDetailFcp` fills the panel with. -/
theorem getDetailFcp_search (m : SearchMap) (answer : Answer) (places : List Place) :
    (getDetailFcp m (.search answer places)).listDetailVC.list = m.listDetailVC.list ∧
      (getDetailFcp m (.search answer places)).listDetailVC.places = places :=
  loadViewIfNeeded_fields _

theorem getDetailFcp_savedList (m : SearchMap) (list : PlaceList) (places : List Place) :
    (getDetailFcp m (.savedList list places)).listDetailVC.list = some list ∧
      (getDetailFcp m (.savedList list places)).listDetailVC.places = places :=
  loadViewIfNeeded_fields _

theorem getDetailFcp_blocks (m : SearchMap) (block : DetailBlock) :
    (getDetailFcp m block).detailBlocks = m.detailBlocks ∧
      (getDetailFcp m block).listRequests = m.listRequests := by
  cases block <;> exact ⟨rfl, rfl⟩

theorem addSearchToDb_fields (m : SearchMap) (answer : Answer) :
    (addSearchToDb m answer).detailBlocks = m.detailBlocks ∧
      (addSearchToDb m answer).listRequests = m.listRequests ∧
      (addSearchToDb m answer).listDetailVC = m.listDetailVC := by
  unfold addSearchToDb
  split
  · dsimp only
    split <;> exact ⟨rfl, rfl, rfl⟩
  · exact ⟨rfl, rfl, rfl⟩

theorem rowsKept_of_fields {m t : SearchMap} (hm : RowsKept m)
    (hblocks : t.detailBlocks = m.detailBlocks) (hrequests : t.listRequests = m.listRequests)
    (hvc : t.listDetailVC = m.listDetailVC) : RowsKept t := by
  constructor
  · rw [hblocks]
    exact hm.blocks
  · rw [hrequests]
    exact hm.requests
  · rw [hvc]
    exact hm.list
  · rw [hvc]
    exact hm.rows

theorem trapped_write {path : Option Nat} {request : Nat → Write} :
    (Issued.write path request).trapped = false ↔ path ≠ none := by
  cases path <;> simp [Issued.write, Issued.trap]

theorem trapped_removePlaceFromAllList {s : UserStore} {placeId : Int} {listTitle : List String} :
    (removePlaceFromAllList s placeId listTitle).trapped = false ↔
      ¬ (listTitle = [] ∨ 10 < listTitle.length) := by
  unfold removePlaceFromAllList
  split
  · next htitles => simp [Issued.trap, htitles]
  · next htitles =>
    refine iff_of_true (Issued.forEach_trapped.mpr fun l _ => ?_) htitles
    exact trapped_write.mpr (Option.some_ne_none l)

theorem trapped_commitDelete {s : UserStore} {list : PlaceList} {place : Place} :
    (commitDelete s list place).trapped = false ↔ ¬ SwipeTraps list place := by
  unfold commitDelete SwipeTraps
  cases hid : list.id with
  | none =>
    dsimp only
    rw [Issued.andThen_trapped, trapped_removePlaceFromAllList, deletePlace, trapped_write]
    tauto
  | some l =>
    dsimp only
    rw [Issued.andThen_trapped, removePlaceFromList, trapped_write, trapped_removeListOf]
    simp

section

variable {dist : Coordinate → Coordinate → Rat} {isEqual : MapItemObject → MapItemObject → Bool}
  {s : UserStore} {m t : SearchMap}

/-- What a swipe does: nothing, or it takes the row of a place with a document away. -/
theorem commit_cases {row : Nat}
    (h : panelSwipeStep dist isEqual s m (.commit row) = some t) :
    t = m ∨ ∃ list place, m.listDetailVC.places[row]? = some place ∧
      m.listDetailVC.list = some list ∧ place.dbId ≠ none ∧
        t = { m with listDetailVC := m.listDetailVC.resetListTable row } := by
  obtain ⟨place, hplace, h⟩ := Option.bind_eq_some_iff.mp h
  split at h
  · exact .inl (Option.some.inj h).symm
  · next list hlist =>
    obtain ⟨htrapped, heq⟩ := Option.ite_none_left_eq_some.mp h
    have hsafe := trapped_commitDelete.mp (Bool.eq_false_iff.mpr htrapped)
    exact .inr ⟨list, place, hplace, hlist, fun hdb => hsafe (.inl hdb),
      (Option.some.inj heq).symm⟩

theorem rowsKept_panelSwipeStep {e : PanelSwipeEvent} (hm : RowsKept m) (he : FromStore m e)
    (h : panelSwipeStep dist isEqual s m e = some t) : RowsKept t := by
  cases e with
  | commit row =>
    rcases commit_cases h with rfl | ⟨list, place, -, -, -, rfl⟩
    · exact hm
    · refine ⟨hm.blocks, hm.requests, hm.list,
        hm.rows.imp (fun hall p hp => ?_) fun hall p hp => ?_⟩
      · exact hall p (List.mem_of_mem_eraseIdx hp)
      · exact hall p (List.mem_of_mem_eraseIdx hp)
  | search e =>
    cases e with
    | startSearch text location =>
      obtain rfl := Option.some.inj h
      exact ⟨hm.blocks, hm.requests, hm.list, hm.rows⟩
    | tappedList list =>
      obtain rfl := Option.some.inj h
      split
      · refine ⟨hm.blocks, fun other hother => ?_, hm.list, hm.rows⟩
        rcases List.mem_append.mp hother with hother | hother
        · exact hm.requests other hother
        · exact List.mem_singleton.mp hother ▸ he
      · exact hm
    | response i mapItems location =>
      obtain ⟨query, -, heq⟩ := Option.bind_eq_some_iff.mp h
      obtain rfl := Option.some.inj heq
      refine ⟨fun block hblock => ?_, hm.requests, hm.list, hm.rows⟩
      rcases List.mem_append.mp hblock with hblock | hblock
      · exact hm.blocks block hblock
      · -- search results have no documents
        obtain rfl := List.mem_singleton.mp hblock
        intro place hplace
        obtain ⟨item, -, rfl⟩ := List.mem_map.mp hplace
        rfl
    | failure i =>
      obtain ⟨query, -, heq⟩ := Option.bind_eq_some_iff.mp h
      obtain rfl := Option.some.inj heq
      exact ⟨hm.blocks, hm.requests, hm.list, hm.rows⟩
    | listReply i allPlaces =>
      obtain ⟨list, hlist, heq⟩ := Option.bind_eq_some_iff.mp h
      obtain rfl := Option.some.inj heq
      refine ⟨fun block hblock => ?_,
        fun other hother => hm.requests other (List.mem_of_mem_eraseIdx hother), hm.list, hm.rows⟩
      rcases List.mem_append.mp hblock with hblock | hblock
      · exact hm.blocks block hblock
      · obtain rfl := List.mem_singleton.mp hblock
        exact ⟨hm.requests list (List.mem_of_getElem? hlist), he⟩
    | detailBlock i =>
      obtain ⟨block, hblock, heq⟩ := Option.bind_eq_some_iff.mp h
      obtain rfl := Option.some.inj heq
      have hsorted := hm.blocks block (List.mem_of_getElem? hblock)
      obtain ⟨hblocks, hrequests⟩ :=
        getDetailFcp_blocks { m with detailBlocks := m.detailBlocks.eraseIdx i } block
      refine ⟨fun other hother => ?_, fun other hother => ?_, ?_, ?_⟩
      · rw [hblocks] at hother
        exact hm.blocks other (List.mem_of_mem_eraseIdx hother)
      · rw [hrequests] at hother
        exact hm.requests other hother
      · cases block with
        | search answer places =>
          rw [(getDetailFcp_search _ answer places).1]
          exact hm.list
        | savedList list places =>
          rw [(getDetailFcp_savedList _ list places).1]
          rintro other hother
          exact Option.some.inj hother ▸ hsorted.1
      · cases block with
        | search answer places =>
          rw [(getDetailFcp_search _ answer places).2]
          exact .inl hsorted
        | savedList list places =>
          rw [(getDetailFcp_savedList _ list places).2]
          exact .inr hsorted.2
    | recordBlock i =>
      obtain ⟨answer, -, heq⟩ := Option.bind_eq_some_iff.mp h
      obtain rfl := Option.some.inj heq
      obtain ⟨hblocks, hrequests, hvc⟩ :=
        addSearchToDb_fields { m with recordBlocks := m.recordBlocks.eraseIdx i } answer
      exact rowsKept_of_fields hm hblocks hrequests hvc
    | removeDetailFpc =>
      obtain rfl := Option.some.inj h
      exact ⟨hm.blocks, hm.requests, by simp [newListDetailVC], .inl (by simp [newListDetailVC])⟩

/-- When the rows and the list do not belong together after an event. -/
theorem mixed_panelSwipeStep {e : PanelSwipeEvent} (hm : RowsKept m)
    (h : panelSwipeStep dist isEqual s m e = some t) :
    t.Mixed ↔ MixesRows m e ∨ m.Mixed ∧ ¬ ClearsRows m e := by
  -- most events leave the panel as it is
  have hsame (hvc : t.listDetailVC = m.listDetailVC) (hmix : ¬ MixesRows m e)
      (hclear : ¬ ClearsRows m e) : t.Mixed ↔ MixesRows m e ∨ m.Mixed ∧ ¬ ClearsRows m e := by
    rw [SearchMap.Mixed, hvc]
    exact ⟨fun hm => .inr ⟨hm, hclear⟩, fun h => (h.resolve_left hmix).1⟩
  cases e with
  | commit row =>
    rcases commit_cases h with rfl | ⟨list, place, hplace, -, hdb, rfl⟩
    · simp [MixesRows, ClearsRows]
    · -- the rows of a place with a document all have one
      have hall : ∀ p ∈ m.listDetailVC.places, p.dbId ≠ none :=
        hm.rows.resolve_left fun hnone => hdb (hnone place (List.mem_of_getElem? hplace))
      refine iff_of_false ?_ ?_
      · rintro ⟨-, p, hp, hnone⟩
        exact hall p (List.mem_of_mem_eraseIdx hp) hnone
      · rintro (hmix | ⟨⟨-, p, hp, hnone⟩, -⟩)
        · exact hmix
        · exact hall p hp hnone
  | search e =>
    cases e with
    | detailBlock i =>
      obtain ⟨block, hblock, heq⟩ := Option.bind_eq_some_iff.mp h
      obtain rfl := Option.some.inj heq
      have hsorted := hm.blocks block (List.mem_of_getElem? hblock)
      simp only [SearchMap.Mixed, MixesRows, ClearsRows, hblock]
      cases block with
      | search answer places =>
        obtain ⟨hlist, hplaces⟩ := getDetailFcp_search
          { m with detailBlocks := m.detailBlocks.eraseIdx i } answer places
        rw [hlist, hplaces]
        cases places with
        | nil => simp
        | cons place places =>
          have hnone : place.dbId = none := hsorted place List.mem_cons_self
          constructor
          · rintro ⟨hset, -⟩
            exact .inl ⟨hset, answer, _, rfl, List.cons_ne_nil _ _⟩
          · intro hmix
            have hset : m.listDetailVC.list ≠ none := hmix.elim And.left fun hmix => hmix.1.1
            exact ⟨hset, place, List.mem_cons_self, hnone⟩
      | savedList list places =>
        obtain ⟨-, hplaces⟩ := getDetailFcp_savedList
          { m with detailBlocks := m.detailBlocks.eraseIdx i } list places
        rw [hplaces]
        refine iff_of_false ?_ ?_
        · rintro ⟨-, p, hp, hnone⟩
          exact hsorted.2 p hp hnone
        · rintro (⟨-, answer, places, heq, -⟩ | ⟨-, hnot⟩)
          · cases heq
          · exact hnot (.inl ⟨list, places, rfl⟩)
    | startSearch text location =>
      obtain rfl := Option.some.inj h
      exact hsame rfl id id
    | tappedList list =>
      obtain rfl := Option.some.inj h
      exact hsame (by split <;> rfl) id id
    | response i mapItems location =>
      obtain ⟨query, -, heq⟩ := Option.bind_eq_some_iff.mp h
      obtain rfl := Option.some.inj heq
      exact hsame rfl id id
    | failure i =>
      obtain ⟨query, -, heq⟩ := Option.bind_eq_some_iff.mp h
      obtain rfl := Option.some.inj heq
      exact hsame rfl id id
    | listReply i allPlaces =>
      obtain ⟨list, -, heq⟩ := Option.bind_eq_some_iff.mp h
      obtain rfl := Option.some.inj heq
      exact hsame rfl id id
    | recordBlock i =>
      obtain ⟨answer, -, heq⟩ := Option.bind_eq_some_iff.mp h
      obtain rfl := Option.some.inj heq
      exact hsame (addSearchToDb_fields _ answer).2.2 id id
    | removeDetailFpc =>
      obtain rfl := Option.some.inj h
      simp [SearchMap.Mixed, MixesRows, ClearsRows, newListDetailVC]

theorem rowsKept_initial (searchDistance : Rat) (signedIn : Bool) (searches : List Search) :
    RowsKept (initialSearchMap searchDistance signedIn searches) := by
  refine ⟨fun _ h => ?_, fun _ h => ?_, fun _ h => ?_, .inl fun _ h => ?_⟩ <;> cases h

/-- A swipe traps iff the rows and the list do not belong together. -/
theorem commit_eq_none_iff {row : Nat} {place : Place} (hm : RowsKept m)
    (hplace : m.listDetailVC.places[row]? = some place) :
    panelSwipeStep dist isEqual s m (.commit row) = none ↔ m.Mixed := by
  cases hlist : m.listDetailVC.list with
  | none =>
    simp [panelSwipeStep, hplace, SearchMap.Mixed, hlist]
  | some list =>
    have hmixed : m.Mixed ↔ place.dbId = none := by
      rw [SearchMap.Mixed, hlist]
      refine ⟨fun ⟨_, p, hp, hnone⟩ => ?_, fun hnone => ?_⟩
      · -- one row without a document: no row has one
        rcases hm.rows with hall | hall
        · exact hall place (List.mem_of_getElem? hplace)
        · exact absurd hnone (hall p hp)
      · exact ⟨Option.some_ne_none list, place, List.mem_of_getElem? hplace, hnone⟩
    have htraps : SwipeTraps list place ↔ place.dbId = none := by
      simp [SwipeTraps, hm.list list hlist]
    rw [hmixed, ← htraps, ← not_iff_not, ← trapped_commitDelete (s := s)]
    simp [panelSwipeStep, hplace, hlist]

end

end PanelSwipeLemmas

open PanelSwipeLemmas

/-! ## 3. Runs -/

/-- After a run without traced searches and with replies from the store, the swipe of a
row that has a place traps iff the block of a search has filled a panel that still had a
list, and the panel has neither been closed nor filled by a saved list or by a search
without results since. -/
theorem panel_swipe_iff (dist : Coordinate → Coordinate → Rat)
    (isEqual : MapItemObject → MapItemObject → Bool) (s : UserStore) (searchDistance : Rat)
    (signedIn : Bool) (searches : List Search) (es : List PanelSwipeEvent) (m : SearchMap)
    (hrun : Machine.run (panelSwipeStep dist isEqual s)
      (initialSearchMap searchDistance signedIn searches) es = some m)
    (hstore : Machine.Meets (panelSwipeStep dist isEqual s) FromStore
      (initialSearchMap searchDistance signedIn searches) es)
    (row : Nat) (hrow : row < m.listDetailVC.places.length) :
    panelSwipeStep dist isEqual s m (.commit row) = none ↔
      Machine.Lasting (panelSwipeStep dist isEqual s) MixesRows ClearsRows
        (initialSearchMap searchDistance signedIn searches) es := by
  have hinitial := rowsKept_initial searchDistance signedIn searches
  have hm : RowsKept m :=
    Machine.run_invariant (fun _ _ _ => rowsKept_panelSwipeStep) hinitial hstore hrun
  rw [commit_eq_none_iff hm (List.getElem?_eq_getElem hrow)]
  exact Machine.run_lasting (J := RowsKept) (fun _ _ _ => rowsKept_panelSwipeStep)
    (fun _ _ _ => mixed_panelSwipeStep) hinitial (fun h => h.1 rfl) hstore hrun

def exTrips : PlaceList := ⟨"Trips", some 0, "star", .lightRed, [], 0⟩

def exTripPlace : Place :=
  { createPlaceitems groundDistance "Food" none (exItem "B" ⟨0, 0⟩) with
    dbId := some 0, list := ["Trips"] }

/-- A saved list with one place is tapped and shown, then a search with one result is. -/
def exSearchAfterList : List PanelSwipeEvent :=
  [.search (.tappedList exTrips), .search (.listReply 0 [exTripPlace]), .search (.detailBlock 0),
    .search (.startSearch "Food" (some ⟨0, 0⟩)),
    .search (.response 0 [⟨0, exItem "A" ⟨1/1000, 0⟩⟩] none), .search (.detailBlock 0)]

theorem panel_swipe_iff_after_list : ∃ m,
    Machine.run (panelSwipeStep groundDistance exSameObject .empty) (initialSearchMap 1000 true [])
      exSearchAfterList = some m ∧
    (panelSwipeStep groundDistance exSameObject .empty m (.commit 0) = none ↔
      Machine.Lasting (panelSwipeStep groundDistance exSameObject .empty) MixesRows ClearsRows
        (initialSearchMap 1000 true []) exSearchAfterList) := by
  have hrow : ∃ m, Machine.run (panelSwipeStep groundDistance exSameObject .empty)
      (initialSearchMap 1000 true []) exSearchAfterList = some m ∧
        0 < m.listDetailVC.places.length := by
    have hsome : ((Machine.run (panelSwipeStep groundDistance exSameObject .empty)
        (initialSearchMap 1000 true []) exSearchAfterList).any
          (0 < ·.listDetailVC.places.length)) = true := by decide +kernel
    simpa using (Option.any_eq_true _ _).mp hsome
  obtain ⟨m, hrun, hlt⟩ := hrow
  have hstore : Machine.Meets (panelSwipeStep groundDistance exSameObject .empty) FromStore
      (initialSearchMap 1000 true []) exSearchAfterList := by decide +kernel
  exact ⟨m, hrun, panel_swipe_iff _ _ .empty 1000 true [] _ m hrun hstore 0 hlt⟩

end LocateMe
