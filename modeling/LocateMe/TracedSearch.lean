import LocateMe.Lib.Machine
import LocateMe.Lib.DispatchGroup
import LocateMe.MapItems
import LocateMe.Trace

/-!
# The responses of a traced search

`searchCoordinates` sends one request for each centre, enters the dispatch
group once and registers the block that opens the panel. `searching` handles
one response: it filters the items against the annotations that are on the map
when it starts, adds those in range, and leaves the group when the response is
that of the last centre. A run is an order in which the responses are handled.

Results:
1. `panel_opens_complete_iff`: the panel opens once and complete exactly when
   the group was balanced and the last centre is handled last.
2. `results_exact_iff`: every place is kept exactly once iff the first response
   that puts anything at its coordinate lists it once.
-/

namespace LocateMe

/-! ## 1. The search and its handlers -/

/-- A `CLLocation` of `allLoc`. `==` on it is object identity, so an object has
a reference of its own. -/
structure Centre where
  ref : Nat
  coordinate : Coordinate
deriving DecidableEq

/-- A call of `getDetailFcp` for a traced search: its places, and how many
responses of the search were handled by then. -/
structure DetailCall where
  places : List Place
  handled : Nat
deriving DecidableEq

/-- The fields of `MapController` that a traced search uses. `annotations` are
the coordinates of the place annotations; `handled` and `detailCalls` are the
log. -/
structure TracedMap where
  searchText : String
  searchDistance : Rat
  matchingPlaces : List Place
  annotations : List Coordinate
  allLoc : List Centre
  nextRef : Nat
  group : DispatchGroup
  handled : Nat
  detailCalls : List DetailCall

/-- The handling of a response: which centre's it is, and what the phone says
at that moment. The annotation of the user's own location is one of
`myMap.annotations`, and `removeAnnotations` does not remove it. -/
structure Handling where
  centre : Centre
  userAnnotation : Option Coordinate
  location : Option Coordinate

/-- The calls that the `notify` blocks make when `fired` of them run. -/
def TracedMap.getDetailFcp (m : TracedMap) (fired : Nat) : List DetailCall :=
  m.detailCalls ++ List.replicate fired ⟨m.matchingPlaces, m.handled⟩

/-- `searchCoordinates`. -/
def searchCoordinates (m : TracedMap) : TracedMap :=
  { m with
    group := m.group.enter.notify.1
    detailCalls := m.getDetailFcp m.group.enter.notify.2 }

/-- The part of `searchItems` for a trace, from the centres that its loop
picks: clear the places and the annotations, make the locations, and search. -/
def startTracedSearch (m : TracedMap) (matchedCoordinates : List Coordinate) : TracedMap :=
  searchCoordinates { m with
    matchingPlaces := []
    annotations := []
    allLoc := matchedCoordinates.mapIdx fun i c => ⟨m.nextRef + i, c⟩
    nextRef := m.nextRef + matchedCoordinates.length
    handled := 0 }

/-- `addSinglePinToMap`. -/
def addSinglePinToMap (m : TracedMap) (place : Place) : TracedMap :=
  { m with
    annotations := m.annotations ++ [place.coordinate]
    matchingPlaces := m.matchingPlaces ++ [place] }

section

variable (dist : Coordinate → Coordinate → Rat) (answer : Centre → List MapItem)

/-- The loop of `searching` over the items that the snapshot of the annotations
lets through. -/
def addMapItems (m : TracedMap) (h : Handling) : TracedMap :=
  let coordinates := h.userAnnotation.toList ++ m.annotations
  let items := (answer h.centre).filter (·.placemark.coordinate ∉ coordinates)
  items.foldl (fun m item =>
    if dist h.centre.coordinate item.placemark.coordinate ≤ m.searchDistance then
      addSinglePinToMap m (createPlaceitems dist m.searchText h.location item)
    else m) m

/-- `searching(fromCoordinates: true)`: the handler of one response. `none` is
the crash of an unbalanced `leave`. The `notify` block runs within the `leave`
that brings the count to zero, where the app queues it on the main queue. -/
def searchingFromCoordinates (m : TracedMap) (h : Handling) : Option TracedMap :=
  let m := { addMapItems dist answer m h with handled := m.handled + 1 }
  if some h.centre.ref = m.allLoc.getLast?.map Centre.ref then
    m.group.leave.map fun (group, fired) =>
      { m with group := group, detailCalls := m.getDetailFcp fired }
  else some m

/-- The responses of a search are handled in the given order. -/
def handleAll : TracedMap → List Handling → Option TracedMap :=
  Machine.run (searchingFromCoordinates dist answer)

/-- `handlings` handles one response of every centre of the search. -/
def IsOrder (m : TracedMap) (handlings : List Handling) : Prop :=
  (handlings.map Handling.centre).Perm m.allLoc

/-! ## 2. What one response adds -/

/-- The items of a response that become places. -/
def acceptedItems (m : TracedMap) (h : Handling) : List MapItem :=
  (answer h.centre).filter fun item =>
    item.placemark.coordinate ∉ h.userAnnotation.toList ++ m.annotations ∧
      dist h.centre.coordinate item.placemark.coordinate ≤ m.searchDistance

/-- The places that a response adds. -/
def addedPlaces (m : TracedMap) (h : Handling) : List Place :=
  (acceptedItems dist answer m h).map (createPlaceitems dist m.searchText h.location)

end

namespace TracedLemmas

theorem addPins_eq {dist : Coordinate → Coordinate → Rat} {m : TracedMap} {here : Coordinate}
    {location : Option Coordinate} {items : List MapItem} :
    items.foldl (fun m item =>
      if dist here item.placemark.coordinate ≤ m.searchDistance then
        addSinglePinToMap m (createPlaceitems dist m.searchText location item)
      else m) m =
    let kept := items.filter fun item => dist here item.placemark.coordinate ≤ m.searchDistance
    { m with
      annotations := m.annotations ++ kept.map (·.placemark.coordinate)
      matchingPlaces := m.matchingPlaces ++
        kept.map (createPlaceitems dist m.searchText location) } := by
  induction items generalizing m with
  | nil => simp
  | cons item items ih =>
    rw [List.foldl_cons, ih]
    by_cases hin : dist here item.placemark.coordinate ≤ m.searchDistance
    · simp [hin, addSinglePinToMap]
    · simp [hin]

/-- The spec of the loop: the accepted items become annotations and places, in
order, and nothing else changes. -/
theorem addMapItems_eq {dist : Coordinate → Coordinate → Rat} {answer : Centre → List MapItem}
    {m : TracedMap} {h : Handling} :
    addMapItems dist answer m h =
      { m with
        annotations := m.annotations ++
          (acceptedItems dist answer m h).map (·.placemark.coordinate)
        matchingPlaces := m.matchingPlaces ++ addedPlaces dist answer m h } := by
  have hkept : ((answer h.centre).filter
        (·.placemark.coordinate ∉ h.userAnnotation.toList ++ m.annotations)).filter
      (fun item => dist h.centre.coordinate item.placemark.coordinate ≤ m.searchDistance) =
      acceptedItems dist answer m h := by
    rw [acceptedItems, List.filter_filter]
    refine List.filter_congr fun item _ => ?_
    rw [Bool.and_comm, Bool.decide_and]
  unfold addMapItems addedPlaces
  rw [addPins_eq]
  simp only [hkept]

/-- A response that is not the last centre's leaves the group and the log alone. -/
theorem searching_other (dist : Coordinate → Coordinate → Rat) (answer : Centre → List MapItem)
    {m : TracedMap} {h : Handling} (hne : some h.centre.ref ≠ m.allLoc.getLast?.map Centre.ref) :
    searchingFromCoordinates dist answer m h =
      some { addMapItems dist answer m h with handled := m.handled + 1 } := by
  rw [addMapItems_eq]
  unfold searchingFromCoordinates
  rw [addMapItems_eq]
  exact if_neg hne

/-- The response of the last centre leaves the group; when that was all that was
outstanding, the waiting blocks open the panel with the places so far. -/
theorem searching_last (dist : Coordinate → Coordinate → Rat) (answer : Centre → List MapItem)
    {m : TracedMap} {h : Handling} (heq : some h.centre.ref = m.allLoc.getLast?.map Centre.ref)
    (hout : m.group.leaves < m.group.enters) :
    ∃ group, searchingFromCoordinates dist answer m h = some
      { addMapItems dist answer m h with
        handled := m.handled + 1
        group := group
        detailCalls := m.detailCalls ++ List.replicate
          (if m.group.leaves + 1 = m.group.enters then m.group.blocks else 0)
          ⟨m.matchingPlaces ++ addedPlaces dist answer m h, m.handled + 1⟩ } := by
  obtain ⟨group, hleave, -, -⟩ := DispatchGroup.leave_of_outstanding hout
  refine ⟨group, ?_⟩
  rw [addMapItems_eq]
  unfold searchingFromCoordinates
  rw [addMapItems_eq]
  simp only [if_pos heq, hleave, Option.map_some, TracedMap.getDetailFcp]

/-- Responses none of which is the last centre's: all are handled, and the
panel does not open. -/
theorem handleAll_others (dist : Coordinate → Coordinate → Rat) (answer : Centre → List MapItem)
    {m : TracedMap} {hs : List Handling}
    (hne : ∀ h ∈ hs, some h.centre.ref ≠ m.allLoc.getLast?.map Centre.ref) :
    ∃ t, handleAll dist answer m hs = some t ∧ t.group = m.group ∧ t.allLoc = m.allLoc ∧
      t.detailCalls = m.detailCalls ∧ t.handled = m.handled + hs.length := by
  induction hs generalizing m with
  | nil => exact ⟨m, rfl, rfl, rfl, rfl, rfl⟩
  | cons h hs ih =>
    have hstep := searching_other dist answer (hne h List.mem_cons_self)
    rw [addMapItems_eq] at hstep
    obtain ⟨t, ht, hgroup, hloc, hcalls, hhandled⟩ :=
      ih (m := { addMapItems dist answer m h with handled := m.handled + 1 }) (by
        rw [addMapItems_eq]
        exact fun g hg => hne g (List.mem_cons_of_mem h hg))
    rw [addMapItems_eq] at ht hgroup hloc hcalls hhandled
    refine ⟨t, Machine.run_cons.mpr ⟨_, hstep, ht⟩, hgroup, hloc, hcalls, ?_⟩
    simp only [hhandled, List.length_cons]
    omega

/-- What a search leaves in the map before its first response: the cleared
fields, and one more entry and block in the group than before. -/
theorem startTracedSearch_spec (m : TracedMap) (cs : List Coordinate) :
    (startTracedSearch m cs).matchingPlaces = [] ∧ (startTracedSearch m cs).annotations = [] ∧
      (startTracedSearch m cs).handled = 0 ∧
      (startTracedSearch m cs).detailCalls = m.detailCalls ∧
      (startTracedSearch m cs).group.enters = m.group.enters + 1 ∧
      (startTracedSearch m cs).group.leaves = m.group.leaves ∧
      (startTracedSearch m cs).group.blocks = m.group.blocks + 1 := by
  obtain ⟨hfired, henters, hleaves, hblocks⟩ := DispatchGroup.enter_notify m.group
  refine ⟨rfl, rfl, rfl, ?_, henters, hleaves, hblocks⟩
  simp [startTracedSearch, searchCoordinates, TracedMap.getDetailFcp, hfired]

/-- Every location of a search is an object of its own. -/
theorem refs_nodup (m : TracedMap) (cs : List Coordinate) :
    ((startTracedSearch m cs).allLoc.map Centre.ref).Nodup := by
  have hrefs : (startTracedSearch m cs).allLoc.map Centre.ref =
      List.range' m.nextRef cs.length := by
    refine List.ext_getElem (by simp [startTracedSearch, searchCoordinates]) fun i h₁ h₂ => ?_
    simp [startTracedSearch, searchCoordinates]
  rw [hrefs]
  exact List.nodup_range'

/-- An order handles the last centre's response once, between others. -/
theorem order_split {m : TracedMap} {cs : List Coordinate} {hs : List Handling} (hne : cs ≠ [])
    (horder : IsOrder (startTracedSearch m cs) hs) :
    ∃ pre last post, hs = pre ++ last :: post ∧
      (startTracedSearch m cs).allLoc.getLast? = some last.centre ∧
      ∀ h, h ∈ pre ∨ h ∈ post → h.centre.ref ≠ last.centre.ref := by
  have hloc : (startTracedSearch m cs).allLoc ≠ [] := by
    rw [← List.length_pos_iff]
    simpa [startTracedSearch, searchCoordinates] using List.length_pos_iff.mpr hne
  obtain ⟨last, hlast, hcentre⟩ := List.mem_map.mp
    (horder.mem_iff.mpr (List.getLast_mem hloc))
  obtain ⟨pre, post, rfl⟩ := List.append_of_mem hlast
  refine ⟨pre, last, post, rfl, by rw [List.getLast?_eq_some_getLast hloc, hcentre], ?_⟩
  -- the references of the handled centres are those of the search, so no two agree
  have hnodup : (((pre ++ last :: post).map Handling.centre).map Centre.ref).Nodup :=
    (horder.map Centre.ref).nodup_iff.mpr (refs_nodup m cs)
  rw [List.map_append, List.map_append, List.nodup_append] at hnodup
  obtain ⟨-, hpost, hdisj⟩ := hnodup
  rintro h (hpre | hin) heq
  · exact hdisj h.centre.ref (List.mem_map_of_mem (List.mem_map_of_mem hpre)) last.centre.ref
      (by simp) heq
  · rw [List.map_cons, List.map_cons, List.nodup_cons] at hpost
    exact hpost.1 (heq ▸ List.mem_map_of_mem (List.mem_map_of_mem hin))

/-- The spec of a whole search: it completes, and the log grows by the one call
that the last centre's response triggers, when the group was balanced. -/
theorem handleAll_spec (dist : Coordinate → Coordinate → Rat) (answer : Centre → List MapItem)
    {m : TracedMap} {cs : List Coordinate} {pre post : List Handling} {last : Handling}
    (hlast : (startTracedSearch m cs).allLoc.getLast? = some last.centre)
    (hothers : ∀ h, h ∈ pre ∨ h ∈ post → h.centre.ref ≠ last.centre.ref) :
    ∃ t places, handleAll dist answer (startTracedSearch m cs) (pre ++ last :: post) = some t ∧
      t.detailCalls = m.detailCalls ++
        (if m.group.leaves = m.group.enters then [⟨places, pre.length + 1⟩] else []) ∧
      (post = [] → places = t.matchingPlaces) := by
  obtain ⟨-, -, hhandled₀, hcalls₀, henters₀, hleaves₀, hblocks₀⟩ := startTracedSearch_spec m cs
  obtain ⟨s, hs, hgroup, hloc, hcalls, hhandled⟩ :=
    handleAll_others dist answer (m := startTracedSearch m cs)
      fun h (hin : h ∈ pre) heq => hothers h (.inl hin) (Option.some.inj (by simpa [hlast] using heq))
  have hle := m.group.leaves_le
  obtain ⟨group, hstep⟩ := searching_last dist answer (m := s) (h := last)
    (by simp [hloc, hlast]) (by rw [hgroup]; omega)
  rw [addMapItems_eq] at hstep
  obtain ⟨t, ht, -, -, hcalls', -⟩ := handleAll_others dist answer
    (m := { s with
      annotations := s.annotations ++
        (acceptedItems dist answer s last).map (·.placemark.coordinate)
      matchingPlaces := s.matchingPlaces ++ addedPlaces dist answer s last
      handled := s.handled + 1
      group := group
      detailCalls := s.detailCalls ++ List.replicate
        (if s.group.leaves + 1 = s.group.enters then s.group.blocks else 0)
        ⟨s.matchingPlaces ++ addedPlaces dist answer s last, s.handled + 1⟩ })
    fun h (hin : h ∈ post) heq =>
      hothers h (.inr hin) (Option.some.inj (by simpa [hloc, hlast] using heq))
  refine ⟨t, s.matchingPlaces ++ addedPlaces dist answer s last, ?_, ?_, ?_⟩
  · rw [handleAll, Machine.run_append, ← handleAll, hs, Option.bind_some]
    exact Machine.run_cons.mpr ⟨_, hstep, ht⟩
  · rw [hcalls']
    simp only [hcalls, hcalls₀, hgroup, henters₀, hleaves₀, hblocks₀, hhandled, hhandled₀]
    by_cases hbal : m.group.leaves = m.group.enters
    · simp [hbal, m.group.idle hbal]
    · simp [hbal]
  · rintro rfl
    obtain rfl := Option.some.inj ht
    rfl

end TracedLemmas

open TracedLemmas

/-! ## 3. When the panel opens complete -/

/-- The search that took the map to `t` opened the panel once, after all `n`
responses and with all the places they added. -/
def OpensComplete (m t : TracedMap) (n : Nat) : Prop :=
  t.detailCalls = m.detailCalls ++ [⟨t.matchingPlaces, n⟩]

/-- Whatever the order, a traced search runs to its end, and it opens the panel
once and complete iff nothing was outstanding in the group before it and the
response of the last centre is handled last. -/
theorem panel_opens_complete_iff (dist : Coordinate → Coordinate → Rat)
    (answer : Centre → List MapItem) (m : TracedMap) (cs : List Coordinate) (hs : List Handling)
    (hne : cs ≠ []) (horder : IsOrder (startTracedSearch m cs) hs) :
    ∃ t, handleAll dist answer (startTracedSearch m cs) hs = some t ∧
      (OpensComplete m t cs.length ↔
        m.group.leaves = m.group.enters ∧
          (hs.map Handling.centre).getLast? = (startTracedSearch m cs).allLoc.getLast?) := by
  obtain ⟨pre, last, post, rfl, hlast, hothers⟩ := order_split hne horder
  obtain ⟨t, places, ht, hcalls, hplaces⟩ :=
    handleAll_spec dist answer hlast hothers
  have hlen : pre.length + 1 + post.length = cs.length := by
    have := horder.length_eq
    simp only [List.length_map, List.length_append, List.length_cons, startTracedSearch,
      searchCoordinates, List.length_mapIdx] at this
    omega
  refine ⟨t, ht, ?_⟩
  unfold OpensComplete
  rw [hcalls, List.append_cancel_left_eq]
  by_cases hbal : m.group.leaves = m.group.enters
  · rw [if_pos hbal]
    constructor
    · intro hopen
      have hall : pre.length + 1 = cs.length := by
        simp only [List.cons.injEq, DetailCall.mk.injEq] at hopen
        exact hopen.1.2
      obtain rfl : post = [] := List.eq_nil_of_length_eq_zero (by omega)
      exact ⟨hbal, by simp [hlast]⟩
    · rintro ⟨-, hhandledLast⟩
      have hpost : post = [] := by
        by_contra hpost
        -- a later handling would be of the last centre again
        have hend : (post.getLast hpost).centre = last.centre := by
          rw [List.map_append, List.map_cons, List.getLast?_append,
            List.getLast?_cons_of_ne_nil (by simpa using hpost), List.getLast?_map,
            List.getLast?_eq_some_getLast hpost, hlast] at hhandledLast
          simpa using hhandledLast
        exact hothers _ (.inr (List.getLast_mem hpost)) (congrArg Centre.ref hend)
      subst hpost
      rw [hplaces rfl, ← hlen]
      simp
  · simp [hbal]

/-- Distances in metres at 111 km for a degree, to run the handlers with. -/
def groundDistance (a b : Coordinate) : Rat := 111000 * taxicab.dist a b

/-- The map when the app has just started. -/
def freshMap : TracedMap where
  searchText := "Food"
  searchDistance := 1000
  matchingPlaces := []
  annotations := []
  allLoc := []
  nextRef := 0
  group := .empty
  handled := 0
  detailCalls := []

/-- Two centres, a little over a kilometre apart. -/
def exCentres : List Coordinate := [⟨0, 0⟩, ⟨1/100, 0⟩]

/-- One item for each of the two centres. -/
def exAnswer (c : Centre) : List MapItem :=
  if c.ref = 0 then [exItem "A" ⟨1/1000, 0⟩] else [exItem "B" ⟨11/1000, 0⟩]

def exHandling (ref : Nat) (coordinate : Coordinate) : Handling := ⟨⟨ref, coordinate⟩, none, none⟩

/-- Both responses in the order of the centres, and the other way round. -/
def exInOrder : List Handling := [exHandling 0 ⟨0, 0⟩, exHandling 1 ⟨1/100, 0⟩]

def exLastFirst : List Handling := [exHandling 1 ⟨1/100, 0⟩, exHandling 0 ⟨0, 0⟩]

theorem panel_opens_complete_iff_in_order :
    ∃ t, handleAll groundDistance exAnswer (startTracedSearch freshMap exCentres) exInOrder =
        some t ∧
      (OpensComplete freshMap t 2 ↔
        freshMap.group.leaves = freshMap.group.enters ∧
          (exInOrder.map Handling.centre).getLast? =
            (startTracedSearch freshMap exCentres).allLoc.getLast?) :=
  panel_opens_complete_iff groundDistance exAnswer freshMap exCentres exInOrder (by decide)
    (by unfold IsOrder; decide +kernel)

/-- When the last centre answers first, the panel opens with its place alone. -/
theorem last_centre_first_opens_early :
    ¬ ∀ (answer : Centre → List MapItem) (cs : List Coordinate) (hs : List Handling)
        (t : TracedMap), cs ≠ [] → IsOrder (startTracedSearch freshMap cs) hs →
      handleAll groundDistance answer (startTracedSearch freshMap cs) hs = some t →
        OpensComplete freshMap t cs.length := by
  intro hall
  have horder : IsOrder (startTracedSearch freshMap exCentres) exLastFirst := by
    unfold IsOrder
    decide +kernel
  have hrun : (handleAll groundDistance exAnswer (startTracedSearch freshMap exCentres)
      exLastFirst).map (·.detailCalls.map DetailCall.handled) = some [1] := by decide +kernel
  obtain ⟨t, ht, hcalls⟩ := Option.map_eq_some_iff.mp hrun
  have hopen := hall exAnswer exCentres exLastFirst t (by decide) horder ht
  rw [hopen] at hcalls
  simp [freshMap, exCentres] at hcalls

/-! ## 4. Which places a search keeps -/

/-- The response that `h` handles has an item at `x` in range, and the user is
not standing there. -/
def Handling.reaches (dist : Coordinate → Coordinate → Rat) (answer : Centre → List MapItem)
    (searchDistance : Rat) (x : Coordinate) (h : Handling) : Bool :=
  h.userAnnotation != some x && decide (dist h.centre.coordinate x ≤ searchDistance) &&
    (answer h.centre).any (·.placemark.coordinate == x)

/-- The item is the place called `name` at `x`. -/
def MapItem.isPlace (name : String) (x : Coordinate) (item : MapItem) : Bool :=
  item.name.getD "" == name && item.placemark.coordinate == x

/-- How often the places contain the one called `name` at `x`. -/
def occurrences (places : List Place) (name : String) (x : Coordinate) : Nat :=
  places.countP fun place => place.name == name && place.coordinate == x

/-- Some response of the search returned the place called `name` at `x`, in
range of its centre. -/
def IsReturned (dist : Coordinate → Coordinate → Rat) (answer : Centre → List MapItem)
    (m : TracedMap) (name : String) (x : Coordinate) : Prop :=
  ∃ c ∈ m.allLoc, dist c.coordinate x ≤ m.searchDistance ∧ ∃ item ∈ answer c, item.isPlace name x

/-- `matchingPlaces` has every returned place once, and no other place. -/
def ResultsExact (dist : Coordinate → Coordinate → Rat) (answer : Centre → List MapItem)
    (m t : TracedMap) : Prop :=
  ∀ name x, (IsReturned dist answer m name x → occurrences t.matchingPlaces name x = 1) ∧
    (¬ IsReturned dist answer m name x → occurrences t.matchingPlaces name x = 0)

/-- The first handled response that reaches the coordinate of a returned place
lists that place once. -/
def FirstListsOnce (dist : Coordinate → Coordinate → Rat) (answer : Centre → List MapItem)
    (m : TracedMap) (hs : List Handling) : Prop :=
  ∀ name x, IsReturned dist answer m name x →
    ∃ h, hs.find? (Handling.reaches dist answer m.searchDistance x) = some h ∧
      (answer h.centre).countP (MapItem.isPlace name x) = 1

namespace TracedLemmas

/-- What a handler does to the places and annotations, and what it reads later
and does not change. -/
theorem searching_frame {dist : Coordinate → Coordinate → Rat} {answer : Centre → List MapItem}
    {m t : TracedMap} {h : Handling} (ht : searchingFromCoordinates dist answer m h = some t) :
    t.matchingPlaces = m.matchingPlaces ++ addedPlaces dist answer m h ∧
      t.annotations = m.annotations ++
        (acceptedItems dist answer m h).map (·.placemark.coordinate) ∧
      t.searchText = m.searchText ∧ t.searchDistance = m.searchDistance := by
  unfold searchingFromCoordinates at ht
  rw [addMapItems_eq] at ht
  dsimp only at ht
  split at ht
  · obtain ⟨_, _, rfl⟩ := Option.map_eq_some_iff.mp ht
    exact ⟨rfl, rfl, rfl, rfl⟩
  · obtain rfl := Option.some.inj ht
    exact ⟨rfl, rfl, rfl, rfl⟩

/-- A handler accepts all items at a free coordinate that it reaches, and none
at any other. -/
theorem acceptedItems_at {dist : Coordinate → Coordinate → Rat} {answer : Centre → List MapItem}
    {m : TracedMap} {h : Handling} {x : Coordinate} :
    (acceptedItems dist answer m h).filter (·.placemark.coordinate = x) =
      if x ∉ m.annotations ∧ h.reaches dist answer m.searchDistance x then
        (answer h.centre).filter (·.placemark.coordinate = x)
      else [] := by
  rw [acceptedItems, List.filter_filter]
  split
  · next hx =>
    obtain ⟨hfree, hreach⟩ := hx
    simp only [Handling.reaches, Bool.and_eq_true, bne_iff_ne, ne_eq, decide_eq_true_eq] at hreach
    refine List.filter_congr fun item _ => ?_
    by_cases hitem : item.placemark.coordinate = x
    · simp [hitem, hfree, hreach.1.1, hreach.1.2]
    · simp [hitem]
  · next hx =>
    refine List.filter_eq_nil_iff.mpr fun item hin hkept => hx ?_
    simp only [List.mem_append, Option.mem_toList, not_or, Bool.decide_and,
      Bool.and_eq_true, decide_eq_true_eq] at hkept
    obtain ⟨rfl, ⟨huser, hfree⟩, hrange⟩ := hkept
    refine ⟨hfree, ?_⟩
    simp only [Handling.reaches, Bool.and_eq_true, bne_iff_ne, ne_eq, decide_eq_true_eq,
      List.any_eq_true, beq_iff_eq]
    exact ⟨⟨huser, hrange⟩, item, hin, rfl⟩

/-- The coordinates that a handler newly takes. -/
theorem mem_accepted_coordinates {dist : Coordinate → Coordinate → Rat}
    {answer : Centre → List MapItem} {m : TracedMap} {h : Handling} {x : Coordinate} :
    x ∈ (acceptedItems dist answer m h).map (·.placemark.coordinate) ↔
      x ∉ m.annotations ∧ h.reaches dist answer m.searchDistance x = true := by
  have hin : x ∈ (acceptedItems dist answer m h).map (·.placemark.coordinate) ↔
      ∃ item, item ∈ (acceptedItems dist answer m h).filter (·.placemark.coordinate = x) := by
    simp
  rw [hin, acceptedItems_at]
  split
  · next hx =>
    have hreach := hx.2
    simp only [Handling.reaches, Bool.and_eq_true, List.any_eq_true, beq_iff_eq] at hreach
    obtain ⟨-, item, hitem, hat⟩ := hreach
    exact iff_of_true ⟨item, by simpa using ⟨hitem, hat⟩⟩ hx
  · next hx => simp [hx]

/-- The spec of a whole search at one coordinate: when it is free at first, the
places there are those of the first response that reaches it. -/
theorem places_at {dist : Coordinate → Coordinate → Rat} {answer : Centre → List MapItem}
    {m t : TracedMap} {hs : List Handling} (ht : handleAll dist answer m hs = some t)
    (x : Coordinate) :
    t.matchingPlaces.filter (·.coordinate = x) = m.matchingPlaces.filter (·.coordinate = x) ++
      if x ∈ m.annotations then [] else
        ((hs.find? (Handling.reaches dist answer m.searchDistance x)).map fun h =>
          ((answer h.centre).filter (·.placemark.coordinate = x)).map
            (createPlaceitems dist m.searchText h.location)).getD [] := by
  induction hs generalizing m with
  | nil =>
    obtain rfl := Option.some.inj ht
    simp
  | cons h hs ih =>
    obtain ⟨u, hu, hrest⟩ := Machine.run_cons.mp ht
    obtain ⟨hplaces, hannot, htext, hdist⟩ := searching_frame hu
    -- the places that `h` adds at `x`
    have hadded : (addedPlaces dist answer m h).filter (·.coordinate = x) =
        ((acceptedItems dist answer m h).filter (·.placemark.coordinate = x)).map
          (createPlaceitems dist m.searchText h.location) := by
      rw [addedPlaces, List.filter_map]
      rfl
    have htaken : x ∈ u.annotations ↔
        x ∈ m.annotations ∨ h.reaches dist answer m.searchDistance x = true := by
      rw [hannot, List.mem_append, mem_accepted_coordinates]
      tauto
    rw [ih hrest, hplaces, List.filter_append, hadded, acceptedItems_at, htext, hdist,
      List.append_assoc]
    congr 1
    by_cases hm : x ∈ m.annotations
    · simp [hm, htaken]
    · by_cases hr : h.reaches dist answer m.searchDistance x = true
      · simp [hm, hr, htaken]
      · simp [hm, hr, htaken]

/-- The number of copies of a place that a search keeps. -/
theorem occurrences_eq {dist : Coordinate → Coordinate → Rat} {answer : Centre → List MapItem}
    {m t : TracedMap} {hs : List Handling} (ht : handleAll dist answer m hs = some t)
    (hplaces : m.matchingPlaces = []) (hannot : m.annotations = []) (name : String)
    (x : Coordinate) :
    occurrences t.matchingPlaces name x =
      ((hs.find? (Handling.reaches dist answer m.searchDistance x)).map fun h =>
        (answer h.centre).countP (MapItem.isPlace name x)).getD 0 := by
  have hat : occurrences t.matchingPlaces name x =
      occurrences (t.matchingPlaces.filter (·.coordinate = x)) name x := by
    unfold occurrences
    rw [List.countP_filter]
    refine List.countP_congr fun place _ => ?_
    simp +contextual
  rw [hat, places_at ht, hplaces, hannot]
  cases hs.find? (Handling.reaches dist answer m.searchDistance x) with
  | none => simp [occurrences]
  | some h =>
    simp only [List.not_mem_nil, if_false, List.filter_nil, List.nil_append, Option.map_some,
      Option.getD_some, occurrences, List.countP_map, List.countP_filter]
    refine List.countP_congr fun item _ => ?_
    simp +contextual [MapItem.isPlace]

/-- A place that the first response to reach its coordinate lists is a returned
place. -/
theorem isReturned_of_find? {dist : Coordinate → Coordinate → Rat} {answer : Centre → List MapItem}
    {m : TracedMap} {hs : List Handling} (horder : IsOrder m hs) {h : Handling} {name : String}
    {x : Coordinate} (hfind : hs.find? (Handling.reaches dist answer m.searchDistance x) = some h)
    (hlisted : 0 < (answer h.centre).countP (MapItem.isPlace name x)) :
    IsReturned dist answer m name x := by
  have hreach := List.find?_some hfind
  simp only [Handling.reaches, Bool.and_eq_true, decide_eq_true_eq] at hreach
  have hin : h.centre ∈ m.allLoc :=
    horder.mem_iff.mp (List.mem_map_of_mem (List.mem_of_find?_eq_some hfind))
  exact ⟨h.centre, hin, hreach.1.2, List.countP_pos_iff.mp hlisted⟩

theorem resultsExact_iff {dist : Coordinate → Coordinate → Rat} {answer : Centre → List MapItem}
    {m t : TracedMap} {hs : List Handling} (horder : IsOrder m hs)
    (ht : handleAll dist answer m hs = some t) (hplaces : m.matchingPlaces = [])
    (hannot : m.annotations = []) :
    ResultsExact dist answer m t ↔ FirstListsOnce dist answer m hs := by
  constructor
  · intro hexact name x hret
    have hone := (hexact name x).1 hret
    rw [occurrences_eq ht hplaces hannot] at hone
    cases hfind : hs.find? (Handling.reaches dist answer m.searchDistance x) with
    | none => simp [hfind] at hone
    | some h => exact ⟨h, rfl, by simpa [hfind] using hone⟩
  · intro hfirst name x
    rw [occurrences_eq ht hplaces hannot]
    refine ⟨fun hret => ?_, fun hnot => ?_⟩
    · obtain ⟨h, hfind, hone⟩ := hfirst name x hret
      simp [hfind, hone]
    · cases hfind : hs.find? (Handling.reaches dist answer m.searchDistance x) with
      | none => rfl
      | some h =>
        by_contra hpos
        exact hnot (isReturned_of_find? horder hfind (Nat.pos_of_ne_zero (by simpa using hpos)))

/-- Every order of a search runs to its end. -/
theorem handleAll_order (dist : Coordinate → Coordinate → Rat) (answer : Centre → List MapItem)
    {m : TracedMap} {cs : List Coordinate} {hs : List Handling}
    (horder : IsOrder (startTracedSearch m cs) hs) :
    ∃ t, handleAll dist answer (startTracedSearch m cs) hs = some t := by
  by_cases hne : cs = []
  · subst hne
    have hnil : hs = [] := by
      have := horder.length_eq
      simpa [startTracedSearch, searchCoordinates] using this
    subst hnil
    exact ⟨_, rfl⟩
  · obtain ⟨pre, last, post, rfl, hlast, hothers⟩ := order_split hne horder
    obtain ⟨t, _, ht, -, -⟩ := handleAll_spec dist answer hlast hothers
    exact ⟨t, ht⟩

end TracedLemmas

/-- In every order a search keeps each returned place exactly once iff the first
response that reaches its coordinate lists it once; two orders that both meet
this keep the same places. -/
theorem results_exact_iff (dist : Coordinate → Coordinate → Rat)
    (answer : Centre → List MapItem) (m : TracedMap) (cs : List Coordinate) (hs : List Handling)
    (horder : IsOrder (startTracedSearch m cs) hs) :
    ∃ t, handleAll dist answer (startTracedSearch m cs) hs = some t ∧
      (ResultsExact dist answer (startTracedSearch m cs) t ↔
        FirstListsOnce dist answer (startTracedSearch m cs) hs) ∧
      ∀ hs' t', IsOrder (startTracedSearch m cs) hs' →
        handleAll dist answer (startTracedSearch m cs) hs' = some t' →
        FirstListsOnce dist answer (startTracedSearch m cs) hs →
        FirstListsOnce dist answer (startTracedSearch m cs) hs' →
        ∀ name x, occurrences t.matchingPlaces name x = occurrences t'.matchingPlaces name x := by
  obtain ⟨hplaces, hannot, -⟩ := startTracedSearch_spec m cs
  obtain ⟨t, ht⟩ := handleAll_order dist answer horder
  have hexact := resultsExact_iff horder ht hplaces hannot
  refine ⟨t, ht, hexact, fun hs' t' horder' ht' hfirst hfirst' name x => ?_⟩
  have hone := hexact.mpr hfirst name x
  have hone' := (resultsExact_iff horder' ht' hplaces hannot).mpr hfirst' name x
  by_cases hret : IsReturned dist answer (startTracedSearch m cs) name x
  · rw [hone.1 hret, hone'.1 hret]
  · rw [hone.2 hret, hone'.2 hret]

theorem results_exact_iff_in_order :
    ∃ t, handleAll groundDistance exAnswer (startTracedSearch freshMap exCentres) exInOrder =
        some t ∧
      (ResultsExact groundDistance exAnswer (startTracedSearch freshMap exCentres) t ↔
        FirstListsOnce groundDistance exAnswer (startTracedSearch freshMap exCentres)
          exInOrder) ∧
      ∀ hs' t', IsOrder (startTracedSearch freshMap exCentres) hs' →
        handleAll groundDistance exAnswer (startTracedSearch freshMap exCentres) hs' = some t' →
        FirstListsOnce groundDistance exAnswer (startTracedSearch freshMap exCentres) exInOrder →
        FirstListsOnce groundDistance exAnswer (startTracedSearch freshMap exCentres) hs' →
        ∀ name x, occurrences t.matchingPlaces name x = occurrences t'.matchingPlaces name x :=
  results_exact_iff groundDistance exAnswer freshMap exCentres exInOrder
    (by unfold IsOrder; decide +kernel)

/-- Two businesses in one building between the centres, one in each response. -/
def exSharedAnswer (c : Centre) : List MapItem :=
  if c.ref = 0 then [exItem "A" ⟨1/200, 0⟩] else [exItem "B" ⟨1/200, 0⟩]

/-- The business in the response handled later is lost. -/
theorem shared_coordinate_loses_place :
    ¬ ∀ (answer : Centre → List MapItem) (cs : List Coordinate) (hs : List Handling)
        (t : TracedMap), IsOrder (startTracedSearch freshMap cs) hs →
      handleAll groundDistance answer (startTracedSearch freshMap cs) hs = some t →
        ResultsExact groundDistance answer (startTracedSearch freshMap cs) t := by
  intro hall
  have horder : IsOrder (startTracedSearch freshMap exCentres) exInOrder := by
    unfold IsOrder
    decide +kernel
  have hrun : (handleAll groundDistance exSharedAnswer (startTracedSearch freshMap exCentres)
      exInOrder).map (fun t => occurrences t.matchingPlaces "B" ⟨1/200, 0⟩) = some 0 := by
    decide +kernel
  obtain ⟨t, ht, hnone⟩ := Option.map_eq_some_iff.mp hrun
  have hret : IsReturned groundDistance exSharedAnswer (startTracedSearch freshMap exCentres) "B"
      ⟨1/200, 0⟩ := by
    refine ⟨⟨1, ⟨1/100, 0⟩⟩, by decide +kernel, by decide +kernel, exItem "B" ⟨1/200, 0⟩, ?_, ?_⟩
    · decide +kernel
    · decide +kernel
  have hone := (hall exSharedAnswer exCentres exInOrder t horder ht "B" ⟨1/200, 0⟩).1 hret
  omega

end LocateMe
