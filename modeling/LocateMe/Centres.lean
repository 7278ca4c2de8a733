import LocateMe.Lib.Ladder
import LocateMe.Trace

/-!
# The centres of a traced search

`searchItems` walks along the trace and keeps a coordinate when it reaches a
threshold that each kept coordinate raises by `searchDistance`;
`searchCoordinates` then sends one request for each centre that it is handed.

Results:
1. `centres_exact`: the centres are the climb of the distance from the start,
   each gets one request, and their number is bounded and falls as the search
   distance grows.
-/

namespace LocateMe

/-! ## 1. The requests -/

/-- A `MKLocalSearch.Request`: its text and its region, `meters` long both
ways. -/
structure SearchRequest (Loc R : Type) where
  naturalLanguageQuery : String
  center : Loc
  meters : R
deriving DecidableEq

/-- The requests that the loop of `searchCoordinates(allLocations:)` sends. -/
def searchCoordinatesRequests {Loc R : Type} (searchText : String) (searchDistance : R)
    (allLocations : List Loc) : List (SearchRequest Loc R) :=
  allLocations.map fun loc => ⟨searchText, loc, searchDistance⟩

namespace CentresLemmas

/-- What a search along a trace hands to `searchCoordinates`, with the indices
of the centres in the trace. -/
theorem searchItems_centres {Loc R : Type} [AddCommGroup R] [LinearOrder R] (dist : Loc → Loc → R)
    {s : TraceMap Loc R} {first : Loc} {rest : List Loc} (hs : s.coordinates = first :: rest)
    (hrest : rest ≠ []) :
    ∃ t centres picks, searchItems dist s = some t ∧
      t.calls = s.calls ++ [.searchCoordinates s.searchText centres] ∧
      centres.map some = picks.map (s.coordinates[·]?) ∧
      Ladder.IsClimb (dist first) s.searchDistance s.coordinates picks := by
  obtain ⟨t, ht, hloc, hcalls⟩ := TraceLemmas.searchItems_cons dist hs hrest
  rw [TraceLemmas.matchCoordinates_eq_climb] at hloc
  obtain ⟨picks, hmap, hclimb⟩ := Ladder.pick_isClimb (dist first) s.searchDistance first rest
  rw [← hloc, ← hs] at hmap
  rw [← hs] at hclimb
  exact ⟨t, t.allLoc, picks, ht, hcalls, hmap, hclimb⟩

/-- The loop sends one request for each centre, at that centre and with the text
of the search. -/
theorem searchCoordinatesRequests_exact {Loc R : Type} (searchText : String) (searchDistance : R)
    (centres : List Loc) :
    let requests := searchCoordinatesRequests searchText searchDistance centres
    requests.map SearchRequest.center = centres ∧
      ∀ r ∈ requests, r.naturalLanguageQuery = searchText ∧ r.meters = searchDistance := by
  intro requests
  constructor
  · show (centres.map fun loc => (⟨searchText, loc, searchDistance⟩ : SearchRequest Loc R)).map
      SearchRequest.center = centres
    rw [List.map_map]
    exact List.map_id centres
  · intro r hr
    obtain ⟨loc, -, rfl⟩ := List.mem_map.mp hr
    exact ⟨rfl, rfl⟩

theorem length_of_map_some {α : Type} {xs : List α} {picks : List Nat} {f : Nat → Option α}
    (h : xs.map some = picks.map f) : xs.length = picks.length := by
  simpa using congrArg List.length h

end CentresLemmas

open CentresLemmas

/-! ## 2. The centres -/

/-- The centres of a search along a trace of at least two coordinates are the
first coordinate and then, each time, the least later one whose distance from
the start reaches the next multiple of `searchDistance`, until none does. The
requests are one for each centre, at that centre and with the text of the
search. So there are at most one more requests than `searchDistance` fits into
any bound of the distances, and a search of the same trace with a larger
distance has at most as many centres. -/
theorem centres_exact {Loc R : Type} [Field R] [LinearOrder R] [IsStrictOrderedRing R]
    [FloorSemiring R] (dist : Loc → Loc → R) (hdist : ∀ a b, 0 ≤ dist a b) (s : TraceMap Loc R)
    (first : Loc) (rest : List Loc) (hs : s.coordinates = first :: rest) (hrest : rest ≠ [])
    (hD : 0 < s.searchDistance) :
    ∃ t centres picks, searchItems dist s = some t ∧
      t.calls = s.calls ++ [.searchCoordinates s.searchText centres] ∧
      centres.map some = picks.map (s.coordinates[·]?) ∧
      Ladder.IsClimb (dist first) s.searchDistance s.coordinates picks ∧
      (let requests := searchCoordinatesRequests s.searchText s.searchDistance centres
      requests.map SearchRequest.center = centres ∧
        ∀ r ∈ requests, r.naturalLanguageQuery = s.searchText ∧ r.meters = s.searchDistance) ∧
      (∀ M, (∀ c ∈ s.coordinates, dist first c ≤ M) →
        (searchCoordinatesRequests s.searchText s.searchDistance centres).length ≤
          1 + ⌊M / s.searchDistance⌋₊) ∧
      ∀ (s' t' : TraceMap Loc R) (centres' : List Loc), s'.coordinates = s.coordinates →
        s.searchDistance ≤ s'.searchDistance → searchItems dist s' = some t' →
        t'.calls = s'.calls ++ [.searchCoordinates s'.searchText centres'] →
          centres'.length ≤ centres.length := by
  have hne : 0 < s.coordinates.length := by simp [hs]
  obtain ⟨t, centres, picks, ht, hcalls, hmap, hclimb⟩ := searchItems_centres dist hs hrest
  have hlen := length_of_map_some hmap
  have hrequests := searchCoordinatesRequests_exact s.searchText s.searchDistance centres
  refine ⟨t, centres, picks, ht, hcalls, hmap, hclimb, hrequests, fun M hM => ?_, ?_⟩
  · rw [searchCoordinatesRequests, List.length_map, hlen]
    exact hclimb.length_le hne (hdist first) hD hM
  · intro s' t' centres' hs' hDD' ht' hcalls'
    obtain ⟨u, cs, picks', hu, hcalls'', hmap', hclimb'⟩ :=
      searchItems_centres dist (hs'.trans hs) hrest
    obtain rfl := Option.some.inj (ht'.symm.trans hu)
    obtain rfl : centres' = cs := by
      rw [hcalls'] at hcalls''
      simpa using hcalls''
    rw [hs'] at hclimb'
    rw [hlen, length_of_map_some hmap']
    exact hclimb.length_le_of_le hclimb' hne hDD'

/-- A walk one unit north at a time, back half a unit, and two units farther:
the thresholds `1`, `2` and `3` pick three of its coordinates. -/
def zigzagTrace : TraceMap Coordinate Rat :=
  { initialTraceMap 1 with coordinates := [⟨0, 0⟩, ⟨1, 0⟩, ⟨1/2, 0⟩, ⟨5/2, 0⟩, ⟨4, 0⟩] }

theorem centres_exact_zigzag :
    ∃ t centres picks, searchItems taxicab.dist zigzagTrace = some t ∧
      t.calls = zigzagTrace.calls ++ [.searchCoordinates zigzagTrace.searchText centres] ∧
      centres.map some = picks.map (zigzagTrace.coordinates[·]?) ∧
      Ladder.IsClimb (taxicab.dist ⟨0, 0⟩) zigzagTrace.searchDistance zigzagTrace.coordinates
        picks ∧
      (let requests := searchCoordinatesRequests zigzagTrace.searchText
        zigzagTrace.searchDistance centres
      requests.map SearchRequest.center = centres ∧
        ∀ r ∈ requests, r.naturalLanguageQuery = zigzagTrace.searchText ∧
          r.meters = zigzagTrace.searchDistance) ∧
      (∀ M, (∀ c ∈ zigzagTrace.coordinates, taxicab.dist ⟨0, 0⟩ c ≤ M) →
        (searchCoordinatesRequests zigzagTrace.searchText zigzagTrace.searchDistance
          centres).length ≤ 1 + ⌊M / zigzagTrace.searchDistance⌋₊) ∧
      ∀ (s' t' : TraceMap Coordinate Rat) (centres' : List Coordinate),
        s'.coordinates = zigzagTrace.coordinates →
        zigzagTrace.searchDistance ≤ s'.searchDistance → searchItems taxicab.dist s' = some t' →
        t'.calls = s'.calls ++ [.searchCoordinates s'.searchText centres'] →
          centres'.length ≤ centres.length :=
  centres_exact taxicab.dist
    (fun a b => add_nonneg (abs_nonneg (a.latitude - b.latitude))
      (abs_nonneg (a.longitude - b.longitude)))
    zigzagTrace ⟨0, 0⟩ [⟨1, 0⟩, ⟨1/2, 0⟩, ⟨5/2, 0⟩, ⟨4, 0⟩] rfl (by decide) (by decide)

end LocateMe
