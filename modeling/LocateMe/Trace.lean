import LocateMe.Lib.Machine
import LocateMe.Lib.Ladder
import LocateMe.Model

/-!
# Tracing the user's path and searching along it

`MapController` records a trace while the user walks, and a search hands
either the current location (no trace) or centres picked along the trace to
`MKLocalSearch`. This module models the tap and location handlers as one
machine, with the runtime trap of `1...coordinates.count-1` as the missing
next state.

Results:
1. `traced_search_completes_iff`: a run of taps, locations and searches traps
   exactly when it searches while the trace holds one coordinate.
2. `centres_cover_iff`: which traces the picked centres cover. They are picked by
   the distance from the START of the trace, so a path that comes back round its
   start can be left uncovered (`curved_trace_uncovered`).
-/

namespace LocateMe

/-! ## 1. The machine -/

/-- `enum traceState`. -/
inductive TraceState
  | start
  | stop
  | restart
  | neutral
deriving DecidableEq

/-- The overlays that `MapController` draws. -/
inductive Overlay (Loc : Type)
  | polyline (start finish : Loc)
  | circle (center : Loc)
deriving DecidableEq

/-- What `searchItems` hands on: the two functions it calls. -/
inductive SearchCall (Loc : Type)
  | searchLocally (searchText : String)
  | searchCoordinates (searchText : String) (allLocations : List Loc)
deriving DecidableEq

/-- The fields of `MapController` that tracing and starting a search use;
`calls` is the log of the searches handed on. -/
structure TraceMap (Loc R : Type) where
  trace : TraceState
  coordinates : List Loc
  overlays : List (Overlay Loc)
  searchText : String
  searchDistance : R
  allLoc : List Loc
  calls : List (SearchCall Loc)
deriving DecidableEq

/-- The taps, deliveries and searches of the map screen. A recent-search row
is given by the title it shows. -/
inductive TraceEvent (Loc : Type)
  | tappedStartTrace
  | tappedStopTrace
  | tappedRestartTrace
  | didUpdateLocations (locations : List Loc)
  | searchBarSearchButtonClicked (text : String)
  | tappedSearchIcon (tag : Nat)
  | didSelectRecentSearch (title : String)
deriving DecidableEq

/-- `lower...upper`: forming the range with `upper < lower` is a runtime trap. -/
def closedRange (lower upper : Nat) : Option (List Nat) :=
  if lower ≤ upper then some (List.range' lower (upper + 1 - lower)) else none

/-- A metric that stands for `CLLocation.distance`. -/
structure Metric (Loc R : Type) [AddCommGroup R] [LinearOrder R] where
  dist : Loc → Loc → R
  dist_self : ∀ a, dist a a = 0
  eq_of_dist : ∀ a b, dist a b = 0 → a = b
  comm : ∀ a b, dist a b = dist b a
  triangle : ∀ a b c, dist a c ≤ dist a b + dist b c

section

variable {Loc R : Type} [AddCommGroup R] [LinearOrder R]

/-- The loop of `searchItems` over `coordinates[1], coordinates[2], ...`, with
`distance` the threshold that the next centre has to reach. -/
def matchCoordinates (dist : Loc → Loc → R) (searchDistance : R) (startLocation : Loc) :
    R → List Loc → List Loc
  | _, [] => []
  | distance, endLocation :: rest =>
    if distance ≤ dist startLocation endLocation then
      endLocation :: matchCoordinates dist searchDistance startLocation (distance + searchDistance)
        rest
    else matchCoordinates dist searchDistance startLocation distance rest

/-- `searchItems`. `none` is the trap of the range `1...coordinates.count-1`. -/
def searchItems (dist : Loc → Loc → R) (s : TraceMap Loc R) : Option (TraceMap Loc R) :=
  match s.coordinates with
  | [] => some { s with calls := s.calls ++ [.searchLocally s.searchText] }
  | first :: rest => do
    let _ ← closedRange 1 (s.coordinates.length - 1)
    let matchedCoordinates :=
      first :: matchCoordinates dist s.searchDistance first s.searchDistance rest
    some { s with
      allLoc := matchedCoordinates
      calls := s.calls ++ [.searchCoordinates s.searchText matchedCoordinates]
      overlays := s.overlays ++ [.circle first] }

/-- `coordinates.append` with the `didSet` observer, which draws the newest
segment. -/
def appendCoordinate (s : TraceMap Loc R) (c : Loc) : TraceMap Loc R :=
  { s with
    coordinates := s.coordinates ++ [c]
    overlays := match s.coordinates.getLast? with
      | none => s.overlays
      | some last => s.overlays ++ [.polyline c last] }

/-- `locationManager(_:didUpdateLocations:)`. -/
def didUpdateLocations (s : TraceMap Loc R) (locations : List Loc) : TraceMap Loc R :=
  match s.trace, locations with
  | .neutral, _ => s
  | _, [] => s
  | .start, location :: _ => appendCoordinate s location
  | trace, _ :: _ =>
    if s.coordinates.length = 0 then s
    else if trace = .restart then
      { s with coordinates := [], overlays := [], trace := .neutral }
    else { s with trace := .neutral }

/-- The text that `tappedSearchIcon` searches for. -/
def searchIconText (tag : Nat) : String :=
  match tag with
  | 1 => "Food"
  | 2 => "Gas"
  | 3 => "Shop"
  | _ => "Park"

/-- One handler. The only missing next state is the trap in `searchItems`. -/
def traceStep (dist : Loc → Loc → R) (s : TraceMap Loc R) :
    TraceEvent Loc → Option (TraceMap Loc R)
  | .tappedStartTrace => some { s with trace := .start }
  | .tappedStopTrace => some { s with trace := .stop }
  | .tappedRestartTrace => some { s with trace := .restart }
  | .didUpdateLocations locations => some (didUpdateLocations s locations)
  | .searchBarSearchButtonClicked text =>
    if text = "" then some s else searchItems dist { s with searchText := text }
  | .tappedSearchIcon tag => searchItems dist { s with searchText := searchIconText tag }
  | .didSelectRecentSearch title => searchItems dist { s with searchText := title }

/-- The map screen when it opens. -/
def initialTraceMap (searchDistance : R) : TraceMap Loc R where
  trace := .neutral
  coordinates := []
  overlays := []
  searchText := ""
  searchDistance := searchDistance
  allLoc := []
  calls := []

end

/-- Whether the handler calls `searchItems`. An empty search text does not. -/
def TraceEvent.searches {Loc : Type} : TraceEvent Loc → Bool
  | .searchBarSearchButtonClicked text => text != ""
  | .tappedSearchIcon _ => true
  | .didSelectRecentSearch _ => true
  | _ => false

/-! ## 2. When a search traps -/

/-- `searchItems` runs to its end in `s`, and with a trace it hands a
non-empty array of centres to `searchCoordinates`. -/
def SearchCompletes {Loc R : Type} [AddCommGroup R] [LinearOrder R] (dist : Loc → Loc → R)
    (s : TraceMap Loc R) : Prop :=
  ∃ t, searchItems dist s = some t ∧
    (s.coordinates ≠ [] →
      t.allLoc ≠ [] ∧ t.calls = s.calls ++ [.searchCoordinates s.searchText t.allLoc])

namespace TraceLemmas

theorem closedRange_isSome {lower upper : Nat} :
    (closedRange lower upper).isSome ↔ lower ≤ upper := by
  unfold closedRange
  split <;> simp_all

/-- The spec of `searchItems` on a trace: it needs two coordinates, and the
centres are the first coordinate and what the loop picks. -/
theorem searchItems_cons {Loc R : Type} [AddCommGroup R] [LinearOrder R] (dist : Loc → Loc → R)
    {s : TraceMap Loc R} {first : Loc} {rest : List Loc} (hs : s.coordinates = first :: rest)
    (hrest : rest ≠ []) :
    ∃ t, searchItems dist s = some t ∧
      t.allLoc = first :: matchCoordinates dist s.searchDistance first s.searchDistance rest ∧
      t.calls = s.calls ++ [.searchCoordinates s.searchText t.allLoc] := by
  have hlen : 1 ≤ s.coordinates.length - 1 := by
    have := List.length_pos_iff.mpr hrest
    simp only [hs, List.length_cons]
    omega
  obtain ⟨range, hrange⟩ := Option.isSome_iff_exists.mp (closedRange_isSome.mpr hlen)
  let centres := first :: matchCoordinates dist s.searchDistance first s.searchDistance rest
  refine ⟨{ s with
    allLoc := centres
    calls := s.calls ++ [.searchCoordinates s.searchText centres]
    overlays := s.overlays ++ [.circle first] }, ?_, rfl, rfl⟩
  unfold searchItems
  split
  · next h => simp [h] at hs
  · next first' rest' h =>
    obtain ⟨rfl, rfl⟩ := List.cons_eq_cons.mp (h.symm.trans hs)
    simp [hrange, centres]

theorem searchItems_singleton {Loc R : Type} [AddCommGroup R] [LinearOrder R]
    {dist : Loc → Loc → R} {s : TraceMap Loc R} (hs : s.coordinates.length = 1) :
    searchItems dist s = none := by
  unfold searchItems
  split
  · next h => simp [h] at hs
  · simp [hs, closedRange]

theorem searchItems_isSome_iff {Loc R : Type} [AddCommGroup R] [LinearOrder R]
    (dist : Loc → Loc → R) {s : TraceMap Loc R} :
    (searchItems dist s).isSome ↔ s.coordinates.length ≠ 1 := by
  constructor
  · intro h hone
    rw [searchItems_singleton hone] at h
    cases h
  · intro hne
    cases hs : s.coordinates with
    | nil => simp [searchItems, hs]
    | cons first rest =>
      have hrest : rest ≠ [] := by
        rintro rfl
        simp [hs] at hne
      obtain ⟨t, ht, -⟩ := searchItems_cons dist hs hrest
      simp [ht]

theorem searchCompletes_iff {Loc R : Type} [AddCommGroup R] [LinearOrder R]
    {dist : Loc → Loc → R} {s : TraceMap Loc R} :
    SearchCompletes dist s ↔ s.coordinates.length ≠ 1 := by
  rw [← searchItems_isSome_iff dist]
  constructor
  · rintro ⟨t, ht, -⟩
    simp [ht]
  · intro hsome
    obtain ⟨t, ht⟩ := Option.isSome_iff_exists.mp hsome
    refine ⟨t, ht, fun hne => ?_⟩
    obtain ⟨first, rest, hs⟩ := List.exists_cons_of_ne_nil hne
    have hrest : rest ≠ [] := by
      rintro rfl
      rw [searchItems_singleton (by simp [hs])] at ht
      cases ht
    obtain ⟨u, hu, hloc, hcalls⟩ := searchItems_cons dist hs hrest
    obtain rfl := Option.some.inj (ht.symm.trans hu)
    exact ⟨by simp [hloc], hcalls⟩

/-- A handler completes unless it searches with one coordinate recorded. -/
theorem traceStep_isSome_iff {Loc R : Type} [AddCommGroup R] [LinearOrder R]
    {dist : Loc → Loc → R} {s : TraceMap Loc R} {e : TraceEvent Loc} :
    (traceStep dist s e).isSome ↔ (e.searches = true → s.coordinates.length ≠ 1) := by
  cases e with
  | tappedStartTrace | tappedStopTrace | tappedRestartTrace | didUpdateLocations =>
    simp [traceStep, TraceEvent.searches]
  | searchBarSearchButtonClicked text =>
    by_cases h : text = ""
    · simp [traceStep, TraceEvent.searches, h]
    · simp [traceStep, TraceEvent.searches, h, searchItems_isSome_iff]
  | tappedSearchIcon | didSelectRecentSearch =>
    simp [traceStep, TraceEvent.searches, searchItems_isSome_iff]

end TraceLemmas

open TraceLemmas

/-- The taxicab metric on coordinates, as a concrete distance to run the
machine with. -/
def taxicab : Metric Coordinate Rat where
  dist a b := |a.latitude - b.latitude| + |a.longitude - b.longitude|
  dist_self a := by simp
  eq_of_dist a b h := by
    have hlat := abs_nonneg (a.latitude - b.latitude)
    have hlong := abs_nonneg (a.longitude - b.longitude)
    have hlat0 : |a.latitude - b.latitude| = 0 := by linarith
    have hlong0 : |a.longitude - b.longitude| = 0 := by linarith
    rw [abs_eq_zero, sub_eq_zero] at hlat0 hlong0
    cases a
    cases b
    simp_all
  comm a b := by rw [abs_sub_comm a.latitude, abs_sub_comm a.longitude]
  triangle a b c := by
    have hlat := abs_sub_le a.latitude b.latitude c.latitude
    have hlong := abs_sub_le a.longitude b.longitude c.longitude
    linarith

/-- A run completes iff it never searches while exactly one coordinate is
recorded, and in every state a run reaches, a search completes iff the trace
does not hold exactly one coordinate. -/
theorem traced_search_completes_iff {Loc R : Type} [AddCommGroup R] [LinearOrder R]
    (dist : Loc → Loc → R) (searchDistance : R) (es : List (TraceEvent Loc)) :
    ((Machine.run (traceStep dist) (initialTraceMap searchDistance) es).isSome ↔
      Machine.Meets (traceStep dist) (fun s e => e.searches = true → s.coordinates.length ≠ 1)
        (initialTraceMap searchDistance) es) ∧
    ∀ s, Machine.run (traceStep dist) (initialTraceMap searchDistance) es = some s →
      (SearchCompletes dist s ↔ s.coordinates.length ≠ 1) :=
  ⟨Machine.run_isSome_iff fun _ _ => traceStep_isSome_iff, fun _ _ => searchCompletes_iff⟩

/-- One tap on start, one delivered location, and the next search traps. -/
theorem one_coordinate_search_traps :
    ¬ ∀ (es : List (TraceEvent Coordinate)) (s : TraceMap Coordinate Rat),
      Machine.run (traceStep taxicab.dist) (initialTraceMap 1000) es = some s →
        SearchCompletes taxicab.dist s := by
  intro hall
  have hstop := hall [.tappedStartTrace, .didUpdateLocations [⟨0, 0⟩]]
    { initialTraceMap 1000 with trace := .start, coordinates := [⟨0, 0⟩] } rfl
  exact searchCompletes_iff.mp hstop rfl

/-! ## 3. Which traces the centres cover -/

/-- Every coordinate lies within `searchDistance` of a centre. -/
def Covers {Loc R : Type} [AddCommGroup R] [LinearOrder R] (metric : Metric Loc R)
    (searchDistance : R) (coordinates centres : List Loc) : Prop :=
  ∀ c ∈ coordinates, ∃ z ∈ centres, metric.dist c z ≤ searchDistance

/-- The distance from the start of the trace. -/
def Metric.fromStart {Loc R : Type} [AddCommGroup R] [LinearOrder R] (metric : Metric Loc R)
    (coordinates : List Loc) (c : Loc) : R :=
  match coordinates with
  | [] => 0
  | first :: _ => metric.dist first c

/-- A coordinate farther than `searchDistance` from the start is that near to one at a
distance of `m * searchDistance` or more, where the trace before that one has not passed
`m` coordinates, one after the other, at `1, ..., m` times `searchDistance` or more. -/
def StaysNearNewHeights {Loc R : Type} [AddCommGroup R] [LinearOrder R] (metric : Metric Loc R)
    (searchDistance : R) (cs : List Loc) : Prop :=
  ∀ c ∈ cs, searchDistance < metric.fromStart cs c →
    ∃ (m j : Nat) (z : Loc), cs[j]? = some z ∧ metric.dist c z ≤ searchDistance ∧
      m • searchDistance ≤ metric.fromStart cs z ∧
      ∀ steps, Ladder.Ascent (metric.fromStart cs) searchDistance cs steps →
        (∀ i ∈ steps, i < j) → steps.length < m

/-- No two consecutive coordinates are farther apart than `searchDistance`. -/
def NoJumps {Loc R : Type} [AddCommGroup R] [LinearOrder R] (metric : Metric Loc R)
    (searchDistance : R) (cs : List Loc) : Prop :=
  ∀ i a b, cs[i]? = some a → cs[i + 1]? = some b → metric.dist a b ≤ searchDistance

/-- A coordinate farther than `searchDistance` from the start is that near to one that
is farther out, in multiples of `searchDistance`, than the whole trace before it. -/
def StaysNearRecords {Loc R : Type} [AddCommGroup R] [LinearOrder R] (metric : Metric Loc R)
    (searchDistance : R) (cs : List Loc) : Prop :=
  ∀ c ∈ cs, searchDistance < metric.fromStart cs c →
    ∃ (m j : Nat) (z : Loc), cs[j]? = some z ∧ metric.dist c z ≤ searchDistance ∧
      m • searchDistance ≤ metric.fromStart cs z ∧
      ∀ (i : Nat) (y : Loc), i < j → cs[i]? = some y → metric.fromStart cs y < m • searchDistance

namespace TraceLemmas

/-- The loop is the library's walk against a rising threshold, with the
distance from the start as the height. -/
theorem matchCoordinates_eq_climb {Loc R : Type} [AddCommGroup R] [LinearOrder R]
    (dist : Loc → Loc → R) (searchDistance : R) (start : Loc) (distance : R) (rest : List Loc) :
    matchCoordinates dist searchDistance start distance rest =
      Ladder.climb (dist start) searchDistance distance rest := by
  induction rest generalizing distance with
  | nil => rfl
  | cons c rest ih => simp only [matchCoordinates, Ladder.climb, ih]

/-- The centres of a traced search are exactly the rungs of the distance from
the start. -/
theorem mem_centres_iff {Loc R : Type} [AddCommGroup R] [LinearOrder R] {metric : Metric Loc R}
    {s t : TraceMap Loc R} (hlen : 2 ≤ s.coordinates.length)
    (ht : searchItems metric.dist s = some t) {z : Loc} :
    z ∈ t.allLoc ↔ ∃ m i,
      Ladder.Rung (metric.fromStart s.coordinates) s.searchDistance s.coordinates m i ∧
        s.coordinates[i]? = some z := by
  match hs : s.coordinates, hlen with
  | first :: second :: rest, _ =>
    obtain ⟨u, hu, hloc, -⟩ := searchItems_cons metric.dist hs (by simp)
    obtain rfl := Option.some.inj (ht.symm.trans hu)
    rw [hloc, matchCoordinates_eq_climb]
    exact Ladder.mem_pick_iff

/-- What is near to a coordinate far from the start is not the start. -/
theorem pos_of_near {Loc R : Type} [AddCommGroup R] [LinearOrder R] {metric : Metric Loc R} {D : R}
    {cs : List Loc} {c z : Loc} (hfar : D < metric.fromStart cs c) {j : Nat}
    (hz : cs[j]? = some z) (hnear : metric.dist c z ≤ D) : 0 < j := by
  refine Nat.pos_of_ne_zero ?_
  rintro rfl
  cases cs with
  | nil => cases hz
  | cons first rest =>
    obtain rfl := Option.some.inj hz
    rw [metric.comm] at hnear
    exact absurd hnear (not_le.mpr hfar)

/-- The centres beyond the start are the coordinates that are reached before an ascent
as high. -/
theorem far_centre_iff {Loc R : Type} [AddCommGroup R] [LinearOrder R] [IsOrderedAddMonoid R]
    {metric : Metric Loc R} {D : R} {cs centres : List Loc} (hD : 0 < D)
    (hcentres : ∀ z, z ∈ centres ↔
      ∃ m i, Ladder.Rung (metric.fromStart cs) D cs m i ∧ cs[i]? = some z) {c : Loc}
    (hfar : D < metric.fromStart cs c) :
    (∃ z ∈ centres, metric.dist c z ≤ D) ↔
      ∃ m j z, cs[j]? = some z ∧ metric.dist c z ≤ D ∧ m • D ≤ metric.fromStart cs z ∧
        ∀ steps, Ladder.Ascent (metric.fromStart cs) D cs steps → (∀ i ∈ steps, i < j) →
          steps.length < m := by
  constructor
  · rintro ⟨z, hz, hnear⟩
    obtain ⟨m, j, hj, hjz⟩ := (hcentres z).mp hz
    obtain ⟨n, x, hx, hge, hbefore⟩ :=
      (Ladder.exists_rung_iff hD.le (pos_of_near hfar hjz hnear)).mp ⟨m, hj⟩
    obtain rfl := Option.some.inj (hjz.symm.trans hx)
    exact ⟨n, j, z, hx, hnear, hge, hbefore⟩
  · rintro ⟨m, j, z, hz, hnear, hge, hbefore⟩
    obtain ⟨n, hj⟩ :=
      (Ladder.exists_rung_iff hD.le (pos_of_near hfar hz hnear)).mpr ⟨m, z, hz, hge, hbefore⟩
    exact ⟨z, (hcentres z).mpr ⟨n, j, hj, hz⟩, hnear⟩

/-- A coordinate within `D` of the start is covered. -/
theorem covers_iff_far {Loc R : Type} [AddCommGroup R] [LinearOrder R] {metric : Metric Loc R}
    {D : R} {cs centres : List Loc} (hne : cs ≠ [])
    (hcentres : ∀ z, z ∈ centres ↔
      ∃ m i, Ladder.Rung (metric.fromStart cs) D cs m i ∧ cs[i]? = some z) :
    Covers metric D cs centres ↔ ∀ c ∈ cs, D < metric.fromStart cs c →
      ∃ z ∈ centres, metric.dist c z ≤ D := by
  constructor
  · intro hcov c hc _
    exact hcov c hc
  · intro hfar c hc
    rcases lt_or_ge D (metric.fromStart cs c) with hlt | hle
    · exact hfar c hc hlt
    · cases cs with
      | nil => exact absurd rfl hne
      | cons first rest =>
        refine ⟨first, (hcentres first).mpr ⟨0, 0, .start (by simp), rfl⟩, ?_⟩
        rw [metric.comm]
        exact hle

/-- Without jumps the distance from the start rises by at most `D` at a time. -/
theorem fromStart_le_of_noJumps {Loc R : Type} [AddCommGroup R] [LinearOrder R]
    [IsOrderedAddMonoid R] {metric : Metric Loc R} {D : R} {cs : List Loc}
    (hjumps : NoJumps metric D cs) (i : Nat) (a b : Loc) (ha : cs[i]? = some a)
    (hb : cs[i + 1]? = some b) : metric.fromStart cs b ≤ metric.fromStart cs a + D := by
  have hstep : metric.dist a b ≤ D := hjumps i a b ha hb
  cases cs with
  | nil => cases ha
  | cons first rest =>
    calc metric.dist first b ≤ metric.dist first a + metric.dist a b := metric.triangle first a b
      _ ≤ metric.dist first a + D := by gcongr

theorem fromStart_start {Loc R : Type} [AddCommGroup R] [LinearOrder R] {metric : Metric Loc R}
    {cs : List Loc} {z : Loc} (hz : cs[0]? = some z) : metric.fromStart cs z = 0 := by
  cases cs with
  | nil => cases hz
  | cons first rest =>
    obtain rfl := Option.some.inj hz
    exact metric.dist_self first

/-- Without jumps the coordinates reached before an ascent as high are the records. -/
theorem newHeights_iff_records {Loc R : Type} [AddCommGroup R] [LinearOrder R]
    [IsOrderedAddMonoid R] {metric : Metric Loc R} {D : R} {cs : List Loc} (hD : 0 < D)
    (hjumps : NoJumps metric D cs) :
    StaysNearNewHeights metric D cs ↔ StaysNearRecords metric D cs := by
  unfold StaysNearNewHeights StaysNearRecords
  refine forall_congr' fun c => forall_congr' fun _ => forall_congr' fun hfar => ?_
  constructor
  · rintro ⟨m, j, z, hz, hnear, hge, hbefore⟩
    have hpos := pos_of_near hfar hz hnear
    obtain ⟨n, hj⟩ := (Ladder.exists_rung_iff hD.le hpos).mpr ⟨m, z, hz, hge, hbefore⟩
    have hrecord := Ladder.rung_record hD.le (fun x hx => (fromStart_start hx).trans_lt hD)
      (fromStart_le_of_noJumps hjumps) hj
    cases hj with
    | start _ => exact absurd hpos (lt_irrefl 0)
    | next _ _ hx hreach _ =>
      obtain rfl := Option.some.inj (hz.symm.trans hx)
      exact ⟨_, j, z, hz, hnear, hreach, hrecord⟩
  · rintro ⟨m, j, z, hz, hnear, hge, hrecord⟩
    refine ⟨m, j, z, hz, hnear, hge, fun steps hsteps hlt => ?_⟩
    by_contra hlong
    -- the start, or the `m`-th step of the ascent, would be below `m * D`
    cases m with
    | zero =>
      have hpos := pos_of_near hfar hz hnear
      have hlen : j < cs.length := (List.getElem?_eq_some_iff.mp hz).1
      have hfirst : cs[0]? = some (cs[0]) := List.getElem?_eq_getElem (by omega)
      have hlow := hrecord 0 _ hpos hfirst
      rw [fromStart_start hfirst, zero_nsmul] at hlow
      exact absurd hlow (lt_irrefl 0)
    | succ m =>
      have hm : m < steps.length := by omega
      obtain ⟨x, hx, hreach⟩ := hsteps.high m steps[m] (List.getElem?_eq_getElem hm)
      have hlow := hrecord steps[m] x (hlt _ (List.getElem_mem hm)) hx
      exact absurd hlow (not_lt.mpr hreach)

end TraceLemmas

/-- The centres of a traced search cover the trace iff every coordinate more than
`searchDistance` away from the start is near to one that is reached before the trace
has climbed as high, in steps of `searchDistance`. When no step of the trace is longer
than that: iff every such coordinate is near to one that sets a record. -/
theorem centres_cover_iff {Loc R : Type} [AddCommGroup R] [LinearOrder R] [IsOrderedAddMonoid R]
    (metric : Metric Loc R) (s : TraceMap Loc R) (hlen : 2 ≤ s.coordinates.length)
    (hD : 0 < s.searchDistance) :
    ∃ t, searchItems metric.dist s = some t ∧
      (Covers metric s.searchDistance s.coordinates t.allLoc ↔
        StaysNearNewHeights metric s.searchDistance s.coordinates) ∧
      (NoJumps metric s.searchDistance s.coordinates →
        (Covers metric s.searchDistance s.coordinates t.allLoc ↔
          StaysNearRecords metric s.searchDistance s.coordinates)) := by
  have hsome : (searchItems metric.dist s).isSome :=
    (searchItems_isSome_iff metric.dist).mpr (by omega)
  obtain ⟨t, ht⟩ := Option.isSome_iff_exists.mp hsome
  have hne : s.coordinates ≠ [] := by
    intro hnil
    simp [hnil] at hlen
  have hcentres := fun z => mem_centres_iff (z := z) hlen ht
  have hcovers : Covers metric s.searchDistance s.coordinates t.allLoc ↔
      StaysNearNewHeights metric s.searchDistance s.coordinates := by
    rw [covers_iff_far hne hcentres]
    exact forall_congr' fun c => forall_congr' fun _ => forall_congr' fun hfar =>
      far_centre_iff hD hcentres hfar
  exact ⟨t, ht, hcovers, fun hjumps => hcovers.trans (newHeights_iff_records hD hjumps)⟩

/-- A trace that starts at the origin, goes two units north and comes back to
one and a half units south. -/
def curvedTrace : TraceMap Coordinate Rat :=
  { initialTraceMap 1 with coordinates := [⟨0, 0⟩, ⟨2, 0⟩, ⟨-3/2, 0⟩] }

theorem centres_cover_iff_curved :
    ∃ t, searchItems taxicab.dist curvedTrace = some t ∧
      (Covers taxicab 1 curvedTrace.coordinates t.allLoc ↔
        StaysNearNewHeights taxicab 1 curvedTrace.coordinates) ∧
      (NoJumps taxicab 1 curvedTrace.coordinates →
        (Covers taxicab 1 curvedTrace.coordinates t.allLoc ↔
          StaysNearRecords taxicab 1 curvedTrace.coordinates)) :=
  centres_cover_iff taxicab curvedTrace (by decide) (by decide)

/-- The last coordinate of `curvedTrace` is far from both centres: it is beyond
the first threshold and short of the second. -/
theorem curved_trace_uncovered :
    ¬ ∀ (s t : TraceMap Coordinate Rat), 2 ≤ s.coordinates.length → 0 < s.searchDistance →
      searchItems taxicab.dist s = some t →
        Covers taxicab s.searchDistance s.coordinates t.allLoc := by
  intro hall
  have hsearch : searchItems taxicab.dist curvedTrace = some { curvedTrace with
      allLoc := [⟨0, 0⟩, ⟨2, 0⟩]
      calls := [.searchCoordinates "" [⟨0, 0⟩, ⟨2, 0⟩]]
      overlays := [.circle ⟨0, 0⟩] } := by decide +kernel
  obtain ⟨z, hz, hdist⟩ := hall _ _ (by decide) (by decide) hsearch ⟨-3/2, 0⟩ (by decide +kernel)
  have hfar : ∀ z ∈ [(⟨0, 0⟩ : Coordinate), ⟨2, 0⟩], 1 < taxicab.dist ⟨-3/2, 0⟩ z := by
    decide +kernel
  exact absurd hdist (not_le.mpr (hfar z hz))

end LocateMe
