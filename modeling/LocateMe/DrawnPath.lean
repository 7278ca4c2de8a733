import LocateMe.Lib.Machine
import LocateMe.Trace

/-!
# The drawn path

The observer of `coordinates` draws one polyline for each appended coordinate,
a search adds a circle, and the delivery after a tap on restart removes
everything that is drawn.

Results:
1. `drawn_path`: in every state of a run the polylines are those between the
   consecutive coordinates, in order, without a coordinate nothing is drawn, and
   the next delivery of a started trace draws the line to it.
-/

namespace LocateMe

/-! ## 1. What is drawn -/

def Overlay.isPolyline {Loc : Type} : Overlay Loc → Bool
  | .polyline _ _ => true
  | .circle _ => false

/-- The polylines on the map, in the order in which they were added. -/
def TraceMap.polylines {Loc R : Type} (m : TraceMap Loc R) : List (Overlay Loc) :=
  m.overlays.filter Overlay.isPolyline

/-- One polyline for each two consecutive coordinates, from the newer to the
older one. -/
def segments {Loc : Type} (coordinates : List Loc) : List (Overlay Loc) :=
  List.zipWith Overlay.polyline coordinates.tail coordinates

/-- The polylines are the segments of the trace, and an empty trace has nothing
drawn at all. -/
structure DrawsPath {Loc R : Type} (m : TraceMap Loc R) : Prop where
  path : m.polylines = segments m.coordinates
  blank : m.coordinates = [] → m.overlays = []

namespace DrawnLemmas

/-- Appending a coordinate appends the segment from it to the last one. -/
theorem segments_append {Loc : Type} {coordinates : List Loc} {last : Loc}
    (hlast : coordinates.getLast? = some last) (c : Loc) :
    segments (coordinates ++ [c]) = segments coordinates ++ [.polyline c last] := by
  induction coordinates with
  | nil => simp at hlast
  | cons first rest ih =>
    cases rest with
    | nil =>
      obtain rfl : first = last := by simpa using hlast
      rfl
    | cons second rest =>
      have hlast' : (second :: rest).getLast? = some last := by
        rw [List.getLast?_cons_cons] at hlast
        exact hlast
      have hstep := ih hlast'
      simp only [segments, List.cons_append, List.tail_cons, List.zipWith_cons_cons] at hstep ⊢
      rw [hstep]

/-- What only moves `trace`, the text or the log draws nothing. -/
theorem drawsPath_of_same {Loc R : Type} {m t : TraceMap Loc R} (hdraws : DrawsPath m)
    (hcoordinates : t.coordinates = m.coordinates) (hoverlays : t.overlays = m.overlays) :
    DrawsPath t := by
  refine ⟨?_, fun hnil => ?_⟩
  · rw [TraceMap.polylines, hoverlays, hcoordinates]
    exact hdraws.path
  · rw [hoverlays]
    exact hdraws.blank (hcoordinates ▸ hnil)

/-- The observer draws the newest segment. -/
theorem drawsPath_append {Loc R : Type} {m : TraceMap Loc R} (hdraws : DrawsPath m) (c : Loc) :
    DrawsPath (appendCoordinate m c) := by
  refine ⟨?_, fun hnil => by simp [appendCoordinate] at hnil⟩
  cases hlast : m.coordinates.getLast? with
  | none =>
    have hnil : m.coordinates = [] := List.getLast?_eq_none_iff.mp hlast
    simp [TraceMap.polylines, appendCoordinate, hnil, hdraws.blank hnil, segments]
  | some last =>
    have hpath := hdraws.path
    unfold TraceMap.polylines at hpath ⊢
    simp only [appendCoordinate, hlast]
    rw [List.filter_append, hpath, segments_append hlast]
    rfl

/-- With the trace started a delivery appends its first location, and the line
to it when there is a last coordinate. -/
theorem deliver_started {Loc R : Type} {m : TraceMap Loc R} (hstart : m.trace = .start)
    (loc : Loc) (locations : List Loc) :
    (didUpdateLocations m (loc :: locations)).coordinates = m.coordinates ++ [loc] ∧
      ∀ last, m.coordinates.getLast? = some last →
        (didUpdateLocations m (loc :: locations)).polylines =
          m.polylines ++ [.polyline loc last] := by
  have hdeliver : didUpdateLocations m (loc :: locations) = appendCoordinate m loc := by
    simp only [didUpdateLocations, hstart]
  rw [hdeliver]
  refine ⟨rfl, fun last hlast => ?_⟩
  simp only [TraceMap.polylines, appendCoordinate, hlast]
  exact List.filter_append ..

theorem drawsPath_deliver {Loc R : Type} {m : TraceMap Loc R} (hdraws : DrawsPath m)
    (locations : List Loc) : DrawsPath (didUpdateLocations m locations) := by
  unfold didUpdateLocations
  split
  · exact hdraws
  · exact hdraws
  · exact drawsPath_append hdraws _
  · split
    · exact hdraws
    · split
      · -- the delivery after a restart starts over
        exact ⟨rfl, fun _ => rfl⟩
      · exact drawsPath_of_same hdraws rfl rfl

/-- A search adds at most a circle, and only over a trace. -/
theorem drawsPath_search {Loc R : Type} [AddCommGroup R] [LinearOrder R] {dist : Loc → Loc → R}
    {m t : TraceMap Loc R} (hdraws : DrawsPath m) (ht : searchItems dist m = some t) :
    DrawsPath t := by
  unfold searchItems at ht
  split at ht
  · obtain rfl := Option.some.inj ht
    exact drawsPath_of_same hdraws rfl rfl
  · next first rest hs =>
    obtain ⟨range, -, hrest⟩ := Option.bind_eq_some_iff.mp ht
    obtain rfl := Option.some.inj hrest
    refine ⟨?_, fun hnil => by simp [hs] at hnil⟩
    have hpath := hdraws.path
    unfold TraceMap.polylines at hpath ⊢
    rw [List.filter_append, hpath]
    exact List.append_nil _

/-- Every handler keeps the drawing right. -/
theorem drawsPath_step {Loc R : Type} [AddCommGroup R] [LinearOrder R] {dist : Loc → Loc → R}
    {m t : TraceMap Loc R} {e : TraceEvent Loc} (hdraws : DrawsPath m)
    (ht : traceStep dist m e = some t) : DrawsPath t := by
  cases e with
  | tappedStartTrace | tappedStopTrace | tappedRestartTrace =>
    obtain rfl := Option.some.inj ht
    exact drawsPath_of_same hdraws rfl rfl
  | didUpdateLocations locations =>
    obtain rfl := Option.some.inj ht
    exact drawsPath_deliver hdraws locations
  | searchBarSearchButtonClicked text =>
    simp only [traceStep] at ht
    split at ht
    · obtain rfl := Option.some.inj ht
      exact hdraws
    · have hsame : DrawsPath { m with searchText := text } := drawsPath_of_same hdraws rfl rfl
      exact drawsPath_search hsame ht
  | tappedSearchIcon tag =>
    have hsame : DrawsPath { m with searchText := searchIconText tag } :=
      drawsPath_of_same hdraws rfl rfl
    exact drawsPath_search hsame ht
  | didSelectRecentSearch title =>
    have hsame : DrawsPath { m with searchText := title } := drawsPath_of_same hdraws rfl rfl
    exact drawsPath_search hsame ht

theorem drawsPath_initial {Loc R : Type} (searchDistance : R) :
    DrawsPath (initialTraceMap searchDistance : TraceMap Loc R) := ⟨rfl, fun _ => rfl⟩

end DrawnLemmas

open DrawnLemmas

/-! ## 2. Every reachable state -/

/-- In every state that a run of taps, deliveries and searches reaches, the
polylines on the map are the segments of the trace in order, and while the
trace is empty the map has neither a polyline nor a circle. While the trace is
started, a delivery appends its first location to the coordinates and draws the
line from it to the coordinate that was the last. -/
theorem drawn_path {Loc R : Type} [AddCommGroup R] [LinearOrder R] (dist : Loc → Loc → R)
    (searchDistance : R) (es : List (TraceEvent Loc)) (m : TraceMap Loc R)
    (hrun : Machine.run (traceStep dist) (initialTraceMap searchDistance) es = some m) :
    m.polylines = segments m.coordinates ∧ (m.coordinates = [] → m.overlays = []) ∧
      ∀ loc locations, m.trace = .start →
        (didUpdateLocations m (loc :: locations)).coordinates = m.coordinates ++ [loc] ∧
          ∀ last, m.coordinates.getLast? = some last →
            (didUpdateLocations m (loc :: locations)).polylines =
              m.polylines ++ [.polyline loc last] := by
  have hdraws : DrawsPath m :=
    Machine.run_invariant' (fun _ _ _ => drawsPath_step) (drawsPath_initial searchDistance) hrun
  exact ⟨hdraws.path, hdraws.blank, fun loc locations hstart =>
    deliver_started hstart loc locations⟩

/-- A trace with a pause and a search, started over, and two more coordinates. -/
def exDrawn : List (TraceEvent Coordinate) :=
  [.tappedStartTrace, .didUpdateLocations [⟨0, 0⟩], .didUpdateLocations [⟨1, 0⟩],
    .tappedStopTrace, .didUpdateLocations [⟨2, 0⟩], .tappedSearchIcon 1, .tappedRestartTrace,
    .didUpdateLocations [⟨2, 0⟩], .tappedStartTrace, .didUpdateLocations [⟨3, 0⟩],
    .didUpdateLocations [⟨4, 0⟩]]

theorem drawn_path_restarted :
    ∃ m, Machine.run (traceStep taxicab.dist) (initialTraceMap 1) exDrawn = some m ∧
      m.polylines = [.polyline ⟨4, 0⟩ ⟨3, 0⟩] ∧
      m.polylines = segments m.coordinates ∧ (m.coordinates = [] → m.overlays = []) ∧
      ∀ loc locations, m.trace = .start →
        (didUpdateLocations m (loc :: locations)).coordinates = m.coordinates ++ [loc] ∧
          ∀ last, m.coordinates.getLast? = some last →
            (didUpdateLocations m (loc :: locations)).polylines =
              m.polylines ++ [.polyline loc last] := by
  have hrun : (Machine.run (traceStep taxicab.dist) (initialTraceMap 1) exDrawn).map
      TraceMap.polylines = some [.polyline ⟨4, 0⟩ ⟨3, 0⟩] := by decide +kernel
  obtain ⟨m, hm, hlines⟩ := Option.map_eq_some_iff.mp hrun
  exact ⟨m, hm, hlines, drawn_path taxicab.dist 1 exDrawn m hm⟩

end LocateMe
