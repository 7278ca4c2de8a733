import LocateMe.Trace

/-!
# What the trace records

The taps on start, stop and restart only set the flag `trace`; the next location
delivery reads it, and of the delivered array it reads the first element. Next
to the map screen this module keeps what the taps ask for: the locations
delivered while `trace` is `.start` and since the last tap on restart.

Results:
1. `asked_of_restarting`, `recorded_step`: what a handler preserves.
2. `trace_faithful_iff`: the array is what was asked for, at every search and
   whenever no tap on restart is waiting, iff every recorded delivery is of one
   location and nothing but a delivery or another tap on restart follows a tap
   on restart over a trace.
-/

namespace LocateMe

/-! ## 1. What the taps ask for -/

/-- The map screen, and the locations that the taps ask it to record. -/
structure TraceRecord (Loc R : Type) where
  map : TraceMap Loc R
  asked : List Loc
deriving DecidableEq

section

variable {Loc R : Type}

/-- The locations asked for after an event. -/
def askedAfter (s : TraceRecord Loc R) : TraceEvent Loc → List Loc
  | .tappedRestartTrace => []
  | .didUpdateLocations locations =>
    if s.map.trace = .start then s.asked ++ locations else s.asked
  | _ => s.asked

/-- One handler, with what the event asks for. -/
def recordStep [AddCommGroup R] [LinearOrder R] (dist : Loc → Loc → R) (s : TraceRecord Loc R)
    (e : TraceEvent Loc) : Option (TraceRecord Loc R) :=
  (traceStep dist s.map e).map fun map => ⟨map, askedAfter s e⟩

def initialTraceRecord (searchDistance : R) : TraceRecord Loc R :=
  ⟨initialTraceMap searchDistance, []⟩

/-- A tap on restart over a trace waits for the next delivery. -/
def TraceMap.Restarting (m : TraceMap Loc R) : Prop := m.trace = .restart ∧ m.coordinates ≠ []

instance (m : TraceMap Loc R) : Decidable m.Restarting :=
  decidable_of_iff (m.trace = .restart ∧ ¬ m.coordinates.isEmpty) (by simp [TraceMap.Restarting])

/-- The array is what was asked for, or a tap on restart is about to empty it. -/
def TraceRecord.Faithful (s : TraceRecord Loc R) : Prop :=
  ¬ s.map.Restarting → s.map.coordinates = s.asked

/-- A search uses what was asked for. -/
def SearchesAsked (s : TraceRecord Loc R) (e : TraceEvent Loc) : Prop :=
  e.searches = true → s.map.coordinates = s.asked

/-- What an event needs to be recorded as asked: while recording, a delivery of
one location; while a tap on restart waits, a delivery or another such tap. -/
def Recordable (s : TraceRecord Loc R) : TraceEvent Loc → Prop
  | .tappedRestartTrace => True
  | .didUpdateLocations locations => s.map.trace = .start → locations.length ≤ 1
  | .tappedStartTrace => ¬ s.map.Restarting
  | .tappedStopTrace => ¬ s.map.Restarting
  | e => e.searches = true → ¬ s.map.Restarting

instance (s : TraceRecord Loc R) : DecidablePred (Recordable s) := fun e => by
  cases e <;> unfold Recordable <;> infer_instance

end

/-! ## 2. One handler -/

namespace RecordLemmas

variable {Loc R : Type}

/-- A delivery while recording. -/
theorem deliver_start {m : TraceMap Loc R} (h : m.trace = .start) (locations : List Loc) :
    (didUpdateLocations m locations).trace = .start ∧
      (didUpdateLocations m locations).coordinates = m.coordinates ++ locations.take 1 := by
  cases locations with
  | nil => simp [didUpdateLocations, h]
  | cons location rest => simp [didUpdateLocations, h, appendCoordinate]

/-- Any other delivery empties the array for a waiting tap on restart, or leaves
it alone. -/
theorem deliver_other {m : TraceMap Loc R} (h : m.trace ≠ .start) (locations : List Loc) :
    (m.Restarting ∧ (didUpdateLocations m locations).coordinates = []) ∨
      ((didUpdateLocations m locations).coordinates = m.coordinates ∧
        ((didUpdateLocations m locations).Restarting ↔ m.Restarting)) := by
  cases locations with
  | nil =>
    right
    cases htrace : m.trace <;> simp [didUpdateLocations, htrace]
  | cons location rest =>
    cases htrace : m.trace with
    | start => exact absurd htrace h
    | neutral => simp [didUpdateLocations, htrace]
    | stop =>
      right
      by_cases hnone : m.coordinates = []
      · simp [didUpdateLocations, htrace, hnone]
      · simp [didUpdateLocations, htrace, hnone, TraceMap.Restarting]
    | restart =>
      by_cases hnone : m.coordinates = []
      · right
        simp [didUpdateLocations, htrace, hnone]
      · left
        simp [didUpdateLocations, htrace, hnone, TraceMap.Restarting]

/-- A search is of what was asked for iff no tap on restart waits. -/
theorem searchesAsked_iff {s : TraceRecord Loc R} (hs : s.map.Restarting → s.asked = [])
    (hfaithful : s.Faithful) {e : TraceEvent Loc} :
    SearchesAsked s e ↔ (e.searches = true → ¬ s.map.Restarting) := by
  refine imp_congr_right fun _ => ⟨fun heq hwaits => ?_, hfaithful⟩
  exact hwaits.2 (heq.trans (hs hwaits))

/-- One tap on start or stop: it drops a tap on restart that waits. -/
theorem faithful_of_flag {s t : TraceRecord Loc R} (hs : s.map.Restarting → s.asked = [])
    (hfaithful : s.Faithful) (hcoordinates : t.map.coordinates = s.map.coordinates)
    (hasked : t.asked = s.asked) (hflag : t.map.trace ≠ .restart) :
    t.Faithful ↔ ¬ s.map.Restarting := by
  have hnot : ¬ t.map.Restarting := fun h => hflag h.1
  rw [TraceRecord.Faithful, imp_iff_right hnot, hcoordinates, hasked]
  refine ⟨fun heq hwaits => ?_, hfaithful⟩
  exact hwaits.2 (heq.trans (hs hwaits))

theorem faithful_deliver {s t : TraceRecord Loc R} (hfaithful : s.Faithful) {locations : List Loc}
    (hmap : t.map = didUpdateLocations s.map locations)
    (hasked : t.asked = askedAfter s (.didUpdateLocations locations))
    (hs : s.map.Restarting → s.asked = []) :
    t.Faithful ↔ (s.map.trace = .start → locations.length ≤ 1) := by
  rw [TraceRecord.Faithful, hmap, hasked, askedAfter]
  by_cases hstart : s.map.trace = .start
  · have hwaits : ¬ s.map.Restarting := fun h => by simp [h.1] at hstart
    obtain ⟨htrace, hcoordinates⟩ := deliver_start hstart locations
    have hnot : ¬ (didUpdateLocations s.map locations).Restarting := fun h => by
      simp [h.1] at htrace
    rw [imp_iff_right hnot, imp_iff_right hstart, if_pos hstart, hcoordinates, hfaithful hwaits,
      List.append_cancel_left_eq, List.take_eq_self_iff]
  · rw [if_neg hstart]
    refine iff_of_true (fun hnot => ?_) fun h => absurd h hstart
    rcases deliver_other hstart locations with ⟨hwaits, hempty⟩ | ⟨hsame, hiff⟩
    · rw [hempty, hs hwaits]
    · rw [hsame]
      exact hfaithful fun hwaits => hnot (hiff.mpr hwaits)

section

variable [AddCommGroup R] [LinearOrder R] {dist : Loc → Loc → R}

/-- A search reads the trace and leaves it alone. -/
theorem searchItems_frame {m m' : TraceMap Loc R} (h : searchItems dist m = some m') :
    m'.trace = m.trace ∧ m'.coordinates = m.coordinates := by
  unfold searchItems at h
  split at h
  · obtain rfl := Option.some.inj h
    exact ⟨rfl, rfl⟩
  · obtain ⟨range, -, hrest⟩ := Option.bind_eq_some_iff.mp h
    obtain rfl := Option.some.inj hrest
    exact ⟨rfl, rfl⟩

/-- The handlers other than taps and deliveries leave the trace alone. -/
theorem traceStep_frame {m m' : TraceMap Loc R} {e : TraceEvent Loc}
    (h : traceStep dist m e = some m') (he : e ≠ .tappedStartTrace) (he' : e ≠ .tappedStopTrace)
    (he'' : e ≠ .tappedRestartTrace) (hdelivery : ∀ locations, e ≠ .didUpdateLocations locations) :
    m'.trace = m.trace ∧ m'.coordinates = m.coordinates := by
  cases e with
  | tappedStartTrace => exact absurd rfl he
  | tappedStopTrace => exact absurd rfl he'
  | tappedRestartTrace => exact absurd rfl he''
  | didUpdateLocations locations => exact absurd rfl (hdelivery locations)
  | searchBarSearchButtonClicked text =>
    simp only [traceStep] at h
    split at h
    · obtain rfl := Option.some.inj h
      exact ⟨rfl, rfl⟩
    · have hframe := searchItems_frame h
      exact hframe
  | tappedSearchIcon tag =>
    have hframe := searchItems_frame h
    exact hframe
  | didSelectRecentSearch title =>
    have hframe := searchItems_frame h
    exact hframe

theorem recordStep_eq_some {s t : TraceRecord Loc R} {e : TraceEvent Loc} :
    recordStep dist s e = some t ↔ traceStep dist s.map e = some t.map ∧ t.asked = askedAfter s e := by
  obtain ⟨map, asked⟩ := t
  simp only [recordStep, Option.map_eq_some_iff, TraceRecord.mk.injEq]
  constructor
  · rintro ⟨m, hm, rfl, rfl⟩
    exact ⟨hm, rfl⟩
  · rintro ⟨hm, rfl⟩
    exact ⟨map, hm, rfl, rfl⟩

/-- While a tap on restart waits nothing is asked for. -/
theorem asked_of_restarting {s t : TraceRecord Loc R} {e : TraceEvent Loc}
    (hs : s.map.Restarting → s.asked = []) (h : recordStep dist s e = some t)
    (ht : t.map.Restarting) : t.asked = [] := by
  obtain ⟨hmap, hasked⟩ := recordStep_eq_some.mp h
  rw [hasked]
  cases e with
  | tappedRestartTrace => rfl
  | tappedStartTrace =>
    rw [← Option.some.inj hmap] at ht
    cases ht.1
  | tappedStopTrace =>
    rw [← Option.some.inj hmap] at ht
    cases ht.1
  | didUpdateLocations locations =>
    rw [← Option.some.inj hmap] at ht
    by_cases hstart : s.map.trace = .start
    · rw [TraceMap.Restarting, (deliver_start hstart locations).1] at ht
      cases ht.1
    · rw [askedAfter, if_neg hstart]
      rcases deliver_other hstart locations with ⟨hwaits, -⟩ | ⟨-, hiff⟩
      · exact hs hwaits
      · exact hs (hiff.mp ht)
  | searchBarSearchButtonClicked text | tappedSearchIcon tag | didSelectRecentSearch title =>
    obtain ⟨htrace, hcoordinates⟩ := traceStep_frame hmap (by simp) (by simp) (by simp) (by simp)
    rw [TraceMap.Restarting, htrace, hcoordinates] at ht
    exact hs ht

/-- A faithful record stays so, and a search of it is faithful, iff the event can
be recorded as asked. -/
theorem recorded_step {s t : TraceRecord Loc R} {e : TraceEvent Loc}
    (hs : s.map.Restarting → s.asked = []) (hfaithful : s.Faithful)
    (h : recordStep dist s e = some t) :
    SearchesAsked s e ∧ t.Faithful ↔ Recordable s e := by
  obtain ⟨hmap, hasked⟩ := recordStep_eq_some.mp h
  cases e with
  | tappedRestartTrace =>
    refine iff_of_true ⟨(fun hsearch => by cases hsearch), fun hnot => ?_⟩ trivial
    rw [← Option.some.inj hmap] at hnot ⊢
    rw [hasked]
    show s.map.coordinates = []
    by_contra hne
    exact hnot ⟨rfl, hne⟩
  | tappedStartTrace =>
    have hflag := faithful_of_flag hs hfaithful (t := t) (by rw [← Option.some.inj hmap]) hasked
      (by simp [← Option.some.inj hmap])
    refine (and_iff_right fun hsearch => ?_).trans hflag
    cases hsearch
  | tappedStopTrace =>
    have hflag := faithful_of_flag hs hfaithful (t := t) (by rw [← Option.some.inj hmap]) hasked
      (by simp [← Option.some.inj hmap])
    refine (and_iff_right fun hsearch => ?_).trans hflag
    cases hsearch
  | didUpdateLocations locations =>
    have hdeliver := faithful_deliver hfaithful (Option.some.inj hmap).symm hasked hs
    refine (and_iff_right fun hsearch => ?_).trans hdeliver
    cases hsearch
  | searchBarSearchButtonClicked text | tappedSearchIcon tag | didSelectRecentSearch title =>
    obtain ⟨htrace, hcoordinates⟩ := traceStep_frame hmap (by simp) (by simp) (by simp) (by simp)
    have ht : t.Faithful := by
      rw [TraceRecord.Faithful, TraceMap.Restarting, htrace, hcoordinates, hasked]
      exact hfaithful
    rw [and_iff_left ht]
    exact searchesAsked_iff hs hfaithful

/-- The event without a next state is a search. -/
theorem recorded_stop {s : TraceRecord Loc R} {e : TraceEvent Loc}
    (hs : s.map.Restarting → s.asked = []) (hfaithful : s.Faithful)
    (h : recordStep dist s e = none) : SearchesAsked s e ↔ Recordable s e := by
  rw [recordStep, Option.map_eq_none_iff] at h
  cases e with
  | tappedRestartTrace | tappedStartTrace | tappedStopTrace | didUpdateLocations locations => cases h
  | searchBarSearchButtonClicked text | tappedSearchIcon tag | didSelectRecentSearch title =>
    exact searchesAsked_iff hs hfaithful

end

end RecordLemmas

open RecordLemmas

/-! ## 3. Every run -/

/-- Every search of the run is of what was asked for, and between the searches the
array is what was asked for unless a tap on restart waits. -/
def RecordsAsked {Loc R : Type} [AddCommGroup R] [LinearOrder R] (dist : Loc → Loc → R)
    (s : TraceRecord Loc R) (es : List (TraceEvent Loc)) : Prop :=
  Machine.Meets (recordStep dist) SearchesAsked s es ∧
    ∀ fs u, fs <+: es → Machine.run (recordStep dist) s fs = some u → u.Faithful

/-- In a run whose events can all be recorded as asked, every search is of the
locations delivered while `trace` was `.start` and since the last tap on restart;
and these are exactly the runs that record what was asked for throughout. -/
theorem trace_faithful_iff {Loc R : Type} [AddCommGroup R] [LinearOrder R] (dist : Loc → Loc → R)
    (searchDistance : R) (es : List (TraceEvent Loc)) :
    (Machine.Meets (recordStep dist) Recordable (initialTraceRecord searchDistance) es →
      Machine.Meets (recordStep dist) SearchesAsked (initialTraceRecord searchDistance) es) ∧
    (RecordsAsked dist (initialTraceRecord searchDistance) es ↔
      Machine.Meets (recordStep dist) Recordable (initialTraceRecord searchDistance) es) := by
  have hexact : RecordsAsked dist (initialTraceRecord searchDistance) es ↔
      Machine.Meets (recordStep dist) Recordable (initialTraceRecord searchDistance) es :=
    Machine.run_exact_actions (J := fun s => s.map.Restarting → s.asked = [])
      (fun _ _ _ hs h => asked_of_restarting hs h) (fun _ _ _ hs hf h => recorded_step hs hf h)
      (fun _ _ hs hf h => recorded_stop hs hf h) (fun _ => rfl) (fun _ => rfl) es
  exact ⟨fun h => (hexact.mpr h).1, hexact⟩

/-- One delivery of two locations while recording, and the next search misses the
second one. -/
theorem second_location_dropped :
    ¬ ∀ es : List (TraceEvent Coordinate),
      Machine.Meets (recordStep taxicab.dist) SearchesAsked (initialTraceRecord 1000) es := by
  intro hall
  have hsearch := hall [.tappedStartTrace, .didUpdateLocations [⟨0, 0⟩, ⟨1, 0⟩],
    .didUpdateLocations [⟨2, 0⟩], .tappedSearchIcon 1]
  have hlast := (Machine.meets_cons.mp ((Machine.meets_cons.mp ((Machine.meets_cons.mp
    ((Machine.meets_cons.mp hsearch).2 _ rfl)).2 _ rfl)).2 _ rfl)).1 rfl
  exact absurd hlast (by decide)

end LocateMe
