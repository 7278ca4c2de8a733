import LocateMe.TracedSearch

/-!
# Overlapping and failing traced searches

A search enters the dispatch group once and sends a request for each of its
centres. The group is left by the handler of a response alone, and only when the
response is that of the last centre of the newest search; an error returns
before. The searches of a run overlap, and each request answers once, in any
order.

Results:
1. `search_spec`, `answered_spec`: what an event does to the group and to the
   requests that are out.
2. `group_balanced_iff`: no handler crashes the group, and it is balanced once all
   requests have answered iff every search got the response of its last centre
   while it was the newest.
-/

namespace LocateMe

/-! ## 1. Searches in flight -/

/-- The map, the requests that have not answered, and the references of the last
centres of all searches so far. -/
structure SearchingMap where
  map : TracedMap
  outstanding : List Centre
  lasts : List Nat

/-- A search with the centres that `searchItems` picked, and the two ways in which
a request answers. -/
inductive GroupEvent
  | searchItems (matchedCoordinates : List Coordinate)
  | response (h : Handling)
  | error (centre : Centre)

section

variable (dist : Coordinate → Coordinate → Rat) (answer : Centre → List MapItem)

/-- One event. The block that sends the requests is queued by the search, so they
are out from then on. -/
def searchingStep (s : SearchingMap) : GroupEvent → Option SearchingMap
  | .searchItems matchedCoordinates =>
    -- the first coordinate of a trace is always a centre
    if matchedCoordinates = [] then none
    else
      let map := startTracedSearch s.map matchedCoordinates
      some ⟨map, s.outstanding ++ map.allLoc, s.lasts ++ (map.allLoc.getLast?.map Centre.ref).toList⟩
  | .response h =>
    if h.centre ∈ s.outstanding then
      (searchingFromCoordinates dist answer s.map h).map fun map =>
        ⟨map, s.outstanding.erase h.centre, s.lasts⟩
    else none
  | .error centre =>
    if centre ∈ s.outstanding then some ⟨s.map, s.outstanding.erase centre, s.lasts⟩ else none

end

/-- How many requests for the last centre of a search are out. -/
def SearchingMap.lastsOut (s : SearchingMap) : Nat :=
  s.outstanding.countP fun c => c.ref ∈ s.lasts

/-- The request for the last centre of a search gets a response, and is answered
while its search is the newest. -/
def InTime (s : SearchingMap) : GroupEvent → Prop
  | .searchItems _ => True
  | .response h =>
    h.centre.ref ∈ s.lasts → some h.centre.ref = s.map.allLoc.getLast?.map Centre.ref
  | .error centre => centre.ref ∉ s.lasts

instance (s : SearchingMap) : DecidablePred (InTime s) := fun e => by
  cases e <;> unfold InTime <;> infer_instance

/-- The map before any search. -/
def initialSearching (m : TracedMap) : SearchingMap := ⟨m, [], []⟩

/-! ## 2. One event -/

/-- The requests that are out have references of their own, the newest search's
last centre is a last centre, and the group was entered for each request for a
last centre that is out. -/
structure SearchingMap.Sound (s : SearchingMap) : Prop where
  refs : (s.outstanding.map Centre.ref).Nodup
  fresh : ∀ c ∈ s.outstanding, c.ref < s.map.nextRef
  lasts_fresh : ∀ ref ∈ s.lasts, ref < s.map.nextRef
  newest : ∀ ref, s.map.allLoc.getLast?.map Centre.ref = some ref → ref ∈ s.lasts
  entered : s.map.group.leaves + s.lastsOut ≤ s.map.group.enters

/-- Every entry is still to be left by the response of some last centre: no search
has missed its own. -/
def SearchingMap.Balanced (s : SearchingMap) : Prop :=
  s.map.group.leaves + s.lastsOut = s.map.group.enters

/-- The next search, with a response for each of its centres, calls the panel. -/
def OpensPanel (dist : Coordinate → Coordinate → Rat) (answer : Centre → List MapItem)
    (m : TracedMap) (cs : List Coordinate) (hs : List Handling) : Prop :=
  ∃ t call, handleAll dist answer (startTracedSearch m cs) hs = some t ∧
    t.detailCalls = m.detailCalls ++ [call]

namespace SearchingLemmas

open TracedLemmas

/-- The handler of a response leaves the group for the newest search's last
centre, and otherwise does nothing to it. -/
theorem searching_group {dist : Coordinate → Coordinate → Rat} {answer : Centre → List MapItem}
    {m t : TracedMap} {h : Handling} (ht : searchingFromCoordinates dist answer m h = some t) :
    t.allLoc = m.allLoc ∧ t.nextRef = m.nextRef ∧ t.group.enters = m.group.enters ∧
      t.group.leaves = m.group.leaves +
        if some h.centre.ref = m.allLoc.getLast?.map Centre.ref then 1 else 0 := by
  by_cases hlast : some h.centre.ref = m.allLoc.getLast?.map Centre.ref
  · unfold searchingFromCoordinates at ht
    rw [addMapItems_eq] at ht
    simp only [if_pos hlast] at ht ⊢
    obtain ⟨⟨group, fired⟩, hleave, rfl⟩ := Option.map_eq_some_iff.mp ht
    have hout : m.group.leaves < m.group.enters := by
      have hle := m.group.leaves_le
      by_contra hnot
      have hall : m.group.leaves = m.group.enters := by omega
      simp [DispatchGroup.leave, hall] at hleave
    obtain ⟨group', hleave', henters, hleaves⟩ := DispatchGroup.leave_of_outstanding hout
    obtain ⟨rfl, -⟩ := Prod.mk.inj (Option.some.inj (hleave.symm.trans hleave'))
    exact ⟨rfl, rfl, henters, hleaves⟩
  · have hother := searching_other dist answer hlast
    rw [addMapItems_eq] at hother
    obtain rfl := Option.some.inj (hother.symm.trans ht)
    simp [hlast]

/-- The handler of a response crashes only when it leaves a balanced group. -/
theorem searching_isSome {dist : Coordinate → Coordinate → Rat} {answer : Centre → List MapItem}
    {m : TracedMap} {h : Handling}
    (hout : some h.centre.ref = m.allLoc.getLast?.map Centre.ref →
      m.group.leaves < m.group.enters) :
    (searchingFromCoordinates dist answer m h).isSome := by
  by_cases hlast : some h.centre.ref = m.allLoc.getLast?.map Centre.ref
  · obtain ⟨group, hsome⟩ := searching_last dist answer hlast (hout hlast)
    rw [hsome]
    rfl
  · rw [searching_other dist answer hlast]
    rfl

/-- The locations of a search, by their references. -/
theorem search_allLoc (m : TracedMap) (cs : List Coordinate) :
    ((startTracedSearch m cs).allLoc.map Centre.ref) = List.range' m.nextRef cs.length ∧
      (startTracedSearch m cs).nextRef = m.nextRef + cs.length := by
  refine ⟨List.ext_getElem (by simp [startTracedSearch, searchCoordinates]) fun i h₁ h₂ => ?_, rfl⟩
  simp [startTracedSearch, searchCoordinates]

theorem search_last (m : TracedMap) {cs : List Coordinate} (hne : cs ≠ []) :
    (startTracedSearch m cs).allLoc.getLast?.map Centre.ref =
      some (m.nextRef + (cs.length - 1)) := by
  have hlen : cs.length ≠ 0 := by simpa using hne
  rw [← List.getLast?_map, (search_allLoc m cs).1, List.getLast?_range', if_neg hlen]
  congr 1
  omega

/-- The spec of a search: one more entry, and one more request for a last
centre. -/
theorem search_spec {s : SearchingMap} (hs : s.Sound) {cs : List Coordinate} (hne : cs ≠ []) :
    let map := startTracedSearch s.map cs
    let t : SearchingMap := ⟨map, s.outstanding ++ map.allLoc,
      s.lasts ++ (map.allLoc.getLast?.map Centre.ref).toList⟩
    t.Sound ∧ t.map.group.enters = s.map.group.enters + 1 ∧
      t.map.group.leaves = s.map.group.leaves ∧ t.lastsOut = s.lastsOut + 1 := by
  intro map t
  obtain ⟨hrefs, hnext⟩ := search_allLoc s.map cs
  have hlast := search_last s.map hne
  obtain ⟨-, -, -, -, henters, hleaves, -⟩ := startTracedSearch_spec s.map cs
  have hlasts : t.lasts = s.lasts ++ [s.map.nextRef + (cs.length - 1)] := by
    show s.lasts ++ (map.allLoc.getLast?.map Centre.ref).toList = _
    rw [hlast]
    rfl
  have hlen : 0 < cs.length := List.length_pos_iff.mpr hne
  have hnew : ∀ c ∈ map.allLoc, s.map.nextRef ≤ c.ref ∧ c.ref < s.map.nextRef + cs.length := by
    intro c hc
    have hin : c.ref ∈ List.range' s.map.nextRef cs.length := hrefs ▸ List.mem_map_of_mem hc
    exact List.mem_range'_1.mp hin
  have hold : s.outstanding.countP (fun c => c.ref ∈ t.lasts) = s.lastsOut := by
    refine List.countP_congr fun c hc => ?_
    have hlt := hs.fresh c hc
    simp only [hlasts, List.mem_append, List.mem_singleton, decide_eq_true_eq]
    refine ⟨fun h => h.resolve_right (by omega), Or.inl⟩
  have hadded : map.allLoc.countP (fun c => c.ref ∈ t.lasts) = 1 := by
    have hcount : map.allLoc.countP (fun c => c.ref ∈ t.lasts) =
        (List.range' s.map.nextRef cs.length).countP
          fun ref => ref = s.map.nextRef + (cs.length - 1) := by
      rw [← hrefs, List.countP_map]
      refine List.countP_congr fun c hc => ?_
      have hge := (hnew c hc).1
      simp only [hlasts, List.mem_append, List.mem_singleton, decide_eq_true_eq, Function.comp]
      refine ⟨fun h => h.resolve_left fun hin => ?_, Or.inr⟩
      have := hs.lasts_fresh _ hin
      omega
    have hin : s.map.nextRef + (cs.length - 1) ∈ List.range' s.map.nextRef cs.length :=
      List.mem_range'_1.mpr (by omega)
    have hone := List.count_eq_one_of_mem List.nodup_range' hin
    rw [List.count_eq_countP] at hone
    rw [hcount]
    simpa only [beq_eq_decide] using hone
  have hout : t.lastsOut = s.lastsOut + 1 := by
    show (s.outstanding ++ map.allLoc).countP (fun c => c.ref ∈ t.lasts) = _
    rw [List.countP_append, hold, hadded]
  refine ⟨⟨?_, ?_, ?_, ?_, ?_⟩, henters, hleaves, hout⟩
  · show ((s.outstanding ++ map.allLoc).map Centre.ref).Nodup
    rw [List.map_append, hrefs, List.nodup_append]
    refine ⟨hs.refs, List.nodup_range', fun ref hin ref' hin' heq => ?_⟩
    obtain ⟨c, hc, rfl⟩ := List.mem_map.mp hin
    have hlt := hs.fresh c hc
    have hge := (List.mem_range'_1.mp hin').1
    omega
  · intro c hc
    rw [hnext]
    rcases List.mem_append.mp hc with hc | hc
    · have := hs.fresh c hc
      omega
    · exact (hnew c hc).2
  · intro ref href
    rw [hlasts] at href
    rw [hnext]
    rcases List.mem_append.mp href with href | href
    · have := hs.lasts_fresh ref href
      omega
    · obtain rfl := List.mem_singleton.mp href
      omega
  · intro ref href
    rw [hlasts]
    obtain rfl := Option.some.inj (hlast.symm.trans href)
    exact List.mem_append_right _ (List.mem_singleton_self _)
  · rw [hout, henters, hleaves]
    have := hs.entered
    omega

/-- The request of a centre is answered: it is no longer out. -/
theorem lastsOut_erase {s : SearchingMap} {c : Centre} (hc : c ∈ s.outstanding) (map : TracedMap) :
    (SearchingMap.mk map (s.outstanding.erase c) s.lasts).lastsOut +
      (if c.ref ∈ s.lasts then 1 else 0) = s.lastsOut := by
  have hcount := (List.perm_cons_erase hc).countP_eq fun d => d.ref ∈ s.lasts
  rw [List.countP_cons] at hcount
  show List.countP _ (s.outstanding.erase c) + _ = List.countP _ s.outstanding
  rw [hcount]
  simp only [decide_eq_true_eq]

/-- The spec of an answer. `left` is how often its handler leaves the group. -/
theorem answered_spec {s : SearchingMap} (hs : s.Sound) {c : Centre} (hc : c ∈ s.outstanding)
    {map : TracedMap} (left : Nat) (hloc : map.allLoc = s.map.allLoc)
    (hnext : map.nextRef = s.map.nextRef) (henters : map.group.enters = s.map.group.enters)
    (hleaves : map.group.leaves = s.map.group.leaves + left)
    (hleft : left = 0 ∨ (left = 1 ∧ c.ref ∈ s.lasts)) :
    (SearchingMap.mk map (s.outstanding.erase c) s.lasts).Sound := by
  have hout := lastsOut_erase hc map
  have hentered := hs.entered
  refine ⟨hs.refs.sublist ((List.erase_sublist).map _), fun d hd => ?_, ?_, ?_, ?_⟩
  · rw [hnext]
    exact hs.fresh d (List.mem_of_mem_erase hd)
  · rw [hnext]
    exact hs.lasts_fresh
  · rw [hloc]
    exact hs.newest
  · rw [henters, hleaves]
    rcases hleft with rfl | ⟨rfl, hin⟩
    · split at hout <;> omega
    · rw [if_pos hin] at hout
      omega

theorem sound_step {dist : Coordinate → Coordinate → Rat} {answer : Centre → List MapItem}
    {s t : SearchingMap} {e : GroupEvent} (hs : s.Sound)
    (h : searchingStep dist answer s e = some t) : t.Sound := by
  cases e with
  | searchItems cs =>
    obtain ⟨hne, hsome⟩ := Option.ite_none_left_eq_some.mp h
    obtain rfl := Option.some.inj hsome
    exact (search_spec hs hne).1
  | response r =>
    obtain ⟨hin, hsome⟩ := Option.ite_none_right_eq_some.mp h
    obtain ⟨map, hmap, rfl⟩ := Option.map_eq_some_iff.mp hsome
    obtain ⟨hloc, hnext, henters, hleaves⟩ := searching_group hmap
    refine answered_spec hs hin _ hloc hnext henters hleaves ?_
    split
    · next hlast => exact .inr ⟨rfl, hs.newest _ hlast.symm⟩
    · exact .inl rfl
  | error c =>
    obtain ⟨hin, hsome⟩ := Option.ite_none_right_eq_some.mp h
    obtain rfl := Option.some.inj hsome
    exact answered_spec hs hin 0 rfl rfl rfl rfl (.inl rfl)

/-- A search never misses its last centre's response later than in the event that
answers it, and from then on the entry stays. -/
theorem balanced_step {dist : Coordinate → Coordinate → Rat} {answer : Centre → List MapItem}
    {s t : SearchingMap} {e : GroupEvent} (hs : s.Sound)
    (h : searchingStep dist answer s e = some t) : t.Balanced ↔ s.Balanced ∧ InTime s e := by
  have hentered := hs.entered
  cases e with
  | searchItems cs =>
    obtain ⟨hne, hsome⟩ := Option.ite_none_left_eq_some.mp h
    obtain rfl := Option.some.inj hsome
    obtain ⟨-, henters, hleaves, hout⟩ := search_spec hs hne
    rw [SearchingMap.Balanced, henters, hleaves, hout, InTime, and_true, SearchingMap.Balanced]
    omega
  | response r =>
    obtain ⟨hin, hsome⟩ := Option.ite_none_right_eq_some.mp h
    obtain ⟨map, hmap, rfl⟩ := Option.map_eq_some_iff.mp hsome
    obtain ⟨-, -, henters, hleaves⟩ := searching_group hmap
    have hout := lastsOut_erase hin map
    rw [SearchingMap.Balanced, henters, hleaves, SearchingMap.Balanced, InTime]
    by_cases hlast : r.centre.ref ∈ s.lasts
    · rw [if_pos hlast] at hout
      rw [imp_iff_right hlast]
      split
      · next heq => simp only [heq, and_true]; omega
      · next hne => simp only [hne, and_false, iff_false]; omega
    · rw [if_neg hlast] at hout
      have hne : ¬ some r.centre.ref = s.map.allLoc.getLast?.map Centre.ref :=
        fun heq => hlast (hs.newest _ heq.symm)
      rw [if_neg hne]
      simp only [hlast, false_imp_iff, and_true]
      omega
  | error c =>
    obtain ⟨hin, hsome⟩ := Option.ite_none_right_eq_some.mp h
    obtain rfl := Option.some.inj hsome
    have hout := lastsOut_erase hin s.map
    rw [SearchingMap.Balanced, SearchingMap.Balanced, InTime]
    by_cases hlast : c.ref ∈ s.lasts
    · rw [if_pos hlast] at hout
      simp only [hlast, not_true, and_false, iff_false]
      omega
    · rw [if_neg hlast] at hout
      simp only [hlast, not_false_eq_true, and_true]
      omega

theorem opensPanel_iff (dist : Coordinate → Coordinate → Rat) (answer : Centre → List MapItem)
    {m : TracedMap} {cs : List Coordinate} {hs : List Handling} (hne : cs ≠ [])
    (horder : IsOrder (startTracedSearch m cs) hs) :
    OpensPanel dist answer m cs hs ↔ m.group.leaves = m.group.enters := by
  obtain ⟨pre, last, post, rfl, hlast, hothers⟩ := order_split hne horder
  obtain ⟨t, places, ht, hcalls, -⟩ := handleAll_spec dist answer hlast hothers
  constructor
  · rintro ⟨u, call, hu, hopen⟩
    obtain rfl := Option.some.inj (ht.symm.trans hu)
    by_contra hne
    rw [hcalls, if_neg hne] at hopen
    simp at hopen
  · intro hbal
    rw [if_pos hbal] at hcalls
    exact ⟨t, _, ht, hcalls⟩

theorem sound_initial {m : TracedMap} (hloc : m.allLoc = []) : (initialSearching m).Sound where
  refs := List.nodup_nil
  fresh := by simp [initialSearching]
  lasts_fresh := by simp [initialSearching]
  newest := by simp [initialSearching, hloc]
  entered := m.group.leaves_le

end SearchingLemmas

open SearchingLemmas

/-! ## 3. Every run -/

/-- In every run of overlapping searches from the start of the app no handler
crashes the group. Once every request has answered, the group is balanced, and
the next search with a response for each of its centres calls the panel, iff each
search got a response for its last centre while it was the newest. -/
theorem group_balanced_iff (dist : Coordinate → Coordinate → Rat)
    (answer : Centre → List MapItem) (m : TracedMap) (hloc : m.allLoc = [])
    (hidle : m.group.leaves = m.group.enters) (es : List GroupEvent) (s : SearchingMap)
    (hrun : Machine.run (searchingStep dist answer) (initialSearching m) es = some s) :
    s.map.group.leaves ≤ s.map.group.enters ∧
    (∀ h : Handling, h.centre ∈ s.outstanding →
      (searchingFromCoordinates dist answer s.map h).isSome) ∧
    (s.outstanding = [] →
      (s.map.group.leaves = s.map.group.enters ↔
        Machine.Meets (searchingStep dist answer) InTime (initialSearching m) es) ∧
      ∀ cs hs, cs ≠ [] → IsOrder (startTracedSearch s.map cs) hs →
        (OpensPanel dist answer s.map cs hs ↔
          Machine.Meets (searchingStep dist answer) InTime (initialSearching m) es)) := by
  have hs : s.Sound := Machine.run_invariant' (fun _ _ _ => sound_step) (sound_initial hloc) hrun
  refine ⟨s.map.group.leaves_le, fun h hin => searching_isSome fun hlast => ?_, fun hnone => ?_⟩
  · -- its search has entered the group, and only this handler leaves it for that
    have hout := lastsOut_erase hin s.map
    rw [if_pos (hs.newest _ hlast.symm)] at hout
    have := hs.entered
    omega
  · have hstart : (initialSearching m).Balanced := hidle
    have hbalanced := Machine.run_exact (fun _ _ _ => sound_step)
      (fun _ _ _ => balanced_step) (sound_initial hloc) hrun
    rw [and_iff_right hstart, SearchingMap.Balanced, SearchingMap.lastsOut, hnone] at hbalanced
    refine ⟨hbalanced, fun cs hs hne horder => ?_⟩
    rw [opensPanel_iff dist answer hne horder]
    exact hbalanced

/-- A search of one centre answers with an error. -/
def exFailed : List GroupEvent := [.searchItems [⟨0, 0⟩], .error ⟨0, ⟨0, 0⟩⟩]

theorem group_balanced_iff_failed : ∃ s,
    Machine.run (searchingStep groundDistance exAnswer) (initialSearching freshMap) exFailed =
      some s ∧
    s.map.group.leaves ≤ s.map.group.enters ∧
    (∀ h : Handling, h.centre ∈ s.outstanding →
      (searchingFromCoordinates groundDistance exAnswer s.map h).isSome) ∧
    (s.outstanding = [] →
      (s.map.group.leaves = s.map.group.enters ↔
        Machine.Meets (searchingStep groundDistance exAnswer) InTime (initialSearching freshMap)
          exFailed) ∧
      ∀ cs hs, cs ≠ [] → IsOrder (startTracedSearch s.map cs) hs →
        (OpensPanel groundDistance exAnswer s.map cs hs ↔
          Machine.Meets (searchingStep groundDistance exAnswer) InTime
            (initialSearching freshMap) exFailed)) :=
  ⟨_, rfl, group_balanced_iff groundDistance exAnswer freshMap rfl rfl exFailed _ rfl⟩

/-- The error of the only centre returns before `leave`, so the group stays
entered although nothing is out. -/
theorem error_keeps_group_entered :
    ¬ ∀ (es : List GroupEvent) (s : SearchingMap),
      Machine.run (searchingStep groundDistance exAnswer) (initialSearching freshMap) es = some s →
        s.map.group.leaves ≤ s.map.group.enters ∧
          (s.outstanding = [] → s.map.group.leaves = s.map.group.enters) := by
  intro hall
  have hbalanced := (hall exFailed _ rfl).2 rfl
  exact absurd hbalanced (by decide)

end LocateMe
