import LocateMe.ListScreens

/-!
# The Saved screen after several answers

`viewWillAppear` of `SavedController` asks for the history each time the screen is
shown. The completion sets `empty` and hides the "See All" button, and nothing sets
either back.

Results:
1. `isEmpty_refreshed`, `seeAllHidden_refreshed`, `places_refreshed_eq_nil`: what is
   left of a sequence of answers.
2. `sameHistory_iff`: for which earlier answers the screen is as if only the last
   one had come.
-/

namespace LocateMe

/-! ## 1. The screen -/

/-- `collectionView(_:didSelectItemAt:)`: the place that is opened, or nothing on
the empty cell. The outer `none` is the trap. -/
def SavedController.didSelectItemAt (c : SavedController) (row : Nat) : Option (Option Place) :=
  if c.isEmpty then some none else (c.places[row]?).map some

/-- A new controller after these answers to `getAllPlaces`. -/
def refreshed (answers : List (List Place)) : SavedController :=
  answers.foldl .retrieveHistory .initial

/-- Two controllers that hold and show the same places. -/
structure SameHistory (c c' : SavedController) : Prop where
  places : c.places = c'.places
  isEmpty : c.isEmpty = c'.isEmpty
  seeAllHidden : c.seeAllHidden = c'.seeAllHidden
  numberOfItems : c.numberOfItemsInSection = c'.numberOfItemsInSection
  cell : ∀ row, c.cellForItemAt row = c'.cellForItemAt row
  select : ∀ row, c.didSelectItemAt row = c'.didSelectItemAt row

/-- An earlier answer of which the last one leaves nothing. -/
def LeavesNoTrace (last earlier : List Place) : Prop :=
  match last with
  | [] => earlier = []
  | [_] => earlier ≠ []
  | _ => 1 < earlier.length

namespace RefreshLemmas

/-! ## 2. One answer -/

theorem isEmpty_retrieveHistory (c : SavedController) (answer : List Place) :
    (c.retrieveHistory answer).isEmpty = (c.isEmpty || answer.isEmpty) := by
  unfold SavedController.retrieveHistory
  split
  · exact (Bool.or_true _).symm
  · exact (Bool.or_false _).symm
  · next hnil _ =>
    rw [List.isEmpty_eq_false_iff.mpr hnil]
    exact (Bool.or_false _).symm

theorem seeAllHidden_retrieveHistory (c : SavedController) (answer : List Place) :
    (c.retrieveHistory answer).seeAllHidden =
      (c.seeAllHidden || decide (answer.length ≤ 1)) := by
  match answer with
  | [] => exact (Bool.or_true _).symm
  | [place] => exact (Bool.or_true _).symm
  | place :: next :: rest => simp [SavedController.retrieveHistory]

/-- The places are those of the answer, unless that was empty. -/
theorem places_retrieveHistory_of_ne_nil (c c' : SavedController) {answer : List Place}
    (h : answer ≠ []) :
    (c.retrieveHistory answer).places = (c'.retrieveHistory answer).places := by
  match answer with
  | [] => exact absurd rfl h
  | [place] => rfl
  | place :: next :: rest => rfl

theorem places_retrieveHistory_eq_nil {c : SavedController} {answer : List Place} :
    (c.retrieveHistory answer).places = [] ↔ c.places = [] ∧ answer = [] := by
  rcases ScreenLemmas.places_retrieveHistory c answer with hperm | ⟨rfl, hsame⟩
  · match answer with
    | [] => simp [SavedController.retrieveHistory]
    | place :: rest =>
      have hne : (c.retrieveHistory (place :: rest)).places ≠ [] := by
        intro hnil
        rw [hnil] at hperm
        cases hperm.nil_eq
      simp [hne]
  · rw [hsame]
    exact (and_iff_left rfl).symm

/-! ## 3. All answers -/

theorem refreshed_append (before : List (List Place)) (last : List Place) :
    refreshed (before ++ [last]) = (refreshed before).retrieveHistory last := by
  rw [refreshed, List.foldl_append]
  rfl

theorem isEmpty_refreshed (answers : List (List Place)) :
    (refreshed answers).isEmpty = answers.any List.isEmpty := by
  induction answers using List.reverseRecOn with
  | nil => rfl
  | append_singleton before last ih =>
    rw [refreshed_append, isEmpty_retrieveHistory, ih, List.any_append, List.any_cons,
      List.any_nil, Bool.or_false]

theorem seeAllHidden_refreshed (answers : List (List Place)) :
    (refreshed answers).seeAllHidden = answers.any fun answer => decide (answer.length ≤ 1) := by
  induction answers using List.reverseRecOn with
  | nil => rfl
  | append_singleton before last ih =>
    rw [refreshed_append, seeAllHidden_retrieveHistory, ih, List.any_append, List.any_cons,
      List.any_nil, Bool.or_false]

theorem places_refreshed_eq_nil {answers : List (List Place)} :
    (refreshed answers).places = [] ↔ ∀ answer ∈ answers, answer = [] := by
  induction answers using List.reverseRecOn with
  | nil => simp [refreshed, SavedController.initial]
  | append_singleton before last ih =>
    rw [refreshed_append, places_retrieveHistory_eq_nil, ih, List.forall_mem_append,
      List.forall_mem_singleton]

/-- The rows follow from the places and the empty flag. -/
theorem sameHistory_of_fields {c c' : SavedController} (hplaces : c.places = c'.places)
    (hempty : c.isEmpty = c'.isEmpty) (hhidden : c.seeAllHidden = c'.seeAllHidden) :
    SameHistory c c' where
  places := hplaces
  isEmpty := hempty
  seeAllHidden := hhidden
  numberOfItems := by simp only [SavedController.numberOfItemsInSection, hplaces, hempty]
  cell row := by simp only [SavedController.cellForItemAt, hplaces, hempty]
  select row := by simp only [SavedController.didSelectItemAt, hplaces, hempty]

/-- After the same last answer, the places are the same, the earlier empty answers
stay shown, and the earlier short ones keep the button hidden. -/
theorem sameHistory_append_iff {before : List (List Place)} {last : List Place} :
    SameHistory (refreshed (before ++ [last])) (refreshed [last]) ↔
      (last = [] → ∀ earlier ∈ before, earlier = []) ∧
        (last ≠ [] → ∀ earlier ∈ before, earlier ≠ []) ∧
        (1 < last.length → ∀ earlier ∈ before, 1 < earlier.length) := by
  have hempty : (refreshed (before ++ [last])).isEmpty = (refreshed [last]).isEmpty ↔
      (last ≠ [] → ∀ earlier ∈ before, earlier ≠ []) := by
    rw [isEmpty_refreshed, isEmpty_refreshed, List.any_append]
    cases last with
    | nil => simp
    | cons place rest => simp
  have hhidden : (refreshed (before ++ [last])).seeAllHidden = (refreshed [last]).seeAllHidden ↔
      (1 < last.length → ∀ earlier ∈ before, 1 < earlier.length) := by
    rw [seeAllHidden_refreshed, seeAllHidden_refreshed, List.any_append]
    by_cases hlast : last.length ≤ 1
    · simp [hlast, Nat.not_lt_of_le hlast]
    · simp [hlast, Nat.lt_of_not_le hlast]
  have hplaces : (refreshed (before ++ [last])).places = (refreshed [last]).places ↔
      (last = [] → ∀ earlier ∈ before, earlier = []) := by
    rw [refreshed_append]
    by_cases hnil : last = []
    · subst hnil
      rw [imp_iff_right rfl, ← places_refreshed_eq_nil]
      rfl
    · simp only [hnil, false_implies, iff_true]
      exact places_retrieveHistory_of_ne_nil _ _ hnil
  constructor
  · exact fun h => ⟨hplaces.mp h.places, hempty.mp h.isEmpty, hhidden.mp h.seeAllHidden⟩
  · rintro ⟨h1, h2, h3⟩
    exact sameHistory_of_fields (hplaces.mpr h1) (hempty.mpr h2) (hhidden.mpr h3)

end RefreshLemmas

open RefreshLemmas

/-! ## 4. Only the last answer -/

/-- The screen is as after the last answer alone iff no earlier answer has left
something: places under an empty last answer, the empty cell over a nonempty one,
the hidden button over one of two places or more. -/
theorem sameHistory_iff (before : List (List Place)) (last : List Place) :
    SameHistory (refreshed (before ++ [last])) (refreshed [last]) ↔
      ∀ earlier ∈ before, LeavesNoTrace last earlier := by
  rw [sameHistory_append_iff]
  match last with
  | [] => simp [LeavesNoTrace]
  | [place] => simp [LeavesNoTrace]
  | place :: next :: rest =>
    have hne : ∀ earlier : List Place, 1 < earlier.length → earlier ≠ [] := by
      rintro earlier hlen rfl
      cases hlen
    simp only [LeavesNoTrace, reduceCtorEq, false_implies, true_and, ne_eq, not_false_eq_true,
      forall_const, List.length_cons, Nat.lt_add_left_iff_pos, Nat.zero_lt_succ]
    exact ⟨fun h => h.2, fun h => ⟨fun earlier he => hne earlier (h earlier he), h⟩⟩

def exHistoryPlace : Place where
  name := "Cafe"
  address := " 5 Main St Rome"
  phone := ""
  website := "https://www.google.com"
  category := "Cafe"
  coordinate := ⟨0, 0⟩
  time := "0"
  distance := 0
  id := 1
  dbId := some 0
  list := ["Favourite"]
  icon := "locationicon"
  color := .lightRed

/-- The history was empty when the screen was first shown. -/
theorem sameHistory_fails :
    ¬ ∀ (before : List (List Place)) (last : List Place),
      SameHistory (refreshed (before ++ [last])) (refreshed [last]) := by
  intro h
  have hempty := (h [[]] [exHistoryPlace]).isEmpty
  rw [isEmpty_refreshed, isEmpty_refreshed] at hempty
  cases hempty

end LocateMe
