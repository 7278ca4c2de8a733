import LocateMe.Lib.Machine
import LocateMe.Lib.RowCounts
import LocateMe.RefreshedHistory

/-!
# The places on the Saved screen

The collection view of `SavedController` is reloaded with every answer to
`getAllPlaces`. When a list is deleted, `removeListFromAllPlaces` reports each place that
it deletes, and the completion takes the place out of `places` and its item out of the
collection view, also when the view shows the empty cell.

Results:
1. `isEmpty_savedItemsStep`, `upToDate_savedItemsStep`: what the events do.
2. `saved_items_trap_iff`: a reported place traps iff the screen has it and has ever had
   an empty answer.
-/

namespace LocateMe

open RowCounts

/-- The screen, and the number of items that its collection view has. -/
structure SavedItems where
  controller : SavedController
  shown : Unit → Nat

/-- An answer to `getAllPlaces`, or a report of `removeListFromAllPlaces`. -/
inductive SavedItemsEvent
  | retrieveHistory (allPlaces : List Place)
  | placeDeleted (placeId : Int)
deriving DecidableEq

namespace SavedItems

def initial : SavedItems := ⟨.initial, fun _ => SavedController.initial.numberOfItemsInSection⟩

/-- The completion in the delete action of `didTapEdit`. -/
def placeDeleted (s : SavedItems) (placeId : Int) : Option SavedItems :=
  match s.controller.places.findIdx? (·.id = placeId) with
  | none => some s
  | some index =>
    let controller := { s.controller with places := s.controller.places.eraseIdx index }
    (endUpdates (.delete ()) s.shown fun _ => controller.numberOfItemsInSection).map fun shown =>
      ⟨controller, shown⟩

end SavedItems

/-- One event; there is no next state after a trap. -/
def savedItemsStep (s : SavedItems) : SavedItemsEvent → Option SavedItems
  | .retrieveHistory allPlaces =>
    let controller := s.controller.retrieveHistory allPlaces
    some ⟨controller, fun _ => controller.numberOfItemsInSection⟩
  | .placeDeleted placeId => s.placeDeleted placeId

namespace SavedItemsLemmas

/-- What a report does: nothing, or it takes one place and one item away. -/
theorem placeDeleted_cases {s t : SavedItems} {placeId : Int}
    (h : s.placeDeleted placeId = some t) :
    t = s ∨ ∃ places, t.controller = { s.controller with places := places } ∧
      t.shown = fun _ => t.controller.numberOfItemsInSection := by
  unfold SavedItems.placeDeleted at h
  split at h
  · exact .inl (Option.some.inj h).symm
  · obtain ⟨shown, hshown, rfl⟩ := Option.map_eq_some_iff.mp h
    exact .inr ⟨_, rfl, (endUpdates_eq_some.mp hshown).2⟩

theorem upToDate_savedItemsStep {s t : SavedItems} {e : SavedItemsEvent}
    (hs : s.shown = fun _ => s.controller.numberOfItemsInSection)
    (h : savedItemsStep s e = some t) :
    t.shown = fun _ => t.controller.numberOfItemsInSection := by
  cases e with
  | retrieveHistory allPlaces =>
    obtain rfl := Option.some.inj h
    rfl
  | placeDeleted placeId =>
    rcases placeDeleted_cases h with rfl | ⟨places, -, hshown⟩
    · exact hs
    · exact hshown

/-- Nothing but an empty answer sets the flag, and nothing clears it. -/
theorem isEmpty_savedItemsStep {s t : SavedItems} {e : SavedItemsEvent}
    (h : savedItemsStep s e = some t) :
    t.controller.isEmpty = true ↔ e = .retrieveHistory [] ∨ s.controller.isEmpty = true := by
  cases e with
  | retrieveHistory allPlaces =>
    obtain rfl := Option.some.inj h
    simp only [RefreshLemmas.isEmpty_retrieveHistory, Bool.or_eq_true, List.isEmpty_iff,
      SavedItemsEvent.retrieveHistory.injEq]
    exact or_comm
  | placeDeleted placeId =>
    rcases placeDeleted_cases h with rfl | ⟨places, hcontroller, -⟩
    · simp
    · simp [hcontroller]

end SavedItemsLemmas

open SavedItemsLemmas

/-- In every run of answers and reports a report traps iff its place is on the screen
and some answer before it was empty: the view then shows one cell for no place, and goes
on showing it when a place is taken away. -/
theorem saved_items_trap_iff (es : List SavedItemsEvent) (s : SavedItems)
    (hrun : Machine.run savedItemsStep .initial es = some s) (placeId : Int) :
    savedItemsStep s (.placeDeleted placeId) = none ↔
      (∃ place ∈ s.controller.places, place.id = placeId) ∧ .retrieveHistory [] ∈ es := by
  have hshown := Machine.run_invariant'
    (I := fun s => s.shown = fun _ => s.controller.numberOfItemsInSection)
    (fun _ _ _ => upToDate_savedItemsStep) rfl hrun
  have hempty : s.controller.isEmpty = true ↔ .retrieveHistory [] ∈ es := by
    have hever := Machine.run_ever (P := fun s => s.controller.isEmpty = true)
      (fun _ _ _ => isEmpty_savedItemsStep) (by simp [SavedItems.initial, SavedController.initial])
      hrun
    rw [hever]
    simp
  rw [← hempty]
  simp only [savedItemsStep, SavedItems.placeDeleted]
  split
  · next hnone =>
    have hnot : ¬ ∃ place ∈ s.controller.places, place.id = placeId := by
      rintro ⟨place, hplace, hid⟩
      simpa [hid] using List.findIdx?_eq_none_iff.mp hnone place hplace
    simp [hnot]
  · next index hindex =>
    obtain ⟨hlt, hid, -⟩ := List.findIdx?_eq_some_iff_getElem.mp hindex
    have hplace : ∃ place ∈ s.controller.places, place.id = placeId :=
      ⟨_, List.getElem_mem hlt, by simpa using hid⟩
    simp only [hplace, true_and, Option.map_eq_none_iff, endUpdates_eq_none, hshown]
    -- the empty cell is still there when a place has gone
    cases hflag : s.controller.isEmpty with
    | true => simp [SavedController.numberOfItemsInSection, hflag, Updates.delete]
    | false =>
      simp only [SavedController.numberOfItemsInSection, hflag, Updates.delete,
        List.length_eraseIdx, hlt, Bool.false_eq_true, if_false, if_true]
      simp only [iff_false, not_exists]
      intro i
      omega

/-- The history was empty when the screen was first shown, and is not any more. -/
def exFilledScreen : List SavedItemsEvent :=
  [.retrieveHistory [], .retrieveHistory [exHistoryPlace]]

theorem saved_items_trap_iff_filled : ∃ s,
    Machine.run savedItemsStep .initial exFilledScreen = some s ∧
    (savedItemsStep s (.placeDeleted 1) = none ↔
      (∃ place ∈ s.controller.places, place.id = 1) ∧ .retrieveHistory [] ∈ exFilledScreen) :=
  ⟨_, rfl, saved_items_trap_iff exFilledScreen _ rfl 1⟩

end LocateMe
