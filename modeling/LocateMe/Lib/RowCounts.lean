import Mathlib

/-!
# The rows of a table

A table view keeps the number of rows that its data source gave for each section. A
batch of updates names the sections that it reloads and the rows that it deletes; when it
ends, the data source must have in every other section the rows that are left, or the
batch traps. A full reload takes any numbers.

Results:
1. `endUpdates_eq_some`, `endUpdates_eq_none`: when a batch goes through.
2. `endUpdates_nothing`, `endUpdates_reload`: batches that trap when a section is out of
   date.
-/

namespace RowCounts

/-- What a batch does to the sections. -/
structure Updates (ι : Type) where
  reloaded : ι → Bool
  deleted : ι → Nat

namespace Updates

def nothing {ι : Type} : Updates ι := ⟨fun _ => false, fun _ => 0⟩

/-- The batch reloads one section. -/
def reload {ι : Type} [DecidableEq ι] (i : ι) : Updates ι := ⟨fun j => decide (j = i), fun _ => 0⟩

/-- The batch deletes one row of a section. -/
def delete {ι : Type} [DecidableEq ι] (i : ι) : Updates ι :=
  ⟨fun _ => false, fun j => if j = i then 1 else 0⟩

end Updates

/-- The end of a batch, with the numbers that the view shows and those of its data
source. `none` is the trap. -/
def endUpdates {ι : Type} [Fintype ι] (u : Updates ι) (shown counts : ι → Nat) :
    Option (ι → Nat) :=
  if ∀ i, u.reloaded i = true ∨ counts i + u.deleted i = shown i then some counts else none

section

variable {ι : Type} [Fintype ι] {u : Updates ι} {shown counts shown' : ι → Nat}

theorem endUpdates_eq_some : endUpdates u shown counts = some shown' ↔
    (∀ i, u.reloaded i = true ∨ counts i + u.deleted i = shown i) ∧ shown' = counts := by
  rw [endUpdates, Option.ite_none_right_eq_some]
  exact and_congr_right fun _ => by rw [Option.some.injEq, eq_comm]

theorem endUpdates_eq_none : endUpdates u shown counts = none ↔
    ∃ i, u.reloaded i = false ∧ counts i + u.deleted i ≠ shown i := by
  unfold endUpdates
  split
  · next h => simpa using fun i hi => (h i).resolve_left (by simp [hi])
  · next h => simpa using h

/-- A batch that does nothing traps iff some section is out of date. -/
theorem endUpdates_nothing :
    endUpdates .nothing shown counts = none ↔ ∃ i, shown i ≠ counts i := by
  rw [endUpdates_eq_none]
  simp [Updates.nothing, eq_comm]

/-- Reloading one section traps iff another one is out of date. -/
theorem endUpdates_reload [DecidableEq ι] {i : ι} :
    endUpdates (.reload i) shown counts = none ↔ ∃ j, j ≠ i ∧ shown j ≠ counts j := by
  rw [endUpdates_eq_none]
  simp [Updates.reload, eq_comm]

end

end RowCounts
