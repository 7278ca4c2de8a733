import Mathlib

/-!
# Dispatch groups

A dispatch group counts work that has been entered and not yet left, and runs
the blocks registered with `notify` once nothing is outstanding. Leaving more
often than entering is a crash.
-/

/-- A group: how often it was entered and left, and how many `notify` blocks
wait. A group with nothing outstanding has no waiting block. -/
structure DispatchGroup where
  enters : Nat
  leaves : Nat
  blocks : Nat
  leaves_le : leaves ≤ enters
  idle : leaves = enters → blocks = 0

namespace DispatchGroup

def empty : DispatchGroup := ⟨0, 0, 0, le_rfl, fun _ => rfl⟩

def enter (g : DispatchGroup) : DispatchGroup where
  enters := g.enters + 1
  leaves := g.leaves
  blocks := g.blocks
  leaves_le := Nat.le_succ_of_le g.leaves_le
  idle h := by
    have := g.leaves_le
    omega

/-- Register a block, and the number of blocks that run at once. -/
def notify (g : DispatchGroup) : DispatchGroup × Nat :=
  if h : g.leaves = g.enters then (g, 1)
  else ({ g with blocks := g.blocks + 1, idle := fun h' => absurd h' h }, 0)

/-- Leave, and the number of blocks that this makes run. `none` is the crash. -/
def leave (g : DispatchGroup) : Option (DispatchGroup × Nat) :=
  if h : g.leaves = g.enters then none
  else if h' : g.leaves + 1 = g.enters then
    some (⟨g.enters, g.leaves + 1, 0, h'.le, fun _ => rfl⟩, g.blocks)
  else
    some (⟨g.enters, g.leaves + 1, g.blocks, by have := g.leaves_le; omega,
      fun h'' => absurd h'' h'⟩, 0)

/-- After an `enter`, a block registered with `notify` waits. -/
theorem enter_notify (g : DispatchGroup) :
    g.enter.notify.2 = 0 ∧ g.enter.notify.1.enters = g.enters + 1 ∧
      g.enter.notify.1.leaves = g.leaves ∧ g.enter.notify.1.blocks = g.blocks + 1 := by
  have hne : ¬ g.enter.leaves = g.enter.enters := by
    have := g.leaves_le
    simp only [enter]
    omega
  rw [notify, dif_neg hne]
  exact ⟨rfl, rfl, rfl, rfl⟩

/-- With something outstanding, `leave` runs every waiting block when it was
the last, and none otherwise. -/
theorem leave_of_outstanding {g : DispatchGroup} (h : g.leaves < g.enters) :
    ∃ g', g.leave = some (g', if g.leaves + 1 = g.enters then g.blocks else 0) ∧
      g'.enters = g.enters ∧ g'.leaves = g.leaves + 1 := by
  unfold leave
  rw [dif_neg (by omega)]
  split
  · exact ⟨_, rfl, rfl, rfl⟩
  · exact ⟨_, rfl, rfl, rfl⟩

end DispatchGroup
