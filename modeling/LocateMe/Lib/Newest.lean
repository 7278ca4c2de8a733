import Mathlib

/-!
# The newest entries by a key

A history is a list of entries with a key that says how new they are. A reader
sorts it by the key, the newest first, and keeps the first few; a writer that
adds an entry newer than all others can update the reader's copy in place.

Results:
1. `byNewest_append`, `byNewest_of_increasing`: the sorted history after a newest
   entry, and that of a history in order.
2. `pairwise_byNewest`: without repeated keys the keys strictly decrease.
3. `push_take`: pushing onto a full copy and dropping its last entry is the copy of
   the longer history.
-/

namespace Newest

/-- The entries, the greatest key first. -/
def byNewest {α κ : Type} [LinearOrder κ] (key : α → κ) (xs : List α) : List α :=
  xs.insertionSort fun a b => key b ≤ key a

section

variable {α κ : Type} [LinearOrder κ] {key : α → κ} {xs : List α} {x : α}

theorem mem_byNewest : x ∈ byNewest key xs ↔ x ∈ xs :=
  (List.perm_insertionSort _ xs).mem_iff

/-! ## 1. A newest entry -/

/-- An entry above all others comes first. -/
theorem byNewest_append (h : ∀ y ∈ xs, key y < key x) :
    byNewest key (xs ++ [x]) = x :: byNewest key xs := by
  induction xs with
  | nil => rfl
  | cons y ys ih =>
    have hy : ¬ key x ≤ key y := not_le.mpr (h y List.mem_cons_self)
    have hrest := ih fun z hz => h z (List.mem_cons_of_mem _ hz)
    simp only [byNewest] at hrest ⊢
    rw [List.cons_append, List.insertionSort_cons, hrest, List.orderedInsert_cons, if_neg hy]
    rfl

/-- A history whose keys increase is read backwards. -/
theorem byNewest_of_increasing (h : xs.Pairwise fun a b => key a < key b) :
    byNewest key xs = xs.reverse := by
  induction xs using List.reverseRecOn with
  | nil => rfl
  | append_singleton ys y ih =>
    obtain ⟨hys, -, hlt⟩ := List.pairwise_append.mp h
    rw [byNewest_append fun z hz => hlt z hz y List.mem_cons_self, ih hys, List.reverse_concat]

/-! ## 2. The keys of the sorted history -/

theorem pairwise_ge_byNewest : (byNewest key xs).Pairwise fun a b => key b ≤ key a := by
  have htotal : Std.Total fun a b : α => key b ≤ key a := ⟨fun a b => le_total (key b) (key a)⟩
  have htrans : IsTrans α fun a b => key b ≤ key a := ⟨fun a b c hab hbc => hbc.trans hab⟩
  exact List.pairwise_insertionSort _ xs

/-- Without repeated keys the keys strictly decrease. -/
theorem pairwise_byNewest (h : (xs.map key).Nodup) :
    (byNewest key xs).Pairwise fun a b => key b < key a := by
  have hperm : (byNewest key xs).Perm xs := List.perm_insertionSort _ xs
  have hnodup : ((byNewest key xs).map key).Nodup := (hperm.map key).nodup_iff.mpr h
  rw [List.Nodup, List.pairwise_map] at hnodup
  exact (pairwise_ge_byNewest.and hnodup).imp fun hab => lt_of_le_of_ne hab.1 (Ne.symm hab.2)

/-- Some entry of a non-empty copy is at least as new as any entry. -/
theorem exists_newest {n : Nat} (hx : x ∈ xs) :
    ∃ c ∈ (byNewest key xs).take (n + 1), key x ≤ key c := by
  have hmem : x ∈ byNewest key xs := mem_byNewest.mpr hx
  have hsorted : (byNewest key xs).Pairwise fun a b => key b ≤ key a := pairwise_ge_byNewest
  cases hlist : byNewest key xs with
  | nil => simp [hlist] at hmem
  | cons c cs =>
    rw [hlist] at hmem hsorted
    refine ⟨c, by simp, ?_⟩
    rcases List.mem_cons.mp hmem with rfl | hcs
    · exact le_rfl
    · exact (List.pairwise_cons.mp hsorted).1 x hcs

end

/-! ## 3. A bounded copy -/

/-- Pushing an entry onto a copy of the first `n + 1`, after dropping the last of a
full copy. -/
theorem push_take {α : Type} (n : Nat) (x : α) (xs : List α) :
    (x :: if n < (xs.take (n + 1)).length then (xs.take (n + 1)).dropLast else xs.take (n + 1)) =
      (x :: xs).take (n + 1) := by
  rw [List.take_succ_cons]
  congr 1
  rw [List.length_take]
  split
  · next hfull =>
    have hlen : (xs.take (n + 1)).length = n + 1 := by
      rw [List.length_take]
      omega
    rw [List.dropLast_eq_take, hlen, List.take_take]
    congr 1
    omega
  · next hroom =>
    rw [List.take_of_length_le (by omega), List.take_of_length_le (by omega)]

end Newest
