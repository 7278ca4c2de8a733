import Mathlib

/-!
# Stable sorting by a key

Insertion sort keeps the order of entries with the same key, so that where an entry
goes is known from the unsorted list: behind the entries with a smaller key and
behind the earlier ones with the same key.

Results:
1. `getElem?_sortBy`: the entry at a place of the sorted list.
2. `sortBy_append_sortBy`: entries may be added to the sorted list or to the unsorted
   one.
-/

namespace StableSort

/-- The entries with the smallest key first, those with the same key in order. -/
def sortBy {α κ : Type} [LinearOrder κ] (key : α → κ) (xs : List α) : List α :=
  xs.insertionSort fun a b => key a ≤ key b

/-- Where the entry `x` at place `k` goes: how many entries have a smaller key, and
how many earlier ones have the same. -/
def rank {α κ : Type} [LinearOrder κ] (key : α → κ) (xs : List α) (k : ℕ) (x : α) : ℕ :=
  xs.countP (fun y => decide (key y < key x)) +
    (xs.take k).countP fun y => decide (key y = key x)

section

variable {α κ : Type} [LinearOrder κ] {key : α → κ} {xs ys : List α} {x y : α}

theorem perm_sortBy : (sortBy key xs).Perm xs := List.perm_insertionSort _ xs

theorem pairwise_sortBy : (sortBy key xs).Pairwise fun a b => key a ≤ key b := by
  have htotal : Std.Total fun a b : α => key a ≤ key b := ⟨fun a b => le_total (key a) (key b)⟩
  have htrans : IsTrans α fun a b => key a ≤ key b := ⟨fun a b c hab hbc => hab.trans hbc⟩
  exact List.pairwise_insertionSort _ xs

/-! ## 1. Where an entry goes -/

/-- An entry that is inserted goes behind the smaller ones, and the others move. -/
theorem getElem?_orderedInsert (hxs : xs.Pairwise fun a b => key a ≤ key b) (i : ℕ) :
    (xs.orderedInsert (fun a b => key a ≤ key b) y)[i]? = some x ↔
      (i = xs.countP (fun z => decide (key z < key y)) ∧ x = y) ∨
        ∃ j, xs[j]? = some x ∧ i = if key x < key y then j else j + 1 := by
  induction xs generalizing i with
  | nil => cases i <;> simp [eq_comm]
  | cons z zs ih =>
    obtain ⟨hz, hzs⟩ := List.pairwise_cons.mp hxs
    rw [List.orderedInsert_cons]
    split
    · next hle =>
      -- nothing is smaller, and all entries move
      have hall : ∀ b ∈ z :: zs, key y ≤ key b := by
        intro b hb
        rcases List.mem_cons.mp hb with rfl | hb
        · exact hle
        · exact hle.trans (hz b hb)
      have hcount : (z :: zs).countP (fun b => decide (key b < key y)) = 0 := by
        rw [List.countP_eq_zero]
        exact fun b hb => by simpa using hall b hb
      have hmove : ∀ j, (z :: zs)[j]? = some x → ¬ key x < key y :=
        fun j hj => not_lt.mpr (hall x (List.mem_of_getElem? hj))
      rw [hcount]
      cases i with
      | zero =>
        constructor
        · exact fun h => .inl ⟨rfl, (Option.some.inj h).symm⟩
        · rintro (⟨-, rfl⟩ | ⟨j, hj, hi⟩)
          · rfl
          · rw [if_neg (hmove j hj)] at hi
            cases hi
      | succ i =>
        constructor
        · exact fun h => .inr ⟨i, h, by rw [if_neg (hmove i h)]⟩
        · rintro (⟨hi, -⟩ | ⟨j, hj, hi⟩)
          · cases hi
          · rw [if_neg (hmove j hj)] at hi
            obtain rfl := Nat.succ.inj hi
            exact hj
    · next hlt =>
      rw [not_le] at hlt
      rw [List.countP_cons_of_pos (by simpa using hlt)]
      cases i with
      | zero =>
        constructor
        · intro h
          obtain rfl := Option.some.inj h
          exact .inr ⟨0, rfl, by rw [if_pos hlt]⟩
        · rintro (⟨hi, -⟩ | ⟨j, hj, hi⟩)
          · cases hi
          · split at hi
            · subst hi
              exact hj
            · cases hi
      | succ i =>
        rw [List.getElem?_cons_succ, ih hzs]
        constructor
        · rintro (⟨rfl, rfl⟩ | ⟨j, hj, rfl⟩)
          · exact .inl ⟨rfl, rfl⟩
          · exact .inr ⟨j + 1, hj, by split <;> rfl⟩
        · rintro (⟨hi, rfl⟩ | ⟨j, hj, hi⟩)
          · exact .inl ⟨Nat.succ.inj hi, rfl⟩
          · cases j with
            | zero =>
              obtain rfl := Option.some.inj hj
              rw [if_pos hlt] at hi
              cases hi
            | succ j =>
              refine .inr ⟨j, hj, ?_⟩
              split at hi <;> simp_all

theorem rank_cons_succ (k : ℕ) :
    rank key (y :: xs) (k + 1) x =
      if key x < key y then rank key xs k x else rank key xs k x + 1 := by
  unfold rank
  rw [List.take_succ_cons, List.countP_cons, List.countP_cons]
  rcases lt_trichotomy (key x) (key y) with h | h | h
  · simp [h, h.not_gt, h.ne']
  · simp [h, Nat.add_assoc]
  · simp [h, h.not_gt, h.ne]
    omega

/-- The sorted list has at place `i` the entry whose rank is `i`. -/
theorem getElem?_sortBy (i : ℕ) :
    (sortBy key xs)[i]? = some x ↔ ∃ k, xs[k]? = some x ∧ rank key xs k x = i := by
  induction xs generalizing i with
  | nil => simp [sortBy]
  | cons y ys ih =>
    rw [sortBy, List.insertionSort_cons]
    refine (getElem?_orderedInsert pairwise_sortBy i).trans ?_
    rw [perm_sortBy.countP_eq]
    constructor
    · rintro (⟨rfl, rfl⟩ | ⟨j, hj, rfl⟩)
      · exact ⟨0, rfl, by simp [rank]⟩
      · obtain ⟨k, hk, rfl⟩ := (ih j).mp hj
        exact ⟨k + 1, hk, rank_cons_succ k⟩
    · rintro ⟨k, hk, rfl⟩
      cases k with
      | zero =>
        obtain rfl := Option.some.inj hk
        exact .inl ⟨by simp [rank], rfl⟩
      | succ k => exact .inr ⟨_, (ih _).mpr ⟨k, hk, rfl⟩, rank_cons_succ k⟩

/-! ## 2. Adding to a sorted list -/

/-- Two entries with different keys can be inserted in either order. -/
theorem orderedInsert_comm (h : key x < key y) (s : List α) :
    (s.orderedInsert (fun a b => key a ≤ key b) x).orderedInsert (fun a b => key a ≤ key b) y =
      (s.orderedInsert (fun a b => key a ≤ key b) y).orderedInsert
        (fun a b => key a ≤ key b) x := by
  induction s with
  | nil => simp [h.le, h.not_ge]
  | cons z zs ih =>
    by_cases hyz : key y ≤ key z
    · have hxz : key x ≤ key z := h.le.trans hyz
      simp [hyz, hxz, h.le, h.not_ge]
    · by_cases hxz : key x ≤ key z
      · simp [hyz, hxz, h.not_ge]
      · simp [hyz, hxz, ih]

/-- Inserting the entries of a list one by one, the last first. -/
theorem foldr_orderedInsert (x : α) (s acc : List α) :
    (s.orderedInsert (fun a b => key a ≤ key b) x).foldr
        (List.orderedInsert fun a b => key a ≤ key b) acc =
      (s.foldr (List.orderedInsert fun a b => key a ≤ key b) acc).orderedInsert
        (fun a b => key a ≤ key b) x := by
  induction s with
  | nil => rfl
  | cons z zs ih =>
    rw [List.orderedInsert_cons]
    split
    · rfl
    · next hlt =>
      rw [List.foldr_cons, ih, List.foldr_cons, orderedInsert_comm (not_le.mp hlt)]

theorem sortBy_append : sortBy key (xs ++ ys) =
    xs.foldr (List.orderedInsert fun a b => key a ≤ key b) (sortBy key ys) :=
  List.foldr_append

/-- What is added to a sorted list and sorted with it could have been added before. -/
theorem sortBy_append_sortBy : sortBy key (sortBy key xs ++ ys) = sortBy key (xs ++ ys) := by
  rw [sortBy_append, sortBy_append]
  induction xs with
  | nil => rfl
  | cons x xs ih =>
    rw [List.foldr_cons, ← ih]
    exact foldr_orderedInsert x (sortBy key xs) _

end

end StableSort
