import Mathlib

/-!
# Requests in flight

A list of requests that are answered in place: a new request goes to the end, and an
answer sets the entry of its request. `Exclusive P` says that at most one entry has
the property `P`, by its place in the list and not by its value.

Results:
1. `mem_set_of_ne`, `forall_mem_set`, `forall_mem_append`: a request that is answered or
   comes in leaves the others in the list.
2. `Exclusive.append`, `Exclusive.set`, `Exclusive.set_of_none`: which writes keep a
   property exclusive.
3. `Exclusive.eq_of_mem`, `Exclusive.not_mem_set`: what an exclusive property says.
-/

namespace InFlight

/-! ## 1. Answers in place -/

theorem mem_set_of_ne {α : Type} {xs : List α} {i : Nat} {x y z : α} (hx : xs[i]? = some x)
    (hy : y ∈ xs) (hne : y ≠ x) : y ∈ xs.set i z := by
  obtain ⟨j, hj⟩ := List.mem_iff_getElem?.mp hy
  have hij : i ≠ j := by
    rintro rfl
    exact hne (Option.some.inj (hj.symm.trans hx))
  exact List.mem_iff_getElem?.mpr ⟨j, by rw [List.getElem?_set_ne hij, hj]⟩

/-- What holds of all requests and of the new entry. -/
theorem forall_mem_set {α : Type} {P : α → Prop} {xs : List α} {i : Nat} {z : α}
    (h : ∀ x ∈ xs, P x) (hz : P z) : ∀ x ∈ xs.set i z, P x := by
  intro x hx
  rcases List.mem_or_eq_of_mem_set hx with hx | rfl
  · exact h x hx
  · exact hz

theorem forall_mem_append {α : Type} {P : α → Prop} {xs : List α} {z : α} (h : ∀ x ∈ xs, P x)
    (hz : P z) : ∀ x ∈ xs ++ [z], P x := by
  intro x hx
  rcases List.mem_append.mp hx with hx | hx
  · exact h x hx
  · obtain rfl := List.mem_singleton.mp hx
    exact hz

/-! ## 2. At most one -/

/-- At most one entry of the list has the property. -/
def Exclusive {α : Type} (P : α → Prop) (xs : List α) : Prop :=
  ∀ (i j : Nat) (x y : α), xs[i]? = some x → xs[j]? = some y → P x → P y → i = j

namespace Exclusive

theorem nil {α : Type} {P : α → Prop} : Exclusive P [] := by
  intro i j x y hx
  cases hx

theorem eq_of_mem {α : Type} {P : α → Prop} {xs : List α} (h : Exclusive P xs) {x y : α}
    (hx : x ∈ xs) (hy : y ∈ xs) (hPx : P x) (hPy : P y) : x = y := by
  obtain ⟨i, hi⟩ := List.mem_iff_getElem?.mp hx
  obtain ⟨j, hj⟩ := List.mem_iff_getElem?.mp hy
  obtain rfl := h i j x y hi hj hPx hPy
  exact Option.some.inj (hi.symm.trans hj)

theorem append {α : Type} {P : α → Prop} {xs : List α} (h : Exclusive P xs) {x : α}
    (hnew : P x → ∀ y ∈ xs, ¬ P y) : Exclusive P (xs ++ [x]) := by
  have hold : ∀ (i : Nat) (y : α), (xs ++ [x])[i]? = some y →
      xs[i]? = some y ∨ i = xs.length ∧ y = x := by
    intro i y hy
    rw [List.getElem?_append] at hy
    split at hy
    · exact .inl hy
    · rw [List.getElem?_singleton] at hy
      split at hy
      · exact .inr ⟨by omega, (Option.some.inj hy).symm⟩
      · cases hy
  intro i j y z hy hz hPy hPz
  rcases hold i y hy with hyold | ⟨hi, rfl⟩
  · rcases hold j z hz with hzold | ⟨hj, rfl⟩
    · exact h i j y z hyold hzold hPy hPz
    · exact absurd hPy (hnew hPz y (List.mem_of_getElem? hyold))
  · rcases hold j z hz with hzold | ⟨hj, rfl⟩
    · exact absurd hPz (hnew hPy z (List.mem_of_getElem? hzold))
    · exact hi.trans hj.symm

/-- What the list holds after an answer. -/
theorem getElem?_set_cases {α : Type} {xs : List α} {i j : Nat} {y z : α}
    (h : (xs.set i z)[j]? = some y) : j = i ∧ y = z ∨ j ≠ i ∧ xs[j]? = some y := by
  rw [List.getElem?_set] at h
  split at h
  · next hij =>
    split at h
    · exact .inl ⟨hij.symm, (Option.some.inj h).symm⟩
    · cases h
  · next hij => exact .inr ⟨Ne.symm hij, h⟩

/-- An answer to a request that has the property, when its new entry does. -/
theorem set {α : Type} {P : α → Prop} {xs : List α} (h : Exclusive P xs) {i : Nat} {x z : α}
    (hx : xs[i]? = some x) (hkeep : P z → P x) : Exclusive P (xs.set i z) := by
  intro j k y w hy hw hPy hPw
  rcases getElem?_set_cases hy with ⟨rfl, rfl⟩ | ⟨-, hyold⟩
  · rcases getElem?_set_cases hw with ⟨rfl, rfl⟩ | ⟨-, hwold⟩
    · rfl
    · exact h _ _ x w hx hwold (hkeep hPy) hPw
  · rcases getElem?_set_cases hw with ⟨rfl, rfl⟩ | ⟨-, hwold⟩
    · exact h _ _ y x hyold hx hPy (hkeep hPw)
    · exact h _ _ y w hyold hwold hPy hPw

/-- An answer when no request has the property. -/
theorem set_of_none {α : Type} {P : α → Prop} {xs : List α} {i : Nat} {z : α}
    (hnone : ∀ y ∈ xs, ¬ P y) : Exclusive P (xs.set i z) := by
  intro j k y w hy hw hPy hPw
  rcases getElem?_set_cases hy with ⟨rfl, rfl⟩ | ⟨-, hyold⟩
  · rcases getElem?_set_cases hw with ⟨rfl, rfl⟩ | ⟨-, hwold⟩
    · rfl
    · exact absurd hPw (hnone w (List.mem_of_getElem? hwold))
  · exact absurd hPy (hnone y (List.mem_of_getElem? hyold))

/-- When the answered request has the property and its new entry has not, none has. -/
theorem not_mem_set {α : Type} {P : α → Prop} {xs : List α} (h : Exclusive P xs) {i : Nat}
    {x z : α} (hx : xs[i]? = some x) (hPx : P x) (hz : ¬ P z) : ∀ y ∈ xs.set i z, ¬ P y := by
  intro y hy hPy
  obtain ⟨j, hj⟩ := List.mem_iff_getElem?.mp hy
  rcases getElem?_set_cases hj with ⟨-, rfl⟩ | ⟨hne, hj⟩
  · exact hz hPy
  · exact hne (h j i y x hj hx hPy hPx)

end Exclusive

end InFlight
