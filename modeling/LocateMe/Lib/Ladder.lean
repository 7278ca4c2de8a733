import Mathlib

/-!
# Picking elements against a rising threshold

A walk along a list picks the first element, and then every element whose
height reaches the current threshold; each pick raises the threshold by a
fixed step `D`. `Rung h D xs m i` describes the picks without the walk: rung
`0` is index `0`, and rung `m + 1` is the least index after rung `m` whose
height is at least `(m + 1) * D`.

Results:
1. `rung_unique`, `rung_below`: a rung number has one index, and below a rung
   lie all rungs of smaller number.
2. `pick_isClimb`, `mem_pick_iff`: the walk picks exactly the rungs, in order: each
   time the least index that qualifies, up to the last one after which none does.
3. `IsClimb.length_le`, `IsClimb.length_le_of_le`: how many picks there are, and
   that a larger step never picks more.
4. `exists_rung_iff`: an element is picked iff it is reached before any ascent, greedy
   or not, has as many steps as fit below it. `rung_record`: where heights rise by at
   most `D` at a time it is higher, in steps of `D`, than all before it.
-/

namespace Ladder

/-- The walk: the picked elements of the rest of the list, for the current
threshold. -/
def climb {α R : Type} [Add R] [LE R] [DecidableLE R] (h : α → R) (D : R) : R → List α → List α
  | _, [] => []
  | threshold, x :: xs =>
    if threshold ≤ h x then x :: climb h D (threshold + D) xs else climb h D threshold xs

/-- `Rung h D xs m i`: the `m`-th pick along `xs` is the element at index `i`. -/
inductive Rung {α R : Type} [AddMonoid R] [LinearOrder R] (h : α → R) (D : R) (xs : List α) :
    Nat → Nat → Prop
  | start : 0 < xs.length → Rung h D xs 0 0
  | next {m i j : Nat} {x : α} :
      Rung h D xs m i → i < j → xs[j]? = some x → (m + 1) • D ≤ h x →
      (∀ l y, i < l → l < j → xs[l]? = some y → h y < (m + 1) • D) →
      Rung h D xs (m + 1) j

section

variable {α R : Type} [AddMonoid R] [LinearOrder R] {h : α → R} {D : R} {xs : List α}

/-! ## 1. Rungs are ordered -/

theorem rung_unique {m i j : Nat} (hi : Rung h D xs m i) (hj : Rung h D xs m j) : i = j := by
  induction hi generalizing j with
  | start _ =>
    cases hj
    rfl
  | @next m p i x _ hpi hx hge hlow ih =>
    cases hj with
    | @next _ q _ y hq hqj hy hge' hlow' =>
      obtain rfl : p = q := ih hq
      -- of two least indices neither can be below the other
      rcases lt_trichotomy i j with hij | hij | hji
      · exact absurd (hlow' i x hpi hij hx) (not_lt.mpr hge)
      · exact hij
      · exact absurd (hlow j y hqj hji hy) (not_lt.mpr hge')

/-- Below a rung lie all rungs of smaller number. -/
theorem rung_below {m i : Nat} (hi : Rung h D xs m i) {k : Nat} (hk : k < m) :
    ∃ p, Rung h D xs k p ∧ p < i := by
  induction hi with
  | start _ => omega
  | @next m p i x hp hpi _ _ _ ih =>
    rcases Nat.lt_or_ge k m with hlt | hge
    · obtain ⟨q, hq, hqp⟩ := ih hlt
      exact ⟨q, hq, by omega⟩
    · obtain rfl : k = m := by omega
      exact ⟨p, hp, hpi⟩

/-! ## 2. The walk picks the rungs, in order -/

/-- The least index after `p` whose height reaches `bound` is `q`. -/
structure NextReaching {α R : Type} [LT R] [LE R] (h : α → R) (bound : R) (xs : List α)
    (p q : Nat) : Prop where
  after : p < q
  reaches : ∃ x, xs[q]? = some x ∧ bound ≤ h x
  least : ∀ l y, p < l → l < q → xs[l]? = some y → h y < bound

/-- `picks` are the indices `i₀, i₁, ...` picked along `xs` in order: `i₀ = 0`,
each later one is the least index after `iₖ` whose height reaches `(k + 1) * D`,
and after the last one there is none. -/
structure IsClimb {α R : Type} [AddMonoid R] [LinearOrder R] (h : α → R) (D : R) (xs : List α)
    (picks : List Nat) : Prop where
  start : picks[0]? = some 0
  next : ∀ k p q, picks[k]? = some p → picks[k + 1]? = some q →
    NextReaching h ((k + 1) • D) xs p q
  stop : ∀ k p, picks[k]? = some p → picks[k + 1]? = none →
    ∀ l y, p < l → xs[l]? = some y → h y < (k + 1) • D

/-- Where some later height reaches the next threshold there is a next rung,
and it is not after that height. -/
theorem exists_next_rung {m p l : Nat} {y : α} (hp : Rung h D xs m p) (hpl : p < l)
    (hy : xs[l]? = some y) (hge : (m + 1) • D ≤ h y) : ∃ j ≤ l, Rung h D xs (m + 1) j := by
  classical
  have hex : ∃ j, p < j ∧ ∃ x, xs[j]? = some x ∧ (m + 1) • D ≤ h x := ⟨l, hpl, y, hy, hge⟩
  obtain ⟨hpj, x, hx, hxge⟩ := Nat.find_spec hex
  refine ⟨Nat.find hex, Nat.find_le ⟨hpl, y, hy, hge⟩, .next hp hpj hx hxge ?_⟩
  intro i z hpi hij hz
  by_contra hnot
  exact Nat.find_min hex hij ⟨hpi, z, hz, not_lt.mp hnot⟩

theorem rung_height {m i : Nat} (hnonneg : ∀ x, 0 ≤ h x) (hi : Rung h D xs m i) :
    ∃ x, xs[i]? = some x ∧ m • D ≤ h x := by
  cases hi with
  | start hpos =>
    refine ⟨xs[0], List.getElem?_eq_getElem hpos, ?_⟩
    rw [zero_nsmul]
    exact hnonneg _
  | next _ _ hx hge _ => exact ⟨_, hx, hge⟩

/-- No rung is past the end of the list. -/
theorem rung_lt_length {m i : Nat} (hi : Rung h D xs m i) : i < xs.length := by
  cases hi with
  | start hpos => exact hpos
  | next _ _ hx _ _ => exact (List.getElem?_eq_some_iff.mp hx).1

/-- With nothing at the next threshold between rung `m` and index `i`, no later rung
is before `i`. -/
theorem le_of_later_rung {m p i : Nat} (hp : Rung h D xs m p)
    (hlow : ∀ l y, p < l → l < i → xs[l]? = some y → h y < (m + 1) • D) {k j : Nat}
    (hmk : m < k) (hj : Rung h D xs k j) : i ≤ j := by
  obtain ⟨q, hq, hqj⟩ : ∃ q, Rung h D xs (m + 1) q ∧ q ≤ j := by
    rcases Nat.lt_or_ge (m + 1) k with hlt | hge
    · obtain ⟨q, hq, hqj⟩ := rung_below hj hlt
      exact ⟨q, hq, hqj.le⟩
    · obtain rfl : k = m + 1 := by omega
      exact ⟨j, hj, le_rfl⟩
  cases hq with
  | @next _ p' _ x hp' hpq hx hge _ =>
    obtain rfl := rung_unique hp hp'
    by_contra hji
    exact absurd (hlow q x hpq (by omega) hx) (not_lt.mpr hge)

/-- A rung and the later ones number the rungs from it on. -/
theorem cons_picks {m i : Nat} {picks : List Nat} (hi : Rung h D xs m i)
    (hrungs : ∀ k j, picks[k]? = some j ↔ Rung h D xs (m + 1 + k) j) (k j : Nat) :
    (i :: picks)[k]? = some j ↔ Rung h D xs (m + k) j := by
  cases k with
  | zero =>
    rw [List.getElem?_cons_zero, Option.some.injEq, Nat.add_zero]
    constructor
    · rintro rfl
      exact hi
    · exact rung_unique hi
  | succ k => rw [List.getElem?_cons_succ, hrungs, show m + 1 + k = m + (k + 1) by omega]

/-- From index `i` on, with rung `m` at an earlier index `p` and nothing at the next
threshold between the two, the walk picks the rungs above `m`, one after the other. -/
theorem climb_picks {rest : List α} {m p i : Nat} (hrest : xs.drop i = rest)
    (hp : Rung h D xs m p) (hpi : p < i)
    (hlow : ∀ l y, p < l → l < i → xs[l]? = some y → h y < (m + 1) • D) :
    ∃ picks : List Nat, (climb h D ((m + 1) • D) rest).map some = picks.map (xs[·]?) ∧
      ∀ k j, picks[k]? = some j ↔ Rung h D xs (m + 1 + k) j := by
  induction rest generalizing m p i with
  | nil =>
    -- past the end there is no further rung
    refine ⟨[], rfl, fun k j => iff_of_false (by simp) fun hj => ?_⟩
    have hij := le_of_later_rung hp hlow (by omega) hj
    have hlen : xs.length ≤ i := List.drop_eq_nil_iff.mp hrest
    exact absurd (rung_lt_length hj) (by omega)
  | cons x rest ih =>
    have hx : xs[i]? = some x := by
      rw [← List.head?_drop, hrest]
      rfl
    have hrest' : xs.drop (i + 1) = rest := by
      rw [← List.tail_drop, hrest]
      rfl
    rw [climb]
    split
    · next hge =>
      -- the element at `i` is rung `m + 1`
      have hi : Rung h D xs (m + 1) i := .next hp hpi hx hge hlow
      obtain ⟨picks, hmap, hrungs⟩ := ih hrest' hi (by omega) (fun l y hl hl' => by omega)
      rw [succ_nsmul D (m + 1)] at hmap
      exact ⟨i :: picks, by simp [hmap, hx], cons_picks hi hrungs⟩
    · next hlt =>
      refine ih hrest' hp (by omega) fun l y hl hl' hy => ?_
      rcases Nat.lt_or_ge l i with hli | hli
      · exact hlow l y hl hli hy
      · obtain rfl : l = i := by omega
        obtain rfl := Option.some.inj (hy.symm.trans hx)
        exact not_le.mp hlt

/-- A list of indices that numbers the rungs is a climb. -/
theorem isClimb_of_rungs {picks : List Nat} (hne : 0 < xs.length)
    (hrungs : ∀ k j, picks[k]? = some j ↔ Rung h D xs k j) : IsClimb h D xs picks where
  start := (hrungs 0 0).mpr (.start hne)
  next k p q hp hq := by
    have hpr := (hrungs k p).mp hp
    cases (hrungs (k + 1) q).mp hq with
    | @next _ p' _ x hp' hpq hx hge hlow =>
      obtain rfl := rung_unique hpr hp'
      exact ⟨hpq, ⟨x, hx, hge⟩, hlow⟩
  stop k p hp hnone l y hpl hy := by
    by_contra hnot
    obtain ⟨j, -, hj⟩ := exists_next_rung ((hrungs k p).mp hp) hpl hy (not_lt.mp hnot)
    rw [(hrungs (k + 1) j).mpr hj] at hnone
    cases hnone

/-- Along a climb the picks are the rungs. -/
theorem IsClimb.rung {picks : List Nat} (hclimb : IsClimb h D xs picks) (hne : 0 < xs.length)
    {k j : Nat} : picks[k]? = some j ↔ Rung h D xs k j := by
  induction k generalizing j with
  | zero =>
    rw [hclimb.start, Option.some.injEq]
    constructor
    · rintro rfl
      exact .start hne
    · exact rung_unique (.start hne)
  | succ k ih =>
    constructor
    · intro hj
      obtain ⟨hlt, -⟩ := List.getElem?_eq_some_iff.mp hj
      obtain ⟨p, hp⟩ : ∃ p, picks[k]? = some p := ⟨_, List.getElem?_eq_getElem (by omega)⟩
      obtain ⟨hpj, ⟨x, hx, hge⟩, hlow⟩ := hclimb.next k p j hp hj
      exact .next (ih.mp hp) hpj hx hge hlow
    · intro hj
      cases hj with
      | @next _ p _ x hp hpj hx hge hlow =>
        have hpk := ih.mpr hp
        cases hq : picks[k + 1]? with
        | none => exact absurd (hclimb.stop k p hpk hq j x hpj hx) (not_lt.mpr hge)
        | some q =>
          obtain ⟨hpq, ⟨y, hy, hyge⟩, hqlow⟩ := hclimb.next k p q hpk hq
          exact congrArg some (rung_unique (.next hp hpq hy hyge hqlow)
            (.next hp hpj hx hge hlow))

/-- The whole walk, with the indices that it picks. -/
theorem pick_isClimb (h : α → R) (D : R) (x : α) (xs : List α) :
    ∃ picks : List Nat, (x :: climb h D D xs).map some = picks.map ((x :: xs)[·]?) ∧
      IsClimb h D (x :: xs) picks := by
  have hstart : Rung h D (x :: xs) 0 0 := .start (by simp)
  have hrest : (x :: xs).drop 1 = xs := rfl
  obtain ⟨picks, hmap, hrungs⟩ := climb_picks hrest hstart (by omega) (fun l y hl hl' => by omega)
  rw [zero_add, one_nsmul] at hmap
  refine ⟨0 :: picks, by simp [hmap], isClimb_of_rungs (by simp) fun k j => ?_⟩
  rw [cons_picks hstart hrungs, zero_add]

/-- The whole walk picks exactly the rungs. -/
theorem mem_pick_iff {x z : α} :
    z ∈ x :: climb h D D xs ↔
      ∃ m i, Rung h D (x :: xs) m i ∧ (x :: xs)[i]? = some z := by
  obtain ⟨picks, hmap, hclimb⟩ := pick_isClimb h D x xs
  have hne : 0 < (x :: xs).length := by simp
  have hpicks : z ∈ x :: climb h D D xs ↔ ∃ i ∈ picks, (x :: xs)[i]? = some z := by
    rw [← List.mem_map, ← hmap]
    simp
  rw [hpicks]
  constructor
  · rintro ⟨i, hi, hz⟩
    obtain ⟨m, hm⟩ := List.getElem?_of_mem hi
    exact ⟨m, i, (hclimb.rung hne).mp hm, hz⟩
  · rintro ⟨m, i, hi, hz⟩
    exact ⟨i, List.mem_of_getElem? ((hclimb.rung hne).mpr hi), hz⟩

end

/-! ## 3. How many picks there are -/

/-- With a smaller step the same rung is reached no later. -/
theorem rung_mono {α R : Type} [AddCommMonoid R] [LinearOrder R] [IsOrderedAddMonoid R]
    {h : α → R} {D D' : R} {xs : List α} (hD : D ≤ D') {m i : Nat} (hi : Rung h D' xs m i) :
    ∃ j ≤ i, Rung h D xs m j := by
  induction hi with
  | start hpos => exact ⟨0, le_rfl, .start hpos⟩
  | @next m p i x _ hpi hx hge _ ih =>
    obtain ⟨j, hjp, hj⟩ := ih
    have hreach : (m + 1) • D ≤ h x := le_trans (nsmul_le_nsmul_right hD (m + 1)) hge
    exact exists_next_rung hj (by omega) hx hreach

/-- A larger step never picks more. -/
theorem IsClimb.length_le_of_le {α R : Type} [AddCommMonoid R] [LinearOrder R]
    [IsOrderedAddMonoid R] {h : α → R} {D D' : R} {xs : List α} {picks picks' : List Nat}
    (hclimb : IsClimb h D xs picks) (hclimb' : IsClimb h D' xs picks') (hne : 0 < xs.length)
    (hD : D ≤ D') : picks'.length ≤ picks.length := by
  by_contra hmore
  have hlt : picks.length < picks'.length := by omega
  -- the rung of `D'` numbered after the last pick of `D`
  have hrung := (hclimb'.rung hne).mp (List.getElem?_eq_getElem hlt)
  obtain ⟨j, -, hj⟩ := rung_mono hD hrung
  have hpick := (hclimb.rung hne).mpr hj
  simp at hpick

/-- There are at most as many picks after the first as steps fit below the
greatest height. -/
theorem IsClimb.length_le {α R : Type} [Field R] [LinearOrder R] [IsStrictOrderedRing R]
    [FloorSemiring R] {h : α → R} {D : R} {xs : List α} {picks : List Nat}
    (hclimb : IsClimb h D xs picks) (hne : 0 < xs.length) (hnonneg : ∀ x, 0 ≤ h x) (hD : 0 < D)
    {M : R} (hM : ∀ x ∈ xs, h x ≤ M) : picks.length ≤ 1 + ⌊M / D⌋₊ := by
  rcases Nat.eq_zero_or_pos picks.length with hzero | hpos
  · omega
  · have hlast : picks.length - 1 < picks.length := by omega
    have hrung := (hclimb.rung hne).mp (List.getElem?_eq_getElem hlast)
    obtain ⟨x, hx, hge⟩ := rung_height hnonneg hrung
    have hle : ((picks.length - 1 : Nat) : R) ≤ M / D := by
      rw [le_div_iff₀ hD, ← nsmul_eq_mul]
      exact hge.trans (hM x (List.mem_of_getElem? hx))
    have hfloor := Nat.le_floor hle
    omega

/-! ## 4. Ascents that need not be greedy -/

/-- Indices after `0`, one after the other, of which the `k`-th has a height of at
least `k * D`. -/
structure Ascent {α R : Type} [AddMonoid R] [LinearOrder R] (h : α → R) (D : R) (xs : List α)
    (steps : List Nat) : Prop where
  increasing : (0 :: steps).Pairwise (· < ·)
  high : ∀ k i, steps[k]? = some i → ∃ x, xs[i]? = some x ∧ (k + 1) • D ≤ h x

section

variable {α R : Type} [AddMonoid R] [LinearOrder R] {h : α → R} {D : R} {xs : List α}

theorem Ascent.nil : Ascent h D xs [] := ⟨by simp, by simp⟩

theorem ascent_concat {steps : List Nat} {j : Nat} :
    Ascent h D xs (steps ++ [j]) ↔ Ascent h D xs steps ∧ (∀ i ∈ 0 :: steps, i < j) ∧
      ∃ x, xs[j]? = some x ∧ (steps.length + 1) • D ≤ h x := by
  have hpairwise : (0 :: (steps ++ [j])).Pairwise (· < ·) ↔
      (0 :: steps).Pairwise (· < ·) ∧ ∀ i ∈ 0 :: steps, i < j := by
    rw [← List.cons_append, List.pairwise_append]
    simp
  constructor
  · rintro ⟨hincreasing, hhigh⟩
    obtain ⟨hsteps, hlast⟩ := hpairwise.mp hincreasing
    refine ⟨⟨hsteps, fun k i hk => ?_⟩, hlast, hhigh steps.length j (by simp)⟩
    have hlt : k < steps.length := (List.getElem?_eq_some_iff.mp hk).1
    exact hhigh k i (by rwa [List.getElem?_append_left hlt])
  · rintro ⟨⟨hsteps, hhigh⟩, hlast, hj⟩
    refine ⟨hpairwise.mpr ⟨hsteps, hlast⟩, fun k i hk => ?_⟩
    rcases Nat.lt_or_ge k steps.length with hlt | hge
    · rw [List.getElem?_append_left hlt] at hk
      exact hhigh k i hk
    · rw [List.getElem?_append_right hge, List.getElem?_singleton] at hk
      split at hk
      · obtain rfl := Option.some.inj hk
        obtain rfl : k = steps.length := by omega
        exact hj
      · cases hk

/-- The rungs up to one are an ascent. -/
theorem ascent_of_rung {m j : Nat} (hj : Rung h D xs m j) :
    ∃ steps, steps.length = m ∧ Ascent h D xs steps ∧ ∀ i ∈ 0 :: steps, i ≤ j := by
  induction hj with
  | start _ => exact ⟨[], rfl, .nil, by simp⟩
  | @next m p j x _ hpj hx hge _ ih =>
    obtain ⟨steps, rfl, hsteps, hle⟩ := ih
    refine ⟨steps ++ [j], by simp, ?_, ?_⟩
    · exact ascent_concat.mpr ⟨hsteps, fun i hi => (hle i hi).trans_lt hpj, x, hx, hge⟩
    · rw [← List.cons_append]
      intro i hi
      rcases List.mem_append.mp hi with hi | hi
      · exact (hle i hi).trans hpj.le
      · exact (List.mem_singleton.mp hi).le

/-- No ascent is ahead of the greedy one. -/
theorem rung_of_ascent {steps : List Nat} {i : Nat} (hsteps : Ascent h D xs (steps ++ [i])) :
    ∃ j ≤ i, Rung h D xs (steps.length + 1) j := by
  induction steps using List.reverseRecOn generalizing i with
  | nil =>
    obtain ⟨-, hafter, x, hx, hge⟩ := ascent_concat.mp hsteps
    have hpos : 0 < i := hafter 0 List.mem_cons_self
    have hlt : i < xs.length := (List.getElem?_eq_some_iff.mp hx).1
    exact exists_next_rung (.start (by omega)) hpos hx hge
  | append_singleton steps p ih =>
    obtain ⟨hbefore, hafter, x, hx, hge⟩ := ascent_concat.mp hsteps
    obtain ⟨q, hqp, hq⟩ := ih hbefore
    have hpi : p < i := hafter p (by simp)
    rw [List.length_append, List.length_singleton] at hge ⊢
    exact exists_next_rung hq (by omega) hx hge

theorem rung_le_index {m i : Nat} (hi : Rung h D xs m i) : m ≤ i := by
  induction hi with
  | start _ => exact le_rfl
  | next _ hpi _ _ _ ih => omega

/-- Before a rung no ascent has as many steps. -/
theorem length_lt_of_rung {m j : Nat} (hj : Rung h D xs m j) {steps : List Nat}
    (hsteps : Ascent h D xs steps) (hbefore : ∀ i ∈ 0 :: steps, i < j) : steps.length < m := by
  induction steps using List.reverseRecOn with
  | nil =>
    rcases Nat.eq_zero_or_pos m with rfl | hpos
    · cases hj
      exact absurd (hbefore 0 List.mem_cons_self) (lt_irrefl 0)
    · exact hpos
  | append_singleton steps p ih =>
    have hlt := ih (ascent_concat.mp hsteps).1 fun i hi => hbefore i (by
      rcases List.mem_cons.mp hi with rfl | hi
      · exact List.mem_cons_self
      · exact List.mem_cons_of_mem _ (List.mem_append_left _ hi))
    obtain ⟨q, hqp, hq⟩ := rung_of_ascent hsteps
    have hpj : p < j := hbefore p (by simp)
    rw [List.length_append, List.length_singleton]
    refine lt_of_le_of_ne hlt ?_
    rintro rfl
    exact absurd (rung_unique hq hj) (by omega)

end

section

variable {α R : Type} [AddCommMonoid R] [LinearOrder R] [IsOrderedAddMonoid R] {h : α → R} {D : R}
  {xs : List α}

/-- A later element is picked iff, for some `m`, its height is at least `m * D` and the
elements before it hold no ascent of `m` steps. -/
theorem exists_rung_iff (hD : 0 ≤ D) {j : Nat} (hpos : 0 < j) :
    (∃ m, Rung h D xs m j) ↔ ∃ m x, xs[j]? = some x ∧ m • D ≤ h x ∧
      ∀ steps, Ascent h D xs steps → (∀ i ∈ steps, i < j) → steps.length < m := by
  constructor
  · rintro ⟨m, hj⟩
    have hbefore : ∀ steps, Ascent h D xs steps → (∀ i ∈ steps, i < j) → steps.length < m :=
      fun steps hsteps hlt => length_lt_of_rung hj hsteps (by simpa [hpos] using hlt)
    cases hj with
    | start _ => exact absurd hpos (lt_irrefl 0)
    | next _ _ hx hge _ => exact ⟨_, _, hx, hge, hbefore⟩
  · rintro ⟨m, x, hx, hge, hbefore⟩
    have hlen : j < xs.length := (List.getElem?_eq_some_iff.mp hx).1
    -- the last rung before `j`
    have hend : ∃ n, ¬ ∃ p < j, Rung h D xs n p :=
      ⟨j, fun ⟨p, hpj, hp⟩ => absurd (rung_le_index hp) (by omega)⟩
    classical
    obtain ⟨n, hn⟩ : ∃ n, Nat.find hend = n + 1 := by
      refine Nat.exists_eq_succ_of_ne_zero fun hzero => ?_
      exact (hzero ▸ Nat.find_spec hend) ⟨0, hpos, .start (by omega)⟩
    obtain ⟨p, hpj, hp⟩ := not_not.mp (Nat.find_min hend (m := n) (by omega))
    obtain ⟨steps, rfl, hsteps, hle⟩ := ascent_of_rung hp
    have hfewer := hbefore steps hsteps fun i hi =>
      (hle i (List.mem_cons_of_mem 0 hi)).trans_lt hpj
    have hreach : (steps.length + 1) • D ≤ h x := (nsmul_le_nsmul_left hD hfewer).trans hge
    obtain ⟨q, hqj, hq⟩ := exists_next_rung hp hpj hx hreach
    have hnone := hn ▸ Nat.find_spec hend
    obtain rfl : q = j := by
      by_contra hne
      exact hnone ⟨q, by omega, hq⟩
    exact ⟨_, hq⟩

end

/-- Where the heights rise by at most `D` at a time, everything before a rung is lower
than its threshold. -/
theorem rung_record {α R : Type} [AddCommMonoid R] [LinearOrder R] [IsOrderedCancelAddMonoid R]
    {h : α → R} {D : R} {xs : List α} (hD : 0 ≤ D) (hstart : ∀ x, xs[0]? = some x → h x < D)
    (hgentle : ∀ i x y, xs[i]? = some x → xs[i + 1]? = some y → h y ≤ h x + D) {m j : Nat}
    (hj : Rung h D xs m j) : ∀ i y, i < j → xs[i]? = some y → h y < m • D := by
  induction hj with
  | start _ => exact fun i y hi => absurd hi (Nat.not_lt_zero i)
  | @next m p j x hp hpj _ _ hlow ih =>
    intro i y hij hy
    rcases lt_trichotomy i p with hip | rfl | hpi
    · exact (ih i y hip hy).trans_le (nsmul_le_nsmul_left hD m.le_succ)
    · -- the rung below is one element after something lower than its threshold
      cases i with
      | zero =>
        obtain rfl : m = 0 := Nat.le_zero.mp (rung_le_index hp)
        rw [zero_add, one_nsmul]
        exact hstart y hy
      | succ i =>
        have hlen : i + 1 < xs.length := (List.getElem?_eq_some_iff.mp hy).1
        obtain ⟨z, hz⟩ : ∃ z, xs[i]? = some z := ⟨_, List.getElem?_eq_getElem (by omega)⟩
        have hprevious : h z < m • D := ih i z (by omega) hz
        calc h y ≤ h z + D := hgentle i z y hz hy
          _ < m • D + D := by gcongr
          _ = (m + 1) • D := (succ_nsmul D m).symm
    · exact hlow i y hpi hij hy

end Ladder
