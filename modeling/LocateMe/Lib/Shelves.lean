import LocateMe.Lib.Machine

/-!
# Items on titled shelves

Shelves with distinct titles, and items each of which stands on some of them. An item
that is taken off its last shelf is gone. Invalid states cannot be built: the fields
of `Shelves` say that titles are distinct, that exactly the items that are there stand
somewhere, and that they stand on shelves that are there.

Results:
1. `label_label`, `put_put`: a later operation of a kind replaces an earlier one.
2. `label_self`, `put_self`, `keep_self`, `put_nowhere`: operations that change nothing.
3. `keep_eq_put`: taking one item off some shelves is putting it on the others.
4. `step_label`, `step_put`, `step_unlabel`: when an operation is possible.
-/

/-- Titled shelves `l : L`, and items `d : D` with their data, each on some shelves. -/
@[ext] structure Shelves (L T D P : Type) where
  title : L → Option T
  item : D → Option P
  on : D → Set L
  titles : ∀ l m t, title l = some t → title m = some t → l = m
  standing : ∀ d, (item d).isSome ↔ (on d).Nonempty
  labelled : ∀ d, ∀ l ∈ on d, (title l).isSome

namespace Shelves

variable {L T D P : Type}

def empty : Shelves L T D P where
  title _ := none
  item _ := none
  on _ := ∅
  titles := by simp
  standing := by simp
  labelled := by simp

/-- The items on a shelf. -/
def contents (s : Shelves L T D P) (l : L) : Set D := {d | l ∈ s.on d}

/-- An item that stands nowhere is not there. -/
theorem item_eq_none {s : Shelves L T D P} {d : D} : s.item d = none ↔ ¬ (s.on d).Nonempty := by
  rw [← s.standing, Option.not_isSome_iff_eq_none]

/-- Shelves are equal when items stand on the same ones and those that do have the
same data. -/
theorem ext_on {s t : Shelves L T D P} (htitle : s.title = t.title) (hon : s.on = t.on)
    (hitem : ∀ d, (s.on d).Nonempty → s.item d = t.item d) : s = t := by
  refine Shelves.ext htitle (funext fun d => ?_) hon
  rcases em (s.on d).Nonempty with h | h
  · exact hitem d h
  · rw [item_eq_none.mpr h, item_eq_none.mpr (hon ▸ h)]

/-! ## 1. Operations -/

/-- Give a shelf, old or new, a title that no other shelf has. -/
def label [DecidableEq L] (s : Shelves L T D P) (l : L) (t : T)
    (h : ∀ m, s.title m = some t → m = l) : Shelves L T D P where
  title := Function.update s.title l (some t)
  item := s.item
  on := s.on
  titles i j u hi hj := by
    rw [Function.update_apply] at hi hj
    split_ifs at hi hj with hil hjl hjl
    · rw [hil, hjl]
    · obtain rfl := Option.some.inj hi
      rw [hil, h j hj]
    · obtain rfl := Option.some.inj hj
      rw [hjl, h i hi]
    · exact s.titles i j u hi hj
  standing := s.standing
  labelled d m hm := by
    rw [Function.update_apply]
    split
    · rfl
    · exact s.labelled d m hm

/-- Take an empty shelf away. -/
def unlabel [DecidableEq L] (s : Shelves L T D P) (l : L) (h : ∀ d, l ∉ s.on d) :
    Shelves L T D P where
  title := Function.update s.title l none
  item := s.item
  on := s.on
  titles i j u hi hj := by
    rw [Function.update_apply] at hi hj
    split_ifs at hi hj
    exact s.titles i j u hi hj
  standing := s.standing
  labelled d m hm := by
    rw [Function.update_of_ne]
    · exact s.labelled d m hm
    · rintro rfl
      exact h d hm

open scoped Classical in
/-- Put an item, old or new, on exactly these shelves; on none of them it is gone. -/
noncomputable def put [DecidableEq D] (s : Shelves L T D P) (d : D) (p : P) (S : Set L)
    (h : ∀ l ∈ S, (s.title l).isSome) : Shelves L T D P where
  title := s.title
  item := Function.update s.item d (if S.Nonempty then some p else none)
  on := Function.update s.on d S
  titles := s.titles
  standing e := by
    rw [Function.update_apply, Function.update_apply]
    split
    · split <;> simpa
    · exact s.standing e
  labelled e l hl := by
    rw [Function.update_apply] at hl
    split at hl
    · exact h l hl
    · exact s.labelled e l hl

open scoped Classical in
/-- Leave every item only on the shelves where it may stay. -/
noncomputable def keep (s : Shelves L T D P) (stays : D → L → Prop) : Shelves L T D P where
  title := s.title
  item d := if ∃ l ∈ s.on d, stays d l then s.item d else none
  on d := {l | l ∈ s.on d ∧ stays d l}
  titles := s.titles
  standing d := by
    split
    · next h =>
      obtain ⟨l, hl, hstays⟩ := h
      exact iff_of_true ((s.standing d).mpr ⟨l, hl⟩) ⟨l, hl, hstays⟩
    · next h => exact iff_of_false (by simp) fun ⟨l, hl, hstays⟩ => h ⟨l, hl, hstays⟩
  labelled d l hl := s.labelled d l hl.1

/-! ## 2. How operations compose -/

theorem put_item [DecidableEq D] (s : Shelves L T D P) (d : D) (p : P) {S : Set L}
    (h : ∀ l ∈ S, (s.title l).isSome) (hS : S.Nonempty) : (s.put d p S h).item d = some p := by
  simp [put, hS]

theorem put_item_of_ne [DecidableEq D] (s : Shelves L T D P) {d e : D} (hne : e ≠ d) (p : P)
    {S : Set L} (h : ∀ l ∈ S, (s.title l).isSome) : (s.put d p S h).item e = s.item e :=
  Function.update_of_ne hne _ _

theorem put_on [DecidableEq D] (s : Shelves L T D P) (d : D) (p : P) {S : Set L}
    (h : ∀ l ∈ S, (s.title l).isSome) : (s.put d p S h).on d = S :=
  Function.update_self _ _ _

theorem put_on_of_ne [DecidableEq D] (s : Shelves L T D P) {d e : D} (hne : e ≠ d) (p : P)
    {S : Set L} (h : ∀ l ∈ S, (s.title l).isSome) : (s.put d p S h).on e = s.on e :=
  Function.update_of_ne hne _ _

@[simp] theorem mem_keep_on {s : Shelves L T D P} {stays : D → L → Prop} {d : D} {l : L} :
    l ∈ (s.keep stays).on d ↔ l ∈ s.on d ∧ stays d l :=
  Iff.rfl

theorem keep_item {s : Shelves L T D P} {stays : D → L → Prop} {d : D}
    (h : ((s.keep stays).on d).Nonempty) : (s.keep stays).item d = s.item d :=
  if_pos h

@[simp] theorem label_title [DecidableEq L] (s : Shelves L T D P) (l : L) (t : T)
    (h : ∀ m, s.title m = some t → m = l) (m : L) :
    (s.label l t h).title m = if m = l then some t else s.title m :=
  Function.update_apply _ _ _ _

/-- The last title of a shelf counts. -/
theorem label_label [DecidableEq L] (s : Shelves L T D P) (l : L) (t u : T)
    (h : ∀ m, s.title m = some t → m = l) (h' : ∀ m, (s.label l t h).title m = some u → m = l)
    (hu : ∀ m, s.title m = some u → m = l) : (s.label l t h).label l u h' = s.label l u hu := by
  ext1
  · exact Function.update_idem _ _ _
  · rfl
  · rfl

/-- A shelf that gets the title it has stays as it is. -/
theorem label_self [DecidableEq L] (s : Shelves L T D P) {l : L} {t : T}
    (hl : s.title l = some t) (h : ∀ m, s.title m = some t → m = l) : s.label l t h = s := by
  ext1
  · exact Function.update_eq_self_iff.mpr hl.symm
  · rfl
  · rfl

/-- The last place of an item counts. -/
theorem put_put [DecidableEq D] (s : Shelves L T D P) (d : D) (p q : P) (S S' : Set L)
    (h : ∀ l ∈ S, (s.title l).isSome) (h' : ∀ l ∈ S', ((s.put d p S h).title l).isSome) :
    (s.put d p S h).put d q S' h' = s.put d q S' h' := by
  ext1
  · rfl
  · exact Function.update_idem _ _ _
  · exact Function.update_idem _ _ _

/-- An item that is not there is put nowhere. -/
theorem put_nowhere [DecidableEq D] (s : Shelves L T D P) {d : D} (hd : s.item d = none) (p : P)
    (S : Set L) (hS : ¬ S.Nonempty) (h : ∀ l ∈ S, (s.title l).isSome) : s.put d p S h = s := by
  have hon : (s.put d p S h).on = s.on := by
    funext e
    rcases eq_or_ne e d with rfl | hne
    · rw [put_on, Set.not_nonempty_iff_eq_empty.mp hS]
      exact (Set.not_nonempty_iff_eq_empty.mp (item_eq_none.mp hd)).symm
    · exact put_on_of_ne s hne p h
  refine ext_on rfl hon fun e he => ?_
  rcases eq_or_ne e d with rfl | hne
  · rw [put_on] at he
    exact absurd he hS
  · exact put_item_of_ne s hne p h

/-- When all items may stay, nothing changes. -/
theorem keep_self (s : Shelves L T D P) {stays : D → L → Prop}
    (h : ∀ d, ∀ l ∈ s.on d, stays d l) : s.keep stays = s := by
  have hon : (s.keep stays).on = s.on := by
    funext d
    ext l
    exact ⟨fun hl => hl.1, fun hl => ⟨hl, h d l hl⟩⟩
  exact ext_on rfl hon fun d hd => keep_item hd

/-- An item that is put where it stands stays as it is. -/
theorem put_self [DecidableEq D] (s : Shelves L T D P) {d : D} {p : P} (hd : s.item d = some p)
    {S : Set L} (hS : S = s.on d) (h : ∀ l ∈ S, (s.title l).isSome) : s.put d p S h = s := by
  have hon : (s.put d p S h).on = s.on := by
    funext e
    rcases eq_or_ne e d with rfl | hne
    · rw [put_on, hS]
    · exact put_on_of_ne s hne p h
  refine ext_on rfl hon fun e he => ?_
  rcases eq_or_ne e d with rfl | hne
  · rw [put_on] at he
    rw [put_item s e p h he, hd]
  · exact put_item_of_ne s hne p h

/-- Taking one item off some of its shelves is putting it on the others. -/
theorem keep_eq_put [DecidableEq D] (s : Shelves L T D P) {d : D} {p : P} (hd : s.item d = some p)
    (stays : L → Prop) (h : ∀ l ∈ {l | l ∈ s.on d ∧ stays l}, (s.title l).isSome) :
    s.keep (fun e l => e = d → stays l) = s.put d p {l | l ∈ s.on d ∧ stays l} h := by
  have hon : (s.keep fun e l => e = d → stays l).on =
      (s.put d p {l | l ∈ s.on d ∧ stays l} h).on := by
    funext e
    rcases eq_or_ne e d with rfl | hne
    · rw [put_on]
      ext l
      simp
    · rw [put_on_of_ne s hne]
      ext l
      simp [hne]
  refine ext_on rfl hon fun e he => ?_
  rw [keep_item he]
  rcases eq_or_ne e d with rfl | hne
  · rw [hon, put_on] at he
    rw [put_item s e p h he, hd]
  · rw [put_item_of_ne s hne]

/-! ## 3. Operations as steps of a machine -/

section Machine

variable [DecidableEq L] [DecidableEq D]

/-- An operation on shelves. -/
inductive Op (L T D P : Type)
  | label (l : L) (t : T)
  | unlabel (l : L)
  | put (d : D) (p : P) (S : Set L)
  | keep (stays : D → L → Prop)

open scoped Classical in
/-- The next state, if the operation is possible. -/
noncomputable def step (s : Shelves L T D P) : Op L T D P → Option (Shelves L T D P)
  | .label l t => if h : ∀ m, s.title m = some t → m = l then some (s.label l t h) else none
  | .unlabel l => if h : ∀ d, l ∉ s.on d then some (s.unlabel l h) else none
  | .put d p S => if h : ∀ l ∈ S, (s.title l).isSome then some (s.put d p S h) else none
  | .keep stays => some (s.keep stays)

theorem step_label {s b : Shelves L T D P} {l : L} {t : T} :
    s.step (.label l t) = some b ↔ ∃ h, s.label l t h = b := by
  simp [step, Option.dite_none_right_eq_some]

theorem step_unlabel {s b : Shelves L T D P} {l : L} :
    s.step (.unlabel l) = some b ↔ ∃ h, s.unlabel l h = b := by
  simp [step, Option.dite_none_right_eq_some]

theorem step_put {s b : Shelves L T D P} {d : D} {p : P} {S : Set L} :
    s.step (.put d p S) = some b ↔ ∃ h, s.put d p S h = b := by
  simp [step, Option.dite_none_right_eq_some]

end Machine

end Shelves
