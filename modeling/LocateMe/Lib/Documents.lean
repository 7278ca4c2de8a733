import Mathlib

/-!
# Collections of documents

A document database in the style of a cloud document store: a collection maps
document ids to documents, ids are drawn from a supply that never hands out an
id twice, and array fields are changed by union and removal.

Results:
1. `mem_arrayUnion`, `mem_arrayRemove`: what the two array transforms keep.
2. `get_add`, `get_set`, `get_update`, `get_delete`: the frame of a single write.
3. `mem_documents`, `nodup_documents`, `pairwise_documents`: a query lists every
   document once, in the order of the ids.
4. `nodup_keys`, `keyUnique_add_iff`, `keyUnique_set_iff`, `keyUnique_delete`: unique
   keys, and which writes keep them so.
5. `get_alterAll`: a batch over distinct documents changes each of them once.
6. `keyIncreasing_add_iff`, `documents_add`: keys that grow with the ids, and what
   a query returns after a new document.
-/

namespace Documents

/-! ## 1. Array transforms -/

/-- Append the elements of `ys` that are not there yet, one after the other. -/
def arrayUnion {α : Type} [DecidableEq α] (xs ys : List α) : List α :=
  ys.foldl (fun acc y => if y ∈ acc then acc else acc ++ [y]) xs

/-- Remove every occurrence of every element of `ys`. -/
def arrayRemove {α : Type} [DecidableEq α] (xs ys : List α) : List α :=
  xs.filter (· ∉ ys)

@[simp] theorem mem_arrayUnion {α : Type} [DecidableEq α] {xs ys : List α} {a : α} :
    a ∈ arrayUnion xs ys ↔ a ∈ xs ∨ a ∈ ys := by
  unfold arrayUnion
  induction ys generalizing xs with
  | nil => simp
  | cons y ys ih =>
    rw [List.foldl_cons, ih]
    by_cases hy : y ∈ xs
    · have hback : a = y → a ∈ xs := fun h => h ▸ hy
      simp only [hy, if_true, List.mem_cons]
      tauto
    · simp [hy, or_assoc]

@[simp] theorem mem_arrayRemove {α : Type} [DecidableEq α] {xs ys : List α} {a : α} :
    a ∈ arrayRemove xs ys ↔ a ∈ xs ∧ a ∉ ys := by
  simp [arrayRemove]

/-! ## 2. Collections -/

/-- A collection: the document stored under each id, and the next id that
`add` hands out. No document has an id from `next` on. -/
structure Collection (α : Type) where
  get : Nat → Option α
  next : Nat
  fresh : ∀ i, next ≤ i → get i = none

namespace Collection

def empty {α : Type} : Collection α := ⟨fun _ => none, 0, fun _ _ => rfl⟩

/-- Change the document stored under `i`, present or not. -/
def alter {α : Type} (c : Collection α) (i : Nat) (f : Option α → Option α) : Collection α where
  get j := if j = i then f (c.get i) else c.get j
  next := max c.next (i + 1)
  fresh j hj := by
    have hne : j ≠ i := by omega
    rw [if_neg hne]
    exact c.fresh j (by omega)

/-- Store a new document under an id of its own. -/
def add {α : Type} (c : Collection α) (x : α) : Collection α :=
  c.alter c.next fun _ => some x

/-- Write the whole document, creating it when it is missing. -/
def set {α : Type} (c : Collection α) (i : Nat) (x : α) : Collection α :=
  c.alter i fun _ => some x

/-- Change fields of an existing document; a missing document stays missing. -/
def update {α : Type} (c : Collection α) (i : Nat) (f : α → α) : Collection α :=
  c.alter i (Option.map f)

def delete {α : Type} (c : Collection α) (i : Nat) : Collection α :=
  c.alter i fun _ => none

/-- The documents with their ids, in id order. -/
def documents {α : Type} (c : Collection α) : List (Nat × α) :=
  (List.range c.next).filterMap fun i => (c.get i).map (i, ·)

@[simp] theorem get_empty {α : Type} (i : Nat) : (empty : Collection α).get i = none := rfl

@[simp] theorem get_add {α : Type} (c : Collection α) (x : α) (j : Nat) :
    (c.add x).get j = if j = c.next then some x else c.get j := rfl

@[simp] theorem get_set {α : Type} (c : Collection α) (i : Nat) (x : α) (j : Nat) :
    (c.set i x).get j = if j = i then some x else c.get j := rfl

/-- A document that is there stays when one is written. -/
theorem isSome_get_set {α : Type} {c : Collection α} {i j : Nat} {x : α} (h : (c.get j).isSome) :
    ((c.set i x).get j).isSome := by
  rw [get_set]
  split
  · rfl
  · exact h

@[simp] theorem get_update {α : Type} (c : Collection α) (i : Nat) (f : α → α) (j : Nat) :
    (c.update i f).get j = if j = i then (c.get i).map f else c.get j := rfl

@[simp] theorem get_delete {α : Type} (c : Collection α) (i : Nat) (j : Nat) :
    (c.delete i).get j = if j = i then none else c.get j := rfl

theorem get_next {α : Type} (c : Collection α) : c.get c.next = none := c.fresh _ le_rfl

/-- A stored document's id is older than the supply. -/
theorem lt_next {α : Type} {c : Collection α} {i : Nat} {x : α} (h : c.get i = some x) :
    i < c.next := by
  by_contra hge
  rw [c.fresh i (not_lt.mp hge)] at h
  cases h

theorem get_add_self {α : Type} (c : Collection α) (x : α) : (c.add x).get c.next = some x := by
  simp

theorem get_add_of_some {α : Type} {c : Collection α} {i : Nat} {x y : α}
    (h : c.get i = some y) : (c.add x).get i = some y := by
  rw [get_add, if_neg (Nat.ne_of_lt (lt_next h)), h]

/-- What `add` can have stored. -/
theorem get_add_eq_some {α : Type} {c : Collection α} {i : Nat} {x y : α} :
    (c.add x).get i = some y ↔ (i = c.next ∧ y = x) ∨ c.get i = some y := by
  rw [get_add]
  split
  · next h =>
    subst h
    simp [get_next, eq_comm]
  · next h => simp [h]

/-! ## 3. Queries -/

@[simp] theorem mem_documents {α : Type} {c : Collection α} {i : Nat} {x : α} :
    (i, x) ∈ c.documents ↔ c.get i = some x := by
  unfold documents
  rw [List.mem_filterMap]
  constructor
  · rintro ⟨j, -, hj⟩
    obtain ⟨y, hy, he⟩ := Option.map_eq_some_iff.mp hj
    cases he
    exact hy
  · intro h
    exact ⟨i, List.mem_range.mpr (lt_next h), by simp [h]⟩

/-- A query returns every document once. -/
theorem nodup_documents {α : Type} (c : Collection α) : (c.documents.map Prod.fst).Nodup := by
  have hsub : (c.documents.map Prod.fst).Sublist (List.range c.next) := by
    unfold documents
    generalize List.range c.next = ids
    induction ids with
    | nil => simp
    | cons i ids ih =>
      rw [List.filterMap_cons]
      cases h : c.get i with
      | none => simpa [h] using ih.cons i
      | some x => simpa [h] using ih
  exact hsub.nodup List.nodup_range

/-- What holds of every earlier and later document holds along a query. -/
theorem pairwise_documents {α : Type} {R : α → α → Prop} {c : Collection α}
    (h : ∀ i x, c.get i = some x → ∀ j y, c.get j = some y → i < j → R x y) :
    (c.documents.map Prod.snd).Pairwise R := by
  unfold documents
  rw [List.pairwise_map, List.pairwise_filterMap]
  refine List.pairwise_lt_range.imp fun {i j} hij y hy z hz => ?_
  obtain ⟨x, hx, rfl⟩ := Option.map_eq_some_iff.mp hy
  obtain ⟨x', hx', rfl⟩ := Option.map_eq_some_iff.mp hz
  exact h i x hx j x' hx' hij

/-- What a query reads off each document, when two collections agree on it. -/
theorem documents_map_congr {α β : Type} {c d : Collection α} {f : α → β}
    (h : ∀ i, (c.get i).map f = (d.get i).map f) :
    c.documents.map (fun x => (x.1, f x.2)) = d.documents.map fun x => (x.1, f x.2) := by
  -- a query may as well run over more ids than there are
  have hmore : ∀ (e : Collection α) n, e.next ≤ n →
      e.documents.map (fun x => (x.1, f x.2)) =
        (List.range n).filterMap fun i => ((e.get i).map f).map (i, ·) := by
    intro e n hn
    induction n, hn using Nat.le_induction with
    | base =>
      rw [documents, List.map_filterMap]
      simp only [Option.map_map]
      rfl
    | succ n hn ih =>
      rw [List.range_succ, List.filterMap_append, ← ih]
      simp [e.fresh n hn]
  rw [hmore c _ (le_max_left c.next d.next), hmore d _ (le_max_right c.next d.next)]
  simp only [h]

/-- What holds of all documents is decided by a query. -/
instance {α : Type} (c : Collection α) (P : Nat → α → Prop) [∀ i x, Decidable (P i x)] :
    Decidable (∀ i x, c.get i = some x → P i x) :=
  decidable_of_iff (∀ y ∈ c.documents, P y.1 y.2)
    ⟨fun h i x hx => h (i, x) (mem_documents.mpr hx), fun h y hy => h y.1 y.2 (mem_documents.mp hy)⟩

/-! ## 4. Unique keys -/

/-- No two documents have the same key. -/
def KeyUnique {α κ : Type} (key : α → κ) (c : Collection α) : Prop :=
  ∀ i x, c.get i = some x → ∀ j y, c.get j = some y → key x = key y → i = j

instance {α κ : Type} [DecidableEq κ] (key : α → κ) (c : Collection α) :
    Decidable (c.KeyUnique key) :=
  inferInstanceAs (Decidable (∀ i x, c.get i = some x →
    ∀ j y, c.get j = some y → key x = key y → i = j))

/-- A query returns no key twice. -/
theorem nodup_keys {α κ : Type} {key : α → κ} {c : Collection α} (hc : c.KeyUnique key) :
    (c.documents.map fun x => key x.2).Nodup := by
  have hne : (c.documents.map Prod.snd).Pairwise fun x y => key x ≠ key y := by
    refine pairwise_documents fun i x hx j y hy hij heq => ?_
    exact absurd (hc i x hx j y hy heq) (Nat.ne_of_lt hij)
  rw [List.pairwise_map] at hne
  exact List.pairwise_map.mpr hne

/-- A new document keeps the keys unique iff its key is new. -/
theorem keyUnique_add_iff {α κ : Type} {key : α → κ} {c : Collection α} (hc : c.KeyUnique key)
    {x : α} : (c.add x).KeyUnique key ↔ ∀ j y, c.get j = some y → key y ≠ key x := by
  constructor
  · intro h j y hy heq
    have hold : c.next = j := h c.next x (get_add_self c x) j y (get_add_of_some hy) heq.symm
    rw [← hold, get_next] at hy
    cases hy
  · intro h i y hy j z hz heq
    rcases get_add_eq_some.mp hy with ⟨rfl, rfl⟩ | hoy
    · rcases get_add_eq_some.mp hz with ⟨rfl, -⟩ | hoz
      · rfl
      · exact absurd heq.symm (h j z hoz)
    · rcases get_add_eq_some.mp hz with ⟨rfl, rfl⟩ | hoz
      · exact absurd heq (h i y hoy)
      · exact hc i y hoy j z hoz heq

/-- A document that is written over keeps the keys unique iff no other document
has its key. -/
theorem keyUnique_set_iff {α κ : Type} {key : α → κ} {c : Collection α} (hc : c.KeyUnique key)
    {i : Nat} {x : α} :
    (c.set i x).KeyUnique key ↔ ∀ j y, c.get j = some y → key y = key x → j = i := by
  constructor
  · intro h j y hy heq
    by_contra hne
    have hold : (c.set i x).get j = some y := by rw [get_set, if_neg hne, hy]
    have hnew : (c.set i x).get i = some x := by simp
    exact hne (h j y hold i x hnew heq)
  · intro h j y hy k z hz heq
    rw [get_set] at hy hz
    split at hy
    · next hj =>
      obtain rfl := Option.some.inj hy
      split at hz
      · next hk => rw [hj, hk]
      · exact hj.trans (h k z hz heq.symm).symm
    · split at hz
      · next hk =>
        obtain rfl := Option.some.inj hz
        exact (h j y hy heq).trans hk.symm
      · exact hc j y hy k z hz heq

theorem keyUnique_delete {α κ : Type} {key : α → κ} {c : Collection α} (hc : c.KeyUnique key)
    (i : Nat) : (c.delete i).KeyUnique key := by
  intro j y hy k z hz heq
  rw [get_delete] at hy hz
  split at hy
  · cases hy
  · split at hz
    · cases hz
    · exact hc j y hy k z hz heq

/-- A query for one document with the given key. -/
def find {α κ : Type} [DecidableEq κ] (key : α → κ) (k : κ) (c : Collection α) :
    Option (Nat × α) :=
  c.documents.find? fun x => key x.2 = k

theorem find_eq_some {α κ : Type} [DecidableEq κ] {key : α → κ} {c : Collection α}
    (hc : c.KeyUnique key) {k : κ} {i : Nat} {x : α} :
    c.find key k = some (i, x) ↔ c.get i = some x ∧ key x = k := by
  constructor
  · intro h
    exact ⟨mem_documents.mp (List.mem_of_find?_eq_some h), by simpa using List.find?_some h⟩
  · rintro ⟨hx, hk⟩
    have hsome : (c.find key k).isSome :=
      List.find?_isSome.mpr ⟨(i, x), mem_documents.mpr hx, decide_eq_true hk⟩
    obtain ⟨⟨j, y⟩, hy⟩ := Option.isSome_iff_exists.mp hsome
    have hget : c.get j = some y := mem_documents.mp (List.mem_of_find?_eq_some hy)
    have hkey : key y = k := by simpa using List.find?_some hy
    obtain rfl := hc j y hget i x hx (hkey.trans hk.symm)
    obtain rfl := Option.some.inj (hget.symm.trans hx)
    exact hy

theorem find_eq_none {α κ : Type} [DecidableEq κ] {key : α → κ} {c : Collection α} {k : κ} :
    c.find key k = none ↔ ∀ i x, c.get i = some x → key x ≠ k := by
  simp [find, List.find?_eq_none]

/-! ## 5. Batches -/

/-- Change the document of every element of `xs`, one after the other. -/
def alterAll {α β : Type} (c : Collection α) (key : β → Nat) (f : β → Option α → Option α)
    (xs : List β) : Collection α :=
  xs.foldl (fun c x => c.alter (key x) (f x)) c

@[simp] theorem get_alter {α : Type} (c : Collection α) (i : Nat) (f : Option α → Option α)
    (j : Nat) : (c.alter i f).get j = if j = i then f (c.get i) else c.get j := rfl

@[simp] theorem alterAll_nil {α β : Type} (c : Collection α) (key : β → Nat)
    (f : β → Option α → Option α) : c.alterAll key f [] = c := rfl

@[simp] theorem alterAll_cons {α β : Type} (c : Collection α) (key : β → Nat)
    (f : β → Option α → Option α) (x : β) (xs : List β) :
    c.alterAll key f (x :: xs) = (c.alter (key x) (f x)).alterAll key f xs := rfl

/-- A document that the batch does not name stays as it is. -/
theorem get_alterAll_of_not_mem {α β : Type} {c : Collection α} {key : β → Nat}
    {f : β → Option α → Option α} {xs : List β} {i : Nat} (hi : i ∉ xs.map key) :
    (c.alterAll key f xs).get i = c.get i := by
  induction xs generalizing c with
  | nil => rfl
  | cons x xs ih =>
    rw [List.map_cons, List.mem_cons, not_or] at hi
    rw [alterAll_cons, ih hi.2, get_alter, if_neg hi.1]

/-- Each document that the batch names is changed once, when it names none twice. -/
theorem get_alterAll {α β : Type} {c : Collection α} {key : β → Nat}
    {f : β → Option α → Option α} {xs : List β} (hnodup : (xs.map key).Nodup) {x : β}
    (hx : x ∈ xs) : (c.alterAll key f xs).get (key x) = f x (c.get (key x)) := by
  induction xs generalizing c with
  | nil => cases hx
  | cons y ys ih =>
    rw [List.map_cons, List.nodup_cons] at hnodup
    rw [alterAll_cons]
    rcases List.mem_cons.mp hx with rfl | hin
    · rw [get_alterAll_of_not_mem hnodup.1, get_alter, if_pos rfl]
    · have hne : key x ≠ key y := fun heq => hnodup.1 (heq ▸ List.mem_map_of_mem hin)
      rw [ih hnodup.2 hin, get_alter, if_neg hne]

/-- The same change of every document, which takes effect once however often a
document is named. -/
theorem get_alterAll_const {α : Type} {c : Collection α} {f : Option α → Option α}
    (hf : ∀ x, f (f x) = f x) (ids : List Nat) (i : Nat) :
    (c.alterAll id (fun _ => f) ids).get i = if i ∈ ids then f (c.get i) else c.get i := by
  induction ids generalizing c with
  | nil => simp
  | cons l ids ih =>
    rw [alterAll_cons, ih, get_alter, id]
    rcases eq_or_ne i l with rfl | hne
    · simp [hf]
    · simp [hne]

/-! ## 6. Keys in the order of the ids -/

/-- A later document has a greater key. -/
def KeyIncreasing {α κ : Type} [LT κ] (key : α → κ) (c : Collection α) : Prop :=
  ∀ i x, c.get i = some x → ∀ j y, c.get j = some y → i < j → key x < key y

instance {α κ : Type} [LT κ] [DecidableLT κ] (key : α → κ) (c : Collection α) :
    Decidable (c.KeyIncreasing key) :=
  inferInstanceAs (Decidable (∀ i x, c.get i = some x →
    ∀ j y, c.get j = some y → i < j → key x < key y))

/-- A new document keeps the keys increasing iff its key is above all others. -/
theorem keyIncreasing_add_iff {α κ : Type} [LT κ] {key : α → κ} {c : Collection α}
    (hc : c.KeyIncreasing key) {x : α} :
    (c.add x).KeyIncreasing key ↔ ∀ i y, c.get i = some y → key y < key x := by
  constructor
  · intro h i y hy
    exact h i y (get_add_of_some hy) c.next x (get_add_self c x) (lt_next hy)
  · intro h i y hy j z hz hij
    rcases get_add_eq_some.mp hy with ⟨rfl, rfl⟩ | hoy
    · rcases get_add_eq_some.mp hz with ⟨rfl, -⟩ | hoz
      · omega
      · have hlt := lt_next hoz
        omega
    · rcases get_add_eq_some.mp hz with ⟨rfl, rfl⟩ | hoz
      · exact h i y hoy
      · exact hc i y hoy j z hoz hij

/-- A query returns the new document last. -/
theorem documents_add {α : Type} (c : Collection α) (x : α) :
    (c.add x).documents = c.documents ++ [(c.next, x)] := by
  have hnext : (c.add x).next = c.next + 1 := by
    show max c.next (c.next + 1) = c.next + 1
    omega
  unfold documents
  rw [hnext, List.range_succ, List.filterMap_append]
  congr 1
  · refine List.filterMap_congr fun i hi => ?_
    have hne : i ≠ c.next := Nat.ne_of_lt (List.mem_range.mp hi)
    rw [get_add, if_neg hne]
  · simp

end Collection

end Documents
