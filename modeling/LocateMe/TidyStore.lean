import LocateMe.Consistency
import LocateMe.SavePlaceView

/-!
# Tidy stores and batches of requests

A store as the app leaves it when nothing goes wrong: consistent, and every record
lists something, nothing twice, and titles of lists only. A handler that empties or
changes lists sends a batch of requests; this module says what such a batch does to
each single document.

Results:
1. `removals_get`: the batch that takes a title from some records.
2. `lists_unions`, `lists_removes`: the batches that add an id to some lists, or
   take it from them.
3. `records_of_shown`: the places that a screen shows for a list are its records.
-/

namespace LocateMe

open Documents StoreLemmas

/-! ## 1. Tidy stores -/

/-- A consistent store whose records each list something, nothing twice, and only
titles of lists. -/
structure Tidy (s : UserStore) : Prop extends Consistent s where
  listed : ∀ j r, s.history.get j = some r → r.list ≠ []
  nodup : ∀ j r, s.history.get j = some r → r.list.Nodup
  known : ∀ j r, s.history.get j = some r → ∀ title ∈ r.list, ListTitle s title

instance (s : UserStore) : Decidable (Tidy s) :=
  decidable_of_iff (Consistent s ∧ ∀ j r, s.history.get j = some r →
      r.list.length ≠ 0 ∧ r.list.Nodup ∧ ∀ title ∈ r.list, ListTitle s title)
    ⟨fun h => ⟨h.1, fun j r hr => by simpa using (h.2 j r hr).1, fun j r hr => (h.2 j r hr).2.1,
        fun j r hr => (h.2 j r hr).2.2⟩,
      fun h => ⟨h.toConsistent, fun j r hr => ⟨by simpa using h.listed j r hr, h.nodup j r hr,
        h.known j r hr⟩⟩⟩

/-- The places that a screen shows for a list: the records with its ids, in some
order. -/
def ShowsList (s : UserStore) (doc : ListDoc) (places : List Place) : Prop :=
  places.Perm ((getAllPlaces s).filter fun place => doc.places.contains place.id)

instance (s : UserStore) (doc : ListDoc) (places : List Place) :
    Decidable (ShowsList s doc places) :=
  inferInstanceAs (Decidable (List.Perm _ _))

/-- Two lists, one place in the first of them and one in both. -/
def exTidy : UserStore :=
  applyAll .empty [.addList "A", .addList "B", .unionPlaces 0 [1, 2], .unionPlaces 1 [2],
    .addHistory (docOfPlace exSavedPlace ["A"] 1), .addHistory (docOfPlace exSavedPlace ["B", "A"] 2)]

/-- The record without a title; without its last title it is deleted. -/
def HistoryDoc.withoutTitle (title : String) (r : HistoryDoc) : Option HistoryDoc :=
  if r.list.length = 1 then none else some (r.removeTitles [title])

/-! ## 2. Batches -/

namespace TidyLemmas

/-- Requests that each change one record make a batch on the history. -/
theorem applyAll_history_batch {β : Type} (w : β → Write) (key : β → Nat)
    (f : β → Option HistoryDoc → Option HistoryDoc)
    (h : ∀ x s, (w x).apply s = { s with history := s.history.alter (key x) (f x) })
    (s : UserStore) (xs : List β) :
    applyAll s (xs.map w) = { s with history := s.history.alterAll key f xs } := by
  induction xs generalizing s with
  | nil => rfl
  | cons x xs ih =>
    rw [List.map_cons, applyAll_cons, ih, h]
    rfl

/-- Requests that each change one list make a batch on the lists. -/
theorem applyAll_lists_batch {β : Type} (w : β → Write) (key : β → Nat)
    (f : β → Option ListDoc → Option ListDoc)
    (h : ∀ x s, (w x).apply s = { s with lists := s.lists.alter (key x) (f x) })
    (s : UserStore) (xs : List β) :
    applyAll s (xs.map w) = { s with lists := s.lists.alterAll key f xs } := by
  induction xs generalizing s with
  | nil => rfl
  | cons x xs ih =>
    rw [List.map_cons, applyAll_cons, ih, h]
    rfl

/-- What a removal does to the record. -/
def trimmed (title : String) (x : Nat × HistoryDoc) (record : Option HistoryDoc) :
    Option HistoryDoc :=
  if x.2.list.length = 1 then none else record.map (HistoryDoc.removeTitles [title])

theorem apply_removal (title : String) (x : Nat × HistoryDoc) (s : UserStore) :
    (removal x.1 x.2.list title).apply s =
      { s with history := s.history.alter x.1 (trimmed title x) } := by
  have htrimmed : trimmed title x =
      if x.2.list.length = 1 then fun _ => none else Option.map (HistoryDoc.removeTitles [title]) := by
    funext record
    unfold trimmed
    split <;> rfl
  rw [htrimmed, removal]
  split <;> rfl

/-- A title is taken from some records: each of them loses it, and no other record
and no list changes. -/
theorem removals_get {s : UserStore} (title : String) {xs : List (Nat × HistoryDoc)}
    (hnodup : (xs.map Prod.fst).Nodup) (hxs : ∀ x ∈ xs, s.history.get x.1 = some x.2) :
    let t := applyAll s (xs.map fun x => removal x.1 x.2.list title)
    t.lists = s.lists ∧ (∀ x ∈ xs, t.history.get x.1 = x.2.withoutTitle title) ∧
      ∀ j, j ∉ xs.map Prod.fst → t.history.get j = s.history.get j := by
  have hbatch := applyAll_history_batch (fun x => removal x.1 x.2.list title) Prod.fst
    (trimmed title) (apply_removal title) s xs
  rw [hbatch]
  refine ⟨rfl, fun x hx => ?_, fun j hj => Collection.get_alterAll_of_not_mem hj⟩
  show (s.history.alterAll Prod.fst (trimmed title) xs).get x.1 = x.2.withoutTitle title
  rw [Collection.get_alterAll hnodup hx, hxs x hx]
  rfl

theorem arrayUnion_singleton {α : Type} [DecidableEq α] (xs : List α) (k : α) :
    arrayUnion xs [k] = if k ∈ xs then xs else xs ++ [k] := rfl

theorem addPlaces_addPlaces (k : Int) (record : Option ListDoc) :
    (record.map (ListDoc.addPlaces [k])).map (ListDoc.addPlaces [k]) =
      record.map (ListDoc.addPlaces [k]) := by
  cases record with
  | none => rfl
  | some doc =>
    have hin : k ∈ arrayUnion doc.places [k] := by simp
    simp only [Option.map_some, ListDoc.addPlaces, Option.some.injEq, ListDoc.mk.injEq, true_and]
    rw [arrayUnion_singleton (arrayUnion doc.places [k]), if_pos hin]

theorem removePlaces_removePlaces (k : Int) (record : Option ListDoc) :
    (record.map (ListDoc.removePlaces [k])).map (ListDoc.removePlaces [k]) =
      record.map (ListDoc.removePlaces [k]) := by
  cases record with
  | none => rfl
  | some doc => simp [ListDoc.removePlaces, arrayRemove, List.filter_filter]

/-- An id is added to some lists. -/
theorem lists_unions (s : UserStore) (ids : List Nat) (k : Int) (i : Nat) :
    (applyAll s (ids.map (Write.unionPlaces · [k]))).lists.get i =
      if i ∈ ids then (s.lists.get i).map (ListDoc.addPlaces [k]) else s.lists.get i := by
  rw [applyAll_lists_batch (Write.unionPlaces · [k]) id
    (fun _ => Option.map (ListDoc.addPlaces [k])) (fun _ _ => rfl) s ids]
  exact Collection.get_alterAll_const (addPlaces_addPlaces k) ids i

/-- An id is taken from some lists. -/
theorem lists_removes (s : UserStore) (ids : List Nat) (k : Int) (i : Nat) :
    (applyAll s (ids.map (Write.removePlaces · [k]))).lists.get i =
      if i ∈ ids then (s.lists.get i).map (ListDoc.removePlaces [k]) else s.lists.get i := by
  rw [applyAll_lists_batch (Write.removePlaces · [k]) id
    (fun _ => Option.map (ListDoc.removePlaces [k])) (fun _ _ => rfl) s ids]
  exact Collection.get_alterAll_const (removePlaces_removePlaces k) ids i

/-! ## 3. The records that a screen shows -/

/-- A query returns every record once. -/
theorem nodup_recordsListing (s : UserStore) (title : String) :
    ((recordsListing s title).map Prod.fst).Nodup :=
  (Collection.nodup_documents s.history).sublist (List.filter_sublist.map _)

/-- The places shown for a list are the records that list its title. -/
theorem records_of_shown {s : UserStore} (hs : Consistent s) {l : Nat} {doc : ListDoc}
    (hdoc : s.lists.get l = some doc) {places : List Place} (hshown : ShowsList s doc places) :
    ∃ xs : List (Nat × HistoryDoc), places = xs.map (fun x => placeOfDoc x.1 x.2) ∧
      xs.Perm (recordsListing s doc.title) := by
  have hperm : places.Perm ((recordsListing s doc.title).map fun x => placeOfDoc x.1 x.2) :=
    hshown.trans (contents_agree hs hdoc)
  have hcomp := congrFun (congrFun (List.eq_map_comp_perm
    fun x : Nat × HistoryDoc => placeOfDoc x.1 x.2) places) (recordsListing s doc.title)
  exact hcomp.mpr hperm

/-- No two of the places shown for a list have the same id. -/
theorem nodup_shown {s : UserStore} (hs : Consistent s) {doc : ListDoc} {places : List Place}
    (hshown : ShowsList s doc places) : (places.map Place.id).Nodup := by
  have hids := Collection.nodup_keys (keyUnique_ids hs)
  have hall : ((getAllPlaces s).map Place.id).Nodup := by
    refine ((getAllPlaces_perm s).map Place.id).nodup_iff.mpr ?_
    rwa [List.map_map]
  exact (hshown.map Place.id).nodup_iff.mpr (hall.sublist (List.filter_sublist.map Place.id))

/-- The ids of the records that list the title of a list are the ids in it. -/
theorem mem_places_iff {s : UserStore} (hs : Consistent s) {l : Nat} {doc : ListDoc}
    (hdoc : s.lists.get l = some doc) {xs : List (Nat × HistoryDoc)}
    (hxs : xs.Perm (recordsListing s doc.title)) {k : Int} :
    k ∈ doc.places ↔ ∃ x ∈ xs, x.2.id = k := by
  have hlisted : k ∈ doc.places ↔ Listed s l k := by simp [Listed, hdoc]
  rw [hlisted, hs.integrity l doc.title k ⟨doc, hdoc, rfl⟩]
  constructor
  · rintro ⟨j, r, hr, hid, hin⟩
    exact ⟨(j, r), hxs.mem_iff.mpr (mem_recordsListing.mpr ⟨hr, hin⟩), hid⟩
  · rintro ⟨⟨j, r⟩, hx, hid⟩
    obtain ⟨hr, hin⟩ := mem_recordsListing.mp (hxs.mem_iff.mp hx)
    exact ⟨j, r, hr, hid, hin⟩

end TidyLemmas

end LocateMe
