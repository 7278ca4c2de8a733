import LocateMe.ChosenLists
import LocateMe.FailedWrites

/-!
# Deleting a place from all lists

A swipe in "Recently Saved" asks for the lists with the titles of the place, takes
the place out of each of them, and deletes its record. The titles go into one `in`
filter, which accepts ten at most; the trap comes before anything is written.

Results:
1. `delete_from_all_iff`: the swipe completes iff the place has at most ten titles.
2. `eleven_lists_trap`: a place in eleven lists cannot be deleted from them.
-/

namespace LocateMe

open Documents StoreLemmas TidyLemmas

/-- From `s` to `t` the record under `j` is gone, and its id `k` is in no list. -/
structure DeletedEverywhere (s t : UserStore) (j : Nat) (k : Int) : Prop where
  record : t.history.get j = none
  otherRecords : ∀ i, i ≠ j → t.history.get i = s.history.get i
  lists : ∀ i, t.lists.get i =
    (s.lists.get i).map fun doc => { doc with places := doc.places.filter (· ≠ k) }

namespace RecentLemmas

/-- The batch takes the id from the lists whose titles the place knows, which are
those that have it. -/
theorem deletedEverywhere_recent {s : UserStore} (hs : Consistent s) {place : Place} {j : Nat}
    (hplace : IsRecord s place j) :
    DeletedEverywhere s (applyAll s ((listsTitled s place.list).map
      (Write.removePlaces · [place.id]) ++ [.deleteHistory j])) j place.id := by
  obtain ⟨hhistory, -, -⟩ := listed_removes (s := s) (listsTitled s place.list) place.id
  rw [applyAll_append]
  refine ⟨by simp [Write.apply], fun i hi => ?_, fun i => ?_⟩
  · simp [Write.apply, hi, hhistory]
  · refine (lists_removes s (listsTitled s place.list) place.id i).trans ?_
    cases hdoc : s.lists.get i with
    | none => simp
    | some doc =>
      split
      · simp [ListDoc.removePlaces, arrayRemove]
      · next hnot =>
        have hmember := ChosenLemmas.member_iff hs (ChosenLemmas.recorded_of_isRecord hs hplace) hdoc
        have hout : place.id ∉ doc.places :=
          fun hin => hnot (mem_listsTitled.mpr ⟨doc, hdoc, hmember.mp hin⟩)
        have hsame : doc.places.filter (· ≠ place.id) = doc.places := by
          refine List.filter_eq_self.mpr fun k hk => ?_
          simp only [ne_eq, decide_eq_true_eq]
          rintro rfl
          exact hout hk
        rw [Option.map_some, hsame]

end RecentLemmas

open RecentLemmas

/-- From a consistent store in which every record lists something, the confirmed swipe
of an up-to-date place in "Recently Saved" runs to its end, deletes the record, takes
its id from every list and changes nothing else, iff the place lists at most ten
titles. -/
theorem delete_from_all_iff {s : UserStore} (hs : Consistent s)
    (hlisted : ∀ j r, s.history.get j = some r → r.list ≠ []) {list : PlaceList}
    (hid : list.id = none) {place : Place} {j : Nat} (hplace : IsRecord s place j) :
    (commitDelete s list place).trapped = false ∧
        DeletedEverywhere s (applyAll s (commitDelete s list place).writes) j place.id ↔
      place.list.length ≤ 10 := by
  have hne : place.list ≠ [] := hlisted j _ hplace.record
  constructor
  · rintro ⟨hok, -⟩
    by_contra hlong
    have htrap : place.list = [] ∨ 10 < place.list.length := .inr (not_le.mp hlong)
    simp [commitDelete, hid, removePlaceFromAllList, htrap, Issued.trap, Issued.andThen] at hok
  · intro hshort
    have haccepted : ¬ (place.list = [] ∨ 10 < place.list.length) := by
      rintro (hnil | hlong)
      · exact hne hnil
      · exact not_le.mpr hlong hshort
    rw [commitDelete_recent hid haccepted hplace.dbId]
    exact ⟨rfl, deletedEverywhere_recent hs hplace⟩

/-- The list "Recently Saved". -/
def exRecentlySaved : PlaceList := ⟨"Recently Saved", none, "bookmark", .lightPurple, [], 0⟩

/-- The place of `exTidy` that is in two lists. -/
theorem delete_from_all_iff_two_lists :
    let place := placeOfDoc 1 (docOfPlace exSavedPlace ["B", "A"] 2)
    (commitDelete exTidy exRecentlySaved place).trapped = false ∧
        DeletedEverywhere exTidy (applyAll exTidy (commitDelete exTidy exRecentlySaved place).writes)
          1 2 ↔
      place.list.length ≤ 10 := by
  have hs : Tidy exTidy := by decide +kernel
  exact delete_from_all_iff hs.toConsistent hs.listed rfl ⟨rfl, by decide +kernel⟩

/-- Eleven titles. -/
def exEleven : List String := ["A", "B", "C", "D", "E", "F", "G", "H", "I", "J", "K"]

/-- A place in eleven lists: the query traps, and the place stays. -/
theorem eleven_lists_trap :
    ¬ ∀ (s : UserStore) (list : PlaceList) (place : Place) (j : Nat), Consistent s →
      (∀ j r, s.history.get j = some r → r.list ≠ []) → list.id = none → IsRecord s place j →
        (commitDelete s list place).trapped = false ∧
          DeletedEverywhere s (applyAll s (commitDelete s list place).writes) j place.id := by
  intro hall
  have hs : Tidy (exStore exEleven (List.range 11) [exEleven]) := by decide +kernel
  have hdone := hall _ exRecentlySaved (exStored exEleven) 0 hs.toConsistent hs.listed rfl
    ⟨rfl, by decide +kernel⟩
  exact absurd hdone.1 (by decide +kernel)

end LocateMe
