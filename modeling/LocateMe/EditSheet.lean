import LocateMe.Lib.StableSort
import LocateMe.ListScreens

/-!
# The Edit and Delete sheet

`SavedController.didTapEdit` opens a sheet for the row that was tapped and keeps the
list of that row. Until an action is chosen, the completions of `retrieveLists` and
of `NewListTapped` replace, extend and sort the rows. Edit and the last step of
Delete look the row up again by its number. `lowercased`, the key of the sort, is any
function of titles here, so that it may also bring them to a normal form.

Results:
1. `lists_completed`: the rows after any completions are the unsorted ones, sorted
   once.
2. `sheetActs_iff`: both actions act on the list that was tapped iff no completion
   has sorted the rows, or the sort puts a list with its id back into its row.
-/

namespace LocateMe

/-! ## 1. The completions -/

section

variable (lowercased : String → String)

namespace SavedController

/-- The completion of `getAllList`. After an empty answer `addDefaultLists` is
called. -/
def retrieveLists (c : SavedController) (allLists : List PlaceList) : SavedController :=
  if 0 < allLists.length then { c with lists := sortedByTitle allLists lowercased } else c

/-- The completion of `addDefaultLists`. -/
def defaultListsAdded (c : SavedController) (defaultLists : List PlaceList) : SavedController :=
  { c with lists := sortedByTitle (c.lists ++ defaultLists) lowercased }

end SavedController

end

/-- The completions that change the rows, those of `retrieveLists` and of
`NewListTapped`. -/
inductive ListsCompletion
  | retrieveLists (allLists : List PlaceList)
  | defaultListsAdded (defaultLists : List PlaceList)
  | listAdded (title : String) (listId : Nat)
deriving DecidableEq

namespace ListsCompletion

def apply (lowercased : String → String) (c : SavedController) :
    ListsCompletion → SavedController
  | retrieveLists allLists => c.retrieveLists lowercased allLists
  | defaultListsAdded defaultLists => c.defaultListsAdded lowercased defaultLists
  | listAdded title listId => c.listAdded title listId lowercased

/-- All but an empty answer sort the rows. -/
def sorts : ListsCompletion → Bool
  | retrieveLists allLists => decide (0 < allLists.length)
  | defaultListsAdded _ => true
  | listAdded _ _ => true

/-- The rows after a completion, without the sort. -/
def unsorted (lists : List PlaceList) : ListsCompletion → List PlaceList
  | retrieveLists allLists => if 0 < allLists.length then allLists else lists
  | defaultListsAdded defaultLists => lists ++ defaultLists
  | listAdded title listId =>
    lists ++ [⟨title, some listId, (setNewListIcon title).1, (setNewListIcon title).2, [], 0⟩]

end ListsCompletion

/-- The screen when the completions have run. -/
def SavedController.completed (lowercased : String → String) (c : SavedController)
    (es : List ListsCompletion) : SavedController :=
  es.foldl (ListsCompletion.apply lowercased) c

/-- The lists then shown, in the order in which they came. -/
def unsortedLists (lists : List PlaceList) (es : List ListsCompletion) : List PlaceList :=
  es.foldl ListsCompletion.unsorted lists

/-! ## 2. The sheet -/

namespace SavedController

/-- The Edit action. `none` is the trap of `lists[tag]`. -/
def editAction (c : SavedController) (tag : Nat) : Option EditListController :=
  (c.lists[tag]?).map fun list => EditListController.load list (c.placesOf list)

/-- The Delete action for the list that was tapped. `none` is the trap of
`lists.remove(at: tag)`. -/
def deleteTapped (s : UserStore) (c : SavedController) (tag : Nat) (list : PlaceList) :
    Option (Issued × SavedController) :=
  if tag < c.lists.length then
    some (deleteAction s list, c.listDeleted tag (deletedIds s list.title))
  else none

end SavedController

/-- Edit opens the list that was tapped; Delete, where it is offered, deletes its
document and takes a row with its id away, and no other. -/
structure SheetActs (s : UserStore) (c : SavedController) (tag : Nat) (list : PlaceList) :
    Prop where
  edit : ∃ e, c.editAction tag = some e ∧ e.list.id = list.id
  delete : checkIfDefaultList list.title = false →
    ∃ c' row, c.deleteTapped s tag list = some (SavedController.deleteAction s list, c') ∧
      c.lists[tag]? = some row ∧ row.id = list.id ∧ c'.lists = c.lists.eraseIdx tag

namespace SheetLemmas

variable {lowercased : String → String}

theorem sortedByTitle_eq (lists : List PlaceList) :
    sortedByTitle lists lowercased = StableSort.sortBy (fun l => lowercased l.title) lists := rfl

/-- What is added to sorted rows could have been added before. -/
theorem sortedByTitle_append (lists more : List PlaceList) :
    sortedByTitle (sortedByTitle lists lowercased ++ more) lowercased =
      sortedByTitle (lists ++ more) lowercased := by
  simp only [sortedByTitle_eq]
  exact StableSort.sortBy_append_sortBy

/-- One completion, on rows that are sorted already. -/
theorem lists_apply_sorted {c : SavedController} {lists : List PlaceList} (e : ListsCompletion)
    (hc : c.lists = sortedByTitle lists lowercased) :
    (e.apply lowercased c).lists = sortedByTitle (e.unsorted lists) lowercased := by
  cases e with
  | retrieveLists allLists =>
    simp only [ListsCompletion.apply, SavedController.retrieveLists, ListsCompletion.unsorted]
    split
    · rfl
    · exact hc
  | defaultListsAdded defaultLists =>
    show sortedByTitle (c.lists ++ defaultLists) lowercased = _
    rw [hc]
    exact sortedByTitle_append _ _
  | listAdded title listId =>
    show sortedByTitle (c.lists ++ _) lowercased = _
    rw [hc]
    exact sortedByTitle_append _ _

/-- One completion, on any rows. -/
theorem lists_apply {c : SavedController} {e : ListsCompletion} (he : e.sorts = true) :
    (e.apply lowercased c).lists = sortedByTitle (e.unsorted c.lists) lowercased := by
  cases e with
  | retrieveLists allLists =>
    have hlt : 0 < allLists.length := of_decide_eq_true he
    simp only [ListsCompletion.apply, SavedController.retrieveLists, ListsCompletion.unsorted,
      if_pos hlt]
  | defaultListsAdded defaultLists => rfl
  | listAdded title listId => rfl

/-- An empty answer leaves the rows alone. -/
theorem lists_apply_of_not_sorts (lowercased : String → String) {c : SavedController}
    {e : ListsCompletion} (he : e.sorts = false) : e.apply lowercased c = c ∧ e.unsorted c.lists = c.lists := by
  cases e with
  | retrieveLists allLists =>
    have hlt : ¬ 0 < allLists.length := of_decide_eq_false he
    exact ⟨if_neg hlt, if_neg hlt⟩
  | defaultListsAdded defaultLists => cases he
  | listAdded title listId => cases he

theorem lists_completed_sorted {c : SavedController} {lists : List PlaceList}
    (es : List ListsCompletion) (hc : c.lists = sortedByTitle lists lowercased) :
    (c.completed lowercased es).lists = sortedByTitle (unsortedLists lists es) lowercased := by
  induction es generalizing c lists with
  | nil => exact hc
  | cons e es ih => exact ih (lists_apply_sorted e hc)

/-- The rows after the completions: sorted once, whatever the completions did one by
one. -/
theorem lists_completed (c : SavedController) (es : List ListsCompletion) :
    (c.completed lowercased es).lists =
      if ∀ e ∈ es, e.sorts = false then c.lists
      else sortedByTitle (unsortedLists c.lists es) lowercased := by
  induction es with
  | nil => simp [SavedController.completed]
  | cons e es ih =>
    cases he : e.sorts with
    | false =>
      obtain ⟨hsame, hlists⟩ := lists_apply_of_not_sorts lowercased (c := c) he
      have hcompleted : c.completed lowercased (e :: es) = c.completed lowercased es := by
        show (e.apply lowercased c).completed lowercased es = c.completed lowercased es
        rw [hsame]
      have hunsorted : unsortedLists c.lists (e :: es) = unsortedLists c.lists es := by
        show unsortedLists (e.unsorted c.lists) es = _
        rw [hlists]
      rw [hcompleted, hunsorted, ih]
      simp [he]
    | true =>
      have hnot : ¬ ∀ e' ∈ e :: es, e'.sorts = false := by
        intro h
        cases he.symm.trans (h e List.mem_cons_self)
      rw [if_neg hnot]
      exact lists_completed_sorted es (lists_apply he)

/-- Both actions find the list that was tapped iff its row holds its id. -/
theorem sheetActs_row_iff {s : UserStore} {c : SavedController} {tag : Nat} {list : PlaceList} :
    SheetActs s c tag list ↔ ∃ row, c.lists[tag]? = some row ∧ row.id = list.id := by
  constructor
  · rintro ⟨⟨e, hedit, hid⟩, -⟩
    obtain ⟨row, hrow, rfl⟩ := Option.map_eq_some_iff.mp hedit
    exact ⟨row, hrow, hid⟩
  · rintro ⟨row, hrow, hid⟩
    have hlt : tag < c.lists.length := (List.getElem?_eq_some_iff.mp hrow).1
    refine ⟨⟨_, by rw [SavedController.editAction, hrow]; rfl, hid⟩, fun _ => ?_⟩
    exact ⟨_, row, if_pos hlt, hrow, hid, rfl⟩

end SheetLemmas

open SheetLemmas

/-! ## 3. What the sheet acts on -/

/-- Whatever completions run while the sheet is open, and whatever key sorts the rows:
Edit opens the list that was tapped, and Delete removes the row of the list whose
document it deletes, iff no completion has sorted the rows or, of the lists then shown,
one with the tapped id has as many titles before it as the row has rows above. -/
theorem sheetActs_iff (lowercased : String → String) (s : UserStore) {c : SavedController}
    {tag : Nat} {list : PlaceList} (htap : c.lists[tag]? = some list) (es : List ListsCompletion) :
    SheetActs s (c.completed lowercased es) tag list ↔
      (∀ e ∈ es, e.sorts = false) ∨
        ∃ k x, (unsortedLists c.lists es)[k]? = some x ∧ x.id = list.id ∧
          StableSort.rank (fun l : PlaceList => lowercased l.title) (unsortedLists c.lists es) k x =
            tag := by
  rw [sheetActs_row_iff, lists_completed]
  split
  · next hnone => exact iff_of_true ⟨list, htap, rfl⟩ (.inl hnone)
  · next hsorted =>
    rw [or_iff_right hsorted]
    simp only [sortedByTitle_eq, StableSort.getElem?_sortBy]
    constructor
    · rintro ⟨x, ⟨k, hk, hrank⟩, hid⟩
      exact ⟨k, x, hk, hid, hrank⟩
    · rintro ⟨k, x, hk, hid, hrank⟩
      exact ⟨x, ⟨k, hk, hrank⟩, hid⟩

/-- The row of a list with this title and document. -/
def exRow (title : String) (listId : Nat) : PlaceList :=
  ⟨title, some listId, "list.bullet", .lightPurple, [], 0⟩

def exOneRow : SavedController := ⟨[exRow "B" 1], [], false, false⟩

/-- A new list sorts behind the tapped one. -/
theorem sheetActs_list_behind :
    SheetActs .empty (exOneRow.completed UnicodeCase.lowercased [.listAdded "C" 2]) 0
      (exRow "B" 1) :=
  (sheetActs_iff UnicodeCase.lowercased .empty (c := exOneRow) rfl [.listAdded "C" 2]).mpr
    (.inr ⟨0, exRow "B" 1, rfl, rfl, by decide +kernel⟩)

/-- A new list sorts before the tapped one and is found in its row. -/
theorem sheet_acts_on_other_list :
    ¬ ∀ (s : UserStore) (c : SavedController) (tag : Nat) (list : PlaceList)
        (es : List ListsCompletion), c.lists[tag]? = some list →
      SheetActs s (c.completed UnicodeCase.lowercased es) tag list := by
  intro h
  obtain ⟨e, hedit, hid⟩ :=
    (h .empty exOneRow 0 (exRow "B" 1) [.listAdded "A" 2] rfl).edit
  have hopened : ((exOneRow.completed UnicodeCase.lowercased [.listAdded "A" 2]).editAction
      0).map (·.list.id) = some (some 2) := by decide +kernel
  rw [hedit] at hopened
  cases hid.symm.trans (Option.some.inj hopened)

end LocateMe
