import LocateMe.Lib.Machine
import LocateMe.DbControllers

/-!
# The save screen

`SavePlaceView` shows a row with a check box for every list. `selectedLists` is
changed by two handlers: `cellForRowAt` appends a row each time it renders one
that the place is already in, and `didTapCheckBox` appends or removes one
occurrence. `tappedDoneBtn` writes the titles of the rows in it.

Results:
1. `count_selectedLists`: how often a row is selected, from the events alone.
2. `writes_shown_iff`: Done writes what the boxes show iff the rows of each
   title have one tick between them when one of them counts as checked, and
   none otherwise.
-/

namespace LocateMe

open Documents

/-! ## 1. The screen -/

/-- The fields of `SavePlaceView`. `boxes` is what the check box of each row
last showed; a row that was never rendered has none. -/
structure SavePlaceView where
  currentPlace : Place
  alreadySavedPlace : Bool
  selectedLists : List Nat
  lists : List PlaceList
  ids : List Int
  boxes : Nat → Option Bool

/-- The screen that `PlaceDetailController.tappedSave` opens, when its two
queries have answered. -/
def openSavePlaceView (currentPlace : Place) (lists : List PlaceList) (ids : List Int) :
    SavePlaceView where
  currentPlace := currentPlace
  alreadySavedPlace := decide (0 < currentPlace.list.length)
  selectedLists := []
  lists := lists
  ids := ids
  boxes _ := none

/-- The same with the answers of the store: `retrieveLists` and
`retrieveHistoryCount`. -/
def SavePlaceView.load (s : UserStore) (currentPlace : Place) : SavePlaceView :=
  openSavePlaceView currentPlace (sortedByTitle (getAllList s)) (getAllPlacesIds s)

namespace SavePlaceView

/-- Whether rendering a row with this title ticks it. -/
def ticks (v : SavePlaceView) (title : String) : Bool :=
  v.alreadySavedPlace && v.currentPlace.list.contains title

/-- `tableView(_:cellForRowAt:)`. -/
def cellForRowAt (v : SavePlaceView) (row : Nat) : Option SavePlaceView :=
  (v.lists[row]?).map fun list =>
    { v with
      boxes := Function.update v.boxes row (some (v.ticks list.title))
      selectedLists :=
        if v.ticks list.title then v.selectedLists ++ [row] else v.selectedLists }

/-- A tap on the check box of a rendered row, which toggles it, and
`didTapCheckBox`. -/
def didTapCheckBox (v : SavePlaceView) (row : Nat) : Option SavePlaceView :=
  (v.boxes row).map fun wasChecked =>
    let isChecked := !wasChecked
    { v with
      boxes := Function.update v.boxes row (some isChecked)
      selectedLists :=
        if isChecked && !v.selectedLists.contains row then v.selectedLists ++ [row]
        else if !isChecked && v.selectedLists.contains row then v.selectedLists.erase row
        else v.selectedLists }

/-- The local `listTitles` of `tappedDoneBtn` after its loop. -/
def listTitles (v : SavePlaceView) : List String :=
  v.selectedLists.filterMap fun index => (v.lists[index]?).map PlaceList.title

/-- The local `highestId` of `tappedDoneBtn`. Ids are unbounded here; the app stops
at the greatest `Int`. -/
def highestId (v : SavePlaceView) : Int :=
  if v.alreadySavedPlace then v.currentPlace.id else (v.ids.max?.getD 0) + 1

/-- A selected row in the first loop of `tappedDoneBtn`. Equal titles are equal
strings; the app takes canonically equivalent ones for equal, so the strings stand
for one normal form. -/
def addToList (v : SavePlaceView) (index : Nat) : Issued :=
  match v.lists[index]? with
  | none => .trap
  | some list =>
    if v.currentPlace.list.contains list.title then .none
    else addNewPlaceToList list.id v.highestId

/-- A title of a saved place in the last loop of `tappedDoneBtn`. -/
def removeFromList (v : SavePlaceView) (title : String) : Issued :=
  if v.listTitles.contains title then .none
  else
    match v.lists.find? (·.title = title) with
    | none => .trap
    | some list => removePlaceFromList list.id v.currentPlace.id

/-- `tappedDoneBtn`. Without a selection and without a saved place it shows an
alert and issues nothing: `none`. -/
def tappedDoneBtn (v : SavePlaceView) : Option Issued :=
  if v.selectedLists.length = 0 ∧ v.alreadySavedPlace = false then none
  else
    let record :=
      if v.alreadySavedPlace = false then addPlaceToHistory v.currentPlace v.listTitles v.highestId
      else
        (if v.listTitles.length = 0 then deletePlace v.currentPlace.dbId
          else updatePlace v.currentPlace v.listTitles).andThen
            (.forEach v.currentPlace.list v.removeFromList)
    some ((Issued.forEach v.selectedLists v.addToList).andThen record)

/-- The completion of `addNewList` in `tappedNewList`; every cell is rendered
anew afterwards. -/
def listAdded (v : SavePlaceView) (title : String) (listId : Nat) : SavePlaceView :=
  { v with
    lists := sortedByTitle (v.lists ++
      [⟨title, some listId, (setNewListIcon title).1, (setNewListIcon title).2, [], 0⟩])
    selectedLists := []
    boxes := fun _ => none }

end SavePlaceView

/-- What happens to a row before Done. -/
inductive RowEvent
  | cellForRowAt (row : Nat)
  | didTapCheckBox (row : Nat)
deriving DecidableEq

def rowStep (v : SavePlaceView) : RowEvent → Option SavePlaceView
  | .cellForRowAt row => v.cellForRowAt row
  | .didTapCheckBox row => v.didTapCheckBox row

/-! ## 2. How often a row is selected -/

/-- What the events say about one row: the state of its box, and its surplus,
the renders over a ticked box that no ticking tap has made up for. `saved` says
whether rendering ticks the row. -/
structure RowTrack where
  box : Option Bool
  surplus : Nat
deriving DecidableEq

def RowTrack.initial : RowTrack := ⟨none, 0⟩

def RowTrack.after (saved : Bool) (row : Nat) (track : RowTrack) : RowEvent → RowTrack
  | .cellForRowAt r =>
    if r = row then
      ⟨some saved, if track.box = some true then track.surplus + 1 else track.surplus⟩
    else track
  | .didTapCheckBox r =>
    if r = row then
      ⟨track.box.map (!·), if track.box = some false then track.surplus - 1 else track.surplus⟩
    else track

/-- A ticked box and the surplus. -/
def RowTrack.ticks (track : RowTrack) : Nat :=
  track.surplus + if track.box = some true then 1 else 0

def trackRow (saved : Bool) (row : Nat) (es : List RowEvent) : RowTrack :=
  es.foldl (RowTrack.after saved row) .initial

/-- Whether rendering the row ticks it. -/
def SavePlaceView.savedRow (v : SavePlaceView) (row : Nat) : Bool :=
  ((v.lists[row]?).map fun list => v.ticks list.title).getD false

namespace SaveLemmas

/-- The handlers of the rows change the boxes and the selection only. -/
theorem rowStep_frame {v w : SavePlaceView} {e : RowEvent} (h : rowStep v e = some w) :
    w.currentPlace = v.currentPlace ∧ w.alreadySavedPlace = v.alreadySavedPlace ∧
      w.lists = v.lists ∧ w.ids = v.ids := by
  cases e with
  | cellForRowAt row =>
    obtain ⟨_, _, rfl⟩ := Option.map_eq_some_iff.mp h
    exact ⟨rfl, rfl, rfl, rfl⟩
  | didTapCheckBox row =>
    obtain ⟨_, _, rfl⟩ := Option.map_eq_some_iff.mp h
    exact ⟨rfl, rfl, rfl, rfl⟩

/-- What holds of every row with a list, and of the rendered and the selected rows,
holds of these after a tap or a rendering. -/
theorem rowStep_rows {P : Nat → Prop} {v w : SavePlaceView} {e : RowEvent}
    (hlists : ∀ row l, v.lists[row]? = some l → P row) (hboxes : ∀ row, v.boxes row ≠ none → P row)
    (hselected : ∀ row ∈ v.selectedLists, P row) (h : rowStep v e = some w) :
    (∀ row, w.boxes row ≠ none → P row) ∧ ∀ row ∈ w.selectedLists, P row := by
  have hupdate : ∀ {r box}, P r → ∀ row,
      Function.update v.boxes r (some box) row ≠ none → P row := by
    intro r box hr row hrow
    by_cases heq : row = r
    · rwa [heq]
    · rw [Function.update_of_ne heq] at hrow
      exact hboxes row hrow
  have happend : ∀ {r}, P r → ∀ row ∈ v.selectedLists ++ [r], P row := by
    intro r hr row hrow
    rcases List.mem_append.mp hrow with hrow | hrow
    · exact hselected row hrow
    · rwa [List.mem_singleton.mp hrow]
  cases e with
  | cellForRowAt r =>
    obtain ⟨list, hlist, rfl⟩ := Option.map_eq_some_iff.mp h
    refine ⟨hupdate (hlists r list hlist), fun row hrow => ?_⟩
    dsimp only at hrow
    split at hrow
    · exact happend (hlists r list hlist) row hrow
    · exact hselected row hrow
  | didTapCheckBox r =>
    obtain ⟨wasChecked, hwas, rfl⟩ := Option.map_eq_some_iff.mp h
    have hr : P r := hboxes r (by simp [hwas])
    refine ⟨hupdate hr, fun row hrow => ?_⟩
    dsimp only at hrow
    split at hrow
    · exact happend hr row hrow
    · split at hrow
      · exact hselected row (List.mem_of_mem_erase hrow)
      · exact hselected row hrow

theorem run_frame {v w : SavePlaceView} {es : List RowEvent}
    (h : Machine.run rowStep v es = some w) :
    w.currentPlace = v.currentPlace ∧ w.alreadySavedPlace = v.alreadySavedPlace ∧
      w.lists = v.lists ∧ w.ids = v.ids :=
  Machine.run_invariant' (I := fun u => u.currentPlace = v.currentPlace ∧
      u.alreadySavedPlace = v.alreadySavedPlace ∧ u.lists = v.lists ∧ u.ids = v.ids)
    (fun _ _ _ hu hstep => by
      obtain ⟨h₁, h₂, h₃, h₄⟩ := rowStep_frame hstep
      obtain ⟨g₁, g₂, g₃, g₄⟩ := hu
      exact ⟨h₁.trans g₁, h₂.trans g₂, h₃.trans g₃, h₄.trans g₄⟩)
    ⟨rfl, rfl, rfl, rfl⟩ h

/-- The row is as tracked: its box, and the number of times it is selected. -/
def Tracked (v : SavePlaceView) (row : Nat) (track : RowTrack) : Prop :=
  v.boxes row = track.box ∧ v.selectedLists.count row = track.ticks

/-- Rendering: each render of a ticked row selects it once more, and the tick
that was there before becomes surplus. -/
theorem tracked_cellForRowAt {v w : SavePlaceView} {r row : Nat} {track : RowTrack}
    (ht : Tracked v row track) (h : v.cellForRowAt r = some w) :
    Tracked w row (track.after (v.savedRow row) row (.cellForRowAt r)) := by
  obtain ⟨list, hlist, rfl⟩ := Option.map_eq_some_iff.mp h
  obtain ⟨hbox, hcount⟩ := ht
  by_cases hr : r = row
  · subst hr
    have hsaved : v.savedRow r = v.ticks list.title := by simp [SavePlaceView.savedRow, hlist]
    rw [hsaved]
    refine ⟨by simp [RowTrack.after], ?_⟩
    cases hticks : v.ticks list.title with
    | true =>
      have hsum : v.selectedLists.count r + 1 = track.ticks + 1 := by rw [hcount]
      simp only [if_true, List.count_append, List.count_singleton_self, hsum, RowTrack.after,
        RowTrack.ticks]
      split_ifs <;> omega
    | false =>
      simp only [Bool.false_eq_true, if_false, hcount, RowTrack.after, RowTrack.ticks]
      by_cases hb : track.box = some true <;> simp [hb]
  · refine ⟨by simpa [RowTrack.after, hr, Function.update_of_ne (Ne.symm hr)] using hbox, ?_⟩
    simp only [RowTrack.after, hr, if_false, ← hcount]
    split_ifs
    · simp [List.count_append, hr]
    · rfl

/-- Tapping: a ticking tap selects the row unless a surplus is there already, and
an unticking tap removes one occurrence. -/
theorem tracked_didTapCheckBox {v w : SavePlaceView} {r row : Nat} {track : RowTrack}
    (ht : Tracked v row track) (h : v.didTapCheckBox r = some w) :
    Tracked w row (track.after (v.savedRow row) row (.didTapCheckBox r)) := by
  obtain ⟨wasChecked, hwas, rfl⟩ := Option.map_eq_some_iff.mp h
  obtain ⟨hbox, hcount⟩ := ht
  by_cases hr : r = row
  · subst hr
    have hbox' : track.box = some wasChecked := hbox.symm.trans hwas
    refine ⟨by simp [RowTrack.after, hbox'], ?_⟩
    have hmem : r ∈ v.selectedLists ↔ 0 < v.selectedLists.count r := List.count_pos_iff.symm
    cases wasChecked with
    | true =>
      have hin : r ∈ v.selectedLists := by
        rw [hmem, hcount]
        simp [RowTrack.ticks, hbox']
      simp [RowTrack.after, RowTrack.ticks, hbox', hin, List.count_erase_self, hcount]
    | false =>
      by_cases hin : r ∈ v.selectedLists
      · have hpos := hmem.mp hin
        simp only [RowTrack.ticks, hbox', Option.some.injEq, Bool.false_eq_true, if_false,
          add_zero] at hcount
        simp [RowTrack.after, RowTrack.ticks, hbox', hin]
        omega
      · have hzero : v.selectedLists.count r = 0 := List.count_eq_zero.mpr hin
        simp only [RowTrack.ticks, hbox', Option.some.injEq, Bool.false_eq_true, if_false,
          add_zero] at hcount
        simp [RowTrack.after, RowTrack.ticks, hbox', hin, List.count_append, hzero]
        omega
  · refine ⟨by simpa [RowTrack.after, hr, Function.update_of_ne (Ne.symm hr)] using hbox, ?_⟩
    simp only [RowTrack.after, hr, if_false, ← hcount]
    split_ifs
    · simp [List.count_append, hr]
    · exact List.count_erase_of_ne (Ne.symm hr)
    · rfl

theorem tracked_run {v w : SavePlaceView} {es : List RowEvent} {row : Nat} {track : RowTrack}
    (ht : Tracked v row track) (h : Machine.run rowStep v es = some w) :
    Tracked w row (es.foldl (RowTrack.after (v.savedRow row) row) track) := by
  induction es generalizing v track with
  | nil =>
    cases h
    exact ht
  | cons e es ih =>
    obtain ⟨u, hu, hrest⟩ := Machine.run_cons.mp h
    obtain ⟨hplace, halready, hlists, -⟩ := rowStep_frame hu
    have hsaved : u.savedRow row = v.savedRow row := by
      simp [SavePlaceView.savedRow, SavePlaceView.ticks, hplace, halready, hlists]
    have hstep : Tracked u row (track.after (v.savedRow row) row e) := by
      cases e with
      | cellForRowAt r => exact tracked_cellForRowAt ht hu
      | didTapCheckBox r => exact tracked_didTapCheckBox ht hu
    have hrun := ih hstep hrest
    rwa [hsaved] at hrun

end SaveLemmas

open SaveLemmas

/-- After any run of renders and taps a row is selected as often as its ticked
box and its surplus say. -/
theorem count_selectedLists {place : Place} {lists : List PlaceList} {ids : List Int}
    {es : List RowEvent} {v : SavePlaceView} (row : Nat)
    (hrun : Machine.run rowStep (openSavePlaceView place lists ids) es = some v) :
    let saved := (openSavePlaceView place lists ids).savedRow row
    v.boxes row = (trackRow saved row es).box ∧
      v.selectedLists.count row = (trackRow saved row es).ticks :=
  tracked_run ⟨rfl, by simp [openSavePlaceView, RowTrack.initial, RowTrack.ticks]⟩ hrun

/-! ## 3. What Done writes -/

/-- The rows of the lists with this title. -/
def SavePlaceView.rowsTitled (v : SavePlaceView) (title : String) : Finset Nat :=
  (Finset.range v.lists.length).filter fun row => (v.lists[row]?).map PlaceList.title = some title

/-- The place is in the list of the row. -/
def SavePlaceView.contains (v : SavePlaceView) (row : Nat) : Bool :=
  ((v.lists[row]?).map fun list => v.currentPlace.list.contains list.title).getD false

/-- The box of the row was last shown checked; a row that was never rendered
counts as checked when the place is in its list. -/
def SavePlaceView.countsAsChecked (v : SavePlaceView) (row : Nat) : Bool :=
  (v.boxes row).getD (v.contains row)

/-- The titles that a request gives a record. -/
def Write.titles? : Write → Option (List String)
  | .addHistory doc => some doc.list
  | .setHistory _ doc => some doc.list
  | _ => none

/-- The requests that Done can make. A record that it writes has a title, and only a
saved place's record is written over or deleted. -/
inductive SavePlaceView.DoneWrite (v : SavePlaceView) : Write → Prop
  | unionPlaces (listId : Nat) : DoneWrite v (.unionPlaces listId [v.highestId])
  | addHistory (unsaved : v.alreadySavedPlace = false) (titled : v.listTitles ≠ []) :
      DoneWrite v (.addHistory (docOfPlace v.currentPlace v.listTitles v.highestId))
  | deleteHistory (placeId : Nat) (saved : v.alreadySavedPlace = true)
      (stored : v.currentPlace.dbId = some placeId) : DoneWrite v (.deleteHistory placeId)
  | setHistory (placeId : Nat) (saved : v.alreadySavedPlace = true)
      (stored : v.currentPlace.dbId = some placeId) (titled : v.listTitles ≠ []) :
      DoneWrite v (.setHistory placeId (docOfPlace v.currentPlace v.listTitles v.currentPlace.id))
  | removePlaces (listId : Nat) (saved : v.alreadySavedPlace = true) :
      DoneWrite v (.removePlaces listId [v.currentPlace.id])

/-- The titles that Done writes have no repetition and are those of the rows
that count as checked. -/
def SavePlaceView.WritesShown (v : SavePlaceView) : Prop :=
  v.listTitles.Nodup ∧
    ∀ title, title ∈ v.listTitles ↔ ∃ row ∈ v.rowsTitled title, v.countsAsChecked row = true

/-- The rows of each title have one tick between them, a ticked box or a
surplus, when one of them counts as checked after the events, and none
otherwise. -/
def OneTickPerTitle (v : SavePlaceView) (es : List RowEvent) : Prop :=
  ∀ title, (∑ row ∈ v.rowsTitled title, (trackRow (v.savedRow row) row es).ticks) =
    if ∃ row ∈ v.rowsTitled title,
      (trackRow (v.savedRow row) row es).box.getD (v.contains row) = true then 1 else 0

namespace SaveLemmas

/-- A title is written as often as the rows with that title are selected. -/
theorem count_listTitles (v : SavePlaceView) (title : String) :
    v.listTitles.count title = ∑ row ∈ v.rowsTitled title, v.selectedLists.count row := by
  unfold SavePlaceView.listTitles
  induction v.selectedLists with
  | nil => simp
  | cons index rest ih =>
    have hindex : index ∈ v.rowsTitled title ↔
        (v.lists[index]?).map PlaceList.title = some title := by
      simp only [SavePlaceView.rowsTitled, Finset.mem_filter, Finset.mem_range, and_iff_right_iff_imp]
      intro h
      obtain ⟨list, hlist, -⟩ := Option.map_eq_some_iff.mp h
      exact (List.getElem?_eq_some_iff.mp hlist).1
    simp only [List.count_cons, Finset.sum_add_distrib, ← ih, beq_iff_eq]
    rw [Finset.sum_ite_eq, List.filterMap_cons]
    by_cases hin : (v.lists[index]?).map PlaceList.title = some title
    · simp [hin, hindex]
    · rw [if_neg (fun h => hin (hindex.mp h))]
      cases hmap : (v.lists[index]?).map PlaceList.title with
      | none => simp
      | some other =>
        have hne : other ≠ title := fun h => hin (by rw [hmap, h])
        simp [hne]

theorem writesShown_iff_count {v : SavePlaceView} :
    v.WritesShown ↔ ∀ title, v.listTitles.count title =
      if ∃ row ∈ v.rowsTitled title, v.countsAsChecked row = true then 1 else 0 := by
  constructor
  · rintro ⟨hnodup, hshown⟩ title
    split
    · next hex => exact List.count_eq_one_of_mem hnodup ((hshown title).mpr hex)
    · next hno => exact List.count_eq_zero.mpr fun hin => hno ((hshown title).mp hin)
  · intro hcount
    refine ⟨List.nodup_iff_count_le_one.mpr fun title => ?_, fun title => ?_⟩
    · rw [hcount title]
      split_ifs <;> omega
    · rw [← List.count_pos_iff, hcount title]
      split_ifs with hex
      · exact iff_of_true one_pos hex
      · exact iff_of_false (lt_irrefl 0) hex

theorem writesShown_iff_oneTick {place : Place} {lists : List PlaceList} {ids : List Int}
    {es : List RowEvent} {v : SavePlaceView}
    (hrun : Machine.run rowStep (openSavePlaceView place lists ids) es = some v) :
    v.WritesShown ↔ OneTickPerTitle (openSavePlaceView place lists ids) es := by
  obtain ⟨hplace, -, hlists, -⟩ := run_frame hrun
  have hrows : ∀ title, v.rowsTitled title =
      (openSavePlaceView place lists ids).rowsTitled title := by
    simp [SavePlaceView.rowsTitled, hlists]
  have hchecked : ∀ row, v.countsAsChecked row =
      (trackRow ((openSavePlaceView place lists ids).savedRow row) row es).box.getD
        ((openSavePlaceView place lists ids).contains row) := by
    intro row
    rw [SavePlaceView.countsAsChecked, (count_selectedLists row hrun).1]
    simp [SavePlaceView.contains, hplace, hlists]
  rw [writesShown_iff_count]
  refine forall_congr' fun title => ?_
  rw [count_listTitles, hrows]
  simp only [(count_selectedLists _ hrun).2, hchecked]

theorem mem_listTitles {v : SavePlaceView} {t : String} :
    t ∈ v.listTitles ↔ ∃ row ∈ v.selectedLists, ∃ l, v.lists[row]? = some l ∧ l.title = t := by
  simp [SavePlaceView.listTitles]

theorem mem_addToList {v : SavePlaceView} {index : Nat} {w : Write}
    (hw : w ∈ (v.addToList index).writes) : ∃ l, w = .unionPlaces l [v.highestId] := by
  unfold SavePlaceView.addToList at hw
  split at hw
  · cases hw
  · split at hw
    · cases hw
    · obtain ⟨l, -, rfl⟩ := Issued.mem_write hw
      exact ⟨l, rfl⟩

theorem mem_removeFromList {v : SavePlaceView} {title : String} {w : Write}
    (hw : w ∈ (v.removeFromList title).writes) :
    ∃ list ∈ v.lists, list.title = title ∧
      ∃ l, list.id = some l ∧ w = .removePlaces l [v.currentPlace.id] := by
  unfold SavePlaceView.removeFromList at hw
  split at hw
  · cases hw
  · split at hw
    · cases hw
    · next list hlist =>
      have htitle := List.find?_some hlist
      simp only [decide_eq_true_eq] at htitle
      obtain ⟨l, hl, rfl⟩ := Issued.mem_write hw
      exact ⟨list, List.mem_of_find?_eq_some hlist, htitle, l, hl, rfl⟩

/-- A selected row has a title when the first loop does not trap. -/
theorem listTitles_ne_nil {v : SavePlaceView} (hselected : v.selectedLists ≠ [])
    (hok : (Issued.forEach v.selectedLists v.addToList).trapped = false) : v.listTitles ≠ [] := by
  obtain ⟨row, hrow⟩ := List.exists_mem_of_ne_nil _ hselected
  have hbody := Issued.forEach_trapped.mp hok row hrow
  unfold SavePlaceView.addToList at hbody
  split at hbody
  · cases hbody
  · next l hl => exact List.ne_nil_of_mem (mem_listTitles.mpr ⟨row, hrow, l, hl, rfl⟩)

/-- Every request of Done, whether or not it runs to its end. -/
theorem doneWrite_of_mem {v : SavePlaceView} {issued : Issued} {w : Write}
    (hdone : v.tappedDoneBtn = some issued) (hw : w ∈ issued.writes) : v.DoneWrite w := by
  unfold SavePlaceView.tappedDoneBtn at hdone
  split at hdone
  · cases hdone
  · next hselected =>
    obtain rfl := Option.some.inj hdone
    have hadd : ∀ u ∈ (Issued.forEach v.selectedLists v.addToList).writes, v.DoneWrite u := by
      intro u hu
      obtain ⟨row, -, hu⟩ := Issued.mem_forEach hu
      obtain ⟨l, rfl⟩ := mem_addToList hu
      exact .unionPlaces l
    rcases Issued.andThen_cases (Issued.forEach v.selectedLists v.addToList) _ with
      ⟨-, hwrites⟩ | ⟨hok, hwrites⟩
    · exact hadd w (hwrites ▸ hw)
    · rw [hwrites] at hw
      rcases List.mem_append.mp hw with hw | hw
      · exact hadd w hw
      · split at hw
        · next hnew =>
          rw [List.mem_singleton.mp hw]
          exact .addHistory hnew
            (listTitles_ne_nil (fun hnil => hselected ⟨by simp [hnil], hnew⟩) hok)
        · next hold =>
          have hsaved : v.alreadySavedPlace = true := Bool.eq_true_of_not_eq_false hold
          rcases Issued.mem_andThen hw with hw | hw
          · split at hw
            · obtain ⟨j, hj, rfl⟩ := Issued.mem_write hw
              exact .deleteHistory j hsaved hj
            · next hlen =>
              obtain ⟨j, hj, rfl⟩ := Issued.mem_write hw
              exact .setHistory j hsaved hj fun hnil => hlen (List.length_eq_zero_iff.mpr hnil)
          · obtain ⟨title, -, hw⟩ := Issued.mem_forEach hw
            obtain ⟨-, -, -, l, -, rfl⟩ := mem_removeFromList hw
            exact .removePlaces l hsaved

/-- Requests that change a list give no titles. -/
theorem titles?_add_loop {v : SavePlaceView} {w : Write}
    (hw : w ∈ (Issued.forEach v.selectedLists v.addToList).writes) : w.titles? = none := by
  obtain ⟨index, -, hin⟩ := Issued.mem_forEach hw
  obtain ⟨l, rfl⟩ := mem_addToList hin
  rfl

theorem titles?_remove_loop {v : SavePlaceView} {w : Write}
    (hw : w ∈ (Issued.forEach v.currentPlace.list v.removeFromList).writes) :
    w.titles? = none := by
  obtain ⟨title, -, hin⟩ := Issued.mem_forEach hw
  obtain ⟨-, -, -, l, -, rfl⟩ := mem_removeFromList hin
  rfl

/-- What Done writes to the history, when it runs to its end with a selection. -/
theorem done_titles {v : SavePlaceView} {issued : Issued} (hdone : v.tappedDoneBtn = some issued)
    (hok : issued.trapped = false) (hne : v.listTitles ≠ []) :
    issued.writes.filterMap Write.titles? = [v.listTitles] := by
  unfold SavePlaceView.tappedDoneBtn at hdone
  split at hdone
  · cases hdone
  · obtain rfl := Option.some.inj hdone
    obtain ⟨hadd, hrecord⟩ := (Issued.andThen_trapped _ _).mp hok
    rw [Issued.andThen_writes _ hadd, List.filterMap_append,
      List.filterMap_eq_nil_iff.mpr fun w hw => titles?_add_loop hw, List.nil_append]
    split at hrecord
    · next hnew =>
      rw [if_pos hnew]
      rfl
    · next hold =>
      have hlen : v.listTitles.length ≠ 0 := by simpa using hne
      rw [if_neg hold]
      rw [if_neg hlen] at hrecord ⊢
      obtain ⟨hupdate, -⟩ := (Issued.andThen_trapped _ _).mp hrecord
      rw [Issued.andThen_writes _ hupdate, List.filterMap_append,
        List.filterMap_eq_nil_iff.mpr fun w hw => titles?_remove_loop hw, List.append_nil]
      unfold updatePlace Issued.write at hupdate ⊢
      cases hid : v.currentPlace.dbId with
      | none => simp [hid, Issued.trap] at hupdate
      | some id => rfl

end SaveLemmas

/-- Whatever rows are rendered and tapped: a Done that runs to its end writes
one record, with the titles `listTitles`, and these are what the boxes show iff
the rows of each title have one tick when one of them counts as checked, and
none otherwise. -/
theorem writes_shown_iff (place : Place) (lists : List PlaceList) (ids : List Int)
    (es : List RowEvent) (v : SavePlaceView)
    (hrun : Machine.run rowStep (openSavePlaceView place lists ids) es = some v) :
    (∀ issued, v.tappedDoneBtn = some issued → issued.trapped = false → v.listTitles ≠ [] →
      issued.writes.filterMap Write.titles? = [v.listTitles]) ∧
    (v.WritesShown ↔ OneTickPerTitle (openSavePlaceView place lists ids) es) :=
  ⟨fun _ hdone hok hne => done_titles hdone hok hne, writesShown_iff_oneTick hrun⟩

/-- A place stored in the list "A", and two lists to show. -/
def exSavedPlace : Place where
  name := "Cafe"
  address := "1 Main St"
  phone := ""
  website := ""
  category := "Food"
  coordinate := ⟨0, 0⟩
  time := "0"
  distance := 0
  id := 1
  dbId := some 0
  list := ["A"]
  icon := ""
  color := .lightRed

def exLists : List PlaceList := [listOfDoc 0 ⟨"A", [1]⟩, listOfDoc 1 ⟨"B", []⟩]

theorem writes_shown_iff_rendered_once :
    ∃ v, Machine.run rowStep (openSavePlaceView exSavedPlace exLists [1])
        [.cellForRowAt 0, .cellForRowAt 1, .didTapCheckBox 1] = some v ∧
      (∀ issued, v.tappedDoneBtn = some issued → issued.trapped = false → v.listTitles ≠ [] →
        issued.writes.filterMap Write.titles? = [v.listTitles]) ∧
      (v.WritesShown ↔ OneTickPerTitle (openSavePlaceView exSavedPlace exLists [1])
        [.cellForRowAt 0, .cellForRowAt 1, .didTapCheckBox 1]) :=
  ⟨_, rfl, writes_shown_iff exSavedPlace exLists [1]
    [.cellForRowAt 0, .cellForRowAt 1, .didTapCheckBox 1] _ rfl⟩

/-- Scrolling the saved row out and in again selects it twice. -/
theorem rerendered_row_repeats_title :
    ¬ ∀ (place : Place) (lists : List PlaceList) (ids : List Int) (es : List RowEvent)
        (v : SavePlaceView),
      Machine.run rowStep (openSavePlaceView place lists ids) es = some v → v.WritesShown := by
  intro hall
  have hrun : (Machine.run rowStep (openSavePlaceView exSavedPlace exLists [1])
      [.cellForRowAt 0, .cellForRowAt 0]).map SavePlaceView.listTitles = some ["A", "A"] := by
    decide +kernel
  obtain ⟨v, hv, htitles⟩ := Option.map_eq_some_iff.mp hrun
  have hnodup := (hall _ _ _ _ v hv).1
  rw [htitles] at hnodup
  exact absurd hnodup (by decide)

end LocateMe
