import LocateMe.SessionIntegrity
import LocateMe.ShelvedRuns

/-!
# Sessions on the shelves

The screens of a session hold places and rows from some time before a tap. When the
objects that a tap writes from are what the queries would return now, its requests do
to the shelves what the tap means, from whatever screen it is made.

Results:
1. `ready_of_current`: such a tap also meets the condition for integrity.
2. `issued_refines`: what its requests do.
3. `trapped_of_crashed`: a session ends by the trap of a request only.
4. `sessions_refine_shelves`: no request of such a session traps, and the store follows
   the shelves.
-/

namespace LocateMe

open Documents StoreLemmas SessionLemmas TidyLemmas ShelfLemmas SaveLemmas ChosenLemmas EditLemmas
  EmptyLemmas ActionLemmas ShelfRunLemmas

/-! ## 1. Current objects -/

/-- What a query of the history would return. -/
def Place.Current (s : UserStore) (place : Place) : Prop := place ∈ getAllPlaces s

instance (s : UserStore) : DecidablePred (Place.Current s) := fun place =>
  inferInstanceAs (Decidable (place ∈ getAllPlaces s))

instance (s : UserStore) (i : Nat) (title : String) : Decidable (Titled s i title) :=
  decidable_of_iff ((s.lists.get i).map ListDoc.title = some title) Option.map_eq_some_iff

/-- A swipe: the place is current and stands in the list on screen, whose title is current
too; "Recently Saved" is asked for ten lists at most. -/
def SwipeCurrent (s : UserStore) (list : PlaceList) (place : Place) : Prop :=
  place.Current s ∧ (∀ l ∈ list.id, Titled s l list.title ∧ list.title ∈ place.list) ∧
    (list.id = none → place.list.length ≤ 10)

instance (s : UserStore) (list : PlaceList) (place : Place) :
    Decidable (SwipeCurrent s list place) :=
  inferInstanceAs (Decidable (_ ∧ _ ∧ _))

def MapScreen.Current (m : MapScreen) (s : UserStore) : MapTap → Prop
  | .swipe i => ∀ place ∈ m.places[i]?, ∀ list ∈ m.list, SwipeCurrent s list place
  | _ => True

instance (m : MapScreen) (s : UserStore) : DecidablePred (m.Current s)
  | .swipe i => inferInstanceAs
    (Decidable (∀ place ∈ m.places[i]?, ∀ list ∈ m.list, SwipeCurrent s list place))
  | .row _ _ | .pin _ _ | .save => .isTrue trivial

/-- No title is selected twice, and the place is unsaved or current. -/
def SavePlaceView.Current (v : SavePlaceView) (s : UserStore) : SaveTap → Prop
  | .newList title => ¬ ListTitle s title
  | .done => v.listTitles.Nodup ∧ (v.currentPlace.list ≠ [] → v.currentPlace.Current s)
  | _ => True

instance (v : SavePlaceView) (s : UserStore) : DecidablePred (v.Current s)
  | .newList title => inferInstanceAs (Decidable (¬ ListTitle s title))
  | .done => inferInstanceAs
    (Decidable (v.listTitles.Nodup ∧ (v.currentPlace.list ≠ [] → v.currentPlace.Current s)))
  | .row _ | .back => .isTrue trivial

def SavedController.Current (s : UserStore) : SavedTap → Prop
  | .newList title => ¬ ListTitle s title
  | _ => True

instance (s : UserStore) : DecidablePred (SavedController.Current s)
  | .newList title => inferInstanceAs (Decidable (¬ ListTitle s title))
  | .row _ | .item _ | .seeAll | .edit _ | .delete _ | .back => .isTrue trivial

/-- The places of both arrays are current and stand in the list, and a new title is new. -/
def EditListController.Current (e : EditListController) (s : UserStore) : EditTap → Prop
  | .done => (∀ p ∈ e.places ++ e.selectedPlaces, p.Current s ∧ e.list.title ∈ p.list) ∧
    (e.list.title ≠ e.editedListTitle → ¬ ListTitle s e.editedListTitle)
  | _ => True

instance (e : EditListController) (s : UserStore) : DecidablePred (e.Current s)
  | .done => inferInstanceAs (Decidable
    ((∀ p ∈ e.places ++ e.selectedPlaces, p.Current s ∧ e.list.title ∈ p.list) ∧
      (e.list.title ≠ e.editedListTitle → ¬ ListTitle s e.editedListTitle)))
  | .delete _ | .title _ | .back => .isTrue trivial

/-- The objects that the tap writes from are current. -/
def Session.Current (σ : Session) (tap : Tap) : Prop :=
  match σ.screen, tap with
  | .map, .map tap => σ.root.Current σ.store tap
  | .listMap _ m, .map tap => m.Current σ.store tap
  | .mapSave v, .save tap => v.Current σ.store tap
  | .listMapSave _ _ v, .save tap => v.Current σ.store tap
  | .saved _, .saved tap => SavedController.Current σ.store tap
  | .edit _ e, .edit tap => e.Current σ.store tap
  | _, _ => True

instance : ∀ σ : Session, DecidablePred σ.Current
  | ⟨s, _, root, .map⟩, .map tap => inferInstanceAs (Decidable (root.Current s tap))
  | ⟨s, _, _, .listMap _ m⟩, .map tap => inferInstanceAs (Decidable (m.Current s tap))
  | ⟨s, _, _, .mapSave v⟩, .save tap => inferInstanceAs (Decidable (v.Current s tap))
  | ⟨s, _, _, .listMapSave _ _ v⟩, .save tap => inferInstanceAs (Decidable (v.Current s tap))
  | ⟨s, _, _, .saved _⟩, .saved tap =>
    inferInstanceAs (Decidable (SavedController.Current s tap))
  | ⟨s, _, _, .edit _ e⟩, .edit tap => inferInstanceAs (Decidable (e.Current s tap))
  | ⟨_, _, _, .crashed⟩, _
  | ⟨_, _, _, .map⟩, .relaunch | ⟨_, _, _, .map⟩, .root _ | ⟨_, _, _, .map⟩, .saved _
  | ⟨_, _, _, .map⟩, .save _ | ⟨_, _, _, .map⟩, .edit _
  | ⟨_, _, _, .listMap _ _⟩, .relaunch | ⟨_, _, _, .listMap _ _⟩, .root _
  | ⟨_, _, _, .listMap _ _⟩, .saved _ | ⟨_, _, _, .listMap _ _⟩, .save _
  | ⟨_, _, _, .listMap _ _⟩, .edit _
  | ⟨_, _, _, .mapSave _⟩, .relaunch | ⟨_, _, _, .mapSave _⟩, .root _
  | ⟨_, _, _, .mapSave _⟩, .map _ | ⟨_, _, _, .mapSave _⟩, .saved _
  | ⟨_, _, _, .mapSave _⟩, .edit _
  | ⟨_, _, _, .listMapSave _ _ _⟩, .relaunch | ⟨_, _, _, .listMapSave _ _ _⟩, .root _
  | ⟨_, _, _, .listMapSave _ _ _⟩, .map _ | ⟨_, _, _, .listMapSave _ _ _⟩, .saved _
  | ⟨_, _, _, .listMapSave _ _ _⟩, .edit _
  | ⟨_, _, _, .saved _⟩, .relaunch | ⟨_, _, _, .saved _⟩, .root _ | ⟨_, _, _, .saved _⟩, .map _
  | ⟨_, _, _, .saved _⟩, .save _ | ⟨_, _, _, .saved _⟩, .edit _
  | ⟨_, _, _, .edit _ _⟩, .relaunch | ⟨_, _, _, .edit _ _⟩, .root _ | ⟨_, _, _, .edit _ _⟩, .map _
  | ⟨_, _, _, .edit _ _⟩, .saved _ | ⟨_, _, _, .edit _ _⟩, .save _ => .isTrue trivial

/-! ## 2. What taps mean -/

/-- Operations on the shelves of a user. -/
abbrev ShelfOp := Shelves.Op Nat String Nat HistoryDoc

def MapScreen.meaning (m : MapScreen) : MapTap → List ShelfOp
  | .swipe i =>
    match m.places[i]?, m.list with
    | some place, some list => [.keep fun j i => place.dbId = some j → ∃ l ∈ list.id, i ≠ l]
    | _, _ => []
  | _ => []

def SavePlaceView.meaning (v : SavePlaceView) (s : UserStore) : SaveTap → List ShelfOp
  | .newList title => [.label s.lists.next title]
  | .done =>
    [.put (s.recordOf v.currentPlace) (docOfPlace v.currentPlace [] v.highestId) {i | v.Selects i}]
  | _ => []

def SavedController.meaning (c : SavedController) (s : UserStore) : SavedTap → List ShelfOp
  | .newList title => [.label s.lists.next title]
  | .delete i =>
    match (c.lists[i]?).bind PlaceList.id with
    | some l => [.keep fun _ i => i ≠ l, .unlabel l]
    | none => []
  | _ => []

def EditListController.meaning (e : EditListController) (s : UserStore) : EditTap → List ShelfOp
  | .done =>
    match e.list.id with
    | some l =>
      [.keep fun j i => i = l → Untapped s (e.selectedPlaces.map Place.id) j,
        .label l e.editedListTitle]
    | none => []
  | _ => []

/-- A tap as operations on shelves. -/
def Session.meaning (σ : Session) (tap : Tap) : List ShelfOp :=
  match σ.screen, tap with
  | .map, .map tap => σ.root.meaning tap
  | .listMap _ m, .map tap => m.meaning tap
  | .mapSave v, .save tap => v.meaning σ.store tap
  | .listMapSave _ _ v, .save tap => v.meaning σ.store tap
  | .saved c, .saved tap => c.meaning σ.store tap
  | .edit _ e, .edit tap => e.meaning σ.store tap
  | _, _ => []

/-- The requests do not trap, and do to the shelves what the operations do. -/
def Issued.Does (issued : Issued) (s : UserStore) (a : UserShelves) (ops : List ShelfOp) : Prop :=
  issued.trapped = false ∧ ∃ b, Machine.run Shelves.step a ops = some b ∧
    Represents (applyAll s issued.writes) b

namespace ShelfSessionLemmas

theorem does_none {s : UserStore} {a : UserShelves} (hs : Represents s a) :
    Issued.none.Does s a [] :=
  ⟨rfl, a, rfl, hs⟩

theorem does_newList {s : UserStore} {a : UserShelves} (hs : Represents s a) {title : String}
    (hnew : ¬ ListTitle s title) : (addNewList title).Does s a [.label s.lists.next title] := by
  obtain ⟨h, hb⟩ := represents_newList hs hnew
  exact ⟨rfl, _, Machine.run_cons.mpr ⟨_, Shelves.step_label.mpr ⟨h, rfl⟩, rfl⟩, hb⟩

/-- A swipe takes a current place off the shelf of the list, or off all shelves. -/
theorem does_swipe {s : UserStore} {a : UserShelves} (hs : Represents s a) {list : PlaceList}
    {place : Place} (h : SwipeCurrent s list place) :
    (commitDelete s list place).Does s a
      [.keep fun j i => place.dbId = some j → ∃ l ∈ list.id, i ≠ l] := by
  obtain ⟨hplace, hlist, hshort⟩ := h
  obtain ⟨j, r, hr, rfl⟩ := mem_getAllPlaces.mp hplace
  obtain ⟨hok, hb⟩ := represents_commitDelete hs hr hlist hshort
  have hkeep : (fun j' i => (placeOfDoc j r).dbId = some j' → ∃ l ∈ list.id, i ≠ l) =
      fun j' i => j' = j → ∃ l ∈ list.id, i ≠ l := by
    funext j' i
    simp [placeOfDoc, eq_comm]
  rw [hkeep]
  exact ⟨hok, _, rfl, hb⟩

/-- Done puts the place on the shelves of the selected rows. -/
theorem does_done {s : UserStore} {a : UserShelves} (hs : Represents s a) {v : SavePlaceView}
    (hv : SaveFresh s v) (hcurrent : v.Current s .done) :
    (v.tappedDoneBtn.getD .none).Does s a (v.meaning s .done) := by
  obtain ⟨hnodup, hplace⟩ := hcurrent
  by_cases hnil : v.currentPlace.list = []
  · obtain ⟨h, hok, hb⟩ := done_new_represents hs hv hnodup hnil
    have hrecord : s.recordOf v.currentPlace = s.history.next := if_pos hnil
    refine ⟨hok, _, Machine.run_cons.mpr ⟨_, Shelves.step_put.mpr ⟨h, ?_⟩, rfl⟩, hb⟩
    rw [hrecord]
  · obtain ⟨j, r, hr, heq⟩ := mem_getAllPlaces.mp (hplace hnil)
    have hrecord : IsRecord s v.currentPlace j := by
      rw [heq]
      exact ⟨rfl, hr⟩
    obtain ⟨issued, h, hdone, hok, hb⟩ := done_represents hs hv hnodup hrecord
    have hsaved : v.alreadySavedPlace = true := by
      rw [hv.saved]
      exact decide_eq_true (List.length_pos_iff.mpr hnil)
    have hid : v.highestId = v.currentPlace.id := if_pos hsaved
    rw [hdone]
    refine ⟨hok, _, Machine.run_cons.mpr ⟨_, Shelves.step_put.mpr ⟨h, ?_⟩, rfl⟩, hb⟩
    rw [recordOf_saved hnil hrecord.dbId, hid]
    rfl

/-- The delete action empties the shelf of its row and takes it away. -/
theorem does_delete {s : UserStore} {a : UserShelves} (hs : Represents s a) {list : PlaceList}
    {l : Nat} (hid : list.id = some l) (htitle : Titled s l list.title) :
    (SavedController.deleteAction s list).Does s a [.keep fun _ i => i ≠ l, .unlabel l] := by
  obtain ⟨doc, hdoc, htitle⟩ := htitle
  obtain ⟨hok, hempty, hgone⟩ := emptied_delete s hid
  rw [← htitle] at hempty
  obtain ⟨h, hb⟩ := represents_delete hs hdoc hempty hgone
  exact ⟨hok, _, Machine.run_cons.mpr ⟨_, rfl, Machine.run_cons.mpr
    ⟨_, Shelves.step_unlabel.mpr ⟨h, rfl⟩, rfl⟩⟩, hb⟩

/-- The edit screen shows exactly the records of its list, when all its places are
current. -/
theorem showsList_of_current {s : UserStore} {a : UserShelves} (hs : Represents s a)
    {e : EditListController} (he : EditFresh s e)
    (hplaces : ∀ p ∈ e.places ++ e.selectedPlaces, p.Current s ∧ e.list.title ∈ p.list) {l : Nat}
    {doc : ListDoc} (hdoc : s.lists.get l = some doc) (htitle : doc.title = e.list.title) :
    ShowsList s doc (e.places ++ e.selectedPlaces) := by
  have htidy := tidy_of_represents hs
  have hleft : (e.places ++ e.selectedPlaces).Nodup := .of_map Place.dbId he.nodup
  have hright := (List.Nodup.of_map Place.dbId (nodup_getAllPlaces s)).filter
    fun place => doc.places.contains place.id
  refine (List.perm_ext_iff_of_nodup hleft hright).mpr fun p => ?_
  rw [mem_opened hs hdoc]
  constructor
  · intro hp
    obtain ⟨hcurrent, hin⟩ := hplaces p hp
    obtain ⟨j, r, hr, rfl⟩ := mem_getAllPlaces.mp hcurrent
    rw [← htitle] at hin
    exact ⟨j, r, hr, (title_mem_iff (hr ▸ hs.records j) (title_of_get hs hdoc)).mp hin, rfl⟩
  · rintro ⟨j, r, hr, hon, rfl⟩
    have hin := (title_mem_iff (hr ▸ hs.records j) (title_of_get hs hdoc)).mpr hon
    rw [htitle] at hin
    -- the screen has a place with the id of the record, which is the record
    obtain ⟨p, hp, hid⟩ := he.covers r.id ⟨j, r, hr, rfl, hin⟩
    obtain ⟨j', r', hr', rfl⟩ := mem_getAllPlaces.mp (hplaces p hp).1
    obtain rfl := htidy.ids ⟨r', hr', hid⟩ ⟨r, hr, rfl⟩
    obtain rfl := Option.some.inj (hr.symm.trans hr')
    exact hp

/-- Done takes the removed places off the shelf of the list and gives it its title. -/
theorem does_edit {s : UserStore} {a : UserShelves} (hs : Represents s a) {e : EditListController}
    (he : EditFresh s e) (hcurrent : e.Current s .done) :
    e.tappedDone.Does s a (e.meaning s .done) := by
  obtain ⟨hplaces, htitle⟩ := hcurrent
  obtain ⟨l, hid, doc, hdoc, hlist⟩ := he.list
  have hnew : ∀ m, a.title m = some e.editedListTitle → m = l := by
    intro m hm
    have hm' := (titled_iff hs).mpr hm
    by_cases hsame : e.list.title = e.editedListTitle
    · rw [← hsame] at hm'
      exact (tidy_of_represents hs).titles hm' ⟨doc, hdoc, hlist⟩
    · exact absurd ⟨m, hm'⟩ (htitle hsame)
  have hshown := showsList_of_current hs he hplaces hdoc hlist
  have hnodup := nodup_shown (tidy_of_represents hs).toConsistent hshown
  have htaps : ∀ p ∈ e.places ++ e.selectedPlaces,
      p ∈ e.selectedPlaces ↔ p.id ∈ e.selectedPlaces.map Place.id := by
    intro p hp
    refine ⟨List.mem_map_of_mem, fun hin => ?_⟩
    obtain ⟨q, hq, heq⟩ := List.mem_map.mp hin
    have hqp := List.inj_on_of_nodup_map hnodup (List.mem_append_right _ hq) hp heq
    exact hqp ▸ hq
  obtain ⟨hok, hb⟩ := done_edited hs hid hdoc hlist.symm hnew hshown htaps
  refine ⟨hok, _, ?_, hb⟩
  rw [EditListController.meaning, hid]
  exact Machine.run_cons.mpr ⟨_, rfl, Machine.run_cons.mpr
    ⟨_, Shelves.step_label.mpr ⟨hnew, rfl⟩, rfl⟩⟩

/-! ## 3. Current taps are ready -/

theorem removable_of_current {s : UserStore} (hs : Consistent s) {place : Place}
    (h : place.Current s) {title : String} (hin : title ∈ place.list) :
    Removable s title place.dbId place.id place.list := by
  obtain ⟨j, r, hr, rfl⟩ := mem_getAllPlaces.mp h
  exact removable_of_query hs (mem_recordsListing.mpr ⟨hr, hin⟩)

theorem upToDate_of_current {s : UserStore} (hs : Consistent s) {place : Place}
    (h : place.Current s) : UpToDate s place := by
  obtain ⟨j, r, hr, rfl⟩ := mem_getAllPlaces.mp h
  exact upToDate_record hs hr

/-- A title of no list is in no record. -/
theorem newTitle_of_tidy {s : UserStore} (hs : Tidy s) {title : String}
    (h : ¬ ListTitle s title) : NewTitle s title := by
  refine ⟨h, ?_⟩
  rintro k ⟨j, r, hr, -, hin⟩
  exact h (hs.known j r hr title hin)

theorem swipeReady_of_current {s : UserStore} (hs : Tidy s) {list : PlaceList} {place : Place}
    (h : SwipeCurrent s list place) : SwipeReady s list place := by
  obtain ⟨hplace, hlist, -⟩ := h
  unfold SwipeReady
  split
  · have hcurrent := upToDate_of_current hs.toConsistent hplace
    exact fun _ => ⟨hcurrent.same, fun u hu => (hcurrent.agrees u hu).mpr⟩
  · next l hid =>
    obtain ⟨htitled, hin⟩ := hlist l hid
    exact ⟨sameList_of_titled hs.toConsistent htitled,
      removable_of_current hs.toConsistent hplace hin⟩

theorem mapReady_of_current {s : UserStore} (hs : Tidy s) {m : MapScreen} {tap : MapTap}
    (h : m.Current s tap) : m.Ready s tap := by
  cases tap with
  | swipe i =>
    simp only [MapScreen.Ready]
    split
    · next place list hplace hlist => exact swipeReady_of_current hs (h place hplace list hlist)
    · trivial
  | _ => trivial

theorem saveReady_of_current {s : UserStore} (hs : Tidy s) {v : SavePlaceView}
    (hv : SaveFresh s v) {tap : SaveTap} (h : v.Current s tap) : v.Ready s tap := by
  cases tap with
  | newList title => exact newTitle_of_tidy hs h
  | done =>
    intro hsaved
    have hplace := h.2 (list_of_saved hv hsaved)
    have hcurrent := upToDate_of_current hs.toConsistent hplace
    obtain ⟨j, r, hr, heq⟩ := mem_getAllPlaces.mp hplace
    have hknown : ∀ t ∈ v.currentPlace.list, ListTitle s t := by
      rw [heq]
      exact hs.known j r hr
    exact ⟨hcurrent.same, fun t ht _ => hknown t ht, fun t ht _ => hcurrent.agrees t ht⟩
  | _ => trivial

theorem savedReady_of_current {s : UserStore} (hs : Tidy s) {tap : SavedTap}
    (h : SavedController.Current s tap) : SavedController.Ready s tap := by
  cases tap with
  | newList title => exact newTitle_of_tidy hs h
  | _ => trivial

theorem editReady_of_current {s : UserStore} (hs : Tidy s) {e : EditListController}
    {tap : EditTap} (h : e.Current s tap) : e.Ready s tap := by
  cases tap with
  | done =>
    obtain ⟨hplaces, htitle⟩ := h
    refine ⟨fun p hp => ?_, fun hne => newTitle_of_tidy hs (htitle hne), fun _ p hp => ?_⟩
    · obtain ⟨hcurrent, hin⟩ := hplaces p (List.mem_append_right _ hp)
      exact removable_of_current hs.toConsistent hcurrent hin
    · obtain ⟨hcurrent, hin⟩ := hplaces p (List.mem_append_left _ hp)
      exact ⟨upToDate_of_current hs.toConsistent hcurrent, hin⟩
  | _ => trivial

end ShelfSessionLemmas

open ShelfSessionLemmas

/-- A current tap keeps integrity. -/
theorem ready_of_current {σ : Session} (hs : Tidy σ.store) (hfresh : σ.screen.Fresh σ.store)
    {tap : Tap} (h : σ.Current tap) : σ.Ready tap := by
  obtain ⟨s, rows, root, screen⟩ := σ
  cases screen with
  | map =>
    cases tap with
    | map tap => exact mapReady_of_current hs h
    | _ => trivial
  | mapSave v =>
    cases tap with
    | save tap => exact saveReady_of_current hs hfresh h
    | _ => trivial
  | saved c =>
    cases tap with
    | saved tap => exact savedReady_of_current hs h
    | _ => trivial
  | listMap c m =>
    cases tap with
    | map tap => exact mapReady_of_current hs h
    | _ => trivial
  | listMapSave c m v =>
    cases tap with
    | save tap => exact saveReady_of_current hs hfresh h
    | _ => trivial
  | edit c e =>
    cases tap with
    | edit tap => exact editReady_of_current hs h
    | _ => trivial
  | crashed => cases tap <;> trivial

/-! ## 4. What a tap does -/

namespace ShelfSessionLemmas

theorem does_mapTap {s : UserStore} {a : UserShelves} (hs : Represents s a) {m : MapScreen}
    {tap : MapTap} (h : m.Current s tap) : (m.issued s tap).Does s a (m.meaning tap) := by
  cases tap with
  | swipe i =>
    simp only [MapScreen.issued, MapScreen.meaning]
    cases hplace : m.places[i]? with
    | none => exact does_none hs
    | some place =>
      cases hlist : m.list with
      | none => exact does_none hs
      | some list => exact does_swipe hs (h place hplace list hlist)
  | _ => exact does_none hs

theorem does_saveTap {s : UserStore} {a : UserShelves} (hs : Represents s a) {v : SavePlaceView}
    (hv : SaveFresh s v) {tap : SaveTap} (h : v.Current s tap) :
    (v.issued tap).Does s a (v.meaning s tap) := by
  cases tap with
  | newList title => exact does_newList hs h
  | done => exact does_done hs hv h
  | _ => exact does_none hs

theorem does_savedTap {s : UserStore} {a : UserShelves} (hs : Represents s a) {c : SavedController}
    (hc : SavedFresh s c) {tap : SavedTap} (h : SavedController.Current s tap) :
    (c.issued s tap).Does s a (c.meaning s tap) := by
  cases tap with
  | newList title => exact does_newList hs h
  | delete i =>
    simp only [SavedController.issued, SavedController.meaning]
    cases hlist : c.lists[i]? with
    | none => exact does_none hs
    | some list =>
      obtain ⟨l, hid, htitle, -⟩ := hc.lists list (List.mem_of_getElem? hlist)
      simp only [Option.bind_some, hid]
      exact does_delete hs hid htitle
  | _ => exact does_none hs

theorem does_editTap {s : UserStore} {a : UserShelves} (hs : Represents s a)
    {e : EditListController} (he : EditFresh s e) {tap : EditTap} (h : e.Current s tap) :
    (e.issued tap).Does s a (e.meaning s tap) := by
  cases tap with
  | done => exact does_edit hs he h
  | _ => exact does_none hs

end ShelfSessionLemmas

/-- The requests of a current tap do not trap, and do to the shelves what it means. -/
theorem issued_refines {σ : Session} {a : UserShelves} (hs : Represents σ.store a)
    (hfresh : σ.screen.Fresh σ.store) {tap : Tap} (h : σ.Current tap) :
    (σ.issued tap).Does σ.store a (σ.meaning tap) := by
  obtain ⟨s, rows, root, screen⟩ := σ
  cases screen with
  | map =>
    cases tap with
    | map tap => exact does_mapTap hs h
    | _ => exact does_none hs
  | mapSave v =>
    cases tap with
    | save tap => exact does_saveTap hs hfresh h
    | _ => exact does_none hs
  | saved c =>
    cases tap with
    | saved tap => exact does_savedTap hs hfresh h
    | _ => exact does_none hs
  | listMap c m =>
    cases tap with
    | map tap => exact does_mapTap hs h
    | _ => exact does_none hs
  | listMapSave c m v =>
    cases tap with
    | save tap => exact does_saveTap hs hfresh h
    | _ => exact does_none hs
  | edit c e =>
    cases tap with
    | edit tap => exact does_editTap hs hfresh.1 h
    | _ => exact does_none hs
  | crashed => cases tap <;> exact does_none hs

/-! ## 5. What ends a session -/

namespace ShelfSessionLemmas

theorem trapped_of_issue {σ : Session} {issued : Issued} {next : Session → Session}
    (hnext : ∀ τ, (next τ).screen ≠ .crashed) (h : (σ.issue issued next).screen = .crashed) :
    issued.trapped = true := by
  unfold Session.issue at h
  cases htrapped : issued.trapped with
  | true => rfl
  | false =>
    rw [htrapped] at h
    exact absurd h (hnext _)

theorem reloadRoot_map {σ : Session} (h : σ.screen = .map) : σ.reloadRoot.screen ≠ .crashed := by
  have hscreen : σ.reloadRoot.screen = .map := (retrieveLists_frame σ σ.searchLists).2.2.trans h
  rw [hscreen]
  exact Screen.noConfusion

theorem trapped_of_mapTap {σ σ' : Session} {m : MapScreen} {shown : MapScreen → Session → Session}
    {push : SavePlaceView → Session → Session} {tap : MapTap}
    (h : mapTap σ m shown push tap = some σ') (hshown : ∀ m τ, (shown m τ).screen ≠ .crashed)
    (hpush : ∀ v τ, (push v τ).screen ≠ .crashed) (hcrashed : σ'.screen = .crashed) :
    (m.issued σ.store tap).trapped = true := by
  rcases mapTap_cases h with ⟨place, rfl, -, rfl⟩ | ⟨i, place, list, rfl, hplace, hlist, rfl⟩ |
    ⟨-, m', -, rfl⟩
  · exact absurd hcrashed (hpush _ _)
  · simp only [MapScreen.issued, hplace, hlist]
    exact trapped_of_issue (hshown _) hcrashed
  · exact absurd hcrashed (hshown _ _)

theorem trapped_of_saveTap {σ σ' : Session} {v : SavePlaceView}
    {shown : SavePlaceView → Session → Session} {pop : Session → Session} {tap : SaveTap}
    (h : saveTap σ v shown pop tap = some σ') (hσ : σ.screen ≠ .crashed)
    (hshown : ∀ v τ, (shown v τ).screen ≠ .crashed) (hpop : ∀ τ, (pop τ).screen ≠ .crashed)
    (hcrashed : σ'.screen = .crashed) : (v.issued tap).trapped = true := by
  rcases saveTap_cases h with ⟨e, w, rfl, -, rfl⟩ | ⟨title, rfl, rfl⟩ | ⟨rfl, -, rfl⟩ |
    ⟨issued, rfl, hdone, rfl⟩ | ⟨rfl, rfl⟩
  · exact absurd hcrashed (hshown _ _)
  · exact trapped_of_issue (hshown _) hcrashed
  · exact absurd hcrashed hσ
  · simp only [SavePlaceView.issued, hdone]
    exact trapped_of_issue hpop hcrashed
  · exact absurd hcrashed (hpop _)

theorem trapped_of_savedTap {σ σ' : Session} {c : SavedController} {tap : SavedTap}
    (h : savedTap σ c tap = some σ') (hcrashed : σ'.screen = .crashed) :
    (c.issued σ.store tap).trapped = true := by
  rcases savedTap_cases h with ⟨i, list, rfl, -, rfl⟩ | ⟨i, place, rfl, -, -, rfl⟩ |
    ⟨list, rfl, -, rfl⟩ | ⟨i, list, rfl, -, rfl⟩ | ⟨i, list, rfl, hlist, -, rfl⟩ |
    ⟨title, rfl, -, rfl⟩ | ⟨rfl, rfl⟩
  · cases hcrashed
  · cases hcrashed
  · cases hcrashed
  · cases hcrashed
  · simp only [SavedController.issued, hlist]
    exact trapped_of_issue (fun _ => Screen.noConfusion) hcrashed
  · exact trapped_of_issue (fun _ => Screen.noConfusion) hcrashed
  · exact absurd hcrashed (reloadRoot_map rfl)

theorem trapped_of_editTap {σ σ' : Session} {c : SavedController} {e : EditListController}
    {tap : EditTap} (h : editTap σ c e tap = some σ') (hcrashed : σ'.screen = .crashed) :
    (e.issued tap).trapped = true := by
  cases tap with
  | delete placeId =>
    cases h
    cases hcrashed
  | title text =>
    cases h
    cases hcrashed
  | done =>
    simp only [editTap] at h
    split at h
    · cases h
      exact trapped_of_issue (fun _ => Screen.noConfusion) hcrashed
    · cases h
  | back =>
    cases h
    cases hcrashed

end ShelfSessionLemmas

/-- A session that has not ended goes on unless the requests of a tap trap. -/
theorem trapped_of_crashed {dist : Coordinate → Coordinate → Rat} {σ σ' : Session} {tap : Tap}
    (hσ : σ.screen ≠ .crashed) (hstep : tapStep dist σ tap = some σ')
    (hcrashed : σ'.screen = .crashed) : (σ.issued tap).trapped = true := by
  unfold tapStep at hstep
  split at hstep
  · cases hstep
    exact absurd hcrashed (reloadRoot_map rfl)
  · next tap hscreen =>
    cases tap with
    | searchAnswered searchText location items =>
      simp only [rootTap] at hstep
      split at hstep
      · cases hstep
      · cases hstep
        exact absurd hcrashed hσ
    | savedList i =>
      obtain ⟨list, -, rfl⟩ := Option.map_eq_some_iff.mp hstep
      exact absurd hcrashed hσ
    | closePanel =>
      cases hstep
      exact absurd hcrashed (reloadRoot_map hscreen)
    | openSaved =>
      cases hstep
      cases hcrashed
  · next tap hscreen =>
    simp only [Session.issued, hscreen]
    exact trapped_of_mapTap hstep (fun _ _ => Screen.noConfusion) (fun _ _ => Screen.noConfusion)
      hcrashed
  · next v tap hscreen =>
    simp only [Session.issued, hscreen]
    exact trapped_of_saveTap hstep hσ (fun _ _ => Screen.noConfusion) (fun _ => Screen.noConfusion)
      hcrashed
  · next c tap hscreen =>
    simp only [Session.issued, hscreen]
    exact trapped_of_savedTap hstep hcrashed
  · cases hstep
    cases hcrashed
  · next c m tap hscreen =>
    simp only [Session.issued, hscreen]
    exact trapped_of_mapTap hstep (fun _ _ => Screen.noConfusion) (fun _ _ => Screen.noConfusion)
      hcrashed
  · next c m v tap hscreen =>
    simp only [Session.issued, hscreen]
    exact trapped_of_saveTap hstep hσ (fun _ _ => Screen.noConfusion) (fun _ => Screen.noConfusion)
      hcrashed
  · next c e tap hscreen =>
    simp only [Session.issued, hscreen]
    exact trapped_of_editTap hstep hcrashed
  · cases hstep

/-! ## 6. Sessions -/

namespace ShelfSessionLemmas

/-- A session and the shelves of its store. -/
structure OnShelves (σ : Session) (a : UserShelves) : Prop where
  good : σ.Good
  represents : Represents σ.store a
  running : σ.screen ≠ .crashed

theorem onShelves_step {dist : Coordinate → Coordinate → Rat} {σ σ' : Session} {a : UserShelves}
    {tap : Tap} (h : OnShelves σ a) (hcurrent : σ.Current tap)
    (hstep : tapStep dist σ tap = some σ') :
    ∃ b, Machine.run Shelves.step a (σ.meaning tap) = some b ∧ OnShelves σ' b := by
  obtain ⟨hσ, hs, hrunning⟩ := h
  obtain ⟨hok, b, hrun, hb⟩ := issued_refines hs hσ.fresh hcurrent
  -- the store has a list before and after the requests, so no screen adds the first ones
  obtain ⟨i, hi⟩ := hσ.favourite
  have hlist := getAllList_ne_nil ⟨i, titled_applyAll hi (retitles_issued hσ.fresh hstep hi)⟩
  have hstore : σ'.store = applyAll σ.store (σ.issued tap).writes := by
    rcases store_step hstep with hsame | ⟨hempty, -⟩
    · exact hsame
    · exact absurd hempty hlist
  have hready := ready_of_current (tidy_of_represents hs) hσ.fresh hcurrent
  refine ⟨b, hrun, good_step hσ hready hstep, hstore ▸ hb, fun hcrashed => ?_⟩
  rw [trapped_of_crashed hrunning hstep hcrashed] at hok
  cases hok

/-- The session of a new account has the first lists on its shelves. -/
theorem onShelves_initial :
    ∃ a, Machine.run Shelves.step Shelves.empty (Action.openLists.meaning .empty) = some a ∧
      OnShelves Session.initial a := by
  obtain ⟨t, a, hstep, hrun, ha⟩ := openLists_refines represents_empty
  have hstore : actionStep .empty .openLists = some Session.initial.store := rfl
  obtain rfl := Option.some.inj (hstep.symm.trans hstore)
  exact ⟨a, hrun, good_initial, ha, Screen.noConfusion⟩

end ShelfSessionLemmas

/-- In every session of a new account whose taps write from current objects, no request of
a tap traps, and the store represents the shelves that the taps mean, one after the
other. -/
theorem sessions_refine_shelves (dist : Coordinate → Coordinate → Rat) (taps : List Tap)
    (σ : Session) (hrun : Machine.run (tapStep dist) Session.initial taps = some σ)
    (hcurrent : Machine.Meets (tapStep dist) Session.Current Session.initial taps) :
    σ.screen ≠ .crashed ∧ ∃ b, Machine.run Shelves.step Shelves.empty
        (Action.openLists.meaning .empty ++
          Machine.meanings (tapStep dist) Session.meaning Session.initial taps) = some b ∧
      Represents σ.store b := by
  obtain ⟨a, hfirst, ha⟩ := onShelves_initial
  have hsteps : Machine.Meets (tapStep dist) (fun σ tap => (tapStep dist σ tap).isSome)
      Session.initial taps := Machine.meets_of_run (fun _ _ _ h => by simp [h]) hrun
  obtain ⟨τ, b, hτ, hb, hshelves⟩ := Machine.run_simulates (R := OnShelves)
    (fun σ a tap hσ hok => by
      obtain ⟨σ', hstep⟩ := Option.isSome_iff_exists.mp hok.2
      obtain ⟨b, hops, hb⟩ := onShelves_step hσ hok.1 hstep
      exact ⟨σ', b, hstep, hops, hb⟩) ha (Machine.meets_and.mpr ⟨hcurrent, hsteps⟩)
  obtain rfl := Option.some.inj (hrun.symm.trans hτ)
  refine ⟨hshelves.running, b, ?_, hshelves.represents⟩
  rw [Machine.run_append, hfirst]
  exact hb

/-- A place is saved, a list added, renamed and deleted, and the place swiped out of its list. -/
def exSwiped : List Tap :=
  exEdited ++ [.root .openSaved, .saved (.row 0), .map (.swipe 0), .saved .back, .saved .back]

theorem sessions_refine_shelves_swiped : ∃ σ,
    Machine.run (tapStep fun _ _ => 0) Session.initial exSwiped = some σ ∧
      σ.screen ≠ .crashed ∧ ∃ b, Machine.run Shelves.step Shelves.empty
        (Action.openLists.meaning .empty ++
          Machine.meanings (tapStep fun _ _ => 0) Session.meaning Session.initial exSwiped) =
            some b ∧ Represents σ.store b := by
  have hrun : (Machine.run (tapStep fun _ _ => 0) Session.initial exSwiped).isSome := by
    decide +kernel
  have hcurrent :
      Machine.Meets (tapStep fun _ _ => 0) Session.Current Session.initial exSwiped := by
    decide +kernel
  obtain ⟨σ, hσ⟩ := Option.isSome_iff_exists.mp hrun
  exact ⟨σ, hσ, sessions_refine_shelves (fun _ _ => 0) exSwiped σ hσ hcurrent⟩

end LocateMe
