import LocateMe.SessionIntegrity

/-!
# Records without a list

The cells of the saved screen show the first title of a record. Removing a title
leaves a record without one when the length that the handler compares with 1 is
not that of a record with one more title.

Results:
1. `noOrphans_removals`, `noOrphans_rewrites`: what requests keep a title in
   every record.
2. `no_orphans_of_spared`: a run in which every removal spares another title
   leaves no record without one, and no cell of the saved screen traps.
3. `deleted_list_leaves_orphan`: a run in which one does not.
-/

namespace LocateMe

open Documents SessionLemmas ScreenLemmas

/-! ## 1. The condition -/

/-- Every record lists a title. -/
def NoOrphans (s : UserStore) : Prop := ∀ j r, s.history.get j = some r → r.list ≠ []

instance (s : UserStore) : Decidable (NoOrphans s) :=
  decidable_of_iff (∀ x ∈ s.history.documents, x.2.list ≠ []) (by simp [NoOrphans])

/-- `removeListOf` for this document id and these titles: when it only removes
the title, the record has another one. -/
def Spares (s : UserStore) (placeId : Option Nat) (list : List String) (title : String) : Prop :=
  list.length ≠ 1 → ∀ r ∈ placeId.bind s.history.get, ∃ u ∈ r.list, u ≠ title

instance (s : UserStore) (placeId : Option Nat) (list : List String) (title : String) :
    Decidable (Spares s placeId list title) :=
  match h : placeId.bind s.history.get with
  | none => .isTrue (by simp [Spares, h])
  | some r => decidable_of_iff (list.length ≠ 1 → ∃ u ∈ r.list, u ≠ title) (by simp [Spares, h])

def MapScreen.Spares (m : MapScreen) (s : UserStore) : MapTap → Prop
  | .swipe i =>
    match m.places[i]?, m.list with
    | some place, some list =>
      list.id ≠ none → LocateMe.Spares s place.dbId place.list list.title
    | _, _ => True
  | _ => True

instance (m : MapScreen) (s : UserStore) : DecidablePred (m.Spares s)
  | .swipe i =>
    match h : m.places[i]?, h' : m.list with
    | some place, some list =>
      decidable_of_iff (list.id ≠ none → LocateMe.Spares s place.dbId place.list list.title)
        (by simp [MapScreen.Spares, h, h'])
    | none, _ => .isTrue (by simp [MapScreen.Spares, h])
    | some _, none => .isTrue (by simp [MapScreen.Spares, h, h'])
  | .row _ _ | .pin _ _ | .save => .isTrue trivial

def SavedController.Spares (c : SavedController) (s : UserStore) : SavedTap → Prop
  | .delete i => ∀ list ∈ c.lists[i]?, ∀ x ∈ recordsListing s list.title,
    LocateMe.Spares s (some x.1) x.2.list list.title
  | _ => True

instance (c : SavedController) (s : UserStore) : DecidablePred (c.Spares s)
  | .delete i => inferInstanceAs (Decidable (∀ list ∈ c.lists[i]?,
      ∀ x ∈ recordsListing s list.title, LocateMe.Spares s (some x.1) x.2.list list.title))
  | .row _ | .item _ | .seeAll | .edit _ | .newList _ | .back => .isTrue trivial

def EditListController.Spares (e : EditListController) (s : UserStore) : EditTap → Prop
  | .done => ∀ p ∈ e.selectedPlaces, LocateMe.Spares s p.dbId p.list e.list.title
  | _ => True

instance (e : EditListController) (s : UserStore) : DecidablePred (e.Spares s)
  | .done => inferInstanceAs (Decidable (∀ p ∈ e.selectedPlaces,
      LocateMe.Spares s p.dbId p.list e.list.title))
  | .delete _ | .title _ | .back => .isTrue trivial

/-- Every title that the tap removes from a record it keeps leaves another. -/
def Session.Spares (σ : Session) (tap : Tap) : Prop :=
  match σ.screen, tap with
  | .map, .map tap => σ.root.Spares σ.store tap
  | .listMap _ m, .map tap => m.Spares σ.store tap
  | .saved c, .saved tap => c.Spares σ.store tap
  | .edit _ e, .edit tap => e.Spares σ.store tap
  | _, _ => True

instance : ∀ σ : Session, DecidablePred σ.Spares
  | ⟨s, _, root, .map⟩, .map tap => inferInstanceAs (Decidable (root.Spares s tap))
  | ⟨s, _, _, .listMap _ m⟩, .map tap => inferInstanceAs (Decidable (m.Spares s tap))
  | ⟨s, _, _, .saved c⟩, .saved tap => inferInstanceAs (Decidable (c.Spares s tap))
  | ⟨s, _, _, .edit _ e⟩, .edit tap => inferInstanceAs (Decidable (e.Spares s tap))
  | ⟨_, _, _, .mapSave _⟩, _ | ⟨_, _, _, .listMapSave _ _ _⟩, _ | ⟨_, _, _, .crashed⟩, _
  | ⟨_, _, _, .map⟩, .relaunch | ⟨_, _, _, .map⟩, .root _ | ⟨_, _, _, .map⟩, .saved _
  | ⟨_, _, _, .map⟩, .save _ | ⟨_, _, _, .map⟩, .edit _
  | ⟨_, _, _, .listMap _ _⟩, .relaunch | ⟨_, _, _, .listMap _ _⟩, .root _
  | ⟨_, _, _, .listMap _ _⟩, .saved _ | ⟨_, _, _, .listMap _ _⟩, .save _
  | ⟨_, _, _, .listMap _ _⟩, .edit _
  | ⟨_, _, _, .saved _⟩, .relaunch | ⟨_, _, _, .saved _⟩, .root _ | ⟨_, _, _, .saved _⟩, .map _
  | ⟨_, _, _, .saved _⟩, .save _ | ⟨_, _, _, .saved _⟩, .edit _
  | ⟨_, _, _, .edit _ _⟩, .relaunch | ⟨_, _, _, .edit _ _⟩, .root _ | ⟨_, _, _, .edit _ _⟩, .map _
  | ⟨_, _, _, .edit _ _⟩, .saved _ | ⟨_, _, _, .edit _ _⟩, .save _ => .isTrue trivial

/-! ## 2. Requests -/

/-- A request that rewrites records with titles only, and takes none away. -/
def Write.Rewrites : Write → Prop
  | .addHistory doc => doc.list ≠ []
  | .setHistory _ doc => doc.list ≠ []
  | .removeTitles _ _ => False
  | _ => True

/-- A request that takes at most this title from a record, and only when the
record has another. -/
def Write.Removes (s : UserStore) (title : String) : Write → Prop
  | .addHistory _ => False
  | .setHistory _ _ => False
  | .removeTitles j titles =>
    titles = [title] ∧ ∀ r, s.history.get j = some r → ∃ u ∈ r.list, u ≠ title
  | _ => True

namespace OrphanLemmas

theorem noOrphans_congr {s t : UserStore} (h : t.history = s.history) (hs : NoOrphans s) :
    NoOrphans t := by
  intro j r hr
  rw [h] at hr
  exact hs j r hr

theorem noOrphans_rewrite {s : UserStore} {w : Write} (hs : NoOrphans s) (hw : w.Rewrites) :
    NoOrphans (w.apply s) := by
  cases w with
  | addHistory doc =>
    intro j r hr
    rcases Collection.get_add_eq_some.mp hr with ⟨-, rfl⟩ | hold
    · exact hw
    · exact hs j r hold
  | setHistory i doc =>
    intro j r hr
    simp only [Write.apply, Collection.get_set] at hr
    split at hr
    · cases hr
      exact hw
    · exact hs j r hr
  | removeTitles i titles => exact hw.elim
  | deleteHistory i =>
    intro j r hr
    simp only [Write.apply, Collection.get_delete] at hr
    split at hr
    · cases hr
    · exact hs j r hr
  | addList title => exact hs
  | unionPlaces l ks => exact hs
  | removePlaces l ks => exact hs
  | setTitle l title => exact hs
  | deleteList l => exact hs

theorem noOrphans_rewrites {s : UserStore} {ws : List Write} (hs : NoOrphans s)
    (hws : ∀ w ∈ ws, w.Rewrites) : NoOrphans (applyAll s ws) :=
  applyAll_invariant (fun w hw _ ht => noOrphans_rewrite ht (hws w hw)) hs

/-- What a removal leaves of a record: the record, or the record without the
title, which it had along with another. -/
theorem get_removal {s : UserStore} {title : String} {w : Write} (hw : w.Removes s title) {j : Nat}
    {r : HistoryDoc} (hr : (w.apply s).history.get j = some r) :
    ∃ r₀, s.history.get j = some r₀ ∧ (r.list = r₀.list ∨
      (r.list = arrayRemove r₀.list [title] ∧ ∃ u ∈ r₀.list, u ≠ title)) := by
  cases w with
  | addHistory doc => exact hw.elim
  | setHistory i doc => exact hw.elim
  | removeTitles i titles =>
    obtain ⟨rfl, hother⟩ := hw
    simp only [Write.apply, Collection.get_update] at hr
    split at hr
    · next hji =>
      obtain ⟨r₀, hr₀, rfl⟩ := Option.map_eq_some_iff.mp hr
      exact ⟨r₀, hji ▸ hr₀, .inr ⟨rfl, hother r₀ hr₀⟩⟩
    · exact ⟨r, hr, .inl rfl⟩
  | deleteHistory i =>
    simp only [Write.apply, Collection.get_delete] at hr
    split at hr
    · cases hr
    · exact ⟨r, hr, .inl rfl⟩
  | addList title => exact ⟨r, hr, .inl rfl⟩
  | unionPlaces l ks => exact ⟨r, hr, .inl rfl⟩
  | removePlaces l ks => exact ⟨r, hr, .inl rfl⟩
  | setTitle l title => exact ⟨r, hr, .inl rfl⟩
  | deleteList l => exact ⟨r, hr, .inl rfl⟩

/-- Another title of a record is there after a removal. -/
theorem removes_frame {s : UserStore} {title : String} {w v : Write} (hw : w.Removes s title)
    (hv : v.Removes s title) : v.Removes (w.apply s) title := by
  cases v with
  | removeTitles j titles =>
    refine ⟨hv.1, fun r hr => ?_⟩
    obtain ⟨r₀, hr₀, hlist | ⟨hlist, -⟩⟩ := get_removal hw hr
    · rw [hlist]
      exact hv.2 r₀ hr₀
    · obtain ⟨u, hu, hne⟩ := hv.2 r₀ hr₀
      exact ⟨u, by rw [hlist, mem_arrayRemove]; exact ⟨hu, by simpa using hne⟩, hne⟩
  | _ => exact hv

theorem noOrphans_removals {s : UserStore} (title : String) {ws : List Write} (hs : NoOrphans s)
    (hws : ∀ w ∈ ws, w.Removes s title) : NoOrphans (applyAll s ws) := by
  -- the removals still to come spare the records that are left
  have hboth : NoOrphans (applyAll s ws) ∧ ∀ v ∈ ws, v.Removes (applyAll s ws) title := by
    refine applyAll_invariant (I := fun t => NoOrphans t ∧ ∀ v ∈ ws, v.Removes t title)
      (fun w hw t ht => ⟨fun j r hr => ?_, fun v hv => removes_frame (ht.2 w hw) (ht.2 v hv)⟩)
      ⟨hs, hws⟩
    obtain ⟨r₀, hr₀, hlist | ⟨hlist, u, hu, hne⟩⟩ := get_removal (ht.2 w hw) hr
    · rw [hlist]
      exact ht.1 j r₀ hr₀
    · rw [hlist]
      exact List.ne_nil_of_mem (mem_arrayRemove.mpr ⟨hu, by simpa using hne⟩)
  exact hboth.1

/-! ## 3. Actions -/

theorem removes_removeListOf {s : UserStore} {placeId : Option Nat} {list : List String}
    {title : String} (hspares : Spares s placeId list title) {w : Write}
    (hw : w ∈ (removeListOf placeId list title).writes) : w.Removes s title := by
  unfold removeListOf at hw
  split at hw
  · obtain ⟨j, -, rfl⟩ := Issued.mem_write hw
    trivial
  · next hlen =>
    obtain ⟨j, rfl, rfl⟩ := Issued.mem_write hw
    exact ⟨rfl, hspares hlen⟩

theorem noOrphans_commitDelete {s : UserStore} (hs : NoOrphans s) {list : PlaceList} {place : Place}
    (hspares : list.id ≠ none → Spares s place.dbId place.list list.title) :
    NoOrphans (applyAll s (commitDelete s list place).writes) := by
  refine noOrphans_removals list.title hs fun w hw => ?_
  rcases mem_commitDelete hw with ⟨l, rfl⟩ | ⟨j, rfl⟩ | ⟨hid, hw⟩
  · trivial
  · trivial
  · exact removes_removeListOf (hspares hid) hw

/-- Done gives a record the titles of the selected rows, and deletes a record
that is left without one. -/
theorem rewrites_tappedDoneBtn {v : SavePlaceView} {issued : Issued} {w : Write}
    (hdone : v.tappedDoneBtn = some issued) (hw : w ∈ issued.writes) : w.Rewrites := by
  cases SaveLemmas.doneWrite_of_mem hdone hw with
  | addHistory unsaved titled => exact titled
  | setHistory placeId saved stored titled => exact titled
  | _ => trivial

theorem removes_deleteAction {s : UserStore} {list : PlaceList}
    (hspares : ∀ x ∈ recordsListing s list.title, Spares s (some x.1) x.2.list list.title)
    {w : Write} (hw : w ∈ (SavedController.deleteAction s list).writes) :
    w.Removes s list.title := by
  rcases Issued.mem_andThen hw with hw | hw
  · obtain ⟨x, hx, hw⟩ := Issued.mem_forEach hw
    exact removes_removeListOf (hspares x hx) hw
  · obtain ⟨l, -, rfl⟩ := Issued.mem_write hw
    trivial

theorem renameFirst_ne_nil {oldTitle newTitle : String} {titles : List String} (h : titles ≠ []) :
    renameFirst oldTitle newTitle titles ≠ [] := by
  cases titles with
  | nil => exact absurd rfl h
  | cons title rest =>
    unfold renameFirst
    split <;> simp

/-- Done on the edit screen removes the title from the selected places, and then
rewrites the others with the titles that the screen holds. -/
theorem noOrphans_tappedDone {s : UserStore} (hs : NoOrphans s) {e : EditListController}
    (hplaces : ∀ p ∈ e.places, p.list ≠ [])
    (hspares : ∀ p ∈ e.selectedPlaces, Spares s p.dbId p.list e.list.title) :
    NoOrphans (applyAll s e.tappedDone.writes) := by
  have hremoved : NoOrphans (applyAll s
      (removeListFromAllSelectedPlaces e.list.title e.selectedPlaces).writes) := by
    refine noOrphans_removals e.list.title hs fun w hw => ?_
    obtain ⟨p, hp, hw⟩ := Issued.mem_forEach hw
    exact removes_removeListOf (hspares p hp) hw
  unfold EditListController.tappedDone
  rcases Issued.andThen_cases (removeListFromAllSelectedPlaces e.list.title e.selectedPlaces) _ with
    ⟨-, hwrites⟩ | ⟨-, hwrites⟩
  · rw [hwrites]
    exact hremoved
  · rw [hwrites, applyAll_append]
    refine noOrphans_rewrites hremoved fun w hw => ?_
    rcases Issued.mem_andThen hw with hw | hw
    · obtain ⟨id, -, rfl⟩ := Issued.mem_write hw
      trivial
    · split at hw
      · rcases Issued.mem_andThen hw with hw | hw
        · obtain ⟨id, -, rfl⟩ := Issued.mem_write hw
          trivial
        · obtain ⟨p, hp, hw⟩ := Issued.mem_forEach hw
          obtain ⟨id, -, rfl⟩ := Issued.mem_write hw
          exact renameFirst_ne_nil (hplaces p hp)
      · cases hw

/-! ## 4. A tap -/

theorem noOrphans_mapTap {s : UserStore} (hs : NoOrphans s) {m : MapScreen} {tap : MapTap}
    (hspares : m.Spares s tap) : NoOrphans (applyAll s (m.issued s tap).writes) := by
  cases tap with
  | swipe i =>
    simp only [MapScreen.Spares, MapScreen.issued] at hspares ⊢
    cases hplace : m.places[i]? with
    | none => exact hs
    | some place =>
      cases hlist : m.list with
      | none => exact hs
      | some list =>
        simp only [hplace, hlist] at hspares ⊢
        exact noOrphans_commitDelete hs hspares
  | _ => exact hs

theorem noOrphans_saveTap {s : UserStore} (hs : NoOrphans s) (v : SavePlaceView) (tap : SaveTap) :
    NoOrphans (applyAll s (v.issued tap).writes) := by
  cases tap with
  | newList title => exact hs
  | done =>
    simp only [SavePlaceView.issued]
    cases hdone : v.tappedDoneBtn with
    | none => exact hs
    | some issued => exact noOrphans_rewrites hs fun w hw => rewrites_tappedDoneBtn hdone hw
  | _ => exact hs

/-- The places of the saved and edit screens list a title. -/
def Titles (p : Place) : Prop := p.list ≠ []

theorem recordsHold_titles {s : UserStore} (hs : NoOrphans s) : RecordsHold Titles s := hs

theorem noOrphans_issued {σ : Session} {tap : Tap} (hs : NoOrphans σ.store)
    (hheld : σ.Holds (fun _ => True) Titles) (hspares : σ.Spares tap) :
    NoOrphans (applyAll σ.store (σ.issued tap).writes) := by
  unfold Session.issued
  unfold Session.Spares at hspares
  split
  · next tap hscreen =>
    simp only [hscreen] at hspares
    exact noOrphans_mapTap hs hspares
  · next c m tap hscreen =>
    simp only [hscreen] at hspares
    exact noOrphans_mapTap hs hspares
  · exact noOrphans_saveTap hs _ _
  · exact noOrphans_saveTap hs _ _
  · next c tap hscreen =>
    simp only [hscreen] at hspares
    cases tap with
    | delete i =>
      simp only [SavedController.issued, SavedController.Spares] at hspares ⊢
      cases hlist : c.lists[i]? with
      | none => exact hs
      | some list =>
        exact noOrphans_removals list.title hs fun w hw =>
          removes_deleteAction (hspares list hlist) hw
    | _ => exact hs
  · next c e tap hscreen =>
    have he := hheld.screen
    simp only [hscreen, Screen.Holds] at hspares he
    cases tap with
    | done =>
      exact noOrphans_tappedDone hs (fun p hp => he.2 p (List.mem_append_left _ hp)) hspares
    | _ => exact hs
  · exact hs

theorem noOrphans_initial : NoOrphans Session.initial.store := by
  have hempty : NoOrphans UserStore.empty := fun j r hr => by cases hr
  exact noOrphans_congr (loaded_history (loaded_retrieveLists ⟨.empty, [], .initial, .map⟩ [])) hempty

end OrphanLemmas

open OrphanLemmas

theorem orphans_step {dist : Coordinate → Coordinate → Rat} {σ σ' : Session} {tap : Tap}
    (hs : NoOrphans σ.store) (hheld : σ.Holds (fun _ => True) Titles) (hspares : σ.Spares tap)
    (hstep : tapStep dist σ tap = some σ') :
    NoOrphans σ'.store ∧ σ'.Holds (fun _ => True) Titles := by
  have hs' : NoOrphans σ'.store :=
    noOrphans_congr (loaded_history (store_step hstep)) (noOrphans_issued hs hheld hspares)
  exact ⟨hs', holds_step (fun _ _ => trivial) (fun _ _ => trivial) (recordsHold_titles hs)
    (recordsHold_titles hs') hheld hstep⟩

/-- A store without orphans: after `retrieveHistory` no cell traps. -/
theorem cellForItemAt_isSome {s : UserStore} (hs : NoOrphans s) (c : SavedController) {row : Nat}
    (hrow : row < (c.retrieveHistory (getAllPlaces s)).numberOfItemsInSection) :
    ((c.retrieveHistory (getAllPlaces s)).cellForItemAt row).isSome := by
  unfold SavedController.cellForItemAt
  split
  · rfl
  · next hempty =>
    rw [SavedController.numberOfItemsInSection, if_neg hempty] at hrow
    rw [List.getElem?_eq_getElem hrow]
    have hmem := List.getElem_mem hrow
    rcases places_retrieveHistory c (getAllPlaces s) with hperm | ⟨hnone, -⟩
    · obtain ⟨j, r, hr, hplace⟩ := mem_getAllPlaces.mp (hperm.mem_iff.mp hmem)
      have hlist : (c.retrieveHistory (getAllPlaces s)).places[row].list ≠ [] := by
        rw [hplace]
        exact hs j r hr
      simpa using List.length_pos_iff.mpr hlist
    · rw [hnone] at hempty
      exact absurd rfl hempty

/-! ## 5. Runs -/

/-- In a run from a new account in which every removal spares another title no
record is left without one, and whatever saved screen then loads the history can
render all its rows. -/
theorem no_orphans_of_spared (dist : Coordinate → Coordinate → Rat) (taps : List Tap) (σ : Session)
    (hrun : Machine.run (tapStep dist) Session.initial taps = some σ)
    (hspares : Machine.Meets (tapStep dist) Session.Spares Session.initial taps) :
    NoOrphans σ.store ∧ ∀ (c : SavedController) (row : Nat),
      row < (c.retrieveHistory (getAllPlaces σ.store)).numberOfItemsInSection →
      ((c.retrieveHistory (getAllPlaces σ.store)).cellForItemAt row).isSome := by
  have hinv : NoOrphans σ.store ∧ σ.Holds (fun _ => True) Titles :=
    Machine.run_invariant
      (I := fun τ : Session => NoOrphans τ.store ∧ τ.Holds (fun _ => True) Titles)
      (fun _ _ _ hτ hspares hstep => orphans_step hτ.1 hτ.2 hspares hstep)
      ⟨noOrphans_initial, HeldLemmas.holds_initial, trivial⟩ hspares hrun
  exact ⟨hinv.1, fun c _ hrow => cellForItemAt_isSome hinv.1 c hrow⟩

/-- A place found by a search is saved in a new list "Coffee" and in "Favourite". -/
def exTwoLists : List Tap :=
  [.root (.searchAnswered "Food" none [exItem "Cafe" ⟨0, 0⟩]), .map (.row 0 0), .map .save,
    .save (.newList "Coffee"), .save (.row (.cellForRowAt 0)), .save (.row (.cellForRowAt 1)),
    .save (.row (.didTapCheckBox 0)), .save (.row (.didTapCheckBox 1)), .save .done]

/-- "Coffee" is deleted, and after a visit of the map the place is swiped out of
"Favourite". -/
def exReloaded : List Tap :=
  exTwoLists ++ [.root .openSaved, .saved (.delete 0), .saved .back, .root .openSaved,
    .saved (.row 0), .map (.swipe 0)]

/-- The same without leaving the saved screen in between. -/
def exNotReloaded : List Tap :=
  exTwoLists ++ [.root .openSaved, .saved (.delete 0), .saved (.row 0), .map (.swipe 0)]

theorem no_orphans_of_spared_reloaded : ∃ σ,
    Machine.run (tapStep fun _ _ => 0) Session.initial exReloaded = some σ ∧
    NoOrphans σ.store ∧ ∀ (c : SavedController) (row : Nat),
      row < (c.retrieveHistory (getAllPlaces σ.store)).numberOfItemsInSection →
      ((c.retrieveHistory (getAllPlaces σ.store)).cellForItemAt row).isSome := by
  have hrun : (Machine.run (tapStep fun _ _ => 0) Session.initial exReloaded).isSome := by
    decide +kernel
  have hspares : Machine.Meets (tapStep fun _ _ => 0) Session.Spares Session.initial exReloaded := by
    decide +kernel
  obtain ⟨σ, hσ⟩ := Option.isSome_iff_exists.mp hrun
  exact ⟨σ, hσ, no_orphans_of_spared (fun _ _ => 0) exReloaded σ hσ hspares⟩

/-- The place on screen still has two titles, so the swipe only removes one from
a record that has no other; the first cell of the saved screen then traps. -/
theorem deleted_list_leaves_orphan :
    ¬ ∀ (dist : Coordinate → Coordinate → Rat) (taps : List Tap) (σ : Session),
      Machine.run (tapStep dist) Session.initial taps = some σ →
      NoOrphans σ.store ∧ ∀ (c : SavedController) (row : Nat),
        row < (c.retrieveHistory (getAllPlaces σ.store)).numberOfItemsInSection →
        ((c.retrieveHistory (getAllPlaces σ.store)).cellForItemAt row).isSome := by
  intro hall
  have hrun : (Machine.run (tapStep fun _ _ => 0) Session.initial exNotReloaded).map (fun σ =>
      let c := SavedController.initial.retrieveHistory (getAllPlaces σ.store)
      (decide (0 < c.numberOfItemsInSection), (c.cellForItemAt 0).isSome)) =
        some (true, false) := by
    decide +kernel
  obtain ⟨σ, hσ, htrap⟩ := Option.map_eq_some_iff.mp hrun
  obtain ⟨hrow, hcell⟩ := Prod.mk.inj htrap
  have hsome := (hall _ _ σ hσ).2 .initial 0 (of_decide_eq_true hrow)
  rw [hcell] at hsome
  cases hsome

end LocateMe
