import LocateMe.Freshness

/-!
# Integrity over a session

Every action updates both sides of the membership relation from what its screen
holds. `Session.Ready` says, tap by tap, what the store must still have in common
with these objects.

Results:
1. `retitles_issued`: no tap takes the title of a default list away.
2. `good_step`: a tap that meets the condition keeps the store consistent and the
   screens fresh.
3. `integrity_of_ready`: so does a run from a new account.
4. `stale_detail_breaks_integrity`: a run that does not meet it.
-/

namespace LocateMe

open Documents StoreLemmas ScreenLemmas SaveLemmas SessionLemmas

/-! ## 1. The condition -/

/-- A swipe: the id and the title of the list on screen still go together, and
the place can be removed from it. -/
def SwipeReady (s : UserStore) (list : PlaceList) (place : Place) : Prop :=
  match list.id with
  | none => RecentReady s place
  | some listId => SameList s listId list.title ∧
    Removable s list.title place.dbId place.id place.list

instance (s : UserStore) (list : PlaceList) (place : Place) :
    Decidable (SwipeReady s list place) :=
  match h : list.id with
  | none => decidable_of_iff (RecentReady s place) (by simp [SwipeReady, h])
  | some listId => decidable_of_iff (SameList s listId list.title ∧
      Removable s list.title place.dbId place.id place.list) (by simp [SwipeReady, h])

def MapScreen.Ready (m : MapScreen) (s : UserStore) : MapTap → Prop
  | .swipe i =>
    match m.places[i]?, m.list with
    | some place, some list => SwipeReady s list place
    | _, _ => True
  | _ => True

instance (m : MapScreen) (s : UserStore) : DecidablePred (m.Ready s)
  | .swipe i =>
    match h : m.places[i]?, h' : m.list with
    | some place, some list => decidable_of_iff (SwipeReady s list place)
        (by simp [MapScreen.Ready, h, h'])
    | none, _ => .isTrue (by simp [MapScreen.Ready, h])
    | some _, none => .isTrue (by simp [MapScreen.Ready, h, h'])
  | .row _ _ => .isTrue trivial
  | .pin _ _ => .isTrue trivial
  | .save => .isTrue trivial

def SavePlaceView.Ready (v : SavePlaceView) (s : UserStore) : SaveTap → Prop
  | .newList title => NewTitle s title
  | .done => v.alreadySavedPlace = true → SaveReady s v
  | _ => True

instance (v : SavePlaceView) (s : UserStore) : DecidablePred (v.Ready s)
  | .newList title => inferInstanceAs (Decidable (NewTitle s title))
  | .done => inferInstanceAs (Decidable (v.alreadySavedPlace = true → SaveReady s v))
  | .row _ => .isTrue trivial
  | .back => .isTrue trivial

def SavedController.Ready (s : UserStore) : SavedTap → Prop
  | .newList title => NewTitle s title
  | _ => True

instance (s : UserStore) : DecidablePred (SavedController.Ready s)
  | .newList title => inferInstanceAs (Decidable (NewTitle s title))
  | .row _ | .item _ | .seeAll | .edit _ | .delete _ | .back => .isTrue trivial

def EditListController.Ready (e : EditListController) (s : UserStore) : EditTap → Prop
  | .done => EditReady s e
  | _ => True

instance (e : EditListController) (s : UserStore) : DecidablePred (e.Ready s)
  | .done => inferInstanceAs (Decidable (EditReady s e))
  | .delete _ | .title _ | .back => .isTrue trivial

/-- What the tap needs of the store. -/
def Session.Ready (σ : Session) (tap : Tap) : Prop :=
  match σ.screen, tap with
  | .map, .map tap => σ.root.Ready σ.store tap
  | .listMap _ m, .map tap => m.Ready σ.store tap
  | .mapSave v, .save tap => v.Ready σ.store tap
  | .listMapSave _ _ v, .save tap => v.Ready σ.store tap
  | .saved _, .saved tap => SavedController.Ready σ.store tap
  | .edit _ e, .edit tap => e.Ready σ.store tap
  | _, _ => True

instance : ∀ σ : Session, DecidablePred σ.Ready
  | ⟨_, _, _, screen⟩, tap => by
    cases screen <;> cases tap <;> unfold Session.Ready <;> infer_instance

/-! ## 2. The invariant -/

/-- What the screen knows of the store. -/
def Screen.Fresh (s : UserStore) : Screen → Prop
  | .mapSave v => SaveFresh s v
  | .listMapSave _ _ v => SaveFresh s v
  | .saved c => SavedFresh s c
  | .edit _ e => EditFresh s e ∧
    (checkIfDefaultList e.list.title = true → e.editedListTitle = e.list.title)
  | _ => True

def Stored (p : Place) : Prop := p.dbId ≠ none

/-- The store is consistent and has a list, places that come from it have a
document, and the screen is fresh. -/
structure Session.Good (σ : Session) : Prop where
  consistent : Consistent σ.store
  favourite : ListTitle σ.store "Favourite"
  held : σ.Holds StoredIfListed Stored
  fresh : σ.screen.Fresh σ.store

/-! ## 3. The default lists stay -/

/-- The list whose title a request can take away. -/
def Write.retitles : Write → Option Nat
  | .setTitle listId _ => some listId
  | .deleteList listId => some listId
  | _ => none

namespace SessionLemmas

theorem titled_applyAll {s : UserStore} {ws : List Write} {i : Nat} {title : String}
    (h : Titled s i title) (hws : ∀ w ∈ ws, w.retitles ≠ some i) :
    Titled (applyAll s ws) i title := by
  refine applyAll_invariant (I := fun u => Titled u i title) (fun w hmem u hu => ?_) h
  have hw := hws w hmem
  cases w with
  | addList t => exact titled_addList.mpr (.inr hu)
  | unionPlaces l ks => exact titled_unionPlaces.mpr hu
  | removePlaces l ks => exact titled_removePlaces.mpr hu
  | setTitle l t =>
    have hne : i ≠ l := fun heq => hw (congrArg some heq.symm)
    rw [titled_setTitle, if_neg hne]
    exact hu
  | deleteList l => exact titled_deleteList.mpr ⟨fun heq => hw (congrArg some heq.symm), hu⟩
  | addHistory doc => exact hu
  | setHistory j doc => exact hu
  | removeTitles j ts => exact hu
  | deleteHistory j => exact hu

/-- A request for one document. -/
theorem retitles_write {path : Option Nat} {request : Nat → Write} {w : Write}
    (hw : w ∈ (Issued.write path request).writes) (h : ∀ id, (request id).retitles = none) :
    w.retitles = none := by
  obtain ⟨id, -, rfl⟩ := Issued.mem_write hw
  exact h id

theorem retitles_removeListOf {placeId : Option Nat} {list : List String} {title : String}
    {w : Write} (hw : w ∈ (removeListOf placeId list title).writes) : w.retitles = none := by
  unfold removeListOf at hw
  split at hw
  · exact retitles_write hw fun _ => rfl
  · exact retitles_write hw fun _ => rfl

theorem retitles_commitDelete {s : UserStore} {list : PlaceList} {place : Place} {w : Write}
    (hw : w ∈ (commitDelete s list place).writes) : w.retitles = none := by
  rcases mem_commitDelete hw with ⟨l, rfl⟩ | ⟨j, rfl⟩ | ⟨-, hw⟩
  · rfl
  · rfl
  · exact retitles_removeListOf hw

theorem retitles_tappedDoneBtn {v : SavePlaceView} {issued : Issued} {w : Write}
    (hdone : v.tappedDoneBtn = some issued) (hw : w ∈ issued.writes) : w.retitles = none := by
  cases SaveLemmas.doneWrite_of_mem hdone hw with
  | _ => rfl

theorem retitles_deleteAction {s : UserStore} {list : PlaceList} {w : Write}
    (hw : w ∈ (SavedController.deleteAction s list).writes) :
    w.retitles = none ∨ w.retitles = list.id := by
  rcases Issued.mem_andThen hw with hw | hw
  · obtain ⟨x, -, hw⟩ := Issued.mem_forEach hw
    exact .inl (retitles_removeListOf hw)
  · obtain ⟨l, hl, rfl⟩ := Issued.mem_write hw
    exact .inr hl.symm

theorem retitles_tappedDone {e : EditListController} {w : Write} (hw : w ∈ e.tappedDone.writes) :
    w.retitles = none ∨ (e.list.title ≠ e.editedListTitle ∧ w.retitles = e.list.id) := by
  rcases Issued.mem_andThen hw with hw | hw
  · obtain ⟨p, -, hw⟩ := Issued.mem_forEach hw
    exact .inl (retitles_removeListOf hw)
  · rcases Issued.mem_andThen hw with hw | hw
    · exact .inl (retitles_write hw fun _ => rfl)
    · split at hw
      · next hne =>
        rcases Issued.mem_andThen hw with hw | hw
        · obtain ⟨l, hl, rfl⟩ := Issued.mem_write hw
          exact .inr ⟨hne, hl.symm⟩
        · obtain ⟨p, -, hw⟩ := Issued.mem_forEach hw
          exact .inl (retitles_write hw fun _ => rfl)
      · cases hw

theorem favourite_default : checkIfDefaultList "Favourite" = true := by decide

/-- The requests of a tap with a next state leave a list "Favourite" alone: the
saved screen does not delete it, and the edit screen does not rename it. -/
theorem retitles_issued {dist : Coordinate → Coordinate → Rat} {σ σ' : Session} {tap : Tap}
    (hfresh : σ.screen.Fresh σ.store) (hstep : tapStep dist σ tap = some σ') {i : Nat}
    (hi : Titled σ.store i "Favourite") :
    ∀ w ∈ (σ.issued tap).writes, w.retitles ≠ some i := by
  have hnone : ∀ w : Write, w.retitles = none → w.retitles ≠ some i := by
    intro w h
    simp [h]
  intro w hw
  have hmap : ∀ (m : MapScreen) (tap : MapTap), w ∈ (m.issued σ.store tap).writes →
      w.retitles ≠ some i := by
    intro m tap hw
    cases tap with
    | swipe i =>
      simp only [MapScreen.issued] at hw
      split at hw
      · exact hnone w (retitles_commitDelete hw)
      · cases hw
    | _ => cases hw
  have hsave : ∀ (v : SavePlaceView) (tap : SaveTap), w ∈ (v.issued tap).writes →
      w.retitles ≠ some i := by
    intro v tap hw
    cases tap with
    | newList title =>
      rw [List.mem_singleton.mp hw]
      simp [Write.retitles]
    | done =>
      simp only [SavePlaceView.issued] at hw
      cases hdone : v.tappedDoneBtn with
      | none =>
        rw [hdone] at hw
        cases hw
      | some issued =>
        rw [hdone] at hw
        exact hnone w (retitles_tappedDoneBtn hdone hw)
    | _ => cases hw
  unfold Session.issued at hw
  split at hw
  · exact hmap _ _ hw
  · exact hmap _ _ hw
  · exact hsave _ _ hw
  · exact hsave _ _ hw
  · next c tap hscreen =>
    simp only [Screen.Fresh, hscreen] at hfresh
    simp only [tapStep, hscreen] at hstep
    cases tap with
    | newList title =>
      rw [List.mem_singleton.mp hw]
      simp [Write.retitles]
    | delete n =>
      obtain ⟨list, hlist, hstep⟩ := Option.bind_eq_some_iff.mp hstep
      simp only [SavedController.issued, hlist] at hw
      split at hstep
      · cases hstep
      · next hdefault =>
        rcases retitles_deleteAction hw with hw | hw
        · exact hnone w hw
        · obtain ⟨l, hid, htitle, -⟩ := hfresh.lists list (List.mem_of_getElem? hlist)
          rw [hw, hid]
          rintro ⟨rfl⟩
          rw [titled_unique htitle hi] at hdefault
          exact hdefault favourite_default
    | _ => cases hw
  · next c e tap hscreen =>
    simp only [Screen.Fresh, hscreen] at hfresh
    cases tap with
    | done =>
      rcases retitles_tappedDone hw with hw | ⟨hne, hw⟩
      · exact hnone w hw
      · obtain ⟨l, hid, htitle⟩ := hfresh.1.list
        rw [hw, hid]
        rintro ⟨rfl⟩
        have heq := titled_unique htitle hi
        exact hne (hfresh.2 (heq ▸ favourite_default)).symm
    | _ => cases hw
  · cases hw

end SessionLemmas

/-! ## 4. A tap -/

namespace SessionLemmas

theorem consistent_mapTap {s : UserStore} (hs : Consistent s) {m : MapScreen}
    (hm : m.Holds StoredIfListed Stored) {tap : MapTap} (hready : m.Ready s tap) :
    Consistent (applyAll s (m.issued s tap).writes) := by
  cases tap with
  | swipe i =>
    simp only [MapScreen.Ready, MapScreen.issued] at hready ⊢
    cases hplace : m.places[i]? with
    | none => exact hs
    | some place =>
      cases hlist : m.list with
      | none => exact hs
      | some list =>
        simp only [hplace, hlist] at hready ⊢
        have hstored : place.dbId ≠ none :=
          hm.listed (by simp [hlist]) place (List.mem_of_getElem? hplace)
        unfold SwipeReady at hready
        split at hready
        · next hid => exact consistent_commitDelete_recent hs hid hstored hready
        · next l hid => exact consistent_commitDelete hs hid hready.1 hstored hready.2
  | _ => exact hs

theorem consistent_saveTap {s : UserStore} (hs : Consistent s) {v : SavePlaceView}
    (hv : SaveFresh s v) {tap : SaveTap} (hready : v.Ready s tap) :
    Consistent (applyAll s (v.issued tap).writes) := by
  cases tap with
  | newList title => exact consistent_addList hs hready
  | done =>
    simp only [SavePlaceView.issued]
    cases hdone : v.tappedDoneBtn with
    | none => exact hs
    | some issued => exact (consistent_tappedDoneBtn hs hv hready hdone).2
  | _ => exact hs

/-- Whatever the tap issues, when it is ready the store stays consistent. -/
theorem consistent_issued {σ : Session} {tap : Tap} (hσ : σ.Good) (hready : σ.Ready tap) :
    Consistent (applyAll σ.store (σ.issued tap).writes) := by
  obtain ⟨hs, -, hheld, hfresh⟩ := hσ
  unfold Session.issued
  unfold Session.Ready at hready
  split
  · next tap hscreen =>
    simp only [hscreen] at hready
    exact consistent_mapTap hs hheld.root hready
  · next c m tap hscreen =>
    have hm := hheld.screen
    simp only [hscreen] at hready hm
    exact consistent_mapTap hs hm.2 hready
  · next v tap hscreen =>
    simp only [hscreen, Screen.Fresh] at hready hfresh
    exact consistent_saveTap hs hfresh hready
  · next c m v tap hscreen =>
    simp only [hscreen, Screen.Fresh] at hready hfresh
    exact consistent_saveTap hs hfresh hready
  · next c tap hscreen =>
    simp only [hscreen, Screen.Fresh] at hready hfresh
    cases tap with
    | newList title => exact consistent_addList hs hready
    | delete i =>
      simp only [SavedController.issued]
      cases hlist : c.lists[i]? with
      | none => exact hs
      | some list =>
        obtain ⟨l, hid, htitle, -⟩ := hfresh.lists list (List.mem_of_getElem? hlist)
        exact (consistent_deleteAction hs hid (sameList_of_titled hs htitle)).2
    | _ => exact hs
  · next c e tap hscreen =>
    simp only [hscreen, Screen.Fresh] at hready hfresh
    cases tap with
    | done => exact (consistent_tappedDone hs hfresh.1 hready).2
    | _ => exact hs
  · exact hs

theorem getAllList_ne_nil {s : UserStore} {title : String} (h : ListTitle s title) :
    getAllList s ≠ [] := by
  obtain ⟨i, d, hd, -⟩ := h
  exact List.ne_nil_of_mem (mem_getAllList.mpr ⟨i, d, hd, rfl⟩)

theorem fresh_showSaved {σ : Session} (hs : Consistent σ.store) (hlist : getAllList σ.store ≠ [])
    (c : SavedController) : (σ.showSaved c).screen.Fresh (σ.showSaved c).store := by
  simp only [Session.showSaved, retrieveLists_eq hlist]
  exact savedFresh_showSaved hs c

theorem fresh_reloadRoot {σ : Session} (h : σ.screen = .map) :
    (σ.reloadRoot).screen.Fresh (σ.reloadRoot).store := by
  have hscreen : σ.reloadRoot.screen = .map := (retrieveLists_frame σ σ.searchLists).2.2.trans h
  rw [hscreen]
  trivial

/-- The failure screen after a trap knows nothing of the store. -/
theorem fresh_issue {σ : Session} {issued : Issued} {next : Session → Session}
    (hnext : (next { σ with store := applyAll σ.store issued.writes }).screen.Fresh
      (next { σ with store := applyAll σ.store issued.writes }).store) :
    (σ.issue issued next).screen.Fresh (σ.issue issued next).store := by
  rcases issue_cases σ issued next with hcrash | hgo
  · rw [hcrash]
    trivial
  · rw [hgo]
    exact hnext

theorem fresh_mapTap {σ σ' : Session} {m : MapScreen} {shown : MapScreen → Session → Session}
    {push : SavePlaceView → Session → Session} {tap : MapTap}
    (h : mapTap σ m shown push tap = some σ') (hm : m.Holds StoredIfListed Stored)
    (hshown : ∀ m τ, (shown m τ).screen.Fresh (shown m τ).store)
    (hpush : ∀ v, SaveFresh σ.store v → (push v σ).screen.Fresh (push v σ).store) :
    σ'.screen.Fresh σ'.store := by
  rcases mapTap_cases h with ⟨place, -, hinfo, rfl⟩ | ⟨i, place, list, -, -, -, rfl⟩ |
    ⟨-, m', -, rfl⟩
  · exact hpush _ (saveFresh_load (hm.info place hinfo))
  · exact fresh_issue (hshown _ _)
  · exact hshown _ _

theorem fresh_saveTap {σ σ' : Session} {v : SavePlaceView}
    {shown : SavePlaceView → Session → Session} {pop : Session → Session} {tap : SaveTap}
    (h : saveTap σ v shown pop tap = some σ') (hσ : σ.screen.Fresh σ.store)
    (hv : SaveFresh σ.store v)
    (hshown : ∀ v τ, SaveFresh τ.store v → (shown v τ).screen.Fresh (shown v τ).store)
    (hpop : ∀ τ, (pop τ).screen.Fresh (pop τ).store) : σ'.screen.Fresh σ'.store := by
  rcases saveTap_cases h with ⟨e, w, -, hw, rfl⟩ | ⟨title, -, rfl⟩ | ⟨-, -, rfl⟩ |
    ⟨issued, -, -, rfl⟩ | ⟨-, rfl⟩
  · exact hshown _ _ (saveFresh_row hv hw)
  · exact hshown _ { σ with store := (Write.addList title).apply σ.store }
      (saveFresh_listAdded hv title)
  · exact hσ
  · exact fresh_issue (hpop _)
  · exact hpop _

theorem fresh_savedTap {σ σ' : Session} {c : SavedController} {tap : SavedTap}
    (h : savedTap σ c tap = some σ') (hs : Consistent σ.store) (hc : SavedFresh σ.store c)
    (hstored : ∀ p ∈ c.places, p.dbId ≠ none) : σ'.screen.Fresh σ'.store := by
  rcases savedTap_cases h with ⟨i, list, -, -, rfl⟩ | ⟨i, place, -, -, -, rfl⟩ |
    ⟨list, -, -, rfl⟩ | ⟨i, list, -, hlist, rfl⟩ | ⟨i, list, -, hlist, -, rfl⟩ |
    ⟨title, -, -, rfl⟩ | ⟨-, rfl⟩
  · trivial
  · trivial
  · trivial
  · exact ⟨editFresh_load hs.integrity hc hstored hlist, fun _ => rfl⟩
  · exact fresh_issue (savedFresh_listDeleted hs hc hlist)
  · exact savedFresh_listAdded hc title
  · exact fresh_reloadRoot rfl

theorem fresh_editTap {σ σ' : Session} {c : SavedController} {e : EditListController}
    {tap : EditTap} (h : editTap σ c e tap = some σ') (hs : Consistent σ.store)
    (hlist : getAllList σ.store ≠ []) (he : EditFresh σ.store e)
    (hdefault : checkIfDefaultList e.list.title = true → e.editedListTitle = e.list.title)
    (hs' : Consistent (applyAll σ.store (e.issued tap).writes))
    (hlist' : getAllList (applyAll σ.store (e.issued tap).writes) ≠ []) :
    σ'.screen.Fresh σ'.store := by
  cases tap with
  | delete placeId =>
    cases h
    refine ⟨editFresh_tappedDelete he placeId, ?_⟩
    unfold EditListController.tappedDelete
    split
    · exact hdefault
    · exact hdefault
  | title text =>
    cases h
    refine ⟨editFresh_title he text, ?_⟩
    unfold EditListController.animatedFieldDidEndEditing
    split
    · exact hdefault
    · next hfalse => exact fun htrue => absurd htrue hfalse
  | done =>
    simp only [editTap] at h
    split at h
    · obtain rfl := Option.some.inj h
      exact fresh_issue (fresh_showSaved hs' hlist' c)
    · cases h
  | back =>
    cases h
    exact fresh_showSaved hs hlist c

/-- The screen after a tap is fresh, when the store is consistent and has a list
before and after its requests. -/
theorem fresh_step {dist : Coordinate → Coordinate → Rat} {σ σ' : Session} {tap : Tap}
    (hσ : σ.Good) (hstep : tapStep dist σ tap = some σ')
    (hs' : Consistent (applyAll σ.store (σ.issued tap).writes))
    (hlist' : getAllList (applyAll σ.store (σ.issued tap).writes) ≠ []) :
    σ'.screen.Fresh σ'.store := by
  obtain ⟨hs, hfavourite, hheld, hfresh⟩ := hσ
  have hlist := getAllList_ne_nil hfavourite
  have hscreen := hheld.screen
  unfold tapStep at hstep
  split at hstep
  · cases hstep
    exact fresh_reloadRoot rfl
  · next tap hmap =>
    cases tap with
    | searchAnswered searchText location items =>
      simp only [rootTap] at hstep
      split at hstep
      · cases hstep
      · cases hstep
        exact hfresh
    | savedList i =>
      obtain ⟨list, -, rfl⟩ := Option.map_eq_some_iff.mp hstep
      exact hfresh
    | closePanel =>
      cases hstep
      exact fresh_reloadRoot hmap
    | openSaved =>
      cases hstep
      exact fresh_showSaved hs hlist _
  · exact fresh_mapTap hstep hheld.root (fun _ _ => trivial) fun _ hv => hv
  · next v tap hsave =>
    have hv := hfresh
    rw [hsave] at hv
    exact fresh_saveTap hstep hfresh hv (fun _ _ hv => hv) fun _ => trivial
  · next c tap hsaved =>
    rw [hsaved] at hfresh hscreen
    exact fresh_savedTap hstep hs hfresh hscreen
  · cases hstep
    exact fresh_showSaved hs hlist _
  · next c m tap hlistmap =>
    rw [hlistmap] at hscreen
    exact fresh_mapTap hstep hscreen.2 (fun _ _ => trivial) fun _ hv => hv
  · next c m v tap hsave =>
    have hv := hfresh
    rw [hsave] at hv
    exact fresh_saveTap hstep hfresh hv (fun _ _ hv => hv) fun _ => trivial
  · next c e tap hedit =>
    rw [hedit] at hfresh
    simp only [Session.issued, hedit] at hs' hlist'
    exact fresh_editTap hstep hs hlist hfresh.1 hfresh.2 hs' hlist'
  · cases hstep

theorem recordsHold_stored (s : UserStore) : RecordsHold Stored s := by
  intro j r _
  simp [Stored, placeOfDoc]

end SessionLemmas

open SessionLemmas

/-- A tap that meets the condition keeps the invariant. -/
theorem good_step {dist : Coordinate → Coordinate → Rat} {σ σ' : Session} {tap : Tap}
    (hσ : σ.Good) (hready : σ.Ready tap) (hstep : tapStep dist σ tap = some σ') : σ'.Good := by
  have hs' := consistent_issued hσ hready
  obtain ⟨i, hi⟩ := hσ.favourite
  have hfavourite : ListTitle (applyAll σ.store (σ.issued tap).writes) "Favourite" :=
    ⟨i, titled_applyAll hi (retitles_issued hσ.fresh hstep hi)⟩
  have hlist := getAllList_ne_nil hfavourite
  have hstore : σ'.store = applyAll σ.store (σ.issued tap).writes := by
    rcases store_step hstep with h | ⟨hempty, -⟩
    · exact h
    · exact absurd hempty hlist
  refine ⟨hstore ▸ hs', hstore ▸ hfavourite, ?_, fresh_step hσ hstep hs' hlist⟩
  exact holds_step (fun _ hp _ => hp) (fun _ hempty hne => absurd hempty hne)
    (recordsHold_stored _) (recordsHold_stored _) hσ.held hstep

/-- A new account: the default lists, and no place. -/
theorem good_initial : Session.initial.Good where
  consistent := by
    have hempty : Consistent UserStore.empty :=
      ⟨fun h => by simp [Titled, UserStore.empty] at h, fun h => by simp [IdAt, UserStore.empty] at h,
        fun i title k h => by simp [Titled, UserStore.empty] at h⟩
    exact consistent_addLists hempty (by decide) fun title _ =>
      ⟨by simp [ListTitle, Titled, UserStore.empty], by simp [Recorded, UserStore.empty]⟩
  favourite := by decide +kernel
  held := ⟨HeldLemmas.holds_initial, trivial⟩
  fresh := trivial

/-! ## 5. Runs -/

/-- In a run from a new account whose taps all meet the condition, a list
contains an id exactly when a record with that id lists its title; so the saved
screen and the map, which select by id and by title, show the same places. -/
theorem integrity_of_ready (dist : Coordinate → Coordinate → Rat) (taps : List Tap) (σ : Session)
    (hrun : Machine.run (tapStep dist) Session.initial taps = some σ)
    (hready : Machine.Meets (tapStep dist) Session.Ready Session.initial taps) :
    Integrity σ.store ∧ ∀ i d, σ.store.lists.get i = some d →
      ((getAllPlaces σ.store).filter fun place => d.places.contains place.id).Perm
        (getAllPlacesForList σ.store d.title) := by
  have hgood : σ.Good := Machine.run_invariant (fun _ _ _ hσ hready hstep =>
    good_step hσ hready hstep) good_initial hready hrun
  exact ⟨hgood.consistent.integrity, fun _ _ hd => contents_agree hgood.consistent hd⟩

/-- A place found by a search is saved, in the row of the first list. -/
def exSave : List Tap :=
  [.root (.searchAnswered "Food" none [exItem "Cafe" ⟨0, 0⟩]), .map (.row 0 0), .map .save,
    .save (.row (.cellForRowAt 0)), .save (.row (.didTapCheckBox 0)), .save .done]

/-- The place is saved, and the list "Coffee" added, renamed and deleted. -/
def exEdited : List Tap :=
  exSave ++ [.root .openSaved, .saved (.newList "Coffee"), .saved (.edit 0), .edit (.title "Cafes"),
    .edit .done, .saved (.delete 0), .saved .back]

/-- From the detail screen of the saved place, it is first put in another list
as well; then Done is tapped once more. -/
def exStale : List Tap :=
  exSave ++ [.root (.savedList 0), .map (.row 0 0), .map .save, .save (.row (.cellForRowAt 0)),
    .save (.row (.cellForRowAt 1)), .save (.row (.didTapCheckBox 1)), .save .done, .map .save,
    .save (.row (.cellForRowAt 0)), .save .done]

theorem integrity_of_ready_edited : ∃ σ,
    Machine.run (tapStep fun _ _ => 0) Session.initial exEdited = some σ ∧
    Integrity σ.store ∧ ∀ i d, σ.store.lists.get i = some d →
      ((getAllPlaces σ.store).filter fun place => d.places.contains place.id).Perm
        (getAllPlacesForList σ.store d.title) := by
  have hrun : (Machine.run (tapStep fun _ _ => 0) Session.initial exEdited).isSome := by
    decide +kernel
  have hready : Machine.Meets (tapStep fun _ _ => 0) Session.Ready Session.initial exEdited := by
    decide +kernel
  obtain ⟨σ, hσ⟩ := Option.isSome_iff_exists.mp hrun
  exact ⟨σ, hσ, integrity_of_ready (fun _ _ => 0) exEdited σ hσ hready⟩

/-- The second Done rewrites the record with the titles of the stale place, and
the other list keeps the id. -/
theorem stale_detail_breaks_integrity :
    ¬ ∀ (dist : Coordinate → Coordinate → Rat) (taps : List Tap) (σ : Session),
      Machine.run (tapStep dist) Session.initial taps = some σ → Integrity σ.store := by
  intro hall
  have hrun : (Machine.run (tapStep fun _ _ => 0) Session.initial exStale).map
      (fun σ => decide (Integrity σ.store)) = some false := by
    decide +kernel
  obtain ⟨σ, hσ, hbroken⟩ := Option.map_eq_some_iff.mp hrun
  exact of_decide_eq_false hbroken (hall _ _ σ hσ)

end LocateMe
