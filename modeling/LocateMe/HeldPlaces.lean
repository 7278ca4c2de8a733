import LocateMe.Session

/-!
# The places that the screens hold

The places on a screen come from a search or from a query of the history, and
handlers only move them around. So what holds of search results and of records
holds of every place on screen.

Results:
1. `holds_step`: a tap preserves this, whatever it does to the store.
-/

namespace LocateMe

open Documents SessionLemmas

/-! ## 1. What is held -/

/-- Every place of the map screen satisfies `P`, and those of a panel that shows
a list satisfy `Q`. -/
structure MapScreen.Holds (P Q : Place → Prop) (m : MapScreen) : Prop where
  places : ∀ p ∈ m.places, P p
  matchingPlaces : ∀ p ∈ m.matchingPlaces, P p
  info : ∀ p, m.info = some p → P p
  listed : m.list ≠ none → ∀ p ∈ m.places, Q p

/-- The places of the saved screen and of the edit screen satisfy `Q`. -/
def Screen.Holds (P Q : Place → Prop) : Screen → Prop
  | .saved c => ∀ p ∈ c.places, Q p
  | .listMap c m => (∀ p ∈ c.places, Q p) ∧ m.Holds P Q
  | .listMapSave c m _ => (∀ p ∈ c.places, Q p) ∧ m.Holds P Q
  | .edit c e => (∀ p ∈ c.places, Q p) ∧ ∀ p ∈ e.places ++ e.selectedPlaces, Q p
  | _ => True

structure Session.Holds (P Q : Place → Prop) (σ : Session) : Prop where
  root : σ.root.Holds P Q
  screen : σ.screen.Holds P Q

/-- The records of the store satisfy `Q` as places. -/
def RecordsHold (Q : Place → Prop) (s : UserStore) : Prop :=
  ∀ j r, s.history.get j = some r → Q (placeOfDoc j r)

/-! ## 2. What a tap preserves -/

namespace HeldLemmas

section

variable {P Q : Place → Prop}

theorem holds_initial : MapScreen.initial.Holds P Q :=
  ⟨by simp [MapScreen.initial], by simp [MapScreen.initial], by simp [MapScreen.initial],
    by simp [MapScreen.initial]⟩

/-- A map screen that opens with the places of the saved screen. -/
theorem holds_list (hQP : ∀ p, Q p → P p) {list : Option PlaceList} {places : List Place}
    (h : ∀ p ∈ places, Q p) : MapScreen.Holds P Q ⟨list, places, places, none⟩ :=
  ⟨fun p hp => hQP p (h p hp), fun p hp => hQP p (h p hp), by simp, fun _ => h⟩

theorem holds_openPlace (hQP : ∀ p, Q p → P p) {m : MapScreen} {s : UserStore} {place : Place}
    {answer : Nat} (hm : m.Holds P Q) (hs : RecordsHold Q s) (hplace : P place) :
    (m.openPlace s place answer).Holds P Q := by
  refine ⟨hm.places, hm.matchingPlaces, fun p hp => ?_, hm.listed⟩
  obtain rfl := Option.some.inj hp
  split
  · cases hfound : (placesByAddress s place.address)[answer %
        (placesByAddress s place.address).length]? with
    | none => simpa [hfound] using hplace
    | some found =>
      obtain ⟨j, r, hr, -, rfl⟩ := mem_placesByAddress.mp (List.mem_of_getElem? hfound)
      simpa [hfound] using hQP _ (hs j r hr)
  · exact hplace

theorem holds_tapped (hQP : ∀ p, Q p → P p) {m m' : MapScreen} {s : UserStore} {tap : MapTap}
    (hm : m.Holds P Q) (hs : RecordsHold Q s) (h : m.tapped s tap = some m') : m'.Holds P Q := by
  cases tap with
  | row i answer =>
    obtain ⟨place, hplace, rfl⟩ := Option.map_eq_some_iff.mp h
    exact holds_openPlace hQP hm hs (hm.places place (List.mem_of_getElem? hplace))
  | pin coordinate answer =>
    obtain ⟨place, hplace, rfl⟩ := Option.map_eq_some_iff.mp h
    exact holds_openPlace hQP hm hs (hm.matchingPlaces place (List.mem_of_find?_eq_some hplace))
  | swipe i => cases h
  | save => cases h

theorem holds_resetListTable {m : MapScreen} {i : Nat} (hm : m.Holds P Q) :
    (m.resetListTable i).Holds P Q :=
  ⟨fun p hp => hm.places p (List.mem_of_mem_eraseIdx hp), hm.matchingPlaces, hm.info,
    fun hlist p hp => hm.listed hlist p (List.mem_of_mem_eraseIdx hp)⟩

/-- The failure screen after a trap holds no place. -/
theorem holds_issue {σ : Session} {issued : Issued} {next : Session → Session}
    (hroot : σ.root.Holds P Q)
    (hnext : (next { σ with store := applyAll σ.store issued.writes }).Holds P Q) :
    (σ.issue issued next).Holds P Q := by
  rcases issue_cases σ issued next with hcrash | hgo
  · rw [hcrash]
    exact ⟨hroot, trivial⟩
  · rw [hgo]
    exact hnext

/-- A tap on a map screen, when what puts the screen back or pushes the save
screen keeps what is held. -/
theorem holds_mapTap (hQP : ∀ p, Q p → P p) {σ σ' : Session} {m : MapScreen}
    {shown : MapScreen → Session → Session} {push : SavePlaceView → Session → Session}
    {tap : MapTap} (h : mapTap σ m shown push tap = some σ') (hs : RecordsHold Q σ.store)
    (hroot : σ.root.Holds P Q) (hm : m.Holds P Q)
    (hshown : ∀ m τ, τ.root = σ.root → m.Holds P Q → (shown m τ).Holds P Q)
    (hpush : ∀ v τ, τ.root = σ.root → (push v τ).Holds P Q) : σ'.Holds P Q := by
  rcases mapTap_cases h with ⟨place, -, -, rfl⟩ | ⟨i, place, list, -, -, -, rfl⟩ | ⟨-, m', hm', rfl⟩
  · exact hpush _ _ rfl
  · exact holds_issue hroot (hshown _ _ rfl (holds_resetListTable hm))
  · exact hshown _ _ rfl (holds_tapped hQP hm hs hm')

theorem holds_saveTap {σ σ' : Session} {v : SavePlaceView}
    {shown : SavePlaceView → Session → Session} {pop : Session → Session} {tap : SaveTap}
    (h : saveTap σ v shown pop tap = some σ') (hσ : σ.Holds P Q)
    (hshown : ∀ v τ, τ.root = σ.root → (shown v τ).Holds P Q)
    (hpop : ∀ τ, τ.root = σ.root → (pop τ).Holds P Q) : σ'.Holds P Q := by
  rcases saveTap_cases h with ⟨e, w, -, -, rfl⟩ | ⟨title, -, rfl⟩ | ⟨-, -, rfl⟩ |
    ⟨issued, -, -, rfl⟩ | ⟨-, rfl⟩
  · exact hshown _ _ rfl
  · exact hshown _ _ rfl
  · exact hσ
  · exact holds_issue hσ.root (hpop _ rfl)
  · exact hpop _ rfl

/-- The saved screen shows the answer, or keeps what it had. -/
theorem holds_showSaved {σ : Session} {c : SavedController} (hroot : σ.root.Holds P Q)
    (hs : RecordsHold Q σ.store) (hc : ∀ p ∈ c.places, Q p) : (σ.showSaved c).Holds P Q := by
  have hplaces : ∀ p ∈ (c.retrieveHistory (getAllPlaces σ.store)).places, Q p := by
    rcases ScreenLemmas.places_retrieveHistory c (getAllPlaces σ.store) with hperm | ⟨-, hsame⟩
    · intro p hp
      obtain ⟨j, r, hr, rfl⟩ := mem_getAllPlaces.mp (hperm.mem_iff.mp hp)
      exact hs j r hr
    · rwa [hsame]
  obtain ⟨-, hroot', -⟩ :=
    retrieveLists_frame σ (c.retrieveHistory (getAllPlaces σ.store)).lists
  refine ⟨?_, hplaces⟩
  simp only [Session.showSaved, hroot']
  exact hroot

/-- Places that a deleted list takes along. -/
theorem holds_listDeleted {c : SavedController} {tag : Nat} {ids : List Int}
    (hc : ∀ p ∈ c.places, Q p) : ∀ p ∈ (c.listDeleted tag ids).places, Q p := by
  simp only [SavedController.listDeleted]
  induction ids generalizing c with
  | nil => exact hc
  | cons k ids ih =>
    exact ih (c := { c with places := c.places.eraseP (·.id = k) }) fun p hp =>
      hc p (List.mem_of_mem_eraseP hp)

theorem holds_tappedDelete {e : EditListController} {placeId : Int}
    (he : ∀ p ∈ e.places ++ e.selectedPlaces, Q p) :
    ∀ p ∈ (e.tappedDelete placeId).places ++ (e.tappedDelete placeId).selectedPlaces, Q p :=
  fun p hp => he p ((ScreenLemmas.perm_tappedDelete e placeId).mem_iff.mp hp)

theorem holds_savedTap (hQP : ∀ p, Q p → P p) {σ σ' : Session} {c : SavedController}
    {tap : SavedTap} (h : savedTap σ c tap = some σ') (hs : RecordsHold Q σ.store)
    (hroot : σ.root.Holds P Q) (hc : ∀ p ∈ c.places, Q p) : σ'.Holds P Q := by
  have hplaces : ∀ list, ∀ p ∈ c.placesOf list, Q p := fun list p hp =>
    hc p (ScreenLemmas.mem_placesOf.mp hp).1
  rcases savedTap_cases h with ⟨i, list, -, -, rfl⟩ | ⟨i, place, -, -, hplace, rfl⟩ |
    ⟨list, -, -, rfl⟩ | ⟨i, list, -, -, rfl⟩ | ⟨i, list, -, -, -, rfl⟩ | ⟨title, -, -, rfl⟩ |
    ⟨-, rfl⟩
  · exact ⟨hroot, hc, holds_list hQP (hplaces list)⟩
  · exact ⟨hroot, hc, holds_openPlace hQP holds_initial hs
      (hQP place (hc place (List.mem_of_getElem? hplace)))⟩
  · exact ⟨hroot, hc, holds_list hQP hc⟩
  · refine ⟨hroot, hc, fun p hp => ?_⟩
    simp only [EditListController.load, List.append_nil] at hp
    exact hplaces list p hp
  · exact holds_issue hroot ⟨hroot, holds_listDeleted hc⟩
  · exact ⟨hroot, hc⟩
  · obtain ⟨-, hroot', hscreen⟩ := retrieveLists_frame { σ with screen := .map } σ.searchLists
    refine ⟨?_, ?_⟩
    · simp only [Session.reloadRoot, hroot']
      exact hroot
    · simp only [Session.reloadRoot, hscreen]
      trivial

theorem holds_editTap {σ σ' : Session} {c : SavedController} {e : EditListController}
    {tap : EditTap} (h : editTap σ c e tap = some σ') (hs : RecordsHold Q σ.store)
    (hs' : RecordsHold Q σ'.store) (hroot : σ.root.Holds P Q) (hc : ∀ p ∈ c.places, Q p)
    (he : ∀ p ∈ e.places ++ e.selectedPlaces, Q p) : σ'.Holds P Q := by
  cases tap with
  | delete placeId =>
    cases h
    exact ⟨hroot, hc, holds_tappedDelete he⟩
  | title text =>
    cases h
    refine ⟨hroot, hc, ?_⟩
    unfold EditListController.animatedFieldDidEndEditing
    split
    · exact he
    · exact he
  | done =>
    simp only [editTap] at h
    split at h
    · obtain rfl := Option.some.inj h
      have hloaded : Loaded (applyAll σ.store e.tappedDone.writes)
          (σ.issue e.tappedDone (Session.showSaved c)).store :=
        issue_store fun _ => loaded_retrieveLists _ _
      have hhistory := loaded_history hloaded
      refine holds_issue hroot (holds_showSaved hroot (fun j r hr => hs' j r ?_) hc)
      rw [hhistory]
      exact hr
    · cases h
  | back =>
    cases h
    exact holds_showSaved hroot hs hc

end

end HeldLemmas

open HeldLemmas

/-- A tap keeps what the screens hold: `P` of every place on a map screen, and
`Q` of every place on a screen that shows saved places, when `Q` holds of the
records before and after the tap. -/
theorem holds_step {P Q : Place → Prop} {dist : Coordinate → Coordinate → Rat} {σ σ' : Session}
    {tap : Tap} (hQP : ∀ p, Q p → P p) (hsearch : ∀ p : Place, p.list = [] → P p)
    (hs : RecordsHold Q σ.store) (hs' : RecordsHold Q σ'.store) (hσ : σ.Holds P Q)
    (hstep : tapStep dist σ tap = some σ') : σ'.Holds P Q := by
  obtain ⟨hroot, hscreen⟩ := hσ
  unfold tapStep at hstep
  split at hstep
  · -- relaunch
    cases hstep
    obtain ⟨-, hroot', hscreen'⟩ := retrieveLists_frame ⟨σ.store, [], .initial, .map⟩ []
    refine ⟨?_, ?_⟩
    · simp only [Session.launch, Session.reloadRoot, hroot']
      exact holds_initial
    · simp only [Session.launch, Session.reloadRoot, hscreen']
      trivial
  · next tap hmap =>
    cases tap with
    | searchAnswered searchText location items =>
      simp only [rootTap] at hstep
      split at hstep
      · cases hstep
      · next hlist =>
        cases hstep
        have hplaces : ∀ p ∈ createPlaceList dist searchText location items, P p := by
          intro p hp
          obtain ⟨item, -, rfl⟩ := List.mem_map.mp hp
          exact hsearch _ rfl
        refine ⟨⟨hplaces, hplaces, hroot.info, fun hne => ?_⟩, hscreen⟩
        exact absurd (by simpa using hlist) hne
    | savedList i =>
      obtain ⟨list, -, rfl⟩ := Option.map_eq_some_iff.mp hstep
      have hplaces : ∀ p ∈ getAllPlacesForList σ.store list.title, Q p := by
        intro p hp
        obtain ⟨j, r, hr, -, rfl⟩ := mem_getAllPlacesForList.mp hp
        exact hs j r hr
      exact ⟨⟨fun p hp => hQP p (hplaces p hp), fun p hp => hQP p (hplaces p hp), hroot.info,
        fun _ => hplaces⟩, hscreen⟩
    | closePanel =>
      cases hstep
      obtain ⟨-, hroot', hscreen'⟩ := retrieveLists_frame
        { σ with root := { σ.root with list := none, places := [] } } σ.searchLists
      refine ⟨?_, ?_⟩
      · simp only [Session.reloadRoot, hroot']
        exact ⟨by simp, hroot.matchingPlaces, hroot.info, by simp⟩
      · simp only [Session.reloadRoot, hscreen']
        exact hscreen
    | openSaved =>
      cases hstep
      exact holds_showSaved hroot hs (by simp [SavedController.initial])
  · exact holds_mapTap hQP hstep hs hroot hroot (fun m τ _ hm => ⟨hm, trivial⟩)
      fun v τ hτ => ⟨hτ ▸ hroot, trivial⟩
  · exact holds_saveTap hstep ⟨hroot, hscreen⟩ (fun v τ hτ => ⟨hτ ▸ hroot, trivial⟩)
      fun τ hτ => ⟨hτ ▸ hroot, trivial⟩
  · next c tap hsaved =>
    rw [hsaved] at hscreen
    exact holds_savedTap hQP hstep hs hroot hscreen
  · next c m hlistmap =>
    rw [hlistmap] at hscreen
    cases hstep
    exact holds_showSaved hroot hs hscreen.1
  · next c m tap hlistmap =>
    rw [hlistmap] at hscreen
    exact holds_mapTap hQP hstep hs hroot hscreen.2
      (fun m τ hτ hm => ⟨hτ ▸ hroot, hscreen.1, hm⟩) fun v τ hτ => ⟨hτ ▸ hroot, hscreen⟩
  · next c m v tap hlistmap =>
    have hscreen' := hscreen
    rw [hlistmap] at hscreen'
    exact holds_saveTap hstep ⟨hroot, hscreen⟩ (fun v τ hτ => ⟨hτ ▸ hroot, hscreen'⟩)
      fun τ hτ => ⟨hτ ▸ hroot, hscreen'⟩
  · next c e tap hedit =>
    rw [hedit] at hscreen
    exact holds_editTap hstep hs hs' hroot hscreen.1 hscreen.2
  · cases hstep

end LocateMe
