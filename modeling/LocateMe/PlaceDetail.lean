import LocateMe.Freshness

/-!
# The detail screen

`PlaceDetailController` asks the store for a record with the address of its
place when it is loaded. The reply replaces `currentPlace`, whenever it comes;
no save does. The save screen decides between a new record and an old one by the
place that it was opened with.

Results:
1. `openPlace_info`: a session's detail screen is this one with a reply at once.
2. `history_done`: what Done does to the history.
3. `one_record_iff`: in a run no map place ever has two records iff every Done
   that adds a record finds none of its place, and every Done that writes one
   over finds no other.
-/

namespace LocateMe

open Documents StoreLemmas SaveLemmas

/-! ## 1. The controller -/

/-- How the query `getPlaceByAddress` ends on the server. The document order
decides which of the records with the address it returns. -/
inductive Reply
  | documents (answer : Nat)
  | error
deriving DecidableEq

/-- The argument of the completion of `getPlaceByAddress`. After an error it is
the place that was asked for; without a document it is not called. -/
def getPlaceByAddress (s : UserStore) (place : Place) : Reply → Option Place
  | .documents answer =>
    let found := placesByAddress s place.address
    found[answer % found.length]?
  | .error => some place

/-- The query of `retrieveCurrentPlaceData`: not sent or handled, sent, or
answered and not handled yet. -/
inductive AddressQuery
  | idle
  | sent
  | answered (argument : Option Place)

structure PlaceDetailController where
  currentPlace : Place
  query : AddressQuery

namespace PlaceDetailController

/-- `setUpView`, for a user who is signed in. -/
def setUpView (place : Place) : PlaceDetailController :=
  ⟨place, if place.dbId = none then .sent else .idle⟩

/-- The server answers the query. -/
def answered (c : PlaceDetailController) (s : UserStore) (reply : Reply) :
    Option PlaceDetailController :=
  match c.query with
  | .sent => some { c with query := .answered (getPlaceByAddress s c.currentPlace reply) }
  | _ => none

/-- The completion in `retrieveCurrentPlaceData`. -/
def completed (c : PlaceDetailController) : Option PlaceDetailController :=
  match c.query with
  | .answered none => some { c with query := .idle }
  | .answered (some place) =>
    some ⟨if place.dbId ≠ none then place else c.currentPlace, .idle⟩
  | _ => none

end PlaceDetailController

/-- The detail screen of a session is this one, with the reply handled at once. -/
theorem openPlace_info {s : UserStore} {place : Place} (hnew : place.dbId = none) (m : MapScreen)
    (answer : Nat) :
    (((PlaceDetailController.setUpView place).answered s (.documents answer)).bind
        PlaceDetailController.completed).map PlaceDetailController.currentPlace =
      (m.openPlace s place answer).info := by
  simp only [PlaceDetailController.setUpView, PlaceDetailController.answered, getPlaceByAddress,
    MapScreen.openPlace, hnew, if_true, Option.bind_some]
  cases hfound : (placesByAddress s place.address)[answer %
      (placesByAddress s place.address).length]? with
  | none => rfl
  | some found =>
    obtain ⟨j, r, -, -, rfl⟩ := mem_placesByAddress.mp (List.mem_of_getElem? hfound)
    rfl

/-! ## 2. Runs -/

/-- The detail panel and the save screen over it. A detail screen that another
one has replaced still gets its reply, but no one sees it any more. -/
structure DetailSession where
  store : UserStore
  detail : Option PlaceDetailController
  save : Option SavePlaceView

def DetailSession.start (s : UserStore) : DetailSession := ⟨s, none, none⟩

/-- `setUpPlaceDetail` is called when the directions to a tapped result are
known, which can be while the save screen is open. -/
inductive DetailEvent
  | setUpPlaceDetail (searchText : String) (location : Option Coordinate) (item : MapItem)
  | answered (reply : Reply)
  | completed
  | tappedSave
  | save (tap : SaveTap)
  | relaunch
deriving DecidableEq

/-- A tap on the save screen, all of whose writes succeed. After a trap the app
has to be started again. -/
def DetailSession.saveTap (σ : DetailSession) (v : SavePlaceView) : SaveTap → Option DetailSession
  | .row e => (rowStep v e).map fun v => { σ with save := some v }
  | .newList title =>
    if title = "" then none
    else
      some { σ with
        store := applyAll σ.store (addNewList title).writes
        save := some (v.listAdded title σ.store.lists.next) }
  | .done =>
    match v.tappedDoneBtn with
    | none => some σ
    | some issued =>
      let s := applyAll σ.store issued.writes
      some (if issued.trapped then .start s else { σ with store := s, save := none })
  | .back => some { σ with save := none }

def detailStep (dist : Coordinate → Coordinate → Rat) (σ : DetailSession) :
    DetailEvent → Option DetailSession
  | .setUpPlaceDetail searchText location item =>
    let place := createPlaceitems dist searchText location item
    some { σ with detail := some (.setUpView place) }
  | .answered reply =>
    (σ.detail.bind fun c => c.answered σ.store reply).map fun c => { σ with detail := some c }
  | .completed =>
    (σ.detail.bind PlaceDetailController.completed).map fun c => { σ with detail := some c }
  | .tappedSave =>
    if σ.save.isSome then none
    else σ.detail.map fun c => { σ with save := some (.load σ.store c.currentPlace) }
  | .save tap => σ.save.bind fun v => σ.saveTap v tap
  | .relaunch => some (.start σ.store)

/-! ## 3. Map places -/

/-- What tells the places of the map apart. -/
structure MapPlace where
  name : String
  address : String
  coordinate : Coordinate
deriving DecidableEq

def Place.mapPlace (place : Place) : MapPlace := ⟨place.name, place.address, place.coordinate⟩

def HistoryDoc.mapPlace (doc : HistoryDoc) : MapPlace := ⟨doc.name, doc.address, doc.coordinate⟩

@[simp] theorem docOfPlace_mapPlace (place : Place) (listTitle : List String) (id : Int) :
    (docOfPlace place listTitle id).mapPlace = place.mapPlace := rfl

/-- No two records come from the same map place. -/
def OneRecord (s : UserStore) : Prop := s.history.KeyUnique HistoryDoc.mapPlace

instance (s : UserStore) : Decidable (OneRecord s) :=
  inferInstanceAs (Decidable (s.history.KeyUnique HistoryDoc.mapPlace))

/-- What Done needs: when it adds a record, that the place has none; when it writes
its record over, that the place has no other. -/
structure DoneReady (s : UserStore) (v : SavePlaceView) : Prop where
  adds : v.alreadySavedPlace = false → v.selectedLists ≠ [] →
    ∀ j r, s.history.get j = some r → r.mapPlace ≠ v.currentPlace.mapPlace
  rewrites : v.alreadySavedPlace = true → v.listTitles ≠ [] →
    ∀ j r, s.history.get j = some r → r.mapPlace = v.currentPlace.mapPlace →
      v.currentPlace.dbId = some j

instance (s : UserStore) (v : SavePlaceView) : Decidable (DoneReady s v) :=
  decidable_of_iff
    ((v.alreadySavedPlace = false → v.selectedLists ≠ [] →
        ∀ j r, s.history.get j = some r → r.mapPlace ≠ v.currentPlace.mapPlace) ∧
      (v.alreadySavedPlace = true → v.listTitles ≠ [] →
        ∀ j r, s.history.get j = some r → r.mapPlace = v.currentPlace.mapPlace →
          v.currentPlace.dbId = some j))
    ⟨fun h => ⟨h.1, h.2⟩, fun h => ⟨h.adds, h.rewrites⟩⟩

/-- The condition on a step: that of Done, on the save screen. -/
def DetailSession.Ready (σ : DetailSession) (e : DetailEvent) : Prop :=
  e = .save .done → ∀ v ∈ σ.save, DoneReady σ.store v

instance (σ : DetailSession) (e : DetailEvent) : Decidable (σ.Ready e) :=
  inferInstanceAs (Decidable (e = .save .done → ∀ v ∈ σ.save, DoneReady σ.store v))

/-! ## 4. A step -/

/-- A detail screen only holds places that are stored if they are in a list. -/
structure PlaceDetailController.Sound (c : PlaceDetailController) : Prop where
  currentPlace : StoredIfListed c.currentPlace
  argument : ∀ place, c.query = .answered (some place) → StoredIfListed place

/-- So does the detail panel, and the save screen is fresh. -/
structure DetailSession.Sound (σ : DetailSession) : Prop where
  detail : ∀ c, σ.detail = some c → c.Sound
  save : ∀ v, σ.save = some v → SaveFresh σ.store v

namespace DetailLemmas

theorem sound_start (s : UserStore) : (DetailSession.start s).Sound :=
  ⟨by simp [DetailSession.start], by simp [DetailSession.start]⟩

theorem sound_answered {s : UserStore} {c c' : PlaceDetailController} (hc : c.Sound)
    {reply : Reply} (h : c.answered s reply = some c') : c'.Sound := by
  unfold PlaceDetailController.answered at h
  split at h
  · obtain rfl := Option.some.inj h
    refine ⟨hc.currentPlace, fun place hplace => ?_⟩
    have hfound : getPlaceByAddress s c.currentPlace reply = some place := by simpa using hplace
    cases reply with
    | documents answer =>
      -- a record that the query returns has a document id
      obtain ⟨j, r, -, -, rfl⟩ := mem_placesByAddress.mp (List.mem_of_getElem? hfound)
      exact fun _ => Option.some_ne_none j
    | error =>
      obtain rfl := Option.some.inj hfound
      exact hc.currentPlace
  · cases h

theorem sound_completed {c c' : PlaceDetailController} (hc : c.Sound)
    (h : c.completed = some c') : c'.Sound := by
  unfold PlaceDetailController.completed at h
  split at h
  · obtain rfl := Option.some.inj h
    exact ⟨hc.currentPlace, by simp⟩
  · next place hquery =>
    obtain rfl := Option.some.inj h
    refine ⟨?_, by simp⟩
    split
    · exact hc.argument place hquery
    · exact hc.currentPlace
  · cases h

/-- The last loop of Done leaves the history alone, even when it traps. -/
theorem history_removeFromList (v : SavePlaceView) (titles : List String) (s : UserStore) :
    (applyAll s (Issued.forEach titles v.removeFromList).writes).history = s.history := by
  refine applyAll_history (fun w hw t => ?_) s
  obtain ⟨title, -, hw⟩ := Issued.mem_forEach hw
  obtain ⟨-, -, -, i, -, rfl⟩ := SaveLemmas.mem_removeFromList hw
  show ((Write.removePlaces i [v.currentPlace.id]).apply t).history = t.history
  rfl

/-- What Done does to the history, whether or not it traps in the end. -/
theorem history_done {s : UserStore} {v : SavePlaceView} (hv : SaveFresh s v) {issued : Issued}
    (hdone : v.tappedDoneBtn = some issued) :
    (v.alreadySavedPlace = false ∧ v.selectedLists ≠ [] ∧
      (applyAll s issued.writes).history =
        s.history.add (docOfPlace v.currentPlace v.listTitles v.highestId)) ∨
    ∃ j, v.alreadySavedPlace = true ∧ v.currentPlace.dbId = some j ∧
      (applyAll s issued.writes).history =
        if v.listTitles = [] then s.history.delete j
        else s.history.set j (docOfPlace v.currentPlace v.listTitles v.currentPlace.id) := by
  cases halready : v.alreadySavedPlace with
  | false =>
    have hselected : v.selectedLists ≠ [] := by
      intro hnone
      simp [SavePlaceView.tappedDoneBtn, hnone, halready] at hdone
    obtain rfl := done_new hv halready hdone
    obtain ⟨hadded, -, -⟩ := listed_unions (s := s) v.added v.highestId
    refine .inl ⟨rfl, hselected, ?_⟩
    show (applyAll s (v.newPart v.added true)).history = _
    rw [SavePlaceView.newPart, if_pos rfl, applyAll_append, applyAll_cons, applyAll_nil, ← hadded]
    rfl
  | true =>
    obtain ⟨j, hj⟩ := Option.ne_none_iff_exists'.mp (hv.stored (list_of_saved hv halready))
    obtain ⟨hadded, -, -⟩ := listed_unions (s := s) v.added v.currentPlace.id
    refine .inr ⟨j, rfl, hj, ?_⟩
    rw [done_saved_eq hv halready hj hdone, Issued.send_andThen, Issued.send_andThen,
      applyAll_append, applyAll_append, history_removeFromList, applyAll_cons, applyAll_nil,
      SavePlaceView.recordWrite, ← hadded]
    simp only [List.length_eq_zero_iff]
    split
    · rfl
    · rfl

/-- Done keeps one record for each map place iff it is ready. -/
theorem oneRecord_done {s : UserStore} {v : SavePlaceView} (hv : SaveFresh s v) (hs : OneRecord s)
    {issued : Issued} (hdone : v.tappedDoneBtn = some issued) :
    OneRecord (applyAll s issued.writes) ↔ DoneReady s v := by
  show (applyAll s issued.writes).history.KeyUnique HistoryDoc.mapPlace ↔ DoneReady s v
  rcases history_done hv hdone with ⟨halready, hselected, hhistory⟩ | ⟨j, halready, hj, hhistory⟩
  · rw [hhistory, Collection.keyUnique_add_iff hs, docOfPlace_mapPlace]
    constructor
    · exact fun h => ⟨fun _ _ => h, fun htrue => by simp [halready] at htrue⟩
    · exact fun h => h.adds halready hselected
  · have hready : DoneReady s v ↔ (v.listTitles ≠ [] → ∀ i r, s.history.get i = some r →
        r.mapPlace = v.currentPlace.mapPlace → i = j) := by
      constructor
      · intro h hne i r hr heq
        exact (Option.some.inj (hj.symm.trans (h.rewrites halready hne i r hr heq))).symm
      · intro h
        refine ⟨fun hfalse => by simp [halready] at hfalse, fun _ hne i r hr heq => ?_⟩
        rw [hj, h hne i r hr heq]
    rw [hready, hhistory]
    split
    · next hnone => exact iff_of_true (Collection.keyUnique_delete hs j) (absurd hnone)
    · next hne =>
      rw [Collection.keyUnique_set_iff hs, docOfPlace_mapPlace]
      exact (imp_iff_right hne).symm

/-- An alert instead of Done needs nothing. -/
theorem doneReady_of_none {s : UserStore} {v : SavePlaceView} (h : v.tappedDoneBtn = none) :
    DoneReady s v := by
  unfold SavePlaceView.tappedDoneBtn at h
  split at h
  · next hnone =>
    exact ⟨fun _ hne => absurd (List.length_eq_zero_iff.mp hnone.1) hne,
      fun htrue => by simp [hnone.2] at htrue⟩
  · cases h

theorem saveTap_sound {σ σ' : DetailSession} (hσ : σ.Sound) {v : SavePlaceView}
    (hv : σ.save = some v) {tap : SaveTap} (hstep : σ.saveTap v tap = some σ') : σ'.Sound := by
  have hfresh := hσ.save v hv
  cases tap with
  | row e =>
    obtain ⟨w, hw, rfl⟩ := Option.map_eq_some_iff.mp hstep
    refine ⟨hσ.detail, ?_⟩
    intro top htop
    obtain rfl := Option.some.inj htop
    exact saveFresh_row hfresh hw
  | newList title =>
    obtain ⟨-, hadded⟩ := Option.ite_none_left_eq_some.mp hstep
    obtain rfl := Option.some.inj hadded
    refine ⟨hσ.detail, ?_⟩
    intro top htop
    obtain rfl := Option.some.inj htop
    exact saveFresh_listAdded hfresh title
  | done =>
    simp only [DetailSession.saveTap] at hstep
    split at hstep
    · obtain rfl := Option.some.inj hstep
      exact hσ
    · obtain rfl := Option.some.inj hstep
      split
      · exact sound_start _
      · exact ⟨hσ.detail, by simp⟩
  | back =>
    obtain rfl := Option.some.inj hstep
    exact ⟨hσ.detail, by simp⟩

/-- Every step keeps the screens sound. -/
theorem sound_step {dist : Coordinate → Coordinate → Rat} {σ σ' : DetailSession} {e : DetailEvent}
    (hσ : σ.Sound) (hstep : detailStep dist σ e = some σ') : σ'.Sound := by
  cases e with
  | setUpPlaceDetail searchText location item =>
    obtain rfl := Option.some.inj hstep
    refine ⟨?_, hσ.save⟩
    intro top htop
    obtain rfl := Option.some.inj htop
    exact ⟨fun hlist => absurd rfl hlist, fun p hp => by cases hp⟩
  | answered reply =>
    obtain ⟨c', hc', rfl⟩ := Option.map_eq_some_iff.mp hstep
    obtain ⟨c, hc, hanswered⟩ := Option.bind_eq_some_iff.mp hc'
    refine ⟨?_, hσ.save⟩
    intro top htop
    obtain rfl := Option.some.inj htop
    exact sound_answered (hσ.detail c hc) hanswered
  | completed =>
    obtain ⟨c', hc', rfl⟩ := Option.map_eq_some_iff.mp hstep
    obtain ⟨c, hc, hcompleted⟩ := Option.bind_eq_some_iff.mp hc'
    refine ⟨?_, hσ.save⟩
    intro top htop
    obtain rfl := Option.some.inj htop
    exact sound_completed (hσ.detail c hc) hcompleted
  | tappedSave =>
    obtain ⟨-, hshown⟩ := Option.ite_none_left_eq_some.mp hstep
    obtain ⟨c, hc, rfl⟩ := Option.map_eq_some_iff.mp hshown
    refine ⟨hσ.detail, ?_⟩
    intro top htop
    obtain rfl := Option.some.inj htop
    exact saveFresh_load (hσ.detail c hc).currentPlace
  | save tap =>
    obtain ⟨v, hv, htap⟩ := Option.bind_eq_some_iff.mp hstep
    exact saveTap_sound hσ hv htap
  | relaunch =>
    obtain rfl := Option.some.inj hstep
    exact sound_start _

/-- A tap on the save screen keeps one record for each map place iff, when it is
Done, it is ready. -/
theorem oneRecord_saveTap {σ σ' : DetailSession} (hσ : σ.Sound) (hone : OneRecord σ.store)
    {v : SavePlaceView} (hv : σ.save = some v) {tap : SaveTap}
    (hstep : σ.saveTap v tap = some σ') :
    OneRecord σ'.store ↔ (tap = .done → DoneReady σ.store v) := by
  have hother : ∀ {t : UserStore}, tap ≠ .done → t.history = σ.store.history →
      (OneRecord t ↔ (tap = .done → DoneReady σ.store v)) := by
    intro t hne hhistory
    refine iff_of_true ?_ fun h => absurd h hne
    show t.history.KeyUnique HistoryDoc.mapPlace
    rw [hhistory]
    exact hone
  cases tap with
  | row e =>
    obtain ⟨w, -, rfl⟩ := Option.map_eq_some_iff.mp hstep
    exact hother (by simp) rfl
  | newList title =>
    obtain ⟨-, hadded⟩ := Option.ite_none_left_eq_some.mp hstep
    obtain rfl := Option.some.inj hadded
    exact hother (by simp) rfl
  | back =>
    obtain rfl := Option.some.inj hstep
    exact hother (by simp) rfl
  | done =>
    rw [forall_prop_of_true rfl]
    simp only [DetailSession.saveTap] at hstep
    split at hstep
    · next hnone =>
      obtain rfl := Option.some.inj hstep
      exact iff_of_true hone (doneReady_of_none hnone)
    · next issued hdone =>
      obtain rfl := Option.some.inj hstep
      refine Iff.trans ?_ (oneRecord_done (hσ.save v hv) hone hdone)
      split <;> rfl

/-- A step keeps one record for each map place iff it is ready. -/
theorem oneRecord_step {dist : Coordinate → Coordinate → Rat} {σ σ' : DetailSession}
    {e : DetailEvent} (hσ : σ.Sound) (hone : OneRecord σ.store)
    (hstep : detailStep dist σ e = some σ') : OneRecord σ'.store ↔ σ.Ready e := by
  have hother : σ'.store = σ.store → e ≠ .save .done → (OneRecord σ'.store ↔ σ.Ready e) :=
    fun hstore hne => iff_of_true (hstore ▸ hone) fun h => absurd h hne
  cases e with
  | setUpPlaceDetail searchText location item =>
    obtain rfl := Option.some.inj hstep
    exact hother rfl (by simp)
  | answered reply =>
    obtain ⟨c, -, rfl⟩ := Option.map_eq_some_iff.mp hstep
    exact hother rfl (by simp)
  | completed =>
    obtain ⟨c, -, rfl⟩ := Option.map_eq_some_iff.mp hstep
    exact hother rfl (by simp)
  | tappedSave =>
    obtain ⟨-, hshown⟩ := Option.ite_none_left_eq_some.mp hstep
    obtain ⟨c, -, rfl⟩ := Option.map_eq_some_iff.mp hshown
    exact hother rfl (by simp)
  | relaunch =>
    obtain rfl := Option.some.inj hstep
    exact hother rfl (by simp)
  | save tap =>
    obtain ⟨v, hv, htap⟩ := Option.bind_eq_some_iff.mp hstep
    have hready : σ.Ready (.save tap) ↔ (tap = .done → DoneReady σ.store v) := by
      simp [DetailSession.Ready, hv]
    rw [hready]
    exact oneRecord_saveTap hσ hone hv htap

end DetailLemmas

open DetailLemmas

/-! ## 5. Runs -/

/-- Whatever the order of replies and taps: a run never has two records of one map
place iff every Done in it is ready. -/
theorem one_record_iff (dist : Coordinate → Coordinate → Rat) (s : UserStore) (hs : OneRecord s)
    (events : List DetailEvent) (σ : DetailSession)
    (hrun : Machine.run (detailStep dist) (.start s) events = some σ) :
    (∀ first τ, first <+: events → Machine.run (detailStep dist) (.start s) first = some τ →
      OneRecord τ.store) ↔
    Machine.Meets (detailStep dist) DetailSession.Ready (.start s) events :=
  Machine.run_exact_prefix (fun _ _ _ => sound_step) (fun _ _ _ => oneRecord_step)
    (sound_start s) hs hrun

/-- The detail screen of a result is opened, and the reply to its query is handled
before anything else. -/
def exOpened : List DetailEvent :=
  [.setUpPlaceDetail "Food" none (exItem "Cafe" ⟨0, 0⟩), .answered (.documents 0), .completed]

/-- From the detail screen the place is saved in the list of the first row. -/
def exRowTicked : List DetailEvent :=
  [.tappedSave, .save (.row (.cellForRowAt 0)), .save (.row (.didTapCheckBox 0)), .save .done]

/-- The place is saved, found again and saved once more. -/
def exReopened : List DetailEvent := exOpened ++ exRowTicked ++ exOpened ++ exRowTicked

theorem one_record_iff_reopened :
    (∀ first τ, first <+: exReopened →
      Machine.run (detailStep fun _ _ => 0) (.start Session.initial.store) first = some τ →
      OneRecord τ.store) ∧
    Machine.Meets (detailStep fun _ _ => 0) DetailSession.Ready (.start Session.initial.store)
      exReopened := by
  have hsome : (Machine.run (detailStep fun _ _ => 0) (.start Session.initial.store)
      exReopened).isSome := by decide +kernel
  obtain ⟨σ, hσ⟩ := Option.isSome_iff_exists.mp hsome
  have hready : Machine.Meets (detailStep fun _ _ => 0) DetailSession.Ready
      (.start Session.initial.store) exReopened := by decide +kernel
  exact ⟨(one_record_iff (fun _ _ => 0) Session.initial.store (by decide +kernel) exReopened σ
    hσ).mpr hready, hready⟩

/-- While the save screen is open the place is opened again and its record is found;
the record is deleted, the place is saved anew, and then the reply is handled. -/
def exLateReply : List DetailEvent :=
  exOpened ++ exRowTicked ++ exOpened ++ [.tappedSave] ++ exOpened.dropLast ++
    [.save (.row (.cellForRowAt 0)), .save (.row (.didTapCheckBox 0)), .save .done] ++ exRowTicked ++
    [.completed, .tappedSave, .save (.row (.cellForRowAt 0)), .save .done]

/-- It is not enough that every Done that adds a record is ready. -/
example :
    Machine.Meets (detailStep fun _ _ => 0) (fun σ e => e = .save .done →
        ∀ v ∈ σ.save, v.alreadySavedPlace = false → DoneReady σ.store v)
      (.start Session.initial.store) exLateReply ∧
    ((Machine.run (detailStep fun _ _ => 0) (.start Session.initial.store) exLateReply).map
      fun σ => decide (OneRecord σ.store)) = some false := by
  constructor <;> decide +kernel

/-- The place is saved twice from one detail screen: it is a new place both times. -/
theorem second_save_duplicates :
    ¬ ∀ dist s events σ, OneRecord s →
      Machine.run (detailStep dist) (.start s) events = some σ → OneRecord σ.store := by
  intro hall
  have hsome : ((Machine.run (detailStep fun _ _ => 0) (.start Session.initial.store)
      (exOpened ++ exRowTicked ++ exRowTicked)).map fun σ => decide (OneRecord σ.store)) =
        some false := by decide +kernel
  obtain ⟨σ, hσ, htwo⟩ := Option.map_eq_some_iff.mp hsome
  have hone := hall (fun _ _ => 0) Session.initial.store _ σ (by decide +kernel) hσ
  exact absurd hone (of_decide_eq_false htwo)

end LocateMe
