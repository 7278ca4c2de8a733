import LocateMe.Consistency
import LocateMe.SavePlaceView

/-!
# Several devices of one account

Every device works on documents that it has read at some time. A handler turns its
copies into requests, which reach the server one by one and among those of the other
devices; two of the handlers go through a query first.

Results:
1. `knows_issued`: the requests of a device are about what it has read.
2. `sound_step`: all that is known of a record, in the store, in the copies and in
   the requests on their way, is about one place.
3. `rows_step`: while nobody renames or deletes a list, every copy has its title.
-/

namespace LocateMe

open Documents StoreLemmas SaveLemmas

/-! ## 1. A device -/

/-- A query whose completion issues requests. -/
inductive FollowUp
  | removeListFromAllPlaces (listTitle : String)
  | removePlaceFromAllList (placeId : Int) (listTitle : List String)
deriving DecidableEq

/-- The requests that follow the answer. -/
def FollowUp.answer (s : UserStore) : FollowUp → Issued
  | .removeListFromAllPlaces listTitle => LocateMe.removeListFromAllPlaces s listTitle
  | .removePlaceFromAllList placeId listTitle =>
    LocateMe.removePlaceFromAllList s placeId listTitle

/-- The documents that a device has read: records, ids and titles of lists, answers of
`getAllPlacesIds`. The queries and the requests are those on their way. -/
structure Device where
  records : List (Nat × HistoryDoc)
  lists : List (Nat × String)
  ids : List (List Int)
  queries : List FollowUp
  pending : List Write

namespace Device

def initial : Device := ⟨[], [], [], [], []⟩

/-- The place was built from a record that the device has read. -/
def holdsPlace (d : Device) (place : Place) : Bool :=
  place.dbId.any fun i => d.records.contains (i, docOfPlace place place.list place.id)

/-- The row was built from a list document that the device has read. -/
def holdsList (d : Device) (list : PlaceList) : Bool :=
  list.id.any fun i => d.lists.contains (i, list.title)

/-- What the save screen of a device can be when Done is tapped. -/
structure Opens (d : Device) (v : SavePlaceView) : Prop where
  place : d.holdsPlace v.currentPlace = true ∨ v.currentPlace.dbId = none ∧ v.currentPlace.list = []
  saved : v.alreadySavedPlace = decide (0 < v.currentPlace.list.length)
  lists : ∀ l ∈ v.lists, d.holdsList l = true
  ids : v.ids = [] ∨ v.ids ∈ d.ids
  rows : ∀ row ∈ v.selectedLists, row < v.lists.length

instance (d : Device) (v : SavePlaceView) : Decidable (d.Opens v) :=
  decidable_of_iff ((d.holdsPlace v.currentPlace = true ∨
      v.currentPlace.dbId = none ∧ v.currentPlace.list = []) ∧
      v.alreadySavedPlace = decide (0 < v.currentPlace.list.length) ∧
      (∀ l ∈ v.lists, d.holdsList l = true) ∧ (v.ids = [] ∨ v.ids ∈ d.ids) ∧
      ∀ row ∈ v.selectedLists, row < v.lists.length)
    ⟨fun ⟨h₁, h₂, h₃, h₄, h₅⟩ => ⟨h₁, h₂, h₃, h₄, h₅⟩, fun h => ⟨h.1, h.2, h.3, h.4, h.5⟩⟩

end Device

/-- What happens on a device: queries that are answered, actions of the user, and
requests that reach the server. -/
inductive DeviceEvent
  | readPlaces
  | readLists
  | readIds
  | newList (title : String)
  | done (v : SavePlaceView)
  | editDone (e : EditListController)
  | swipe (list : PlaceList) (place : Place)
  | deleteList (list : PlaceList)
  | answered (n : Nat)
  | applied (n : Nat)

namespace Device

/-- What an event needs: its objects were built from documents that the device has
read. -/
def Can (d : Device) : DeviceEvent → Prop
  | .readPlaces => True
  | .readLists => True
  | .readIds => True
  | .newList _ => True
  | .done v => d.Opens v
  | .editDone e =>
    e.doneEnabled = true ∧ d.holdsList e.list = true ∧
      ∀ q ∈ e.places ++ e.selectedPlaces, d.holdsPlace q = true
  | .swipe list place =>
    d.holdsPlace place = true ∧ (list.id = none ∨ d.holdsList list = true)
  | .deleteList list => d.holdsList list = true ∧ checkIfDefaultList list.title = false
  | .answered n => n < d.queries.length
  | .applied _ => False

instance (d : Device) : DecidablePred d.Can
  | .readPlaces => .isTrue trivial
  | .readLists => .isTrue trivial
  | .readIds => .isTrue trivial
  | .newList _ => .isTrue trivial
  | .done v => inferInstanceAs (Decidable (d.Opens v))
  | .editDone e => inferInstanceAs (Decidable (e.doneEnabled = true ∧ d.holdsList e.list = true ∧
      ∀ q ∈ e.places ++ e.selectedPlaces, d.holdsPlace q = true))
  | .swipe list place => inferInstanceAs (Decidable (d.holdsPlace place = true ∧
      (list.id = none ∨ d.holdsList list = true)))
  | .deleteList list => inferInstanceAs (Decidable (d.holdsList list = true ∧
      checkIfDefaultList list.title = false))
  | .answered n => inferInstanceAs (Decidable (n < d.queries.length))
  | .applied _ => .isFalse not_false

/-- The requests of an event. A swipe in "Recently Saved" asks for the lists first. -/
def issued (s : UserStore) (d : Device) : DeviceEvent → Issued
  | .newList title => addNewList title
  | .done v => v.tappedDoneBtn.getD .none
  | .editDone e => e.tappedDone
  | .swipe list place =>
    if list.id ≠ none then commitDelete s list place
    else if place.list = [] ∨ 10 < place.list.length then .trap
    else deletePlace place.dbId
  | .deleteList list => LocateMe.deleteList list.id
  | .answered n => (d.queries[n]?).elim .none (·.answer s)
  | _ => .none

/-- What the device has read, and the queries on their way, after an event. -/
def after (s : UserStore) (d : Device) : DeviceEvent → Device
  | .readPlaces => { d with records := d.records ++ s.history.documents }
  | .readLists =>
    { d with lists := d.lists ++ s.lists.documents.map fun (i, doc) => (i, doc.title) }
  | .readIds => { d with ids := d.ids ++ [getAllPlacesIds s] }
  | .editDone e =>
    -- `updateTitleInPlaces` changes the places themselves
    { d with records := d.records ++ e.places.filterMap fun place => place.dbId.map fun i =>
        (i, docOfPlace place (renameFirst e.list.title e.editedListTitle place.list) place.id) }
  | .swipe list place =>
    if list.id ≠ none ∨ place.list = [] ∨ 10 < place.list.length then d
    else { d with queries := d.queries ++ [.removePlaceFromAllList place.id place.list] }
  | .deleteList list => { d with queries := d.queries ++ [.removeListFromAllPlaces list.title] }
  | .answered n => { d with queries := d.queries.eraseIdx n }
  | _ => d

/-- Everything but the arrival of a request. After a trap nothing more is issued. -/
def act (s : UserStore) (d : Device) (e : DeviceEvent) : Option Device :=
  if d.Can e then some { d.after s e with pending := d.pending ++ (d.issued s e).writes }
  else none

end Device

/-- The devices and what the server stores for the account. -/
structure Devices (ι : Type) where
  store : UserStore
  device : ι → Device

/-- Nothing has been read. -/
def Devices.start {ι : Type} (s : UserStore) : Devices ι := ⟨s, fun _ => .initial⟩

/-- The row that the completion of `addNewList` makes. -/
def Write.newRow (s : UserStore) : Write → List (Nat × String)
  | .addList title => [(s.lists.next, title)]
  | _ => []

/-- One event of one device. Its requests arrive in any order. -/
def deviceStep {ι : Type} [DecidableEq ι] (σ : Devices ι) : ι × DeviceEvent → Option (Devices ι)
  | (c, .applied n) =>
    let d := σ.device c
    (d.pending[n]?).map fun w =>
      ⟨w.apply σ.store, Function.update σ.device c
        { d with pending := d.pending.eraseIdx n, lists := d.lists ++ w.newRow σ.store }⟩
  | (c, e) => ((σ.device c).act σ.store e).map fun d => ⟨σ.store, Function.update σ.device c d⟩

/-! ## 2. What an event can do -/

/-- The document without its lists: which place it is, with its id. -/
def HistoryDoc.bare (r : HistoryDoc) : HistoryDoc := { r with list := [] }

def Place.bare (place : Place) : HistoryDoc := docOfPlace place [] place.id

@[simp] theorem bare_docOfPlace (place : Place) (listTitle : List String) (id : Int) :
    (docOfPlace place listTitle id).bare = docOfPlace place [] id := rfl

@[simp] theorem bare_removeTitles (titles : List String) (r : HistoryDoc) :
    (r.removeTitles titles).bare = r.bare := rfl

/-- The device has read the record `i` as one of this place. -/
def Device.Has (d : Device) (i : Nat) (b : HistoryDoc) : Prop :=
  ∃ r, (i, r) ∈ d.records ∧ r.bare = b

/-- A request about a record is about one that the device has read, or that the answer
of its query contains. -/
def Device.Knows (s : UserStore) (d : Device) : Write → Prop
  | .setHistory i doc => d.Has i doc.bare
  | .removeTitles i _ => (∃ b, d.Has i b) ∨ s.history.get i ≠ none
  | .deleteHistory i => (∃ b, d.Has i b) ∨ s.history.get i ≠ none
  | _ => True

namespace DeviceLemmas

theorem holdsPlace_iff {d : Device} {q : Place} :
    d.holdsPlace q = true ↔ ∃ i, q.dbId = some i ∧ (i, docOfPlace q q.list q.id) ∈ d.records := by
  simp [Device.holdsPlace, Option.any_eq_true]

theorem holdsList_iff {d : Device} {l : PlaceList} :
    d.holdsList l = true ↔ ∃ i, l.id = some i ∧ (i, l.title) ∈ d.lists := by
  simp [Device.holdsList, Option.any_eq_true]

theorem has_of_holdsPlace {d : Device} {q : Place} (h : d.holdsPlace q = true) {i : Nat}
    (hi : q.dbId = some i) : d.Has i q.bare := by
  obtain ⟨j, hj, hr⟩ := holdsPlace_iff.mp h
  obtain rfl := Option.some.inj (hi.symm.trans hj)
  exact ⟨_, hr, rfl⟩

theorem knows_removeListOf {s : UserStore} {d : Device} {q : Place} (h : d.holdsPlace q = true)
    {title : String} {w : Write} (hw : w ∈ (removeListOf q.dbId q.list title).writes) :
    d.Knows s w := by
  obtain ⟨i, hi, rfl⟩ := mem_removeListOf hw
  have hknown : ∃ b, d.Has i b := ⟨_, has_of_holdsPlace h hi⟩
  rcases removal_cases i q.list title with heq | heq <;> rw [heq] <;> exact .inl hknown

/-- The requests of Done on the edit screen. -/
theorem mem_tappedDone {e : EditListController} {w : Write} (hw : w ∈ e.tappedDone.writes) :
    (∃ q ∈ e.selectedPlaces, w ∈ (removeListOf q.dbId q.list e.list.title).writes) ∨
      (∃ l, e.list.id = some l ∧ w = .removePlaces l (e.selectedPlaces.map Place.id)) ∨
      e.list.title ≠ e.editedListTitle ∧
        ((∃ l, e.list.id = some l ∧ w = .setTitle l e.editedListTitle) ∨
          ∃ q ∈ e.places, ∃ i, q.dbId = some i ∧ w = .setHistory i
            (docOfPlace q (renameFirst e.list.title e.editedListTitle q.list) q.id)) := by
  unfold EditListController.tappedDone at hw
  rcases Issued.mem_andThen hw with hw | hw
  · exact .inl (Issued.mem_forEach hw)
  · rcases Issued.mem_andThen hw with hw | hw
    · exact .inr (.inl (Issued.mem_write hw))
    · split at hw
      · next hne =>
        rcases Issued.mem_andThen hw with hw | hw
        · exact .inr (.inr ⟨hne, .inl (Issued.mem_write hw)⟩)
        · obtain ⟨q, hq, hw⟩ := Issued.mem_forEach hw
          exact .inr (.inr ⟨hne, .inr ⟨q, hq, Issued.mem_write hw⟩⟩)
      · cases hw

/-- The requests of a swipe in a list that is stored. -/
theorem mem_swipe {s : UserStore} {list : PlaceList} {place : Place} {l : Nat}
    (hid : list.id = some l) {w : Write} (hw : w ∈ (commitDelete s list place).writes) :
    w = .removePlaces l [place.id] ∨
      w ∈ (removeListOf place.dbId place.list list.title).writes := by
  unfold commitDelete at hw
  rw [hid] at hw
  rcases Issued.mem_andThen hw with hw | hw
  · obtain ⟨i, hi, rfl⟩ := Issued.mem_write hw
    obtain rfl := Option.some.inj hi
    exact .inl rfl
  · exact .inr hw

/-- The requests that follow an answer. -/
theorem mem_answer {s : UserStore} {q : FollowUp} {w : Write} (hw : w ∈ (q.answer s).writes) :
    (∃ title i r, q = .removeListFromAllPlaces title ∧ s.history.get i = some r ∧
        title ∈ r.list ∧ w = removal i r.list title) ∨
      ∃ k titles l t, q = .removePlaceFromAllList k titles ∧ Titled s l t ∧ t ∈ titles ∧
        w = .removePlaces l [k] := by
  cases q with
  | removeListFromAllPlaces title =>
    rw [FollowUp.answer, removeListFromAllPlaces_eq] at hw
    obtain ⟨⟨i, r⟩, hr, rfl⟩ := List.mem_map.mp hw
    obtain ⟨hget, htitle⟩ := mem_recordsListing.mp hr
    exact .inl ⟨title, i, r, rfl, hget, htitle, rfl⟩
  | removePlaceFromAllList k titles =>
    rw [FollowUp.answer, LocateMe.removePlaceFromAllList] at hw
    split at hw
    · cases hw
    · obtain ⟨l, hl, hw⟩ := Issued.mem_forEach hw
      obtain ⟨i, hi, rfl⟩ := Issued.mem_write hw
      obtain rfl := Option.some.inj hi
      obtain ⟨doc, hdoc, htitle⟩ := mem_listsTitled.mp hl
      exact .inr ⟨k, titles, l, doc.title, rfl, ⟨doc, hdoc, rfl⟩, htitle, rfl⟩

/-- The save screen of a saved place was opened with a copy of the device. -/
theorem held_of_opens {d : Device} {v : SavePlaceView} (h : d.Opens v)
    (hsaved : v.alreadySavedPlace = true) : d.holdsPlace v.currentPlace = true := by
  refine h.place.resolve_right fun hnew => ?_
  rw [h.saved, hnew.2] at hsaved
  cases hsaved

section

variable {s : UserStore} {d : Device} {w : Write}

theorem mem_issued_done {v : SavePlaceView} (hw : w ∈ (d.issued s (.done v)).writes) :
    ∃ issued, v.tappedDoneBtn = some issued ∧ w ∈ issued.writes := by
  cases hdone : v.tappedDoneBtn with
  | none =>
    simp only [Device.issued, hdone, Option.getD_none] at hw
    cases hw
  | some issued =>
    simp only [Device.issued, hdone, Option.getD_some] at hw
    exact ⟨issued, rfl, hw⟩

theorem mem_issued_swipe {list : PlaceList} {place : Place}
    (hw : w ∈ (d.issued s (.swipe list place)).writes) :
    (∃ l, list.id = some l ∧ (w = .removePlaces l [place.id] ∨
        w ∈ (removeListOf place.dbId place.list list.title).writes)) ∨
      list.id = none ∧ ∃ i, place.dbId = some i ∧ w = .deleteHistory i := by
  simp only [Device.issued] at hw
  cases hid : list.id with
  | some l =>
    rw [if_pos (by simp [hid])] at hw
    exact .inl ⟨l, rfl, mem_swipe hid hw⟩
  | none =>
    rw [if_neg (by simp [hid])] at hw
    split at hw
    · cases hw
    · exact .inr ⟨rfl, Issued.mem_write hw⟩

theorem mem_issued_answered {n : Nat} (hw : w ∈ (d.issued s (.answered n)).writes) :
    ∃ q, d.queries[n]? = some q ∧ w ∈ (q.answer s).writes := by
  cases hq : d.queries[n]? with
  | none =>
    simp only [Device.issued, hq, Option.elim_none] at hw
    cases hw
  | some q =>
    simp only [Device.issued, hq, Option.elim_some] at hw
    exact ⟨q, rfl, hw⟩

end

/-- A device issues requests about what it knows. -/
theorem knows_issued {s : UserStore} {d : Device} {e : DeviceEvent} (hcan : d.Can e) {w : Write}
    (hw : w ∈ (d.issued s e).writes) : d.Knows s w := by
  cases e with
  | readPlaces => cases hw
  | readLists => cases hw
  | readIds => cases hw
  | applied n => cases hw
  | newList title =>
    obtain rfl := List.mem_singleton.mp hw
    trivial
  | done v =>
    obtain ⟨issued, hdone, hw⟩ := mem_issued_done hw
    cases doneWrite_of_mem hdone hw with
    | unionPlaces l => trivial
    | addHistory unsaved titled => trivial
    | deleteHistory i saved stored =>
      exact .inl ⟨_, has_of_holdsPlace (held_of_opens hcan saved) stored⟩
    | setHistory i saved stored titled => exact has_of_holdsPlace (held_of_opens hcan saved) stored
    | removePlaces l saved => trivial
  | editDone e =>
    obtain ⟨-, -, hplaces⟩ := hcan
    rcases mem_tappedDone hw with ⟨q, hq, hw⟩ | ⟨l, -, rfl⟩ | ⟨-, ⟨l, -, rfl⟩ | ⟨q, hq, i, hi, rfl⟩⟩
    · exact knows_removeListOf (hplaces q (List.mem_append_right _ hq)) hw
    · trivial
    · trivial
    · exact has_of_holdsPlace (hplaces q (List.mem_append_left _ hq)) hi
  | swipe list place =>
    obtain ⟨hplace, -⟩ := hcan
    rcases mem_issued_swipe hw with ⟨l, -, rfl | hw⟩ | ⟨-, i, hi, rfl⟩
    · trivial
    · exact knows_removeListOf hplace hw
    · exact .inl ⟨_, has_of_holdsPlace hplace hi⟩
  | deleteList list =>
    obtain ⟨l, -, rfl⟩ := Issued.mem_write hw
    trivial
  | answered n =>
    obtain ⟨q, -, hw⟩ := mem_issued_answered hw
    rcases mem_answer hw with ⟨title, i, r, -, hr, -, rfl⟩ | ⟨k, titles, l, t, -, -, -, rfl⟩
    · have hstored : s.history.get i ≠ none := by simp [hr]
      rcases removal_cases i r.list title with heq | heq <;> rw [heq] <;> exact .inr hstored
    · trivial

/-- The copies after an event are those before it, up to their lists, and documents
of the store. -/
theorem records_after {s : UserStore} {d : Device} {e : DeviceEvent} (hcan : d.Can e) {i : Nat}
    {r : HistoryDoc} (h : (i, r) ∈ (d.after s e).records) :
    d.Has i r.bare ∨ s.history.get i = some r := by
  cases e with
  | readPlaces =>
    rcases List.mem_append.mp h with h | h
    · exact .inl ⟨r, h, rfl⟩
    · exact .inr (Collection.mem_documents.mp h)
  | editDone e =>
    rcases List.mem_append.mp h with h | h
    · exact .inl ⟨r, h, rfl⟩
    · obtain ⟨q, hq, hr⟩ := List.mem_filterMap.mp h
      obtain ⟨j, hj, hpair⟩ := Option.map_eq_some_iff.mp hr
      obtain ⟨rfl, rfl⟩ := Prod.mk.inj hpair
      exact .inl (has_of_holdsPlace (hcan.2.2 q (List.mem_append_left _ hq)) hj)
  | swipe list place =>
    simp only [Device.after] at h
    split at h
    · exact .inl ⟨r, h, rfl⟩
    · exact .inl ⟨r, h, rfl⟩
  | readLists => exact .inl ⟨r, h, rfl⟩
  | readIds => exact .inl ⟨r, h, rfl⟩
  | newList title => exact .inl ⟨r, h, rfl⟩
  | done v => exact .inl ⟨r, h, rfl⟩
  | deleteList list => exact .inl ⟨r, h, rfl⟩
  | answered n => exact .inl ⟨r, h, rfl⟩
  | applied n => exact .inl ⟨r, h, rfl⟩

theorem lists_after {s : UserStore} {d : Device} {e : DeviceEvent} {i : Nat} {t : String}
    (h : (i, t) ∈ (d.after s e).lists) : (i, t) ∈ d.lists ∨ Titled s i t := by
  cases e with
  | readLists =>
    rcases List.mem_append.mp h with h | h
    · exact .inl h
    · obtain ⟨⟨j, doc⟩, hdoc, hpair⟩ := List.mem_map.mp h
      obtain ⟨rfl, rfl⟩ := Prod.mk.inj hpair
      exact .inr ⟨doc, Collection.mem_documents.mp hdoc, rfl⟩
  | swipe list place =>
    simp only [Device.after] at h
    split at h
    · exact .inl h
    · exact .inl h
  | readPlaces => exact .inl h
  | readIds => exact .inl h
  | newList title => exact .inl h
  | done v => exact .inl h
  | editDone e => exact .inl h
  | deleteList list => exact .inl h
  | answered n => exact .inl h
  | applied n => exact .inl h

/-- The two kinds of steps. -/
theorem deviceStep_cases {ι : Type} [DecidableEq ι] {σ τ : Devices ι} {c : ι} {e : DeviceEvent}
    (h : deviceStep σ (c, e) = some τ) :
    (∃ n w, e = .applied n ∧ (σ.device c).pending[n]? = some w ∧ τ.store = w.apply σ.store ∧
        τ.device = Function.update σ.device c { σ.device c with
          pending := (σ.device c).pending.eraseIdx n
          lists := (σ.device c).lists ++ w.newRow σ.store }) ∨
      ((σ.device c).Can e ∧ τ.store = σ.store ∧
        τ.device = Function.update σ.device c { (σ.device c).after σ.store e with
          pending := (σ.device c).pending ++ ((σ.device c).issued σ.store e).writes }) := by
  have hact : ∀ {e}, ((σ.device c).act σ.store e).map
      (fun d => (⟨σ.store, Function.update σ.device c d⟩ : Devices ι)) = some τ →
      (σ.device c).Can e ∧ τ.store = σ.store ∧
        τ.device = Function.update σ.device c { (σ.device c).after σ.store e with
          pending := (σ.device c).pending ++ ((σ.device c).issued σ.store e).writes } := by
    intro e h
    obtain ⟨d, hd, rfl⟩ := Option.map_eq_some_iff.mp h
    obtain ⟨hcan, heq⟩ := Option.ite_none_right_eq_some.mp hd
    obtain rfl := Option.some.inj heq
    exact ⟨hcan, rfl, rfl⟩
  cases e with
  | applied n =>
    obtain ⟨w, hw, rfl⟩ := Option.map_eq_some_iff.mp h
    exact .inl ⟨n, w, rfl, hw, rfl, rfl⟩
  | readPlaces => exact .inr (hact h)
  | readLists => exact .inr (hact h)
  | readIds => exact .inr (hact h)
  | newList title => exact .inr (hact h)
  | done v => exact .inr (hact h)
  | editDone e => exact .inr (hact h)
  | swipe list place => exact .inr (hact h)
  | deleteList list => exact .inr (hact h)
  | answered n => exact .inr (hact h)

section

variable {ι : Type} [DecidableEq ι] {σ τ : Devices ι} {c : ι} {e : DeviceEvent}

/-- A device after a step of one of them: it is another one, a request of its own was
stored, or it handled the event. -/
theorem device_cases (h : deviceStep σ (c, e) = some τ) (c' : ι) :
    τ.device c' = σ.device c' ∨
      (∃ n w, (σ.device c').pending[n]? = some w ∧ τ.store = w.apply σ.store ∧
        τ.device c' = { σ.device c' with
          pending := (σ.device c').pending.eraseIdx n
          lists := (σ.device c').lists ++ w.newRow σ.store }) ∨
      (c' = c ∧ (σ.device c).Can e ∧ τ.store = σ.store ∧
        τ.device c' = { (σ.device c).after σ.store e with
          pending := (σ.device c).pending ++ ((σ.device c).issued σ.store e).writes }) := by
  rcases eq_or_ne c' c with rfl | hc
  · right
    rcases deviceStep_cases h with ⟨n, w, -, hw, hstore, hdevice⟩ | ⟨hcan, hstore, hdevice⟩
    · exact .inl ⟨n, w, hw, hstore, by rw [hdevice, Function.update_self]⟩
    · exact .inr ⟨rfl, hcan, hstore, by rw [hdevice, Function.update_self]⟩
  · left
    rcases deviceStep_cases h with ⟨n, w, -, -, -, hdevice⟩ | ⟨-, -, hdevice⟩
    · rw [hdevice, Function.update_of_ne hc]
    · rw [hdevice, Function.update_of_ne hc]

theorem pending_step (h : deviceStep σ (c, e) = some τ) {c' : ι} {w : Write}
    (hw : w ∈ (τ.device c').pending) : w ∈ (σ.device c').pending ∨
      (σ.device c).Can e ∧ w ∈ ((σ.device c).issued σ.store e).writes := by
  rcases device_cases h c' with hsame | ⟨n, v, -, -, hstored⟩ | ⟨rfl, hcan, -, hafter⟩
  · rw [hsame] at hw
    exact .inl hw
  · rw [hstored] at hw
    exact .inl (List.mem_of_mem_eraseIdx hw)
  · rw [hafter] at hw
    exact (List.mem_append.mp hw).imp_right fun h => ⟨hcan, h⟩

theorem records_step (h : deviceStep σ (c, e) = some τ) {c' : ι} {i : Nat} {r : HistoryDoc}
    (hr : (i, r) ∈ (τ.device c').records) :
    (σ.device c').Has i r.bare ∨ σ.store.history.get i = some r := by
  rcases device_cases h c' with hsame | ⟨n, v, -, -, hstored⟩ | ⟨rfl, hcan, -, hafter⟩
  · rw [hsame] at hr
    exact .inl ⟨r, hr, rfl⟩
  · rw [hstored] at hr
    exact .inl ⟨r, hr, rfl⟩
  · rw [hafter] at hr
    exact records_after hcan hr

theorem lists_step (h : deviceStep σ (c, e) = some τ) {c' : ι} {i : Nat} {t : String}
    (ht : (i, t) ∈ (τ.device c').lists) :
    (i, t) ∈ (σ.device c').lists ∨ Titled τ.store i t := by
  rcases device_cases h c' with hsame | ⟨n, v, -, hstore, hstored⟩ | ⟨rfl, hcan, hstore, hafter⟩
  · rw [hsame] at ht
    exact .inl ht
  · rw [hstored] at ht
    rcases List.mem_append.mp ht with ht | ht
    · exact .inl ht
    · -- the only request that brings a row is that of a new list
      cases v with
      | addList title =>
        obtain ⟨rfl, rfl⟩ := Prod.mk.inj (List.mem_singleton.mp ht)
        rw [hstore]
        exact .inr (titled_addList.mpr (.inl ⟨rfl, rfl⟩))
      | _ => cases ht
  · rw [hafter] at ht
    rw [hstore]
    exact lists_after ht

/-- A step stores nothing, or what one request on its way says. -/
theorem store_step (h : deviceStep σ (c, e) = some τ) :
    τ.store = σ.store ∨ ∃ w ∈ (σ.device c).pending, τ.store = w.apply σ.store := by
  rcases deviceStep_cases h with ⟨n, w, -, hw, hstore, -⟩ | ⟨-, hstore, -⟩
  · exact .inr ⟨w, List.mem_of_getElem? hw, hstore⟩
  · exact .inl hstore

end

end DeviceLemmas

open DeviceLemmas

/-! ## 3. What is known of a record -/

/-- Some document of the record `i`, stored, read or on its way, is one of this
place. -/
inductive Devices.Shows {ι : Type} (σ : Devices ι) (i : Nat) : HistoryDoc → Prop
  | stored {r : HistoryDoc} (h : σ.store.history.get i = some r) : Shows σ i r.bare
  | read (c : ι) {b : HistoryDoc} (h : (σ.device c).Has i b) : Shows σ i b
  | sent (c : ι) {doc : HistoryDoc} (h : .setHistory i doc ∈ (σ.device c).pending) :
      Shows σ i doc.bare

/-- The record that a request changes. -/
def Write.record? : Write → Option Nat
  | .setHistory i _ => some i
  | .removeTitles i _ => some i
  | .deleteHistory i => some i
  | _ => none

/-- Whatever is known of a record is about one place, and the ids on their way are in
use already. -/
structure Devices.Sound {ι : Type} (σ : Devices ι) : Prop where
  agree : ∀ i b b', σ.Shows i b → σ.Shows i b' → b = b'
  known : ∀ i b, σ.Shows i b → i < σ.store.history.next
  sent : ∀ c i, ∀ w ∈ (σ.device c).pending, w.record? = some i → i < σ.store.history.next

namespace DeviceLemmas

variable {ι : Type} {σ τ : Devices ι}

theorem sound_start (s : UserStore) : (Devices.start s : Devices ι).Sound where
  agree i b b' h h' := by
    have hstored : ∀ b, (Devices.start s : Devices ι).Shows i b →
        ∃ r, s.history.get i = some r ∧ r.bare = b := by
      intro b h
      cases h with
      | stored h => exact ⟨_, h, rfl⟩
      | read c h =>
        obtain ⟨r, hr, -⟩ := h
        cases hr
      | sent c h => cases h
    obtain ⟨r, hr, rfl⟩ := hstored b h
    obtain ⟨r', hr', rfl⟩ := hstored b' h'
    rw [Option.some.inj (hr.symm.trans hr')]
  known i b h := by
    cases h with
    | stored h => exact Collection.lt_next h
    | read c h =>
      obtain ⟨r, hr, -⟩ := h
      cases hr
    | sent c h => cases h
  sent c i w hw := nomatch hw

/-- Nothing new is known of an old record. -/
theorem sound_of_shows (hσ : σ.Sound) (hnext : σ.store.history.next ≤ τ.store.history.next)
    (hshows : ∀ i b, τ.Shows i b → σ.Shows i b ∨ σ.store.history.next ≤ i ∧
      i < τ.store.history.next ∧ ∃ r, τ.store.history.get i = some r ∧ r.bare = b)
    (hsent : ∀ c i, ∀ w ∈ (τ.device c).pending, w.record? = some i → i < σ.store.history.next) :
    τ.Sound where
  agree i b b' h h' := by
    rcases hshows i b h with hold | ⟨hnew, -, r, hr, rfl⟩
    · rcases hshows i b' h' with hold' | ⟨hnew, -⟩
      · exact hσ.agree i b b' hold hold'
      · exact absurd (hσ.known i b hold) (Nat.not_lt.mpr hnew)
    · rcases hshows i b' h' with hold' | ⟨-, -, r', hr', rfl⟩
      · exact absurd (hσ.known i b' hold') (Nat.not_lt.mpr hnew)
      · rw [Option.some.inj (hr.symm.trans hr')]
  known i b h := by
    rcases hshows i b h with hold | ⟨-, hlt, -⟩
    · exact (hσ.known i b hold).trans_le hnext
    · exact hlt
  sent c i w hw hi := (hsent c i w hw hi).trans_le hnext

/-- A record after a request: an old one, up to its lists, or one that the request
brings. -/
theorem history_apply {s : UserStore} {w : Write} {i : Nat} {r : HistoryDoc}
    (h : (w.apply s).history.get i = some r) :
    (∃ r', s.history.get i = some r' ∧ r'.bare = r.bare) ∨ w = .setHistory i r ∨
      w = .addHistory r ∧ i = s.history.next := by
  cases w with
  | addList title => exact .inl ⟨r, h, rfl⟩
  | unionPlaces l ks => exact .inl ⟨r, h, rfl⟩
  | removePlaces l ks => exact .inl ⟨r, h, rfl⟩
  | setTitle l title => exact .inl ⟨r, h, rfl⟩
  | deleteList l => exact .inl ⟨r, h, rfl⟩
  | addHistory doc =>
    rcases Collection.get_add_eq_some.mp h with ⟨rfl, rfl⟩ | h
    · exact .inr (.inr ⟨rfl, rfl⟩)
    · exact .inl ⟨r, h, rfl⟩
  | setHistory j doc =>
    simp only [Write.apply, Collection.get_set] at h
    split at h
    · next hi =>
      obtain rfl := Option.some.inj h
      exact .inr (.inl (by rw [hi]))
    · exact .inl ⟨r, h, rfl⟩
  | removeTitles j ts =>
    simp only [Write.apply, Collection.get_update] at h
    split at h
    · next hi =>
      obtain ⟨r', hr', rfl⟩ := Option.map_eq_some_iff.mp h
      exact .inl ⟨r', hi ▸ hr', rfl⟩
    · exact .inl ⟨r, h, rfl⟩
  | deleteHistory j =>
    simp only [Write.apply, Collection.get_delete] at h
    split at h
    · cases h
    · exact .inl ⟨r, h, rfl⟩

theorem next_apply (s : UserStore) (w : Write) : s.history.next ≤ (w.apply s).history.next := by
  cases w with
  | addHistory doc => exact le_max_left _ _
  | setHistory j doc => exact le_max_left _ _
  | removeTitles j ts => exact le_max_left _ _
  | deleteHistory j => exact le_max_left _ _
  | addList title => exact le_rfl
  | unionPlaces l ks => exact le_rfl
  | removePlaces l ks => exact le_rfl
  | setTitle l title => exact le_rfl
  | deleteList l => exact le_rfl

variable {c : ι} {e : DeviceEvent}

/-- A request that a device issues is about a record in use. -/
theorem lt_next_issued (hσ : σ.Sound) (hcan : (σ.device c).Can e) {w : Write}
    (hw : w ∈ ((σ.device c).issued σ.store e).writes) {i : Nat} (hi : w.record? = some i) :
    i < σ.store.history.next := by
  have hstored : ∀ {i}, (∃ b, (σ.device c).Has i b) ∨ σ.store.history.get i ≠ none →
      i < σ.store.history.next := by
    rintro i (⟨b, hb⟩ | hstored)
    · exact hσ.known _ _ (.read c hb)
    · obtain ⟨r, hr⟩ := Option.ne_none_iff_exists'.mp hstored
      exact Collection.lt_next hr
  have hknown := knows_issued hcan hw
  cases w with
  | setHistory j doc =>
    obtain rfl := Option.some.inj hi
    exact hσ.known _ _ (.read c hknown)
  | removeTitles j ts =>
    obtain rfl := Option.some.inj hi
    exact hstored hknown
  | deleteHistory j =>
    obtain rfl := Option.some.inj hi
    exact hstored hknown
  | _ => cases hi

variable [DecidableEq ι]

/-- What is known of a record after a step was known before, or it is a new record. -/
theorem shows_step (hstep : deviceStep σ (c, e) = some τ) {i : Nat} {b : HistoryDoc}
    (h : τ.Shows i b) : σ.Shows i b ∨ σ.store.history.next ≤ i ∧ i < τ.store.history.next ∧
      ∃ r, τ.store.history.get i = some r ∧ r.bare = b := by
  cases h with
  | @stored r h =>
    rcases store_step hstep with hsame | ⟨w, hw, hstore⟩
    · exact .inl (.stored (hsame ▸ h))
    · have hlt := Collection.lt_next h
      rw [hstore] at h
      rcases history_apply h with ⟨r', hr', hbare⟩ | rfl | ⟨-, rfl⟩
      · exact .inl (hbare ▸ .stored hr')
      · exact .inl (.sent c hw)
      · exact .inr ⟨le_rfl, hlt, r, hstore ▸ h, rfl⟩
  | read c' h =>
    obtain ⟨r, hr, rfl⟩ := h
    rcases records_step hstep hr with hold | hstored
    · exact .inl (.read c' hold)
    · exact .inl (.stored hstored)
  | sent c' h =>
    rcases pending_step hstep h with hold | ⟨hcan, hissued⟩
    · exact .inl (.sent c' hold)
    · exact .inl (.read c (knows_issued hcan hissued))

theorem sound_step (hσ : σ.Sound) (hstep : deviceStep σ (c, e) = some τ) : τ.Sound := by
  have hnext : σ.store.history.next ≤ τ.store.history.next := by
    rcases store_step hstep with hsame | ⟨w, -, hstore⟩
    · rw [hsame]
    · rw [hstore]
      exact next_apply σ.store w
  refine sound_of_shows hσ hnext (fun i b h => shows_step hstep h) fun c' i w hw hi => ?_
  rcases pending_step hstep hw with hold | ⟨hcan, hissued⟩
  · exact hσ.sent c' i w hold hi
  · exact lt_next_issued hσ hcan hissued hi

end DeviceLemmas

/-! ## 4. A list that stays -/

/-- Nobody renames or deletes the list `y`. -/
def DeviceEvent.LeavesList (y : Nat) : DeviceEvent → Prop
  | .editDone e => e.list.id = some y → e.list.title = e.editedListTitle
  | .deleteList list => list.id ≠ some y
  | _ => True

/-- A request that neither renames nor deletes the list `y`. -/
def Write.LeavesList (y : Nat) : Write → Prop
  | .setTitle l _ => l ≠ y
  | .deleteList l => l ≠ y
  | _ => True

/-- Every copy of the list `y` has its title. -/
structure Devices.RowsCurrent {ι : Type} (y : Nat) (σ : Devices ι) : Prop where
  rows : ∀ c t, (y, t) ∈ (σ.device c).lists → Titled σ.store y t
  pending : ∀ c, ∀ w ∈ (σ.device c).pending, w.LeavesList y

namespace DeviceLemmas

variable {ι : Type} {σ τ : Devices ι} {y : Nat}

theorem rowsCurrent_start (s : UserStore) : (Devices.start s : Devices ι).RowsCurrent y :=
  ⟨fun _ _ h => (nomatch h), fun _ _ h => (nomatch h)⟩

theorem leavesList_removal (placeId : Nat) (list : List String) (title : String) :
    (removal placeId list title).LeavesList y := by
  rcases removal_cases placeId list title with heq | heq <;> rw [heq] <;> trivial

theorem leavesList_issued {s : UserStore} {d : Device} {e : DeviceEvent} (he : e.LeavesList y)
    {w : Write} (hw : w ∈ (d.issued s e).writes) : w.LeavesList y := by
  cases e with
  | readPlaces => cases hw
  | readLists => cases hw
  | readIds => cases hw
  | applied n => cases hw
  | newList title =>
    obtain rfl := List.mem_singleton.mp hw
    trivial
  | done v =>
    obtain ⟨issued, hdone, hw⟩ := mem_issued_done hw
    cases doneWrite_of_mem hdone hw <;> trivial
  | editDone e =>
    rcases mem_tappedDone hw with ⟨q, -, hw⟩ | ⟨l, -, rfl⟩ | ⟨hne, ⟨l, hl, rfl⟩ | ⟨q, -, i, -, rfl⟩⟩
    · obtain ⟨i, -, rfl⟩ := mem_removeListOf hw
      exact leavesList_removal i q.list e.list.title
    · trivial
    · exact fun hy => hne (he (hy ▸ hl))
    · trivial
  | swipe list place =>
    rcases mem_issued_swipe hw with ⟨l, -, rfl | hw⟩ | ⟨-, i, -, rfl⟩
    · trivial
    · obtain ⟨i, -, rfl⟩ := mem_removeListOf hw
      exact leavesList_removal i place.list list.title
    · trivial
  | deleteList list =>
    obtain ⟨l, hl, rfl⟩ := Issued.mem_write hw
    exact fun hy => he (hy ▸ hl)
  | answered n =>
    obtain ⟨q, -, hw⟩ := mem_issued_answered hw
    rcases mem_answer hw with ⟨title, i, r, -, -, -, rfl⟩ | ⟨k, titles, l, t, -, -, -, rfl⟩
    · exact leavesList_removal i r.list title
    · trivial

theorem titled_leavesList {s : UserStore} {w : Write} (hw : w.LeavesList y) {t : String}
    (h : Titled s y t) : Titled (w.apply s) y t := by
  cases w with
  | addList title => exact titled_addList.mpr (.inr h)
  | unionPlaces l ks => exact titled_unionPlaces.mpr h
  | removePlaces l ks => exact titled_removePlaces.mpr h
  | setTitle l title => exact titled_setTitle.mpr (by rw [if_neg (Ne.symm hw)]; exact h)
  | deleteList l => exact titled_deleteList.mpr ⟨Ne.symm hw, h⟩
  | addHistory doc => exact h
  | setHistory i doc => exact h
  | removeTitles i ts => exact h
  | deleteHistory i => exact h

variable [DecidableEq ι]

theorem rows_step {c : ι} {e : DeviceEvent} (hσ : σ.RowsCurrent y) (he : e.LeavesList y)
    (hstep : deviceStep σ (c, e) = some τ) : τ.RowsCurrent y := by
  have hkeeps : ∀ t, Titled σ.store y t → Titled τ.store y t := by
    intro t ht
    rcases store_step hstep with hsame | ⟨w, hw, hstore⟩
    · rwa [hsame]
    · rw [hstore]
      exact titled_leavesList (hσ.pending c w hw) ht
  refine ⟨fun c' t ht => ?_, fun c' w hw => ?_⟩
  · rcases lists_step hstep ht with hold | hnew
    · exact hkeeps t (hσ.rows c' t hold)
    · exact hnew
  · rcases pending_step hstep hw with hold | ⟨-, hissued⟩
    · exact hσ.pending c' w hold
    · exact leavesList_issued he hissued

end DeviceLemmas

end LocateMe
