import LocateMe.Integrity
import LocateMe.SavePlaceView
import LocateMe.ListScreens
import LocateMe.MapItems

/-!
# Visits to the save screen

`SavePlaceView` sends its two queries when it appears and shows what it has until
they are answered. Done does not wait for them: the id of a new place is one more
than the highest id that the screen knows, which is none before the reply and
after an error.

Results:
1. `visit_load`: a screen whose replies come at once is the one of `load`.
2. `sound_visitStep`: after the reply a visit knows the id of every record.
3. `place_ids_unique_iff`: in a run of visits that add places the ids stay
   unique iff every Done that adds one follows the reply, or finds no record with
   the id 1.
-/

namespace LocateMe

open Documents StoreLemmas SaveLemmas

/-! ## 1. A visit -/

/-- A query, and its completion, which runs some time after the answer of the
server. The reply of an error is `none`; `read` says that there was an answer. -/
inductive Fetch (α : Type)
  | sent
  | answered (reply : Option α)
  | handled (read : Bool)
deriving DecidableEq

/-- The server answers, or the query fails. -/
def Fetch.answer {α : Type} (q : Fetch α) (ok : Bool) (answer : α) : Option (Fetch α) :=
  match q with
  | .sent => some (.answered (if ok then some answer else none))
  | _ => none

/-- The completion in `retrieveLists`, which renders every cell anew. -/
def SavePlaceView.retrieveLists (v : SavePlaceView) (allLists : List PlaceList) : SavePlaceView :=
  { v with
    lists := sortedByTitle (if 0 < allLists.length then allLists else v.lists)
    boxes := fun _ => none }

/-- The completion in `retrieveHistoryCount`. -/
def SavePlaceView.retrieveHistoryCount (v : SavePlaceView) (placeIds : List Int) : SavePlaceView :=
  { v with ids := placeIds }

/-- A save screen and its two queries. -/
structure SaveVisit where
  view : SavePlaceView
  listsQuery : Fetch (List PlaceList)
  idsQuery : Fetch (List Int)

/-- `viewWillAppear`, for a user who is signed in. -/
def SaveVisit.viewWillAppear (currentPlace : Place) : SaveVisit :=
  ⟨openSavePlaceView currentPlace [] [], .sent, .sent⟩

/-- What can happen on the screen. The flag of an answer is `false` for an error. -/
inductive VisitEvent
  | listsAnswered (ok : Bool)
  | listsHandled
  | idsAnswered (ok : Bool)
  | idsHandled
  | row (e : RowEvent)
  | newList (title : String)
  | done
  | back
deriving DecidableEq

/-- The store of the user and the save screen, when it is open. -/
structure Visiting where
  store : UserStore
  visit : Option SaveVisit

/-- A step of a visit, all of whose writes succeed. After a trap of Done the app
has to be started again, so the visit ends either way. -/
def SaveVisit.step (s : UserStore) (v : SaveVisit) : VisitEvent → Option Visiting
  | .listsAnswered ok =>
    (v.listsQuery.answer ok (getAllList s)).map fun q => ⟨s, some { v with listsQuery := q }⟩
  | .listsHandled =>
    match v.listsQuery with
    | .answered reply =>
      some ⟨s, some { v with
        view := v.view.retrieveLists (reply.getD [])
        listsQuery := .handled reply.isSome }⟩
    | _ => none
  | .idsAnswered ok =>
    (v.idsQuery.answer ok (getAllPlacesIds s)).map fun q => ⟨s, some { v with idsQuery := q }⟩
  | .idsHandled =>
    match v.idsQuery with
    | .answered reply =>
      some ⟨s, some { v with
        view := v.view.retrieveHistoryCount (reply.getD [])
        idsQuery := .handled reply.isSome }⟩
    | _ => none
  | .row e => (rowStep v.view e).map fun w => ⟨s, some { v with view := w }⟩
  | .newList title =>
    if title = "" then none
    else
      some ⟨applyAll s (addNewList title).writes,
        some { v with view := v.view.listAdded title s.lists.next }⟩
  | .done =>
    match v.view.tappedDoneBtn with
    | none => some ⟨s, some v⟩
    | some issued => some ⟨applyAll s issued.writes, none⟩
  | .back => some ⟨s, none⟩

def visitStep (σ : Visiting) (e : VisitEvent) : Option Visiting :=
  σ.visit.bind fun v => v.step σ.store e

/-- The other modules' save screen is this one with both replies handled at once. -/
theorem visit_load (s : UserStore) (place : Place) :
    (Machine.run visitStep ⟨s, some (.viewWillAppear place)⟩
        [.listsAnswered true, .listsHandled, .idsAnswered true, .idsHandled]).map Visiting.visit =
      some (some ⟨.load s place, .handled true, .handled true⟩) := by
  have hlists : (if 0 < (getAllList s).length then getAllList s else []) = getAllList s := by
    split
    · rfl
    · next h => exact (List.length_eq_zero_iff.mp (Nat.eq_zero_of_not_pos h)).symm
  simp only [Machine.run, visitStep, SaveVisit.viewWillAppear, SaveVisit.step, Fetch.answer,
    SavePlaceView.retrieveLists, SavePlaceView.retrieveHistoryCount, openSavePlaceView, if_true,
    Option.bind_some, Option.map_some, Option.getD_some, Option.isSome_some, hlists]
  rfl

/-! ## 2. What a visit knows -/

/-- The screen has the ids of all records after the reply, and none before it. -/
structure SaveVisit.Sound (s : UserStore) (v : SaveVisit) : Prop where
  saved : v.view.alreadySavedPlace = decide (0 < v.view.currentPlace.list.length)
  answered : ∀ ids, v.idsQuery = .answered (some ids) → ∀ j k, IdAt s j k → k ∈ ids
  read : v.idsQuery = .handled true → ∀ j k, IdAt s j k → k ∈ v.view.ids
  unread : v.idsQuery ≠ .handled true → v.view.ids = []

namespace VisitLemmas

theorem sound_viewWillAppear (s : UserStore) (place : Place) :
    (SaveVisit.viewWillAppear place).Sound s where
  saved := rfl
  answered ids h := by cases h
  read h := by cases h
  unread _ := rfl

/-- The store may lose records behind the screen. -/
theorem sound_of_idAt {s t : UserStore} {v : SaveVisit} (hv : v.Sound s)
    (hids : ∀ j k, IdAt t j k → IdAt s j k) : v.Sound t where
  saved := hv.saved
  answered ids h j k hj := hv.answered ids h j k (hids j k hj)
  read h j k hj := hv.read h j k (hids j k hj)
  unread := hv.unread

theorem answer_eq_some {α : Type} {q q' : Fetch α} {ok : Bool} {answer : α}
    (h : q.answer ok answer = some q') :
    q = .sent ∧ q' = .answered (if ok then some answer else none) := by
  cases q with
  | sent => exact ⟨rfl, (Option.some.inj h).symm⟩
  | answered reply => cases h
  | handled read => cases h

/-- A step keeps the place, changes the store by the writes of Done or a new list
only, and keeps what the visit knows. -/
theorem sound_step {s : UserStore} {v : SaveVisit} (hv : v.Sound s) {e : VisitEvent}
    {τ : Visiting} (hstep : v.step s e = some τ) :
    (∀ w, τ.visit = some w → w.Sound τ.store ∧ w.view.currentPlace = v.view.currentPlace) ∧
      (τ.store = s ∨ (∃ title, τ.store = (Write.addList title).apply s) ∨
        e = .done ∧ τ.visit = none ∧
          ∃ issued, v.view.tappedDoneBtn = some issued ∧ τ.store = applyAll s issued.writes) := by
  cases e with
  | listsAnswered ok =>
    obtain ⟨q, -, rfl⟩ := Option.map_eq_some_iff.mp hstep
    refine ⟨fun w hw => ?_, .inl rfl⟩
    obtain rfl := Option.some.inj hw
    exact ⟨⟨hv.saved, hv.answered, hv.read, hv.unread⟩, rfl⟩
  | listsHandled =>
    simp only [SaveVisit.step] at hstep
    split at hstep
    · obtain rfl := Option.some.inj hstep
      refine ⟨fun w hw => ?_, .inl rfl⟩
      obtain rfl := Option.some.inj hw
      exact ⟨⟨hv.saved, hv.answered, hv.read, hv.unread⟩, rfl⟩
    · cases hstep
  | idsAnswered ok =>
    obtain ⟨q, hq, rfl⟩ := Option.map_eq_some_iff.mp hstep
    obtain ⟨hsent, rfl⟩ := answer_eq_some hq
    refine ⟨fun w hw => ?_, .inl rfl⟩
    obtain rfl := Option.some.inj hw
    refine ⟨⟨hv.saved, fun ids hids j k hk => ?_, by simp, fun _ => hv.unread (by simp [hsent])⟩,
      rfl⟩
    -- the reply lists the id of every record
    have hreply : (if ok then some (getAllPlacesIds s) else none) = some ids := by simpa using hids
    obtain ⟨-, hids⟩ := Option.ite_none_right_eq_some.mp hreply
    obtain ⟨r, hr, rfl⟩ := hk
    exact Option.some.inj hids ▸ mem_getAllPlacesIds.mpr ⟨j, r, hr, rfl⟩
  | idsHandled =>
    simp only [SaveVisit.step] at hstep
    split at hstep
    · next reply hreply =>
      obtain rfl := Option.some.inj hstep
      refine ⟨fun w hw => ?_, .inl rfl⟩
      obtain rfl := Option.some.inj hw
      refine ⟨⟨hv.saved, by simp, fun hread j k hk => ?_, fun hunread => ?_⟩, rfl⟩
      · obtain ⟨ids, rfl⟩ := Option.isSome_iff_exists.mp (by simpa using hread)
        exact hv.answered ids hreply j k hk
      · cases reply with
        | none => rfl
        | some ids => exact absurd rfl hunread
    · cases hstep
  | row e =>
    obtain ⟨u, hu, rfl⟩ := Option.map_eq_some_iff.mp hstep
    obtain ⟨hplace, halready, -, hids⟩ := rowStep_frame hu
    refine ⟨fun w hw => ?_, .inl rfl⟩
    obtain rfl := Option.some.inj hw
    refine ⟨⟨?_, hv.answered, ?_, ?_⟩, hplace⟩
    · simpa only [halready, hplace] using hv.saved
    · simpa only [hids] using hv.read
    · simpa only [hids] using hv.unread
  | newList title =>
    obtain ⟨-, hadded⟩ := Option.ite_none_left_eq_some.mp hstep
    obtain rfl := Option.some.inj hadded
    refine ⟨fun w hw => ?_, .inr (.inl ⟨title, rfl⟩)⟩
    obtain rfl := Option.some.inj hw
    exact ⟨⟨hv.saved, hv.answered, hv.read, hv.unread⟩, rfl⟩
  | done =>
    simp only [SaveVisit.step] at hstep
    split at hstep
    · obtain rfl := Option.some.inj hstep
      refine ⟨fun w hw => ?_, .inl rfl⟩
      obtain rfl := Option.some.inj hw
      exact ⟨hv, rfl⟩
    · next issued hissued =>
      obtain rfl := Option.some.inj hstep
      exact ⟨fun w hw => (by cases hw), .inr (.inr ⟨rfl, rfl, issued, hissued, rfl⟩)⟩
  | back =>
    obtain rfl := Option.some.inj hstep
    exact ⟨fun w hw => (by cases hw), .inl rfl⟩

/-- A visit for a place that was there before, with the ids of all records, gives a
new place an id of its own. -/
theorem highestId_read {s : UserStore} {v : SaveVisit} (hv : v.Sound s)
    (hnew : v.view.alreadySavedPlace = false) (hread : v.idsQuery = .handled true) {j : Nat}
    {k : Int} (hk : IdAt s j k) : k ≠ v.view.highestId := by
  have hin := hv.read hread j k hk
  obtain ⟨m, hm⟩ := Option.isSome_iff_exists.mp (List.isSome_max?_of_mem hin)
  have hle : k ≤ m := (List.max?_le_iff hm).mp le_rfl k hin
  have heq : v.view.highestId = m + 1 := by simp [SavePlaceView.highestId, hnew, hm]
  omega

theorem highestId_unread {s : UserStore} {v : SaveVisit} (hv : v.Sound s)
    (hnew : v.view.alreadySavedPlace = false) (hunread : v.idsQuery ≠ .handled true) :
    v.view.highestId = 1 := by
  simp [SavePlaceView.highestId, hnew, hv.unread hunread]

end VisitLemmas

open VisitLemmas

/-! ## 3. Unique ids -/

/-- No two records carry the same id. -/
def IdsUnique (s : UserStore) : Prop := s.history.KeyUnique HistoryDoc.id

instance (s : UserStore) : Decidable (IdsUnique s) :=
  inferInstanceAs (Decidable (s.history.KeyUnique HistoryDoc.id))

/-- The two screens that look a place up by its id find one place: the filter of
`SavedController`, and `tappedDelete` of the edit screen. -/
structure IdentifiesPlaces (s : UserStore) : Prop where
  placesOf : ∀ (c : SavedController) (list : PlaceList), c.places.Perm (getAllPlaces s) →
    ∀ p ∈ c.placesOf list, (c.placesOf list).filter (·.id = p.id) = [p]
  tappedDelete : ∀ (list : PlaceList) (places : List Place), places ⊆ getAllPlaces s →
    ∀ p ∈ places, ((EditListController.load list places).tappedDelete p.id).selectedPlaces = [p]

/-- Done adds the place of the screen: a row is selected, and every selected row
has a list. -/
def SavePlaceView.AddsPlace (v : SavePlaceView) : Prop :=
  v.selectedLists ≠ [] ∧ ∀ row ∈ v.selectedLists, ∃ l ∈ v.lists[row]?, l.id ≠ none

instance (v : SavePlaceView) : Decidable v.AddsPlace :=
  inferInstanceAs (Decidable (v.selectedLists ≠ [] ∧
    ∀ row ∈ v.selectedLists, ∃ l ∈ v.lists[row]?, l.id ≠ none))

/-- One user's visits that add places, and between or behind them deletions of
records by any screen. -/
inductive AddEvent
  | tappedSave (place : Place)
  | visit (e : VisitEvent)
  | deletePlace (placeId : Nat)
deriving DecidableEq

def addingStep (σ : Visiting) : AddEvent → Option Visiting
  | .tappedSave place =>
    if σ.visit.isNone ∧ place.list = [] then some { σ with visit := some (.viewWillAppear place) }
    else none
  | .visit e => visitStep σ e
  | .deletePlace placeId =>
    some { σ with store := applyAll σ.store (deletePlace (some placeId)).writes }

/-- What Done needs when it adds the place: the reply of `getAllPlacesIds`, or that
no record has the first id. -/
def Visiting.FreshId (σ : Visiting) (e : AddEvent) : Prop :=
  e = .visit .done → ∀ v ∈ σ.visit, v.view.AddsPlace →
    v.idsQuery = .handled true ∨ ∀ j r, σ.store.history.get j = some r → r.id ≠ 1

instance (σ : Visiting) (e : AddEvent) : Decidable (σ.FreshId e) :=
  inferInstanceAs (Decidable (e = .visit .done → ∀ v ∈ σ.visit, v.view.AddsPlace →
    v.idsQuery = .handled true ∨ ∀ j r, σ.store.history.get j = some r → r.id ≠ 1))

/-- The open visit is sound and for a place in no list. -/
def Visiting.Adding (σ : Visiting) : Prop :=
  ∀ v, σ.visit = some v → v.Sound σ.store ∧ v.view.currentPlace.list = []

namespace VisitLemmas

/-- An id finds its place in an array that repeats no record. -/
theorem filter_id {s : UserStore} (hs : IdsUnique s) {places : List Place}
    (hsub : places ⊆ getAllPlaces s) (hnodup : places.Nodup) {p : Place} (hp : p ∈ places) :
    places.filter (·.id = p.id) = [p] := by
  have hsame : ∀ q ∈ places, q.id = p.id → q = p := by
    intro q hq hid
    obtain ⟨i, x, hx, rfl⟩ := mem_getAllPlaces.mp (hsub hq)
    obtain ⟨j, y, hy, rfl⟩ := mem_getAllPlaces.mp (hsub hp)
    obtain rfl := hs i x hx j y hy hid
    rw [Option.some.inj (hx.symm.trans hy)]
  have heq : places.filter (·.id = p.id) = places.filter (· = p) := by
    refine List.filter_congr fun q hq => ?_
    simp only [decide_eq_decide]
    exact ⟨hsame q hq, fun h => h ▸ rfl⟩
  rw [heq, List.filter_eq, List.count_eq_one_of_mem hnodup hp]
  rfl

theorem identifiesPlaces {s : UserStore} (hs : IdsUnique s) : IdentifiesPlaces s where
  placesOf c list hperm p hp := by
    have hnodup : c.places.Nodup :=
      hperm.nodup_iff.mpr (List.Nodup.of_map Place.dbId (nodup_getAllPlaces s))
    exact filter_id hs (fun q hq => hperm.subset (List.mem_of_mem_filter hq))
      (hnodup.filter _) hp
  tappedDelete list places hsub p hp := by
    have hsome : (places.findIdx? (·.id = p.id)).isSome := by
      rw [List.findIdx?_isSome, List.any_eq_true]
      exact ⟨p, hp, decide_eq_true rfl⟩
    obtain ⟨index, hindex⟩ := Option.isSome_iff_exists.mp hsome
    obtain ⟨hlt, hid, -⟩ := List.findIdx?_eq_some_iff_getElem.mp hindex
    obtain ⟨i, x, hx, hxp⟩ := mem_getAllPlaces.mp (hsub (List.getElem_mem hlt))
    obtain ⟨j, y, hy, rfl⟩ := mem_getAllPlaces.mp (hsub hp)
    have hid' : x.id = y.id := by
      simp only [hxp, decide_eq_true_eq] at hid
      exact hid
    obtain rfl := hs i x hx j y hy hid'
    obtain rfl := Option.some.inj (hx.symm.trans hy)
    simp [EditListController.tappedDelete, EditListController.load, hindex,
      List.getElem?_eq_getElem hlt, hxp]

/-- What Done does to the history for a place in no list: it adds the place unless
it shows the alert or traps in its first loop. -/
theorem history_done_new {s : UserStore} {v : SavePlaceView} (hnew : v.alreadySavedPlace = false)
    (hlist : v.currentPlace.list = []) {issued : Issued} (hdone : v.tappedDoneBtn = some issued) :
    (applyAll s issued.writes).history =
      if v.AddsPlace then s.history.add (docOfPlace v.currentPlace v.listTitles v.highestId)
      else s.history := by
  have hloop : (applyAll s (Issued.forEach v.selectedLists v.addToList).writes).history =
      s.history := by
    refine applyAll_history (fun w hw t => ?_) s
    obtain ⟨row, -, hw⟩ := Issued.mem_forEach hw
    obtain ⟨l, rfl⟩ := mem_addToList hw
    rfl
  have hround : ∀ row, (v.addToList row).trapped = false ↔ ∃ l ∈ v.lists[row]?, l.id ≠ none := by
    intro row
    unfold SavePlaceView.addToList
    cases hl : v.lists[row]? with
    | none => simp [Issued.trap]
    | some l => cases hid : l.id <;> simp [hlist, addNewPlaceToList, hid, Issued.write, Issued.trap]
  unfold SavePlaceView.tappedDoneBtn at hdone
  split at hdone
  · cases hdone
  · next hselected =>
    obtain rfl := Option.some.inj hdone
    have hadds : v.AddsPlace ↔
        (Issued.forEach v.selectedLists v.addToList).trapped = false := by
      rw [Issued.forEach_trapped]
      simp only [hround]
      exact and_iff_right fun hnil => hselected ⟨by simp [hnil], hnew⟩
    rcases Issued.andThen_cases (Issued.forEach v.selectedLists v.addToList)
      (addPlaceToHistory v.currentPlace v.listTitles v.highestId) with ⟨htrap, hw⟩ | ⟨hok, hw⟩
    · rw [hw, hloop, if_neg (by simp [hadds, htrap])]
    · rw [hw, applyAll_append, if_pos (hadds.mpr hok), ← hloop]
      rfl

theorem addsPlace_of_done {v : SavePlaceView} (h : v.tappedDoneBtn = none) : ¬ v.AddsPlace := by
  unfold SavePlaceView.tappedDoneBtn at h
  split at h
  · next hnone => exact fun hadds => hadds.1 (List.length_eq_zero_iff.mp hnone.1)
  · cases h

theorem adding_step {σ τ : Visiting} {e : AddEvent} (hσ : σ.Adding)
    (hstep : addingStep σ e = some τ) : τ.Adding := by
  cases e with
  | tappedSave place =>
    obtain ⟨⟨-, hlist⟩, hopened⟩ := Option.ite_none_right_eq_some.mp hstep
    obtain rfl := Option.some.inj hopened
    intro w hw
    obtain rfl := Option.some.inj hw
    exact ⟨sound_viewWillAppear _ _, hlist⟩
  | visit e =>
    obtain ⟨v, hv, hstep⟩ := Option.bind_eq_some_iff.mp hstep
    obtain ⟨hsound, hlist⟩ := hσ v hv
    intro w hw
    obtain ⟨hw', hplace⟩ := (sound_step hsound hstep).1 w hw
    exact ⟨hw', by rw [hplace, hlist]⟩
  | deletePlace placeId =>
    obtain rfl := Option.some.inj hstep
    intro w hw
    obtain ⟨hsound, hlist⟩ := hσ w hw
    exact ⟨sound_of_idAt hsound fun j k hk => (idAt_deleteHistory.mp hk).2, hlist⟩

/-- A step keeps the ids unique iff it meets the condition. -/
theorem idsUnique_step {σ τ : Visiting} {e : AddEvent} (hσ : σ.Adding) (hs : IdsUnique σ.store)
    (hstep : addingStep σ e = some τ) : IdsUnique τ.store ↔ σ.FreshId e := by
  have hother : e ≠ .visit .done → σ.FreshId e := fun hne he => absurd he hne
  cases e with
  | tappedSave place =>
    obtain ⟨-, hopened⟩ := Option.ite_none_right_eq_some.mp hstep
    obtain rfl := Option.some.inj hopened
    exact iff_of_true hs (hother (by simp))
  | deletePlace placeId =>
    obtain rfl := Option.some.inj hstep
    exact iff_of_true (Collection.keyUnique_delete hs placeId) (hother (by simp))
  | visit e =>
    obtain ⟨v, hv, hstep⟩ := Option.bind_eq_some_iff.mp hstep
    obtain ⟨hsound, hlist⟩ := hσ v hv
    have hnew : v.view.alreadySavedPlace = false := by simp [hsound.saved, hlist]
    by_cases he : e = .done
    · subst he
      have hfresh : σ.FreshId (.visit .done) ↔ (v.view.AddsPlace → v.idsQuery = .handled true ∨
          ∀ j r, σ.store.history.get j = some r → r.id ≠ 1) := by
        simp [Visiting.FreshId, hv]
      rw [hfresh]
      simp only [SaveVisit.step] at hstep
      split at hstep
      · next halert =>
        obtain rfl := Option.some.inj hstep
        exact iff_of_true hs fun hadds => absurd hadds (addsPlace_of_done halert)
      · next issued hissued =>
        obtain rfl := Option.some.inj hstep
        unfold IdsUnique
        rw [history_done_new hnew hlist hissued]
        split
        · next hadds =>
          rw [Collection.keyUnique_add_iff hs, imp_iff_right hadds, docOfPlace_id]
          by_cases hread : v.idsQuery = .handled true
          · refine iff_of_true (fun j r hr => ?_) (.inl hread)
            exact highestId_read hsound hnew hread ⟨r, hr, rfl⟩
          · rw [highestId_unread hsound hnew hread, or_iff_right hread]
        · next hadds => exact iff_of_true hs fun h => absurd h hadds
    · refine iff_of_true ?_ (hother (by simpa using he))
      rcases (sound_step hsound hstep).2 with hsame | ⟨title, hadded⟩ | ⟨hdone, -⟩
      · rwa [hsame]
      · rw [hadded]
        exact hs
      · exact absurd hdone he

end VisitLemmas

/-- In a run of visits that add places no two records ever carry the same id, and
the screens find one place for an id, iff every Done that adds a place follows the
reply of `getAllPlacesIds` or finds no record with the id 1. -/
theorem place_ids_unique_iff (s : UserStore) (hs : IdsUnique s) (es : List AddEvent)
    (t : Visiting) (hrun : Machine.run addingStep ⟨s, none⟩ es = some t) :
    (∀ fs u, fs <+: es → Machine.run addingStep ⟨s, none⟩ fs = some u →
        IdsUnique u.store ∧ IdentifiesPlaces u.store) ↔
      Machine.Meets addingStep Visiting.FreshId ⟨s, none⟩ es := by
  have hexact := Machine.run_exact_prefix (I := fun σ => IdsUnique σ.store)
    (fun _ _ _ => adding_step) (fun _ _ _ => idsUnique_step) (s := ⟨s, none⟩)
    (fun v hv => by cases hv) hs hrun
  rw [← hexact]
  constructor
  · exact fun h fs u hfs hu => (h fs u hfs hu).1
  · exact fun h fs u hfs hu => ⟨h fs u hfs hu, identifiesPlaces (h fs u hfs hu)⟩

/-- A search result. -/
def exResult : Place := createPlaceitems (fun _ _ => 0) "Food" none (exItem "Cafe" ⟨0, 0⟩)

/-- A visit that makes a list, ticks it, and is done with or without the reply. -/
def exVisit (replied : Bool) (title : String) : List AddEvent :=
  .tappedSave exResult :: (if replied then [.visit (.idsAnswered true), .visit .idsHandled] else []) ++
    [.visit (.newList title), .visit (.row (.cellForRowAt 0)), .visit (.row (.didTapCheckBox 0)),
      .visit .done]

theorem place_ids_unique_iff_replied :
    ∃ t, Machine.run addingStep ⟨.empty, none⟩ (exVisit true "A" ++ exVisit true "B") = some t ∧
      ((∀ fs u, fs <+: exVisit true "A" ++ exVisit true "B" →
          Machine.run addingStep ⟨.empty, none⟩ fs = some u →
            IdsUnique u.store ∧ IdentifiesPlaces u.store) ↔
        Machine.Meets addingStep Visiting.FreshId ⟨.empty, none⟩
          (exVisit true "A" ++ exVisit true "B")) :=
  ⟨_, rfl, place_ids_unique_iff .empty (by decide) (exVisit true "A" ++ exVisit true "B") _ rfl⟩

/-- Two visits that are done before the reply: both places get the id 1. -/
theorem unanswered_ids_collide :
    ¬ ∀ (es : List AddEvent) (t : Visiting),
      Machine.run addingStep ⟨.empty, none⟩ es = some t → IdsUnique t.store := by
  intro hall
  have hunique := hall (exVisit false "A" ++ exVisit false "B") _ rfl
  exact absurd hunique (by decide +kernel)

end LocateMe
