import LocateMe.PlaceDetail
import LocateMe.SaveVisit

/-!
# Saving one place and the records of the others

A search result is taken for a saved place when their addresses are equal, and an
address is what `formatAddress` makes of the parts of a placemark that are there.
From then on the save screen works on the record that was found, whose id stands
in the lists.

Results:
1. `shownPlace_iff`: the places that the detail screen of a result can show.
2. `untouched_visit`: what a visit to the save screen leaves alone.
3. `other_place_untouched_iff`: nothing done with a result touches a given record
   iff no saved record with the address of the result carries that record's id,
   and its id is not the one of a first place when Done does not wait for the ids.
-/

namespace LocateMe

open Documents StoreLemmas SaveLemmas VisitLemmas

/-! ## 1. What is left alone -/

/-- The record `j` is as before, and the lists that have the id `k` are the same. -/
structure Untouched (s t : UserStore) (j : Nat) (k : Int) : Prop where
  record : t.history.get j = s.history.get j
  lists : ∀ i, Listed t i k ↔ Listed s i k

/-- A request that is neither about the record `j` nor about the id `k`. -/
def Write.Avoids (j : Nat) (k : Int) : Write → Prop
  | .addList _ => True
  | .unionPlaces _ placeIds => k ∉ placeIds
  | .removePlaces _ placeIds => k ∉ placeIds
  | .setTitle _ _ => True
  | .deleteList _ => False
  | .addHistory _ => True
  | .setHistory placeId _ => placeId ≠ j
  | .removeTitles placeId _ => placeId ≠ j
  | .deleteHistory placeId => placeId ≠ j

/-- A request that takes ids out of the list `n`. -/
def Write.Drops (n : Nat) : Write → Prop
  | .removePlaces listId _ => listId = n
  | .deleteList listId => listId = n
  | _ => False

namespace VisitLemmas

theorem untouched_refl (s : UserStore) (j : Nat) (k : Int) : Untouched s s j k :=
  ⟨rfl, fun _ => Iff.rfl⟩

theorem untouched_trans {s t u : UserStore} {j : Nat} {k : Int} (h : Untouched s t j k)
    (h' : Untouched t u j k) : Untouched s u j k :=
  ⟨h'.record.trans h.record, fun i => (h'.lists i).trans (h.lists i)⟩

theorem untouched_apply {s : UserStore} {j : Nat} {r : HistoryDoc} {k : Int}
    (hr : s.history.get j = some r) {w : Write} (hw : w.Avoids j k) :
    Untouched s (w.apply s) j k := by
  cases w with
  | addList title => exact ⟨rfl, fun _ => listed_addList⟩
  | unionPlaces l ks =>
    refine ⟨rfl, fun i => listed_unionPlaces.trans (or_iff_left ?_)⟩
    exact fun h => hw h.2.1
  | removePlaces l ks =>
    refine ⟨rfl, fun i => listed_removePlaces.trans (and_iff_left ?_)⟩
    exact fun h => hw h.2
  | setTitle l title => exact ⟨rfl, fun _ => listed_setTitle⟩
  | deleteList l => exact hw.elim
  | addHistory doc => exact ⟨(Collection.get_add_of_some hr).trans hr.symm, fun _ => Iff.rfl⟩
  | setHistory i doc => exact ⟨by simp [Write.apply, Ne.symm hw], fun _ => Iff.rfl⟩
  | removeTitles i ts => exact ⟨by simp [Write.apply, Ne.symm hw], fun _ => Iff.rfl⟩
  | deleteHistory i => exact ⟨by simp [Write.apply, Ne.symm hw], fun _ => Iff.rfl⟩

theorem untouched_applyAll {s : UserStore} {j : Nat} {r : HistoryDoc} {k : Int}
    (hr : s.history.get j = some r) {ws : List Write} (hws : ∀ w ∈ ws, w.Avoids j k) :
    Untouched s (applyAll s ws) j k := by
  refine applyAll_invariant (I := fun t => Untouched s t j k) (fun w hw t ht => ?_)
    (untouched_refl s j k)
  have hrecord : t.history.get j = some r := ht.record.trans hr
  exact untouched_trans ht (untouched_apply hrecord (hws w hw))

/-- Only requests for a list take ids out of it. -/
theorem listed_applyAll {s : UserStore} {n : Nat} {k : Int} (h : Listed s n k) {ws : List Write}
    (hws : ∀ w ∈ ws, ¬ w.Drops n) : Listed (applyAll s ws) n k := by
  refine applyAll_invariant (I := fun t => Listed t n k) (fun w hmem t ht => ?_) h
  have hw := hws w hmem
  cases w with
  | addList title => exact listed_addList.mpr ht
  | unionPlaces l ks => exact listed_unionPlaces.mpr (.inl ht)
  | removePlaces l ks => exact listed_removePlaces.mpr ⟨ht, fun hn => hw hn.1.symm⟩
  | setTitle l title => exact listed_setTitle.mpr ht
  | deleteList l => exact listed_deleteList.mpr ⟨fun hn => hw hn.symm, ht⟩
  | addHistory doc => exact ht
  | setHistory i doc => exact ht
  | removeTitles i ts => exact ht
  | deleteHistory i => exact ht

end VisitLemmas

/-! ## 2. The detail screen -/

/-- The place that the detail screen of a search result shows when its query has
been answered; `none` when there is no such answer. -/
def shownPlace (s : UserStore) (result : Place) (reply : Reply) : Option Place :=
  (((PlaceDetailController.setUpView result).answered s reply).bind
    PlaceDetailController.completed).map PlaceDetailController.currentPlace

/-- The screen can show the result itself, after an error or when there is no
document, and any record with its address. -/
theorem shownPlace_iff {s : UserStore} {result : Place} (hnew : result.dbId = none)
    (place : Place) : (∃ reply, shownPlace s result reply = some place) ↔
      place = result ∨ place ∈ placesByAddress s result.address := by
  have hshown : ∀ reply, shownPlace s result reply = some ((getPlaceByAddress s result reply).elim
      result fun found => if found.dbId ≠ none then found else result) := by
    intro reply
    simp only [shownPlace, PlaceDetailController.setUpView, PlaceDetailController.answered, hnew,
      if_true, Option.bind_some, PlaceDetailController.completed]
    cases getPlaceByAddress s result reply <;> rfl
  have hstored : ∀ found ∈ placesByAddress s result.address, found.dbId ≠ none := by
    intro found hfound
    obtain ⟨j, r, -, -, rfl⟩ := mem_placesByAddress.mp hfound
    exact Option.some_ne_none j
  constructor
  · rintro ⟨reply, hreply⟩
    rw [hshown] at hreply
    have hplace := (Option.some.inj hreply).symm
    cases reply with
    | error =>
      simp only [getPlaceByAddress, Option.elim_some, ite_self] at hplace
      exact .inl hplace
    | documents answer =>
      cases hfound : getPlaceByAddress s result (.documents answer) with
      | none => exact .inl (by simpa only [hfound, Option.elim_none] using hplace)
      | some found =>
        have hin := List.mem_of_getElem? hfound
        rw [hfound, Option.elim_some, if_pos (hstored found hin)] at hplace
        exact .inr (hplace ▸ hin)
  · rintro (rfl | hin)
    · exact ⟨.error, by simp [hshown, getPlaceByAddress]⟩
    · obtain ⟨index, hlt, hindex⟩ := List.getElem_of_mem hin
      refine ⟨.documents index, ?_⟩
      have hfound : getPlaceByAddress s result (.documents index) = some place := by
        simp only [getPlaceByAddress, Nat.mod_eq_of_lt hlt]
        rw [List.getElem?_eq_getElem hlt, hindex]
      rw [hshown, hfound, Option.elim_some, if_pos (hstored place hin)]

/-! ## 3. A visit -/

/-- Done follows the reply of `getAllPlacesIds`. -/
def Visiting.IdsRead (σ : Visiting) (e : VisitEvent) : Prop :=
  e = .done → ∀ v ∈ σ.visit, v.idsQuery = .handled true

instance (σ : Visiting) (e : VisitEvent) : Decidable (σ.IdsRead e) :=
  inferInstanceAs (Decidable (e = .done → ∀ v ∈ σ.visit, v.idsQuery = .handled true))

/-- A place with a record does not carry the id `k`, nor is its record `j`. -/
def Place.Other (j : Nat) (k : Int) (place : Place) : Prop :=
  place.list ≠ [] → place.id ≠ k ∧ place.dbId ≠ some j

/-- How far a visit for a place has left the record `j` and the id `k` alone. -/
structure Visiting.Leaves (s : UserStore) (place : Place) (j : Nat) (k : Int) (σ : Visiting) :
    Prop where
  untouched : Untouched s σ.store j k
  visit : ∀ v, σ.visit = some v → v.Sound σ.store ∧ v.view.currentPlace = place

namespace VisitLemmas

theorem leaves_start (s : UserStore) (place : Place) (j : Nat) (k : Int) :
    Visiting.Leaves s place j k ⟨s, some (.viewWillAppear place)⟩ where
  untouched := untouched_refl s j k
  visit v hv := by
    obtain rfl := Option.some.inj hv
    exact ⟨sound_viewWillAppear s place, rfl⟩

/-- No request of Done is about another place. -/
theorem avoids_done {s : UserStore} {v : SaveVisit} (hv : v.Sound s) {j : Nat} {k : Int}
    (hj : IdAt s j k) (hother : v.view.currentPlace.Other j k)
    (hids : v.idsQuery = .handled true ∨ k ≠ 1) {w : Write} (hw : v.view.DoneWrite w) :
    w.Avoids j k := by
  have hid : k ≠ v.view.highestId := by
    by_cases hlist : v.view.currentPlace.list = []
    · have hnew : v.view.alreadySavedPlace = false := by simp [hv.saved, hlist]
      by_cases hread : v.idsQuery = .handled true
      · exact highestId_read hv hnew hread hj
      · rw [highestId_unread hv hnew hread]
        exact hids.resolve_left hread
    · have hsaved : v.view.alreadySavedPlace = true := by
        simpa [hv.saved, List.length_pos_iff] using hlist
      simpa [SavePlaceView.highestId, hsaved] using (hother hlist).1.symm
  have hsaved : v.view.alreadySavedPlace = true → v.view.currentPlace.id ≠ k ∧
      v.view.currentPlace.dbId ≠ some j := by
    intro h
    rw [hv.saved] at h
    exact hother (List.length_pos_iff.mp (by simpa using h))
  cases hw with
  | unionPlaces listId => simpa [Write.Avoids] using hid
  | addHistory unsaved titled => trivial
  | deleteHistory i saved stored => exact fun h => (hsaved saved).2 (h ▸ stored)
  | setHistory i saved stored titled => exact fun h => (hsaved saved).2 (h ▸ stored)
  | removePlaces listId saved => simpa [Write.Avoids] using (hsaved saved).1.symm

theorem leaves_step {s : UserStore} {place : Place} {j : Nat} {r : HistoryDoc}
    (hr : s.history.get j = some r) (hother : place.Other j r.id) {σ τ : Visiting} {e : VisitEvent}
    (hσ : σ.Leaves s place j r.id)
    (hids : e = .done → ∀ v ∈ σ.visit, v.idsQuery = .handled true ∨ r.id ≠ 1)
    (hstep : visitStep σ e = some τ) : τ.Leaves s place j r.id := by
  obtain ⟨v, hv, hstep⟩ := Option.bind_eq_some_iff.mp hstep
  obtain ⟨hsound, hplace⟩ := hσ.visit v hv
  obtain ⟨hvisit, hstore⟩ := sound_step hsound hstep
  have hget : σ.store.history.get j = some r := hσ.untouched.record.trans hr
  refine ⟨untouched_trans hσ.untouched ?_, fun w hw => ?_⟩
  · rcases hstore with hsame | ⟨title, hadded⟩ | ⟨he, -, issued, hdone, hwritten⟩
    · rw [hsame]
      exact untouched_refl _ _ _
    · rw [hadded]
      exact untouched_apply (w := .addList title) hget trivial
    · rw [hwritten]
      refine untouched_applyAll hget fun w hw => ?_
      exact avoids_done hsound ⟨r, hget, rfl⟩ (hplace ▸ hother) (hids he v hv)
        (doneWrite_of_mem hdone hw)
  · obtain ⟨hw', hcurrent⟩ := hvisit w hw
    exact ⟨hw', hcurrent.trans hplace⟩

end VisitLemmas

/-- A visit for another place leaves a record alone, when Done waits for the ids or
the record's id is not 1. -/
theorem untouched_visit {s : UserStore} {place : Place} {j : Nat} {r : HistoryDoc}
    (hr : s.history.get j = some r) (hother : place.Other j r.id) {es : List VisitEvent}
    {t : Visiting} (hrun : Machine.run visitStep ⟨s, some (.viewWillAppear place)⟩ es = some t)
    (hids : Machine.Meets visitStep Visiting.IdsRead ⟨s, some (.viewWillAppear place)⟩ es ∨
      r.id ≠ 1) : Untouched s t.store j r.id := by
  suffices hleaves : t.Leaves s place j r.id from hleaves.untouched
  rcases hids with hread | hid
  · exact Machine.run_invariant (fun _ _ _ hσ hids => leaves_step hr hother hσ
      fun he v hv => .inl (hids he v hv)) (leaves_start s place j r.id) hread hrun
  · exact Machine.run_invariant' (fun _ _ _ hσ => leaves_step hr hother hσ
      fun _ _ _ => .inr hid) (leaves_start s place j r.id) hrun

/-! ## 4. A visit that touches -/

/-- The events of a visit that makes a list and ticks its row. The two replies come
first, that of the ids only if `replied`. -/
def tickVisit (replied : Bool) (title : String) (row : Nat) : List VisitEvent :=
  (if replied then [.idsAnswered true, .idsHandled] else []) ++
    [.listsAnswered true, .listsHandled, .newList title, .row (.cellForRowAt row),
      .row (.didTapCheckBox row)]

/-- A visit with one row selected, that of the list `n`, whose title only it has. -/
structure SaveVisit.TicksNew (v : SaveVisit) (place : Place) (n : Nat) : Prop where
  currentPlace : v.view.currentPlace = place
  saved : v.view.alreadySavedPlace = decide (0 < place.list.length)
  ticked : ∃ row list, v.view.selectedLists = [row] ∧ v.view.lists[row]? = some list ∧
    list.id = some n ∧ list.title ∉ place.list ∧
      ∀ l ∈ v.view.lists, l.title ≠ list.title → l.id ≠ some n

namespace VisitLemmas

/-- Done then adds the place to that list, and takes it out of others only. -/
theorem done_ticksNew {v : SaveVisit} {place : Place} {n : Nat} (hv : v.TicksNew place n) :
    ∃ issued ws, v.view.tappedDoneBtn = some issued ∧
      issued.writes = .unionPlaces n [v.view.highestId] :: ws ∧ ∀ w ∈ ws, ¬ w.Drops n := by
  obtain ⟨rfl, -, row, list, hselected, hlist, hid, hnot, hothers⟩ := hv
  have hadd : Issued.forEach v.view.selectedLists v.view.addToList =
      .send [.unionPlaces n [v.view.highestId]] := by
    simp only [hselected, Issued.forEach_cons, Issued.forEach_nil, SavePlaceView.addToList, hlist,
      List.contains_iff_mem, hnot, if_false, addNewPlaceToList, hid, Issued.write_some]
    rfl
  have hne : ¬ (v.view.selectedLists.length = 0 ∧ v.view.alreadySavedPlace = false) := by
    simp [hselected]
  unfold SavePlaceView.tappedDoneBtn
  rw [if_neg hne, hadd]
  refine ⟨_, _, rfl, rfl, fun w hw => ?_⟩
  split at hw
  · rw [List.mem_singleton.mp hw]
    exact not_false
  · rcases Issued.mem_andThen hw with hw | hw
    · split at hw
      · obtain ⟨i, -, rfl⟩ := Issued.mem_write hw
        exact not_false
      · obtain ⟨i, -, rfl⟩ := Issued.mem_write hw
        exact not_false
    · obtain ⟨title, htitle, hw⟩ := Issued.mem_forEach hw
      obtain ⟨l, hl, rfl, i, hi, rfl⟩ := mem_removeFromList hw
      exact fun h => hothers l hl (fun heq => hnot (heq ▸ htitle)) (h ▸ hi)

/-- Up to Done such a visit makes the next list and selects its row. -/
theorem run_tickVisit (s : UserStore) (place : Place) (replied : Bool) {title : String}
    (hempty : title ≠ "") (hnot : title ∉ place.list) :
    ∃ row v, Machine.run visitStep ⟨s, some (.viewWillAppear place)⟩
        (tickVisit replied title row) = some ⟨(Write.addList title).apply s, some v⟩ ∧
      v.TicksNew place s.lists.next ∧
      if replied then v.idsQuery = .handled true else v.view.ids = [] := by
  let old := sortedByTitle (if 0 < (getAllList s).length then getAllList s else [])
  let new : PlaceList :=
    ⟨title, some s.lists.next, (setNewListIcon title).1, (setNewListIcon title).2, [], 0⟩
  let lists := sortedByTitle (old ++ [new])
  obtain ⟨row, hlt, hrow⟩ := List.getElem_of_mem
    (mem_sortedByTitle.mpr (List.mem_append_right old (List.mem_singleton_self new)))
  have hrow? : lists[row]? = some new := by rw [List.getElem?_eq_getElem hlt, hrow]
  have hothers : ∀ l ∈ lists, l.title ≠ title → l.id ≠ some s.lists.next := by
    intro l hl hne hid
    rcases List.mem_append.mp (mem_sortedByTitle.mp hl) with hold | hnew
    · have hin : l ∈ getAllList s := by
        have hif := mem_sortedByTitle.mp hold
        split at hif
        · exact hif
        · cases hif
      -- an id of the store is older than the next one
      obtain ⟨i, d, hd, rfl⟩ := mem_getAllList.mp hin
      exact absurd (Option.some.inj hid) (Nat.ne_of_lt (Collection.lt_next hd))
    · rw [List.mem_singleton.mp hnew] at hne
      exact hne rfl
  have hticks : (decide (0 < place.list.length) && place.list.contains title) = false := by
    simp [hnot]
  have hrun : ∀ ids q, Machine.run visitStep
      ⟨s, some ⟨openSavePlaceView place [] ids, .sent, q⟩⟩
      [.listsAnswered true, .listsHandled, .newList title, .row (.cellForRowAt row),
        .row (.didTapCheckBox row)] = some ⟨(Write.addList title).apply s,
          some ⟨{ openSavePlaceView place lists ids with
            selectedLists := [row]
            boxes := Function.update (Function.update (fun _ => none) row (some false)) row
              (some true) }, .handled true, q⟩⟩ := by
    intro ids q
    have hcell : SavePlaceView.cellForRowAt (openSavePlaceView place lists ids) row =
        some { openSavePlaceView place lists ids with
          boxes := Function.update (fun _ => none) row (some false) } := by
      simp only [SavePlaceView.cellForRowAt, openSavePlaceView, hrow?, Option.map_some,
        SavePlaceView.ticks, new, hticks, Bool.false_eq_true, if_false]
    have hmade : Machine.run visitStep ⟨s, some ⟨openSavePlaceView place [] ids, .sent, q⟩⟩
        [.listsAnswered true, .listsHandled, .newList title] =
          some ⟨(Write.addList title).apply s,
            some ⟨openSavePlaceView place lists ids, .handled true, q⟩⟩ := by
      simp only [Machine.run, visitStep, SaveVisit.step, Fetch.answer, Option.bind_some,
        Option.map_some, hempty, if_false]
      rfl
    show Machine.run visitStep _ ([.listsAnswered true, .listsHandled, .newList title] ++
      [.row (.cellForRowAt row), .row (.didTapCheckBox row)]) = _
    rw [Machine.run_append, hmade]
    simp only [Option.bind_some, Machine.run, visitStep, SaveVisit.step, rowStep, hcell,
      Option.map_some, SavePlaceView.didTapCheckBox, Function.update_self]
    rfl
  cases replied with
  | true =>
    refine ⟨row, _, hrun (getAllPlacesIds s) (.handled true), ?_, rfl⟩
    exact ⟨rfl, rfl, row, new, rfl, hrow?, rfl, hnot, hothers⟩
  | false =>
    refine ⟨row, _, hrun [] .sent, ?_, rfl⟩
    exact ⟨rfl, rfl, row, new, rfl, hrow?, rfl, hnot, hothers⟩

/-- A visit for a place with a record, or one without the reply of the ids, can put
the id of the record or the first id into a list that did not have it. -/
theorem exists_touching (s : UserStore) (place : Place) (replied : Bool) {j : Nat} {k : Int}
    (hk : (place.list ≠ [] ∧ place.id = k) ∨ (place.list = [] ∧ replied = false ∧ k = 1)) :
    ∃ es t, Machine.run visitStep ⟨s, some (.viewWillAppear place)⟩ es = some t ∧
      t.visit = none ∧
      (replied = true →
        Machine.Meets visitStep Visiting.IdsRead ⟨s, some (.viewWillAppear place)⟩ es) ∧
      ¬ Untouched s t.store j k := by
  obtain ⟨title, hfresh⟩ := Infinite.exists_notMem_finset ("" :: place.list).toFinset
  obtain ⟨hempty, hnot⟩ : title ≠ "" ∧ title ∉ place.list := by simpa [not_or] using hfresh
  obtain ⟨row, v, hrun, hv, hreply⟩ := run_tickVisit s place replied hempty hnot
  obtain ⟨issued, ws, hdone, hwrites, hws⟩ := done_ticksNew hv
  have hid : v.view.highestId = k := by
    rcases hk with ⟨hlist, rfl⟩ | ⟨hlist, rfl, rfl⟩
    · simp [SavePlaceView.highestId, hv.saved, hv.currentPlace, List.length_pos_iff, hlist]
    · have hids : v.view.ids = [] := hreply
      simp [SavePlaceView.highestId, hv.saved, hlist, hids]
  refine ⟨tickVisit replied title row ++ [.done],
    ⟨applyAll ((Write.addList title).apply s) issued.writes, none⟩, ?_, rfl, fun hreplied => ?_,
    fun h => ?_⟩
  · rw [Machine.run_append, hrun]
    simp only [Option.bind_some, Machine.run, visitStep, SaveVisit.step, hdone]
  · refine Machine.meets_append.mpr ⟨Machine.meets_of_forall fun e he σ hdone => ?_, ?_⟩
    · subst hdone
      cases replied <;> simp [tickVisit] at he
    · intro u hu
      obtain rfl := Option.some.inj (hrun.symm.trans hu)
      refine Machine.meets_cons.mpr ⟨fun _ w hw => ?_, fun _ _ => trivial⟩
      obtain rfl := Option.some.inj hw
      simpa [hreplied] using hreply
  · -- the list `next` has the id now, and was not there before
    have hadded : Listed (applyAll ((Write.addList title).apply s) issued.writes)
        s.lists.next k := by
      rw [hwrites, applyAll_cons, hid]
      refine listed_applyAll (listed_unionPlaces.mpr (.inr ⟨rfl, by simp, title, ?_⟩)) hws
      exact titled_addList.mpr (.inl ⟨rfl, rfl⟩)
    obtain ⟨d, hd, -⟩ := (h.lists _).mp hadded
    rw [Collection.get_next] at hd
    cases hd

end VisitLemmas

/-! ## 5. Another place -/

/-- What the user does with a search result: its detail screen shows a place when the
query has been answered, and a visit to the save screen for that place runs to its
end. -/
structure ActsOn (s : UserStore) (result place : Place) (es : List VisitEvent) (t : Visiting) :
    Prop where
  shown : ∃ reply, shownPlace s result reply = some place
  run : Machine.run visitStep ⟨s, some (.viewWillAppear place)⟩ es = some t
  closed : t.visit = none

/-- Some saved record has this address and this id. -/
def AddressHasId (s : UserStore) (address : String) (k : Int) : Prop :=
  ∃ j r, s.history.get j = some r ∧ r.list ≠ [] ∧ r.address = address ∧ r.id = k

/-- When ids are unique this says that the record itself is saved with the address. -/
theorem addressHasId_iff {s : UserStore} (hs : IdsUnique s) {j : Nat} {r : HistoryDoc}
    (hr : s.history.get j = some r) (address : String) :
    AddressHasId s address r.id ↔ r.list ≠ [] ∧ r.address = address := by
  constructor
  · rintro ⟨i, x, hx, hlist, haddress, hid⟩
    obtain rfl := hs i x hx j r hr hid
    obtain rfl := Option.some.inj (hr.symm.trans hx)
    exact ⟨hlist, haddress⟩
  · rintro ⟨hlist, haddress⟩
    exact ⟨j, r, hr, hlist, haddress, rfl⟩

/-- For every store, record and search result: nothing done with the result touches
the record iff no saved record with the address of the result has the record's id,
and, where Done need not wait for the ids, that id is not 1. -/
theorem other_place_untouched_iff (dist : Coordinate → Coordinate → Rat) (searchText : String)
    (location : Option Coordinate) (item : MapItem) (s : UserStore) (j : Nat) (r : HistoryDoc)
    (hr : s.history.get j = some r) :
    ((∀ place es t, ActsOn s (createPlaceitems dist searchText location item) place es t →
        Machine.Meets visitStep Visiting.IdsRead ⟨s, some (.viewWillAppear place)⟩ es →
          Untouched s t.store j r.id) ↔
      ¬ AddressHasId s (formatAddress item.placemark) r.id) ∧
    ((∀ place es t, ActsOn s (createPlaceitems dist searchText location item) place es t →
        Untouched s t.store j r.id) ↔
      ¬ AddressHasId s (formatAddress item.placemark) r.id ∧ r.id ≠ 1) := by
  let result := createPlaceitems dist searchText location item
  have hother : ¬ AddressHasId s (formatAddress item.placemark) r.id → ∀ place,
      (∃ reply, shownPlace s result reply = some place) → place.Other j r.id := by
    intro hfree place hshown hlist
    rcases (shownPlace_iff rfl place).mp hshown with rfl | hin
    · exact absurd rfl hlist
    · obtain ⟨i, x, hx, haddress, rfl⟩ := mem_placesByAddress.mp hin
      refine ⟨fun hid => hfree ⟨i, x, hx, hlist, haddress, hid⟩, fun hj => ?_⟩
      obtain rfl : i = j := Option.some.inj hj
      obtain rfl := Option.some.inj (hr.symm.trans hx)
      exact hfree ⟨i, r, hr, hlist, haddress, rfl⟩
  have hshared : AddressHasId s (formatAddress item.placemark) r.id →
      ∃ place es t, ActsOn s result place es t ∧
        Machine.Meets visitStep Visiting.IdsRead ⟨s, some (.viewWillAppear place)⟩ es ∧
          ¬ Untouched s t.store j r.id := by
    rintro ⟨i, x, hx, hlist, haddress, hid⟩
    have hshown : ∃ reply, shownPlace s result reply = some (placeOfDoc i x) :=
      (shownPlace_iff rfl _).mpr (.inr (mem_placesByAddress.mpr ⟨i, x, hx, haddress, rfl⟩))
    obtain ⟨es, t, hrun, hclosed, hids, htouched⟩ :=
      exists_touching s (placeOfDoc i x) true (j := j) (.inl ⟨hlist, hid⟩)
    exact ⟨_, es, t, ⟨hshown, hrun, hclosed⟩, hids rfl, htouched⟩
  refine ⟨⟨fun h hin => ?_, fun hfree place es t ha hids => ?_⟩,
    ⟨fun h => ⟨fun hin => ?_, fun hone => ?_⟩, fun hfree place es t ha => ?_⟩⟩
  · obtain ⟨place, es, t, ha, hids, htouched⟩ := hshared hin
    exact htouched (h place es t ha hids)
  · exact untouched_visit hr (hother hfree place ha.shown) ha.run (.inl hids)
  · obtain ⟨place, es, t, ha, -, htouched⟩ := hshared hin
    exact htouched (h place es t ha)
  · -- the result itself is shown after an error, and done before the ids are there
    have hshown : ∃ reply, shownPlace s result reply = some result :=
      (shownPlace_iff rfl _).mpr (.inl rfl)
    obtain ⟨es, t, hrun, hclosed, -, htouched⟩ :=
      exists_touching s result false (j := j) (.inr ⟨rfl, rfl, hone⟩)
    exact htouched (h result es t ⟨hshown, hrun, hclosed⟩)
  · exact untouched_visit hr (hother hfree.1 place ha.shown) ha.run (.inr hfree.2)

/-- A store with the result "Cafe", whose placemark has no part of an address, in the
list "A". -/
def exNoAddress : UserStore :=
  applyAll .empty [.addList "A", .unionPlaces 0 [1], .addHistory (docOfPlace exResult ["A"] 1)]

theorem other_place_untouched_iff_bakery :
    exNoAddress.history.get 0 = some (docOfPlace exResult ["A"] 1) ∧
    ((∀ place es t, ActsOn exNoAddress
        (createPlaceitems (fun _ _ => 0) "Food" none (exItem "Bakery" ⟨1, 1⟩)) place es t →
        Machine.Meets visitStep Visiting.IdsRead ⟨exNoAddress, some (.viewWillAppear place)⟩ es →
          Untouched exNoAddress t.store 0 1) ↔
      ¬ AddressHasId exNoAddress (formatAddress (exItem "Bakery" ⟨1, 1⟩).placemark) 1) ∧
    ((∀ place es t, ActsOn exNoAddress
        (createPlaceitems (fun _ _ => 0) "Food" none (exItem "Bakery" ⟨1, 1⟩)) place es t →
        Untouched exNoAddress t.store 0 1) ↔
      ¬ AddressHasId exNoAddress (formatAddress (exItem "Bakery" ⟨1, 1⟩).placemark) 1 ∧
        (1 : Int) ≠ 1) :=
  ⟨rfl, other_place_untouched_iff (fun _ _ => 0) "Food" none (exItem "Bakery" ⟨1, 1⟩)
    exNoAddress 0 (docOfPlace exResult ["A"] 1) rfl⟩

/-- Both placemarks give the address of two blanks, so the bakery is taken for the
saved cafe, and Done without a selection deletes the cafe. -/
theorem blank_address_deletes_other :
    ¬ ∀ (s : UserStore) (saved item : MapItem) (j : Nat) (r : HistoryDoc),
      s.history.get j = some r → r.list ≠ [] →
      r.mapPlace = (createPlaceitems (fun _ _ => 0) "Food" none saved).mapPlace →
      (∀ i x, s.history.get i = some x →
        x.mapPlace ≠ (createPlaceitems (fun _ _ => 0) "Food" none item).mapPlace) →
      item.name ≠ saved.name →
      ∀ place es t, ActsOn s (createPlaceitems (fun _ _ => 0) "Food" none item) place es t →
        Untouched s t.store j r.id := by
  intro hall
  have hunsaved : ∀ i x, exNoAddress.history.get i = some x →
      x.mapPlace ≠ (createPlaceitems (fun _ _ => 0) "Food" none
        (exItem "Bakery" ⟨1, 1⟩)).mapPlace := by decide +kernel
  have huntouched := hall exNoAddress (exItem "Cafe" ⟨0, 0⟩) (exItem "Bakery" ⟨1, 1⟩) 0
    (docOfPlace exResult ["A"] 1) rfl (by decide) rfl hunsaved (by decide)
    (placeOfDoc 0 (docOfPlace exResult ["A"] 1))
    [.idsAnswered true, .idsHandled, .listsAnswered true, .listsHandled, .done] _
    ⟨⟨.documents 0, by decide +kernel⟩, rfl, rfl⟩
  exact absurd huntouched.record (by decide +kernel)

end LocateMe
