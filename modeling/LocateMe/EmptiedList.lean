import LocateMe.EditedList

/-!
# Three ways to empty a list

The places of a list go when each is swiped out of the list screen, when they are
all deleted on the edit screen, or when the list itself is deleted. The first two
work on the places that the screen holds, the third one on what a query returns,
and each decides with its own code whether a record is trimmed or deleted.

Results:
1. `emptied_removals`, `emptied_swipes`: a batch of removals, and the swipes in any
   order, do the same to every document.
2. `three_ways_agree`: the three ways leave the same history and the same other
   lists.
-/

namespace LocateMe

open Documents StoreLemmas ScreenLemmas TidyLemmas EditLemmas

/-! ## 1. Swipes -/

/-- The list screen of one list, over the store. -/
structure ListDetail where
  store : UserStore
  places : List Place

/-- The place of a row is swiped out of the list. There is no next state after a
trap. -/
def swipeStep (list : PlaceList) (σ : ListDetail) (row : Nat) : Option ListDetail :=
  (σ.places[row]?).bind fun place =>
    let issued := commitDelete σ.store list place
    if issued.trapped then none
    else some ⟨applyAll σ.store issued.writes, σ.places.eraseIdx row⟩

/-- Rows that are swiped out of a table of `n` rows until it is empty. -/
def EmptyingRows : Nat → List Nat → Prop
  | 0, rows => rows = []
  | _ + 1, [] => False
  | n + 1, row :: rows => row ≤ n ∧ EmptyingRows n rows

instance decidableEmptyingRows : ∀ n rows, Decidable (EmptyingRows n rows)
  | 0, rows => inferInstanceAs (Decidable (rows = []))
  | _ + 1, [] => .isFalse id
  | n + 1, row :: rows =>
    have := decidableEmptyingRows n rows
    inferInstanceAs (Decidable (row ≤ n ∧ EmptyingRows n rows))

/-! ## 2. What emptying a list does -/

/-- From `s` to `t` the records have lost the title, the last one with the record, and
no list but `l` has changed. -/
structure Emptied (s t : UserStore) (l : Nat) (title : String) : Prop where
  history : ∀ j, t.history.get j =
    (s.history.get j).bind fun r => if title ∈ r.list then r.withoutTitle title else some r
  otherLists : ∀ i, i ≠ l → t.lists.get i = s.lists.get i

namespace EmptyLemmas

/-- The records of a list are trimmed one by one, in any order. -/
theorem emptied_of_records {s t : UserStore} {l : Nat} {title : String}
    {xs : List (Nat × HistoryDoc)} (hperm : xs.Perm (recordsListing s title))
    (hrecords : ∀ x ∈ xs, t.history.get x.1 = x.2.withoutTitle title)
    (hrest : ∀ j, j ∉ xs.map Prod.fst → t.history.get j = s.history.get j)
    (hlists : ∀ i, i ≠ l → t.lists.get i = s.lists.get i) : Emptied s t l title where
  history := by
    intro j
    cases hr : s.history.get j with
    | none =>
      rw [hrest j, hr]
      · rfl
      · intro hin
        obtain ⟨x, hx, rfl⟩ := List.mem_map.mp hin
        rw [(mem_recordsListing.mp (hperm.mem_iff.mp hx)).1] at hr
        cases hr
    | some r =>
      show t.history.get j = if title ∈ r.list then r.withoutTitle title else some r
      split
      · next hin =>
        exact hrecords (j, r) (hperm.mem_iff.mpr (mem_recordsListing.mpr ⟨hr, hin⟩))
      · next hnot =>
        rw [hrest j, hr]
        intro hin
        obtain ⟨⟨i, r'⟩, hx, rfl⟩ := List.mem_map.mp hin
        obtain ⟨hr', hin'⟩ := mem_recordsListing.mp (hperm.mem_iff.mp hx)
        exact hnot (Option.some.inj (hr'.symm.trans hr) ▸ hin')
  otherLists := hlists

/-- One batch of removals, and then one request for the list. -/
theorem emptied_removals {s : UserStore} {l : Nat} {title : String}
    {xs : List (Nat × HistoryDoc)} (hperm : xs.Perm (recordsListing s title)) {w : Write}
    (hw : ∀ u : UserStore, (w.apply u).history = u.history ∧
      ∀ i, i ≠ l → (w.apply u).lists.get i = u.lists.get i) :
    let t := applyAll s (xs.map (fun x => removal x.1 x.2.list title) ++ [w])
    Emptied s t l title ∧
      ∃ u : UserStore, u.lists = s.lists ∧ t = w.apply u := by
  have hkeys := (hperm.map Prod.fst).nodup_iff.mpr (nodup_recordsListing s title)
  have hget : ∀ x ∈ xs, s.history.get x.1 = some x.2 :=
    fun x hx => (mem_recordsListing.mp (hperm.mem_iff.mp hx)).1
  obtain ⟨hlists, hrecords, hrest⟩ := removals_get title hkeys hget
  let u := applyAll s (xs.map fun x => removal x.1 x.2.list title)
  obtain ⟨hhistory, hother⟩ := hw u
  rw [applyAll_append]
  refine ⟨emptied_of_records hperm (fun x hx => ?_) (fun j hj => ?_) fun i hi => ?_, u, hlists, rfl⟩
  · show (w.apply u).history.get x.1 = _
    rw [hhistory]
    exact hrecords x hx
  · show (w.apply u).history.get j = _
    rw [hhistory]
    exact hrest j hj
  · exact (hother i hi).trans (congrArg (Collection.get · i) hlists)

/-- A swipe of a record's place: two requests, one for the list and one for the record. -/
theorem swipe_record {list : PlaceList} {l : Nat} (hid : list.id = some l) (s : UserStore) (j : Nat)
    (r : HistoryDoc) :
    commitDelete s list (placeOfDoc j r) =
      .send [.removePlaces l [r.id], removal j r.list list.title] := by
  simp only [commitDelete, hid, placeOfDoc, removePlaceFromList, Issued.write_some,
    removeListOf_some]
  rfl

theorem swipeStep_record {list : PlaceList} {l : Nat} (hid : list.id = some l) (s : UserStore)
    {xs : List (Nat × HistoryDoc)} {row : Nat} {x : Nat × HistoryDoc} (hx : xs[row]? = some x) :
    swipeStep list ⟨s, placesOfRecords xs⟩ row =
      some ⟨applyAll s [.removePlaces l [x.2.id], removal x.1 x.2.list list.title],
        placesOfRecords (xs.eraseIdx row)⟩ := by
  have hplace : (placesOfRecords xs)[row]? = some (placeOfDoc x.1 x.2) := by
    rw [placesOfRecords, List.getElem?_map, hx]
    rfl
  have herase : (placesOfRecords xs).eraseIdx row = placesOfRecords (xs.eraseIdx row) :=
    List.eraseIdx_map _ _ _
  simp only [swipeStep, hplace, Option.bind_some, swipe_record hid, herase]
  rfl

/-- What the two requests of a swipe do. -/
theorem swipe_get {s : UserStore} {l : Nat} {doc : ListDoc} (hdoc : s.lists.get l = some doc)
    {x : Nat × HistoryDoc} (hx : s.history.get x.1 = some x.2) (title : String) :
    let t := applyAll s [.removePlaces l [x.2.id], removal x.1 x.2.list title]
    t.history.get x.1 = x.2.withoutTitle title ∧
      (∀ j, j ≠ x.1 → t.history.get j = s.history.get j) ∧
      t.lists.get l = some (doc.removePlaces [x.2.id]) ∧
      ∀ i, i ≠ l → t.lists.get i = s.lists.get i := by
  let u := (Write.removePlaces l [x.2.id]).apply s
  have hkeys : ([x].map Prod.fst).Nodup := List.nodup_singleton x.1
  have hget : ∀ y ∈ [x], u.history.get y.1 = some y.2 :=
    fun y hy => by rwa [List.mem_singleton.mp hy]
  obtain ⟨hlists, hrecord, hrest⟩ := removals_get title hkeys hget
  refine ⟨hrecord x (List.mem_singleton_self x), fun j hj => ?_, ?_, fun i hi => ?_⟩
  · exact hrest j (by simpa using hj)
  · show (applyAll u [removal x.1 x.2.list title]).lists.get l = _
    refine (congrArg (Collection.get · l) hlists).trans ?_
    simp [u, Write.apply, hdoc]
  · refine (congrArg (Collection.get · i) hlists).trans ?_
    simp [u, Write.apply, hi]

/-- The swipes do not trap, whatever their order; each record in turn loses the title,
and the ids in the list run out. -/
theorem swipes_get {list : PlaceList} {l : Nat} (hid : list.id = some l) {rows : List Nat}
    {xs : List (Nat × HistoryDoc)} (hrows : EmptyingRows xs.length rows)
    (hkeys : (xs.map Prod.fst).Nodup) {s : UserStore}
    (hget : ∀ x ∈ xs, s.history.get x.1 = some x.2) {doc : ListDoc}
    (hdoc : s.lists.get l = some doc) (hids : ∀ k ∈ doc.places, ∃ x ∈ xs, x.2.id = k) :
    ∃ t, Machine.run (swipeStep list) ⟨s, placesOfRecords xs⟩ rows = some ⟨t, []⟩ ∧
      (∀ x ∈ xs, t.history.get x.1 = x.2.withoutTitle list.title) ∧
      (∀ j, j ∉ xs.map Prod.fst → t.history.get j = s.history.get j) ∧
      t.lists.get l = some ⟨doc.title, []⟩ ∧ ∀ i, i ≠ l → t.lists.get i = s.lists.get i := by
  induction rows generalizing xs s doc with
  | nil =>
    cases xs with
    | nil =>
      have hempty : doc.places = [] := by
        refine List.eq_nil_iff_forall_not_mem.mpr fun k hk => ?_
        obtain ⟨x, hx, -⟩ := hids k hk
        cases hx
      refine ⟨s, rfl, by simp, by simp, ?_, by simp⟩
      rw [hdoc, ← hempty]
    | cons x xs => exact hrows.elim
  | cons row rows ih =>
    cases xs with
    | nil => cases hrows
    | cons first rest =>
      obtain ⟨hrow, hrows'⟩ := hrows
      have hlt : row < (first :: rest).length := Nat.lt_succ_of_le hrow
      let x := (first :: rest)[row]
      let ys := (first :: rest).eraseIdx row
      have hperm : (x :: ys).Perm (first :: rest) := List.getElem_cons_eraseIdx_perm hlt
      have hin : ∀ y ∈ ys, y ∈ first :: rest := fun y hy => List.mem_of_mem_eraseIdx hy
      obtain ⟨hnew, hkeys'⟩ : x.1 ∉ ys.map Prod.fst ∧ (ys.map Prod.fst).Nodup := by
        rw [← List.nodup_cons, ← List.map_cons, (hperm.map Prod.fst).nodup_iff]
        exact hkeys
      have hne : ∀ y ∈ ys, y.1 ≠ x.1 := fun y hy heq => hnew (heq ▸ List.mem_map_of_mem hy)
      obtain ⟨hrecord, hrest, hlist, hlists⟩ :=
        swipe_get hdoc (hget x (List.getElem_mem hlt)) list.title
      -- the ids that are left are those of the other records
      have hids' : ∀ k ∈ (doc.removePlaces [x.2.id]).places, ∃ y ∈ ys, y.2.id = k := by
        intro k hk
        simp only [ListDoc.removePlaces, mem_arrayRemove, List.mem_singleton] at hk
        obtain ⟨y, hy, rfl⟩ := hids k hk.1
        rcases List.mem_cons.mp (hperm.mem_iff.mpr hy) with rfl | hother
        · exact absurd rfl hk.2
        · exact ⟨y, hother, rfl⟩
      have hlen : ys.length = rest.length := by
        rw [List.length_eraseIdx_of_lt hlt]
        rfl
      obtain ⟨t, hrun, hrecords, hrest', hlist', hlists'⟩ := ih (hlen ▸ hrows') hkeys'
        (fun y hy => (hrest y.1 (hne y hy)).trans (hget y (hin y hy))) hlist hids'
      refine ⟨t, ?_, fun y hy => ?_, fun j hj => ?_, hlist', fun i hi => ?_⟩
      · exact Machine.run_cons.mpr ⟨_, swipeStep_record hid s (List.getElem?_eq_getElem hlt), hrun⟩
      · rcases List.mem_cons.mp (hperm.mem_iff.mpr hy) with rfl | hother
        · exact (hrest' x.1 hnew).trans hrecord
        · exact hrecords y hother
      · have hj' : j ∉ (x :: ys).map Prod.fst := by rwa [(hperm.map Prod.fst).mem_iff]
        rw [List.map_cons, List.mem_cons, not_or] at hj'
        exact (hrest' j hj'.2).trans (hrest j hj'.1)
      · exact (hlists' i hi).trans (hlists i hi)

/-- The ways that send one batch: it empties the list, for a list request that takes
all ids or the list itself. -/
theorem emptied_batch {s : UserStore} {l : Nat} {title : String} {xs : List (Nat × HistoryDoc)}
    (hperm : xs.Perm (recordsListing s title)) (w : Write)
    (hw : w = .deleteList l ∨ ∃ ks, w = .removePlaces l ks) :
    let t := applyAll s (xs.map (fun x => removal x.1 x.2.list title) ++ [w])
    Emptied s t l title ∧ ∃ u : UserStore, u.lists = s.lists ∧ t = w.apply u := by
  refine emptied_removals hperm fun u => ?_
  rcases hw with rfl | ⟨ks, rfl⟩
  · exact ⟨rfl, fun i hi => by simp [Write.apply, hi]⟩
  · exact ⟨rfl, fun i hi => by simp [Write.apply, hi]⟩

/-- Every place is swiped out. -/
theorem emptied_swipes {s : UserStore} (hs : Consistent s) {l : Nat} {doc : ListDoc}
    (hdoc : s.lists.get l = some doc) {list : PlaceList} (hid : list.id = some l)
    (htitle : list.title = doc.title) {places : List Place} (hshown : ShowsList s doc places)
    {rows : List Nat} (hrows : EmptyingRows places.length rows) :
    ∃ t, Machine.run (swipeStep list) ⟨s, places⟩ rows = some ⟨t, []⟩ ∧
      Emptied s t l doc.title ∧ t.lists.get l = some ⟨doc.title, []⟩ := by
  obtain ⟨xs, rfl, hperm⟩ := records_of_shown hs hdoc hshown
  have hrows' : EmptyingRows xs.length rows := by simpa using hrows
  have hkeys := (hperm.map Prod.fst).nodup_iff.mpr (nodup_recordsListing s doc.title)
  have hget : ∀ x ∈ xs, s.history.get x.1 = some x.2 :=
    fun x hx => (mem_recordsListing.mp (hperm.mem_iff.mp hx)).1
  obtain ⟨t, hrun, htrimmed, hrest, hempty, hlists⟩ := swipes_get hid hrows' hkeys hget hdoc
    fun k hk => (mem_places_iff hs hdoc hperm).mp hk
  rw [htitle] at htrimmed
  exact ⟨t, hrun, emptied_of_records hperm htrimmed hrest hlists, hempty⟩

/-- All places are deleted on the edit screen, and Done is tapped. -/
theorem emptied_done {s : UserStore} (hs : Consistent s) {l : Nat} {doc : ListDoc}
    (hdoc : s.lists.get l = some doc) {e : EditListController} (hid : e.list.id = some l)
    (htitle : e.list.title = doc.title) (hsame : e.editedListTitle = doc.title)
    (hnone : e.places = []) (hshown : ShowsList s doc e.selectedPlaces) :
    e.tappedDone.trapped = false ∧ Emptied s (applyAll s e.tappedDone.writes) l doc.title ∧
      (applyAll s e.tappedDone.writes).lists.get l = some ⟨doc.title, []⟩ := by
  obtain ⟨rs, hremoved, hperm⟩ := records_of_shown hs hdoc hshown
  have hkept : e.places = placesOfRecords [] := hnone
  have hdone : e.tappedDone = .send (rs.map (fun x => removal x.1 x.2.list doc.title) ++
      [.removePlaces l (rs.map (·.2.id))]) := by
    rw [tappedDone_records hid hkept hremoved, htitle, hsame, doneWrites, if_pos rfl,
      List.append_nil]
  obtain ⟨hempty, u, hu, hwrites⟩ := emptied_batch hperm (.removePlaces l (rs.map (·.2.id)))
    (.inr ⟨_, rfl⟩)
  have hids : arrayRemove doc.places (rs.map (·.2.id)) = [] := by
    refine List.eq_nil_iff_forall_not_mem.mpr fun k hk => ?_
    obtain ⟨hin, hnot⟩ := mem_arrayRemove.mp hk
    obtain ⟨x, hx, hxk⟩ := (mem_places_iff hs hdoc hperm).mp hin
    exact hnot (List.mem_map.mpr ⟨x, hx, hxk⟩)
  rw [hdone]
  refine ⟨rfl, hempty, (congrArg (·.lists.get l) hwrites).trans ?_⟩
  simp [Write.apply, hu, hdoc, ListDoc.removePlaces, hids]

/-- The list is deleted. -/
theorem emptied_delete (s : UserStore) {l : Nat} {list : PlaceList} (hid : list.id = some l) :
    (SavedController.deleteAction s list).trapped = false ∧
      Emptied s (applyAll s (SavedController.deleteAction s list).writes) l list.title ∧
      (applyAll s (SavedController.deleteAction s list).writes).lists.get l = none := by
  rw [deleteAction_eq s hid]
  obtain ⟨hempty, u, -, hwrites⟩ := emptied_batch (List.Perm.refl (recordsListing s list.title))
    (.deleteList l) (.inl rfl)
  refine ⟨rfl, hempty, (congrArg (·.lists.get l) hwrites).trans ?_⟩
  simp [Write.apply]

/-- Two ways that empty the same list agree on everything else. -/
theorem emptied_agree {s t t' : UserStore} {l : Nat} {title : String} (ht : Emptied s t l title)
    (ht' : Emptied s t' l title) :
    (∀ j, t.history.get j = t'.history.get j) ∧
      ∀ i, i ≠ l → t.lists.get i = t'.lists.get i :=
  ⟨fun j => (ht.history j).trans (ht'.history j).symm,
    fun i hi => (ht.otherLists i hi).trans (ht'.otherLists i hi).symm⟩

end EmptyLemmas

open EmptyLemmas

/-! ## 3. The three ways -/

/-- From a consistent store, for a list and the places that its screens show: the
swipes in any order, Done after all places were deleted, and the delete action run to
their ends, leave the same history and the same other lists, and the list empty, empty
and gone. -/
theorem three_ways_agree {s : UserStore} (hs : Consistent s) {l : Nat} {doc : ListDoc}
    (hdoc : s.lists.get l = some doc) {list : PlaceList} (hid : list.id = some l)
    (htitle : list.title = doc.title) {shown edited : List Place} (hshown : ShowsList s doc shown)
    (hedited : ShowsList s doc edited) {rows : List Nat} (hrows : EmptyingRows shown.length rows)
    {taps : List Int} (htaps : (EditListController.edited list edited taps list.title).places = []) :
    let done := (EditListController.edited list edited taps list.title).tappedDone
    let delete := SavedController.deleteAction s list
    let b := applyAll s done.writes
    let c := applyAll s delete.writes
    ∃ a, Machine.run (swipeStep list) ⟨s, shown⟩ rows = some ⟨a, []⟩ ∧
      done.trapped = false ∧ delete.trapped = false ∧
      (∀ j, a.history.get j = b.history.get j ∧ b.history.get j = c.history.get j) ∧
      (∀ i, i ≠ l → a.lists.get i = b.lists.get i ∧ b.lists.get i = c.lists.get i) ∧
      a.lists.get l = some ⟨doc.title, []⟩ ∧ b.lists.get l = some ⟨doc.title, []⟩ ∧
      c.lists.get l = none := by
  let e := EditListController.edited list edited taps list.title
  have hlist : e.list = list := list_taps (.load list edited) taps
  -- the places that are not left are all of them
  have htaken : e.selectedPlaces.Perm edited := by
    have hall := perm_taps (.load list edited) taps
    rw [EditListController.load, List.append_nil] at hall
    have hsplit : (e.places ++ e.selectedPlaces).Perm edited := hall
    rwa [show e.places = [] from htaps, List.nil_append] at hsplit
  obtain ⟨a, hrun, ha, halist⟩ := emptied_swipes hs hdoc hid htitle hshown hrows
  have hidl : e.list.id = some l := by rw [hlist, hid]
  have htitlel : e.list.title = doc.title := by rw [hlist, htitle]
  obtain ⟨hdone, hb, hblist⟩ := emptied_done hs hdoc hidl htitlel htitle htaps
    (htaken.trans hedited)
  obtain ⟨hdelete, hc, hclist⟩ := emptied_delete s hid
  rw [htitle] at hc
  obtain ⟨hab, hab'⟩ := emptied_agree ha hb
  obtain ⟨hbc, hbc'⟩ := emptied_agree hb hc
  exact ⟨a, hrun, hdone, hdelete, fun j => ⟨hab j, hbc j⟩, fun i hi => ⟨hab' i hi, hbc' i hi⟩,
    halist, hblist, hclist⟩

/-- The list "A" of `exTidy`, emptied from the last row up. -/
theorem three_ways_agree_two_places :
    let list := listOfDoc 0 ⟨"A", [1, 2]⟩
    let done := (EditListController.edited list exPlaces [1, 2] "A").tappedDone
    let delete := SavedController.deleteAction exTidy list
    let b := applyAll exTidy done.writes
    let c := applyAll exTidy delete.writes
    ∃ a, Machine.run (swipeStep list) ⟨exTidy, exPlaces⟩ [1, 0] = some ⟨a, []⟩ ∧
      done.trapped = false ∧ delete.trapped = false ∧
      (∀ j, a.history.get j = b.history.get j ∧ b.history.get j = c.history.get j) ∧
      (∀ i, i ≠ 0 → a.lists.get i = b.lists.get i ∧ b.lists.get i = c.lists.get i) ∧
      a.lists.get 0 = some ⟨"A", []⟩ ∧ b.lists.get 0 = some ⟨"A", []⟩ ∧ c.lists.get 0 = none := by
  have hdoc : exTidy.lists.get 0 = some ⟨"A", [1, 2]⟩ := by decide +kernel
  have hs : Consistent exTidy := by decide +kernel
  have hshown : ShowsList exTidy ⟨"A", [1, 2]⟩ exPlaces := List.Perm.refl _
  have hlen : exPlaces.length = 2 := by decide +kernel
  have htaps : (EditListController.edited (listOfDoc 0 ⟨"A", [1, 2]⟩) exPlaces [1, 2] "A").places =
      [] := by decide +kernel
  exact three_ways_agree hs hdoc rfl rfl hshown hshown (hlen ▸ (by decide : EmptyingRows 2 [1, 0]))
    htaps

end LocateMe
