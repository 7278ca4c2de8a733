import LocateMe.Orphans

/-!
# Actions whose writes fail in part

No action groups its writes: each is a request of its own, and a failed one is
only printed. So the writes that succeed are any sublist of those issued.

Results:
1. `done_part_iff`: Done on the save screen keeps integrity iff all of its
   writes succeed or none does.
2. `deleteAction_part_iff`: the deletion of a list does iff the list itself is
   deleted or nothing is.
3. `tappedDone_part_iff`: Done on the edit screen does iff the writes that
   succeed agree.
4. `part_iff`: the three for a store with keys.
-/

namespace LocateMe

open Documents StoreLemmas SaveLemmas OrphanLemmas

/-! ## 1. Stores and screens -/

/-- The two sides agree, and every record lists a title. -/
def RefIntegrity (s : UserStore) : Prop := Integrity s ∧ NoOrphans s

instance (s : UserStore) : Decidable (RefIntegrity s) :=
  inferInstanceAs (Decidable (Integrity s ∧ NoOrphans s))

/-- Referential integrity in a store where titles and ids are keys, and every
record lists titles of lists, each once. -/
structure Keyed (s : UserStore) : Prop where
  consistent : Consistent s
  orphans : NoOrphans s
  known : ∀ j r, s.history.get j = some r → ∀ title ∈ r.list, ListTitle s title
  once : ∀ j r, s.history.get j = some r → r.list.Nodup

theorem keyed_iff {s : UserStore} :
    Keyed s ↔ Consistent s ∧ ∀ x ∈ s.history.documents,
      x.2.list ≠ [] ∧ (∀ title ∈ x.2.list, ListTitle s title) ∧ x.2.list.Nodup := by
  constructor
  · rintro ⟨hconsistent, horphans, hknown, honce⟩
    refine ⟨hconsistent, fun ⟨j, r⟩ hx => ?_⟩
    have hr := Collection.mem_documents.mp hx
    exact ⟨horphans j r hr, hknown j r hr, honce j r hr⟩
  · rintro ⟨hconsistent, hrecords⟩
    exact ⟨hconsistent, fun j r hr => (hrecords (j, r) (Collection.mem_documents.mpr hr)).1,
      fun j r hr => (hrecords (j, r) (Collection.mem_documents.mpr hr)).2.1,
      fun j r hr => (hrecords (j, r) (Collection.mem_documents.mpr hr)).2.2⟩

instance (s : UserStore) : Decidable (Keyed s) := decidable_of_iff _ keyed_iff.symm

/-- The save screen is up to date: fresh, with a new place or a record as it is
stored. -/
structure SaveCurrent (s : UserStore) (v : SavePlaceView) : Prop where
  fresh : SaveFresh s v
  place : v.currentPlace.list = [] ∨
    ∃ j r, s.history.get j = some r ∧ v.currentPlace = placeOfDoc j r

/-- The edit screen is up to date: its list is that of document `l`, its two
arrays hold the places of that list as they are stored, and a new title is new. -/
structure EditCurrent (s : UserStore) (e : EditListController) (l : Nat) (d : ListDoc) : Prop where
  stored : s.lists.get l = some d
  list : e.list = listOfDoc l d
  places : (e.places ++ e.selectedPlaces).Perm (getAllPlacesForList s d.title)
  title : e.list.title ≠ e.editedListTitle → ¬ ListTitle s e.editedListTitle

/-- Every screen that the app opens on a store, after any taps on its rows, is up
to date. -/
theorem saveCurrent_run {s : UserStore} {place : Place} {es : List RowEvent} {v : SavePlaceView}
    (hplace : place.list = [] ∨ ∃ j r, s.history.get j = some r ∧ place = placeOfDoc j r)
    (hrun : Machine.run rowStep (SavePlaceView.load s place) es = some v) : SaveCurrent s v := by
  have hstored : place.list ≠ [] → place.dbId ≠ none := by
    rcases hplace with hnil | ⟨j, r, -, rfl⟩
    · exact fun hne => absurd hnil hne
    · simp [placeOfDoc]
  have hfresh : SaveFresh s v := Machine.run_invariant' (fun _ _ _ hv hstep => saveFresh_row hv hstep)
    (saveFresh_load hstored) hrun
  have hsame : v.currentPlace = place := (run_frame hrun).1
  exact ⟨hfresh, hsame ▸ hplace⟩

/-- The edit screen for a list, opened from a saved screen that has just
appeared. -/
theorem editCurrent_load {s : UserStore} (hs : Consistent s) {l : Nat} {d : ListDoc}
    (hd : s.lists.get l = some d) :
    let c := SavedController.initial.retrieveHistory (getAllPlaces s)
    EditCurrent s (.load (listOfDoc l d) (c.placesOf (listOfDoc l d))) l d where
  stored := hd
  list := rfl
  places := by
    have hperm : (SavedController.initial.retrieveHistory (getAllPlaces s)).places.Perm
        (getAllPlaces s) := by
      rcases ScreenLemmas.places_retrieveHistory .initial (getAllPlaces s) with h | ⟨hnil, hsame⟩
      · exact h
      · rw [hsame, hnil]
        exact List.Perm.refl _
    rw [EditListController.load, List.append_nil]
    exact (hperm.filter _).trans (contents_agree hs hd)
  title := fun hne => absurd rfl hne

theorem editCurrent_tappedDelete {s : UserStore} {e : EditListController} {l : Nat} {d : ListDoc}
    (he : EditCurrent s e l d) (placeId : Int) : EditCurrent s (e.tappedDelete placeId) l d := by
  have hfields : (e.tappedDelete placeId).list = e.list ∧
      (e.tappedDelete placeId).editedListTitle = e.editedListTitle := by
    unfold EditListController.tappedDelete
    split <;> exact ⟨rfl, rfl⟩
  refine ⟨he.stored, hfields.1.trans he.list, ?_, ?_⟩
  · exact (ScreenLemmas.perm_tappedDelete e placeId).trans he.places
  · rw [hfields.1, hfields.2]
    exact he.title

/-! ## 2. Done on the save screen -/

namespace FailedLemmas

theorem sublist_newPart {v : SavePlaceView} {added : List Nat} {ws : List Write}
    (h : ws.Sublist (v.newPart added true)) :
    ∃ added' written, added'.Sublist added ∧ ws = v.newPart added' written := by
  obtain ⟨ws₁, ws₂, rfl, h₁, h₂⟩ := List.sublist_append_iff.mp h
  obtain ⟨added', hadded, rfl⟩ := List.sublist_map_iff.mp h₁
  rw [if_pos rfl] at h₂
  rcases List.sublist_singleton.mp h₂ with rfl | rfl
  · exact ⟨added', false, hadded, rfl⟩
  · exact ⟨added', true, hadded, rfl⟩

theorem sublist_savedPart {v : SavePlaceView} {j : Nat} {added removed : List Nat}
    {ws : List Write} (h : ws.Sublist (v.savedPart j added true removed)) :
    ∃ added' written removed', added'.Sublist added ∧ removed'.Sublist removed ∧
      ws = v.savedPart j added' written removed' := by
  obtain ⟨ws₁, ws₂, rfl, h₁, h₂⟩ := List.sublist_append_iff.mp h
  obtain ⟨ws₃, ws₄, rfl, h₃, h₄⟩ := List.sublist_append_iff.mp h₂
  obtain ⟨added', hadded, rfl⟩ := List.sublist_map_iff.mp h₁
  obtain ⟨removed', hremoved, rfl⟩ := List.sublist_map_iff.mp h₄
  rw [if_pos rfl] at h₃
  rcases List.sublist_singleton.mp h₃ with rfl | rfl
  · exact ⟨added', false, removed', hadded, hremoved, rfl⟩
  · exact ⟨added', true, removed', hadded, hremoved, rfl⟩

/-- All requests of a new place are among those of a part iff the part is
everything. -/
theorem newPart_subset {v : SavePlaceView} {added added' : List Nat} {written : Bool} :
    (∀ w ∈ v.newPart added true, w ∈ v.newPart added' written) ↔
      written = true ∧ ∀ i ∈ added, i ∈ added' := by
  cases written <;> simp [SavePlaceView.newPart, or_imp, forall_and]

theorem mem_added_titled {s : UserStore} {v : SavePlaceView} (hv : SaveFresh s v) {i : Nat}
    (hi : i ∈ v.added) : ∃ t, Titled s i t := by
  simp only [SavePlaceView.added, List.mem_filterMap, Option.bind_eq_some_iff,
    Option.ite_none_left_eq_some] at hi
  obtain ⟨row, -, l, hl, -, hid⟩ := hi
  obtain ⟨i', hid', htitled⟩ := hv.lists l (List.mem_of_getElem? hl)
  obtain rfl := Option.some.inj (hid.symm.trans hid')
  exact ⟨l.title, htitled⟩

theorem mem_removed_titled {s : UserStore} {v : SavePlaceView} (hv : SaveFresh s v) {i : Nat}
    (hi : i ∈ v.removed) : ∃ t, Titled s i t := by
  simp only [SavePlaceView.removed, List.mem_filterMap, Option.ite_none_left_eq_some,
    Option.bind_eq_some_iff] at hi
  obtain ⟨title, -, -, l, hl, hid⟩ := hi
  obtain ⟨i', hid', htitled⟩ := hv.lists l (List.mem_of_find?_eq_some hl)
  obtain rfl := Option.some.inj (hid.symm.trans hid')
  exact ⟨l.title, htitled⟩

/-- A new place: the lists and the record must all be written, or none. -/
theorem integrity_newPart {s : UserStore} (hs : Consistent s) {v : SavePlaceView}
    (hv : SaveFresh s v) (hnew : v.alreadySavedPlace = false) {added : List Nat}
    (hadded : ∀ i ∈ added, i ∈ v.added) {written : Bool} :
    Integrity (applyAll s (v.newPart added written)) ↔
      if written then ∀ i ∈ v.added, i ∈ added else added = [] := by
  have hempty := list_of_new hv hnew
  have hnone : ∀ t, ¬ Recorded s v.highestId t := fun t ht => by
    obtain ⟨j, hj⟩ := recorded_idAt ht
    exact highestId_fresh hv hnew j hj
  obtain ⟨htitled, hlisted, -, hrecorded⟩ := newPart_spec (s := s) v added written
  -- only the new id matters, and it is in no list before
  have hmember : ∀ i t k, Titled s i t → ((Listed (applyAll s (v.newPart added written)) i k ↔
      Recorded (applyAll s (v.newPart added written)) k t) ↔
        (k = v.highestId → (i ∈ added ↔ written = true ∧ t ∈ v.listTitles))) := by
    intro i t k hi
    have hex : ∃ u, Titled s i u := ⟨t, hi⟩
    have hin := hs.integrity i t k hi
    rw [hlisted, hrecorded]
    by_cases hk : k = v.highestId
    · subst hk
      have hout := hnone t
      have hnot : ¬ Listed s i v.highestId := fun h => hout (hin.mp h)
      simp [hex, hout, hnot]
    · simp [hk, hin]
  have hall : Integrity (applyAll s (v.newPart added written)) ↔
      ∀ i t, Titled s i t → (i ∈ added ↔ written = true ∧ t ∈ v.listTitles) := by
    constructor
    · exact fun h i t hi => (hmember i t v.highestId hi).mp (h i t _ ((htitled i t).mpr hi)) rfl
    · intro h i t k hi
      have hi' := (htitled i t).mp hi
      exact (hmember i t k hi').mpr fun _ => h i t hi'
  have hselected : ∀ i t, Titled s i t → (i ∈ v.added ↔ t ∈ v.listTitles) := by
    intro i t hi
    rw [mem_added hs hv hi, hempty]
    simp
  rw [hall]
  split
  · next hwritten =>
    constructor
    · intro h i hi
      obtain ⟨t, ht⟩ := mem_added_titled hv hi
      exact (h i t ht).mpr ⟨hwritten, (hselected i t ht).mp hi⟩
    · intro h i t hi
      rw [← hselected i t hi]
      exact ⟨fun hin => ⟨hwritten, hadded i hin⟩, fun hin => h i hin.2⟩
  · next hwritten =>
    constructor
    · intro h
      refine List.eq_nil_iff_forall_not_mem.mpr fun i hi => ?_
      obtain ⟨t, ht⟩ := mem_added_titled hv (hadded i hi)
      exact hwritten ((h i t ht).mp hi).1
    · rintro rfl i t -
      simp [hwritten]

theorem savedPart_subset {v : SavePlaceView} {j : Nat} {added added' removed removed' : List Nat}
    {written : Bool} :
    (∀ w ∈ v.savedPart j added true removed, w ∈ v.savedPart j added' written removed') ↔
      written = true ∧ (∀ i ∈ added, i ∈ added') ∧ ∀ i ∈ removed, i ∈ removed' := by
  have hunion : ∀ i, Write.unionPlaces i [v.currentPlace.id] ≠ v.recordWrite j := by
    intro i
    unfold SavePlaceView.recordWrite
    split <;> simp
  have hremove : ∀ i, Write.removePlaces i [v.currentPlace.id] ≠ v.recordWrite j := by
    intro i
    unfold SavePlaceView.recordWrite
    split <;> simp
  cases written with
  | false => simp [SavePlaceView.savedPart, or_imp, forall_and, hunion, hremove]
  | true => simp [SavePlaceView.savedPart, or_imp, forall_and, hunion, hremove]

/-- A saved place that is as its record: again all or none. -/
theorem integrity_savedPart {s : UserStore} (hs : Consistent s) {v : SavePlaceView}
    (hv : SaveFresh s v) {j : Nat} {r : HistoryDoc} (hr : s.history.get j = some r)
    (hplace : v.currentPlace = placeOfDoc j r) {added removed : List Nat}
    (hadded : ∀ i ∈ added, i ∈ v.added) (hremoved : ∀ i ∈ removed, i ∈ v.removed)
    {written : Bool} :
    Integrity (applyAll s (v.savedPart j added written removed)) ↔
      if written then (∀ i ∈ v.added, i ∈ added) ∧ ∀ i ∈ v.removed, i ∈ removed
      else added = [] ∧ removed = [] := by
  have hid : v.currentPlace.id = r.id := by rw [hplace]; rfl
  have hlist : v.currentPlace.list = r.list := by rw [hplace]; rfl
  have hsame : SameRecord s j v.currentPlace.id := by
    rw [hid]
    exact sameRecord_of_get hs hr
  have hcurrent : ∀ u, Recorded s v.currentPlace.id u ↔ u ∈ v.currentPlace.list := by
    intro u
    rw [hid, hlist]
    exact recorded_of_get hs hr
  obtain ⟨htitled, hlisted, -, hrecorded⟩ := savedPart_spec hsame added written removed
  have hmember : ∀ i t k, Titled s i t →
      ((Listed (applyAll s (v.savedPart j added written removed)) i k ↔
        Recorded (applyAll s (v.savedPart j added written removed)) k t) ↔
      (k = v.currentPlace.id → ((t ∈ v.currentPlace.list ∨ i ∈ added) ∧ i ∉ removed ↔
        if written then t ∈ v.listTitles else t ∈ v.currentPlace.list))) := by
    intro i t k hi
    have hex : ∃ u, Titled s i u := ⟨t, hi⟩
    have hin := hs.integrity i t k hi
    rw [hlisted, hrecorded]
    by_cases hk : k = v.currentPlace.id
    · subst hk
      simp [hex, hin, hcurrent]
    · simp [hk, hin]
  have hall : Integrity (applyAll s (v.savedPart j added written removed)) ↔
      ∀ i t, Titled s i t → ((t ∈ v.currentPlace.list ∨ i ∈ added) ∧ i ∉ removed ↔
        if written then t ∈ v.listTitles else t ∈ v.currentPlace.list) := by
    constructor
    · exact fun h i t hi => (hmember i t _ hi).mp (h i t _ ((htitled i t).mpr hi)) rfl
    · intro h i t k hi
      have hi' := (htitled i t).mp hi
      exact (hmember i t k hi').mpr fun _ => h i t hi'
  rw [hall]
  split
  · constructor
    · intro h
      refine ⟨fun i hi => ?_, fun i hi => ?_⟩
      · obtain ⟨t, ht⟩ := mem_added_titled hv hi
        obtain ⟨hselected, hnot⟩ := (mem_added hs hv ht).mp hi
        exact ((h i t ht).mpr hselected).1.resolve_left hnot
      · obtain ⟨t, ht⟩ := mem_removed_titled hv hi
        obtain ⟨hin, hdeselected⟩ := (mem_removed hs hv ht).mp hi
        by_contra hkept
        exact hdeselected ((h i t ht).mp ⟨.inl hin, hkept⟩)
    · rintro ⟨haddedAll, hremovedAll⟩ i t hi
      have hadd : i ∈ added ↔ t ∈ v.listTitles ∧ t ∉ v.currentPlace.list :=
        ⟨fun h => (mem_added hs hv hi).mp (hadded i h),
          fun h => haddedAll i ((mem_added hs hv hi).mpr h)⟩
      have hremove : i ∈ removed ↔ t ∈ v.currentPlace.list ∧ t ∉ v.listTitles :=
        ⟨fun h => (mem_removed hs hv hi).mp (hremoved i h),
          fun h => hremovedAll i ((mem_removed hs hv hi).mpr h)⟩
      rw [hadd, hremove]
      tauto
  · constructor
    · intro h
      refine ⟨List.eq_nil_iff_forall_not_mem.mpr fun i hi => ?_,
        List.eq_nil_iff_forall_not_mem.mpr fun i hi => ?_⟩
      · obtain ⟨t, ht⟩ := mem_added_titled hv (hadded i hi)
        have hadd := (mem_added hs hv ht).mp (hadded i hi)
        refine hadd.2 ((h i t ht).mp ⟨.inr hi, fun hrem => ?_⟩)
        exact hadd.2 ((mem_removed hs hv ht).mp (hremoved i hrem)).1
      · obtain ⟨t, ht⟩ := mem_removed_titled hv (hremoved i hi)
        have hrem := (mem_removed hs hv ht).mp (hremoved i hi)
        exact ((h i t ht).mpr hrem.1).2 hi
    · rintro ⟨rfl, rfl⟩ i t -
      simp

end FailedLemmas

open FailedLemmas

/-- Done on the save screen: integrity is kept iff no write fails or all do. -/
theorem done_part_iff {s : UserStore} (hs : Keyed s) {v : SavePlaceView} (hv : SaveCurrent s v)
    {issued : Issued} (hdone : v.tappedDoneBtn = some issued) {ws : List Write}
    (hsub : ws.Sublist issued.writes) :
    RefIntegrity (applyAll s ws) ↔ ws = [] ∨ ∀ w ∈ issued.writes, w ∈ ws := by
  have hnone : NoOrphans (applyAll s ws) := noOrphans_rewrites hs.orphans fun w hw =>
    rewrites_tappedDoneBtn hdone (hsub.mem hw)
  refine (and_iff_left hnone).trans ?_
  cases hsaved : v.alreadySavedPlace with
  | false =>
    obtain rfl := done_new hv.fresh hsaved hdone
    obtain ⟨added, written, hadded, rfl⟩ := sublist_newPart hsub
    rw [integrity_newPart hs.consistent hv.fresh hsaved (fun _ h => hadded.mem h)]
    refine Iff.trans ?_ (or_congr_right newPart_subset.symm)
    cases written with
    | false => simp [SavePlaceView.newPart]
    | true => simp [SavePlaceView.newPart]
  | true =>
    have hlist := list_of_saved hv.fresh hsaved
    obtain ⟨j, r, hr, hplace⟩ := hv.place.resolve_left hlist
    have hj : v.currentPlace.dbId = some j := by rw [hplace]; rfl
    have hknown : ∀ t ∈ v.currentPlace.list, t ∉ v.listTitles → ListTitle s t := by
      intro t ht _
      rw [hplace] at ht
      exact hs.known j r hr t ht
    obtain rfl := done_saved hs.consistent hv.fresh hsaved hj hknown hdone
    obtain ⟨added, written, removed, hadded, hremoved, rfl⟩ := sublist_savedPart hsub
    rw [integrity_savedPart hs.consistent hv.fresh hr hplace (fun _ h => hadded.mem h)
      fun _ h => hremoved.mem h]
    refine Iff.trans ?_ (or_congr_right savedPart_subset.symm)
    cases written with
    | false => simp [SavePlaceView.savedPart]
    | true => simp [SavePlaceView.savedPart]

/-! ## 3. The deletion of a list -/

namespace FailedLemmas

/-- A record that lists each title once has another title, unless it has only
one. -/
theorem spares_of_nodup {s : UserStore} (hs : Keyed s) {j : Nat} {r : HistoryDoc}
    (hr : s.history.get j = some r) (title : String) : Spares s (some j) r.list title := by
  rintro hlen r' hr'
  obtain rfl := Option.some.inj (hr.symm.trans hr')
  by_contra hnone
  have hall : ∀ u ∈ r.list, u = title := by
    intro u hu
    by_contra hne
    exact hnone ⟨u, hu, hne⟩
  have hnodup := hs.once j r hr
  rw [List.eq_replicate_of_mem hall, List.nodup_replicate] at hnodup
  have hpos := List.length_pos_iff.mpr (hs.orphans j r hr)
  omega

end FailedLemmas

/-- The deletion of a list: integrity is kept iff the list itself is deleted, or
nothing is. -/
theorem deleteAction_part_iff {s : UserStore} (hs : Keyed s) {l : Nat} {d : ListDoc}
    (hd : s.lists.get l = some d) {ws : List Write}
    (hsub : ws.Sublist (SavedController.deleteAction s (listOfDoc l d)).writes) :
    RefIntegrity (applyAll s ws) ↔ ws = [] ∨ .deleteList l ∈ ws := by
  have hl : Titled s l d.title := ⟨d, hd, rfl⟩
  have hsame := sameList_of_titled hs.consistent hl
  have hnone : NoOrphans (applyAll s ws) := by
    refine noOrphans_removals d.title hs.orphans fun w hw => ?_
    have hspares : ∀ x ∈ recordsListing s (listOfDoc l d).title,
        Spares s (some x.1) x.2.list (listOfDoc l d).title :=
      fun x hx => spares_of_nodup hs (mem_recordsListing.mp hx).1 _
    exact removes_deleteAction hspares (hsub.mem hw)
  refine (and_iff_left hnone).trans ?_
  have hid : (listOfDoc l d).id = some l := rfl
  rw [ScreenLemmas.deleteAction_eq s hid] at hsub
  have hsub : ws.Sublist ((recordsListing s d.title).map
      (fun x => removal x.1 x.2.list d.title) ++ [.deleteList l]) := hsub
  obtain ⟨ws₁, ws₂, rfl, h₁, h₂⟩ := List.sublist_append_iff.mp hsub
  obtain ⟨xs, hxs, rfl⟩ := List.sublist_map_iff.mp h₁
  have hquery : ∀ x ∈ xs, x ∈ recordsListing s d.title := fun x hx => hxs.mem hx
  obtain ⟨hlists, -, hrecorded⟩ := removals_spec hs.consistent hquery
  have hremoval : ∀ x : Nat × HistoryDoc, removal x.1 x.2.list d.title ≠ .deleteList l := by
    intro x
    unfold removal
    split <;> simp
  rcases List.sublist_singleton.mp h₂ with rfl | rfl
  · -- the list is still there, with all its ids
    rw [List.append_nil]
    simp only [List.map_eq_nil_iff, List.mem_map, hremoval, and_false, exists_false, or_false]
    constructor
    · intro h
      refine List.eq_nil_iff_forall_not_mem.mpr fun x hx => ?_
      obtain ⟨hr, hin⟩ := mem_recordsListing.mp (hquery x hx)
      have hrec : Recorded s x.2.id d.title := ⟨x.1, x.2, hr, rfl, hin⟩
      have hkept := (h l d.title x.2.id ((titled_congr hlists).mpr hl)).mp
        ((listed_congr hlists).mpr ((hs.consistent.integrity l _ _ hl).mpr hrec))
      exact ((hrecorded _ _ ⟨l, hl⟩).mp hkept).2 ⟨rfl, List.mem_map_of_mem hx⟩
    · intro hnil
      rw [hnil]
      exact hs.consistent.integrity
  · refine iff_of_true ?_ (.inr (List.mem_append_right _ (List.mem_singleton_self _)))
    exact (consistent_deleteList hs.consistent hsame hquery).integrity

/-! ## 4. Done on the edit screen -/

namespace EditListController

/-- The request that removes a place of the screen. -/
def removalOf (e : EditListController) (p : Place) : Write :=
  removal (p.dbId.getD 0) p.list e.list.title

/-- The request that renames the list in a place of the screen. -/
def renamingOf (e : EditListController) (p : Place) : Write :=
  .setHistory (p.dbId.getD 0)
    (docOfPlace p (renameFirst e.list.title e.editedListTitle p.list) p.id)

/-- The request that takes the ids of the removed places out of the list. -/
def clearing (e : EditListController) (l : Nat) : Write :=
  .removePlaces l (e.selectedPlaces.map Place.id)

/-- Part of the requests of Done. -/
def part (e : EditListController) (l : Nat) (removed : List Place) (cleared retitled : Bool)
    (renamed : List Place) : List Write :=
  removed.map e.removalOf ++ ((if cleared then [e.clearing l] else []) ++
    ((if retitled then [.setTitle l e.editedListTitle] else []) ++ renamed.map e.renamingOf))

/-- The writes agree: either the new title is written, to the list and to all its
places, and the removed places are out of the list; or it is written nowhere,
and each removed place loses the title iff the list loses the places. -/
def Agree (e : EditListController) (l : Nat) (ws : List Write) : Prop :=
  if .setTitle l e.editedListTitle ∈ ws then
    (e.selectedPlaces ≠ [] → e.clearing l ∈ ws) ∧ ∀ p ∈ e.places, e.renamingOf p ∈ ws
  else
    (∀ p ∈ e.places, e.renamingOf p ∉ ws) ∧
      ∀ p ∈ e.selectedPlaces, (e.removalOf p ∈ ws ↔ e.clearing l ∈ ws)

end EditListController

namespace FailedLemmas

section

variable {s : UserStore} {e : EditListController} {l : Nat} {d : ListDoc}

theorem current_place (he : EditCurrent s e l d) {p : Place}
    (hp : p ∈ e.places ++ e.selectedPlaces) :
    ∃ j r, s.history.get j = some r ∧ d.title ∈ r.list ∧ p = placeOfDoc j r :=
  mem_getAllPlacesForList.mp (he.places.mem_iff.mp hp)

theorem current_covers (he : EditCurrent s e l d) {k : Int} :
    Recorded s k d.title ↔ k ∈ (e.places ++ e.selectedPlaces).map Place.id := by
  rw [(he.places.map Place.id).mem_iff]
  simp only [Recorded, List.mem_map, mem_getAllPlacesForList]
  constructor
  · rintro ⟨j, r, hr, rfl, hin⟩
    exact ⟨placeOfDoc j r, ⟨j, r, hr, hin, rfl⟩, rfl⟩
  · rintro ⟨_, ⟨j, r, hr, hin, rfl⟩, rfl⟩
    exact ⟨j, r, hr, rfl, hin⟩

/-- The ids of the places on screen are distinct, as are their documents. -/
theorem current_nodup (hs : Consistent s) (he : EditCurrent s e l d) :
    ((e.places ++ e.selectedPlaces).map Place.id).Nodup := by
  rw [(he.places.map Place.id).nodup_iff, getAllPlacesForList, List.map_map]
  exact (Collection.nodup_keys (keyUnique_ids hs)).sublist (List.filter_sublist.map _)

/-- Two places on screen with one document are the same. -/
theorem current_inj (he : EditCurrent s e l d) {p q : Place} (hp : p ∈ e.places ++ e.selectedPlaces)
    (hq : q ∈ e.places ++ e.selectedPlaces) (heq : p.dbId.getD 0 = q.dbId.getD 0) : p = q := by
  obtain ⟨i, r, hr, -, rfl⟩ := current_place he hp
  obtain ⟨j, r', hr', -, rfl⟩ := current_place he hq
  obtain rfl : i = j := heq
  rw [Option.some.inj (hr.symm.trans hr')]

theorem removal_inj {i j : Nat} {xs ys : List String} {title : String}
    (h : removal i xs title = removal j ys title) : i = j := by
  unfold removal at h
  split at h <;> split at h <;> cases h <;> rfl

@[simp] theorem removalOf_ne_removePlaces (p : Place) (ks : List Int) :
    e.removalOf p ≠ .removePlaces l ks := by
  unfold EditListController.removalOf removal
  split <;> simp

@[simp] theorem removalOf_ne_setTitle (p : Place) (title : String) :
    e.removalOf p ≠ .setTitle l title := by
  unfold EditListController.removalOf removal
  split <;> simp

@[simp] theorem removalOf_ne_setHistory (p : Place) (j : Nat) (doc : HistoryDoc) :
    e.removalOf p ≠ .setHistory j doc := by
  unfold EditListController.removalOf removal
  split <;> simp

/-- A removal is in a part iff it is that of one of its places. -/
theorem mem_part_removal (he : EditCurrent s e l d) {removed renamed : List Place}
    (hremoved : ∀ p ∈ removed, p ∈ e.selectedPlaces) {cleared retitled : Bool} {p : Place}
    (hp : p ∈ e.selectedPlaces) :
    e.removalOf p ∈ e.part l removed cleared retitled renamed ↔ p ∈ removed := by
  have hmap : e.removalOf p ∈ removed.map e.removalOf ↔ p ∈ removed := by
    refine ⟨fun h => ?_, List.mem_map_of_mem⟩
    obtain ⟨q, hq, heq⟩ := List.mem_map.mp h
    rwa [current_inj he (List.mem_append_right _ hp) (List.mem_append_right _ (hremoved q hq))
      (removal_inj heq.symm)]
  rw [EditListController.part, List.mem_append, hmap]
  refine or_iff_left ?_
  have hrenamed : ∀ q, e.renamingOf q ≠ e.removalOf p := fun q => (removalOf_ne_setHistory p _ _).symm
  cases cleared <;> cases retitled <;> simp [EditListController.clearing, hrenamed]

/-- The same for a renaming. -/
theorem mem_part_renaming (he : EditCurrent s e l d) {removed renamed : List Place}
    (hrenamed : ∀ p ∈ renamed, p ∈ e.places) {cleared retitled : Bool} {p : Place}
    (hp : p ∈ e.places) :
    e.renamingOf p ∈ e.part l removed cleared retitled renamed ↔ p ∈ renamed := by
  have hmap : e.renamingOf p ∈ renamed.map e.renamingOf ↔ p ∈ renamed := by
    refine ⟨fun h => ?_, List.mem_map_of_mem⟩
    obtain ⟨q, hq, heq⟩ := List.mem_map.mp h
    have hdoc := (Write.setHistory.inj heq).1
    rwa [← current_inj he (List.mem_append_left _ (hrenamed q hq)) (List.mem_append_left _ hp) hdoc]
  rw [← hmap, EditListController.part]
  have hremoved : ∀ q, e.removalOf q ≠ e.renamingOf p := fun q => removalOf_ne_setHistory q _ _
  have hclear : e.renamingOf p ≠ e.clearing l := by
    simp [EditListController.renamingOf, EditListController.clearing]
  have htitle : e.renamingOf p ≠ .setTitle l e.editedListTitle := by
    simp [EditListController.renamingOf]
  cases cleared <;> cases retitled <;> simp [hremoved, hclear, htitle]

theorem mem_part_clearing {removed renamed : List Place} {cleared retitled : Bool} :
    e.clearing l ∈ e.part l removed cleared retitled renamed ↔ cleared = true := by
  cases cleared <;> cases retitled <;>
    simp [EditListController.part, EditListController.clearing, EditListController.renamingOf]

theorem mem_part_setTitle {removed renamed : List Place} {cleared retitled : Bool} :
    .setTitle l e.editedListTitle ∈ e.part l removed cleared retitled renamed ↔
      retitled = true := by
  cases cleared <;> cases retitled <;>
    simp [EditListController.part, EditListController.clearing, EditListController.renamingOf]

theorem current_dbId (he : EditCurrent s e l d) {p : Place} (hp : p ∈ e.places ++ e.selectedPlaces) :
    p.dbId = some (p.dbId.getD 0) := by
  obtain ⟨j, r, -, -, rfl⟩ := current_place he hp
  rfl

theorem removals_eq (he : EditCurrent s e l d) {ps : List Place}
    (hps : ∀ p ∈ ps, p ∈ e.places ++ e.selectedPlaces) :
    removeListFromAllSelectedPlaces e.list.title ps = .send (ps.map e.removalOf) := by
  rw [List.map_eq_flatMap]
  refine Issued.forEach_send fun p hp => ?_
  rw [current_dbId he (hps p hp), removeListOf_some]
  rfl

theorem renamings_eq (he : EditCurrent s e l d) {ps : List Place}
    (hps : ∀ p ∈ ps, p ∈ e.places ++ e.selectedPlaces) :
    updateTitleInPlaces e.list.title e.editedListTitle ps = .send (ps.map e.renamingOf) := by
  rw [List.map_eq_flatMap]
  refine Issued.forEach_send fun p hp => ?_
  rw [updatePlace, current_dbId he (hps p hp)]
  rfl

/-- Done on an up-to-date screen runs to its end. -/
theorem tappedDone_part (he : EditCurrent s e l d) :
    e.tappedDone = .send (e.part l e.selectedPlaces true
      (decide (e.list.title ≠ e.editedListTitle))
      (if e.list.title ≠ e.editedListTitle then e.places else [])) := by
  have hid : e.list.id = some l := by rw [he.list]; rfl
  unfold EditListController.tappedDone EditListController.part
  rw [removals_eq he fun p => List.mem_append_right _, renamings_eq he fun p => List.mem_append_left _,
    hid]
  by_cases hne : e.list.title = e.editedListTitle
  · simp only [hne, ne_eq, not_true_eq_false, if_false, decide_false, removeAllPlaceFromList,
      Issued.write_some, Issued.send_andThen]
    simp [EditListController.clearing, Issued.none, Issued.send]
  · simp only [hne, ne_eq, not_false_eq_true, if_true, decide_true, removeAllPlaceFromList,
      updateListTitle, Issued.write_some, Issued.send_andThen]
    simp [EditListController.clearing, Issued.send]

theorem sublist_part {removed renamed : List Place} {retitled : Bool} {ws : List Write}
    (h : ws.Sublist (e.part l removed true retitled renamed)) :
    ∃ removed' cleared retitled' renamed', removed'.Sublist removed ∧ renamed'.Sublist renamed ∧
      (retitled' = true → retitled = true) ∧
      ws = e.part l removed' cleared retitled' renamed' := by
  obtain ⟨ws₁, ws₂, rfl, h₁, h₂⟩ := List.sublist_append_iff.mp h
  obtain ⟨ws₃, ws₄, rfl, h₃, h₄⟩ := List.sublist_append_iff.mp h₂
  obtain ⟨ws₅, ws₆, rfl, h₅, h₆⟩ := List.sublist_append_iff.mp h₄
  obtain ⟨removed', hremoved, rfl⟩ := List.sublist_map_iff.mp h₁
  obtain ⟨renamed', hrenamed, rfl⟩ := List.sublist_map_iff.mp h₆
  have hcleared : ∃ cleared, ws₃ = if cleared = true then [e.clearing l] else [] := by
    rw [if_pos rfl] at h₃
    rcases List.sublist_singleton.mp h₃ with rfl | rfl
    · exact ⟨false, rfl⟩
    · exact ⟨true, rfl⟩
  have hretitled : ∃ retitled', (retitled' = true → retitled = true) ∧
      ws₅ = if retitled' = true then [.setTitle l e.editedListTitle] else [] := by
    split at h₅
    · next htrue =>
      rcases List.sublist_singleton.mp h₅ with rfl | rfl
      · exact ⟨false, fun h => htrue, rfl⟩
      · exact ⟨true, fun h => htrue, rfl⟩
    · exact ⟨false, fun h => (Bool.false_ne_true h).elim, List.sublist_nil.mp h₅⟩
  obtain ⟨cleared, rfl⟩ := hcleared
  obtain ⟨retitled', himp, rfl⟩ := hretitled
  exact ⟨removed', cleared, retitled', renamed', hremoved, hrenamed, himp, rfl⟩

/-- The request that takes the removed places out of the list, if it succeeds. -/
theorem clearing_spec (e : EditListController) (u : UserStore) (cleared : Bool) :
    let t := applyAll u (if cleared then [e.clearing l] else [])
    t.history = u.history ∧ (∀ i v, Titled t i v ↔ Titled u i v) ∧
      ∀ i k, Listed t i k ↔
        Listed u i k ∧ ¬ (cleared = true ∧ i = l ∧ k ∈ e.selectedPlaces.map Place.id) := by
  cases cleared with
  | false => exact ⟨rfl, fun i v => Iff.rfl, fun i k => by simp⟩
  | true =>
    refine ⟨rfl, fun i v => titled_removePlaces, fun i k => listed_removePlaces.trans ?_⟩
    simp

/-- The request that renames the list, if it succeeds. -/
theorem retitling_spec {u : UserStore} (hl : ∃ v, Titled u l v) (title : String)
    (retitled : Bool) :
    let t := applyAll u (if retitled then [.setTitle l title] else [])
    t.history = u.history ∧
      (∀ i v, Titled t i v ↔ if i = l ∧ retitled = true then v = title else Titled u i v) ∧
      ∀ i k, Listed t i k ↔ Listed u i k := by
  cases retitled with
  | false => exact ⟨rfl, fun i v => by simp, fun i k => Iff.rfl⟩
  | true =>
    refine ⟨rfl, fun i v => titled_setTitle.trans ?_, fun i k => listed_setTitle⟩
    by_cases hi : i = l
    · simp [hi, hl]
    · simp [hi]

/-- What a part of the requests does to the store. -/
theorem part_spec (hs : Keyed s) (he : EditCurrent s e l d) {removed renamed : List Place}
    (hremoved : ∀ p ∈ removed, p ∈ e.selectedPlaces) (hrenamed : renamed.Sublist e.places)
    (cleared retitled : Bool) :
    let t := applyAll s (e.part l removed cleared retitled renamed)
    (∀ i u, Titled t i u ↔
      if i = l ∧ retitled = true then u = e.editedListTitle else Titled s i u) ∧
    (∀ i k, Listed t i k ↔
      Listed s i k ∧ ¬ (cleared = true ∧ i = l ∧ k ∈ e.selectedPlaces.map Place.id)) ∧
    (∀ p ∈ renamed, ∀ u, Recorded t p.id u ↔
      u ∈ renameFirst e.list.title e.editedListTitle p.list) ∧
    (∀ k u, k ∉ renamed.map Place.id → Recorded t k u → Recorded s k u) ∧
    ∀ k u, k ∉ renamed.map Place.id → ListTitle s u → (Recorded t k u ↔
      Recorded s k u ∧ ¬ (u = d.title ∧ k ∈ removed.map Place.id)) := by
  have htitle : e.list.title = d.title := by rw [he.list]; rfl
  have hplace : ∀ p ∈ renamed, p ∈ e.places ++ e.selectedPlaces :=
    fun p hp => List.mem_append_left _ (hrenamed.mem hp)
  have hplace' : ∀ p ∈ removed, p ∈ e.places ++ e.selectedPlaces :=
    fun p hp => List.mem_append_right _ (hremoved p hp)
  -- the removals
  obtain ⟨ws, hws, hlists₁, hids₁, hmono₁, hrecorded₁⟩ := removeListOf_loop (s := s)
    e.list.title Place.dbId Place.id Place.list removed
    (fun p hp => by rw [current_dbId he (hplace' p hp)]; simp) fun p hp => by
      obtain ⟨j, r, hr, hin, rfl⟩ := current_place he (hplace' p hp)
      rw [htitle]
      exact removable_of_query hs.consistent (mem_recordsListing.mpr ⟨hr, hin⟩)
  obtain rfl : removed.map e.removalOf = ws :=
    congrArg Issued.writes ((removals_eq he hplace').symm.trans hws)
  rw [htitle] at hrecorded₁
  let s₁ := applyAll s (removed.map e.removalOf)
  -- the two requests for the list
  let s₂ := applyAll s₁ (if cleared then [e.clearing l] else [])
  obtain ⟨hhistory₂, htitled₂, hlisted₂⟩ := clearing_spec (l := l) e s₁ cleared
  have hl : ∃ v, Titled s₂ l v :=
    ⟨d.title, (htitled₂ l d.title).mpr ((titled_congr hlists₁).mpr ⟨d, he.stored, rfl⟩)⟩
  let s₃ := applyAll s₂ (if retitled then [.setTitle l e.editedListTitle] else [])
  obtain ⟨hhistory₃, htitled₃, hlisted₃⟩ := retitling_spec hl e.editedListTitle retitled
  have hhistory : s₃.history = s₁.history := hhistory₃.trans hhistory₂
  -- the renamed places still have their records, since they are not among the removed
  have hother : ∀ p ∈ renamed, p.id ∉ removed.map Place.id := by
    intro p hp hin
    obtain ⟨q, hq, heq⟩ := List.mem_map.mp hin
    have hnodup := current_nodup hs.consistent he
    rw [List.map_append, List.nodup_append] at hnodup
    exact hnodup.2.2 _ (List.mem_map_of_mem (hrenamed.mem hp)) _
      (List.mem_map_of_mem (hremoved q hq)) heq.symm
  have hrewritable : ∀ p ∈ renamed, Rewritable s₃ p := by
    intro p hp
    obtain ⟨j, r, hr, hin, hpr⟩ := current_place he (hplace p hp)
    have hid : p.id = r.id := by rw [hpr]; rfl
    have hkept : Recorded s₁ p.id d.title :=
      (hrecorded₁ p.id d.title ⟨l, d, he.stored, rfl⟩).mpr
        ⟨⟨j, r, hr, hid.symm, hin⟩, fun h => hother p hp h.2⟩
    obtain ⟨m, hm⟩ := recorded_idAt hkept
    refine ⟨by rw [hpr]; simp [placeOfDoc], ?_, m, (idAt_congr hhistory).mpr hm⟩
    rw [hpr]
    rintro _ ⟨rfl⟩ i k hi
    exact sameRecord_of_get hs.consistent hr i k (hids₁ i k ((idAt_congr hhistory).mp hi))
  have hdocs : (renamed.map Place.dbId).Nodup := by
    have hnodup := current_nodup hs.consistent he
    rw [List.map_append, List.nodup_append] at hnodup
    have hpairs := (hnodup.1.sublist (hrenamed.map Place.id)).of_map
    refine hpairs.map_on fun p hp q hq heq => ?_
    exact current_inj he (hplace p hp) (hplace q hq) (congrArg (·.getD 0) heq)
  obtain ⟨vs, hvs, hlists₄, -, hown, hframe⟩ := updateTitleInPlaces_spec
    e.list.title e.editedListTitle hdocs hrewritable
  obtain rfl : renamed.map e.renamingOf = vs :=
    congrArg Issued.writes ((renamings_eq he hplace).symm.trans hvs)
  have hpart : applyAll s (e.part l removed cleared retitled renamed) =
      applyAll s₃ (renamed.map e.renamingOf) := by
    simp only [EditListController.part, applyAll_append, s₃, s₂, s₁]
  rw [hpart]
  refine ⟨fun i u => ?_, fun i k => ?_, hown, fun k u hk h => ?_, fun k u hk hu => ?_⟩
  · rw [titled_congr hlists₄, htitled₃, htitled₂, titled_congr hlists₁]
  · rw [listed_congr hlists₄, hlisted₃, hlisted₂, listed_congr hlists₁]
  · exact hmono₁ k u ((recorded_congr hhistory).mp ((hframe k u hk).mp h))
  · exact (hframe k u hk).trans ((recorded_congr hhistory).trans (hrecorded₁ k u hu))

/-- A renaming leaves nothing of the old title in a place that listed it once. -/
theorem not_mem_renameFirst {oldTitle newTitle : String} {titles : List String}
    (hnodup : titles.Nodup) (hne : newTitle ≠ oldTitle) :
    oldTitle ∉ renameFirst oldTitle newTitle titles := by
  rw [renameFirst_eq_map hnodup, List.mem_map]
  rintro ⟨title, -, htitle⟩
  split at htitle
  · exact hne htitle
  · next hother => exact hother htitle

/-- Only the list on screen can lose its integrity. -/
theorem integrity_part (hs : Keyed s) (he : EditCurrent s e l d) {removed renamed : List Place}
    (hremoved : ∀ p ∈ removed, p ∈ e.selectedPlaces) (hrenamed : renamed.Sublist e.places)
    {cleared retitled : Bool}
    (hrename : retitled = true ∨ renamed ≠ [] → e.list.title ≠ e.editedListTitle) :
    Integrity (applyAll s (e.part l removed cleared retitled renamed)) ↔
      ∀ k, (k ∈ (e.places ++ e.selectedPlaces).map Place.id ∧
          ¬ (cleared = true ∧ k ∈ e.selectedPlaces.map Place.id)) ↔
        if retitled then k ∈ renamed.map Place.id
        else k ∈ (e.places ++ e.selectedPlaces).map Place.id ∧
          k ∉ renamed.map Place.id ∧ k ∉ removed.map Place.id := by
  obtain ⟨htitled, hlisted, hown, hmono, hother⟩ :=
    part_spec hs he hremoved hrenamed cleared retitled
  let t := applyAll s (e.part l removed cleared retitled renamed)
  have hl : Titled s l d.title := ⟨d, he.stored, rfl⟩
  have htitle : e.list.title = d.title := by rw [he.list]; rfl
  have hsame := sameList_of_titled hs.consistent hl
  have hplace : ∀ p ∈ renamed, ∃ j r, s.history.get j = some r ∧ d.title ∈ r.list ∧
      p = placeOfDoc j r :=
    fun p hp => current_place he (List.mem_append_left _ (hrenamed.mem hp))
  have hknown : ∀ k u, Recorded s k u → ListTitle s u := by
    rintro k u ⟨j, r, hr, -, hu⟩
    exact hs.known j r hr u hu
  -- the other lists
  have hothers : ∀ i u k, Titled s i u → i ≠ l → (Listed t i k ↔ Recorded t k u) := by
    intro i u k hi hil
    have hne : u ≠ d.title := fun h => hil ((hsame i u hi).mp h)
    have hrecorded : Recorded t k u ↔ Recorded s k u := by
      by_cases hk : k ∈ renamed.map Place.id
      · obtain ⟨p, hp, rfl⟩ := List.mem_map.mp hk
        have hnew : u ≠ e.editedListTitle := by
          rintro rfl
          exact he.title (hrename (.inr (List.ne_nil_of_mem hp))) ⟨i, hi⟩
        obtain ⟨j, r, hr, hin, rfl⟩ := hplace p hp
        rw [hown _ hp, htitle, mem_renameFirst (show d.title ∈ (placeOfDoc j r).list from hin) hne]
        refine Iff.trans ?_ (recorded_of_get hs.consistent hr).symm
        simp [hnew, placeOfDoc]
      · rw [hother k u hk ⟨i, hi⟩]
        simp [hne]
    rw [hlisted, hrecorded, hs.consistent.integrity i u k hi]
    simp [hil]
  -- the list on screen
  have hmember : ∀ k, Listed t l k ↔ (k ∈ (e.places ++ e.selectedPlaces).map Place.id ∧
      ¬ (cleared = true ∧ k ∈ e.selectedPlaces.map Place.id)) := by
    intro k
    rw [hlisted, hs.consistent.integrity l d.title k hl, current_covers he]
    simp
  have hrecord : ∀ k, Recorded t k (if retitled then e.editedListTitle else d.title) ↔
      if retitled then k ∈ renamed.map Place.id
      else k ∈ (e.places ++ e.selectedPlaces).map Place.id ∧
        k ∉ renamed.map Place.id ∧ k ∉ removed.map Place.id := by
    intro k
    cases retitled with
    | true =>
      have hne := hrename (.inl rfl)
      simp only [if_true]
      by_cases hk : k ∈ renamed.map Place.id
      · obtain ⟨p, hp, rfl⟩ := List.mem_map.mp hk
        obtain ⟨j, r, hr, hin, hpr⟩ := hplace p hp
        have hold : e.list.title ∈ p.list := by rw [htitle, hpr]; exact hin
        rw [hown p hp]
        exact iff_of_true ((mem_renameFirst hold (Ne.symm hne)).mpr (.inl rfl)) hk
      · exact iff_of_false (fun h => he.title hne (hknown k _ (hmono k _ hk h))) hk
    | false =>
      simp only [Bool.false_eq_true, if_false]
      by_cases hk : k ∈ renamed.map Place.id
      · obtain ⟨p, hp, rfl⟩ := List.mem_map.mp hk
        have hne := hrename (.inr (List.ne_nil_of_mem hp))
        obtain ⟨j, r, hr, -, hpr⟩ := hplace p hp
        have honce : p.list.Nodup := by rw [hpr]; exact hs.once j r hr
        rw [hown p hp, ← htitle]
        exact iff_of_false (not_mem_renameFirst honce (Ne.symm hne)) fun h => h.2.1 hk
      · rw [hother k d.title hk ⟨l, hl⟩, current_covers he]
        simp [hk]
  have hcurrent : Titled t l (if retitled then e.editedListTitle else d.title) := by
    rw [htitled]
    cases retitled with
    | true => simp
    | false => simpa using hl
  constructor
  · intro h k
    rw [← hmember, ← hrecord]
    exact h l _ k hcurrent
  · intro h i u k hi
    by_cases hil : i = l
    · subst hil
      obtain rfl := titled_unique hcurrent hi
      exact (hmember k).trans ((h k).trans (hrecord k).symm)
    · refine hothers i u k ?_ hil
      simpa [hil] using (htitled i u).mp hi

/-- Places on screen are told apart by their ids. -/
theorem mem_ids (hs : Consistent s) (he : EditCurrent s e l d) {ps : List Place}
    (hps : ∀ p ∈ ps, p ∈ e.places ++ e.selectedPlaces) {p : Place}
    (hp : p ∈ e.places ++ e.selectedPlaces) : p.id ∈ ps.map Place.id ↔ p ∈ ps := by
  refine ⟨fun h => ?_, List.mem_map_of_mem⟩
  obtain ⟨q, hq, heq⟩ := List.mem_map.mp h
  rwa [← List.inj_on_of_nodup_map (current_nodup hs he) (hps q hq) hp heq]

/-- The condition on ids as one on the places of the screen. -/
theorem ids_iff (hs : Consistent s) (he : EditCurrent s e l d) {removed renamed : List Place}
    (hremoved : ∀ p ∈ removed, p ∈ e.selectedPlaces) (hrenamed : ∀ p ∈ renamed, p ∈ e.places)
    {cleared retitled : Bool} :
    (∀ k, (k ∈ (e.places ++ e.selectedPlaces).map Place.id ∧
        ¬ (cleared = true ∧ k ∈ e.selectedPlaces.map Place.id)) ↔
      if retitled then k ∈ renamed.map Place.id
      else k ∈ (e.places ++ e.selectedPlaces).map Place.id ∧
        k ∉ renamed.map Place.id ∧ k ∉ removed.map Place.id) ↔
    if retitled then (e.selectedPlaces ≠ [] → cleared = true) ∧ ∀ p ∈ e.places, p ∈ renamed
    else (∀ p ∈ e.places, p ∉ renamed) ∧ ∀ p ∈ e.selectedPlaces, (p ∈ removed ↔ cleared = true) := by
  have hall : ∀ p ∈ e.places ++ e.selectedPlaces,
      p.id ∈ (e.places ++ e.selectedPlaces).map Place.id := fun p hp => List.mem_map_of_mem hp
  have hselected : ∀ p ∈ e.places ++ e.selectedPlaces,
      (p.id ∈ e.selectedPlaces.map Place.id ↔ p ∈ e.selectedPlaces) :=
    fun p hp => mem_ids hs he (fun q => List.mem_append_right _) hp
  have hren : ∀ p ∈ e.places ++ e.selectedPlaces, (p.id ∈ renamed.map Place.id ↔ p ∈ renamed) :=
    fun p hp => mem_ids hs he (fun q hq => List.mem_append_left _ (hrenamed q hq)) hp
  have hrem : ∀ p ∈ e.places ++ e.selectedPlaces, (p.id ∈ removed.map Place.id ↔ p ∈ removed) :=
    fun p hp => mem_ids hs he (fun q hq => List.mem_append_right _ (hremoved q hq)) hp
  -- no place is both kept and removed
  have hdisjoint : ∀ p ∈ e.places, p ∉ e.selectedPlaces := by
    have hnodup := (current_nodup hs he).of_map
    exact fun p hp hq => (List.nodup_append.mp hnodup).2.2 p hp p hq rfl
  have hleft := fun p (hp : p ∈ e.places) => List.mem_append_left e.selectedPlaces hp
  have hright := fun p (hp : p ∈ e.selectedPlaces) => List.mem_append_right e.places hp
  cases retitled with
  | true =>
    simp only [if_true]
    constructor
    · intro h
      refine ⟨fun hne => ?_, fun p hp => ?_⟩
      · obtain ⟨p, hp⟩ := List.exists_mem_of_ne_nil _ hne
        have hout : p.id ∉ renamed.map Place.id := fun hin =>
          hdisjoint p (hrenamed p ((hren p (hright p hp)).mp hin)) hp
        by_contra hcleared
        exact hout ((h p.id).mp ⟨hall p (hright p hp), fun hand => hcleared hand.1⟩)
      · refine (hren p (hleft p hp)).mp ((h p.id).mp ⟨hall p (hleft p hp), fun hand => ?_⟩)
        exact hdisjoint p hp ((hselected p (hleft p hp)).mp hand.2)
    · rintro ⟨hcleared, hevery⟩ k
      constructor
      · rintro ⟨hk, hnot⟩
        obtain ⟨p, hp, rfl⟩ := List.mem_map.mp hk
        rcases List.mem_append.mp hp with hp | hp
        · exact List.mem_map_of_mem (hevery p hp)
        · exact absurd ⟨hcleared (List.ne_nil_of_mem hp), List.mem_map_of_mem hp⟩ hnot
      · intro hk
        obtain ⟨p, hp, rfl⟩ := List.mem_map.mp hk
        have hin := hleft p (hrenamed p hp)
        exact ⟨hall p hin, fun hand => hdisjoint p (hrenamed p hp) ((hselected p hin).mp hand.2)⟩
  | false =>
    simp only [Bool.false_eq_true, if_false]
    constructor
    · intro h
      refine ⟨fun p hp hin => ?_, fun p hp => ?_⟩
      · have hkept := (h p.id).mp ⟨hall p (hleft p hp), fun hand =>
          hdisjoint p hp ((hselected p (hleft p hp)).mp hand.2)⟩
        exact hkept.2.1 (List.mem_map_of_mem hin)
      · have hout : p.id ∉ renamed.map Place.id := fun hin =>
          hdisjoint p (hrenamed p ((hren p (hright p hp)).mp hin)) hp
        have hk := h p.id
        rw [hrem p (hright p hp), hselected p (hright p hp)] at hk
        have hin := hall p (hright p hp)
        tauto
    · rintro ⟨hevery, hagree⟩ k
      refine and_congr_right fun hk => ?_
      obtain ⟨p, hp, rfl⟩ := List.mem_map.mp hk
      rw [hren p hp, hrem p hp, hselected p hp]
      rcases List.mem_append.mp hp with hp | hp
      · have hout := hevery p hp
        have hout' : p ∉ removed := fun hin => hdisjoint p hp (hremoved p hin)
        have hout'' := hdisjoint p hp
        tauto
      · have hout : p ∉ renamed := fun hin => hdisjoint p (hrenamed p hin) hp
        have hiff := hagree p hp
        tauto

/-- No part of the requests leaves a record without a title. -/
theorem noOrphans_part (hs : Keyed s) (he : EditCurrent s e l d) {removed renamed : List Place}
    (hremoved : ∀ p ∈ removed, p ∈ e.selectedPlaces) (hrenamed : ∀ p ∈ renamed, p ∈ e.places)
    {cleared retitled : Bool} :
    NoOrphans (applyAll s (e.part l removed cleared retitled renamed)) := by
  rw [EditListController.part, applyAll_append]
  refine noOrphans_rewrites ?_ fun w hw => ?_
  · refine noOrphans_removals e.list.title hs.orphans fun w hw => ?_
    obtain ⟨p, hp, rfl⟩ := List.mem_map.mp hw
    obtain ⟨j, r, hr, -, rfl⟩ := current_place he (List.mem_append_right _ (hremoved p hp))
    refine removes_removeListOf (spares_of_nodup hs hr e.list.title) ?_
    rw [removeListOf_some]
    exact List.mem_singleton_self _
  · rcases List.mem_append.mp hw with hw | hw
    · split at hw
      · rw [List.mem_singleton.mp hw]
        trivial
      · cases hw
    · rcases List.mem_append.mp hw with hw | hw
      · split at hw
        · rw [List.mem_singleton.mp hw]
          trivial
        · cases hw
      · obtain ⟨p, hp, rfl⟩ := List.mem_map.mp hw
        obtain ⟨j, r, hr, -, rfl⟩ := current_place he (List.mem_append_left _ (hrenamed p hp))
        exact renameFirst_ne_nil (hs.orphans j r hr)

end

end FailedLemmas

/-- Done on the edit screen: integrity is kept iff the writes that succeed agree. -/
theorem tappedDone_part_iff {s : UserStore} (hs : Keyed s) {e : EditListController} {l : Nat}
    {d : ListDoc} (he : EditCurrent s e l d) {ws : List Write}
    (hsub : ws.Sublist e.tappedDone.writes) :
    RefIntegrity (applyAll s ws) ↔ e.Agree l ws := by
  rw [tappedDone_part he] at hsub
  obtain ⟨removed, cleared, retitled, renamed, hremoved, hrenamed, hretitled, rfl⟩ :=
    sublist_part hsub
  have hrenamed' : renamed.Sublist e.places := by
    split at hrenamed
    · exact hrenamed
    · rw [List.sublist_nil.mp hrenamed]
      exact List.nil_sublist _
  have hrename : retitled = true ∨ renamed ≠ [] → e.list.title ≠ e.editedListTitle := by
    rintro (htrue | hne)
    · exact of_decide_eq_true (hretitled htrue)
    · intro heq
      rw [if_neg (not_not.mpr heq)] at hrenamed
      exact hne (List.sublist_nil.mp hrenamed)
  have hin := fun p hp => hremoved.mem (a := p) hp
  have hin' := fun p hp => hrenamed'.mem (a := p) hp
  refine (and_iff_left (noOrphans_part hs he hin hin')).trans ?_
  rw [integrity_part hs he hin hrenamed' hrename, ids_iff hs.consistent he hin hin',
    EditListController.Agree]
  simp only [mem_part_setTitle, mem_part_clearing]
  cases retitled with
  | true =>
    exact and_congr_right fun _ => forall₂_congr fun p hp => (mem_part_renaming he hin' hp).symm
  | false =>
    refine and_congr ?_ ?_
    · exact forall₂_congr fun p hp => not_congr (mem_part_renaming he hin' hp).symm
    · exact forall₂_congr fun p hp => iff_congr (mem_part_removal he hin hp).symm Iff.rfl

/-! ## 5. The three actions -/

/-- In a store with keys, and with up-to-date screens: which writes of an action
may fail without the loss of integrity. -/
theorem part_iff (s : UserStore) (hs : Keyed s) :
    (∀ v issued ws, SaveCurrent s v → v.tappedDoneBtn = some issued → ws.Sublist issued.writes →
      (RefIntegrity (applyAll s ws) ↔ ws = [] ∨ ∀ w ∈ issued.writes, w ∈ ws)) ∧
    (∀ e l d ws, EditCurrent s e l d → ws.Sublist e.tappedDone.writes →
      (RefIntegrity (applyAll s ws) ↔ e.Agree l ws)) ∧
    ∀ l d ws, s.lists.get l = some d →
      ws.Sublist (SavedController.deleteAction s (listOfDoc l d)).writes →
      (RefIntegrity (applyAll s ws) ↔ ws = [] ∨ .deleteList l ∈ ws) :=
  ⟨fun _ _ _ hv hdone hsub => done_part_iff hs hv hdone hsub,
    fun _ _ _ _ he hsub => tappedDone_part_iff hs he hsub,
    fun _ _ _ hd hsub => deleteAction_part_iff hs hd hsub⟩

/-- A store with lists of these titles, of which those in `listed` contain the id
1, and one record with the id 1 for each of the last argument. -/
def exStore (lists : List String) (listed : List Nat) (records : List (List String)) : UserStore :=
  applyAll .empty (lists.map Write.addList ++ listed.map (Write.unionPlaces · [1]) ++
    records.map fun titles => .addHistory (docOfPlace exSavedPlace titles 1))

/-- The record of `exStore` as a place. -/
def exStored (titles : List String) : Place := placeOfDoc 0 (docOfPlace exSavedPlace titles 1)

/-- The place in "A" is put in "B" as well. -/
def exTick : List RowEvent := [.cellForRowAt 0, .cellForRowAt 1, .didTapCheckBox 1]

def exTicked : Issued :=
  ⟨[.unionPlaces 1 [1], .setHistory 0 (docOfPlace (exStored ["A"]) ["A", "B"] 1)], false⟩

theorem exTick_done : (Machine.run rowStep
    (SavePlaceView.load (exStore ["A", "B"] [0] [["A"]]) (exStored ["A"])) exTick).bind
      SavePlaceView.tappedDoneBtn = some exTicked := by
  decide +kernel

/-- The edit screen for the list "A" with its place removed. -/
def exRemoved : EditListController :=
  let s := exStore ["A", "B"] [0] [["A"]]
  let list := listOfDoc 0 ⟨"A", [1]⟩
  let c := SavedController.initial.retrieveHistory (getAllPlaces s)
  (EditListController.load list (c.placesOf list)).tappedDelete 1

theorem part_iff_one_place :
    let s := exStore ["A", "B"] [0] [["A"]]
    (RefIntegrity (applyAll s [.unionPlaces 1 [1]]) ↔
      [Write.unionPlaces 1 [1]] = [] ∨ ∀ w ∈ exTicked.writes, w ∈ [Write.unionPlaces 1 [1]]) ∧
    (RefIntegrity (applyAll s [.deleteHistory 0]) ↔ exRemoved.Agree 0 [.deleteHistory 0]) ∧
    (RefIntegrity (applyAll s [.deleteList 0]) ↔
      [Write.deleteList 0] = [] ∨ .deleteList 0 ∈ [Write.deleteList 0]) := by
  have hkeyed : Keyed (exStore ["A", "B"] [0] [["A"]]) := by decide +kernel
  have hlist : (exStore ["A", "B"] [0] [["A"]]).lists.get 0 = some ⟨"A", [1]⟩ := by
    decide +kernel
  obtain ⟨v, hv, hdone⟩ := Option.bind_eq_some_iff.mp exTick_done
  have hcurrent := saveCurrent_run (.inr ⟨0, docOfPlace exSavedPlace ["A"] 1, by decide +kernel, rfl⟩)
    hv
  obtain ⟨hsave, hedit, hdelete⟩ := part_iff (exStore ["A", "B"] [0] [["A"]]) hkeyed
  exact ⟨hsave v exTicked _ hcurrent hdone (by decide),
    hedit exRemoved 0 ⟨"A", [1]⟩ _
      (editCurrent_tappedDelete (editCurrent_load hkeyed.consistent hlist) 1) (by decide +kernel),
    hdelete 0 ⟨"A", [1]⟩ _ hlist (by decide +kernel)⟩

/-- The list is written and the record is not. -/
theorem failed_record_breaks_integrity :
    ¬ ∀ s v issued ws, RefIntegrity s → SaveCurrent s v → v.tappedDoneBtn = some issued →
      ws.Sublist issued.writes → RefIntegrity (applyAll s ws) := by
  intro hall
  obtain ⟨v, hv, hdone⟩ := Option.bind_eq_some_iff.mp exTick_done
  have hcurrent := saveCurrent_run (.inr ⟨0, docOfPlace exSavedPlace ["A"] 1, by decide +kernel, rfl⟩)
    hv
  have hkept := hall (exStore ["A", "B"] [0] [["A"]]) v exTicked [.unionPlaces 1 [1]]
    (by decide +kernel) hcurrent hdone (by decide)
  exact absurd hkept (by decide +kernel)

/-- Whether integrity survives Done on the save screen for the record of
`exStore`, when nothing fails. -/
def exDoneKeeps (lists : List String) (records : List (List String)) (titles : List String)
    (es : List RowEvent) : Option Bool :=
  let s := exStore lists [0] records
  ((Machine.run rowStep (SavePlaceView.load s (exStored titles)) es).bind
    SavePlaceView.tappedDoneBtn).map fun issued => decide (RefIntegrity (applyAll s issued.writes))

/-- Whether integrity survives the deletion of the list "A" of `exStore`, when
nothing fails. -/
def exDeleteKeeps (lists : List String) (listed : List Nat) (titles : List String) : Bool :=
  let s := exStore lists listed [titles]
  decide (RefIntegrity
    (applyAll s (SavedController.deleteAction s (listOfDoc 0 ⟨"A", [1]⟩)).writes))

/-- Why a store needs keys: with two lists of one title, two records of one id, a
title that no list has or a title twice in a record, an action can break
integrity though all its writes succeed. -/
theorem unkeyed_stores_break :
    (RefIntegrity (exStore ["A", "A"] [0, 1] [["A"]]) ∧
      exDeleteKeeps ["A", "A"] [0, 1] ["A"] = false) ∧
    (RefIntegrity (exStore ["A", "B"] [0] [["A"], ["A"]]) ∧
      exDoneKeeps ["A", "B"] [["A"], ["A"]] ["A"]
        [.cellForRowAt 0, .cellForRowAt 1, .didTapCheckBox 0, .didTapCheckBox 1] = some false) ∧
    (RefIntegrity (exStore ["A"] [0] [["X", "A"]]) ∧
      exDoneKeeps ["A"] [["X", "A"]] ["X", "A"] [.cellForRowAt 0, .didTapCheckBox 0] = some false) ∧
    (RefIntegrity (exStore ["A"] [0] [["A", "A"]]) ∧
      exDeleteKeeps ["A"] [0] ["A", "A"] = false) := by
  refine ⟨?_, ?_, ?_, ?_⟩ <;> decide +kernel

end LocateMe
