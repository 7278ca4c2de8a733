import LocateMe.ShelvedActions

/-!
# Runs of the app on the shelves

Whatever the user does, screen after screen, the store stays a faithful record of
titled shelves, and every screen reads the shelves off it.

Results:
1. `actions_refine_shelves`: a run of ready actions goes to its end, and the store
   represents the shelves that its operations make.
2. `screens_show_shelves`: in every state that it reaches the screens show the shelves.
3. `renames_collapse`: a run of renames does what the last one does.
4. `rendered_done_unchanged`: a save screen that is opened and closed with Done leaves
   the contents as they are.
-/

namespace LocateMe

open ShelfLemmas SaveLemmas ChosenLemmas ActionLemmas

/-! ## 1. Runs -/

namespace ShelfRunLemmas

theorem represents_empty : Represents .empty Shelves.empty where
  records _ := recordOf_none.mpr rfl
  lists _ := listOf_none.mpr rfl
  ids _ _ _ _ h := by cases h

theorem openLists_refines {s : UserStore} {a : UserShelves} (hs : Represents s a) :
    ∃ t b, actionStep s .openLists = some t ∧
      Machine.run Shelves.step a (Action.openLists.meaning s) = some b ∧ Represents t b := by
  by_cases hempty : getAllList s = []
  · have hnone : ∀ title, ¬ ListTitle s title := by
      rintro title ⟨i, doc, hdoc, -⟩
      have hin : listOfDoc i doc ∈ getAllList s := mem_getAllList.mpr ⟨i, doc, hdoc, rfl⟩
      rw [hempty] at hin
      cases hin
    have hnodup : defaultTitles.Nodup := by decide
    obtain ⟨b, hrun, hb⟩ := represents_newLists hs hnodup fun t _ => hnone t
    refine ⟨_, b, ?_, ?_, hb⟩
    · rw [actionStep, if_pos hempty]
      rfl
    · rw [Action.meaning, if_pos hempty]
      exact hrun
  · exact ⟨s, a, by rw [actionStep, if_neg hempty], by rw [Action.meaning, if_neg hempty]; rfl, hs⟩

/-- Every action that is ready goes to its end and does what it means. -/
theorem action_refines {s : UserStore} {a : UserShelves} (action : Action) (hs : Represents s a)
    (hready : action.Ready s) :
    ∃ t b, actionStep s action = some t ∧
      Machine.run Shelves.step a (action.meaning s) = some b ∧ Represents t b := by
  cases action with
  | openLists => exact openLists_refines hs
  | newList title =>
    obtain ⟨h, hb⟩ := represents_newList hs hready
    exact ⟨_, _, rfl, Machine.run_cons.mpr ⟨_, Shelves.step_label.mpr ⟨h, rfl⟩, rfl⟩, hb⟩
  | save place selected => exact save_refines hs hready
  | edit listId taps newTitle => exact edit_refines hs hready
  | deleteList listId => exact delete_refines hs hready
  | swipe listId row => exact swipe_refines hs hready

end ShelfRunLemmas

open ShelfRunLemmas

/-- From a store that represents shelves, a run of actions that are all ready goes to
its end, and so do the operations on shelves that the actions mean; the store that it
reaches represents the shelves that they make. -/
theorem actions_refine_shelves {s : UserStore} {a : UserShelves} (hs : Represents s a)
    {actions : List Action}
    (hready : Machine.Meets actionStep (fun s action => action.Ready s) s actions) :
    ∃ t b, Machine.run actionStep s actions = some t ∧
      Machine.run Shelves.step a
        (Machine.meanings actionStep (fun s action => action.meaning s) s actions) = some b ∧
      Represents t b :=
  Machine.run_simulates (fun _ _ action hs hready => action_refines action hs hready) hs hready

/-- A place that is not stored. -/
def exUnsaved : Place := { exSavedPlace with name := "Pool", id := 0, dbId := none, list := [] }

/-- The first lists, a new one, a place in two of them, which is moved, its list renamed, and the
place swiped away. -/
def exActions : List Action :=
  [.openLists, .newList "A", .save exUnsaved [0, 2],
    .save (placeOfDoc 0 (docOfPlace exUnsaved ["A", "Recreational"] 1)) [0, 1],
    .edit 4 [] "Z", .swipe (some 0) 0, .deleteList 2, .swipe none 0]

theorem actions_refine_shelves_first :
    ∃ t b, Machine.run actionStep .empty exActions = some t ∧
      Machine.run Shelves.step Shelves.empty
        (Machine.meanings actionStep (fun s action => action.meaning s) .empty exActions) = some b ∧
      Represents t b :=
  actions_refine_shelves represents_empty (by decide +kernel)

/-! ## 2. What the screens show -/

/-- The screens read these shelves off the store: the rows of the saved screen are the
shelves, "Recently Saved" has all items, a list screen those on its shelf, whether it
looks them up by the ids in the list or by the title in the records, and each place
comes with the titles of its shelves. -/
structure ShowsShelves (s : UserStore) (a : UserShelves) : Prop where
  lists : ∀ i title, a.title i = some title ↔
    ∃ list ∈ getAllList s, list.id = some i ∧ list.title = title
  recent : ∀ j p, a.item j = some p ↔
    ∃ place ∈ getAllPlaces s, place.dbId = some j ∧ place.bare = p
  shown : ∀ i list places, s.opened (some i) = some (list, places) →
    (places.map Place.dbId).Nodup ∧
    (∀ j, j ∈ a.contents i ↔ ∃ place ∈ places, place.dbId = some j) ∧
    places.Perm (getAllPlacesForList s list.title)
  titles : ∀ place ∈ getAllPlaces s, ∀ j, place.dbId = some j →
    ∀ title, title ∈ place.list ↔ ∃ i ∈ a.on j, a.title i = some title

namespace ShelfRunLemmas

theorem showsShelves_of_represents {s : UserStore} {a : UserShelves} (hs : Represents s a) :
    ShowsShelves s a where
  lists i title := by
    rw [← titled_iff hs]
    constructor
    · rintro ⟨doc, hdoc, rfl⟩
      exact ⟨listOfDoc i doc, mem_getAllList.mpr ⟨i, doc, hdoc, rfl⟩, rfl, rfl⟩
    · rintro ⟨list, hlist, hid, rfl⟩
      obtain ⟨i', doc, hdoc, rfl⟩ := mem_getAllList.mp hlist
      obtain rfl := Option.some.inj hid
      exact ⟨doc, hdoc, rfl⟩
  recent j p := by
    constructor
    · intro hp
      obtain ⟨r, hr, rfl⟩ := get_of_item hs hp
      exact ⟨placeOfDoc j r, mem_getAllPlaces.mpr ⟨j, r, hr, rfl⟩, rfl, rfl⟩
    · rintro ⟨place, hplace, hid, rfl⟩
      obtain ⟨j', r, hr, rfl⟩ := mem_getAllPlaces.mp hplace
      obtain rfl := Option.some.inj hid
      exact item_of_get hs hr
  shown i list places hopened := by
    obtain ⟨doc, hdoc, heq⟩ := Option.map_eq_some_iff.mp hopened
    obtain ⟨rfl, rfl⟩ := Prod.mk.inj heq
    refine ⟨(nodup_getAllPlaces s).sublist (List.filter_sublist.map _), fun j => ?_,
      contents_agree (tidy_of_represents hs).toConsistent hdoc⟩
    constructor
    · intro hon
      obtain ⟨p, hp⟩ := Option.isSome_iff_exists.mp ((a.standing j).mpr ⟨i, hon⟩)
      obtain ⟨r, hr, -⟩ := get_of_item hs hp
      exact ⟨placeOfDoc j r, (mem_opened hs hdoc).mpr ⟨j, r, hr, hon, rfl⟩, rfl⟩
    · rintro ⟨place, hplace, hid⟩
      obtain ⟨j', r, -, hon, rfl⟩ := (mem_opened hs hdoc).mp hplace
      obtain rfl := Option.some.inj hid
      exact hon
  titles place hplace j hid := by
    obtain ⟨j', r, hr, rfl⟩ := mem_getAllPlaces.mp hplace
    obtain rfl := Option.some.inj hid
    exact (hs.records j').titles r hr

end ShelfRunLemmas

/-- In every state that a run of ready actions reaches from a store that represents
shelves, the screens show the shelves that the operations made. -/
theorem screens_show_shelves {s t : UserStore} {a : UserShelves} (hs : Represents s a)
    {actions : List Action}
    (hready : Machine.Meets actionStep (fun s action => action.Ready s) s actions)
    (hrun : Machine.run actionStep s actions = some t) :
    ∃ b, Machine.run Shelves.step a
        (Machine.meanings actionStep (fun s action => action.meaning s) s actions) = some b ∧
      ShowsShelves t b := by
  obtain ⟨t', b, hrun', hb, ht⟩ := Machine.run_simulates
    (fun _ _ action hs hready => action_refines action hs hready) hs hready
  obtain rfl := Option.some.inj (hrun.symm.trans hrun')
  exact ⟨b, hb, showsShelves_of_represents ht⟩

/-- After the first three actions the place is in two lists. -/
theorem screens_show_shelves_first :
    ∃ t b, Machine.run actionStep .empty (exActions.take 3) = some t ∧
      Machine.run Shelves.step Shelves.empty (Machine.meanings actionStep
        (fun s action => action.meaning s) .empty (exActions.take 3)) = some b ∧
      ShowsShelves t b := by
  have hsome : (Machine.run actionStep .empty (exActions.take 3)).isSome := by decide +kernel
  obtain ⟨t, ht⟩ := Option.isSome_iff_exists.mp hsome
  obtain ⟨b, hb, hshows⟩ := screens_show_shelves represents_empty (by decide +kernel) ht
  exact ⟨t, b, ht, hb, hshows⟩

/-! ## 3. Actions that leave no trace -/

namespace ShelfRunLemmas

/-- A rename gives the shelf its title. -/
theorem rename_refines {s : UserStore} {a : UserShelves} (hs : Represents s a) {l : Nat}
    {title : String} (hready : (Action.edit l [] title).Ready s) :
    ∃ t h, actionStep s (.edit l [] title) = some t ∧ Represents t (a.label l title h) := by
  obtain ⟨t, b, hstep, hrun, hb⟩ := edit_refines hs hready
  obtain ⟨c, hc, hlast⟩ := Machine.run_cons.mp hrun
  obtain ⟨d, hd, hnil⟩ := Machine.run_cons.mp hlast
  obtain rfl := Option.some.inj hnil
  -- nothing was tapped, so every item stays
  have hkeep : a.keep (fun j i => i = l → Untapped s [] j) = a :=
    a.keep_self fun j i _ _ => by simp [Untapped]
  obtain rfl := (Option.some.inj hc).symm.trans hkeep
  obtain ⟨h, rfl⟩ := Shelves.step_label.mp hd
  exact ⟨t, h, hstep, hb⟩

/-- After renames the shelf has the last title. -/
theorem renames_refine {s : UserStore} {a : UserShelves} (hs : Represents s a) {l : Nat}
    {titles : List String} {last : String}
    (hready : Machine.Meets actionStep (fun s action => action.Ready s) s
      ((titles ++ [last]).map (Action.edit l []))) :
    ∃ t h, Machine.run actionStep s ((titles ++ [last]).map (Action.edit l [])) = some t ∧
      Represents t (a.label l last h) := by
  induction titles generalizing s a with
  | nil =>
    obtain ⟨t, h, hstep, ht⟩ := rename_refines hs (Machine.meets_cons.mp hready).1
    exact ⟨t, h, Machine.run_cons.mpr ⟨t, hstep, rfl⟩, ht⟩
  | cons title titles ih =>
    obtain ⟨hfirst, hrest⟩ := Machine.meets_cons.mp hready
    obtain ⟨t, h, hstep, ht⟩ := rename_refines hs hfirst
    obtain ⟨u, h', hrun, hu⟩ := ih ht (hrest t hstep)
    have hlast : ∀ m, a.title m = some last → m = l := by
      intro m hm
      by_contra hne
      exact hne (h' m (by rw [Shelves.label_title, if_neg hne, hm]))
    refine ⟨u, hlast, Machine.run_cons.mpr ⟨t, hstep, hrun⟩, ?_⟩
    rwa [Shelves.label_label a l title last h h' hlast] at hu

end ShelfRunLemmas

/-- From a tidy store, a run of renames of a list, each to a title of no other list, does
the same as the last one alone, up to the order of arrays, and nothing when the last title
is the one that the list had. -/
theorem renames_collapse {s : UserStore} (hs : Tidy s) {l : Nat} {doc : ListDoc}
    (hdoc : s.lists.get l = some doc) {titles : List String} {last : String}
    (hready : Machine.Meets actionStep (fun s action => action.Ready s) s
      ((titles ++ [last]).map (Action.edit l []))) :
    ∃ t u, Machine.run actionStep s ((titles ++ [last]).map (Action.edit l [])) = some t ∧
      actionStep s (.edit l [] last) = some u ∧ SameContents t u ∧
      (last = doc.title → SameContents t s) := by
  have ha := represents_shelvesOf hs
  obtain ⟨t, h, hrun, ht⟩ := renames_refine ha hready
  have hnew : (Action.edit l [] last).Ready s := by
    refine ⟨by simp [hdoc], fun i d hd htitle => h i ?_⟩
    rw [title_of_get ha hd, htitle]
  obtain ⟨u, h', hstep, hu⟩ := rename_refines ha hnew
  refine ⟨t, u, hrun, hstep, (sameContents_iff ht hu).mpr rfl, ?_⟩
  rintro rfl
  exact (sameContents_iff ht ha).mpr (Shelves.label_self _ (title_of_get ha hdoc) h)

/-- "A" becomes "C", then "D", then "A" again. -/
theorem renames_collapse_back :
    ∃ t u, Machine.run actionStep exTidy ((["C", "D"] ++ ["A"]).map (Action.edit 0 [])) = some t ∧
      actionStep exTidy (.edit 0 [] "A") = some u ∧ SameContents t u ∧
      ("A" = "A" → SameContents t exTidy) := by
  have hdoc : exTidy.lists.get 0 = some ⟨"A", [1, 2]⟩ := by decide +kernel
  exact renames_collapse (by decide +kernel) hdoc (by decide +kernel)

namespace ShelfRunLemmas

/-- Rows that are rendered are selected when their boxes are ticked. -/
theorem selectedLists_rendered {v w : SavePlaceView} {rows : List Nat}
    (hrun : Machine.run rowStep v (rows.map .cellForRowAt) = some w) :
    w.selectedLists = v.selectedLists ++ rows.filter v.savedRow := by
  induction rows generalizing v with
  | nil =>
    obtain rfl := Option.some.inj hrun
    simp
  | cons row rows ih =>
    obtain ⟨u, hu, hrest⟩ := Machine.run_cons.mp hrun
    have hframe := rowStep_frame hu
    have hsame : u.savedRow = v.savedRow := by
      funext r
      simp only [SavePlaceView.savedRow, SavePlaceView.ticks, hframe.1, hframe.2.1, hframe.2.2.1]
    obtain ⟨list, hlist, rfl⟩ := Option.map_eq_some_iff.mp hu
    have hrow : v.savedRow row = v.ticks list.title := by simp [SavePlaceView.savedRow, hlist]
    rw [ih hrest, hsame, List.filter_cons, hrow]
    dsimp only
    split <;> simp

/-- Rendering does not trap on rows that are there. -/
theorem render_isSome {v : SavePlaceView} {rows : List Nat}
    (hrows : ∀ row ∈ rows, row < v.lists.length) :
    ∃ w, Machine.run rowStep v (rows.map .cellForRowAt) = some w := by
  induction rows generalizing v with
  | nil => exact ⟨v, rfl⟩
  | cons row rows ih =>
    have hlist := List.getElem?_eq_getElem (hrows row List.mem_cons_self)
    obtain ⟨u, hu⟩ : ∃ u, rowStep v (.cellForRowAt row) = some u :=
      ⟨_, Option.map_eq_some_iff.mpr ⟨_, hlist, rfl⟩⟩
    have hframe := rowStep_frame hu
    obtain ⟨w, hw⟩ := ih (v := u) fun r hr => by
      rw [hframe.2.2.1]
      exact hrows r (List.mem_cons_of_mem row hr)
    exact ⟨w, Machine.run_cons.mpr ⟨u, hu, hw⟩⟩

end ShelfRunLemmas

/-- From a tidy store, the save screen of a saved place is opened and its rows are rendered
once each, in any order: Done then leaves the contents as they are. -/
theorem rendered_done_unchanged {s : UserStore} (hs : Tidy s) {place : Place} {j : Nat}
    (hplace : IsRecord s place j) {rows : List Nat}
    (hrows : rows.Perm (List.range (SavePlaceView.load s place).lists.length)) :
    ∃ v issued, Machine.run rowStep (.load s place) (rows.map .cellForRowAt) = some v ∧
      v.tappedDoneBtn = some issued ∧ issued.trapped = false ∧
      SameContents (applyAll s issued.writes) s := by
  have ha := represents_shelvesOf hs
  let selected := rows.filter (SavePlaceView.load s place).savedRow
  have hvalid : ∀ row ∈ rows, row < (SavePlaceView.load s place).lists.length :=
    fun row hrow => List.mem_range.mp (hrows.mem_iff.mp hrow)
  obtain ⟨v, hrun⟩ := render_isSome hvalid
  have hv : v.tappedDoneBtn = (SavePlaceView.selecting s place selected).tappedDoneBtn := by
    have hselected : v.selectedLists = selected := selectedLists_rendered hrun
    obtain ⟨hplace', hsaved, hlists, hids⟩ := run_frame hrun
    cases v
    simp only at hselected hplace' hsaved hlists hids
    subst hselected hplace' hsaved hlists hids
    rfl
  have hnodup : selected.Nodup := (hrows.nodup_iff.mpr List.nodup_range).filter _
  have hfresh : SaveFresh s (.selecting s place selected) :=
    saveFresh_selecting (by simp [hplace.dbId])
      fun row hrow => hvalid row (List.mem_of_mem_filter hrow)
  obtain ⟨issued, h, hdone, hok, hb⟩ := done_represents ha hfresh
    (nodup_listTitles hs.toConsistent hnodup) hplace
  refine ⟨v, issued, hrun, hv.trans hdone, hok, (sameContents_iff hb ha).mpr ?_⟩
  refine Shelves.put_self _ (item_of_get ha hplace.record) ?_ h
  -- the ticked rows are those of the lists that the place is in
  have hsaved : (SavePlaceView.load s place).alreadySavedPlace = true :=
    decide_eq_true (List.length_pos_iff.mpr (hs.listed j _ hplace.record))
  have hrecord : RecordOf (shelvesOf s hs) j (some (docOfPlace place place.list place.id)) :=
    hplace.record ▸ ha.records j
  ext i
  constructor
  · rintro ⟨row, hrow, list, hlist, hid⟩
    have htick := (List.mem_filter.mp hrow).2
    have hget : (SavePlaceView.load s place).lists[row]? = some list := hlist
    simp only [SavePlaceView.savedRow, hget, Option.map_some, Option.getD_some,
      SavePlaceView.ticks, hsaved, Bool.true_and, List.contains_iff_mem] at htick
    obtain ⟨i', hid', htitled⟩ := hfresh.lists list (List.mem_of_getElem? hlist)
    obtain rfl := Option.some.inj (hid.symm.trans hid')
    exact (title_mem_iff hrecord ((titled_iff ha).mp htitled)).mp htick
  · intro hon
    obtain ⟨title, htitle⟩ := Option.isSome_iff_exists.mp ((shelvesOf s hs).labelled j i hon)
    obtain ⟨doc, hdoc, rfl⟩ := (titled_iff ha).mpr htitle
    have hin : doc.title ∈ place.list := (title_mem_iff hrecord htitle).mpr hon
    have hmem : listOfDoc i doc ∈ (SavePlaceView.load s place).lists :=
      mem_sortedByTitle.mpr (mem_getAllList.mpr ⟨i, doc, hdoc, rfl⟩)
    obtain ⟨row, hlt, hget⟩ := List.mem_iff_getElem.mp hmem
    have hget' := List.getElem?_eq_some_iff.mpr ⟨hlt, hget⟩
    refine ⟨row, List.mem_filter.mpr ⟨hrows.mem_iff.mpr (List.mem_range.mpr hlt), ?_⟩,
      listOfDoc i doc, hget', rfl⟩
    simp only [SavePlaceView.savedRow, hget', Option.map_some, Option.getD_some,
      SavePlaceView.ticks, hsaved, Bool.true_and, List.contains_iff_mem]
    exact hin

/-- The place of `exTidy` that is in both lists, its second row rendered first. -/
theorem rendered_done_unchanged_two_lists :
    ∃ v issued, Machine.run rowStep
        (.load exTidy (placeOfDoc 1 (docOfPlace exSavedPlace ["B", "A"] 2)))
        ([1, 0].map .cellForRowAt) = some v ∧
      v.tappedDoneBtn = some issued ∧ issued.trapped = false ∧
      SameContents (applyAll exTidy issued.writes) exTidy :=
  rendered_done_unchanged (by decide +kernel) ⟨rfl, by decide +kernel⟩ (by decide +kernel)

end LocateMe
