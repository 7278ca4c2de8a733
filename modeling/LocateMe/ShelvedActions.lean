import LocateMe.ShelvedStore
import LocateMe.EmptiedList
import LocateMe.ListTitles
import LocateMe.RecentlySaved

/-!
# What the screens do to the shelves

Each screen of the app changes the store in its own way: the save screen with two
loops and a request for the record, the edit screen with two arrays, the swipe with a
query or a request, the delete action with another query. As operations on shelves
they put one item somewhere, give a shelf a title, or take items off shelves.

Results:
1. `represents_newLists`, `represents_put`, `represents_swipe`, `represents_recent`,
   `represents_delete`, `represents_edit`: what each handler does to the shelves.
2. `save_refines`, `edit_refines`, `delete_refines`, `swipe_refines`: an action that is
   ready goes to its end and does what it means.
-/

namespace LocateMe

open Documents StoreLemmas TidyLemmas ShelfLemmas SaveLemmas DetailLemmas ChosenLemmas EditLemmas
  EmptyLemmas RecentLemmas

/-! ## 1. Actions -/

/-- The list that `SavedController` opens for "Recently Saved". -/
def recentlySaved : PlaceList := ⟨"Recently Saved", none, "bookmark", .lightPurple, [], 0⟩

/-- What a user does on a screen that was just opened. The list id `none` is that of
"Recently Saved". -/
inductive Action
  | openLists
  | newList (title : String)
  | save (place : Place) (selected : List Nat)
  | edit (listId : Nat) (taps : List Int) (newTitle : String)
  | deleteList (listId : Nat)
  | swipe (listId : Option Nat) (row : Nat)
deriving DecidableEq

/-- The list and the places that the saved screen hands to the screen it opens. -/
def UserStore.opened (s : UserStore) : Option Nat → Option (PlaceList × List Place)
  | none => some (recentlySaved, getAllPlaces s)
  | some i => (s.lists.get i).map fun doc =>
    (listOfDoc i doc, (getAllPlaces s).filter fun place => doc.places.contains place.id)

/-- All requests succeed. There is no next state after a trap. -/
def Issued.completed (issued : Issued) (s : UserStore) : Option UserStore :=
  if issued.trapped then Option.none else some (applyAll s issued.writes)

def actionStep (s : UserStore) : Action → Option UserStore
  | .openLists => if getAllList s = [] then addDefaultLists.completed s else some s
  | .newList title => (addNewList title).completed s
  | .save place selected =>
    match (SavePlaceView.selecting s place selected).tappedDoneBtn with
    | none => some s
    | some issued => issued.completed s
  | .edit listId taps newTitle => (s.opened (some listId)).bind fun (list, places) =>
    (EditListController.edited list places taps newTitle).tappedDone.completed s
  | .deleteList listId => (s.opened (some listId)).bind fun (list, _) =>
    (SavedController.deleteAction s list).completed s
  | .swipe listId row => (s.opened listId).bind fun (list, places) =>
    (swipeStep list ⟨s, places⟩ row).map ListDetail.store

/-- The place of a row of the list screen. -/
def UserStore.placeAt (s : UserStore) (listId : Option Nat) (row : Nat) : Option Place :=
  (s.opened listId).bind fun opened => opened.2[row]?

/-- The action is possible, new titles are new, a place on the save screen is unsaved
or its record and each row is selected once, and "Recently Saved" is asked for ten lists
at most. -/
def Action.Ready (s : UserStore) : Action → Prop
  | .openLists => True
  | .newList title => ¬ ListTitle s title
  | .save place selected =>
    (place.list ≠ [] → ∃ j ∈ place.dbId,
      s.history.get j = some (docOfPlace place place.list place.id)) ∧
    selected.Nodup ∧ ∀ row ∈ selected, row < (SavePlaceView.load s place).lists.length
  | .edit listId _ newTitle => (s.lists.get listId).isSome ∧
    ∀ i doc, s.lists.get i = some doc → doc.title = newTitle → i = listId
  | .deleteList listId => (s.lists.get listId).isSome
  | .swipe listId row =>
    ∃ place ∈ s.placeAt listId row, listId = none → place.list.length ≤ 10

instance (s : UserStore) (action : Action) : Decidable (action.Ready s) := by
  cases action <;> unfold Action.Ready <;> infer_instance

/-- The record that Done on the save screen writes. -/
def UserStore.recordOf (s : UserStore) (place : Place) : Nat :=
  if place.list = [] then s.history.next else place.dbId.getD s.history.next

/-- The item is not one of those whose delete button was tapped. -/
def Untapped (s : UserStore) (taps : List Int) (j : Nat) : Prop :=
  ¬ ∃ r, s.history.get j = some r ∧ r.id ∈ taps

/-- The actions as operations on shelves. -/
def Action.meaning (s : UserStore) : Action → List (Shelves.Op Nat String Nat HistoryDoc)
  | .openLists =>
    if getAllList s = [] then
      (defaultTitles.zipIdx s.lists.next).map fun (title, i) => .label i title
    else []
  | .newList title => [.label s.lists.next title]
  | .save place selected =>
    let v := SavePlaceView.selecting s place selected
    [.put (s.recordOf place) (docOfPlace place [] v.highestId) {i | v.Selects i}]
  | .edit listId taps newTitle =>
    [.keep fun j i => i = listId → Untapped s taps j, .label listId newTitle]
  | .deleteList listId => [.keep fun _ i => i ≠ listId, .unlabel listId]
  | .swipe listId row =>
    [.keep fun j i => (s.placeAt listId row).bind Place.dbId = some j → ∃ l ∈ listId, i ≠ l]

/-! ## 2. New lists -/

namespace ActionLemmas

theorem next_title {s : UserStore} {a : UserShelves} (hs : Represents s a) :
    a.title s.lists.next = none := by
  rw [← (hs.lists s.lists.next).title, Collection.get_next]
  rfl

theorem represents_newList {s : UserStore} {a : UserShelves} (hs : Represents s a)
    {title : String} (hnew : ¬ ListTitle s title) :
    ∃ h, Represents ((Write.addList title).apply s) (a.label s.lists.next title h) := by
  have hnext : ∀ j, s.lists.next ∉ a.on j := by
    intro j hj
    have hsome := a.labelled j _ hj
    rw [next_title hs] at hsome
    cases hsome
  refine ⟨fun m hm => absurd ⟨m, (titled_iff hs).mpr hm⟩ hnew, fun j => ?_, fun i => ?_, hs.ids⟩
  · exact recordOf_label_other (hs.records j) _ (hnext j)
  · have hget : ((Write.addList title).apply s).lists.get i =
        if i = s.lists.next then some ⟨title, []⟩ else s.lists.get i := rfl
    rw [hget]
    refine listOf_label _ ?_ fun doc hdoc k => ?_
    · split
      · rfl
      · exact (hs.lists i).title
    · split at hdoc
      · next hi =>
        obtain rfl := Option.some.inj hdoc
        refine iff_of_false (by simp) ?_
        rintro ⟨j, -, -, -, hon⟩
        exact hnext j (hi ▸ hon)
      · exact (hs.lists i).places doc hdoc k

/-- New lists, one after the other. -/
theorem represents_newLists {s : UserStore} {a : UserShelves} (hs : Represents s a)
    {titles : List String} (hnodup : titles.Nodup) (hnew : ∀ t ∈ titles, ¬ ListTitle s t) :
    ∃ b, Machine.run Shelves.step a
        ((titles.zipIdx s.lists.next).map fun x => .label x.2 x.1) = some b ∧
      Represents (applyAll s (titles.map Write.addList)) b := by
  induction titles generalizing s a with
  | nil => exact ⟨a, rfl, hs⟩
  | cons title titles ih =>
    obtain ⟨hnot, hnodup⟩ := List.nodup_cons.mp hnodup
    obtain ⟨h, hone⟩ := represents_newList hs (hnew title List.mem_cons_self)
    have hnext : ((Write.addList title).apply s).lists.next = s.lists.next + 1 :=
      max_eq_right (Nat.le_succ _)
    obtain ⟨b, hrun, hb⟩ := ih hone hnodup fun t ht htitle => by
      rcases TitleLemmas.listTitle_addList.mp htitle with rfl | hold
      · exact hnot ht
      · exact hnew t (List.mem_cons_of_mem title ht) hold
    rw [hnext] at hrun
    exact ⟨b, Machine.run_cons.mpr ⟨_, Shelves.step_label.mpr ⟨h, rfl⟩, hrun⟩, hb⟩

/-! ## 3. The save screen -/

/-- Done puts the item on the shelves of the selected rows. -/
theorem represents_put {s t : UserStore} {a : UserShelves} (hs : Represents s a)
    {v : SavePlaceView} (hv : SaveFresh s v) (hnodup : v.listTitles.Nodup) {j : Nat} {k : Int}
    (hown : ∀ i r, s.history.get i = some r → (r.id = k ↔ i = j))
    (hput : PutInSelected s t v j k) :
    ∃ h, Represents t (a.put j (docOfPlace v.currentPlace [] k) {i | v.Selects i} h) := by
  have hconsistent := (tidy_of_represents hs).toConsistent
  have hshelf : ∀ i ∈ {i | v.Selects i}, (a.title i).isSome := by
    rintro i ⟨row, -, l, hl, hid⟩
    obtain ⟨i', hid', htitled⟩ := hv.lists l (List.mem_of_getElem? hl)
    obtain rfl := Option.some.inj (hid.symm.trans hid')
    rw [(titled_iff hs).mp htitled]
    rfl
  let b := a.put j (docOfPlace v.currentPlace [] k) {i | v.Selects i} hshelf
  -- only the item under `j` has the id `k`
  have hitem : ∀ i p, a.item i = some p → (p.id = k ↔ i = j) := by
    intro i p hp
    obtain ⟨r, hr, rfl⟩ := get_of_item hs hp
    exact hown i r hr
  have hitem' : ∀ i p, b.item i = some p → (p.id = k ↔ i = j) := by
    intro i p hp
    rcases eq_or_ne i j with rfl | hne
    · have hS : {i | v.Selects i}.Nonempty := by
        rw [← Shelves.put_on a i (docOfPlace v.currentPlace [] k) hshelf, ← Shelves.standing, hp]
        rfl
      rw [Shelves.put_item a i _ hshelf hS] at hp
      obtain rfl := Option.some.inj hp
      exact iff_of_true rfl rfl
    · rw [Shelves.put_item_of_ne a hne] at hp
      exact hitem i p hp
  refine ⟨hshelf, fun i => ?_, fun i => ?_, fun i i' p q hp hq heq => ?_⟩
  · rcases eq_or_ne i j with rfl | hne
    · rw [hput.record]
      split
      · next hnone =>
        rw [recordOf_none, Shelves.item_eq_none, Shelves.put_on]
        rintro ⟨i', row, hrow, -⟩
        rw [hnone] at hrow
        cases hrow
      · next hsome =>
        obtain ⟨row, hrow⟩ := List.exists_mem_of_ne_nil _ hsome
        obtain ⟨l, hl⟩ := hv.rows row hrow
        obtain ⟨i', hid, -⟩ := hv.lists l (List.mem_of_getElem? hl)
        refine ⟨(Shelves.put_item a i _ hshelf ⟨i', row, hrow, l, hl, hid⟩).symm, fun r hr => ?_,
          fun r hr title => ?_⟩
        · obtain rfl := Option.some.inj hr
          exact hnodup
        · obtain rfl := Option.some.inj hr
          rw [Shelves.put_on]
          constructor
          · intro htitle
            obtain ⟨row, hrow, l, hl, rfl⟩ := mem_listTitles.mp htitle
            obtain ⟨m, hm, htitled⟩ := hv.lists l (List.mem_of_getElem? hl)
            exact ⟨m, ⟨row, hrow, l, hl, hm⟩, (titled_iff hs).mp htitled⟩
          · rintro ⟨m, hm, hmt⟩
            exact (selects_iff hconsistent hv ((titled_iff hs).mpr hmt)).mp hm
    · rw [hput.otherRecords i hne]
      exact recordOf_congr (hs.records i) (Shelves.put_item_of_ne a hne _ hshelf)
        (Shelves.put_on_of_ne a hne _ hshelf) fun _ _ => rfl
  · cases hdoc : s.lists.get i with
    | none =>
      have hnone := hs.lists i
      rw [hdoc, listOf_none] at hnone
      rw [hput.noOtherLists i hdoc]
      exact listOf_none.mpr hnone
    | some doc =>
      obtain ⟨doc', hdoc', htitle, hin, hrest⟩ := hput.lists i doc hdoc
      rw [hdoc']
      refine ⟨(congrArg some htitle).trans (title_of_get hs hdoc).symm, fun d hd k' => ?_⟩
      obtain rfl := Option.some.inj hd
      rcases eq_or_ne k' k with rfl | hne
      · rw [hin]
        constructor
        · intro hi
          exact ⟨j, _, Shelves.put_item a j _ hshelf ⟨i, hi⟩, rfl, by rwa [Shelves.put_on]⟩
        · rintro ⟨i', p, hp, hid, hon⟩
          obtain rfl := (hitem' i' p hp).mp hid
          rwa [Shelves.put_on] at hon
      · -- another id is in the list iff it was
        have hold : k' ∈ doc'.places ↔ k' ∈ doc.places := by
          have hmem : k' ∈ doc'.places.filter (· ≠ k) ↔ k' ∈ doc.places.filter (· ≠ k) := by
            rw [hrest]
          simpa [hne] using hmem
        rw [hold, (hs.lists i).places doc hdoc]
        refine exists_congr fun i' => exists_congr fun p => ?_
        rcases eq_or_ne i' j with rfl | hother
        · refine iff_of_false ?_ ?_
          · rintro ⟨hp, hid, -⟩
            exact hne (hid.symm.trans ((hitem i' p hp).mpr rfl))
          · rintro ⟨hp, hid, -⟩
            exact hne (hid.symm.trans ((hitem' i' p hp).mpr rfl))
        · rw [Shelves.put_item_of_ne a hother, Shelves.put_on_of_ne a hother]
  · by_cases hk : p.id = k
    · rw [(hitem' i p hp).mp hk, (hitem' i' q hq).mp (heq.symm.trans hk)]
    · have hi : i ≠ j := fun h => hk ((hitem' i p hp).mpr h)
      have hi' : i' ≠ j := fun h => hk (heq.trans ((hitem' i' q hq).mpr h))
      rw [Shelves.put_item_of_ne a hi] at hp
      rw [Shelves.put_item_of_ne a hi'] at hq
      exact hs.ids i i' p q hp hq heq

/-- Done for an unsaved place. -/
theorem done_new_put {s : UserStore} (hs : Consistent s) {v : SavePlaceView} (hv : SaveFresh s v)
    (hnew : v.alreadySavedPlace = false) {issued : Issued} (hdone : v.tappedDoneBtn = some issued) :
    issued.trapped = false ∧
      PutInSelected s (applyAll s issued.writes) v s.history.next v.highestId := by
  have hnil := list_of_new hv hnew
  rcases history_done hv hdone with ⟨-, hselected, hhistory⟩ | ⟨j, hold, -⟩
  · refine ⟨congrArg Issued.trapped (done_new hv hnew hdone), ?_⟩
    refine putInSelected_done hs hv (by simp [hnil]) (fun title => ?_) hdone ?_ fun i hne => ?_
    · refine iff_of_false (fun h => ?_) (by simp [hnil])
      obtain ⟨i, hi⟩ := recorded_idAt h
      exact highestId_fresh hv hnew i hi
    · have htitles : v.listTitles ≠ [] := fun h => hselected ((listTitles_eq_nil hv).mp h)
      rw [hhistory, Collection.get_add_self, if_neg htitles]
    · rw [hhistory, Collection.get_add, if_neg hne]
  · rw [hnew] at hold
    cases hold

/-- Done for a saved place. -/
theorem done_saved_put {s : UserStore} (hs : Tidy s) {v : SavePlaceView} (hv : SaveFresh s v)
    (hsaved : v.alreadySavedPlace = true) {j : Nat} (hplace : IsRecord s v.currentPlace j)
    {issued : Issued} (hdone : v.tappedDoneBtn = some issued) :
    issued.trapped = false ∧ PutInSelected s (applyAll s issued.writes) v j v.highestId := by
  have hknown : ∀ t ∈ v.currentPlace.list, ListTitle s t :=
    fun t ht => hs.known j _ hplace.record t ht
  have hid : v.highestId = v.currentPlace.id := if_pos hsaved
  rcases history_done hv hdone with ⟨hnew, -⟩ | ⟨j', -, hj', hhistory⟩
  · rw [hsaved] at hnew
    cases hnew
  · obtain rfl : j = j' := Option.some.inj (hplace.dbId.symm.trans hj')
    have hissued := done_saved hs.toConsistent hv hsaved hj' (fun t ht _ => hknown t ht) hdone
    refine ⟨congrArg Issued.trapped hissued, ?_⟩
    refine putInSelected_done hs.toConsistent hv hknown (fun title => ?_) hdone ?_ fun i hne => ?_
    · rw [hid]
      exact recorded_of_isRecord hs.toConsistent hplace title
    · rw [hhistory, hid]
      split
      · simp
      · simp
    · rw [hhistory]
      split
      · rw [Collection.get_delete, if_neg hne]
      · rw [Collection.get_set, if_neg hne]

/-- The record of a saved place. -/
theorem recordOf_saved {s : UserStore} {place : Place} {j : Nat} (hne : place.list ≠ [])
    (hj : place.dbId = some j) : s.recordOf place = j := by
  simp [UserStore.recordOf, hne, hj]

theorem issued_completed {issued : Issued} (h : issued.trapped = false) (s : UserStore) :
    issued.completed s = some (applyAll s issued.writes) := by
  simp [Issued.completed, h]

/-- Done for a saved place puts its item on the shelves of the selected rows. -/
theorem done_represents {s : UserStore} {a : UserShelves} (hs : Represents s a)
    {v : SavePlaceView} (hv : SaveFresh s v) (hnodup : v.listTitles.Nodup) {j : Nat}
    (hplace : IsRecord s v.currentPlace j) :
    ∃ issued h, v.tappedDoneBtn = some issued ∧ issued.trapped = false ∧
      Represents (applyAll s issued.writes)
        (a.put j v.currentPlace.bare {i | v.Selects i} h) := by
  have htidy := tidy_of_represents hs
  have hne : v.currentPlace.list ≠ [] := htidy.listed j _ hplace.record
  have hsaved : v.alreadySavedPlace = true := by
    rw [hv.saved]
    exact decide_eq_true (List.length_pos_iff.mpr hne)
  obtain ⟨issued, hdone⟩ : ∃ issued, v.tappedDoneBtn = some issued :=
    ⟨_, if_neg fun h => by rw [hsaved] at h; cases h.2⟩
  obtain ⟨hok, hput⟩ := done_saved_put htidy hv hsaved hplace hdone
  have hid : v.highestId = v.currentPlace.id := if_pos hsaved
  rw [hid] at hput
  obtain ⟨h, hb⟩ := represents_put hs hv hnodup (fun i r hr => by
    constructor
    · exact fun heq => htidy.ids ⟨r, hr, heq⟩ ⟨_, hplace.record, rfl⟩
    · rintro rfl
      obtain rfl := Option.some.inj (hr.symm.trans hplace.record)
      rfl) hput
  exact ⟨issued, h, hdone, hok, hb⟩

theorem save_saved {s : UserStore} {a : UserShelves} (hs : Represents s a) {place : Place} {j : Nat}
    (hplace : IsRecord s place j) {selected : List Nat} (hnodup : selected.Nodup)
    (hrows : ∀ row ∈ selected, row < (SavePlaceView.load s place).lists.length) :
    ∃ t h, actionStep s (.save place selected) = some t ∧
      Represents t (a.put j place.bare
        {i | (SavePlaceView.selecting s place selected).Selects i} h) := by
  let v := SavePlaceView.selecting s place selected
  have hv : SaveFresh s v := saveFresh_selecting (by simp [hplace.dbId]) hrows
  have htitles : v.listTitles.Nodup :=
    nodup_listTitles (tidy_of_represents hs).toConsistent hnodup
  obtain ⟨issued, h, hdone, hok, hb⟩ := done_represents hs hv htitles hplace
  refine ⟨_, h, ?_, hb⟩
  simp only [actionStep]
  rw [show (SavePlaceView.selecting s place selected).tappedDoneBtn = some issued from hdone]
  exact issued_completed hok s

/-- Done for an unsaved place puts a new item on the shelves of the selected rows, if any. -/
theorem done_new_represents {s : UserStore} {a : UserShelves} (hs : Represents s a)
    {v : SavePlaceView} (hv : SaveFresh s v) (hnodup : v.listTitles.Nodup)
    (hnil : v.currentPlace.list = []) :
    ∃ h, (v.tappedDoneBtn.getD .none).trapped = false ∧
      Represents (applyAll s (v.tappedDoneBtn.getD .none).writes)
        (a.put s.history.next (docOfPlace v.currentPlace [] v.highestId) {i | v.Selects i} h) := by
  have hnew : v.alreadySavedPlace = false := by
    rw [hv.saved]
    exact decide_eq_false (by simp [hnil])
  cases hdone : v.tappedDoneBtn with
  | none =>
    -- the alert: nothing is selected
    obtain ⟨hselected, -⟩ : v.selectedLists = [] ∧ v.alreadySavedPlace = false := by
      simpa [SavePlaceView.tappedDoneBtn] using hdone
    have hempty : ¬ {i | v.Selects i}.Nonempty := by
      rintro ⟨i, row, hrow, -⟩
      rw [hselected] at hrow
      cases hrow
    have hnext : a.item s.history.next = none := by
      rw [← (hs.records s.history.next).item, Collection.get_next]
      rfl
    refine ⟨fun i hi => absurd ⟨i, hi⟩ hempty, rfl, ?_⟩
    rwa [Shelves.put_nowhere a hnext _ _ hempty]
  | some issued =>
    obtain ⟨hok, hput⟩ := done_new_put (tidy_of_represents hs).toConsistent hv hnew hdone
    obtain ⟨h, hb⟩ := represents_put hs hv hnodup
      (fun i r hr => iff_of_false (fun hid => highestId_fresh hv hnew i ⟨r, hr, hid⟩) fun hi => by
        rw [hi, Collection.get_next] at hr
        cases hr) hput
    exact ⟨h, hok, hb⟩

theorem save_unsaved {s : UserStore} {a : UserShelves} (hs : Represents s a) {place : Place}
    (hnil : place.list = []) {selected : List Nat} (hnodup : selected.Nodup)
    (hrows : ∀ row ∈ selected, row < (SavePlaceView.load s place).lists.length) :
    ∃ t h, actionStep s (.save place selected) = some t ∧
      Represents t (a.put s.history.next
        (docOfPlace place [] (SavePlaceView.selecting s place selected).highestId)
        {i | (SavePlaceView.selecting s place selected).Selects i} h) := by
  let v := SavePlaceView.selecting s place selected
  have hv : SaveFresh s v := saveFresh_selecting (absurd hnil) hrows
  have htitles : v.listTitles.Nodup :=
    nodup_listTitles (tidy_of_represents hs).toConsistent hnodup
  obtain ⟨h, hok, hb⟩ := done_new_represents hs hv htitles hnil
  refine ⟨_, h, ?_, hb⟩
  simp only [actionStep]
  cases hdone : (SavePlaceView.selecting s place selected).tappedDoneBtn with
  | none => rfl
  | some issued =>
    rw [show v.tappedDoneBtn = some issued from hdone] at hok
    exact issued_completed hok s

theorem save_refines {s : UserStore} {a : UserShelves} (hs : Represents s a) {place : Place}
    {selected : List Nat} (hready : (Action.save place selected).Ready s) :
    ∃ t b, actionStep s (.save place selected) = some t ∧
      Machine.run Shelves.step a ((Action.save place selected).meaning s) = some b ∧
      Represents t b := by
  obtain ⟨hplace, hnodup, hrows⟩ := hready
  by_cases hnil : place.list = []
  · obtain ⟨t, h, hstep, hb⟩ := save_unsaved hs hnil hnodup hrows
    have hrecord : s.recordOf place = s.history.next := if_pos hnil
    refine ⟨t, _, hstep, Machine.run_cons.mpr ⟨_, Shelves.step_put.mpr ⟨h, ?_⟩, rfl⟩, hb⟩
    rw [hrecord]
  · obtain ⟨j, hj, hget⟩ := hplace hnil
    obtain ⟨t, h, hstep, hb⟩ := save_saved hs ⟨hj, hget⟩ hnodup hrows
    have hid : (SavePlaceView.selecting s place selected).highestId = place.id :=
      if_pos (decide_eq_true (List.length_pos_iff.mpr hnil))
    refine ⟨t, _, hstep, Machine.run_cons.mpr ⟨_, Shelves.step_put.mpr ⟨h, ?_⟩, rfl⟩, hb⟩
    rw [recordOf_saved hnil hj, hid]
    rfl

/-! ## 4. The list screens -/

/-- The places of a list screen are those of the records on the shelf. -/
theorem mem_opened {s : UserStore} {a : UserShelves} (hs : Represents s a) {i : Nat}
    {doc : ListDoc} (hdoc : s.lists.get i = some doc) {p : Place} :
    p ∈ (getAllPlaces s).filter (fun place => doc.places.contains place.id) ↔
      ∃ j r, s.history.get j = some r ∧ i ∈ a.on j ∧ p = placeOfDoc j r := by
  have hperm := contents_agree (tidy_of_represents hs).toConsistent hdoc
  rw [hperm.mem_iff, mem_getAllPlacesForList]
  refine exists_congr fun j => exists_congr fun r => and_congr_right fun hr => and_congr_left' ?_
  exact title_mem_iff (hr ▸ hs.records j) (title_of_get hs hdoc)

/-- A swipe takes one item off one shelf. -/
theorem represents_swipe {s : UserStore} {a : UserShelves} (hs : Represents s a) {l j : Nat}
    {doc : ListDoc} (hdoc : s.lists.get l = some doc) {r : HistoryDoc}
    (hr : s.history.get j = some r) (hon : l ∈ a.on j) :
    Represents (applyAll s [.removePlaces l [r.id], removal j r.list doc.title])
      (a.keep fun j' i => j' = j → i ≠ l) := by
  obtain ⟨hrecord, hrecords, hlist, hlists⟩ := swipe_get (x := (j, r)) hdoc hr doc.title
  refine ⟨fun j' => ?_, fun i => ?_, keep_ids hs.ids _⟩
  · rcases eq_or_ne j' j with rfl | hne
    · rw [hrecord]
      exact recordOf_withoutTitle (hr ▸ hs.records j') (title_of_get hs hdoc) hon (by simp)
    · rw [hrecords j' hne]
      exact recordOf_keep_all (hs.records j') fun i _ heq => absurd heq hne
  · rcases eq_or_ne i l with rfl | hne
    · have hold : ListOf a i (some doc) := hdoc ▸ hs.lists i
      rw [hlist]
      refine listOf_keep hs.ids hold rfl fun k => ?_
      rw [ListDoc.removePlaces, mem_arrayRemove, List.mem_singleton]
      refine and_congr_right fun _ => ⟨fun hk j' p hp hid => ?_, fun hall hk => ?_⟩
      · rintro rfl
        rw [item_of_get hs hr] at hp
        exact absurd (hid.symm.trans (congrArg HistoryDoc.id (Option.some.inj hp).symm)) hk
      · exact hall j r.bare (item_of_get hs hr) hk.symm rfl rfl
    · rw [hlists i hne]
      exact listOf_keep_all (hs.lists i) fun _ _ _ => hne

/-- A swipe in "Recently Saved" takes one item off all shelves. -/
theorem represents_recent {s t : UserStore} {a : UserShelves} (hs : Represents s a) {j : Nat}
    {r : HistoryDoc} (hr : s.history.get j = some r) (ht : DeletedEverywhere s t j r.id) :
    Represents t (a.keep fun j' _ => j' ≠ j) := by
  refine ⟨fun j' => ?_, fun i => ?_, keep_ids hs.ids _⟩
  · rcases eq_or_ne j' j with rfl | hne
    · rw [ht.record]
      refine recordOf_keep (hr ▸ hs.records j') (fun _ => rfl) fun i _ hstays => ?_
      exact absurd rfl hstays
    · rw [ht.otherRecords j' hne]
      exact recordOf_keep_all (hs.records j') fun _ _ => hne
  · rw [ht.lists i]
    cases hdoc : s.lists.get i with
    | none =>
      have hnone := hs.lists i
      rw [hdoc, listOf_none] at hnone
      exact listOf_none.mpr hnone
    | some doc =>
      have hold : ListOf a i (some doc) := hdoc ▸ hs.lists i
      refine listOf_keep hs.ids hold rfl fun k => ?_
      rw [List.mem_filter, decide_eq_true_iff]
      refine and_congr_right fun _ => ⟨fun hk j' p hp hid => ?_, fun hall hk => ?_⟩
      · rintro rfl
        rw [item_of_get hs hr] at hp
        exact absurd (hid.symm.trans (congrArg HistoryDoc.id (Option.some.inj hp).symm)) hk
      · exact hall j r.bare (item_of_get hs hr) hk.symm rfl

/-- The swipe of a place that is stored takes it off the shelf of the list, or off all
shelves in "Recently Saved". -/
theorem represents_commitDelete {s : UserStore} {a : UserShelves} (hs : Represents s a)
    {list : PlaceList} {j : Nat} {r : HistoryDoc} (hr : s.history.get j = some r)
    (hlist : ∀ l ∈ list.id, Titled s l list.title ∧ list.title ∈ r.list)
    (hshort : list.id = none → r.list.length ≤ 10) :
    (commitDelete s list (placeOfDoc j r)).trapped = false ∧
      Represents (applyAll s (commitDelete s list (placeOfDoc j r)).writes)
        (a.keep fun j' i => j' = j → ∃ l ∈ list.id, i ≠ l) := by
  cases hid : list.id with
  | some l =>
    obtain ⟨⟨doc, hdoc, htitle⟩, hin⟩ := hlist l hid
    rw [← htitle] at hin
    have hon := (title_mem_iff (hr ▸ hs.records j) (title_of_get hs hdoc)).mp hin
    have hkeep : (fun j' i => j' = j → ∃ l' ∈ some l, i ≠ l') = fun j' i => j' = j → i ≠ l := by
      simp
    rw [swipe_record hid s j r, hkeep, ← htitle]
    exact ⟨rfl, represents_swipe hs hdoc hr hon⟩
  | none =>
    have htidy := tidy_of_represents hs
    have haccepted : ¬ ((placeOfDoc j r).list = [] ∨ 10 < (placeOfDoc j r).list.length) := by
      rintro (hnil | hlong)
      · exact htidy.listed j r hr hnil
      · exact not_le.mpr hlong (hshort hid)
    have hkeep : (fun j' i => j' = j → ∃ l ∈ (none : Option Nat), i ≠ l) =
        fun (j' _ : Nat) => j' ≠ j := by
      simp
    have hrecord : IsRecord s (placeOfDoc j r) j := ⟨rfl, hr⟩
    rw [commitDelete_recent hid haccepted rfl, hkeep]
    exact ⟨rfl, represents_recent hs hr (deletedEverywhere_recent htidy.toConsistent hrecord)⟩

/-- The delete action empties a shelf and takes it away. -/
theorem represents_delete {s t : UserStore} {a : UserShelves} (hs : Represents s a) {l : Nat}
    {doc : ListDoc} (hdoc : s.lists.get l = some doc) (ht : Emptied s t l doc.title)
    (hgone : t.lists.get l = none) :
    ∃ h, Represents t ((a.keep fun _ i => i ≠ l).unlabel l h) := by
  have hl := title_of_get hs hdoc
  let b := a.keep fun _ i => i ≠ l
  have hleft : ∀ j, l ∉ b.on j := fun j hj => hj.2 rfl
  -- on the shelves that are left nothing changes
  have hother : ∀ i, i ≠ l → (b.unlabel l hleft).title i = b.title i :=
    fun i hne => Function.update_of_ne hne _ _
  refine ⟨hleft, fun j => ?_, fun i => ?_, keep_ids hs.ids _⟩
  · have hb : RecordOf b j (t.history.get j) := by
      rw [ht.history]
      cases hr : s.history.get j with
      | none =>
        have hnone : RecordOf a j none := hr ▸ hs.records j
        refine recordOf_keep_all hnone fun i hi => ?_
        exact absurd ⟨i, hi⟩ (Shelves.item_eq_none.mp (recordOf_none.mp hnone))
      | some r =>
        have hold : RecordOf a j (some r) := hr ▸ hs.records j
        show RecordOf b j (if doc.title ∈ r.list then r.withoutTitle doc.title else some r)
        split
        · next hin =>
          exact recordOf_withoutTitle hold hl ((title_mem_iff hold hl).mp hin) fun i => Iff.rfl
        · next hout =>
          refine recordOf_keep_all hold fun i hi heq => hout ?_
          exact (title_mem_iff hold hl).mpr (heq ▸ hi)
    exact recordOf_congr hb rfl rfl fun i hi => hother i fun heq => hleft j (heq ▸ hi)
  · rcases eq_or_ne i l with rfl | hne
    · rw [hgone]
      exact listOf_none.mpr (Function.update_self _ _ _)
    · rw [ht.otherLists i hne]
      have hb : ListOf b i (s.lists.get i) := listOf_keep_all (hs.lists i) fun _ _ => hne
      exact ⟨hb.title.trans (hother i hne).symm, hb.places⟩

/-! ## 5. The edit screen -/

theorem untapped_iff {s : UserStore} {taps : List Int} {j : Nat} {r : HistoryDoc}
    (hr : s.history.get j = some r) : Untapped s taps j ↔ r.id ∉ taps := by
  simp [Untapped, hr]

/-- Done takes the tapped items off the shelf and gives it the new title. -/
theorem represents_edit {s t : UserStore} {a : UserShelves} (hs : Represents s a) {l : Nat}
    {doc : ListDoc} (hdoc : s.lists.get l = some doc) {newTitle : String}
    (hnew : ∀ m, a.title m = some newTitle → m = l) {taps : List Int} {kept removed : List Place}
    (hremoved : ∀ k, k ∈ removed.map Place.id ↔
      ∃ j r, s.history.get j = some r ∧ l ∈ a.on j ∧ r.id = k ∧ k ∈ taps)
    (hkept : ∀ k, k ∈ kept.map Place.id ↔
      ∃ j r, s.history.get j = some r ∧ l ∈ a.on j ∧ r.id = k ∧ k ∉ taps)
    (ht : EditedList s t l doc newTitle kept removed) :
    Represents t ((a.keep fun j i => i = l → Untapped s taps j).label l newTitle hnew) := by
  have hl := title_of_get hs hdoc
  let b := a.keep fun j i => i = l → Untapped s taps j
  have hone : ∀ i j r r', s.history.get i = some r → s.history.get j = some r' → r'.id = r.id →
      i = j := fun i j r r' hr hr' heq =>
    (tidy_of_represents hs).ids ⟨r, hr, rfl⟩ ⟨r', hr', heq⟩
  -- a record is among the removed or the kept ones iff its item is on the shelf
  have hgone : ∀ j r, s.history.get j = some r →
      (r.id ∈ removed.map Place.id ↔ l ∈ a.on j ∧ r.id ∈ taps) := by
    intro j r hr
    rw [hremoved]
    constructor
    · rintro ⟨j', r', hr', hon, hid, hin⟩
      obtain rfl := hone j j' r r' hr hr' hid
      exact ⟨hon, hin⟩
    · exact fun ⟨hon, hin⟩ => ⟨j, r, hr, hon, rfl, hin⟩
  have hstay : ∀ j r, s.history.get j = some r →
      (r.id ∈ kept.map Place.id ↔ l ∈ a.on j ∧ r.id ∉ taps) := by
    intro j r hr
    rw [hkept]
    constructor
    · rintro ⟨j', r', hr', hon, hid, hin⟩
      obtain rfl := hone j j' r r' hr hr' hid
      exact ⟨hon, hin⟩
    · exact fun ⟨hon, hin⟩ => ⟨j, r, hr, hon, rfl, hin⟩
  refine ⟨fun j => ?_, fun i => ?_, keep_ids hs.ids _⟩
  · cases hr : s.history.get j with
    | none =>
      have hnone : RecordOf a j none := hr ▸ hs.records j
      have hoff : ∀ i, i ∉ a.on j := fun i hi =>
        absurd ⟨i, hi⟩ (Shelves.item_eq_none.mp (recordOf_none.mp hnone))
      rw [ht.noOtherRecords j hr]
      exact recordOf_label_other (recordOf_keep_all hnone fun i hi => absurd hi (hoff i)) hnew
        fun hi => hoff l hi.1
    | some r =>
      have hold : RecordOf a j (some r) := hr ▸ hs.records j
      by_cases hon : l ∈ a.on j
      · have hin : doc.title ∈ r.list := (title_mem_iff hold hl).mpr hon
        by_cases htap : r.id ∈ taps
        · rw [ht.removedRecords j r hr ((hgone j r hr).mpr ⟨hon, htap⟩), ← withoutTitle_eq hin]
          have hstays : ∀ i, (i = l → Untapped s taps j) ↔ i ≠ l := by simp [untapped_iff hr, htap]
          exact recordOf_label_other (recordOf_withoutTitle hold hl hon hstays) hnew
            fun hi => (hstays l).mp hi.2 rfl
        · rw [ht.keptRecords j r hr ((hstay j r hr).mpr ⟨hon, htap⟩)]
          refine recordOf_label (recordOf_keep_all hold fun i _ _ => ?_) hl hnew
          exact (untapped_iff hr).mpr htap
      · rw [ht.otherRecords j r hr (fun h => hon ((hgone j r hr).mp h).1)
          fun h => hon ((hstay j r hr).mp h).1]
        have hb : RecordOf b j (some r) := recordOf_keep_all hold fun i hi heq => by
          subst heq
          exact absurd hi hon
        exact recordOf_label_other hb hnew fun hi => hon hi.1
  · rcases eq_or_ne i l with rfl | hne
    · obtain ⟨doc', hdoc', htitle, hplaces⟩ := ht.list
      have hold : ListOf a i (some doc) := hdoc ▸ hs.lists i
      -- the list with its old title has lost the tapped ids
      have hb : ListOf b i (some ⟨doc.title, doc'.places⟩) := by
        refine listOf_keep hs.ids hold rfl fun k => ?_
        show k ∈ doc'.places ↔ _
        rw [hplaces, hkept, hold.places doc rfl]
        constructor
        · rintro ⟨j, r, hr, hon, hid, hin⟩
          refine ⟨⟨j, r.bare, item_of_get hs hr, hid, hon⟩, fun j' p hp hid' _ => ?_⟩
          obtain ⟨r', hr', rfl⟩ := get_of_item hs hp
          exact (untapped_iff hr').mpr fun h => hin (hid' ▸ h)
        · rintro ⟨⟨j, p, hp, hid, hon⟩, hall⟩
          obtain ⟨r, hr, rfl⟩ := get_of_item hs hp
          exact ⟨j, r, hr, hon, hid, hid ▸ (untapped_iff hr).mp (hall j r.bare hp hid rfl)⟩
      have htitle' : (some doc').map ListDoc.title =
          if i = i then some newTitle else b.title i := by
        rw [if_pos rfl, Option.map_some, htitle]
      rw [hdoc']
      refine listOf_label (a := b) hnew htitle' fun d hd => ?_
      obtain rfl := Option.some.inj hd
      exact hb.places ⟨doc.title, doc'.places⟩ rfl
    · have hb : ListOf b i (s.lists.get i) :=
        listOf_keep_all (hs.lists i) fun j _ heq => absurd heq hne
      have htitle : (s.lists.get i).map ListDoc.title =
          if i = l then some newTitle else b.title i := by
        rw [if_neg hne]
        exact hb.title
      rw [ht.otherLists i hne]
      exact listOf_label (a := b) hnew htitle hb.places

/-- Done on an edit screen that shows the places of its list. -/
theorem done_edited {s : UserStore} {a : UserShelves} (hs : Represents s a)
    {e : EditListController} {l : Nat} {doc : ListDoc} (hid : e.list.id = some l)
    (hdoc : s.lists.get l = some doc) (htitle : e.list.title = doc.title)
    (hnew : ∀ m, a.title m = some e.editedListTitle → m = l)
    (hshown : ShowsList s doc (e.places ++ e.selectedPlaces)) {taps : List Int}
    (htaps : ∀ p ∈ e.places ++ e.selectedPlaces, p ∈ e.selectedPlaces ↔ p.id ∈ taps) :
    e.tappedDone.trapped = false ∧ Represents (applyAll s e.tappedDone.writes)
      ((a.keep fun j i => i = l → Untapped s taps j).label l e.editedListTitle hnew) := by
  have htidy := tidy_of_represents hs
  have hmem : ∀ p, p ∈ e.places ++ e.selectedPlaces ↔
      ∃ j r, s.history.get j = some r ∧ l ∈ a.on j ∧ p = placeOfDoc j r :=
    fun p => hshown.mem_iff.trans (mem_opened hs hdoc)
  -- no place is in both arrays
  have hnodup := nodup_shown htidy.toConsistent hshown
  rw [List.map_append, List.nodup_append] at hnodup
  have hplaces : ∀ p ∈ e.places ++ e.selectedPlaces, p ∈ e.places ↔ p.id ∉ taps := by
    intro p hp
    rw [← htaps p hp]
    constructor
    · exact fun hin hin' =>
        hnodup.2.2 p.id (List.mem_map_of_mem hin) p.id (List.mem_map_of_mem hin') rfl
    · exact fun hout => (List.mem_append.mp hp).resolve_right hout
  have hids : ∀ (ps : List Place) (P : Int → Prop), (∀ p ∈ ps, p ∈ e.places ++ e.selectedPlaces) →
      (∀ p ∈ e.places ++ e.selectedPlaces, p ∈ ps ↔ P p.id) →
      ∀ k, k ∈ ps.map Place.id ↔ ∃ j r, s.history.get j = some r ∧ l ∈ a.on j ∧ r.id = k ∧ P k := by
    intro ps P hin hps k
    rw [List.mem_map]
    constructor
    · rintro ⟨p, hp, rfl⟩
      obtain ⟨j, r, hr, hon, rfl⟩ := (hmem p).mp (hin p hp)
      exact ⟨j, r, hr, hon, rfl, (hps _ (hin _ hp)).mp hp⟩
    · rintro ⟨j, r, hr, hon, rfl, hP⟩
      have hp := (hmem (placeOfDoc j r)).mpr ⟨j, r, hr, hon, rfl⟩
      exact ⟨placeOfDoc j r, (hps _ hp).mpr hP, rfl⟩
  obtain ⟨ks, rs, hkept, hremoved, hrecords⟩ := split_records htidy.toConsistent hdoc hshown
  rw [tappedDone_records hid hkept hremoved, htitle]
  have hgone := hids e.selectedPlaces (· ∈ taps) (fun _ hp => List.mem_append_right _ hp) htaps
  have hstay := hids e.places (· ∉ taps) (fun _ hp => List.mem_append_left _ hp) hplaces
  rw [hkept] at hstay
  rw [hremoved] at hgone
  have hedit := editedList_done htidy hdoc e.editedListTitle hrecords
  exact ⟨rfl, represents_edit hs hdoc hnew hgone hstay hedit⟩

theorem edit_refines {s : UserStore} {a : UserShelves} (hs : Represents s a) {l : Nat}
    {taps : List Int} {newTitle : String} (hready : (Action.edit l taps newTitle).Ready s) :
    ∃ t b, actionStep s (.edit l taps newTitle) = some t ∧
      Machine.run Shelves.step a ((Action.edit l taps newTitle).meaning s) = some b ∧
      Represents t b := by
  obtain ⟨hsome, hown⟩ := hready
  obtain ⟨doc, hdoc⟩ := Option.isSome_iff_exists.mp hsome
  have htidy := tidy_of_represents hs
  have hnew : ∀ m, a.title m = some newTitle → m = l := by
    intro m hm
    obtain ⟨d, hd, htitle⟩ := (titled_iff hs).mpr hm
    exact hown m d hd htitle
  let places := (getAllPlaces s).filter fun place => doc.places.contains place.id
  let e := EditListController.edited (listOfDoc l doc) places taps newTitle
  have hopened : ShowsList s doc places := List.Perm.refl _
  have hlist : e.list = listOfDoc l doc := list_taps (.load (listOfDoc l doc) places) taps
  have hperm : (e.places ++ e.selectedPlaces).Perm places := by
    have htaps := perm_taps (.load (listOfDoc l doc) places) taps
    rwa [EditListController.load, List.append_nil] at htaps
  have hselected : ∀ p ∈ e.places ++ e.selectedPlaces, p ∈ e.selectedPlaces ↔ p.id ∈ taps := by
    intro p hp
    refine (mem_selectedPlaces_taps (c := .load (listOfDoc l doc) places)
      (nodup_shown htidy.toConsistent hopened) taps p).trans ?_
    simp [EditListController.load, hperm.mem_iff.mp hp]
  obtain ⟨hok, hb⟩ := done_edited hs (by rw [hlist]; rfl) hdoc (by rw [hlist]; rfl) hnew
    (hperm.trans hopened) hselected
  refine ⟨_, _, ?_, ?_, hb⟩
  · simp only [actionStep, UserStore.opened, hdoc, Option.map_some, Option.bind_some]
    exact issued_completed hok s
  · refine Machine.run_cons.mpr ⟨_, rfl, Machine.run_cons.mpr ⟨_, ?_, rfl⟩⟩
    exact Shelves.step_label.mpr ⟨hnew, rfl⟩

/-! ## 6. The other actions -/

theorem delete_refines {s : UserStore} {a : UserShelves} (hs : Represents s a) {l : Nat}
    (hready : (Action.deleteList l).Ready s) :
    ∃ t b, actionStep s (.deleteList l) = some t ∧
      Machine.run Shelves.step a ((Action.deleteList l).meaning s) = some b ∧ Represents t b := by
  obtain ⟨doc, hdoc⟩ := Option.isSome_iff_exists.mp hready
  have hid : (listOfDoc l doc).id = some l := rfl
  obtain ⟨hok, hempty, hgone⟩ := emptied_delete s hid
  obtain ⟨h, hb⟩ := represents_delete hs hdoc hempty hgone
  refine ⟨_, _, ?_, Machine.run_cons.mpr ⟨_, rfl, Machine.run_cons.mpr
    ⟨_, Shelves.step_unlabel.mpr ⟨h, rfl⟩, rfl⟩⟩, hb⟩
  simp [actionStep, UserStore.opened, hdoc, Issued.completed, hok]

theorem swipe_refines {s : UserStore} {a : UserShelves} (hs : Represents s a)
    {listId : Option Nat} {row : Nat} (hready : (Action.swipe listId row).Ready s) :
    ∃ t b, actionStep s (.swipe listId row) = some t ∧
      Machine.run Shelves.step a ((Action.swipe listId row).meaning s) = some b ∧
      Represents t b := by
  obtain ⟨place, hplace, hshort⟩ := hready
  rw [Option.mem_def] at hplace
  obtain ⟨⟨list, places⟩, hopened, hrow⟩ := Option.bind_eq_some_iff.mp hplace
  -- a row of either screen is a record, and lists the title of the screen
  obtain ⟨j, r, hr, rfl, hid, hlist⟩ : ∃ j r, s.history.get j = some r ∧ place = placeOfDoc j r ∧
      list.id = listId ∧ ∀ l ∈ list.id, Titled s l list.title ∧ list.title ∈ r.list := by
    cases listId with
    | some l =>
      obtain ⟨doc, hdoc, heq⟩ := Option.map_eq_some_iff.mp hopened
      obtain ⟨rfl, rfl⟩ := Prod.mk.inj heq
      obtain ⟨j, r, hr, hon, hplace⟩ := (mem_opened hs hdoc).mp (List.mem_of_getElem? hrow)
      have hin := (title_mem_iff (hr ▸ hs.records j) (title_of_get hs hdoc)).mpr hon
      refine ⟨j, r, hr, hplace, rfl, fun l' hl' => ?_⟩
      obtain rfl := Option.some.inj hl'
      exact ⟨⟨doc, hdoc, rfl⟩, hin⟩
    | none =>
      obtain ⟨rfl, rfl⟩ := Prod.mk.inj (Option.some.inj hopened)
      obtain ⟨j, r, hr, hplace⟩ := mem_getAllPlaces.mp (List.mem_of_getElem? hrow)
      exact ⟨j, r, hr, hplace, rfl, by simp [recentlySaved]⟩
  obtain ⟨hok, hb⟩ := represents_commitDelete hs hr hlist fun hnone => hshort (hid ▸ hnone)
  have hkeep : (fun j' i => (s.placeAt listId row).bind Place.dbId = some j' →
      ∃ l ∈ listId, i ≠ l) = fun j' i => j' = j → ∃ l ∈ list.id, i ≠ l := by
    funext j' i
    simp [hplace, hid, placeOfDoc, eq_comm]
  refine ⟨_, _, ?_, by rw [Action.meaning, hkeep]; rfl, hb⟩
  simp [actionStep, hopened, swipeStep, hrow, hok]

end ActionLemmas

end LocateMe
