import LocateMe.Integrity
import LocateMe.ListScreens

/-!
# What the actions do to a consistent store

For every action, the relations of the store after its writes in terms of those
before, and the conditions on the objects that the screen holds under which a
consistent store stays consistent.

Results:
1. `consistent_addList`, `consistent_addLists`: new lists.
2. `consistent_commitDelete`: a place swiped out of a list.
3. `consistent_deleteAction`: a deleted list.
4. `consistent_tappedDone`: the edit screen.
-/

namespace LocateMe

open Documents StoreLemmas

/-! ## 1. New lists -/

/-- No list has this title, and no record lists it. -/
structure NewTitle (s : UserStore) (title : String) : Prop where
  list : ¬ ListTitle s title
  record : ∀ k, ¬ Recorded s k title

theorem newTitle_iff {s : UserStore} {title : String} :
    NewTitle s title ↔ ¬ ListTitle s title ∧ ∀ x ∈ s.history.documents, title ∉ x.2.list := by
  constructor
  · rintro ⟨hlist, hrecord⟩
    exact ⟨hlist, fun x hx hin => hrecord x.2.id (recorded_iff.mpr ⟨x, hx, rfl, hin⟩)⟩
  · rintro ⟨hlist, hrecord⟩
    refine ⟨hlist, fun k hk => ?_⟩
    obtain ⟨x, hx, -, hin⟩ := recorded_iff.mp hk
    exact hrecord x hx hin

instance (s : UserStore) (title : String) : Decidable (NewTitle s title) :=
  decidable_of_iff _ newTitle_iff.symm

theorem consistent_addList {s : UserStore} (hs : Consistent s) {title : String}
    (hnew : NewTitle s title) : Consistent ((Write.addList title).apply s) where
  titles := by
    intro i j t hi hj
    rw [titled_addList] at hi hj
    rcases hi with ⟨rfl, rfl⟩ | hi <;> rcases hj with ⟨rfl, heq⟩ | hj
    · rfl
    · exact absurd ⟨j, hj⟩ hnew.list
    · exact absurd ⟨i, heq ▸ hi⟩ hnew.list
    · exact hs.titles hi hj
  ids := hs.ids
  integrity := by
    intro i t k hi
    rw [listed_addList]
    rcases titled_addList.mp hi with ⟨rfl, rfl⟩ | hold
    · -- the new list is empty, and no record lists its title
      refine iff_of_false ?_ (hnew.record k)
      rintro ⟨d, hd, -⟩
      rw [Collection.get_next] at hd
      cases hd
    · exact hs.integrity i t k hold

theorem consistent_addLists {s : UserStore} (hs : Consistent s) {titles : List String}
    (hnodup : titles.Nodup) (hnew : ∀ title ∈ titles, NewTitle s title) :
    Consistent (applyAll s (titles.map Write.addList)) := by
  induction titles generalizing s with
  | nil => exact hs
  | cons title titles ih =>
    obtain ⟨hnot, hrest⟩ := List.nodup_cons.mp hnodup
    refine ih (consistent_addList hs (hnew title List.mem_cons_self)) hrest fun t ht =>
      ⟨fun ⟨i, hi⟩ => ?_, (hnew t (List.mem_cons_of_mem title ht)).record⟩
    rcases titled_addList.mp hi with ⟨-, rfl⟩ | hold
    · exact hnot ht
    · exact (hnew t (List.mem_cons_of_mem title ht)).list ⟨i, hold⟩

/-! ## 2. Removing places from a list -/

/-- The title and the document id belong to the same list, or to none. -/
def SameList (s : UserStore) (l : Nat) (title : String) : Prop :=
  ∀ i t, Titled s i t → (t = title ↔ i = l)

instance (s : UserStore) (l : Nat) (title : String) : Decidable (SameList s l title) :=
  decidable_of_iff (∀ x ∈ s.lists.documents, (x.2.title = title ↔ x.1 = l))
    (by simp [SameList, Titled])

/-- The document id that a screen holds goes with the id that it holds. -/
def SamePlace (s : UserStore) (placeId : Option Nat) (id : Int) : Prop :=
  ∀ j, placeId = some j → SameRecord s j id

instance (s : UserStore) (placeId : Option Nat) (id : Int) : Decidable (SamePlace s placeId id) :=
  match placeId with
  | none => .isTrue (by simp [SamePlace])
  | some j => decidable_of_iff (SameRecord s j id) (by simp [SamePlace])

/-- Removing the title from the records of some ids and the ids from the list
of that title keeps a store consistent. -/
theorem consistent_of_removal {s t : UserStore} (hs : Consistent s) {l : Nat} {title : String}
    (hl : SameList s l title) (ks : List Int)
    (htitled : ∀ i u, Titled t i u ↔ Titled s i u)
    (hids : ∀ j k, IdAt t j k → IdAt s j k)
    (hrecorded : ∀ k u, ListTitle s u → (Recorded t k u ↔ Recorded s k u ∧ ¬ (u = title ∧ k ∈ ks)))
    (hlisted : ∀ i k, Listed t i k ↔ Listed s i k ∧ ¬ (i = l ∧ k ∈ ks)) : Consistent t where
  titles hi hj := hs.titles ((htitled _ _).mp hi) ((htitled _ _).mp hj)
  ids hi hj := hs.ids (hids _ _ hi) (hids _ _ hj)
  integrity := by
    intro i u k hi
    have hi' := (htitled i u).mp hi
    rw [hlisted, hrecorded k u ⟨i, hi'⟩, hs.integrity i u k hi', hl i u hi']

/-- What `removeListOf` needs of a record that a screen or a query holds: its
document id still goes with its id, and when the record is to be deleted it is in
no list but the one it is removed from. -/
structure Removable (s : UserStore) (title : String) (placeId : Option Nat) (id : Int)
    (list : List String) : Prop where
  same : SamePlace s placeId id
  last : list.length = 1 → ∀ u, ListTitle s u → Recorded s id u → u = title

instance (s : UserStore) (title : String) (placeId : Option Nat) (id : Int) (list : List String) :
    Decidable (Removable s title placeId id list) :=
  decidable_of_iff (SamePlace s placeId id ∧
      (list.length = 1 → ∀ u, ListTitle s u → Recorded s id u → u = title))
    ⟨fun h => ⟨h.1, h.2⟩, fun h => ⟨h.same, h.last⟩⟩

theorem removable_mono {s t : UserStore} {title : String} {placeId : Option Nat} {id : Int}
    {list : List String} (h : Removable s title placeId id list)
    (htitled : ∀ i u, Titled t i u ↔ Titled s i u) (hids : ∀ j k, IdAt t j k → IdAt s j k)
    (hmono : ∀ k u, Recorded t k u → Recorded s k u) : Removable t title placeId id list where
  same j hj i k hi := h.same j hj i k (hids i k hi)
  last hone u := by
    rintro ⟨i, hi⟩ hu
    exact h.last hone u ⟨i, (htitled i u).mp hi⟩ (hmono id u hu)

/-- One removal: the record loses the title, whether it is deleted or changed. -/
theorem removeListOf_spec {s : UserStore} {title : String} {placeId : Option Nat} {id : Int}
    {list : List String} (hstored : placeId ≠ none) (h : Removable s title placeId id list) :
    ∃ w, removeListOf placeId list title = .send [w] ∧ (w.apply s).lists = s.lists ∧
      (∀ j k, IdAt (w.apply s) j k → IdAt s j k) ∧
      (∀ k u, Recorded (w.apply s) k u → Recorded s k u) ∧
      ∀ k u, ListTitle s u →
        (Recorded (w.apply s) k u ↔ Recorded s k u ∧ ¬ (u = title ∧ k = id)) := by
  obtain ⟨j, rfl⟩ := Option.ne_none_iff_exists'.mp hstored
  have hsame := h.same j rfl
  unfold removeListOf
  split
  · next hone =>
    refine ⟨.deleteHistory j, rfl, rfl, fun i k hi => (idAt_deleteHistory.mp hi).2,
      fun k u hu => ((recorded_deleteHistory hsame).mp hu).1, fun k u hknown => ?_⟩
    rw [recorded_deleteHistory hsame]
    constructor
    · exact fun ⟨hrec, hk⟩ => ⟨hrec, fun hand => hk hand.2⟩
    · rintro ⟨hrec, hnot⟩
      refine ⟨hrec, ?_⟩
      rintro rfl
      exact hnot ⟨h.last hone u hknown hrec, rfl⟩
  · refine ⟨.removeTitles j [title], rfl, rfl, fun i k hi => idAt_removeTitles.mp hi,
      fun k u hu => ((recorded_removeTitles hsame).mp hu).1, fun k u _ => ?_⟩
    rw [recorded_removeTitles hsame, List.mem_singleton]
    tauto

/-- The loop of `removeListFromAllPlaces` and `removeListFromAllSelectedPlaces`. -/
theorem removeListOf_loop {α : Type} {s : UserStore} (title : String) (placeId : α → Option Nat)
    (id : α → Int) (list : α → List String) (xs : List α) (hstored : ∀ x ∈ xs, placeId x ≠ none)
    (h : ∀ x ∈ xs, Removable s title (placeId x) (id x) (list x)) :
    ∃ ws, (Issued.forEach xs fun x => removeListOf (placeId x) (list x) title) = .send ws ∧
      (applyAll s ws).lists = s.lists ∧
      (∀ j k, IdAt (applyAll s ws) j k → IdAt s j k) ∧
      (∀ k u, Recorded (applyAll s ws) k u → Recorded s k u) ∧
      ∀ k u, ListTitle s u →
        (Recorded (applyAll s ws) k u ↔ Recorded s k u ∧ ¬ (u = title ∧ k ∈ xs.map id)) := by
  induction xs generalizing s with
  | nil => exact ⟨[], rfl, rfl, fun _ _ h => h, fun _ _ h => h, by simp⟩
  | cons x xs ih =>
    obtain ⟨w, hw, hlists, hids, hmono, hrecorded⟩ :=
      removeListOf_spec (hstored x List.mem_cons_self) (h x List.mem_cons_self)
    have htitled : ∀ i u, Titled (w.apply s) i u ↔ Titled s i u := fun _ _ => titled_congr hlists
    obtain ⟨ws, hws, hlists', hids', hmono', hrecorded'⟩ := ih (s := w.apply s)
      (fun y hy => hstored y (List.mem_cons_of_mem x hy)) fun y hy =>
        removable_mono (h y (List.mem_cons_of_mem x hy)) htitled hids hmono
    refine ⟨w :: ws, ?_, hlists'.trans hlists, fun j k hj => hids j k (hids' j k hj),
      fun k u hu => hmono k u (hmono' k u hu), fun k u hknown => ?_⟩
    · rw [Issued.forEach_cons, hw, hws]
      rfl
    · obtain ⟨i, hi⟩ := hknown
      rw [applyAll_cons, hrecorded' k u ⟨i, (htitled i u).mpr hi⟩, hrecorded k u ⟨i, hi⟩,
        List.map_cons, List.mem_cons]
      tauto

/-- A place is swiped out of a list with an id: the place can be removed, and
the list's id and title still go together. -/
theorem consistent_commitDelete {s : UserStore} (hs : Consistent s) {list : PlaceList} {l : Nat}
    (hid : list.id = some l) (hl : SameList s l list.title) {place : Place}
    (hstored : place.dbId ≠ none) (hplace : Removable s list.title place.dbId place.id place.list) :
    Consistent (applyAll s (commitDelete s list place).writes) := by
  -- the list is changed first
  let u := (Write.removePlaces l [place.id]).apply s
  have hplace' : Removable u list.title place.dbId place.id place.list :=
    removable_mono hplace (fun _ _ => titled_removePlaces) (fun _ _ h => h) fun _ _ h => h
  obtain ⟨w, hw, hlists, hids, -, hrecorded⟩ := removeListOf_spec hstored hplace'
  have hcommit : commitDelete s list place =
      .send [.removePlaces l [place.id], w] := by
    simp only [commitDelete, hid, removePlaceFromList, hw]
    rfl
  rw [hcommit]
  refine consistent_of_removal hs hl [place.id] ?_ hids ?_ ?_
  · exact fun i title => (titled_congr hlists).trans titled_removePlaces
  · rintro k title ⟨i, hi⟩
    rw [List.mem_singleton]
    exact hrecorded k title ⟨i, titled_removePlaces.mpr hi⟩
  · exact fun i k => (listed_congr hlists).trans listed_removePlaces

/-- A loop whose rounds each send at most one request. -/
theorem forEach_filterMap {α β : Type} {body : α → Issued} {f : α → Option β} {w : β → Write}
    {xs : List α} (h : ∀ x ∈ xs, body x = (f x).elim .none fun y => .send [w y]) :
    Issued.forEach xs body = .send ((xs.filterMap f).map w) := by
  have hbody : ∀ x ∈ xs, body x = .send ((f x).toList.map w) := by
    intro x hx
    rw [h x hx]
    cases f x <;> rfl
  rw [Issued.forEach_send hbody]
  congr 1
  induction xs with
  | nil => rfl
  | cons x xs ih =>
    rw [List.flatMap_cons, List.filterMap_cons,
      ih (fun y hy => h y (List.mem_cons_of_mem x hy))
        (fun y hy => hbody y (List.mem_cons_of_mem x hy))]
    cases f x <;> rfl

/-- What a swipe in "Recently Saved" needs of a place, unless the query of
`removePlaceFromAllList` does not accept its titles: its id and document id still
go together, and it knows every list that it is in. -/
def RecentReady (s : UserStore) (place : Place) : Prop :=
  ¬ (place.list = [] ∨ 10 < place.list.length) → SamePlace s place.dbId place.id ∧
    ∀ u, ListTitle s u → Recorded s place.id u → u ∈ place.list

instance (s : UserStore) (place : Place) : Decidable (RecentReady s place) :=
  inferInstanceAs (Decidable (¬ (place.list = [] ∨ 10 < place.list.length) →
    SamePlace s place.dbId place.id ∧
      ∀ u, ListTitle s u → Recorded s place.id u → u ∈ place.list))

/-- The requests of a swipe in "Recently Saved", when the query accepts the titles. -/
theorem commitDelete_recent {s : UserStore} {list : PlaceList} (hid : list.id = none)
    {place : Place} (hok : ¬ (place.list = [] ∨ 10 < place.list.length)) {j : Nat}
    (hj : place.dbId = some j) :
    commitDelete s list place =
      .send ((listsTitled s place.list).map (Write.removePlaces · [place.id]) ++
        [.deleteHistory j]) := by
  have hloop : (Issued.forEach (listsTitled s place.list) fun listId =>
      removePlaceFromList (some listId) place.id) =
        .send (((listsTitled s place.list).filterMap some).map (Write.removePlaces · [place.id])) :=
    forEach_filterMap fun _ _ => rfl
  rw [List.filterMap_some] at hloop
  simp only [commitDelete, hid, removePlaceFromAllList, hok, if_false, hloop, deletePlace, hj]
  rfl

/-- A place is swiped out of "Recently Saved". When the query traps, nothing is
written. -/
theorem consistent_commitDelete_recent {s : UserStore} (hs : Consistent s) {list : PlaceList}
    (hid : list.id = none) {place : Place} (hstored : place.dbId ≠ none)
    (hready : RecentReady s place) :
    Consistent (applyAll s (commitDelete s list place).writes) := by
  by_cases htrap : place.list = [] ∨ 10 < place.list.length
  · have hnone : (commitDelete s list place).writes = [] := by
      simp [commitDelete, hid, removePlaceFromAllList, htrap, Issued.trap, Issued.andThen]
    rw [hnone]
    exact hs
  · obtain ⟨hsameplace, hlist⟩ := hready htrap
    obtain ⟨j, hj⟩ := Option.ne_none_iff_exists'.mp hstored
    have hsame := hsameplace j hj
    let ids := listsTitled s place.list
    have hcommit : (commitDelete s list place).writes =
        ids.map (Write.removePlaces · [place.id]) ++ [.deleteHistory j] :=
      congrArg Issued.writes (commitDelete_recent hid htrap hj)
    obtain ⟨hhistory, htitled, hlisted⟩ := listed_removes (s := s) ids place.id
    have hsame' : SameRecord (applyAll s (ids.map (Write.removePlaces · [place.id]))) j place.id :=
      fun i k hi => hsame i k ((idAt_congr hhistory).mp hi)
    have hrecorded : ∀ k u, Recorded (applyAll s (commitDelete s list place).writes) k u ↔
        Recorded s k u ∧ k ≠ place.id := by
      intro k u
      rw [hcommit, applyAll_append, applyAll_cons, applyAll_nil, recorded_deleteHistory hsame',
        recorded_congr hhistory]
    have htitled' : ∀ i u, Titled (applyAll s (commitDelete s list place).writes) i u ↔
        Titled s i u := by
      intro i u
      rw [hcommit, applyAll_append]
      exact htitled i u
    refine ⟨fun hi hk => ?_, fun hi hk => ?_, fun i u k hi => ?_⟩
    · exact hs.titles ((htitled' _ _).mp hi) ((htitled' _ _).mp hk)
    · rw [hcommit, applyAll_append, applyAll_cons, applyAll_nil, idAt_deleteHistory,
        idAt_congr hhistory] at hi hk
      exact hs.ids hi.2 hk.2
    · have hi' := (htitled' i u).mp hi
      have hmember : i ∈ ids ↔ u ∈ place.list := by
        rw [mem_listsTitled]
        constructor
        · rintro ⟨d, hd, hin⟩
          rwa [titled_unique hi' ⟨d, hd, rfl⟩]
        · obtain ⟨d, hd, rfl⟩ := hi'
          exact fun hin => ⟨d, hd, hin⟩
      rw [hrecorded, ← hs.integrity i u k hi', hcommit, applyAll_append]
      refine (hlisted i k).trans (and_congr_right fun hin => ?_)
      constructor
      · rintro hnot rfl
        exact hnot ⟨hmember.mpr (hlist u ⟨i, hi'⟩ ((hs.integrity i u _ hi').mp hin)), rfl⟩
      · exact fun hne hand => hne hand.2

/-! ## 3. Deleting a list -/

/-- The document id and the id of a stored record go together. -/
theorem sameRecord_of_get {s : UserStore} (hs : Consistent s) {j : Nat} {r : HistoryDoc}
    (hr : s.history.get j = some r) : SameRecord s j r.id := by
  intro i k hi
  constructor
  · rintro rfl
    exact hs.ids hi ⟨r, hr, rfl⟩
  · rintro rfl
    obtain ⟨r', hr', rfl⟩ := hi
    rw [Option.some.inj (hr.symm.trans hr')]

/-- The titles recorded for the id of a stored record are its own. -/
theorem recorded_of_get {s : UserStore} (hs : Consistent s) {j : Nat} {r : HistoryDoc}
    (hr : s.history.get j = some r) {u : String} : Recorded s r.id u ↔ u ∈ r.list := by
  constructor
  · rintro ⟨i, r', hr', hid, hu⟩
    obtain rfl := hs.ids ⟨r', hr', hid⟩ ⟨r, hr, rfl⟩
    rwa [Option.some.inj (hr.symm.trans hr')]
  · exact fun hu => ⟨j, r, hr, rfl, hu⟩

/-- The records that a query returns can be removed from the list that was
queried. -/
theorem removable_of_query {s : UserStore} (hs : Consistent s) {title : String} {j : Nat}
    {r : HistoryDoc} (hr : (j, r) ∈ recordsListing s title) :
    Removable s title (some j) r.id r.list := by
  obtain ⟨hget, hin⟩ := mem_recordsListing.mp hr
  refine ⟨?_, fun hone u _ hu => ?_⟩
  · rintro _ ⟨rfl⟩
    exact sameRecord_of_get hs hget
  · obtain ⟨only, honly⟩ := List.length_eq_one_iff.mp hone
    rw [recorded_of_get hs hget, honly, List.mem_singleton] at hu
    rw [honly, List.mem_singleton] at hin
    rw [hu, hin]

/-- The removals for some records of a query. -/
theorem removals_spec {s : UserStore} (hs : Consistent s) {title : String}
    {xs : List (Nat × HistoryDoc)} (hxs : ∀ x ∈ xs, x ∈ recordsListing s title) :
    let t := applyAll s (xs.map fun x => removal x.1 x.2.list title)
    t.lists = s.lists ∧ (∀ j k, IdAt t j k → IdAt s j k) ∧ ∀ k u, ListTitle s u →
      (Recorded t k u ↔ Recorded s k u ∧ ¬ (u = title ∧ k ∈ xs.map (·.2.id))) := by
  obtain ⟨ws, hws, hlists, hids, -, hrecorded⟩ := removeListOf_loop title
    (fun x : Nat × HistoryDoc => some x.1) (fun x => x.2.id) (fun x => x.2.list) xs
    (fun _ _ => by simp) fun x hx => removable_of_query hs (hxs x hx)
  rw [Issued.forEach_send fun x _ => removeListOf_some x.1 x.2.list title,
    ← List.map_eq_flatMap] at hws
  obtain rfl : xs.map (fun x => removal x.1 x.2.list title) = ws := congrArg Issued.writes hws
  exact ⟨hlists, hids, hrecorded⟩

/-- A list is deleted, whether or not all records have lost its title. -/
theorem consistent_deleteList {s : UserStore} (hs : Consistent s) {title : String} {l : Nat}
    (hl : SameList s l title) {xs : List (Nat × HistoryDoc)}
    (hxs : ∀ x ∈ xs, x ∈ recordsListing s title) :
    Consistent (applyAll s (xs.map (fun x => removal x.1 x.2.list title) ++ [.deleteList l])) := by
  obtain ⟨hlists, hids, hrecorded⟩ := removals_spec hs hxs
  let u := applyAll s (xs.map fun x => removal x.1 x.2.list title)
  rw [applyAll_append]
  show Consistent ((Write.deleteList l).apply u)
  have htitled : ∀ {i v}, Titled ((Write.deleteList l).apply u) i v → i ≠ l ∧ Titled s i v := by
    intro i v hi
    obtain ⟨hne, hi'⟩ := titled_deleteList.mp hi
    exact ⟨hne, (titled_congr hlists).mp hi'⟩
  refine ⟨fun hi hk => hs.titles (htitled hi).2 (htitled hk).2,
    fun {j j' k} hj hj' => hs.ids (hids j k hj) (hids j' k hj'), fun i v k hi => ?_⟩
  obtain ⟨hne, hi'⟩ := htitled hi
  have hother : v ≠ title := fun heq => hne ((hl i v hi').mp heq)
  have hlisted : Listed ((Write.deleteList l).apply u) i k ↔ Listed s i k := by
    rw [listed_deleteList, listed_congr hlists]
    exact and_iff_right hne
  have hkept : Recorded u k v ↔ Recorded s k v :=
    (hrecorded k v ⟨i, hi'⟩).trans (and_iff_left fun h => hother h.1)
  show Listed ((Write.deleteList l).apply u) i k ↔ Recorded u k v
  rw [hlisted, hs.integrity i v k hi', hkept]

/-- A list is deleted, and its title taken from all records. -/
theorem consistent_deleteAction {s : UserStore} (hs : Consistent s) {list : PlaceList} {l : Nat}
    (hid : list.id = some l) (hl : SameList s l list.title) :
    (SavedController.deleteAction s list).trapped = false ∧
      Consistent (applyAll s (SavedController.deleteAction s list).writes) := by
  rw [ScreenLemmas.deleteAction_eq s hid]
  exact ⟨rfl, consistent_deleteList hs hl fun _ hx => hx⟩

/-! ## 4. The edit screen -/

/-- The document id and the id of the place still go together, and of the titles
of lists it has those recorded for its id. -/
structure UpToDate (s : UserStore) (place : Place) : Prop where
  same : SamePlace s place.dbId place.id
  agrees : ∀ u, ListTitle s u → (u ∈ place.list ↔ Recorded s place.id u)

instance (s : UserStore) (place : Place) : Decidable (UpToDate s place) :=
  decidable_of_iff (SamePlace s place.dbId place.id ∧
      ∀ u, ListTitle s u → (u ∈ place.list ↔ Recorded s place.id u))
    ⟨fun h => ⟨h.1, h.2⟩, fun h => ⟨h.same, h.agrees⟩⟩

theorem sameList_of_titled {s : UserStore} (hs : Consistent s) {l : Nat} {title : String}
    (h : Titled s l title) : SameList s l title := by
  intro i t hi
  constructor
  · rintro rfl
    exact hs.titles hi h
  · rintro rfl
    exact titled_unique hi h

/-- Two document ids that go with the same id of a record are the same. -/
theorem sameRecord_unique {s : UserStore} {i j : Nat} {k : Int} (hi : SameRecord s i k)
    (hj : SameRecord s j k) (hex : ∃ m, IdAt s m k) : i = j := by
  obtain ⟨m, hm⟩ := hex
  rw [← (hi m k hm).mp rfl, ← (hj m k hm).mp rfl]

/-- Renaming a title that is there: the other titles stay. -/
theorem mem_renameFirst {oldTitle newTitle u : String} {titles : List String}
    (hold : oldTitle ∈ titles) (hne : u ≠ oldTitle) :
    u ∈ renameFirst oldTitle newTitle titles ↔ u = newTitle ∨ u ∈ titles := by
  induction titles with
  | nil => cases hold
  | cons title rest ih =>
    unfold renameFirst
    by_cases heq : title = oldTitle
    · subst heq
      simp [hne]
    · have hrest : oldTitle ∈ rest := (List.mem_cons.mp hold).resolve_left (Ne.symm heq)
      simp only [heq, if_false, List.mem_cons, ih hrest]
      tauto

/-- In a list without repetitions, renaming the first occurrence renames them all. -/
theorem renameFirst_eq_map {oldTitle newTitle : String} {titles : List String}
    (hnodup : titles.Nodup) :
    renameFirst oldTitle newTitle titles =
      titles.map fun title => if title = oldTitle then newTitle else title := by
  induction titles with
  | nil => rfl
  | cons title rest ih =>
    obtain ⟨hnot, hrest⟩ := List.nodup_cons.mp hnodup
    unfold renameFirst
    split
    · next heq =>
      subst heq
      have hsame : rest.map (fun u => if u = title then newTitle else u) = rest := by
        have hid : ∀ u ∈ rest, (if u = title then newTitle else u) = id u := by
          intro u hu
          refine if_neg ?_
          rintro rfl
          exact hnot hu
        rw [List.map_congr_left hid, List.map_id]
      simp [hsame]
    · next hne => simp [hne, ih hrest]

/-- Renaming another title, there or not, keeps a title. -/
theorem mem_renameFirst_of_ne {oldTitle newTitle t : String} {titles : List String}
    (ht : t ∈ titles) (hne : t ≠ oldTitle) : t ∈ renameFirst oldTitle newTitle titles := by
  induction titles with
  | nil => cases ht
  | cons title rest ih =>
    unfold renameFirst
    rcases List.mem_cons.mp ht with rfl | hrest
    · rw [if_neg hne]
      exact List.mem_cons_self
    · split
      · exact List.mem_cons_of_mem newTitle hrest
      · exact List.mem_cons_of_mem title (ih hrest)

/-- What rewriting the record of a place needs: its document id goes with its
id, and there is a record. -/
structure Rewritable (s : UserStore) (place : Place) : Prop where
  stored : place.dbId ≠ none
  same : SamePlace s place.dbId place.id
  exists_record : ∃ m, IdAt s m place.id

theorem rewritable_frame {s t : UserStore} {place : Place} (h : Rewritable s place)
    (hids : ∀ i k, IdAt t i k ↔ IdAt s i k) : Rewritable t place where
  stored := h.stored
  same j hj i k hi := h.same j hj i k ((hids i k).mp hi)
  exists_record := by
    obtain ⟨m, hm⟩ := h.exists_record
    exact ⟨m, (hids m _).mpr hm⟩

/-- `updatePlace`: the record gets the titles. -/
theorem updatePlace_spec {s : UserStore} {place : Place} (hplace : Rewritable s place)
    (titles : List String) :
    ∃ w, updatePlace place titles = .send [w] ∧ (w.apply s).lists = s.lists ∧
      (∀ i k, IdAt (w.apply s) i k ↔ IdAt s i k) ∧
      ∀ k u, Recorded (w.apply s) k u ↔ if k = place.id then u ∈ titles else Recorded s k u := by
  obtain ⟨j, hj⟩ := Option.ne_none_iff_exists'.mp hplace.stored
  have hsame := hplace.same j hj
  refine ⟨.setHistory j (docOfPlace place titles place.id), by rw [updatePlace, hj]; rfl, rfl,
    fun i k => ?_, fun k u => recorded_setHistory hsame⟩
  rw [idAt_setHistory]
  split
  · next hij =>
    subst hij
    obtain ⟨m, hm⟩ := hplace.exists_record
    obtain rfl := (hsame m _ hm).mp rfl
    exact ⟨fun hk => hk ▸ hm, fun hi => (hsame _ k hi).mpr rfl⟩
  · rfl

/-- The loop of `updateTitleInPlaces`: the record of each place gets the titles
of that place, renamed. -/
theorem updateTitleInPlaces_spec {s : UserStore} (oldTitle newTitle : String)
    {places : List Place} (hnodup : (places.map Place.dbId).Nodup)
    (hplaces : ∀ p ∈ places, Rewritable s p) :
    ∃ ws, updateTitleInPlaces oldTitle newTitle places = .send ws ∧
      (applyAll s ws).lists = s.lists ∧
      (∀ j k, IdAt (applyAll s ws) j k ↔ IdAt s j k) ∧
      (∀ p ∈ places, ∀ u, Recorded (applyAll s ws) p.id u ↔
        u ∈ renameFirst oldTitle newTitle p.list) ∧
      ∀ k u, k ∉ places.map Place.id → (Recorded (applyAll s ws) k u ↔ Recorded s k u) := by
  induction places generalizing s with
  | nil => exact ⟨[], rfl, rfl, fun _ _ => Iff.rfl, by simp, by simp⟩
  | cons p places ih =>
    obtain ⟨hnot, hrest⟩ := List.nodup_cons.mp hnodup
    have hp := hplaces p List.mem_cons_self
    obtain ⟨w, hw, hlists, hids, hrecorded⟩ :=
      updatePlace_spec hp (renameFirst oldTitle newTitle p.list)
    obtain ⟨ws, hws, hlists', hids', hown, hother⟩ := ih (s := w.apply s) hrest fun q hq =>
      rewritable_frame (hplaces q (List.mem_cons_of_mem p hq)) hids
    -- a later place has a record of its own, hence another id
    have hne : p.id ∉ places.map Place.id := by
      intro hin
      obtain ⟨q, hq, heq⟩ := List.mem_map.mp hin
      have hq' := hplaces q (List.mem_cons_of_mem p hq)
      obtain ⟨i, hi⟩ := Option.ne_none_iff_exists'.mp hq'.stored
      obtain ⟨j, hj⟩ := Option.ne_none_iff_exists'.mp hp.stored
      obtain rfl := sameRecord_unique (heq ▸ hq'.same i hi) (hp.same j hj) hp.exists_record
      exact hnot (hj.trans hi.symm ▸ List.mem_map_of_mem hq)
    refine ⟨w :: ws, ?_, hlists'.trans hlists, fun i k => (hids' i k).trans (hids i k),
      fun q hq u => ?_, fun k u hk => ?_⟩
    · have hloop : updateTitleInPlaces oldTitle newTitle (p :: places) =
          (updatePlace p (renameFirst oldTitle newTitle p.list)).andThen
            (updateTitleInPlaces oldTitle newTitle places) := rfl
      rw [hloop, hw, hws]
      rfl
    · rw [applyAll_cons]
      rcases List.mem_cons.mp hq with rfl | hin
      · rw [hother q.id u hne, hrecorded, if_pos rfl]
      · exact hown q hin u
    · rw [List.map_cons, List.mem_cons, not_or] at hk
      rw [applyAll_cons, hother k u hk.2, hrecorded, if_neg hk.1]

/-- The title of a list is changed, and in the records of all its places. -/
theorem consistent_rename {s : UserStore} (hs : Consistent s) {l : Nat} {oldTitle newTitle : String}
    (hl : Titled s l oldTitle) (hnew : NewTitle s newTitle) {places : List Place}
    (hstored : ∀ p ∈ places, p.dbId ≠ none) (hnodup : (places.map Place.dbId).Nodup)
    (hplaces : ∀ p ∈ places, UpToDate s p ∧ oldTitle ∈ p.list)
    (hcover : ∀ k, Recorded s k oldTitle → k ∈ places.map Place.id) :
    ∃ ws, (updateListTitle (some l) newTitle).andThen
        (updateTitleInPlaces oldTitle newTitle places) = .send ws ∧ Consistent (applyAll s ws) := by
  let u := (Write.setTitle l newTitle).apply s
  -- the ids of the places are those recorded for the old title
  have hold : ∀ k, k ∈ places.map Place.id ↔ Recorded s k oldTitle := by
    refine fun k => ⟨fun hk => ?_, hcover k⟩
    obtain ⟨p, hp, rfl⟩ := List.mem_map.mp hk
    obtain ⟨hcurrent, hin⟩ := hplaces p hp
    exact (hcurrent.agrees oldTitle ⟨l, hl⟩).mp hin
  obtain ⟨ws, hws, hlists, hids, hown, hother⟩ := updateTitleInPlaces_spec (s := u)
    oldTitle newTitle hnodup fun p hp =>
      ⟨hstored p hp, (hplaces p hp).1.same,
        recorded_idAt ((hold p.id).mp (List.mem_map_of_mem hp))⟩
  refine ⟨.setTitle l newTitle :: ws, by rw [hws]; rfl, ?_⟩
  have htitled : ∀ i t, Titled (applyAll u ws) i t ↔
      if i = l then t = newTitle ∧ ∃ v, Titled s i v else Titled s i t :=
    fun i t => (titled_congr hlists).trans titled_setTitle
  have hsame := sameList_of_titled hs hl
  have hfresh : newTitle ≠ oldTitle := fun heq => hnew.list ⟨l, heq ▸ hl⟩
  show Consistent (applyAll u ws)
  refine ⟨fun {i j t} hi hj => ?_, fun hi hj => ?_, fun i t k hi => ?_⟩
  · rw [htitled] at hi hj
    split at hi
    · next hil =>
      split at hj
      · next hjl => rw [hil, hjl]
      · exact absurd ⟨j, hi.1 ▸ hj⟩ hnew.list
    · split at hj
      · exact absurd ⟨i, hj.1 ▸ hi⟩ hnew.list
      · exact hs.titles hi hj
  · exact hs.ids ((hids _ _).mp hi) ((hids _ _).mp hj)
  · have hlisted : Listed (applyAll u ws) i k ↔ Listed s i k :=
      (listed_congr hlists).trans listed_setTitle
    rw [hlisted]
    have hit := (htitled i t).mp hi
    split at hit
    · -- the renamed list: its ids are those of its places
      next hil =>
      subst hil
      obtain ⟨rfl, -⟩ := hit
      rw [hs.integrity i oldTitle k hl, ← hold]
      by_cases hk : k ∈ places.map Place.id
      · obtain ⟨p, hp, rfl⟩ := List.mem_map.mp hk
        rw [hown p hp, mem_renameFirst (hplaces p hp).2 hfresh]
        exact iff_of_true hk (.inl rfl)
      · rw [hother k t hk]
        exact iff_of_false hk (hnew.record k)
    · next hil =>
      have hne : t ≠ oldTitle := fun heq => hil ((hsame i t hit).mp heq)
      have hne' : t ≠ newTitle := fun heq => hnew.list ⟨i, heq ▸ hit⟩
      rw [hs.integrity i t k hit]
      by_cases hk : k ∈ places.map Place.id
      · obtain ⟨p, hp, rfl⟩ := List.mem_map.mp hk
        rw [hown p hp, mem_renameFirst (hplaces p hp).2 hne, ← (hplaces p hp).1.agrees t ⟨i, hit⟩]
        simp [hne']
      · rw [hother k t hk]
        rfl

/-- The edit screen's list is a list of the store, its arrays hold every place
of that list, and no place twice. -/
structure EditFresh (s : UserStore) (e : EditListController) : Prop where
  list : ∃ l, e.list.id = some l ∧ Titled s l e.list.title
  stored : ∀ p ∈ e.places ++ e.selectedPlaces, p.dbId ≠ none
  nodup : ((e.places ++ e.selectedPlaces).map Place.dbId).Nodup
  covers : ∀ k, Recorded s k e.list.title → ∃ p ∈ e.places ++ e.selectedPlaces, p.id = k

/-- What Done on the edit screen needs: places that can be removed, and for a
rename a new title and up-to-date places that list the old one. -/
structure EditReady (s : UserStore) (e : EditListController) : Prop where
  removable : ∀ p ∈ e.selectedPlaces, Removable s e.list.title p.dbId p.id p.list
  title : e.list.title ≠ e.editedListTitle → NewTitle s e.editedListTitle
  places : e.list.title ≠ e.editedListTitle →
    ∀ p ∈ e.places, UpToDate s p ∧ e.list.title ∈ p.list

instance (s : UserStore) (e : EditListController) : Decidable (EditReady s e) :=
  decidable_of_iff ((∀ p ∈ e.selectedPlaces, Removable s e.list.title p.dbId p.id p.list) ∧
      (e.list.title ≠ e.editedListTitle → NewTitle s e.editedListTitle) ∧
      (e.list.title ≠ e.editedListTitle →
        ∀ p ∈ e.places, UpToDate s p ∧ e.list.title ∈ p.list))
    ⟨fun h => ⟨h.1, h.2.1, h.2.2⟩, fun h => ⟨h.removable, h.title, h.places⟩⟩

theorem consistent_tappedDone {s : UserStore} (hs : Consistent s) {e : EditListController}
    (hfresh : EditFresh s e) (hready : EditReady s e) :
    e.tappedDone.trapped = false ∧ Consistent (applyAll s e.tappedDone.writes) := by
  obtain ⟨l, hid, htitle⟩ := hfresh.list
  have hstored : ∀ p ∈ e.places, p.dbId ≠ none :=
    fun p hp => hfresh.stored p (List.mem_append_left _ hp)
  have hstored' : ∀ p ∈ e.selectedPlaces, p.dbId ≠ none :=
    fun p hp => hfresh.stored p (List.mem_append_right _ hp)
  obtain ⟨ws, hws, hlists, hids, hmono, hrecorded⟩ := removeListOf_loop
    e.list.title Place.dbId Place.id Place.list e.selectedPlaces hstored' hready.removable
  have hloop : removeListFromAllSelectedPlaces e.list.title e.selectedPlaces = .send ws := hws
  let ks := e.selectedPlaces.map Place.id
  let t := (Write.removePlaces l ks).apply (applyAll s ws)
  have htitled : ∀ i u, Titled t i u ↔ Titled s i u :=
    fun i u => titled_removePlaces.trans (titled_congr hlists)
  have ht : Consistent t := by
    refine consistent_of_removal hs (sameList_of_titled hs htitle) ks htitled hids hrecorded
      fun i k => ?_
    exact listed_removePlaces.trans (and_congr_left' (listed_congr hlists))
  by_cases hsametitle : e.list.title = e.editedListTitle
  · have hdone : e.tappedDone = .send (ws ++ [.removePlaces l ks]) := by
      rw [EditListController.tappedDone, hloop, removeAllPlaceFromList, hid,
        if_neg (not_not.mpr hsametitle)]
      rfl
    rw [hdone]
    refine ⟨rfl, ?_⟩
    rw [Issued.send, applyAll_append]
    exact ht
  · -- the remaining places have other ids than the removed ones
    have hkeep : ∀ p ∈ e.places, p.id ∉ ks := by
      intro p hp hin
      obtain ⟨q, hq, hqid⟩ := List.mem_map.mp hin
      obtain ⟨hcurrent, hlist⟩ := hready.places hsametitle p hp
      obtain ⟨i, hi⟩ := Option.ne_none_iff_exists'.mp (hstored' q hq)
      obtain ⟨j, hj⟩ := Option.ne_none_iff_exists'.mp (hstored p hp)
      obtain rfl := sameRecord_unique (hqid ▸ (hready.removable q hq).same i hi)
        (hcurrent.same j hj) (recorded_idAt ((hcurrent.agrees _ ⟨l, htitle⟩).mp hlist))
      have hnodup := hfresh.nodup
      rw [List.map_append, List.nodup_append] at hnodup
      exact hnodup.2.2 _ (List.mem_map_of_mem hp) _ (List.mem_map_of_mem hq) (hj.trans hi.symm)
    have hcurrent : ∀ p ∈ e.places, UpToDate t p ∧ e.list.title ∈ p.list := by
      intro p hp
      obtain ⟨hcurrent, hlist⟩ := hready.places hsametitle p hp
      refine ⟨⟨fun j hj i k hi => hcurrent.same j hj i k (hids i k hi), ?_⟩, hlist⟩
      rintro u ⟨i, hi⟩
      have hu : ListTitle s u := ⟨i, (htitled i u).mp hi⟩
      have hkept : Recorded t p.id u ↔ Recorded s p.id u :=
        (hrecorded p.id u hu).trans (and_iff_left fun h => hkeep p hp h.2)
      exact (hcurrent.agrees u hu).trans hkept.symm
    have hnodup : (e.places.map Place.dbId).Nodup :=
      hfresh.nodup.sublist ((List.sublist_append_left _ _).map _)
    have hnew : NewTitle t e.editedListTitle :=
      ⟨fun ⟨i, hi⟩ => (hready.title hsametitle).list ⟨i, (htitled i _).mp hi⟩,
        fun k hk => (hready.title hsametitle).record k (hmono k _ hk)⟩
    obtain ⟨vs, hvs, hcons⟩ := consistent_rename ht ((htitled _ _).mpr htitle) hnew hstored hnodup
      hcurrent fun k hk => by
        obtain ⟨hrec, hnot⟩ := (hrecorded k _ ⟨l, htitle⟩).mp hk
        obtain ⟨p, hp, rfl⟩ := hfresh.covers k hrec
        rcases List.mem_append.mp hp with hin | hin
        · exact List.mem_map_of_mem hin
        · exact absurd ⟨rfl, List.mem_map_of_mem hin⟩ hnot
    have hdone : e.tappedDone = .send (ws ++ (.removePlaces l ks :: vs)) := by
      simp only [EditListController.tappedDone, hloop, removeAllPlaceFromList, hid, ne_eq,
        hsametitle, not_false_eq_true, if_true, hvs]
      rfl
    rw [hdone]
    refine ⟨rfl, ?_⟩
    rw [Issued.send, applyAll_append]
    exact hcons

end LocateMe
