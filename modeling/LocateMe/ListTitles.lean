import LocateMe.Integrity
import LocateMe.ListScreens
import LocateMe.SaveVisit

/-!
# The titles of the lists

A place stores the titles of its lists, so the screens and queries look lists up by
title. Lists are made by the two "New List" alerts and by `addDefaultLists`, when a
`getAllList` comes back empty, and renamed on the edit screen. No path looks at
the titles that are there.

Results:
1. `titlesUnique_addLists_iff`, `titlesUnique_setTitle_iff`: which requests keep
   the titles distinct.
2. `titled_tappedDone`: what the edit screen does to the titles.
3. `titles_unique_iff`: in a run the titles stay distinct iff every new title,
   every other title of a rename and every default list added is a title of no
   other list.
-/

namespace LocateMe

open Documents StoreLemmas VisitLemmas

/-! ## 1. Distinct titles -/

/-- No two lists have the same title. -/
def TitlesUnique (s : UserStore) : Prop := ∀ i j t, Titled s i t → Titled s j t → i = j

/-- A request that leaves all titles as they are. -/
def Write.KeepsTitles : Write → Prop
  | .addList _ => False
  | .setTitle _ _ => False
  | .deleteList _ => False
  | _ => True

namespace TitleLemmas

theorem titled_apply {s : UserStore} {w : Write} (hw : w.KeepsTitles) {i : Nat} {t : String} :
    Titled (w.apply s) i t ↔ Titled s i t := by
  cases w with
  | addList title => exact hw.elim
  | unionPlaces l ks => exact titled_unionPlaces
  | removePlaces l ks => exact titled_removePlaces
  | setTitle l title => exact hw.elim
  | deleteList l => exact hw.elim
  | addHistory doc => exact Iff.rfl
  | setHistory j doc => exact Iff.rfl
  | removeTitles j ts => exact Iff.rfl
  | deleteHistory j => exact Iff.rfl

theorem titled_applyAll {s : UserStore} {ws : List Write} (hws : ∀ w ∈ ws, w.KeepsTitles)
    {i : Nat} {t : String} : Titled (applyAll s ws) i t ↔ Titled s i t :=
  applyAll_invariant (I := fun u => Titled u i t ↔ Titled s i t)
    (fun w hw _ hu => (titled_apply (hws w hw)).trans hu) Iff.rfl

theorem titlesUnique_congr {s t : UserStore} (h : ∀ i u, Titled t i u ↔ Titled s i u) :
    TitlesUnique t ↔ TitlesUnique s := by
  simp only [TitlesUnique, h]

/-- A title that is new with a list is that of one list. -/
theorem titled_addList_unique {s : UserStore} {title t : String} {i j : Nat}
    (hnew : ¬ ListTitle s title) (hs : Titled s i t → Titled s j t → i = j)
    (hi : Titled ((Write.addList title).apply s) i t)
    (hj : Titled ((Write.addList title).apply s) j t) : i = j := by
  rcases titled_addList.mp hi with ⟨rfl, rfl⟩ | hold
  · rcases titled_addList.mp hj with ⟨rfl, -⟩ | hold
    · rfl
    · exact absurd ⟨j, hold⟩ hnew
  · rcases titled_addList.mp hj with ⟨rfl, rfl⟩ | hold'
    · exact absurd ⟨i, hold⟩ hnew
    · exact hs hold hold'

theorem titlesUnique_addList_iff {s : UserStore} (hs : TitlesUnique s) (title : String) :
    TitlesUnique ((Write.addList title).apply s) ↔ ¬ ListTitle s title := by
  constructor
  · rintro h ⟨i, hi⟩
    have hlt : i = s.lists.next := h i s.lists.next title (titled_addList.mpr (.inr hi))
      (titled_addList.mpr (.inl ⟨rfl, rfl⟩))
    obtain ⟨d, hd, -⟩ := hi
    rw [hlt, Collection.get_next] at hd
    cases hd
  · intro hnew i j t hi hj
    exact titled_addList_unique hnew (hs i j t) hi hj

theorem listTitle_addList {s : UserStore} {title t : String} :
    ListTitle ((Write.addList title).apply s) t ↔ t = title ∨ ListTitle s t := by
  simp only [ListTitle, titled_addList]
  constructor
  · rintro ⟨i, ⟨-, rfl⟩ | hi⟩
    · exact .inl rfl
    · exact .inr ⟨i, hi⟩
  · rintro (rfl | ⟨i, hi⟩)
    · exact ⟨s.lists.next, .inl ⟨rfl, rfl⟩⟩
    · exact ⟨i, .inr hi⟩

theorem titlesUnique_of_addList {s : UserStore} {title : String}
    (h : TitlesUnique ((Write.addList title).apply s)) : TitlesUnique s :=
  fun i j t hi hj => h i j t (titled_addList.mpr (.inr hi)) (titled_addList.mpr (.inr hj))

theorem titlesUnique_of_addLists {s : UserStore} {titles : List String}
    (h : TitlesUnique (applyAll s (titles.map Write.addList))) : TitlesUnique s := by
  induction titles generalizing s with
  | nil => exact h
  | cons title titles ih => exact titlesUnique_of_addList (ih h)

/-- New lists keep the titles distinct iff their titles are distinct and new. -/
theorem titlesUnique_addLists_iff {s : UserStore} (hs : TitlesUnique s) (titles : List String) :
    TitlesUnique (applyAll s (titles.map Write.addList)) ↔
      titles.Nodup ∧ ∀ t ∈ titles, ¬ ListTitle s t := by
  induction titles generalizing s with
  | nil => simpa using hs
  | cons title titles ih =>
    rw [List.map_cons, applyAll_cons]
    constructor
    · intro h
      have hfirst := titlesUnique_of_addLists h
      obtain ⟨hnodup, hnew⟩ := (ih hfirst).mp h
      simp only [listTitle_addList, not_or] at hnew
      refine ⟨List.nodup_cons.mpr ⟨fun hin => (hnew title hin).1 rfl, hnodup⟩, ?_⟩
      rintro t (_ | ⟨_, ht⟩)
      · exact (titlesUnique_addList_iff hs title).mp hfirst
      · exact (hnew t ht).2
    · rintro ⟨hnodup, hnew⟩
      obtain ⟨hnot, hnodup⟩ := List.nodup_cons.mp hnodup
      have hfirst := (titlesUnique_addList_iff hs title).mpr (hnew title List.mem_cons_self)
      refine (ih hfirst).mpr ⟨hnodup, fun t ht => ?_⟩
      rw [listTitle_addList, not_or]
      exact ⟨fun heq => hnot (heq ▸ ht), hnew t (List.mem_cons_of_mem title ht)⟩

/-- A new title of a stored list keeps the titles distinct iff no other list has
it. -/
theorem titlesUnique_setTitle_iff {s : UserStore} (hs : TitlesUnique s) {l : Nat}
    (title : String) : TitlesUnique ((Write.setTitle l title).apply s) ↔
      ((∃ u, Titled s l u) → ∀ j, Titled s j title → j = l) := by
  constructor
  · intro h hl j hj
    by_contra hne
    exact hne (h j l title (titled_setTitle.mpr (by rwa [if_neg hne]))
      (titled_setTitle.mpr (by rw [if_pos rfl]; exact ⟨rfl, hl⟩)))
  · intro h i j t hi hj
    rw [titled_setTitle] at hi hj
    split at hi
    · next hil =>
      obtain ⟨rfl, hstored⟩ := hi
      split at hj
      · next hjl => rw [hil, hjl]
      · exact hil.trans (h (hil ▸ hstored) j hj).symm
    · split at hj
      · next hjl =>
        obtain ⟨rfl, hstored⟩ := hj
        exact (h (hjl ▸ hstored) i hi).trans hjl.symm
      · exact hs i j t hi hj

end TitleLemmas

open TitleLemmas

/-! ## 2. The edit screen -/

/-- The edit screen gets as far as its rename: its selected places have a document,
so has its list, and the title was edited. -/
def EditListController.Renames (c : EditListController) : Prop :=
  (∀ p ∈ c.selectedPlaces, p.dbId ≠ none) ∧ c.list.id ≠ none ∧ c.list.title ≠ c.editedListTitle

instance (c : EditListController) : Decidable c.Renames :=
  inferInstanceAs (Decidable ((∀ p ∈ c.selectedPlaces, p.dbId ≠ none) ∧ c.list.id ≠ none ∧
    c.list.title ≠ c.editedListTitle))

namespace TitleLemmas

theorem keepsTitles_removeListOf {placeId : Option Nat} {list : List String} {title : String}
    {w : Write} (hw : w ∈ (removeListOf placeId list title).writes) : w.KeepsTitles := by
  obtain ⟨j, -, rfl⟩ := mem_removeListOf hw
  rcases removal_cases j list title with heq | heq <;> rw [heq] <;> trivial

theorem trapped_removeListOf {placeId : Option Nat} {list : List String} {title : String} :
    (removeListOf placeId list title).trapped = false ↔ placeId ≠ none := by
  unfold removeListOf
  cases placeId <;> split <;> simp [deletePlace, removeListInPlace, Issued.write, Issued.trap]

theorem keepsTitles_updateTitleInPlaces {oldTitle newTitle : String} {places : List Place}
    {w : Write} (hw : w ∈ (updateTitleInPlaces oldTitle newTitle places).writes) :
    w.KeepsTitles := by
  obtain ⟨p, -, hw⟩ := Issued.mem_forEach hw
  obtain ⟨j, -, rfl⟩ := Issued.mem_write hw
  trivial

theorem keepsTitles_removeListFromAllSelectedPlaces {title : String} {places : List Place}
    {w : Write} (hw : w ∈ (removeListFromAllSelectedPlaces title places).writes) :
    w.KeepsTitles := by
  obtain ⟨p, -, hw⟩ := Issued.mem_forEach hw
  exact keepsTitles_removeListOf hw

theorem trapped_removeListFromAllSelectedPlaces {title : String} {places : List Place} :
    (removeListFromAllSelectedPlaces title places).trapped = false ↔
      ∀ p ∈ places, p.dbId ≠ none := by
  simp only [removeListFromAllSelectedPlaces, Issued.forEach_trapped, trapped_removeListOf]

/-- Done that renames sends one new title, after and before requests that keep them. -/
theorem tappedDone_renames {c : EditListController} (h : c.Renames) :
    ∃ l ws vs, c.list.id = some l ∧
      c.tappedDone.writes = ws ++ .setTitle l c.editedListTitle :: vs ∧
      (∀ w ∈ ws, w.KeepsTitles) ∧ ∀ w ∈ vs, w.KeepsTitles := by
  obtain ⟨hstored, hid, hedit⟩ := h
  obtain ⟨l, hl⟩ := Option.ne_none_iff_exists'.mp hid
  have hok : (removeListFromAllSelectedPlaces c.list.title c.selectedPlaces).trapped = false :=
    trapped_removeListFromAllSelectedPlaces.mpr hstored
  refine ⟨l, (removeListFromAllSelectedPlaces c.list.title c.selectedPlaces).writes ++
    [.removePlaces l (c.selectedPlaces.map Place.id)],
    (updateTitleInPlaces c.list.title c.editedListTitle c.places).writes, hl, ?_, ?_, ?_⟩
  · rw [EditListController.tappedDone, Issued.andThen_writes _ hok, if_pos hedit]
    simp [removeAllPlaceFromList, updateListTitle, hl]
  · intro w hw
    rcases List.mem_append.mp hw with hw | hw
    · exact keepsTitles_removeListFromAllSelectedPlaces hw
    · rw [List.mem_singleton.mp hw]
      trivial
  · exact fun w hw => keepsTitles_updateTitleInPlaces hw

/-- Any other Done keeps them. -/
theorem keepsTitles_tappedDone {c : EditListController} (h : ¬ c.Renames) {w : Write}
    (hw : w ∈ c.tappedDone.writes) : w.KeepsTitles := by
  unfold EditListController.tappedDone at hw
  rcases Issued.andThen_cases (removeListFromAllSelectedPlaces c.list.title c.selectedPlaces) _
    with ⟨-, hwrites⟩ | ⟨hok, hwrites⟩
  · rw [hwrites] at hw
    exact keepsTitles_removeListFromAllSelectedPlaces hw
  · rw [hwrites] at hw
    rcases List.mem_append.mp hw with hw | hw
    · exact keepsTitles_removeListFromAllSelectedPlaces hw
    · cases hid : c.list.id with
      | none => simp [removeAllPlaceFromList, hid, Issued.write, Issued.trap, Issued.andThen] at hw
      | some l =>
        have hsame : c.list.title = c.editedListTitle := by
          by_contra hedit
          exact h ⟨trapped_removeListFromAllSelectedPlaces.mp hok, by simp [hid], hedit⟩
        have hremoved : w = .removePlaces l (c.selectedPlaces.map Place.id) := by
          simpa [removeAllPlaceFromList, hid, hsame, Issued.none] using hw
        rw [hremoved]
        trivial

/-- Done of the edit screen changes one title, when it gets so far. -/
theorem titled_tappedDone (s : UserStore) (c : EditListController) {i : Nat} {t : String} :
    Titled (applyAll s c.tappedDone.writes) i t ↔
      if c.Renames ∧ c.list.id = some i then t = c.editedListTitle ∧ ∃ u, Titled s i u
      else Titled s i t := by
  by_cases hrename : c.Renames
  · obtain ⟨l, ws, vs, hl, hwrites, hws, hvs⟩ := tappedDone_renames hrename
    rw [hwrites, applyAll_append, applyAll_cons, titled_applyAll hvs, titled_setTitle, hl]
    simp only [titled_applyAll hws, hrename, true_and, Option.some.injEq, eq_comm]
  · rw [if_neg fun h => hrename h.1]
    exact titled_applyAll fun w hw => keepsTitles_tappedDone hrename hw

end TitleLemmas

/-! ## 3. One client -/

/-- The store, and the queries `getAllList` of `MapController` and `SavedController`
that have been sent. -/
structure ListsClient where
  store : UserStore
  queries : List (Fetch (List PlaceList))

/-- What changes the lists. `newList` is the save action of both alerts, and an edit
screen or a list that is deleted can be any that a controller holds. -/
inductive ListEvent
  | newList (title : String)
  | tappedDone (c : EditListController)
  | deleteList (list : PlaceList)
  | getAllList
  | answered (i : Nat) (ok : Bool)
  | handled (i : Nat)
deriving DecidableEq

/-- The completion of `getAllList` in both `retrieveLists`, as far as it writes. -/
def retrieved (allLists : List PlaceList) : Issued :=
  if 0 < allLists.length then .none else addDefaultLists

def listStep (σ : ListsClient) : ListEvent → Option ListsClient
  | .newList title =>
    if title = "" then none
    else some { σ with store := applyAll σ.store (addNewList title).writes }
  | .tappedDone c =>
    if c.doneEnabled then some { σ with store := applyAll σ.store c.tappedDone.writes } else none
  | .deleteList list =>
    if checkIfDefaultList list.title then none
    else
      some { σ with
        store := applyAll σ.store (SavedController.deleteAction σ.store list).writes }
  | .getAllList => some { σ with queries := σ.queries ++ [.sent] }
  | .answered i ok =>
    (σ.queries[i]?).bind fun q => (q.answer ok (getAllList σ.store)).map fun q =>
      { σ with queries := σ.queries.set i q }
  | .handled i =>
    match σ.queries[i]? with
    | some (.answered reply) =>
      some ⟨applyAll σ.store (retrieved (reply.getD [])).writes,
        σ.queries.set i (.handled reply.isSome)⟩
    | _ => none

/-- The query was answered with no list, or with an error. -/
def ListsClient.RepliedEmpty (σ : ListsClient) (i : Nat) : Prop :=
  ∃ q ∈ σ.queries[i]?, q = .answered none ∨ q = .answered (some [])

instance (σ : ListsClient) (i : Nat) : Decidable (σ.RepliedEmpty i) :=
  inferInstanceAs (Decidable (∃ q ∈ σ.queries[i]?, q = .answered none ∨ q = .answered (some [])))

/-- What an event needs: a new title is that of no list, a rename's that of no other
one, and the default lists are added when no list has one of their titles. -/
def ListsClient.NewTitles (σ : ListsClient) : ListEvent → Prop
  | .newList title => ¬ ListTitle σ.store title
  | .tappedDone c => c.Renames → ∀ l, c.list.id = some l → (∃ t, Titled σ.store l t) →
    ∀ j, Titled σ.store j c.editedListTitle → j = l
  | .deleteList _ => True
  | .getAllList => True
  | .answered _ _ => True
  | .handled i => σ.RepliedEmpty i → ∀ t ∈ defaultTitles, ¬ ListTitle σ.store t

namespace TitleLemmas

theorem titlesUnique_tappedDone_iff {s : UserStore} (hs : TitlesUnique s) (c : EditListController) :
    TitlesUnique (applyAll s c.tappedDone.writes) ↔
      (c.Renames → ∀ l, c.list.id = some l → (∃ t, Titled s l t) →
        ∀ j, Titled s j c.editedListTitle → j = l) := by
  by_cases hrename : c.Renames
  · obtain ⟨l, hid⟩ := Option.ne_none_iff_exists'.mp hrename.2.1
    -- the titles are those after the rename alone
    have hsame : ∀ i t, Titled (applyAll s c.tappedDone.writes) i t ↔
        Titled ((Write.setTitle l c.editedListTitle).apply s) i t := by
      intro i t
      rw [titled_tappedDone, titled_setTitle, hid]
      simp only [hrename, true_and, Option.some.injEq, eq_comm]
    rw [titlesUnique_congr hsame, titlesUnique_setTitle_iff hs]
    simp [hrename, hid]
  · rw [titlesUnique_congr (s := s) fun i t => by
      rw [titled_tappedDone, if_neg fun h => hrename h.1]]
    exact iff_of_true hs fun h => absurd h hrename

/-- The delete action only takes titles away. -/
theorem titlesUnique_deleteAction {s : UserStore} (hs : TitlesUnique s) (list : PlaceList) :
    TitlesUnique (applyAll s (SavedController.deleteAction s list).writes) := by
  have hkeep : ∀ w ∈ (recordsListing s list.title).map fun x => removal x.1 x.2.list list.title,
      w.KeepsTitles := by
    intro w hw
    obtain ⟨x, -, rfl⟩ := List.mem_map.mp hw
    unfold removal
    split <;> trivial
  rw [SavedController.deleteAction, removeListFromAllPlaces_eq, Issued.send_andThen]
  cases hid : list.id with
  | none =>
    rw [show (deleteList none).writes = [] from rfl, List.append_nil]
    exact (titlesUnique_congr fun i t => titled_applyAll hkeep).mpr hs
  | some l =>
    rw [show (deleteList (some l)).writes = [.deleteList l] from rfl, applyAll_append]
    intro i j t hi hj
    have hi' := (titled_applyAll hkeep).mp (titled_deleteList.mp hi).2
    have hj' := (titled_applyAll hkeep).mp (titled_deleteList.mp hj).2
    exact hs i j t hi' hj'

theorem titlesUnique_retrieved_iff {s : UserStore} (hs : TitlesUnique s)
    (allLists : List PlaceList) : TitlesUnique (applyAll s (retrieved allLists).writes) ↔
      (allLists = [] → ∀ t ∈ defaultTitles, ¬ ListTitle s t) := by
  cases allLists with
  | nil =>
    show TitlesUnique (applyAll s (defaultTitles.map Write.addList)) ↔ _
    rw [titlesUnique_addLists_iff hs]
    simp only [forall_const, and_iff_right_iff_imp]
    exact fun _ => by decide
  | cons list rest => exact iff_of_true hs fun h => by cases h

/-- A step keeps the titles distinct iff it meets the condition. -/
theorem titlesUnique_step {σ τ : ListsClient} {e : ListEvent} (hs : TitlesUnique σ.store)
    (hstep : listStep σ e = some τ) : TitlesUnique τ.store ↔ σ.NewTitles e := by
  cases e with
  | newList title =>
    obtain ⟨-, hadded⟩ := Option.ite_none_left_eq_some.mp hstep
    obtain rfl := Option.some.inj hadded
    exact titlesUnique_addList_iff hs title
  | tappedDone c =>
    obtain ⟨-, hdone⟩ := Option.ite_none_right_eq_some.mp hstep
    obtain rfl := Option.some.inj hdone
    exact titlesUnique_tappedDone_iff hs c
  | deleteList list =>
    obtain ⟨-, hdeleted⟩ := Option.ite_none_left_eq_some.mp hstep
    obtain rfl := Option.some.inj hdeleted
    exact iff_of_true (titlesUnique_deleteAction hs list) trivial
  | getAllList =>
    obtain rfl := Option.some.inj hstep
    exact iff_of_true hs trivial
  | answered i ok =>
    obtain ⟨q, -, hq⟩ := Option.bind_eq_some_iff.mp hstep
    obtain ⟨q', -, rfl⟩ := Option.map_eq_some_iff.mp hq
    exact iff_of_true hs trivial
  | handled i =>
    simp only [listStep] at hstep
    split at hstep
    · next reply hreply =>
      obtain rfl := Option.some.inj hstep
      have hempty : σ.RepliedEmpty i ↔ reply.getD [] = [] := by
        cases reply <;> simp [ListsClient.RepliedEmpty, hreply]
      show TitlesUnique (applyAll σ.store (retrieved (reply.getD [])).writes) ↔
        (σ.RepliedEmpty i → _)
      rw [titlesUnique_retrieved_iff hs, hempty]
    · cases hstep

end TitleLemmas

/-- In a run of list creations, renames and deletions by one client the titles are
distinct in every state iff no new title, no renamed one and no default title that
is added is that of another list. -/
theorem titles_unique_iff (s : UserStore) (hs : TitlesUnique s) (es : List ListEvent)
    (t : ListsClient) (hrun : Machine.run listStep ⟨s, []⟩ es = some t) :
    (∀ fs u, fs <+: es → Machine.run listStep ⟨s, []⟩ fs = some u → TitlesUnique u.store) ↔
      Machine.Meets listStep ListsClient.NewTitles ⟨s, []⟩ es :=
  Machine.run_exact_prefix (J := fun _ => True) (I := fun σ => TitlesUnique σ.store)
    (fun _ _ _ _ _ => trivial) (fun _ _ _ _ hs hstep => titlesUnique_step hs hstep)
    (s := ⟨s, []⟩) trivial hs hrun

theorem titlesUnique_empty : TitlesUnique .empty := by
  rintro i j t ⟨d, hd, -⟩
  cases hd

theorem titles_unique_iff_two : ∃ t,
    Machine.run listStep ⟨.empty, []⟩ [.newList "Trips", .newList "Food"] = some t ∧
      ((∀ fs u, fs <+: [.newList "Trips", .newList "Food"] →
          Machine.run listStep ⟨.empty, []⟩ fs = some u → TitlesUnique u.store) ↔
        Machine.Meets listStep ListsClient.NewTitles ⟨.empty, []⟩
          [.newList "Trips", .newList "Food"]) :=
  ⟨_, rfl, titles_unique_iff .empty titlesUnique_empty [.newList "Trips", .newList "Food"] _ rfl⟩

/-- Neither alert looks at the titles that are there. -/
theorem same_title_twice :
    ¬ ∀ (es : List ListEvent) (t : ListsClient),
      Machine.run listStep ⟨.empty, []⟩ es = some t → TitlesUnique t.store := by
  intro hall
  have hunique := hall [.newList "Trips", .newList "Trips"] _ rfl
  have hequal : (0 : Nat) = 1 := hunique 0 1 "Trips" ⟨_, rfl, rfl⟩ ⟨_, rfl, rfl⟩
  exact absurd hequal (by decide)

end LocateMe
