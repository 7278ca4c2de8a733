import LocateMe.Lib.Interleaving
import LocateMe.ShelvedActions

/-!
# Handlers that act on one place

Done on the save screen of a saved place, a swipe out of a list and a swipe in
"Recently Saved" each send a batch of requests about one place. On the shelves each
of them puts that place somewhere; so handlers can be compared, and those for different
places do not disturb each other, in whatever order their requests arrive.

Results:
1. `handler_put`: what a handler does to a store that knows the place as the screen does.
2. `handlers_agree`: handlers that choose the same shelves do the same.
3. `last_done_counts`: after any handler, Done on the reopened screen counts.
4. `other_places_any_order`: the requests of handlers for different places, in any order
   of arrival, put every place where its handler puts it.
-/

namespace LocateMe

open Documents ShelfLemmas SaveLemmas ChosenLemmas RecentLemmas ActionLemmas

/-! ## 1. Handlers -/

/-- A handler for one saved place: Done on its save screen, a swipe out of a list, or a
swipe in "Recently Saved". -/
inductive PlaceHandler
  | done (selected : List Nat)
  | swipe (listId : Nat)
  | swipeRecent
deriving DecidableEq

namespace PlaceHandler

/-- The requests, from a screen that was opened on the store. `none` is an alert, or a
list that is not there. -/
def issued (s : UserStore) (place : Place) : PlaceHandler → Option Issued
  | done selected => (SavePlaceView.selecting s place selected).tappedDoneBtn
  | swipe listId => (s.lists.get listId).map fun doc => commitDelete s (listOfDoc listId doc) place
  | swipeRecent => some (commitDelete s recentlySaved place)

/-- The rows of Done are there and each is selected once; the place is in the list that it
is swiped out of; it is in ten lists at most when "Recently Saved" asks for its titles. -/
def Ready (s : UserStore) (place : Place) : PlaceHandler → Prop
  | done selected =>
    selected.Nodup ∧ ∀ row ∈ selected, row < (SavePlaceView.load s place).lists.length
  | swipe listId => ∃ doc ∈ s.lists.get listId, doc.title ∈ place.list
  | swipeRecent => place.list.length ≤ 10

instance (s : UserStore) (place : Place) (handler : PlaceHandler) :
    Decidable (handler.Ready s place) := by
  cases handler <;> unfold Ready <;> infer_instance

/-- The shelves that the handler leaves the place on. -/
def shelves (s : UserStore) (place : Place) : PlaceHandler → Set Nat
  | done selected => {i | (SavePlaceView.selecting s place selected).Selects i}
  | swipe listId => {i | (∃ doc ∈ s.lists.get i, doc.title ∈ place.list) ∧ i ≠ listId}
  | swipeRecent => ∅

end PlaceHandler

/-- A request about the record under `j`, or about the id `k` in a list. -/
inductive Write.About (j : Nat) (k : Int) : Write → Prop
  | unionPlaces (l : Nat) : Write.About j k (.unionPlaces l [k])
  | removePlaces (l : Nat) : Write.About j k (.removePlaces l [k])
  | setHistory (doc : HistoryDoc) : Write.About j k (.setHistory j doc)
  | removeTitles (titles : List String) : Write.About j k (.removeTitles j titles)
  | deleteHistory : Write.About j k (.deleteHistory j)

/-- The lists have the same titles. -/
def SameTitles (s t : UserStore) : Prop :=
  ∀ i, (s.lists.get i).map ListDoc.title = (t.lists.get i).map ListDoc.title

/-- The store knows the place as the screen does that was opened on `s`: the lists have the
titles that the screen shows, the record is the one it shows, and no id has come in. -/
structure KnowsPlace (s t : UserStore) (j : Nat) : Prop where
  titles : SameTitles s t
  record : t.history.get j = s.history.get j
  ids : ∀ i k, IdAt t i k → IdAt s i k

namespace HandlerLemmas

theorem knowsPlace_self (s : UserStore) (j : Nat) : KnowsPlace s s j :=
  ⟨fun _ => rfl, rfl, fun _ _ h => h⟩

theorem titled_of_sameTitles {s t : UserStore} (h : SameTitles s t) {i : Nat} {title : String} :
    Titled t i title ↔ Titled s i title := by
  show (∃ d, t.lists.get i = some d ∧ d.title = title) ↔ _
  rw [← Option.map_eq_some_iff, ← h i, Option.map_eq_some_iff]
  rfl

/-- The save screen is as good for the other store. -/
theorem saveFresh_of_knows {s t : UserStore} {j : Nat} (h : KnowsPlace s t j) {v : SavePlaceView}
    (hv : SaveFresh s v) : SaveFresh t v :=
  { hv with
    lists := fun l hl => by
      obtain ⟨i, hid, htitled⟩ := hv.lists l hl
      exact ⟨i, hid, (titled_of_sameTitles h.titles).mpr htitled⟩
    covers := fun i title hi => hv.covers i title ((titled_of_sameTitles h.titles).mp hi)
    ids := fun i k hi => hv.ids i k (h.ids i k hi) }

/-- A query for lists by their titles. -/
theorem listsTitled_of_sameTitles {s t : UserStore} (h : SameTitles s t) (titles : List String) :
    listsTitled s titles = listsTitled t titles := by
  have hread : ∀ u : UserStore, listsTitled u titles =
      ((u.lists.documents.map fun x => (x.1, x.2.title)).filter (·.2 ∈ titles)).map Prod.fst := by
    intro u
    rw [List.filter_map, List.map_map]
    rfl
  rw [hread, hread, Collection.documents_map_congr h]

/-- A swipe of a record's place. -/
theorem commitDelete_eq {place : Place} {j : Nat} (hj : place.dbId = some j)
    (t : UserStore) (l : Nat) (doc : ListDoc) :
    commitDelete t (listOfDoc l doc) place =
      .send [.removePlaces l [place.id], removal j place.list doc.title] := by
  simp only [commitDelete, listOfDoc, hj, removePlaceFromList, Issued.write_some, removeListOf_some]
  rfl

theorem about_removal {j : Nat} {k : Int} (list : List String) (title : String) :
    (removal j list title).About j k := by
  rcases removal_cases j list title with h | h
  · exact h ▸ .deleteHistory
  · exact h ▸ .removeTitles _

/-- Done on the save screen of a saved place. -/
theorem done_put {s t : UserStore} (hs : Tidy s) {b : UserShelves} (ht : Represents t b)
    {place : Place} {j : Nat} (hplace : IsRecord s place j) (hknows : KnowsPlace s t j)
    {selected : List Nat} (hready : (PlaceHandler.done selected).Ready s place) :
    ∃ issued h, (PlaceHandler.done selected).issued s place = some issued ∧
      issued.trapped = false ∧ (∀ w ∈ issued.writes, w.About j place.id) ∧
      Represents (applyAll t issued.writes)
        (b.put j place.bare ((PlaceHandler.done selected).shelves s place) h) := by
  obtain ⟨hnodup, hrows⟩ := hready
  let v := SavePlaceView.selecting s place selected
  have hv : SaveFresh s v := saveFresh_selecting (by simp [hplace.dbId]) hrows
  have hrecord : IsRecord t place j := ⟨hplace.dbId, hknows.record.trans hplace.record⟩
  obtain ⟨issued, h, hdone, hok, hb⟩ := done_represents ht (saveFresh_of_knows hknows hv)
    (nodup_listTitles hs.toConsistent hnodup) hrecord
  refine ⟨issued, h, hdone, hok, fun w hw => ?_, hb⟩
  have hsaved : v.alreadySavedPlace = true := by
    rw [hv.saved]
    exact decide_eq_true (List.length_pos_iff.mpr (hs.listed j _ hplace.record))
  have hid : v.highestId = place.id := if_pos hsaved
  have hj : ∀ i, place.dbId = some i → i = j :=
    fun i hi => Option.some.inj (hi.symm.trans hplace.dbId)
  cases doneWrite_of_mem hdone hw with
  | unionPlaces l => exact hid ▸ .unionPlaces l
  | addHistory hnew => rw [hsaved] at hnew; cases hnew
  | deleteHistory i _ hi => exact hj i hi ▸ .deleteHistory
  | setHistory i _ hi => exact hj i hi ▸ .setHistory _
  | removePlaces l => exact .removePlaces l

/-- A swipe out of a list. -/
theorem swipe_put {s t : UserStore} {b : UserShelves} (ht : Represents t b) {place : Place}
    {j : Nat} (hplace : IsRecord s place j) (hknows : KnowsPlace s t j) {l : Nat}
    (hready : (PlaceHandler.swipe l).Ready s place) :
    ∃ issued h, (PlaceHandler.swipe l).issued s place = some issued ∧
      issued.trapped = false ∧ (∀ w ∈ issued.writes, w.About j place.id) ∧
      Represents (applyAll t issued.writes)
        (b.put j place.bare ((PlaceHandler.swipe l).shelves s place) h) := by
  obtain ⟨doc, hdoc, hin⟩ := hready
  rw [Option.mem_def] at hdoc
  have hrecord : t.history.get j = some (docOfPlace place place.list place.id) :=
    hknows.record.trans hplace.record
  have hold : RecordOf b j (some (docOfPlace place place.list place.id)) := hrecord ▸ ht.records j
  obtain ⟨doc', hdoc', htitle⟩ : ∃ doc', t.lists.get l = some doc' ∧ doc'.title = doc.title := by
    have htitles := hknows.titles l
    rw [hdoc] at htitles
    exact Option.map_eq_some_iff.mp htitles.symm
  have hon : l ∈ b.on j := by
    refine (title_mem_iff hold (title_of_get ht hdoc')).mp ?_
    rwa [htitle]
  -- on the shelves the swipe takes the item off `l`
  have hleft : {i | i ∈ b.on j ∧ i ≠ l} = (PlaceHandler.swipe l).shelves s place := by
    ext i
    refine and_congr_left' ?_
    constructor
    · intro hi
      obtain ⟨title, hti⟩ := Option.isSome_iff_exists.mp (b.labelled j i hi)
      obtain ⟨d, hd, rfl⟩ := (titled_of_sameTitles hknows.titles).mp ((titled_iff ht).mpr hti)
      exact ⟨d, hd, (title_mem_iff hold hti).mpr hi⟩
    · rintro ⟨d, hd, hdin⟩
      have hti := (titled_iff ht).mp ((titled_of_sameTitles hknows.titles).mpr ⟨d, hd, rfl⟩)
      exact (title_mem_iff hold hti).mp hdin
  have hswipe := represents_swipe ht hdoc' hrecord hon
  rw [b.keep_eq_put (item_of_get ht hrecord) (· ≠ l) fun i hi => b.labelled j i hi.1, htitle]
    at hswipe
  refine ⟨.send [.removePlaces l [place.id], removal j place.list doc.title],
    fun i hi => b.labelled j i (hleft ▸ hi : i ∈ {i | i ∈ b.on j ∧ i ≠ l}).1, ?_, rfl,
    fun w hw => ?_, ?_⟩
  · simp only [PlaceHandler.issued, hdoc, Option.map_some, commitDelete_eq hplace.dbId s l doc]
  · rcases List.mem_pair.mp hw with rfl | rfl
    · exact .removePlaces l
    · exact about_removal place.list doc.title
  · simp only [← hleft]
    exact hswipe

/-- A swipe in "Recently Saved". -/
theorem swipeRecent_put {s t : UserStore} (hs : Tidy s) {b : UserShelves} (ht : Represents t b)
    {place : Place} {j : Nat} (hplace : IsRecord s place j) (hknows : KnowsPlace s t j)
    (hready : PlaceHandler.swipeRecent.Ready s place) :
    ∃ issued h, PlaceHandler.swipeRecent.issued s place = some issued ∧
      issued.trapped = false ∧ (∀ w ∈ issued.writes, w.About j place.id) ∧
      Represents (applyAll t issued.writes)
        (b.put j place.bare (PlaceHandler.swipeRecent.shelves s place) h) := by
  have hrecord : IsRecord t place j := ⟨hplace.dbId, hknows.record.trans hplace.record⟩
  have haccepted : ¬ (place.list = [] ∨ 10 < place.list.length) := by
    rintro (hnil | hlong)
    · exact hs.listed j _ hplace.record hnil
    · exact not_le.mpr hlong hready
  have hid : recentlySaved.id = none := rfl
  have hdeleted := deletedEverywhere_recent (tidy_of_represents ht).toConsistent hrecord
  have hrecent := represents_recent ht hrecord.record hdeleted
  have hnone : {i | i ∈ b.on j ∧ False} = (∅ : Set Nat) := by simp
  have hkeep := b.keep_eq_put (item_of_get ht hrecord.record) (fun _ => False)
    fun i hi => hi.2.elim
  refine ⟨_, fun i hi => hi.elim, congrArg some (commitDelete_recent hid haccepted hplace.dbId),
    rfl, fun w hw => ?_, ?_⟩
  · rcases List.mem_append.mp hw with hw | hw
    · obtain ⟨l, -, rfl⟩ := List.mem_map.mp hw
      exact .removePlaces l
    · exact List.mem_singleton.mp hw ▸ .deleteHistory
  · simp only [hnone] at hkeep
    rw [listsTitled_of_sameTitles hknows.titles]
    exact hkeep ▸ hrecent

end HandlerLemmas

open HandlerLemmas

/-- Whatever happened meanwhile to other places: a handler does not trap, is about its
place, and puts it where it was asked to. -/
theorem handler_put {s t : UserStore} (hs : Tidy s) {b : UserShelves} (ht : Represents t b)
    {place : Place} {j : Nat} (hplace : IsRecord s place j) (hknows : KnowsPlace s t j)
    (handler : PlaceHandler) (hready : handler.Ready s place) :
    ∃ issued h, handler.issued s place = some issued ∧
      issued.trapped = false ∧ (∀ w ∈ issued.writes, w.About j place.id) ∧
      Represents (applyAll t issued.writes)
        (b.put j place.bare (handler.shelves s place) h) := by
  cases handler with
  | done selected => exact done_put hs ht hplace hknows hready
  | swipe listId => exact swipe_put ht hplace hknows hready
  | swipeRecent => exact swipeRecent_put hs ht hplace hknows hready

/-! ## 2. Two handlers for one place -/

/-- The shelves that a handler chooses are lists of the store. -/
theorem PlaceHandler.shelves_titled {s : UserStore} (hs : Tidy s) {place : Place} {j : Nat}
    (hplace : IsRecord s place j) {handler : PlaceHandler} (hready : handler.Ready s place)
    {i : Nat} (hi : i ∈ handler.shelves s place) : ∃ doc, s.lists.get i = some doc := by
  obtain ⟨-, h, -⟩ :=
    handler_put hs (represents_shelvesOf hs) hplace (knowsPlace_self s j) handler hready
  obtain ⟨doc, hdoc, -⟩ := get_of_title (represents_shelvesOf hs) (h i hi)
  exact ⟨doc, hdoc⟩

/-- From a tidy store, two handlers for a saved place that are ready (the rows of Done are
selected once, a place swiped in "Recently Saved" is in ten lists at most) and choose the
same lists do the same without a trap, up to the order of arrays: a swipe out of a list as
Done with its row deselected, a swipe in "Recently Saved" as Done without a row. -/
theorem handlers_agree {s : UserStore} (hs : Tidy s) {place : Place} {j : Nat}
    (hplace : IsRecord s place j) {f g : PlaceHandler} (hf : f.Ready s place)
    (hg : g.Ready s place)
    (hsame : ∀ i doc, s.lists.get i = some doc → (i ∈ f.shelves s place ↔ i ∈ g.shelves s place)) :
    ∃ P Q, f.issued s place = some P ∧ g.issued s place = some Q ∧
      P.trapped = false ∧ Q.trapped = false ∧
      SameContents (applyAll s P.writes) (applyAll s Q.writes) := by
  have ha := represents_shelvesOf hs
  obtain ⟨P, h, hP, hok, -, hp⟩ := handler_put hs ha hplace (knowsPlace_self s j) f hf
  obtain ⟨Q, h', hQ, hok', -, hq⟩ := handler_put hs ha hplace (knowsPlace_self s j) g hg
  have hshelves : f.shelves s place = g.shelves s place := by
    ext i
    constructor
    · intro hi
      obtain ⟨doc, hdoc⟩ := PlaceHandler.shelves_titled hs hplace hf hi
      exact (hsame i doc hdoc).mp hi
    · intro hi
      obtain ⟨doc, hdoc⟩ := PlaceHandler.shelves_titled hs hplace hg hi
      exact (hsame i doc hdoc).mpr hi
  refine ⟨P, Q, hP, hQ, hok, hok', (sameContents_iff hp hq).mpr ?_⟩
  congr 1

instance (v : SavePlaceView) (i : Nat) : Decidable (v.Selects i) :=
  decidable_of_iff (∃ row ∈ v.selectedLists, ∃ list ∈ v.lists[row]?, list.id = some i) Iff.rfl

/-- The place of `exTidy` that is in both lists. -/
def exInBoth : Place := placeOfDoc 1 (docOfPlace exSavedPlace ["B", "A"] 2)

/-- It is swiped out of "A", or only the row of "B" stays selected. -/
theorem handlers_agree_two_lists :
    ∃ P Q, (PlaceHandler.swipe 0).issued exTidy exInBoth = some P ∧
      (PlaceHandler.done [1]).issued exTidy exInBoth = some Q ∧
      P.trapped = false ∧ Q.trapped = false ∧
      SameContents (applyAll exTidy P.writes) (applyAll exTidy Q.writes) := by
  have hsame : ∀ i doc, exTidy.lists.get i = some doc →
      (((∃ d ∈ exTidy.lists.get i, d.title ∈ exInBoth.list) ∧ i ≠ 0) ↔
        (SavePlaceView.selecting exTidy exInBoth [1]).Selects i) := by decide +kernel
  exact handlers_agree (by decide +kernel) ⟨rfl, by decide +kernel⟩ (by decide +kernel)
    (by decide +kernel) hsame

namespace HandlerLemmas

/-- The rows of the save screen, when the lists have the same titles. -/
theorem rows_congr {s t : UserStore} (h : SameTitles s t) :
    (sortedByTitle (getAllList s)).map (fun l => (l.id, l.title)) =
      (sortedByTitle (getAllList t)).map fun l => (l.id, l.title) := by
  have hsorted : ∀ u : UserStore, (sortedByTitle (getAllList u)).map (fun l => (l.id, l.title)) =
      ((u.lists.documents.map fun x => (x.1, x.2.title)).map fun x => (some x.1, x.2)).insertionSort
        fun a b => UnicodeCase.lowercased a.2 ≤ UnicodeCase.lowercased b.2 := by
    intro u
    rw [sortedByTitle, List.map_insertionSort _ (s := fun a b : Option Nat × String =>
      UnicodeCase.lowercased a.2 ≤ UnicodeCase.lowercased b.2) _ _ fun _ _ _ _ => Iff.rfl,
      getAllList, List.map_map, List.map_map]
    rfl
  rw [hsorted, hsorted, Collection.documents_map_congr h]

/-- Selected rows select the same lists, when the lists have the same titles. -/
theorem shelves_congr {s t : UserStore} (h : SameTitles s t) (place place' : Place)
    (selected : List Nat) :
    (PlaceHandler.done selected).shelves s place =
      (PlaceHandler.done selected).shelves t place' := by
  ext i
  have hrow : ∀ (u : UserStore) (row : Nat), (∃ l, (sortedByTitle (getAllList u))[row]? = some l ∧
      l.id = some i) ↔ ((sortedByTitle (getAllList u)).map fun l => (l.id, l.title))[row]?.map
        Prod.fst = some (some i) := by
    intro u row
    rw [List.getElem?_map, Option.map_map, Option.map_eq_some_iff]
    rfl
  refine exists_congr fun row => and_congr_right fun _ => ?_
  exact (hrow s row).trans (by rw [rows_congr h]; exact (hrow t row).symm)

theorem ready_done_congr {s t : UserStore} (h : SameTitles s t) (place place' : Place)
    {selected : List Nat} (hready : (PlaceHandler.done selected).Ready s place) :
    (PlaceHandler.done selected).Ready t place' := by
  have hlen := congrArg List.length (rows_congr h)
  rw [List.length_map, List.length_map] at hlen
  exact ⟨hready.1, fun row hrow => lt_of_lt_of_eq (hready.2 row hrow) hlen⟩

end HandlerLemmas

/-- From a tidy store, any handler for a saved place that is ready and leaves it on some
shelf, and then Done on its reopened save screen with rows selected once each, do the same
as that Done alone, up to the order of arrays. -/
theorem last_done_counts {s : UserStore} (hs : Tidy s) {place : Place} {j : Nat}
    (hplace : IsRecord s place j) {f : PlaceHandler} (hf : f.Ready s place)
    (hleft : (f.shelves s place).Nonempty) {selected : List Nat}
    (hdone : (PlaceHandler.done selected).Ready s place) :
    ∃ P r Q R, f.issued s place = some P ∧ (applyAll s P.writes).history.get j = some r ∧
      (PlaceHandler.done selected).issued (applyAll s P.writes) (placeOfDoc j r) = some Q ∧
      (PlaceHandler.done selected).issued s place = some R ∧
      SameContents (applyAll (applyAll s P.writes) Q.writes) (applyAll s R.writes) := by
  have ha := represents_shelvesOf hs
  obtain ⟨P, h, hP, -, -, hp⟩ := handler_put hs ha hplace (knowsPlace_self s j) f hf
  obtain ⟨R, h', hR, -, -, hr'⟩ :=
    handler_put hs ha hplace (knowsPlace_self s j) (.done selected) hdone
  have htitles : SameTitles s (applyAll s P.writes) :=
    fun i => by rw [(ha.lists i).title, (hp.lists i).title]; rfl
  obtain ⟨r, hr, hbare⟩ := get_of_item hp (Shelves.put_item _ j place.bare h hleft)
  have hrecord : IsRecord (applyAll s P.writes) (placeOfDoc j r) j := ⟨rfl, hr⟩
  obtain ⟨Q, h'', hQ, -, -, hq⟩ := handler_put (tidy_of_represents hp) hp hrecord
    (knowsPlace_self _ j) (.done selected) (ready_done_congr htitles place _ hdone)
  refine ⟨P, r, Q, R, hP, hr, hQ, hR, (sameContents_iff hq hr').mpr ?_⟩
  have hitem : (placeOfDoc j r).bare = place.bare := hbare
  have hshelves := shelves_congr htitles place (placeOfDoc j r) selected
  rw [Shelves.put_put]
  congr 1
  exact hshelves.symm

/-- It is swiped out of "A", and then saved to "A" only. -/
theorem last_done_counts_swiped :
    ∃ P r Q R, (PlaceHandler.swipe 0).issued exTidy exInBoth = some P ∧
      (applyAll exTidy P.writes).history.get 1 = some r ∧
      (PlaceHandler.done [0]).issued (applyAll exTidy P.writes) (placeOfDoc 1 r) = some Q ∧
      (PlaceHandler.done [0]).issued exTidy exInBoth = some R ∧
      SameContents (applyAll (applyAll exTidy P.writes) Q.writes) (applyAll exTidy R.writes) := by
  have hleft : (∃ d ∈ exTidy.lists.get 1, d.title ∈ exInBoth.list) ∧ 1 ≠ 0 := by decide +kernel
  have hshelf : 1 ∈ (PlaceHandler.swipe 0).shelves exTidy exInBoth := hleft
  exact last_done_counts (by decide +kernel) ⟨rfl, by decide +kernel⟩ (by decide +kernel)
    ⟨1, hshelf⟩ (by decide +kernel)

/-! ## 3. Handlers for different places -/

/-- A device at a screen for a saved place, and the handler that runs there. -/
structure PlaceVisit where
  place : Place
  record : Nat
  handler : PlaceHandler

namespace PlaceVisit

def issued (s : UserStore) (v : PlaceVisit) : Option Issued := v.handler.issued s v.place

/-- What the device sends. -/
def requests (s : UserStore) (v : PlaceVisit) : List Write := (v.issued s).elim [] Issued.writes

/-- What that means on the shelves. -/
def meaning (s : UserStore) (v : PlaceVisit) : Shelves.Op Nat String Nat HistoryDoc :=
  .put v.record v.place.bare (v.handler.shelves s v.place)

/-- The screen was opened on the store, and the handler is ready there. -/
structure Opened (s : UserStore) (v : PlaceVisit) : Prop where
  isRecord : IsRecord s v.place v.record
  ready : v.handler.Ready s v.place

end PlaceVisit

namespace HandlerLemmas

/-- What a request about a place does to a list: whether another id is in it does not
change, and whether the place's is depends on that only. -/
theorem lists_about {j : Nat} {k : Int} {w : Write} (hw : w.About j k) (i : Nat) :
    ∃ e : ListDoc → ListDoc, (∀ s, (w.apply s).lists.get i = (s.lists.get i).map e) ∧
      (∀ doc, (e doc).title = doc.title) ∧
      (∀ doc k', k' ≠ k → (k' ∈ (e doc).places ↔ k' ∈ doc.places)) ∧
      ∀ doc doc', (k ∈ doc.places ↔ k ∈ doc'.places) →
        (k ∈ (e doc).places ↔ k ∈ (e doc').places) := by
  have hid : ∀ o : Option ListDoc, o = o.map id := fun o => by simp
  cases hw with
  | unionPlaces l =>
    by_cases hi : i = l
    · refine ⟨ListDoc.addPlaces [k], fun s => by simp [Write.apply, hi], fun _ => rfl,
        fun doc k' hne => by simp [ListDoc.addPlaces, hne], fun doc doc' _ => ?_⟩
      simp [ListDoc.addPlaces]
    · exact ⟨id, fun s => by simp [Write.apply, hi], fun _ => rfl, fun _ _ _ => Iff.rfl,
        fun _ _ h => h⟩
  | removePlaces l =>
    by_cases hi : i = l
    · refine ⟨ListDoc.removePlaces [k], fun s => by simp [Write.apply, hi], fun _ => rfl,
        fun doc k' hne => by simp [ListDoc.removePlaces, hne], fun doc doc' _ => ?_⟩
      simp [ListDoc.removePlaces]
    · exact ⟨id, fun s => by simp [Write.apply, hi], fun _ => rfl, fun _ _ _ => Iff.rfl,
        fun _ _ h => h⟩
  | _ => exact ⟨id, fun s => hid _, fun _ => rfl, fun _ _ _ => Iff.rfl, fun _ _ h => h⟩

/-- What a request about a place does to the records. -/
theorem records_about {j : Nat} {k : Int} {w : Write} (hw : w.About j k) :
    ∃ g : Option HistoryDoc → Option HistoryDoc,
      (∀ s i, (w.apply s).history.get i =
        if i = j then g (s.history.get i) else s.history.get i) ∧
      ∀ o o', Option.Rel HistoryDoc.Same o o' → Option.Rel HistoryDoc.Same (g o) (g o') := by
  have hself : ∀ o : Option HistoryDoc, Option.Rel HistoryDoc.Same o o := by
    rintro (_ | r)
    · exact .none
    · exact .some ⟨rfl, List.Perm.refl _⟩
  cases hw with
  | unionPlaces l => exact ⟨id, fun s i => by simp [Write.apply], fun _ _ h => h⟩
  | removePlaces l => exact ⟨id, fun s i => by simp [Write.apply], fun _ _ h => h⟩
  | setHistory doc => exact ⟨fun _ => some doc, fun _ _ => rfl, fun _ _ _ => hself _⟩
  | removeTitles titles =>
    refine ⟨Option.map (HistoryDoc.removeTitles titles), fun s i => ?_, fun _ _ h => ?_⟩
    · show (if i = j then (s.history.get j).map _ else s.history.get i) = _
      split
      · next hi => rw [hi]
      · rfl
    · cases h with
      | none => exact .none
      | some h => exact .some ⟨h.1, h.2.filter _⟩
  | deleteHistory => exact ⟨fun _ => none, fun _ _ => rfl, fun _ _ _ => .none⟩

theorem rel_equivalence {α : Type} {r : α → α → Prop} (h : Equivalence r) :
    Equivalence (Option.Rel r) where
  refl o := by
    cases o with
    | none => exact .none
    | some x => exact .some (h.refl x)
  symm hxy := by
    cases hxy with
    | none => exact .none
    | some hxy => exact .some (h.symm hxy)
  trans hxy hyz := by
    cases hxy with
    | none => exact hyz
    | some hxy =>
      cases hyz with
      | some hyz => exact .some (h.trans hxy hyz)

theorem rel_map {α : Type} {r : α → α → Prop} {o o' : Option α} (h : Option.Rel r o o')
    {e : α → α} (he : ∀ x y, r x y → r (e x) (e y)) : Option.Rel r (o.map e) (o'.map e) := by
  cases h with
  | none => exact .none
  | some hxy => exact .some (he _ _ hxy)

theorem same_history_equivalence : Equivalence (Option.Rel HistoryDoc.Same) :=
  rel_equivalence ⟨fun _ => ⟨rfl, List.Perm.refl _⟩, fun h => ⟨h.1.symm, h.2.symm⟩,
    fun h h' => ⟨h.1.trans h'.1, h.2.trans h'.2⟩⟩

theorem same_list_equivalence : Equivalence (Option.Rel ListDoc.Same) :=
  rel_equivalence ⟨fun _ => ⟨rfl, fun _ => Iff.rfl⟩, fun h => ⟨h.1.symm, fun k => (h.2 k).symm⟩,
    fun h h' => ⟨h.1.trans h'.1, fun k => (h.2 k).trans (h'.2 k)⟩⟩

theorem same_equivalence : Equivalence SameContents where
  refl _ := ⟨fun _ => same_history_equivalence.refl _, fun _ => same_list_equivalence.refl _⟩
  symm h := ⟨fun j => same_history_equivalence.symm (h.records j),
    fun i => same_list_equivalence.symm (h.lists i)⟩
  trans h h' := ⟨fun j => same_history_equivalence.trans (h.records j) (h'.records j),
    fun i => same_list_equivalence.trans (h.lists i) (h'.lists i)⟩

/-- A request about a place does the same to stores with the same contents. -/
theorem about_congr {j : Nat} {k : Int} {w : Write} (hw : w.About j k) {s t : UserStore}
    (h : SameContents s t) : SameContents (w.apply s) (w.apply t) := by
  refine ⟨fun i => ?_, fun i => ?_⟩
  · obtain ⟨g, hg, hcongr⟩ := records_about hw
    rw [hg, hg]
    split
    · exact hcongr _ _ (h.records i)
    · exact h.records i
  · obtain ⟨e, he, htitle, hother, hown⟩ := lists_about hw i
    rw [he, he]
    refine rel_map (h.lists i) fun d d' hd => ⟨by rw [htitle, htitle, hd.1], fun k' => ?_⟩
    rcases eq_or_ne k' k with rfl | hne
    · exact hown d d' (hd.2 k')
    · rw [hother d k' hne, hother d' k' hne, hd.2]

/-- Requests about different places commute. -/
theorem about_comm {i j : Nat} {k m : Int} {w v : Write} (hw : w.About i k) (hv : v.About j m)
    (hij : i ≠ j) (hkm : k ≠ m) (s : UserStore) :
    SameContents (w.apply (v.apply s)) (v.apply (w.apply s)) := by
  refine ⟨fun l => ?_, fun l => ?_⟩
  · obtain ⟨g, hg, -⟩ := records_about hw
    obtain ⟨g', hg', -⟩ := records_about hv
    rw [hg, hg', hg', hg]
    have hrefl := same_history_equivalence.refl
    split_ifs with hi hj
    · exact absurd (hi.symm.trans hj) hij
    · exact hrefl _
    · exact hrefl _
    · exact hrefl _
  · obtain ⟨e, he, htitle, hother, hown⟩ := lists_about hw l
    obtain ⟨e', he', htitle', hother', hown'⟩ := lists_about hv l
    rw [he, he', he', he]
    cases s.lists.get l with
    | none => exact .none
    | some doc =>
      refine .some ⟨by rw [htitle, htitle', htitle', htitle], fun k' => ?_⟩
      rcases eq_or_ne k' k with rfl | hk
      · rw [hother' (e doc) k' hkm]
        exact hown (e' doc) doc (hother' doc k' hkm)
      · rw [hother (e' doc) k' hk]
        rcases eq_or_ne k' m with rfl | hm
        · exact (hown' (e doc) doc (hother doc k' hk)).symm
        · rw [hother' doc k' hm, hother' (e doc) k' hm, hother doc k' hk]

/-- After a handler for another place the store still knows this one. -/
theorem knowsPlace_after {s t : UserStore} {a : UserShelves} (ha : Represents s a) {place : Place}
    {i j : Nat} (hplace : IsRecord s place i) {S : Set Nat}
    {h : ∀ l ∈ S, (a.title l).isSome} (ht : Represents t (a.put i place.bare S h))
    (hrecord : t.history.get j = s.history.get j) : KnowsPlace s t j where
  titles l := by rw [(ha.lists l).title, (ht.lists l).title]; rfl
  record := hrecord
  ids := by
    rintro m k ⟨r, hr, rfl⟩
    have hitem := item_of_get ht hr
    rcases eq_or_ne m i with rfl | hne
    · have hS : S.Nonempty := by
        rw [← Shelves.put_on a m place.bare h, ← Shelves.standing, hitem]
        rfl
      rw [Shelves.put_item a m _ h hS] at hitem
      have hid : place.bare.id = r.bare.id := congrArg HistoryDoc.id (Option.some.inj hitem)
      exact ⟨_, hplace.record, hid⟩
    · rw [Shelves.put_item_of_ne a hne] at hitem
      obtain ⟨r', hr', hbare⟩ := get_of_item ha hitem
      have hid : r'.bare.id = r.bare.id := congrArg HistoryDoc.id hbare
      exact ⟨r', hr', hid⟩

/-- Requests about another place leave a record alone. -/
theorem history_about {i j : Nat} {k : Int} {ws : List Write} (hws : ∀ w ∈ ws, w.About i k)
    (hij : j ≠ i) (s : UserStore) : (applyAll s ws).history.get j = s.history.get j := by
  refine applyAll_invariant (I := fun t => t.history.get j = s.history.get j)
    (fun w hw t ht => ?_) rfl
  obtain ⟨g, hg, -⟩ := records_about (hws w hw)
  rw [hg, if_neg hij, ht]

theorem knowsPlace_trans {s t u : UserStore} {j : Nat} (h : KnowsPlace s t j)
    (h' : KnowsPlace t u j) : KnowsPlace s u j where
  titles i := (h.titles i).trans (h'.titles i)
  record := h'.record.trans h.record
  ids i k hi := h.ids i k (h'.ids i k hi)

/-- Handlers that run one after the other, each on a screen that was opened before. -/
theorem visits_put {s t : UserStore} (hs : Tidy s) {b : UserShelves} (ht : Represents t b)
    {visits : List PlaceVisit} (hopened : ∀ v ∈ visits, v.Opened s)
    (hdistinct : visits.Pairwise (·.record ≠ ·.record))
    (hknows : ∀ v ∈ visits, KnowsPlace s t v.record) :
    ∃ b', Machine.run Shelves.step b (visits.map (·.meaning s)) = some b' ∧
      Represents (applyAll t (visits.map (·.requests s)).flatten) b' := by
  induction visits generalizing t b with
  | nil => exact ⟨b, rfl, ht⟩
  | cons v visits ih =>
    obtain ⟨hother, hrest⟩ := List.pairwise_cons.mp hdistinct
    obtain ⟨hrecord, hready⟩ := hopened v List.mem_cons_self
    have hknown := hknows v List.mem_cons_self
    obtain ⟨P, h, hissued, -, habout, hput⟩ := handler_put hs ht hrecord hknown v.handler hready
    have hrequests : v.requests s = P.writes := by
      simp [PlaceVisit.requests, PlaceVisit.issued, hissued]
    have hrecord' : IsRecord t v.place v.record :=
      ⟨hrecord.dbId, hknown.record.trans hrecord.record⟩
    obtain ⟨b', hrun, hb'⟩ := ih hput (fun w hw => hopened w (List.mem_cons_of_mem v hw)) hrest
      fun w hw => knowsPlace_trans (hknows w (List.mem_cons_of_mem v hw))
        (knowsPlace_after ht hrecord' hput (history_about habout (hother w hw).symm t))
    refine ⟨b', Machine.run_cons.mpr ⟨_, Shelves.step_put.mpr ⟨h, rfl⟩, hrun⟩, ?_⟩
    rwa [List.map_cons, List.flatten_cons, hrequests, applyAll_append]

/-- What a device sends from a screen that was opened on the store. -/
theorem requests_about {s : UserStore} (hs : Tidy s) {v : PlaceVisit} (hv : v.Opened s) :
    (∃ issued, v.issued s = some issued ∧ issued.trapped = false) ∧
      ∀ w ∈ v.requests s, w.About v.record v.place.id := by
  obtain ⟨P, -, hissued, hok, habout, -⟩ := handler_put hs (represents_shelvesOf hs) hv.isRecord
    (knowsPlace_self s v.record) v.handler hv.ready
  refine ⟨⟨P, hissued, hok⟩, ?_⟩
  have hrequests : v.requests s = P.writes := by
    simp [PlaceVisit.requests, PlaceVisit.issued, hissued]
  rwa [hrequests]

end HandlerLemmas

/-- From a tidy store, any number of devices that have each opened a screen for another
saved place, with a handler that is ready (the rows of Done are selected once, a place
swiped in "Recently Saved" is in ten lists at most): no handler traps, and in whatever
order their requests arrive among each other, every place comes to stand where its
handler puts it, and everything else stays as it is. -/
theorem other_places_any_order {s : UserStore} (hs : Tidy s) {visits : List PlaceVisit}
    (hopened : ∀ v ∈ visits, v.Opened s) (hdistinct : visits.Pairwise (·.record ≠ ·.record)) :
    (∀ v ∈ visits, ∃ issued, v.issued s = some issued ∧ issued.trapped = false) ∧
    ∃ b, Machine.run Shelves.step (shelvesOf s hs) (visits.map (·.meaning s)) = some b ∧
      ∀ us, Interleavings (visits.map (·.requests s)) us → Represents (applyAll s us) b := by
  obtain ⟨b, hrun, hb⟩ := visits_put hs (represents_shelvesOf hs) hopened hdistinct
    fun v _ => knowsPlace_self s v.record
  refine ⟨fun v hv => (requests_about hs (hopened v hv)).1, b, hrun, fun us hus => ?_⟩
  have habout : ∀ v ∈ visits, ∀ w ∈ v.requests s, w.About v.record v.place.id :=
    fun v hv => (requests_about hs (hopened v hv)).2
  have hids : ∀ v ∈ visits, ∀ w ∈ visits, v.record ≠ w.record → v.place.id ≠ w.place.id :=
    fun v hv w hw hne heq => hne
      (hs.ids ⟨_, (hopened v hv).isRecord.record, rfl⟩
        ⟨_, (hopened w hw).isRecord.record, heq.symm⟩)
  have horder : SameContents (applyAll s us) (applyAll s (visits.map (·.requests s)).flatten) := by
    refine Interleaving.foldl_interleavings (P := fun w => ∃ m k, w.About m k) same_equivalence
      (fun w _ _ ⟨_, _, hw⟩ h => about_congr hw h) (fun w hw => ?_) ?_ hus s
    · obtain ⟨ws, hws, hw⟩ := List.mem_flatten.mp hw
      obtain ⟨v, hv, rfl⟩ := List.mem_map.mp hws
      exact ⟨_, _, habout v hv w hw⟩
    · refine List.pairwise_map.mpr (hdistinct.imp_of_mem fun {v w} hv hw hne x hx y hy t => ?_)
      exact about_comm (habout v hv x hx) (habout w hw y hy) hne (hids v hv w hw hne) t
  exact represents_same hb (same_equivalence.symm horder)

/-- Two places of `exTidy`: one is swiped away in "Recently Saved" while the other one is
saved to "B" only. -/
def exVisits : List PlaceVisit := [⟨exInBoth, 1, .swipeRecent⟩, ⟨exSavedPlace, 0, .done [1]⟩]

theorem other_places_any_order_two :
    (∀ v ∈ exVisits, ∃ issued, v.issued exTidy = some issued ∧ issued.trapped = false) ∧
    ∃ b, Machine.run Shelves.step (shelvesOf exTidy (by decide +kernel))
        (exVisits.map (·.meaning exTidy)) = some b ∧
      ∀ us, Interleavings (exVisits.map (·.requests exTidy)) us →
        Represents (applyAll exTidy us) b := by
  refine other_places_any_order (by decide +kernel) (fun v hv => ?_) (by decide)
  rcases List.mem_pair.mp hv with rfl | rfl
  · exact ⟨⟨rfl, by decide +kernel⟩, by decide +kernel⟩
  · exact ⟨⟨rfl, by decide +kernel⟩, by decide +kernel⟩

end LocateMe
