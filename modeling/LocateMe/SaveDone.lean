import LocateMe.Consistency
import LocateMe.SavePlaceView

/-!
# Done on the save screen

The requests that `tappedDoneBtn` sends from a screen whose lists and ids are
those of the store, and what they do to the store.

Results:
1. `done_new`, `done_saved`: the requests for a new place and for a saved one.
2. `mem_added`, `mem_removed`: which lists they change.
3. `newPart_spec`, `savedPart_spec`: what any part of them does to the store.
4. `consistent_tappedDoneBtn`: a consistent store stays consistent.
-/

namespace LocateMe

open Documents StoreLemmas

/-! ## 1. The requests -/

/-- The rows and ids of the save screen are those of the store, and the place on
screen has a record when it is in a list. -/
structure SaveFresh (s : UserStore) (v : SavePlaceView) : Prop where
  lists : ∀ l ∈ v.lists, ∃ i, l.id = some i ∧ Titled s i l.title
  covers : ∀ i t, Titled s i t → ∃ l ∈ v.lists, l.title = t
  ids : ∀ j k, IdAt s j k → k ∈ v.ids
  rows : ∀ row ∈ v.selectedLists, ∃ l, v.lists[row]? = some l
  rendered : ∀ row, v.boxes row ≠ none → ∃ l, v.lists[row]? = some l
  saved : v.alreadySavedPlace = decide (0 < v.currentPlace.list.length)
  stored : v.currentPlace.list ≠ [] → v.currentPlace.dbId ≠ none

namespace SavePlaceView

/-- The lists that Done adds the place to. -/
def added (v : SavePlaceView) : List Nat :=
  v.selectedLists.filterMap fun row => (v.lists[row]?).bind fun l =>
    if v.currentPlace.list.contains l.title then none else l.id

/-- The lists that Done removes the place from. -/
def removed (v : SavePlaceView) : List Nat :=
  v.currentPlace.list.filterMap fun title =>
    if v.listTitles.contains title then none else (v.lists.find? (·.title = title)).bind PlaceList.id

/-- What Done does to the record of a saved place. -/
def recordWrite (v : SavePlaceView) (j : Nat) : Write :=
  if v.listTitles.length = 0 then .deleteHistory j
  else .setHistory j (docOfPlace v.currentPlace v.listTitles v.currentPlace.id)

/-- Part of the requests of Done for a new place: those for the lists `added`,
and the record's if `written`. -/
def newPart (v : SavePlaceView) (added : List Nat) (written : Bool) : List Write :=
  added.map (Write.unionPlaces · [v.highestId]) ++
    if written then [.addHistory (docOfPlace v.currentPlace v.listTitles v.highestId)] else []

/-- Part of the requests of Done for a saved place: those for the lists `added`
and `removed`, and the record's if `written`. -/
def savedPart (v : SavePlaceView) (j : Nat) (added : List Nat) (written : Bool)
    (removed : List Nat) : List Write :=
  added.map (Write.unionPlaces · [v.currentPlace.id]) ++
    ((if written then [v.recordWrite j] else []) ++
      removed.map (Write.removePlaces · [v.currentPlace.id]))

end SavePlaceView

namespace SaveLemmas

theorem mem_added {s : UserStore} (hs : Consistent s) {v : SavePlaceView} (hv : SaveFresh s v)
    {i : Nat} {t : String} (hi : Titled s i t) :
    i ∈ v.added ↔ t ∈ v.listTitles ∧ t ∉ v.currentPlace.list := by
  have hmem : i ∈ v.added ↔ ∃ row ∈ v.selectedLists, ∃ l, v.lists[row]? = some l ∧
      l.title ∉ v.currentPlace.list ∧ l.id = some i := by
    simp only [SavePlaceView.added, List.mem_filterMap, Option.bind_eq_some_iff, List.contains_iff_mem,
      Option.ite_none_left_eq_some]
  rw [hmem, mem_listTitles]
  constructor
  · rintro ⟨row, hrow, l, hl, hnot, hid⟩
    obtain ⟨i', hid', htitled⟩ := hv.lists l (List.mem_of_getElem? hl)
    obtain rfl := Option.some.inj (hid.symm.trans hid')
    obtain rfl := titled_unique hi htitled
    exact ⟨⟨row, hrow, l, hl, rfl⟩, hnot⟩
  · rintro ⟨⟨row, hrow, l, hl, rfl⟩, hnot⟩
    obtain ⟨i', hid', htitled⟩ := hv.lists l (List.mem_of_getElem? hl)
    obtain rfl := hs.titles hi htitled
    exact ⟨row, hrow, l, hl, hnot, hid'⟩

/-- The first row with the title of a list of the store is that list's. -/
theorem find?_title {s : UserStore} (hs : Consistent s) {v : SavePlaceView} (hv : SaveFresh s v)
    {i : Nat} {t : String} (hi : Titled s i t) :
    ∃ l, v.lists.find? (·.title = t) = some l ∧ l.id = some i := by
  obtain ⟨l₀, hl₀, htitle₀⟩ := hv.covers i t hi
  have hsome : (v.lists.find? (·.title = t)).isSome :=
    List.find?_isSome.mpr ⟨l₀, hl₀, decide_eq_true htitle₀⟩
  obtain ⟨l, hl⟩ := Option.isSome_iff_exists.mp hsome
  obtain ⟨i', hid, htitled⟩ := hv.lists l (List.mem_of_find?_eq_some hl)
  have htitle := List.find?_some hl
  simp only [decide_eq_true_eq] at htitle
  rw [htitle] at htitled
  obtain rfl := hs.titles hi htitled
  exact ⟨l, hl, hid⟩

theorem mem_removed {s : UserStore} (hs : Consistent s) {v : SavePlaceView} (hv : SaveFresh s v)
    {i : Nat} {t : String} (hi : Titled s i t) :
    i ∈ v.removed ↔ t ∈ v.currentPlace.list ∧ t ∉ v.listTitles := by
  have hmem : i ∈ v.removed ↔ ∃ u ∈ v.currentPlace.list, u ∉ v.listTitles ∧
      ∃ l, v.lists.find? (·.title = u) = some l ∧ l.id = some i := by
    simp only [SavePlaceView.removed, List.mem_filterMap, Option.bind_eq_some_iff,
      List.contains_iff_mem, Option.ite_none_left_eq_some]
  rw [hmem]
  constructor
  · rintro ⟨u, hu, hnot, l, hl, hid⟩
    obtain ⟨i', hid', htitled⟩ := hv.lists l (List.mem_of_find?_eq_some hl)
    obtain rfl := Option.some.inj (hid.symm.trans hid')
    have htitle := List.find?_some hl
    simp only [decide_eq_true_eq] at htitle
    rw [htitle] at htitled
    obtain rfl := titled_unique hi htitled
    exact ⟨hu, hnot⟩
  · rintro ⟨ht, hnot⟩
    obtain ⟨l, hl, hid⟩ := find?_title hs hv hi
    exact ⟨t, ht, hnot, l, hl, hid⟩

/-- The loop of `tappedDoneBtn` over the selected rows. -/
theorem add_loop {s : UserStore} {v : SavePlaceView} (hv : SaveFresh s v) :
    Issued.forEach v.selectedLists v.addToList =
      .send (v.added.map (Write.unionPlaces · [v.highestId])) := by
  refine forEach_filterMap fun row hrow => ?_
  obtain ⟨l, hl⟩ := hv.rows row hrow
  obtain ⟨i, hid, -⟩ := hv.lists l (List.mem_of_getElem? hl)
  simp only [SavePlaceView.addToList, hl, Option.bind_some, hid, addNewPlaceToList]
  split <;> rfl

/-- The loop of `tappedDoneBtn` over the titles of a saved place. It does not
trap when the titles that are not selected are titles of lists. -/
theorem remove_loop {s : UserStore} (hs : Consistent s) {v : SavePlaceView} (hv : SaveFresh s v)
    (hknown : ∀ t ∈ v.currentPlace.list, t ∉ v.listTitles → ListTitle s t) :
    Issued.forEach v.currentPlace.list v.removeFromList =
      .send (v.removed.map (Write.removePlaces · [v.currentPlace.id])) := by
  refine forEach_filterMap fun t ht => ?_
  by_cases hsel : t ∈ v.listTitles
  · simp [SavePlaceView.removeFromList, hsel]
  · obtain ⟨i, hi⟩ := hknown t ht hsel
    obtain ⟨l, hl, hid⟩ := find?_title hs hv hi
    simp [SavePlaceView.removeFromList, hsel, hl, hid, removePlaceFromList]

/-- Done for a place that is in no list. -/
theorem done_new {s : UserStore} {v : SavePlaceView} (hv : SaveFresh s v)
    (hnew : v.alreadySavedPlace = false) {issued : Issued} (hdone : v.tappedDoneBtn = some issued) :
    issued = .send (v.newPart v.added true) := by
  unfold SavePlaceView.tappedDoneBtn at hdone
  split at hdone
  · cases hdone
  · obtain rfl := Option.some.inj hdone
    rw [add_loop hv]
    rfl

/-- Done for a saved place, up to a trap in the last loop. -/
theorem done_saved_eq {s : UserStore} {v : SavePlaceView} (hv : SaveFresh s v)
    (hsaved : v.alreadySavedPlace = true) {j : Nat} (hj : v.currentPlace.dbId = some j)
    {issued : Issued} (hdone : v.tappedDoneBtn = some issued) :
    issued = (Issued.send (v.added.map (Write.unionPlaces · [v.currentPlace.id]))).andThen
      ((Issued.send [v.recordWrite j]).andThen
        (.forEach v.currentPlace.list v.removeFromList)) := by
  have hid : v.highestId = v.currentPlace.id := by simp [SavePlaceView.highestId, hsaved]
  unfold SavePlaceView.tappedDoneBtn at hdone
  split at hdone
  · cases hdone
  · obtain rfl := Option.some.inj hdone
    have hfalse : ¬ v.alreadySavedPlace = false := by simp [hsaved]
    rw [add_loop hv, if_neg hfalse, hid]
    unfold SavePlaceView.recordWrite deletePlace updatePlace
    rw [hj]
    split <;> rfl

/-- Done for a saved place. -/
theorem done_saved {s : UserStore} (hs : Consistent s) {v : SavePlaceView} (hv : SaveFresh s v)
    (hsaved : v.alreadySavedPlace = true) {j : Nat} (hj : v.currentPlace.dbId = some j)
    (hknown : ∀ t ∈ v.currentPlace.list, t ∉ v.listTitles → ListTitle s t) {issued : Issued}
    (hdone : v.tappedDoneBtn = some issued) :
    issued = .send (v.savedPart j v.added true v.removed) := by
  rw [done_saved_eq hv hsaved hj hdone, remove_loop hs hv hknown]
  rw [Issued.send_andThen, Issued.send_andThen, SavePlaceView.savedPart, if_pos rfl]
  rfl

theorem list_of_new {s : UserStore} {v : SavePlaceView} (hv : SaveFresh s v)
    (hnew : v.alreadySavedPlace = false) : v.currentPlace.list = [] := by
  have hsaved := hv.saved
  rw [hnew] at hsaved
  simpa using hsaved.symm

theorem list_of_saved {s : UserStore} {v : SavePlaceView} (hv : SaveFresh s v)
    (hold : v.alreadySavedPlace = true) : v.currentPlace.list ≠ [] := by
  have hsaved := hv.saved
  rw [hold] at hsaved
  exact List.length_pos_iff.mp (by simpa using hsaved.symm)

/-- The id of a new place is new. -/
theorem highestId_fresh {s : UserStore} {v : SavePlaceView} (hv : SaveFresh s v)
    (hnew : v.alreadySavedPlace = false) (j : Nat) : ¬ IdAt s j v.highestId := by
  intro hj
  have hin := hv.ids j _ hj
  have hlt : v.highestId < v.highestId := by
    obtain ⟨m, hm⟩ := Option.isSome_iff_exists.mp (List.isSome_max?_of_mem hin)
    have hle : v.highestId ≤ m := (List.max?_le_iff hm).mp le_rfl _ hin
    have heq : v.highestId = m + 1 := by simp [SavePlaceView.highestId, hnew, hm]
    omega
  exact lt_irrefl _ hlt

end SaveLemmas

open SaveLemmas

/-! ## 2. Consistency -/

/-- What Done needs for a saved place: its id and document still go together,
the titles that are deselected are titles of lists, and where the selection
leaves a list as the place on screen has it, so has the store. -/
structure SaveReady (s : UserStore) (v : SavePlaceView) : Prop where
  same : SamePlace s v.currentPlace.dbId v.currentPlace.id
  known : ∀ t ∈ v.currentPlace.list, t ∉ v.listTitles → ListTitle s t
  agrees : ∀ t, ListTitle s t → (t ∈ v.currentPlace.list ↔ t ∈ v.listTitles) →
    (t ∈ v.currentPlace.list ↔ Recorded s v.currentPlace.id t)

instance (s : UserStore) (v : SavePlaceView) : Decidable (SaveReady s v) :=
  decidable_of_iff (SamePlace s v.currentPlace.dbId v.currentPlace.id ∧
      (∀ t ∈ v.currentPlace.list, t ∉ v.listTitles → ListTitle s t) ∧
      ∀ t, ListTitle s t → (t ∈ v.currentPlace.list ↔ t ∈ v.listTitles) →
        (t ∈ v.currentPlace.list ↔ Recorded s v.currentPlace.id t))
    ⟨fun h => ⟨h.1, h.2.1, h.2.2⟩, fun h => ⟨h.same, h.known, h.agrees⟩⟩

namespace SaveLemmas

/-- The write to the record: it keeps the lists, and gives the place the titles
of the selection. -/
theorem recordWrite_spec {s : UserStore} {v : SavePlaceView} {j : Nat}
    (hsame : SameRecord s j v.currentPlace.id) :
    let t := (v.recordWrite j).apply s
    t.lists = s.lists ∧
      (∀ i k, IdAt t i k → if i = j then k = v.currentPlace.id else IdAt s i k) ∧
      ∀ k u, Recorded t k u ↔ if k = v.currentPlace.id then u ∈ v.listTitles else Recorded s k u := by
  unfold SavePlaceView.recordWrite
  split
  · next hlen =>
    refine ⟨rfl, fun i k hi => ?_, fun k u => ?_⟩
    · obtain ⟨hij, hi⟩ := idAt_deleteHistory.mp hi
      rwa [if_neg hij]
    · rw [recorded_deleteHistory hsame, List.eq_nil_of_length_eq_zero hlen]
      by_cases hk : k = v.currentPlace.id <;> simp [hk]
  · exact ⟨rfl, fun i k hi => idAt_setHistory.mp hi, fun k u => recorded_setHistory hsame⟩

theorem newPart_spec {s : UserStore} (v : SavePlaceView) (added : List Nat) (written : Bool) :
    let t := applyAll s (v.newPart added written)
    (∀ i u, Titled t i u ↔ Titled s i u) ∧
      (∀ i k, Listed t i k ↔
        Listed s i k ∨ (i ∈ added ∧ k = v.highestId ∧ ∃ u, Titled s i u)) ∧
      (∀ i k, IdAt t i k ↔
        (written = true ∧ i = s.history.next ∧ k = v.highestId) ∨ IdAt s i k) ∧
      ∀ k u, Recorded t k u ↔
        (written = true ∧ k = v.highestId ∧ u ∈ v.listTitles) ∨ Recorded s k u := by
  obtain ⟨hhistory, htitled, hlisted⟩ :=
    listed_unions (s := s) added v.highestId
  unfold SavePlaceView.newPart
  rw [applyAll_append]
  cases written with
  | false =>
    exact ⟨htitled, hlisted, fun i k => by simpa using idAt_congr hhistory,
      fun k u => by simpa using recorded_congr hhistory⟩
  | true =>
    refine ⟨htitled, hlisted, fun i k => ?_, fun k u => ?_⟩
    · refine idAt_addHistory.trans ?_
      rw [idAt_congr hhistory, hhistory]
      simp
    · refine recorded_addHistory.trans ?_
      rw [recorded_congr hhistory]
      simp

theorem savedPart_spec {s : UserStore} {v : SavePlaceView} {j : Nat}
    (hsame : SameRecord s j v.currentPlace.id) (added : List Nat) (written : Bool)
    (removed : List Nat) :
    let t := applyAll s (v.savedPart j added written removed)
    (∀ i u, Titled t i u ↔ Titled s i u) ∧
      (∀ i k, Listed t i k ↔
        (Listed s i k ∨ (i ∈ added ∧ k = v.currentPlace.id ∧ ∃ u, Titled s i u)) ∧
          ¬ (i ∈ removed ∧ k = v.currentPlace.id)) ∧
      (∀ i k, IdAt t i k → if i = j then k = v.currentPlace.id else IdAt s i k) ∧
      ∀ k u, Recorded t k u ↔
        if written = true ∧ k = v.currentPlace.id then u ∈ v.listTitles else Recorded s k u := by
  obtain ⟨hhistory₁, htitled₁, hlisted₁⟩ :=
    listed_unions (s := s) added v.currentPlace.id
  let s₁ := applyAll s (added.map (Write.unionPlaces · [v.currentPlace.id]))
  have hsame₁ : SameRecord s₁ j v.currentPlace.id :=
    fun i l hi => hsame i l ((idAt_congr hhistory₁).mp hi)
  let s₂ := applyAll s₁ (if written then [v.recordWrite j] else [])
  have hs₂ : s₂.lists = s₁.lists ∧
      (∀ i k, IdAt s₂ i k → if i = j then k = v.currentPlace.id else IdAt s i k) ∧
      ∀ k u, Recorded s₂ k u ↔
        if written = true ∧ k = v.currentPlace.id then u ∈ v.listTitles else Recorded s k u := by
    cases written with
    | false =>
      refine ⟨rfl, fun i k hi => ?_, fun k u => ?_⟩
      · have hi' : IdAt s i k := (idAt_congr hhistory₁).mp hi
        split
        · next hij => exact (hsame i k hi').mpr hij
        · exact hi'
      · rw [if_neg fun h => Bool.false_ne_true h.1]
        exact recorded_congr hhistory₁
    | true =>
      obtain ⟨hlists, hids, hrecorded⟩ := recordWrite_spec hsame₁
      refine ⟨hlists, fun i k hi => ?_, fun k u => ?_⟩
      · have hold := hids i k hi
        rwa [show IdAt s₁ i k ↔ IdAt s i k from idAt_congr hhistory₁] at hold
      · refine (hrecorded k u).trans ?_
        rw [show Recorded s₁ k u ↔ Recorded s k u from recorded_congr hhistory₁]
        simp
  obtain ⟨hlists₂, hids₂, hrecorded₂⟩ := hs₂
  obtain ⟨hhistory₃, htitled₃, hlisted₃⟩ :=
    listed_removes (s := s₂) removed v.currentPlace.id
  unfold SavePlaceView.savedPart
  rw [applyAll_append, applyAll_append]
  refine ⟨fun i u => ?_, fun i k => ?_, fun i k hi => hids₂ i k ((idAt_congr hhistory₃).mp hi),
    fun k u => (recorded_congr hhistory₃).trans (hrecorded₂ k u)⟩
  · exact (htitled₃ i u).trans ((titled_congr hlists₂).trans (htitled₁ i u))
  · refine (hlisted₃ i k).trans ?_
    rw [listed_congr hlists₂]
    exact and_congr_left' (hlisted₁ i k)

end SaveLemmas

theorem consistent_done_new {s : UserStore} (hs : Consistent s) {v : SavePlaceView}
    (hv : SaveFresh s v) (hnew : v.alreadySavedPlace = false) :
    Consistent (applyAll s (v.newPart v.added true)) := by
  have hempty := list_of_new hv hnew
  have hfresh := highestId_fresh hv hnew
  obtain ⟨htitled, hlisted, hids, hrecorded⟩ := newPart_spec (s := s) v v.added true
  refine ⟨fun hi hj => hs.titles ((htitled _ _).mp hi) ((htitled _ _).mp hj),
    fun {i j k} hi hj => ?_, fun i t k hi => ?_⟩
  · rw [hids] at hi hj
    rcases hi with ⟨-, rfl, rfl⟩ | hi <;> rcases hj with ⟨-, rfl, heq⟩ | hj
    · rfl
    · exact absurd hj (hfresh j)
    · exact absurd (heq ▸ hi) (hfresh i)
    · exact hs.ids hi hj
  · have hi' := (htitled i t).mp hi
    rw [hlisted, hrecorded, hs.integrity i t k hi', mem_added hs hv hi', hempty]
    have hex : ∃ u, Titled s i u := ⟨t, hi'⟩
    simp only [List.not_mem_nil, not_false_eq_true, and_true, true_and, hex]
    tauto

theorem consistent_done_saved {s : UserStore} (hs : Consistent s) {v : SavePlaceView}
    (hv : SaveFresh s v) (hready : SaveReady s v) {j : Nat} (hj : v.currentPlace.dbId = some j) :
    Consistent (applyAll s (v.savedPart j v.added true v.removed)) := by
  have hsame := hready.same j hj
  obtain ⟨htitled, hlisted, hids, hrecorded⟩ := savedPart_spec hsame v.added true v.removed
  refine ⟨fun hi hk => hs.titles ((htitled _ _).mp hi) ((htitled _ _).mp hk),
    fun {i i' k} hi hi' => ?_, fun i t k hi => ?_⟩
  · have h₁ := hids i k hi
    have h₂ := hids i' k hi'
    by_cases hij : i = j <;> by_cases hij' : i' = j
    · rw [hij, hij']
    · rw [if_pos hij] at h₁
      rw [if_neg hij'] at h₂
      exact absurd ((hsame i' k h₂).mp h₁) hij'
    · rw [if_neg hij] at h₁
      rw [if_pos hij'] at h₂
      exact absurd ((hsame i k h₁).mp h₂) hij
    · rw [if_neg hij] at h₁
      rw [if_neg hij'] at h₂
      exact hs.ids h₁ h₂
  · have hi' := (htitled i t).mp hi
    have hadd := mem_added hs hv hi'
    have hremove := mem_removed hs hv hi'
    rw [hlisted, hrecorded, hs.integrity i t k hi']
    by_cases hk : k = v.currentPlace.id
    · subst hk
      have hagrees := hready.agrees t ⟨i, hi'⟩
      have hex : ∃ u, Titled s i u := ⟨t, hi'⟩
      rw [if_pos ⟨rfl, rfl⟩]
      tauto
    · simp [hk]

/-- Done on the save screen: it does not trap, and a consistent store stays
consistent. -/
theorem consistent_tappedDoneBtn {s : UserStore} (hs : Consistent s) {v : SavePlaceView}
    (hv : SaveFresh s v) (hready : v.alreadySavedPlace = true → SaveReady s v) {issued : Issued}
    (hdone : v.tappedDoneBtn = some issued) :
    issued.trapped = false ∧ Consistent (applyAll s issued.writes) := by
  cases hsaved : v.alreadySavedPlace with
  | false =>
    rw [done_new hv hsaved hdone]
    exact ⟨rfl, consistent_done_new hs hv hsaved⟩
  | true =>
    obtain ⟨j, hj⟩ := Option.ne_none_iff_exists'.mp (hv.stored (list_of_saved hv hsaved))
    rw [done_saved hs hv hsaved hj (hready hsaved).known hdone]
    exact ⟨rfl, consistent_done_saved hs hv (hready hsaved) hj⟩

end LocateMe
