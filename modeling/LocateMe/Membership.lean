import LocateMe.Devices

/-!
# A membership that two devices must not lose

Done on one device puts a place into a list, by a request to the list document and one
to the record of the place. The copies of the other devices do not know of it, and
three handlers write over a record, or delete it, by what their copy says.

Results:
1. `spares_issued`: the requests of an action that leave a membership alone.
2. `underway_step`: a membership is stored, or on its way with nothing against it.
3. `no_lost_membership`: in every run whose actions meet the condition the membership
   is there when all requests have arrived.
-/

namespace LocateMe

open Documents StoreLemmas SaveLemmas DeviceLemmas

/-! ## 1. The membership -/

/-- A list with its title, and the record of a place without its lists. -/
structure Membership where
  listId : Nat
  title : String
  place : HistoryDoc

/-- The place is in the list, and its record names the list. -/
def Membership.Stored (m : Membership) (s : UserStore) : Prop :=
  Listed s m.listId m.place.id ∧
    ∃ i r, s.history.get i = some r ∧ r.bare = m.place ∧ m.title ∈ r.list

/-- The user does not take the place out of the list: Done leaves the row of the list
ticked, the edit screen does not drop the place, and no swipe is about it, but one in
another list. -/
def Membership.Keeps (m : Membership) : DeviceEvent → Prop
  | .done v => v.alreadySavedPlace = true → v.currentPlace.bare = m.place →
      ∀ l ∈ v.lists, l.id = some m.listId → l.title ∈ v.currentPlace.list →
        l.title ∈ v.listTitles
  | .editDone e => e.list.id = some m.listId → ∀ q ∈ e.selectedPlaces, q.bare ≠ m.place
  | .swipe list place => place.bare = m.place → list.id ≠ some m.listId ∧ list.id ≠ none
  | _ => True

/-- The answer of a follow-up query finds the record with the title of the list, and
takes no other place with the id of this one out of the list. -/
def FollowUp.Current (m : Membership) (s : UserStore) : FollowUp → Prop
  | .removeListFromAllPlaces title => ∀ x ∈ s.history.documents, x.2.bare = m.place →
      title ∈ x.2.list → title ≠ m.title ∧ m.title ∈ x.2.list
  | .removePlaceFromAllList placeId listTitle => placeId = m.place.id → m.title ∉ listTitle

/-- The condition on an event. An action that writes over the record, or may delete it,
has a copy that names the list (and the other list, if it takes the place out of one);
no other list has the title, and no other place with the id is taken out of the
list. -/
def Membership.Current {ι : Type} (m : Membership) (σ : Devices ι) : ι × DeviceEvent → Prop
  | (_, .done v) => v.alreadySavedPlace = true →
      (v.currentPlace.bare = m.place → m.title ∈ v.listTitles ∨
        m.title ∈ v.currentPlace.list ∧ ∃ l ∈ v.lists, l.id = some m.listId) ∧
      (v.currentPlace.bare ≠ m.place → v.currentPlace.id = m.place.id →
        m.title ∈ v.currentPlace.list → m.title ∈ v.listTitles)
  | (_, .editDone e) =>
      (e.list.id = some m.listId → m.place.id ∉ e.selectedPlaces.map Place.id) ∧
      (e.list.id ≠ some m.listId → ∀ q ∈ e.selectedPlaces, q.bare = m.place →
        e.list.title ≠ m.title ∧ e.list.title ∈ q.list ∧ m.title ∈ q.list) ∧
      (e.list.title ≠ e.editedListTitle → ∀ q ∈ e.places, q.bare = m.place →
        e.list.title ≠ m.title ∧ m.title ∈ q.list)
  | (_, .swipe list place) =>
      (list.id = some m.listId → place.id ≠ m.place.id) ∧
      (list.id ≠ some m.listId → list.id ≠ none → place.bare = m.place →
        list.title ≠ m.title ∧ list.title ∈ place.list ∧ m.title ∈ place.list)
  | (c, .answered n) => ∀ q ∈ (σ.device c).queries[n]?, q.Current m σ.store
  | _ => True

/-- A request that does not take the place out of the list. -/
def Write.SparesList (m : Membership) : Write → Prop
  | .removePlaces listId placeIds => listId = m.listId → m.place.id ∉ placeIds
  | _ => True

/-- A request that leaves the title in the record `i`. -/
def Write.SparesRecord (i : Nat) (title : String) : Write → Prop
  | .setHistory placeId doc => placeId = i → title ∈ doc.list
  | .removeTitles placeId titles => placeId = i → title ∉ titles
  | .deleteHistory placeId => placeId ≠ i
  | _ => True

/-! ## 2. The requests of an action -/

namespace DeviceLemmas

/-- The requests of Done, with what they say about the lists. -/
theorem mem_done {v : SavePlaceView} {issued : Issued} {w : Write}
    (hdone : v.tappedDoneBtn = some issued) (hw : w ∈ issued.writes) :
    (∃ l, w = .unionPlaces l [v.highestId]) ∨
      (∃ doc, w = .addHistory doc) ∨
      v.alreadySavedPlace = true ∧
        ((v.listTitles = [] ∧ ∃ i, v.currentPlace.dbId = some i ∧ w = .deleteHistory i) ∨
          (∃ i, v.currentPlace.dbId = some i ∧
            w = .setHistory i (docOfPlace v.currentPlace v.listTitles v.currentPlace.id)) ∨
          ∃ l ∈ v.lists, l.title ∈ v.currentPlace.list ∧ l.title ∉ v.listTitles ∧
            ∃ i, l.id = some i ∧ w = .removePlaces i [v.currentPlace.id]) := by
  unfold SavePlaceView.tappedDoneBtn at hdone
  split at hdone
  · cases hdone
  · obtain rfl := Option.some.inj hdone
    rcases Issued.mem_andThen hw with hw | hw
    · obtain ⟨row, -, hw⟩ := Issued.mem_forEach hw
      exact .inl (mem_addToList hw)
    · split at hw
      · exact .inr (.inl ⟨_, List.mem_singleton.mp hw⟩)
      · next hold =>
        refine .inr (.inr ⟨Bool.eq_true_of_not_eq_false hold, ?_⟩)
        rcases Issued.mem_andThen hw with hw | hw
        · split at hw
          · next hlen => exact .inl ⟨List.length_eq_zero_iff.mp hlen, Issued.mem_write hw⟩
          · exact .inr (.inl (Issued.mem_write hw))
        · obtain ⟨title, htitle, hw⟩ := Issued.mem_forEach hw
          obtain ⟨l, hl, rfl, hwrite⟩ := mem_removeFromList hw
          refine .inr (.inr ⟨l, hl, htitle, fun hin => ?_, hwrite⟩)
          unfold SavePlaceView.removeFromList at hw
          rw [if_pos (by simpa using hin)] at hw
          cases hw

/-- A record with two titles loses only the one that is taken from it. -/
theorem sparesRecord_removal {list : List String} {title t : String} (hne : title ≠ t)
    (htitle : title ∈ list) (ht : t ∈ list) (i j : Nat) :
    (removal j list title).SparesRecord i t := by
  unfold removal
  split
  · next hlen =>
    obtain ⟨a, rfl⟩ := List.length_eq_one_iff.mp hlen
    exact absurd ((List.mem_singleton.mp htitle).trans (List.mem_singleton.mp ht).symm) hne
  · intro _ hin
    exact hne (List.mem_singleton.mp hin).symm

theorem sparesList_removal (m : Membership) (placeId : Nat) (list : List String)
    (title : String) : (removal placeId list title).SparesList m := by
  rcases removal_cases placeId list title with heq | heq <;> rw [heq] <;> trivial

theorem record?_removal (i : Nat) (list : List String) (title : String) :
    (removal i list title).record? = some i := by
  rcases removal_cases i list title with heq | heq <;> rw [heq] <;> rfl

/-- A request about another record. -/
theorem sparesRecord_of_ne {w : Write} {i j : Nat} {t : String} (hj : w.record? = some j)
    (hne : j ≠ i) : w.SparesRecord i t := by
  cases w with
  | setHistory l doc =>
    obtain rfl := Option.some.inj hj
    exact fun h => absurd h hne
  | removeTitles l ts =>
    obtain rfl := Option.some.inj hj
    exact fun h => absurd h hne
  | deleteHistory l =>
    obtain rfl := Option.some.inj hj
    exact hne
  | _ => trivial

section

variable {ι : Type} {σ : Devices ι} {m : Membership} {c : ι}

/-- What a device holds of the record is a copy of the place. -/
theorem bare_of_holdsPlace (hσ : σ.Sound) {q : Place} (hq : (σ.device c).holdsPlace q = true)
    {i : Nat} (hi : q.dbId = some i) {b : HistoryDoc} (hshows : σ.Shows i b) : q.bare = b :=
  hσ.agree i _ _ (.read c (has_of_holdsPlace hq hi)) hshows

theorem title_of_holdsList (hrows : σ.RowsCurrent m.listId)
    (htitled : Titled σ.store m.listId m.title) {l : PlaceList}
    (hl : (σ.device c).holdsList l = true) (hid : l.id = some m.listId) : l.title = m.title := by
  obtain ⟨i, hi, hrow⟩ := holdsList_iff.mp hl
  obtain rfl := Option.some.inj (hid.symm.trans hi)
  exact titled_unique (hrows.rows c l.title hrow) htitled

theorem spares_done (hσ : σ.Sound) (hrows : σ.RowsCurrent m.listId)
    (htitled : Titled σ.store m.listId m.title) {v : SavePlaceView}
    (hcan : (σ.device c).Opens v) (hkeeps : m.Keeps (.done v)) (hcurrent : m.Current σ (c, .done v))
    {issued : Issued} (hdone : v.tappedDoneBtn = some issued) {w : Write}
    (hw : w ∈ issued.writes) :
    w.SparesList m ∧ ∀ i, σ.Shows i m.place → w.SparesRecord i m.title := by
  rcases mem_done hdone hw with ⟨l, rfl⟩ | ⟨doc, rfl⟩ | ⟨hsaved, hw⟩
  · exact ⟨trivial, fun _ _ => trivial⟩
  · exact ⟨trivial, fun _ _ => trivial⟩
  · obtain ⟨hcopy, hother⟩ := hcurrent hsaved
    have hheld := held_of_opens hcan hsaved
    -- the titles that Done writes for the place
    have hticked : v.currentPlace.bare = m.place → m.title ∈ v.listTitles := by
      intro hplace
      rcases hcopy hplace with hin | ⟨hin, l, hl, hid⟩
      · exact hin
      · have htitle := title_of_holdsList hrows htitled (hcan.lists l hl) hid
        rw [← htitle]
        exact hkeeps hsaved hplace l hl hid (htitle.symm ▸ hin)
    rcases hw with ⟨hempty, i, hi, rfl⟩ | ⟨i, hi, rfl⟩ | ⟨l, hl, hin, hnot, i, hi, rfl⟩
    · refine ⟨trivial, fun j hj heq => ?_⟩
      have hticked := hticked (bare_of_holdsPlace hσ hheld (heq ▸ hi) hj)
      rw [hempty] at hticked
      cases hticked
    · exact ⟨trivial, fun j hj heq => hticked (bare_of_holdsPlace hσ hheld (heq ▸ hi) hj)⟩
    · refine ⟨fun heq hk => ?_, fun _ _ => trivial⟩
      have htitle := title_of_holdsList hrows htitled (hcan.lists l hl) (heq ▸ hi)
      rw [htitle] at hin hnot
      have hid : v.currentPlace.id = m.place.id := (List.mem_singleton.mp hk).symm
      by_cases hplace : v.currentPlace.bare = m.place
      · exact hnot (hticked hplace)
      · exact hnot (hother hplace hid hin)

theorem spares_editDone (hσ : σ.Sound) {e : EditListController}
    (hcan : (σ.device c).Can (.editDone e)) (hkeeps : m.Keeps (.editDone e))
    (hcurrent : m.Current σ (c, .editDone e)) {w : Write} (hw : w ∈ e.tappedDone.writes) :
    w.SparesList m ∧ ∀ i, σ.Shows i m.place → w.SparesRecord i m.title := by
  obtain ⟨-, -, hheld⟩ := hcan
  obtain ⟨hids, hselected, hrenamed⟩ := hcurrent
  rcases mem_tappedDone hw with
    ⟨q, hq, hw⟩ | ⟨l, hl, rfl⟩ | ⟨hne, ⟨l, -, rfl⟩ | ⟨q, hq, i, hi, rfl⟩⟩
  · obtain ⟨i, hi, rfl⟩ := mem_removeListOf hw
    refine ⟨sparesList_removal m i q.list e.list.title, fun j hj => ?_⟩
    rcases eq_or_ne i j with rfl | hij
    · have hplace := bare_of_holdsPlace hσ (hheld q (List.mem_append_right _ hq)) hi hj
      have hid : e.list.id ≠ some m.listId := fun hid => hkeeps hid q hq hplace
      obtain ⟨hne, hin, ht⟩ := hselected hid q hq hplace
      exact sparesRecord_removal hne hin ht i i
    · exact sparesRecord_of_ne (record?_removal i q.list e.list.title) hij
  · exact ⟨fun heq => hids (heq ▸ hl), fun _ _ => trivial⟩
  · exact ⟨trivial, fun _ _ => trivial⟩
  · refine ⟨trivial, fun j hj heq => ?_⟩
    have hplace := bare_of_holdsPlace hσ (hheld q (List.mem_append_left _ hq)) (heq ▸ hi) hj
    obtain ⟨hother, ht⟩ := hrenamed hne q hq hplace
    exact mem_renameFirst_of_ne ht (Ne.symm hother)

theorem spares_swipe (hσ : σ.Sound) {list : PlaceList} {place : Place}
    (hcan : (σ.device c).Can (.swipe list place)) (hkeeps : m.Keeps (.swipe list place))
    (hcurrent : m.Current σ (c, .swipe list place)) {w : Write}
    (hw : w ∈ ((σ.device c).issued σ.store (.swipe list place)).writes) :
    w.SparesList m ∧ ∀ i, σ.Shows i m.place → w.SparesRecord i m.title := by
  obtain ⟨hheld, -⟩ := hcan
  obtain ⟨hid, hcopy⟩ := hcurrent
  rcases mem_issued_swipe hw with ⟨l, hl, rfl | hw⟩ | ⟨hrecent, i, hi, rfl⟩
  · refine ⟨fun heq hk => ?_, fun _ _ => trivial⟩
    exact hid (heq ▸ hl) (List.mem_singleton.mp hk).symm
  · obtain ⟨i, hi, rfl⟩ := mem_removeListOf hw
    refine ⟨sparesList_removal m i place.list list.title, fun j hj => ?_⟩
    rcases eq_or_ne i j with rfl | hij
    · have hplace := bare_of_holdsPlace hσ hheld hi hj
      obtain ⟨hother, hstored⟩ := hkeeps hplace
      obtain ⟨hne, hin, ht⟩ := hcopy hother hstored hplace
      exact sparesRecord_removal hne hin ht i i
    · exact sparesRecord_of_ne (record?_removal i place.list list.title) hij
  · refine ⟨trivial, fun j hj heq => ?_⟩
    exact (hkeeps (bare_of_holdsPlace hσ hheld (heq ▸ hi) hj)).2 hrecent

theorem spares_answer (hσ : σ.Sound) (htitled : Titled σ.store m.listId m.title) {q : FollowUp}
    (hcurrent : q.Current m σ.store) {w : Write} (hw : w ∈ (q.answer σ.store).writes) :
    w.SparesList m ∧ ∀ i, σ.Shows i m.place → w.SparesRecord i m.title := by
  rcases mem_answer hw with ⟨title, i, r, rfl, hr, hin, rfl⟩ | ⟨k, titles, l, t, rfl, ht, hin, rfl⟩
  · refine ⟨sparesList_removal m i r.list title, fun j hj => ?_⟩
    rcases eq_or_ne i j with rfl | hij
    · have hplace := hσ.agree i _ _ (.stored hr) hj
      obtain ⟨hne, ht⟩ := hcurrent (i, r) (Collection.mem_documents.mpr hr) hplace hin
      exact sparesRecord_removal hne hin ht i i
    · exact sparesRecord_of_ne (record?_removal i r.list title) hij
  · refine ⟨fun heq hk => ?_, fun _ _ => trivial⟩
    have htitle := titled_unique (heq ▸ ht) htitled
    exact hcurrent (List.mem_singleton.mp hk).symm (htitle ▸ hin)

/-- An action that meets the condition issues nothing against the membership. -/
theorem spares_issued (hσ : σ.Sound) (hrows : σ.RowsCurrent m.listId)
    (htitled : Titled σ.store m.listId m.title) {e : DeviceEvent} (hcan : (σ.device c).Can e)
    (hkeeps : m.Keeps e) (hcurrent : m.Current σ (c, e)) {w : Write}
    (hw : w ∈ ((σ.device c).issued σ.store e).writes) :
    w.SparesList m ∧ ∀ i, σ.Shows i m.place → w.SparesRecord i m.title := by
  cases e with
  | readPlaces => cases hw
  | readLists => cases hw
  | readIds => cases hw
  | applied n => cases hw
  | newList title =>
    obtain rfl := List.mem_singleton.mp hw
    exact ⟨trivial, fun _ _ => trivial⟩
  | done v =>
    obtain ⟨issued, hdone, hw⟩ := mem_issued_done hw
    exact spares_done hσ hrows htitled hcan hkeeps hcurrent hdone hw
  | editDone e => exact spares_editDone hσ hcan hkeeps hcurrent hw
  | swipe list place => exact spares_swipe hσ hcan hkeeps hcurrent hw
  | deleteList list =>
    obtain ⟨l, -, rfl⟩ := Issued.mem_write hw
    exact ⟨trivial, fun _ _ => trivial⟩
  | answered n =>
    obtain ⟨q, hq, hw⟩ := mem_issued_answered hw
    exact spares_answer hσ htitled (hcurrent q hq) hw

end

end DeviceLemmas

/-! ## 3. A membership on its way -/

/-- The membership is stored or on its way, with no request against it. -/
structure Devices.Underway {ι : Type} (m : Membership) (σ : Devices ι) : Prop where
  sound : σ.Sound
  rows : σ.RowsCurrent m.listId
  titled : Titled σ.store m.listId m.title
  spares : ∀ c, ∀ w ∈ (σ.device c).pending, w.SparesList m
  listed : Listed σ.store m.listId m.place.id ∨
    ∃ c ks, m.place.id ∈ ks ∧ .unionPlaces m.listId ks ∈ (σ.device c).pending
  record : (∃ c doc, .addHistory doc ∈ (σ.device c).pending ∧ doc.bare = m.place ∧
      m.title ∈ doc.list) ∨
    ∃ i, (∀ c, ∀ w ∈ (σ.device c).pending, w.SparesRecord i m.title) ∧
      ((∃ r, σ.store.history.get i = some r ∧ r.bare = m.place ∧ m.title ∈ r.list) ∨
        ∃ c doc, .setHistory i doc ∈ (σ.device c).pending ∧ doc.bare = m.place ∧
          m.title ∈ doc.list)

namespace DeviceLemmas

theorem listed_spares {s : UserStore} {m : Membership} {w : Write} (hspares : w.SparesList m)
    (hleaves : w.LeavesList m.listId) (h : Listed s m.listId m.place.id) :
    Listed (w.apply s) m.listId m.place.id := by
  cases w with
  | addList title => exact listed_addList.mpr h
  | unionPlaces l ks => exact listed_unionPlaces.mpr (.inl h)
  | removePlaces l ks => exact listed_removePlaces.mpr ⟨h, fun hin => hspares hin.1.symm hin.2⟩
  | setTitle l title => exact listed_setTitle.mpr h
  | deleteList l => exact listed_deleteList.mpr ⟨Ne.symm hleaves, h⟩
  | addHistory doc => exact h
  | setHistory i doc => exact h
  | removeTitles i ts => exact h
  | deleteHistory i => exact h

theorem recorded_spares {s : UserStore} {i : Nat} {r : HistoryDoc} {t : String} {b : HistoryDoc}
    (hr : s.history.get i = some r) (hbare : r.bare = b) (ht : t ∈ r.list) {w : Write}
    (hspares : w.SparesRecord i t) (hset : ∀ doc, w = .setHistory i doc → doc.bare = b) :
    ∃ r, (w.apply s).history.get i = some r ∧ r.bare = b ∧ t ∈ r.list := by
  cases w with
  | addHistory doc => exact ⟨r, Collection.get_add_of_some hr, hbare, ht⟩
  | setHistory j doc =>
    rcases eq_or_ne i j with rfl | hj
    · exact ⟨doc, by simp [Write.apply], hset doc rfl, hspares rfl⟩
    · exact ⟨r, by simp [Write.apply, hj, hr], hbare, ht⟩
  | removeTitles j ts =>
    rcases eq_or_ne i j with rfl | hj
    · refine ⟨r.removeTitles ts, by simp [Write.apply, hr], hbare, ?_⟩
      exact mem_arrayRemove.mpr ⟨ht, hspares rfl⟩
    · exact ⟨r, by simp [Write.apply, hj, hr], hbare, ht⟩
  | deleteHistory j => exact ⟨r, by simp [Write.apply, Ne.symm hspares, hr], hbare, ht⟩
  | addList title => exact ⟨r, hr, hbare, ht⟩
  | unionPlaces l ks => exact ⟨r, hr, hbare, ht⟩
  | removePlaces l ks => exact ⟨r, hr, hbare, ht⟩
  | setTitle l title => exact ⟨r, hr, hbare, ht⟩
  | deleteList l => exact ⟨r, hr, hbare, ht⟩

/-- A request about no record, or about another one. -/
theorem sparesRecord_of_record? {w : Write} {i : Nat} {t : String}
    (h : ∀ j, w.record? = some j → j ≠ i) : w.SparesRecord i t := by
  cases hrecord : w.record? with
  | none => cases w <;> trivial
  | some j => exact sparesRecord_of_ne hrecord (h j hrecord)

section

variable {ι : Type} [DecidableEq ι] {σ τ : Devices ι} {m : Membership} {c : ι} {e : DeviceEvent}

/-- A request on its way stays so until it is stored. -/
theorem pending_left (hstep : deviceStep σ (c, e) = some τ) {c' : ι} {w : Write}
    (hw : w ∈ (σ.device c').pending) :
    w ∈ (τ.device c').pending ∨ τ.store = w.apply σ.store := by
  rcases device_cases hstep c' with hsame | ⟨n, v, hv, hstore, hstored⟩ | ⟨rfl, -, -, hafter⟩
  · rw [hsame]
    exact .inl hw
  · rw [hstored]
    obtain ⟨hlt, hget⟩ := List.getElem?_eq_some_iff.mp hv
    have hperm := List.getElem_cons_eraseIdx_perm hlt
    rw [hget] at hperm
    rcases List.mem_cons.mp (hperm.mem_iff.mpr hw) with rfl | hin
    · exact .inr hstore
    · exact .inl hin
  · rw [hafter]
    exact .inl (List.mem_append_left _ hw)

theorem pending_issued (hstep : deviceStep σ (c, e) = some τ) {w : Write}
    (hw : w ∈ ((σ.device c).issued σ.store e).writes) : w ∈ (τ.device c).pending := by
  rcases deviceStep_cases hstep with ⟨n, v, rfl, -⟩ | ⟨-, -, hdevice⟩
  · cases hw
  · rw [hdevice, Function.update_self]
    exact List.mem_append_right _ hw

theorem listed_step (hσ : σ.Underway m) (hstep : deviceStep σ (c, e) = some τ) :
    Listed τ.store m.listId m.place.id ∨
      ∃ c ks, m.place.id ∈ ks ∧ .unionPlaces m.listId ks ∈ (τ.device c).pending := by
  rcases hσ.listed with hlisted | ⟨c', ks, hk, hw⟩
  · rcases store_step hstep with hsame | ⟨w, hw, hstore⟩
    · exact .inl (hsame ▸ hlisted)
    · rw [hstore]
      exact .inl (listed_spares (hσ.spares c w hw) (hσ.rows.pending c w hw) hlisted)
  · rcases pending_left hstep hw with hin | hstore
    · exact .inr ⟨c', ks, hk, hin⟩
    · rw [hstore]
      exact .inl (listed_unionPlaces.mpr (.inr ⟨rfl, hk, m.title, hσ.titled⟩))

/-- A new record is not the one of any request on its way. -/
theorem record_added (hσ : σ.Underway m) (hstep : deviceStep σ (c, e) = some τ) {doc : HistoryDoc}
    (hstore : τ.store = (Write.addHistory doc).apply σ.store) (hbare : doc.bare = m.place)
    (ht : m.title ∈ doc.list) :
    ∃ i, (∀ c, ∀ w ∈ (τ.device c).pending, w.SparesRecord i m.title) ∧
      ∃ r, τ.store.history.get i = some r ∧ r.bare = m.place ∧ m.title ∈ r.list := by
  refine ⟨σ.store.history.next, fun c' w hw => ?_, doc, ?_, hbare, ht⟩
  · refine sparesRecord_of_record? fun j hj => Nat.ne_of_lt ?_
    rcases pending_step hstep hw with hold | ⟨hcan, hissued⟩
    · exact hσ.sound.sent c' j w hold hj
    · exact lt_next_issued hσ.sound hcan hissued hj
  · rw [hstore]
    exact Collection.get_add_self _ doc

theorem underway_step (hσ : σ.Underway m) (hleaves : e.LeavesList m.listId) (hkeeps : m.Keeps e)
    (hcurrent : m.Current σ (c, e)) (hstep : deviceStep σ (c, e) = some τ) : τ.Underway m := by
  have hissued : ∀ c' w, w ∈ (τ.device c').pending → w ∈ (σ.device c').pending ∨
      w.SparesList m ∧ ∀ i, σ.Shows i m.place → w.SparesRecord i m.title := by
    intro c' w hw
    rcases pending_step hstep hw with hold | ⟨hcan, hnew⟩
    · exact .inl hold
    · exact .inr (spares_issued hσ.sound hσ.rows hσ.titled hcan hkeeps hcurrent hnew)
  refine ⟨sound_step hσ.sound hstep, rows_step hσ.rows hleaves hstep, ?_, fun c' w hw => ?_,
    listed_step hσ hstep, ?_⟩
  · rcases store_step hstep with hsame | ⟨w, hw, hstore⟩
    · exact hsame ▸ hσ.titled
    · rw [hstore]
      exact titled_leavesList (hσ.rows.pending c w hw) hσ.titled
  · exact (hissued c' w hw).elim (hσ.spares c' w) And.left
  · rcases hσ.record with ⟨c', doc, hw, hbare, ht⟩ | ⟨i, hspares, hrecord⟩
    · rcases pending_left hstep hw with hin | hstore
      · exact .inl ⟨c', doc, hin, hbare, ht⟩
      · obtain ⟨i, hspares, hstored⟩ := record_added hσ hstep hstore hbare ht
        exact .inr ⟨i, hspares, .inl hstored⟩
    · have hshows : σ.Shows i m.place := by
        rcases hrecord with ⟨r, hr, hbare, -⟩ | ⟨c', doc, hw, hbare, -⟩
        · exact hbare ▸ .stored hr
        · exact hbare ▸ .sent c' hw
      refine .inr ⟨i, fun c' w hw => ?_, ?_⟩
      · exact (hissued c' w hw).elim (hspares c' w) fun h => h.2 i hshows
      · rcases hrecord with ⟨r, hr, hbare, ht⟩ | ⟨c', doc, hw, hbare, ht⟩
        · rcases store_step hstep with hsame | ⟨w, hw, hstore⟩
          · exact .inl ⟨r, hsame ▸ hr, hbare, ht⟩
          · rw [hstore]
            refine .inl (recorded_spares hr hbare ht (hspares c w hw) fun doc hset => ?_)
            exact hσ.sound.agree i _ _ (.sent c (hset ▸ hw)) hshows
        · rcases pending_left hstep hw with hin | hstore
          · exact .inr ⟨c', doc, hin, hbare, ht⟩
          · rw [hstore]
            exact .inl ⟨doc, by simp [Write.apply], hbare, ht⟩

end

end DeviceLemmas

/-! ## 4. Done -/

/-- What Done puts: the list of a selected row, and the place with the id that it gets. -/
def SavePlaceView.membership (v : SavePlaceView) (l : PlaceList) (listId : Nat) : Membership :=
  ⟨listId, l.title, docOfPlace v.currentPlace [] v.highestId⟩

/-- The record that Done writes over. -/
def SavePlaceView.recordId (v : SavePlaceView) : Option Nat :=
  if v.alreadySavedPlace then v.currentPlace.dbId else none

/-- Done has a selected row of this list, which the place is not in. -/
structure SavePlaceView.Puts (v : SavePlaceView) (l : PlaceList) (listId : Nat) : Prop where
  row : ∃ row ∈ v.selectedLists, v.lists[row]? = some l
  id : l.id = some listId
  added : l.title ∉ v.currentPlace.list

/-- When Done is tapped no request on its way takes the place out of the list or its
title out of the record. -/
def Devices.Clear {ι : Type} (σ : Devices ι) (v : SavePlaceView) (m : Membership) : Prop :=
  ∀ c, ∀ w ∈ (σ.device c).pending,
    w.SparesList m ∧ ∀ i, v.recordId = some i → w.SparesRecord i m.title

namespace DeviceLemmas

section

variable {d : Device} {v : SavePlaceView} {l : PlaceList} {listId : Nat}

/-- Done adds the id to the list and the titles to the record. -/
theorem done_issues (hcan : d.Opens v) (hputs : v.Puts l listId) :
    ∃ issued, v.tappedDoneBtn = some issued ∧ .unionPlaces listId [v.highestId] ∈ issued.writes ∧
      (v.alreadySavedPlace = false →
        .addHistory (docOfPlace v.currentPlace v.listTitles v.highestId) ∈ issued.writes) ∧
      (v.alreadySavedPlace = true → ∃ i, v.currentPlace.dbId = some i ∧
        .setHistory i (docOfPlace v.currentPlace v.listTitles v.currentPlace.id) ∈
          issued.writes) := by
  obtain ⟨row, hrow, hl⟩ := hputs.row
  have hloop : (Issued.forEach v.selectedLists v.addToList).trapped = false := by
    refine Issued.forEach_trapped.mpr fun index hindex => ?_
    have hlt := hcan.rows index hindex
    obtain ⟨i, hi, -⟩ := holdsList_iff.mp (hcan.lists v.lists[index] (List.getElem_mem hlt))
    simp only [SavePlaceView.addToList, List.getElem?_eq_getElem hlt, addNewPlaceToList, hi]
    split <;> rfl
  have hunion : Write.unionPlaces listId [v.highestId] ∈
      (Issued.forEach v.selectedLists v.addToList).writes := by
    refine Issued.mem_forEach_of_mem hloop hrow ?_
    simp only [SavePlaceView.addToList, hl, List.contains_iff_mem, hputs.added, if_false,
      addNewPlaceToList, hputs.id, Issued.write_some]
    exact List.mem_singleton_self _
  have htitle : l.title ∈ v.listTitles := mem_listTitles.mpr ⟨row, hrow, l, hl, rfl⟩
  have hselected : ¬ (v.selectedLists.length = 0 ∧ v.alreadySavedPlace = false) :=
    fun h => List.ne_nil_of_mem hrow (List.length_eq_zero_iff.mp h.1)
  refine ⟨_, if_neg hselected, ?_, fun hnew => ?_, fun hsaved => ?_⟩
  · rw [Issued.andThen_writes _ hloop]
    exact List.mem_append_left _ hunion
  · rw [Issued.andThen_writes _ hloop, if_pos hnew]
    exact List.mem_append_right _ (List.mem_singleton_self _)
  · obtain ⟨i, hi, -⟩ := holdsPlace_iff.mp (held_of_opens hcan hsaved)
    refine ⟨i, hi, ?_⟩
    have hlen : v.listTitles.length ≠ 0 :=
      fun h => List.ne_nil_of_mem htitle (List.length_eq_zero_iff.mp h)
    rw [Issued.andThen_writes _ hloop, if_neg (by simp [hsaved]), if_neg hlen, updatePlace, hi,
      Issued.write_some, Issued.send_andThen]
    exact List.mem_append_right _ List.mem_cons_self

end

section

variable {ι : Type} [DecidableEq ι] {σ τ : Devices ι} {c : ι} {v : SavePlaceView} {l : PlaceList}
  {listId : Nat}

/-- After Done the membership is on its way. -/
theorem underway_done (hσ : σ.Sound) (hrows : σ.RowsCurrent listId) (hputs : v.Puts l listId)
    (hclear : σ.Clear v (v.membership l listId)) (hstep : deviceStep σ (c, .done v) = some τ) :
    τ.Underway (v.membership l listId) := by
  let m := v.membership l listId
  have hcan : (σ.device c).Opens v := by
    rcases deviceStep_cases hstep with ⟨n, w, he, -⟩ | ⟨hcan, -⟩
    · cases he
    · exact hcan
  obtain ⟨row, hrow, hl⟩ := hputs.row
  have htitle : l.title ∈ v.listTitles := mem_listTitles.mpr ⟨row, hrow, l, hl, rfl⟩
  have htitled : Titled σ.store listId l.title := by
    obtain ⟨i, hi, hrow⟩ := holdsList_iff.mp (hcan.lists l (List.mem_of_getElem? hl))
    obtain rfl := Option.some.inj (hputs.id.symm.trans hi)
    exact hrows.rows c l.title hrow
  have hbare : v.alreadySavedPlace = true → v.currentPlace.bare = m.place := by
    intro hsaved
    simp [m, SavePlaceView.membership, Place.bare, SavePlaceView.highestId, hsaved]
  -- Done itself meets the condition
  have hkeeps : m.Keeps (.done v) := by
    intro _ _ l' hl' hid hin
    exact title_of_holdsList (m := m) hrows htitled (hcan.lists l' hl') hid ▸ htitle
  have hcurrent : m.Current σ (c, .done v) :=
    fun hsaved => ⟨fun _ => .inl htitle, fun hne => absurd (hbare hsaved) hne⟩
  obtain ⟨issued, hdone, hunion, hadd, hset⟩ := done_issues hcan hputs
  have hissued : (σ.device c).issued σ.store (.done v) = issued := by
    simp [Device.issued, hdone]
  have hsent : ∀ w ∈ issued.writes, w ∈ (τ.device c).pending :=
    fun w hw => pending_issued hstep (hissued ▸ hw)
  have hspares : ∀ c', ∀ w ∈ (τ.device c').pending, w ∈ (σ.device c').pending ∨
      w.SparesList m ∧ ∀ i, σ.Shows i m.place → w.SparesRecord i m.title := by
    intro c' w hw
    rcases pending_step hstep hw with hold | ⟨-, hnew⟩
    · exact .inl hold
    · exact .inr (spares_done hσ hrows htitled hcan hkeeps hcurrent hdone (hissued ▸ hnew))
  refine ⟨sound_step hσ hstep, rows_step (e := .done v) hrows trivial hstep, ?_, fun c' w hw => ?_,
    .inr ⟨c, [v.highestId], List.mem_singleton_self _, hsent _ hunion⟩, ?_⟩
  · rcases deviceStep_cases hstep with ⟨n, w, he, -⟩ | ⟨-, hstore, -⟩
    · cases he
    · exact hstore ▸ htitled
  · exact (hspares c' w hw).elim (fun hold => (hclear c' w hold).1) And.left
  · cases hsaved : v.alreadySavedPlace with
    | false => exact .inl ⟨c, _, hsent _ (hadd hsaved), rfl, htitle⟩
    | true =>
      obtain ⟨i, hi, hwrite⟩ := hset hsaved
      have hheld := held_of_opens hcan hsaved
      refine .inr ⟨i, fun c' w hw => ?_, .inr ⟨c, _, hsent _ hwrite, hbare hsaved, htitle⟩⟩
      rcases hspares c' w hw with hold | hnew
      · exact (hclear c' w hold).2 i (by simp [SavePlaceView.recordId, hsaved, hi])
      · exact hnew.2 i (hbare hsaved ▸ .read c (has_of_holdsPlace hheld hi))

end

end DeviceLemmas

open DeviceLemmas

/-! ## 5. Runs -/

/-- Some device taps Done in a run of any number of devices in which nobody renames or
deletes the list or takes the place out of it. When nothing on its way at that time is
against the membership, and every later action meets the condition, the place is in
the list, on both sides, whenever all requests have arrived. -/
theorem no_lost_membership {ι : Type} [DecidableEq ι] (s : UserStore)
    (es fs : List (ι × DeviceEvent)) (c : ι) (v : SavePlaceView) (l : PlaceList) (listId : Nat)
    (σ τ υ : Devices ι) (hes : Machine.run deviceStep (.start s) es = some σ)
    (hdone : deviceStep σ (c, .done v) = some τ) (hfs : Machine.run deviceStep τ fs = some υ)
    (hputs : v.Puts l listId) (hleaves : ∀ e ∈ es ++ fs, e.2.LeavesList listId)
    (hkeeps : ∀ e ∈ fs, (v.membership l listId).Keeps e.2)
    (hclear : σ.Clear v (v.membership l listId))
    (hcurrent : Machine.Meets deviceStep (v.membership l listId).Current τ fs)
    (harrived : ∀ d, (υ.device d).pending = []) : (v.membership l listId).Stored υ.store := by
  have hlist : Machine.Meets deviceStep (fun _ e => e.2.LeavesList listId) (.start s) es :=
    Machine.meets_of_forall fun e he _ => hleaves e (List.mem_append_left _ he)
  have hbefore := Machine.run_invariant (I := fun σ => σ.Sound ∧ σ.RowsCurrent listId)
    (fun _ _ _ h he hstep => ⟨sound_step h.1 hstep, rows_step h.2 he hstep⟩)
    ⟨sound_start s, rowsCurrent_start s⟩ hlist hes
  have hbegun := underway_done hbefore.1 hbefore.2 hputs hclear hdone
  have hkept : Machine.Meets deviceStep
      (fun _ e => e.2.LeavesList listId ∧ (v.membership l listId).Keeps e.2) τ fs :=
    Machine.meets_of_forall fun e he _ => ⟨hleaves e (List.mem_append_right _ he), hkeeps e he⟩
  have hend := Machine.run_invariant (I := fun σ => σ.Underway (v.membership l listId))
    (fun _ _ _ h he hstep => underway_step h he.1.1 he.1.2 he.2 hstep) hbegun
    (Machine.meets_and.mpr ⟨hkept, hcurrent⟩) hfs
  refine ⟨hend.listed.resolve_right ?_, ?_⟩
  · rintro ⟨d, ks, -, hw⟩
    rw [harrived d] at hw
    cases hw
  · rcases hend.record with ⟨d, doc, hw, -⟩ | ⟨i, -, ⟨r, hr⟩ | ⟨d, doc, hw, -⟩⟩
    · rw [harrived d] at hw
      cases hw
    · exact ⟨i, r, hr⟩
    · rw [harrived d] at hw
      cases hw

/-- A place in the list "A", as on the screen of a device that has read it, and a list
"B". -/
def exShared : UserStore :=
  applyAll .empty [.addList "A", .addList "B", .unionPlaces 0 [1],
    .addHistory (docOfPlace exSavedPlace ["A"] 1)]

/-- The save screen with both rows ticked. -/
def exBothTicked : SavePlaceView :=
  { openSavePlaceView exSavedPlace exLists [1] with
    selectedLists := [0, 1]
    boxes := fun _ => some true }

/-- Both devices read everything. -/
def exReads : List (Bool × DeviceEvent) :=
  [(false, .readPlaces), (false, .readLists), (false, .readIds), (true, .readPlaces),
    (true, .readLists)]

/-- The other device swipes the place out of "A", by a copy with these lists. -/
def exSwipe (list : List String) : Bool × DeviceEvent :=
  (true, .swipe (listOfDoc 0 ⟨"A", [1]⟩) { exSavedPlace with list := list })

/-- It has read the place again. -/
def exFreshSwipe : List (Bool × DeviceEvent) :=
  [(false, .applied 0), (false, .applied 0), (true, .readPlaces), exSwipe ["A", "B"],
    (true, .applied 0), (true, .applied 0)]

theorem no_lost_membership_read_again : ∃ σ τ υ : Devices Bool,
    Machine.run deviceStep (.start exShared) exReads = some σ ∧
    deviceStep σ (false, .done exBothTicked) = some τ ∧
    Machine.run deviceStep τ exFreshSwipe = some υ ∧
    (exBothTicked.membership (listOfDoc 1 ⟨"B", []⟩) 1).Stored υ.store := by
  refine ⟨_, _, _, rfl, rfl, rfl, no_lost_membership exShared exReads exFreshSwipe false
    exBothTicked (listOfDoc 1 ⟨"B", []⟩) 1 _ _ _ rfl rfl rfl ?_ ?_ ?_ ?_ ?_ ?_⟩
  · exact ⟨⟨1, by decide, rfl⟩, rfl, by decide⟩
  · simp [exReads, exFreshSwipe, exSwipe, DeviceEvent.LeavesList]
  · simp [exFreshSwipe, exSwipe, Membership.Keeps, listOfDoc, SavePlaceView.membership]
  · intro c w hw
    cases c <;> cases hw
  · refine ⟨trivial, trivial, trivial, ⟨fun hid => (nomatch hid), fun _ _ _ => ?_⟩, trivial,
      trivial, trivial⟩
    decide
  · intro d
    cases d <;> rfl

/-- The other device has read the place before Done, as one that is in "A" only: the
swipe deletes the record. -/
theorem stale_swipe_loses_membership :
    ¬ ∀ (s : UserStore) (es fs : List (Bool × DeviceEvent)) (c : Bool) (v : SavePlaceView)
        (l : PlaceList) (listId : Nat) (σ τ υ : Devices Bool),
      Machine.run deviceStep (.start s) es = some σ → deviceStep σ (c, .done v) = some τ →
      Machine.run deviceStep τ fs = some υ → v.Puts l listId →
      (∀ e ∈ es ++ fs, e.2.LeavesList listId) →
      (∀ e ∈ fs, (v.membership l listId).Keeps e.2) → (∀ d, (υ.device d).pending = []) →
      (v.membership l listId).Stored υ.store := by
  intro hall
  obtain ⟨-, i, r, hr, -⟩ := hall exShared exReads
    [(false, .applied 0), (false, .applied 0), exSwipe ["A"], (true, .applied 0),
      (true, .applied 0)] false exBothTicked (listOfDoc 1 ⟨"B", []⟩) 1 _ _ _ rfl rfl rfl
    ⟨⟨1, by decide, rfl⟩, rfl, by decide⟩
    (by simp [exReads, exSwipe, DeviceEvent.LeavesList])
    (by simp [exSwipe, Membership.Keeps, listOfDoc, SavePlaceView.membership])
    (by intro d; cases d <;> rfl)
  rcases i with _ | i
  · cases hr
  · cases hr

end LocateMe
