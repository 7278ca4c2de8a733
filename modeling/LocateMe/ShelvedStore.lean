import LocateMe.Lib.Shelves
import LocateMe.EditedList
import LocateMe.Devices

/-!
# The store as titled shelves

What the store is for: a user's places, each in some titled lists. A list knows its
places by their ids, a place its lists by their titles, and the two sides are kept in
separate documents; as shelves there is one relation, and the documents either
represent it or are not tidy.

Results:
1. `represents_shelvesOf`, `tidy_of_represents`: a store represents shelves iff it is
   tidy.
2. `sameContents_iff`: stores represent the same shelves iff they are the same up to
   the order of their arrays.
3. `recordOf_keep`, `listOf_keep`, `recordOf_label`, `listOf_label`: what an operation
   on the shelves asks of each single document.
-/

namespace LocateMe

open Documents

/-! ## 1. Documents and shelves -/

/-- The lists by their document ids, and the records, without their titles, by theirs. -/
abbrev UserShelves := Shelves Nat String Nat HistoryDoc

/-- The document under `j` says what the shelves say about item `j`. -/
structure RecordOf (a : UserShelves) (j : Nat) (record : Option HistoryDoc) : Prop where
  item : record.map HistoryDoc.bare = a.item j
  nodup : ∀ r, record = some r → r.list.Nodup
  titles : ∀ r, record = some r → ∀ title, title ∈ r.list ↔ ∃ i ∈ a.on j, a.title i = some title

/-- The document under `i` says what the shelves say about shelf `i`. -/
structure ListOf (a : UserShelves) (i : Nat) (list : Option ListDoc) : Prop where
  title : list.map ListDoc.title = a.title i
  places : ∀ doc, list = some doc → ∀ k, k ∈ doc.places ↔
    ∃ j p, a.item j = some p ∧ p.id = k ∧ i ∈ a.on j

/-- The store says what the shelves say, and no two items have the same id. -/
structure Represents (s : UserStore) (a : UserShelves) : Prop where
  records : ∀ j, RecordOf a j (s.history.get j)
  lists : ∀ i, ListOf a i (s.lists.get i)
  ids : ∀ i j p q, a.item i = some p → a.item j = some q → p.id = q.id → i = j

/-- The shelves of a tidy store. -/
def shelvesOf (s : UserStore) (hs : Tidy s) : UserShelves where
  title i := (s.lists.get i).map ListDoc.title
  item j := (s.history.get j).map HistoryDoc.bare
  on j := {i | ∃ doc r, s.lists.get i = some doc ∧ s.history.get j = some r ∧ doc.title ∈ r.list}
  titles i j t hi hj := by
    obtain ⟨d, hd, rfl⟩ := Option.map_eq_some_iff.mp hi
    obtain ⟨e, he, hte⟩ := Option.map_eq_some_iff.mp hj
    exact hs.titles ⟨d, hd, rfl⟩ ⟨e, he, hte⟩
  standing j := by
    cases hr : s.history.get j with
    | none => simp [Set.Nonempty]
    | some r =>
      refine iff_of_true rfl ?_
      obtain ⟨title, htitle⟩ := List.exists_mem_of_ne_nil _ (hs.listed j r hr)
      obtain ⟨i, doc, hdoc, rfl⟩ := hs.known j r hr title htitle
      exact ⟨i, doc, r, hdoc, rfl, htitle⟩
  labelled j i hi := by
    obtain ⟨doc, -, hdoc, -⟩ := hi
    simp [hdoc]

/-- The same record, up to the order of its titles. -/
def HistoryDoc.Same (r r' : HistoryDoc) : Prop := r.bare = r'.bare ∧ r.list.Perm r'.list

/-- The same title and ids. -/
def ListDoc.Same (doc doc' : ListDoc) : Prop :=
  doc.title = doc'.title ∧ ∀ k, k ∈ doc.places ↔ k ∈ doc'.places

/-- The same documents, up to the order of their arrays. -/
structure SameContents (s t : UserStore) : Prop where
  records : ∀ j, Option.Rel HistoryDoc.Same (s.history.get j) (t.history.get j)
  lists : ∀ i, Option.Rel ListDoc.Same (s.lists.get i) (t.lists.get i)

namespace ShelfLemmas

theorem recordOf_none {a : UserShelves} {j : Nat} : RecordOf a j none ↔ a.item j = none :=
  ⟨fun h => h.item.symm, fun h => ⟨h.symm, by simp, by simp⟩⟩

theorem listOf_none {a : UserShelves} {i : Nat} : ListOf a i none ↔ a.title i = none :=
  ⟨fun h => h.title.symm, fun h => ⟨h.symm, by simp⟩⟩

/-- The item of a record. -/
theorem item_of_get {s : UserStore} {a : UserShelves} (hs : Represents s a) {j : Nat}
    {r : HistoryDoc} (hr : s.history.get j = some r) : a.item j = some r.bare := by
  rw [← (hs.records j).item, hr]
  rfl

/-- The title of a list. -/
theorem title_of_get {s : UserStore} {a : UserShelves} (hs : Represents s a) {i : Nat}
    {doc : ListDoc} (hdoc : s.lists.get i = some doc) : a.title i = some doc.title := by
  rw [← (hs.lists i).title, hdoc]
  rfl

theorem titled_iff {s : UserStore} {a : UserShelves} (hs : Represents s a) {i : Nat}
    {title : String} : Titled s i title ↔ a.title i = some title := by
  rw [← (hs.lists i).title, Option.map_eq_some_iff]
  rfl

/-- A list that is there is a shelf. -/
theorem get_of_title {s : UserStore} {a : UserShelves} (hs : Represents s a) {i : Nat}
    (hi : (a.title i).isSome) : ∃ doc, s.lists.get i = some doc ∧ a.title i = some doc.title := by
  obtain ⟨title, htitle⟩ := Option.isSome_iff_exists.mp hi
  obtain ⟨doc, hdoc, rfl⟩ := (titled_iff hs).mpr htitle
  exact ⟨doc, hdoc, htitle⟩

theorem get_of_item {s : UserStore} {a : UserShelves} (hs : Represents s a) {j : Nat}
    {p : HistoryDoc} (hp : a.item j = some p) : ∃ r, s.history.get j = some r ∧ r.bare = p := by
  rw [← (hs.records j).item] at hp
  exact Option.map_eq_some_iff.mp hp

/-- A record lists the title of a list iff its item is on that shelf. -/
theorem title_mem_iff {a : UserShelves} {j : Nat} {r : HistoryDoc} (hr : RecordOf a j (some r))
    {i : Nat} {title : String} (hi : a.title i = some title) : title ∈ r.list ↔ i ∈ a.on j := by
  rw [hr.titles r rfl]
  constructor
  · rintro ⟨i', hon, hi'⟩
    rwa [a.titles i i' title hi hi']
  · exact fun hon => ⟨i, hon, hi⟩

end ShelfLemmas

open ShelfLemmas

theorem represents_shelvesOf {s : UserStore} (hs : Tidy s) : Represents s (shelvesOf s hs) where
  records j := by
    refine ⟨rfl, fun r hr => hs.nodup j r hr, fun r hr title => ?_⟩
    constructor
    · intro htitle
      obtain ⟨i, doc, hdoc, rfl⟩ := hs.known j r hr title htitle
      exact ⟨i, ⟨doc, r, hdoc, hr, htitle⟩, by simp [shelvesOf, hdoc]⟩
    · rintro ⟨i, ⟨doc, r', hdoc, hr', hin⟩, hi⟩
      obtain rfl := Option.some.inj (hr.symm.trans hr')
      obtain rfl : doc.title = title := by simpa [shelvesOf, hdoc] using hi
      exact hin
  lists i := by
    refine ⟨rfl, fun doc hdoc k => ?_⟩
    have hlisted : k ∈ doc.places ↔ Listed s i k := by simp [Listed, hdoc]
    rw [hlisted, hs.integrity i doc.title k ⟨doc, hdoc, rfl⟩]
    constructor
    · rintro ⟨j, r, hr, hid, hin⟩
      exact ⟨j, r.bare, by simp [shelvesOf, hr], hid, doc, r, hdoc, hr, hin⟩
    · rintro ⟨j, p, hp, hid, doc', r, hdoc', hr, hin⟩
      obtain rfl := Option.some.inj (hdoc.symm.trans hdoc')
      obtain rfl : r.bare = p := by simpa [shelvesOf, hr] using hp
      exact ⟨j, r, hr, hid, hin⟩
  ids i j p q hp hq heq := by
    obtain ⟨r, hr, rfl⟩ := Option.map_eq_some_iff.mp hp
    obtain ⟨r', hr', rfl⟩ := Option.map_eq_some_iff.mp hq
    exact hs.ids ⟨r, hr, heq⟩ ⟨r', hr', rfl⟩

theorem tidy_of_represents {s : UserStore} {a : UserShelves} (hs : Represents s a) : Tidy s where
  titles hi hj := a.titles _ _ _ ((titled_iff hs).mp hi) ((titled_iff hs).mp hj)
  ids := by
    rintro i j k ⟨r, hr, rfl⟩ ⟨r', hr', hid⟩
    exact hs.ids i j r.bare r'.bare (item_of_get hs hr) (item_of_get hs hr') hid.symm
  integrity := by
    rintro i title k ⟨doc, hdoc, rfl⟩
    have hlisted : Listed s i k ↔ k ∈ doc.places := by simp [Listed, hdoc]
    rw [hlisted, (hs.lists i).places doc hdoc]
    have htitle := title_of_get hs hdoc
    constructor
    · rintro ⟨j, p, hp, hid, hon⟩
      obtain ⟨r, hr, rfl⟩ := get_of_item hs hp
      exact ⟨j, r, hr, hid, (title_mem_iff (hr ▸ hs.records j) htitle).mpr hon⟩
    · rintro ⟨j, r, hr, hid, hin⟩
      exact ⟨j, r.bare, item_of_get hs hr, hid, (title_mem_iff (hr ▸ hs.records j) htitle).mp hin⟩
  listed j r hr := by
    -- the item stands somewhere, and the record has the title of that shelf
    have hsome : (a.item j).isSome := by simp [item_of_get hs hr]
    obtain ⟨i, hon⟩ := (a.standing j).mp hsome
    obtain ⟨title, htitle⟩ := Option.isSome_iff_exists.mp (a.labelled j i hon)
    exact List.ne_nil_of_mem ((title_mem_iff (hr ▸ hs.records j) htitle).mpr hon)
  nodup j r hr := (hs.records j).nodup r hr
  known j r hr title htitle := by
    obtain ⟨i, -, hi⟩ := ((hs.records j).titles r hr title).mp htitle
    exact ⟨i, (titled_iff hs).mpr hi⟩

namespace ShelfLemmas

/-- Documents that say the same about an item are the same. -/
theorem same_of_recordOf {a : UserShelves} {j : Nat} {record record' : Option HistoryDoc}
    (h : RecordOf a j record) (h' : RecordOf a j record') :
    Option.Rel HistoryDoc.Same record record' := by
  have hitem := h.item.trans h'.item.symm
  cases record with
  | none =>
    obtain rfl : record' = none := by simpa using hitem.symm
    exact .none
  | some r =>
    obtain ⟨r', rfl, hbare⟩ := Option.map_eq_some_iff.mp hitem.symm
    refine .some ⟨hbare.symm, ?_⟩
    refine (List.perm_ext_iff_of_nodup (h.nodup r rfl) (h'.nodup r' rfl)).mpr fun title => ?_
    rw [h.titles r rfl, h'.titles r' rfl]

theorem same_of_listOf {a : UserShelves} {i : Nat} {list list' : Option ListDoc}
    (h : ListOf a i list) (h' : ListOf a i list') : Option.Rel ListDoc.Same list list' := by
  have htitle := h.title.trans h'.title.symm
  cases list with
  | none =>
    obtain rfl : list' = none := by simpa using htitle.symm
    exact .none
  | some doc =>
    obtain ⟨doc', rfl, heq⟩ := Option.map_eq_some_iff.mp htitle.symm
    exact .some ⟨heq.symm, fun k => by rw [h.places doc rfl, h'.places doc' rfl]⟩

theorem recordOf_same {a : UserShelves} {j : Nat} {record record' : Option HistoryDoc}
    (h : RecordOf a j record) (hsame : Option.Rel HistoryDoc.Same record record') :
    RecordOf a j record' := by
  cases hsame with
  | none => exact h
  | some hr =>
    refine ⟨(congrArg some hr.1).symm.trans h.item, fun r' hr' => ?_, fun r' hr' title => ?_⟩
    · obtain rfl := Option.some.inj hr'
      exact hr.2.nodup_iff.mp (h.nodup _ rfl)
    · obtain rfl := Option.some.inj hr'
      rw [← hr.2.mem_iff, h.titles _ rfl]

theorem listOf_same {a : UserShelves} {i : Nat} {list list' : Option ListDoc} (h : ListOf a i list)
    (hsame : Option.Rel ListDoc.Same list list') : ListOf a i list' := by
  cases hsame with
  | none => exact h
  | some hd =>
    refine ⟨(congrArg some hd.1).symm.trans h.title, fun doc' hdoc' k => ?_⟩
    obtain rfl := Option.some.inj hdoc'
    rw [← hd.2, h.places _ rfl]

/-- The same contents represent the same shelves. -/
theorem represents_same {s t : UserStore} {a : UserShelves} (hs : Represents s a)
    (h : SameContents s t) : Represents t a :=
  ⟨fun j => recordOf_same (hs.records j) (h.records j),
    fun i => listOf_same (hs.lists i) (h.lists i), hs.ids⟩

/-- A store represents one shelving only. -/
theorem represents_unique {s : UserStore} {a b : UserShelves} (ha : Represents s a)
    (hb : Represents s b) : a = b := by
  have htitle : a.title = b.title := by
    funext i
    rw [← (ha.lists i).title, (hb.lists i).title]
  refine Shelves.ext_on htitle (funext fun j => ?_) fun j _ => ?_
  · ext i
    cases hr : s.history.get j with
    | none =>
      have hnone : RecordOf a j none := hr ▸ ha.records j
      have hnone' : RecordOf b j none := hr ▸ hb.records j
      exact iff_of_false (fun hi => Shelves.item_eq_none.mp (recordOf_none.mp hnone) ⟨i, hi⟩)
        fun hi => Shelves.item_eq_none.mp (recordOf_none.mp hnone') ⟨i, hi⟩
    | some r =>
      have hstep : ∀ title, a.title i = some title → (i ∈ a.on j ↔ i ∈ b.on j) := by
        intro title hi
        have hi' : b.title i = some title := htitle ▸ hi
        rw [← title_mem_iff (hr ▸ ha.records j) hi, ← title_mem_iff (hr ▸ hb.records j) hi']
      constructor
      · intro hi
        obtain ⟨title, hti⟩ := Option.isSome_iff_exists.mp (a.labelled j i hi)
        exact (hstep title hti).mp hi
      · intro hi
        obtain ⟨title, hti⟩ := Option.isSome_iff_exists.mp (b.labelled j i hi)
        exact (hstep title (htitle ▸ hti)).mpr hi
  · rw [← (ha.records j).item, (hb.records j).item]

end ShelfLemmas

/-- Stores represent the same shelves iff they are the same up to the order of their
arrays. -/
theorem sameContents_iff {s t : UserStore} {a b : UserShelves} (hs : Represents s a)
    (ht : Represents t b) : SameContents s t ↔ a = b := by
  constructor
  · exact fun h => represents_unique (represents_same hs h) ht
  · rintro rfl
    exact ⟨fun j => same_of_recordOf (hs.records j) (ht.records j),
      fun i => same_of_listOf (hs.lists i) (ht.lists i)⟩

/-! ## 2. Operations, document by document -/

namespace ShelfLemmas

/-- An item that does not move keeps its record. -/
theorem recordOf_congr {a b : UserShelves} {j : Nat} {record : Option HistoryDoc}
    (h : RecordOf a j record) (hitem : b.item j = a.item j) (hon : b.on j = a.on j)
    (htitle : ∀ i ∈ a.on j, b.title i = a.title i) : RecordOf b j record where
  item := h.item.trans hitem.symm
  nodup := h.nodup
  titles r hr title := by
    rw [h.titles r hr, hon]
    exact exists_congr fun i => and_congr_right fun hi => by rw [htitle i hi]

/-- What is left of a record whose item may stay only on some of its shelves. -/
theorem recordOf_keep {a : UserShelves} {stays : Nat → Nat → Prop} {j : Nat} {r : HistoryDoc}
    (hr : RecordOf a j (some r)) {record : Option HistoryDoc}
    (hnone : (∀ i ∈ a.on j, ¬ stays j i) → record = none)
    (hsome : ∀ i ∈ a.on j, stays j i → ∃ r', record = some r' ∧ r'.bare = r.bare ∧
      r'.list.Nodup ∧ ∀ title, title ∈ r'.list ↔
        title ∈ r.list ∧ ∀ i, a.title i = some title → stays j i) :
    RecordOf (a.keep stays) j record := by
  rcases em (∃ i ∈ a.on j, stays j i) with ⟨i, hi, hstays⟩ | hgone
  · obtain ⟨r', rfl, hbare, hnodup, htitles⟩ := hsome i hi hstays
    refine ⟨?_, fun r'' hr'' => Option.some.inj hr'' ▸ hnodup, fun r'' hr'' title => ?_⟩
    · rw [Shelves.keep_item ⟨i, hi, hstays⟩, ← hr.item, Option.map_some, hbare, Option.map_some]
    · obtain rfl := Option.some.inj hr''
      rw [htitles, hr.titles r rfl]
      constructor
      · rintro ⟨⟨m, hm, hmt⟩, hall⟩
        exact ⟨m, ⟨hm, hall m hmt⟩, hmt⟩
      · rintro ⟨m, ⟨hm, hmstays⟩, hmt⟩
        exact ⟨⟨m, hm, hmt⟩, fun m' hmt' => a.titles m m' title hmt hmt' ▸ hmstays⟩
  · push Not at hgone
    rw [hnone hgone, recordOf_none, Shelves.item_eq_none]
    rintro ⟨i, hi, hstays⟩
    exact hgone i hi hstays

/-- The record of an item that may stay where it is. -/
theorem recordOf_keep_all {a : UserShelves} {stays : Nat → Nat → Prop} {j : Nat}
    {record : Option HistoryDoc} (h : RecordOf a j record) (hall : ∀ i ∈ a.on j, stays j i) :
    RecordOf (a.keep stays) j record := by
  have hon : (a.keep stays).on j = a.on j := by
    ext i
    exact ⟨fun hi => hi.1, fun hi => ⟨hi, hall i hi⟩⟩
  refine recordOf_congr h ?_ hon fun i _ => rfl
  rcases em (a.on j).Nonempty with hne | hempty
  · exact Shelves.keep_item (hon ▸ hne)
  · rw [Shelves.item_eq_none.mpr hempty, Shelves.item_eq_none.mpr (hon ▸ hempty)]

/-- A record that loses one title, with the last one itself. -/
theorem recordOf_withoutTitle {a : UserShelves} {stays : Nat → Nat → Prop} {j : Nat}
    {r : HistoryDoc} (hr : RecordOf a j (some r)) {l : Nat} {title : String}
    (hl : a.title l = some title) (hon : l ∈ a.on j) (hstays : ∀ i, stays j i ↔ i ≠ l) :
    RecordOf (a.keep stays) j (r.withoutTitle title) := by
  have hin : title ∈ r.list := (title_mem_iff hr hl).mpr hon
  refine recordOf_keep hr (fun hnone => ?_) fun i hi hs => ?_
  · -- its only title is the one of the shelf
    have hall : ∀ u ∈ r.list, u = title := by
      intro u hu
      obtain ⟨i, hi, hiu⟩ := (hr.titles r rfl u).mp hu
      have hil : i = l := not_not.mp fun hne => hnone i hi ((hstays i).mpr hne)
      subst hil
      exact Option.some.inj (hiu.symm.trans hl)
    have hone : r.list = [title] :=
      List.perm_singleton.mp ((List.perm_ext_iff_of_nodup (hr.nodup r rfl)
        (List.nodup_singleton title)).mpr fun u => by
          rw [List.mem_singleton]
          exact ⟨hall u, fun hu => hu ▸ hin⟩)
    rw [HistoryDoc.withoutTitle, hone]
    rfl
  · obtain ⟨u, hiu⟩ := Option.isSome_iff_exists.mp (a.labelled j i hi)
    have hu : u ∈ r.list := (title_mem_iff hr hiu).mpr hi
    have hne : u ≠ title := by
      rintro rfl
      exact (hstays i).mp hs (a.titles i l u hiu hl)
    have hmore : r.list.length ≠ 1 := by
      intro hone
      obtain ⟨v, hv⟩ := List.length_eq_one_iff.mp hone
      rw [hv, List.mem_singleton] at hu hin
      exact hne (hu.trans hin.symm)
    refine ⟨r.removeTitles [title], if_neg hmore, rfl, (hr.nodup r rfl).filter _, fun v => ?_⟩
    rw [HistoryDoc.removeTitles, mem_arrayRemove, List.mem_singleton]
    refine and_congr_right fun _ => ⟨fun hv m hm => ?_, fun hall hv => ?_⟩
    · rw [hstays]
      rintro rfl
      exact hv (Option.some.inj (hm.symm.trans hl))
    · subst hv
      exact (hstays l).mp (hall l hl) rfl

/-- A list that loses the ids of the items that may not stay. -/
theorem listOf_keep {a : UserShelves}
    (hids : ∀ i j p q, a.item i = some p → a.item j = some q → p.id = q.id → i = j)
    {stays : Nat → Nat → Prop} {i : Nat} {doc doc' : ListDoc} (h : ListOf a i (some doc))
    (htitle : doc'.title = doc.title)
    (hplaces : ∀ k, k ∈ doc'.places ↔
      k ∈ doc.places ∧ ∀ j p, a.item j = some p → p.id = k → stays j i) :
    ListOf (a.keep stays) i (some doc') where
  title := by
    have hold : some doc.title = a.title i := h.title
    exact (congrArg some htitle).trans hold
  places d hd k := by
    obtain rfl := Option.some.inj hd
    rw [hplaces, h.places doc rfl]
    constructor
    · rintro ⟨⟨j, p, hp, hid, hon⟩, hall⟩
      have hon' : i ∈ (a.keep stays).on j := ⟨hon, hall j p hp hid⟩
      exact ⟨j, p, (Shelves.keep_item ⟨i, hon'⟩).trans hp, hid, hon'⟩
    · rintro ⟨j, p, hp, hid, hon⟩
      rw [Shelves.keep_item ⟨i, hon⟩] at hp
      refine ⟨⟨j, p, hp, hid, hon.1⟩, fun j' p' hp' hid' => ?_⟩
      rw [hids j' j p' p hp' hp (hid'.trans hid.symm)]
      exact hon.2

/-- A list whose items may all stay. -/
theorem listOf_keep_all {a : UserShelves} {stays : Nat → Nat → Prop} {i : Nat}
    {list : Option ListDoc} (h : ListOf a i list) (hall : ∀ j, i ∈ a.on j → stays j i) :
    ListOf (a.keep stays) i list where
  title := h.title
  places doc hdoc k := by
    rw [h.places doc hdoc]
    constructor
    · rintro ⟨j, p, hp, hid, hon⟩
      have hon' : i ∈ (a.keep stays).on j := ⟨hon, hall j hon⟩
      exact ⟨j, p, (Shelves.keep_item ⟨i, hon'⟩).trans hp, hid, hon'⟩
    · rintro ⟨j, p, hp, hid, hon⟩
      rw [Shelves.keep_item ⟨i, hon⟩] at hp
      exact ⟨j, p, hp, hid, hon.1⟩

theorem keep_ids {a : UserShelves}
    (hids : ∀ i j p q, a.item i = some p → a.item j = some q → p.id = q.id → i = j)
    (stays : Nat → Nat → Prop) (i j : Nat) (p q : HistoryDoc)
    (hp : (a.keep stays).item i = some p) (hq : (a.keep stays).item j = some q)
    (heq : p.id = q.id) : i = j := by
  have hone : ∀ m u, (a.keep stays).item m = some u → a.item m = some u := by
    intro m u hu
    have hne : ((a.keep stays).on m).Nonempty := by
      rw [← Shelves.standing, hu]
      rfl
    rwa [Shelves.keep_item hne] at hu
  exact hids i j p q (hone i p hp) (hone j q hq) heq

/-- A record with the title of the shelf renamed where it stands. -/
theorem recordOf_label {a : UserShelves} {j l : Nat} {r : HistoryDoc}
    (hr : RecordOf a j (some r)) {oldTitle newTitle : String} (hl : a.title l = some oldTitle)
    (hnew : ∀ m, a.title m = some newTitle → m = l) :
    RecordOf (a.label l newTitle hnew) j (some (r.retitled oldTitle newTitle)) where
  item := hr.item
  nodup r' hr' := by
    obtain rfl := Option.some.inj hr'
    refine EditLemmas.nodup_retitled (hr.nodup r rfl) fun hin => ?_
    obtain ⟨i, -, hi⟩ := (hr.titles r rfl newTitle).mp hin
    obtain rfl := hnew i hi
    exact Option.some.inj (hi.symm.trans hl)
  titles r' hr' title := by
    obtain rfl := Option.some.inj hr'
    rw [HistoryDoc.retitled, List.mem_map]
    constructor
    · rintro ⟨u, hu, rfl⟩
      obtain ⟨i, hon, hi⟩ := (hr.titles r rfl u).mp hu
      refine ⟨i, hon, ?_⟩
      rcases eq_or_ne i l with rfl | hne
      · obtain rfl := Option.some.inj (hi.symm.trans hl)
        simp
      · have hu' : u ≠ oldTitle := by
          rintro rfl
          exact hne (a.titles i l u hi hl)
        simp [hne, hu', hi]
    · rintro ⟨i, hon, hi⟩
      rcases eq_or_ne i l with rfl | hne
      · have htitle : newTitle = title := by simpa using hi
        exact ⟨oldTitle, (title_mem_iff hr hl).mpr hon, by simp [htitle]⟩
      · have hi' : a.title i = some title := by simpa [hne] using hi
        have htitle : title ≠ oldTitle := by
          rintro rfl
          exact hne (a.titles i l title hi' hl)
        exact ⟨title, (title_mem_iff hr hi').mpr hon, if_neg htitle⟩

/-- A record whose item does not stand on the shelf. -/
theorem recordOf_label_other {a : UserShelves} {j l : Nat} {record : Option HistoryDoc}
    (h : RecordOf a j record) {newTitle : String} (hnew : ∀ m, a.title m = some newTitle → m = l)
    (hl : l ∉ a.on j) : RecordOf (a.label l newTitle hnew) j record := by
  refine recordOf_congr h rfl rfl fun i hi => ?_
  have hne : i ≠ l := fun heq => hl (heq ▸ hi)
  simp [hne]

theorem listOf_label {a : UserShelves} {l i : Nat} {newTitle : String}
    (hnew : ∀ m, a.title m = some newTitle → m = l) {list : Option ListDoc}
    (htitle : list.map ListDoc.title = if i = l then some newTitle else a.title i)
    (hplaces : ∀ doc, list = some doc → ∀ k, k ∈ doc.places ↔
      ∃ j p, a.item j = some p ∧ p.id = k ∧ i ∈ a.on j) :
    ListOf (a.label l newTitle hnew) i list where
  title := by rw [htitle, Shelves.label_title]
  places := hplaces

end ShelfLemmas

end LocateMe
