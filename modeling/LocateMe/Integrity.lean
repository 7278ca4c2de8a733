import LocateMe.DbControllers

/-!
# Integrity of a store

The store keeps the membership of places in lists twice: ids in the list
documents and titles in the history records. This module states when the two
agree, in terms of four relations on a store, and says what each write does to
these relations.

Results:
1. `contents_agree`: in a consistent store the contents of a list by id and by
   title are the same records.
2. `integrity_iff`, `consistent_iff`: integrity is decidable.
3. `listed_unions`, `listed_removes`: what the loops over lists do.
-/

namespace LocateMe

open Documents

/-! ## 1. The relations -/

/-- List document `i` has this title. -/
def Titled (s : UserStore) (i : Nat) (title : String) : Prop :=
  ∃ d, s.lists.get i = some d ∧ d.title = title

/-- List document `i` contains the id `k`. -/
def Listed (s : UserStore) (i : Nat) (k : Int) : Prop :=
  ∃ d, s.lists.get i = some d ∧ k ∈ d.places

/-- The record under document id `j` has the id `k`. -/
def IdAt (s : UserStore) (j : Nat) (k : Int) : Prop :=
  ∃ r, s.history.get j = some r ∧ r.id = k

/-- Some record with the id `k` lists this title. -/
def Recorded (s : UserStore) (k : Int) (title : String) : Prop :=
  ∃ j r, s.history.get j = some r ∧ r.id = k ∧ title ∈ r.list

/-- The two sides agree: a list contains an id exactly when a record with that
id lists its title. -/
def Integrity (s : UserStore) : Prop :=
  ∀ i title k, Titled s i title → (Listed s i k ↔ Recorded s k title)

/-- Integrity, with titles and ids as keys. -/
structure Consistent (s : UserStore) : Prop where
  titles : ∀ {i j title}, Titled s i title → Titled s j title → i = j
  ids : ∀ {i j k}, IdAt s i k → IdAt s j k → i = j
  integrity : Integrity s

/-- Some list has this title. -/
def ListTitle (s : UserStore) (title : String) : Prop := ∃ i, Titled s i title

namespace StoreLemmas

theorem keyUnique_titles {s : UserStore} (hs : Consistent s) : s.lists.KeyUnique ListDoc.title :=
  fun _ d hd _ d' hd' heq => hs.titles ⟨d, hd, rfl⟩ ⟨d', hd', heq.symm⟩

theorem keyUnique_ids {s : UserStore} (hs : Consistent s) : s.history.KeyUnique HistoryDoc.id :=
  fun _ r hr _ r' hr' heq => hs.ids ⟨r, hr, rfl⟩ ⟨r', hr', heq.symm⟩

theorem titled_unique {s : UserStore} {i : Nat} {t u : String} (ht : Titled s i t)
    (hu : Titled s i u) : t = u := by
  obtain ⟨d, hd, rfl⟩ := ht
  obtain ⟨e, he, rfl⟩ := hu
  rw [Option.some.inj (hd.symm.trans he)]

theorem recorded_idAt {s : UserStore} {k : Int} {t : String} (h : Recorded s k t) :
    ∃ j, IdAt s j k := by
  obtain ⟨j, r, hr, hk, -⟩ := h
  exact ⟨j, r, hr, hk⟩

theorem titled_congr {s t : UserStore} (h : t.lists = s.lists) {i : Nat} {title : String} :
    Titled t i title ↔ Titled s i title := by
  simp only [Titled, h]

theorem listed_congr {s t : UserStore} (h : t.lists = s.lists) {i : Nat} {k : Int} :
    Listed t i k ↔ Listed s i k := by
  simp only [Listed, h]

theorem idAt_congr {s t : UserStore} (h : t.history = s.history) {j : Nat} {k : Int} :
    IdAt t j k ↔ IdAt s j k := by
  simp only [IdAt, h]

theorem recorded_congr {s t : UserStore} (h : t.history = s.history) {k : Int} {title : String} :
    Recorded t k title ↔ Recorded s k title := by
  simp only [Recorded, h]

end StoreLemmas

open StoreLemmas

/-- In a consistent store the saved screen, which filters the history by the ids
of a list, and a query by the title of the list find the same places. -/
theorem contents_agree {s : UserStore} (hs : Consistent s) {i : Nat} {d : ListDoc}
    (hd : s.lists.get i = some d) :
    ((getAllPlaces s).filter fun place => d.places.contains place.id).Perm
      (getAllPlacesForList s d.title) := by
  have hrecords : (s.history.documents.filter fun record => d.places.contains record.2.id) =
      recordsListing s d.title := by
    refine List.filter_congr fun record hrecord => ?_
    obtain ⟨j, r⟩ := record
    have hr : s.history.get j = some r := Collection.mem_documents.mp hrecord
    have hlisted : Listed s i r.id ↔ r.id ∈ d.places := by
      simp [Listed, hd]
    have hrecorded : Recorded s r.id d.title ↔ d.title ∈ r.list := by
      constructor
      · rintro ⟨j', r', hr', hid, hin⟩
        obtain rfl := hs.ids ⟨r', hr', hid⟩ ⟨r, hr, rfl⟩
        rwa [Option.some.inj (hr.symm.trans hr')]
      · exact fun hin => ⟨j, r, hr, rfl, hin⟩
    have hiff : r.id ∈ d.places ↔ d.title ∈ r.list :=
      hlisted.symm.trans ((hs.integrity i d.title r.id ⟨d, hd, rfl⟩).trans hrecorded)
    simp [hiff]
  refine ((getAllPlaces_perm s).filter _).trans (List.Perm.of_eq ?_)
  rw [List.filter_map, getAllPlacesForList, ← hrecords]
  rfl

/-! ## 2. Decidability -/

namespace StoreLemmas

theorem recorded_iff {s : UserStore} {k : Int} {title : String} :
    Recorded s k title ↔ ∃ x ∈ s.history.documents, x.2.id = k ∧ title ∈ x.2.list := by
  simp [Recorded]

/-- The titles of lists are those of the documents. -/
theorem forall_listTitle_iff {s : UserStore} {p : String → Prop} :
    (∀ title, ListTitle s title → p title) ↔ ∀ x ∈ s.lists.documents, p x.2.title := by
  constructor
  · rintro h ⟨i, d⟩ hx
    exact h d.title ⟨i, d, Collection.mem_documents.mp hx, rfl⟩
  · rintro h title ⟨i, d, hd, rfl⟩
    exact h (i, d) (Collection.mem_documents.mpr hd)

theorem listTitle_iff {s : UserStore} {title : String} :
    ListTitle s title ↔ ∃ x ∈ s.lists.documents, x.2.title = title := by
  simp [ListTitle, Titled]

/-- Integrity, one document after the other. -/
theorem integrity_iff {s : UserStore} :
    Integrity s ↔ ∀ x ∈ s.lists.documents, (∀ k ∈ x.2.places, Recorded s k x.2.title) ∧
      ∀ y ∈ s.history.documents, x.2.title ∈ y.2.list → y.2.id ∈ x.2.places := by
  constructor
  · rintro h ⟨i, d⟩ hx
    have hd : s.lists.get i = some d := Collection.mem_documents.mp hx
    refine ⟨fun k hk => (h i d.title k ⟨d, hd, rfl⟩).mp ⟨d, hd, hk⟩, ?_⟩
    rintro ⟨j, r⟩ hy hin
    obtain ⟨d', hd', hk⟩ := (h i d.title r.id ⟨d, hd, rfl⟩).mpr
      ⟨j, r, Collection.mem_documents.mp hy, rfl, hin⟩
    rwa [Option.some.inj (hd.symm.trans hd')]
  · rintro h i title k ⟨d, hd, rfl⟩
    obtain ⟨hids, htitles⟩ := h (i, d) (Collection.mem_documents.mpr hd)
    constructor
    · rintro ⟨d', hd', hk⟩
      obtain rfl := Option.some.inj (hd.symm.trans hd')
      exact hids k hk
    · rintro ⟨j, r, hr, rfl, hin⟩
      exact ⟨d, hd, htitles (j, r) (Collection.mem_documents.mpr hr) hin⟩

theorem consistent_iff {s : UserStore} :
    Consistent s ↔
      (∀ x ∈ s.lists.documents, ∀ y ∈ s.lists.documents, x.2.title = y.2.title → x.1 = y.1) ∧
      (∀ x ∈ s.history.documents, ∀ y ∈ s.history.documents, x.2.id = y.2.id → x.1 = y.1) ∧
      Integrity s := by
  constructor
  · rintro ⟨htitles, hids, hintegrity⟩
    refine ⟨?_, ?_, hintegrity⟩
    · rintro ⟨i, d⟩ hx ⟨j, d'⟩ hy heq
      exact htitles ⟨d, Collection.mem_documents.mp hx, rfl⟩
        ⟨d', Collection.mem_documents.mp hy, heq.symm⟩
    · rintro ⟨i, r⟩ hx ⟨j, r'⟩ hy heq
      exact hids ⟨r, Collection.mem_documents.mp hx, rfl⟩
        ⟨r', Collection.mem_documents.mp hy, heq.symm⟩
  · rintro ⟨htitles, hids, hintegrity⟩
    refine ⟨?_, ?_, hintegrity⟩
    · rintro i j _ ⟨d, hd, rfl⟩ ⟨d', hd', heq⟩
      exact htitles (i, d) (Collection.mem_documents.mpr hd) (j, d')
        (Collection.mem_documents.mpr hd') heq.symm
    · rintro i j _ ⟨r, hr, rfl⟩ ⟨r', hr', heq⟩
      exact hids (i, r) (Collection.mem_documents.mpr hr) (j, r')
        (Collection.mem_documents.mpr hr') heq.symm

end StoreLemmas

instance (s : UserStore) (k : Int) (title : String) : Decidable (Recorded s k title) :=
  decidable_of_iff _ recorded_iff.symm

instance (s : UserStore) (title : String) : Decidable (ListTitle s title) :=
  decidable_of_iff _ listTitle_iff.symm

instance (s : UserStore) (p : String → Prop) [DecidablePred p] :
    Decidable (∀ title, ListTitle s title → p title) :=
  decidable_of_iff _ forall_listTitle_iff.symm

instance (s : UserStore) : Decidable (Integrity s) := decidable_of_iff _ integrity_iff.symm

instance (s : UserStore) : Decidable (Consistent s) := decidable_of_iff _ consistent_iff.symm

/-! ## 3. What a write does -/

namespace StoreLemmas

theorem titled_addList {s : UserStore} {i : Nat} {title t : String} :
    Titled ((Write.addList title).apply s) i t ↔ (i = s.lists.next ∧ t = title) ∨ Titled s i t := by
  simp only [Titled, Write.apply, Collection.get_add_eq_some]
  constructor
  · rintro ⟨d, ⟨rfl, rfl⟩ | hd, rfl⟩
    · exact .inl ⟨rfl, rfl⟩
    · exact .inr ⟨d, hd, rfl⟩
  · rintro (⟨rfl, rfl⟩ | ⟨d, hd, rfl⟩)
    · exact ⟨_, .inl ⟨rfl, rfl⟩, rfl⟩
    · exact ⟨d, .inr hd, rfl⟩

theorem listed_addList {s : UserStore} {i : Nat} {title : String} {k : Int} :
    Listed ((Write.addList title).apply s) i k ↔ Listed s i k := by
  simp only [Listed, Write.apply, Collection.get_add_eq_some]
  constructor
  · rintro ⟨d, ⟨rfl, rfl⟩ | hd, hk⟩
    · cases hk
    · exact ⟨d, hd, hk⟩
  · rintro ⟨d, hd, hk⟩
    exact ⟨d, .inr hd, hk⟩

/-- A write that changes one list document keeps the titles when it keeps that
one. -/
theorem titled_update {s t : UserStore} {l : Nat} (f : ListDoc → ListDoc)
    (ht : t.lists = s.lists.update l f) (hf : ∀ d, (f d).title = d.title) {i : Nat}
    {title : String} : Titled t i title ↔ Titled s i title := by
  simp only [Titled, ht, Collection.get_update]
  by_cases hi : i = l
  · subst hi
    cases s.lists.get i with
    | none => simp
    | some d => simp [hf]
  · simp [hi]

theorem titled_unionPlaces {s : UserStore} {l i : Nat} {ks : List Int} {title : String} :
    Titled ((Write.unionPlaces l ks).apply s) i title ↔ Titled s i title :=
  titled_update (ListDoc.addPlaces ks) rfl fun _ => rfl

theorem titled_removePlaces {s : UserStore} {l i : Nat} {ks : List Int} {title : String} :
    Titled ((Write.removePlaces l ks).apply s) i title ↔ Titled s i title :=
  titled_update (ListDoc.removePlaces ks) rfl fun _ => rfl

theorem listed_unionPlaces {s : UserStore} {l i : Nat} {ks : List Int} {k : Int} :
    Listed ((Write.unionPlaces l ks).apply s) i k ↔
      Listed s i k ∨ (i = l ∧ k ∈ ks ∧ ∃ t, Titled s i t) := by
  simp only [Listed, Titled, Write.apply, Collection.get_update]
  by_cases hi : i = l
  · subst hi
    cases s.lists.get i with
    | none => simp
    | some d => simp [ListDoc.addPlaces]
  · simp [hi]

theorem listed_removePlaces {s : UserStore} {l i : Nat} {ks : List Int} {k : Int} :
    Listed ((Write.removePlaces l ks).apply s) i k ↔ Listed s i k ∧ ¬ (i = l ∧ k ∈ ks) := by
  simp only [Listed, Write.apply, Collection.get_update]
  by_cases hi : i = l
  · subst hi
    cases s.lists.get i with
    | none => simp
    | some d => simp [ListDoc.removePlaces]
  · simp [hi]

theorem titled_setTitle {s : UserStore} {l i : Nat} {title t : String} :
    Titled ((Write.setTitle l title).apply s) i t ↔
      if i = l then t = title ∧ ∃ u, Titled s i u else Titled s i t := by
  simp only [Titled, Write.apply, Collection.get_update]
  by_cases hi : i = l
  · subst hi
    cases s.lists.get i with
    | none => simp
    | some d => simp [ListDoc.setTitle, eq_comm]
  · simp [hi]

theorem listed_setTitle {s : UserStore} {l i : Nat} {title : String} {k : Int} :
    Listed ((Write.setTitle l title).apply s) i k ↔ Listed s i k := by
  simp only [Listed, Write.apply, Collection.get_update]
  by_cases hi : i = l
  · subst hi
    cases s.lists.get i with
    | none => simp
    | some d => simp [ListDoc.setTitle]
  · simp [hi]

theorem titled_deleteList {s : UserStore} {l i : Nat} {t : String} :
    Titled ((Write.deleteList l).apply s) i t ↔ i ≠ l ∧ Titled s i t := by
  simp only [Titled, Write.apply, Collection.get_delete]
  by_cases hi : i = l <;> simp [hi]

theorem listed_deleteList {s : UserStore} {l i : Nat} {k : Int} :
    Listed ((Write.deleteList l).apply s) i k ↔ i ≠ l ∧ Listed s i k := by
  simp only [Listed, Write.apply, Collection.get_delete]
  by_cases hi : i = l <;> simp [hi]

theorem idAt_addHistory {s : UserStore} {doc : HistoryDoc} {j : Nat} {k : Int} :
    IdAt ((Write.addHistory doc).apply s) j k ↔ (j = s.history.next ∧ k = doc.id) ∨ IdAt s j k := by
  simp only [IdAt, Write.apply, Collection.get_add_eq_some]
  constructor
  · rintro ⟨r, ⟨rfl, rfl⟩ | hr, rfl⟩
    · exact .inl ⟨rfl, rfl⟩
    · exact .inr ⟨r, hr, rfl⟩
  · rintro (⟨rfl, rfl⟩ | ⟨r, hr, rfl⟩)
    · exact ⟨_, .inl ⟨rfl, rfl⟩, rfl⟩
    · exact ⟨r, .inr hr, rfl⟩

theorem recorded_addHistory {s : UserStore} {doc : HistoryDoc} {k : Int} {t : String} :
    Recorded ((Write.addHistory doc).apply s) k t ↔ (k = doc.id ∧ t ∈ doc.list) ∨ Recorded s k t := by
  simp only [Recorded, Write.apply, Collection.get_add_eq_some]
  constructor
  · rintro ⟨j, r, ⟨rfl, rfl⟩ | hr, rfl, ht⟩
    · exact .inl ⟨rfl, ht⟩
    · exact .inr ⟨j, r, hr, rfl, ht⟩
  · rintro (⟨rfl, ht⟩ | ⟨j, r, hr, rfl, ht⟩)
    · exact ⟨s.history.next, doc, .inl ⟨rfl, rfl⟩, rfl, ht⟩
    · exact ⟨j, r, .inr hr, rfl, ht⟩

theorem idAt_setHistory {s : UserStore} {j i : Nat} {doc : HistoryDoc} {k : Int} :
    IdAt ((Write.setHistory j doc).apply s) i k ↔ if i = j then k = doc.id else IdAt s i k := by
  simp only [IdAt, Write.apply, Collection.get_set]
  by_cases hi : i = j <;> simp [hi, eq_comm]

theorem idAt_deleteHistory {s : UserStore} {j i : Nat} {k : Int} :
    IdAt ((Write.deleteHistory j).apply s) i k ↔ i ≠ j ∧ IdAt s i k := by
  simp only [IdAt, Write.apply, Collection.get_delete]
  by_cases hi : i = j <;> simp [hi]

theorem idAt_removeTitles {s : UserStore} {j i : Nat} {ts : List String} {k : Int} :
    IdAt ((Write.removeTitles j ts).apply s) i k ↔ IdAt s i k := by
  simp only [IdAt, Write.apply, Collection.get_update]
  by_cases hi : i = j
  · subst hi
    cases s.history.get i with
    | none => simp
    | some r => simp [HistoryDoc.removeTitles]
  · simp [hi]

/-- The id `k` and the document id `j` belong to the same record, or to none. -/
def SameRecord (s : UserStore) (j : Nat) (k : Int) : Prop :=
  ∀ i l, IdAt s i l → (l = k ↔ i = j)

theorem sameRecord_iff {s : UserStore} {j : Nat} {k : Int} :
    SameRecord s j k ↔ ∀ x ∈ s.history.documents, (x.2.id = k ↔ x.1 = j) := by
  simp [SameRecord, IdAt]

instance (s : UserStore) (j : Nat) (k : Int) : Decidable (SameRecord s j k) :=
  decidable_of_iff _ sameRecord_iff.symm

theorem recorded_setHistory {s : UserStore} {j : Nat} {doc : HistoryDoc}
    (hsame : SameRecord s j doc.id) {k : Int} {t : String} :
    Recorded ((Write.setHistory j doc).apply s) k t ↔
      if k = doc.id then t ∈ doc.list else Recorded s k t := by
  simp only [Recorded, Write.apply, Collection.get_set]
  constructor
  · rintro ⟨i, r, hr, rfl, ht⟩
    split at hr
    · obtain rfl := Option.some.inj hr
      rwa [if_pos rfl]
    · next hij =>
      rw [if_neg fun hid => hij ((hsame i r.id ⟨r, hr, rfl⟩).mp hid)]
      exact ⟨i, r, hr, rfl, ht⟩
  · split
    · next hk =>
      exact fun ht => ⟨j, doc, by simp, hk.symm, ht⟩
    · next hk =>
      rintro ⟨i, r, hr, rfl, ht⟩
      have hij : i ≠ j := fun hij => hk ((hsame i r.id ⟨r, hr, rfl⟩).mpr hij)
      exact ⟨i, r, by simp [hij, hr], rfl, ht⟩

theorem recorded_deleteHistory {s : UserStore} {j : Nat} {k₀ : Int} (hsame : SameRecord s j k₀)
    {k : Int} {t : String} :
    Recorded ((Write.deleteHistory j).apply s) k t ↔ Recorded s k t ∧ k ≠ k₀ := by
  simp only [Recorded, Write.apply, Collection.get_delete]
  constructor
  · rintro ⟨i, r, hr, rfl, ht⟩
    split at hr
    · cases hr
    · next hij =>
      exact ⟨⟨i, r, hr, rfl, ht⟩, fun hid => hij ((hsame i r.id ⟨r, hr, rfl⟩).mp hid)⟩
  · rintro ⟨⟨i, r, hr, rfl, ht⟩, hk⟩
    have hij : i ≠ j := fun hij => hk ((hsame i r.id ⟨r, hr, rfl⟩).mpr hij)
    exact ⟨i, r, by simp [hij, hr], rfl, ht⟩

theorem recorded_removeTitles {s : UserStore} {j : Nat} {k₀ : Int} (hsame : SameRecord s j k₀)
    {ts : List String} {k : Int} {t : String} :
    Recorded ((Write.removeTitles j ts).apply s) k t ↔ Recorded s k t ∧ ¬ (k = k₀ ∧ t ∈ ts) := by
  simp only [Recorded, Write.apply, Collection.get_update]
  constructor
  · rintro ⟨i, r, hr, rfl, ht⟩
    split at hr
    · next hij =>
      subst hij
      obtain ⟨r', hr', rfl⟩ := Option.map_eq_some_iff.mp hr
      simp only [HistoryDoc.removeTitles, mem_arrayRemove] at ht
      exact ⟨⟨i, r', hr', rfl, ht.1⟩, fun h => ht.2 h.2⟩
    · next hij =>
      refine ⟨⟨i, r, hr, rfl, ht⟩, fun h => hij ?_⟩
      exact (hsame i r.id ⟨r, hr, rfl⟩).mp h.1
  · rintro ⟨⟨i, r, hr, rfl, ht⟩, hnot⟩
    by_cases hij : i = j
    · subst hij
      have hid : r.id = k₀ := (hsame i r.id ⟨r, hr, rfl⟩).mpr rfl
      have hts : t ∉ ts := fun h => hnot ⟨hid, h⟩
      exact ⟨i, r.removeTitles ts, by simp [hr], rfl, by simp [HistoryDoc.removeTitles, ht, hts]⟩
    · exact ⟨i, r, by simp [hij, hr], rfl, ht⟩

/-! ## 4. Loops over lists -/

/-- Adding an id to several lists. -/
theorem listed_unions {s : UserStore} (ids : List Nat) (k₀ : Int) :
    let t := applyAll s (ids.map (Write.unionPlaces · [k₀]))
    t.history = s.history ∧ (∀ i title, Titled t i title ↔ Titled s i title) ∧
      ∀ i k, Listed t i k ↔ Listed s i k ∨ (i ∈ ids ∧ k = k₀ ∧ ∃ title, Titled s i title) := by
  induction ids generalizing s with
  | nil => simp
  | cons l ids ih =>
    obtain ⟨hhistory, htitled, hlisted⟩ := ih (s := (Write.unionPlaces l [k₀]).apply s)
    refine ⟨hhistory, fun i title => (htitled i title).trans titled_unionPlaces, fun i k => ?_⟩
    rw [List.map_cons, applyAll_cons, hlisted]
    simp only [listed_unionPlaces, titled_unionPlaces, List.mem_cons]
    tauto

/-- Removing an id from several lists. -/
theorem listed_removes {s : UserStore} (ids : List Nat) (k₀ : Int) :
    let t := applyAll s (ids.map (Write.removePlaces · [k₀]))
    t.history = s.history ∧ (∀ i title, Titled t i title ↔ Titled s i title) ∧
      ∀ i k, Listed t i k ↔ Listed s i k ∧ ¬ (i ∈ ids ∧ k = k₀) := by
  induction ids generalizing s with
  | nil => simp
  | cons l ids ih =>
    obtain ⟨hhistory, htitled, hlisted⟩ := ih (s := (Write.removePlaces l [k₀]).apply s)
    refine ⟨hhistory, fun i title => (htitled i title).trans titled_removePlaces, fun i k => ?_⟩
    rw [List.map_cons, applyAll_cons, hlisted]
    simp only [listed_removePlaces, List.mem_cons]
    tauto

end StoreLemmas

end LocateMe
