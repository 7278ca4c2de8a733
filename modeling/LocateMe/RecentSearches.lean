import LocateMe.Lib.Machine
import LocateMe.Lib.Newest
import LocateMe.MapRows

/-!
# The recent searches and their ids

`addSearchToDb` gives a search the id one above the greatest id among the recent
searches that the panel holds, at most three of them, and `getAllSearches` asks
the store for the three greatest ids. The panel is filled by the reply of a
query, emptied by a logout and changed by every recorded search.

Results:
1. `cache_is_newest`: a panel that starts as the reply of the store stays equal to
   it under any sequence of recorded searches, and the ids grow.
2. `ids_in_order_iff`: in a run with replies at any time the ids grow in the order
   of the searches iff every recorded search finds on the panel one whose id is not
   below any stored id.
-/

namespace LocateMe

open Documents RowsLemmas

/-! ## 1. The stored searches -/

/-- The stored searches of a user, in the order in which they were added. -/
def UserData.history (a : UserData) : List Search := a.searches.documents.map Prod.snd

/-- A call of `addSearchToDb` for a text. -/
def recordSearch (w : MapRows) (text : String) : MapRows :=
  { w with searchText := text }.addSearchToDb

def recordSearches (w : MapRows) (texts : List String) : MapRows := texts.foldl recordSearch w

/-- The panel shows the user what the store would answer, with the titles shown
and the stored ids distinct. -/
structure CacheCurrent (user : Nat) (w : MapRows) : Prop where
  signedIn : w.userId = some user
  newest : w.searches = getAllSearches (w.accounts user)
  titles : (w.searches.map Search.title).Nodup
  ids : (w.accounts user).searches.KeyUnique Search.id

namespace RecentLemmas

theorem mem_history {a : UserData} {x : Search} :
    x ∈ a.history ↔ ∃ i, a.searches.get i = some x := by
  simp [UserData.history]

theorem history_add (a : UserData) (x : Search) :
    { a with searches := a.searches.add x }.history = a.history ++ [x] := by
  simp [UserData.history, Collection.documents_add]

/-- `getAllSearches` in terms of the library. -/
theorem getAllSearches_eq (a : UserData) :
    getAllSearches a = (Newest.byNewest Search.id a.history).take (2 + 1) := rfl

/-- The next id is one, or one above the greatest id on the panel. -/
theorem nextSearchId_cases (searches : List Search) :
    searches = [] ∧ nextSearchId searches = 1 ∨
      ∃ c ∈ searches, nextSearchId searches = c.id + 1 ∧ ∀ d ∈ searches, d.id ≤ c.id := by
  unfold nextSearchId
  cases hmax : (searches.map Search.id).max? with
  | none =>
    left
    exact ⟨by simpa using List.max?_eq_none_iff.mp hmax, rfl⟩
  | some m =>
    right
    obtain ⟨hmem, hle⟩ := List.max?_eq_some_iff.mp hmax
    obtain ⟨c, hc, rfl⟩ := List.mem_map.mp hmem
    exact ⟨c, hc, rfl, fun d hd => hle d.id (List.mem_map_of_mem hd)⟩

/-- The next id is above a positive id iff the panel has one that is not below it. -/
theorem lt_nextSearchId_iff {searches : List Search} {id : Int} (hpos : 1 ≤ id) :
    id < nextSearchId searches ↔ ∃ c ∈ searches, id ≤ c.id := by
  rcases nextSearchId_cases searches with ⟨rfl, hone⟩ | ⟨c, hc, hnext, hle⟩
  · rw [hone]
    refine iff_of_false (by omega) (by simp)
  · rw [hnext]
    constructor
    · intro hlt
      exact ⟨c, hc, by omega⟩
    · rintro ⟨d, hd, hid⟩
      have hdc := hle d hd
      omega

theorem lt_nextSearchId {searches : List Search} {c : Search} (hc : c ∈ searches) {id : Int}
    (hid : id ≤ c.id) : id < nextSearchId searches := by
  rcases nextSearchId_cases searches with ⟨rfl, -⟩ | ⟨d, -, hnext, hle⟩
  · cases hc
  · have hcd := hle c hc
    omega

/-- The panel that equals the reply of the store has the greatest stored id. -/
theorem stored_lt_next {a : UserData} {i : Nat} {x : Search} (hx : a.searches.get i = some x) :
    x.id < nextSearchId (getAllSearches a) := by
  obtain ⟨c, hc, hle⟩ : ∃ c ∈ (Newest.byNewest Search.id a.history).take (2 + 1), x.id ≤ c.id :=
    Newest.exists_newest (mem_history.mpr ⟨i, hx⟩)
  exact lt_nextSearchId hc hle

theorem nodup_history_ids {a : UserData} (hids : a.searches.KeyUnique Search.id) :
    (a.history.map Search.id).Nodup := by
  have hkeys := Collection.nodup_keys hids
  rwa [UserData.history, List.map_map]

/-- One call keeps the panel current, and a search that it stores has an id above
all stored ones. -/
theorem cacheCurrent_recordSearch {user : Nat} {w : MapRows} (h : CacheCurrent user w)
    (text : String) :
    CacheCurrent user (recordSearch w text) ∧
      ∀ i x, ((recordSearch w text).accounts user).searches.get i = some x →
        (w.accounts user).searches.get i = some x ∨
          ∀ j y, (w.accounts user).searches.get j = some y → y.id < x.id := by
  rcases addSearchToDb_cases { w with searchText := text } with
    ⟨hsame, -⟩ | ⟨user', hid, hnew, hstored⟩
  · rw [recordSearch, hsame]
    exact ⟨⟨h.signedIn, h.newest, h.titles, h.ids⟩, fun i x hx => .inl hx⟩
  · obtain rfl := Option.some.inj (h.signedIn.symm.trans hid)
    rw [recordSearch, hstored]
    let search : Search := ⟨text, nextSearchId w.searches⟩
    have habove : ∀ j y, (w.accounts user).searches.get j = some y → y.id < search.id := by
      intro j y hy
      show y.id < nextSearchId w.searches
      rw [h.newest]
      exact stored_lt_next hy
    have haccount : Function.update w.accounts user { w.accounts user with
          searches := (w.accounts user).searches.add search } user =
        { w.accounts user with searches := (w.accounts user).searches.add search } :=
      Function.update_self ..
    refine ⟨⟨h.signedIn, ?_, ?_, ?_⟩, fun i x hx => ?_⟩
    · -- the new search is the newest, so the panel gets what a query would
      show search :: (if 2 < w.searches.length then w.searches.dropLast else w.searches) =
        getAllSearches (Function.update w.accounts user _ user)
      have hgreatest : ∀ y ∈ (w.accounts user).history, y.id < search.id := by
        intro y hy
        obtain ⟨j, hj⟩ := mem_history.mp hy
        exact habove j y hj
      rw [haccount, getAllSearches_eq, history_add, Newest.byNewest_append hgreatest,
        ← Newest.push_take, h.newest, getAllSearches_eq]
    · -- the entries that stay had distinct titles, none of them the new one
      have hsub : (if 2 < w.searches.length then w.searches.dropLast else w.searches).Sublist
          w.searches := by
        split
        · exact List.dropLast_sublist _
        · exact List.Sublist.refl _
      show (List.map Search.title (search :: _)).Nodup
      rw [List.map_cons, List.nodup_cons]
      refine ⟨fun hmem => ?_, h.titles.sublist (hsub.map _)⟩
      obtain ⟨c, hc, htitle⟩ := List.mem_map.mp hmem
      exact hnew c (hsub.subset hc) htitle
    · show (Function.update w.accounts user _ user).searches.KeyUnique Search.id
      rw [haccount, Collection.keyUnique_add_iff h.ids]
      exact fun j y hy => (habove j y hy).ne
    · have hx' : (Function.update w.accounts user { w.accounts user with
          searches := (w.accounts user).searches.add search } user).searches.get i = some x := hx
      rw [haccount] at hx'
      rcases Collection.get_add_eq_some.mp hx' with ⟨-, rfl⟩ | hold
      · exact .inr habove
      · exact .inl hold

/-- A text that the panel does not have is stored, and shown first with the stored
search. -/
theorem recordSearch_new {user : Nat} {w : MapRows} (h : CacheCurrent user w) {text : String}
    (hnew : ∀ c ∈ w.searches, c.title ≠ text) :
    ∃ x : Search, x.title = text ∧ (recordSearch w text).searches.head? = some x ∧
      ((recordSearch w text).accounts user).history = (w.accounts user).history ++ [x] := by
  rcases addSearchToDb_cases { w with searchText := text } with
    ⟨-, hnone | hshown⟩ | ⟨user', hid, -, hstored⟩
  · cases hnone.symm.trans h.signedIn
  · exact absurd hnew hshown
  · obtain rfl := Option.some.inj (h.signedIn.symm.trans hid)
    rw [recordSearch, hstored]
    refine ⟨⟨text, nextSearchId w.searches⟩, rfl, rfl, ?_⟩
    show (Function.update w.accounts user _ user).history = _
    rw [Function.update_self]
    exact history_add _ _

theorem cacheCurrent_recordSearches {user : Nat} {w : MapRows} (h : CacheCurrent user w)
    (texts : List String) : CacheCurrent user (recordSearches w texts) := by
  induction texts generalizing w with
  | nil => exact h
  | cons text texts ih => exact ih (cacheCurrent_recordSearch h text).1

/-- What is not among the first of a strictly decreasing list is below them. -/
theorem lt_of_not_mem_take {xs : List Search} (hxs : xs.Pairwise fun a b => b.id < a.id) {n : Nat}
    {x c : Search} (hx : x ∈ xs) (hout : x ∉ xs.take n) (hc : c ∈ xs.take n) : x.id < c.id := by
  rw [← List.take_append_drop n xs] at hxs hx
  rcases List.mem_append.mp hx with hin | hdrop
  · exact absurd hin hout
  · exact (List.pairwise_append.mp hxs).2.2 c hc x hdrop

end RecentLemmas

open RecentLemmas

/-- From a panel that equals the reply of the store, after every call of
`addSearchToDb` for any text it still does: it has at most three searches, with
strictly decreasing ids that are above those of all other stored searches, and with
distinct titles; the stored ids stay distinct, a search that the call stores has an id
above all that were stored, and a text that is not on the panel is stored and shown
first. -/
theorem cache_is_newest (user : Nat) (w₀ : MapRows) (h₀ : CacheCurrent user w₀)
    (texts : List String) (text : String) :
    let w := recordSearches w₀ texts
    let w' := recordSearch w text
    CacheCurrent user w' ∧ w'.searches.length ≤ 3 ∧
      w'.searches.Pairwise (fun a b => b.id < a.id) ∧
      (∀ x ∈ (w'.accounts user).history, x ∉ w'.searches → ∀ c ∈ w'.searches, x.id < c.id) ∧
      (∀ i x, (w'.accounts user).searches.get i = some x →
        (w.accounts user).searches.get i = some x ∨
          ∀ j y, (w.accounts user).searches.get j = some y → y.id < x.id) ∧
      ((∀ c ∈ w.searches, c.title ≠ text) → ∃ x : Search, x.title = text ∧
        w'.searches.head? = some x ∧
        (w'.accounts user).history = (w.accounts user).history ++ [x]) := by
  intro w w'
  have hbefore := cacheCurrent_recordSearches h₀ texts
  obtain ⟨hcurrent, hnew⟩ := cacheCurrent_recordSearch hbefore text
  have hsorted := Newest.pairwise_byNewest (nodup_history_ids hcurrent.ids)
  have hsearches : w'.searches =
      (Newest.byNewest Search.id (w'.accounts user).history).take (2 + 1) := hcurrent.newest
  refine ⟨hcurrent, ?_, ?_, fun x hx hout c hc => ?_, hnew, recordSearch_new hbefore⟩
  · rw [hsearches, List.length_take]
    exact Nat.min_le_left _ _
  · rw [hsearches]
    exact hsorted.sublist (List.take_sublist _ _)
  · rw [hsearches] at hout hc
    exact lt_of_not_mem_take hsorted (Newest.mem_byNewest.mpr hx) hout hc

/-- Four stored searches, the first and the last of one title. -/
def exHistory : UserData :=
  ⟨.empty, (((Collection.empty.add ⟨"Food", 1⟩).add ⟨"Gas", 2⟩).add ⟨"Shop", 3⟩).add ⟨"Food", 4⟩⟩

/-- A session whose query has been answered. -/
def exRecent : MapRows :=
  { MapRows.launch (fun _ => exHistory) (some 1) with
    userId := some 1
    searches := getAllSearches exHistory }

theorem cache_is_newest_shown :
    let w := recordSearches exRecent ["Park", "Gas"]
    let w' := recordSearch w "Shop"
    CacheCurrent 1 w' ∧ w'.searches.length ≤ 3 ∧
      w'.searches.Pairwise (fun a b => b.id < a.id) ∧
      (∀ x ∈ (w'.accounts 1).history, x ∉ w'.searches → ∀ c ∈ w'.searches, x.id < c.id) ∧
      (∀ i x, (w'.accounts 1).searches.get i = some x →
        (w.accounts 1).searches.get i = some x ∨
          ∀ j y, (w.accounts 1).searches.get j = some y → y.id < x.id) ∧
      ((∀ c ∈ w.searches, c.title ≠ "Shop") → ∃ x : Search, x.title = "Shop" ∧
        w'.searches.head? = some x ∧
        (w'.accounts 1).history = (w.accounts 1).history ++ [x]) :=
  cache_is_newest 1 exRecent ⟨rfl, rfl, by decide, by decide⟩ ["Park", "Gas"] "Shop"

/-! ## 2. Replies at any time -/

/-- The ids of the stored searches grow in the order in which they were added. -/
def UserData.IdsInOrder (a : UserData) : Prop := a.searches.KeyIncreasing Search.id

/-- A recorded search finds on the panel one whose id is not below any stored id. -/
def MapRows.Knows (w : MapRows) (e : RowsEvent) : Prop :=
  e = .addSearchToDb → ∀ user, w.userId = some user →
    (∀ c ∈ w.searches, c.title ≠ w.searchText) →
    ∀ i x, (w.accounts user).searches.get i = some x → ∃ c ∈ w.searches, x.id ≤ c.id

/-- All ids are positive: the stored ones, those on the panel and those in a reply
that has not been handled. -/
structure MapRows.Positive (w : MapRows) : Prop where
  stored : ∀ u i x, (w.accounts u).searches.get i = some x → 1 ≤ x.id
  shown : ∀ c ∈ w.searches, 1 ≤ c.id
  replies : ∀ u i reply, w.request u i = some (.searches (.answered (some reply))) →
    ∀ c ∈ reply, 1 ≤ c.id

namespace RecentLemmas

theorem one_le_nextSearchId {searches : List Search} (h : ∀ c ∈ searches, 1 ≤ c.id) :
    1 ≤ nextSearchId searches := by
  rcases nextSearchId_cases searches with ⟨-, hone⟩ | ⟨c, hc, hnext, -⟩
  · omega
  · have hpos := h c hc
    omega

theorem positive_append {w : MapRows} (h : w.Positive) (rs : List Request)
    (hrs : ∀ r ∈ rs, r.call = .searches .sent ∨ r.call = .lists .sent) :
    { w with requests := w.requests ++ rs }.Positive where
  stored := h.stored
  shown := h.shown
  replies u i reply hreply := by
    rw [request_append] at hreply
    split at hreply
    · exact h.replies u i reply hreply
    · obtain ⟨r, hr, hcall⟩ := Option.bind_eq_some_iff.mp hreply
      obtain ⟨-, hanswered⟩ := Option.ite_none_right_eq_some.mp hcall
      rcases hrs r (List.mem_of_getElem? hr) with hsent | hsent
      · simp [hsent] at hanswered
      · simp [hsent] at hanswered

theorem positive_setRequest {w : MapRows} (h : w.Positive) {user i : Nat} {old c : Call}
    (hold : w.request user i = some old)
    (hcall : ∀ reply, c = .searches (.answered (some reply)) → ∀ x ∈ reply, 1 ≤ x.id) :
    (w.setRequest user i c).Positive where
  stored := h.stored
  shown := h.shown
  replies u j reply hreply := by
    rw [request_setRequest hold] at hreply
    split at hreply
    · obtain ⟨-, hanswered⟩ := Option.ite_none_right_eq_some.mp hreply
      exact hcall reply (Option.some.inj hanswered)
    · exact h.replies u j reply hreply

theorem positive_reloadSearchView {w : MapRows} (h : w.Positive) :
    w.reloadSearchView.Positive := by
  cases hcurrent : w.currentUser with
  | none =>
    rw [reloadSearchView_none hcurrent]
    exact ⟨h.stored, h.shown, h.replies⟩
  | some u =>
    have happend := positive_append h [⟨u, .searches .sent⟩, ⟨u, .lists .sent⟩] (by simp)
    rw [reloadSearchView_some hcurrent]
    exact ⟨happend.stored, happend.shown, happend.replies⟩

/-- The stored searches of an account after a search was stored in one. -/
theorem searches_update {accounts : Nat → UserData} {user : Nat} {search : Search} (u : Nat) :
    (Function.update accounts user { accounts user with
      searches := (accounts user).searches.add search } u).searches =
      if u = user then (accounts u).searches.add search else (accounts u).searches := by
  split
  · next h =>
    subst h
    rw [Function.update_self]
  · next h => rw [Function.update_of_ne h]

theorem positive_addSearchToDb {w : MapRows} (h : w.Positive) : w.addSearchToDb.Positive := by
  rcases addSearchToDb_cases w with ⟨hsame, -⟩ | ⟨user, -, -, hadded⟩
  · rw [hsame]
    exact h
  · have hnext := one_le_nextSearchId h.shown
    rw [hadded]
    refine ⟨fun u i x hx => ?_, fun c hc => ?_, h.replies⟩
    · rw [searches_update] at hx
      split at hx
      · rcases Collection.get_add_eq_some.mp hx with ⟨-, rfl⟩ | hold
        · exact hnext
        · exact h.stored u i x hold
      · exact h.stored u i x hx
    · rcases List.mem_cons.mp hc with rfl | hrest
      · exact hnext
      · split at hrest
        · exact h.shown c (List.mem_of_mem_dropLast hrest)
        · exact h.shown c hrest

/-- The other steps store no search. -/
theorem searches_frame {w w' : MapRows} {e : RowsEvent} (hstep : rowsStep w e = some w')
    (he : e ≠ .addSearchToDb) (u : Nat) :
    (w'.accounts u).searches = (w.accounts u).searches := by
  cases e with
  | signIn user =>
    obtain ⟨-, hm⟩ := Option.ite_none_right_eq_some.mp hstep
    obtain rfl := Option.some.inj hm
    rfl
  | logout =>
    obtain ⟨-, hm⟩ := Option.ite_none_right_eq_some.mp hstep
    obtain rfl := Option.some.inj hm
    rfl
  | reloadSearchView =>
    obtain rfl := Option.some.inj hstep
    cases hcurrent : w.currentUser with
    | none => rw [reloadSearchView_none hcurrent]
    | some u => rw [reloadSearchView_some hcurrent]
  | retrieveLists =>
    obtain ⟨u, -, rfl⟩ := Option.map_eq_some_iff.mp hstep
    rfl
  | searchItems text =>
    obtain rfl := Option.some.inj hstep
    rfl
  | tappedSearch row =>
    obtain ⟨search, -, rfl⟩ := Option.map_eq_some_iff.mp hstep
    rfl
  | addSearchToDb => exact absurd rfl he
  | answered user i ok =>
    rcases rowsStep_answered hstep with ⟨r, reply, -, -, rfl⟩ | ⟨q, q', -, -, rfl⟩
    · rfl
    · rfl
  | handled user i =>
    rcases rowsStep_handled hstep with ⟨r, allLists, r', -, -, rfl⟩ | ⟨reply, -, rfl⟩
    · rfl
    · rfl
  | written user i =>
    obtain ⟨r, accounts, r', -, hr', rfl⟩ := rowsStep_written hstep
    obtain ⟨v, read, rows, title, left, -, -, rfl⟩ := write_cases hr'
    show (Function.update w.accounts v _ u).searches = (w.accounts u).searches
    rcases eq_or_ne u v with rfl | hu
    · rw [Function.update_self]
    · rw [Function.update_of_ne hu]
  | completed user i =>
    obtain ⟨r, rows, r', -, -, rfl⟩ := rowsStep_completed hstep
    rfl

theorem positive_step {w w' : MapRows} {e : RowsEvent} (h : w.Positive)
    (hstep : rowsStep w e = some w') : w'.Positive := by
  rcases eq_or_ne e .addSearchToDb with rfl | he
  · obtain ⟨-, hadded⟩ := Option.ite_none_left_eq_some.mp hstep
    obtain rfl := Option.some.inj hadded
    have hsame : { w with recordBlocks := w.recordBlocks - 1 }.Positive :=
      ⟨h.stored, h.shown, h.replies⟩
    exact positive_addSearchToDb hsame
  · have hstored : ∀ u i x, (w'.accounts u).searches.get i = some x → 1 ≤ x.id := by
      intro u i x hx
      rw [searches_frame hstep he] at hx
      exact h.stored u i x hx
    cases e with
    | signIn user =>
      obtain ⟨-, hm⟩ := Option.ite_none_right_eq_some.mp hstep
      obtain rfl := Option.some.inj hm
      exact ⟨h.stored, h.shown, h.replies⟩
    | logout =>
      obtain ⟨-, hm⟩ := Option.ite_none_right_eq_some.mp hstep
      obtain rfl := Option.some.inj hm
      exact ⟨h.stored, by simp [MapRows.logout, MapRows.reloadSearchView], h.replies⟩
    | reloadSearchView =>
      obtain rfl := Option.some.inj hstep
      exact positive_reloadSearchView h
    | retrieveLists =>
      obtain ⟨u, -, rfl⟩ := Option.map_eq_some_iff.mp hstep
      exact positive_append h _ (by simp)
    | searchItems text =>
      obtain rfl := Option.some.inj hstep
      exact ⟨h.stored, h.shown, h.replies⟩
    | tappedSearch row =>
      obtain ⟨search, -, rfl⟩ := Option.map_eq_some_iff.mp hstep
      exact ⟨h.stored, h.shown, h.replies⟩
    | addSearchToDb => exact absurd rfl he
    | answered user i ok =>
      rcases rowsStep_answered hstep with ⟨r, reply, hr, -, rfl⟩ | ⟨q, q', hq, hq', rfl⟩
      · exact positive_setRequest h hr (by simp)
      · refine positive_setRequest h hq fun reply hreply c hc => ?_
        -- a reply lists stored searches
        obtain rfl := Call.searches.inj hreply
        cases q <;> simp only [Fetch.answer, reduceCtorEq, Option.some.injEq,
          Fetch.answered.injEq] at hq'
        obtain ⟨-, hall⟩ := Option.ite_none_right_eq_some.mp hq'
        obtain rfl := Option.some.inj hall
        rw [getAllSearches_eq] at hc
        obtain ⟨j, hj⟩ := mem_history.mp (Newest.mem_byNewest.mp (List.mem_of_mem_take hc))
        exact h.stored user j c hj
    | handled user i =>
      rcases rowsStep_handled hstep with ⟨r, allLists, r', hr, -, rfl⟩ | ⟨reply, hreply, rfl⟩
      · have hset := positive_setRequest (c := .lists r') h hr (by simp)
        exact ⟨hset.stored, hset.shown, hset.replies⟩
      · have hset := positive_setRequest (c := .searches (.handled reply.isSome)) h hreply (by simp)
        refine ⟨hset.stored, fun c hc => ?_, hset.replies⟩
        have hmem : c ∈ reply.getD [] := Newest.mem_byNewest.mp hc
        cases reply with
        | none => cases hmem
        | some all => exact h.replies user i all hreply c hmem
    | written user i =>
      obtain ⟨r, accounts, r', hr, -, rfl⟩ := rowsStep_written hstep
      have hset := positive_setRequest (c := .lists r') h hr (by simp)
      exact ⟨hstored, hset.shown, hset.replies⟩
    | completed user i =>
      obtain ⟨r, rows, r', hr, -, rfl⟩ := rowsStep_completed hstep
      have hset := positive_setRequest (c := .lists r') h hr (by simp)
      exact ⟨hset.stored, hset.shown, hset.replies⟩

/-- A step keeps the ids of all users in order iff a search that it records finds a
greatest id on the panel. -/
theorem inOrder_step_iff {w w' : MapRows} {e : RowsEvent} (hpos : w.Positive)
    (horder : ∀ u, (w.accounts u).IdsInOrder) (hstep : rowsStep w e = some w') :
    (∀ u, (w'.accounts u).IdsInOrder) ↔ w.Knows e := by
  rcases eq_or_ne e .addSearchToDb with rfl | he
  · obtain ⟨-, hadded⟩ := Option.ite_none_left_eq_some.mp hstep
    obtain rfl := Option.some.inj hadded
    rcases addSearchToDb_cases { w with recordBlocks := w.recordBlocks - 1 } with
      ⟨hsame, hnothing⟩ | ⟨user, hid, hnew, hstored⟩
    · rw [hsame]
      refine iff_of_true horder fun _ u hu hfresh => ?_
      rcases hnothing with hnone | hknown
      · cases hnone.symm.trans hu
      · exact absurd hfresh hknown
    · rw [hstored]
      have hknows : w.Knows .addSearchToDb ↔ ∀ i x, (w.accounts user).searches.get i = some x →
          x.id < nextSearchId w.searches := by
        constructor
        · intro h i x hx
          exact (lt_nextSearchId_iff (hpos.stored user i x hx)).mpr (h rfl user hid hnew i x hx)
        · intro h _ u hu _ i x hx
          obtain rfl := Option.some.inj (hid.symm.trans hu)
          exact (lt_nextSearchId_iff (hpos.stored user i x hx)).mp (h i x hx)
      rw [hknows]
      constructor
      · intro h
        have huser := h user
        rw [UserData.IdsInOrder, searches_update, if_pos rfl] at huser
        exact (Collection.keyIncreasing_add_iff (horder user)).mp huser
      · intro h u
        rw [UserData.IdsInOrder, searches_update]
        split
        · next hu =>
          subst hu
          exact (Collection.keyIncreasing_add_iff (horder u)).mpr h
        · exact horder u
  · refine iff_of_true (fun u => ?_) fun hadd => absurd hadd he
    rw [UserData.IdsInOrder, searches_frame hstep he]
    exact horder u

/-- With the ids in order a query returns the three searches added last. -/
theorem getAllSearches_of_inOrder {a : UserData} (h : a.IdsInOrder) :
    getAllSearches a = a.history.reverse.take 3 := by
  have hhistory : a.history.Pairwise fun x y => x.id < y.id := Collection.pairwise_documents h
  rw [getAllSearches_eq, Newest.byNewest_of_increasing hhistory]

end RecentLemmas

/-- In a run from accounts whose ids are positive and in order, as those of new
accounts are, with the replies of all queries at any time, the ids of every user's
searches always grow in the order in which the searches were added, so that a query
returns those added last, iff every search that is recorded finds on the panel one
whose id is not below any stored id. -/
theorem ids_in_order_iff (accounts : Nat → UserData) (currentUser : Option Nat)
    (horder : ∀ u, (accounts u).IdsInOrder)
    (hpos : ∀ u i x, (accounts u).searches.get i = some x → 1 ≤ x.id) (es : List RowsEvent)
    (w : MapRows) (hrun : Machine.run rowsStep (MapRows.launch accounts currentUser) es = some w) :
    (∀ fs v, fs <+: es → Machine.run rowsStep (MapRows.launch accounts currentUser) fs = some v →
      ∀ u, (v.accounts u).IdsInOrder ∧
        getAllSearches (v.accounts u) = (v.accounts u).history.reverse.take 3) ↔
      Machine.Meets rowsStep MapRows.Knows (MapRows.launch accounts currentUser) es := by
  have hstart : (MapRows.launch accounts currentUser).Positive := by
    refine ⟨hpos, by simp [MapRows.launch], fun u i reply hreply => ?_⟩
    simp [MapRows.launch, MapRows.request] at hreply
  rw [← Machine.run_exact_prefix (I := fun w => ∀ u, (w.accounts u).IdsInOrder)
    (fun _ _ _ => positive_step) (fun _ _ _ => inOrder_step_iff) hstart horder hrun]
  constructor
  · intro h fs v hfs hv u
    exact (h fs v hfs hv u).1
  · intro h fs v hfs hv u
    have horder' := h fs v hfs hv u
    exact ⟨horder', getAllSearches_of_inOrder horder'⟩

/-- A user with four stored searches waits for the reply before searching. -/
def exWaits : List RowsEvent :=
  [.reloadSearchView, .answered 1 0 true, .handled 1 0, .searchItems "Park", .addSearchToDb]

theorem ids_in_order_iff_waits : ∃ w,
    Machine.run rowsStep (MapRows.launch (fun _ => exHistory) (some 1)) exWaits = some w ∧
      ((∀ fs v, fs <+: exWaits →
        Machine.run rowsStep (MapRows.launch (fun _ => exHistory) (some 1)) fs = some v →
        ∀ u, (v.accounts u).IdsInOrder ∧
          getAllSearches (v.accounts u) = (v.accounts u).history.reverse.take 3) ↔
        Machine.Meets rowsStep MapRows.Knows (MapRows.launch (fun _ => exHistory) (some 1))
          exWaits) := by
  have hsome : (Machine.run rowsStep (MapRows.launch (fun _ => exHistory) (some 1))
      exWaits).isSome := by decide +kernel
  obtain ⟨w, hw⟩ := Option.isSome_iff_exists.mp hsome
  have horder : exHistory.IdsInOrder := by
    unfold UserData.IdsInOrder
    decide
  have hpos : ∀ i x, exHistory.searches.get i = some x → 1 ≤ x.id := by decide
  exact ⟨w, hw, ids_in_order_iff (fun _ => exHistory) (some 1) (fun _ => horder) (fun _ => hpos)
    exWaits w hw⟩

/-- A new user searches in a first session, logs out and in again, and searches
before the reply of the second session's query. -/
def exOutrun : List RowsEvent :=
  [.reloadSearchView, .answered 1 0 true, .handled 1 0, .searchItems "Food", .addSearchToDb,
    .logout, .signIn 1, .reloadSearchView, .searchItems "Gas", .addSearchToDb]

/-- Both searches are stored with the id one. -/
theorem outrun_reply_repeats_id :
    ¬ ∀ (es : List RowsEvent) (w : MapRows),
      Machine.run rowsStep (MapRows.launch (fun _ => ⟨.empty, .empty⟩) (some 1)) es = some w →
        ∀ u, (w.accounts u).IdsInOrder ∧
          getAllSearches (w.accounts u) = (w.accounts u).history.reverse.take 3 := by
  intro hall
  have hrun : (Machine.run rowsStep (MapRows.launch (fun _ => ⟨.empty, .empty⟩) (some 1))
      exOutrun).map (fun w => ((w.accounts 1).searches.get 0, (w.accounts 1).searches.get 1)) =
      some (some ⟨"Food", 1⟩, some ⟨"Gas", 1⟩) := by decide +kernel
  obtain ⟨w, hw, hget⟩ := Option.map_eq_some_iff.mp hrun
  obtain ⟨hfood, hgas⟩ := Prod.mk.inj hget
  have hlt := (hall exOutrun w hw 1).1 0 _ hfood 1 _ hgas Nat.one_pos
  exact absurd hlt (lt_irrefl 1)

end LocateMe
