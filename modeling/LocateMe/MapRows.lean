import LocateMe.ListScreens
import LocateMe.LocalSearch
import LocateMe.SaveVisit

/-!
# The rows of the search panel

`MapController` keeps the lists and the recent searches of the signed-in user in two
arrays of its search panel. `reloadSearchView` sends the queries for them, and
every completion writes into the arrays, and under `self.userId`, as they are when
it runs. An empty or failed `getAllList` is followed by the four writes of
`addDefaultLists`, each with a completion of its own.

Results:
1. `request_setRequest`, `request_append`: the calls after one of them goes on, and
   after new ones.
2. `rowsStep_answered` and its siblings: what the steps of a call can do.
-/

namespace LocateMe

open Documents

/-! ## 1. The rows -/

/-- What is stored for one user. -/
structure UserData where
  store : UserStore
  searches : Collection Search

/-- `getDefaultList`, the rows for a visitor. -/
def getDefaultList : List PlaceList :=
  [⟨"Favourite", none, "heart.circle.fill", .lightRed, [], 0⟩,
    ⟨"Recreational", none, "folder.circle.fill", .lightTeal, [], 0⟩,
    ⟨"Starred", none, "star.circle.fill", .lightOrange, [], 0⟩,
    ⟨"To explore", none, "flag.circle.fill", .lightGreen, [], 0⟩]

/-- The images and colours of `addDefaultLists`. -/
def defaultIcon (title : String) : String × UIColor :=
  if title = "Favourite" then ("heart", .lightRed)
  else if title = "To explore" then ("flag", .lightGreen)
  else if title = "Recreational" then ("music.house", .lightTeal)
  else ("star", .lightOrange)

/-- The row that the completion of one write of `addDefaultLists` makes. -/
def defaultRow (title : String) (documentId : Nat) : PlaceList :=
  ⟨title, some documentId, (defaultIcon title).1, (defaultIcon title).2, [], 0⟩

/-- The id of list document number `i` of a user. No other account has it. -/
def listDocumentId (user i : Nat) : Nat := Nat.pair user i

/-- A row for a list of this user. -/
def PlaceList.ofUser (user : Nat) (l : PlaceList) : PlaceList :=
  { l with id := l.id.map (listDocumentId user) }

def sortedById (searches : List Search) : List Search :=
  searches.insertionSort fun a b => b.id ≤ a.id

/-- `getAllSearches`: the three newest. -/
def getAllSearches (a : UserData) : List Search :=
  (sortedById (a.searches.documents.map Prod.snd)).take 3

/-! ## 2. A call of `retrieveLists` -/

/-- How far a call has got. After an empty reply, or an error when not `read`,
`addDefaultLists` has been called for `userId`: `rows` are those of the writes that
have succeeded, and `left` are the titles still to be written. -/
inductive Retrieval
  | sent
  | answered (reply : Option (List PlaceList))
  | creating (userId : Nat) (read : Bool) (rows : List PlaceList) (left : List String)
  | done
deriving DecidableEq

namespace Retrieval

/-- The server answers the query for the lists of `user`, or it fails. -/
def answer (r : Retrieval) (ok : Bool) (user : Nat) (s : UserStore) : Option Retrieval :=
  match r with
  | .sent => some (.answered (if ok then some ((getAllList s).map (.ofUser user)) else none))
  | _ => none

/-- The completion of `getAllList`: the lists to show, if any. The default lists of
no user are a trap. -/
def handle (r : Retrieval) (userId : Option Nat) : Option (List PlaceList × Retrieval) :=
  match r with
  | .answered reply =>
    if 0 < (reply.getD []).length then some (reply.getD [], .done)
    else userId.map fun u => ([], .creating u reply.isSome [] defaultTitles)
  | _ => none

/-- The next write of `addDefaultLists` succeeds. -/
def write (r : Retrieval) (accounts : Nat → UserData) : Option ((Nat → UserData) × Retrieval) :=
  match r with
  | .creating u read rows (title :: left) =>
    let account := accounts u
    some (Function.update accounts u
        { account with store := (Write.addList title).apply account.store },
      .creating u read
        (rows ++ [defaultRow title (listDocumentId u account.store.lists.next)]) left)
  | _ => none

/-- The completion of `addDefaultLists`, after its last write. -/
def complete (r : Retrieval) : Option (List PlaceList × Retrieval) :=
  match r with
  | .creating _ _ rows [] => some (rows, .done)
  | _ => none

end Retrieval

/-! ## 3. The controller -/

/-- A call whose completion has not run, or the end of it. -/
inductive Call
  | lists (r : Retrieval)
  | searches (q : Fetch (List Search))
deriving DecidableEq

/-- A call, with the user that it was made for. -/
structure Request where
  user : Nat
  call : Call
deriving DecidableEq

/-- `MapController` over the accounts of all users. The user id `""` is `none`, and
`textBy` is the user id when `searchText` was set. `recordBlocks` counts the blocks
of `addSearchToDb` that are to run. -/
structure MapRows where
  accounts : Nat → UserData
  currentUser : Option Nat
  userId : Option Nat
  lists : List PlaceList
  searches : List Search
  searchText : String
  textBy : Option Nat
  recordBlocks : Nat
  requests : List Request

/-- The app starts, with or without a user. -/
def MapRows.launch (accounts : Nat → UserData) (currentUser : Option Nat) : MapRows :=
  ⟨accounts, currentUser, none, [], [], "", none, 0, []⟩

/-- What happens to the panel. An event of a call names the user it was made for. -/
inductive RowsEvent
  | signIn (user : Nat)
  | logout
  | reloadSearchView
  | retrieveLists
  | searchItems (text : String)
  | tappedSearch (row : Nat)
  | addSearchToDb
  | answered (user i : Nat) (ok : Bool)
  | handled (user i : Nat)
  | written (user i : Nat)
  | completed (user i : Nat)
deriving DecidableEq

namespace MapRows

/-- The call number `i`, when it was made for this user. -/
def request (w : MapRows) (user i : Nat) : Option Call :=
  (w.requests[i]?).bind fun r => if r.user = user then some r.call else none

def setRequest (w : MapRows) (user i : Nat) (call : Call) : MapRows :=
  { w with requests := w.requests.set i ⟨user, call⟩ }

/-- `reloadSearchView`. -/
def reloadSearchView (w : MapRows) : MapRows :=
  match w.currentUser with
  | none => { w with userId := none, lists := getDefaultList }
  | some u =>
    { w with
      userId := some u
      requests := w.requests ++ [⟨u, .searches .sent⟩, ⟨u, .lists .sent⟩] }

/-- `logout` and `resetMapView`. -/
def logout (w : MapRows) : MapRows :=
  { w with currentUser := none, searches := [] }.reloadSearchView

/-- Every search sets `searchText`, and its response queues `addSearchToDb`. -/
def searchItems (w : MapRows) (text : String) : MapRows :=
  { w with searchText := text, textBy := w.userId, recordBlocks := w.recordBlocks + 1 }

/-- The block of `addSearchToDb`. -/
def addSearchToDb (w : MapRows) : MapRows :=
  match w.userId with
  | none => w
  | some u =>
    if w.searches.any (·.title == w.searchText) then w
    else
      let search : Search := ⟨w.searchText, nextSearchId w.searches⟩
      let account := w.accounts u
      { w with
        accounts := Function.update w.accounts u
          { account with searches := account.searches.add search }
        searches := search :: if 2 < w.searches.length then w.searches.dropLast else w.searches }

end MapRows

/-- One event. Only a visitor signs in, and only a user logs out. There is no next
state when the call is not there, or after a trap. -/
def rowsStep (w : MapRows) : RowsEvent → Option MapRows
  | .signIn user => if w.currentUser.isNone then some { w with currentUser := some user } else none
  | .logout => if w.currentUser.isSome then some w.logout else none
  | .reloadSearchView => some w.reloadSearchView
  | .retrieveLists =>
    w.userId.map fun u => { w with requests := w.requests ++ [⟨u, .lists .sent⟩] }
  | .searchItems text => some (w.searchItems text)
  | .tappedSearch row => (w.searches[row]?).map fun search => w.searchItems search.title
  | .addSearchToDb =>
    if w.recordBlocks = 0 then none
    else some { w with recordBlocks := w.recordBlocks - 1 }.addSearchToDb
  | .answered user i ok =>
    match w.request user i with
    | some (.lists r) =>
      (r.answer ok user (w.accounts user).store).map fun r => w.setRequest user i (.lists r)
    | some (.searches q) =>
      (q.answer ok (getAllSearches (w.accounts user))).map fun q =>
        w.setRequest user i (.searches q)
    | none => none
  | .handled user i =>
    match w.request user i with
    | some (.lists r) =>
      (r.handle w.userId).map fun (allLists, r) =>
        { w.setRequest user i (.lists r) with
          lists := sortedByTitle (if 0 < allLists.length then allLists else w.lists) }
    | some (.searches (.answered reply)) =>
      some { w.setRequest user i (.searches (.handled reply.isSome)) with
        searches := sortedById (reply.getD []) }
    | _ => none
  | .written user i =>
    match w.request user i with
    | some (.lists r) =>
      (r.write w.accounts).map fun (accounts, r) =>
        { w.setRequest user i (.lists r) with accounts := accounts }
    | _ => none
  | .completed user i =>
    match w.request user i with
    | some (.lists r) =>
      r.complete.map fun (rows, r) =>
        { w.setRequest user i (.lists r) with lists := w.lists ++ rows }
    | _ => none

/-! ## 4. Steps -/

namespace RowsLemmas

theorem reloadSearchView_none {w : MapRows} (h : w.currentUser = none) :
    w.reloadSearchView = { w with userId := none, lists := getDefaultList } := by
  unfold MapRows.reloadSearchView
  split
  · rfl
  · next u hu => cases h.symm.trans hu

theorem reloadSearchView_some {w : MapRows} {u : Nat} (h : w.currentUser = some u) :
    w.reloadSearchView = { w with
      userId := some u
      requests := w.requests ++ [⟨u, .searches .sent⟩, ⟨u, .lists .sent⟩] } := by
  unfold MapRows.reloadSearchView
  split
  · next hnone => cases h.symm.trans hnone
  · next u' hu =>
    obtain rfl := Option.some.inj (h.symm.trans hu)
    rfl

theorem addSearchToDb_none {w : MapRows} (h : w.userId = none) : w.addSearchToDb = w := by
  unfold MapRows.addSearchToDb
  split
  · rfl
  · next u hu => cases h.symm.trans hu

theorem addSearchToDb_some {w : MapRows} {u : Nat} (h : w.userId = some u) :
    w.addSearchToDb =
      if w.searches.any (·.title == w.searchText) then w
      else
        let search : Search := ⟨w.searchText, nextSearchId w.searches⟩
        { w with
          accounts := Function.update w.accounts u { w.accounts u with
            searches := (w.accounts u).searches.add search }
          searches :=
            search :: if 2 < w.searches.length then w.searches.dropLast else w.searches } := by
  unfold MapRows.addSearchToDb
  split
  · next hnone => cases h.symm.trans hnone
  · next u' hu =>
    obtain rfl := Option.some.inj (h.symm.trans hu)
    rfl

/-- What the block does: nothing, or it stores a search with the next id and shows
it. -/
theorem addSearchToDb_cases (w : MapRows) :
    w.addSearchToDb = w ∧ (w.userId = none ∨ ¬ ∀ c ∈ w.searches, c.title ≠ w.searchText) ∨
      ∃ user, w.userId = some user ∧ (∀ c ∈ w.searches, c.title ≠ w.searchText) ∧
        w.addSearchToDb = { w with
          accounts := Function.update w.accounts user { w.accounts user with
            searches :=
              (w.accounts user).searches.add ⟨w.searchText, nextSearchId w.searches⟩ }
          searches := ⟨w.searchText, nextSearchId w.searches⟩ ::
            if 2 < w.searches.length then w.searches.dropLast else w.searches } := by
  rcases Option.eq_none_or_eq_some w.userId with hid | ⟨user, hid⟩
  · exact .inl ⟨addSearchToDb_none hid, .inl hid⟩
  · rw [addSearchToDb_some hid]
    split
    · next hany => exact .inl ⟨rfl, .inr (by simpa using hany)⟩
    · next hany => exact .inr ⟨user, hid, by simpa using hany, rfl⟩

theorem request_setRequest {w : MapRows} {user i : Nat} {old call : Call}
    (hold : w.request user i = some old) (u j : Nat) :
    (w.setRequest user i call).request u j =
      if j = i then (if u = user then some call else none) else w.request u j := by
  obtain ⟨r, hr, -⟩ := Option.bind_eq_some_iff.mp hold
  have hlt : i < w.requests.length := (List.getElem?_eq_some_iff.mp hr).1
  unfold MapRows.request MapRows.setRequest
  by_cases hj : j = i
  · subst hj
    simp [hlt, eq_comm]
  · simp [List.getElem?_set_ne (Ne.symm hj), hj]

/-- Whose call it is does not change. -/
theorem request_setRequest_ne {w : MapRows} {user i : Nat} {old call : Call}
    (hold : w.request user i = some old) {u : Nat} (hu : u ≠ user) (j : Nat) :
    (w.setRequest user i call).request u j = w.request u j := by
  rw [request_setRequest hold]
  split
  · next hj =>
    obtain ⟨r, hr, hcall⟩ := Option.bind_eq_some_iff.mp hold
    obtain ⟨huser, -⟩ := Option.ite_none_right_eq_some.mp hcall
    have hother : r.user ≠ u := fun h => hu (h.symm.trans huser)
    rw [hj]
    simp [MapRows.request, hr, hother]
  · rfl

/-- New calls come last. -/
theorem request_append (w : MapRows) (rs : List Request) (u i : Nat) :
    { w with requests := w.requests ++ rs }.request u i =
      if i < w.requests.length then w.request u i
      else (rs[i - w.requests.length]?).bind fun r => if r.user = u then some r.call else none := by
  unfold MapRows.request
  split
  · next hlt => rw [List.getElem?_append_left hlt]
  · next hge => rw [List.getElem?_append_right (Nat.le_of_not_lt hge)]

theorem answer_cases {r r' : Retrieval} {ok : Bool} {u : Nat} {s : UserStore}
    (h : r.answer ok u s = some r') : ∃ reply, r' = .answered reply := by
  cases r <;> simp only [Retrieval.answer, reduceCtorEq] at h
  exact ⟨_, (Option.some.inj h).symm⟩

theorem handle_cases {r r' : Retrieval} {userId : Option Nat} {allLists : List PlaceList}
    (h : r.handle userId = some (allLists, r')) :
    r' = .done ∨ ∃ u read, userId = some u ∧ r' = .creating u read [] defaultTitles := by
  cases r <;> simp only [Retrieval.handle, reduceCtorEq] at h
  split at h
  · exact .inl (Prod.mk.inj (Option.some.inj h)).2.symm
  · obtain ⟨u, hu, hpair⟩ := Option.map_eq_some_iff.mp h
    exact .inr ⟨u, _, hu, (Prod.mk.inj hpair).2.symm⟩

theorem write_cases {r r' : Retrieval} {accounts accounts' : Nat → UserData}
    (h : r.write accounts = some (accounts', r')) :
    ∃ u read rows title left, r = .creating u read rows (title :: left) ∧
      r' = .creating u read
        (rows ++ [defaultRow title (listDocumentId u (accounts u).store.lists.next)]) left ∧
      accounts' = Function.update accounts u { accounts u with
        store := (Write.addList title).apply (accounts u).store } := by
  unfold Retrieval.write at h
  split at h
  · obtain ⟨rfl, rfl⟩ := Prod.mk.inj (Option.some.inj h)
    exact ⟨_, _, _, _, _, rfl, rfl, rfl⟩
  · cases h

theorem complete_cases {r r' : Retrieval} {rows : List PlaceList}
    (h : r.complete = some (rows, r')) :
    r' = .done ∧ ∃ u read, r = .creating u read rows [] := by
  unfold Retrieval.complete at h
  split at h
  · obtain ⟨rfl, rfl⟩ := Prod.mk.inj (Option.some.inj h)
    exact ⟨rfl, _, _, rfl⟩
  · cases h

/-- The step of a call event: the call it finds and what it makes of it. -/
theorem rowsStep_answered {w w' : MapRows} {u i : Nat} {ok : Bool}
    (h : rowsStep w (.answered u i ok) = some w') :
    (∃ r reply, w.request u i = some (.lists r) ∧ r.answer ok u (w.accounts u).store =
        some (.answered reply) ∧ w' = w.setRequest u i (.lists (.answered reply))) ∨
      ∃ q q', w.request u i = some (.searches q) ∧
        q.answer ok (getAllSearches (w.accounts u)) = some q' ∧
        w' = w.setRequest u i (.searches q') := by
  simp only [rowsStep] at h
  split at h
  · next r hr =>
    obtain ⟨r', hr', rfl⟩ := Option.map_eq_some_iff.mp h
    obtain ⟨reply, rfl⟩ := answer_cases hr'
    exact .inl ⟨r, reply, hr, hr', rfl⟩
  · next q hq =>
    obtain ⟨q', hq', rfl⟩ := Option.map_eq_some_iff.mp h
    exact .inr ⟨q, q', hq, hq', rfl⟩
  · cases h

theorem rowsStep_handled {w w' : MapRows} {u i : Nat} (h : rowsStep w (.handled u i) = some w') :
    (∃ r allLists r', w.request u i = some (.lists r) ∧
        r.handle w.userId = some (allLists, r') ∧
        w' = { w.setRequest u i (.lists r') with
          lists := sortedByTitle (if 0 < allLists.length then allLists else w.lists) }) ∨
      ∃ reply, w.request u i = some (.searches (.answered reply)) ∧
        w' = { w.setRequest u i (.searches (.handled reply.isSome)) with
          searches := sortedById (reply.getD []) } := by
  simp only [rowsStep] at h
  split at h
  · next r hr =>
    obtain ⟨⟨allLists, r'⟩, hr', rfl⟩ := Option.map_eq_some_iff.mp h
    exact .inl ⟨r, allLists, r', hr, hr', rfl⟩
  · next reply hreply => exact .inr ⟨reply, hreply, (Option.some.inj h).symm⟩
  · cases h

theorem rowsStep_written {w w' : MapRows} {u i : Nat} (h : rowsStep w (.written u i) = some w') :
    ∃ r accounts r', w.request u i = some (.lists r) ∧ r.write w.accounts = some (accounts, r') ∧
      w' = { w.setRequest u i (.lists r') with accounts := accounts } := by
  simp only [rowsStep] at h
  split at h
  · next r hr =>
    obtain ⟨⟨accounts, r'⟩, hr', rfl⟩ := Option.map_eq_some_iff.mp h
    exact ⟨r, accounts, r', hr, hr', rfl⟩
  · cases h

theorem rowsStep_completed {w w' : MapRows} {u i : Nat}
    (h : rowsStep w (.completed u i) = some w') :
    ∃ r rows r', w.request u i = some (.lists r) ∧ r.complete = some (rows, r') ∧
      w' = { w.setRequest u i (.lists r') with lists := w.lists ++ rows } := by
  simp only [rowsStep] at h
  split at h
  · next r hr =>
    obtain ⟨⟨rows, r'⟩, hr', rfl⟩ := Option.map_eq_some_iff.mp h
    exact ⟨r, rows, r', hr, hr', rfl⟩
  · cases h

end RowsLemmas

end LocateMe
