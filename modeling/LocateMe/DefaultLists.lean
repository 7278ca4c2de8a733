import LocateMe.MapRows
import LocateMe.ListTitles

/-!
# The default lists

`MapController` and `SavedController` both add the four default lists when a
`getAllList` comes back without a list, and append their rows to those on screen.
Neither knows of the other, an error comes back as no list, and the first four rows
on screen can be those that a visitor was shown.

Results:
1. `created_handle`, `created_write` and their siblings: what a call needs at each
   of its points so that the default lists are made once, for calls of any screens.
2. `sound_bothStep`: a step of the two screens under its condition.
3. `defaults_created_once`: in every run whose steps meet the condition, each default
   title is there once at most, no failed read writes, and all rows of a user are those
   of stored lists of that user.
-/

namespace LocateMe

open Documents StoreLemmas RowsLemmas TitleLemmas

/-! ## 1. Calls of any screens -/

/-- The row has the id of a list document of the user. -/
def RowOf (stores : Nat → UserStore) (user : Nat) (l : PlaceList) : Prop :=
  ∃ i, l.id = some (listDocumentId user i) ∧ (stores user).lists.get i ≠ none

/-- The call has default lists to write for the user. -/
def Retrieval.Creates (user : Nat) : Retrieval → Prop
  | .creating u _ _ (_ :: _) => u = user
  | _ => False

/-- No default list is stored for the user, and none is on its way. -/
def NoDefaults {π : Type} (stores : Nat → UserStore) (call : π → Option (Nat × Retrieval))
    (user : Nat) : Prop :=
  (∀ t ∈ defaultTitles, ¬ ListTitle (stores user) t) ∧
    ∀ p u r, call p = some (u, r) → ¬ r.Creates user

/-- What holds of a call for the user `u`: its rows are stored, and the lists that it
still writes follow an answer, are default lists and are not stored. -/
def Retrieval.Sound (stores : Nat → UserStore) (u : Nat) : Retrieval → Prop
  | .answered (some allLists) => ∀ l ∈ allLists, RowOf stores u l
  | .creating v read rows left =>
    read = true ∧ (∀ l ∈ rows, RowOf stores v l) ∧ left.Nodup ∧
      ∀ t ∈ left, t ∈ defaultTitles ∧ ¬ ListTitle (stores v) t
  | _ => True

/-- The default lists are made once, by calls at any places: one call at a time
writes them for a user. -/
structure CreatedOnce {π : Type} (stores : Nat → UserStore)
    (call : π → Option (Nat × Retrieval)) : Prop where
  titles : ∀ u i j t, t ∈ defaultTitles → Titled (stores u) i t → Titled (stores u) j t → i = j
  sound : ∀ p u r, call p = some (u, r) → r.Sound stores u
  single : ∀ p q u u' r r' v, call p = some (u, r) → call q = some (u', r') → r.Creates v →
    r'.Creates v → p = q

namespace DefaultLemmas

section

variable {π : Type} [DecidableEq π] {stores : Nat → UserStore} {call : π → Option (Nat × Retrieval)}

/-- A new list of any user leaves the rows of all users stored. -/
theorem rowOf_update {u : Nat} {l : PlaceList} (h : RowOf stores u l) (v : Nat)
    (title : String) :
    RowOf (Function.update stores v ((Write.addList title).apply (stores v))) u l := by
  obtain ⟨i, hid, hi⟩ := h
  refine ⟨i, hid, ?_⟩
  rcases eq_or_ne u v with rfl | hu
  · obtain ⟨d, hd⟩ := Option.ne_none_iff_exists'.mp hi
    rw [Function.update_self]
    show ((stores u).lists.add ⟨title, []⟩).get i ≠ none
    rw [Collection.get_add_of_some hd]
    exact Option.some_ne_none d
  · rwa [Function.update_of_ne hu]

theorem rowOf_defaultRow (stores : Nat → UserStore) (v : Nat) (title : String) :
    RowOf (Function.update stores v ((Write.addList title).apply (stores v))) v
      (defaultRow title (listDocumentId v (stores v).lists.next)) :=
  ⟨(stores v).lists.next, rfl, by simp [Write.apply]⟩

theorem rowOf_getAllList {u : Nat} {l : PlaceList}
    (h : l ∈ (getAllList (stores u)).map (.ofUser u)) : RowOf stores u l := by
  obtain ⟨l, hl, rfl⟩ := List.mem_map.mp h
  obtain ⟨i, d, hd, rfl⟩ := mem_getAllList.mp hl
  exact ⟨i, rfl, by simp [hd]⟩

/-- A call goes on, or a new one is made. -/
theorem created_update (h : CreatedOnce stores call) (p : π) {u : Nat} {r : Retrieval}
    (hr : r.Sound stores u)
    (hother : ∀ v, r.Creates v → ∀ q u' r', q ≠ p → call q = some (u', r') → ¬ r'.Creates v) :
    CreatedOnce stores (Function.update call p (some (u, r))) where
  titles := h.titles
  sound q u' r' hq := by
    rcases eq_or_ne q p with rfl | hqp
    · rw [Function.update_self] at hq
      obtain ⟨rfl, rfl⟩ := Prod.mk.inj (Option.some.inj hq)
      exact hr
    · rw [Function.update_of_ne hqp] at hq
      exact h.sound q u' r' hq
  single q q' u₁ u₂ r₁ r₂ v hq hq' hc hc' := by
    rcases eq_or_ne q p with rfl | hqp
    · rcases eq_or_ne q' q with rfl | hqp'
      · rfl
      · rw [Function.update_self] at hq
        rw [Function.update_of_ne hqp'] at hq'
        obtain ⟨rfl, rfl⟩ := Prod.mk.inj (Option.some.inj hq)
        exact absurd hc' (hother v hc q' u₂ r₂ hqp' hq')
    · rw [Function.update_of_ne hqp] at hq
      rcases eq_or_ne q' p with rfl | hqp'
      · rw [Function.update_self] at hq'
        obtain ⟨rfl, rfl⟩ := Prod.mk.inj (Option.some.inj hq')
        exact absurd hc (hother v hc' q u₁ r₁ hqp hq)
      · rw [Function.update_of_ne hqp'] at hq'
        exact h.single q q' u₁ u₂ r₁ r₂ v hq hq' hc hc'

theorem created_sent (h : CreatedOnce stores call) (p : π) (u : Nat) :
    CreatedOnce stores (Function.update call p (some (u, .sent))) :=
  created_update h p trivial fun _ hc => hc.elim

theorem created_answer (h : CreatedOnce stores call) (p : π) {u : Nat} {ok : Bool}
    {r r' : Retrieval} (hanswer : r.answer ok u (stores u) = some r') :
    CreatedOnce stores (Function.update call p (some (u, r'))) := by
  cases r <;> simp only [Retrieval.answer, reduceCtorEq] at hanswer
  obtain rfl := Option.some.inj hanswer
  refine created_update h p ?_ fun _ hc => hc.elim
  cases ok with
  | false => exact trivial
  | true => exact fun l hl => rowOf_getAllList hl

/-- The completion of `getAllList` needs an answer, and nothing on its way when the
answer is empty. -/
theorem created_handle (h : CreatedOnce stores call) {p : π} {u v : Nat}
    {reply : Option (List PlaceList)} (hanswered : reply ≠ none)
    (hempty : reply = some [] → NoDefaults stores call v) {allLists : List PlaceList}
    {r' : Retrieval} (hhandle : (Retrieval.answered reply).handle (some v) = some (allLists, r')) :
    CreatedOnce stores (Function.update call p (some (u, r'))) := by
  obtain ⟨lists, rfl⟩ := Option.ne_none_iff_exists'.mp hanswered
  cases lists with
  | nil =>
    obtain ⟨-, rfl⟩ := Prod.mk.inj (Option.some.inj hhandle)
    obtain ⟨hstored, hcoming⟩ := hempty rfl
    refine created_update h p ?_ ?_
    · exact ⟨rfl, by simp, by decide, fun t ht => ⟨ht, hstored t ht⟩⟩
    · rintro _ rfl q u' r' - hq
      exact hcoming q u' r' hq
  | cons l rest =>
    obtain ⟨-, rfl⟩ := Prod.mk.inj (Option.some.inj hhandle)
    exact created_update h p trivial fun _ hc => hc.elim

theorem created_complete (h : CreatedOnce stores call) {p : π} {u : Nat} {r r' : Retrieval}
    {rows : List PlaceList} (hcomplete : r.complete = some (rows, r')) :
    CreatedOnce stores (Function.update call p (some (u, r'))) := by
  obtain ⟨rfl, -⟩ := complete_cases hcomplete
  exact created_update h p trivial fun _ hc => hc.elim

/-- A new list of a user touches no call but the one that writes for the user. -/
theorem sound_addList {u v : Nat} {r : Retrieval} (hr : r.Sound stores u) (hother : ¬ r.Creates v)
    (title : String) :
    r.Sound (Function.update stores v ((Write.addList title).apply (stores v))) u := by
  cases r with
  | sent => exact trivial
  | done => exact trivial
  | answered reply =>
    cases reply with
    | none => exact trivial
    | some allLists => exact fun l hl => rowOf_update (hr l hl) v title
  | creating x read rows left =>
    obtain ⟨hread, hrows, hnodup, hleft⟩ := hr
    refine ⟨hread, fun l hl => rowOf_update (hrows l hl) v title, hnodup, fun t ht => ?_⟩
    have hx : x ≠ v := by
      rintro rfl
      cases left with
      | nil => cases ht
      | cons t' rest => exact hother rfl
    rw [Function.update_of_ne hx]
    exact hleft t ht

/-- A write of `addDefaultLists` takes one title from those to come. -/
theorem created_write (h : CreatedOnce stores call) {p : π} {u v : Nat} {read : Bool}
    {rows : List PlaceList} {title : String} {left : List String}
    (hp : call p = some (u, .creating v read rows (title :: left))) :
    CreatedOnce (Function.update stores v ((Write.addList title).apply (stores v)))
      (Function.update call p (some (u, .creating v read
        (rows ++ [defaultRow title (listDocumentId v (stores v).lists.next)]) left))) := by
  obtain ⟨hread, hrows, hnodup, hleft⟩ := h.sound p u _ hp
  obtain ⟨htitle, hnodup⟩ := List.nodup_cons.mp hnodup
  have hnew : ¬ ListTitle (stores v) title := (hleft title List.mem_cons_self).2
  have hcreates : (Retrieval.creating v read rows (title :: left)).Creates v := rfl
  refine ⟨fun u' i j t ht hi hj => ?_, fun q u' r' hq => ?_,
    fun q q' u₁ u₂ r₁ r₂ x hq hq' hc hc' => ?_⟩
  · rcases eq_or_ne u' v with rfl | hu
    · rw [Function.update_self] at hi hj
      exact titled_addList_unique hnew (h.titles u' i j t ht) hi hj
    · rw [Function.update_of_ne hu] at hi hj
      exact h.titles u' i j t ht hi hj
  · rcases eq_or_ne q p with rfl | hqp
    · rw [Function.update_self] at hq
      obtain ⟨rfl, rfl⟩ := Prod.mk.inj (Option.some.inj hq)
      refine ⟨hread, fun l hl => ?_, hnodup, fun t ht => ?_⟩
      · rcases List.mem_append.mp hl with hl | hl
        · exact rowOf_update (hrows l hl) v title
        · rw [List.mem_singleton.mp hl]
          exact rowOf_defaultRow stores v title
      · obtain ⟨hdefault, hmissing⟩ := hleft t (List.mem_cons_of_mem title ht)
        rw [Function.update_self, listTitle_addList, not_or]
        exact ⟨hdefault, fun heq => htitle (heq ▸ ht), hmissing⟩
    · rw [Function.update_of_ne hqp] at hq
      exact sound_addList (h.sound q u' r' hq)
        (fun hc => hqp (h.single q p u' u r' _ v hq hp hc hcreates)) title
  · have hbefore : ∀ y u' r', Function.update call p (some (u, .creating v read
        (rows ++ [defaultRow title (listDocumentId v (stores v).lists.next)]) left)) y =
          some (u', r') →
        r'.Creates x → ∃ u'' r'', call y = some (u'', r'') ∧ r''.Creates x := by
      intro y u' r' hy hcy
      rcases eq_or_ne y p with rfl | hyp
      · rw [Function.update_self] at hy
        obtain ⟨rfl, rfl⟩ := Prod.mk.inj (Option.some.inj hy)
        cases left with
        | nil => exact hcy.elim
        | cons t rest =>
          exact ⟨u, .creating v read rows (title :: t :: rest), hp, hcy⟩
      · rw [Function.update_of_ne hyp] at hy
        exact ⟨u', r', hy, hcy⟩
    obtain ⟨v₁, s₁, hs₁, hd₁⟩ := hbefore q u₁ r₁ hq hc
    obtain ⟨v₂, s₂, hs₂, hd₂⟩ := hbefore q' u₂ r₂ hq' hc'
    exact h.single q q' v₁ v₂ s₁ s₂ x hs₁ hs₂ hd₁ hd₂

end

end DefaultLemmas

open DefaultLemmas

/-! ## 2. The two screens -/

/-- A `SavedController`, with the user id that it was pushed with, and its calls of
`retrieveLists`. -/
structure SavedScreen where
  userId : Nat
  lists : List PlaceList
  calls : List Retrieval

/-- `MapController`, and every `SavedController` that there has been. -/
structure BothScreens where
  map : MapRows
  saved : List SavedScreen

/-- What happens to the panel of the map, or to the saved screen number `k`. -/
inductive BothEvent
  | map (e : RowsEvent)
  | pushSaved
  | viewWillAppear (k : Nat)
  | answered (k i : Nat) (ok : Bool)
  | handled (k i : Nat)
  | written (k i : Nat)
  | completed (k i : Nat)
deriving DecidableEq

namespace BothScreens

/-- The call number `i` of a saved screen. -/
def savedCall (w : BothScreens) (k i : Nat) : Option (SavedScreen × Retrieval) :=
  (w.saved[k]?).bind fun c => (c.calls[i]?).map fun r => (c, r)

def setCall (w : BothScreens) (k i : Nat) (c : SavedScreen) (r : Retrieval) : BothScreens :=
  { w with saved := w.saved.set k { c with calls := c.calls.set i r } }

end BothScreens

/-- One event. A saved screen is pushed for the signed-in user, whether from the menu
or after signing in. -/
def bothStep (w : BothScreens) : BothEvent → Option BothScreens
  | .map e => (rowsStep w.map e).map fun m => { w with map := m }
  | .pushSaved => w.map.currentUser.map fun u => { w with saved := w.saved ++ [⟨u, [], []⟩] }
  | .viewWillAppear k =>
    (w.saved[k]?).map fun c =>
      { w with saved := w.saved.set k { c with calls := c.calls ++ [.sent] } }
  | .answered k i ok =>
    (w.savedCall k i).bind fun (c, r) =>
      (r.answer ok c.userId (w.map.accounts c.userId).store).map fun r => w.setCall k i c r
  | .handled k i =>
    (w.savedCall k i).bind fun (c, r) =>
      (r.handle (some c.userId)).map fun (allLists, r) =>
        w.setCall k i
          { c with lists := if 0 < allLists.length then sortedByTitle allLists else c.lists } r
  | .written k i =>
    (w.savedCall k i).bind fun (c, r) =>
      (r.write w.map.accounts).map fun (accounts, r) =>
        { w.setCall k i c r with map := { w.map with accounts := accounts } }
  | .completed k i =>
    (w.savedCall k i).bind fun (c, r) =>
      r.complete.map fun (rows, r) =>
        w.setCall k i { c with lists := sortedByTitle (c.lists ++ rows) } r

/-- Where a call of `retrieveLists` stands. -/
inductive Position
  | map (user i : Nat)
  | saved (k i : Nat)
deriving DecidableEq

def Position.isSaved : Position → Bool
  | .map _ _ => false
  | .saved _ _ => true

namespace BothScreens

/-- The call at a position, with the user that it was made for. -/
def call (w : BothScreens) : Position → Option (Nat × Retrieval)
  | .map user i =>
    match w.map.request user i with
    | some (.lists r) => some (user, r)
    | _ => none
  | .saved k i => (w.savedCall k i).map fun x => (x.1.userId, x.2)

def stores (w : BothScreens) (user : Nat) : UserStore := (w.map.accounts user).store

/-- The default lists are made once, after answers, and the rows that a signed-in user
sees are stored lists of that user. -/
structure Tidy (w : BothScreens) : Prop where
  created : CreatedOnce w.stores w.call
  mapRows : ∀ u, w.map.userId = some u → ∀ l ∈ w.map.lists, RowOf w.stores u l
  savedRows : ∀ c ∈ w.saved, ∀ l ∈ c.lists, RowOf w.stores c.userId l

/-- A saved screen makes default lists for its own user. -/
def OwnDefaults (w : BothScreens) : Prop :=
  ∀ k i u v read rows left, w.call (.saved k i) = some (u, .creating v read rows left) → v = u

/-- What the completion of `getAllList` for `user` needs when it writes into the rows,
and under the id, of the user `v`: an answer, one for the same user when it has lists,
and no default list stored or on its way when it has none. -/
def MayHandle (w : BothScreens) (v user : Nat) (reply : Option (List PlaceList)) : Prop :=
  reply ≠ none ∧ (reply = some [] → NoDefaults w.stores w.call v) ∧
    (reply ≠ some [] → v = user)

/-- The condition on an event: `reloadSearchView` finds rows of the signed-in user on
the panel, and the completions those that they may write to. -/
def Careful (w : BothScreens) : BothEvent → Prop
  | .map .reloadSearchView =>
    ∀ u, w.map.currentUser = some u → ∀ l ∈ w.map.lists, RowOf w.stores u l
  | .map (.handled user i) => ∀ v reply, w.map.userId = some v →
    w.map.request user i = some (.lists (.answered reply)) → w.MayHandle v user reply
  | .map (.completed user i) => ∀ v u read rows, w.map.userId = some v →
    w.map.request user i = some (.lists (.creating u read rows [])) → u = v
  | .handled k i => ∀ c reply, w.savedCall k i = some (c, .answered reply) →
    w.MayHandle c.userId c.userId reply
  | _ => True

end BothScreens

namespace BothLemmas

theorem request_congr {m m' : MapRows} (h : m'.requests = m.requests) (user i : Nat) :
    m'.request user i = m.request user i := by
  rw [MapRows.request, MapRows.request, h]

theorem call_congr {w w' : BothScreens} (hrequests : w'.map.requests = w.map.requests)
    (hsaved : w'.saved = w.saved) : w'.call = w.call := by
  funext p
  cases p with
  | map user i => simp only [BothScreens.call, request_congr hrequests]
  | saved k i => simp only [BothScreens.call, BothScreens.savedCall, hsaved]

/-- The new call is the last one of its user, and the others are as before. -/
theorem request_append_singleton {m m' : MapRows} {r : Request}
    (h : m'.requests = m.requests ++ [r]) (user i : Nat) :
    m'.request user i =
      if i = m.requests.length ∧ r.user = user then some r.call else m.request user i := by
  have hrequest := (request_congr (m := { m with requests := m.requests ++ [r] }) h user i).trans
    (request_append m [r] user i)
  rw [hrequest]
  by_cases hi : i < m.requests.length
  · rw [if_pos hi, if_neg fun hlast => hi.ne hlast.1]
  · have hnone : m.request user i = none := by
      simp [MapRows.request, List.getElem?_eq_none (Nat.le_of_not_lt hi)]
    rw [if_neg hi, hnone, List.getElem?_singleton]
    by_cases hlast : i = m.requests.length
    · simp [hlast]
    · have hpos : i - m.requests.length ≠ 0 := by omega
      simp [hlast, hpos]

/-- A query for the searches is no call of `retrieveLists`. -/
theorem call_append_searches {w t : BothScreens} {u : Nat} {q : Fetch (List Search)}
    (hrequests : t.map.requests = w.map.requests ++ [⟨u, .searches q⟩])
    (hsaved : t.saved = w.saved) : t.call = w.call := by
  funext p
  cases p with
  | map user i =>
    simp only [BothScreens.call, request_append_singleton hrequests]
    by_cases hlast : i = w.map.requests.length ∧ u = user
    · have hnone : w.map.request user i = none := by
        simp [MapRows.request, List.getElem?_eq_none hlast.1.ge]
      rw [if_pos hlast, hnone]
    · rw [if_neg hlast]
  | saved k i => simp only [BothScreens.call, BothScreens.savedCall, hsaved]

theorem call_append_lists {w t : BothScreens} {u : Nat} {r : Retrieval}
    (hrequests : t.map.requests = w.map.requests ++ [⟨u, .lists r⟩])
    (hsaved : t.saved = w.saved) :
    t.call = Function.update w.call (.map u w.map.requests.length) (some (u, r)) := by
  funext p
  cases p with
  | map user i =>
    simp only [BothScreens.call, request_append_singleton hrequests]
    by_cases hp : Position.map user i = .map u w.map.requests.length
    · obtain ⟨rfl, rfl⟩ := Position.map.inj hp
      rw [Function.update_self]
      simp
    · have hlast : ¬ (i = w.map.requests.length ∧ u = user) := by
        rintro ⟨rfl, rfl⟩
        exact hp rfl
      rw [Function.update_of_ne hp]
      simp only [hlast, if_false]
      rfl
  | saved k i =>
    rw [Function.update_of_ne (by simp)]
    simp only [BothScreens.call, BothScreens.savedCall, hsaved]

/-- A call of the map goes on. -/
theorem call_setRequest {w w' : BothScreens} {user i : Nat} {r₀ r : Retrieval}
    (hold : w.map.request user i = some (.lists r₀))
    (hrequests : w'.map.requests = (w.map.setRequest user i (.lists r)).requests)
    (hsaved : w'.saved = w.saved) :
    w'.call = Function.update w.call (.map user i) (some (user, r)) := by
  have hrequest := request_congr hrequests
  funext p
  cases p with
  | map u j =>
    by_cases hp : Position.map u j = .map user i
    · obtain ⟨rfl, rfl⟩ := Position.map.inj hp
      rw [Function.update_self]
      simp only [BothScreens.call, hrequest, request_setRequest hold, if_true]
    · rw [Function.update_of_ne hp]
      by_cases hu : u = user
      · have hj : j ≠ i := fun h => hp (by rw [hu, h])
        simp only [BothScreens.call, hrequest, request_setRequest hold, if_neg hj]
      · simp only [BothScreens.call, hrequest, request_setRequest_ne hold hu]
  | saved k j =>
    rw [Function.update_of_ne (by simp)]
    simp only [BothScreens.call, BothScreens.savedCall, hsaved]

theorem call_setRequest_searches {w w' : BothScreens} {user i : Nat} {q₀ q : Fetch (List Search)}
    (hold : w.map.request user i = some (.searches q₀))
    (hrequests : w'.map.requests = (w.map.setRequest user i (.searches q)).requests)
    (hsaved : w'.saved = w.saved) : w'.call = w.call := by
  have hrequest := request_congr hrequests
  funext p
  cases p with
  | map u j =>
    by_cases hu : u = user
    · by_cases hj : j = i
      · simp only [BothScreens.call, hrequest, request_setRequest hold, hj, hu, if_true, hold]
      · simp only [BothScreens.call, hrequest, request_setRequest hold, if_neg hj]
    · simp only [BothScreens.call, hrequest, request_setRequest_ne hold hu]
  | saved k j => simp only [BothScreens.call, BothScreens.savedCall, hsaved]

theorem savedCall_eq_some {w : BothScreens} {k i : Nat} {c : SavedScreen} {r : Retrieval} :
    w.savedCall k i = some (c, r) ↔ w.saved[k]? = some c ∧ c.calls[i]? = some r := by
  simp [BothScreens.savedCall, Option.bind_eq_some_iff, Option.map_eq_some_iff]

/-- A call of a saved screen goes on. -/
theorem call_setCall {w : BothScreens} {k i : Nat} {c₀ c : SavedScreen} {r₀ r : Retrieval}
    (hold : w.savedCall k i = some (c₀, r₀)) (huser : c.userId = c₀.userId)
    (hcalls : c.calls = c₀.calls) :
    (w.setCall k i c r).call = Function.update w.call (.saved k i) (some (c₀.userId, r)) := by
  obtain ⟨hc₀, hr₀⟩ := savedCall_eq_some.mp hold
  have hk : k < w.saved.length := (List.getElem?_eq_some_iff.mp hc₀).1
  have hi : i < c₀.calls.length := (List.getElem?_eq_some_iff.mp hr₀).1
  funext p
  cases p with
  | map u j => rw [Function.update_of_ne (by simp)]; rfl
  | saved k' j =>
    rcases eq_or_ne k' k with rfl | hk'
    · rcases eq_or_ne j i with rfl | hj
      · rw [Function.update_self]
        simp [BothScreens.call, BothScreens.savedCall, BothScreens.setCall, hk, hi, huser, hcalls]
      · rw [Function.update_of_ne (by simp [hj])]
        have hw : w.saved[k'] = c₀ := (List.getElem?_eq_some_iff.mp hc₀).2
        simp [BothScreens.call, BothScreens.savedCall, BothScreens.setCall, hk, hw, huser, hcalls,
          List.getElem?_set_ne (Ne.symm hj), Function.comp_def]
    · rw [Function.update_of_ne (by simp [hk'])]
      simp [BothScreens.call, BothScreens.savedCall, BothScreens.setCall,
        List.getElem?_set_ne (Ne.symm hk')]

/-- A new screen has made no call. -/
theorem call_pushSaved (w : BothScreens) (u : Nat) :
    ({ w with saved := w.saved ++ [⟨u, [], []⟩] } : BothScreens).call = w.call := by
  funext p
  cases p with
  | map user i => rfl
  | saved k i =>
    simp only [BothScreens.call, BothScreens.savedCall]
    by_cases hk : k < w.saved.length
    · rw [List.getElem?_append_left hk]
    · have hnone : w.saved[k]? = none := List.getElem?_eq_none (Nat.le_of_not_lt hk)
      rw [List.getElem?_append_right (Nat.le_of_not_lt hk), hnone, List.getElem?_singleton]
      split_ifs <;> rfl

theorem call_viewWillAppear {w : BothScreens} {k : Nat} {c : SavedScreen}
    (hc : w.saved[k]? = some c) :
    ({ w with saved := w.saved.set k { c with calls := c.calls ++ [.sent] } } : BothScreens).call =
      Function.update w.call (.saved k c.calls.length) (some (c.userId, .sent)) := by
  have hk : k < w.saved.length := (List.getElem?_eq_some_iff.mp hc).1
  funext p
  cases p with
  | map u j => rw [Function.update_of_ne (by simp)]; rfl
  | saved k' j =>
    rcases eq_or_ne k' k with rfl | hk'
    · rcases eq_or_ne j c.calls.length with rfl | hj
      · rw [Function.update_self]
        simp [BothScreens.call, BothScreens.savedCall, hk]
      · rw [Function.update_of_ne (by simp [hj])]
        simp only [BothScreens.call, BothScreens.savedCall, List.getElem?_set_self hk, hc,
          Option.bind_some, Option.map_map, Function.comp_def]
        by_cases hlt : j < c.calls.length
        · rw [List.getElem?_append_left hlt]
        · rw [List.getElem?_eq_none (by simp; omega), List.getElem?_eq_none (Nat.le_of_not_lt hlt)]
    · rw [Function.update_of_ne (by simp [hk'])]
      simp [BothScreens.call, BothScreens.savedCall, List.getElem?_set_ne (Ne.symm hk')]

/-- The invariant of the two screens. -/
structure Kept (w : BothScreens) : Prop where
  tidy : w.Tidy
  own : w.OwnDefaults

theorem kept_congr {w w' : BothScreens} (h : Kept w) (hstores : w'.stores = w.stores)
    (hcall : w'.call = w.call)
    (hmap : ∀ u, w'.map.userId = some u → ∀ l ∈ w'.map.lists, RowOf w.stores u l)
    (hsaved : ∀ c ∈ w'.saved, ∀ l ∈ c.lists, RowOf w.stores c.userId l) : Kept w' where
  tidy := {
    created := by rw [hstores, hcall]; exact h.tidy.created
    mapRows := by rw [hstores]; exact hmap
    savedRows := by rw [hstores]; exact hsaved }
  own k i u v read rows left := by rw [hcall]; exact h.own k i u v read rows left

/-- One call goes on, or is made. -/
theorem kept_update {w w' : BothScreens} (h : Kept w) {p : Position} {u : Nat} {r : Retrieval}
    (hcall : w'.call = Function.update w.call p (some (u, r)))
    (hcreated : CreatedOnce w'.stores (Function.update w.call p (some (u, r))))
    (hown : p.isSaved = true → ∀ v read rows left, r = .creating v read rows left → v = u)
    (hmap : ∀ u, w'.map.userId = some u → ∀ l ∈ w'.map.lists, RowOf w'.stores u l)
    (hsaved : ∀ c ∈ w'.saved, ∀ l ∈ c.lists, RowOf w'.stores c.userId l) : Kept w' where
  tidy := {
    created := by rw [hcall]; exact hcreated
    mapRows := hmap
    savedRows := hsaved }
  own k i u' v read rows left hki := by
    rw [hcall] at hki
    rcases eq_or_ne (Position.saved k i) p with rfl | hp
    · rw [Function.update_self] at hki
      obtain ⟨rfl, rfl⟩ := Prod.mk.inj (Option.some.inj hki)
      exact hown rfl v read rows left rfl
    · rw [Function.update_of_ne hp] at hki
      exact h.own k i u' v read rows left hki

/-- Rows of the signed-in user, which an answered call of that user brings, or none. -/
theorem rowOf_handled {w : BothScreens} (h : Kept w) {p : Position} {u v : Nat}
    {reply : Option (List PlaceList)} (hp : w.call p = some (u, .answered reply))
    (hsame : reply ≠ some [] → v = u) {allLists : List PlaceList} {r' : Retrieval}
    (hhandle : (Retrieval.answered reply).handle (some v) = some (allLists, r')) :
    ∀ l ∈ allLists, RowOf w.stores v l := by
  intro l hl
  have hsound := h.tidy.created.sound p u _ hp
  unfold Retrieval.handle at hhandle
  cases reply with
  | none =>
    obtain ⟨rfl, -⟩ := Prod.mk.inj (Option.some.inj hhandle)
    cases hl
  | some lists =>
    cases lists with
    | nil =>
      obtain ⟨rfl, -⟩ := Prod.mk.inj (Option.some.inj hhandle)
      cases hl
    | cons l' rest =>
      obtain ⟨rfl, -⟩ := Prod.mk.inj (Option.some.inj hhandle)
      rw [hsame (by simp)]
      exact hsound l hl

theorem answered_of_handle {r r' : Retrieval} {v : Option Nat} {allLists : List PlaceList}
    (h : r.handle v = some (allLists, r')) : ∃ reply, r = .answered reply := by
  cases r <;> simp only [Retrieval.handle, reduceCtorEq] at h
  exact ⟨_, rfl⟩

/-- A write of one call changes the lists of one user, and the rows on screen stay
stored. -/
theorem stores_update {w w' : BothScreens} {v : Nat} {title : String}
    (haccounts : w'.map.accounts = Function.update w.map.accounts v
      { w.map.accounts v with store := (Write.addList title).apply (w.map.accounts v).store }) :
    w'.stores = Function.update w.stores v ((Write.addList title).apply (w.stores v)) := by
  funext u
  unfold BothScreens.stores
  rw [haccounts]
  rcases eq_or_ne u v with rfl | hu
  · rw [Function.update_self, Function.update_self]
  · rw [Function.update_of_ne hu, Function.update_of_ne hu]

theorem call_map {w : BothScreens} {user i : Nat} {r : Retrieval}
    (h : w.map.request user i = some (.lists r)) : w.call (.map user i) = some (user, r) := by
  simp only [BothScreens.call, h]

theorem call_saved {w : BothScreens} {k i : Nat} {c : SavedScreen} {r : Retrieval}
    (h : w.savedCall k i = some (c, r)) : w.call (.saved k i) = some (c.userId, r) := by
  simp only [BothScreens.call, h, Option.map_some]

/-- A recent search is no list. -/
theorem addSearchToDb_frame (m : MapRows) :
    (∀ u, (m.addSearchToDb.accounts u).store = (m.accounts u).store) ∧
      m.addSearchToDb.requests = m.requests ∧ m.addSearchToDb.userId = m.userId ∧
      m.addSearchToDb.lists = m.lists := by
  rcases addSearchToDb_cases m with ⟨hsame, -⟩ | ⟨v, -, -, hadded⟩
  · rw [hsame]
    exact ⟨fun _ => rfl, rfl, rfl, rfl⟩
  · rw [hadded]
    refine ⟨fun u => ?_, rfl, rfl, rfl⟩
    dsimp only
    rcases eq_or_ne u v with rfl | hu
    · rw [Function.update_self]
    · rw [Function.update_of_ne hu]

/-- A step of the panel of the map. -/
theorem kept_map {w : BothScreens} {m : MapRows} {e : RowsEvent} (h : Kept w)
    (hok : w.Careful (.map e)) (hstep : rowsStep w.map e = some m) : Kept { w with map := m } := by
  cases e with
  | signIn user =>
    obtain ⟨-, hm⟩ := Option.ite_none_right_eq_some.mp hstep
    obtain rfl := Option.some.inj hm
    exact kept_congr h rfl rfl h.tidy.mapRows h.tidy.savedRows
  | logout =>
    obtain ⟨-, hm⟩ := Option.ite_none_right_eq_some.mp hstep
    obtain rfl := Option.some.inj hm
    have hlogout : w.map.logout = { w.map with
        currentUser := none, searches := [], userId := none, lists := getDefaultList } :=
      reloadSearchView_none rfl
    rw [hlogout]
    exact kept_congr h rfl rfl (fun u hu => by cases hu) h.tidy.savedRows
  | reloadSearchView =>
    obtain rfl := Option.some.inj hstep
    cases hcurrent : w.map.currentUser with
    | none =>
      rw [reloadSearchView_none hcurrent]
      exact kept_congr h rfl rfl (fun u hu => by cases hu) h.tidy.savedRows
    | some u =>
      rw [reloadSearchView_some hcurrent]
      have hsearches := call_append_searches (w := w) (u := u) (q := .sent)
        (t := { w with map := { w.map with
          requests := w.map.requests ++ [⟨u, .searches .sent⟩] } }) rfl rfl
      have hcall := call_append_lists (u := u) (r := .sent)
        (w := { w with map := { w.map with
          requests := w.map.requests ++ [⟨u, .searches .sent⟩] } })
        (t := { w with map := { w.map with
          userId := some u
          requests := w.map.requests ++ [⟨u, .searches .sent⟩, ⟨u, .lists .sent⟩] } })
        (by simp) rfl
      rw [hsearches] at hcall
      refine kept_update h hcall (created_sent h.tidy.created _ u) nofun ?_ h.tidy.savedRows
      intro v hv
      obtain rfl := Option.some.inj hv
      exact hok u hcurrent
  | retrieveLists =>
    obtain ⟨u, hu, rfl⟩ := Option.map_eq_some_iff.mp hstep
    exact kept_update h (call_append_lists rfl rfl) (created_sent h.tidy.created _ u) nofun
      h.tidy.mapRows h.tidy.savedRows
  | searchItems text =>
    obtain rfl := Option.some.inj hstep
    exact kept_congr h rfl rfl h.tidy.mapRows h.tidy.savedRows
  | tappedSearch row =>
    obtain ⟨search, -, rfl⟩ := Option.map_eq_some_iff.mp hstep
    exact kept_congr h rfl rfl h.tidy.mapRows h.tidy.savedRows
  | addSearchToDb =>
    obtain ⟨-, hm⟩ := Option.ite_none_left_eq_some.mp hstep
    obtain rfl := Option.some.inj hm
    obtain ⟨hstores, hrequests, huser, hlists⟩ :=
      addSearchToDb_frame { w.map with recordBlocks := w.map.recordBlocks - 1 }
    refine kept_congr h ?_ (call_congr hrequests rfl) ?_ h.tidy.savedRows
    · funext u
      exact hstores u
    · dsimp only
      rw [huser, hlists]
      exact h.tidy.mapRows
  | answered user i ok =>
    rcases rowsStep_answered hstep with ⟨r, reply, hr, hreply, rfl⟩ | ⟨q, q', hq, -, rfl⟩
    · refine kept_update h (call_setRequest hr rfl rfl) ?_ nofun h.tidy.mapRows h.tidy.savedRows
      exact created_answer h.tidy.created _ hreply
    · exact kept_congr h rfl (call_setRequest_searches hq rfl rfl) h.tidy.mapRows h.tidy.savedRows
  | handled user i =>
    rcases rowsStep_handled hstep with ⟨r, allLists, r', hr, hhandle, rfl⟩ | ⟨reply, hq, rfl⟩
    · obtain ⟨reply, rfl⟩ := answered_of_handle hhandle
      cases huser : w.map.userId with
      | none =>
        rw [huser] at hhandle
        refine kept_update h (call_setRequest hr rfl rfl) ?_ nofun ?_ h.tidy.savedRows
        · rcases handle_cases hhandle with rfl | ⟨u, read, hu, -⟩
          · exact created_update h.tidy.created _ trivial fun _ hc => hc.elim
          · cases hu
        · intro u hu
          cases huser.symm.trans hu
      | some v =>
        obtain ⟨hanswered, hempty, hsame⟩ := hok v reply huser hr
        rw [huser] at hhandle
        refine kept_update h (call_setRequest hr rfl rfl) ?_ nofun ?_ h.tidy.savedRows
        · exact created_handle h.tidy.created hanswered hempty hhandle
        · intro u hu l hl
          obtain rfl := Option.some.inj (huser.symm.trans hu)
          rw [mem_sortedByTitle] at hl
          split at hl
          · exact rowOf_handled h (call_map hr) hsame hhandle l hl
          · exact h.tidy.mapRows v huser l hl
    · exact kept_congr h rfl (call_setRequest_searches hq rfl rfl) h.tidy.mapRows h.tidy.savedRows
  | written user i =>
    obtain ⟨r, accounts, r', hr, hwrite, rfl⟩ := rowsStep_written hstep
    obtain ⟨v, read, rows, title, left, rfl, rfl, rfl⟩ := write_cases hwrite
    refine kept_update h (call_setRequest hr rfl rfl) ?_ nofun ?_ ?_
    · rw [stores_update rfl]
      exact created_write h.tidy.created (call_map hr)
    · intro u hu l hl
      rw [stores_update rfl]
      exact rowOf_update (h.tidy.mapRows u hu l hl) v title
    · intro c hc l hl
      rw [stores_update rfl]
      exact rowOf_update (h.tidy.savedRows c hc l hl) v title
  | completed user i =>
    obtain ⟨r, rows, r', hr, hcomplete, rfl⟩ := rowsStep_completed hstep
    refine kept_update h (call_setRequest hr rfl rfl) ?_ nofun ?_ h.tidy.savedRows
    · exact created_complete h.tidy.created hcomplete
    · obtain ⟨rfl, v, read, rfl⟩ := complete_cases hcomplete
      intro u hu l hl
      rcases List.mem_append.mp hl with hl | hl
      · exact h.tidy.mapRows u hu l hl
      · obtain rfl := hok u v read rows hu hr
        exact (h.tidy.created.sound _ _ _ (call_map hr)).2.1 l hl

theorem mem_setCall {w : BothScreens} {k i : Nat} {c c' : SavedScreen} {r : Retrieval}
    (h : c' ∈ (w.setCall k i c r).saved) :
    c' ∈ w.saved ∨ c' = { c with calls := c.calls.set i r } :=
  List.mem_or_eq_of_mem_set h

theorem sound_bothStep {w w' : BothScreens} {e : BothEvent} (h : Kept w) (hok : w.Careful e)
    (hstep : bothStep w e = some w') : Kept w' := by
  cases e with
  | map e =>
    obtain ⟨m, hm, rfl⟩ := Option.map_eq_some_iff.mp hstep
    exact kept_map h hok hm
  | pushSaved =>
    obtain ⟨u, -, rfl⟩ := Option.map_eq_some_iff.mp hstep
    refine kept_congr h rfl (call_pushSaved w u) h.tidy.mapRows fun c hc l hl => ?_
    rcases List.mem_append.mp hc with hc | hc
    · exact h.tidy.savedRows c hc l hl
    · obtain rfl := List.mem_singleton.mp hc
      cases hl
  | viewWillAppear k =>
    obtain ⟨c, hc, rfl⟩ := Option.map_eq_some_iff.mp hstep
    refine kept_update h (call_viewWillAppear hc) (created_sent h.tidy.created _ c.userId) nofun
      h.tidy.mapRows fun c' hc' l hl => ?_
    rcases List.mem_or_eq_of_mem_set hc' with hc' | rfl
    · exact h.tidy.savedRows c' hc' l hl
    · exact h.tidy.savedRows c (List.mem_of_getElem? hc) l hl
  | answered k i ok =>
    obtain ⟨⟨c, r⟩, hcall, hnext⟩ := Option.bind_eq_some_iff.mp hstep
    obtain ⟨r', hanswer, rfl⟩ := Option.map_eq_some_iff.mp hnext
    have hc : c ∈ w.saved := List.mem_of_getElem? (savedCall_eq_some.mp hcall).1
    refine kept_update h (call_setCall hcall rfl rfl) (created_answer h.tidy.created _ hanswer) ?_
      h.tidy.mapRows fun c' hc' l hl => ?_
    · obtain ⟨reply, rfl⟩ := answer_cases hanswer
      nofun
    · rcases mem_setCall hc' with hc' | rfl
      · exact h.tidy.savedRows c' hc' l hl
      · exact h.tidy.savedRows c hc l hl
  | handled k i =>
    obtain ⟨⟨c, r⟩, hcall, hnext⟩ := Option.bind_eq_some_iff.mp hstep
    obtain ⟨⟨allLists, r'⟩, hhandle, rfl⟩ := Option.map_eq_some_iff.mp hnext
    obtain ⟨reply, rfl⟩ := answered_of_handle hhandle
    obtain ⟨hanswered, hempty, hsame⟩ := hok c reply hcall
    have hc : c ∈ w.saved := List.mem_of_getElem? (savedCall_eq_some.mp hcall).1
    refine kept_update h (call_setCall hcall rfl rfl)
      (created_handle h.tidy.created hanswered hempty hhandle) (fun _ => ?_)
      h.tidy.mapRows fun c' hc' l hl => ?_
    · rintro v read rows left rfl
      rcases handle_cases hhandle with hdone | ⟨u, read', hu, hcreating⟩
      · cases hdone
      · obtain rfl := Option.some.inj hu
        exact (Retrieval.creating.inj hcreating).1
    · rcases mem_setCall hc' with hc' | rfl
      · exact h.tidy.savedRows c' hc' l hl
      · dsimp only at hl
        split at hl
        · exact rowOf_handled h (call_saved hcall) hsame hhandle l (mem_sortedByTitle.mp hl)
        · exact h.tidy.savedRows c hc l hl
  | written k i =>
    obtain ⟨⟨c, r⟩, hcall, hnext⟩ := Option.bind_eq_some_iff.mp hstep
    obtain ⟨⟨accounts, r'⟩, hwrite, rfl⟩ := Option.map_eq_some_iff.mp hnext
    obtain ⟨v, read, rows, title, left, rfl, rfl, rfl⟩ := write_cases hwrite
    have hc : c ∈ w.saved := List.mem_of_getElem? (savedCall_eq_some.mp hcall).1
    refine kept_update h ((call_congr rfl rfl).trans (call_setCall hcall rfl rfl)) ?_ (fun _ => ?_)
      (fun u hu l hl => ?_) fun c' hc' l hl => ?_
    · rw [stores_update rfl]
      exact created_write h.tidy.created (call_saved hcall)
    · rintro v' read' rows' left' hcreating
      obtain ⟨rfl, -⟩ := Retrieval.creating.inj hcreating
      exact h.own k i c.userId _ _ _ _ (call_saved hcall)
    · rw [stores_update rfl]
      exact rowOf_update (h.tidy.mapRows u hu l hl) v title
    · rw [stores_update rfl]
      rcases mem_setCall hc' with hc' | rfl
      · exact rowOf_update (h.tidy.savedRows c' hc' l hl) v title
      · exact rowOf_update (h.tidy.savedRows c hc l hl) v title
  | completed k i =>
    obtain ⟨⟨c, r⟩, hcall, hnext⟩ := Option.bind_eq_some_iff.mp hstep
    obtain ⟨⟨rows, r'⟩, hcomplete, rfl⟩ := Option.map_eq_some_iff.mp hnext
    have hc : c ∈ w.saved := List.mem_of_getElem? (savedCall_eq_some.mp hcall).1
    refine kept_update h (call_setCall hcall rfl rfl) (created_complete h.tidy.created hcomplete) ?_
      h.tidy.mapRows fun c' hc' l hl => ?_
    · obtain ⟨rfl, -⟩ := complete_cases hcomplete
      nofun
    · obtain ⟨-, v, read, rfl⟩ := complete_cases hcomplete
      rcases mem_setCall hc' with hc' | rfl
      · exact h.tidy.savedRows c' hc' l hl
      · rcases List.mem_append.mp (mem_sortedByTitle.mp hl) with hl | hl
        · exact h.tidy.savedRows c hc l hl
        · obtain rfl := h.own k i c.userId v read rows [] (call_saved hcall)
          exact (h.tidy.created.sound _ _ _ (call_saved hcall)).2.1 l hl

end BothLemmas

open BothLemmas

/-! ## 3. Runs -/

theorem kept_launch {accounts : Nat → UserData}
    (haccounts : ∀ u i j t, t ∈ defaultTitles → Titled (accounts u).store i t →
      Titled (accounts u).store j t → i = j) (currentUser : Option Nat) :
    Kept ⟨.launch accounts currentUser, []⟩ := by
  have hnone : ∀ p, (⟨.launch accounts currentUser, []⟩ : BothScreens).call p = none := by
    intro p
    cases p with
    | map u i => simp [BothScreens.call, MapRows.request, MapRows.launch]
    | saved k i => simp [BothScreens.call, BothScreens.savedCall]
  refine ⟨⟨⟨haccounts, ?_, ?_⟩, ?_, ?_⟩, ?_⟩
  · intro p u r hp
    cases (hnone p).symm.trans hp
  · intro p q u u' r r' v hp
    cases (hnone p).symm.trans hp
  · intro u hu
    cases hu
  · intro c hc
    cases hc
  · intro k i u v read rows left hp
    cases (hnone (.saved k i)).symm.trans hp

/-- The app starts with each default title at most once in every account. When every
completion finds what it may write to, the default titles stay so, default lists are
only written after an answer, and the rows that a signed-in user sees are those of
stored lists of that user. -/
theorem defaults_created_once (accounts : Nat → UserData)
    (haccounts : ∀ u i j t, t ∈ defaultTitles → Titled (accounts u).store i t →
      Titled (accounts u).store j t → i = j) (currentUser : Option Nat) (es : List BothEvent)
    (hok : Machine.Meets bothStep BothScreens.Careful ⟨.launch accounts currentUser, []⟩ es)
    (w : BothScreens)
    (hrun : Machine.run bothStep ⟨.launch accounts currentUser, []⟩ es = some w) :
    (∀ u i j t, t ∈ defaultTitles → Titled (w.stores u) i t → Titled (w.stores u) j t → i = j) ∧
    (∀ p u v read rows left, w.call p = some (u, .creating v read rows left) → read = true) ∧
    (∀ u, w.map.userId = some u → ∀ l ∈ w.map.lists, RowOf w.stores u l) ∧
    ∀ c ∈ w.saved, ∀ l ∈ c.lists, RowOf w.stores c.userId l := by
  have hkept := Machine.run_invariant (fun _ _ _ h hok hstep => sound_bothStep h hok hstep)
    (kept_launch haccounts currentUser) hok hrun
  refine ⟨hkept.tidy.created.titles, ?_, hkept.tidy.mapRows, hkept.tidy.savedRows⟩
  intro p u v read rows left hp
  exact (hkept.tidy.created.sound p u _ hp).1

/-- Nothing is stored for anybody. -/
def exNewAccounts : Nat → UserData := fun _ => ⟨.empty, .empty⟩

/-- The map asks for the lists of a new user, and adds the first default list. -/
def exFirstStart : List BothEvent :=
  [.map .reloadSearchView, .map (.answered 0 1 true), .map (.handled 0 1), .map (.written 0 1)]

theorem meets_exFirstStart :
    Machine.Meets bothStep BothScreens.Careful ⟨.launch exNewAccounts (some 0), []⟩
      exFirstStart := by
  refine ⟨fun u _ l hl => (nomatch hl), trivial, ?_, trivial, trivial⟩
  intro v reply hv hreply
  obtain rfl : some [] = reply :=
    Retrieval.answered.inj (Call.lists.inj (Option.some.inj hreply))
  obtain rfl : 0 = v := Option.some.inj hv
  refine ⟨by simp, fun _ => ⟨fun t _ ht => ?_, fun p u r hp => ?_⟩, fun h => absurd rfl h⟩
  · obtain ⟨i, d, hd, -⟩ := ht
    cases hd
  · -- the call of the map is the only one
    rcases p with ⟨_ | user, _ | _ | i⟩ | ⟨k, i⟩
    case map.zero.succ.zero =>
      cases hp
      exact id
    all_goals cases hp

theorem defaults_created_once_new : ∃ w : BothScreens,
    Machine.run bothStep ⟨.launch exNewAccounts (some 0), []⟩ exFirstStart = some w ∧
    (∀ u i j t, t ∈ defaultTitles → Titled (w.stores u) i t → Titled (w.stores u) j t → i = j) ∧
    (∀ p u v read rows left, w.call p = some (u, .creating v read rows left) → read = true) ∧
    (∀ u, w.map.userId = some u → ∀ l ∈ w.map.lists, RowOf w.stores u l) ∧
    ∀ c ∈ w.saved, ∀ l ∈ c.lists, RowOf w.stores c.userId l :=
  ⟨_, rfl, defaults_created_once exNewAccounts (fun _ _ _ _ _ h => (nomatch h)) (some 0)
    exFirstStart meets_exFirstStart _ rfl⟩

/-- Both screens ask for the lists of a new user before either has added any. -/
theorem both_screens_add_defaults :
    ¬ ∀ (accounts : Nat → UserData) (currentUser : Option Nat) (es : List BothEvent)
        (w : BothScreens), (∀ u i j t, t ∈ defaultTitles → Titled (accounts u).store i t →
          Titled (accounts u).store j t → i = j) →
      Machine.run bothStep ⟨.launch accounts currentUser, []⟩ es = some w →
      ∀ u i j t, t ∈ defaultTitles → Titled (w.stores u) i t → Titled (w.stores u) j t →
        i = j := by
  intro hall
  have hunique := hall exNewAccounts (some 0)
    [.map .reloadSearchView, .pushSaved, .viewWillAppear 0, .map (.answered 0 1 true),
      .answered 0 0 true, .map (.handled 0 1), .handled 0 0, .map (.written 0 1), .written 0 0] _
    (fun _ _ _ _ _ h => (nomatch h)) rfl
  have hequal : (0 : Nat) = 1 :=
    hunique 0 0 1 "Favourite" (by decide) ⟨_, rfl, rfl⟩ ⟨_, rfl, rfl⟩
  exact absurd hequal (by decide)

end LocateMe
