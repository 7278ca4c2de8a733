import LocateMe.MapRows

/-!
# Logging out

`logout` empties the panel, but the calls made for the account that is logged out
are still answered: their completions write into the panel of the next user, and
`addDefaultLists` and `addSearchToDb` go to the account of that one.

Results:
1. `sameOutside_hidden`: an event of a call of one account changes nothing that
   others see, when its completion finds that account's user.
2. `sameOutside_visible`: any other event does the same in two worlds that differ
   in one account only.
3. `logout_isolates`: in runs whose completions all find the user that their call
   was made for, nobody else ever sees what depends on an account.
-/

namespace LocateMe

open Documents RowsLemmas

/-! ## 1. The condition -/

/-- The event belongs to a call that was made for this user. -/
def RowsEvent.concerns (user : Nat) : RowsEvent → Bool
  | .answered u _ _ => u == user
  | .handled u _ => u == user
  | .written u _ => u == user
  | .completed u _ => u == user
  | _ => false

/-- A completion finds the user that its call was made for, and `addSearchToDb` no
text that the user of another account has set. -/
def MapRows.OwnReply (w : MapRows) : RowsEvent → Prop
  | .handled user _ => w.userId = some user
  | .completed user _ => w.userId = some user
  | .addSearchToDb => w.userId = none ∨ w.textBy = none ∨ w.textBy = w.userId
  | .signIn _ => True
  | .logout => True
  | .reloadSearchView => True
  | .retrieveLists => True
  | .searchItems _ => True
  | .tappedSearch _ => True
  | .answered _ _ _ => True
  | .written _ _ => True

instance (w : MapRows) : DecidablePred w.OwnReply
  | .handled user _ => inferInstanceAs (Decidable (w.userId = some user))
  | .completed user _ => inferInstanceAs (Decidable (w.userId = some user))
  | .addSearchToDb =>
    inferInstanceAs (Decidable (w.userId = none ∨ w.textBy = none ∨ w.textBy = w.userId))
  | .signIn _ => .isTrue trivial
  | .logout => .isTrue trivial
  | .reloadSearchView => .isTrue trivial
  | .retrieveLists => .isTrue trivial
  | .searchItems _ => .isTrue trivial
  | .tappedSearch _ => .isTrue trivial
  | .answered _ _ _ => .isTrue trivial
  | .written _ _ => .isTrue trivial

/-! ## 2. Two worlds -/

/-- The panel is that of the current user or of a visitor, and default lists are made
for the user of the call. -/
structure MapRows.Sound (w : MapRows) : Prop where
  session : w.userId = none ∨ w.userId = w.currentUser
  creates : ∀ i user u read rows left,
    w.request user i = some (.lists (.creating u read rows left)) → u = user

/-- Two worlds that are the same to everybody but one user. -/
structure SameOutside (user : Nat) (w v : MapRows) : Prop where
  accounts : ∀ u, u ≠ user → w.accounts u = v.accounts u
  currentUser : w.currentUser = v.currentUser
  userId : w.userId = v.userId
  rows : w.userId ≠ some user → w.lists = v.lists ∧ w.searches = v.searches
  textBy : w.textBy = v.textBy
  text : w.textBy ≠ some user → w.searchText = v.searchText
  recordBlocks : w.recordBlocks = v.recordBlocks
  length : w.requests.length = v.requests.length
  requests : ∀ u i, u ≠ user → w.request u i = v.request u i

namespace LogoutLemmas

theorem sameOutside_symm {user : Nat} {w v : MapRows} (h : SameOutside user w v) :
    SameOutside user v w where
  accounts u hu := (h.accounts u hu).symm
  currentUser := h.currentUser.symm
  userId := h.userId.symm
  rows hne := by
    obtain ⟨hlists, hsearches⟩ := h.rows (h.userId ▸ hne)
    exact ⟨hlists.symm, hsearches.symm⟩
  textBy := h.textBy.symm
  text hne := (h.text (h.textBy ▸ hne)).symm
  recordBlocks := h.recordBlocks.symm
  length := h.length.symm
  requests u i hu := (h.requests u i hu).symm

theorem sameOutside_append {user : Nat} {w v : MapRows} (h : SameOutside user w v)
    (rs : List Request) : SameOutside user { w with requests := w.requests ++ rs }
      { v with requests := v.requests ++ rs } :=
  { h with
    length := by simp [h.length]
    requests := fun u i hu => by
      rw [request_append, request_append, h.length, h.requests u i hu] }

/-- One world alone changes a call of that user. -/
theorem sameOutside_setRequest_left {user : Nat} {w v : MapRows} (h : SameOutside user w v)
    {i : Nat} {old : Call} (hold : w.request user i = some old) (call : Call) :
    SameOutside user (w.setRequest user i call) v :=
  { h with
    length := by simpa [MapRows.setRequest] using h.length
    requests := fun u j hu => by rw [request_setRequest_ne hold hu, h.requests u j hu] }

/-- Both change a call in the same way. -/
theorem sameOutside_setRequest {user : Nat} {w v : MapRows} (h : SameOutside user w v)
    {u i : Nat} {old old' : Call} (hold : w.request u i = some old)
    (hold' : v.request u i = some old') (call : Call) :
    SameOutside user (w.setRequest u i call) (v.setRequest u i call) :=
  { h with
    length := by simpa [MapRows.setRequest] using h.length
    requests := fun u' j hu => by
      rw [request_setRequest hold, request_setRequest hold', h.requests u' j hu] }

theorem sound_setRequest {w : MapRows} (hw : w.Sound) {user i : Nat} {old call : Call}
    (hold : w.request user i = some old)
    (hcall : ∀ u read rows left, call = .lists (.creating u read rows left) → u = user) :
    (w.setRequest user i call).Sound where
  session := hw.session
  creates j user' u read rows left h := by
    rw [request_setRequest hold] at h
    split at h
    · obtain ⟨rfl, hcreating⟩ := Option.ite_none_right_eq_some.mp h
      exact hcall u read rows left (Option.some.inj hcreating)
    · exact hw.creates j user' u read rows left h

theorem sound_append {w : MapRows} (hw : w.Sound) (rs : List Request)
    (hrs : ∀ r ∈ rs, r.call = .searches .sent ∨ r.call = .lists .sent) :
    { w with requests := w.requests ++ rs }.Sound where
  session := hw.session
  creates i user u read rows left h := by
    rw [request_append] at h
    split at h
    · exact hw.creates i user u read rows left h
    · obtain ⟨r, hr, hcall⟩ := Option.bind_eq_some_iff.mp h
      obtain ⟨-, hcreating⟩ := Option.ite_none_right_eq_some.mp hcall
      have hcall' := Option.some.inj hcreating
      rcases hrs r (List.mem_of_getElem? hr) with h' | h'
      · rw [h'] at hcall'
        cases hcall'
      · rw [h'] at hcall'
        cases hcall'

theorem sound_reloadSearchView {w : MapRows} (hw : w.Sound) : w.reloadSearchView.Sound := by
  cases hcurrent : w.currentUser with
  | none =>
    rw [reloadSearchView_none hcurrent]
    exact ⟨.inl rfl, hw.creates⟩
  | some u =>
    have happend := sound_append hw [⟨u, .searches .sent⟩, ⟨u, .lists .sent⟩] (by simp)
    rw [reloadSearchView_some hcurrent]
    exact ⟨.inr hcurrent.symm, happend.creates⟩

theorem sound_step {w w' : MapRows} {e : RowsEvent} (hw : w.Sound) (hok : w.OwnReply e)
    (hstep : rowsStep w e = some w') : w'.Sound := by
  cases e with
  | signIn user =>
    obtain ⟨hnone, hsigned⟩ := Option.ite_none_right_eq_some.mp hstep
    obtain rfl := Option.some.inj hsigned
    refine ⟨.inl ?_, hw.creates⟩
    rcases hw.session with h | h
    · exact h
    · exact h.trans (Option.isNone_iff_eq_none.mp hnone)
  | logout =>
    obtain ⟨-, hlogout⟩ := Option.ite_none_right_eq_some.mp hstep
    obtain rfl := Option.some.inj hlogout
    exact ⟨.inl rfl, hw.creates⟩
  | reloadSearchView =>
    obtain rfl := Option.some.inj hstep
    exact sound_reloadSearchView hw
  | retrieveLists =>
    obtain ⟨u, -, rfl⟩ := Option.map_eq_some_iff.mp hstep
    exact sound_append hw _ (by simp)
  | searchItems text =>
    obtain rfl := Option.some.inj hstep
    exact ⟨hw.session, hw.creates⟩
  | tappedSearch row =>
    obtain ⟨search, -, rfl⟩ := Option.map_eq_some_iff.mp hstep
    exact ⟨hw.session, hw.creates⟩
  | addSearchToDb =>
    obtain ⟨-, hadded⟩ := Option.ite_none_left_eq_some.mp hstep
    obtain rfl := Option.some.inj hadded
    rcases addSearchToDb_cases { w with recordBlocks := w.recordBlocks - 1 } with
      ⟨hsame, -⟩ | ⟨user, -, -, hstored⟩
    · rw [hsame]
      exact ⟨hw.session, hw.creates⟩
    · rw [hstored]
      exact ⟨hw.session, hw.creates⟩
  | answered user i ok =>
    rcases rowsStep_answered hstep with ⟨r, reply, hr, -, rfl⟩ | ⟨q, q', hq, -, rfl⟩
    · exact sound_setRequest hw hr (by simp)
    · exact sound_setRequest hw hq (by simp)
  | handled user i =>
    rcases rowsStep_handled hstep with ⟨r, allLists, r', hr, hr', rfl⟩ | ⟨reply, hreply, rfl⟩
    · have hset : (w.setRequest user i (.lists r')).Sound := by
        refine sound_setRequest hw hr fun u read rows left h => ?_
        obtain rfl := Call.lists.inj h
        rcases handle_cases hr' with hdone | ⟨u', read', hu', hcreating⟩
        · cases hdone
        · obtain ⟨rfl, -⟩ := Retrieval.creating.inj hcreating
          exact Option.some.inj (hu'.symm.trans hok)
      exact ⟨hset.session, hset.creates⟩
    · have hset : (w.setRequest user i (.searches (.handled reply.isSome))).Sound :=
        sound_setRequest hw hreply (by simp)
      exact ⟨hset.session, hset.creates⟩
  | written user i =>
    obtain ⟨r, accounts, r', hr, hr', rfl⟩ := rowsStep_written hstep
    obtain ⟨u, read, rows, title, left, rfl, rfl, rfl⟩ := write_cases hr'
    have hu := hw.creates i user u read rows (title :: left) hr
    have hset : (w.setRequest user i (.lists (.creating u read
        (rows ++ [defaultRow title (listDocumentId u (w.accounts u).store.lists.next)])
          left))).Sound := by
      refine sound_setRequest hw hr fun u' _ _ _ h => ?_
      obtain ⟨rfl, -⟩ := Retrieval.creating.inj (Call.lists.inj h)
      exact hu
    exact ⟨hset.session, hset.creates⟩
  | completed user i =>
    obtain ⟨r, rows, r', hr, hr', rfl⟩ := rowsStep_completed hstep
    obtain ⟨rfl, -⟩ := complete_cases hr'
    have hset : (w.setRequest user i (.lists .done)).Sound := sound_setRequest hw hr (by simp)
    exact ⟨hset.session, hset.creates⟩

/-! ## 3. One event -/

/-- An event of a call of the one user, in one of the worlds. -/
theorem sameOutside_hidden {user : Nat} {w v w' : MapRows} {e : RowsEvent}
    (h : SameOutside user w v) (hw : w.Sound) (he : e.concerns user = true) (hok : w.OwnReply e)
    (hstep : rowsStep w e = some w') : SameOutside user w' v := by
  cases e with
  | answered u i ok =>
    obtain rfl : u = user := beq_iff_eq.mp he
    rcases rowsStep_answered hstep with ⟨r, reply, hr, -, rfl⟩ | ⟨q, q', hq, -, rfl⟩
    · exact sameOutside_setRequest_left h hr _
    · exact sameOutside_setRequest_left h hq _
  | handled u i =>
    obtain rfl : u = user := beq_iff_eq.mp he
    have hrows : ∀ {P : Prop}, w.userId ≠ some u → P := fun hne => absurd hok hne
    rcases rowsStep_handled hstep with ⟨r, allLists, r', hr, -, rfl⟩ | ⟨reply, hreply, rfl⟩
    · exact { sameOutside_setRequest_left h hr (.lists r') with rows := hrows }
    · exact { sameOutside_setRequest_left h hreply (.searches (.handled reply.isSome)) with
        rows := hrows }
  | written u i =>
    obtain rfl : u = user := beq_iff_eq.mp he
    obtain ⟨r, accounts, r', hr, hr', rfl⟩ := rowsStep_written hstep
    obtain ⟨u', read, rows, title, left, rfl, rfl, rfl⟩ := write_cases hr'
    obtain rfl := hw.creates i u u' read rows (title :: left) hr
    exact { sameOutside_setRequest_left h hr _ with
      accounts := fun a ha => by rw [← h.accounts a ha]; exact Function.update_of_ne ha _ _ }
  | completed u i =>
    obtain rfl : u = user := beq_iff_eq.mp he
    obtain ⟨r, rows, r', hr, -, rfl⟩ := rowsStep_completed hstep
    exact { sameOutside_setRequest_left h hr (.lists r') with rows := fun hne => absurd hok hne }
  | signIn u => cases he
  | logout => cases he
  | reloadSearchView => cases he
  | retrieveLists => cases he
  | searchItems text => cases he
  | tappedSearch row => cases he
  | addSearchToDb => cases he

theorem sameOutside_reloadSearchView {user : Nat} {w v : MapRows} (h : SameOutside user w v)
    (hrows : w.currentUser ≠ some user → w.searches = v.searches ∧
      (w.currentUser ≠ none → w.lists = v.lists)) :
    SameOutside user w.reloadSearchView v.reloadSearchView := by
  cases hcurrent : w.currentUser with
  | none =>
    rw [reloadSearchView_none hcurrent, reloadSearchView_none (h.currentUser ▸ hcurrent)]
    exact { h with
      userId := rfl
      rows := fun _ => ⟨rfl, (hrows (by simp [hcurrent])).1⟩ }
  | some u =>
    rw [reloadSearchView_some hcurrent, reloadSearchView_some (h.currentUser ▸ hcurrent)]
    exact { sameOutside_append h [⟨u, .searches .sent⟩, ⟨u, .lists .sent⟩] with
      userId := rfl
      rows := fun hne => by
        obtain ⟨hsearches, hlists⟩ := hrows (by rwa [hcurrent])
        exact ⟨hlists (by simp [hcurrent]), hsearches⟩ }

theorem sameOutside_searchItems {user : Nat} {w v : MapRows} (h : SameOutside user w v)
    {text text' : String} (htext : w.userId ≠ some user → text = text') :
    SameOutside user (w.searchItems text) (v.searchItems text') :=
  { h with
    textBy := h.userId
    text := htext
    recordBlocks := congrArg (· + 1) h.recordBlocks }

/-- Both change an account in the same way. -/
theorem update_congr {user : Nat} {f g : Nat → UserData} (h : ∀ x, x ≠ user → f x = g x) (u : Nat)
    (account : UserData) (x : Nat) (hx : x ≠ user) :
    Function.update f u account x = Function.update g u account x := by
  by_cases hxu : x = u
  · rw [hxu, Function.update_self, Function.update_self]
  · rw [Function.update_of_ne hxu, Function.update_of_ne hxu, h x hx]

/-- The block writes into the account of that user, and into its rows. -/
theorem sameOutside_addSearchToDb_left {user : Nat} {w v : MapRows} (h : SameOutside user w v)
    (hid : w.userId = some user) : SameOutside user w.addSearchToDb v := by
  rw [addSearchToDb_some hid]
  split
  · exact h
  · exact { h with
      accounts := fun u hu => by rw [← h.accounts u hu]; exact Function.update_of_ne hu _ _
      rows := fun hne => absurd hid hne }

theorem sameOutside_addSearchToDb {user : Nat} {w v : MapRows} (h : SameOutside user w v)
    (hok : w.userId = none ∨ w.textBy = none ∨ w.textBy = w.userId) :
    SameOutside user w.addSearchToDb v.addSearchToDb := by
  cases hid : w.userId with
  | none =>
    rw [addSearchToDb_none hid, addSearchToDb_none (h.userId ▸ hid)]
    exact h
  | some u =>
    by_cases hu : u = user
    · subst hu
      have hleft := sameOutside_addSearchToDb_left h hid
      exact sameOutside_symm
        (sameOutside_addSearchToDb_left (sameOutside_symm hleft) (h.userId ▸ hid))
    · have hne : w.userId ≠ some user := by simpa [hid] using hu
      obtain ⟨hlists, hsearches⟩ := h.rows hne
      have htext : w.searchText = v.searchText := by
        refine h.text fun hby => ?_
        rcases hok with hnone | hnone | hown
        · rw [hid] at hnone
          cases hnone
        · rw [hby] at hnone
          cases hnone
        · exact hne (hown.symm.trans hby)
      rw [addSearchToDb_some hid, addSearchToDb_some (h.userId ▸ hid), ← hsearches, ← htext,
        ← h.accounts u hu]
      split
      · exact h
      · exact { h with
          accounts := update_congr h.accounts u _
          rows := fun _ => ⟨hlists, rfl⟩
          text := fun _ => rfl }

/-- Any other event, in both worlds. -/
theorem sameOutside_visible {user : Nat} {w v w' v' : MapRows} {e : RowsEvent}
    (h : SameOutside user w v) (hw : w.Sound) (he : e.concerns user = false) (hok : w.OwnReply e)
    (hstep : rowsStep w e = some w') (hstep' : rowsStep v e = some v') :
    SameOutside user w' v' := by
  cases e with
  | signIn u =>
    obtain ⟨-, hsigned⟩ := Option.ite_none_right_eq_some.mp hstep
    obtain ⟨-, hsigned'⟩ := Option.ite_none_right_eq_some.mp hstep'
    obtain rfl := Option.some.inj hsigned
    obtain rfl := Option.some.inj hsigned'
    exact { h with currentUser := rfl }
  | logout =>
    obtain ⟨-, hlogout⟩ := Option.ite_none_right_eq_some.mp hstep
    obtain ⟨-, hlogout'⟩ := Option.ite_none_right_eq_some.mp hstep'
    obtain rfl := Option.some.inj hlogout
    obtain rfl := Option.some.inj hlogout'
    have hempty : SameOutside user { w with currentUser := none, searches := [] }
        { v with currentUser := none, searches := [] } :=
      { h with currentUser := rfl, rows := fun hne => ⟨(h.rows hne).1, rfl⟩ }
    exact sameOutside_reloadSearchView hempty fun _ => ⟨rfl, fun hne => absurd rfl hne⟩
  | reloadSearchView =>
    obtain rfl := Option.some.inj hstep
    obtain rfl := Option.some.inj hstep'
    refine sameOutside_reloadSearchView h fun hne => ?_
    -- the panel is that of the current user, or of a visitor
    have hother : w.userId ≠ some user := by
      rcases hw.session with hnone | hsame
      · simp [hnone]
      · rwa [hsame]
    obtain ⟨hlists, hsearches⟩ := h.rows hother
    exact ⟨hsearches, fun _ => hlists⟩
  | retrieveLists =>
    obtain ⟨u, hu, rfl⟩ := Option.map_eq_some_iff.mp hstep
    obtain ⟨u', hu', rfl⟩ := Option.map_eq_some_iff.mp hstep'
    obtain rfl := Option.some.inj ((hu.symm.trans h.userId).trans hu')
    exact sameOutside_append h _
  | searchItems text =>
    obtain rfl := Option.some.inj hstep
    obtain rfl := Option.some.inj hstep'
    exact sameOutside_searchItems h fun _ => rfl
  | tappedSearch row =>
    obtain ⟨search, hsearch, rfl⟩ := Option.map_eq_some_iff.mp hstep
    obtain ⟨search', hsearch', rfl⟩ := Option.map_eq_some_iff.mp hstep'
    refine sameOutside_searchItems h fun hne => ?_
    rw [(h.rows hne).2] at hsearch
    rw [Option.some.inj (hsearch.symm.trans hsearch')]
  | addSearchToDb =>
    obtain ⟨-, hadded⟩ := Option.ite_none_left_eq_some.mp hstep
    obtain ⟨-, hadded'⟩ := Option.ite_none_left_eq_some.mp hstep'
    obtain rfl := Option.some.inj hadded
    obtain rfl := Option.some.inj hadded'
    have hblocks : SameOutside user { w with recordBlocks := w.recordBlocks - 1 }
        { v with recordBlocks := v.recordBlocks - 1 } :=
      { h with recordBlocks := congrArg (· - 1) h.recordBlocks }
    exact sameOutside_addSearchToDb hblocks hok
  | answered u i ok =>
    have hu : u ≠ user := by simpa [RowsEvent.concerns] using he
    have hrequest := h.requests u i hu
    rcases rowsStep_answered hstep with ⟨r, reply, hr, hreply, rfl⟩ | ⟨q, q', hq, hreply, rfl⟩
    · rcases rowsStep_answered hstep' with ⟨r', reply', hr', hreply', rfl⟩ | ⟨q, -, hq, -⟩
      · obtain rfl := Call.lists.inj (Option.some.inj ((hr.symm.trans hrequest).trans hr'))
        rw [h.accounts u hu] at hreply
        rw [Option.some.inj (hreply.symm.trans hreply')]
        exact sameOutside_setRequest h hr hr' _
      · cases (hr.symm.trans hrequest).trans hq
    · rcases rowsStep_answered hstep' with ⟨r, -, hr, -⟩ | ⟨p, p', hp, hreply', rfl⟩
      · cases (hq.symm.trans hrequest).trans hr
      · obtain rfl := Call.searches.inj (Option.some.inj ((hq.symm.trans hrequest).trans hp))
        rw [h.accounts u hu] at hreply
        rw [Option.some.inj (hreply.symm.trans hreply')]
        exact sameOutside_setRequest h hq hp _
  | handled u i =>
    have hu : u ≠ user := by simpa [RowsEvent.concerns] using he
    have hrequest := h.requests u i hu
    have hok' : w.userId = some u := hok
    have hne : w.userId ≠ some user := by simpa [hok'] using hu
    obtain ⟨hlists, hsearches⟩ := h.rows hne
    rcases rowsStep_handled hstep with ⟨r, allLists, r₁, hr, hhandle, rfl⟩ | ⟨reply, hreply, rfl⟩
    · rcases rowsStep_handled hstep' with
        ⟨r', allLists', r₂, hr', hhandle', rfl⟩ | ⟨reply, hreply, -⟩
      · obtain rfl := Call.lists.inj (Option.some.inj ((hr.symm.trans hrequest).trans hr'))
        rw [← h.userId] at hhandle'
        obtain ⟨rfl, rfl⟩ := Prod.mk.inj (Option.some.inj (hhandle.symm.trans hhandle'))
        exact { sameOutside_setRequest h hr hr' (.lists r₁) with
          rows := fun _ => ⟨by dsimp only; rw [hlists], hsearches⟩ }
      · cases (hr.symm.trans hrequest).trans hreply
    · rcases rowsStep_handled hstep' with ⟨r, -, -, hr, -⟩ | ⟨reply', hreply', rfl⟩
      · cases (hreply.symm.trans hrequest).trans hr
      · obtain rfl := Fetch.answered.inj (Call.searches.inj (Option.some.inj
          ((hreply.symm.trans hrequest).trans hreply')))
        exact { sameOutside_setRequest h hreply hreply' _ with rows := fun _ => ⟨hlists, rfl⟩ }
  | written u i =>
    have hu : u ≠ user := by simpa [RowsEvent.concerns] using he
    obtain ⟨r, accounts, r₁, hr, hwrite, rfl⟩ := rowsStep_written hstep
    obtain ⟨r', accounts', r₂, hr', hwrite', rfl⟩ := rowsStep_written hstep'
    obtain rfl := Call.lists.inj (Option.some.inj ((hr.symm.trans (h.requests u i hu)).trans hr'))
    obtain ⟨u', read, rows, title, left, rfl, rfl, rfl⟩ := write_cases hwrite
    obtain ⟨u₂, read₂, rows₂, title₂, left₂, heq, rfl, rfl⟩ := write_cases hwrite'
    obtain ⟨rfl, rfl, rfl, htitles⟩ := Retrieval.creating.inj heq
    obtain ⟨rfl, rfl⟩ := List.cons.inj htitles
    obtain rfl := hw.creates i u u' read rows (title :: left) hr
    rw [h.accounts u' hu]
    exact { sameOutside_setRequest h hr hr' _ with
      accounts := update_congr h.accounts u' _ }
  | completed u i =>
    have hu : u ≠ user := by simpa [RowsEvent.concerns] using he
    have hok' : w.userId = some u := hok
    have hne : w.userId ≠ some user := by simpa [hok'] using hu
    obtain ⟨hlists, hsearches⟩ := h.rows hne
    obtain ⟨r, rows, r₁, hr, hcomplete, rfl⟩ := rowsStep_completed hstep
    obtain ⟨r', rows', r₂, hr', hcomplete', rfl⟩ := rowsStep_completed hstep'
    obtain rfl := Call.lists.inj (Option.some.inj ((hr.symm.trans (h.requests u i hu)).trans hr'))
    obtain ⟨rfl, rfl⟩ := Prod.mk.inj (Option.some.inj (hcomplete.symm.trans hcomplete'))
    exact { sameOutside_setRequest h hr hr' (.lists r₁) with
      rows := fun _ => ⟨by dsimp only; rw [hlists], hsearches⟩ }

end LogoutLemmas

open LogoutLemmas

/-! ## 4. Runs -/

/-- The app is started in two worlds that differ in what one account stores, and
what happens differs in when its own calls are answered. When every completion finds
the user of its call, the accounts of all others stay the same, so do the rows while
somebody else or nobody is signed in, and default lists are only made for the user
whose lists were asked for. -/
theorem logout_isolates (user : Nat) (accounts accounts' : Nat → UserData)
    (haccounts : ∀ u, u ≠ user → accounts u = accounts' u) (currentUser : Option Nat)
    (es fs : List RowsEvent)
    (hsame : es.filter (!RowsEvent.concerns user ·) = fs.filter (!RowsEvent.concerns user ·))
    (hes : Machine.Meets rowsStep MapRows.OwnReply (.launch accounts currentUser) es)
    (hfs : Machine.Meets rowsStep MapRows.OwnReply (.launch accounts' currentUser) fs)
    (t t' : MapRows) (hrun : Machine.run rowsStep (.launch accounts currentUser) es = some t)
    (hrun' : Machine.run rowsStep (.launch accounts' currentUser) fs = some t') :
    t.userId = t'.userId ∧
    (t.userId ≠ some user → t.lists = t'.lists ∧ t.searches = t'.searches) ∧
    (∀ u, u ≠ user → t.accounts u = t'.accounts u) ∧
    ∀ u i v read rows left,
      t.request u i = some (.lists (.creating v read rows left)) → v = u := by
  have hstart : ∀ a, (MapRows.launch a currentUser).Sound := fun a =>
    ⟨.inl rfl, fun i u v read rows left h => by simp [MapRows.request, MapRows.launch] at h⟩
  have hrelated : SameOutside user (MapRows.launch accounts currentUser)
      (MapRows.launch accounts' currentUser) :=
    { accounts := haccounts
      currentUser := rfl
      userId := rfl
      rows := fun _ => ⟨rfl, rfl⟩
      textBy := rfl
      text := fun _ => rfl
      recordBlocks := rfl
      length := rfl
      requests := fun _ _ _ => rfl }
  have hend := Machine.run_related (R := fun w v => SameOutside user w v ∧ w.Sound ∧ v.Sound)
    (fun w v e w' h he hok hstep => ⟨sameOutside_hidden h.1 h.2.1 he hok hstep,
      sound_step h.2.1 hok hstep, h.2.2⟩)
    (fun w v e v' h he hok hstep =>
      ⟨sameOutside_symm (sameOutside_hidden (sameOutside_symm h.1) h.2.2 he hok hstep),
        h.2.1, sound_step h.2.2 hok hstep⟩)
    (fun w v e w' v' h he hok hok' hstep hstep' =>
      ⟨sameOutside_visible h.1 h.2.1 he hok hstep hstep', sound_step h.2.1 hok hstep,
        sound_step h.2.2 hok' hstep'⟩)
    ⟨hrelated, hstart accounts, hstart accounts'⟩ hsame hes hfs hrun hrun'
  obtain ⟨hsame, hsound, -⟩ := hend
  exact ⟨hsame.userId, hsame.rows, hsame.accounts, fun u i => hsound.creates i u⟩

/-- The first user has one list with this title, and nobody else has any. -/
def exAccounts (title : String) : Nat → UserData :=
  Function.update (fun _ => ⟨.empty, .empty⟩) 0
    ⟨applyAll .empty (addNewList title).writes, .empty⟩

/-- The lists are shown before the logout. -/
def exSession : List RowsEvent :=
  [.reloadSearchView, .answered 0 1 true, .handled 0 1, .logout]

theorem logout_isolates_answered : ∃ t t',
    Machine.run rowsStep (.launch (exAccounts "Secret") (some 0)) exSession = some t ∧
    Machine.run rowsStep (.launch (exAccounts "Trips") (some 0)) exSession = some t' ∧
    t.userId = t'.userId ∧
    (t.userId ≠ some 0 → t.lists = t'.lists ∧ t.searches = t'.searches) ∧
    (∀ u, u ≠ 0 → t.accounts u = t'.accounts u) ∧
    ∀ u i v read rows left,
      t.request u i = some (.lists (.creating v read rows left)) → v = u :=
  ⟨_, _, rfl, rfl, logout_isolates 0 (exAccounts "Secret") (exAccounts "Trips")
    (fun u hu => by simp [exAccounts, hu]) (some 0) exSession exSession rfl (by decide +kernel)
    (by decide +kernel) _ _ rfl rfl⟩

/-- The reply that was on its way at logout shows the visitor the lists of the user
who has left. -/
theorem late_reply_shows_lists :
    ¬ ∀ (user : Nat) (accounts accounts' : Nat → UserData) (currentUser : Option Nat)
        (es : List RowsEvent) (t t' : MapRows), (∀ u, u ≠ user → accounts u = accounts' u) →
      Machine.run rowsStep (.launch accounts currentUser) es = some t →
      Machine.run rowsStep (.launch accounts' currentUser) es = some t' →
      t.userId ≠ some user → t.lists = t'.lists ∧ t.searches = t'.searches := by
  intro hall
  have hsame := (hall 0 (exAccounts "Secret") (exAccounts "Trips") (some 0)
    [.reloadSearchView, .answered 0 1 true, .logout, .handled 0 1] _ _
    (fun u hu => by simp [exAccounts, hu]) rfl rfl (by decide +kernel)).1
  exact absurd hsame (by decide +kernel)

end LocateMe
