import LocateMe.Lib.InFlight
import LocateMe.Authentication

/-!
# Editing the profile

`EditProfileController` shows the document of the signed-in user and writes it back:
for a Google or Facebook user only the username, for others the e-mail of the account
and then the whole document, with the password that was read from it. The calls are
answered one by one, among those of the ways in.

Results:
1. `sound_profileStep`: what every event keeps.
2. `documents_keep_passwords`: in every run the password of a document is exactly the
   one that leads into its account.
3. `documents_keep_emails`: the e-mails of documents and accounts agree, when users edit
   their own profile, one edit at a time, and no `setData` fails.
-/

namespace LocateMe

open Documents InFlight AuthLemmas

/-! ## 1. The screen and its chains -/

/-- The fields of `EditProfileController` that `pushProfileController` sets. -/
structure EditProfileController where
  userId : Nat
  user : User
  mediaAccount : Bool
deriving DecidableEq

/-- `EditProfileController.checkIfValid`, with the texts of the two fields. As in
`ManualForm.checkIfValid` the length is in code points. -/
def EditProfileController.checkIfValid (username email : String) : Bool :=
  email != "" && decide (3 ≤ username.length) && emailIsValid email

/-- The call that `updateUser` waits for. -/
inductive UpdateStage
  | updateEmail
  | setData
  | stopped
deriving DecidableEq

/-- A chain of `updateUser`: `oldUser` is the account that was signed in when it began,
and `userId` the document that it writes. -/
structure UserUpdate where
  oldUser : Nat
  userId : Nat
  user : User
  stage : UpdateStage
deriving DecidableEq

def Account.setEmail (email : String) (account : Account) : Account :=
  { account with email := email }

def User.setUsername (username : String) (user : User) : User := { user with username := username }

/-- The answer to the call that the chain waits for. `updateEmail` is an error when
another account has the e-mail. -/
def UserUpdate.answer (u : UserUpdate) (b : Backend) (ok : Bool) : Option (Backend × UserUpdate) :=
  match u.stage, ok with
  | .updateEmail, true =>
    if (b.account u.user.email).all (·.1 = u.oldUser) then
      some ({ b with accounts := b.accounts.update u.oldUser (Account.setEmail u.user.email) },
        { u with stage := .setData })
    else some (b, { u with stage := .stopped })
  | .setData, true => some ({ b with users := b.users.set u.userId u.user },
      { u with stage := .stopped })
  | .stopped, _ => none
  | _, false => some (b, { u with stage := .stopped })

/-- The two stores with the chains of the ways in, the account that is signed in on the
device, the queries of `pushProfileController`, the profile screens, and the requests of
`updateUser` and `updateUsername`. -/
structure ProfileState where
  auth : AuthState
  currentUser : Option Nat
  queries : List Nat
  screens : List EditProfileController
  updates : List UserUpdate
  renames : List (Nat × String)

inductive ProfileEvent
  | auth (e : AuthEvent)
  | signOut
  | pushProfileController
  | getUser (i : Nat) (ok mediaAccount : Bool)
  | tappedSubmitBtn (i : Nat) (username email : String)
  | updateUser (i : Nat) (ok : Bool)
  | updateUsername (i : Nat) (ok : Bool)
deriving DecidableEq

namespace ProfileState

def initial : ProfileState := ⟨.initial, none, [], [], [], []⟩

/-- Firebase Auth signs in the user that `createUser` or `signIn` answers with. -/
def signedIn (s : ProfileState) (auth : AuthState) : AuthEvent → Option Nat
  | .answer i _ =>
    match (s.auth.attempts[i]?).map Attempt.stage, (auth.attempts[i]?).map Attempt.stage with
    | some .createUser, some (.setData id) => some id
    | some .signIn, some (.transitionToController id) => some id
    | _, _ => s.currentUser
  | _ => s.currentUser

/-- `EditProfileController.tappedSubmitBtn`. -/
def submit (s : ProfileState) (c : EditProfileController) (username email : String) :
    ProfileState :=
  if c.mediaAccount then { s with renames := s.renames ++ [(c.userId, username)] }
  else
    match s.currentUser with
    | none => s
    | some oldUser =>
      let user : User := ⟨username, email, c.user.password, c.user.imageUrl⟩
      { s with updates := s.updates ++ [⟨oldUser, c.userId, user, .updateEmail⟩] }

end ProfileState

/-- One event. A form that is not valid does nothing; there is no next state for an
answer that nothing waits for. -/
def profileStep (s : ProfileState) : ProfileEvent → Option ProfileState
  | .auth e => (authStep s.auth e).map fun auth =>
    { s with auth := auth, currentUser := s.signedIn auth e }
  | .signOut => some { s with currentUser := none }
  | .pushProfileController => some { s with queries := s.queries ++ s.currentUser.toList }
  | .getUser i ok mediaAccount => (s.queries[i]?).map fun id =>
    let s := { s with queries := s.queries.eraseIdx i }
    match ok, s.auth.backend.users.get id with
    | true, some user => { s with screens := s.screens ++ [⟨id, user, mediaAccount⟩] }
    | _, _ => s
  | .tappedSubmitBtn i username email => (s.screens[i]?).map fun c =>
    if EditProfileController.checkIfValid username email then
      { s.submit c username email with screens := s.screens.eraseIdx i }
    else s
  | .updateUser i ok => do
    let u ← s.updates[i]?
    let (backend, u) ← u.answer s.auth.backend ok
    some { s with auth := { s.auth with backend := backend }, updates := s.updates.set i u }
  | .updateUsername i ok => (s.renames[i]?).map fun (id, username) =>
    let s := { s with renames := s.renames.eraseIdx i }
    if ok then
      { s with auth.backend.users := s.auth.backend.users.update id (User.setUsername username) }
    else s

/-! ## 2. What the events keep -/

/-- The account has this password. -/
def Backend.HasPassword (b : Backend) (id : Nat) (password : String) : Prop :=
  ∃ account, b.accounts.get id = some account ∧ account.password = password

/-- E-mails are the keys of the accounts, and whatever is written to a document, or has
been read from one, has the password of its account. -/
structure ProfileState.Sound (s : ProfileState) : Prop where
  emails : s.auth.backend.accounts.KeyUnique Account.email
  users : ∀ id user, s.auth.backend.users.get id = some user →
    s.auth.backend.HasPassword id user.password
  attempts : ∀ a ∈ s.auth.attempts, ∀ id, a.stage = .setData id →
    s.auth.backend.HasPassword id a.user.password
  screens : ∀ c ∈ s.screens, s.auth.backend.HasPassword c.userId c.user.password
  updates : ∀ u ∈ s.updates, s.auth.backend.HasPassword u.userId u.user.password

namespace ProfileLemmas

theorem hasPassword_of_answered {a : Attempt} {b b' : Backend} {stage : Stage}
    (h : Answered a b b' stage) {id : Nat} {password : String} (hb : b.HasPassword id password) :
    b'.HasPassword id password := by
  obtain ⟨account, hget, hpassword⟩ := hb
  exact ⟨account, get_of_answered h hget, hpassword⟩

/-- A new e-mail leaves the passwords alone. -/
theorem hasPassword_setEmail {b : Backend} {oldUser id : Nat} {email password : String}
    {users : Collection User} (hb : b.HasPassword id password) :
    Backend.HasPassword ⟨b.accounts.update oldUser (Account.setEmail email), users⟩ id
      password := by
  obtain ⟨account, hget, hpassword⟩ := hb
  by_cases hid : id = oldUser
  · exact ⟨account.setEmail email, by simp [← hid, hget], hpassword⟩
  · exact ⟨account, by simp [hid, hget], hpassword⟩

/-- A chain does not begin with a `setData`. -/
theorem not_setData_of_started {e : AuthEvent} {a : Attempt} (h : e.started = some a) (id : Nat) :
    a.stage ≠ .setData id := by
  intro hid
  rcases (started_spec h).1 with hstage | hstage
  · cases hstage.symm.trans hid
  · cases hstage.symm.trans hid

/-- What the answer to a call of `updateUser` does. -/
theorem update_cases {u u' : UserUpdate} {b b' : Backend} {ok : Bool}
    (h : u.answer b ok = some (b', u')) :
    (b' = b ∧ u' = { u with stage := .stopped } ∧ (u.stage = .setData → ok = false)) ∨
    (u.stage = .updateEmail ∧ (b.account u.user.email).all (·.1 = u.oldUser) = true ∧
      b' = ⟨b.accounts.update u.oldUser (Account.setEmail u.user.email), b.users⟩ ∧
      u' = { u with stage := .setData }) ∨
    (u.stage = .setData ∧ ok = true ∧ b' = ⟨b.accounts, b.users.set u.userId u.user⟩ ∧
      u' = { u with stage := .stopped }) := by
  unfold UserUpdate.answer at h
  split at h
  · next hstage =>
    split at h
    · next hfree =>
      obtain ⟨rfl, rfl⟩ := Prod.mk.inj (Option.some.inj h)
      exact .inr (.inl ⟨hstage, hfree, rfl, rfl⟩)
    · obtain ⟨rfl, rfl⟩ := Prod.mk.inj (Option.some.inj h)
      exact .inl ⟨rfl, rfl, by simp [hstage]⟩
  · next hstage =>
    obtain ⟨rfl, rfl⟩ := Prod.mk.inj (Option.some.inj h)
    exact .inr (.inr ⟨hstage, rfl, rfl, rfl⟩)
  · cases h
  · obtain ⟨rfl, rfl⟩ := Prod.mk.inj (Option.some.inj h)
    exact .inl ⟨rfl, rfl, fun _ => rfl⟩

/-- An e-mail that no other account has stays a key. -/
theorem emails_setEmail {b : Backend} (hb : b.accounts.KeyUnique Account.email) {oldUser : Nat}
    {email : String} (hfree : (b.account email).all (·.1 = oldUser) = true) :
    (b.accounts.update oldUser (Account.setEmail email)).KeyUnique Account.email := by
  have hown : ∀ i account, b.accounts.get i = some account → account.email = email →
      i = oldUser := by
    intro i account hget hemail
    have hfound : b.account email = some (i, account) :=
      (Collection.find_eq_some hb).mpr ⟨hget, hemail⟩
    simpa [hfound] using hfree
  intro i x hx j y hy heq
  rw [Collection.get_update] at hx hy
  split_ifs at hx hy with hi hj hj
  · rw [hi, hj]
  · obtain ⟨account, -, rfl⟩ := Option.map_eq_some_iff.mp hx
    exact hi.trans (hown j y hy heq.symm).symm
  · obtain ⟨account, -, rfl⟩ := Option.map_eq_some_iff.mp hy
    exact (hown i x hx heq).trans hj.symm
  · exact hb i x hx j y hy heq

/-- A step of the ways in. -/
theorem sound_auth {s : ProfileState} (hs : s.Sound) {e : AuthEvent} {auth : AuthState}
    (h : authStep s.auth e = some auth) (currentUser : Option Nat) :
    ProfileState.Sound { s with auth := auth, currentUser := currentUser } := by
  rcases authStep_cases h with ⟨a, ha, rfl⟩ | ⟨i, ok, a, b, a', rfl, ha, hanswer, rfl⟩
  · refine ⟨hs.emails, hs.users, forall_mem_append hs.attempts fun id hid => ?_, hs.screens,
      hs.updates⟩
    exact absurd hid (not_setData_of_started ha id)
  · obtain ⟨stage, rfl, hanswered⟩ := answered_of_answer hanswer
    have hmem : a ∈ s.auth.attempts := List.mem_of_getElem? ha
    have hkept : ∀ c ∈ s.auth.attempts, ∀ id, c.stage = .setData id →
        b.HasPassword id c.user.password :=
      fun c hc id hid => hasPassword_of_answered hanswered (hs.attempts c hc id hid)
    refine ⟨?_, fun id user hget => ?_, forall_mem_set hkept fun id hid => ?_,
      fun c hc => hasPassword_of_answered hanswered (hs.screens c hc),
      fun u hu => hasPassword_of_answered hanswered (hs.updates u hu)⟩
    · cases hanswered with
      | made hnone =>
        exact (Collection.keyUnique_add_iff hs.emails).mpr (Collection.find_eq_none.mp hnone)
      | _ => exact hs.emails
    · refine hasPassword_of_answered hanswered ?_
      cases hanswered with
      | written id' hstage =>
        simp only [Collection.get_set] at hget
        split at hget
        · next hid =>
          obtain rfl := Option.some.inj hget
          exact hid ▸ hs.attempts a hmem id' hstage
        · exact hs.users id user hget
      | _ => exact hs.users id user hget
    · obtain rfl : stage = .setData id := hid
      cases hanswered with
      | went _ hstage => simp at hstage
      | made hnone => exact ⟨_, Collection.get_add_self .., rfl⟩

/-- A step of `updateUser`. -/
theorem sound_update {s : ProfileState} (hs : s.Sound) {i : Nat} {u u' : UserUpdate} {b : Backend}
    {ok : Bool} (hu : s.updates[i]? = some u) (h : u.answer s.auth.backend ok = some (b, u')) :
    ProfileState.Sound
      { s with auth := { s.auth with backend := b }, updates := s.updates.set i u' } := by
  have hown := hs.updates u (List.mem_of_getElem? hu)
  rcases update_cases h with ⟨rfl, rfl, -⟩ | ⟨-, hfree, rfl, rfl⟩ | ⟨-, -, rfl, rfl⟩
  · exact ⟨hs.emails, hs.users, hs.attempts, hs.screens, forall_mem_set hs.updates hown⟩
  · exact ⟨emails_setEmail hs.emails hfree,
      fun id user hget => hasPassword_setEmail (hs.users id user hget),
      fun a ha id hid => hasPassword_setEmail (hs.attempts a ha id hid),
      fun c hc => hasPassword_setEmail (hs.screens c hc),
      forall_mem_set (fun v hv => hasPassword_setEmail (hs.updates v hv))
        (hasPassword_setEmail hown)⟩
  · refine ⟨hs.emails, fun id user hget => ?_, hs.attempts, hs.screens,
      forall_mem_set hs.updates hown⟩
    simp only [Collection.get_set] at hget
    split at hget
    · next hid =>
      obtain rfl := Option.some.inj hget
      exact hid ▸ hown
    · exact hs.users id user hget

/-- A form leaves the stores alone, and writes the password that its screen read. -/
theorem sound_submit {s : ProfileState} (hs : s.Sound) {c : EditProfileController}
    (hc : c ∈ s.screens) (username email : String) : (s.submit c username email).Sound := by
  unfold ProfileState.submit
  split
  · exact ⟨hs.emails, hs.users, hs.attempts, hs.screens, hs.updates⟩
  · split
    · exact hs
    · exact ⟨hs.emails, hs.users, hs.attempts, hs.screens,
        forall_mem_append hs.updates (hs.screens c hc)⟩

theorem submit_screens {s : ProfileState} {c : EditProfileController} {username email : String} :
    (s.submit c username email).screens = s.screens := by
  unfold ProfileState.submit
  split
  · rfl
  · split <;> rfl

/-- What every event keeps. -/
theorem sound_profileStep {s t : ProfileState} {e : ProfileEvent} (hs : s.Sound)
    (h : profileStep s e = some t) : t.Sound := by
  cases e with
  | auth e =>
    obtain ⟨auth, hauth, rfl⟩ := Option.map_eq_some_iff.mp h
    exact sound_auth hs hauth _
  | signOut =>
    obtain rfl := Option.some.inj h
    exact ⟨hs.emails, hs.users, hs.attempts, hs.screens, hs.updates⟩
  | pushProfileController =>
    obtain rfl := Option.some.inj h
    exact ⟨hs.emails, hs.users, hs.attempts, hs.screens, hs.updates⟩
  | getUser i ok mediaAccount =>
    obtain ⟨id, -, rfl⟩ := Option.map_eq_some_iff.mp h
    dsimp only
    split
    · next user hget =>
      exact ⟨hs.emails, hs.users, hs.attempts,
        forall_mem_append hs.screens (hs.users id user hget), hs.updates⟩
    · exact ⟨hs.emails, hs.users, hs.attempts, hs.screens, hs.updates⟩
  | tappedSubmitBtn i username email =>
    obtain ⟨c, hc, rfl⟩ := Option.map_eq_some_iff.mp h
    have hsubmit := sound_submit hs (List.mem_of_getElem? hc) username email
    split
    · refine ⟨hsubmit.emails, hsubmit.users, hsubmit.attempts, fun d hd => ?_, hsubmit.updates⟩
      have hold : d ∈ (s.submit c username email).screens := by
        rw [submit_screens]
        exact List.mem_of_mem_eraseIdx hd
      exact hsubmit.screens d hold
    · exact hs
  | updateUser i ok =>
    obtain ⟨u, hu, hrest⟩ := Option.bind_eq_some_iff.mp h
    obtain ⟨⟨b, u'⟩, hanswer, ht⟩ := Option.bind_eq_some_iff.mp hrest
    obtain rfl := Option.some.inj ht
    exact sound_update hs hu hanswer
  | updateUsername i ok =>
    obtain ⟨⟨id, username⟩, -, rfl⟩ := Option.map_eq_some_iff.mp h
    dsimp only
    split
    · refine ⟨hs.emails, fun j user hget => ?_, hs.attempts, hs.screens, hs.updates⟩
      simp only [Collection.get_update] at hget
      split at hget
      · next hj =>
        -- the document has a new username and its old password
        obtain ⟨old, hold, rfl⟩ := Option.map_eq_some_iff.mp hget
        exact hj ▸ hs.users id old hold
      · exact hs.users j user hget
    · exact ⟨hs.emails, hs.users, hs.attempts, hs.screens, hs.updates⟩

theorem sound_profile_initial : ProfileState.initial.Sound where
  emails := sound_initial.emails
  users id user hget := by cases hget
  attempts := by simp [ProfileState.initial, AuthState.initial]
  screens := by simp [ProfileState.initial]
  updates := by simp [ProfileState.initial]

theorem sound_profile {es : List ProfileEvent} {s : ProfileState}
    (hrun : Machine.run profileStep .initial es = some s) : s.Sound :=
  Machine.run_invariant' (fun _ _ _ => sound_profileStep) sound_profile_initial hrun

end ProfileLemmas

open ProfileLemmas

/-! ## 3. The password of a document -/

namespace ProfileLemmas

/-- A log-in with the e-mail of an account enters it iff it has its password. -/
theorem enters_login_iff {s : AuthState} (hs : s.backend.accounts.KeyUnique Account.email)
    {id : Nat} {account : Account} (hget : s.backend.accounts.get id = some account)
    {form : ManualForm} (hsignUp : form.signUp = false) (hemail : form.email = account.email)
    (hvalid : form.checkIfValid = true) :
    (∃ b, s.Enters (.tappedSubmit form) id b) ↔ form.password = account.password := by
  have hstarted : (AuthEvent.tappedSubmit form).started =
      some ⟨.manual, ⟨"", form.email, form.password, ""⟩, .signIn⟩ := by
    simp [AuthEvent.started, ManualForm.tappedSubmit, hvalid, hsignUp, login]
  have hfound : s.backend.account form.email = some (id, account) :=
    (Collection.find_eq_some hs).mpr ⟨hget, hemail.symm⟩
  simp only [enters_iff hstarted, ends_signIn, hfound]
  constructor
  · rintro ⟨_, -, _, heq, hpassword⟩
    obtain ⟨-, rfl⟩ := Prod.mk.inj (Option.some.inj heq)
    exact hpassword.symm
  · intro hpassword
    exact ⟨_, rfl, account, rfl, hpassword.symm⟩

end ProfileLemmas

/-- However the ways in, the profile screens and their answers interleave, a document
is that of an account, and a log-in on the manual form with the e-mail of the account
leads into it iff its password is the one in the document. -/
theorem documents_keep_passwords (es : List ProfileEvent) (s : ProfileState)
    (hrun : Machine.run profileStep .initial es = some s) (id : Nat) (user : User)
    (hget : s.auth.backend.users.get id = some user) :
    ∃ account, s.auth.backend.accounts.get id = some account ∧
      ∀ form : ManualForm, form.signUp = false → form.email = account.email →
        form.checkIfValid = true →
        ((∃ b, s.auth.Enters (.tappedSubmit form) id b) ↔ form.password = user.password) := by
  have hs := sound_profile hrun
  obtain ⟨account, haccount, hpassword⟩ := hs.users id user hget
  refine ⟨account, haccount, fun form hsignUp hemail hvalid => ?_⟩
  rw [enters_login_iff hs.emails haccount hsignUp hemail hvalid, hpassword]

/-- Bob signs up on the manual form and changes his e-mail. -/
def exNewEmail : List ProfileEvent :=
  .auth (.tappedSubmit ⟨true, "bob", "bob@x.org", "secret"⟩) ::
    (List.replicate 4 (.auth (.answer 0 true)) ++
      [.pushProfileController, .getUser 0 true false, .tappedSubmitBtn 0 "bob" "rob@x.org",
        .updateUser 0 true, .updateUser 0 true])

theorem documents_keep_passwords_new_email : ∃ s,
    Machine.run profileStep .initial exNewEmail = some s ∧
    ∃ account, s.auth.backend.accounts.get 0 = some account ∧
      ∀ form : ManualForm, form.signUp = false → form.email = account.email →
        form.checkIfValid = true →
        ((∃ b, s.auth.Enters (.tappedSubmit form) 0 b) ↔ form.password = "secret") :=
  ⟨_, rfl, documents_keep_passwords exNewEmail _ rfl 0 ⟨"bob", "rob@x.org", "secret", ""⟩ rfl⟩

/-! ## 4. The e-mail of a document -/

/-- A form is submitted by the user whose profile it shows, when no other change of that
profile is on its way, and no `setData` fails. -/
def EditsOwn (s : ProfileState) : ProfileEvent → Prop
  | .tappedSubmitBtn i _ _ => ∀ c ∈ s.screens[i]?, c.mediaAccount = false →
    (∀ id ∈ s.currentUser, id = c.userId) ∧
      ∀ u ∈ s.updates, u.userId = c.userId → u.stage = .stopped
  | .updateUser i ok => ∀ u ∈ s.updates[i]?, u.stage = .setData → ok = true
  | _ => True

instance (s : ProfileState) (e : ProfileEvent) : Decidable (EditsOwn s e) :=
  match e with
  | .tappedSubmitBtn i _ _ => inferInstanceAs (Decidable (∀ c ∈ s.screens[i]?,
      c.mediaAccount = false → (∀ id ∈ s.currentUser, id = c.userId) ∧
        ∀ u ∈ s.updates, u.userId = c.userId → u.stage = .stopped))
  | .updateUser i ok =>
    inferInstanceAs (Decidable (∀ u ∈ s.updates[i]?, u.stage = .setData → ok = true))
  | .auth _ | .signOut | .pushProfileController | .getUser .. | .updateUsername .. =>
    inferInstanceAs (Decidable True)

/-- The e-mail of an account is the one in the document, or the one that a `setData` on
its way brings. -/
def ProfileState.HasEmail (s : ProfileState) (id : Nat) (email : String) : Prop :=
  ∃ account, s.auth.backend.accounts.get id = some account ∧
    (account.email = email ∨
      ∃ u ∈ s.updates, u.userId = id ∧ u.stage = .setData ∧ u.user.email = account.email)

/-- The chain changes this profile, and has not ended. -/
def UserUpdate.Changes (id : Nat) (u : UserUpdate) : Prop := u.userId = id ∧ u.stage ≠ .stopped

/-- The account of a document that is on its way. -/
def Backend.HasAccount (b : Backend) (id : Nat) (email : String) : Prop :=
  ∃ account, b.accounts.get id = some account ∧ account.email = email

/-- What events that meet `EditsOwn` keep. -/
structure ProfileState.Own (s : ProfileState) : Prop where
  users : ∀ id user, s.auth.backend.users.get id = some user → s.HasEmail id user.email
  attempts : ∀ a ∈ s.auth.attempts, ∀ id, a.stage = .setData id →
    s.auth.backend.users.get id = none ∧ s.auth.backend.HasAccount id a.user.email
  writers : ∀ id, Exclusive (fun a : Attempt => a.stage = .setData id) s.auth.attempts
  screens : ∀ c ∈ s.screens, (s.auth.backend.users.get c.userId).isSome
  updates : ∀ u ∈ s.updates, (s.auth.backend.users.get u.userId).isSome
  own : ∀ u ∈ s.updates, u.stage ≠ .stopped → u.oldUser = u.userId
  written : ∀ u ∈ s.updates, u.stage = .setData →
    s.auth.backend.HasAccount u.userId u.user.email
  single : ∀ id, Exclusive (UserUpdate.Changes id) s.updates

namespace ProfileLemmas

theorem hasAccount_of_answered {a : Attempt} {b b' : Backend} {stage : Stage}
    (h : Answered a b b' stage) {id : Nat} {email : String} (hb : b.HasAccount id email) :
    b'.HasAccount id email := by
  obtain ⟨account, hget, hemail⟩ := hb
  exact ⟨account, get_of_answered h hget, hemail⟩

/-- The e-mail of a profile is kept when its account is, and the chain that is answered
does not bring it. -/
theorem hasEmail_set {s : ProfileState} {auth : AuthState} {i id : Nat} {email : String}
    {u u' : UserUpdate} (he : s.HasEmail id email)
    (hget : auth.backend.accounts.get id = s.auth.backend.accounts.get id)
    (hu : s.updates[i]? = some u) (hnot : u.userId = id → u.stage ≠ .setData) :
    ProfileState.HasEmail { s with auth := auth, updates := s.updates.set i u' } id email := by
  obtain ⟨account, haccount, hemail⟩ := he
  refine ⟨account, hget.trans haccount, hemail.imp_right ?_⟩
  rintro ⟨v, hv, hid, hstage, hbrings⟩
  have hne : v ≠ u := by
    rintro rfl
    exact hnot hid hstage
  exact ⟨v, mem_set_of_ne hu hv hne, hid, hstage, hbrings⟩

/-- A step of the ways in. -/
theorem own_auth {s : ProfileState} (hs : s.Sound) (ho : s.Own) {e : AuthEvent} {auth : AuthState}
    (h : authStep s.auth e = some auth) (currentUser : Option Nat) :
    ProfileState.Own { s with auth := auth, currentUser := currentUser } := by
  rcases authStep_cases h with ⟨a, ha, rfl⟩ | ⟨i, ok, a, b, a', rfl, ha, hanswer, rfl⟩
  · have hnot := not_setData_of_started ha
    exact ⟨ho.users, forall_mem_append ho.attempts fun id hid => absurd hid (hnot id),
      fun id => (ho.writers id).append fun hid => absurd hid (hnot id),
      ho.screens, ho.updates, ho.own, ho.written, ho.single⟩
  · obtain ⟨stage, rfl, hanswered⟩ := answered_of_answer hanswer
    have hmem : a ∈ s.auth.attempts := List.mem_of_getElem? ha
    cases hanswered with
    | went _ hstage =>
      have hnot : ∀ id, stage ≠ .setData id := by
        rintro id rfl
        simp at hstage
      exact ⟨ho.users, forall_mem_set ho.attempts fun id hid => absurd hid (hnot id),
        fun id => (ho.writers id).set ha fun hid => absurd hid (hnot id),
        ho.screens, ho.updates, ho.own, ho.written, ho.single⟩
    | entered id account haccount hpassword =>
      exact ⟨ho.users, forall_mem_set ho.attempts fun id' hid => Stage.noConfusion hid,
        fun id' => (ho.writers id').set ha fun hid => Stage.noConfusion hid,
        ho.screens, ho.updates, ho.own, ho.written, ho.single⟩
    | made hnone =>
      -- the new account has no document, and no chain writes one for it
      have hnew : ∀ c ∈ s.auth.attempts, c.stage ≠ .setData s.auth.backend.accounts.next := by
        intro c hc hid
        obtain ⟨account, hget, -⟩ := (ho.attempts c hc _ hid).2
        rw [Collection.get_next] at hget
        cases hget
      have hnodoc : s.auth.backend.users.get s.auth.backend.accounts.next = none := by
        by_contra hsome
        obtain ⟨user, huser⟩ := Option.ne_none_iff_exists'.mp hsome
        obtain ⟨account, hget, -⟩ := hs.users _ user huser
        rw [Collection.get_next] at hget
        cases hget
      have hkept : ∀ id email, s.auth.backend.HasAccount id email → Backend.HasAccount
          ⟨s.auth.backend.accounts.add ⟨a.user.email, a.user.password, a.entry⟩,
            s.auth.backend.users⟩ id email :=
        fun id email => hasAccount_of_answered (.made hnone)
      refine ⟨fun id user hget => ?_, forall_mem_set (fun c hc id hid => ?_) fun id hid => ?_,
        fun id => ?_, ho.screens, ho.updates, ho.own,
        fun u hu hstage => hkept _ _ (ho.written u hu hstage), ho.single⟩
      · obtain ⟨account, haccount, hemail⟩ := ho.users id user hget
        exact ⟨account, Collection.get_add_of_some haccount, hemail⟩
      · exact (ho.attempts c hc id hid).imp_right (hkept _ _)
      · obtain rfl := Stage.setData.inj hid
        exact ⟨hnodoc, _, Collection.get_add_self .., rfl⟩
      · by_cases hid : id = s.auth.backend.accounts.next
        · subst hid
          exact Exclusive.set_of_none hnew
        · exact (ho.writers id).set ha fun hstage => absurd (Stage.setData.inj hstage).symm hid
    | written id hstage =>
      obtain ⟨hnone, account, haccount, hemail⟩ := ho.attempts a hmem id hstage
      refine ⟨fun j user hget => ?_, fun c hc j hj => ?_,
        fun j => (ho.writers j).set ha fun hj => Stage.noConfusion hj,
        fun c hc => Collection.isSome_get_set (ho.screens c hc),
        fun u hu => Collection.isSome_get_set (ho.updates u hu), ho.own, ho.written, ho.single⟩
      · simp only [Collection.get_set] at hget
        split at hget
        · next hj =>
          obtain rfl := Option.some.inj hget
          exact ⟨account, hj ▸ haccount, .inl hemail⟩
        · exact ho.users j user hget
      · -- no other chain writes this document
        have hother := (ho.writers id).not_mem_set ha hstage (by simp) c hc
        rcases List.mem_or_eq_of_mem_set hc with hc | rfl
        · refine (ho.attempts c hc j hj).imp_left fun hnone' => ?_
          rw [Collection.get_set, if_neg ?_, hnone']
          rintro rfl
          exact hother hj
        · cases hj

/-- A step of `updateUser` in which no `setData` fails. -/
theorem own_update {s : ProfileState} (ho : s.Own) {i : Nat} {u u' : UserUpdate} {b : Backend}
    {ok : Bool} (hu : s.updates[i]? = some u) (hok : u.stage = .setData → ok = true)
    (h : u.answer s.auth.backend ok = some (b, u')) :
    ProfileState.Own
      { s with auth := { s.auth with backend := b }, updates := s.updates.set i u' } := by
  have hmem : u ∈ s.updates := List.mem_of_getElem? hu
  have hdoc := ho.updates u hmem
  rcases update_cases h with ⟨rfl, rfl, hfailed⟩ | ⟨hstage, -, rfl, rfl⟩ | ⟨hstage, -, rfl, rfl⟩
  · have hnot : u.stage ≠ .setData := by
      intro hstage
      cases (hok hstage).symm.trans (hfailed hstage)
    exact ⟨fun id user hget => hasEmail_set (ho.users id user hget) rfl hu fun _ => hnot,
      ho.attempts, ho.writers, ho.screens, forall_mem_set ho.updates hdoc,
      forall_mem_set ho.own fun hv => absurd rfl hv,
      forall_mem_set ho.written fun hv => UpdateStage.noConfusion hv,
      fun id => (ho.single id).set hu fun hv => absurd rfl hv.2⟩
  · have hself : u.oldUser = u.userId := ho.own u hmem (by simp [hstage])
    obtain ⟨user, huser⟩ := Option.isSome_iff_exists.mp hdoc
    obtain ⟨account, haccount, -⟩ := ho.users u.userId user huser
    have hnew : Backend.HasAccount ⟨s.auth.backend.accounts.update u.oldUser
        (Account.setEmail u.user.email), s.auth.backend.users⟩ u.userId u.user.email :=
      ⟨account.setEmail u.user.email, by simp [hself, haccount], rfl⟩
    -- the accounts of the others stay as they are
    have hother : ∀ id, id ≠ u.userId →
        (s.auth.backend.accounts.update u.oldUser (Account.setEmail u.user.email)).get id =
          s.auth.backend.accounts.get id := by
      intro id hid
      rw [Collection.get_update, if_neg (hself ▸ hid)]
    refine ⟨fun id user hget => ?_, fun a ha id hid => ?_, ho.writers, ho.screens,
      forall_mem_set ho.updates hdoc, forall_mem_set ho.own fun _ => hself,
      forall_mem_set (fun v hv hv' => ?_) fun _ => hnew,
      fun id => (ho.single id).set hu fun hv => ⟨hv.1, by simp [hstage]⟩⟩
    · by_cases hid : id = u.userId
      · subst hid
        obtain ⟨account', haccount', hemail'⟩ := hnew
        have hbrings := List.mem_set (List.getElem?_eq_some_iff.mp hu).1
          { u with stage := .setData }
        exact ⟨account', haccount', .inr ⟨_, hbrings, rfl, rfl, hemail'.symm⟩⟩
      · exact hasEmail_set (ho.users id user hget) (hother id hid) hu
          fun heq => absurd heq.symm hid
    · obtain ⟨hnone, account', haccount', hemail'⟩ := ho.attempts a ha id hid
      refine ⟨hnone, account', (hother id ?_).trans haccount', hemail'⟩
      rintro rfl
      cases huser.symm.trans hnone
    · obtain ⟨account', haccount', hemail'⟩ := ho.written v hv hv'
      refine ⟨account', (hother v.userId fun hid => ?_).trans haccount', hemail'⟩
      -- a chain of this profile that has not ended is the one that is answered
      obtain rfl := (ho.single u.userId).eq_of_mem hv hmem ⟨hid, by simp [hv']⟩
        ⟨rfl, by simp [hstage]⟩
      cases hstage.symm.trans hv'
  · obtain ⟨account, haccount, hemail⟩ := ho.written u hmem hstage
    refine ⟨fun id user hget => ?_, fun a ha id hid => ?_, ho.writers,
      fun c hc => Collection.isSome_get_set (ho.screens c hc),
      forall_mem_set (fun v hv => Collection.isSome_get_set (ho.updates v hv))
        (Collection.isSome_get_set hdoc),
      forall_mem_set ho.own fun hv => absurd rfl hv,
      forall_mem_set ho.written fun hv => UpdateStage.noConfusion hv,
      fun id => (ho.single id).set hu fun hv => absurd rfl hv.2⟩
    · simp only [Collection.get_set] at hget
      split at hget
      · next hid =>
        obtain rfl := Option.some.inj hget
        exact ⟨account, hid ▸ haccount, .inl hemail⟩
      · next hid =>
        exact hasEmail_set (ho.users id user hget) rfl hu fun heq => absurd heq.symm hid
    · refine (ho.attempts a ha id hid).imp_left fun hnone => ?_
      rw [Collection.get_set, if_neg ?_, hnone]
      rintro rfl
      rw [hnone] at hdoc
      cases hdoc

/-- A form that meets `EditsOwn`. -/
theorem own_submit {s : ProfileState} (ho : s.Own) {c : EditProfileController}
    (hc : c ∈ s.screens) (username email : String)
    (hown : c.mediaAccount = false → (∀ id ∈ s.currentUser, id = c.userId) ∧
      ∀ u ∈ s.updates, u.userId = c.userId → u.stage = .stopped) :
    (s.submit c username email).Own := by
  unfold ProfileState.submit
  split
  · exact ⟨ho.users, ho.attempts, ho.writers, ho.screens, ho.updates, ho.own, ho.written, ho.single⟩
  · next hmedia =>
    obtain ⟨hself, hfree⟩ := hown (by simpa using hmedia)
    split
    · exact ho
    · next oldUser hcurrent =>
      refine ⟨fun id user hget => ?_, ho.attempts, ho.writers, ho.screens,
        forall_mem_append ho.updates (ho.screens c hc),
        forall_mem_append ho.own fun _ => hself oldUser hcurrent,
        forall_mem_append ho.written fun hv => UpdateStage.noConfusion hv,
        fun id => (ho.single id).append fun hnew v hv hv' => ?_⟩
      · obtain ⟨account, haccount, hemail⟩ := ho.users id user hget
        refine ⟨account, haccount, hemail.imp_right ?_⟩
        rintro ⟨v, hv, hrest⟩
        exact ⟨v, List.mem_append_left _ hv, hrest⟩
      · exact hv'.2 (hfree v hv (hv'.1.trans hnew.1.symm))

/-- What an event that meets `EditsOwn` keeps. -/
theorem own_profileStep {s t : ProfileState} {e : ProfileEvent} (hs : s.Sound) (ho : s.Own)
    (hown : EditsOwn s e) (h : profileStep s e = some t) : t.Own := by
  cases e with
  | auth e =>
    obtain ⟨auth, hauth, rfl⟩ := Option.map_eq_some_iff.mp h
    exact own_auth hs ho hauth _
  | signOut =>
    obtain rfl := Option.some.inj h
    exact ⟨ho.users, ho.attempts, ho.writers, ho.screens, ho.updates, ho.own, ho.written, ho.single⟩
  | pushProfileController =>
    obtain rfl := Option.some.inj h
    exact ⟨ho.users, ho.attempts, ho.writers, ho.screens, ho.updates, ho.own, ho.written, ho.single⟩
  | getUser i ok mediaAccount =>
    obtain ⟨id, -, rfl⟩ := Option.map_eq_some_iff.mp h
    dsimp only
    split
    · next user hget =>
      have hdoc : (s.auth.backend.users.get id).isSome := Option.isSome_of_eq_some hget
      exact ⟨ho.users, ho.attempts, ho.writers, forall_mem_append ho.screens hdoc, ho.updates,
        ho.own, ho.written, ho.single⟩
    · exact ⟨ho.users, ho.attempts, ho.writers, ho.screens, ho.updates, ho.own, ho.written,
        ho.single⟩
  | tappedSubmitBtn i username email =>
    obtain ⟨c, hc, rfl⟩ := Option.map_eq_some_iff.mp h
    have hsubmit := own_submit ho (List.mem_of_getElem? hc) username email (hown c hc)
    split
    · refine ⟨hsubmit.users, hsubmit.attempts, hsubmit.writers, fun d hd => ?_, hsubmit.updates,
        hsubmit.own, hsubmit.written, hsubmit.single⟩
      have hold : d ∈ (s.submit c username email).screens := by
        rw [submit_screens]
        exact List.mem_of_mem_eraseIdx hd
      exact hsubmit.screens d hold
    · exact ho
  | updateUser i ok =>
    obtain ⟨u, hu, hrest⟩ := Option.bind_eq_some_iff.mp h
    obtain ⟨⟨b, u'⟩, hanswer, ht⟩ := Option.bind_eq_some_iff.mp hrest
    obtain rfl := Option.some.inj ht
    exact own_update ho hu (hown u hu) hanswer
  | updateUsername i ok =>
    obtain ⟨⟨id, username⟩, -, rfl⟩ := Option.map_eq_some_iff.mp h
    dsimp only
    split
    · -- the documents that there are keep their e-mails
      have hsame : ∀ j, ((s.auth.backend.users.update id (User.setUsername username)).get j).map
          User.email = (s.auth.backend.users.get j).map User.email := by
        intro j
        rw [Collection.get_update]
        split
        · next hj =>
          rw [Option.map_map, hj]
          rfl
        · rfl
      have hsome : ∀ j, (s.auth.backend.users.get j).isSome →
          ((s.auth.backend.users.update id (User.setUsername username)).get j).isSome := by
        intro j hj
        simpa [Option.isSome_map] using (congrArg Option.isSome (hsame j)).trans (by simpa using hj)
      refine ⟨fun j user hget => ?_,
        fun a ha j hj => (ho.attempts a ha j hj).imp_left fun hnone => ?_, ho.writers,
        fun c hc => hsome _ (ho.screens c hc), fun u hu => hsome _ (ho.updates u hu),
        ho.own, ho.written, ho.single⟩
      · have hmap := hsame j
        rw [hget] at hmap
        obtain ⟨old, hold, hemail⟩ := Option.map_eq_some_iff.mp hmap.symm
        exact hemail ▸ ho.users j old hold
      · have hmap := hsame j
        rw [hnone] at hmap
        exact Option.map_eq_none_iff.mp hmap
    · exact ⟨ho.users, ho.attempts, ho.writers, ho.screens, ho.updates, ho.own, ho.written,
        ho.single⟩

theorem own_initial : ProfileState.initial.Own where
  users id user hget := by cases hget
  attempts := by simp [ProfileState.initial, AuthState.initial]
  writers id := Exclusive.nil
  screens := by simp [ProfileState.initial]
  updates := by simp [ProfileState.initial]
  own := by simp [ProfileState.initial]
  written := by simp [ProfileState.initial]
  single id := Exclusive.nil

theorem own_profile {es : List ProfileEvent} {s : ProfileState}
    (hrun : Machine.run profileStep .initial es = some s)
    (hown : Machine.Meets profileStep EditsOwn .initial es) : s.Own := by
  refine (Machine.run_invariant (I := fun s => s.Sound ∧ s.Own) (fun s e t hs he h => ?_)
    ⟨sound_profile_initial, own_initial⟩ hown hrun).2
  exact ⟨sound_profileStep hs.1 h, own_profileStep hs.1 hs.2 he h⟩

end ProfileLemmas

/-- When users edit their own profile, one edit at a time, and no `setData` fails, a
document has the e-mail of its account, but between the two calls of an edit: what it
holds is then what leads into the account on the manual form. -/
theorem documents_keep_emails (es : List ProfileEvent) (s : ProfileState)
    (hrun : Machine.run profileStep .initial es = some s)
    (hown : Machine.Meets profileStep EditsOwn .initial es) (id : Nat) (user : User)
    (hget : s.auth.backend.users.get id = some user)
    (hdone : ∀ u ∈ s.updates, u.userId = id → u.stage ≠ .setData) :
    (∃ account, s.auth.backend.accounts.get id = some account ∧ account.email = user.email) ∧
      ∀ form : ManualForm, form.signUp = false → form.email = user.email →
        form.checkIfValid = true →
        ((∃ b, s.auth.Enters (.tappedSubmit form) id b) ↔ form.password = user.password) := by
  have hs := sound_profile hrun
  obtain ⟨account, haccount, hpassword⟩ := hs.users id user hget
  obtain ⟨account', haccount', hemail⟩ := (own_profile hrun hown).users id user hget
  obtain rfl := Option.some.inj (haccount.symm.trans haccount')
  have hsame : account.email = user.email := by
    refine hemail.resolve_right ?_
    rintro ⟨u, hu, hid, hstage, -⟩
    exact hdone u hu hid hstage
  refine ⟨⟨account, haccount, hsame⟩, fun form hsignUp hform hvalid => ?_⟩
  rw [enters_login_iff hs.emails haccount hsignUp (hform.trans hsame.symm) hvalid, hpassword]

theorem documents_keep_emails_new_email : ∃ s,
    Machine.run profileStep .initial exNewEmail = some s ∧
    (∃ account, s.auth.backend.accounts.get 0 = some account ∧ account.email = "rob@x.org") ∧
      ∀ form : ManualForm, form.signUp = false → form.email = "rob@x.org" →
        form.checkIfValid = true →
        ((∃ b, s.auth.Enters (.tappedSubmit form) 0 b) ↔ form.password = "secret") :=
  ⟨_, rfl, documents_keep_emails exNewEmail _ rfl (by decide) 0 ⟨"bob", "rob@x.org", "secret", ""⟩
    rfl (by decide)⟩

end LocateMe
