import LocateMe.Lib.Machine
import LocateMe.Lib.Documents

/-!
# Signing up and logging in

Google, Facebook and the manual form all build a `User` and call the same `signUp`
or `login`. These are chains of remote calls, to Firebase Auth and to the `users`
collection, each of which goes on only in the completion of the one before. A
state holds the two stores and the chains in flight; an event starts a chain or
answers the call that a chain waits for.

Results:
1. `sound_step`: an account keeps the password of the user that made it, and
   only its password leads into it.
2. `federated_entry_iff`: a manual submission leads into the account of a Google
   or Facebook user iff its password is the one that those paths give to all.
3. `sign_up_retry_iff`: a sign-up without a failing call leads into the account iff
   there is no account without a document.
-/

namespace LocateMe

open Documents

/-! ## 1. The stores and the chains -/

/-- `struct User`. -/
structure User where
  username : String
  email : String
  password : String
  imageUrl : String
deriving DecidableEq

/-- The three ways in. -/
inductive Entry
  | google
  | facebook
  | manual
deriving DecidableEq

/-- An account of Firebase Auth, with the way in that made it. Its uid is its id in
the collection. -/
structure Account where
  email : String
  password : String
  entry : Entry
deriving DecidableEq

/-- Firebase Auth and the collection `users`. -/
structure Backend where
  accounts : Collection Account
  users : Collection User

/-- The call that a chain waits for, or how it ended. -/
inductive Stage
  | checkIfUserExist
  | createUser
  | setData (id : Nat)
  | signIn
  | transitionToController (id : Nat)
  | stopped
deriving DecidableEq

structure Attempt where
  entry : Entry
  user : User
  stage : Stage
deriving DecidableEq

namespace Backend

/-- The account of an e-mail. -/
def account (b : Backend) (email : String) : Option (Nat × Account) :=
  b.accounts.find Account.email email

/-- The answer of `checkIfUserExist`. -/
def userExist (b : Backend) (email : String) : Bool :=
  b.users.documents.any (·.2.email = email)

end Backend

/-- `signUp`. -/
def signUp (entry : Entry) (user : User) : Attempt := ⟨entry, user, .checkIfUserExist⟩

/-- `login`. -/
def login (entry : Entry) (user : User) : Attempt := ⟨entry, user, .signIn⟩

/-- The answer to the call that a chain waits for; `ok` is false for a call that
fails on the network. An error of `createUser` or `signIn` ends the chain without
a word, and so does one of the two Firestore calls. -/
def Attempt.answer (a : Attempt) (b : Backend) (ok : Bool) : Option (Backend × Attempt) :=
  match a.stage, ok with
  | .checkIfUserExist, true =>
    some (b, { a with stage := if b.userExist a.user.email then .signIn else .createUser })
  | .createUser, true =>
    match b.account a.user.email with
    | some _ => some (b, { a with stage := .stopped })
    | none =>
      some ({ b with accounts := b.accounts.add ⟨a.user.email, a.user.password, a.entry⟩ },
        { a with stage := .setData b.accounts.next })
  | .setData id, true =>
    some ({ b with users := b.users.set id a.user }, { a with stage := .signIn })
  | .signIn, true =>
    match b.account a.user.email with
    | some (id, account) =>
      if account.password = a.user.password then
        some (b, { a with stage := .transitionToController id })
      else some (b, { a with stage := .stopped })
    | none => some (b, { a with stage := .stopped })
  | .transitionToController _, _ => none
  | .stopped, _ => none
  | _, false => some (b, { a with stage := .stopped })

/-! ## 2. The ways in -/

/-- The password that `googleSignIn` and `getUserDataFromFacebook` give to a user. -/
def defaultPassword : String := "defaultPassword"

/-- `googleSignIn`, with the `userInfo` of the notification. `manual` is the field of
the controller, which is set on the manual screens. -/
def googleSignIn (manual : Bool) (fullName email imageUrl : String) : Attempt :=
  let user : User := ⟨fullName, email, defaultPassword, imageUrl⟩
  if !manual then signUp .google user else login .google user

/-- `getUserDataFromFacebook`, with the fields of the result. -/
def getUserDataFromFacebook (manual : Bool) (firstName lastName email imageURL : String) :
    Attempt :=
  let user : User := ⟨firstName ++ " " ++ lastName, email, defaultPassword, imageURL⟩
  if !manual then signUp .facebook user else login .facebook user

/-- The fields of `ManualSignUpController`. -/
structure ManualForm where
  signUp : Bool
  username : String
  email : String
  password : String
deriving DecidableEq

/-- `EmailField.isValid`: `[A-Z0-9a-z._%+-]+@[A-Za-z0-9.-]+\.[A-Za-z]{2,4}`. -/
def emailIsValid (text : String) : Bool :=
  match text.toList.splitOn '@' with
  | [name, domain] =>
    let labels := domain.splitOn '.'
    let last := labels.getLast?.getD []
    name ≠ [] && name.all (fun c => c.isAlphanum || c ∈ "._%+-".toList) &&
      domain.all (fun c => c.isAlphanum || c ∈ ".-".toList) &&
      (2 ≤ labels.length && last.all Char.isAlpha && 2 ≤ last.length && last.length ≤ 4 &&
        last.length + 2 ≤ domain.length)
  | _ => false

/-- The characters that `.` does not match. -/
def isLineTerminator (c : Char) : Bool :=
  c.toNat ∈ [0x0a, 0x0b, 0x0c, 0x0d, 0x85, 0x2028, 0x2029]

/-- `PasswordField.isValid`: `.{6,20}`. -/
def passwordIsValid (text : String) : Bool :=
  6 ≤ text.length && text.length ≤ 20 && text.toList.all fun c => !isLineTerminator c

/-- `checkIfValid`. `length` counts code points, and the app's `count` characters, of
which there can be fewer. -/
def ManualForm.checkIfValid (f : ManualForm) : Bool :=
  f.email != "" && f.password != "" && (!f.signUp || decide (3 ≤ f.username.length)) &&
    (emailIsValid f.email && passwordIsValid f.password)

/-- `tappedSubmit`. -/
def ManualForm.tappedSubmit (f : ManualForm) : Option Attempt :=
  if f.checkIfValid then
    some (if f.signUp then LocateMe.signUp .manual ⟨f.username, f.email, f.password, ""⟩
      else login .manual ⟨"", f.email, f.password, ""⟩)
  else none

/-- The stores and the chains that were started, in order. -/
structure AuthState where
  backend : Backend
  attempts : List Attempt

inductive AuthEvent
  | googleSignIn (manual : Bool) (fullName email imageUrl : String)
  | getUserDataFromFacebook (manual : Bool) (firstName lastName email imageURL : String)
  | tappedSubmit (form : ManualForm)
  | answer (i : Nat) (ok : Bool)
deriving DecidableEq

/-- The chain that an event starts. -/
def AuthEvent.started : AuthEvent → Option Attempt
  | .googleSignIn manual fullName email imageUrl =>
    some (LocateMe.googleSignIn manual fullName email imageUrl)
  | .getUserDataFromFacebook manual firstName lastName email imageURL =>
    some (LocateMe.getUserDataFromFacebook manual firstName lastName email imageURL)
  | .tappedSubmit form => form.tappedSubmit
  | .answer _ _ => none

/-- One event. There is no next state for a form that is not valid, and for an
answer that no chain waits for. -/
def authStep (s : AuthState) : AuthEvent → Option AuthState
  | .answer i ok => do
    let a ← s.attempts[i]?
    let (backend, a) ← a.answer s.backend ok
    some ⟨backend, s.attempts.set i a⟩
  | e => e.started.map fun a => ⟨s.backend, s.attempts ++ [a]⟩

/-- No account and no chain. -/
def AuthState.initial : AuthState := ⟨⟨.empty, .empty⟩, []⟩

/-! ## 3. Whose password an account has -/

/-- What every run keeps: e-mails are the keys of the accounts, an account that
Google or Facebook made has their password, and a chain that has entered an
account submitted its e-mail and password. -/
structure AuthState.Sound (s : AuthState) : Prop where
  emails : s.backend.accounts.KeyUnique Account.email
  accounts : ∀ id account, s.backend.accounts.get id = some account → account.entry ≠ .manual →
    account.password = defaultPassword
  attempts : ∀ a ∈ s.attempts, a.entry ≠ .manual → a.user.password = defaultPassword
  entered : ∀ a ∈ s.attempts, ∀ id, a.stage = .transitionToController id →
    ∃ account, s.backend.accounts.get id = some account ∧ account.email = a.user.email ∧
      account.password = a.user.password

/-- What an answer can do to the stores, and the stage that it leads to. -/
inductive Answered (a : Attempt) (b : Backend) : Backend → Stage → Prop
  | went (stage : Stage) (h : stage = .createUser ∨ stage = .signIn ∨ stage = .stopped) :
      Answered a b b stage
  | made (h : b.account a.user.email = none) :
      Answered a b ⟨b.accounts.add ⟨a.user.email, a.user.password, a.entry⟩, b.users⟩
        (.setData b.accounts.next)
  | written (id : Nat) (h : a.stage = .setData id) :
      Answered a b ⟨b.accounts, b.users.set id a.user⟩ .signIn
  | entered (id : Nat) (account : Account) (h : b.account a.user.email = some (id, account))
      (hpassword : account.password = a.user.password) :
      Answered a b b (.transitionToController id)

namespace AuthLemmas

/-- The spec of an answer. The chain keeps its user. -/
theorem answered_of_answer {a a' : Attempt} {b b' : Backend} {ok : Bool}
    (h : a.answer b ok = some (b', a')) :
    ∃ stage, a' = ⟨a.entry, a.user, stage⟩ ∧ Answered a b b' stage := by
  have hwent : ∀ {stage : Stage}, (stage = .createUser ∨ stage = .signIn ∨ stage = .stopped) →
      some (b, { a with stage := stage }) = some (b', a') →
        ∃ stage, a' = ⟨a.entry, a.user, stage⟩ ∧ Answered a b b' stage := by
    intro stage hstage heq
    obtain ⟨rfl, rfl⟩ := Prod.mk.inj (Option.some.inj heq)
    exact ⟨stage, rfl, .went stage hstage⟩
  unfold Attempt.answer at h
  split at h
  · refine hwent ?_ h
    split
    · exact .inr (.inl rfl)
    · exact .inl rfl
  · split at h
    · exact hwent (.inr (.inr rfl)) h
    · next hnone =>
      obtain ⟨rfl, rfl⟩ := Prod.mk.inj (Option.some.inj h)
      exact ⟨_, rfl, .made hnone⟩
  · next id hstage =>
    obtain ⟨rfl, rfl⟩ := Prod.mk.inj (Option.some.inj h)
    exact ⟨_, rfl, .written id hstage⟩
  · split at h
    · next id account haccount =>
      split at h
      · next hpassword =>
        obtain ⟨rfl, rfl⟩ := Prod.mk.inj (Option.some.inj h)
        exact ⟨_, rfl, .entered id account haccount hpassword⟩
      · exact hwent (.inr (.inr rfl)) h
    · exact hwent (.inr (.inr rfl)) h
  · cases h
  · cases h
  · exact hwent (.inr (.inr rfl)) h

/-- What a chain that an event starts begins with. -/
theorem started_spec {e : AuthEvent} {a : Attempt} (h : e.started = some a) :
    (a.stage = .checkIfUserExist ∨ a.stage = .signIn) ∧
      (a.entry ≠ .manual → a.user.password = defaultPassword) ∧
      (a.entry = .manual → ∃ form, e = .tappedSubmit form ∧ a.user.password = form.password) := by
  cases e with
  | googleSignIn manual fullName email imageUrl =>
    obtain rfl := Option.some.inj h
    cases manual <;> simp [googleSignIn, signUp, login]
  | getUserDataFromFacebook manual firstName lastName email imageURL =>
    obtain rfl := Option.some.inj h
    cases manual <;> simp [getUserDataFromFacebook, signUp, login]
  | tappedSubmit form =>
    simp only [AuthEvent.started, ManualForm.tappedSubmit] at h
    split at h
    · obtain rfl := Option.some.inj h
      split
      · exact ⟨.inl rfl, fun hne => absurd rfl hne, fun _ => ⟨form, rfl, rfl⟩⟩
      · exact ⟨.inr rfl, fun hne => absurd rfl hne, fun _ => ⟨form, rfl, rfl⟩⟩
    · cases h
  | answer i ok => cases h

/-- What an event does: it starts a chain, or answers one. -/
theorem authStep_cases {s t : AuthState} {e : AuthEvent} (h : authStep s e = some t) :
    (∃ a, e.started = some a ∧ t = ⟨s.backend, s.attempts ++ [a]⟩) ∨
      ∃ i ok a b a', e = .answer i ok ∧ s.attempts[i]? = some a ∧
        a.answer s.backend ok = some (b, a') ∧ t = ⟨b, s.attempts.set i a'⟩ := by
  cases e with
  | answer i ok =>
    obtain ⟨a, ha, hrest⟩ := Option.bind_eq_some_iff.mp h
    obtain ⟨⟨b, a'⟩, hanswer, ht⟩ := Option.bind_eq_some_iff.mp hrest
    exact .inr ⟨i, ok, a, b, a', rfl, ha, hanswer, (Option.some.inj ht).symm⟩
  | googleSignIn | getUserDataFromFacebook | tappedSubmit =>
    simp only [authStep] at h
    obtain ⟨a, ha, rfl⟩ := Option.map_eq_some_iff.mp h
    exact .inl ⟨a, ha, rfl⟩

/-- An account stays as it is while others are added. -/
theorem get_of_answered {a : Attempt} {b b' : Backend} {stage : Stage} (h : Answered a b b' stage)
    {id : Nat} {account : Account} (hget : b.accounts.get id = some account) :
    b'.accounts.get id = some account := by
  cases h with
  | made hnone => exact Collection.get_add_of_some hget
  | _ => exact hget

theorem sound_step {s t : AuthState} {e : AuthEvent} (hs : s.Sound) (h : authStep s e = some t) :
    t.Sound := by
  rcases authStep_cases h with ⟨a, ha, rfl⟩ | ⟨i, ok, a, b, a', rfl, ha, hanswer, rfl⟩
  · obtain ⟨hstage, hfederated, -⟩ := started_spec ha
    refine ⟨hs.emails, hs.accounts, fun c hc => ?_, fun c hc id hid => ?_⟩
    · rcases List.mem_append.mp hc with hc | hc
      · exact hs.attempts c hc
      · obtain rfl := List.mem_singleton.mp hc
        exact hfederated
    · rcases List.mem_append.mp hc with hc | hc
      · exact hs.entered c hc id hid
      · obtain rfl := List.mem_singleton.mp hc
        rcases hstage with hstage | hstage
        · cases hstage.symm.trans hid
        · cases hstage.symm.trans hid
  · obtain ⟨stage, rfl, hanswered⟩ := answered_of_answer hanswer
    have hmem : a ∈ s.attempts := List.mem_of_getElem? ha
    refine ⟨?_, ?_, fun c hc => ?_, fun c hc id hid => ?_⟩
    · cases hanswered with
      | made hnone =>
        exact (Collection.keyUnique_add_iff hs.emails).mpr (Collection.find_eq_none.mp hnone)
      | _ => exact hs.emails
    · intro id account hget hne
      cases hanswered with
      | made hnone =>
        rcases Collection.get_add_eq_some.mp hget with ⟨-, rfl⟩ | hold
        · exact hs.attempts a hmem hne
        · exact hs.accounts id account hold hne
      | _ => exact hs.accounts id account hget hne
    · rcases List.mem_or_eq_of_mem_set hc with hc | rfl
      · exact hs.attempts c hc
      · exact hs.attempts a hmem
    · rcases List.mem_or_eq_of_mem_set hc with hc | rfl
      · obtain ⟨account, hget, hrest⟩ := hs.entered c hc id hid
        exact ⟨account, get_of_answered hanswered hget, hrest⟩
      · obtain rfl : stage = .transitionToController id := hid
        cases hanswered with
        | went _ hstage => simp at hstage
        | entered _ account haccount hpassword =>
          obtain ⟨hget, hemail⟩ := (Collection.find_eq_some hs.emails).mp haccount
          exact ⟨account, hget, hemail, hpassword⟩

theorem sound_initial : AuthState.initial.Sound where
  emails i x hx := by cases hx
  accounts id account hget := by cases hget
  attempts := by simp [AuthState.initial]
  entered := by simp [AuthState.initial]

end AuthLemmas

/-! ## 4. A chain on its own -/

/-- The answers to `n` calls of a chain, none of which fails, with nothing between
them. -/
def Attempt.answers (a : Attempt) (b : Backend) : Nat → Option (Backend × Attempt)
  | 0 => some (b, a)
  | n + 1 => (a.answer b true).bind fun (b, a) => a.answers b n

/-- The event starts a chain that, when none of its calls fails and nothing happens
between them, ends in `transitionToController` with `id` and leaves the stores
`b`. -/
def AuthState.Enters (s : AuthState) (e : AuthEvent) (id : Nat) (b : Backend) : Prop :=
  ∃ n t, Machine.run authStep s (e :: List.replicate n (.answer s.attempts.length true)) = some t ∧
    (t.attempts[s.attempts.length]?).map Attempt.stage = some (.transitionToController id) ∧
    t.backend = b

namespace AuthLemmas

/-- A chain on its own ends in `transitionToController`. -/
def Ends (a : Attempt) (b : Backend) (id : Nat) (b' : Backend) : Prop :=
  ∃ n a', a.answers b n = some (b', a') ∧ a'.stage = .transitionToController id

theorem run_answers (as : List Attempt) (a : Attempt) (b : Backend) (n : Nat) :
    Machine.run authStep ⟨b, as ++ [a]⟩ (List.replicate n (.answer as.length true)) =
      (a.answers b n).map fun (b, a) => ⟨b, as ++ [a]⟩ := by
  induction n generalizing a b with
  | zero => rfl
  | succ n ih =>
    rw [List.replicate_succ, Machine.run, Attempt.answers]
    have hstep : authStep ⟨b, as ++ [a]⟩ (.answer as.length true) =
        (a.answer b true).map fun (b, a) => ⟨b, as ++ [a]⟩ := by
      simp [authStep, Option.map_eq_bind]
    rw [hstep]
    cases a.answer b true with
    | none => rfl
    | some next => exact ih next.2 next.1

theorem enters_iff {s : AuthState} {e : AuthEvent} {a : Attempt} (he : e.started = some a)
    {id : Nat} {b : Backend} : s.Enters e id b ↔ Ends a s.backend id b := by
  have hstep : authStep s e = some ⟨s.backend, s.attempts ++ [a]⟩ := by
    cases e with
    | answer i ok => cases he
    | googleSignIn | getUserDataFromFacebook | tappedSubmit =>
      simp only [authStep, he, Option.map_some]
  unfold AuthState.Enters Ends
  refine exists_congr fun n => ?_
  simp only [Machine.run, hstep, Option.bind_some, run_answers, Option.map_eq_some_iff]
  constructor
  · rintro ⟨_, ⟨⟨b', a'⟩, hanswers, rfl⟩, hstage, rfl⟩
    refine ⟨a', hanswers, ?_⟩
    simpa using hstage
  · rintro ⟨a', hanswers, hstage⟩
    exact ⟨_, ⟨(b, a'), hanswers, rfl⟩, by simp [hstage], rfl⟩

/-- A chain that has not ended ends as it does after its next answer. -/
theorem ends_step {a a₁ : Attempt} {b b₁ : Backend} (h : a.answer b true = some (b₁, a₁)) {id : Nat}
    {b' : Backend} : Ends a b id b' ↔ Ends a₁ b₁ id b' := by
  constructor
  · rintro ⟨n, a', hanswers, hstage⟩
    cases n with
    | zero =>
      obtain ⟨rfl, rfl⟩ := Prod.mk.inj (Option.some.inj hanswers)
      obtain ⟨entry, user, stage⟩ := a
      obtain rfl : stage = .transitionToController id := hstage
      cases h
    | succ n =>
      rw [Attempt.answers, h] at hanswers
      exact ⟨n, a', hanswers, hstage⟩
  · rintro ⟨n, a', hanswers, hstage⟩
    exact ⟨n + 1, a', by rw [Attempt.answers, h]; exact hanswers, hstage⟩

theorem ends_transition {entry : Entry} {user : User} {i id : Nat} {b b' : Backend} :
    Ends ⟨entry, user, .transitionToController i⟩ b id b' ↔ i = id ∧ b = b' := by
  constructor
  · rintro ⟨n, a', hanswers, hstage⟩
    cases n with
    | zero =>
      obtain ⟨rfl, rfl⟩ := Prod.mk.inj (Option.some.inj hanswers)
      exact ⟨Stage.transitionToController.inj hstage, rfl⟩
    | succ n => cases hanswers
  · rintro ⟨rfl, rfl⟩
    exact ⟨0, _, rfl, rfl⟩

theorem not_ends_stopped {entry : Entry} {user : User} {id : Nat} {b b' : Backend} :
    ¬ Ends ⟨entry, user, .stopped⟩ b id b' := by
  rintro ⟨n, a', hanswers, hstage⟩
  cases n with
  | zero =>
    obtain ⟨rfl, rfl⟩ := Prod.mk.inj (Option.some.inj hanswers)
    cases hstage
  | succ n => cases hanswers

/-- Signing in needs the password of the account. -/
theorem ends_signIn {entry : Entry} {user : User} {id : Nat} {b b' : Backend} :
    Ends ⟨entry, user, .signIn⟩ b id b' ↔ b = b' ∧
      ∃ account, b.account user.email = some (id, account) ∧ account.password = user.password := by
  cases haccount : b.account user.email with
  | none =>
    have hstop : Attempt.answer ⟨entry, user, .signIn⟩ b true =
        some (b, ⟨entry, user, .stopped⟩) := by simp [Attempt.answer, haccount]
    rw [ends_step hstop]
    exact iff_of_false not_ends_stopped (by simp)
  | some found =>
    obtain ⟨i, account⟩ := found
    by_cases hpassword : account.password = user.password
    · have henter : Attempt.answer ⟨entry, user, .signIn⟩ b true =
          some (b, ⟨entry, user, .transitionToController i⟩) := by
        simp [Attempt.answer, haccount, hpassword]
      rw [ends_step henter, ends_transition, and_comm]
      refine and_congr_right fun _ => ⟨?_, ?_⟩
      · rintro rfl
        exact ⟨account, rfl, hpassword⟩
      · rintro ⟨_, heq, -⟩
        exact congrArg Prod.fst (Option.some.inj heq)
    · have hstop : Attempt.answer ⟨entry, user, .signIn⟩ b true =
          some (b, ⟨entry, user, .stopped⟩) := by simp [Attempt.answer, haccount, hpassword]
      rw [ends_step hstop]
      refine iff_of_false not_ends_stopped ?_
      rintro ⟨-, _, heq, hsame⟩
      obtain ⟨-, rfl⟩ := Prod.mk.inj (Option.some.inj heq)
      exact hpassword hsame

/-- A sign-up for an e-mail with a document signs in. -/
theorem ends_signUp_of_userExist {entry : Entry} {user : User} {id : Nat} {b b' : Backend}
    (h : b.userExist user.email = true) :
    Ends (signUp entry user) b id b' ↔ Ends ⟨entry, user, .signIn⟩ b id b' :=
  ends_step (by simp [Attempt.answer, signUp, h])

/-- A sign-up for an e-mail without a document goes on to `createUser`. -/
theorem ends_signUp_of_not_userExist {entry : Entry} {user : User} {id : Nat} {b b' : Backend}
    (h : b.userExist user.email = false) :
    Ends (signUp entry user) b id b' ↔ Ends ⟨entry, user, .createUser⟩ b id b' :=
  ends_step (by simp [Attempt.answer, signUp, h])

/-- A sign-up for an e-mail with an account and no document ends in an error of
`createUser`. -/
theorem not_ends_signUp {entry : Entry} {user : User} {id : Nat} {b b' : Backend}
    (hdoc : b.userExist user.email = false) (haccount : (b.account user.email).isSome) :
    ¬ Ends (signUp entry user) b id b' := by
  obtain ⟨found, hfound⟩ := Option.isSome_iff_exists.mp haccount
  have hstop : Attempt.answer ⟨entry, user, .createUser⟩ b true =
      some (b, ⟨entry, user, .stopped⟩) := by simp [Attempt.answer, hfound]
  rw [ends_signUp_of_not_userExist hdoc, ends_step hstop]
  exact not_ends_stopped

/-- A sign-up for a new e-mail makes the account and the document, and signs in. -/
theorem ends_signUp_new {entry : Entry} {user : User} {b : Backend}
    (hemails : b.accounts.KeyUnique Account.email) (hdoc : b.userExist user.email = false)
    (hnone : b.account user.email = none) :
    Ends (signUp entry user) b b.accounts.next
      ⟨b.accounts.add ⟨user.email, user.password, entry⟩, b.users.set b.accounts.next user⟩ := by
  let made : Backend := ⟨b.accounts.add ⟨user.email, user.password, entry⟩, b.users⟩
  let written : Backend := ⟨made.accounts, b.users.set b.accounts.next user⟩
  have hcreate : Attempt.answer ⟨entry, user, .createUser⟩ b true =
      some (made, ⟨entry, user, .setData b.accounts.next⟩) := by
    simp [Attempt.answer, hnone, made]
  have hwrite : Attempt.answer ⟨entry, user, .setData b.accounts.next⟩ made true =
      some (written, ⟨entry, user, .signIn⟩) := by
    simp [Attempt.answer, made, written]
  have hnew : made.accounts.KeyUnique Account.email :=
    (Collection.keyUnique_add_iff hemails).mpr (Collection.find_eq_none.mp hnone)
  rw [ends_signUp_of_not_userExist hdoc, ends_step hcreate, ends_step hwrite, ends_signIn]
  exact ⟨rfl, ⟨user.email, user.password, entry⟩,
    (Collection.find_eq_some hnew).mpr ⟨Collection.get_add_self .., rfl⟩, rfl⟩

end AuthLemmas

open AuthLemmas

/-! ## 5. Entering without the provider -/

/-- A manual submission has ended in the account of a Google or Facebook user. -/
def AuthState.Intruded (s : AuthState) : Prop :=
  ∃ a ∈ s.attempts, a.entry = .manual ∧ ∃ id account, a.stage = .transitionToController id ∧
    s.backend.accounts.get id = some account ∧ account.entry ≠ .manual

/-- No manual submission with the password that the other ways in give to all. -/
def OwnPassword (_ : AuthState) (e : AuthEvent) : Prop :=
  ∀ form, e = .tappedSubmit form → form.password ≠ defaultPassword

namespace AuthLemmas

theorem ownPassword_step {s t : AuthState} {e : AuthEvent}
    (hs : ∀ a ∈ s.attempts, a.entry = .manual → a.user.password ≠ defaultPassword)
    (hown : OwnPassword s e) (h : authStep s e = some t) :
    ∀ a ∈ t.attempts, a.entry = .manual → a.user.password ≠ defaultPassword := by
  rcases authStep_cases h with ⟨a, ha, rfl⟩ | ⟨i, ok, a, b, a', rfl, ha, hanswer, rfl⟩
  · intro c hc hmanual
    rcases List.mem_append.mp hc with hc | hc
    · exact hs c hc hmanual
    · obtain rfl := List.mem_singleton.mp hc
      obtain ⟨form, rfl, hpassword⟩ := (started_spec ha).2.2 hmanual
      rw [hpassword]
      exact hown form rfl
  · obtain ⟨stage, rfl, -⟩ := answered_of_answer hanswer
    intro c hc hmanual
    rcases List.mem_or_eq_of_mem_set hc with hc | rfl
    · exact hs c hc hmanual
    · exact hs a (List.mem_of_getElem? ha) hmanual

end AuthLemmas

/-- In a run in which no manual submission has the password `defaultPassword`, none
ends in the account of a Google or Facebook user. After any run a valid manual
submission for such an account leads into it, when no call fails, iff it has that
password and, to sign up, the account has its document. -/
theorem federated_entry_iff (es : List AuthEvent) (s : AuthState)
    (hrun : Machine.run authStep .initial es = some s) :
    (Machine.Meets authStep OwnPassword .initial es → ¬ s.Intruded) ∧
    ∀ id account (form : ManualForm), s.backend.accounts.get id = some account →
      account.entry ≠ .manual → form.email = account.email → form.checkIfValid = true →
      ((∃ b, s.Enters (.tappedSubmit form) id b) ↔
        form.password = defaultPassword ∧
          (form.signUp = true → s.backend.userExist form.email = true)) := by
  have hs : s.Sound := Machine.run_invariant' (fun _ _ _ => sound_step) sound_initial hrun
  refine ⟨fun hown => ?_, fun id account form hget hfederated hemail hvalid => ?_⟩
  · rintro ⟨a, ha, hmanual, id, account, hstage, hget, hfederated⟩
    have hown' := Machine.run_invariant (fun _ _ _ => ownPassword_step)
      (by simp [AuthState.initial]) hown hrun
    obtain ⟨account', hget', -, hpassword⟩ := hs.entered a ha id hstage
    obtain rfl := Option.some.inj (hget.symm.trans hget')
    exact hown' a ha hmanual (hpassword ▸ hs.accounts id account hget hfederated)
  · have hfound : s.backend.account form.email = some (id, account) :=
      (Collection.find_eq_some hs.emails).mpr ⟨hget, hemail.symm⟩
    have hpassword := hs.accounts id account hget hfederated
    have hsign : ∀ user : User, user.email = form.email → user.password = form.password →
        ((∃ b, Ends ⟨.manual, user, .signIn⟩ s.backend id b) ↔
          form.password = defaultPassword) := by
      intro user huser hsame
      simp only [ends_signIn, huser, hsame, hfound]
      constructor
      · rintro ⟨_, -, _, heq, hpw⟩
        obtain ⟨-, rfl⟩ := Prod.mk.inj (Option.some.inj heq)
        exact hpw.symm.trans hpassword
      · intro hpw
        exact ⟨_, rfl, account, rfl, hpassword.trans hpw.symm⟩
    cases hsignUp : form.signUp with
    | false =>
      have hstarted : (AuthEvent.tappedSubmit form).started =
          some (login .manual ⟨"", form.email, form.password, ""⟩) := by
        simp [AuthEvent.started, ManualForm.tappedSubmit, hvalid, hsignUp]
      simp only [enters_iff hstarted]
      exact (hsign _ rfl rfl).trans (by simp)
    | true =>
      have hstarted : (AuthEvent.tappedSubmit form).started =
          some (signUp .manual ⟨form.username, form.email, form.password, ""⟩) := by
        simp [AuthEvent.started, ManualForm.tappedSubmit, hvalid, hsignUp]
      simp only [enters_iff hstarted]
      cases hdoc : s.backend.userExist form.email with
      | true =>
        refine (exists_congr fun b => ends_signUp_of_userExist hdoc).trans ?_
        exact (hsign _ rfl rfl).trans (by simp)
      | false =>
        refine iff_of_false ?_ (by simp)
        rintro ⟨b, hends⟩
        exact not_ends_signUp hdoc (by rw [hfound]; rfl) hends

/-- Ann signs up with Google. -/
def exGoogle : List AuthEvent :=
  .googleSignIn false "Ann B" "ann@x.org" "" :: List.replicate 4 (.answer 0 true)

/-- A log-in on the manual form with her e-mail. -/
def exForm (password : String) : ManualForm := ⟨false, "", "ann@x.org", password⟩

theorem federated_entry_iff_google : ∃ s,
    Machine.run authStep .initial exGoogle = some s ∧
    (Machine.Meets authStep OwnPassword .initial exGoogle → ¬ s.Intruded) ∧
    ∀ id account (form : ManualForm), s.backend.accounts.get id = some account →
      account.entry ≠ .manual → form.email = account.email → form.checkIfValid = true →
      ((∃ b, s.Enters (.tappedSubmit form) id b) ↔
        form.password = defaultPassword ∧
          (form.signUp = true → s.backend.userExist form.email = true)) :=
  ⟨_, rfl, federated_entry_iff exGoogle _ rfl⟩

/-- The form accepts `defaultPassword`, and Firebase Auth finds it right. -/
theorem default_password_enters :
    ¬ ∀ (es : List AuthEvent) (s : AuthState),
      Machine.run authStep .initial es = some s → ¬ s.Intruded := by
  intro hall
  refine hall (exGoogle ++ [.tappedSubmit (exForm "defaultPassword"), .answer 1 true]) _ rfl ?_
  exact ⟨_, List.mem_cons_of_mem _ List.mem_cons_self, rfl, 0,
    ⟨"ann@x.org", "defaultPassword", .google⟩, rfl, rfl, by decide⟩

/-! ## 6. Signing up again -/

/-- There is an account for the e-mail, and no document. -/
def Backend.HalfMade (b : Backend) (email : String) : Prop :=
  (b.account email).isSome ∧ b.userExist email = false

instance (b : Backend) (email : String) : Decidable (b.HalfMade email) :=
  inferInstanceAs (Decidable ((b.account email).isSome ∧ b.userExist email = false))

/-- What a run of one user's attempts keeps: all chains and accounts have the
e-mail and password, and a document is that of an account. -/
structure AuthState.OneUser (email password : String) (s : AuthState) : Prop where
  attempts : ∀ a ∈ s.attempts, a.user.email = email ∧ a.user.password = password
  accounts : ∀ id account, s.backend.accounts.get id = some account → account.password = password
  writing : ∀ a ∈ s.attempts, ∀ id, a.stage = .setData id →
    (s.backend.accounts.get id).isSome
  users : ∀ id user, s.backend.users.get id = some user → (s.backend.accounts.get id).isSome
  emails : ∀ id account, s.backend.accounts.get id = some account → account.email = email

/-- The event answers a call, or starts a chain with the e-mail and password. -/
def SameUser (email password : String) (_ : AuthState) (e : AuthEvent) : Prop :=
  ∀ a, e.started = some a → a.user.email = email ∧ a.user.password = password

namespace AuthLemmas

theorem isSome_of_answered {a : Attempt} {b b' : Backend} {stage : Stage}
    (h : Answered a b b' stage) {id : Nat} (hsome : (b.accounts.get id).isSome) :
    (b'.accounts.get id).isSome := by
  obtain ⟨account, hget⟩ := Option.isSome_iff_exists.mp hsome
  rw [get_of_answered h hget]
  rfl

theorem oneUser_step {email password : String} {s t : AuthState} {e : AuthEvent}
    (hs : s.OneUser email password) (hsame : SameUser email password s e)
    (h : authStep s e = some t) : t.OneUser email password := by
  rcases authStep_cases h with ⟨a, ha, rfl⟩ | ⟨i, ok, a, b, a', rfl, ha, hanswer, rfl⟩
  · refine ⟨fun c hc => ?_, hs.accounts, fun c hc id hid => ?_, hs.users, hs.emails⟩
    · rcases List.mem_append.mp hc with hc | hc
      · exact hs.attempts c hc
      · obtain rfl := List.mem_singleton.mp hc
        exact hsame c ha
    · rcases List.mem_append.mp hc with hc | hc
      · exact hs.writing c hc id hid
      · obtain rfl := List.mem_singleton.mp hc
        rcases (started_spec ha).1 with hstage | hstage
        · cases hstage.symm.trans hid
        · cases hstage.symm.trans hid
  · obtain ⟨stage, rfl, hanswered⟩ := answered_of_answer hanswer
    have hmem : a ∈ s.attempts := List.mem_of_getElem? ha
    obtain ⟨hemail, hpassword⟩ := hs.attempts a hmem
    have hnew : ∀ id account, b.accounts.get id = some account →
        (account.email = email ∧ account.password = password) := by
      intro id account hget
      cases hanswered with
      | made hnone =>
        rcases Collection.get_add_eq_some.mp hget with ⟨-, rfl⟩ | hold
        · exact ⟨hemail, hpassword⟩
        · exact ⟨hs.emails id account hold, hs.accounts id account hold⟩
      | _ => exact ⟨hs.emails id account hget, hs.accounts id account hget⟩
    refine ⟨fun c hc => ?_, fun id account hget => (hnew id account hget).2, fun c hc id hid => ?_,
      fun id user hget => ?_, fun id account hget => (hnew id account hget).1⟩
    · rcases List.mem_or_eq_of_mem_set hc with hc | rfl
      · exact hs.attempts c hc
      · exact ⟨hemail, hpassword⟩
    · rcases List.mem_or_eq_of_mem_set hc with hc | rfl
      · exact isSome_of_answered hanswered (hs.writing c hc id hid)
      · obtain rfl : stage = .setData id := hid
        cases hanswered with
        | went _ hstage => simp at hstage
        | made hnone => simp
    · refine isSome_of_answered hanswered ?_
      cases hanswered with
      | written id' hstage =>
        simp only [Collection.get_set] at hget
        split at hget
        · next heq =>
          rw [heq]
          exact hs.writing a hmem id' hstage
        · exact hs.users id user hget
      | _ => exact hs.users id user hget

theorem oneUser_initial (email password : String) : AuthState.initial.OneUser email password where
  attempts := by simp [AuthState.initial]
  accounts id account hget := by cases hget
  writing := by simp [AuthState.initial]
  users id user hget := by cases hget
  emails id account hget := by cases hget

/-- One user's document is that of the one account. -/
theorem users_of_userExist {email password : String} {s : AuthState} (hs : s.Sound)
    (hone : s.OneUser email password) (hdoc : s.backend.userExist email = true) :
    ∃ id account, s.backend.account email = some (id, account) ∧ account.password = password ∧
      (s.backend.users.get id).isSome := by
  obtain ⟨⟨id, user⟩, hin, -⟩ := List.any_eq_true.mp hdoc
  have hget := Collection.mem_documents.mp hin
  obtain ⟨account, haccount⟩ := Option.isSome_iff_exists.mp (hone.users id user hget)
  refine ⟨id, account, ?_, hone.accounts id account haccount, by simp [hget]⟩
  exact (Collection.find_eq_some hs.emails).mpr ⟨haccount, hone.emails id account haccount⟩

end AuthLemmas

/-- After any run of one user's attempts, whichever of their calls failed, a sign-up
none of whose calls fails enters the account of the e-mail and leaves it with a
document, iff the attempts before did not leave it without one. -/
theorem sign_up_retry_iff (es : List AuthEvent) (s : AuthState)
    (hrun : Machine.run authStep .initial es = some s) (e : AuthEvent) (a : Attempt)
    (he : e.started = some a) (hsignUp : a.stage = .checkIfUserExist)
    (hsame : Machine.Meets authStep (SameUser a.user.email a.user.password) .initial es) :
    (∃ id b, s.Enters e id b ∧ (b.account a.user.email).map Prod.fst = some id ∧
      (b.users.get id).isSome) ↔ ¬ s.backend.HalfMade a.user.email := by
  have hs : s.Sound := Machine.run_invariant' (fun _ _ _ => sound_step) sound_initial hrun
  have hone : s.OneUser a.user.email a.user.password :=
    Machine.run_invariant (fun _ _ _ => oneUser_step) (oneUser_initial _ _) hsame hrun
  obtain ⟨entry, user, stage⟩ := a
  obtain rfl : stage = .checkIfUserExist := hsignUp
  simp only [enters_iff he]
  cases hdoc : s.backend.userExist user.email with
  | true =>
    refine iff_of_true ?_ (by simp [Backend.HalfMade, hdoc])
    obtain ⟨id, account, haccount, hpassword, huser⟩ := users_of_userExist hs hone hdoc
    refine ⟨id, s.backend, ?_, by simp [haccount], huser⟩
    exact (ends_signUp_of_userExist hdoc).mpr
      (ends_signIn.mpr ⟨rfl, account, haccount, hpassword⟩)
  | false =>
    cases hfound : s.backend.account user.email with
    | none =>
      refine iff_of_true ?_ (by simp [Backend.HalfMade, hfound])
      refine ⟨_, _, ends_signUp_new hs.emails hdoc hfound, ?_, by simp⟩
      have hnew := (Collection.keyUnique_add_iff hs.emails
        (x := ⟨user.email, user.password, entry⟩)).mpr (Collection.find_eq_none.mp hfound)
      have hmade := (Collection.find_eq_some hnew).mpr ⟨Collection.get_add_self .., rfl⟩
      exact congrArg (Option.map Prod.fst) hmade
    | some found =>
      refine iff_of_false ?_ (by simp [Backend.HalfMade, hfound, hdoc])
      rintro ⟨id, b, hends, -⟩
      exact not_ends_signUp hdoc (by rw [hfound]; rfl) hends

/-- A sign-up on the manual form. -/
def exSignUp : AuthEvent := .tappedSubmit ⟨true, "ann", "ann@x.org", "secret"⟩

/-- A first sign-up whose `setData` fails. -/
def exPartial : List AuthEvent :=
  [exSignUp, .answer 0 true, .answer 0 true, .answer 0 false]

theorem sameUser_partial :
    Machine.Meets authStep (SameUser "ann@x.org" "secret") .initial exPartial := by
  have hsign : SameUser "ann@x.org" "secret" .initial exSignUp := by
    intro a ha
    obtain rfl := Option.some.inj ha
    exact ⟨rfl, rfl⟩
  have hanswer : ∀ s ok, SameUser "ann@x.org" "secret" s (.answer 0 ok) := by
    intro s ok a ha
    cases ha
  exact ⟨hsign, hanswer _ _, hanswer _ _, hanswer _ _, trivial⟩

theorem sign_up_retry_iff_partial : ∃ s, Machine.run authStep .initial exPartial = some s ∧
    ((∃ id b, s.Enters exSignUp id b ∧ (b.account "ann@x.org").map Prod.fst = some id ∧
      (b.users.get id).isSome) ↔ ¬ s.backend.HalfMade "ann@x.org") :=
  ⟨_, rfl, sign_up_retry_iff exPartial _ rfl exSignUp
    (signUp .manual ⟨"ann", "ann@x.org", "secret", ""⟩) rfl rfl sameUser_partial⟩

/-- The account is there, the document is not, and every later `createUser` fails. -/
theorem set_data_failure_blocks_sign_up :
    ¬ ∀ (es : List AuthEvent) (s : AuthState), Machine.run authStep .initial es = some s →
      Machine.Meets authStep (SameUser "ann@x.org" "secret") .initial es →
        ∃ id b, s.Enters exSignUp id b ∧ (b.account "ann@x.org").map Prod.fst = some id ∧
          (b.users.get id).isSome := by
  intro hall
  obtain ⟨id, b, henters, -⟩ := hall exPartial _ rfl sameUser_partial
  have hstarted : exSignUp.started =
      some (signUp .manual ⟨"ann", "ann@x.org", "secret", ""⟩) := rfl
  exact not_ends_signUp rfl rfl ((enters_iff hstarted).mp henters)

end LocateMe
