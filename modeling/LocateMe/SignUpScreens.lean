import LocateMe.Authentication

/-!
# The screens that wait for Google

`SignUpController`, and `ManualSignUpController` when it is there to log in, register
for the notification that `AppDelegate` posts when Google has signed a user in. They
are removed as observers when they open a form or go on to the saved lists. Their
`deinit` would do so too, but `controller = self` keeps every one of them alive, also
after it was closed.

Results:
1. `sound_signUpStep`: the screens that the navigation stack can hold.
2. `observes_iff`: which screens still observe after a run.
3. `notification_chains`: a notification starts a chain for each of these, on screen or
   not, and at most one of them is on the stack.
-/

namespace LocateMe

/-! ## 1. Screens, observers and chains -/

/-- `SignUpController`, or `ManualSignUpController` with its field `signUp`. -/
inductive AuthenticationScreen
  | signUp
  | manual (signUp : Bool)
deriving DecidableEq

/-- A controller that was loaded, and whether it observes the notification. -/
structure AuthenticationController where
  screen : AuthenticationScreen
  observing : Bool
deriving DecidableEq

namespace AuthenticationController

/-- `setUpView`: the form that signs up does not observe. -/
def setUpView (screen : AuthenticationScreen) : AuthenticationController :=
  ⟨screen, screen != .manual true⟩

def removeObserver (c : AuthenticationController) : AuthenticationController :=
  { c with observing := false }

def manual (c : AuthenticationController) : Bool := c.screen != .signUp

end AuthenticationController

/-- What the navigation stack holds over the map. -/
inductive Pushed
  | authentication (k : Nat)
  | saved (userId : Nat)
deriving DecidableEq

/-- All controllers that were loaded, in order, the owner of each chain, and the
navigation stack, its top first. -/
structure SignUpState where
  auth : AuthState
  controllers : List AuthenticationController
  owners : List Nat
  stack : List Pushed

/-- `getUserDataFromFacebook` is its reply, for a controller that is the delegate of its
button; `push` is `pushSignUpController`, or `tappedSignUp` on the empty view with the form
to log in; `userInfo` is missing when Google has failed or the user has disconnected. -/
inductive SignUpEvent
  | push (screen : AuthenticationScreen)
  | tappedSignInOrUp (signUp : Bool)
  | popViewController
  | popToRootViewController
  | receiveToggleAuthUINotification (userInfo : Option (String × String × String))
  | getUserDataFromFacebook (k : Nat) (firstName lastName email imageURL : String)
  | tappedSubmit (username email password : String)
  | answer (i : Nat) (ok : Bool)
deriving DecidableEq

namespace SignUpState

def initial : SignUpState := ⟨.initial, [], [], []⟩

/-- `viewDidLoad` of a controller that is pushed. -/
def load (s : SignUpState) (screen : AuthenticationScreen) : SignUpState :=
  { s with controllers := s.controllers ++ [.setUpView screen],
           stack := .authentication s.controllers.length :: s.stack }

def removeObserver (s : SignUpState) (k : Nat) : SignUpState :=
  { s with controllers := s.controllers.modify k AuthenticationController.removeObserver }

/-- The controllers that the notification reaches. -/
def observers (s : SignUpState) : List Nat :=
  (List.range s.controllers.length).filter fun k =>
    (s.controllers[k]?).any AuthenticationController.observing

/-- The chains that controllers start, each with its owner. -/
def start (s : SignUpState) (chains : List (Nat × Attempt)) : SignUpState :=
  { s with auth := { s.auth with attempts := s.auth.attempts ++ chains.map Prod.snd },
           owners := s.owners ++ chains.map Prod.fst }

/-- `googleSignIn` of each observer. They are taken to be notified in the order in which
they registered. -/
def googleSignIn (s : SignUpState) (userInfo : String × String × String) : SignUpState :=
  s.start (s.observers.map fun k =>
    (k, LocateMe.googleSignIn ((s.controllers[k]?).any AuthenticationController.manual)
      userInfo.1 userInfo.2.1 userInfo.2.2))

/-- `transitionToController`. A controller that is not on the stack has no
`navigationController`. -/
def transitionToController (s : SignUpState) (k id : Nat) : SignUpState :=
  { s.removeObserver k with
    stack := if .authentication k ∈ s.stack then .saved id :: s.stack else s.stack }

end SignUpState

/-- One event. There is no next state for an event that the screens do not allow. -/
def signUpStep (s : SignUpState) : SignUpEvent → Option SignUpState
  | .push screen => if s.stack = [] ∧ screen ≠ .manual true then some (s.load screen) else none
  | .tappedSignInOrUp signUp =>
    match s.stack with
    | .authentication k :: _ =>
      if (s.controllers[k]?).map AuthenticationController.screen = some .signUp then
        some ((s.removeObserver k).load (.manual signUp))
      else none
    | _ => none
  | .popViewController =>
    match s.stack with
    | .authentication _ :: stack => some { s with stack := stack }
    | _ => none
  | .popToRootViewController =>
    match s.stack with
    | .saved _ :: _ => some { s with stack := [] }
    | _ => none
  | .receiveToggleAuthUINotification userInfo => some (userInfo.elim s s.googleSignIn)
  | .getUserDataFromFacebook k firstName lastName email imageURL =>
    ((s.controllers[k]?).filter (·.screen != .manual true)).map fun c =>
      s.start [(k, getUserDataFromFacebook c.manual firstName lastName email imageURL)]
  | .tappedSubmit username email password =>
    match s.stack with
    | .authentication k :: _ =>
      match (s.controllers[k]?).map AuthenticationController.screen with
      | some (.manual signUp) =>
        (ManualForm.tappedSubmit ⟨signUp, username, email, password⟩).map fun a => s.start [(k, a)]
      | _ => none
    | _ => none
  | .answer i ok => (authStep s.auth (.answer i ok)).map fun auth =>
    let t := { s with auth := auth }
    match (auth.attempts[i]?).map Attempt.stage, s.owners[i]? with
    | some (.transitionToController id), some k => t.transitionToController k id
    | _, _ => t

/-! ## 2. Which screens observe -/

/-- The answer leads the chain into its account. -/
def Attempt.SignsIn (a : Attempt) (b : Backend) (ok : Bool) : Prop :=
  a.stage = .signIn ∧ ok = true ∧
    ∃ found ∈ b.account a.user.email, found.2.password = a.user.password

instance (a : Attempt) (b : Backend) (ok : Bool) : Decidable (a.SignsIn b ok) :=
  inferInstanceAs (Decidable (a.stage = .signIn ∧ ok = true ∧
    ∃ found ∈ b.account a.user.email, found.2.password = a.user.password))

/-- The event leaves the controller `k` its observer: `k` does not open a form, is not
loaded as the form that signs up, and none of its chains is led into an account. -/
def KeepsObserver (k : Nat) (s : SignUpState) : SignUpEvent → Prop
  | .tappedSignInOrUp signUp => s.stack.head? ≠ some (.authentication k) ∧
    ¬ (signUp = true ∧ s.controllers.length = k)
  | .answer i ok => s.owners[i]? = some k →
    ∀ a ∈ s.auth.attempts[i]?, ¬ a.SignsIn s.auth.backend ok
  | _ => True

/-- The controller `k`, when it was loaded, observes. -/
def SignUpState.Observed (s : SignUpState) (k : Nat) : Prop :=
  ∀ c ∈ s.controllers[k]?, c.observing = true

/-- What the navigation stack can look like: a form lies over the screen that opened it,
which does not observe any more. -/
inductive Shape (cs : List AuthenticationController) : List Pushed → Prop
  | map : Shape cs []
  | screen (k : Nat) (c : AuthenticationController) (hk : cs[k]? = some c) :
      Shape cs [.authentication k]
  | form (k m : Nat) (c : AuthenticationController) (hk : cs[k]? = some ⟨.signUp, false⟩)
      (hm : cs[m]? = some c) (hform : c.screen ≠ .signUp) :
      Shape cs [.authentication m, .authentication k]
  | saved (id : Nat) (stack : List Pushed) (h : Shape cs stack) : Shape cs (.saved id :: stack)

/-- What every run keeps. -/
structure SignUpState.Sound (s : SignUpState) : Prop where
  stack : Shape s.controllers s.stack
  owners : ∀ k ∈ s.owners, k < s.controllers.length

namespace ScreenLemmas

/-- An answer ends in `transitionToController` iff it leads the chain into its account. -/
theorem answer_transition_iff {a a' : Attempt} {b b' : Backend} {ok : Bool}
    (h : a.answer b ok = some (b', a')) :
    (∃ id, a'.stage = .transitionToController id) ↔ a.SignsIn b ok := by
  unfold Attempt.answer at h
  unfold Attempt.SignsIn
  split at h
  · next hstage =>
    obtain ⟨-, rfl⟩ := Prod.mk.inj (Option.some.inj h)
    refine iff_of_false ?_ (by simp [hstage])
    rintro ⟨id, hid⟩
    dsimp only at hid
    split at hid <;> cases hid
  · next hstage =>
    split at h
    · obtain ⟨-, rfl⟩ := Prod.mk.inj (Option.some.inj h)
      simp [hstage]
    · obtain ⟨-, rfl⟩ := Prod.mk.inj (Option.some.inj h)
      simp [hstage]
  · next id hstage =>
    obtain ⟨-, rfl⟩ := Prod.mk.inj (Option.some.inj h)
    simp [hstage]
  · next hstage =>
    split at h
    · next id account haccount =>
      split at h
      · next hpassword =>
        obtain ⟨-, rfl⟩ := Prod.mk.inj (Option.some.inj h)
        simp [hstage, haccount, hpassword]
      · next hpassword =>
        obtain ⟨-, rfl⟩ := Prod.mk.inj (Option.some.inj h)
        simp [haccount, hpassword]
    · next haccount =>
      obtain ⟨-, rfl⟩ := Prod.mk.inj (Option.some.inj h)
      simp [haccount]
  · cases h
  · cases h
  · obtain ⟨-, rfl⟩ := Prod.mk.inj (Option.some.inj h)
    simp

/-- What an answer does: a chain that is led into its account takes its owner along. -/
theorem answer_cases {s t : SignUpState} {i : Nat} {ok : Bool}
    (h : signUpStep s (.answer i ok) = some t) :
    ∃ a auth, s.auth.attempts[i]? = some a ∧ authStep s.auth (.answer i ok) = some auth ∧
      ((∃ k id, s.owners[i]? = some k ∧ a.SignsIn s.auth.backend ok ∧
          t = SignUpState.transitionToController { s with auth := auth } k id) ∨
        ((∀ k, s.owners[i]? = some k → ¬ a.SignsIn s.auth.backend ok) ∧
          t = { s with auth := auth })) := by
  obtain ⟨auth, hauth, rfl⟩ := Option.map_eq_some_iff.mp h
  obtain ⟨a, ha, hrest⟩ := Option.bind_eq_some_iff.mp hauth
  obtain ⟨⟨b, a'⟩, hanswer, heq⟩ := Option.bind_eq_some_iff.mp hrest
  obtain rfl := Option.some.inj heq
  refine ⟨a, _, ha, hauth, ?_⟩
  have hlt : i < s.auth.attempts.length := (List.getElem?_eq_some_iff.mp ha).1
  have hstage : ((s.auth.attempts.set i a')[i]?).map Attempt.stage = some a'.stage := by
    simp [hlt]
  dsimp only
  rw [hstage]
  split
  · next id k hid hk =>
    exact .inl ⟨k, id, hk, (answer_transition_iff hanswer).mp ⟨id, Option.some.inj hid⟩, rfl⟩
  · next hnot =>
    refine .inr ⟨fun k hk hsigns => ?_, rfl⟩
    obtain ⟨id, hid⟩ := (answer_transition_iff hanswer).mpr hsigns
    exact hnot id k (congrArg some hid) hk

/-- What `load` and `removeObserver` do to the controllers that there are. -/
def Later (cs ds : List AuthenticationController) : Prop :=
  ∀ (k : Nat) c, cs[k]? = some c →
    ∃ d, ds[k]? = some d ∧ d.screen = c.screen ∧ (d.observing = true → c.observing = true)

theorem later_modify (cs : List AuthenticationController) (k : Nat) :
    Later cs (cs.modify k AuthenticationController.removeObserver) := by
  intro j c hj
  rw [List.getElem?_modify, hj]
  by_cases hkj : k = j
  · exact ⟨c.removeObserver, by simp [hkj], rfl, fun h => by cases h⟩
  · exact ⟨c, by simp [hkj], rfl, id⟩

theorem shape_later {cs ds : List AuthenticationController} {stack : List Pushed}
    (h : Shape cs stack) (hlater : Later cs ds) : Shape ds stack := by
  induction h with
  | map => exact .map
  | screen k c hk =>
    obtain ⟨d, hd, -⟩ := hlater k c hk
    exact .screen k d hd
  | form k m c hk hm hform =>
    obtain ⟨⟨screen, observing⟩, hd, hscreen, hobserving⟩ := hlater k _ hk
    obtain rfl : screen = .signUp := hscreen
    obtain rfl : observing = false := by simpa using hobserving
    obtain ⟨d, hm', hscreen', -⟩ := hlater m c hm
    exact .form k m d hd hm' (hscreen' ▸ hform)
  | saved id stack h ih => exact .saved id stack ih

/-- Only the screen that was opened last can observe, of those on the stack. -/
theorem shape_single {cs : List AuthenticationController} {stack : List Pushed}
    (h : Shape cs stack) {k l : Nat} {c d : AuthenticationController}
    (hk : Pushed.authentication k ∈ stack) (hl : Pushed.authentication l ∈ stack)
    (hc : cs[k]? = some c) (hd : cs[l]? = some d) (hobserves : c.observing = true)
    (hobserves' : d.observing = true) : k = l := by
  induction h with
  | map => cases hk
  | screen j e hj => simp_all
  | form j m e hj hm hform =>
    -- the screen below the form does not observe
    have hnot : ∀ (i : Nat) b, cs[i]? = some b → b.observing = true → i ≠ j := by
      rintro i b hi hb rfl
      obtain rfl := Option.some.inj (hj.symm.trans hi)
      cases hb
    have hkj := hnot k c hc hobserves
    have hlj := hnot l d hd hobserves'
    simp only [List.mem_cons, Pushed.authentication.injEq, hkj, hlj, List.not_mem_nil, or_false]
      at hk hl
    exact hk.trans hl.symm
  | saved id stack h ih =>
    refine ih ?_ ?_
    · simpa using hk
    · simpa using hl

/-- The controllers of the stack were loaded. -/
theorem shape_lt {cs : List AuthenticationController} {stack : List Pushed} (h : Shape cs stack)
    {k : Nat} (hk : Pushed.authentication k ∈ stack) : k < cs.length := by
  have hget : ∀ (j : Nat) c, cs[j]? = some c → j < cs.length :=
    fun j c hj => (List.getElem?_eq_some_iff.mp hj).1
  induction h with
  | map => cases hk
  | screen j c hj =>
    obtain rfl : k = j := by simpa using hk
    exact hget k c hj
  | form j m c hj hm hform =>
    rcases List.mem_cons.mp hk with hk | hk
    · exact hget k c (Pushed.authentication.inj hk ▸ hm)
    · obtain rfl : k = j := by simpa using hk
      exact hget k _ hj
  | saved id stack h ih => exact ih (by simpa using hk)

theorem observed_load {s : SignUpState} {screen : AuthenticationScreen} {k : Nat} :
    (s.load screen).Observed k ↔
      s.Observed k ∧ ¬ (screen = .manual true ∧ s.controllers.length = k) := by
  unfold SignUpState.Observed SignUpState.load
  dsimp only
  rcases lt_trichotomy k s.controllers.length with hlt | rfl | hgt
  · rw [List.getElem?_append_left hlt]
    exact (and_iff_left fun h => absurd h.2 (by omega)).symm
  · simp [AuthenticationController.setUpView]
  · have hnone : s.controllers[k]? = none := List.getElem?_eq_none (by omega)
    have hnone' : (s.controllers ++ [AuthenticationController.setUpView screen])[k]? = none :=
      List.getElem?_eq_none (by simp; omega)
    rw [hnone, hnone']
    exact (and_iff_left fun h => absurd h.2 (by omega)).symm

theorem observed_removeObserver {s : SignUpState} {j k : Nat} (hj : j < s.controllers.length) :
    (s.removeObserver j).Observed k ↔ s.Observed k ∧ j ≠ k := by
  unfold SignUpState.Observed SignUpState.removeObserver
  dsimp only
  rw [List.getElem?_modify]
  by_cases hjk : j = k
  · subst hjk
    simp [hj, AuthenticationController.removeObserver]
  · simp [hjk]

theorem mem_observers {s : SignUpState} {k : Nat} :
    k ∈ s.observers ↔ ∃ c, s.controllers[k]? = some c ∧ c.observing = true := by
  rw [SignUpState.observers, List.mem_filter, List.mem_range]
  constructor
  · rintro ⟨hlt, hany⟩
    rw [List.getElem?_eq_getElem hlt] at hany ⊢
    exact ⟨_, rfl, hany⟩
  · rintro ⟨c, hc, hobserving⟩
    exact ⟨(List.getElem?_eq_some_iff.mp hc).1, by simp [hc, hobserving]⟩

theorem sound_start {s : SignUpState} (hs : s.Sound) {chains : List (Nat × Attempt)}
    (hchains : ∀ x ∈ chains, x.1 < s.controllers.length) : (s.start chains).Sound := by
  refine ⟨hs.stack, fun k hk => ?_⟩
  rcases List.mem_append.mp hk with hk | hk
  · exact hs.owners k hk
  · obtain ⟨x, hx, rfl⟩ := List.mem_map.mp hk
    exact hchains x hx

/-- The form is the only screen over the one that opened it. -/
theorem shape_form {cs : List AuthenticationController} {stack : List Pushed} {k : Nat}
    {signUp : Bool} (h : Shape cs (.authentication k :: stack))
    (hscreen : (cs[k]?).map AuthenticationController.screen = some .signUp) :
    Shape (cs.modify k AuthenticationController.removeObserver ++ [.setUpView (.manual signUp)])
      (.authentication cs.length :: .authentication k :: stack) := by
  cases h with
  | screen k c hk =>
    obtain ⟨screen, observing⟩ := c
    obtain rfl : screen = .signUp := by simpa [hk] using hscreen
    have hlt : k < cs.length := (List.getElem?_eq_some_iff.mp hk).1
    refine .form k cs.length (.setUpView (.manual signUp)) ?_ ?_ (by
      simp [AuthenticationController.setUpView])
    · rw [List.getElem?_append_left (by simpa using hlt)]
      simp [hk, AuthenticationController.removeObserver]
    · simp
  | form k m c hk hm hform =>
    rw [hm] at hscreen
    exact absurd (Option.some.inj hscreen) hform

theorem sound_transition {s : SignUpState} (hs : s.Sound) (k id : Nat) :
    (s.transitionToController k id).Sound := by
  have hstack := shape_later hs.stack (later_modify s.controllers k)
  refine ⟨?_, fun j hj => ?_⟩
  · unfold SignUpState.transitionToController
    dsimp only
    split
    · exact .saved id _ hstack
    · exact hstack
  · simpa [SignUpState.transitionToController, SignUpState.removeObserver] using hs.owners j hj

/-- What every event keeps. -/
theorem sound_signUpStep {s t : SignUpState} {e : SignUpEvent} (hs : s.Sound)
    (h : signUpStep s e = some t) : t.Sound := by
  obtain ⟨auth, controllers, owners, stack⟩ := s
  cases e with
  | push screen =>
    obtain ⟨⟨rfl, -⟩, heq⟩ := Option.ite_none_right_eq_some.mp h
    obtain rfl := Option.some.inj heq
    refine ⟨.screen _ (.setUpView screen) (by simp [SignUpState.load]), fun k hk => ?_⟩
    have hlt : k < controllers.length := hs.owners k hk
    simp only [SignUpState.load, List.length_append, List.length_singleton]
    omega
  | tappedSignInOrUp signUp =>
    simp only [signUpStep] at h
    split at h
    · next k rest =>
      obtain ⟨hscreen, heq⟩ := Option.ite_none_right_eq_some.mp h
      obtain rfl := Option.some.inj heq
      refine ⟨?_, fun j hj => ?_⟩
      · simpa [SignUpState.load, SignUpState.removeObserver] using shape_form hs.stack hscreen
      · have hlt : j < controllers.length := hs.owners j hj
        simp only [SignUpState.load, SignUpState.removeObserver, List.length_append,
          List.length_modify, List.length_singleton]
        omega
    · cases h
  | popViewController =>
    simp only [signUpStep] at h
    split at h
    · next k rest =>
      obtain rfl := Option.some.inj h
      refine ⟨?_, hs.owners⟩
      cases hs.stack with
      | screen k c hk => exact .map
      | form k m c hk hm hform => exact .screen k _ hk
    · cases h
  | popToRootViewController =>
    simp only [signUpStep] at h
    split at h
    · obtain rfl := Option.some.inj h
      exact ⟨.map, hs.owners⟩
    · cases h
  | receiveToggleAuthUINotification userInfo =>
    obtain rfl := Option.some.inj h
    cases userInfo with
    | none => exact hs
    | some userInfo =>
      refine sound_start hs fun x hx => ?_
      obtain ⟨k, hk, rfl⟩ := List.mem_map.mp hx
      obtain ⟨c, hc, -⟩ := mem_observers.mp hk
      exact (List.getElem?_eq_some_iff.mp hc).1
  | getUserDataFromFacebook k firstName lastName email imageURL =>
    obtain ⟨c, hc, rfl⟩ := Option.map_eq_some_iff.mp h
    refine sound_start hs fun x hx => ?_
    obtain rfl := List.mem_singleton.mp hx
    exact (List.getElem?_eq_some_iff.mp (Option.filter_eq_some_iff.mp hc).1).1
  | tappedSubmit username email password =>
    simp only [signUpStep] at h
    split at h
    · next k rest =>
      split at h
      · obtain ⟨a, -, rfl⟩ := Option.map_eq_some_iff.mp h
        refine sound_start hs fun x hx => ?_
        obtain rfl := List.mem_singleton.mp hx
        exact shape_lt hs.stack List.mem_cons_self
      · cases h
    · cases h
  | answer i ok =>
    obtain ⟨a, auth', -, -, ⟨k, id, -, -, rfl⟩ | ⟨-, rfl⟩⟩ := answer_cases h
    · exact sound_transition (s := ⟨auth', controllers, owners, stack⟩) ⟨hs.stack, hs.owners⟩ k id
    · exact ⟨hs.stack, hs.owners⟩

theorem sound_screens_initial : SignUpState.initial.Sound :=
  ⟨.map, by simp [SignUpState.initial]⟩

/-- A controller observes after an event iff it did before, and keeps its observer. -/
theorem observed_signUpStep {s t : SignUpState} {e : SignUpEvent} {k : Nat} (hs : s.Sound)
    (h : signUpStep s e = some t) : t.Observed k ↔ s.Observed k ∧ KeepsObserver k s e := by
  cases e with
  | push screen =>
    obtain ⟨⟨-, hscreen⟩, heq⟩ := Option.ite_none_right_eq_some.mp h
    obtain rfl := Option.some.inj heq
    rw [observed_load]
    simp [KeepsObserver, hscreen]
  | tappedSignInOrUp signUp =>
    simp only [signUpStep] at h
    split at h
    · next j rest hstack =>
      obtain ⟨-, heq⟩ := Option.ite_none_right_eq_some.mp h
      obtain rfl := Option.some.inj heq
      have hj : j < s.controllers.length :=
        shape_lt hs.stack (hstack ▸ List.mem_cons_self)
      rw [observed_load, observed_removeObserver hj, and_assoc]
      simp [KeepsObserver, hstack, SignUpState.removeObserver]
    · cases h
  | answer i ok =>
    obtain ⟨a, auth, ha, -, hcases⟩ := answer_cases h
    simp only [KeepsObserver, ha, Option.mem_some_iff, forall_eq']
    rcases hcases with ⟨j, id, hj, hsigns, rfl⟩ | ⟨hnot, rfl⟩
    · have hlt : j < s.controllers.length := hs.owners j (List.mem_of_getElem? hj)
      have hkeeps : (s.owners[i]? = some k → ¬ a.SignsIn s.auth.backend ok) ↔ j ≠ k := by
        simp [hj, hsigns]
      rw [hkeeps]
      exact observed_removeObserver (s := { s with auth := auth }) hlt
    · exact (and_iff_left (hnot k)).symm
  | popViewController =>
    simp only [signUpStep] at h
    split at h
    · obtain rfl := Option.some.inj h
      exact (and_iff_left trivial).symm
    · cases h
  | popToRootViewController =>
    simp only [signUpStep] at h
    split at h
    · obtain rfl := Option.some.inj h
      exact (and_iff_left trivial).symm
    · cases h
  | receiveToggleAuthUINotification userInfo =>
    obtain rfl := Option.some.inj h
    cases userInfo <;> exact (and_iff_left trivial).symm
  | getUserDataFromFacebook j firstName lastName email imageURL =>
    obtain ⟨c, -, rfl⟩ := Option.map_eq_some_iff.mp h
    exact (and_iff_left trivial).symm
  | tappedSubmit username email password =>
    simp only [signUpStep] at h
    split at h
    · split at h
      · obtain ⟨a, -, rfl⟩ := Option.map_eq_some_iff.mp h
        exact (and_iff_left trivial).symm
      · cases h
    · cases h

end ScreenLemmas

open ScreenLemmas

/-! ## 3. What a notification starts -/

/-- After any run, a notification with a user starts one chain for each controller that
was loaded and whose observer no event has taken, in their order and whether or not the
controller is still on the stack; closing a screen takes nothing away, and going back to
a screen gives nothing back. At most one of these controllers is on the stack. -/
theorem notification_chains (es : List SignUpEvent) (s : SignUpState)
    (hrun : Machine.run signUpStep .initial es = some s) (fullName email imageUrl : String) :
    ∃ ks : List Nat, ks.Pairwise (· < ·) ∧
      (∀ k, k ∈ ks ↔ k < s.controllers.length ∧
        Machine.Meets signUpStep (KeepsObserver k) .initial es) ∧
      (∀ k ∈ ks, ∀ l ∈ ks, .authentication k ∈ s.stack → .authentication l ∈ s.stack → k = l) ∧
      signUpStep s (.receiveToggleAuthUINotification (some (fullName, email, imageUrl))) =
        some (s.start (ks.map fun k =>
          (k, googleSignIn ((s.controllers[k]?).any AuthenticationController.manual)
            fullName email imageUrl))) := by
  have hs : s.Sound :=
    Machine.run_invariant' (fun _ _ _ => sound_signUpStep) sound_screens_initial hrun
  have hobserved : ∀ k, s.Observed k ↔ Machine.Meets signUpStep (KeepsObserver k) .initial es := by
    intro k
    have hinitial : SignUpState.initial.Observed k := by
      simp [SignUpState.Observed, SignUpState.initial]
    have hexact := Machine.run_exact (I := fun s => s.Observed k) (J := SignUpState.Sound)
      (fun _ _ _ => sound_signUpStep) (fun _ _ _ => observed_signUpStep) sound_screens_initial hrun
    exact hexact.trans (and_iff_right hinitial)
  refine ⟨s.observers, List.pairwise_lt_range.filter _, fun k => ?_,
    fun k hk l hl hk' hl' => ?_, rfl⟩
  · rw [mem_observers, ← hobserved]
    constructor
    · rintro ⟨c, hc, hobserving⟩
      refine ⟨(List.getElem?_eq_some_iff.mp hc).1, fun d hd => ?_⟩
      obtain rfl := Option.some.inj (hc.symm.trans hd)
      exact hobserving
    · rintro ⟨hlt, hall⟩
      exact ⟨_, List.getElem?_eq_getElem hlt, hall _ (List.getElem?_eq_getElem hlt)⟩
  · obtain ⟨c, hc, hobserving⟩ := mem_observers.mp hk
    obtain ⟨d, hd, hobserving'⟩ := mem_observers.mp hl
    exact shape_single hs.stack hk' hl' hc hd hobserving hobserving'

/-- The user looks at the form to log in, closes it and the screen below, and comes
back: the form and the new screen observe. -/
def exClosedForm : List SignUpEvent :=
  [.push .signUp, .tappedSignInOrUp false, .popViewController, .popViewController, .push .signUp]

theorem notification_chains_closed_form : ∃ s,
    Machine.run signUpStep .initial exClosedForm = some s ∧
    ∃ ks : List Nat, ks.Pairwise (· < ·) ∧
      (∀ k, k ∈ ks ↔ k < s.controllers.length ∧
        Machine.Meets signUpStep (KeepsObserver k) .initial exClosedForm) ∧
      (∀ k ∈ ks, ∀ l ∈ ks, .authentication k ∈ s.stack → .authentication l ∈ s.stack → k = l) ∧
      signUpStep s (.receiveToggleAuthUINotification (some ("Ann B", "ann@x.org", ""))) =
        some (s.start (ks.map fun k =>
          (k, googleSignIn ((s.controllers[k]?).any AuthenticationController.manual)
            "Ann B" "ann@x.org" ""))) :=
  ⟨_, rfl, notification_chains exClosedForm _ rfl "Ann B" "ann@x.org" ""⟩

example : (Machine.run signUpStep .initial exClosedForm).map SignUpState.observers =
    some [1, 2] := by decide

end LocateMe
