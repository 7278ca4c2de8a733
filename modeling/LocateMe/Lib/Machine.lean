import Mathlib

/-!
# Runs of a deterministic machine

A machine is a partial step function `step : σ → ε → Option σ`: the next state
after an event, or `none` when the event cannot happen (or kills the machine).
A run is a list of events. `Meets` says that every step of a run satisfies a
condition on the event and the state before it.

Results:
1. `run_append`, `meets_cons`: runs and their conditions compose.
2. `run_invariant`: the induction rule. What every step that meets the
   condition preserves holds at the end of every run whose steps all meet it.
3. `run_related`: the rule for two runs that differ in hidden events only.
4. `run_isSome_iff`: when the condition is exactly what enables a step, a run
   exists iff all its steps meet the condition.
5. `run_exact`, `run_exact_actions`, `run_exact_prefix`: when the condition is
   exactly what a step needs to keep a property, a run keeps the property iff all
   its steps meet the condition.
6. `run_since`, `run_ever`, `run_lasting`: a mark that events set and wipe is there iff
   some event set it and none has wiped it since. `since_of_run` and `run_of_since` are
   the two directions, and `run_latest` is the rule for a value that events replace.
7. `run_simulates`: the rule for a machine whose events each mean some operations of
   a simpler one.
-/

namespace Machine

/-- Follow a list of events; `none` as soon as one of them has no next state. -/
def run {σ ε : Type} (step : σ → ε → Option σ) : σ → List ε → Option σ
  | s, [] => some s
  | s, e :: es => (step s e).bind (run step · es)

/-- Every step that the run from `s` along the events takes meets `ok` in the
state before it. -/
def Meets {σ ε : Type} (step : σ → ε → Option σ) (ok : σ → ε → Prop) : σ → List ε → Prop
  | _, [] => True
  | s, e :: es => ok s e ∧ match step s e with
    | none => True
    | some t => Meets step ok t es

/-- With a decidable condition, whether a run meets it is decidable. -/
instance decidableMeets {σ ε : Type} (step : σ → ε → Option σ) (ok : σ → ε → Prop)
    [∀ s e, Decidable (ok s e)] : ∀ s es, Decidable (Meets step ok s es)
  | _, [] => .isTrue trivial
  | s, e :: es =>
    match h : step s e with
    | none => decidable_of_iff (ok s e) (by simp [Meets, h])
    | some t =>
      have := decidableMeets step ok t es
      decidable_of_iff (ok s e ∧ Meets step ok t es) (by simp [Meets, h])

/-! ## 1. Composition -/

@[simp] theorem run_nil {σ ε : Type} (step : σ → ε → Option σ) (s : σ) :
    run step s [] = some s := rfl

theorem run_cons {σ ε : Type} {step : σ → ε → Option σ} {s t : σ} {e : ε} {es : List ε} :
    run step s (e :: es) = some t ↔ ∃ u, step s e = some u ∧ run step u es = some t := by
  simp [run, Option.bind_eq_some_iff]

theorem run_append {σ ε : Type} (step : σ → ε → Option σ) (s : σ) (es fs : List ε) :
    run step s (es ++ fs) = (run step s es).bind (run step · fs) := by
  induction es generalizing s with
  | nil => rfl
  | cons e es ih =>
    simp only [List.cons_append, run]
    cases h : step s e with
    | none => rfl
    | some t => simpa [h] using ih t

theorem meets_cons {σ ε : Type} {step : σ → ε → Option σ} {ok : σ → ε → Prop} {s : σ} {e : ε}
    {es : List ε} :
    Meets step ok s (e :: es) ↔ ok s e ∧ ∀ t, step s e = some t → Meets step ok t es := by
  cases h : step s e <;> simp [Meets, h]

theorem meets_append {σ ε : Type} {step : σ → ε → Option σ} {ok : σ → ε → Prop} {s : σ}
    {es fs : List ε} :
    Meets step ok s (es ++ fs) ↔
      Meets step ok s es ∧ ∀ t, run step s es = some t → Meets step ok t fs := by
  induction es generalizing s with
  | nil => simp [Meets]
  | cons e es ih =>
    rw [List.cons_append, meets_cons, meets_cons, and_assoc]
    refine and_congr_right fun _ => ?_
    cases h : step s e with
    | none => simp [run, h]
    | some u => simpa [run, h] using ih

/-- A condition that all the events meet in every state. -/
theorem meets_of_forall {σ ε : Type} {step : σ → ε → Option σ} {ok : σ → ε → Prop} {s : σ}
    {es : List ε} (h : ∀ e ∈ es, ∀ s, ok s e) : Meets step ok s es := by
  induction es generalizing s with
  | nil => trivial
  | cons e es ih =>
    exact meets_cons.mpr ⟨h e List.mem_cons_self s,
      fun t _ => ih fun f hf => h f (List.mem_cons_of_mem e hf)⟩

theorem meets_and {σ ε : Type} {step : σ → ε → Option σ} {ok ok' : σ → ε → Prop} {s : σ}
    {es : List ε} :
    Meets step (fun s e => ok s e ∧ ok' s e) s es ↔ Meets step ok s es ∧ Meets step ok' s es := by
  induction es generalizing s with
  | nil => simp [Meets]
  | cons e es ih =>
    rw [meets_cons, meets_cons, meets_cons]
    constructor
    · rintro ⟨⟨hok, hok'⟩, hrest⟩
      exact ⟨⟨hok, fun t ht => (ih.mp (hrest t ht)).1⟩, hok', fun t ht => (ih.mp (hrest t ht)).2⟩
    · rintro ⟨⟨hok, hrest⟩, hok', hrest'⟩
      exact ⟨⟨hok, hok'⟩, fun t ht => ih.mpr ⟨hrest t ht, hrest' t ht⟩⟩

/-- What holds of every action with a next state holds along a run. -/
theorem meets_of_run {σ ε : Type} {step : σ → ε → Option σ} {ok : σ → ε → Prop}
    (hok : ∀ s e t, step s e = some t → ok s e) {s t : σ} {es : List ε}
    (hrun : run step s es = some t) : Meets step ok s es := by
  induction es generalizing s with
  | nil => trivial
  | cons e es ih =>
    obtain ⟨u, hu, hrest⟩ := run_cons.mp hrun
    refine meets_cons.mpr ⟨hok s e u hu, fun v hv => ?_⟩
    obtain rfl := Option.some.inj (hu.symm.trans hv)
    exact ih hrest

/-! ## 2. Invariants -/

/-- The induction rule for runs: what a step that meets `ok` preserves, a run
whose steps all meet `ok` preserves. -/
theorem run_invariant {σ ε : Type} {step : σ → ε → Option σ} {ok : σ → ε → Prop}
    {I : σ → Prop} (hstep : ∀ s e t, I s → ok s e → step s e = some t → I t) {s t : σ}
    {es : List ε} (hs : I s) (hok : Meets step ok s es) (hrun : run step s es = some t) : I t := by
  induction es generalizing s with
  | nil =>
    cases hrun
    exact hs
  | cons e es ih =>
    obtain ⟨u, hu, hrest⟩ := run_cons.mp hrun
    obtain ⟨he, hes⟩ := meets_cons.mp hok
    exact ih (hstep s e u hs he hu) (hes u hu) hrest

/-- The rule without a condition on the steps. -/
theorem run_invariant' {σ ε : Type} {step : σ → ε → Option σ} {I : σ → Prop}
    (hstep : ∀ s e t, I s → step s e = some t → I t) {s t : σ} {es : List ε} (hs : I s)
    (hrun : run step s es = some t) : I t := by
  have hok : Meets step (fun _ _ => True) s es := meets_of_forall fun _ _ _ => trivial
  exact run_invariant (fun s e t hs _ => hstep s e t hs) hs hok hrun

/-- Two runs that take the same visible events stay related, when visible events
that both take keep the relation, and so do the hidden events of either one. -/
theorem run_related {σ ε : Type} {step : σ → ε → Option σ} {ok : σ → ε → Prop} {hidden : ε → Bool}
    {R : σ → σ → Prop}
    (hleft : ∀ s t e s', R s t → hidden e = true → ok s e → step s e = some s' → R s' t)
    (hright : ∀ s t e t', R s t → hidden e = true → ok t e → step t e = some t' → R s t')
    (hboth : ∀ s t e s' t', R s t → hidden e = false → ok s e → ok t e → step s e = some s' →
      step t e = some t' → R s' t') {s t s' t' : σ} {es fs : List ε} (hR : R s t)
    (hsame : es.filter (!hidden ·) = fs.filter (!hidden ·)) (hes : Meets step ok s es)
    (hfs : Meets step ok t fs) (hs : run step s es = some s') (ht : run step t fs = some t') :
    R s' t' := by
  induction es generalizing s t fs with
  | nil =>
    obtain rfl := Option.some.inj hs
    have hall : ∀ f ∈ fs, hidden f = true := by
      simpa [List.filter_eq_nil_iff] using hsame.symm
    clear hsame hes hs
    induction fs generalizing t with
    | nil =>
      obtain rfl := Option.some.inj ht
      exact hR
    | cons f fs ih =>
      obtain ⟨u, hu, hrest⟩ := run_cons.mp ht
      obtain ⟨hf, hfs⟩ := meets_cons.mp hfs
      exact ih (hright s t f u hR (hall f List.mem_cons_self) hf hu) (hfs u hu) hrest
        fun g hg => hall g (List.mem_cons_of_mem f hg)
  | cons e es ih =>
    obtain ⟨v, hv, hrest⟩ := run_cons.mp hs
    obtain ⟨he, hes⟩ := meets_cons.mp hes
    by_cases hhidden : hidden e = true
    · simp only [List.filter_cons, hhidden, Bool.not_true, Bool.false_eq_true, if_false] at hsame
      exact ih (hleft s t e v hR hhidden he hv) hsame (hes v hv) hfs hrest ht
    · -- the other run takes hidden events up to its own `e`
      simp only [Bool.not_eq_true] at hhidden
      simp only [List.filter_cons, hhidden, Bool.not_false, if_true] at hsame
      induction fs generalizing t with
      | nil => cases hsame
      | cons f fs ihf =>
        obtain ⟨u, hu, hrest'⟩ := run_cons.mp ht
        obtain ⟨hf, hfs⟩ := meets_cons.mp hfs
        by_cases hf' : hidden f = true
        · simp only [List.filter_cons, hf', Bool.not_true, Bool.false_eq_true, if_false] at hsame
          exact ihf (hright s t f u hR hf' hf hu) (hfs u hu) hrest' hsame
        · simp only [Bool.not_eq_true] at hf'
          simp only [List.filter_cons, hf', Bool.not_false, if_true] at hsame
          obtain ⟨rfl, htail⟩ := List.cons.inj hsame
          exact ih (hboth s t e v u hR hhidden he hf hv hu) htail (hes v hv) (hfs u hu) hrest hrest'

/-! ## 3. Runs that exist -/

/-- When `ok` is exactly what enables a step, a run exists iff its steps meet
`ok`. -/
theorem run_isSome_iff {σ ε : Type} {step : σ → ε → Option σ} {ok : σ → ε → Prop}
    (henabled : ∀ s e, (step s e).isSome ↔ ok s e) {s : σ} {es : List ε} :
    (run step s es).isSome ↔ Meets step ok s es := by
  induction es generalizing s with
  | nil => simp [Meets]
  | cons e es ih =>
    rw [meets_cons, ← henabled s e]
    cases h : step s e with
    | none => simp [run, h]
    | some t => simpa [run, h] using ih

/-! ## 4. Exact conditions -/

/-- When a step keeps `I` iff it starts in `I` and meets `ok`, so does a run. `J` is
an invariant that helps to say what a step does. -/
theorem run_exact {σ ε : Type} {step : σ → ε → Option σ} {ok : σ → ε → Prop} {I J : σ → Prop}
    (hkeep : ∀ s e t, J s → step s e = some t → J t)
    (hstep : ∀ s e t, J s → step s e = some t → (I t ↔ I s ∧ ok s e)) {s t : σ} {es : List ε}
    (hJ : J s) (hrun : run step s es = some t) : I t ↔ I s ∧ Meets step ok s es := by
  induction es generalizing s with
  | nil =>
    cases hrun
    simp [Meets]
  | cons e es ih =>
    obtain ⟨u, hu, hrest⟩ := run_cons.mp hrun
    rw [ih (hkeep s e u hJ hu) hrest, hstep s e u hJ hu, meets_cons, and_assoc]
    simp [hu]

/-- The same for a property that a later step can restore and one of the actions
taken: `I` holds in every state that the run reaches and `A` of every action iff
all steps meet the condition. An action without a next state is judged too. -/
theorem run_exact_actions {σ ε : Type} {step : σ → ε → Option σ} {ok A : σ → ε → Prop}
    {I J : σ → Prop} (hkeep : ∀ s e t, J s → step s e = some t → J t)
    (hstep : ∀ s e t, J s → I s → step s e = some t → (A s e ∧ I t ↔ ok s e))
    (hstop : ∀ s e, J s → I s → step s e = none → (A s e ↔ ok s e)) {s : σ} (hJ : J s) (hI : I s)
    (es : List ε) :
    Meets step A s es ∧ (∀ fs u, fs <+: es → run step s fs = some u → I u) ↔
      Meets step ok s es := by
  induction es generalizing s with
  | nil =>
    refine iff_of_true ⟨trivial, fun fs u hfs hu => ?_⟩ trivial
    obtain rfl := List.prefix_nil.mp hfs
    obtain rfl := Option.some.inj hu
    exact hI
  | cons e es ih =>
    rw [meets_cons, meets_cons]
    cases hu : step s e with
    | none =>
      rw [hstop s e hJ hI hu]
      refine ⟨fun h => ⟨h.1.1, by simp⟩, fun h => ⟨⟨h.1, by simp⟩, fun fs v hfs hv => ?_⟩⟩
      cases fs with
      | nil =>
        obtain rfl := Option.some.inj hv
        exact hI
      | cons f fs =>
        obtain ⟨rfl, -⟩ := List.cons_prefix_cons.mp hfs
        obtain ⟨w, hw, -⟩ := run_cons.mp hv
        cases hu.symm.trans hw
    | some u =>
      have hnext := hstep s e u hJ hI hu
      constructor
      · rintro ⟨⟨hA, hAs⟩, hprefix⟩
        have hIu : I u := hprefix [e] u (List.prefix_append [e] es) (run_cons.mpr ⟨u, hu, rfl⟩)
        refine ⟨hnext.mp ⟨hA, hIu⟩, fun v hv => ?_⟩
        obtain rfl := Option.some.inj hv
        refine (ih (hkeep s e u hJ hu) hIu).mp ⟨hAs u rfl, fun fs v hfs hrun => ?_⟩
        exact hprefix (e :: fs) v (List.cons_prefix_cons.mpr ⟨rfl, hfs⟩)
          (run_cons.mpr ⟨u, hu, hrun⟩)
      · rintro ⟨hok, hes⟩
        obtain ⟨hA, hIu⟩ := hnext.mpr hok
        obtain ⟨hAs, hprefix⟩ := (ih (hkeep s e u hJ hu) hIu).mpr (hes u rfl)
        refine ⟨⟨hA, fun v hv => ?_⟩, fun fs v hfs hv => ?_⟩
        · obtain rfl := Option.some.inj hv
          exact hAs
        · cases fs with
          | nil =>
            obtain rfl := Option.some.inj hv
            exact hI
          | cons f fs =>
            obtain ⟨rfl, htail⟩ := List.cons_prefix_cons.mp hfs
            obtain ⟨w, hw, hv⟩ := run_cons.mp hv
            obtain rfl := Option.some.inj (hu.symm.trans hw)
            exact hprefix fs v htail hv

/-- The rule for the states of a run that exists. -/
theorem run_exact_prefix {σ ε : Type} {step : σ → ε → Option σ} {ok : σ → ε → Prop}
    {I J : σ → Prop} (hkeep : ∀ s e t, J s → step s e = some t → J t)
    (hstep : ∀ s e t, J s → I s → step s e = some t → (I t ↔ ok s e)) {s t : σ} {es : List ε}
    (hJ : J s) (hI : I s) (hrun : run step s es = some t) :
    (∀ fs u, fs <+: es → run step s fs = some u → I u) ↔ Meets step ok s es := by
  -- an action without a next state does not occur in the run
  let A : σ → ε → Prop := fun s e => step s e = none → ok s e
  have hactions := run_exact_actions (A := A) hkeep
    (fun s e t hJ hI h => by simpa [A, h] using hstep s e t hJ hI h)
    (fun s e _ _ h => by simp [A, h]) hJ hI es
  rw [← hactions]
  refine (and_iff_right ?_).symm
  exact meets_of_run (fun s e t h => by simp [A, h]) hrun

/-! ## 5. What happened since -/

/-- The condition at every step of the run. -/
theorem meets_iff_split {σ ε : Type} {step : σ → ε → Option σ} {ok : σ → ε → Prop} {s : σ}
    {es : List ε} :
    Meets step ok s es ↔ ∀ before e after u, es = before ++ e :: after →
      run step s before = some u → ok u e := by
  constructor
  · rintro hmeets before e after u rfl hu
    have hrest := (meets_append.mp hmeets).2 u hu
    exact (meets_cons.mp hrest).1
  · intro h
    induction es generalizing s with
    | nil => trivial
    | cons e es ih =>
      refine meets_cons.mpr ⟨h [] e es s rfl rfl, fun t ht => ih ?_⟩
      rintro before f after u rfl hu
      exact h (e :: before) f after u rfl (run_cons.mpr ⟨t, ht, hu⟩)

/-- Along the run from `s` some event sets the mark, and no later event wipes it. -/
def Since {σ ε : Type} (step : σ → ε → Option σ) (sets : σ → ε → Prop) (wipes : ε → Prop)
    (s : σ) (es : List ε) : Prop :=
  ∃ before e after u, es = before ++ e :: after ∧ run step s before = some u ∧ sets u e ∧
    ∀ f ∈ after, ¬ wipes f

theorem since_concat {σ ε : Type} {step : σ → ε → Option σ} {sets : σ → ε → Prop}
    {wipes : ε → Prop} {s u : σ} {es : List ε} {e : ε} (hu : run step s es = some u) :
    Since step sets wipes s (es ++ [e]) ↔ sets u e ∨ Since step sets wipes s es ∧ ¬ wipes e := by
  constructor
  · rintro ⟨before, f, after, v, heq, hv, hset, hkeep⟩
    rcases List.eq_nil_or_concat' after with rfl | ⟨after, g, rfl⟩
    · -- the last event sets the mark
      obtain ⟨rfl, hlast⟩ := List.append_inj' heq rfl
      obtain rfl := (List.cons.inj hlast).1
      obtain rfl := Option.some.inj (hu.symm.trans hv)
      exact .inl hset
    · have heq' : es ++ [e] = (before ++ f :: after) ++ [g] := by simpa using heq
      obtain ⟨rfl, hlast⟩ := List.append_inj' heq' rfl
      obtain rfl := (List.cons.inj hlast).1
      have hkeep' := fun x hx => hkeep x (List.mem_append_left _ hx)
      exact .inr ⟨⟨before, f, after, v, rfl, hv, hset, hkeep'⟩, hkeep e (by simp)⟩
  · rintro (hset | ⟨⟨before, f, after, v, rfl, hv, hset, hkeep⟩, he⟩)
    · exact ⟨es, e, [], u, rfl, hu, hset, by simp⟩
    · refine ⟨before, f, after ++ [e], v, by simp, hv, hset, fun x hx => ?_⟩
      rcases List.mem_append.mp hx with hx | hx
      · exact hkeep x hx
      · obtain rfl := List.mem_singleton.mp hx
        exact he

theorem run_concat {σ ε : Type} {step : σ → ε → Option σ} {s t : σ} {es : List ε} {e : ε} :
    run step s (es ++ [e]) = some t ↔ ∃ u, run step s es = some u ∧ step u e = some t := by
  simp [run_append, Option.bind_eq_some_iff, run_cons]

theorem not_since_nil {σ ε : Type} {step : σ → ε → Option σ} {sets : σ → ε → Prop}
    {wipes : ε → Prop} {s : σ} : ¬ Since step sets wipes s [] := by
  rintro ⟨before, e, after, u, heq, -⟩
  simp at heq

/-- What only such an event brings about, and what an event that wipes ends, was brought
about by one and not ended since. -/
theorem since_of_run {σ ε : Type} {step : σ → ε → Option σ} {sets : σ → ε → Prop}
    {wipes : ε → Prop} {P : σ → Prop}
    (hstep : ∀ u e t, step u e = some t → P t → sets u e ∨ P u ∧ ¬ wipes e) {s t : σ} {es : List ε}
    (hs : ¬ P s) (hrun : run step s es = some t) (hP : P t) : Since step sets wipes s es := by
  induction es using List.reverseRecOn generalizing t with
  | nil =>
    obtain rfl := Option.some.inj hrun
    exact absurd hP hs
  | append_singleton es e ih =>
    obtain ⟨u, hu, ht⟩ := run_concat.mp hrun
    rw [since_concat hu]
    rcases hstep u e t ht hP with hset | ⟨hPu, hkeep⟩
    · exact .inl hset
    · exact .inr ⟨ih hu hPu, hkeep⟩

/-- What such an event brings about, and all others but those that wipe keep. -/
theorem run_of_since {σ ε : Type} {step : σ → ε → Option σ} {sets : σ → ε → Prop}
    {wipes : ε → Prop} {P : σ → Prop} (hset : ∀ u e t, step u e = some t → sets u e → P t)
    (hkeep : ∀ u e t, step u e = some t → P u → ¬ wipes e → P t) {s t : σ} {es : List ε}
    (hrun : run step s es = some t) (hsince : Since step sets wipes s es) : P t := by
  induction es using List.reverseRecOn generalizing t with
  | nil => exact absurd hsince not_since_nil
  | append_singleton es e ih =>
    obtain ⟨u, hu, ht⟩ := run_concat.mp hrun
    rcases (since_concat hu).mp hsince with hnow | ⟨hbefore, hwipe⟩
    · exact hset u e t ht hnow
    · exact hkeep u e t ht (ih hu hbefore) hwipe

/-- The rule for marks: what every step sets or wipes, a run has iff it was set and
not wiped since. -/
theorem run_since {σ ε : Type} {step : σ → ε → Option σ} {sets : σ → ε → Prop} {wipes : ε → Prop}
    {P : σ → Prop} (hstep : ∀ u e t, step u e = some t → (P t ↔ sets u e ∨ P u ∧ ¬ wipes e))
    {s t : σ} {es : List ε} (hs : ¬ P s) (hrun : run step s es = some t) :
    P t ↔ Since step sets wipes s es := by
  constructor
  · exact since_of_run (fun u e t ht => (hstep u e t ht).mp) hs hrun
  · exact run_of_since (fun u e t ht hset => (hstep u e t ht).mpr (.inl hset))
      (fun u e t ht hP hwipe => (hstep u e t ht).mpr (.inr ⟨hP, hwipe⟩)) hrun

/-- The rule for a value that some events replace: after one of them, it is the one that
the last of them brought. -/
theorem run_latest {σ ε β : Type} {step : σ → ε → Option σ} {value : σ → β} {sets : ε → Option β}
    (hstep : ∀ u e t, step u e = some t → value t = (sets e).getD (value u)) {P : β → Prop}
    {s t : σ} {es : List ε} (hrun : run step s es = some t) :
    Since step (fun _ e => ∃ b, sets e = some b ∧ P b) (fun e => (sets e).isSome) s es ↔
      (∃ e ∈ es, (sets e).isSome) ∧ P (value t) := by
  induction es using List.reverseRecOn generalizing t with
  | nil => simp [not_since_nil]
  | append_singleton es e ih =>
    obtain ⟨u, hu, ht⟩ := run_concat.mp hrun
    rw [since_concat hu, ih hu, hstep u e t ht]
    cases he : sets e with
    | none => simp [he]
    | some b => simp [he]

/-- The rule for a mark that nothing wipes. -/
theorem run_ever {σ ε : Type} {step : σ → ε → Option σ} {sets : ε → Prop} {P : σ → Prop}
    (hstep : ∀ u e t, step u e = some t → (P t ↔ sets e ∨ P u)) {s t : σ} {es : List ε}
    (hs : ¬ P s) (hrun : run step s es = some t) : P t ↔ ∃ e ∈ es, sets e := by
  have hend : ∀ {s : σ} {es : List ε}, run step s es = some t →
      (P t ↔ P s ∨ ∃ e ∈ es, sets e) := by
    intro s es hrun
    induction es generalizing s with
    | nil =>
      obtain rfl := Option.some.inj hrun
      simp
    | cons e es ih =>
      obtain ⟨u, hu, hrest⟩ := run_cons.mp hrun
      rw [ih hrest, hstep s e u hu, List.exists_mem_cons_iff]
      tauto
  exact (hend hrun).trans (or_iff_right hs)

/-- `Since`, when the state decides what an event wipes. -/
def Lasting {σ ε : Type} (step : σ → ε → Option σ) (sets wipes : σ → ε → Prop) (s : σ)
    (es : List ε) : Prop :=
  ∃ before e after u t, es = before ++ e :: after ∧ run step s before = some u ∧ sets u e ∧
    step u e = some t ∧ Meets step (fun v f => ¬ wipes v f) t after

theorem lasting_concat {σ ε : Type} {step : σ → ε → Option σ} {sets wipes : σ → ε → Prop}
    {s u v : σ} {es : List ε} {e : ε} (hu : run step s es = some u) (hv : step u e = some v) :
    Lasting step sets wipes s (es ++ [e]) ↔
      sets u e ∨ Lasting step sets wipes s es ∧ ¬ wipes u e := by
  constructor
  · rintro ⟨before, f, after, w, t, heq, hw, hset, ht, hkeep⟩
    rcases List.eq_nil_or_concat' after with rfl | ⟨after, g, rfl⟩
    · -- the last event sets the mark
      obtain ⟨rfl, hlast⟩ := List.append_inj' heq rfl
      obtain rfl := (List.cons.inj hlast).1
      obtain rfl := Option.some.inj (hu.symm.trans hw)
      exact .inl hset
    · have heq' : es ++ [e] = (before ++ f :: after) ++ [g] := by simpa using heq
      obtain ⟨rfl, hlast⟩ := List.append_inj' heq' rfl
      obtain rfl := (List.cons.inj hlast).1
      obtain ⟨hafter, hg⟩ := meets_append.mp hkeep
      have hrest : run step t after = some u := by
        rw [run_append, hw, Option.bind_some, run, ht, Option.bind_some] at hu
        exact hu
      exact .inr ⟨⟨before, f, after, w, t, rfl, hw, hset, ht, hafter⟩,
        (meets_cons.mp (hg u hrest)).1⟩
  · rintro (hset | ⟨⟨before, f, after, w, t, rfl, hw, hset, ht, hkeep⟩, he⟩)
    · exact ⟨es, e, [], u, v, rfl, hu, hset, hv, trivial⟩
    · refine ⟨before, f, after ++ [e], w, t, by simp, hw, hset, ht, meets_append.mpr ⟨hkeep, ?_⟩⟩
      intro x hx
      have hux : u = x := by
        rw [run_append, hw, Option.bind_some, run, ht, Option.bind_some] at hu
        exact Option.some.inj (hu.symm.trans hx)
      exact meets_cons.mpr ⟨hux ▸ he, fun _ _ => trivial⟩

/-- The rule for such marks; `J` is an invariant that helps to say what a step does. -/
theorem run_lasting {σ ε : Type} {step : σ → ε → Option σ} {ok sets wipes : σ → ε → Prop}
    {P J : σ → Prop} (hkeep : ∀ s e t, J s → ok s e → step s e = some t → J t)
    (hstep : ∀ u e t, J u → step u e = some t → (P t ↔ sets u e ∨ P u ∧ ¬ wipes u e))
    {s t : σ} {es : List ε} (hJ : J s) (hs : ¬ P s) (hok : Meets step ok s es)
    (hrun : run step s es = some t) : P t ↔ Lasting step sets wipes s es := by
  induction es using List.reverseRecOn generalizing t with
  | nil =>
    obtain rfl := Option.some.inj hrun
    refine iff_of_false hs ?_
    rintro ⟨before, e, after, u, v, heq, -⟩
    simp at heq
  | append_singleton es e ih =>
    obtain ⟨u, hu, hv⟩ := run_concat.mp hrun
    have hbefore := (meets_append.mp hok).1
    rw [hstep u e t (run_invariant hkeep hJ hbefore hu) hv, lasting_concat hu hv, ih hbefore hu]

/-! ## 6. Simulation -/

/-- What the events of a run mean as operations of another machine, each in the state
before it. -/
def meanings {σ ε δ : Type} (step : σ → ε → Option σ) (meaning : σ → ε → List δ) :
    σ → List ε → List δ
  | _, [] => []
  | s, e :: es => meaning s e ++ match step s e with
    | none => []
    | some t => meanings step meaning t es

/-- The rule for simulations: when every event that meets the condition in related
states has a next state, and its operations lead to a related one, a run whose steps
all meet the condition goes to its end, and so do the operations it means. -/
theorem run_simulates {σ α ε δ : Type} {step : σ → ε → Option σ} {ok : σ → ε → Prop}
    {astep : α → δ → Option α} {meaning : σ → ε → List δ} {R : σ → α → Prop}
    (hstep : ∀ s a e, R s a → ok s e →
      ∃ t b, step s e = some t ∧ run astep a (meaning s e) = some b ∧ R t b)
    {s : σ} {a : α} {es : List ε} (hR : R s a) (hok : Meets step ok s es) :
    ∃ t b, run step s es = some t ∧ run astep a (meanings step meaning s es) = some b ∧ R t b := by
  induction es generalizing s a with
  | nil => exact ⟨s, a, rfl, rfl, hR⟩
  | cons e es ih =>
    obtain ⟨he, hes⟩ := meets_cons.mp hok
    obtain ⟨t, b, ht, hb, hR'⟩ := hstep s a e hR he
    obtain ⟨u, c, hu, hc, hR''⟩ := ih hR' (hes t ht)
    refine ⟨u, c, run_cons.mpr ⟨t, ht, hu⟩, ?_, hR''⟩
    simp only [meanings, ht, run_append, hb, Option.bind_some]
    exact hc

end Machine
