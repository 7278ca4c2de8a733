import LocateMe.Lib.Documents
import LocateMe.Model

/-!
# The user's store and the writes to it

The two collections that Firestore keeps for a user, and the writes that the
database controllers send. A handler issues a list of writes; a runtime trap
ends the app after the writes before it have been issued.

Results:
1. `applyAll_history`: what leaves the history alone.
2. `mem_forEach`, `forEach_trapped`, `forEach_send`: what a loop of a handler
   issues.
-/

namespace LocateMe

open Documents

/-! ## 1. Writes -/

/-- The collections `users/<id>/lists` and `users/<id>/history`. -/
structure UserStore where
  lists : Collection ListDoc
  history : Collection HistoryDoc

def UserStore.empty : UserStore := ⟨.empty, .empty⟩

/-- A request of a database controller. -/
inductive Write
  | addList (title : String)
  | unionPlaces (listId : Nat) (placeIds : List Int)
  | removePlaces (listId : Nat) (placeIds : List Int)
  | setTitle (listId : Nat) (title : String)
  | deleteList (listId : Nat)
  | addHistory (doc : HistoryDoc)
  | setHistory (placeId : Nat) (doc : HistoryDoc)
  | removeTitles (placeId : Nat) (titles : List String)
  | deleteHistory (placeId : Nat)
deriving DecidableEq

def ListDoc.addPlaces (placeIds : List Int) (doc : ListDoc) : ListDoc :=
  { doc with places := arrayUnion doc.places placeIds }

def ListDoc.removePlaces (placeIds : List Int) (doc : ListDoc) : ListDoc :=
  { doc with places := arrayRemove doc.places placeIds }

def ListDoc.setTitle (title : String) (doc : ListDoc) : ListDoc := { doc with title := title }

def HistoryDoc.removeTitles (titles : List String) (doc : HistoryDoc) : HistoryDoc :=
  { doc with list := arrayRemove doc.list titles }

/-- A write that succeeds. `updateData` leaves a missing document missing. -/
def Write.apply (s : UserStore) : Write → UserStore
  | .addList title => { s with lists := s.lists.add ⟨title, []⟩ }
  | .unionPlaces listId placeIds =>
    { s with lists := s.lists.update listId (ListDoc.addPlaces placeIds) }
  | .removePlaces listId placeIds =>
    { s with lists := s.lists.update listId (ListDoc.removePlaces placeIds) }
  | .setTitle listId title => { s with lists := s.lists.update listId (ListDoc.setTitle title) }
  | .deleteList listId => { s with lists := s.lists.delete listId }
  | .addHistory doc => { s with history := s.history.add doc }
  | .setHistory placeId doc => { s with history := s.history.set placeId doc }
  | .removeTitles placeId titles =>
    { s with history := s.history.update placeId (HistoryDoc.removeTitles titles) }
  | .deleteHistory placeId => { s with history := s.history.delete placeId }

/-- All writes succeed, in the order in which they were issued. -/
def applyAll (s : UserStore) (ws : List Write) : UserStore := ws.foldl Write.apply s

@[simp] theorem applyAll_nil (s : UserStore) : applyAll s [] = s := rfl

@[simp] theorem applyAll_cons (s : UserStore) (w : Write) (ws : List Write) :
    applyAll s (w :: ws) = applyAll (w.apply s) ws := rfl

@[simp] theorem applyAll_append (s : UserStore) (ws vs : List Write) :
    applyAll s (ws ++ vs) = applyAll (applyAll s ws) vs :=
  List.foldl_append

/-- The rule for requests that succeed together: what each of them preserves, they
preserve. -/
theorem applyAll_invariant {I : UserStore → Prop} {ws : List Write}
    (hws : ∀ w ∈ ws, ∀ s, I s → I (w.apply s)) {s : UserStore} (hs : I s) :
    I (applyAll s ws) :=
  List.foldlRecOn ws Write.apply hs fun s hI w hw => hws w hw s hI

/-- Requests that leave the history alone one by one do so together. -/
theorem applyAll_history {ws : List Write} (h : ∀ w ∈ ws, ∀ s, (w.apply s).history = s.history)
    (s : UserStore) : (applyAll s ws).history = s.history :=
  applyAll_invariant (I := fun t => t.history = s.history)
    (fun w hw t ht => (h w hw t).trans ht) rfl

/-! ## 2. What a handler issues -/

/-- The writes that a handler issues, and whether it then traps. -/
structure Issued where
  writes : List Write
  trapped : Bool
deriving DecidableEq

namespace Issued

def none : Issued := ⟨[], false⟩

/-- A runtime trap. -/
def trap : Issued := ⟨[], true⟩

/-- One write to the document with the given path. The path of a document whose
id is `""` is a trap. -/
def write (path : Option Nat) (request : Nat → Write) : Issued :=
  path.elim trap fun id => ⟨[request id], false⟩

/-- What a document that a query returned or a new one gets: its id is known. -/
def send (ws : List Write) : Issued := ⟨ws, false⟩

/-- Go on with `b` unless `a` trapped. -/
def andThen (a b : Issued) : Issued := if a.trapped then a else ⟨a.writes ++ b.writes, b.trapped⟩

/-- A `for` loop. -/
def forEach {α : Type} (xs : List α) (body : α → Issued) : Issued :=
  xs.foldr (fun x rest => (body x).andThen rest) none

@[simp] theorem write_some (id : Nat) (request : Nat → Write) :
    write (some id) request = send [request id] := rfl

@[simp] theorem send_andThen (ws : List Write) (b : Issued) :
    (send ws).andThen b = ⟨ws ++ b.writes, b.trapped⟩ := rfl

@[simp] theorem none_andThen (b : Issued) : none.andThen b = b := rfl

@[simp] theorem forEach_nil {α : Type} (body : α → Issued) : forEach [] body = none := rfl

@[simp] theorem forEach_cons {α : Type} (x : α) (xs : List α) (body : α → Issued) :
    forEach (x :: xs) body = (body x).andThen (forEach xs body) := rfl

theorem andThen_trapped (a b : Issued) :
    (a.andThen b).trapped = false ↔ a.trapped = false ∧ b.trapped = false := by
  unfold andThen
  cases h : a.trapped <;> simp [h]

theorem andThen_writes {a : Issued} (b : Issued) (h : a.trapped = false) :
    (a.andThen b).writes = a.writes ++ b.writes := by
  simp [andThen, h]

/-- The second part is issued only when the first one did not trap. -/
theorem andThen_cases (a b : Issued) :
    (a.trapped = true ∧ (a.andThen b).writes = a.writes) ∨
      (a.trapped = false ∧ (a.andThen b).writes = a.writes ++ b.writes) := by
  cases h : a.trapped with
  | true => exact .inl ⟨rfl, by simp [andThen, h]⟩
  | false => exact .inr ⟨rfl, andThen_writes b h⟩

theorem mem_andThen {a b : Issued} {w : Write} (h : w ∈ (a.andThen b).writes) :
    w ∈ a.writes ∨ w ∈ b.writes := by
  rcases andThen_cases a b with ⟨-, hwrites⟩ | ⟨-, hwrites⟩
  · exact .inl (hwrites ▸ h)
  · rw [hwrites] at h
    exact List.mem_append.mp h

theorem mem_write {path : Option Nat} {request : Nat → Write} {w : Write}
    (h : w ∈ (write path request).writes) : ∃ id, path = some id ∧ w = request id := by
  cases path with
  | none => cases h
  | some id => exact ⟨id, rfl, List.mem_singleton.mp h⟩

/-- The writes of a loop are those of its rounds. -/
theorem mem_forEach {α : Type} {body : α → Issued} {xs : List α} {w : Write}
    (h : w ∈ (forEach xs body).writes) : ∃ x ∈ xs, w ∈ (body x).writes := by
  induction xs with
  | nil => cases h
  | cons x xs ih =>
    rw [forEach_cons] at h
    rcases mem_andThen h with hx | hxs
    · exact ⟨x, List.mem_cons_self, hx⟩
    · obtain ⟨y, hy, hw⟩ := ih hxs
      exact ⟨y, List.mem_cons_of_mem x hy, hw⟩

/-- A loop runs to its end iff every round does. -/
theorem forEach_trapped {α : Type} {body : α → Issued} {xs : List α} :
    (forEach xs body).trapped = false ↔ ∀ x ∈ xs, (body x).trapped = false := by
  induction xs with
  | nil => simp [Issued.none]
  | cons x xs ih => rw [forEach_cons, andThen_trapped, ih, List.forall_mem_cons]

/-- The requests of a loop that runs to its end. -/
theorem mem_forEach_of_mem {α : Type} {body : α → Issued} {xs : List α}
    (hok : (forEach xs body).trapped = false) {x : α} (hx : x ∈ xs) {w : Write}
    (hw : w ∈ (body x).writes) : w ∈ (forEach xs body).writes := by
  induction xs with
  | nil => cases hx
  | cons y ys ih =>
    obtain ⟨hhead, htail⟩ := (andThen_trapped _ _).mp hok
    rw [forEach_cons, andThen_writes _ hhead, List.mem_append]
    rcases List.mem_cons.mp hx with rfl | hx
    · exact .inl hw
    · exact .inr (ih htail hx)

/-- A loop whose every round sends writes sends them all. -/
theorem forEach_send {α : Type} {body : α → Issued} {ws : α → List Write} {xs : List α}
    (h : ∀ x ∈ xs, body x = send (ws x)) : forEach xs body = send (xs.flatMap ws) := by
  induction xs with
  | nil => rfl
  | cons x xs ih =>
    rw [forEach_cons, h x List.mem_cons_self, ih fun y hy => h y (List.mem_cons_of_mem x hy)]
    rfl

end Issued

end LocateMe
