import LocateMe.Lib.RowCounts
import LocateMe.MapRows

/-!
# The table of the search panel

The table view of the search panel keeps the numbers of rows of its two sections.
`retrieveSearches` and `reloadTableView` reload one section each, the animated header of
the search bar runs an empty batch of updates, and the completion of `addDefaultLists`
appends rows without telling the table.

Results:
1. `kept_panelRowsStep`: the recent searches are always up to date, and the table never
   shows more lists than there are.
2. `outOfDate_panelRowsStep`: when the lists get out of date, and what brings them up to
   date again.
3. `search_panel_traps_iff`: which events trap, and after which runs.
-/

namespace LocateMe

open RowCounts RowsLemmas

/-! ## 1. The table -/

inductive PanelSection
  | searches
  | lists
deriving DecidableEq

instance : Fintype PanelSection where
  elems := {.searches, .lists}
  complete i := by cases i <;> decide

/-- `tableView(_:numberOfRowsInSection:)` of `SearchController`. -/
def MapRows.numberOfRowsInSection (w : MapRows) : PanelSection → Nat
  | .searches => if 3 < w.searches.length then 3 else w.searches.length
  | .lists => w.lists.length

/-- The panel, and the numbers of rows that its table has. -/
structure PanelRows where
  rows : MapRows
  shown : PanelSection → Nat

/-- After `viewDidLoad` and the first layout. -/
def PanelRows.launch (accounts : Nat → UserData) (currentUser : Option Nat) : PanelRows :=
  let rows := (MapRows.launch accounts currentUser).reloadSearchView
  ⟨rows, rows.numberOfRowsInSection⟩

/-- What a handler asks of the table. -/
inductive TableCall
  | nothing
  | reloadData
  | reloadSections (i : PanelSection)
  | endUpdates
deriving DecidableEq

namespace TableCall

def apply (shown counts : PanelSection → Nat) : TableCall → Option (PanelSection → Nat)
  | .nothing => some shown
  | .reloadData => some counts
  | .reloadSections i => RowCounts.endUpdates (.reload i) shown counts
  | .endUpdates => RowCounts.endUpdates .nothing shown counts

end TableCall

/-- The block of `addSearchToDb` adds a row. -/
def MapRows.AddsSearch (w : MapRows) : Prop :=
  w.userId.isSome ∧ ¬ (w.searches.any (·.title == w.searchText)) = true

instance (w : MapRows) : Decidable w.AddsSearch :=
  inferInstanceAs (Decidable (w.userId.isSome ∧ ¬ (_ : Bool) = true))

/-- A search begins with `hideHeader(animated: true)`, and a logout ends with
`reloadData`. -/
def MapRows.tableCall (w : MapRows) : RowsEvent → TableCall
  | .logout => .reloadData
  | .searchItems _ => .endUpdates
  | .tappedSearch _ => .endUpdates
  | .addSearchToDb => if w.AddsSearch then .reloadData else .nothing
  | .handled user i =>
    match w.request user i with
    | some (.lists _) => .reloadSections .lists
    | some (.searches _) => .reloadSections .searches
    | none => .nothing
  | _ => .nothing

/-- An event of the rows, or a change of the header without a search: the search bar is
tapped or cancelled, the row of a list is tapped, or the panel is dragged down. -/
inductive PanelRowsEvent
  | rows (e : RowsEvent)
  | changeHeader
deriving DecidableEq

/-- One event. `reloadSearchView` is called again after a sign-up only, and by
`logout`. -/
def panelRowsStep (p : PanelRows) : PanelRowsEvent → Option PanelRows
  | .rows e =>
    if e = .reloadSearchView ∧ p.rows.currentUser = none then none
    else do
      let rows ← rowsStep p.rows e
      let shown ← (p.rows.tableCall e).apply p.shown rows.numberOfRowsInSection
      some ⟨rows, shown⟩
  | .changeHeader =>
    (RowCounts.endUpdates .nothing p.shown p.rows.numberOfRowsInSection).map fun shown =>
      { p with shown := shown }

/-! ## 2. Which rows are out of date -/

namespace PanelRows

/-- The table has other lists than the panel. -/
def OutOfDate (p : PanelRows) : Prop := p.shown .lists ≠ p.rows.lists.length

/-- The event looks at the lists of the table without reloading them. -/
def ChecksLists (p : PanelRows) : PanelRowsEvent → Prop
  | .rows (.searchItems _) => True
  | .rows (.tappedSearch _) => True
  | .rows (.handled user i) => ∃ q, p.rows.request user i = some (.searches q)
  | .rows _ => False
  | .changeHeader => True

/-- The completion of `addDefaultLists`. -/
def AppendsLists (_ : PanelRows) : PanelRowsEvent → Prop
  | .rows (.completed _ _) => True
  | _ => False

/-- The event reloads the lists. -/
def ReloadsLists (p : PanelRows) : PanelRowsEvent → Prop
  | .rows .logout => True
  | .rows .addSearchToDb => p.rows.AddsSearch
  | .rows (.handled user i) => ∃ r, p.rows.request user i = some (.lists r)
  | _ => False

end PanelRows

/-- A call of `addDefaultLists` makes four rows. -/
def MapRows.Sized (w : MapRows) : Prop :=
  ∀ user i u read rows left, w.request user i = some (.lists (.creating u read rows left)) →
    rows.length + left.length = 4

/-- What every run keeps. -/
structure PanelRows.Kept (p : PanelRows) : Prop where
  searches : p.shown .searches = p.rows.numberOfRowsInSection .searches
  lists : p.shown .lists ≤ p.rows.lists.length
  sized : p.rows.Sized

namespace PanelRowsLemmas

open PanelRows

/-- What a call has come to, when it makes rows. -/
def SizedCall (call : Call) : Prop :=
  ∀ u read rows left, call = .lists (.creating u read rows left) → rows.length + left.length = 4

theorem sized_setRequest {w : MapRows} (hw : w.Sized) {user i : Nat} {old call : Call}
    (hold : w.request user i = some old) (hcall : SizedCall call) :
    (w.setRequest user i call).Sized := by
  intro user' j u read rows left hrequest
  rw [request_setRequest hold] at hrequest
  split at hrequest
  · obtain ⟨-, heq⟩ := Option.ite_none_right_eq_some.mp hrequest
    exact hcall u read rows left (Option.some.inj heq)
  · exact hw user' j u read rows left hrequest

theorem sized_append {w : MapRows} (hw : w.Sized) {rs : List Request}
    (hrs : ∀ r ∈ rs, SizedCall r.call) : MapRows.Sized { w with requests := w.requests ++ rs } := by
  intro user i u read rows left hrequest
  rw [request_append] at hrequest
  split at hrequest
  · exact hw user i u read rows left hrequest
  · obtain ⟨r, hr, hcall⟩ := Option.bind_eq_some_iff.mp hrequest
    obtain ⟨-, heq⟩ := Option.ite_none_right_eq_some.mp hcall
    exact hrs r (List.mem_of_getElem? hr) u read rows left (Option.some.inj heq)

/-- What an event does to the rows, by the events that touch them. -/
theorem sized_rowsStep {w w' : MapRows} {e : RowsEvent} (hw : w.Sized)
    (h : rowsStep w e = some w') : w'.Sized := by
  have hreload : ∀ {v : MapRows}, v.Sized → v.reloadSearchView.Sized := by
    intro v hv
    cases hcurrent : v.currentUser with
    | none =>
      rw [reloadSearchView_none hcurrent]
      exact hv
    | some u =>
      rw [reloadSearchView_some hcurrent]
      exact sized_append (w := { v with userId := some u }) hv (by simp [SizedCall])
  cases e with
  | signIn user =>
    obtain ⟨-, heq⟩ := Option.ite_none_right_eq_some.mp h
    obtain rfl := Option.some.inj heq
    exact hw
  | logout =>
    obtain ⟨-, heq⟩ := Option.ite_none_right_eq_some.mp h
    obtain rfl := Option.some.inj heq
    exact hreload (v := { w with currentUser := none, searches := [] }) hw
  | reloadSearchView =>
    obtain rfl := Option.some.inj h
    exact hreload hw
  | retrieveLists =>
    obtain ⟨u, -, rfl⟩ := Option.map_eq_some_iff.mp h
    exact sized_append hw (by simp [SizedCall])
  | searchItems text =>
    obtain rfl := Option.some.inj h
    exact hw
  | tappedSearch row =>
    obtain ⟨search, -, rfl⟩ := Option.map_eq_some_iff.mp h
    exact hw
  | addSearchToDb =>
    obtain ⟨-, heq⟩ := Option.ite_none_left_eq_some.mp h
    obtain rfl := Option.some.inj heq
    rcases addSearchToDb_cases { w with recordBlocks := w.recordBlocks - 1 } with
      ⟨hsame, -⟩ | ⟨user, -, -, hsame⟩
    · rw [hsame]
      exact hw
    · rw [hsame]
      exact hw
  | answered user i ok =>
    rcases rowsStep_answered h with ⟨r, reply, hr, -, rfl⟩ | ⟨q, q', hq, -, rfl⟩
    · exact sized_setRequest hw hr (by simp [SizedCall])
    · exact sized_setRequest hw hq (by simp [SizedCall])
  | handled user i =>
    rcases rowsStep_handled h with ⟨r, allLists, r', hr, hhandle, rfl⟩ | ⟨reply, hreply, rfl⟩
    · refine sized_setRequest hw hr ?_
      rintro u read rows left heq
      obtain rfl := Call.lists.inj heq
      rcases handle_cases hhandle with hdone | ⟨u', read', -, hcreating⟩
      · cases hdone
      · obtain ⟨-, -, rfl, rfl⟩ := Retrieval.creating.inj hcreating
        rfl
    · exact sized_setRequest hw hreply (by simp [SizedCall])
  | written user i =>
    obtain ⟨r, accounts, r', hr, hwrite, rfl⟩ := rowsStep_written h
    obtain ⟨u, read, rows, title, left, rfl, rfl, -⟩ := write_cases hwrite
    refine sized_setRequest hw hr ?_
    rintro u' read' rows' left' heq
    obtain ⟨-, -, rfl, rfl⟩ := Retrieval.creating.inj (Call.lists.inj heq)
    have hsize := hw user i u read rows (title :: left) hr
    simp only [List.length_append, List.length_cons, List.length_nil] at hsize ⊢
    omega
  | completed user i =>
    obtain ⟨r, rows, r', hr, hcomplete, rfl⟩ := rowsStep_completed h
    obtain ⟨rfl, -⟩ := complete_cases hcomplete
    exact sized_setRequest hw hr (by simp [SizedCall])

theorem reloadsLists_iff {p : PanelRows} {e : RowsEvent} :
    p.ReloadsLists (.rows e) ↔
      p.rows.tableCall e = .reloadData ∨ p.rows.tableCall e = .reloadSections .lists := by
  cases e with
  | addSearchToDb =>
    simp only [ReloadsLists, MapRows.tableCall]
    split <;> simp_all
  | handled user i =>
    simp only [ReloadsLists, MapRows.tableCall]
    split <;> simp_all
  | _ => simp [ReloadsLists, MapRows.tableCall]

theorem checksLists_iff {p : PanelRows} {e : RowsEvent} :
    p.ChecksLists (.rows e) ↔
      p.rows.tableCall e = .endUpdates ∨ p.rows.tableCall e = .reloadSections .searches := by
  cases e with
  | addSearchToDb =>
    simp only [ChecksLists, MapRows.tableCall]
    split <;> simp
  | handled user i =>
    simp only [ChecksLists, MapRows.tableCall]
    split <;> simp_all
  | _ => simp [ChecksLists, MapRows.tableCall]

theorem tableCall_of_appendsLists {p : PanelRows} {e : RowsEvent} (h : p.AppendsLists (.rows e)) :
    p.rows.tableCall e = .nothing := by
  cases e with
  | completed user i => rfl
  | _ => exact h.elim

/-- What an event does to the two arrays, by what it asks of the table. -/
theorem rowsStep_tableCall {p : PanelRows} {w : MapRows} {e : RowsEvent} (hp : p.rows.Sized)
    (h : rowsStep p.rows e = some w) (hreload : e = .reloadSearchView → p.rows.currentUser ≠ none) :
    match p.rows.tableCall e with
    | .nothing => w.searches = p.rows.searches ∧
        ((p.AppendsLists (.rows e) ∧ w.lists.length = p.rows.lists.length + 4) ∨
          ¬ p.AppendsLists (.rows e) ∧ w.lists = p.rows.lists)
    | .reloadData => True
    | .reloadSections .lists => w.searches = p.rows.searches
    | .reloadSections .searches => w.lists = p.rows.lists
    | .endUpdates => w.searches = p.rows.searches ∧ w.lists = p.rows.lists := by
  cases e with
  | signIn user =>
    obtain ⟨-, heq⟩ := Option.ite_none_right_eq_some.mp h
    obtain rfl := Option.some.inj heq
    exact ⟨rfl, .inr ⟨id, rfl⟩⟩
  | logout => trivial
  | reloadSearchView =>
    obtain rfl := Option.some.inj h
    obtain ⟨u, hu⟩ := Option.ne_none_iff_exists'.mp (hreload rfl)
    rw [reloadSearchView_some hu]
    exact ⟨rfl, .inr ⟨id, rfl⟩⟩
  | retrieveLists =>
    obtain ⟨u, -, rfl⟩ := Option.map_eq_some_iff.mp h
    exact ⟨rfl, .inr ⟨id, rfl⟩⟩
  | searchItems text =>
    obtain rfl := Option.some.inj h
    exact ⟨rfl, rfl⟩
  | tappedSearch row =>
    obtain ⟨search, -, rfl⟩ := Option.map_eq_some_iff.mp h
    exact ⟨rfl, rfl⟩
  | addSearchToDb =>
    obtain ⟨-, heq⟩ := Option.ite_none_left_eq_some.mp h
    obtain rfl := Option.some.inj heq
    by_cases hadds : p.rows.AddsSearch
    · rw [MapRows.tableCall, if_pos hadds]
      trivial
    · rw [MapRows.tableCall, if_neg hadds]
      rcases addSearchToDb_cases { p.rows with recordBlocks := p.rows.recordBlocks - 1 } with
        ⟨hsame, -⟩ | ⟨user, huser, hnew, -⟩
      · rw [hsame]
        exact ⟨rfl, .inr ⟨id, rfl⟩⟩
      · -- the block adds a search
        refine absurd ⟨Option.isSome_of_eq_some huser, ?_⟩ hadds
        simpa using hnew
  | answered user i ok =>
    rcases rowsStep_answered h with ⟨r, reply, -, -, rfl⟩ | ⟨q, q', -, -, rfl⟩
    · exact ⟨rfl, .inr ⟨id, rfl⟩⟩
    · exact ⟨rfl, .inr ⟨id, rfl⟩⟩
  | handled user i =>
    rcases rowsStep_handled h with ⟨r, allLists, r', hr, -, rfl⟩ | ⟨reply, hreply, rfl⟩
    · have hcall : p.rows.tableCall (.handled user i) = .reloadSections .lists := by
        simp [MapRows.tableCall, hr]
      rw [hcall]
      rfl
    · have hcall : p.rows.tableCall (.handled user i) = .reloadSections .searches := by
        simp [MapRows.tableCall, hreply]
      rw [hcall]
      rfl
  | written user i =>
    obtain ⟨r, accounts, r', -, -, rfl⟩ := rowsStep_written h
    exact ⟨rfl, .inr ⟨id, rfl⟩⟩
  | completed user i =>
    obtain ⟨r, rows, r', hr, hcomplete, rfl⟩ := rowsStep_completed h
    obtain ⟨-, u, read, rfl⟩ := complete_cases hcomplete
    have hsize := hp user i u read rows [] hr
    refine ⟨rfl, .inl ⟨trivial, ?_⟩⟩
    simp only [List.length_append]
    simp only [List.length_nil] at hsize
    omega

/-- A step of the table is a step of the rows, with what it asks of the table. -/
theorem panelRowsStep_rows {p t : PanelRows} {e : RowsEvent} :
    panelRowsStep p (.rows e) = some t ↔
      (e = .reloadSearchView → p.rows.currentUser ≠ none) ∧
        ∃ rows, rowsStep p.rows e = some rows ∧
          ∃ shown, (p.rows.tableCall e).apply p.shown rows.numberOfRowsInSection = some shown ∧
            t = ⟨rows, shown⟩ := by
  simp only [panelRowsStep, Option.ite_none_left_eq_some, not_and, Option.bind_eq_bind,
    Option.bind_eq_some_iff, Option.some.injEq]
  refine and_congr_right fun _ => exists_congr fun rows => and_congr_right fun _ => ?_
  exact exists_congr fun shown => and_congr_right fun _ => eq_comm

theorem panelRowsStep_changeHeader {p t : PanelRows} :
    panelRowsStep p .changeHeader = some t ↔
      (∀ i, p.shown i = p.rows.numberOfRowsInSection i) ∧ t = p := by
  simp only [panelRowsStep, Option.map_eq_some_iff, endUpdates_eq_some, Updates.nothing,
    Bool.false_eq_true, false_or, Nat.add_zero]
  constructor
  · rintro ⟨shown, ⟨hall, rfl⟩, rfl⟩
    have hshown : p.rows.numberOfRowsInSection = p.shown := funext hall
    exact ⟨fun i => (hall i).symm, by rw [hshown]⟩
  · rintro ⟨hall, rfl⟩
    have hshown : t.rows.numberOfRowsInSection = t.shown := funext fun i => (hall i).symm
    exact ⟨_, ⟨fun i => (hall i).symm, rfl⟩, by rw [hshown]⟩

theorem kept_panelRowsStep {p t : PanelRows} {e : PanelRowsEvent} (hp : p.Kept)
    (h : panelRowsStep p e = some t) : t.Kept := by
  cases e with
  | changeHeader =>
    obtain ⟨-, rfl⟩ := panelRowsStep_changeHeader.mp h
    exact hp
  | rows e =>
    obtain ⟨hreload, w, hrows, shown, hshown, rfl⟩ := panelRowsStep_rows.mp h
    have hspec := rowsStep_tableCall hp.sized hrows hreload
    have hsized := sized_rowsStep hp.sized hrows
    cases hcall : p.rows.tableCall e with
    | nothing =>
      rw [hcall] at hspec hshown
      obtain rfl := Option.some.inj hshown
      obtain ⟨hsearches, hlists⟩ := hspec
      refine ⟨?_, ?_, hsized⟩
      · rw [hp.searches]
        simp only [MapRows.numberOfRowsInSection, hsearches]
      · rcases hlists with ⟨-, hlength⟩ | ⟨-, hsame⟩
        · have hmore : p.rows.lists.length ≤ w.lists.length := by omega
          exact hp.lists.trans hmore
        · exact hp.lists.trans (by rw [hsame])
    | reloadData =>
      rw [hcall] at hshown
      obtain rfl := Option.some.inj hshown
      exact ⟨rfl, le_rfl, hsized⟩
    | reloadSections i =>
      rw [hcall] at hshown
      obtain ⟨-, rfl⟩ := endUpdates_eq_some.mp hshown
      exact ⟨rfl, le_rfl, hsized⟩
    | endUpdates =>
      rw [hcall] at hshown
      obtain ⟨-, rfl⟩ := endUpdates_eq_some.mp hshown
      exact ⟨rfl, le_rfl, hsized⟩

/-- A batch that goes through without reloading the lists has found them up to date. -/
theorem not_outOfDate_of_endUpdates {p : PanelRows} {w : MapRows} {u : Updates PanelSection}
    {shown : PanelSection → Nat} (hlists : w.lists = p.rows.lists)
    (hu : u.reloaded .lists = false ∧ u.deleted .lists = 0)
    (h : endUpdates u p.shown w.numberOfRowsInSection = some shown) : ¬ p.OutOfDate := by
  have hcount := ((endUpdates_eq_some.mp h).1 .lists).resolve_left (by simp [hu.1])
  simp only [hu.2, Nat.add_zero, MapRows.numberOfRowsInSection, hlists] at hcount
  exact fun hout => hout hcount.symm

/-- When the lists of the table are out of date after an event. -/
theorem outOfDate_panelRowsStep {p t : PanelRows} {e : PanelRowsEvent} (hp : p.Kept)
    (h : panelRowsStep p e = some t) :
    t.OutOfDate ↔ p.AppendsLists e ∨ p.OutOfDate ∧ ¬ p.ReloadsLists e := by
  cases e with
  | changeHeader =>
    obtain ⟨-, rfl⟩ := panelRowsStep_changeHeader.mp h
    simp [AppendsLists, ReloadsLists]
  | rows e =>
    obtain ⟨hreload, w, hrows, shown, hshown, rfl⟩ := panelRowsStep_rows.mp h
    have hspec := rowsStep_tableCall hp.sized hrows hreload
    have happends : p.rows.tableCall e ≠ .nothing → ¬ p.AppendsLists (.rows e) :=
      fun hne hcall => hne (tableCall_of_appendsLists hcall)
    rw [reloadsLists_iff]
    cases hcall : p.rows.tableCall e with
    | nothing =>
      rw [hcall] at hspec hshown
      obtain rfl := Option.some.inj hshown
      rcases hspec.2 with ⟨hcompleted, hlength⟩ | ⟨hnot, hsame⟩
      · refine iff_of_true (fun heq : p.shown .lists = w.lists.length => ?_) (.inl hcompleted)
        have hle := hp.lists
        omega
      · simp [hnot, OutOfDate, hsame]
    | reloadData =>
      rw [hcall] at hshown
      obtain rfl := Option.some.inj hshown
      simp [happends (by simp [hcall]), OutOfDate, MapRows.numberOfRowsInSection]
    | reloadSections i =>
      rw [hcall] at hspec hshown
      have hnew : ¬ PanelRows.OutOfDate ⟨w, shown⟩ := by
        obtain ⟨-, rfl⟩ := endUpdates_eq_some.mp hshown
        exact fun hout => hout rfl
      refine iff_of_false hnew ?_
      rintro (hcompleted | ⟨hout, hnot⟩)
      · exact happends (by simp [hcall]) hcompleted
      · cases i with
        | lists => exact hnot (.inr rfl)
        | searches => exact not_outOfDate_of_endUpdates hspec ⟨rfl, rfl⟩ hshown hout
    | endUpdates =>
      rw [hcall] at hspec hshown
      have hnew : ¬ PanelRows.OutOfDate ⟨w, shown⟩ := by
        obtain ⟨-, rfl⟩ := endUpdates_eq_some.mp hshown
        exact fun hout => hout rfl
      refine iff_of_false hnew ?_
      rintro (hcompleted | ⟨hout, -⟩)
      · exact happends (by simp [hcall]) hcompleted
      · exact not_outOfDate_of_endUpdates hspec.2 ⟨rfl, rfl⟩ hshown hout

/-- The sections of the table of which one is out of date. -/
theorem exists_ne_count_iff {p : PanelRows} {w : MapRows} (hp : p.Kept)
    (hsearches : w.searches = p.rows.searches) (hlists : w.lists = p.rows.lists) :
    (∃ i, p.shown i ≠ w.numberOfRowsInSection i) ↔ p.OutOfDate := by
  constructor
  · rintro ⟨i, hi⟩
    cases i with
    | searches =>
      refine absurd ?_ hi
      rw [hp.searches]
      simp only [MapRows.numberOfRowsInSection, hsearches]
    | lists => simpa [MapRows.numberOfRowsInSection, hlists, OutOfDate] using hi
  · intro hout
    exact ⟨.lists, by simpa [MapRows.numberOfRowsInSection, hlists, OutOfDate] using hout⟩

/-- What the table asks for stops an event only at lists that are out of date. -/
theorem panelRowsStep_eq_none_iff {p : PanelRows} {w : MapRows} {e : RowsEvent} (hp : p.Kept)
    (hrows : rowsStep p.rows e = some w)
    (hreload : e = .reloadSearchView → p.rows.currentUser ≠ none) :
    panelRowsStep p (.rows e) = none ↔ p.ChecksLists (.rows e) ∧ p.OutOfDate := by
  have hspec := rowsStep_tableCall hp.sized hrows hreload
  have hstep : panelRowsStep p (.rows e) = none ↔
      (p.rows.tableCall e).apply p.shown w.numberOfRowsInSection = none := by
    have hguard : ¬ (e = .reloadSearchView ∧ p.rows.currentUser = none) :=
      fun h => hreload h.1 h.2
    simp only [panelRowsStep, if_neg hguard, hrows, Option.bind_eq_bind, Option.bind_some]
    cases (p.rows.tableCall e).apply p.shown w.numberOfRowsInSection <;> simp
  rw [hstep, checksLists_iff]
  cases hcall : p.rows.tableCall e with
  | nothing => simp [TableCall.apply]
  | reloadData => simp [TableCall.apply]
  | reloadSections i =>
    rw [hcall] at hspec
    cases i with
    | lists =>
      -- the recent searches are up to date
      have hsearches : p.shown .searches = w.numberOfRowsInSection .searches := by
        rw [hp.searches]
        simp only [MapRows.numberOfRowsInSection, hspec]
      simp only [TableCall.apply, endUpdates_reload, reduceCtorEq, TableCall.reloadSections.injEq,
        or_self, false_and, iff_false]
      rintro ⟨j, hj, hne⟩
      cases j with
      | searches => exact hne hsearches
      | lists => exact hj rfl
    | searches =>
      simp only [TableCall.apply, endUpdates_reload, or_true, true_and]
      constructor
      · rintro ⟨j, hj, hne⟩
        cases j with
        | searches => exact absurd rfl hj
        | lists => simpa [MapRows.numberOfRowsInSection, hspec, OutOfDate] using hne
      · intro hout
        exact ⟨.lists, by simp, by
          simpa [MapRows.numberOfRowsInSection, hspec, OutOfDate] using hout⟩
  | endUpdates =>
    rw [hcall] at hspec
    simp only [TableCall.apply, endUpdates_nothing, true_or, true_and]
    exact exists_ne_count_iff hp hspec.1 hspec.2

theorem panelRows_kept_launch (accounts : Nat → UserData) (currentUser : Option Nat) :
    (PanelRows.launch accounts currentUser).Kept := by
  refine ⟨rfl, le_rfl, ?_⟩
  have hw : (MapRows.launch accounts currentUser).Sized := by
    simp [MapRows.Sized, MapRows.launch, MapRows.request]
  exact sized_rowsStep (e := .reloadSearchView) hw rfl

end PanelRowsLemmas

open PanelRowsLemmas

/-! ## 3. Traps -/

/-- The event can happen, and its handler does not trap for another reason. -/
def PanelRows.Offered (p : PanelRows) : PanelRowsEvent → Prop
  | .rows e => (rowsStep p.rows e).isSome ∧
    (e = .reloadSearchView → p.rows.currentUser ≠ none)
  | .changeHeader => True

/-- In every run of the panel, an event traps in the table iff it looks at the lists of
the table without reloading them, as every search, every change of the header and every
reply with recent searches does, and the completion of `addDefaultLists` has appended
rows since the lists were last reloaded. -/
theorem search_panel_traps_iff (accounts : Nat → UserData) (currentUser : Option Nat)
    (es : List PanelRowsEvent) (p : PanelRows)
    (hrun : Machine.run panelRowsStep (.launch accounts currentUser) es = some p)
    (e : PanelRowsEvent) (hoffered : p.Offered e) :
    panelRowsStep p e = none ↔ p.ChecksLists e ∧
      Machine.Lasting panelRowsStep PanelRows.AppendsLists PanelRows.ReloadsLists
        (.launch accounts currentUser) es := by
  have hlaunch := panelRows_kept_launch accounts currentUser
  have hp : p.Kept := Machine.run_invariant' (fun _ _ _ => kept_panelRowsStep) hlaunch hrun
  have hany : Machine.Meets panelRowsStep (fun _ _ => True) (.launch accounts currentUser) es :=
    Machine.meets_of_forall fun _ _ _ => trivial
  have hout : p.OutOfDate ↔ _ := Machine.run_lasting (J := PanelRows.Kept)
    (fun _ _ _ hq _ => kept_panelRowsStep hq) (fun _ _ _ => outOfDate_panelRowsStep) hlaunch
    (fun h => h rfl) hany hrun
  rw [← hout]
  cases e with
  | rows e =>
    obtain ⟨w, hw⟩ := Option.isSome_iff_exists.mp hoffered.1
    exact panelRowsStep_eq_none_iff hp hw hoffered.2
  | changeHeader =>
    have hstep : panelRowsStep p .changeHeader = none ↔
        ∃ i, p.shown i ≠ p.rows.numberOfRowsInSection i := by
      simp only [panelRowsStep, Option.map_eq_none_iff, endUpdates_nothing]
    rw [hstep, exists_ne_count_iff hp rfl rfl]
    exact (and_iff_right trivial).symm

/-- The app starts with a user who has no lists, and the search bar is tapped when
`addDefaultLists` has run. -/
def exNewUser : List PanelRowsEvent :=
  [.rows (.answered 0 1 true), .rows (.handled 0 1), .rows (.written 0 1), .rows (.written 0 1),
    .rows (.written 0 1), .rows (.written 0 1), .rows (.completed 0 1)]

theorem search_panel_traps_iff_new_user : ∃ p,
    Machine.run panelRowsStep (.launch (fun _ => ⟨.empty, .empty⟩) (some 0)) exNewUser = some p ∧
    (panelRowsStep p .changeHeader = none ↔ p.ChecksLists .changeHeader ∧
      Machine.Lasting panelRowsStep PanelRows.AppendsLists PanelRows.ReloadsLists
        (.launch (fun _ => ⟨.empty, .empty⟩) (some 0)) exNewUser) :=
  ⟨_, rfl, search_panel_traps_iff _ _ exNewUser _ rfl .changeHeader trivial⟩

end LocateMe
