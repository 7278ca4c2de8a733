import LocateMe.DirectionReplies

/-!
# The three panels of the map

`MapController` shows one of three panels: the search panel `fpc`, the list of
places `detailFpc`, the details of a place `infoFpc`. A handler attaches and removes
a panel, and hides and shows its view; a hidden panel stays attached.

Results:
1. `panelStep_shape`: the states of the panels that runs reach. In one of them the
   search panel and the details of a place are both on screen.
2. `oneVisible_iff`: in a run exactly one panel is visible in every state iff no
   directions reply presents the details of a place while the list of places is not
   attached.
-/

namespace LocateMe

/-! ## 1. The panels -/

/-- A `FloatingPanelController`: whether it has a parent, and `view.isHidden`. -/
structure Panel where
  attached : Bool
  isHidden : Bool
deriving DecidableEq

namespace Panel

def visible (p : Panel) : Bool := p.attached && !p.isHidden

/-- `addPanel`, which leaves an attached panel as it is. -/
def addPanel (p : Panel) : Panel := { p with attached := true }

def removePanelFromParent (p : Panel) : Panel := { p with attached := false }

/-- `hide` with the completion that hides the view. -/
def hide (p : Panel) : Panel := { p with isHidden := true }

/-- The view is shown, and `show`. -/
def unhide (p : Panel) : Panel := { p with isHidden := false }

end Panel

structure Panels where
  fpc : Panel
  detailFpc : Panel
  infoFpc : Panel
deriving DecidableEq

/-- The argument of `removeFpc`; `other` is `""`. -/
inductive FloatingPanel
  | info
  | detail
  | both
  | other
deriving DecidableEq

namespace Panels

/-- Exactly one panel is visible. -/
def OneVisible (p : Panels) : Prop :=
  ([p.fpc, p.detailFpc, p.infoFpc].filter Panel.visible).length = 1

instance (p : Panels) : Decidable p.OneVisible := inferInstanceAs (Decidable (_ = 1))

/-- After `viewDidLoad`. -/
def initial : Panels := ⟨⟨true, false⟩, ⟨false, false⟩, ⟨false, false⟩⟩

/-- The completion of `getDetailFcp`. A hidden `detailFpc` stays hidden. -/
def getDetailFcp (p : Panels) : Panels :=
  { p with fpc := p.fpc.hide, detailFpc := p.detailFpc.addPanel }

/-- The end of `getDistanceAndTime` and `setUpPlaceDetail`. -/
def setUpPlaceDetail (p : Panels) : Panels :=
  { p with detailFpc := p.detailFpc.hide, infoFpc := p.infoFpc.addPanel }

def removeFpc (p : Panels) (floatingPanel : FloatingPanel) : Panels :=
  let p :=
    if floatingPanel = .info ∨ floatingPanel = .both then
      { p with infoFpc := p.infoFpc.removePanelFromParent, detailFpc := p.detailFpc.unhide }
    else p
  if floatingPanel = .detail ∨ floatingPanel = .both then
    { p with detailFpc := p.detailFpc.removePanelFromParent, fpc := p.fpc.unhide }
  else p

/-- What `resetMapView` passes to `removeFpc`. -/
def floatingPanel (p : Panels) : FloatingPanel :=
  if p.detailFpc.attached then (if p.infoFpc.attached then .both else .detail) else .other

end Panels

/-! ## 2. The controller with its panels -/

structure PanelMap where
  map : DetailMap
  panels : Panels

def initialPanelMap (searchDistance : Rat) : PanelMap :=
  ⟨initialDetailMap searchDistance, .initial⟩

/-- The handlers of `mapStep`, and the logout. -/
inductive PanelEvent
  | handler (e : MapEvent)
  | resetMapView
deriving DecidableEq

/-- What a handler does to the panels. -/
def Panels.handle (p : Panels) : MapEvent → Panels
  | .handler (.detailBlock _) => p.getDetailFcp
  | .handler (.directionsReply _ true _) => p.setUpPlaceDetail
  | .handler .removeDetailFpc => p.removeFpc .detail
  | .handler .removeInfoFpc => p.removeFpc .info
  | _ => p

/-- A row or a close button can be tapped only on a visible panel. -/
def Panels.tappable (p : Panels) : MapEvent → Bool
  | .handler (.didSelectRow _ _) => p.detailFpc.visible
  | .handler .removeDetailFpc => p.detailFpc.visible
  | .handler .removeInfoFpc => p.infoFpc.visible
  | _ => true

/-- One handler. `removeFpc` of the list of places also makes a new `listDetailVC`. -/
def panelStep (dist : Coordinate → Coordinate → Rat)
    (isEqual : MapItemObject → MapItemObject → Bool) (w : PanelMap) :
    PanelEvent → Option PanelMap
  | .handler e =>
    if w.panels.tappable e then
      (mapStep dist isEqual w.map e).map fun m => ⟨m, w.panels.handle e⟩
    else none
  | .resetMapView =>
    some
      { map := if w.panels.detailFpc.attached then { w.map with places := [] } else w.map
        panels := w.panels.removeFpc w.panels.floatingPanel }

/-- A reply that presents the details of a place does it over the list of places. -/
def Panels.PresentsOverList (p : Panels) : MapEvent → Prop
  | .handler (.directionsReply _ true _) => p.detailFpc.attached = true
  | _ => True

def PanelMap.PresentsOverList (w : PanelMap) : PanelEvent → Prop
  | .handler e => w.panels.PresentsOverList e
  | .resetMapView => True

/-! ## 3. The states that are reached -/

/-- The search panel, the list of places, the details of a place over the list, or
the details beside the search panel. -/
inductive Panels.Shape : Panels → Prop
  | search : Shape ⟨⟨true, false⟩, ⟨false, false⟩, ⟨false, false⟩⟩
  | list : Shape ⟨⟨true, true⟩, ⟨true, false⟩, ⟨false, false⟩⟩
  | place : Shape ⟨⟨true, true⟩, ⟨true, true⟩, ⟨true, false⟩⟩
  | beside : Shape ⟨⟨true, false⟩, ⟨false, true⟩, ⟨true, false⟩⟩

namespace PanelLemmas

/-- Beside the search panel there is no list of places, and two panels are visible. -/
theorem oneVisible_shape_iff {p : Panels} (h : p.Shape) :
    p.OneVisible ↔ ¬ (p.infoFpc.attached = true ∧ p.detailFpc.attached = false) := by
  cases h <;> decide

theorem shape_getDetailFcp {p : Panels} (h : p.Shape) : p.getDetailFcp.Shape := by
  cases h with
  | search => exact .list
  | list => exact .list
  | place => exact .place
  | beside => exact .place

theorem shape_setUpPlaceDetail {p : Panels} (h : p.Shape) : p.setUpPlaceDetail.Shape := by
  cases h with
  | search => exact .beside
  | list => exact .place
  | place => exact .place
  | beside => exact .beside

/-- The close button of the list of places. -/
theorem shape_removeDetail {p : Panels} (h : p.Shape) (hvisible : p.detailFpc.visible = true) :
    (p.removeFpc .detail).Shape := by
  cases h with
  | search => cases hvisible
  | list => exact .search
  | place => cases hvisible
  | beside => cases hvisible

/-- The close button of the details of a place. -/
theorem shape_removeInfo {p : Panels} (h : p.Shape) (hvisible : p.infoFpc.visible = true) :
    (p.removeFpc .info).Shape := by
  cases h with
  | search => cases hvisible
  | list => cases hvisible
  | place => exact .list
  | beside => exact .search

/-- A logout over the details of a place beside the search panel leaves both. -/
theorem shape_resetMapView {p : Panels} (h : p.Shape) : (p.removeFpc p.floatingPanel).Shape := by
  cases h with
  | search => exact .search
  | list => exact .search
  | place => exact .search
  | beside => exact .beside

theorem shape_handle {p : Panels} {e : MapEvent} (h : p.Shape) (htap : p.tappable e = true) :
    (p.handle e).Shape := by
  unfold Panels.handle
  split
  · exact shape_getDetailFcp h
  · exact shape_setUpPlaceDetail h
  · exact shape_removeDetail h htap
  · exact shape_removeInfo h htap
  · exact h

variable {dist : Coordinate → Coordinate → Rat} {isEqual : MapItemObject → MapItemObject → Bool}
  {w w' : PanelMap}

/-- The panels after a step. -/
theorem panelStep_handler {e : MapEvent} (h : panelStep dist isEqual w (.handler e) = some w') :
    w.panels.tappable e = true ∧ w'.panels = w.panels.handle e := by
  obtain ⟨htap, hstep⟩ := Option.ite_none_right_eq_some.mp h
  obtain ⟨m, -, rfl⟩ := Option.map_eq_some_iff.mp hstep
  exact ⟨htap, rfl⟩

theorem panelStep_shape {e : PanelEvent} (hw : w.panels.Shape)
    (h : panelStep dist isEqual w e = some w') : w'.panels.Shape := by
  cases e with
  | handler e =>
    obtain ⟨htap, hpanels⟩ := panelStep_handler h
    rw [hpanels]
    exact shape_handle hw htap
  | resetMapView =>
    obtain rfl := Option.some.inj h
    exact shape_resetMapView hw

/-- Of the handlers only a reply makes the details of a place appear without the
list. -/
theorem oneVisible_handle_iff {p : Panels} {e : MapEvent} (h : p.Shape) (hone : p.OneVisible)
    (htap : p.tappable e = true) : (p.handle e).OneVisible ↔ p.PresentsOverList e := by
  have hover := (oneVisible_shape_iff h).mp hone
  rw [oneVisible_shape_iff (shape_handle h htap)]
  unfold Panels.handle Panels.PresentsOverList
  split
  · simp [Panels.getDetailFcp, Panel.addPanel]
  · simp [Panels.setUpPlaceDetail, Panel.addPanel, Panel.hide]
  · cases h with
    | list => simp [Panels.removeFpc, Panel.removePanelFromParent]
    | _ => cases htap
  · simp [Panels.removeFpc, Panel.removePanelFromParent]
  · next hblock hreply hdetail hinfo =>
    split
    · next i userPin => exact absurd rfl (hreply i userPin)
    · simpa using hover

theorem oneVisible_panelStep_iff {e : PanelEvent} (hw : w.panels.Shape)
    (hone : w.panels.OneVisible) (h : panelStep dist isEqual w e = some w') :
    w'.panels.OneVisible ↔ w.PresentsOverList e := by
  cases e with
  | handler e =>
    obtain ⟨htap, hpanels⟩ := panelStep_handler h
    rw [hpanels]
    exact oneVisible_handle_iff hw hone htap
  | resetMapView =>
    obtain rfl := Option.some.inj h
    refine iff_of_true ?_ trivial
    generalize w.panels = p at hw hone
    cases hw with
    | beside => cases hone
    | _ => rfl

end PanelLemmas

open PanelLemmas

/-! ## 4. One panel at a time -/

/-- In a run of searches, taps, closings and logouts, with the replies at any time,
exactly one panel is visible in every state iff every reply that presents the details
of a place finds the list of places attached. -/
theorem oneVisible_iff (dist : Coordinate → Coordinate → Rat)
    (isEqual : MapItemObject → MapItemObject → Bool) (searchDistance : Rat)
    {es : List PanelEvent} {t : PanelMap}
    (hrun : Machine.run (panelStep dist isEqual) (initialPanelMap searchDistance) es = some t) :
    (∀ fs u, fs <+: es →
      Machine.run (panelStep dist isEqual) (initialPanelMap searchDistance) fs = some u →
      u.panels.OneVisible) ↔
    Machine.Meets (panelStep dist isEqual) PanelMap.PresentsOverList
      (initialPanelMap searchDistance) es :=
  Machine.run_exact_prefix (I := fun w => w.panels.OneVisible) (J := fun w => w.panels.Shape)
    (fun _ _ _ hw h => panelStep_shape hw h)
    (fun _ _ _ hw hone h => oneVisible_panelStep_iff hw hone h) .search rfl hrun

/-- A search, and the details of its only place opened from the row. -/
def exPlaceOpened : List PanelEvent :=
  exRowTapped.map PanelEvent.handler ++ [.handler (.handler (.directionsReply 0 true none))]

theorem oneVisible_opened :
    ∃ t, Machine.run (panelStep groundDistance exSameObject) (initialPanelMap 1000) exPlaceOpened =
        some t ∧
      ((∀ fs u, fs <+: exPlaceOpened →
        Machine.run (panelStep groundDistance exSameObject) (initialPanelMap 1000) fs = some u →
        u.panels.OneVisible) ↔
      Machine.Meets (panelStep groundDistance exSameObject) PanelMap.PresentsOverList
        (initialPanelMap 1000) exPlaceOpened) := by
  obtain ⟨t, hrun⟩ := Option.isSome_iff_exists.mp (show (Machine.run
    (panelStep groundDistance exSameObject) (initialPanelMap 1000) exPlaceOpened).isSome by
      decide +kernel)
  exact ⟨t, hrun, oneVisible_iff groundDistance exSameObject 1000 hrun⟩

/-- A search along a trace with two centres, of which one has answered, a tap on the
pin of its item, and the reply. -/
def exWhileTracing : List PanelEvent :=
  [.handler (.handler (.tappedSearchIcon 1 ⟨[⟨0, 0⟩, ⟨1/100, 0⟩], some ⟨0, 0⟩⟩)),
    .handler (.handler (.tracedResponse 0 [exItem "A" ⟨1/1000, 0⟩] none (some ⟨0, 0⟩))),
    .handler (.handler (.didSelectPin ⟨1/1000, 0⟩ none (some ⟨0, 0⟩))),
    .handler (.handler (.directionsReply 0 true none))]

/-- The details of the place come up beside the search panel. -/
theorem two_panels_while_tracing :
    ¬ ∀ (dist : Coordinate → Coordinate → Rat) (isEqual : MapItemObject → MapItemObject → Bool)
        (searchDistance : Rat) (es : List PanelEvent) (t : PanelMap),
      Machine.run (panelStep dist isEqual) (initialPanelMap searchDistance) es = some t →
        t.panels.OneVisible := by
  intro h
  have hrun : (Machine.run (panelStep groundDistance exSameObject) (initialPanelMap 1000)
      exWhileTracing).map (fun t => decide t.panels.OneVisible) = some false := by
    decide +kernel
  obtain ⟨t, ht, hpanels⟩ := Option.map_eq_some_iff.mp hrun
  exact of_decide_eq_false hpanels (h _ _ _ _ t ht)

end LocateMe
