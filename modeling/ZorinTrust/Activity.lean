import ZorinTrust.UiBridge

/-!
# The UI process

The Activity keeps its own copies of the service's globals: `trust_ui_sync_from_service` refreshes them
from the state file before every page that shows them, before every touch, and four times a second.
`screen` is what stands on the display: the Requests page as it was last drawn.  A touch is given by the
rectangles that hold its point; where the rectangles lie is not modelled.
-/

namespace ZorinTrust

open CText Numeral

/-- There are four pages and nine tabs. -/
instance neZero4 : NeZero 4 := ⟨by decide⟩
instance neZero9 : NeZero 9 := ⟨by decide⟩

/-- The pending request on the Requests page; `product_ellipsis` cuts each text to its line. -/
structure Screen where
  prompt : CStr 384
  action : CStr 256
  resource : CStr 512
  deriving DecidableEq

structure Ui where
  copy : UiCopy := {}
  gDeveloperMode : Bool := false
  /-- 0 Home, 1 Requests, 2 Devices, 3 Settings. -/
  gProductPage : Fin 4 := 0
  gSelectedTab : Fin 9 := 2
  gProductTapCount : ℕ := 0
  /-- The Requests page as last drawn; `none` when it had nothing pending, or was never drawn. -/
  screen : Option Screen := none
  deriving DecidableEq

/-! ### Drawing -/

/-- `trust_ui_sync_from_service` on the globals of the process. -/
def Ui.sync (file : Bytes) (u : Ui) : Ui := { u with copy := (trustUiSyncFromService file u.copy).2 }

/-- What a page shows, from the copies as they are. -/
def Ui.draw (u : Ui) : Ui :=
  if u.gDeveloperMode = false ∧ u.gProductPage = 1 then
    { u with screen :=
        if u.copy.g.gAuthorityPending then
          some ⟨u.copy.g.gAuthorityPrompt, u.copy.g.gAuthorityAction, u.copy.g.gAuthorityResource⟩
        else none }
  else u

/-- The page shows the service's state: all but Settings, and in developer mode the tab CENTER. -/
def Ui.showsTrust (u : Ui) : Bool := if u.gDeveloperMode then u.gSelectedTab = 2 else u.gProductPage ≠ 3

/-- `render`. -/
def Ui.render (file : Bytes) (u : Ui) : Ui := if u.showsTrust then (u.sync file).draw else u

/-- What the refresh thread does about a request that just became pending. -/
def Ui.refresh (file : Bytes) (u : Ui) : Ui :=
  let u' := u.sync file
  if u.copy.g.gAuthorityPending = false ∧ u'.copy.g.gAuthorityPending = true ∧
      u'.gDeveloperMode = false then { u' with gProductPage := 1 }
  else u'

/-- One turn of `trust_ui_refresh_thread`; `window` is whether there is one to draw on. -/
def trustUiRefreshTurn (file file' : Bytes) (window : Bool) (u : Ui) : Ui :=
  let changed := (trustUiSyncFromService file u.copy).1
  if 0 < changed ∧ window = true then (u.refresh file).render file' else u.refresh file

/-! ### Touches -/

/-- The rectangles `handle_touch` tests. -/
inductive Rect
  | productNav (i : Fin 4)
  | trustApprove
  | authorityDeny
  | authorityAllow
  | trustForget
  | trustVisual
  | productTitle
  | tab (i : Fin 9)
  | run
  | copy
  deriving DecidableEq

abbrev Touch := Rect → Bool

/-- What a touch meets: the device lock, and whether the command file can be written. -/
structure TouchEnv where
  locked : Bool := false
  writeOk : Bool := true

/-- What a touch leaves: the command it sends, the process, and whether it draws again. -/
structure Touched where
  ui : Ui
  command : Option (String × Bytes) := none
  draws : Bool := true

/-- `handle_touch` outside developer mode. -/
def productTouch (t : Touch) (e : TouchEnv) (u : Ui) : Touched :=
  match (List.finRange 4).find? fun i => t (.productNav i) with
  | some i => { ui := { u with gProductPage := i } }
  | none =>
    if u.gProductPage = 0 ∧ t .trustApprove = true then
      { ui := u
        command := if u.copy.g.gTrustState = 1 then some ("APPROVE", u.copy.g.gTrustHostPubPending.val)
          else none }
    else if u.gProductPage = 1 ∧ u.copy.g.gAuthorityPending = true ∧ t .authorityDeny = true then
      { ui := u, command := some ("AUTH_DENY", u.copy.g.gAuthorityRequestId.val) }
    else if u.gProductPage = 1 ∧ u.copy.g.gAuthorityPending = true ∧ t .authorityAllow = true then
      { ui := u
        command := if e.locked then none else some ("AUTH_APPROVE", u.copy.g.gAuthorityRequestId.val) }
    else if u.gProductPage = 2 ∧ t .trustForget = true then
      { ui := u, command := some ("FORGET", []) }
    else if u.gProductPage = 3 ∧ t .trustVisual = true then { ui := u }
    else if u.gProductPage = 3 ∧ t .productTitle = true then
      if 7 ≤ u.gProductTapCount + 1 then
        { ui := { u with gDeveloperMode := true, gSelectedTab := 2, gProductTapCount := 0 } }
      else { ui := { u with gProductTapCount := u.gProductTapCount + 1 } }
    else { ui := u, draws := false }

/-- `handle_touch` in developer mode. -/
def developerTouch (t : Touch) (e : TouchEnv) (u : Ui) : Touched :=
  match (List.finRange 9).find? fun i => t (.tab i) with
  | some i => { ui := { u with gSelectedTab := i } }
  | none =>
    if u.gSelectedTab = 2 ∧ t .trustApprove = true then
      if u.copy.g.gTrustState = 1 then
        let status := if e.writeOk then "APPROVAL SENT TO TRUST SERVICE" else "APPROVAL IPC FAILED"
        { ui := { u with copy.g.gTrustStatus := .put 128 (lit status) }
          command := some ("APPROVE", u.copy.g.gTrustHostPubPending.val) }
      else { ui := u }
    else if u.gSelectedTab = 2 ∧ t .trustForget = true then
      { ui := u, command := some ("FORGET", []) }
    else { ui := u, draws := u.gSelectedTab = 2 && t .trustVisual || t .run || t .copy }

/-- `handle_touch` after its sync and before it draws. -/
def touchAct (t : Touch) (e : TouchEnv) (u : Ui) : Touched :=
  if u.gDeveloperMode then developerTouch t e u else productTouch t e u

/-- `handle_touch`: the page is drawn from a second look at the state file. -/
def handleTouch (t : Touch) (e : TouchEnv) (file file' : Bytes) (u : Ui) : Touched :=
  let r := touchAct t e (u.sync file)
  if r.draws then { r with ui := r.ui.render file' } else r

/-- The text `trust_ui_send_command` leaves in the command file. -/
def Touched.written (e : TouchEnv) (r : Touched) : Option Bytes :=
  if e.writeOk then r.command.map fun c => commandFrame c.1 c.2 else none

end ZorinTrust
