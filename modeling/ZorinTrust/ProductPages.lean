import ZorinTrust.Activity
import ZorinTrust.PairCode
import ZorinTrust.Drawing

/-!
# The pages of the app

What `render_product` draws, as the fills it makes in order, and the rectangles it leaves for
`handle_touch`.  The inset of the system bars, the device lock and the overlay permission are what the
system tells it (`Look`); all else comes from the copies of the service's globals.
-/

namespace ZorinTrust.Screen

open CText

/-- The four ints of a rectangle. -/
structure Box where
  x : ℤ := 0
  y : ℤ := 0
  w : ℤ := 0
  h : ℤ := 0
  deriving DecidableEq

def inRect (p : ℤ × ℤ) (r : Box) : Bool := p.1 ≥ r.x ∧ p.2 ≥ r.y ∧ p.1 < r.x + r.w ∧ p.2 < r.y + r.h

/-- The rectangles of the globals, as the pages drawn last have set them. -/
abbrev Layout := Rect → Box

def Layout.zero : Layout := fun _ => {}

/-- What `render_product` asks the system. -/
structure Look where
  window : Window
  safeLeft : ℤ := 0
  safeTop : ℤ := 0
  safeRight : ℤ := 0
  safeBottom : ℤ := 0
  /-- `trust_device_locked`. -/
  locked : Bool := false
  /-- `trust_overlay_allowed`. -/
  overlay : Bool := false

/-- The fills of a page and the rectangles after it. -/
structure Page where
  fills : List Fill
  layout : Layout

def productPages : List String := ["HOME", "REQUESTS", "DEVICES", "SETTINGS"]

/-! ### Parts -/

def productButton (width : ℤ) (r : Box) (label : String) (scale : ℤ) (danger : Bool) : List Fill :=
  let bg := if danger then rgb 48 24 30 else rgb 34 36 44
  let edge := if danger then rgb 238 72 88 else rgb 64 67 78
  let fg := if danger then rgb 255 118 132 else rgb 244 245 248
  let tw := textWidth (lit label) scale
  .rect r.x r.y r.w r.h bg :: (outlineRect r.x r.y r.w r.h 1 edge ++
    drawText width (r.x + (r.w - tw).tdiv 2) (r.y + (r.h - 7 * scale).tdiv 2) (lit label) scale fg)

def productStatusRow (width x y w : ℤ) (label value : String) (state scale : ℤ) : List Fill :=
  let dim := rgb 146 149 160
  let fg := rgb 239 240 244
  let red := rgb 238 72 88
  let amber := rgb 214 162 79
  drawText width x y (lit label) scale dim ++
    drawText width (x + w - textWidth (lit value) scale) y (lit value) scale
      (if state > 0 then red else if state = 0 then amber else fg)

def productEllipsis (s : Bytes) (cap maxchars : ℕ) : Bytes :=
  let i := min s.length (min maxchars (cap - 1))
  s.take i ++ if i < s.length ∧ i + 3 < cap then lit "..." else []

/-! ### The four pages -/

section Pages

variable (width x y avail scale : ℤ) (g : Globals) (l : Layout)

def renderProductHome (locked : Bool) : Page :=
  let trusted := g.gTrustState = 3
  let pending := g.gTrustState = 1
  let red := rgb 238 72 88
  let amber := rgb 214 162 79
  let dim := rgb 146 149 160
  let fg := rgb 244 245 248
  let panel := rgb 25 27 34
  let edge := rgb 46 49 59
  let bg := rgb 15 16 21
  let cx := x + avail.tdiv 2
  let r := if 58 * scale > avail.tdiv 4 then avail.tdiv 4 else 58 * scale
  let cy := y + r + 6 * scale
  let title := if g.gAuthorityPending then "APPROVAL NEEDED"
    else if trusted then (if locked then "PHONE LOCKED" else "YOU'RE PROTECTED")
    else if pending then "PAIRING" else "PHONE OFFLINE"
  let top := cy + r + 22 * scale
  let host := if g.gTrustHostName.val ≠ [] ∧ ¬ miniStreq g.gTrustHostName.val (lit "UNKNOWN HOST") ∧
      ¬ miniStreq g.gTrustHostName.val (lit "<NONE>") then g.gTrustHostName.val else lit "Your workstation"
  let y := top + 114 * scale
  let front :=
    drawRing cx cy r (8 * scale)
        (if trusted then (if locked then amber else red) else if pending then amber else rgb 57 60 70) bg ++
      drawText width (cx - (textWidth (lit title) (scale + 1)).tdiv 2) (cy - 5 * scale) (lit title) (scale + 1)
        (if g.gAuthorityPending then amber else if trusted then (if locked then amber else red) else fg) ++
      [.rect x top avail (98 * scale) panel] ++ outlineRect x top avail (98 * scale) 1 edge ++
      drawText width (x + 15) (top + 15 * scale) host (scale + 1) fg ++
      productStatusRow width (x + 15) (top + 38 * scale) (avail - 30) "Connection"
        (if trusted then "Trusted" else "Offline") (if trusted then 1 else -1) scale ++
      productStatusRow width (x + 15) (top + 56 * scale) (avail - 30) "Sensitive actions"
        (if trusted ∧ locked = false then "Available" else "Paused")
        (if trusted ∧ locked = false then 1 else 0) scale
  if g.gAuthorityPending then
    { fills := front ++ drawText width x y (lit "REQUEST") scale dim ++
        drawText width x (y + 18 * scale) (productEllipsis g.gAuthorityPrompt.val 96 54) (scale + 1) fg ++
        drawText width x (y + 44 * scale)
          (if locked then lit "Unlock your phone, then open Requests to decide."
            else lit "Open Requests to authorize or deny this action.") scale (if locked then amber else dim)
      layout := l }
  else if pending then
    let code := trustPairCode g.gTrustHostFp.val 96
    let button : Box := ⟨x, y + 46 * scale, avail, 38 * scale⟩
    { fills := front ++ drawText width x y (lit "VERIFY ON BOTH DEVICES") scale dim ++
        drawText width (cx - (textWidth code (scale + 1)).tdiv 2) (y + 18 * scale) code (scale + 1) fg ++
        productButton width button "TRUST THIS WORKSTATION" scale false
      layout := Function.update l .trustApprove button }
  else if trusted then
    { fills := front ++ drawText width x y
        (if locked then lit "Trust stays active. Unlock only when you need to approve something."
          else lit "Zorin is ready. You do not need to keep this app open.") scale dim
      layout := l }
  else { fills := front, layout := l }

def renderProductRequests (locked : Bool) : Page :=
  let fg := rgb 244 245 248
  let dim := rgb 146 149 160
  let panel := rgb 25 27 34
  let edge := rgb 46 49 59
  let amber := rgb 214 162 79
  let front := drawText width x y (lit "REQUESTS") scale dim
  let y := y + 22 * scale
  if g.gAuthorityPending = false then
    { fills := front ++ [.rect x y avail (130 * scale) panel] ++ outlineRect x y avail (130 * scale) 1 edge ++
        drawText width (x + 16) (y + 18 * scale) (lit "Nothing needs your attention") (scale + 1) fg ++
        drawText width (x + 16) (y + 48 * scale) (lit "Sensitive actions from apps, websites and Zorin Ops")
          scale dim ++
        drawText width (x + 16) (y + 66 * scale) (lit "will appear here only when a decision is required.")
          scale dim
      layout := l }
  else
    let py := y + 16 * scale
    let w := (avail - 32 - 8).tdiv 2
    let deny : Box := ⟨x + 16, py + 94 * scale, w, 38 * scale⟩
    let allow : Box := ⟨x + 16 + w + 8, py + 94 * scale, w, 38 * scale⟩
    { fills := front ++ [.rect x y avail (188 * scale) panel] ++
        outlineRect x y avail (188 * scale) 1 (if locked then amber else edge) ++
        drawText width (x + 16) py (if locked then lit "UNLOCK TO AUTHORIZE" else lit "ACTION REQUIRES APPROVAL")
          scale (if locked then amber else dim) ++
        drawText width (x + 16) (py + 24 * scale) (productEllipsis g.gAuthorityPrompt.val 110 60) (scale + 1) fg ++
        drawText width (x + 16) (py + 52 * scale) (productEllipsis g.gAuthorityAction.val 90 46) scale dim ++
        drawText width (x + 16) (py + 70 * scale) (productEllipsis g.gAuthorityResource.val 110 60) scale dim ++
        productButton width deny "DENY" scale true ++
        productButton width allow (if locked then "UNLOCK FIRST" else "AUTHORIZE") scale false
      layout := Function.update (Function.update l .authorityDeny deny) .authorityAllow allow }

def renderProductDevices : Page :=
  let trusted := g.gTrustState = 3
  let portable := trustPrefix g.gTrustHostIdentity.val (lit "portable/")
  let fg := rgb 244 245 248
  let dim := rgb 146 149 160
  let panel := rgb 25 27 34
  let edge := rgb 46 49 59
  let front := drawText width x y (lit "YOUR WORKSTATION") scale dim
  let y := y + 20 * scale
  let py := y + 16 * scale
  let button : Box := ⟨x, y + 112 * scale, avail, 38 * scale⟩
  { fills := front ++ [.rect x y avail (96 * scale) panel] ++ outlineRect x y avail (96 * scale) 1 edge ++
      drawText width (x + 16) py
        (if g.gTrustHostName.val ≠ [] then g.gTrustHostName.val else lit "Your workstation") (scale + 1) fg ++
      drawText width (x + 16) (py + 25 * scale)
        (lit (if trusted then (if portable then "Temporary portable session" else "Connected now")
          else if portable then "Temporary workstation" else "Trusted workstation")) scale
        (if trusted then rgb 238 72 88 else dim) ++
      drawText width (x + 16) (py + 43 * scale)
        (lit (if portable then "Portable trust is memory-only and disappears when the session ends."
          else "Revoke only if you no longer trust this computer.")) scale dim ++
      productButton width button (if portable then "END PORTABLE SESSION" else "REVOKE WORKSTATION") scale true
    layout := Function.update l .trustForget button }

def renderProductSettings (overlay developer : Bool) : Page :=
  let fg := rgb 244 245 248
  let dim := rgb 146 149 160
  let panel := rgb 25 27 34
  let edge := rgb 46 49 59
  let red := rgb 238 72 88
  let front := drawText width x y (lit "GENERAL") scale dim
  let y := y + 20 * scale
  let button : Box := ⟨x, y + 100 * scale, avail, 38 * scale⟩
  let about := y + 156 * scale
  { fills := front ++ [.rect x y avail (86 * scale) panel] ++ outlineRect x y avail (86 * scale) 1 edge ++
      drawText width (x + 16) (y + 16 * scale) (lit "Connection pulse") (scale + 1) fg ++
      drawText width (x + 16) (y + 40 * scale) (lit (if overlay then "Enabled" else "Permission required")) scale
        (if overlay then red else dim) ++
      productButton width button (if overlay then "TEST PULSE" else "ENABLE PULSE") scale false ++
      (drawText width x about (lit "ABOUT") scale dim ++
      drawText width x (about + 20 * scale) (lit "Zorin Trust Runtime 8.2.0") (scale + 1) fg ++
      drawText width x (about + 45 * scale)
        (lit "Developer tools are hidden. Tap the version 7 times to reveal them.") scale dim ++
      if developer then drawText width x (about + 65 * scale) (lit "Developer Mode enabled") scale red else [])
    layout := Function.update (Function.update l .trustVisual button) .productTitle
      ⟨x, about + 20 * scale - 6 * scale, avail, 28 * scale⟩ }

end Pages

/-! ### A frame -/

namespace Look

variable (e : Look)

def scale : ℤ := if e.window.width ≥ 650 then 2 else 1

def margin : ℤ := if e.window.width.tdiv 18 < 20 then 20 else e.window.width.tdiv 18

def x : ℤ := e.safeLeft + e.margin

def avail : ℤ :=
  let avail := e.window.width - e.safeLeft - e.safeRight - 2 * e.margin
  if avail < 120 then e.window.width - 2 * e.margin else avail

def navh : ℤ := 46 * e.scale

def navy : ℤ :=
  let navy := e.window.height - e.safeBottom - e.navh
  if navy < e.safeTop + 100 then e.window.height - e.navh else navy

/-- One of the four cells of the navigation bar. -/
def navCell (i : Fin 4) : Box :=
  let w := (e.window.width - e.safeLeft - e.safeRight).tdiv 4
  ⟨e.safeLeft + (i.val : ℤ) * w, e.navy, w, e.navh⟩

end Look

/-- The bar under the pages. -/
def navBar (e : Look) : List Fill :=
  let panel := rgb 21 23 29
  let edge := rgb 43 46 55
  let w := e.window.width - e.safeLeft - e.safeRight
  .rect e.safeLeft e.navy w e.navh panel :: outlineRect e.safeLeft e.navy w e.navh 1 edge

/-- The name of a page in its cell of the bar. -/
def navLabel (e : Look) (page i : Fin 4) : List Fill :=
  let r := e.navCell i
  let label := lit (productPages.getD i "")
  drawText e.window.width (r.x + (r.w - textWidth label e.scale).tdiv 2) (r.y + (r.h - 7 * e.scale).tdiv 2) label
    e.scale (if i = page then rgb 238 72 88 else rgb 146 149 160)

/-- What stands above the page. -/
def productHeader (e : Look) : List Fill :=
  let y := e.safeTop + 22 * e.scale
  .rect 0 0 e.window.width e.window.height (rgb 15 16 21) ::
    (drawText e.window.width e.x y (lit "ZORIN") (e.scale + 1) (rgb 246 246 248) ++
      drawText e.window.width e.x (y + 20 * e.scale) (lit "Trust & Authority") e.scale (rgb 146 149 160))

/-- The page itself, between the header and the bar. -/
def productPage (e : Look) (u : Ui) (l : Layout) : Page :=
  let y := e.safeTop + 22 * e.scale + 52 * e.scale
  if u.gProductPage = 0 then renderProductHome e.window.width e.x y e.avail e.scale u.copy.g l e.locked
  else if u.gProductPage = 1 then
    renderProductRequests e.window.width e.x y e.avail e.scale u.copy.g l e.locked
  else if u.gProductPage = 2 then renderProductDevices e.window.width e.x y e.avail e.scale u.copy.g l
  else renderProductSettings e.window.width e.x y e.avail e.scale l e.overlay u.gDeveloperMode

/-- `render_product`, from the copies as the page's own look at the service left them. -/
def renderProduct (e : Look) (u : Ui) (l : Layout) : Page :=
  let page := productPage e u l
  { fills := productHeader e ++ page.fills ++ (navBar e ++ (List.finRange 4).flatMap (navLabel e u.gProductPage))
    layout := fun
      | .productNav i => e.navCell i
      | r => page.layout r }

end ZorinTrust.Screen
