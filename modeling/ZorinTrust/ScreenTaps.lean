import ZorinTrust.ProductPages
import ZorinTrust.PendingRequests

/-!
# What is tapped is what is seen

`handle_touch` compares the point of a tap with the rectangles of the last frames, in a fixed order;
`render_product` paints its parts in another.  `hit_seen` says that on a frame with room for its labels the
two agree: the part a tap is taken for is the part whose fill is on top at that point.  `tap_seen` says of
every run of the two processes that a tap sends only the command of the part whose colour the tapped pixel
has.
-/

namespace ZorinTrust.Screen

open CText Raster Machine

/-- The rectangles that hold a point. -/
def touchAt (l : Layout) (p : ℤ × ℤ) : Touch := fun r => inRect p (l r)

/-- The part a tap outside developer mode is taken for. -/
def productHit (t : Touch) (u : Ui) : Option Rect :=
  match (List.finRange 4).find? fun i => t (.productNav i) with
  | some i => some (.productNav i)
  | none =>
    if u.gProductPage = 0 ∧ t .trustApprove = true then some .trustApprove
    else if u.gProductPage = 1 ∧ u.copy.g.gAuthorityPending = true ∧ t .authorityDeny = true then
      some .authorityDeny
    else if u.gProductPage = 1 ∧ u.copy.g.gAuthorityPending = true ∧ t .authorityAllow = true then
      some .authorityAllow
    else if u.gProductPage = 2 ∧ t .trustForget = true then some .trustForget
    else if u.gProductPage = 3 ∧ t .trustVisual = true then some .trustVisual
    else if u.gProductPage = 3 ∧ t .productTitle = true then some .productTitle
    else none

/-- The parts that the page of the moment has. -/
def Drawn (u : Ui) : Rect → Prop
  | .productNav _ => True
  | .trustApprove => u.gProductPage = 0 ∧ u.copy.g.gAuthorityPending = false ∧ u.copy.g.gTrustState = 1
  | .authorityDeny | .authorityAllow => u.gProductPage = 1 ∧ u.copy.g.gAuthorityPending = true
  | .trustForget => u.gProductPage = 2
  | .trustVisual => u.gProductPage = 3
  | _ => False

/-- The fills that make up a part, of a page with these rectangles. -/
def part (e : Look) (u : Ui) (l : Layout) : Rect → List Fill
  | .productNav i => navBar e ++ navLabel e u.gProductPage i
  | .trustApprove => productButton e.window.width (l .trustApprove) "TRUST THIS WORKSTATION" e.scale false
  | .authorityDeny => productButton e.window.width (l .authorityDeny) "DENY" e.scale true
  | .authorityAllow =>
    productButton e.window.width (l .authorityAllow) (if e.locked then "UNLOCK FIRST" else "AUTHORIZE") e.scale false
  | .trustForget =>
    productButton e.window.width (l .trustForget)
      (if trustPrefix u.copy.g.gTrustHostIdentity.val (lit "portable/") then "END PORTABLE SESSION"
        else "REVOKE WORKSTATION") e.scale true
  | .trustVisual =>
    productButton e.window.width (l .trustVisual) (if e.overlay then "TEST PULSE" else "ENABLE PULSE") e.scale false
  | _ => []

/-- Between the insets there is room for the labels of the buttons and of the bar. -/
structure Roomy (e : Look) : Prop where
  left : 0 ≤ e.safeLeft
  right : 0 ≤ e.safeRight
  avail : 184 * e.scale ≤ e.window.width - e.safeLeft - e.safeRight - 2 * e.margin
  bar : 192 * e.scale + 136 ≤ e.window.width - e.safeLeft - e.safeRight

section Geometry

variable {e : Look} {u : Ui} {l : Layout} {f : Fill} {p : ℤ × ℤ} {r : Box} {label : String} {danger : Bool}
  {width scale : ℤ}

theorem scale_pos (e : Look) : 1 ≤ e.scale := by
  unfold Look.scale
  split_ifs <;> norm_num

theorem margin_ge (e : Look) : 20 ≤ e.margin := by
  unfold Look.margin
  split_ifs <;> omega

theorem Roomy.avail_eq (h : Roomy e) : e.avail = e.window.width - e.safeLeft - e.safeRight - 2 * e.margin := by
  have hs := scale_pos e
  have ha := h.avail
  unfold Look.avail
  dsimp only
  rw [if_neg (by omega)]

theorem half_spec {a : ℤ} (h : 0 ≤ a) : 2 * a.tdiv 2 ≤ a ∧ a < 2 * a.tdiv 2 + 2 := by
  rw [Int.tdiv_eq_ediv_of_nonneg h]
  omega

theorem quarter_spec {a : ℤ} (h : 0 ≤ a) : 4 * a.tdiv 4 ≤ a ∧ a < 4 * a.tdiv 4 + 4 := by
  rw [Int.tdiv_eq_ediv_of_nonneg h]
  omega

theorem inRect_iff : inRect p r = true ↔ (r.x ≤ p.1 ∧ p.1 < r.x + r.w) ∧ r.y ≤ p.2 ∧ p.2 < r.y + r.h := by
  rw [inRect, decide_eq_true_eq]
  omega

/-- The border of a rectangle lies in it. -/
theorem outlineRect_covers {x y w h : ℤ} {c : UInt32} (hw : 1 ≤ w) (hh : 1 ≤ h)
    (hf : f ∈ outlineRect x y w h 1 c) (hp : f.Covers p) : (x ≤ p.1 ∧ p.1 < x + w) ∧ y ≤ p.2 ∧ p.2 < y + h := by
  simp only [outlineRect, List.mem_cons, List.not_mem_nil, or_false] at hf
  rcases hf with rfl | rfl | rfl | rfl <;> simp only [Fill.Covers] at hp <;> omega

/-- A text as drawn from its first character. -/
theorem drawText_covers {x y : ℤ} {s : Bytes} {c : UInt32} (hscale : 0 ≤ scale)
    (hf : f ∈ drawText width x y s scale c) (hp : f.Covers p) :
    (x ≤ p.1 ∧ p.1 < x + textWidth s scale) ∧ y ≤ p.2 := by
  refine drawTextFrom_covers hscale le_rfl (le_of_eq ?_) hf hp
  rw [textWidth]
  ring

/-- A button whose label fits covers no point beside it. -/
theorem productButton_covers (hscale : 0 ≤ scale) (hw : 1 ≤ r.w) (hh : 1 ≤ r.h)
    (hlabel : textWidth (lit label) scale ≤ r.w) (hf : f ∈ productButton width r label scale danger)
    (hp : f.Covers p) : r.x ≤ p.1 ∧ p.1 < r.x + r.w := by
  rw [productButton, List.mem_cons, List.mem_append] at hf
  rcases hf with rfl | hf | hf
  · exact hp.1
  · exact (outlineRect_covers hw hh hf hp).1
  · obtain ⟨hx, -⟩ := drawText_covers hscale hf hp
    have hhalf := half_spec (a := r.w - textWidth (lit label) scale) (by omega)
    omega

/-- The face of a button is the first of its fills. -/
theorem exists_face (hp : inRect p r = true) : ∃ f ∈ productButton width r label scale danger, f.Covers p :=
  ⟨_, List.mem_cons_self, inRect_iff.mp hp⟩

/-! ### The bar -/

theorem navCell_spec (h : Roomy e) (i : Fin 4) : 48 * e.scale + 34 ≤ (e.navCell i).w ∧
    e.safeLeft ≤ (e.navCell i).x ∧
    (e.navCell i).x + (e.navCell i).w ≤ e.safeLeft + 4 * (e.window.width - e.safeLeft - e.safeRight).tdiv 4 ∧
    (e.navCell i).y = e.navy ∧ (e.navCell i).h = 46 * e.scale := by
  have hbar := h.bar
  have hs := scale_pos e
  have hw := quarter_spec (a := e.window.width - e.safeLeft - e.safeRight) (by omega)
  refine ⟨?_, ?_, ?_, rfl, rfl⟩
  · show _ ≤ (e.window.width - e.safeLeft - e.safeRight).tdiv 4
    omega
  all_goals
    simp only [Look.navCell]
    fin_cases i <;> norm_num <;> omega

theorem navLabel_covers (h : Roomy e) {page i : Fin 4} (hf : f ∈ navLabel e page i) (hp : f.Covers p) :
    inRect p (e.navCell i) = true := by
  have hs := scale_pos e
  obtain ⟨hw, -, hright, hy, hh⟩ := navCell_spec h i
  have hshort : ∀ i : Fin 4, (lit (productPages.getD i "")).length ≤ 8 ∧ 10 ∉ lit (productPages.getD i "") := by
    decide
  obtain ⟨hlen, hnl⟩ := hshort i
  have htext : textWidth (lit (productPages.getD i "")) e.scale ≤ 48 * e.scale := by
    rw [textWidth]
    nlinarith
  have hbar := quarter_spec (a := e.window.width - e.safeLeft - e.safeRight) (by have := h.bar; omega)
  have hx := half_spec (a := (e.navCell i).w - textWidth (lit (productPages.getD i "")) e.scale) (by omega)
  have hrow := half_spec (a := (e.navCell i).h - 7 * e.scale) (by omega)
  obtain ⟨hcol, htop⟩ := drawText_covers (by omega) hf hp
  have hwidth : 6 * e.scale * (lit (productPages.getD i "")).length =
      textWidth (lit (productPages.getD i "")) e.scale := by
    rw [textWidth]
    ring
  have hr := h.right
  have hline := drawTextFrom_line (by omega) hnl (by omega) hf hp
  rw [inRect_iff]
  omega

theorem navBar_covers (h : Roomy e) (hf : f ∈ navBar e) (hp : f.Covers p) :
    (e.safeLeft ≤ p.1 ∧ p.1 < e.window.width - e.safeRight) ∧ e.navy ≤ p.2 ∧ p.2 < e.navy + 46 * e.scale := by
  have hs := scale_pos e
  have hbar := h.bar
  have hin : (e.safeLeft ≤ p.1 ∧ p.1 < e.safeLeft + (e.window.width - e.safeLeft - e.safeRight)) ∧
      e.navy ≤ p.2 ∧ p.2 < e.navy + 46 * e.scale := by
    rcases List.mem_cons.mp hf with rfl | hf
    · exact hp
    · exact outlineRect_covers (by omega) (show 1 ≤ 46 * e.scale by omega) hf hp
  omega

/-- The columns of the cells, up to three pixels those of the bar. -/
theorem exists_navCell (h : Roomy e) (hx : e.safeLeft ≤ p.1 ∧ p.1 < e.window.width - e.safeRight - 3)
    (hy : e.navy ≤ p.2 ∧ p.2 < e.navy + 46 * e.scale) : ∃ i, inRect p (e.navCell i) = true := by
  have hbar := h.bar
  have hs := scale_pos e
  have hw := quarter_spec (a := e.window.width - e.safeLeft - e.safeRight) (by omega)
  have hcell : ∀ i : Fin 4, inRect p (e.navCell i) = true ↔
      (e.safeLeft + (i.val : ℤ) * (e.window.width - e.safeLeft - e.safeRight).tdiv 4 ≤ p.1 ∧
        p.1 < e.safeLeft + (i.val : ℤ) * (e.window.width - e.safeLeft - e.safeRight).tdiv 4 +
          (e.window.width - e.safeLeft - e.safeRight).tdiv 4) ∧ e.navy ≤ p.2 ∧ p.2 < e.navy + 46 * e.scale :=
    fun i => inRect_iff
  by_contra hnone
  have h0 := fun hc => hnone ⟨0, (hcell 0).mpr hc⟩
  have h1 := fun hc => hnone ⟨1, (hcell 1).mpr hc⟩
  have h2 := fun hc => hnone ⟨2, (hcell 2).mpr hc⟩
  have h3 := fun hc => hnone ⟨3, (hcell 3).mpr hc⟩
  norm_num at h0 h1 h2 h3
  omega

/-- Above a point of no cell there is nothing of the bar. -/
theorem bar_not_covers (h : Roomy e) (hx : e.safeLeft ≤ p.1 ∧ p.1 < e.window.width - e.safeRight - 3)
    (hout : ∀ i, inRect p (e.navCell i) = false) {page : Fin 4} :
    ∀ f ∈ navBar e ++ (List.finRange 4).flatMap (navLabel e page), ¬ f.Covers p := by
  intro f hf hp
  rcases List.mem_append.mp hf with hf | hf
  · obtain ⟨-, hy⟩ := navBar_covers h hf hp
    obtain ⟨i, hi⟩ := exists_navCell h hx hy
    exact absurd hi (by rw [hout i]; exact Bool.false_ne_true)
  · obtain ⟨i, -, hf⟩ := List.mem_flatMap.mp hf
    exact absurd (navLabel_covers h hf hp) (by rw [hout i]; exact Bool.false_ne_true)

/-- The cells do not overlap. -/
theorem navCell_inj (h : Roomy e) {i j : Fin 4} (hi : inRect p (e.navCell i) = true)
    (hj : inRect p (e.navCell j) = true) : i = j := by
  have hbar := h.bar
  have hs := scale_pos e
  have hw := quarter_spec (a := e.window.width - e.safeLeft - e.safeRight) (by omega)
  obtain ⟨hi, -⟩ := inRect_iff.mp hi
  obtain ⟨hj, -⟩ := inRect_iff.mp hj
  simp only [Look.navCell] at hi hj
  fin_cases i <;> fin_cases j <;> norm_num at hi hj ⊢ <;> omega

end Geometry

/-! ### The parts of a page -/

section Parts

variable {e : Look} {u : Ui} {l : Layout} {p : ℤ × ℤ} {r : Rect}

/-- What `handle_touch` takes a tap for holds the point, and so does no cell of the bar but that one. -/
theorem productHit_spec (h : productHit (touchAt l p) u = some r) : inRect p (l r) = true ∧
    ((∃ i, r = .productNav i) ∨ ∀ i, inRect p (l (.productNav i)) = false) := by
  unfold productHit at h
  cases hfind : (List.finRange 4).find? fun i => touchAt l p (.productNav i) with
  | some i =>
    rw [hfind] at h
    obtain rfl := Option.some.inj h
    have hi : touchAt l p (.productNav i) = true := List.find?_some (p := fun i => touchAt l p (.productNav i)) hfind
    exact ⟨hi, .inl ⟨i, rfl⟩⟩
  | none =>
    rw [hfind] at h
    have hout : ∀ i, inRect p (l (.productNav i)) = false := fun i =>
      Bool.not_eq_true _ ▸ List.find?_eq_none.mp hfind i (List.mem_finRange i)
    dsimp only at h
    refine ⟨?_, .inr hout⟩
    split_ifs at h with h1 h2 h3 h4 h5 h6 <;> obtain rfl := Option.some.inj h
    exacts [h1.2, h2.2.2, h3.2.2, h4.2, h5.2, h6.2]

/-- The Home page while a host waits for approval. -/
theorem home_parts (hpage : u.gProductPage = 0) (hauth : u.copy.g.gAuthorityPending = false)
    (hstate : u.copy.g.gTrustState = 1) :
    ∃ pre button, productPage e u l =
      { fills := pre ++ productButton e.window.width button "TRUST THIS WORKSTATION" e.scale false
        layout := Function.update l .trustApprove button } ∧ button.x = e.x ∧ button.w = e.avail := by
  unfold productPage
  rw [if_pos hpage]
  unfold renderProductHome
  extract_lets
  rw [if_neg (by rw [hauth]; exact Bool.false_ne_true), if_pos hstate]
  exact ⟨_, _, rfl, rfl, rfl⟩

/-- The Requests page while an action waits for its decision. -/
theorem requests_parts (hpage : u.gProductPage = 1) (hauth : u.copy.g.gAuthorityPending = true) :
    ∃ pre deny allow, productPage e u l =
      { fills := pre ++ productButton e.window.width deny "DENY" e.scale true ++
          productButton e.window.width allow (if e.locked then "UNLOCK FIRST" else "AUTHORIZE") e.scale false
        layout := Function.update (Function.update l .authorityDeny deny) .authorityAllow allow } ∧
      deny.x = e.x + 16 ∧ deny.w = (e.avail - 40).tdiv 2 ∧
      allow.x = e.x + 16 + (e.avail - 40).tdiv 2 + 8 ∧ allow.w = (e.avail - 40).tdiv 2 ∧
      allow.h = 38 * e.scale := by
  unfold productPage
  rw [if_neg (by rw [hpage]; decide), if_pos hpage]
  unfold renderProductRequests
  extract_lets
  rw [if_neg (by rw [hauth]; exact Bool.false_ne_true.symm)]
  have hw : e.avail - 32 - 8 = e.avail - 40 := by ring
  rw [← hw]
  exact ⟨_, _, _, rfl, rfl, rfl, rfl, rfl, rfl⟩

theorem devices_parts (hpage : u.gProductPage = 2) :
    ∃ pre button, productPage e u l =
      { fills := pre ++ productButton e.window.width button
          (if trustPrefix u.copy.g.gTrustHostIdentity.val (lit "portable/") then "END PORTABLE SESSION"
            else "REVOKE WORKSTATION") e.scale true
        layout := Function.update l .trustForget button } ∧ button.x = e.x ∧ button.w = e.avail := by
  unfold productPage
  rw [if_neg (by rw [hpage]; decide), if_neg (by rw [hpage]; decide), if_pos hpage]
  exact ⟨_, _, rfl, rfl, rfl⟩

theorem settings_parts (hpage : u.gProductPage = 3) :
    ∃ pre button post title, productPage e u l =
      { fills := pre ++ productButton e.window.width button (if e.overlay then "TEST PULSE" else "ENABLE PULSE")
          e.scale false ++ post
        layout := Function.update (Function.update l .trustVisual button) .productTitle title } ∧
      button.x = e.x ∧ button.w = e.avail ∧ ∀ f ∈ post, ∀ p, f.Covers p → button.y + button.h ≤ p.2 := by
  have hscale := scale_pos e
  unfold productPage
  rw [if_neg (by rw [hpage]; decide), if_neg (by rw [hpage]; decide), if_neg (by rw [hpage]; decide)]
  refine ⟨_, _, _, _, rfl, rfl, rfl, fun f hf p hp => ?_⟩
  dsimp only
  rw [List.mem_append, List.mem_append, List.mem_append] at hf
  rcases hf with ((hf | hf) | hf) | hf
  · have h := (drawText_covers (by omega) hf hp).2
    omega
  · have h := (drawText_covers (by omega) hf hp).2
    omega
  · have h := (drawText_covers (by omega) hf hp).2
    omega
  · split_ifs at hf
    · have h := (drawText_covers (by omega) hf hp).2
      omega
    · exact absurd hf List.not_mem_nil

/-! ### What is seen -/

/-- A part painted last of those that cover a point. -/
theorem seen_of_split {fills pre mid post : List Fill} (hfills : fills = pre ++ mid ++ post)
    (hmid : ∃ f ∈ mid, f.Covers p) (hpost : ∀ f ∈ post, ¬ f.Covers p) :
    ∃ f ∈ mid, f.Covers p ∧ top Fill.Covers fills p = some f := hfills ▸ top_between hmid hpost

theorem seen_nav (h : Roomy e) {i : Fin 4} (hp : inRect p (e.navCell i) = true) :
    ∃ f ∈ part e u (renderProduct e u l).layout (.productNav i), f.Covers p ∧
      top Fill.Covers (renderProduct e u l).fills p = some f := by
  obtain ⟨-, hleft, hright, hy, hh⟩ := navCell_spec h i
  have hbar := h.bar
  have hs := scale_pos e
  have hw := quarter_spec (a := e.window.width - e.safeLeft - e.safeRight) (by omega)
  obtain ⟨hx, hrow⟩ := inRect_iff.mp hp
  have hface : ∃ f ∈ navBar e ++ (List.finRange 4).flatMap (navLabel e u.gProductPage), f.Covers p := by
    refine ⟨_, List.mem_append_left _ List.mem_cons_self, ⟨by omega, by omega⟩, hy ▸ hrow.1, ?_⟩
    rw [← hy]
    exact hrow.2
  obtain ⟨f, hf, hcovers, htop⟩ := seen_of_split (List.append_nil _).symm hface
    fun f hf => absurd hf List.not_mem_nil
  refine ⟨f, ?_, hcovers, htop⟩
  rcases List.mem_append.mp hf with hf | hf
  · exact List.mem_append_left _ hf
  · obtain ⟨j, -, hf⟩ := List.mem_flatMap.mp hf
    obtain rfl := navCell_inj h (navLabel_covers h hf hcovers) hp
    exact List.mem_append_right _ hf

/-- A button of the page is seen where nothing that is drawn after it, and no cell of the bar, lies. -/
theorem seen_button (h : Roomy e) {pre mid post : List Fill}
    (hpage : (productPage e u l).fills = pre ++ mid ++ post) (hmid : ∃ f ∈ mid, f.Covers p)
    (hpost : ∀ f ∈ post, ¬ f.Covers p) (hx : e.safeLeft ≤ p.1 ∧ p.1 < e.window.width - e.safeRight - 3)
    (hout : ∀ i, inRect p (e.navCell i) = false) :
    ∃ f ∈ mid, f.Covers p ∧ top Fill.Covers (renderProduct e u l).fills p = some f := by
  have hfills : (renderProduct e u l).fills = (productHeader e ++ pre) ++ mid ++
      (post ++ (navBar e ++ (List.finRange 4).flatMap (navLabel e u.gProductPage))) := by
    show productHeader e ++ (productPage e u l).fills ++ _ = _
    rw [hpage]
    simp only [List.append_assoc]
  refine seen_of_split hfills hmid fun f hf => ?_
  rcases List.mem_append.mp hf with hf | hf
  · exact hpost f hf
  · exact bar_not_covers h hx hout f hf

/-- A button of the page, with what is drawn after it. -/
theorem seen_box (h : Roomy e) {pre post : List Fill} {button : Box} {label : String} {danger : Bool}
    (hbox : (renderProduct e u l).layout r = button)
    (hpage : (productPage e u l).fills = pre ++ productButton e.window.width button label e.scale danger ++ post)
    (hp : inRect p ((renderProduct e u l).layout r) = true)
    (hpost : inRect p button = true → ∀ f ∈ post, ¬ f.Covers p)
    (hx : e.safeLeft ≤ button.x ∧ button.x + button.w + 3 ≤ e.window.width - e.safeRight)
    (hout : ∀ i, inRect p (e.navCell i) = false) :
    ∃ f ∈ productButton e.window.width ((renderProduct e u l).layout r) label e.scale danger, f.Covers p ∧
      top Fill.Covers (renderProduct e u l).fills p = some f := by
  rw [hbox] at hp ⊢
  obtain ⟨hcol, -⟩ := inRect_iff.mp hp
  exact seen_button h hpage (exists_face hp) (hpost hp) (by omega) hout

/-- **What is tapped is what is seen.**  On a frame with room for its labels, the part that `handle_touch`
takes a tap for, if the page of the moment has it, is the part that is on top at that point. -/
theorem hit_seen (h : Roomy e) (hhit : productHit (touchAt (renderProduct e u l).layout p) u = some r)
    (hdrawn : Drawn u r) : ∃ f ∈ part e u (renderProduct e u l).layout r, f.Covers p ∧
      top Fill.Covers (renderProduct e u l).fills p = some f := by
  obtain ⟨hp, hnav⟩ := productHit_spec hhit
  have hs := scale_pos e
  have hm := margin_ge e
  have havail := h.avail_eq
  have hroom := h.avail
  have hx : e.x = e.safeLeft + e.margin := rfl
  have hhalf := half_spec (a := e.avail - 40) (by omega)
  have hnone : ∀ f ∈ ([] : List Fill), ¬ f.Covers p := fun f hf => absurd hf List.not_mem_nil
  obtain ⟨i, rfl⟩ | hout := hnav
  · exact seen_nav h hp
  · cases r with
    | productNav i => exact absurd hp (by rw [hout i]; exact Bool.false_ne_true)
    | trustApprove =>
      obtain ⟨hpage, hauth, hstate⟩ := hdrawn
      obtain ⟨pre, button, hpg, hbx, hbw⟩ := home_parts (e := e) (l := l) hpage hauth hstate
      have hbox : (productPage e u l).layout .trustApprove = button := by simp [hpg]
      exact seen_box h hbox ((congrArg Page.fills hpg).trans (List.append_nil _).symm) hp (fun _ => hnone)
        (by omega) hout
    | authorityDeny =>
      obtain ⟨hpage, hauth⟩ := hdrawn
      obtain ⟨pre, deny, allow, hpg, hbx, hbw, hax, haw, hah⟩ := requests_parts (e := e) (l := l) hpage hauth
      have hbox : (productPage e u l).layout .authorityDeny = deny := by simp [hpg]
      refine seen_box h hbox (congrArg Page.fills hpg) hp (fun hin f hf hcovers => ?_) (by omega) hout
      obtain ⟨hcol, -⟩ := inRect_iff.mp hin
      have hlabel : textWidth (lit (if e.locked then "UNLOCK FIRST" else "AUTHORIZE")) e.scale ≤ allow.w := by
        have hlen : (lit (if e.locked then "UNLOCK FIRST" else "AUTHORIZE")).length ≤ 12 := by
          cases e.locked <;> decide
        rw [textWidth]
        nlinarith
      have hright := productButton_covers (by omega) (by omega) (by omega) hlabel hf hcovers
      omega
    | authorityAllow =>
      obtain ⟨hpage, hauth⟩ := hdrawn
      obtain ⟨pre, deny, allow, hpg, -, -, hax, haw, -⟩ := requests_parts (e := e) (l := l) hpage hauth
      have hbox : (productPage e u l).layout .authorityAllow = allow := by simp [hpg]
      exact seen_box h hbox ((congrArg Page.fills hpg).trans (List.append_nil _).symm) hp (fun _ => hnone)
        (by omega) hout
    | trustForget =>
      obtain ⟨pre, button, hpg, hbx, hbw⟩ := devices_parts (e := e) (l := l) hdrawn
      have hbox : (productPage e u l).layout .trustForget = button := by simp [hpg]
      exact seen_box h hbox ((congrArg Page.fills hpg).trans (List.append_nil _).symm) hp (fun _ => hnone)
        (by omega) hout
    | trustVisual =>
      obtain ⟨pre, button, post, title, hpg, hbx, hbw, hpost⟩ := settings_parts (e := e) (l := l) hdrawn
      have hbox : (productPage e u l).layout .trustVisual = button := by simp [hpg]
      refine seen_box h hbox (congrArg Page.fills hpg) hp (fun hin f hf hcovers => ?_) (by omega) hout
      obtain ⟨-, hrow⟩ := inRect_iff.mp hin
      have hbelow := hpost f hf p hcovers
      omega
    | productTitle | tab i | run | copy => exact hdrawn.elim

end Parts

/-! ### The frame in memory -/

section Frame

variable {e : Look} {u : Ui} {l : Layout} {p : ℤ × ℤ} {bits bits' : List UInt32}

/-- The background covers the window. -/
theorem exists_shown (hp : e.window.Shows p) : ∃ f ∈ (renderProduct e u l).fills, f.Covers p := by
  obtain ⟨⟨hx, hx'⟩, hy, hy'⟩ := hp
  exact ⟨_, List.mem_append_left _ (List.mem_append_left _ List.mem_cons_self),
    ⟨hx, (zero_add e.window.width).symm ▸ hx'⟩, hy, (zero_add e.window.height).symm ▸ hy'⟩

/-- **A frame replaces the one before it.**  Whatever the window showed, rendering a page stays inside its
memory, leaves the cells between two rows alone, and gives each pixel the colour of the fill that is on top
there: nothing of an earlier page remains. -/
theorem frame_replaces (e : Look) (u : Ui) (l : Layout) (hbits : e.window.Frame bits) :
    ∃ bits', paint e.window (renderProduct e u l).fills bits = some bits' ∧ e.window.Frame bits' ∧
      (∀ p, e.window.Shows p → ∃ f ∈ (renderProduct e u l).fills, f.Covers p ∧
        top Fill.Covers (renderProduct e u l).fills p = some f ∧ e.window.pixel bits' p = some f.color) ∧
      ∀ p, e.window.Holds p → ¬ e.window.Shows p → e.window.pixel bits' p = e.window.pixel bits p := by
  obtain ⟨bits', hrun, hframe, hshows, hrest⟩ := paint_spec (renderProduct e u l).fills hbits
  refine ⟨bits', hrun, hframe, fun p hp => ?_, hrest⟩
  obtain ⟨f, hf, hcovers, htop⟩ := exists_top (exists_shown hp)
  exact ⟨f, hf, hcovers, htop, by rw [hshows p hp, htop, Option.elim_some]⟩

/-- A phone's window, with rows a little longer than it is wide. -/
def phone : Look := { window := ⟨360, 640, 384, by norm_num, by norm_num, by norm_num⟩, safeTop := 24 }

theorem phone_frame : phone.window.Frame (List.replicate (384 * 640) 0) := by
  rw [Window.Frame, List.length_replicate]
  rfl

theorem frame_replaces_phone : ∃ bits', paint phone.window (renderProduct phone {} Layout.zero).fills
      (List.replicate (384 * 640) 0) = some bits' ∧
    ∀ p, phone.window.Shows p → ∃ f ∈ (renderProduct phone {} Layout.zero).fills, f.Covers p ∧
      top Fill.Covers (renderProduct phone {} Layout.zero).fills p = some f ∧
      phone.window.pixel bits' p = some f.color := by
  obtain ⟨bits', hrun, -, hshows, -⟩ := frame_replaces phone {} Layout.zero phone_frame
  exact ⟨bits', hrun, hshows⟩

/-! ### Commands -/

/-- The command of a part. -/
def commandOf (u : Ui) : Rect → Option (String × Bytes)
  | .trustApprove => some ("APPROVE", u.copy.g.gTrustHostPubPending.val)
  | .authorityDeny => some ("AUTH_DENY", u.copy.g.gAuthorityRequestId.val)
  | .authorityAllow => some ("AUTH_APPROVE", u.copy.g.gAuthorityRequestId.val)
  | .trustForget => some ("FORGET", [])
  | _ => none

/-- A command is that of the part the tap is taken for.  The page has that part, unless a request hides the
button of the Home page. -/
theorem command_of_touch {t : Touch} {k : TouchEnv} {c : String × Bytes}
    (hc : (productTouch t k u).command = some c) : ∃ r, productHit t u = some r ∧ commandOf u r = some c ∧
      (Drawn u r ∨ u.copy.g.gTrustState = 1 ∧ u.copy.g.gAuthorityPending = true) ∧
      (r = .authorityAllow → k.locked = false) := by
  unfold productTouch at hc
  unfold productHit
  cases hfind : (List.finRange 4).find? fun i => t (.productNav i) with
  | some i =>
    rw [hfind] at hc
    cases hc
  | none =>
    rw [hfind] at hc
    dsimp only at hc ⊢
    by_cases h1 : u.gProductPage = 0 ∧ t .trustApprove = true
    · rw [if_pos h1] at hc ⊢
      dsimp only at hc
      split_ifs at hc with hstate
      refine ⟨_, rfl, hc, ?_, nofun⟩
      cases hauth : u.copy.g.gAuthorityPending with
      | false => exact .inl ⟨h1.1, hauth, hstate⟩
      | true => exact .inr ⟨hstate, rfl⟩
    rw [if_neg h1] at hc ⊢
    by_cases h2 : u.gProductPage = 1 ∧ u.copy.g.gAuthorityPending = true ∧ t .authorityDeny = true
    · rw [if_pos h2] at hc ⊢
      exact ⟨_, rfl, hc, .inl ⟨h2.1, h2.2.1⟩, nofun⟩
    rw [if_neg h2] at hc ⊢
    by_cases h3 : u.gProductPage = 1 ∧ u.copy.g.gAuthorityPending = true ∧ t .authorityAllow = true
    · rw [if_pos h3] at hc ⊢
      dsimp only at hc
      split_ifs at hc with hlocked
      exact ⟨_, rfl, hc, .inl ⟨h3.1, h3.2.1⟩, fun _ => Bool.not_eq_true _ ▸ hlocked⟩
    rw [if_neg h3] at hc ⊢
    by_cases h4 : u.gProductPage = 2 ∧ t .trustForget = true
    · rw [if_pos h4] at hc ⊢
      exact ⟨_, rfl, hc, .inl h4.1, nofun⟩
    rw [if_neg h4] at hc
    split_ifs at hc

/-- Two states with the same buttons: on one page, with a request in both or in none, of one host. -/
structure SameParts (u v : Ui) : Prop where
  page : v.gProductPage = u.gProductPage
  pending : v.copy.g.gAuthorityPending = u.copy.g.gAuthorityPending
  state : v.copy.g.gTrustState = u.copy.g.gTrustState

theorem SameParts.productHit {v : Ui} (h : SameParts u v) (t : Touch) : productHit t v = productHit t u := by
  unfold ZorinTrust.Screen.productHit
  rw [h.page, h.pending]

theorem SameParts.drawn {v : Ui} (h : SameParts u v) {r : Rect} (hdrawn : Drawn v r) : Drawn u r := by
  unfold Drawn at hdrawn ⊢
  rwa [h.page, h.pending, h.state] at hdrawn

/-- **No command but that of the part under the finger.**  In every run of the two processes whose looks at
the state file reach AUTH_PENDING: on a frame with room for its labels, drawn when the page had the parts it
has at the tap, the command that the tap sends is that of a part of the page, and the tapped pixel has the
colour of a fill of that part. -/
theorem tap_seen (c : Crypto) (p₀ : Prefs) {σ : System}
    (hrun : Run (sysNext c) ReachesPending (System.init p₀) σ)
    (hproduct : σ.ui.gDeveloperMode = false) (hroomy : Roomy e) (hsame : SameParts u σ.ui)
    (hbits : e.window.Frame bits) (hpaint : paint e.window (renderProduct e u l).fills bits = some bits')
    (hp : e.window.Shows p) {k : TouchEnv} {cmd : String × Bytes}
    (hc : (touchAct (touchAt (renderProduct e u l).layout p) k σ.ui).command = some cmd) :
    ∃ r, commandOf σ.ui r = some cmd ∧ Drawn σ.ui r ∧ (r = .authorityAllow → k.locked = false) ∧
      ∃ f ∈ part e u (renderProduct e u l).layout r, f.Covers p ∧
        e.window.pixel bits' p = some f.color := by
  rw [touchAct, if_neg (by rw [hproduct]; exact Bool.false_ne_true)] at hc
  obtain ⟨r, hhit, hcmd, hdrawn, hlocked⟩ := command_of_touch hc
  have hdrawn : Drawn σ.ui r := by
    refine hdrawn.resolve_right fun ⟨hstate, hauth⟩ => ?_
    have htrusted := asked_of_run hrun hauth
    rw [hstate] at htrusted
    exact absurd htrusted (by decide)
  obtain ⟨f, hf, hcovers, htop⟩ := hit_seen hroomy (hsame.productHit _ ▸ hhit) (hsame.drawn hdrawn)
  obtain ⟨bits₁, hpainted, -, hshows, -⟩ := paint_spec (renderProduct e u l).fills hbits
  obtain rfl : bits₁ = bits' := Option.some.inj (hpainted.symm.trans hpaint)
  exact ⟨r, hcmd, hdrawn, hlocked, f, hf, hcovers, by rw [hshows p hp, htop, Option.elim_some]⟩

/-- On the Devices page of a fresh process, a tap on REVOKE. -/
theorem tap_seen_revoke : ∃ (σ : System) (bits' : List UInt32),
    Run (sysNext sampleCrypto) ReachesPending (System.init {}) σ ∧ σ.ui.gProductPage = 2 ∧
    paint phone.window (renderProduct phone σ.ui Layout.zero).fills (List.replicate (384 * 640) 0) = some bits' ∧
    ∃ r, commandOf σ.ui r = some ("FORGET", []) ∧ Drawn σ.ui r ∧ (r = .authorityAllow → (false : Bool) = false) ∧
      ∃ f ∈ part phone σ.ui (renderProduct phone σ.ui Layout.zero).layout r, f.Covers (100, 240) ∧
        phone.window.pixel bits' (100, 240) = some f.color := by
  have hdevices : Run (sysNext sampleCrypto) ReachesPending (System.init {})
      ((System.init {}).uiNext (.touch (fun r => r = .productNav 2) {})) :=
    Run.step .refl trivial (l := .ui (.touch (fun r => r = .productNav 2) {})) rfl
  obtain ⟨bits', hrun, -, -⟩ := paint_spec (renderProduct phone { gProductPage := 2 } Layout.zero).fills phone_frame
  have hroomy : Roomy phone := ⟨by decide, by decide, by decide, by decide⟩
  exact ⟨_, bits', hdevices, rfl, hrun, tap_seen sampleCrypto {} hdevices rfl hroomy ⟨rfl, rfl, rfl⟩ phone_frame hrun
    (by decide) (k := {}) (by decide)⟩

end Frame

end ZorinTrust.Screen
