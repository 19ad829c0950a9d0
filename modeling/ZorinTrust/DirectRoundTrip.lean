import ZorinTrust.DeepLink

/-!
# A direct endpoint read back

`trust_set_direct_endpoint` writes five values into a frame of lines, `trust_get_endpoint` takes them out
again by their keys.  Host and invitation are checked before they are written; the mode is whatever the
link says, so its lines stand between the fields as fields of their own, and its length decides what
fits.  `direct_roundTrip_iff` says for which modes the endpoint comes back.
-/

namespace ZorinTrust

open CText Numeral Lines

/-! ### The frame -/

/-- The end of a line, or of the text, after its first line. -/
def afterLine (text : Bytes) : Bytes := text.dropWhile (!isEol ·)

def firstLine (text : Bytes) : Bytes := text.takeWhile (!isEol ·)

theorem isEol_firstLine (text : Bytes) : ∀ c ∈ firstLine text, isEol c = false := fun c hc => by
  simpa using List.mem_takeWhile_imp hc

theorem isEol_afterLine (text : Bytes) : ∀ c ∈ (afterLine text).head?, isEol c = true := fun c hc => by
  unfold afterLine at hc
  have hne : text.dropWhile (!isEol ·) ≠ [] := by
    intro hnil
    rw [hnil] at hc
    cases hc
  have hhead := List.head_dropWhile_not (!isEol ·) hne
  rw [List.head?_eq_some_head hne, Option.mem_some_iff] at hc
  rw [hc] at hhead
  simpa using hhead

/-- A line end behind a text ends its last line. -/
theorem firstLine_append (text rest : Bytes) : firstLine (text ++ 10 :: rest) = firstLine text := by
  have heol : (10 :: rest).takeWhile (!isEol ·) = [] := rfl
  unfold firstLine
  rw [List.takeWhile_append, heol, List.append_nil]
  split_ifs with hall
  · exact ((List.takeWhile_prefix _).eq_of_length hall).symm
  · rfl

theorem afterLine_append (text rest : Bytes) :
    afterLine (text ++ 10 :: rest) = afterLine text ++ 10 :: rest := by
  have heol : (10 :: rest).dropWhile (!isEol ·) = 10 :: rest := rfl
  unfold afterLine
  rw [List.dropWhile_append, heol]
  split_ifs with hnil
  · rw [List.isEmpty_iff] at hnil
    rw [hnil, List.nil_append]
  · rfl

namespace DirectEndpoint

variable (a : DirectEndpoint)

/-- The fields before the mode. -/
def leading : List (String × Bytes) :=
  [("HOST", a.host.val), ("PORT", ofInt a.port.toInt), ("EXPIRES", ofInt a.expires.toInt)]

/-- The frame up to the mode. -/
@[irreducible] def front : Bytes :=
  lit "ZTRANSPORT/1" ++ 10 :: (a.leading.flatMap (fun f => fieldText f ++ [10]) ++ lit "MODE ")

/-- The text from the mode on. -/
def back : Bytes :=
  a.modeText ++ 10 :: (fieldText ("INVITE", a.invite.val) ++ 10 :: (lit "END" ++ [10]))

/-- The room the frame has from the mode on. -/
def room : ℕ := 383 - a.front.length

/-- What the frame holds from the mode on. -/
def shown : Bytes := a.back.take a.room

/-- What the frame holds of the mode. -/
def shownMode : Bytes := a.modeText.take a.room

/-- The first INVITE line among the mode's further lines is the invitation itself; or there is none, and
the invitation fits into the frame behind the mode. -/
structure InviteFirst : Prop where
  found : ∀ v, frameField (afterLine a.shownMode) "INVITE" = some v → v = a.invite.val
  fits : frameField (afterLine a.shownMode) "INVITE" = none → a.modeText.length + 40 ≤ a.room

/-- **Which endpoints come back**: a mode that starts with the line `portable` is that word, and the
invitation is the first one the reader finds. -/
structure ReadsBack : Prop where
  mode : firstLine a.modeText = lit "portable" → a.modeText = lit "portable"
  invite : a.InviteFirst

/-- The endpoint as it was set. -/
structure Reads (e : Endpoint) : Prop where
  rc : e.rc = 1
  address : trustParsePrivateIpv4 a.host.val = some e.address
  port : e.port = a.port.toInt
  invite : e.invite.val = a.invite.val
  portable : e.isPortable = true ↔ a.mode.map Subtype.val = some (lit "portable")

theorem text_eq : a.text = a.front ++ a.back := by
  simp [text, front, back, fields, leading, fieldText, show lit "MODE " = lit "MODE" ++ [sp] from rfl]

theorem frame_eq (h : a.front.length ≤ 383) : a.frame = a.front ++ a.shown := by
  rw [frame, text_eq, cut, List.take_append, List.take_of_length_le h]
  rfl

variable {a} {now : Int64}

/-! ### The parts of an accepted endpoint -/

/-- Everything an accepted endpoint writes before the mode is short, and holds no line end. -/
structure Plain (a : DirectEndpoint) : Prop where
  host : a.host.val.length ≤ 15
  port : (ofInt a.port.toInt).length ≤ 6
  expires : (ofInt a.expires.toInt).length ≤ 20
  invite : a.invite.val.length = 32
  fields : ∀ f ∈ ("INVITE", a.invite.val) :: a.leading, FieldOk f

theorem Accepted.plain (h : a.Accepted now) : a.Plain := by
  obtain ⟨⟨address, haddress⟩, hport, hinvite, -⟩ := h
  obtain ⟨groups, hhost, -⟩ := trustParsePrivateIpv4_eq_some.mp haddress
  rw [trustValidInvite, Bool.and_eq_true, beq_iff_eq, List.all_eq_true] at hinvite
  obtain ⟨hlen, hhex⟩ := hinvite
  have hlow := Int64.le_toInt a.expires
  have hhigh := Int64.toInt_lt a.expires
  refine ⟨hhost.length_le, ?_, ?_, hlen, ?_⟩
  · exact length_ofInt_le (k := 5) (by norm_num) (by omega)
  · refine length_ofInt_le (k := 19) (by norm_num) ?_
    norm_num at hlow hhigh ⊢
    omega
  · intro f hf
    simp only [leading, List.mem_cons, List.not_mem_nil, or_false] at hf
    rcases hf with rfl | rfl | rfl | rfl
    · refine fieldOk_of_key (by decide) fun c hc => ?_
      have hval := hhex c hc
      by_contra hbad
      rw [Bool.not_eq_false, isEol, Bool.or_eq_true, beq_iff_eq, beq_iff_eq] at hbad
      rcases hbad with rfl | rfl
      · exact absurd hval (by decide)
      · exact absurd hval (by decide)
    · refine fieldOk_of_key (by decide) fun c hc => ?_
      rcases hhost.mem hc with rfl | hdigit
      · rfl
      · exact isEol_of_isDigit hdigit
    · exact fieldOk_of_key (by decide) (isEol_ofInt _)
    · exact fieldOk_of_key (by decide) (isEol_ofInt _)

namespace Plain

variable (h : a.Plain)

include h

theorem length_front : a.front.length ≤ 80 := by
  have h1 := h.host
  have h2 := h.port
  have h3 := h.expires
  have hmagic : (lit "ZTRANSPORT/1").length = 12 := rfl
  have hmode : (lit "MODE ").length = 5 := rfl
  have hfields := length_fields a.leading
  have hkeys : (a.leading.map fun f => (lit f.1).length + 2).sum = 21 := by
    simp [leading, show (lit "HOST").length = 4 from rfl, show (lit "PORT").length = 4 from rfl,
      show (lit "EXPIRES").length = 7 from rfl]
  have hvals : (a.leading.map fun f => f.2.length).sum =
      a.host.val.length + ((ofInt a.port.toInt).length + (ofInt a.expires.toInt).length) := by
    simp [leading]
  rw [front, List.length_append, List.length_cons, List.length_append, hfields, hkeys, hvals, hmagic,
    hmode]
  omega

theorem frame_eq : a.frame = a.front ++ a.shown := DirectEndpoint.frame_eq a (by
  have := h.length_front
  omega)

theorem leading_ok : ∀ f ∈ a.leading, FieldOk f := fun f hf => h.fields f (List.mem_cons_of_mem _ hf)

/-- The reader finds the fields before the mode, then the mode's lines and what follows them. -/
theorem field_eq {key : String} (hk : sp ∉ lit key) (cap : ℕ) :
    trustFrameField a.frame key cap = ((lookup (lit key) cap a.leading).or
      (if lit "MODE" = lit key then some (cut cap (firstLine a.shown)) else none)).or
      (trustFrameField (afterLine a.shown) key cap) := by
  have hmagic : ∀ c ∈ lit "ZTRANSPORT/1", isEol c = false := isEol_of_all (by decide)
  have hkey : ∀ c ∈ lit "MODE", isEol c = false := isEol_of_all (by decide)
  have hmode : ∀ c ∈ fieldText ("MODE", firstLine a.shown), isEol c = false := by
    intro c hc
    rcases List.mem_append.mp hc with hc | hc
    · exact hkey c hc
    · rcases List.mem_cons.mp hc with rfl | hc
      · rfl
      · exact isEol_firstLine _ c hc
  have hline : lit "MODE " ++ a.shown = fieldText ("MODE", firstLine a.shown) ++ afterLine a.shown := by
    have happ : firstLine a.shown ++ afterLine a.shown = a.shown := List.takeWhile_append_dropWhile
    rw [fieldText, List.append_assoc, List.cons_append, happ,
      show lit "MODE " = lit "MODE" ++ [sp] from rfl, List.append_assoc, List.singleton_append]
  have hframe : a.frame = lit "ZTRANSPORT/1" ++ 10 :: (a.leading.flatMap (fun f => fieldText f ++ [10]) ++
      (fieldText ("MODE", firstLine a.shown) ++ afterLine a.shown)) := by
    rw [h.frame_eq, front, ← hline]
    simp
  rw [trustFrameField, scan_eq_findSome, hframe, lines_line hmagic (by decide), List.findSome?_cons,
    lineField_of_noSp (by decide)]
  dsimp only
  rw [findSome_lines_fields cap hk _ _ h.leading_ok,
    lines_cons hmode (by simp [fieldText]) (isEol_afterLine _), List.findSome?_cons,
    lineField_fieldText (f := ("MODE", firstLine a.shown)) hk (show sp ∉ lit "MODE" by decide),
    Option.or_assoc, trustFrameField, scan_eq_findSome]
  split_ifs <;> rfl

/-- The mode the reader finds. -/
theorem mode_field : trustFrameField a.frame "MODE" 32 = some (cut 32 (firstLine a.shown)) := by
  have hno : lookup (lit "MODE") 32 a.leading = none := by
    simp [lookup, leading, show lit "HOST" ≠ lit "MODE" by decide,
      show lit "PORT" ≠ lit "MODE" by decide, show lit "EXPIRES" ≠ lit "MODE" by decide]
  rw [h.field_eq (by decide), hno, if_pos rfl, Option.none_or, Option.some_or]

theorem invite_field :
    trustFrameField a.frame "INVITE" 40 = trustFrameField (afterLine a.shown) "INVITE" 40 := by
  have hno : lookup (lit "INVITE") 40 a.leading = none := by
    simp [lookup, leading, show lit "HOST" ≠ lit "INVITE" by decide,
      show lit "PORT" ≠ lit "INVITE" by decide, show lit "EXPIRES" ≠ lit "INVITE" by decide]
  rw [h.field_eq (by decide), hno, if_neg (by decide), Option.none_or, Option.none_or]

theorem host_field : trustFrameField a.frame "HOST" 64 = some a.host.val := by
  have hhost := h.host
  rw [h.field_eq (by decide), lookup_of_getElem (i := 0) (v := a.host.val) 64 rfl (by simp),
    cut_of_lt (by omega), Option.some_or, Option.some_or]

theorem port_field : trustFrameField a.frame "PORT" 16 = some (ofInt a.port.toInt) := by
  have hport := h.port
  rw [h.field_eq (by decide), lookup_of_getElem (i := 1) (v := ofInt a.port.toInt) 16 rfl
    (by simp [leading]; decide), cut_of_lt (by omega), Option.some_or, Option.some_or]

theorem expires_field : trustFrameField a.frame "EXPIRES" 32 = some (ofInt a.expires.toInt) := by
  have hexpires := h.expires
  rw [h.field_eq (by decide), lookup_of_getElem (i := 2) (v := ofInt a.expires.toInt) 32 rfl
    (by simp [leading]; decide), cut_of_lt (by omega), Option.some_or, Option.some_or]

end Plain

/-- The frame is a C string that the reader's buffer holds. -/
theorem read_frame (a : DirectEndpoint) : cstr (cut 512 a.frame) = a.frame := by
  have hlen : a.frame.length < 384 := length_cut_lt (by norm_num) _
  rw [cut_of_lt (by omega)]
  refine cstr_of_nulFree fun h0 => ?_
  have hmode : 0 ∉ a.modeText := by
    unfold modeText
    cases a.mode with
    | none => decide
    | some mode => exact mode.property
  have hkeys : ∀ k ∈ ["HOST", "PORT", "EXPIRES", "MODE", "INVITE"], 0 ∉ lit k := by decide
  have hfields : ∀ f ∈ a.fields, 0 ∉ lit f.1 ∧ 0 ∉ f.2 := by
    intro f hf
    simp only [DirectEndpoint.fields, List.mem_cons, List.not_mem_nil, or_false] at hf
    rcases hf with rfl | rfl | rfl | rfl | rfl
    · exact ⟨hkeys _ (by simp), a.host.property⟩
    · exact ⟨hkeys _ (by simp), zero_notMem_ofInt _⟩
    · exact ⟨hkeys _ (by simp), zero_notMem_ofInt _⟩
    · exact ⟨hkeys _ (by simp), hmode⟩
    · exact ⟨hkeys _ (by simp), a.invite.property⟩
  have htext : 0 ∉ a.text := notMem_frame (by decide) (by decide) (by decide) hfields (by decide)
  exact htext (List.mem_of_mem_take h0)

/-! ### What the reader makes of it -/

/-- **The reader on the frame**: everything but mode and invitation is as it was set. -/
theorem Accepted.directTransport (h : a.Accepted now) {address : Bytes}
    (haddress : trustParsePrivateIpv4 a.host.val = some address) {t : Int64}
    (ht : t.toInt < a.expires.toInt) :
    directTransport (some a.frame) (some t) =
      match trustFrameField (afterLine a.shown) "INVITE" 40 with
      | none => .unusable
      | some invite =>
        if trustValidInvite invite = false then .unusable
        else .usable ⟨1, address, a.port.toInt,
          miniStreq (cut 32 (firstLine a.shown)) (lit "portable"), .put 40 invite⟩ := by
  have hp := h.plain
  obtain ⟨hport1, hport2⟩ := h.port
  have hnum {x : ℤ} (hx : FitsInt64 x) : trustParseI64 (ofInt x) = x := by
    have hval := decimalVal_ofInt x
    rw [trustParseI64_of_fits (isDecimal_ofInt x) (by rw [hval]; exact hx), hval]
  have hport : wrap 32 (trustParseI64 (ofInt a.port.toInt)) = a.port.toInt := by
    rw [hnum ⟨by omega, by omega⟩]
    exact (wrap_eq_self_iff (by norm_num)).mpr ⟨by norm_num; omega, by norm_num; omega⟩
  have hexpires : trustParseI64 (ofInt a.expires.toInt) = a.expires.toInt :=
    hnum ⟨Int64.le_toInt _, Int64.toInt_lt _⟩
  have hcut : cut 512 a.frame = a.frame := by
    have hlen : a.frame.length < 384 := length_cut_lt (by norm_num) _
    exact cut_of_lt (by omega)
  have hmagic : strstr a.frame (lit "ZTRANSPORT/1") = true := by
    rw [strstr_iff, hp.frame_eq, front, List.append_assoc]
    exact (List.prefix_append _ _).isInfix
  have hne : cut 512 a.frame ≠ [] := by
    rw [hcut]
    intro hnil
    rw [hnil] at hmagic
    exact absurd hmagic (by decide)
  rw [ZorinTrust.directTransport, if_neg hne, read_frame, hmagic, if_neg (by decide), readInvitation,
    hp.host_field, hp.port_field, hp.expires_field, hp.invite_field, hp.mode_field]
  cases trustFrameField (afterLine a.shown) "INVITE" 40 with
  | none => rfl
  | some invite =>
    dsimp only
    rw [hexpires, hport, if_neg (show ¬ (a.expires.toInt ≤ t.toInt ∨ a.port.toInt < 1 ∨
      a.port.toInt > 65535) by omega), haddress]
    dsimp only
    rw [Option.getD_some]

/-- The frame holds the whole mode, and then what it can of the rest. -/
theorem shown_of_lt (h : a.modeText.length < a.room) :
    a.shown = a.modeText ++ 10 :: (fieldText ("INVITE", a.invite.val) ++ 10 :: (lit "END" ++ [10])).take
      (a.room - a.modeText.length - 1) := by
  obtain ⟨k, hk⟩ : ∃ k, a.room - a.modeText.length = k + 1 := ⟨a.room - a.modeText.length - 1, by omega⟩
  rw [shown, back, List.take_append, List.take_of_length_le h.le, hk, List.take_succ_cons,
    Nat.add_sub_cancel]

/-- Or it holds the beginning of the mode. -/
theorem shown_of_le (h : a.room ≤ a.modeText.length) : a.shown = a.shownMode := by
  rw [shown, back, List.take_append_of_le_length h, shownMode]

theorem Plain.room_ge (h : a.Plain) : 303 ≤ a.room := by
  have := h.length_front
  rw [room]
  omega

/-- The mode reads as `portable` when its first line does. -/
theorem Plain.firstLine_shown (h : a.Plain) :
    cut 32 (firstLine a.shown) = lit "portable" ↔ firstLine a.modeText = lit "portable" := by
  have hroom := h.room_ge
  have hlen : (lit "portable").length = 8 := rfl
  rw [cut_eq_iff (by omega)]
  by_cases hfits : a.modeText.length < a.room
  · rw [shown_of_lt hfits, firstLine_append]
  · have htake : firstLine a.shownMode = cut (a.room + 1) (firstLine a.modeText) := by
      rw [firstLine, shownMode, ← List.take_takeWhile]
      rfl
    rw [shown_of_le (not_lt.mp hfits), htake, cut_eq_iff (by omega)]

theorem inviteFirst_iff : a.InviteFirst ↔
    match frameField (afterLine a.shownMode) "INVITE" with
    | some v => v = a.invite.val
    | none => a.modeText.length + 40 ≤ a.room := by
  constructor
  · rintro ⟨hfound, hfits⟩
    cases hfield : frameField (afterLine a.shownMode) "INVITE" with
    | some v => exact hfound v hfield
    | none => exact hfits hfield
  · intro h
    refine ⟨fun v hv => ?_, fun hnone => ?_⟩
    · rw [hv] at h
      exact h
    · rw [hnone] at h
      exact h

/-- The invitation reads back when it is the first one. -/
theorem Plain.invite_shown (h : a.Plain) :
    trustFrameField (afterLine a.shown) "INVITE" 40 = some a.invite.val ↔ a.InviteFirst := by
  have hlen := h.invite
  have hcut (v : Bytes) : cut 40 v = a.invite.val ↔ v = a.invite.val := cut_eq_iff (by omega)
  by_cases hfits : a.modeText.length < a.room
  · -- the mode's further lines, then the frame's own
    have hmode : a.shownMode = a.modeText := List.take_of_length_le hfits.le
    have hown := @findSome_lines_take "INVITE" a.invite.val 40 (by decide)
      (lit "END" ++ [10]) [("INVITE", a.invite.val)] 0 (a.room - a.modeText.length - 1)
      (by simpa using h.fields ("INVITE", a.invite.val) List.mem_cons_self) (by simp) rfl
    have hstart : valueStart [("INVITE", a.invite.val)] 0 = 7 := by
      show (lit "INVITE").length + 1 = 7
      rfl
    rw [hstart] at hown
    have htext : [("INVITE", a.invite.val)].flatMap (fun f => fieldText f ++ [10]) ++ (lit "END" ++ [10]) =
        fieldText ("INVITE", a.invite.val) ++ 10 :: (lit "END" ++ [10]) := by simp
    rw [htext] at hown
    rw [shown_of_lt hfits, afterLine_append, trustFrameField, scan_eq_findSome,
      lines_append _ _ rfl, List.findSome?_append, hown, ← scan_eq_findSome, scan_eq_field]
    rw [inviteFirst_iff, hmode]
    show (Option.or ((frameField (afterLine a.modeText) "INVITE").map (cut 40)) _) = _ ↔ _
    cases frameField (afterLine a.modeText) "INVITE" with
    | some v =>
      rw [Option.map_some, Option.some_or, Option.some.injEq]
      exact hcut v
    | none =>
      dsimp only
      rw [Option.map_none, Option.none_or]
      split_ifs with hshort
      · rw [false_iff]
        omega
      · rw [Option.some.injEq, hcut, List.take_eq_self_iff]
        omega
  · rw [shown_of_le (not_lt.mp hfits), trustFrameField_eq_cut, inviteFirst_iff]
    cases frameField (afterLine a.shownMode) "INVITE" with
    | some v =>
      rw [Option.map_some, Option.some.injEq]
      exact hcut v
    | none =>
      simp only [Option.map_none, reduceCtorEq, false_iff]
      omega

theorem validInvite_spec {invite : Bytes} (h : trustValidInvite invite = true) :
    invite.length = 32 ∧ 0 ∉ invite := by
  rw [trustValidInvite, Bool.and_eq_true, beq_iff_eq, List.all_eq_true] at h
  exact ⟨h.1, fun h0 => absurd (h.2 0 h0) (by decide)⟩

/-- An accepted endpoint reads back at one time before it expires. -/
theorem Accepted.reads_iff (h : a.Accepted now) {t : Int64} (ht : t.toInt < a.expires.toInt)
    (s : Service) :
    a.Reads (trustGetEndpoint (some a.frame) (some t) s).1 ↔ a.ReadsBack := by
  obtain ⟨address, haddress⟩ := h.host
  have hp := h.plain
  have hinvite := hp.invite_shown
  have hfirst := hp.firstLine_shown
  have hmode : a.mode.map Subtype.val = some (lit "portable") ↔ a.modeText = lit "portable" := by
    unfold modeText
    cases a.mode with
    | none => exact ⟨fun h => (by cases h), fun h => absurd h (by decide)⟩
    | some mode => simp
  have hlocal : ¬ a.Reads localEndpoint := fun hr => absurd hr.rc (by decide)
  have hportable : miniStreq (cut 32 (firstLine a.shown)) (lit "portable") = true ↔
      firstLine a.modeText = lit "portable" := miniStreq_iff.trans hfirst
  unfold trustGetEndpoint
  rw [h.directTransport haddress ht]
  cases hfield : trustFrameField (afterLine a.shown) "INVITE" 40 with
  | none =>
    rw [hfield] at hinvite
    dsimp only
    exact ⟨fun hr => absurd hr hlocal, fun hback => absurd (hinvite.mpr hback.invite) (by simp)⟩
  | some invite =>
    rw [hfield, Option.some.injEq] at hinvite
    dsimp only
    by_cases hvalid : trustValidInvite invite = false
    · rw [if_pos hvalid]
      dsimp only
      refine ⟨fun hr => absurd hr hlocal, fun hback => ?_⟩
      have heq : invite = a.invite.val := hinvite.mpr hback.invite
      rw [heq, h.invite] at hvalid
      exact absurd hvalid (by decide)
    · rw [if_neg hvalid]
      dsimp only
      have hkept : (CStr.put 40 invite).val = invite := by
        obtain ⟨hlen, h0⟩ := validInvite_spec (by simpa using hvalid)
        exact CStr.put_val_of_fits h0 (by omega)
      constructor
      · intro hr
        refine ⟨fun hline => hmode.mp (hr.portable.mp (hportable.mpr hline)), ?_⟩
        exact hinvite.mp (hkept.symm.trans hr.invite)
      · intro hback
        refine ⟨rfl, haddress, rfl, ?_, ?_⟩
        · exact hkept.trans (hinvite.mpr hback.invite)
        · rw [hmode]
          refine hportable.trans ⟨hback.mode, fun htext => ?_⟩
          rw [htext]
          rfl

/-- **The round trip**: an endpoint that was accepted comes back at every time before it expires exactly
when its mode leaves the fields alone. -/
theorem direct_roundTrip_iff (a : DirectEndpoint) (clock : Option Int64) (w : FileWrite)
    (file : Option Bytes) (h : (trustSetDirectEndpoint a clock w file).1 = 0) :
    (∀ t : Int64, (∀ now ∈ clock, now.toInt ≤ t.toInt) → t.toInt < a.expires.toInt → ∀ s,
      a.Reads (trustGetEndpoint (trustSetDirectEndpoint a clock w file).2 (some t) s).1) ↔
      a.ReadsBack := by
  obtain ⟨now, rfl, haccepted, hfile⟩ := accepted_of_set h
  rw [hfile]
  constructor
  · intro hall
    have hread := hall now (by simp) haccepted.expires.1 {}
    exact (haccepted.reads_iff haccepted.expires.1 {}).mp hread
  · intro hback t _ ht s
    exact (haccepted.reads_iff ht s).mpr hback

/-! ### Samples -/

/-- 10.0.0.7 with this mode, until 1100. -/
def sample (mode : CChars) : DirectEndpoint where
  host := chars "10.0.0.7"
  port := 47472
  expires := 1100
  mode := some mode
  invite := chars "00112233445566778899aabbccddeeff"

/-- The endpoint of a portable link is there until the second before it expires. -/
theorem direct_roundTrip_portable : (sample (chars "portable")).Reads (trustGetEndpoint
    (trustSetDirectEndpoint (sample (chars "portable")) (some 1000) .done none).2 (some 1099) {}).1 := by
  have hnone : frameField (afterLine (sample (chars "portable")).shownMode) "INVITE" = none := by
    decide +kernel
  have hback : (sample (chars "portable")).ReadsBack := by
    refine ⟨fun _ => rfl, fun v hv => ?_, fun _ => by decide +kernel⟩
    rw [hnone] at hv
    cases hv
  have hset : (trustSetDirectEndpoint (sample (chars "portable")) (some 1000) .done none).1 = 0 := by
    decide +kernel
  refine (direct_roundTrip_iff _ (some 1000) .done none hset).mpr hback 1099 ?_ (by decide +kernel) {}
  rintro _ ⟨⟩
  decide

/-- A mode of two lines brings its own invitation. -/
theorem direct_roundTrip_forged : ¬ ∀ (a : DirectEndpoint) (clock : Option Int64) (w : FileWrite)
    (file : Option Bytes), (trustSetDirectEndpoint a clock w file).1 = 0 →
    ∀ t : Int64, (∀ now ∈ clock, now.toInt ≤ t.toInt) → t.toInt < a.expires.toInt → ∀ s,
      a.Reads (trustGetEndpoint (trustSetDirectEndpoint a clock w file).2 (some t) s).1 := by
  intro hall
  let mode : CChars := chars "portable\nINVITE ffffffffffffffffffffffffffffffff"
  have hreads := hall (sample mode) (some 1000) .done none (by decide +kernel) 1000
    (by simp) (by decide +kernel) {}
  have hforged : (trustGetEndpoint (trustSetDirectEndpoint (sample mode) (some 1000) .done none).2
      (some 1000) {}).1.invite.val = lit "ffffffffffffffffffffffffffffffff" := by
    decide +kernel
  exact absurd (hreads.invite.symm.trans hforged) (by decide +kernel)

end DirectEndpoint

end ZorinTrust
