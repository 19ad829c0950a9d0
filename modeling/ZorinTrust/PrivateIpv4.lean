import ZorinTrust.Endpoint

/-!
# Private IPv4 addresses

`trust_parse_private_ipv4` as it is called, with its return codes and its output parameter, against the
grammar it is there for: four decimal groups with dots between them, in one of the private ranges.  It
is the one check between a deep link and the address the phone connects to.
-/

namespace ZorinTrust

open CText Numeral

/-! ### The call -/

/-- The loop over the octets, so many of them to come; the code of the check that fails. -/
def ipv4Octets : ℕ → Bytes → Except ℤ (List UInt8 × Bytes)
  | 0, p => .ok ([], p)
  | n + 1, p =>
    match trustParseIpv4Octet p with
    | none => .error (-2)
    | some (octet, p) =>
      if n = 0 then .ok ([octet], p)
      else
        match skipDot p with
        | none => .error (-3)
        | some p =>
          match ipv4Octets n p with
          | .error rc => .error rc
          | .ok (octets, p) => .ok (octet :: octets, p)

/-- The range check, on the octets. -/
def privateOctets : List UInt8 → Bool
  | a :: b :: _ => isPrivate a b
  | _ => false

/-- `trust_parse_private_ipv4` with its output parameter: the code, and the bytes of `*out` in memory
order. -/
def parsePrivateIpv4Into (text out : Bytes) : ℤ × Bytes :=
  if text = [] then (-1, out)
  else
    match ipv4Octets 4 text with
    | .error rc => (rc, out)
    | .ok (octets, p) =>
      if p ≠ [] then (-4, out)
      else if privateOctets octets = false then (-5, out)
      else (0, octets)

/-! ### The grammar -/

/-- One to three decimal digits, with a value of at most 255. -/
structure IsOctet (g : Bytes) : Prop where
  pos : g ≠ []
  short : g.length ≤ 3
  digits : g.all isDigit = true
  value : digitsVal 0 g ≤ 255

/-- 10/8, 172.16/12, 192.168/16 and 169.254/16. -/
def InPrivateRange : List ℕ → Prop
  | a :: b :: _ =>
    a = 10 ∨ (a = 172 ∧ 16 ≤ b ∧ b ≤ 31) ∨ (a = 192 ∧ b = 168) ∨ (a = 169 ∧ b = 254)
  | _ => False

/-- The text of a private address, and its groups. -/
structure PrivateIpv4 (text : Bytes) (groups : List Bytes) : Prop where
  text_eq : text = [46].intercalate groups
  four : groups.length = 4
  octet : ∀ g ∈ groups, IsOctet g
  range : InPrivateRange (groups.map (digitsVal 0))

theorem PrivateIpv4.text_groups {text : Bytes} {groups : List Bytes} (h : PrivateIpv4 text groups) :
    ∃ a b c d, (∀ g ∈ [a, b, c, d], IsOctet g) ∧ text = a ++ 46 :: (b ++ 46 :: (c ++ 46 :: d)) := by
  obtain ⟨htext, hfour, hoctet, -⟩ := h
  match groups, hfour with
  | [a, b, c, d], _ => exact ⟨a, b, c, d, hoctet, by simp [htext, List.intercalate_cons_cons]⟩

theorem PrivateIpv4.length_le {text : Bytes} {groups : List Bytes} (h : PrivateIpv4 text groups) :
    text.length ≤ 15 := by
  obtain ⟨a, b, c, d, hoctet, rfl⟩ := h.text_groups
  have ha := (hoctet a (by simp)).short
  have hb := (hoctet b (by simp)).short
  have hc := (hoctet c (by simp)).short
  have hd := (hoctet d (by simp)).short
  simp only [List.length_append, List.length_cons]
  omega

theorem PrivateIpv4.mem {text : Bytes} {groups : List Bytes} (h : PrivateIpv4 text groups) {c : UInt8}
    (hc : c ∈ text) : c = 46 ∨ isDigit c = true := by
  obtain ⟨g₁, g₂, g₃, g₄, hoctet, rfl⟩ := h.text_groups
  have hdigits (g : Bytes) (hg : g ∈ [g₁, g₂, g₃, g₄]) (hcg : c ∈ g) : isDigit c = true :=
    List.all_eq_true.mp (hoctet g hg).digits c hcg
  simp only [List.mem_append, List.mem_cons] at hc
  rcases hc with hc | hc | hc | hc | hc | hc | hc
  · exact Or.inr (hdigits _ (by simp) hc)
  · exact Or.inl hc
  · exact Or.inr (hdigits _ (by simp) hc)
  · exact Or.inl hc
  · exact Or.inr (hdigits _ (by simp) hc)
  · exact Or.inl hc
  · exact Or.inr (hdigits _ (by simp) hc)

/-- The byte an octet is stored in. -/
def octetByte (g : Bytes) : UInt8 := UInt8.ofNat (digitsVal 0 g)

theorem IsOctet.toNat_octetByte {g : Bytes} (h : IsOctet g) : (octetByte g).toNat = digitsVal 0 g := by
  have := h.value
  rw [octetByte, UInt8.toNat_ofNat', Nat.mod_eq_of_lt (by omega)]

/-! ### One octet -/

/-- The text does not go on with a digit. -/
def NoDigit (p : Bytes) : Prop := ∀ c ∈ p.head?, isDigit c = false

/-- **The digit loop** reads the leading digits, so many of them at most. -/
theorem octetDigits_eq : ∀ (n value digits : ℕ) (p : Bytes),
    octetDigits n value digits p =
      (digitsVal value ((p.take n).takeWhile isDigit), digits + ((p.take n).takeWhile isDigit).length,
        p.drop ((p.take n).takeWhile isDigit).length)
  | 0, value, digits, p => by simp [octetDigits, digitsVal]
  | n + 1, value, digits, [] => by simp [octetDigits, digitsVal]
  | n + 1, value, digits, c :: p => by
    rw [octetDigits, List.take_succ_cons]
    by_cases hc : isDigit c = true
    · rw [if_pos hc, octetDigits_eq n, List.takeWhile_cons_of_pos hc, List.length_cons,
        List.drop_succ_cons, Nat.add_right_comm, Nat.add_assoc]
      rfl
    · rw [if_neg hc, List.takeWhile_cons_of_neg hc]
      rfl

theorem octet_of_parse {p rest : Bytes} {octet : UInt8}
    (h : trustParseIpv4Octet p = some (octet, rest)) :
    ∃ g, IsOctet g ∧ p = g ++ rest ∧ octet = octetByte g := by
  unfold trustParseIpv4Octet at h
  rw [octetDigits_eq] at h
  dsimp only at h
  split_ifs at h with hbad
  cases h
  rw [not_or, not_lt] at hbad
  obtain ⟨hdigits, hvalue⟩ := hbad
  generalize hg : (p.take 3).takeWhile isDigit = g at hdigits hvalue
  have hprefix : g <+: p := by
    rw [← hg]
    exact (List.takeWhile_prefix _).trans (List.take_prefix 3 p)
  refine ⟨g, ⟨?_, ?_, ?_, hvalue⟩, ?_, rfl⟩
  · rintro rfl
    exact hdigits rfl
  · have hle := (List.takeWhile_sublist isDigit (l := p.take 3)).length_le
    rw [hg, List.length_take] at hle
    omega
  · rw [List.all_eq_true, ← hg]
    exact fun c hc => List.mem_takeWhile_imp hc
  · obtain ⟨t, rfl⟩ := hprefix
    rw [List.drop_left]

theorem parse_of_octet {g rest : Bytes} (h : IsOctet g) (hrest : NoDigit rest) :
    trustParseIpv4Octet (g ++ rest) = some (octetByte g, rest) := by
  have hall : ∀ c ∈ g, isDigit c = true := List.all_eq_true.mp h.digits
  have hstop : (rest.take (3 - g.length)).takeWhile isDigit = [] := by
    cases rest with
    | nil => simp
    | cons c rest =>
      have hc : isDigit c = false := hrest c rfl
      cases 3 - g.length with
      | zero => rfl
      | succ n => rw [List.take_succ_cons, List.takeWhile_cons_of_neg (by simp [hc])]
  have hread : ((g ++ rest).take 3).takeWhile isDigit = g := by
    rw [List.take_append, List.take_of_length_le h.short, List.takeWhile_append_of_pos hall, hstop,
      List.append_nil]
  have hvalue := h.value
  unfold trustParseIpv4Octet
  rw [octetDigits_eq, hread]
  dsimp only
  rw [List.drop_left, if_neg]
  · rfl
  · rw [not_or, not_lt]
    refine ⟨?_, hvalue⟩
    rw [Nat.zero_add, List.length_eq_zero_iff]
    exact h.pos

/-! ### The loop -/

theorem skipDot_eq_some {p rest : Bytes} : skipDot p = some rest ↔ p = 46 :: rest := by
  unfold skipDot
  split
  · simp [eq_comm]
  · rename_i hno
    constructor
    · intro h
      cases h
    · intro h
      exact absurd h (hno rest)

/-- The last octet. -/
theorem ipv4Octets_one {p rest : Bytes} {octets : List UInt8} :
    ipv4Octets 1 p = .ok (octets, rest) ↔
      ∃ octet, trustParseIpv4Octet p = some (octet, rest) ∧ octets = [octet] := by
  rw [ipv4Octets]
  cases trustParseIpv4Octet p with
  | none => simp
  | some q =>
    obtain ⟨octet, p₁⟩ := q
    simp [eq_comm, and_comm]

/-- One turn of the loop before it. -/
theorem ipv4Octets_succ {n : ℕ} {p rest : Bytes} {octets : List UInt8} :
    ipv4Octets (n + 2) p = .ok (octets, rest) ↔
      ∃ octet p₁ p₂ octets', trustParseIpv4Octet p = some (octet, p₁) ∧ skipDot p₁ = some p₂ ∧
        ipv4Octets (n + 1) p₂ = .ok (octets', rest) ∧ octets = octet :: octets' := by
  rw [ipv4Octets]
  cases trustParseIpv4Octet p with
  | none => simp
  | some q =>
    obtain ⟨octet, p₁⟩ := q
    dsimp only
    rw [if_neg (Nat.succ_ne_zero n)]
    cases hdot : skipDot p₁ with
    | none => simp [hdot]
    | some p₂ =>
      dsimp only
      cases hrec : ipv4Octets (n + 1) p₂ with
      | error rc => simp [hdot, hrec]
      | ok q =>
        obtain ⟨octets', rest'⟩ := q
        simp [hdot, hrec, eq_comm, and_comm]

/-- What the loop accepts is a text of the grammar, and it stores its values. -/
theorem groups_of_ipv4Octets : ∀ (n : ℕ) {p rest : Bytes} {octets : List UInt8},
    ipv4Octets (n + 1) p = .ok (octets, rest) →
    ∃ groups, groups.length = n + 1 ∧ p = [46].intercalate groups ++ rest ∧
      (∀ g ∈ groups, IsOctet g) ∧ octets = groups.map octetByte
  | 0, p, rest, octets, h => by
    obtain ⟨octet, hoctet, rfl⟩ := ipv4Octets_one.mp h
    obtain ⟨g, hg, rfl, rfl⟩ := octet_of_parse hoctet
    exact ⟨[g], rfl, by simp, by simpa using hg, rfl⟩
  | n + 1, p, rest, octets, h => by
    obtain ⟨octet, p₁, p₂, octets', hoctet, hdot, hrec, rfl⟩ := ipv4Octets_succ.mp h
    obtain ⟨g, hg, rfl, rfl⟩ := octet_of_parse hoctet
    obtain rfl := skipDot_eq_some.mp hdot
    obtain ⟨groups, hlen, rfl, hgroups, rfl⟩ := groups_of_ipv4Octets n hrec
    obtain ⟨g', groups, rfl⟩ := List.exists_cons_of_length_eq_add_one hlen
    refine ⟨g :: g' :: groups, by rw [List.length_cons, hlen], ?_, ?_, rfl⟩
    · simp [List.intercalate_cons_cons]
    · intro x hx
      rcases List.mem_cons.mp hx with rfl | hx
      · exact hg
      · exact hgroups x hx

/-- Every text of the grammar gets through the loop. -/
theorem ipv4Octets_of_groups : ∀ (n : ℕ) {groups : List Bytes} {rest : Bytes},
    groups.length = n + 1 → (∀ g ∈ groups, IsOctet g) → NoDigit rest →
    ipv4Octets (n + 1) ([46].intercalate groups ++ rest) = .ok (groups.map octetByte, rest)
  | 0, [g], rest, _, hgroups, hrest => by
    rw [List.intercalate_singleton]
    exact ipv4Octets_one.mpr ⟨_, parse_of_octet (hgroups g List.mem_cons_self) hrest, rfl⟩
  | n + 1, g :: g' :: groups, rest, hlen, hgroups, hrest => by
    have hrec : ipv4Octets (n + 1) ([46].intercalate (g' :: groups) ++ rest) =
        .ok ((g' :: groups).map octetByte, rest) :=
      ipv4Octets_of_groups n (by simpa using hlen) (fun x hx => hgroups x (List.mem_cons_of_mem _ hx))
        hrest
    have hdot : NoDigit (46 :: ([46].intercalate (g' :: groups) ++ rest)) := by
      intro c hc
      obtain rfl : 46 = c := Option.some.inj hc
      rfl
    have htext : [46].intercalate (g :: g' :: groups) ++ rest =
        g ++ 46 :: ([46].intercalate (g' :: groups) ++ rest) := by
      simp [List.intercalate_cons_cons]
    rw [htext]
    exact ipv4Octets_succ.mpr ⟨_, _, _, _, parse_of_octet (hgroups g List.mem_cons_self) hdot,
      skipDot_eq_some.mpr rfl, hrec, rfl⟩

/-- A check of the loop that fails has a code. -/
theorem ipv4Octets_error_ne : ∀ {n : ℕ} {p : Bytes} {rc : ℤ}, ipv4Octets n p = .error rc → rc ≠ 0
  | 0, p, rc, h => by cases h
  | n + 1, p, rc, h => by
    rw [ipv4Octets] at h
    split at h
    · cases h
      decide
    · split_ifs at h
      split at h
      · cases h
        decide
      · rename_i p' _
        cases hrec : ipv4Octets n p' with
        | error rc' =>
          rw [hrec] at h
          cases h
          exact ipv4Octets_error_ne hrec
        | ok q =>
          rw [hrec] at h
          cases h

/-! ### The parser -/

/-- The range check on the bytes is the range of the values. -/
theorem privateOctets_iff {groups : List Bytes} (h : ∀ g ∈ groups, IsOctet g) :
    privateOctets (groups.map octetByte) = true ↔ InPrivateRange (groups.map (digitsVal 0)) := by
  match groups, h with
  | [], _ => simp [privateOctets, InPrivateRange]
  | [g], _ => simp [privateOctets, InPrivateRange]
  | g :: g' :: _, h =>
    have ha := (h g (by simp)).toNat_octetByte
    have hb := (h g' (by simp)).toNat_octetByte
    simp only [List.map_cons, privateOctets, InPrivateRange, isPrivate, Bool.or_eq_true, Bool.and_eq_true,
      beq_iff_eq, decide_eq_true_eq, UInt8.le_iff_toNat_le, ← UInt8.toNat_inj, ha, hb]
    simp [or_assoc, and_assoc]

/-- The call succeeds on the texts of the grammar, and stores the values. -/
theorem parsePrivateIpv4Into_of_private {text : Bytes} {groups : List Bytes} (h : PrivateIpv4 text groups)
    (out : Bytes) : parsePrivateIpv4Into text out = (0, groups.map octetByte) := by
  have hloop : ipv4Octets 4 ([46].intercalate groups ++ []) = .ok (groups.map octetByte, []) :=
    ipv4Octets_of_groups 3 h.four h.octet (by simp [NoDigit])
  rw [List.append_nil, ← h.text_eq] at hloop
  have hne : text ≠ [] := by
    rintro rfl
    have hnil : ipv4Octets 4 [] = .error (-2) := rfl
    rw [hnil] at hloop
    cases hloop
  unfold parsePrivateIpv4Into
  rw [if_neg hne, hloop]
  dsimp only
  rw [(privateOctets_iff h.octet).mpr h.range]
  rfl

/-- A call that succeeds has read a text of the grammar; one that fails leaves `*out` alone. -/
theorem parsePrivateIpv4Into_cases (text out : Bytes) :
    (∃ groups, PrivateIpv4 text groups ∧ parsePrivateIpv4Into text out = (0, groups.map octetByte)) ∨
      ∃ rc ≠ 0, parsePrivateIpv4Into text out = (rc, out) := by
  unfold parsePrivateIpv4Into
  by_cases hempty : text = []
  · exact Or.inr ⟨-1, by decide, by rw [if_pos hempty]⟩
  rw [if_neg hempty]
  cases hloop : ipv4Octets 4 text with
  | error rc => exact Or.inr ⟨rc, ipv4Octets_error_ne hloop, rfl⟩
  | ok q =>
    obtain ⟨octets, p⟩ := q
    obtain ⟨groups, hlen, htext, hgroups, rfl⟩ := groups_of_ipv4Octets 3 hloop
    dsimp only
    by_cases hrest : p = []
    · rw [if_neg (not_not.mpr hrest)]
      rw [hrest, List.append_nil] at htext
      by_cases hrange : privateOctets (groups.map octetByte) = true
      · refine Or.inl ⟨groups, ⟨htext, hlen, hgroups, (privateOctets_iff hgroups).mp hrange⟩, ?_⟩
        rw [hrange]
        rfl
      · rw [Bool.not_eq_true] at hrange
        exact Or.inr ⟨-5, by decide, by rw [hrange]; rfl⟩
    · exact Or.inr ⟨-4, by decide, by rw [if_pos hrest]⟩

/-- **The parser accepts exactly its grammar**, stores the four values and, when it fails, nothing. -/
theorem private_ipv4_grammar (text out : Bytes) :
    ((parsePrivateIpv4Into text out).1 = 0 ↔ ∃ groups, PrivateIpv4 text groups) ∧
    (∀ groups, PrivateIpv4 text groups →
      (parsePrivateIpv4Into text out).2.map UInt8.toNat = groups.map (digitsVal 0)) ∧
    ((parsePrivateIpv4Into text out).1 ≠ 0 → (parsePrivateIpv4Into text out).2 = out) := by
  refine ⟨⟨fun hrc => ?_, ?_⟩, fun groups h => ?_, fun hrc => ?_⟩
  · rcases parsePrivateIpv4Into_cases text out with ⟨groups, h, -⟩ | ⟨rc, hne, h⟩
    · exact ⟨groups, h⟩
    · rw [h] at hrc
      exact absurd hrc hne
  · rintro ⟨groups, h⟩
    rw [parsePrivateIpv4Into_of_private h]
  · rw [parsePrivateIpv4Into_of_private h]
    dsimp only
    rw [List.map_map]
    exact List.map_congr_left fun g hg => (h.octet g hg).toNat_octetByte
  · rcases parsePrivateIpv4Into_cases text out with ⟨groups, -, h⟩ | ⟨rc, -, h⟩
    · rw [h] at hrc
      exact absurd rfl hrc
    · rw [h]

/-- The parser as the endpoint uses it: the address of a call that succeeds. -/
theorem trustParsePrivateIpv4_eq_some {text address : Bytes} :
    trustParsePrivateIpv4 text = some address ↔
      ∃ groups, PrivateIpv4 text groups ∧ address = groups.map octetByte := by
  have hloop : trustParsePrivateIpv4 text = some address ↔
      ipv4Octets 4 text = .ok (address, []) ∧ privateOctets address = true := by
    simp only [trustParsePrivateIpv4, ipv4Octets_succ, Nat.zero_add, ipv4Octets_one, Option.bind_eq_bind,
      Option.bind_eq_some_iff, Prod.exists]
    constructor
    · rintro ⟨a, p₁, ha, p₂, hdot, b, p₃, hb, p₄, hdot', c, p₅, hc, p₆, hdot'', d, p₇, hd, h⟩
      split_ifs at h with hrest hrange
      cases h
      rw [not_not] at hrest
      subst hrest
      exact ⟨⟨a, p₁, p₂, _, ha, hdot, ⟨b, p₃, p₄, _, hb, hdot', ⟨c, p₅, p₆, _, hc, hdot'', ⟨d, hd, rfl⟩,
        rfl⟩, rfl⟩, rfl⟩, hrange⟩
    · rintro ⟨⟨a, p₁, p₂, _, ha, hdot, ⟨b, p₃, p₄, _, hb, hdot', ⟨c, p₅, p₆, _, hc, hdot'', ⟨d, hd, rfl⟩,
        rfl⟩, rfl⟩, rfl⟩, hrange⟩
      refine ⟨a, p₁, ha, p₂, hdot, b, p₃, hb, p₄, hdot', c, p₅, hc, p₆, hdot'', d, [], hd, ?_⟩
      have hprivate : isPrivate a b = true := hrange
      rw [if_neg (not_not.mpr rfl), if_pos hprivate]
  rw [hloop]
  constructor
  · rintro ⟨hok, hrange⟩
    obtain ⟨groups, hlen, htext, hgroups, rfl⟩ := groups_of_ipv4Octets 3 hok
    rw [List.append_nil] at htext
    exact ⟨groups, ⟨htext, hlen, hgroups, (privateOctets_iff hgroups).mp hrange⟩, rfl⟩
  · rintro ⟨groups, h, rfl⟩
    have hok : ipv4Octets 4 ([46].intercalate groups ++ []) = .ok (groups.map octetByte, []) :=
      ipv4Octets_of_groups 3 h.four h.octet (by simp [NoDigit])
    rw [List.append_nil, ← h.text_eq] at hok
    exact ⟨hok, (privateOctets_iff h.octet).mpr h.range⟩

end ZorinTrust
