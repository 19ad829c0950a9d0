import ZorinTrust.BridgeField
import ZorinTrust.Interfaces

/-!
# What the shell core sees more than the app

The agent answers `SERVICES` with the known services that answer its ping, the app pings the same list
itself, and the report lists under `binder.shell_only` the names of the first list that are not in the
second.  Agent and app join their lists in different ways into different buffers, and the app reads the
agent's list back with `bridge_field`; `binderSummary_eq` says that the lines are exact for every
behaviour of the services on both sides.
-/

namespace ZorinTrust

open CText Numeral Buffer Delimited Search

/-- What `AServiceManager_checkService` and `AIBinder_ping` say of a service. -/
inductive Ping
  | absent
  | failed
  | answered
  deriving DecidableEq

/-- `g_known_services` of the app. -/
def gKnownServices : List String :=
  ["activity", "package", "window", "power", "display", "SurfaceFlinger", "sensorservice",
    "connectivity", "netd", "vold", "media.audio_flinger", "permission", "mount", "keystore2", "stats",
    "incident", "gatekeeper", "gpu", "input", "batterystats", "deviceidle", "thermalservice", "storaged",
    "usagestats", "jobscheduler", "appops", "role", "shortcut", "notification", "location", "wifi",
    "bluetooth_manager", "media.extractor", "media.metrics", "drm.drmManager",
    "android.security.authorization.IKeystoreAuthorization/default"]

/-- `names` of the agent. -/
def agentNames : List String :=
  ["activity", "package", "window", "power", "display", "SurfaceFlinger", "sensorservice",
    "connectivity", "netd", "vold", "media.audio_flinger", "permission", "mount", "keystore2", "stats",
    "incident", "gatekeeper", "gpu", "input", "batterystats", "deviceidle", "thermalservice", "storaged",
    "usagestats", "jobscheduler", "appops", "role", "shortcut", "notification", "location", "wifi",
    "bluetooth_manager", "media.extractor", "media.metrics", "drm.drmManager",
    "android.security.authorization.IKeystoreAuthorization/default"]

/-! ### The agent's list -/

/-- The locals of `command_services`. -/
structure Services where
  out : Bytes
  pos : ℕ
  found : ℕ
  pingFail : ℕ

/-- `pos += snprintf(out + pos, sizeof(out) - pos, ...)`. -/
def Services.print (s : Services) (text : Bytes) : Option Services :=
  (snprintf s.out s.pos ((4096 - (s.pos : ℤ)) % 2 ^ 64).toNat text).map fun out =>
    { s with out := out, pos := s.pos + text.length }

/-- The loop over the names, with its `break`. -/
def servicesLoop (svc : Bytes → Ping) : List Bytes → Services → Option Services
  | [], s => some s
  | n :: ns, s =>
    match svc n with
    | .absent => servicesLoop svc ns s
    | .failed => servicesLoop svc ns { s with pingFail := s.pingFail + 1 }
    | .answered =>
      let s1 : Services := { s with found := s.found + 1 }
      ((if s.found ≠ 0 then s1.print (lit ",") else some s1).bind (Services.print · n)).bind fun s =>
        if s.pos > 4096 - 256 then some s else servicesLoop svc ns s

/-- `command_services`: the text it sends. -/
def commandServices (svc : Bytes → Ping) (out : Bytes) : Option Bytes :=
  let start : Services := { out := out, pos := 0, found := 0, pingFail := 0 }
  ((start.print (lit "tested=" ++ ofInt agentNames.length ++ lit "\nfound=")).bind
    (servicesLoop svc (agentNames.map lit))).bind fun s =>
      (s.print (lit "\ncount=" ++ ofInt s.found ++ lit "\nping_fail=" ++ ofInt s.pingFail ++ lit "\n")).map
        fun s => cstr s.out

/-! ### The app's list -/

/-- The loop of `app_service_map` for a list of `cap` bytes: the list and the two counts. -/
def appServiceLoop (svc : Bytes → Ping) (cap : ℕ) :
    List Bytes → Bytes × ℕ → ℕ × ℕ → Option (Bytes × ℕ × ℕ)
  | [], (list, _), (found, pok) => some (list, found, pok)
  | n :: ns, st, (found, pok) =>
    if svc n = .answered then
      (if cap > 1 then (putMember cap 44 n st).bind fun st => (store st.1 st.2 0).map fun l => (l, st.2)
        else some st).bind fun st => appServiceLoop svc cap ns st (found + 1, pok + 1)
    else appServiceLoop svc cap ns st (found, pok)

/-- `app_service_map(list, cap, &ping_ok)`: the list, the returned count, and `ping_ok`. -/
def appServiceMap (svc : Bytes → Ping) (list : Bytes) (cap : ℕ) : Option (Bytes × ℕ × ℕ) :=
  (if cap > 0 then store list 0 0 else some list).bind fun list =>
    appServiceLoop svc cap (gKnownServices.map lit) (list, 0) (0, 0)

/-- `csv_has_token`: the loop visits the segments between the commas. -/
def csvHasToken (csv token : Bytes) : Bool :=
  token != [] && (scan 44 csv).any fun s => s.length == token.length && s == token

/-! ### The report -/

/-- The bytes `trim_line` takes off. -/
def isLineEnd (c : UInt8) : Bool := c == 10 || c == 13 || c == 32 || c == 9

/-- `trim_line`. -/
def trimLine (s : Bytes) : Bytes := s.rdropWhile isLineEnd

/-- The end of `bridge_request` when the agent has sent `sent` over an open connection: the code and
`out`. -/
def bridgeReply (sent : Bytes) (cap : ℕ) : ℤ × Bytes :=
  let got := sent.take (cap - 1)
  let out := trimLine (cstr got)
  if got = [] then (-4, out)
  else if strstr out (lit "ERR auth-required-or-failed") then (403, out)
  else (0, out)

/-- `report_append` on `g_report`. -/
def reportAppend (report s : Bytes) : Bytes := report ++ s.take (65535 - report.length)

/-- The test of the `binder.shell_only` loop. -/
def onlyIn (shellFound appFound n : Bytes) : Bool := csvHasToken shellFound n && !csvHasToken appFound n

/-- The pieces of the `binder.shell_only` loop; `any` counts the names so far. -/
def shellOnlyLoop (shellFound appFound : Bytes) : List Bytes → ℕ → List Bytes
  | [], any => if any = 0 then [lit "none"] else []
  | n :: ns, any =>
    if onlyIn shellFound appFound n then
      (if any ≠ 0 then [lit ",", n] else [n]) ++ shellOnlyLoop shellFound appFound ns (any + 1)
    else shellOnlyLoop shellFound appFound ns any

/-- What `build_full_report` appends for the binder lines. -/
def binderPieces (appCount : ℕ) (appFound shellCount shellFound : Bytes) : List Bytes :=
  [lit "binder.app_visible=", ofInt appCount, lit "/36\n", lit "binder.shell_visible=", shellCount,
    lit "/36\n", lit "binder.shell_only="] ++
    shellOnlyLoop shellFound appFound (gKnownServices.map lit) 0 ++ [lit "\n"]

/-- The binder lines of `build_full_report`, from the app's own pings and the agent's answer: `none` when
a store misses its buffer.  `out` and `list` are the two buffers before. -/
def binderSummary (app shell : Bytes → Ping) (out list : Bytes) : Option (List Bytes) :=
  (appServiceMap app list 3072).bind fun (appFound, appCount, _) =>
    (commandServices shell out).map fun sent =>
      let ss := bridgeReply sent 4096
      if ss.1 = 0 then
        binderPieces appCount (cstr appFound) (bridgeField ss.2 (lit "count") (lit "offline") 32).2
          (bridgeField ss.2 (lit "found") [] 3072).2
      else binderPieces appCount (cstr appFound) (lit "offline") []

/-! ### The names -/

/-- The known services that answer. -/
def visible (svc : Bytes → Ping) : List Bytes :=
  (gKnownServices.map lit).filter fun n => svc n = .answered

/-- Both programs know the same services. -/
theorem agentNames_eq : agentNames = gKnownServices := rfl

/-- The bytes that structure the texts: the comma, the equals sign, the line end, NUL, the blank. -/
def separators : List UInt8 := [44, 61, 10, 0, 32]

theorem known_ok : ∀ n ∈ gKnownServices.map lit, n ≠ [] ∧ ∀ c ∈ separators, c ∉ n := by
  have hall : ((gKnownServices.map lit).all fun n => !n.isEmpty &&
      separators.all fun c => !n.contains c) = true := by decide +kernel
  intro n hn
  have hok := List.all_eq_true.mp hall n hn
  rw [Bool.and_eq_true, Bool.not_eq_true', List.isEmpty_eq_false_iff, List.all_eq_true] at hok
  exact ⟨hok.1, fun c hc => by simpa using hok.2 c hc⟩

theorem room_known : room (gKnownServices.map lit) = 418 := by decide +kernel

theorem known_nodup : (gKnownServices.map lit).Nodup := by decide +kernel

theorem visible_ok {svc : Bytes → Ping} : ∀ n ∈ visible svc, n ≠ [] ∧ ∀ c ∈ separators, c ∉ n :=
  fun n hn => known_ok n (List.mem_of_mem_filter hn)

theorem visible_nodup (svc : Bytes → Ping) : (visible svc).Nodup := known_nodup.filter _

/-- The names joined by commas. -/
def joined (names : List Bytes) : Bytes := [44].intercalate names

theorem foldl_push_visible (svc : Bytes → Ping) :
    (visible svc).foldl (push 44) [] = joined (visible svc) :=
  foldl_push_eq_intercalate fun n hn => (visible_ok n hn).1

/-- The comma is the only separator of a joined list. -/
theorem notMem_joined {svc : Bytes → Ping} {c : UInt8} (hc : c ∈ separators) (h44 : c ≠ 44) :
    c ∉ joined (visible svc) :=
  notMem_intercalate (by simpa using h44) fun n hn => (visible_ok n hn).2 c hc

theorem length_joined_lt (svc : Bytes → Ping) : (joined (visible svc)).length < 419 := by
  rw [← foldl_push_visible]
  refine length_lt_of_weight_le ?_ (by norm_num)
  have h1 := weight_foldl_push_le 44 (visible svc) []
  have h2 := room_filter_le (fun n => svc n = .answered) (gKnownServices.map lit)
  have h3 : weight [] = 0 := rfl
  rw [room_known] at h2
  have h4 : room (visible svc) ≤ 418 := h2
  omega

theorem length_visible_le (svc : Bytes → Ping) : (visible svc).length ≤ 36 :=
  (List.length_filter_le _ _).trans (le_of_eq rfl)

theorem notMem_ofInt {x : ℤ} {c : UInt8} (hc : c ∈ separators) : c ∉ ofInt x := by
  have hplain : ∀ c ∈ separators, c ≠ 45 ∧ isDigit c = false := by decide +kernel
  obtain ⟨h45, hdigit⟩ := hplain c hc
  intro hmem
  rcases isDigit_of_mem_ofInt hmem with h | h
  · exact h45 h
  · rw [hdigit] at h
    exact Bool.noConfusion h

/-- A rendered count ends with a digit. -/
theorem ofInt_eq_concat (m : ℕ) : ∃ w d, ofInt (m : ℤ) = w ++ [d] ∧ isDigit d = true := by
  have hm : ofInt (m : ℤ) = ofNat m := by rw [ofInt, if_neg (by omega), Int.natAbs_natCast]
  rcases List.eq_nil_or_concat (ofNat m) with h | ⟨w, d, h⟩
  · exact absurd h (ofNat_ne_nil m)
  · refine ⟨w, d, by rw [hm, h, List.concat_eq_append], isDigit_of_mem_ofNat (n := m) ?_⟩
    rw [h]
    simp

/-! ### The agent's reply -/

/-- What `command_services` has printed so far. -/
structure Printed (t : Bytes) (s : Services) : Prop where
  length_eq : s.out.length = 4096
  pos_eq : s.pos = t.length
  isPrefix : t <+: s.out

theorem Printed.print {t : Bytes} {s : Services} (h : Printed t s) (text : Bytes)
    (hfit : t.length + text.length < 4096) : ∃ rest s', s.print text = some s' ∧
      s'.out = t ++ text ++ 0 :: rest ∧ s'.found = s.found ∧ s'.pingFail = s.pingFail ∧
        Printed (t ++ text) s' := by
  obtain ⟨rest, hrest⟩ := h.isPrefix
  have hlen := h.length_eq
  rw [← hrest, List.length_append] at hlen
  have hsize : ((4096 - (s.pos : ℤ)) % 2 ^ 64).toNat = 4096 - t.length := by
    rw [h.pos_eq, Int.emod_eq_of_lt (by omega) (by omega)]
    omega
  obtain ⟨rest', hs, hs'⟩ := snprintf_append t rest (4096 - t.length) text
    (by omega) (by omega)
  rw [cut_of_lt (by omega)] at hs hs'
  refine ⟨rest', { s with out := t ++ text ++ 0 :: rest', pos := s.pos + text.length }, ?_, rfl, rfl, rfl,
    ?_, ?_, List.prefix_append _ _⟩
  · rw [Services.print, hsize, ← hrest, h.pos_eq, hs]
    rfl
  · rw [hs', hrest, h.length_eq]
  · rw [List.length_append, h.pos_eq]

/-- **One name**: a comma unless it is the first, then the name. -/
theorem Printed.member {head j n : Bytes} {s : Services} (h : Printed (head ++ j) s)
    (hj : s.found ≠ 0 ↔ j ≠ []) (hfit : head.length + j.length + 1 + n.length < 3800) :
    ∃ s', (if s.found ≠ 0 then Services.print { s with found := s.found + 1 } (lit ",")
        else some { s with found := s.found + 1 }).bind (Services.print · n) = some s' ∧
      Printed (head ++ push 44 j n) s' ∧ s'.found = s.found + 1 ∧ s'.pingFail = s.pingFail := by
  have h1 : Printed (head ++ j) { s with found := s.found + 1 } := ⟨h.length_eq, h.pos_eq, h.isPrefix⟩
  have hlen : (head ++ j).length = head.length + j.length := List.length_append
  by_cases hfound : s.found ≠ 0
  · have hcomma : (lit ",").length = 1 := rfl
    obtain ⟨-, s2, hs2, -, hf2, hp2, h2⟩ := h1.print (lit ",") (by omega)
    have hlen2 : (head ++ j ++ lit ",").length = head.length + j.length + 1 := by
      rw [List.length_append, hlen, hcomma]
    obtain ⟨-, s3, hs3, -, hf3, hp3, h3⟩ := h2.print n (by omega)
    refine ⟨s3, ?_, ?_, hf3.trans hf2, hp3.trans hp2⟩
    · rw [if_pos hfound, hs2, Option.bind_some, hs3]
    · have hpush : head ++ push 44 j n = head ++ j ++ lit "," ++ n := by
        rw [push, if_neg (hj.mp hfound), List.append_assoc, List.append_assoc, List.append_assoc]
        rfl
      rwa [hpush]
  · have hnil : j = [] := not_not.mp fun hne => hfound (hj.mpr hne)
    subst hnil
    rw [List.append_nil] at h1
    obtain ⟨-, s3, hs3, -, hf3, hp3, h3⟩ := h1.print n (by omega)
    refine ⟨s3, ?_, ?_, hf3, hp3⟩
    · rw [if_neg hfound, Option.bind_some, hs3]
    · rwa [push, if_pos rfl, List.nil_append]

theorem servicesLoop_eq (svc : Bytes → Ping) : ∀ (ns : List Bytes) {head j : Bytes} {s : Services},
    (∀ n ∈ ns, n ≠ []) → Printed (head ++ j) s → (s.found ≠ 0 ↔ j ≠ []) →
    head.length + j.length + room ns < 3800 →
    ∃ s', servicesLoop svc ns s = some s' ∧
      Printed (head ++ (ns.filter fun n => svc n = .answered).foldl (push 44) j) s' ∧
      s'.found = s.found + (ns.filter fun n => svc n = .answered).length ∧
      s'.pingFail ≤ s.pingFail + ns.length
  | [], head, j, s, _, h, _, _ => ⟨s, rfl, h, rfl, le_rfl⟩
  | n :: ns, head, j, s, hne, h, hj, hroom => by
    have hne' : ∀ m ∈ ns, m ≠ [] := fun m hm => hne m (List.mem_cons_of_mem _ hm)
    have hcons : room (n :: ns) = n.length + 1 + room ns := by
      rw [room, List.map_cons, List.sum_cons, room]
    rw [hcons] at hroom
    rw [servicesLoop, List.length_cons]
    cases hn : svc n with
    | absent =>
      obtain ⟨s', hrun, h', hf, hp⟩ := servicesLoop_eq svc ns hne' h hj (by omega)
      rw [List.filter_cons_of_neg (by simp [hn])]
      exact ⟨s', hrun, h', hf, by omega⟩
    | failed =>
      obtain ⟨s', hrun, h', hf, hp⟩ := servicesLoop_eq svc ns (s := { s with pingFail := s.pingFail + 1 })
        hne' ⟨h.length_eq, h.pos_eq, h.isPrefix⟩ hj (by omega)
      rw [List.filter_cons_of_neg (by simp [hn])]
      exact ⟨s', hrun, h', hf, by dsimp only at hp; omega⟩
    | answered =>
      obtain ⟨s1, hrun1, h1, hf1, hp1⟩ := h.member hj (n := n) (by omega)
      have hpush : (push 44 j n).length ≤ j.length + 1 + n.length := by
        rw [push]
        split_ifs
        · rw [List.length_append]
          omega
        · rw [List.length_append, List.length_append, List.length_singleton]
      have hj1 : s1.found ≠ 0 ↔ push 44 j n ≠ [] := by
        refine iff_of_true (by omega) (List.append_ne_nil_of_right_ne_nil _ (hne n List.mem_cons_self))
      obtain ⟨s', hrun, h', hf, hp⟩ := servicesLoop_eq svc ns hne' h1 hj1 (by omega)
      -- the `break` is out of reach
      have hpos : ¬ s1.pos > 4096 - 256 := by
        rw [h1.pos_eq, List.length_append]
        omega
      rw [List.filter_cons_of_pos (by simp [hn]), List.foldl_cons, List.length_cons]
      refine ⟨s', ?_, h', by omega, by omega⟩
      simp only [hrun1, Option.bind_some, if_neg hpos, hrun]

/-- The lines of the reply before the last. -/
def replyPairs (svc : Bytes → Ping) : List (Bytes × Bytes) :=
  [(lit "tested", lit "36"), (lit "found", joined (visible svc)),
    (lit "count", ofInt (visible svc).length)]

/-- **The reply**: the lines `tested`, `found` and `count` are whole. -/
theorem commandServices_eq (svc : Bytes → Ping) {out : Bytes} (hout : out.length = 4096) :
    ∃ m : ℕ, m ≤ 36 ∧ commandServices svc out =
      some (ideal (renderCalls (replyPairs svc)) ++ lit "ping_fail=" ++ ofInt m ++ lit "\n") := by
  have hstart : Printed [] { out := out, pos := 0, found := 0, pingFail := 0 } :=
    ⟨hout, rfl, List.nil_prefix⟩
  have hhead : (lit "tested=" ++ ofInt agentNames.length ++ lit "\nfound=").length = 16 := by
    decide +kernel
  obtain ⟨-, s1, hs1, -, hf1, hp1, h1⟩ := hstart.print
    (lit "tested=" ++ ofInt agentNames.length ++ lit "\nfound=") (by rw [hhead]; decide)
  rw [List.nil_append] at h1
  obtain ⟨s2, hs2, h2, hf2, hp2⟩ := servicesLoop_eq svc (agentNames.map lit) (j := [])
    (fun n hn => (known_ok n hn).1) (by rwa [List.append_nil]) (by simp [hf1])
    (by rw [hhead, agentNames_eq, room_known]; decide)
  have hfilter : (agentNames.map lit).filter (fun n => svc n = .answered) = visible svc := rfl
  rw [hfilter] at hf2
  rw [hfilter, foldl_push_visible] at h2
  have hfound : s2.found = (visible svc).length := by rw [hf2, hf1, Nat.zero_add]
  have hpf : s2.pingFail ≤ 36 := by
    rw [hp1, Nat.zero_add] at hp2
    exact hp2
  -- the last line has at most two digits in either number
  have hcount : (ofInt (s2.found : ℤ)).length ≤ 3 := length_ofInt_le (k := 2) (by norm_num)
    (by have := length_visible_le svc; rw [hfound]; omega)
  have hping : (ofInt (s2.pingFail : ℤ)).length ≤ 3 := length_ofInt_le (k := 2) (by norm_num) (by omega)
  have hj := length_joined_lt svc
  have hc : (lit "\ncount=").length = 7 := rfl
  have hp : (lit "\nping_fail=").length = 11 := rfl
  have hnl : (lit "\n").length = 1 := rfl
  obtain ⟨rest, s3, hs3, hout3, -, -, -⟩ := h2.print
    (lit "\ncount=" ++ ofInt s2.found ++ lit "\nping_fail=" ++ ofInt s2.pingFail ++ lit "\n")
    (by simp only [List.length_append] at hhead ⊢; omega)
  have h0 : 0 ∉ lit "tested=" ++ ofInt agentNames.length ++ lit "\nfound=" ++ joined (visible svc) ++
      (lit "\ncount=" ++ ofInt s2.found ++ lit "\nping_fail=" ++ ofInt s2.pingFail ++ lit "\n") := by
    have hjoined : 0 ∉ joined (visible svc) :=
      notMem_joined (by decide) (by decide)
    simp only [List.mem_append, zero_notMem_ofInt, hjoined]
    decide
  refine ⟨s2.pingFail, hpf, ?_⟩
  rw [commandServices, hs1, Option.bind_some, hs2, Option.bind_some, hs3, Option.map_some, hout3,
    cstr_append rest h0, hfound]
  have htested : lit "tested=" ++ ofInt agentNames.length ++ lit "\nfound=" =
      kvLine (lit "tested") (lit "36") ++ (lit "found" ++ [61]) := by decide +kernel
  have hcl : lit "\ncount=" = 10 :: (lit "count" ++ [61]) := rfl
  have hpl : lit "\nping_fail=" = 10 :: lit "ping_fail=" := rfl
  rw [htested, hcl, hpl]
  simp [ideal, renderCalls, replyPairs, Append.line, kvLine]

/-! ### The app's side -/

theorem appServiceLoop_eq (svc : Bytes → Ping) {cap : ℕ} (hcap : 1 < cap) : ∀ (ns : List Bytes)
    {full rest : Bytes} {st : Bytes × ℕ} (found pok : ℕ), Holds cap full st →
    st.1 = cut cap full ++ 0 :: rest →
    ∃ out rest', appServiceLoop svc cap ns st (found, pok) =
        some (out, found + (ns.filter fun n => svc n = .answered).length,
          pok + (ns.filter fun n => svc n = .answered).length) ∧
      out = cut cap ((ns.filter fun n => svc n = .answered).foldl (push 44) full) ++ 0 :: rest'
  | [], full, rest, (out, pos), found, pok, _, hout => ⟨out, rest, rfl, hout⟩
  | n :: ns, full, rest, st, found, pok, h, hout => by
    rw [appServiceLoop]
    by_cases hn : svc n = .answered
    · obtain ⟨st1, hput, h1⟩ := h.putMember 44 n
      obtain ⟨rest1, hstore, h2⟩ := h1.finish (by omega)
      obtain ⟨out', rest', hrun, hout'⟩ := appServiceLoop_eq svc hcap ns (found + 1) (pok + 1) h2 rfl
      rw [List.filter_cons_of_pos (by simpa using hn), List.foldl_cons, List.length_cons]
      refine ⟨out', rest', ?_, hout'⟩
      rw [if_pos hn, if_pos hcap, hput, Option.bind_some, hstore, Option.map_some, Option.bind_some, hrun]
      simp only [Option.some.injEq, Prod.mk.injEq, true_and]
      omega
    · rw [List.filter_cons_of_neg (by simpa using hn), if_neg hn]
      exact appServiceLoop_eq svc hcap ns found pok h hout

/-- **The app's own map**: both counts are the number of services that answer, and the list is theirs. -/
theorem appServiceMap_eq (svc : Bytes → Ping) {list : Bytes} (hlist : list.length = 3072) :
    ∃ out, appServiceMap svc list 3072 = some (out, (visible svc).length, (visible svc).length) ∧
      cstr out = joined (visible svc) := by
  obtain ⟨rest, hstore, h⟩ := (holds_nil hlist).finish (by norm_num)
  obtain ⟨out, rest', hrun, hout⟩ := appServiceLoop_eq svc (by norm_num) (gKnownServices.map lit) 0 0
    h rfl
  have hj := length_joined_lt svc
  have hfilter : (gKnownServices.map lit).filter (fun n => svc n = .answered) = visible svc := rfl
  rw [hfilter, Nat.zero_add] at hrun
  rw [hfilter, foldl_push_visible, cut_of_lt (by omega)] at hout
  refine ⟨out, ?_, ?_⟩
  · rw [appServiceMap, if_pos (by norm_num), hstore, Option.bind_some, hrun]
  · rw [hout, cstr_append rest' (notMem_joined (by decide) (by decide))]

/-- `csv_has_token` finds exactly the names of a joined list. -/
theorem csvHasToken_iff (svc : Bytes → Ping) {n : Bytes} (hn : n ≠ []) :
    csvHasToken (joined (visible svc)) n = true ↔ n ∈ visible svc := by
  have hentries : entries 44 (joined (visible svc)) = visible svc := by
    rw [← foldl_push_visible, entries_foldl_push _ _ fun x hx =>
        ⟨(visible_ok x hx).2 44 (by decide), (visible_ok x hx).1⟩,
      entries_nil, List.nil_append]
  have hscan : n ∈ scan 44 (joined (visible svc)) ↔ n ∈ visible svc := by rw [mem_scan hn, hentries]
  rw [← hscan, csvHasToken, Bool.and_eq_true, List.any_eq_true]
  constructor
  · rintro ⟨-, s, hs, heq⟩
    rw [Bool.and_eq_true, beq_iff_eq, beq_iff_eq] at heq
    exact heq.2 ▸ hs
  · intro hmem
    exact ⟨by simpa using hn, n, hmem, by simp⟩

/-! ### The lines -/

/-- The shell's services that the app does not see. -/
def shellOnly (app shell : Bytes → Ping) : List Bytes :=
  (visible shell).filter fun n => !(visible app).contains n

/-- The text behind `binder.shell_only=`. -/
def shellOnlyText (app shell : Bytes → Ping) : Bytes :=
  if shellOnly app shell = [] then lit "none" else joined (shellOnly app shell)

theorem flatten_shellOnlyLoop {a b : Bytes} : ∀ (ns : List Bytes) (out : Bytes) (any : ℕ),
    (∀ n ∈ ns, n ≠ []) → (any ≠ 0 ↔ out ≠ []) →
    out ++ (shellOnlyLoop a b ns any).flatten =
      if any = 0 ∧ (ns.filter (onlyIn a b)) = [] then lit "none"
      else (ns.filter (onlyIn a b)).foldl (push 44) out
  | [], out, any, _, hany => by
    by_cases h0 : any = 0
    · have hout : out = [] := not_not.mp fun hne => hany.mpr hne h0
      simp [shellOnlyLoop, h0, hout]
    · simp [shellOnlyLoop, h0]
  | n :: ns, out, any, hne, hany => by
    have hne' : ∀ m ∈ ns, m ≠ [] := fun m hm => hne m (List.mem_cons_of_mem _ hm)
    rw [shellOnlyLoop]
    by_cases hn : onlyIn a b n = true
    · have hpush : push 44 out n ≠ [] :=
        List.append_ne_nil_of_right_ne_nil _ (hne n List.mem_cons_self)
      have ih := flatten_shellOnlyLoop (a := a) (b := b) ns _ (any + 1) hne'
        (iff_of_true (Nat.succ_ne_zero any) hpush)
      have hnot : ¬ (any = 0 ∧ n :: ns.filter (onlyIn a b) = []) := fun h => List.cons_ne_nil _ _ h.2
      rw [if_neg fun h => Nat.succ_ne_zero any h.1] at ih
      rw [if_pos hn, List.filter_cons_of_pos hn, List.foldl_cons, ← ih, if_neg hnot]
      by_cases h0 : any ≠ 0
      · rw [if_pos h0, push, if_neg (hany.mp h0)]
        simp [lit]
      · have hout : out = [] := not_not.mp fun h => h0 (hany.mpr h)
        rw [if_neg h0, push, if_pos hout]
        simp
    · rw [if_neg hn, List.filter_cons_of_neg hn]
      exact flatten_shellOnlyLoop ns _ _ hne' hany

/-- A text without blanks and NUL that ends in no trimmed byte passes `bridge_request` as it is. -/
theorem bridgeReply_eq {u : Bytes} {d : UInt8} (cap : ℕ) (h0 : 0 ∉ u ++ [d]) (hsp : 32 ∉ u ++ [d])
    (hd : isDigit d = true) (hcap : u.length + 2 < cap) :
    bridgeReply (u ++ [d] ++ lit "\n") cap = (0, u ++ [d]) := by
  have hnl : lit "\n" = [10] := rfl
  have htake : (u ++ [d] ++ [10]).take (cap - 1) = u ++ [d] ++ [10] :=
    List.take_of_length_le (by simp only [List.length_append, List.length_singleton]; omega)
  have h0' : 0 ∉ u ++ [d] ++ [10] := by
    rw [List.mem_append]
    exact not_or.mpr ⟨h0, by decide⟩
  have hkeep : ¬ isLineEnd d = true := by
    intro h
    simp only [isLineEnd, Bool.or_eq_true, beq_iff_eq] at h
    rcases h with ((rfl | rfl) | rfl) | rfl <;> exact absurd hd (by decide)
  have htrim : trimLine (u ++ [d] ++ [10]) = u ++ [d] := by
    rw [trimLine, List.rdropWhile_concat_pos _ _ _ (by decide), List.rdropWhile_concat_neg _ _ _ hkeep]
  have herr : ¬ strstr (u ++ [d]) (lit "ERR auth-required-or-failed") = true := fun h =>
    hsp ((strstr_iff.mp h).subset (by decide))
  rw [bridgeReply, hnl, htake, cstr_of_nulFree h0', htrim, if_neg (by simp), if_neg herr]

theorem replyPairs_ok (svc : Bytes → Ping) : PairsOk (replyPairs svc) := by
  have hkeys : (replyPairs svc).map Prod.fst = [lit "tested", lit "found", lit "count"] := rfl
  constructor
  · rw [hkeys]
    decide
  · intro kv hkv
    have hk := List.mem_map_of_mem (f := Prod.fst) hkv
    rw [hkeys] at hk
    have hall : ∀ k ∈ [lit "tested", lit "found", lit "count"], 61 ∉ k ∧ 10 ∉ k := by decide
    exact hall _ hk
  · intro kv hkv
    simp only [replyPairs, List.mem_cons, List.not_mem_nil, or_false] at hkv
    rcases hkv with rfl | rfl | rfl
    · show 10 ∉ lit "36"
      decide
    · exact notMem_joined (by decide) (by decide)
    · show 10 ∉ ofInt ((visible svc).length : ℤ)
      exact notMem_ofInt (by decide)

theorem length_ideal_replyPairs (svc : Bytes → Ping) :
    (ideal (renderCalls (replyPairs svc))).length =
      24 + (joined (visible svc)).length + (ofInt (visible svc).length).length := by
  have h1 : (lit "tested").length = 6 := rfl
  have h2 : (lit "found").length = 5 := rfl
  have h3 : (lit "count").length = 5 := rfl
  have h4 : (lit "36").length = 2 := rfl
  simp only [ideal, renderCalls, replyPairs, List.map_cons, List.map_nil, List.flatMap_cons,
    List.flatMap_nil, Append.line, kvLine, Option.getD_some, List.length_append, List.length_cons,
    List.length_nil, h1, h2, h3, h4]
  omega

/-- No blank and no NUL in the reply. -/
theorem notMem_reply (svc : Bytes → Ping) {c : UInt8} (hc : c = 0 ∨ c = 32) (m : ℕ) :
    c ∉ ideal (renderCalls (replyPairs svc)) ++ lit "ping_fail=" ++ ofInt m := by
  have hsep : c ∈ separators ∧ c ≠ 44 := by
    rcases hc with rfl | rfl
    · decide
    · decide
  have hint (x : ℤ) : c ∉ ofInt x := notMem_ofInt hsep.1
  have hj : c ∉ joined (visible svc) := notMem_joined hsep.1 hsep.2
  simp only [ideal, renderCalls, replyPairs, List.map_cons, List.map_nil, List.flatMap_cons,
    List.flatMap_nil, Append.line, kvLine, Option.getD_some, List.mem_append, List.mem_cons, hint, hj]
  rcases hc with rfl | rfl
  · decide
  · decide

/-- The first line with `count=` is the one of that key: no name and no key of another line ends so. -/
theorem afterFirst_count (svc : Bytes → Ping) :
    afterFirst (fieldPattern (lit "count")) ((replyPairs svc).map pairLine) =
      some (ofInt (visible svc).length) := by
  refine afterFirst_of_clear [(lit "tested", lit "36"), (lit "found", joined (visible svc))] []
    (by decide) fun x hx => ?_
  rcases List.mem_pair.mp hx with rfl | rfl
  · decide
  · have h61 : 61 ∉ lit "found" := by decide
    have hsuffix : ¬ lit "count" <:+ lit "found" := by decide
    have hj61 : 61 ∉ joined (visible svc) := notMem_joined (by decide) (by decide)
    exact (fieldPattern_infix_iff (by decide) h61 hj61).not.mpr hsuffix

theorem afterFirst_found (svc : Bytes → Ping) :
    afterFirst (fieldPattern (lit "found")) ((replyPairs svc).map pairLine) =
      some (joined (visible svc)) := by
  refine afterFirst_of_clear [(lit "tested", lit "36")] [(lit "count", ofInt (visible svc).length)]
    (by decide) fun x hx => ?_
  obtain rfl := List.mem_singleton.mp hx
  decide

/-- The reply keeps its fields through `bridge_request` and `bridge_field`. -/
theorem bridgeReply_fields (svc : Bytes → Ping) {out sent : Bytes} (hout : out.length = 4096)
    (hsent : commandServices svc out = some sent) :
    (bridgeReply sent 4096).1 = 0 ∧
      (bridgeField (bridgeReply sent 4096).2 (lit "count") (lit "offline") 32).2 =
        ofInt (visible svc).length ∧
      (bridgeField (bridgeReply sent 4096).2 (lit "found") [] 3072).2 = joined (visible svc) := by
  obtain ⟨m, hm, heq⟩ := commandServices_eq svc hout
  rw [hsent, Option.some.injEq] at heq
  obtain ⟨w, d, hw, hd⟩ := ofInt_eq_concat m
  have hlen := length_ideal_replyPairs svc
  have hj := length_joined_lt svc
  have hcount : (ofInt ((visible svc).length : ℤ)).length ≤ 3 := length_ofInt_le (k := 2) (by norm_num)
    (by have := length_visible_le svc; omega)
  have hping : (ofInt (m : ℤ)).length ≤ 3 := length_ofInt_le (k := 2) (by norm_num) (by omega)
  have hlit : (lit "ping_fail=").length = 10 := rfl
  have h0 := notMem_reply svc (Or.inl rfl) m
  have hsp := notMem_reply svc (Or.inr rfl) m
  rw [hw, List.length_append, List.length_singleton] at hping
  rw [hw, ← List.append_assoc] at h0 hsp
  have hreply : bridgeReply sent 4096 =
      (0, ideal (renderCalls (replyPairs svc)) ++ (lit "ping_fail=" ++ ofInt m)) := by
    have := bridgeReply_eq 4096 h0 hsp hd (by simp only [List.length_append]; omega)
    rw [heq, hw, ← List.append_assoc, this]
    simp
  have hok := replyPairs_ok svc
  rw [hreply]
  refine ⟨rfl, ?_, ?_⟩
  · rw [bridgeField_append hok (by decide) _ (by norm_num) _ (afterFirst_count svc), answer,
      cut_of_lt (by omega)]
  · rw [bridgeField_append hok (by decide) _ (by norm_num) _ (afterFirst_found svc), answer,
      cut_of_lt (by omega)]

theorem mem_shellOnly {app shell : Bytes → Ping} {n : Bytes} :
    n ∈ shellOnly app shell ↔ n ∈ visible shell ∧ n ∉ visible app := by
  rw [shellOnly, List.mem_filter, Bool.not_eq_true', ← Bool.not_eq_true, List.contains_iff_mem]

theorem shellOnly_eq_nil_iff {app shell : Bytes → Ping} :
    shellOnly app shell = [] ↔ ∀ n ∈ visible shell, n ∈ visible app := by
  rw [shellOnly, List.filter_eq_nil_iff]
  simp only [Bool.not_eq_true', Bool.not_eq_false, List.contains_iff_mem]

/-- A single service could only read as `none` by its name, and none has it. -/
theorem shellOnlyText_eq_none_iff {app shell : Bytes → Ping} :
    shellOnlyText app shell = lit "none" ↔ ∀ n ∈ visible shell, n ∈ visible app := by
  rw [← shellOnly_eq_nil_iff, shellOnlyText]
  refine ⟨fun h => ?_, fun h => if_pos h⟩
  by_contra hne
  rw [if_neg hne] at h
  obtain ⟨n, ns, hcons⟩ := List.exists_cons_of_ne_nil hne
  have hmem : n ∈ shellOnly app shell := by rw [hcons]; exact List.mem_cons_self
  have hknown : n ∈ gKnownServices.map lit := List.mem_of_mem_filter (mem_shellOnly.mp hmem).1
  cases ns with
  | nil =>
    rw [hcons, joined, List.intercalate_singleton] at h
    rw [h] at hknown
    exact absurd hknown (by decide +kernel)
  | cons m ns =>
    have hcomma : 44 ∈ lit "none" := by
      rw [← h, hcons, joined, List.intercalate_cons_cons]
      simp
    exact absurd hcomma (by decide)

/-- The names the loop over both lists picks. -/
theorem filter_onlyIn (app shell : Bytes → Ping) :
    (gKnownServices.map lit).filter (onlyIn (joined (visible shell)) (joined (visible app))) =
      shellOnly app shell := by
  have hfilter : shellOnly app shell = ((gKnownServices.map lit).filter fun n =>
      shell n = .answered).filter fun n => !(visible app).contains n := rfl
  rw [hfilter, List.filter_filter]
  refine List.filter_congr fun n hn => ?_
  have hne := (known_ok n hn).1
  have hshell : n ∈ visible shell ↔ shell n = .answered := by
    rw [visible, List.mem_filter, decide_eq_true_eq]
    exact and_iff_right hn
  rw [Bool.eq_iff_iff, onlyIn, Bool.and_eq_true, Bool.and_eq_true, Bool.not_eq_true',
    Bool.not_eq_true', ← Bool.not_eq_true, ← Bool.not_eq_true, csvHasToken_iff shell hne,
    csvHasToken_iff app hne, hshell, List.contains_iff_mem, decide_eq_true_eq, and_comm]

theorem foldl_reportAppend : ∀ (pieces : List Bytes) {report : Bytes}, report.length ≤ 65535 →
    pieces.foldl reportAppend report = report ++ pieces.flatten.take (65535 - report.length)
  | [], report, _ => by simp
  | s :: pieces, report, h => by
    have hlen : (reportAppend report s).length ≤ 65535 := by
      rw [reportAppend, List.length_append, List.length_take]
      omega
    have hleft : 65535 - (reportAppend report s).length = 65535 - report.length - s.length := by
      rw [reportAppend, List.length_append, List.length_take]
      omega
    rw [List.foldl_cons, foldl_reportAppend pieces hlen, hleft, List.flatten_cons, List.take_append,
      reportAppend, List.append_assoc]

/-- **The privilege diff is exact**: however the services behave towards the app and towards the shell,
the binder lines carry the number of services each of them sees, and behind `binder.shell_only=` the names
only the shell sees, each once and in the known order, or `none` exactly when there is no such name. -/
theorem binderSummary_eq (app shell : Bytes → Ping) {out list : Bytes} (hout : out.length = 4096)
    (hlist : list.length = 3072) :
    ∃ pieces, binderSummary app shell out list = some pieces ∧
      pieces.flatten = lit "binder.app_visible=" ++ ofInt (visible app).length ++
        lit "/36\nbinder.shell_visible=" ++ ofInt (visible shell).length ++
        lit "/36\nbinder.shell_only=" ++ shellOnlyText app shell ++ lit "\n" ∧
      (shellOnly app shell).Nodup ∧ List.Sublist (shellOnly app shell) (gKnownServices.map lit) ∧
      (∀ n, n ∈ shellOnly app shell ↔ n ∈ visible shell ∧ n ∉ visible app) ∧
      (shellOnlyText app shell = lit "none" ↔ ∀ n ∈ visible shell, n ∈ visible app) ∧
      ∀ report, report.length ≤ 65535 → pieces.foldl reportAppend report =
        report ++ pieces.flatten.take (65535 - report.length) := by
  obtain ⟨appFound, hmap, happ⟩ := appServiceMap_eq app hlist
  obtain ⟨m, -, hsent⟩ := commandServices_eq shell hout
  obtain ⟨hzero, hcount, hfound⟩ := bridgeReply_fields shell hout hsent
  have hloop := flatten_shellOnlyLoop (a := joined (visible shell)) (b := joined (visible app))
    (gKnownServices.map lit) [] 0 (fun n hn => (known_ok n hn).1) (by simp)
  have hnames : ∀ n ∈ shellOnly app shell, n ≠ [] := fun n hn =>
    (visible_ok n (mem_shellOnly.mp hn).1).1
  rw [filter_onlyIn, List.nil_append, foldl_push_eq_intercalate hnames] at hloop
  have htext : (shellOnlyLoop (joined (visible shell)) (joined (visible app)) (gKnownServices.map lit)
      0).flatten = shellOnlyText app shell := by
    rw [hloop, shellOnlyText]
    simp only [true_and]
    rfl
  refine ⟨binderPieces (visible app).length (joined (visible app)) (ofInt (visible shell).length)
    (joined (visible shell)), ?_, ?_, (visible_nodup shell).filter _, ?_, fun n => mem_shellOnly,
    shellOnlyText_eq_none_iff, fun report h => foldl_reportAppend _ h⟩
  · rw [binderSummary, hmap, Option.bind_some]
    dsimp only
    rw [hsent, Option.map_some, if_pos hzero, hcount, hfound, happ]
  · have h36 : lit "/36\nbinder.shell_visible=" = lit "/36\n" ++ lit "binder.shell_visible=" := by
      decide +kernel
    have h36' : lit "/36\nbinder.shell_only=" = lit "/36\n" ++ lit "binder.shell_only=" := by
      decide +kernel
    rw [binderPieces, List.flatten_append, List.flatten_append, htext, h36, h36']
    simp only [List.flatten_cons, List.flatten_nil, List.append_nil, List.append_assoc]
  · exact List.filter_sublist.trans List.filter_sublist

/-- Both see `activity`, only the shell `package` and `stats`; `stats` does not answer the app's ping. -/
theorem binderSummary_eq_two :
    ∃ pieces, binderSummary
        (fun n => if n = lit "activity" then .answered else if n = lit "stats" then .failed else .absent)
        (fun n => if n ∈ [lit "activity", lit "package", lit "stats"] then .answered else .absent)
        (List.replicate 4096 7) (List.replicate 3072 0) = some pieces ∧
      pieces.flatten =
        lit "binder.app_visible=1/36\nbinder.shell_visible=3/36\nbinder.shell_only=package,stats\n" := by
  obtain ⟨pieces, hrun, htext, -⟩ := binderSummary_eq
    (fun n => if n = lit "activity" then .answered else if n = lit "stats" then .failed else .absent)
    (fun n => if n ∈ [lit "activity", lit "package", lit "stats"] then .answered else .absent)
    (List.length_replicate (n := 4096) (a := (7 : UInt8)))
    (List.length_replicate (n := 3072) (a := (0 : UInt8)))
  exact ⟨pieces, hrun, htext.trans (by decide +kernel)⟩

end ZorinTrust
