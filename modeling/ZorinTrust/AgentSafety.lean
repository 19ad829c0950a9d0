import ZorinTrust.AgentCommands

/-!
# What the shell agent holds and touches

Every function of the agent gives back the process as it found it, whatever the device answers, and stays
within the fixed diagnostics of `kernel`; each lemma says so for one function, together with the size of
the texts it returns.
-/

namespace ZorinTrust.Bridge

open CText Numeral Calls Calls.Monitor Buffer

variable {s : Proc} {admits : Bytes → Prop} {α : Type} {Q : α → Proc → Prop}

/-- A text that fits a buffer of `cap` bytes. -/
def Fits (cap : ℕ) (t : Bytes) : Prop := t.length < cap ∧ 0 ∉ t

theorem fits_cut {cap : ℕ} {t : Bytes} (hcap : 0 < cap) (h0 : 0 ∉ t) : Fits cap (cut cap t) :=
  ⟨length_cut_lt hcap t, fun h => h0 (List.mem_of_mem_take h)⟩

theorem fits_errnoText {cap : ℕ} (hcap : 0 < cap) (e : ℤ) : Fits cap (errnoText cap e) :=
  fits_cut hcap (List.not_mem_append (by decide) (zero_notMem_ofInt e))

theorem fits_nil {cap : ℕ} (hcap : 0 < cap) : Fits cap [] := ⟨hcap, List.not_mem_nil⟩

theorem fits_trim {cap : ℕ} {t : Bytes} (h : Fits cap t) : Fits cap (trim t) :=
  ⟨(List.rdropWhile_prefix isTrimmed t).length_le.trans_lt h.1, zero_notMem_trim h.2⟩

theorem fits_cstr {cap : ℕ} {t : Bytes} (h : t.length < cap) : Fits cap (cstr t) :=
  ⟨(cstr_isPrefix t).length_le.trans_lt h, zero_notMem_cstr t⟩

/-- What gives the process back loses no child. -/
theorem left_of_restores {p : AgentM α} {R : α → Prop} (h : (kernel admits).Restores s p R) :
    (kernel admits).wp p (fun a s' => s.Left s' ∧ R a) s := h.wp fun _ ha => ⟨.refl s, ha⟩

/-! ### Single calls -/

theorem restores_errno : (kernel admits).Restores s lastErrno fun e => -2 ^ 31 < e ∧ e < 2 ^ 31 :=
  ⟨trivial, fun _ h => ⟨rfl, h⟩⟩

theorem restores_getuid : (kernel admits).Restores s (sys .getuid) IsLong :=
  ⟨trivial, fun _ h => ⟨rfl, h⟩⟩

theorem restores_getpid : (kernel admits).Restores s (sys .getpid) IsLong :=
  ⟨trivial, fun _ h => ⟨rfl, h⟩⟩

theorem restores_garbage (size : ℕ) :
    (kernel admits).Restores s (sys (.garbage size)) fun b => b.length = size :=
  ⟨trivial, fun _ h => ⟨rfl, h⟩⟩

theorem restores_orFault {o : Option α} {R : α → Prop} (h : ∃ a, o = some a ∧ R a) :
    (kernel admits).Restores s (orFault o) R := by
  obtain ⟨a, rfl, ha⟩ := h
  exact restores_pure ha

theorem wp_orFault {o : Option α} {a : α} (h : o = some a) (hQ : Q a s) :
    (kernel admits).wp (orFault o) Q s := by
  subst h
  exact hQ

theorem wp_read {fd : ℤ} {count : ℕ} {Q : Option Bytes → Proc → Prop} (hfd : s.fds fd = some .file)
    (hQ : ∀ b : Option Bytes, (∀ t ∈ b, t.length ≤ count) → Q b s) :
    (kernel admits).wp (sys (.read fd count)) Q s := by
  refine ⟨.inl hfd, fun b hb => ?_⟩
  have hnext : (kernel admits).next s (.read fd count) b = s := if_neg (by rw [hfd]; decide)
  rw [hnext]
  exact hQ b hb

/-- What is read from a socket is a request. -/
theorem next_read {fd : ℤ} (hfd : s.fds fd = some .socket) (count : ℕ) (b : Option Bytes) :
    (kernel admits).next s (.read fd count) b = s.asked b := if_pos hfd

theorem wp_request {fd : ℤ} {count : ℕ} {Q : Option Bytes → Proc → Prop}
    (hfd : s.fds fd = some .socket)
    (hQ : ∀ b : Option Bytes, (∀ t ∈ b, t.length ≤ count) → Q b (s.asked b)) :
    (kernel admits).wp (sys (.read fd count)) Q s := by
  refine ⟨.inr hfd, fun b hb => ?_⟩
  rw [next_read hfd]
  exact hQ b hb

theorem wp_close {fd : ℤ} {k : Kind} {Q : Unit → Proc → Prop} (hfd : s.fds fd = some k)
    (hk : k ≠ .stdio) (hQ : Q () (s.closed fd)) : (kernel admits).wp (sys (.close fd)) Q s :=
  ⟨⟨k, hfd, hk⟩, fun _ _ => hQ⟩

theorem wp_write {fd : ℤ} {text : Bytes} {Q : Unit → Proc → Prop} (hparent : s.inChild = false)
    (hfd : s.fds fd = some .socket ∨ s.fds fd = some .stdio) (hQ : Q () (s.wrote fd text)) :
    (kernel admits).wp (sys (.write fd text)) Q s := ⟨⟨hparent, hfd⟩, fun _ _ => hQ⟩

theorem opened_self {fd : ℤ} {k : Kind} : (s.opened fd k).fds fd = some k := Function.update_self ..

theorem wp_countLoop {fd : ℤ} (hfd : s.fds fd = some .file) : ∀ (fuel lines : ℕ),
    (kernel admits).Restores s (countLoop fd fuel lines) fun _ => True
  | 0, _ => wp_cut
  | fuel + 1, lines => by
    refine wp_bind.mpr (wp_read hfd fun b _ => ?_)
    match b with
    | none => exact restores_pure trivial
    | some [] => exact restores_pure trivial
    | some (c :: t) => exact wp_countLoop hfd fuel _

/-! ### Calls of a probe -/

/-- The system call of a probe of the kinds 1 to 6 creates a descriptor. -/
theorem wp_probe {kind : ℕ} {Q : ℤ → Proc → Prop} (hchild : s.inChild = true)
    (hkind : 1 ≤ kind ∧ kind ≤ 8) (hsame : ∀ rc, ¬ (kind ≤ 6 ∧ 0 ≤ rc) → Q rc s)
    (hnew : ∀ rc, kind ≤ 6 → 0 ≤ rc → s.fds rc = none → Q rc (s.opened rc .probed)) :
    (kernel admits).wp (sys (.probe kind)) Q s := by
  refine ⟨⟨hchild, hkind⟩, fun rc hrc => ?_⟩
  by_cases h : kind ≤ 6 ∧ 0 ≤ rc
  · have hnext : (kernel admits).next s (.probe kind) rc = s.opened rc .probed := if_pos h
    rw [hnext]
    exact hnew rc h.1 h.2 (hrc.2 h.2)
  · have hnext : (kernel admits).next s (.probe kind) rc = s := if_neg h
    rw [hnext]
    exact hsame rc h

theorem opened_of_ne {fd fd' : ℤ} {k : Kind} (h : fd' ≠ fd) : (s.opened fd k).fds fd' = s.fds fd' :=
  Function.update_of_ne h ..

theorem closed_of_ne {fd fd' : ℤ} (h : fd' ≠ fd) : (s.closed fd).fds fd' = s.fds fd' :=
  Function.update_of_ne h ..

theorem restores_setns {fd : ℤ} (hchild : s.inChild = true) (hfd : s.fds fd = some .file) :
    (kernel admits).Restores s (sys (.setns fd)) fun _ => True := ⟨⟨hchild, hfd⟩, fun _ _ => ⟨rfl, trivial⟩⟩

theorem restores_errnoWhen (failed : Bool) (err : ℤ) :
    (kernel admits).Restores s (errnoWhen failed err) fun _ => True := by
  cases failed with
  | true => exact restores_errno.mono fun _ _ => trivial
  | false => exact restores_pure trivial

theorem restores_readResult {fd : ℤ} (hparent : s.inChild = false) (hfd : s.fds fd = some .pipe) :
    (kernel admits).Restores s (sys (.readResult fd)) fun _ => True :=
  ⟨⟨hparent, hfd⟩, fun _ _ => ⟨rfl, trivial⟩⟩

/-- A child that was waited for is off the list. -/
theorem wp_waitpid {pid : ℤ} {Q : Option ℕ → Proc → Prop} (hfail : Q none (s.left [pid]))
    (hQ : ∀ st, Q (some st) s) : (kernel admits).wp (sys (.waitpid pid)) Q (s.forked pid) := by
  have herase : (pid :: s.children).erase pid = s.children := List.erase_cons_head ..
  refine ⟨List.mem_cons_self, fun st _ => ?_⟩
  cases st with
  | none =>
    show Q none { s with children := (pid :: s.children).erase pid, lost := pid :: s.lost }
    rw [herase]
    exact hfail
  | some st =>
    show Q (some st) { s with children := (pid :: s.children).erase pid }
    rw [herase]
    exact hQ st

/-! ### Calls for an admitted request -/

variable [admitted : Fact (s.Admitted admits)]

theorem restores_access {path : String} (h : path ∈ agentChecks) :
    (kernel admits).Restores s (sys (.access path)) fun _ => True :=
  ⟨⟨admitted.out, h⟩, fun _ _ => ⟨rfl, trivial⟩⟩

theorem restores_getgid : (kernel admits).Restores s (sys .getgid) IsLong :=
  ⟨admitted.out, fun _ h => ⟨rfl, h⟩⟩

theorem restores_gettid : (kernel admits).Restores s (sys .gettid) IsLong :=
  ⟨admitted.out, fun _ h => ⟨rfl, h⟩⟩

theorem restores_getpagesize : (kernel admits).Restores s (sys .getpagesize) IsLong :=
  ⟨admitted.out, fun _ h => ⟨rfl, h⟩⟩

theorem restores_uname : (kernel admits).Restores s (sys .uname) fun u =>
    ∀ n ∈ u, ∀ b ∈ [n.sysname, n.release, n.machine], b.length < 65 ∧ 0 ∉ b :=
  ⟨admitted.out, fun _ h => ⟨rfl, h⟩⟩

/-- A file that could be opened is closed again: what is between goes on with it open. -/
theorem wp_openFile {path : String} {mode : Access} {Q : ℤ → Proc → Prop}
    (hpath : (path, mode) ∈ agentFiles) (hfail : ∀ fd < 0, Q fd s)
    (hopen : ∀ fd, 0 ≤ fd → s.fds fd = none → Q fd (s.opened fd .file)) :
    (kernel admits).wp (sys (.openFile path mode)) Q s := by
  refine ⟨⟨admitted.out, hpath⟩, fun fd hfd => ?_⟩
  rcases lt_or_ge fd 0 with h | h
  · have hnext : (kernel admits).next s (.openFile path mode) fd = s := if_neg (not_le.mpr h)
    rw [hnext]
    exact hfail fd h
  · have hnext : (kernel admits).next s (.openFile path mode) fd = s.opened fd .file := if_pos h
    rw [hnext]
    exact hopen fd h (hfd h)

theorem wp_property {key : String} {Q : Option Bytes → Proc → Prop} (hkey : key ∈ agentProperties)
    (hQ : ∀ b : Option Bytes, (∀ t ∈ b, t ≠ [] ∧ t.length < 92 ∧ 0 ∉ t) → Q b s) :
    (kernel admits).wp (sys (.property key)) Q s := ⟨⟨admitted.out, hkey⟩, hQ⟩

theorem wp_readlink {path : String} {size : ℕ} {Q : Option Bytes → Proc → Prop}
    (hpath : path ∈ agentLinks) (hQ : ∀ b : Option Bytes, (∀ t ∈ b, t.length ≤ size) → Q b s) :
    (kernel admits).wp (sys (.readlink path size)) Q s := ⟨⟨admitted.out, hpath⟩, hQ⟩

/-! ### Files -/

theorem restores_readSmall {path : String} {cap : ℕ} (hpath : (path, .rdonly) ∈ agentFiles)
    (hcap : 2 ≤ cap) : (kernel admits).Restores s (readSmall path cap) fun r => Fits cap r.2 := by
  refine wp_bind.mpr (wp_openFile hpath (fun fd hfd => ?_) fun fd hfd hfree => ?_)
  · rw [if_pos hfd]
    exact restores_errno.bind fun _ _ => restores_pure (fits_nil (by omega))
  · rw [if_neg (not_lt.mpr hfd)]
    refine wp_bind.mpr (wp_read opened_self fun got hgot => ?_)
    refine wp_bind.mpr (restores_errno.wp fun e _ => ?_)
    refine wp_bind.mpr (wp_close opened_self (by decide) ?_)
    rw [Proc.closed_opened hfree]
    cases got with
    | none => exact restores_pure (fits_nil (by omega))
    | some b =>
      have hlen := hgot b rfl
      exact restores_pure (fits_trim (fits_cstr (by omega)))

theorem restores_countFileLines {path : String} (fuel : ℕ) (hpath : (path, .rdonly) ∈ agentFiles) :
    (kernel admits).Restores s (countFileLines fuel path) fun n => -2 ^ 31 ≤ n ∧ n ≤ 2 ^ 31 := by
  refine wp_bind.mpr (wp_openFile hpath (fun fd hfd => ?_) fun fd hfd hfree => ?_)
  · rw [if_pos hfd]
    exact restores_errno.bind fun e he => restores_pure (by obtain ⟨h1, h2⟩ := he; constructor <;> omega)
  · rw [if_neg (not_lt.mpr hfd)]
    refine wp_bind.mpr ((wp_countLoop opened_self fuel 0).wp fun lines _ => ?_)
    refine wp_bind.mpr (restores_errno.wp fun e he => ?_)
    refine wp_bind.mpr (wp_close opened_self (by decide) ?_)
    rw [Proc.closed_opened hfree]
    cases lines with
    | none => exact restores_pure ⟨by omega, by omega⟩
    | some n =>
      have := wrap_mem (w := 32) (by norm_num) n
      exact restores_pure (by norm_num at this ⊢; omega)

theorem fits_valueAfter {text v : Bytes} {key : String} {cap : ℕ} (hcap : 0 < cap) (h0 : 0 ∉ text)
    (h : valueAfter text key cap = some v) : Fits cap v ∧ 10 ∉ v := by
  obtain ⟨⟨a, p⟩, hsplit, rfl⟩ := Option.map_eq_some_iff.mp h
  obtain ⟨rfl, -⟩ := Search.dropInfix?_eq_some.mp hsplit
  set line := (p.dropWhile fun c => c == Lines.sp || c == 9).takeWhile (· != 10) with hline
  have hsub : ∀ c ∈ trim (line.take (cap - 1)), c ∈ line := fun c hc =>
    List.mem_of_mem_take ((List.rdropWhile_prefix isTrimmed _).subset hc)
  refine ⟨fits_trim ⟨?_, fun h0' => ?_⟩, fun h10 => ?_⟩
  · rw [List.length_take]
    omega
  · have hp := (List.dropWhile_suffix _).subset ((List.takeWhile_prefix _).subset
      (List.mem_of_mem_take h0'))
    exact h0 (List.mem_append_right _ hp)
  · have := List.mem_takeWhile_imp (hsub 10 h10)
    exact absurd this (by decide)

/-- What `status_value` stores fits its buffer and is a single line. -/
theorem restores_statusValue (key : String) {cap : ℕ} (hcap : 0 < cap) :
    (kernel admits).Restores s (statusValue key cap) fun o => ∀ v ∈ o, Fits cap v ∧ 10 ∉ v := by
  refine (restores_readSmall (by decide) (by norm_num)).bind fun r hr => ?_
  dsimp only
  split_ifs
  · exact restores_pure fun v hv => nomatch hv
  · exact restores_pure fun v hv => fits_valueAfter hcap hr.2 hv

theorem restores_getContext {cap : ℕ} (hcap : 2 ≤ cap) :
    (kernel admits).Restores s (getContext cap) (Fits cap) := by
  refine (restores_readSmall (by decide) hcap).bind fun r hr => ?_
  dsimp only
  split_ifs
  · exact restores_pure (fits_errnoText (by omega) _)
  · exact restores_pure hr

/-- No blank at the end. -/
def Trimmed (t : Bytes) : Prop := trim t = t

theorem restores_readSmall_trimmed {path : String} {cap : ℕ} (hpath : (path, .rdonly) ∈ agentFiles) :
    (kernel admits).Restores s (readSmall path cap) fun r => Trimmed r.2 := by
  refine wp_bind.mpr (wp_openFile hpath (fun fd hfd => ?_) fun fd hfd hfree => ?_)
  · rw [if_pos hfd]
    exact restores_errno.bind fun _ _ => restores_pure rfl
  · rw [if_neg (not_lt.mpr hfd)]
    refine wp_bind.mpr (wp_read opened_self fun got _ => wp_bind.mpr (restores_errno.wp fun e _ =>
      wp_bind.mpr (wp_close opened_self (by decide) ?_)))
    rw [Proc.closed_opened hfree]
    cases got with
    | none => exact restores_pure rfl
    | some b => exact restores_pure (List.rdropWhile_idempotent ..)

/-- A digit or a sign is no blank. -/
theorem isTrimmed_of_mem_ofInt {e : ℤ} {c : UInt8} (h : c ∈ ofInt e) : ¬ isTrimmed c = true := by
  rcases isDigit_of_mem_ofInt h with rfl | hc
  · decide
  · intro htrim
    simp only [isTrimmed, Lines.sp, Bool.or_eq_true, beq_iff_eq] at htrim
    obtain ((rfl | rfl) | rfl) | rfl := htrim <;> exact absurd hc (by decide)

theorem trimmed_errnoText {cap : ℕ} (hcap : 8 ≤ cap) (e : ℤ) : Trimmed (errnoText cap e) := by
  have hofInt : ofInt e ≠ [] := by
    unfold ofInt
    split_ifs
    · exact List.cons_ne_nil _ _
    · exact ofNat_ne_nil _
  have hcut : errnoText cap e = lit "ERRNO " ++ (ofInt e).take (cap - 7) := by
    have hlen : cap - 1 = (lit "ERRNO ").length + (cap - 7) := by
      rw [show (lit "ERRNO ").length = 6 from rfl]
      omega
    rw [errnoText, cut, hlen, List.take_length_add_append]
  have hne : (ofInt e).take (cap - 7) ≠ [] := by
    rw [Ne, List.take_eq_nil_iff]
    exact not_or.mpr ⟨by omega, hofInt⟩
  obtain ⟨init, c, hc⟩ := (List.eq_nil_or_concat' _).resolve_left hne
  have hmem : c ∈ ofInt e := List.mem_of_mem_take (hc ▸ List.mem_append_right init List.mem_cons_self)
  rw [Trimmed, hcut, hc, ← List.append_assoc]
  exact List.rdropWhile_concat_neg _ _ _ (isTrimmed_of_mem_ofInt hmem)

theorem restores_selinuxEnforce {cap : ℕ} (hcap : 8 ≤ cap) :
    (kernel admits).Restores s (selinuxEnforce cap) fun v => Fits cap v ∧ Trimmed v := by
  refine ((restores_readSmall (by decide) (by omega)).and (restores_readSmall_trimmed (by decide))).bind
    fun r hr => ?_
  dsimp only
  split_ifs
  · exact restores_pure ⟨fits_errnoText (by omega) _, trimmed_errnoText hcap _⟩
  · exact restores_pure hr

theorem restores_propGet {key : String} (hkey : key ∈ agentProperties) (cap : ℕ) :
    (kernel admits).Restores s (propGet key cap) fun r => Fits 92 r.2 := by
  refine wp_bind.mpr (wp_property hkey fun b hb => ?_)
  cases b with
  | none => exact restores_pure (fits_nil (by norm_num))
  | some b =>
    obtain ⟨-, hlen, h0⟩ := hb b rfl
    refine restores_pure ⟨?_, fun h => zero_notMem_cstr b (List.mem_of_mem_take h)⟩
    exact (List.length_take_le' _ _).trans_lt ((cstr_isPrefix b).length_le.trans_lt hlen)

theorem restores_readlinkSmall {path : String} (hpath : path ∈ agentLinks) {cap : ℕ} (hcap : 2 ≤ cap) :
    (kernel admits).Restores s (readlinkSmall path cap) fun r => Fits cap r.2 := by
  refine wp_bind.mpr (wp_readlink hpath fun b hb => ?_)
  cases b with
  | none => exact restores_errno.bind fun _ _ => restores_pure (fits_nil (by omega))
  | some b =>
    have hlen := hb b rfl
    exact restores_pure (fits_cstr (by omega))

theorem restores_vndbinderOpen : (kernel admits).Restores s vndbinderOpen fun _ => True := by
  refine wp_bind.mpr (wp_openFile (by decide) (fun fd hfd => ?_) fun fd hfd hfree => ?_)
  · rw [if_neg (not_le.mpr hfd)]
    exact restores_pure trivial
  · rw [if_pos hfd]
    refine wp_bind.mpr (wp_close opened_self (by decide) ?_)
    rw [Proc.closed_opened hfree]
    exact restores_pure trivial

/-! ### How much a report can take -/

/-- The lines of the calls take `n` bytes at most, none of them NUL. -/
def Within (n : ℕ) (as : List Append) : Prop := (ideal as).length ≤ n ∧ 0 ∉ ideal as

theorem within_nil : Within 0 [] := ⟨le_rfl, List.not_mem_nil⟩

theorem Within.mono {m n : ℕ} {as : List Append} (h : Within m as) (hmn : m ≤ n) : Within n as :=
  ⟨h.1.trans hmn, h.2⟩

theorem Within.append {m n : ℕ} {as bs : List Append} (ha : Within m as) (hb : Within n bs) :
    Within (m + n) (as ++ bs) := by
  rw [Within, ideal, List.flatMap_append, List.length_append]
  exact ⟨Nat.add_le_add ha.1 hb.1, List.not_mem_append ha.2 hb.2⟩

theorem Within.cons {m n : ℕ} {a : Append} {as : List Append} (ha : Within m [a]) (h : Within n as) :
    Within (m + n) (a :: as) := ha.append h

theorem ideal_singleton (a : Append) : ideal [a] = a.line := List.flatMap_singleton ..

theorem zero_notMem_kvLine {k v : Bytes} (hk : 0 ∉ k) (hv : 0 ∉ v) : 0 ∉ kvLine k v := by
  simp [kvLine, hk, hv]

theorem within_kv {k v : Bytes} {c : ℕ} (hk : 0 ∉ k) (hv : Fits c v) :
    Within (k.length + c + 1) [.kv k (some v)] := by
  have hlen := hv.1
  rw [Within, ideal_singleton]
  refine ⟨?_, zero_notMem_kvLine hk hv.2⟩
  simp only [Append.line, kvLine, Option.getD_some, List.length_append, List.length_cons,
    List.length_nil]
  omega

theorem within_i {k : Bytes} {x : ℤ} (hk : 0 ∉ k) (hx : IsLong x) : Within (k.length + 22) [.i k x] := by
  have hlen : (ofInt x).length ≤ 20 := length_ofInt_le (k := 19) (by norm_num) (by
    obtain ⟨h1, h2⟩ := hx
    omega)
  rw [Within, ideal_singleton]
  refine ⟨?_, zero_notMem_kvLine hk (zero_notMem_ofInt x)⟩
  simp only [Append.line, kvLine, List.length_append, List.length_cons, List.length_nil]
  omega

theorem within_flatten {β : Type} {n : ℕ} : ∀ {bs : List β} {rows : List (List Append)},
    List.Forall₂ (fun _ as => Within n as) bs rows → Within (bs.length * n) rows.flatten
  | [], _, .nil => by
    rw [List.length_nil, Nat.zero_mul]
    exact within_nil
  | b :: bs, _, .cons h hs => by
    rw [List.length_cons, Nat.succ_mul, Nat.add_comm]
    exact h.append (within_flatten hs)

/-! ### Rows of a report -/

theorem restores_readKv {key path : String} {cap : ℕ} (hkey : 0 ∉ lit key)
    (hpath : (path, .rdonly) ∈ agentFiles) (hcap : 2 ≤ cap) :
    (kernel admits).Restores s (readKv key path cap) (Within ((lit key).length + cap + 1)) := by
  refine (restores_readSmall hpath hcap).bind fun r hr => ?_
  dsimp only
  split_ifs
  · exact restores_pure (within_kv hkey hr)
  · exact restores_pure (within_nil.mono (Nat.zero_le _))

theorem restores_readSysctlKv {key path : String} (hkey : 0 ∉ lit key)
    (hpath : (path, .rdonly) ∈ agentFiles) :
    (kernel admits).Restores s (readSysctlKv key path) (Within ((lit key).length + 129)) := by
  refine (restores_readSmall hpath (by norm_num)).bind fun r hr => ?_
  dsimp only
  split_ifs
  · exact restores_pure (within_kv hkey hr)
  · exact restores_pure (within_kv hkey (fits_errnoText (by norm_num) _))

theorem restores_readlinkKv {key path : String} {cap : ℕ} (hkey : 0 ∉ lit key)
    (hpath : path ∈ agentLinks) (hcap : 2 ≤ cap) :
    (kernel admits).Restores s (readlinkKv key path cap) (Within ((lit key).length + cap + 1)) := by
  refine (restores_readlinkSmall hpath hcap).bind fun r hr => ?_
  dsimp only
  split_ifs
  · exact restores_pure (within_kv hkey hr)
  · exact restores_pure (within_nil.mono (Nat.zero_le _))

theorem restores_statusKv (field key : String) (hkey : 0 ∉ lit key) :
    (kernel admits).Restores s (statusKv field key) (Within ((lit key).length + 513)) := by
  refine (restores_statusValue field (by norm_num)).bind fun o ho => ?_
  cases o with
  | none => exact restores_pure (within_nil.mono (Nat.zero_le _))
  | some v => exact restores_pure (within_kv hkey (ho v rfl).1)

theorem restores_propertyKv {prop key : String} (hkey : 0 ∉ lit key) (hprop : prop ∈ agentProperties) :
    (kernel admits).Restores s (propertyKv prop key) (Within ((lit key).length + 93)) := by
  refine (restores_propGet hprop 512).bind fun r hr => ?_
  dsimp only
  split_ifs
  · exact restores_pure (within_kv hkey hr)
  · exact restores_pure (within_kv hkey ⟨by decide, by decide⟩)

theorem restores_pathVisibility {key path : String} (hkey : 0 ∉ lit key)
    (hpath : (path, .rdonly) ∈ agentFiles) :
    (kernel admits).Restores s (pathVisibility key path) (Within ((lit key).length + 257)) := by
  refine (restores_readSmall hpath (by norm_num)).bind fun r hr => ?_
  dsimp only
  split_ifs
  · exact restores_pure (within_kv hkey ⟨by decide, by decide⟩)
  · exact restores_pure (within_kv hkey (fits_errnoText (by norm_num) _))

theorem restores_linkOrDenied {key path : String} (hkey : 0 ∉ lit key) (hpath : path ∈ agentLinks) :
    (kernel admits).Restores s (linkOrDenied key path) (Within ((lit key).length + 513)) := by
  refine (restores_readlinkSmall hpath (by norm_num)).bind fun r hr => ?_
  dsimp only
  split_ifs
  · exact restores_pure (within_kv hkey hr)
  · exact restores_pure (within_kv hkey ⟨by decide, by decide⟩)

/-! ### Probes -/

theorem fits_probeFormat {cap : ℕ} (hcap : 0 < cap) (sig : ℕ) (got : Option ProbeResult) :
    Fits cap (probeFormat cap sig got) := by
  unfold probeFormat
  split_ifs
  · exact fits_cut hcap (by decide)
  · exact fits_cut hcap (List.not_mem_append (by decide) (zero_notMem_ofInt _))
  · cases got with
    | none => exact fits_cut hcap (by decide)
    | some r =>
      dsimp only
      split_ifs
      · exact fits_cut hcap (List.not_mem_append (by decide) (zero_notMem_ofInt _))
      · exact fits_cut hcap (List.not_mem_append (by decide) (zero_notMem_ofInt _))

/-- What the child knows of its process once the probed call is made. -/
def Probed (kind : ℕ) (out : ℤ) (r : ProbeResult) (s : Proc) : Prop :=
  s.inChild = true ∧ s.fds out = some .pipe ∧
    (kind ≤ 6 → 0 ≤ r.rc → s.fds r.rc = some .probed ∧ r.rc ≠ out)

theorem wp_probeCall {kind : ℕ} {out : ℤ} (hchild : s.inChild = true) (hout : s.fds out = some .pipe) :
    (kernel admits).wp (probeCall kind) (Probed kind out) s := by
  unfold probeCall
  split_ifs with h9 hkind
  · have hlarge : ¬ kind ≤ 6 := by omega
    refine wp_bind.mpr (wp_openFile (by decide) (fun fd hfd => ?_) fun fd hfd hfree => ?_)
    · rw [if_pos hfd]
      exact wp_bind.mpr (restores_errno.wp fun e _ => ⟨hchild, hout, fun h => absurd h hlarge⟩)
    · rw [if_neg (not_lt.mpr hfd)]
      refine wp_bind.mpr ((restores_setns (s := s.opened fd .file) hchild opened_self).wp fun rc _ => ?_)
      refine wp_bind.mpr ((restores_errnoWhen _ 0).wp fun err _ =>
        wp_bind.mpr (wp_close opened_self (by decide) ?_))
      rw [Proc.closed_opened hfree]
      exact ⟨hchild, hout, fun h => absurd h hlarge⟩
  · refine wp_bind.mpr (wp_probe hchild hkind (fun rc hrc => ?_) fun rc hsix hrc hfree => ?_)
    · exact ⟨hchild, hout, fun hsix h0 => absurd ⟨hsix, h0⟩ hrc⟩
    · have hne : out ≠ rc := by
        rintro rfl
        rw [hout] at hfree
        cases hfree
      exact ⟨hchild, (opened_of_ne hne).trans hout, fun _ _ => ⟨opened_self, hne.symm⟩⟩
  · exact ⟨hchild, hout, fun _ h => absurd h (by decide)⟩

/-- The child of a probe closes its ends of the pipe and does not come back. -/
theorem wp_probeChild {kind : ℕ} {pfd : ℤ × ℤ} (hchild : s.inChild = true)
    (hread : s.fds pfd.1 = some .pipe) (hwrite : s.fds pfd.2 = some .pipe) (hne : pfd.1 ≠ pfd.2)
    {Q : Empty → Proc → Prop} : (kernel admits).wp (probeChild kind pfd) Q s := by
  unfold probeChild
  refine wp_bind.mpr (wp_close hread (by decide) (wp_bind.mpr ?_))
  refine wp_mono ?_ (wp_probeCall hchild ((closed_of_ne hne.symm).trans hwrite))
  rintro r s' ⟨hchild', hout, hfd⟩
  refine wp_bind.mpr ((restores_errnoWhen _ _).wp fun err _ => wp_bind.mpr ?_)
  have hrest : ∀ s' : Proc, s'.inChild = true → s'.fds pfd.2 = some .pipe →
      (kernel admits).wp (do
        sys (.writeResult pfd.2 ⟨r.rc, err⟩)
        sys (.close pfd.2)
        sys .exit) Q s' := fun s' hchild hout =>
    wp_bind.mpr ⟨⟨hchild, hout⟩, fun _ _ => wp_bind.mpr (wp_close hout (by decide)
      ⟨hchild, fun gone => nomatch gone⟩)⟩
  unfold closeProbed
  split_ifs with hkind
  · obtain ⟨hprobed, hneq⟩ := hfd hkind.2.1 hkind.2.2
    exact wp_close hprobed (by decide) (hrest _ hchild' ((closed_of_ne hneq.symm).trans hout))
  · exact hrest s' hchild' hout

/-- A pipe whose ends are closed has left nothing. -/
theorem closed_pipe {a b : ℤ} (ha : s.fds a = none) (hb : s.fds b = none) (hne : a ≠ b) :
    (((s.opened a .pipe).opened b .pipe).closed b).closed a = s := by
  rw [Proc.closed_opened ((opened_of_ne hne.symm).trans hb), Proc.closed_opened ha]

theorem wp_pipe2 {Q : Option (ℤ × ℤ) → Proc → Prop} (hparent : s.inChild = false) (hfail : Q none s)
    (hopen : ∀ a b, a ≠ b → s.fds a = none → s.fds b = none →
      Q (some (a, b)) ((s.opened a .pipe).opened b .pipe)) : (kernel admits).wp (sys .pipe2) Q s := by
  refine ⟨⟨admitted.out, hparent⟩, fun p hp => ?_⟩
  cases p with
  | none => exact hfail
  | some ab =>
    obtain ⟨hne, ha, hb⟩ := hp ab rfl
    exact hopen ab.1 ab.2 hne ha hb

theorem wp_fork {Q : ℤ → Proc → Prop} (hparent : s.inChild = false) (hfail : ∀ pid < 0, Q pid s)
    (hchild : Q 0 s.child) (hfork : ∀ pid, 0 < pid → Q pid (s.forked pid)) :
    (kernel admits).wp (sys .fork) Q s := by
  refine ⟨⟨admitted.out, hparent⟩, fun (pid : ℤ) _ => ?_⟩
  show Q pid (if pid = 0 then s.child else if 0 < pid then s.forked pid else s)
  rcases lt_trichotomy pid 0 with hpid | rfl | hpid
  · rw [if_neg (by omega), if_neg (by omega)]
    exact hfail pid hpid
  · exact hchild
  · rw [if_neg (by omega), if_pos hpid]
    exact hfork pid hpid

omit admitted in
/-- The parent of a probe closes the pipe and waits for its child. -/
theorem wp_probeParent {cap : ℕ} (hcap : 0 < cap) {a b pid : ℤ} (hparent : s.inChild = false)
    (ha : s.fds a = none) (hb : s.fds b = none) (hne : a ≠ b) (hpid : 0 < pid) :
    (kernel admits).wp (probeParent cap pid (a, b)) (fun text s' => s.Left s' ∧ Fits cap text)
      (((s.opened a .pipe).opened b .pipe).forked pid) := by
  unfold probeParent
  refine wp_bind.mpr (wp_close opened_self (by decide) ?_)
  rw [if_neg (by omega)]
  have hopen : ((((s.opened a .pipe).opened b .pipe).forked pid).closed b).fds a = some .pipe :=
    (closed_of_ne hne).trans ((opened_of_ne hne).trans opened_self)
  refine wp_bind.mpr (Restores.wp (restores_readResult hparent hopen) fun got _ =>
    wp_bind.mpr (wp_close hopen (by decide) ?_))
  have hclosed : ((((s.opened a .pipe).opened b .pipe).forked pid).closed b).closed a = s.forked pid :=
    congrArg (Proc.forked · pid) (closed_pipe ha hb hne)
  rw [hclosed]
  refine wp_bind.mpr (wp_waitpid ?_ fun st => ⟨.refl s, fits_probeFormat hcap _ _⟩)
  exact wp_bind.mpr (restores_errno.wp fun e _ =>
    ⟨⟨[pid], rfl⟩, fits_cut hcap (List.not_mem_append (by decide) (zero_notMem_ofInt e))⟩)

/-- **`run_probe_kind`** leaves nothing behind but a child it could not wait for, whatever the probed call
does to the child. -/
theorem wp_runProbeKind {kind cap : ℕ} (hcap : 0 < cap) (hparent : s.inChild = false) :
    (kernel admits).wp (runProbeKind kind cap) (fun text s' => s.Left s' ∧ Fits cap text) s := by
  refine wp_bind.mpr (wp_pipe2 hparent ?_ fun a b hne ha hb => ?_)
  · exact wp_bind.mpr (restores_errno.wp fun e _ =>
      ⟨.refl s, fits_cut hcap (List.not_mem_append (by decide) (zero_notMem_ofInt e))⟩)
  · have hopen : ((s.opened a .pipe).opened b .pipe).fds a = some .pipe :=
      (opened_of_ne hne).trans opened_self
    refine wp_bind.mpr (wp_fork hparent (fun pid hpid => ?_) ?_ fun pid hpid => ?_)
    · rw [if_neg hpid.ne]
      unfold probeParent
      refine wp_bind.mpr (wp_close opened_self (by decide) ?_)
      rw [if_pos hpid]
      refine wp_bind.mpr (restores_errno.wp fun e _ => wp_bind.mpr
        (wp_close ((closed_of_ne hne).trans hopen) (by decide) ?_))
      rw [closed_pipe ha hb hne]
      exact ⟨.refl s, fits_cut hcap (List.not_mem_append (by decide) (zero_notMem_ofInt e))⟩
    · have hwrite : ((s.opened a .pipe).opened b .pipe).fds b = some .pipe := opened_self
      refine wp_bind.mpr (wp_probeChild rfl ?_ ?_ ?_)
      exacts [hopen, hwrite, hne]
    · rw [if_neg hpid.ne']
      exact wp_probeParent hcap hparent ha hb hne hpid

end ZorinTrust.Bridge
