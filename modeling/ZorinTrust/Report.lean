import ZorinTrust.Lib.Buffer
import ZorinTrust.Lib.Numeral

/-!
# The agent's reports

`append_kv` and `append_i` put `key=value` lines one behind the other into a buffer.  The position moves
on by the length `snprintf` wanted to write, so it can pass the end of the buffer; the test at the top of
both keeps any later call away.  `Written` is the invariant, `appendAll_bounded` what it gives for every
sequence of calls.  The return value of `snprintf` is the length of the text, and `*pos` a number without
bound: no text comes near the 2³¹ bytes past which an `int` differs.
-/

namespace ZorinTrust

open CText Numeral Buffer

/-- The buffer, `*pos`, and offset and size of the `snprintf` calls made so far. -/
structure Report where
  out : Bytes
  pos : ℕ
  calls : List (ℕ × ℤ)

/-- The body of both functions: nothing once `*pos >= cap - 2`, else one `snprintf`, whose size is a
`size_t`. -/
def appendLine (cap : ℕ) (r : Report) (line : Bytes) : Option Report :=
  if (cap : ℤ) - 2 ≤ r.pos then some r
  else
    let size : ℤ := cap - r.pos
    (snprintf r.out r.pos (size % 2 ^ 64).toNat line).map fun out =>
      { out := out, pos := r.pos + line.length, calls := r.calls ++ [(r.pos, size)] }

/-- `"%s=%s\n"`. -/
def kvLine (k v : Bytes) : Bytes := k ++ 61 :: (v ++ [10])

/-- `append_kv`; a null value prints as nothing. -/
def appendKv (cap : ℕ) (r : Report) (k : Bytes) (v : Option Bytes) : Option Report :=
  appendLine cap r (kvLine k (v.getD []))

/-- `append_i`. -/
def appendI (cap : ℕ) (r : Report) (k : Bytes) (v : ℤ) : Option Report :=
  appendLine cap r (kvLine k (ofInt v))

/-- One call. -/
inductive Append
  | kv (k : Bytes) (v : Option Bytes)
  | i (k : Bytes) (v : ℤ)

namespace Append

def run (cap : ℕ) (r : Report) : Append → Option Report
  | kv k v => appendKv cap r k v
  | i k v => appendI cap r k v

/-- The line a call stands for. -/
def line : Append → Bytes
  | kv k v => kvLine k (v.getD [])
  | i k v => kvLine k (ofInt v)

theorem run_eq (cap : ℕ) (r : Report) (a : Append) : a.run cap r = appendLine cap r a.line := by
  cases a <;> rfl

theorem line_ne_nil (a : Append) : a.line ≠ [] := by
  cases a <;> simp [line, kvLine]

end Append

/-- A sequence of calls. -/
def appendAll (cap : ℕ) (r : Report) (as : List Append) : Option Report := as.foldlM (Append.run cap) r

/-- The concatenation of the lines without any buffer. -/
def ideal (as : List Append) : Bytes := as.flatMap Append.line

/-- The report before the first call. -/
def Report.start (out : Bytes) : Report := { out := out, pos := 0, calls := [] }

/-! ### The invariant -/

/-- Offset and size of a call stay in the buffer. -/
def CallOk (cap : ℕ) (c : ℕ × ℤ) : Prop := 0 < c.2 ∧ c.1 + c.2 ≤ cap

/-- What the buffer holds of the text asked for so far; while `*pos` leaves room it is all of it. -/
structure Written (cap : ℕ) (full : Bytes) (r : Report) : Prop where
  length_eq : r.out.length = cap
  calls_ok : ∀ c ∈ r.calls, CallOk cap c
  pos_le : r.pos ≤ full.length
  text : ∃ t rest, r.out = t ++ rest ∧ t <+: full ∧ (full ≠ [] → rest.head? = some 0) ∧
    (r.pos + 2 < cap → t = full ∧ r.pos = full.length)

variable {cap : ℕ} {full : Bytes} {r : Report}

theorem written_start {out : Bytes} (h : out.length = cap) : Written cap [] (Report.start out) where
  length_eq := h
  calls_ok := by simp [Report.start]
  pos_le := le_rfl
  text := ⟨[], out, rfl, List.nil_prefix, fun h => absurd rfl h, fun _ => ⟨rfl, rfl⟩⟩

/-- A closed report stays as it is. -/
theorem appendLine_closed (h : cap ≤ r.pos + 2) (line : Bytes) : appendLine cap r line = some r :=
  if_pos (by omega)

theorem appendLine_open {out line : Bytes} (h : r.pos + 2 < cap) (hint : cap < 2 ^ 31)
    (hs : snprintf r.out r.pos (cap - r.pos) line = some out) : appendLine cap r line =
      some { out := out, pos := r.pos + line.length, calls := r.calls ++ [(r.pos, (cap : ℤ) - r.pos)] } := by
  have hsize : (((cap : ℤ) - r.pos) % 2 ^ 64).toNat = cap - r.pos := by
    rw [Int.emod_eq_of_lt (by omega) (by omega)]
    omega
  rw [appendLine, if_neg (by omega)]
  dsimp only
  rw [hsize, hs]
  rfl

/-- **One call** keeps the invariant. -/
theorem Written.append (h : Written cap full r) (hcap : 3 ≤ cap) (hint : cap < 2 ^ 31) (line : Bytes) :
    ∃ r', appendLine cap r line = some r' ∧ Written cap (full ++ line) r' := by
  obtain ⟨t, rest, hout, ht, hnul, hopen⟩ := h.text
  by_cases hroom : r.pos + 2 < cap
  · obtain ⟨rfl, hpos⟩ := hopen hroom
    have hlen := h.length_eq
    rw [hout, List.length_append] at hlen
    obtain ⟨rest', hs, hs'⟩ := snprintf_append t rest (cap - r.pos) line
      (by omega) (by omega)
    rw [← hout, ← hpos] at hs
    refine ⟨_, appendLine_open hroom hint hs, ?_⟩
    constructor
    · rw [hs', ← hout, h.length_eq]
    · intro c hc
      rcases List.mem_append.mp hc with hc | hc
      · exact h.calls_ok c hc
      · obtain rfl := List.mem_singleton.mp hc
        constructor
        · show (0 : ℤ) < cap - r.pos
          omega
        · show (r.pos : ℤ) + (cap - r.pos) ≤ cap
          omega
    · show r.pos + line.length ≤ (t ++ line).length
      rw [List.length_append, hpos]
    · refine ⟨t ++ cut (cap - r.pos) line, 0 :: rest', rfl, ?_, fun _ => rfl, ?_⟩
      · exact (List.prefix_append_right_inj _).mpr (List.take_prefix _ _)
      · intro hroom'
        dsimp only at hroom' ⊢
        rw [cut_of_lt (by omega), List.length_append, hpos]
        exact ⟨rfl, rfl⟩
  · -- a closed report has had a call, so its NUL is there
    have hle := h.pos_le
    have hfull : full ≠ [] := List.ne_nil_of_length_pos (by omega)
    refine ⟨r, appendLine_closed (by omega) line, h.length_eq, h.calls_ok, ?_, ?_⟩
    · rw [List.length_append]
      omega
    · exact ⟨t, rest, hout, ht.trans (List.prefix_append _ _), fun _ => hnul hfull,
        fun hlt => absurd hlt hroom⟩

theorem appendAll_cons (cap : ℕ) (r : Report) (a : Append) (as : List Append) :
    appendAll cap r (a :: as) = (a.run cap r).bind fun r => appendAll cap r as := List.foldlM_cons

theorem appendAll_append (cap : ℕ) (r : Report) (as bs : List Append) :
    appendAll cap r (as ++ bs) = (appendAll cap r as).bind fun r => appendAll cap r bs :=
  List.foldlM_append

theorem Written.appendAll (hcap : 3 ≤ cap) (hint : cap < 2 ^ 31) : ∀ (as : List Append) {full : Bytes}
    {r : Report}, Written cap full r →
      ∃ r', ZorinTrust.appendAll cap r as = some r' ∧ Written cap (full ++ ideal as) r'
  | [], full, r, h => ⟨r, rfl, by rwa [ideal, List.flatMap_nil, List.append_nil]⟩
  | a :: as, full, r, h => by
    obtain ⟨r1, hrun1, h1⟩ := h.append hcap hint a.line
    obtain ⟨r', hrun, h'⟩ := Written.appendAll hcap hint as h1
    refine ⟨r', ?_, ?_⟩
    · rw [appendAll_cons, Append.run_eq, hrun1, Option.bind_some, hrun]
    · rwa [ideal, List.flatMap_cons, ← List.append_assoc]

theorem appendAll_closed (h : cap ≤ r.pos + 2) : ∀ as : List Append, appendAll cap r as = some r
  | [] => rfl
  | a :: as => by
    rw [appendAll_cons, Append.run_eq, appendLine_closed h, Option.bind_some, appendAll_closed h as]

/-- A call that leaves the report closed is the last one that changes it. -/
theorem appendLine_pos {line : Bytes} {r' : Report} (h : appendLine cap r line = some r')
    (hroom : r.pos + 2 < cap) : r'.pos = r.pos + line.length := by
  rw [appendLine, if_neg (by omega)] at h
  obtain ⟨out, -, rfl⟩ := Option.map_eq_some_iff.mp h
  rfl

theorem ideal_ne_nil {as : List Append} (hne : as ≠ []) : ideal as ≠ [] := by
  obtain ⟨a, as, rfl⟩ := List.exists_cons_of_ne_nil hne
  rw [ideal, List.flatMap_cons]
  exact List.append_ne_nil_of_left_ne_nil a.line_ne_nil _

/-- A buffer with room for all lines holds them all. -/
theorem appendAll_whole {out : Bytes} {as : List Append} (hint : cap < 2 ^ 31) (hout : out.length = cap)
    (hne : as ≠ []) (h0 : 0 ∉ ideal as) (hfit : (ideal as).length + 2 < cap) :
    ∃ r, appendAll cap (Report.start out) as = some r ∧ cstr r.out = ideal as := by
  obtain ⟨r, hrun, h⟩ := Written.appendAll (by omega) hint as (written_start hout)
  rw [List.nil_append] at h
  obtain ⟨t, rest, hr, -, hnul, hopen⟩ := h.text
  obtain ⟨rest, rfl⟩ := List.head?_eq_some_iff.mp (hnul (ideal_ne_nil hne))
  have hle := h.pos_le
  obtain ⟨rfl, -⟩ := hopen (by omega)
  exact ⟨r, hrun, by rw [hr, Buffer.cstr_append rest h0]⟩

/-- **Bounded report building**, for every sequence of calls: no store misses the buffer, each `snprintf`
gets a positive size that ends within it, after the first call there is a NUL, the text is a beginning of
the lines asked for, and once a line has been cut the report stays as it is. -/
theorem appendAll_bounded {out : Bytes} (hcap : 3 ≤ cap) (hint : cap < 2 ^ 31) (hout : out.length = cap)
    (as : List Append) :
    ∃ r, appendAll cap (Report.start out) as = some r ∧ r.out.length = cap ∧
      (∀ c ∈ r.calls, 0 < c.2 ∧ c.1 + c.2 ≤ cap) ∧ (as ≠ [] → 0 ∈ r.out ∧ cstr r.out <+: ideal as) ∧
      ∀ pre a post r0, as = pre ++ a :: post → appendAll cap (Report.start out) pre = some r0 →
        r0.pos + 2 < cap → cap ≤ r0.pos + a.line.length →
        appendAll cap (Report.start out) (pre ++ [a]) = some r := by
  obtain ⟨r, hrun, h⟩ := Written.appendAll hcap hint as (written_start hout)
  refine ⟨r, hrun, h.length_eq, h.calls_ok, ?_, ?_⟩
  · intro hne
    obtain ⟨t, rest, hr, ht, hnul, -⟩ := h.text
    obtain ⟨rest, rfl⟩ := List.head?_eq_some_iff.mp (hnul (ideal_ne_nil hne))
    rw [hr]
    exact ⟨by simp, (cstr_append_isPrefix t rest).trans ht⟩
  · rintro pre a post r0 rfl hpre hroom hcut
    rw [appendAll_append, hpre, Option.bind_some, appendAll_cons] at hrun ⊢
    obtain ⟨r1, hr1, hrest⟩ := Option.bind_eq_some_iff.mp hrun
    rw [a.run_eq] at hr1
    have hclosed : cap ≤ r1.pos + 2 := by
      rw [appendLine_pos hr1 hroom]
      omega
    rw [appendAll_closed hclosed] at hrest
    rw [a.run_eq, hr1, Option.bind_some, ← hrest]
    rfl

/-- Three calls into eight bytes: the second line is cut, the third never written. -/
theorem appendAll_bounded_eight :
    ∃ r, appendAll 8 (Report.start (List.replicate 8 7))
        [.kv (lit "a") (some (lit "b")), .i (lit "uid") 0, .kv (lit "c") none] = some r ∧
      r.out = lit "a=b\nuid" ++ [0] ∧ r.out.length = 8 ∧
      (∀ c ∈ r.calls, 0 < c.2 ∧ c.1 + c.2 ≤ ((8 : ℕ) : ℤ)) := by
  obtain ⟨r, hrun, hlen, hcalls, -⟩ := appendAll_bounded (by norm_num : 3 ≤ 8) (by norm_num)
    (List.length_replicate (n := 8) (a := (7 : UInt8)))
    [.kv (lit "a") (some (lit "b")), .i (lit "uid") 0, .kv (lit "c") none]
  refine ⟨r, hrun, ?_, hlen, hcalls⟩
  have heval : (appendAll 8 (Report.start (List.replicate 8 7))
      [.kv (lit "a") (some (lit "b")), .i (lit "uid") 0, .kv (lit "c") none]).map Report.out =
        some (lit "a=b\nuid" ++ [0]) := by decide
  rw [hrun, Option.map_some, Option.some.injEq] at heval
  exact heval

end ZorinTrust
