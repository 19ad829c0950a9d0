import ZorinTrust.Lib.Delimited

/-!
# Writing into a `char[cap]`

A buffer is the list of its bytes; a store outside it has no result, so a run that has one has written
within bounds.  `snprintf` writes at most `size` bytes, the last of them the NUL, and returns the length
of the whole text.  The lemmas follow a buffer given as what is already written and what comes behind.
`putMember` is the other way to fill one, byte by byte with a test of the room left: `Holds` says that the
buffer has the beginning of all that was asked for.
-/

namespace Buffer

open CText Delimited

/-- `m[i] = c`. -/
def store (m : Bytes) (i : ℕ) (c : UInt8) : Option Bytes :=
  if i < m.length then some (m.set i c) else none

/-- Bytes written one after the other from index `i` on. -/
def stores : Bytes → ℕ → Bytes → Option Bytes
  | m, _, [] => some m
  | m, i, c :: s => (store m i c).bind fun m => stores m (i + 1) s

theorem store_append (t rest : Bytes) (b c : UInt8) :
    store (t ++ b :: rest) t.length c = some (t ++ c :: rest) := by
  rw [store, if_pos (by simp), List.set_append_right _ _ le_rfl, Nat.sub_self, List.set_cons_zero]

theorem stores_append : ∀ (s t rest : Bytes), s.length ≤ rest.length →
    stores (t ++ rest) t.length s = some (t ++ s ++ rest.drop s.length)
  | [], t, rest, _ => by simp [stores]
  | c :: s, t, [], h => absurd h (by simp)
  | c :: s, t, b :: rest, h => by
    have ih := stores_append s (t ++ [c]) rest (Nat.le_of_succ_le_succ h)
    rw [List.length_append, List.length_singleton, List.append_assoc, List.singleton_append] at ih
    rw [stores, store_append, Option.bind_some, ih]
    simp

/-- `snprintf(m + pos, size, ...)` with the rendered `text`. -/
def snprintf (m : Bytes) (pos size : ℕ) (text : Bytes) : Option Bytes :=
  if size = 0 then some m else stores m pos (cut size text ++ [0])

/-- What a call within bounds leaves: the text cut to the size, the NUL, and the rest as it was. -/
theorem snprintf_append (t rest : Bytes) (size : ℕ) (text : Bytes) (h0 : 0 < size)
    (h : size ≤ rest.length) : ∃ rest', snprintf (t ++ rest) t.length size text =
      some (t ++ cut size text ++ 0 :: rest') ∧
        (t ++ cut size text ++ 0 :: rest').length = (t ++ rest).length := by
  have hcut := length_cut_lt h0 text
  have hlen : (cut size text ++ [0]).length ≤ rest.length := by
    rw [List.length_append, List.length_singleton]
    omega
  refine ⟨rest.drop (cut size text ++ [0]).length, ?_, ?_⟩
  · rw [snprintf, if_neg (by omega), stores_append _ _ _ hlen]
    simp
  · simp only [List.length_append, List.length_cons, List.length_nil, List.length_drop] at hlen ⊢
    omega

/-! ### The text in a buffer -/

theorem cstr_append {t : Bytes} (rest : Bytes) (h : 0 ∉ t) : cstr (t ++ 0 :: rest) = t := by
  have hall : ∀ c ∈ t, (c != 0) = true := fun c hc => by
    rw [bne_iff_ne]
    rintro rfl
    exact h hc
  rw [cstr, List.takeWhile_append_of_pos hall, List.takeWhile_cons_of_neg (by simp), List.append_nil]

/-- Whatever stands before a NUL, the C string is a beginning of it. -/
theorem cstr_append_isPrefix (t rest : Bytes) : cstr (t ++ 0 :: rest) <+: t := by
  by_cases h : 0 ∈ t
  · obtain ⟨a, b, rfl, ha⟩ := List.eq_append_cons_of_mem h
    rw [List.append_assoc, List.cons_append, cstr_append _ ha]
    exact List.prefix_append _ _
  · rw [cstr_append _ h]

/-! ### Members copied while there is room -/

/-- `while (*s && pos < cap - 1) out[pos++] = *s++`. -/
def copyBytes (cap : ℕ) : Bytes → Bytes × ℕ → Option (Bytes × ℕ)
  | [], st => some st
  | c :: s, (out, pos) =>
    if pos < cap - 1 then (store out pos c).bind fun out => copyBytes cap s (out, pos + 1)
    else some (out, pos)

/-- `if (pos && pos < cap - 1) out[pos++] = sep`, then the copy. -/
def putMember (cap : ℕ) (sep : UInt8) (x : Bytes) (st : Bytes × ℕ) : Option (Bytes × ℕ) :=
  if st.2 ≠ 0 ∧ st.2 < cap - 1 then
    (store st.1 st.2 sep).bind fun out => copyBytes cap x (out, st.2 + 1)
  else copyBytes cap x st

/-- What the buffer holds once `full` has been asked for: as much of it as fits before the NUL. -/
structure Holds (cap : ℕ) (full : Bytes) (st : Bytes × ℕ) : Prop where
  length_eq : st.1.length = cap
  pos_eq : st.2 = (cut cap full).length
  isPrefix : cut cap full <+: st.1

variable {cap : ℕ} {full : Bytes} {st : Bytes × ℕ}

theorem holds_nil {out : Bytes} (h : out.length = cap) : Holds cap [] (out, 0) where
  length_eq := h
  pos_eq := by simp [cut]
  isPrefix := by simp [cut]

/-- One more byte, when there is room. -/
theorem Holds.store (h : Holds cap full st) (c : UInt8) (hroom : st.2 < cap - 1) :
    ∃ out, Buffer.store st.1 st.2 c = some out ∧ Holds cap (full ++ [c]) (out, st.2 + 1) := by
  obtain ⟨rest, hrest⟩ := h.isPrefix
  have hcut : cut cap full = full := by
    refine cut_of_lt ?_
    have hpos := h.pos_eq
    rw [cut, List.length_take] at hpos
    omega
  have hpos : st.2 = full.length := by rw [h.pos_eq, hcut]
  rw [hcut] at hrest
  have hlen := h.length_eq
  rw [← hrest, List.length_append] at hlen
  obtain ⟨b, rest, rfl⟩ := List.exists_cons_of_length_pos (l := rest) (by omega)
  have hcut' : cut cap (full ++ [c]) = full ++ [c] :=
    cut_of_lt (by rw [List.length_append, List.length_singleton]; omega)
  refine ⟨full ++ c :: rest, by rw [← hrest, hpos, store_append], ?_⟩
  constructor
  · rw [List.length_cons] at hlen
    rw [List.length_append, List.length_cons, hlen]
  · rw [hcut', hpos, List.length_append, List.length_singleton]
  · rw [hcut']
    exact ⟨rest, by simp⟩

/-- A full buffer holds more text just as well. -/
theorem Holds.append (h : Holds cap full st) (s : Bytes) (hroom : ¬ st.2 < cap - 1) :
    Holds cap (full ++ s) st := by
  have hpos := h.pos_eq
  rw [cut, List.length_take] at hpos
  have hcut : cut cap (full ++ s) = cut cap full := List.take_append_of_le_length (by omega)
  refine ⟨h.length_eq, ?_, ?_⟩
  · rw [hcut, h.pos_eq]
  · rw [hcut]
    exact h.isPrefix

theorem Holds.copyBytes : ∀ (s : Bytes) {full : Bytes} {st : Bytes × ℕ}, Holds cap full st →
    ∃ st', Buffer.copyBytes cap s st = some st' ∧ Holds cap (full ++ s) st'
  | [], full, st, h => ⟨st, rfl, by rwa [List.append_nil]⟩
  | c :: s, full, st, h => by
    by_cases hroom : st.2 < cap - 1
    · obtain ⟨out, hout, hnext⟩ := h.store c hroom
      obtain ⟨st', hrun, hst'⟩ := Holds.copyBytes s hnext
      rw [List.append_assoc, List.singleton_append] at hst'
      refine ⟨st', ?_, hst'⟩
      rw [Buffer.copyBytes, if_pos hroom, hout, Option.bind_some, hrun]
    · exact ⟨st, by rw [Buffer.copyBytes, if_neg hroom], h.append _ hroom⟩

theorem copyBytes_full (s : Bytes) (hroom : ¬ st.2 < cap - 1) : copyBytes cap s st = some st := by
  cases s with
  | nil => rfl
  | cons c s => rw [copyBytes, if_neg hroom]

/-- **One member** is pushed behind what was asked for. -/
theorem Holds.putMember (h : Holds cap full st) (sep : UInt8) (x : Bytes) :
    ∃ st', Buffer.putMember cap sep x st = some st' ∧ Holds cap (push sep full x) st' := by
  have hpos := h.pos_eq
  rw [cut, List.length_take] at hpos
  rw [Buffer.putMember, push]
  by_cases hfull : full = []
  · rw [hfull, List.length_nil, Nat.min_zero] at hpos
    rw [if_neg fun hboth => hboth.1 hpos, if_pos hfull]
    exact Holds.copyBytes x h
  · rw [if_neg hfull]
    by_cases hroom : st.2 < cap - 1
    · have hlen := List.length_pos_of_ne_nil hfull
      obtain ⟨out, hout, hsep⟩ := h.store sep hroom
      rw [if_pos ⟨by omega, hroom⟩, hout, Option.bind_some]
      exact Holds.copyBytes x hsep
    · rw [if_neg fun hboth => hroom hboth.2, copyBytes_full x hroom, List.append_assoc]
      exact ⟨st, rfl, h.append _ hroom⟩

/-- The NUL at the end: the text is there, and more may follow. -/
theorem Holds.finish (h : Holds cap full st) (hcap : 0 < cap) :
    ∃ rest, Buffer.store st.1 st.2 0 = some (cut cap full ++ 0 :: rest) ∧
      Holds cap full (cut cap full ++ 0 :: rest, st.2) := by
  obtain ⟨rest, hrest⟩ := h.isPrefix
  have hlt := length_cut_lt hcap full
  have hlen := h.length_eq
  rw [← hrest, List.length_append] at hlen
  obtain ⟨b, rest, rfl⟩ := List.exists_cons_of_length_pos (l := rest) (by omega)
  refine ⟨rest, by rw [← hrest, h.pos_eq, store_append], ?_, h.pos_eq, List.prefix_append _ _⟩
  rw [List.length_cons] at hlen
  rw [List.length_append, List.length_cons, hlen]

end Buffer
