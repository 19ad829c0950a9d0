import ZorinTrust.Session

/-!
# Receiving a frame in pieces

The two receive loops look for the end of a frame each time `recv` returns.  A `Frame` is a text that
ends with a line END and has none before.  `recvLoop_eq_some_iff` reduces a loop to its test: it returns
the whole text exactly when the test holds of it and of no text received before.  What the tests say of
the beginnings of a frame is the condition under which the cut does not matter.
-/

namespace ZorinTrust

open CText

/-! ### The loop and its test -/

/-- The bytes received when some chunk but the last one is in. -/
def Boundary (chunks : List Bytes) (q : Bytes) : Prop :=
  ∃ i, 0 < i ∧ i < chunks.length ∧ q = (chunks.take i).flatten

theorem boundary_cons {c q : Bytes} {chunks : List Bytes} (h : chunks ≠ []) :
    Boundary (c :: chunks) q ↔ q = c ∨ ∃ q', Boundary chunks q' ∧ q = c ++ q' := by
  have hpos : 0 < chunks.length := List.length_pos_iff.mpr h
  constructor
  · rintro ⟨i, h0, hi, rfl⟩
    obtain ⟨j, rfl⟩ : ∃ j, i = j + 1 := ⟨i - 1, by omega⟩
    rw [List.take_succ_cons, List.flatten_cons]
    by_cases hj : j = 0
    · left
      rw [hj, List.take_zero, List.flatten_nil, List.append_nil]
    · right
      rw [List.length_cons] at hi
      exact ⟨_, ⟨j, by omega, by omega, rfl⟩, rfl⟩
  · rintro (rfl | ⟨q', ⟨i, h0, hi, rfl⟩, rfl⟩)
    · refine ⟨1, by omega, by rw [List.length_cons]; omega, ?_⟩
      rw [List.take_succ_cons, List.take_zero, List.flatten_cons, List.flatten_nil, List.append_nil]
    · refine ⟨i + 1, by omega, by rw [List.length_cons]; omega, ?_⟩
      rw [List.take_succ_cons, List.flatten_cons]

theorem not_boundary_singleton {c q : Bytes} : ¬ Boundary [c] q := by
  rintro ⟨i, h0, hi, -⟩
  rw [List.length_singleton] at hi
  omega

theorem Boundary.isPrefix {chunks : List Bytes} {q : Bytes} (h : Boundary chunks q) :
    q <+: chunks.flatten := by
  obtain ⟨i, -, -, rfl⟩ := h
  conv_rhs => rw [← List.take_append_drop i chunks, List.flatten_append]
  exact List.prefix_append _ _

/-- With no empty chunk, what comes after a boundary is not empty. -/
theorem Boundary.ne {chunks : List Bytes} {q : Bytes} (hne : ∀ c ∈ chunks, c ≠ [])
    (h : Boundary chunks q) : q ≠ chunks.flatten := by
  obtain ⟨i, -, hi, rfl⟩ := h
  intro heq
  conv_rhs at heq => rw [← List.take_append_drop i chunks, List.flatten_append]
  rw [List.self_eq_append_right, List.flatten_eq_nil_iff] at heq
  have hmem : chunks[i] ∈ chunks.drop i := List.mem_drop_iff_getElem.mpr ⟨0, by omega, rfl⟩
  exact hne _ (List.getElem_mem hi) (heq _ hmem)

theorem recvLoop_append_iff {done : Bytes → Bool} {cap : ℕ} : ∀ {chunks : List Bytes} {out : Bytes},
    (∀ c ∈ chunks, c ≠ []) → chunks ≠ [] → (out ++ chunks.flatten).length < cap →
      (recvLoop done cap out chunks = some (out ++ chunks.flatten) ↔
        done (out ++ chunks.flatten) = true ∧ ∀ q, Boundary chunks q → done (out ++ q) = false)
  | [], _, _, h, _ => absurd rfl h
  | c :: chunks, out, hne, _, hfit => by
    have hc : c ≠ [] := hne c List.mem_cons_self
    have hrest : ∀ d ∈ chunks, d ≠ [] := fun d hd => hne d (List.mem_cons_of_mem _ hd)
    rw [List.flatten_cons, ← List.append_assoc] at hfit ⊢
    have hroom : c.length ≤ cap - 1 - out.length := by
      simp only [List.length_append] at hfit
      omega
    rw [recvLoop]
    simp only [List.take_of_length_le hroom, if_neg hc]
    by_cases hlast : chunks = []
    · subst hlast
      rw [List.flatten_nil, List.append_nil]
      by_cases hd : done (out ++ c) = true
      · rw [if_pos hd]
        exact ⟨fun _ => ⟨hd, fun q hq => absurd hq not_boundary_singleton⟩, fun _ => rfl⟩
      · rw [if_neg hd, recvLoop]
        constructor
        · intro h
          cases h
        · intro h
          exact absurd h.1 hd
    · have hcons : ∀ q, Boundary (c :: chunks) q ↔ _ := fun q => boundary_cons hlast
      by_cases hd : done (out ++ c) = true
      · rw [if_pos hd]
        constructor
        · intro h
          have hnil := List.self_eq_append_right.mp (Option.some.inj h)
          obtain ⟨d, ds, rfl⟩ := List.exists_cons_of_ne_nil hlast
          exact absurd (List.flatten_eq_nil_iff.mp hnil d List.mem_cons_self)
            (hrest d List.mem_cons_self)
        · rintro ⟨-, h⟩
          rw [h c ((hcons c).mpr (Or.inl rfl))] at hd
          cases hd
      · rw [if_neg hd, recvLoop_append_iff hrest hlast hfit]
        apply and_congr_right
        intro _
        constructor
        · intro h q hq
          rcases (hcons q).mp hq with rfl | ⟨q', hq', rfl⟩
          · simpa using hd
          · rw [← List.append_assoc]
            exact h q' hq'
        · intro h q hq
          rw [List.append_assoc]
          exact h (c ++ q) ((hcons _).mpr (Or.inr ⟨q, hq, rfl⟩))

/-- **What a receive loop returns**: the whole text, exactly when the test holds of it and of nothing
received before. -/
theorem recvLoop_eq_some_iff {done : Bytes → Bool} {cap : ℕ} {chunks : List Bytes} {f : Bytes}
    (hne : ∀ c ∈ chunks, c ≠ []) (hf : chunks.flatten = f) (h0 : f ≠ []) (hfit : f.length < cap) :
    recvLoop done cap [] chunks = some f ↔
      done f = true ∧ ∀ q, Boundary chunks q → done q = false := by
  subst hf
  have hchunks : chunks ≠ [] := by
    rintro rfl
    exact h0 rfl
  exact recvLoop_append_iff hne hchunks hfit

/-! ### Frames -/

/-- The text ends with a line END; a line ends with LF or with CR LF. -/
def EndLine (q : Bytes) : Prop :=
  ∃ eol ∈ [[10], [13, 10]], q = lit "END" ++ eol ∨ 10 :: (lit "END" ++ eol) <:+ q

instance (q : Bytes) : Decidable (EndLine q) := inferInstanceAs (Decidable (∃ _ ∈ _, _ ∨ _))

/-- A text whose last line is END and no other. -/
structure Frame (f : Bytes) : Prop where
  closed : EndLine f
  first : ∀ i < f.length, ¬ EndLine (f.take i)

theorem EndLine.ne_nil {q : Bytes} (h : EndLine q) : q ≠ [] := by
  rintro rfl
  exact absurd h (by decide)

/-- An END line that a beginning of a frame holds is the end of the frame. -/
theorem Frame.of_infix {f q n : Bytes} (h : Frame f) (hq : q <+: f) (hn : ∀ a, EndLine (a ++ n))
    (hin : n <:+: q) : q = f ∧ n <:+ f := by
  obtain ⟨a, b, rfl⟩ := hin
  have hpre : a ++ n <+: f := (List.prefix_append _ _).trans hq
  have hlen : f.length ≤ (a ++ n).length := by
    by_contra hlt
    have htake := List.prefix_iff_eq_take.mp hpre
    apply h.first _ (not_le.mp hlt)
    rw [← htake]
    exact hn a
  have hf : a ++ n = f := hpre.eq_of_length_le hlen
  refine ⟨hq.eq_of_length_le ?_, ⟨a, hf⟩⟩
  rw [List.length_append]
  omega

theorem endLine_append {eol : Bytes} (heol : eol ∈ [[10], [13, 10]]) (a : Bytes) :
    EndLine (a ++ 10 :: (lit "END" ++ eol)) :=
  ⟨eol, heol, Or.inr (List.suffix_append _ _)⟩

theorem endLine_crlf (a : Bytes) : EndLine (a ++ lit "\r\nEND\r\n") := by
  have h : EndLine ((a ++ [13]) ++ 10 :: (lit "END" ++ [13, 10])) := endLine_append (by simp) _
  rwa [List.append_assoc] at h

theorem endLine_lf (a : Bytes) : EndLine (a ++ lit "\nEND\n") := by
  have h : EndLine (a ++ 10 :: (lit "END" ++ [10])) := endLine_append (by simp) a
  exact h

/-- Of a beginning of a frame the two searches for END find the whole frame, if anything. -/
theorem Frame.strstr_end {f q : Bytes} (h : Frame f) (hq : q <+: f) :
    strstr (cstr q) (lit "\nEND\n") = true ∨ strstr (cstr q) (lit "\r\nEND\r\n") = true ↔
      q = f ∧ 0 ∉ f ∧ (lit "\nEND\n" <:+ f ∨ lit "\r\nEND\r\n" <:+ f) := by
  have hpre : cstr q <+: f := (cstr_isPrefix q).trans hq
  have hwhole {n : Bytes} (hn : ∀ a, EndLine (a ++ n)) (hin : strstr (cstr q) n = true) :
      q = f ∧ 0 ∉ f ∧ n <:+ f := by
    obtain ⟨hcut, hsuf⟩ := h.of_infix hpre hn (strstr_iff.mp hin)
    have hqf : q = f := by
      apply hq.eq_of_length_le
      rw [← hcut]
      exact (cstr_isPrefix q).length_le
    subst hqf
    exact ⟨rfl, cstr_eq_self_iff.mp hcut, hsuf⟩
  constructor
  · rintro (hin | hin)
    · obtain ⟨h1, h2, h3⟩ := hwhole endLine_lf hin
      exact ⟨h1, h2, Or.inl h3⟩
    · obtain ⟨h1, h2, h3⟩ := hwhole endLine_crlf hin
      exact ⟨h1, h2, Or.inr h3⟩
  · rintro ⟨rfl, h0, hsuf⟩
    rw [cstr_of_nulFree h0, strstr_iff, strstr_iff]
    exact hsuf.imp List.IsSuffix.isInfix List.IsSuffix.isInfix

/-- `out[pos-4..pos-2]` is `END`: END and one more byte. -/
theorem endsInEnd_iff {q : Bytes} : endsInEnd q = true ↔ ∃ c, lit "END" ++ [c] <:+ q := by
  unfold endsInEnd
  constructor
  · intro h
    rw [Bool.and_eq_true, decide_eq_true_eq, beq_iff_eq] at h
    have hlen : (q.drop (q.length - 4)).length = 4 := by rw [List.length_drop]; omega
    obtain ⟨c, hc⟩ : ∃ c, (q.drop (q.length - 4)).drop 3 = [c] := by
      apply List.length_eq_one_iff.mp
      rw [List.length_drop, hlen]
    refine ⟨c, ?_⟩
    rw [← h.2, ← hc, List.take_append_drop]
    exact List.drop_suffix _ _
  · rintro ⟨c, a, rfl⟩
    have hfour : (lit "END" ++ [c]).length = 4 := rfl
    have hlen : (a ++ (lit "END" ++ [c])).length - 4 = a.length := by
      rw [List.length_append]
      omega
    rw [hlen, List.drop_left, Bool.and_eq_true, decide_eq_true_eq]
    refine ⟨?_, rfl⟩
    rw [List.length_append]
    omega

/-- At the end of a frame that byte is the LF of its last line. -/
theorem Frame.endsInEnd_self {f : Bytes} (h : Frame f) : endsInEnd f = true ↔ lit "END\n" <:+ f := by
  have hlast : [10] <:+ f := by
    obtain ⟨eol, heol, hf⟩ := h.closed
    have hlf : [10] <:+ lit "END" ++ eol := by
      simp only [List.mem_cons, List.not_mem_nil, or_false] at heol
      rcases heol with rfl | rfl
      · exact List.suffix_append _ _
      · exact List.suffix_append (lit "END" ++ [13]) [10]
    rcases hf with rfl | hf
    · exact hlf
    · exact (hlf.trans (List.suffix_cons _ _)).trans hf
  rw [endsInEnd_iff]
  constructor
  · rintro ⟨c, hc⟩
    have hone : [c] <:+ f := (List.suffix_append _ _).trans hc
    have heq : [c] = [10] := (List.suffix_of_suffix_length_le hone hlast le_rfl).eq_of_length rfl
    rw [heq] at hc
    exact hc
  · exact fun hc => ⟨10, hc⟩

/-! ### The two loops -/

/-- The tests of `trust_recv_session_message` for a PONG. -/
def pongLine (q : Bytes) : Bool :=
  strstr (cstr q) (lit "PONG\n") || strstr (cstr q) (lit "PONG\r\n")

theorem frameDone_iff {f q : Bytes} (h : Frame f) (hq : q <+: f) : frameDone q = true ↔
    (q = f ∧ 0 ∉ f ∧ (lit "\nEND\n" <:+ f ∨ lit "\r\nEND\r\n" <:+ f)) ∨ endsInEnd q = true := by
  rw [frameDone, Bool.or_eq_true, Bool.or_eq_true, h.strstr_end hq]

theorem messageDone_iff {f q : Bytes} (h : Frame f) (hq : q <+: f) : messageDone q = true ↔
    pongLine q = true ∨ (q = f ∧ 0 ∉ f ∧ (lit "\nEND\n" <:+ f ∨ lit "\r\nEND\r\n" <:+ f)) := by
  rw [messageDone, Bool.or_eq_true, Bool.or_eq_true, or_assoc, h.strstr_end hq, pongLine]

/-- **Where the cut matters**: a frame comes out of `trust_recv_frame` whole unless a chunk ends right
after END and one more byte, and out of `trust_recv_session_message` unless one ends past a PONG. -/
theorem recv_segmentation_iff (cap : ℕ) (f : Bytes) (chunks : List Bytes) (hf : Frame f)
    (hfit : f.length < cap) (hne : ∀ c ∈ chunks, c ≠ []) (hcut : chunks.flatten = f) :
    (recvLoop frameDone cap [] chunks = some f ↔
      (∀ q, Boundary chunks q → endsInEnd q = false) ∧
        (lit "END\n" <:+ f ∨ 0 ∉ f ∧ lit "\r\nEND\r\n" <:+ f)) ∧
    (recvLoop messageDone cap [] chunks = some f ↔
      (∀ q, Boundary chunks q → pongLine q = false) ∧
        (pongLine f = true ∨ 0 ∉ f ∧ (lit "\nEND\n" <:+ f ∨ lit "\r\nEND\r\n" <:+ f))) := by
  have hbefore : ∀ q, Boundary chunks q → q <+: f ∧ q ≠ f := by
    intro q hq
    rw [← hcut]
    exact ⟨hq.isPrefix, hq.ne hne⟩
  constructor
  · rw [recvLoop_eq_some_iff hne hcut hf.closed.ne_nil hfit, and_comm]
    apply and_congr
    · apply forall₂_congr
      intro q hq
      obtain ⟨hpre, hproper⟩ := hbefore q hq
      rw [← Bool.not_eq_true, frameDone_iff hf hpre, ← Bool.not_eq_true]
      apply not_congr
      simp [hproper]
    · rw [frameDone_iff hf (List.prefix_refl f), hf.endsInEnd_self]
      have hlf : lit "\nEND\n" <:+ f → lit "END\n" <:+ f := (List.suffix_cons 10 (lit "END\n")).trans
      constructor
      · rintro (⟨-, h0, hsuf | hsuf⟩ | hsuf)
        · exact Or.inl (hlf hsuf)
        · exact Or.inr ⟨h0, hsuf⟩
        · exact Or.inl hsuf
      · rintro (hsuf | ⟨h0, hsuf⟩)
        · exact Or.inr hsuf
        · exact Or.inl ⟨rfl, h0, Or.inr hsuf⟩
  · rw [recvLoop_eq_some_iff hne hcut hf.closed.ne_nil hfit, and_comm]
    apply and_congr
    · apply forall₂_congr
      intro q hq
      obtain ⟨hpre, hproper⟩ := hbefore q hq
      rw [← Bool.not_eq_true, messageDone_iff hf hpre, ← Bool.not_eq_true]
      apply not_congr
      simp [hproper]
    · rw [messageDone_iff hf (List.prefix_refl f)]
      simp

theorem recv_segmentation_halves : recvLoop frameDone 4096 [] [lit "AUTH OK\nE", lit "ND\n"] =
    some (lit "AUTH OK\nEND\n") := by
  have hframe : Frame (lit "AUTH OK\nEND\n") := ⟨by decide, by decide⟩
  have hcut : [lit "AUTH OK\nE", lit "ND\n"].flatten = lit "AUTH OK\nEND\n" := by decide
  obtain ⟨hiff, -⟩ := recv_segmentation_iff 4096 _ _ hframe (by decide) (by decide) hcut
  rw [hiff]
  refine ⟨?_, Or.inl (by decide)⟩
  intro q hq
  rcases (boundary_cons (by decide)).mp hq with rfl | ⟨q', hq', -⟩
  · decide
  · exact absurd hq' not_boundary_singleton

/-- A hello whose first chunk ends with the host name FRIENDS comes out cut there. -/
theorem recv_segmentation_friends : ¬ ∀ (cap : ℕ) (f : Bytes) (chunks : List Bytes), Frame f →
    f.length < cap → (∀ c ∈ chunks, c ≠ []) → chunks.flatten = f →
      recvLoop frameDone cap [] chunks = some f ∧
        (f ≠ lit "PONG\n" → f ≠ lit "PONG\r\n" → recvLoop messageDone cap [] chunks = some f) := by
  intro h
  have hbad := (h 4096 (lit "ZTRUST/2\nHOST_NAME FRIENDS\nHOST_PUB aa\nHOST_NONCE 01\nEND\n")
    [lit "ZTRUST/2\nHOST_NAME FRIENDS", lit "\nHOST_PUB aa\nHOST_NONCE 01\nEND\n"]
    ⟨by decide, by decide +kernel⟩ (by decide) (by decide) (by decide)).1
  have hcut : recvLoop frameDone 4096 []
      [lit "ZTRUST/2\nHOST_NAME FRIENDS", lit "\nHOST_PUB aa\nHOST_NONCE 01\nEND\n"] =
        some (lit "ZTRUST/2\nHOST_NAME FRIENDS") := by
    decide
  rw [hcut] at hbad
  exact absurd hbad (by decide)

example : recvLoop messageDone 4096 [] [lit "PROOF_REQUEST\nNONCE xPONG\n", lit "END\n"] =
    some (lit "PROOF_REQUEST\nNONCE xPONG\n") := by decide

end ZorinTrust
