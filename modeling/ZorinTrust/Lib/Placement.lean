import ZorinTrust.Lib.Packed

/-!
# Texts at offsets

A writer that records where it puts things, and a reader that follows the offsets.  `At b off item` says
that a text stands at an offset of another; it survives whatever is added before and behind.  Records of
the same widths in a row are read back one by one.
-/

namespace Placement

open CText Packed

variable {b s s' item x y : Bytes} {off : ℕ}

/-- A text stands at an offset of another. -/
def At (b : Bytes) (off : ℕ) (item : Bytes) : Prop := ∃ pre post, b = pre ++ (item ++ post) ∧ off = pre.length

theorem At.mono (h : At s off item) (hs : s <+: s') : At s' off item := by
  obtain ⟨pre, post, rfl, hoff⟩ := h
  obtain ⟨more, rfl⟩ := hs
  exact ⟨pre, post ++ more, by rw [List.append_assoc, List.append_assoc], hoff⟩

theorem At.shift (h : At s off item) (before : Bytes) : At (before ++ s) (before.length + off) item := by
  obtain ⟨pre, post, rfl, rfl⟩ := h
  exact ⟨before ++ pre, post, (List.append_assoc _ _ _).symm, List.length_append.symm⟩

theorem At.left (h : At b off (x ++ y)) : At b off x := by
  obtain ⟨pre, post, rfl, hoff⟩ := h
  exact ⟨pre, y ++ post, by rw [List.append_assoc], hoff⟩

theorem At.right (h : At b off (x ++ y)) : At b (off + x.length) y := by
  obtain ⟨pre, post, rfl, rfl⟩ := h
  exact ⟨pre ++ x, post, by simp only [List.append_assoc], List.length_append.symm⟩

theorem At.le_length (h : At b off item) : off ≤ b.length := by
  obtain ⟨pre, post, rfl, rfl⟩ := h
  rw [List.length_append]
  exact Nat.le_add_right _ _

theorem At.drop (h : At b off item) : ∃ post, b.drop off = item ++ post := by
  obtain ⟨pre, post, rfl, rfl⟩ := h
  exact ⟨post, List.drop_left⟩

theorem At.within (h : At b off item) : item <:+: b := by
  obtain ⟨pre, post, rfl, -⟩ := h
  exact ⟨pre, post, List.append_assoc _ _ _⟩

theorem At.unpackAll {fs : List (ℕ × ℕ)} (h : At b off (leAll fs)) (hlt : ∀ f ∈ fs, f.2 < 256 ^ f.1) :
    unpackAll (fs.map Prod.fst) b off = some (fs.map Prod.snd) := by
  obtain ⟨pre, post, hb, hoff⟩ := h
  exact unpackAll_leAll hb hoff hlt

/-- What stands in a section stands in the file, `start` further on. -/
def Carries (start : ℕ) (s b : Bytes) : Prop := ∀ k item, At s k item → At b (start + k) item

theorem Carries.mono {start : ℕ} (h : Carries start s' b) (hs : s <+: s') : Carries start s b :=
  fun k item hat => h k item (hat.mono hs)

theorem carries_append (before s more : Bytes) : Carries before.length s (before ++ (s ++ more)) :=
  fun _ _ hat => (hat.mono (List.prefix_append s more)).shift before

/-! ### Records -/

/-- The fields of a record that was packed fit. -/
theorem lt_of_packAll : ∀ {fs : List (ℕ × ℕ)} {out : Bytes}, packAll fs = some out →
    ∀ f ∈ fs, f.2 < 256 ^ f.1
  | [], _, _, _, hf => absurd hf List.not_mem_nil
  | (w, n) :: fs, out, h, f, hf => by
    obtain ⟨c, hc, h⟩ := Option.bind_eq_some_iff.mp h
    obtain ⟨rest, hrest, -⟩ := Option.bind_eq_some_iff.mp h
    obtain rfl | hf := List.mem_cons.mp hf
    · exact (pack_eq_some.mp hc).1
    · exact lt_of_packAll hrest f hf

theorem map_fst_fields {α : Type*} (w : ℕ) (value : α → ℕ) (l : List α) :
    (l.map fun a => (w, value a)).map Prod.fst = List.replicate l.length w := by
  rw [List.map_map, ← List.map_const']
  rfl

/-- So many records of the same widths. -/
def readRecords (ws : List ℕ) (b : Bytes) : ℕ → ℕ → Option (List (List ℕ))
  | 0, _ => some []
  | n + 1, off => do
    let r ← Packed.unpackAll ws b off
    return r :: (← readRecords ws b n (off + ws.sum))

theorem At.readRecords {w : List ℕ} : ∀ {rs : List (List (ℕ × ℕ))} {off : ℕ}, At b off (leAll rs.flatten) →
    (∀ r ∈ rs, r.map Prod.fst = w) → (∀ f ∈ rs.flatten, f.2 < 256 ^ f.1) →
      readRecords w b rs.length off = some (rs.map fun r => r.map Prod.snd)
  | [], _, _, _, _ => rfl
  | r :: rs, off, h, hws, hlt => by
    rw [List.flatten_cons, leAll_append] at h
    rw [List.forall_mem_cons] at hws
    rw [List.flatten_cons, List.forall_mem_append] at hlt
    have hread := h.left.unpackAll hlt.1
    have hbehind := h.right
    rw [length_leAll, hws.1] at hbehind
    rw [hws.1] at hread
    rw [List.length_cons, Placement.readRecords, hread, hbehind.readRecords hws.2 hlt.2]
    rfl

theorem length_leAll_flatten {w : List ℕ} : ∀ {rs : List (List (ℕ × ℕ))}, (∀ r ∈ rs, r.map Prod.fst = w) →
    (leAll rs.flatten).length = rs.length * w.sum
  | [], _ => by rw [List.length_nil, Nat.zero_mul]; rfl
  | r :: rs, h => by
    rw [List.forall_mem_cons] at h
    rw [List.flatten_cons, leAll_append, List.length_append, length_leAll, h.1, length_leAll_flatten h.2,
      List.length_cons, Nat.add_mul, Nat.one_mul, Nat.add_comm]

/-! ### Lists read element by element -/

theorem mapM_map {α β γ : Type*} {f : β → Option γ} {g : α → β} {h : α → γ} : ∀ {l : List α},
    (∀ a ∈ l, f (g a) = some (h a)) → (l.map g).mapM f = some (l.map h)
  | [], _ => rfl
  | a :: l, hf => by
    rw [List.forall_mem_cons] at hf
    rw [List.map_cons, List.mapM_cons, hf.1, mapM_map hf.2]
    rfl

/-- A table of records is read back element by element. -/
theorem exists_table {α : Type*} {l : List α} {fields : α → List (ℕ × ℕ)} {ws : List ℕ} {f : List ℕ → Option α}
    (hat : At b off (leAll (l.map fields).flatten)) (hws : ∀ a, (fields a).map Prod.fst = ws)
    (hlt : ∀ c ∈ (l.map fields).flatten, c.2 < 256 ^ c.1)
    (hf : ∀ a ∈ l, f ((fields a).map Prod.snd) = some a) :
    ∃ rs, readRecords ws b l.length off = some rs ∧ rs.mapM f = some l := by
  have hwidths : ∀ r ∈ l.map fields, r.map Prod.fst = ws := by
    intro r hr
    obtain ⟨a, -, rfl⟩ := List.mem_map.mp hr
    exact hws a
  have hread := hat.readRecords hwidths hlt
  rw [List.length_map, List.map_map] at hread
  refine ⟨_, hread, ?_⟩
  have hall := mapM_map (g := fun a => (fields a).map Prod.snd) (h := id) hf
  rwa [List.map_id] at hall

theorem mapM_of_forall₂ {α β : Type*} {f : β → Option α} : ∀ {l : List α} {m : List β},
    List.Forall₂ (fun a c => f c = some a) l m → m.mapM f = some l
  | [], _, .nil => rfl
  | a :: l, _, .cons h hs => by
    rw [List.mapM_cons, h, mapM_of_forall₂ hs]
    rfl

theorem exists_foldlM {α σ : Type*} {f : σ → α → Option σ} : ∀ {l : List α} {st : σ},
    (∀ a ∈ l, ∀ st, ∃ st', f st a = some st') → ∃ st', l.foldlM f st = some st'
  | [], st, _ => ⟨st, rfl⟩
  | a :: l, st, h => by
    rw [List.forall_mem_cons] at h
    obtain ⟨st₁, hturn⟩ := h.1 st
    obtain ⟨st', hrun⟩ := exists_foldlM h.2
    exact ⟨st', by rw [List.foldlM_cons, hturn, Option.bind_eq_bind, Option.bind_some, hrun]⟩

/-- A loop that adds at most `k` at every turn. -/
theorem foldlM_grows {α σ : Type*} {f : σ → α → Option σ} (size : σ → ℕ) {k : ℕ} : ∀ {l : List α} {st st' : σ},
    (∀ a ∈ l, ∀ st st', f st a = some st' → size st' ≤ size st + k) → l.foldlM f st = some st' →
      size st' ≤ size st + l.length * k
  | [], st, st', _, h => by
    obtain rfl := Option.some.inj h
    exact Nat.le_add_right _ _
  | a :: l, st, st', hstep, h => by
    rw [List.forall_mem_cons] at hstep
    rw [List.foldlM_cons] at h
    obtain ⟨st₁, hturn, h⟩ := Option.bind_eq_some_iff.mp h
    have hfirst := hstep.1 st st₁ hturn
    have hrest := foldlM_grows size hstep.2 h
    rw [List.length_cons, Nat.add_mul, Nat.one_mul]
    omega

/-- A writer that adds at most `k` bytes and one offset at every turn. -/
theorem length_le_of_foldlM {α β : Type*} {f : Bytes × List β → α → Option (Bytes × List β)} {k : ℕ} {l : List α}
    {data data' : Bytes} {offs : List β}
    (hturn : ∀ a ∈ l, ∀ st st', f st a = some st' →
      st'.1.length ≤ st.1.length + k ∧ st'.2.length ≤ st.2.length + 1)
    (h : l.foldlM f (data, []) = some (data', offs)) :
    data'.length ≤ data.length + l.length * k ∧ offs.length ≤ l.length := by
  have hdata := foldlM_grows (fun st : Bytes × List β => st.1.length)
    (fun a ha st st' hst => (hturn a ha st st' hst).1) h
  have hoffs := foldlM_grows (fun st : Bytes × List β => st.2.length)
    (fun a ha st st' hst => (hturn a ha st st' hst).2) h
  exact ⟨hdata, by simpa using hoffs⟩

/-- What a table of offsets gives, the missing ones being zero. -/
theorem getD_lookup_lt {α : Type*} [BEq α] {l : List (α × ℕ)} {bound : ℕ} (hbound : 0 < bound)
    (h : ∀ a n, l.lookup a = some n → n < bound) (a : α) : (l.lookup a).getD 0 < bound := by
  cases hl : l.lookup a with
  | none => exact hbound
  | some n => exact h a n hl

theorem exists_of_forall₂ {α β : Type*} {r : α → β → Prop} : ∀ {l : List α} {m : List β}, List.Forall₂ r l m →
    ∀ a ∈ l, ∃ c ∈ m, r a c
  | [], _, _, _, ha => absurd ha List.not_mem_nil
  | _ :: _, _, .cons h hs, a, ha => by
    obtain rfl | ha := List.mem_cons.mp ha
    · exact ⟨_, List.mem_cons_self, h⟩
    · obtain ⟨c, hc, hac⟩ := exists_of_forall₂ hs a ha
      exact ⟨c, List.mem_cons_of_mem _ hc, hac⟩

end Placement
