import Mathlib

/-!
# Painting into a frame of pixels

A frame lies in memory row by row, `stride` cells a row.  `storeAll` writes one colour to a list of cells
and fails outside the memory; `storeAll_spec` says what the memory holds afterwards.  A picture is a list of
strokes, each over the ones before it: `top` is the stroke that is seen at a point, and `foldlM_painted` says
that a frame painted stroke by stroke shows at every point the colour of its top stroke.
-/

namespace Raster

/-! ### Memory -/

section Memory

variable {α : Type*} {c : α} {bits : List α} {is : List ℤ}

/-- The value `c` at the cell `i`. -/
def store (c : α) (bits : List α) (i : ℤ) : Option (List α) :=
  if 0 ≤ i ∧ i < bits.length then some (bits.set i.toNat c) else none

/-- The value `c` at one cell after the other. -/
def storeAll (c : α) (is : List ℤ) (bits : List α) : Option (List α) := is.foldlM (store c) bits

theorem storeAll_spec : ∀ {is : List ℤ} {bits : List α}, (∀ i ∈ is, 0 ≤ i ∧ i < bits.length) →
    ∃ bits', storeAll c is bits = some bits' ∧ bits'.length = bits.length ∧
      ∀ k < bits.length, bits'[k]? = if (k : ℤ) ∈ is then some c else bits[k]?
  | [], bits, _ => ⟨bits, rfl, rfl, fun k _ => by rw [if_neg List.not_mem_nil]⟩
  | i :: is, bits, h => by
    obtain ⟨h0, hlt⟩ := h i List.mem_cons_self
    have hset : (bits.set i.toNat c).length = bits.length := List.length_set
    have hrest : ∀ j ∈ is, 0 ≤ j ∧ j < (bits.set i.toNat c).length := fun j hj => by
      rw [hset]
      exact h j (List.mem_cons_of_mem i hj)
    obtain ⟨bits', hrun, hlen, hread⟩ := storeAll_spec hrest
    refine ⟨bits', ?_, hlen.trans hset, fun k hk => ?_⟩
    · rw [storeAll, List.foldlM_cons, store, if_pos ⟨h0, hlt⟩]
      exact hrun
    · rw [hread k (hset ▸ hk)]
      by_cases hmem : (k : ℤ) ∈ is
      · rw [if_pos hmem, if_pos (List.mem_cons_of_mem i hmem)]
      · rw [if_neg hmem]
        by_cases hki : (k : ℤ) = i
        · have hk' : i.toNat = k := by omega
          rw [if_pos (hki ▸ List.mem_cons_self), hk', List.getElem?_set_self hk]
        · have hnot : (k : ℤ) ∉ i :: is := fun h => (List.mem_cons.mp h).elim hki hmem
          rw [if_neg hnot, List.getElem?_set_ne (by omega)]

/-- Where the pixel `(x, y)` lies. -/
def cell (stride x y : ℤ) : ℤ := y * stride + x

theorem cell_inj {stride x y x' y' : ℤ} (hx : 0 ≤ x ∧ x < stride) (hx' : 0 ≤ x' ∧ x' < stride) :
    cell stride x y = cell stride x' y' ↔ x = x' ∧ y = y' := by
  refine ⟨fun h => ?_, fun ⟨hx, hy⟩ => by rw [hx, hy]⟩
  have hdiv : ∀ a b : ℤ, 0 ≤ a ∧ a < stride → (b * stride + a) / stride = b := fun a b ha => by
    rw [Int.add_comm, Int.add_mul_ediv_right _ _ (by omega), Int.ediv_eq_zero_of_lt ha.1 ha.2, zero_add]
  have hy : y = y' := by
    rw [← hdiv x y hx, ← hdiv x' y' hx']
    exact congrArg (· / stride) h
  subst hy
  exact ⟨by simpa [cell] using h, rfl⟩

theorem cell_mem {stride height x y : ℤ} (hx : 0 ≤ x ∧ x < stride) (hy : 0 ≤ y ∧ y < height) :
    0 ≤ cell stride x y ∧ cell stride x y < stride * height := by
  have hlast : (y + 1) * stride ≤ height * stride := Int.mul_le_mul_of_nonneg_right (by omega) (by omega)
  have hfirst : 0 ≤ y * stride := Int.mul_nonneg hy.1 (by omega)
  rw [Int.mul_comm stride height, cell]
  constructor
  · omega
  · have : (y + 1) * stride = y * stride + stride := by ring
    omega

end Memory

/-! ### Strokes -/

section Strokes

variable {σ ι α β : Type*} {covers : σ → ι → Prop} [∀ s, DecidablePred (covers s)] {s : σ} {p : ι}
  {l m : List σ}

variable (covers) in
/-- The last stroke that covers a point. -/
def top : List σ → ι → Option σ
  | [], _ => none
  | s :: l, p => (top l p).or (if covers s p then some s else none)

theorem top_congr {covers' : σ → ι → Prop} [∀ s, DecidablePred (covers' s)] :
    ∀ {l : List σ}, (∀ s ∈ l, covers s p ↔ covers' s p) → top covers l p = top covers' l p
  | [], _ => rfl
  | s :: l, h => by
    rw [top, top, top_congr fun t ht => h t (List.mem_cons_of_mem s ht)]
    simp only [h s List.mem_cons_self]

theorem top_append : ∀ l m : List σ, top covers (l ++ m) p = (top covers m p).or (top covers l p)
  | [], m => by rw [List.nil_append, top, Option.or_none]
  | s :: l, m => by rw [List.cons_append, top, top, top_append l m, Option.or_assoc]

theorem top_eq_none : ∀ {l : List σ}, (∀ s ∈ l, ¬ covers s p) → top covers l p = none
  | [], _ => rfl
  | s :: l, h => by
    rw [top, if_neg (h s List.mem_cons_self), Option.or_none]
    exact top_eq_none fun t ht => h t (List.mem_cons_of_mem s ht)

theorem exists_top : ∀ {l : List σ}, (∃ s ∈ l, covers s p) → ∃ s ∈ l, covers s p ∧ top covers l p = some s
  | [], ⟨_, hs, _⟩ => absurd hs List.not_mem_nil
  | s :: l, h => by
    by_cases hl : ∃ t ∈ l, covers t p
    · obtain ⟨t, ht, hcovers, htop⟩ := exists_top hl
      exact ⟨t, List.mem_cons_of_mem s ht, hcovers, by rw [top, htop, Option.some_or]⟩
    · obtain ⟨t, ht, hcovers⟩ := h
      obtain rfl : t = s := (List.mem_cons.mp ht).resolve_right fun ht => hl ⟨t, ht, hcovers⟩
      refine ⟨t, List.mem_cons_self, hcovers, ?_⟩
      rw [top, top_eq_none fun u hu hc => hl ⟨u, hu, hc⟩, Option.none_or, if_pos hcovers]

/-- What is painted over something else, and not painted over, is seen. -/
theorem top_between {pre mid post : List σ} (hmid : ∃ s ∈ mid, covers s p) (hpost : ∀ s ∈ post, ¬ covers s p) :
    ∃ s ∈ mid, covers s p ∧ top covers (pre ++ mid ++ post) p = some s := by
  obtain ⟨s, hs, hcovers, htop⟩ := exists_top hmid
  exact ⟨s, hs, hcovers, by rw [top_append, top_eq_none hpost, Option.none_or, top_append, htop,
    Option.some_or]⟩

variable (covers) in
/-- **Painting in order.**  Where each stroke leaves its colour at the points it covers and the others as
they were, a point shows the colour of the top stroke. -/
theorem foldlM_painted {fill : β → σ → Option β} {view : β → ι → α} {color : σ → α} {I : β → Prop}
    {D : ι → Prop}
    (hfill : ∀ b s, I b → ∃ b', fill b s = some b' ∧ I b' ∧
      ∀ p, D p → view b' p = if covers s p then color s else view b p) :
    ∀ (l : List σ) {b : β}, I b → ∃ b', l.foldlM fill b = some b' ∧ I b' ∧
      ∀ p, D p → view b' p = (top covers l p).elim (view b p) color
  | [], b, hb => ⟨b, rfl, hb, fun _ _ => rfl⟩
  | s :: l, b, hb => by
    obtain ⟨b₁, hrun, hb₁, hview⟩ := hfill b s hb
    obtain ⟨b₂, hrun₂, hb₂, hview₂⟩ := foldlM_painted hfill l hb₁
    refine ⟨b₂, by rw [List.foldlM_cons, hrun]; exact hrun₂, hb₂, fun p hp => ?_⟩
    rw [hview₂ p hp, top, hview p hp]
    cases top covers l p with
    | some t => rfl
    | none => split_ifs <;> rfl

end Strokes

end Raster
