import Mathlib

/-!
# Loops that raise, return or go on

`loop size body s` is a `while` loop started at `s`, where one turn of `body` raises (`none`), leaves the
loop with a result or goes on with a new state, and `size` bounds the turns still to come.  When every
turn that goes on makes `size` smaller, the bound is never reached: `loop_eq` unfolds one turn and
mentions it no more.
-/

namespace Loop

variable {σ α : Type*} {size : σ → ℕ} {body : σ → Option (α ⊕ σ)} {s s' : σ} {a : α}

/-- At most `n` turns. -/
def turns (body : σ → Option (α ⊕ σ)) : ℕ → σ → Option α
  | 0, _ => none
  | n + 1, s => (body s).bind (Sum.elim some (turns body n))

/-- The loop itself. -/
def loop (size : σ → ℕ) (body : σ → Option (α ⊕ σ)) (s : σ) : Option α := turns body (size s + 1) s

/-- Every turn that goes on comes closer to the end. -/
def Descends (size : σ → ℕ) (body : σ → Option (α ⊕ σ)) : Prop :=
  ∀ s s', body s = some (Sum.inr s') → size s' < size s

/-- Any bound that is large enough gives the same result. -/
theorem turns_eq (h : Descends size body) :
    ∀ {n m : ℕ} {s : σ}, size s < n → size s < m → turns body n s = turns body m s
  | 0, _, _, hn, _ => absurd hn (Nat.not_lt_zero _)
  | _ + 1, 0, _, _, hm => absurd hm (Nat.not_lt_zero _)
  | n + 1, m + 1, s, hn, hm => by
    rw [turns, turns]
    refine Option.bind_congr fun r hr => ?_
    cases r with
    | inl a => rfl
    | inr s' =>
      have hlt := h s s' hr
      exact turns_eq h (by omega) (by omega)

theorem loop_eq (h : Descends size body) (s : σ) :
    loop size body s = (body s).bind (Sum.elim some (loop size body)) := by
  rw [loop, turns]
  refine Option.bind_congr fun r hr => ?_
  cases r with
  | inl a => rfl
  | inr s' => exact turns_eq h (h s s' hr) (Nat.lt_succ_self _)

/-- A turn that leaves the loop. -/
theorem loop_return (h : Descends size body) (hs : body s = some (Sum.inl a)) :
    loop size body s = some a := by
  rw [loop_eq h, hs, Option.bind_some, Sum.elim_inl]

/-- A turn that goes on. -/
theorem loop_next (h : Descends size body) (hs : body s = some (Sum.inr s')) :
    loop size body s = loop size body s' := by
  rw [loop_eq h, hs, Option.bind_some, Sum.elim_inr]

theorem turns_inv {I : σ → Prop} (step : ∀ s s', I s → body s = some (Sum.inr s') → I s') :
    ∀ {n : ℕ} {s : σ}, I s → turns body n s = some a → ∃ s', I s' ∧ body s' = some (Sum.inl a)
  | n + 1, s, hs, h => by
    obtain ⟨r, hr, h⟩ := Option.bind_eq_some_iff.mp h
    cases r with
    | inl b =>
      rw [Sum.elim_inl, Option.some.injEq] at h
      exact ⟨s, hs, h ▸ hr⟩
    | inr s' => exact turns_inv step (step s s' hs hr) h

/-- The invariant rule: a result comes from a last turn in a state that satisfies the invariant. -/
theorem loop_inv {I : σ → Prop} (step : ∀ s s', I s → body s = some (Sum.inr s') → I s') (hs : I s)
    (h : loop size body s = some a) : ∃ s', I s' ∧ body s' = some (Sum.inl a) := turns_inv step hs h

end Loop
