import Mathlib

/-!
# Runs of a labelled machine

A machine is a partial function `next : ℓ → σ → Option σ`: a label carries everything the
environment contributes to one step, and `none` means that the step cannot be taken.  `Run next ok s`
are the states reached from `s` by steps that all meet the condition `ok`, a condition on the label
and the state before the step.  `Run.invariant` is the induction every run result uses; `exec` runs a
given list of labels.
-/

namespace Machine

variable {σ ℓ : Type*} {next : ℓ → σ → Option σ}

/-- The states reached from `s` by steps that meet `ok`. -/
inductive Run (next : ℓ → σ → Option σ) (ok : σ → ℓ → Prop) (s : σ) : σ → Prop
  | refl : Run next ok s s
  | step {t u : σ} {l : ℓ} : Run next ok s t → ok t l → next l t = some u → Run next ok s u

/-- Every step is allowed. -/
abbrev Reach (next : ℓ → σ → Option σ) : σ → σ → Prop := Run next fun _ _ => True

variable {ok ok' : σ → ℓ → Prop} {s t u : σ}

/-- **Invariant rule**: what holds at the start and survives every allowed step holds in every run. -/
theorem Run.invariant {I : σ → Prop} (h0 : I s)
    (hstep : ∀ t l u, I t → ok t l → next l t = some u → I u) (h : Run next ok s t) : I t := by
  induction h with
  | refl => exact h0
  | step _ hok hnext ih => exact hstep _ _ _ ih hok hnext

theorem Run.mono (hok : ∀ t l, ok t l → ok' t l) (h : Run next ok s t) : Run next ok' s t := by
  induction h with
  | refl => exact .refl
  | step _ h1 h2 ih => exact ih.step (hok _ _ h1) h2

theorem Run.reach (h : Run next ok s t) : Reach next s t := h.mono fun _ _ _ => trivial

theorem Run.trans (h : Run next ok s t) (h' : Run next ok t u) : Run next ok s u := by
  induction h' with
  | refl => exact h
  | step _ h1 h2 ih => exact ih.step h1 h2

/-- **Invariant rule over reachable states**: a step may use what is known of every reachable state. -/
theorem Run.invariant_of_reach {I : σ → Prop} (h0 : I s)
    (hstep : ∀ t l u, Reach next s t → I t → ok t l → next l t = some u → I u) (h : Run next ok s t) :
    I t := by
  induction h with
  | refl => exact h0
  | step hrun hok hnext ih => exact hstep _ _ _ hrun.reach ih hok hnext

/-! ### Running a list of labels -/

def exec (next : ℓ → σ → Option σ) : List ℓ → σ → Option σ
  | [], s => some s
  | l :: ls, s => (next l s).bind (exec next ls)

theorem Run.of_exec : ∀ {ls : List ℓ} {s t : σ}, exec next ls s = some t → Reach next s t
  | [], s, t, h => by cases h; exact .refl
  | l :: ls, s, t, h => by
    obtain ⟨u, hu, ht⟩ := Option.bind_eq_some_iff.mp h
    exact Run.trans (Run.step .refl trivial hu) (Run.of_exec ht)

/-- The same for a run under a decidable condition. -/
def execOk (next : ℓ → σ → Option σ) (ok : σ → ℓ → Prop) [∀ t l, Decidable (ok t l)] :
    List ℓ → σ → Option σ
  | [], s => some s
  | l :: ls, s => if ok s l then (next l s).bind (execOk next ok ls) else none

theorem Run.of_execOk [∀ t l, Decidable (ok t l)] :
    ∀ {ls : List ℓ} {s t : σ}, execOk next ok ls s = some t → Run next ok s t
  | [], s, t, h => by cases h; exact .refl
  | l :: ls, s, t, h => by
    rw [execOk] at h
    split_ifs at h with hok
    obtain ⟨u, hu, ht⟩ := Option.bind_eq_some_iff.mp h
    exact Run.trans (Run.step .refl hok hu) (Run.of_execOk ht)

/-! ### Watching a run -/

section Watch

variable {ω : Type*} {see : ω → σ → ℓ → σ → ω} {p q : σ × ω}

/-- The machine beside an observer, who sees every step and changes none. -/
def watch (next : ℓ → σ → Option σ) (see : ω → σ → ℓ → σ → ω) (l : ℓ) (p : σ × ω) : Option (σ × ω) :=
  (next l p.1).map fun s => (s, see p.2 p.1 l s)

theorem watch_eq_some {l : ℓ} :
    watch next see l p = some q ↔ next l p.1 = some q.1 ∧ q.2 = see p.2 p.1 l q.1 := by
  obtain ⟨t, o⟩ := q
  simp only [watch, Option.map_eq_some_iff, Prod.mk.injEq]
  constructor
  · rintro ⟨s, hs, rfl, rfl⟩
    exact ⟨hs, rfl⟩
  · rintro ⟨hs, rfl⟩
    exact ⟨t, hs, rfl, rfl⟩

/-- What is watched is a run of the machine. -/
theorem Run.unwatch {okw : σ × ω → ℓ → Prop} (h : Run (watch next see) okw p q) :
    Reach next p.1 q.1 := by
  induction h with
  | refl => exact .refl
  | step _ _ hnext ih => exact ih.step trivial (watch_eq_some.mp hnext).1

end Watch

end Machine
