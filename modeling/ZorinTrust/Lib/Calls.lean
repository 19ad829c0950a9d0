import Mathlib.Data.List.Basic

/-!
# Programs that call their environment

A program is a tree of calls: after a call it goes on with the answer.  A run is the list of the calls
made so far, with their answers; it may stop at any moment, and `cut` is where a model that bounds its
loops looks no further.  A `Monitor` keeps a state over the calls of a run: which call is allowed in
it, which answers the environment can give, and what the state becomes.  `wp` is computed from the
program, `wp_sound` carries it to every run.
-/

namespace Calls

/-- A program over the calls `Op` with answers `Res`. -/
inductive Prog (Op : Type) (Res : Op → Type) (α : Type)
  | done (a : α)
  | cut
  | call (op : Op) (k : Res op → Prog Op Res α)

variable {Op : Type} {Res : Op → Type} {α β σ : Type}

namespace Prog

/-- One program, then the next on its result. -/
def andThen : Prog Op Res α → (α → Prog Op Res β) → Prog Op Res β
  | done a, f => f a
  | cut, _ => cut
  | call op k, f => call op fun r => (k r).andThen f

instance : Monad (Prog Op Res) where
  pure := done
  bind := andThen

/-- A single call. -/
def perform (op : Op) : Prog Op Res (Res op) := call op done

/-- The program for each member of a list, and the list of the results. -/
def each (f : β → Prog Op Res α) : List β → Prog Op Res (List α)
  | [] => pure []
  | b :: bs => do
    let a ← f b
    let as ← each f bs
    return a :: as

end Prog

/-- A run of the program: the calls so far with their answers, and the result once there is one. -/
inductive Exec : Prog Op Res α → List (Σ op, Res op) → Option α → Prop
  | done (a : α) : Exec (.done a) [] (some a)
  | stop (p : Prog Op Res α) : Exec p [] none
  | call {op : Op} {k : Res op → Prog Op Res α} {r : Res op} {tr : List (Σ op, Res op)}
      {o : Option α} (h : Exec (k r) tr o) : Exec (.call op k) (⟨op, r⟩ :: tr) o

/-- A finished run of one program after the other is a run of each. -/
theorem Exec.of_bind {p : Prog Op Res α} {f : α → Prog Op Res β} {tr : List (Σ op, Res op)} {b : β}
    (h : Exec (p >>= f) tr (some b)) : ∃ tr₁ tr₂ a, tr = tr₁ ++ tr₂ ∧ Exec p tr₁ (some a) ∧
      Exec (f a) tr₂ (some b) := by
  induction p generalizing tr with
  | done a => exact ⟨[], tr, a, rfl, .done a, h⟩
  | cut => cases h
  | call op k ih =>
    cases h with
    | call h =>
      obtain ⟨tr₁, tr₂, a, rfl, h₁, h₂⟩ := ih _ h
      exact ⟨_ :: tr₁, tr₂, a, rfl, .call h₁, h₂⟩

/-- A run of one program goes on with a run of the next. -/
theorem Exec.bind {p : Prog Op Res α} {f : α → Prog Op Res β} {tr₁ tr₂ : List (Σ op, Res op)} {a : α}
    {o : Option β} (h₁ : Exec p tr₁ (some a)) (h₂ : Exec (f a) tr₂ o) : Exec (p >>= f) (tr₁ ++ tr₂) o := by
  induction p generalizing tr₁ with
  | done b =>
    cases h₁
    exact h₂
  | cut => cases h₁
  | call op k ih =>
    cases h₁ with
    | call h₁ => exact .call (ih _ h₁)

/-- A run that stops in the first program. -/
theorem Exec.bind_none {p : Prog Op Res α} {f : α → Prog Op Res β} {tr : List (Σ op, Res op)}
    (h : Exec p tr none) : Exec (p >>= f) tr none := by
  induction p generalizing tr with
  | done b =>
    cases h
    exact .stop _
  | cut =>
    cases h
    exact .stop _
  | call op k ih =>
    cases h with
    | stop => exact .stop _
    | call h => exact .call (ih _ h)

theorem Exec.perform_bind {op : Op} {r : Res op} {f : Res op → Prog Op Res β} {tr : List (Σ op, Res op)}
    {o : Option β} (h : Exec (f r) tr o) : Exec (Prog.perform op >>= f) (⟨op, r⟩ :: tr) o := .call h

/-- A state kept over the calls of a run. -/
structure Monitor (Op : Type) (Res : Op → Type) (σ : Type) where
  /-- The call is allowed. -/
  allowed : σ → Op → Prop
  /-- The environment can give the answer. -/
  answers : σ → (op : Op) → Res op → Prop
  /-- The state afterwards. -/
  next : σ → (op : Op) → Res op → σ

namespace Monitor

variable (m : Monitor Op Res σ)

/-- The state after a run. -/
def after (s : σ) (tr : List (Σ op, Res op)) : σ := tr.foldl (fun s e => m.next s e.1 e.2) s

/-- The environment can give the answers of the run. -/
def Answered : σ → List (Σ op, Res op) → Prop
  | _, [] => True
  | s, e :: tr => m.answers s e.1 e.2 ∧ Answered (m.next s e.1 e.2) tr

/-- Every call of the run is allowed when it is made. -/
def Safe : σ → List (Σ op, Res op) → Prop
  | _, [] => True
  | s, e :: tr => m.allowed s e.1 ∧ Safe (m.next s e.1 e.2) tr

variable {m} {s : σ}

theorem Safe.allowed {e : Σ op, Res op} {pre post : List (Σ op, Res op)}
    (h : m.Safe s (pre ++ e :: post)) : m.allowed (m.after s pre) e.1 := by
  induction pre generalizing s with
  | nil => exact h.1
  | cons _ _ ih => exact ih h.2

theorem answered_append {tr₂ : List (Σ op, Res op)} : ∀ {tr₁ : List (Σ op, Res op)} {s : σ},
    m.Answered s (tr₁ ++ tr₂) ↔ m.Answered s tr₁ ∧ m.Answered (m.after s tr₁) tr₂
  | [], _ => by simp [Answered, after]
  | e :: tr₁, s => by
    rw [List.cons_append, Answered, Answered, answered_append, and_assoc]
    rfl

theorem after_append (s : σ) (tr₁ tr₂ : List (Σ op, Res op)) :
    m.after s (tr₁ ++ tr₂) = m.after (m.after s tr₁) tr₂ := List.foldl_append

variable (m) in
/-- Every run is safe, and ends with a result and a state that satisfy `Q`. -/
def wp : Prog Op Res α → (α → σ → Prop) → σ → Prop
  | .done a, Q, s => Q a s
  | .cut, _, _ => True
  | .call op k, Q, s => m.allowed s op ∧ ∀ r, m.answers s op r → wp (k r) Q (m.next s op r)

variable {Q Q' : α → σ → Prop}

/-- **Soundness**: what `wp` says holds of every run with answers the environment can give. -/
theorem wp_sound {p : Prog Op Res α} {tr : List (Σ op, Res op)} {o : Option α} (h : m.wp p Q s)
    (hrun : Exec p tr o) (hans : m.Answered s tr) :
    m.Safe s tr ∧ ∀ a, o = some a → Q a (m.after s tr) := by
  induction hrun generalizing s with
  | done a =>
    refine ⟨trivial, fun a' ha => ?_⟩
    obtain rfl := Option.some.inj ha
    exact h
  | stop p => exact ⟨trivial, fun _ ha => nomatch ha⟩
  | call _ ih =>
    obtain ⟨hsafe, hend⟩ := ih (h.2 _ hans.1) hans.2
    exact ⟨⟨h.1, hsafe⟩, hend⟩

/-! ### Rules -/

@[simp] theorem wp_pure (a : α) : m.wp (pure a : Prog Op Res α) Q s ↔ Q a s := Iff.rfl

theorem wp_cut : m.wp (.cut : Prog Op Res α) Q s := trivial

theorem wp_mono (hQ : ∀ a s, Q a s → Q' a s) : ∀ {p : Prog Op Res α} {s : σ},
    m.wp p Q s → m.wp p Q' s
  | .done a, s, h => hQ a s h
  | .cut, _, _ => trivial
  | .call _ _, _, h => ⟨h.1, fun r hr => wp_mono hQ (h.2 r hr)⟩

/-- Two things a program does, it does both. -/
theorem wp_and : ∀ {p : Prog Op Res α} {s : σ}, m.wp p Q s → m.wp p Q' s →
    m.wp p (fun a s => Q a s ∧ Q' a s) s
  | .done _, _, h, h' => ⟨h, h'⟩
  | .cut, _, _, _ => trivial
  | .call _ _, _, h, h' => ⟨h.1, fun r hr => wp_and (h.2 r hr) (h'.2 r hr)⟩

theorem wp_andThen {Q : β → σ → Prop} : ∀ {p : Prog Op Res α} {f : α → Prog Op Res β} {s : σ},
    m.wp (p.andThen f) Q s ↔ m.wp p (fun a s => m.wp (f a) Q s) s
  | .done _, _, _ => Iff.rfl
  | .cut, _, _ => Iff.rfl
  | .call _ _, _, _ => and_congr_right fun _ => forall_congr' fun _ => imp_congr_right fun _ => wp_andThen

@[simp] theorem wp_bind {Q : β → σ → Prop} {p : Prog Op Res α} {f : α → Prog Op Res β} :
    m.wp (p >>= f) Q s ↔ m.wp p (fun a s => m.wp (f a) Q s) s := wp_andThen

/-- The rule for `each`: what every member keeps is kept, and the results satisfy the relation of their
members. -/
theorem wp_each {f : β → Prog Op Res α} {I : σ → Prop} {R : β → α → Prop} : ∀ {bs : List β} {s : σ},
    (∀ b ∈ bs, ∀ s, I s → m.wp (f b) (fun a s' => I s' ∧ R b a) s) → I s →
    m.wp (Prog.each f bs) (fun as s' => I s' ∧ List.Forall₂ R bs as) s
  | [], _, _, hI => ⟨hI, .nil⟩
  | b :: _, s, h, hI => wp_bind.mpr (wp_mono (fun _ _ ⟨hI, ha⟩ => wp_bind.mpr (wp_mono
      (fun _ _ ⟨hI, has⟩ => ⟨hI, .cons ha has⟩)
      (wp_each (fun b' hb => h b' (List.mem_cons_of_mem b hb)) hI))) (h b List.mem_cons_self s hI))

/-! ### Programs that give back the state they found -/

variable (m) in
/-- The program ends in the state it started in, with a result that satisfies `R`. -/
def Restores (s : σ) (p : Prog Op Res α) (R : α → Prop) : Prop := m.wp p (fun a s' => s' = s ∧ R a) s

variable {p : Prog Op Res α} {R R' : α → Prop}

theorem Restores.wp (h : m.Restores s p R) (hQ : ∀ a, R a → Q a s) : m.wp p Q s :=
  wp_mono (fun a s' hs => by obtain ⟨rfl, hR⟩ := hs; exact hQ a hR) h

theorem Restores.mono (h : m.Restores s p R) (hR : ∀ a, R a → R' a) : m.Restores s p R' :=
  h.wp fun a ha => ⟨rfl, hR a ha⟩

theorem Restores.and (h : m.Restores s p R) (h' : m.Restores s p R') :
    m.Restores s p fun a => R a ∧ R' a :=
  wp_mono (fun _ _ ⟨⟨hs, hR⟩, _, hR'⟩ => ⟨hs, hR, hR'⟩) (wp_and h h')

theorem restores_pure {a : α} (h : R a) : m.Restores s (pure a) R := ⟨rfl, h⟩

theorem Restores.bind {f : α → Prog Op Res β} {R' : β → Prop} (h : m.Restores s p R)
    (hf : ∀ a, R a → m.Restores s (f a) R') : m.Restores s (p >>= f) R' :=
  wp_bind.mpr (h.wp hf)

theorem Restores.each {f : β → Prog Op Res α} {R : β → α → Prop} {bs : List β}
    (h : ∀ b ∈ bs, m.Restores s (f b) (R b)) : m.Restores s (Prog.each f bs) (List.Forall₂ R bs) :=
  wp_each (I := (· = s)) (fun b hb _ ht => ht ▸ h b hb) rfl

end Monitor

end Calls
