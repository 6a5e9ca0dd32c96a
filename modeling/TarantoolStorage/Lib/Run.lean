import Mathlib

/-! Finite runs of a step function that may refuse an action. -/
namespace Transition

open Option

variable {σ α : Type} {step : σ → α → Option σ} {s t : σ} {as : List α} {C : σ → α → Prop}
  {P : σ → Prop}

/-- The state after a list of actions; `none` when one of them is refused. -/
def run (step : σ → α → Option σ) : σ → List α → Option σ
  | s, [] => some s
  | s, a :: as => (step s a).bind fun t => run step t as

/-- Every step taken by the run satisfies a condition on its source and action. -/
def Along (step : σ → α → Option σ) (C : σ → α → Prop) : σ → List α → Prop
  | _, [] => True
  | s, a :: as => C s a ∧ ∀ t, step s a = some t → Along step C t as

@[simp] lemma run_nil : run step s [] = some s := rfl

@[simp] lemma run_cons {a : α} :
    run step s (a :: as) = (step s a).bind fun t => run step t as := rfl

lemma run_append {bs : List α} :
    run step s (as ++ bs) = (run step s as).bind fun t => run step t bs := by
  induction as generalizing s with
  | nil => rfl
  | cons a as ih =>
    rw [List.cons_append, run_cons, run_cons, bind_assoc]
    exact bind_congr fun t _ => ih

lemma along_cons {a : α} (ha : C s a) (hstep : step s a = some t) (hr : Along step C t as) :
    Along step C s (a :: as) := by
  refine ⟨ha, fun u hu => ?_⟩
  obtain rfl : t = u := some.inj (hstep.symm.trans hu)
  exact hr

/-- A decidable condition is decided along a given run. -/
instance Along.decidable {C : σ → α → Prop} [∀ s a, Decidable (C s a)] :
    ∀ (s : σ) (as : List α), Decidable (Along step C s as)
  | _, [] => isTrue trivial
  | s, a :: as =>
    match h : step s a with
    | none => decidable_of_iff (C s a) (by simp [Along, h])
    | some t =>
      have : Decidable (Along step C t as) := Along.decidable t as
      decidable_of_iff (C s a ∧ Along step C t as) (by simp [Along, h])

section

variable (hstep : ∀ {s a t}, step s a = some t → C s a → P s → P t)
include hstep

/-- The invariant rule under a condition that every step of the run meets. -/
lemma run_invariant_along
    (h : run step s as = some t) (hc : Along step C s as) (hs : P s) : P t := by
  induction as generalizing s with
  | nil =>
    obtain rfl := some.inj h
    exact hs
  | cons a as ih =>
    obtain ⟨u, hu, ht⟩ := bind_eq_some_iff.mp h
    exact ih ht (hc.2 u hu) (hstep hu hc.1 hs)

/-- What holds of every step that starts from the invariant holds along the run. -/
lemma along_of_invariant {D : σ → α → Prop} (hD : ∀ {s a}, C s a → P s → D s a)
    (hc : Along step C s as) (hs : P s) : Along step D s as := by
  induction as generalizing s with
  | nil => trivial
  | cons a as ih => exact ⟨hD hc.1 hs, fun t ht => ih (hc.2 t ht) (hstep ht hc.1 hs)⟩

end

lemma Along.and {D : σ → α → Prop} (hc : Along step C s as) (hd : Along step D s as) :
    Along step (fun s a => C s a ∧ D s a) s as := by
  induction as generalizing s with
  | nil => trivial
  | cons a as ih => exact ⟨⟨hc.1, hd.1⟩, fun t ht => ih (hc.2 t ht) (hd.2 t ht)⟩

/-- When the condition also rules out a refusal, the run comes to its end. -/
lemma run_total (hstep : ∀ {s a}, C s a → P s → ∃ t, step s a = some t ∧ P t)
    (hc : Along step C s as) (hs : P s) : ∃ t, run step s as = some t ∧ P t := by
  induction as generalizing s with
  | nil => exact ⟨s, rfl, hs⟩
  | cons a as ih =>
    obtain ⟨u, hu, hp⟩ := hstep hc.1 hs
    obtain ⟨t, ht, hpt⟩ := ih (hc.2 u hu) hp
    exact ⟨t, by simp [hu, ht], hpt⟩

lemma along_of_forall_mem (hc : ∀ a ∈ as, ∀ s, C s a) : Along step C s as := by
  induction as generalizing s with
  | nil => trivial
  | cons a as ih =>
    exact ⟨hc a List.mem_cons_self s, fun t _ => ih fun b hb => hc b (List.mem_cons_of_mem a hb)⟩

/-- What every step preserves, every run preserves. -/
lemma run_invariant (hstep : ∀ {s a t}, step s a = some t → P s → P t)
    (h : run step s as = some t) (hs : P s) : P t :=
  run_invariant_along (C := fun _ _ => True) (fun h _ => hstep h) h
    (along_of_forall_mem fun _ _ _ => trivial) hs

/-- The simulation rule: what the abstract run reaches, the concrete one reaches too. -/
lemma run_simulation {τ : Type} {spec : τ → α → Option τ} {R : σ → τ → Prop} {c c' : τ}
    (hstep : ∀ {s c a c'}, R s c → spec c a = some c' → ∃ t, step s a = some t ∧ R t c')
    (h : run spec c as = some c') (hs : R s c) : ∃ t, run step s as = some t ∧ R t c' := by
  induction as generalizing s c with
  | nil =>
    obtain rfl := some.inj h
    exact ⟨s, rfl, hs⟩
  | cons a as ih =>
    obtain ⟨d, hd, hr⟩ := bind_eq_some_iff.mp h
    obtain ⟨u, hu, hR⟩ := hstep hs hd
    obtain ⟨t, ht, hRt⟩ := ih hr hR
    exact ⟨t, by simp [hu, ht], hRt⟩

end Transition
