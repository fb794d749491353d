import Mathlib.Data.List.Induction

/-!
# Traces

Runs of a labelled transition system. A trace keeps the labels of the
steps in order, so what happened in a run is a function of its trace and
no history has to be carried in the state.

`Where` restricts the steps to those that meet a condition; a property of
all runs that keep to it is then `Trace.invariant` of the restricted
steps.
-/

namespace TradingBackend

variable {σ ε β : Type}

/-- What a label adds to the history that `f` reads off a trace. -/
theorem history_snoc (f : ε → Option β) (es : List ε) (e : ε) :
    (es ++ [e]).filterMap f = es.filterMap f ++ (f e).toList := by
  rw [List.filterMap_append]
  cases h : f e <;> simp [h]

/-- `s` is reached from `s₀` by steps with the labels `es`. -/
inductive Trace (step : σ → ε → σ → Prop) (s₀ : σ) : List ε → σ → Prop where
  | nil : Trace step s₀ [] s₀
  | snoc {es s e s'} (h : Trace step s₀ es s) (hstep : step s e s') :
      Trace step s₀ (es ++ [e]) s'

/-- The steps that are taken only where `ok` allows them. -/
def Where (step : σ → ε → σ → Prop) (ok : σ → ε → Prop) (s : σ) (e : ε) (s' : σ) : Prop :=
  ok s e ∧ step s e s'

namespace Trace

variable {step step' : σ → ε → σ → Prop} {s₀ s s' : σ} {es es' : List ε}

/-- What holds at first and is kept by every step holds throughout. -/
theorem invariant {P : List ε → σ → Prop} (h : Trace step s₀ es s) (h₀ : P [] s₀)
    (hstep : ∀ {es s e s'}, P es s → step s e s' → P (es ++ [e]) s') : P es s := by
  induction h with
  | nil => exact h₀
  | snoc _ hnext ih => exact hstep ih hnext

theorem next (h : Trace step s₀ es s) (e : ε) (hstep : step s e s') :
    Trace step s₀ (es ++ [e]) s' :=
  h.snoc hstep

theorem imp (h : Trace step s₀ es s) (himp : ∀ {s e s'}, step s e s' → step' s e s') :
    Trace step' s₀ es s := by
  induction h with
  | nil => exact .nil
  | snoc _ hnext ih => exact ih.snoc (himp hnext)

theorem append (h : Trace step s₀ es s) (h' : Trace step s es' s') :
    Trace step s₀ (es ++ es') s' := by
  induction h' with
  | nil =>
      rw [List.append_nil]
      exact h
  | snoc _ hnext ih =>
      rw [← List.append_assoc]
      exact ih.snoc hnext

theorem snoc_inv {e : ε} (h : Trace step s₀ (es ++ [e]) s) :
    ∃ s₁, Trace step s₀ es s₁ ∧ step s₁ e s := by
  generalize hall : es ++ [e] = all at h
  cases h with
  | nil => simp at hall
  | @snoc es₁ s₁ e₁ _ h hnext =>
      obtain ⟨rfl, he⟩ := List.append_inj' hall rfl
      obtain rfl := List.singleton_inj.mp he
      exact ⟨s₁, h, hnext⟩

theorem split {e : ε} (h : Trace step s₀ (es ++ e :: es') s) :
    ∃ s₁ s₂, Trace step s₀ es s₁ ∧ step s₁ e s₂ ∧ Trace step s₂ es' s := by
  induction es' using List.reverseRecOn generalizing s with
  | nil =>
      obtain ⟨s₁, hbefore, hstep⟩ := h.snoc_inv
      exact ⟨s₁, s, hbefore, hstep, .nil⟩
  | append_singleton es' e' ih =>
      rw [← List.cons_append, ← List.append_assoc] at h
      obtain ⟨s', hprev, hlast⟩ := h.snoc_inv
      obtain ⟨s₁, s₂, hbefore, hstep, hafter⟩ := ih hprev
      exact ⟨s₁, s₂, hbefore, hstep, hafter.snoc hlast⟩

/-- Simulation of a run by the labels that `f` keeps: a step whose label is
dropped stutters. -/
theorem simulate {τ δ : Type} {step' : τ → δ → τ → Prop} {f : ε → Option δ} {R : σ → τ → Prop}
    {t₀ : τ} (h : Trace step s₀ es s) (h₀ : R s₀ t₀)
    (hkeep : ∀ {s e s' t d}, f e = some d → R s t → step s e s' → ∃ t', step' t d t' ∧ R s' t')
    (hdrop : ∀ {s e s' t}, f e = none → R s t → step s e s' → R s' t) :
    ∃ t, Trace step' t₀ (es.filterMap f) t ∧ R s t := by
  induction h with
  | nil => exact ⟨t₀, .nil, h₀⟩
  | @snoc es s e s' _ hnext ih =>
      obtain ⟨t, ht, hR⟩ := ih
      rw [history_snoc]
      cases he : f e with
      | none =>
          rw [Option.toList_none, List.append_nil]
          exact ⟨t, ht, hdrop he hR hnext⟩
      | some d =>
          obtain ⟨t', hstep, hR'⟩ := hkeep he hR hnext
          exact ⟨t', ht.snoc hstep, hR'⟩

theorem iff_foldlM {f : σ → ε → Option σ} :
    Trace (fun s e s' => f s e = some s') s₀ es s ↔ es.foldlM f s₀ = some s := by
  constructor
  · intro h
    induction h with
    | nil => rfl
    | snoc _ hnext ih =>
        rw [List.foldlM_append, ih]
        simpa using hnext
  · intro h
    induction es using List.reverseRecOn generalizing s with
    | nil =>
        obtain rfl := Option.some.inj h
        exact .nil
    | append_singleton es e ih =>
        rw [List.foldlM_append] at h
        obtain ⟨s', hs', hlast⟩ := Option.bind_eq_some_iff.mp h
        exact (ih hs').snoc (by simpa using hlast)

end Trace

end TradingBackend
