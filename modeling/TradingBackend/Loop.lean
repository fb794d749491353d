import Mathlib.Logic.Relation

/-!
# While loops with fuel

A loop is given by its body: from the state at the loop head, one
iteration either leaves the loop with a result (`.inl`), comes back to
the head with a new state (`.inr`), or does not come back at all
(`none`, when a loop nested in the body runs out of fuel). `iterate`
runs it; the body receives the fuel left, so that it can hand it to the
loops nested in it.

Fuel is a device of the model only: `iterate_mono` says that more of it
never changes a result, so a loop has at most one result, and
`iterate_total` is the rule for proving that it has one - an invariant,
a variant, a postcondition.

`Heads` are the states a loop passes through at its head, the moments at
which one says what the loop does *next*.
-/

namespace TradingBackend

namespace Loop

variable {σ ρ : Type}

def iterate (body : Nat → σ → Option (ρ ⊕ σ)) : Nat → σ → Option ρ
  | 0, _ => none
  | n + 1, s =>
      match body n s with
      | none => none
      | some (.inl r) => some r
      | some (.inr s') => iterate body n s'

/-- More fuel does not change what the body does. -/
def Mono (body : Nat → σ → Option (ρ ⊕ σ)) : Prop :=
  ∀ n m s o, n ≤ m → body n s = some o → body m s = some o

theorem iterate_succ_exit {body : Nat → σ → Option (ρ ⊕ σ)} {n : Nat} {s : σ}
    {r : ρ} (h : body n s = some (.inl r)) :
    iterate body (n + 1) s = some r := by
  simp only [iterate, h]

theorem iterate_succ_continue {body : Nat → σ → Option (ρ ⊕ σ)} {n : Nat}
    {s s' : σ} (h : body n s = some (.inr s')) :
    iterate body (n + 1) s = iterate body n s' := by
  simp only [iterate, h]

theorem iterate_mono {body : Nat → σ → Option (ρ ⊕ σ)} (hbody : Mono body) :
    ∀ {n m : Nat} {s : σ} {r : ρ}, n ≤ m →
      iterate body n s = some r → iterate body m s = some r := by
  intro n
  induction n with
  | zero => intro m s r _ h; cases h
  | succ n ih =>
      intro m s r hnm h
      obtain ⟨m, rfl⟩ : ∃ k, m = k + 1 := ⟨m - 1, by omega⟩
      have hle : n ≤ m := by omega
      cases hb : body n s with
      | none => simp only [iterate, hb] at h; cases h
      | some o =>
          cases o with
          | inl r' =>
              rw [iterate_succ_exit hb] at h
              rw [iterate_succ_exit (hbody n m s _ hle hb)]
              exact h
          | inr s' =>
              rw [iterate_succ_continue hb] at h
              rw [iterate_succ_continue (hbody n m s _ hle hb)]
              exact ih hle h

/-- What more fuel does not change has one result. -/
theorem eq_of_mono {f : Nat → Option ρ} (hf : ∀ {n m r}, n ≤ m → f n = some r → f m = some r)
    {n m : Nat} {r r' : ρ} (h : f n = some r) (h' : f m = some r') : r = r' := by
  rcases Nat.le_total n m with hnm | hmn
  · exact Option.some.inj ((hf hnm h).symm.trans h')
  · exact Option.some.inj (h.symm.trans (hf hmn h'))

theorem iterate_det {body : Nat → σ → Option (ρ ⊕ σ)} (hbody : Mono body) {n m : Nat} {s : σ}
    {r r' : ρ} (h : iterate body n s = some r) (h' : iterate body m s = some r') : r = r' :=
  eq_of_mono (f := (iterate body · s)) (iterate_mono hbody) h h'

/-- What one iteration from a state satisfying the invariant achieves:
the postcondition on exit; the invariant, a smaller variant and a
stronger obligation otherwise. The postcondition relates the state at
the loop head to the result. -/
def Progress (inv : σ → Prop) (variant : σ → Nat) (post : σ → ρ → Prop) (s : σ) :
    ρ ⊕ σ → Prop
  | .inl r => post s r
  | .inr s' => inv s' ∧ variant s' < variant s ∧ ∀ r, post s' r → post s r

/-- **Total correctness.** If every iteration that starts in the
invariant comes back and makes progress, the loop ends in the
postcondition. -/
theorem iterate_total {body : Nat → σ → Option (ρ ⊕ σ)} (hbody : Mono body)
    (inv : σ → Prop) (variant : σ → Nat) (post : σ → ρ → Prop)
    (hstep : ∀ s, inv s → ∃ n o, body n s = some o ∧ Progress inv variant post s o) :
    ∀ s, inv s → ∃ n r, iterate body n s = some r ∧ post s r := by
  intro s
  induction hv : variant s using Nat.strongRecOn generalizing s with
  | ind k ih =>
      intro hs
      obtain ⟨n, o, hb, hp⟩ := hstep s hs
      cases o with
      | inl r => exact ⟨n + 1, r, iterate_succ_exit hb, hp⟩
      | inr s' =>
          obtain ⟨hs', hlt, hpost⟩ := hp
          obtain ⟨m, r, hm, hr⟩ := ih (variant s') (hv ▸ hlt) s' rfl hs'
          refine ⟨max n m + 1, r, ?_, hpost r hr⟩
          rw [iterate_succ_continue (hbody n (max n m) s _ (Nat.le_max_left n m) hb)]
          exact iterate_mono hbody (Nat.le_max_right n m) hm

/-- A loop that from every state of an invariant comes back to one never
ends. -/
theorem iterate_eq_none {body : Nat → σ → Option (ρ ⊕ σ)} (P : σ → Prop)
    (hstep : ∀ n s, P s → body n s = none ∨ ∃ s', body n s = some (.inr s') ∧ P s') :
    ∀ (n : Nat) (s : σ), P s → iterate body n s = none := by
  intro n
  induction n with
  | zero => intro s _; rfl
  | succ n ih =>
      intro s hs
      rcases hstep n s hs with hb | ⟨s', hb, hs'⟩
      · simp only [iterate, hb]
      · rw [iterate_succ_continue hb]
        exact ih s' hs'

/-! ## Loop heads -/

def Around (body : Nat → σ → Option (ρ ⊕ σ)) (s s' : σ) : Prop :=
  ∃ n, body n s = some (.inr s')

/-- `s'` is a state of the loop head in a run that starts at `s`. -/
def Heads (body : Nat → σ → Option (ρ ⊕ σ)) : σ → σ → Prop :=
  Relation.ReflTransGen (Around body)

/-- What a trip around the loop preserves holds at every head. -/
theorem Heads.invariant {body : Nat → σ → Option (ρ ⊕ σ)} {P : σ → Prop} {s₀ s : σ}
    (h : Heads body s₀ s)
    (hstep : ∀ s s', Heads body s₀ s → Around body s s' → P s → P s') (h₀ : P s₀) : P s := by
  induction h with
  | refl => exact h₀
  | tail hheads haround ih => exact hstep _ _ hheads haround ih

theorem iterate_heads {body : Nat → σ → Option (ρ ⊕ σ)} {n : Nat} {s : σ} {r : ρ}
    (h : iterate body n s = some r) : ∃ s' m, Heads body s s' ∧ body m s' = some (.inl r) := by
  induction n generalizing s with
  | zero => cases h
  | succ n ih =>
      cases hb : body n s with
      | none => simp only [iterate, hb] at h; cases h
      | some o =>
          cases o with
          | inl r' =>
              rw [iterate_succ_exit hb, Option.some.injEq] at h
              exact ⟨s, n, .refl, h ▸ hb⟩
          | inr s' =>
              rw [iterate_succ_continue hb] at h
              obtain ⟨s'', m, hheads, hexit⟩ := ih h
              exact ⟨s'', m, .head ⟨n, hb⟩ hheads, hexit⟩

/-- What a loop returns from one of its heads it returns from the start. -/
theorem Heads.iterate {body : Nat → σ → Option (ρ ⊕ σ)} (hbody : Mono body) {s₀ s : σ} {r : ρ}
    (h : Heads body s₀ s) {n : Nat} (hn : iterate body n s = some r) :
    ∃ m, iterate body m s₀ = some r := by
  induction h generalizing n with
  | refl => exact ⟨n, hn⟩
  | tail _ haround ih =>
      obtain ⟨k, hk⟩ := haround
      refine ih (n := max k n + 1) ?_
      rw [iterate_succ_continue (hbody k (max k n) _ _ (Nat.le_max_left k n) hk)]
      exact iterate_mono hbody (Nat.le_max_right k n) hn

end Loop

end TradingBackend
