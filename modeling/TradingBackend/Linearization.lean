import Mathlib.Data.List.Nodup
import TradingBackend.Trace

/-!
# Linearizability

Operations on a shared object overlap: an operation is called, takes
effect at some point, and returns. What its callers see are the calls and
the returns (`Action`). They are linearizable if there is an order of the
operations in which the object, used by one caller after the other, gives
the same answers, and in which an operation that returned before another
one was called comes first.

The order in which operations take effect is such an order (`Marks.Proper`,
`Marks.Proper.linearization`) as soon as an operation takes effect once, after
its call and before it returns.
-/

namespace TradingBackend

/-- What the callers see. -/
inductive Action (ι α β : Type) where
  | call (op : ι) (a : α)
  | ret (op : ι) (b : β)

/-- The calls and returns, and where the operations take effect. -/
inductive Mark (ι α β : Type) where
  | call (op : ι) (a : α)
  | effect (op : ι) (a : α) (b : β)
  | ret (op : ι) (b : β)

variable {ι α β σ : Type}

namespace Mark

def action? : Mark ι α β → Option (Action ι α β)
  | call op a => some (.call op a)
  | effect _ _ _ => none
  | ret op b => some (.ret op b)

def called? : Mark ι α β → Option ι
  | call op _ => some op
  | _ => none

def effect? : Mark ι α β → Option (ι × α × β)
  | effect op a b => some (op, a, b)
  | _ => none

end Mark

/-- `order` explains the history: `spec s a b s'` is a use of the object by
one caller. Operations that have not returned may be left out. -/
structure Linearization (spec : σ → α → β → σ → Prop) (s₀ : σ) (history : List (Action ι α β))
    (order : List (ι × α × β)) : Prop where
  legal : ∃ s, Trace (fun s x s' => spec s x.2.1 x.2.2 s') s₀ order s
  once : (order.map Prod.fst).Nodup
  called : ∀ {op a b}, (op, a, b) ∈ order → .call op a ∈ history
  returned : ∀ {op b}, .ret op b ∈ history → ∃ a, (op, a, b) ∈ order
  realTime : ∀ {op a b op' a' b'}, (op, a, b) ∈ order → (op', a', b') ∈ order →
    List.Sublist [.ret op b, .call op' a'] history →
    List.Sublist [(op, a, b), (op', a', b')] order

namespace Marks

/-- The operations in the order in which they take effect. -/
def effects (ms : List (Mark ι α β)) : List (ι × α × β) := ms.filterMap Mark.effect?

/-- The calls and returns. -/
def actions (ms : List (Mark ι α β)) : List (Action ι α β) := ms.filterMap Mark.action?

/-- An operation is called once, takes effect once and after its call, and
returns after that what it had effected. -/
structure Proper (ms : List (Mark ι α β)) : Prop where
  calledOnce : (ms.filterMap Mark.called?).Nodup
  effectOnce : ((effects ms).map Prod.fst).Nodup
  called : ∀ {before after op a b}, ms = before ++ .effect op a b :: after → .call op a ∈ before
  effected : ∀ {before after op b}, ms = before ++ .ret op b :: after →
    ∃ a, .effect op a b ∈ before

theorem mem_filterMap_mark {γ : Type} {ms : List (Mark ι α β)} {f : Mark ι α β → Option γ}
    {m : Mark ι α β} {x : γ} (hf : ∀ m', f m' = some x ↔ m' = m) : x ∈ ms.filterMap f ↔ m ∈ ms := by
  simp only [List.mem_filterMap, hf, exists_eq_right]

theorem mem_effects {ms : List (Mark ι α β)} {op : ι} {a : α} {b : β} :
    (op, a, b) ∈ effects ms ↔ .effect op a b ∈ ms :=
  mem_filterMap_mark fun m => by cases m <;> simp [Mark.effect?]

theorem call_mem_actions {ms : List (Mark ι α β)} {op : ι} {a : α} :
    .call op a ∈ actions ms ↔ .call op a ∈ ms :=
  mem_filterMap_mark fun m => by cases m <;> simp [Mark.action?]

theorem ret_mem_actions {ms : List (Mark ι α β)} {op : ι} {b : β} :
    .ret op b ∈ actions ms ↔ .ret op b ∈ ms :=
  mem_filterMap_mark fun m => by cases m <;> simp [Mark.action?]

theorem called_of_call_mem {ms : List (Mark ι α β)} {op : ι} {a : α} (h : .call op a ∈ ms) :
    op ∈ ms.filterMap Mark.called? :=
  List.mem_filterMap.mpr ⟨_, h, rfl⟩

namespace Proper

variable {ms : List (Mark ι α β)} {op : ι} {a : α} {b : β}

theorem nil : Proper ([] : List (Mark ι α β)) :=
  ⟨List.nodup_nil, List.nodup_nil, by simp, by simp⟩

theorem cut_snoc {m m' : Mark ι α β} {before after : List (Mark ι α β)}
    (h : ms ++ [m] = before ++ m' :: after) :
    before = ms ∧ m' = m ∨ ∃ after', ms = before ++ m' :: after' := by
  induction after using List.reverseRecOn with
  | nil =>
      obtain ⟨rfl, hm⟩ := List.append_inj' h rfl
      exact Or.inl ⟨rfl, (List.singleton_inj.mp hm).symm⟩
  | append_singleton after m'' _ =>
      rw [← List.cons_append, ← List.append_assoc] at h
      exact Or.inr ⟨after, (List.append_inj' h rfl).1⟩

theorem snoc {m : Mark ι α β} (h : Proper ms)
    (hcalled : ((ms ++ [m]).filterMap Mark.called?).Nodup)
    (heffects : ((effects (ms ++ [m])).map Prod.fst).Nodup)
    (heffect : ∀ {op a b}, m = .effect op a b → .call op a ∈ ms)
    (hret : ∀ {op b}, m = .ret op b → ∃ a, .effect op a b ∈ ms) : Proper (ms ++ [m]) := by
  refine ⟨hcalled, heffects, fun hcut => ?_, fun hcut => ?_⟩
  · rcases cut_snoc hcut with ⟨rfl, heq⟩ | ⟨after', hcut⟩
    · exact heffect heq.symm
    · exact h.called hcut
  · rcases cut_snoc hcut with ⟨rfl, heq⟩ | ⟨after', hcut⟩
    · exact hret heq.symm
    · exact h.effected hcut

theorem call (h : Proper ms) (hop : op ∉ ms.filterMap Mark.called?) :
    Proper (ms ++ [.call op a]) := by
  have heffects : effects (ms ++ [.call op a]) = effects ms :=
    (history_snoc ..).trans (List.append_nil _)
  refine h.snoc ?_ (heffects ▸ h.effectOnce) nofun nofun
  rw [history_snoc]
  exact h.calledOnce.append (List.nodup_singleton op) (List.disjoint_singleton.mpr hop)

theorem effect (h : Proper ms) (hcall : .call op a ∈ ms)
    (hop : op ∉ (effects ms).map Prod.fst) : Proper (ms ++ [.effect op a b]) := by
  have hcalled : (ms ++ [Mark.effect op a b]).filterMap Mark.called? = ms.filterMap Mark.called? :=
    (history_snoc ..).trans (List.append_nil _)
  have heffects : effects (ms ++ [.effect op a b]) = effects ms ++ [(op, a, b)] :=
    history_snoc ..
  refine h.snoc (hcalled ▸ h.calledOnce) ?_ (fun heq => ?_) nofun
  · rw [heffects, List.map_append]
    exact h.effectOnce.append (List.nodup_singleton op) (List.disjoint_singleton.mpr hop)
  · cases heq
    exact hcall

theorem ret (h : Proper ms) (heffect : .effect op a b ∈ ms) : Proper (ms ++ [.ret op b]) := by
  have hcalled : (ms ++ [Mark.ret op b]).filterMap Mark.called? = ms.filterMap Mark.called? :=
    (history_snoc ..).trans (List.append_nil _)
  have heffects : effects (ms ++ [.ret op b]) = effects ms :=
    (history_snoc ..).trans (List.append_nil _)
  refine h.snoc (hcalled ▸ h.calledOnce) (heffects ▸ h.effectOnce) nofun fun heq => ?_
  cases heq
  exact ⟨a, heffect⟩

theorem call_of_effect (h : Proper ms) (heffect : .effect op a b ∈ ms) : .call op a ∈ ms := by
  obtain ⟨before, after, rfl⟩ := List.append_of_mem heffect
  exact List.mem_append_left _ (h.called rfl)

theorem effect_of_ret (h : Proper ms) (hret : .ret op b ∈ ms) : ∃ a, .effect op a b ∈ ms := by
  obtain ⟨before, after, rfl⟩ := List.append_of_mem hret
  obtain ⟨a, ha⟩ := h.effected rfl
  exact ⟨a, List.mem_append_left _ ha⟩

/-- Cut anywhere, what returned in the first part took effect there. -/
theorem effect_left {ms' : List (Mark ι α β)} (h : Proper (ms ++ ms'))
    (hret : .ret op b ∈ ms) : ∃ a, .effect op a b ∈ ms := by
  obtain ⟨before, after, rfl⟩ := List.append_of_mem hret
  rw [List.append_assoc] at h
  obtain ⟨a, ha⟩ := h.effected rfl
  exact ⟨a, List.mem_append_left _ ha⟩

/-- And what is called in the second part takes effect there. -/
theorem effect_right {ms' : List (Mark ι α β)} {a' : α} (h : Proper (ms ++ ms'))
    (hcall : .call op a' ∈ ms') (heffect : .effect op a b ∈ ms ++ ms') :
    .effect op a b ∈ ms' := by
  refine (List.mem_append.mp heffect).resolve_left fun hleft => ?_
  obtain ⟨before, after, rfl⟩ := List.append_of_mem hleft
  have hcalled : .call op a ∈ before := by
    rw [List.append_assoc] at h
    exact h.called rfl
  have honce := h.calledOnce
  rw [List.filterMap_append] at honce
  exact List.disjoint_of_nodup_append honce
    (called_of_call_mem (List.mem_append_left _ hcalled)) (called_of_call_mem hcall)

theorem effect_unique (h : Proper ms) {x y : ι × α × β} (hx : x ∈ effects ms)
    (hy : y ∈ effects ms) (hop : x.1 = y.1) : x = y :=
  List.inj_on_of_nodup_map h.effectOnce hx hy hop

theorem linearization (h : Proper ms) {spec : σ → α → β → σ → Prop} {s₀ s : σ}
    (hlegal : Trace (fun s x s' => spec s x.2.1 x.2.2 s') s₀ (effects ms) s) :
    Linearization spec s₀ (actions ms) (effects ms) where
  legal := ⟨s, hlegal⟩
  once := h.effectOnce
  called := fun hmem => call_mem_actions.mpr (h.call_of_effect (mem_effects.mp hmem))
  returned := fun hmem =>
    (h.effect_of_ret (ret_mem_actions.mp hmem)).imp fun _ => mem_effects.mpr
  realTime := by
    intro op a b op' a' b' hx hy hsub
    -- the cut is between the return and the call
    obtain ⟨h₁, h₂, hcut, hret, hcall⟩ := List.cons_sublist_iff.mp hsub
    obtain ⟨ms₁, ms₂, rfl, rfl, rfl⟩ := List.filterMap_eq_append_iff.mp hcut
    obtain ⟨a₁, ha₁⟩ := h.effect_left (ret_mem_actions.mp hret)
    have hcall := call_mem_actions.mp (List.singleton_sublist.mp hcall)
    have hright := h.effect_right hcall (mem_effects.mp hy)
    have hleft := h.effect_unique (mem_effects.mpr (List.mem_append_left ms₂ ha₁)) hx rfl
    rw [← hleft, effects, List.filterMap_append]
    exact (List.singleton_sublist.mpr (mem_effects.mpr ha₁)).append
      (List.singleton_sublist.mpr (mem_effects.mpr hright))

end Proper

end Marks

end TradingBackend
