import Mathlib.Data.Multiset.Bind
import TradingBackend.Trace

/-!
# Fanning out

An item is handed to a list of receivers, and for each of them a goroutine is
started that calls it. Loops that start goroutines may run at the same time,
and a goroutine runs when it likes.

Nothing is lost and nothing is handed over twice (`Fanout.account`), and that
is all: what is outstanding may be handed over in any order (`Fanout.any_order`).
-/

namespace TradingBackend

variable {L ε : Type}

inductive FanoutEvent (L ε : Type) where
  | publish (item : ε) (receivers : List L)
  | spawn (receiver : L) (item : ε)
  | done (item : ε)
  | call (receiver : L) (item : ε)

namespace FanoutEvent

def due : FanoutEvent L ε → List (L × ε)
  | publish item receivers => receivers.map fun l => (l, item)
  | _ => []

def called? : FanoutEvent L ε → Option (L × ε)
  | call receiver item => some (receiver, item)
  | _ => none

def published? : FanoutEvent L ε → Option ε
  | publish item _ => some item
  | _ => none

end FanoutEvent

/-- The loops with the receivers that are still to come, and the goroutines
that have not run. -/
@[ext]
structure Fanout (L ε : Type) where
  loops : Multiset (ε × List L)
  spawned : Multiset (L × ε)

namespace Fanout

def idle : Fanout L ε := ⟨0, 0⟩

/-- The calls that are still to be made. -/
def outstanding (f : Fanout L ε) : Multiset (L × ε) :=
  f.spawned + f.loops.bind fun p => ((p.2.map fun l => (l, p.1) : List (L × ε)) : Multiset (L × ε))

theorem outstanding_idle : (idle : Fanout L ε).outstanding = 0 := by
  rw [outstanding, idle, Multiset.zero_bind, add_zero]

inductive Step (f : Fanout L ε) : FanoutEvent L ε → Fanout L ε → Prop where
  | publish {item receivers} :
      Step f (.publish item receivers) { f with loops := (item, receivers) ::ₘ f.loops }
  | spawn {item l ls loops} (h : f.loops = (item, l :: ls) ::ₘ loops) :
      Step f (.spawn l item) ⟨(item, ls) ::ₘ loops, (l, item) ::ₘ f.spawned⟩
  | done {item loops} (h : f.loops = (item, []) ::ₘ loops) :
      Step f (.done item) { f with loops := loops }
  | call {l item spawned} (h : f.spawned = (l, item) ::ₘ spawned) :
      Step f (.call l item) { f with spawned := spawned }

variable {f f' f₀ : Fanout L ε} {x : FanoutEvent L ε} {xs : List (FanoutEvent L ε)}

theorem Step.account (h : f.Step x f') :
    (x.called?.toList : Multiset (L × ε)) + f'.outstanding = f.outstanding + (x.due : List (L × ε))
    := by
  cases h with
  | publish =>
      simp only [FanoutEvent.called?, FanoutEvent.due, outstanding, Option.toList_none,
        Multiset.coe_nil, zero_add, Multiset.cons_bind]
      rw [add_comm (Multiset.ofList _), add_assoc]
  | spawn h =>
      simp only [FanoutEvent.called?, FanoutEvent.due, outstanding, h, Option.toList_none,
        Multiset.coe_nil, zero_add, add_zero, Multiset.cons_bind, List.map_cons,
        ← Multiset.cons_coe, Multiset.cons_add, Multiset.add_cons]
  | done h =>
      simp only [FanoutEvent.called?, FanoutEvent.due, outstanding, h, Option.toList_none,
        Multiset.coe_nil, zero_add, add_zero, Multiset.cons_bind, List.map_nil]
  | call h =>
      simp only [FanoutEvent.called?, FanoutEvent.due, outstanding, h, Option.toList_some,
        Multiset.coe_singleton, Multiset.coe_nil, add_zero, Multiset.singleton_add,
        Multiset.cons_add]

/-- The calls that were made and those that are outstanding are what was due. -/
theorem account (h : Trace Step f₀ xs f) :
    ((xs.filterMap FanoutEvent.called? : List (L × ε)) : Multiset (L × ε)) + f.outstanding =
      f₀.outstanding + (xs.flatMap FanoutEvent.due : List (L × ε)) := by
  refine h.invariant (P := fun xs f =>
    ((xs.filterMap FanoutEvent.called? : List (L × ε)) : Multiset (L × ε)) + f.outstanding =
      f₀.outstanding + (xs.flatMap FanoutEvent.due : List (L × ε))) ?_ ?_
  · simp
  · intro xs f x f' hbefore hstep
    rw [history_snoc, List.flatMap_append, List.flatMap_singleton, ← Multiset.coe_add,
      ← Multiset.coe_add, add_assoc, hstep.account, ← add_assoc, hbefore, add_assoc]

theorem loops_end (f : Fanout L ε) :
    ∃ xs f', Trace Step f xs f' ∧ f'.loops = 0
      ∧ xs.filterMap FanoutEvent.called? = [] ∧ xs.filterMap FanoutEvent.published? = [] := by
  obtain ⟨loops, spawned⟩ := f
  induction loops using Multiset.induction generalizing spawned with
  | empty => exact ⟨[], _, .nil, rfl, rfl, rfl⟩
  | cons p loops ih =>
      obtain ⟨item, receivers⟩ := p
      induction receivers generalizing spawned with
      | nil =>
          obtain ⟨xs, f', hxs, hloops, hcalls, hpublished⟩ := ih spawned
          exact ⟨.done item :: xs, f', (Trace.nil.snoc (.done rfl)).append hxs, hloops, hcalls,
            hpublished⟩
      | cons l ls ih' =>
          obtain ⟨xs, f', hxs, hloops, hcalls, hpublished⟩ := ih' ((l, item) ::ₘ spawned)
          exact ⟨.spawn l item :: xs, f', (Trace.nil.snoc (.spawn rfl)).append hxs, hloops,
            hcalls, hpublished⟩

theorem goroutines_run (ds : List (L × ε)) :
    Trace Step ⟨0, ds⟩ (ds.map fun d => .call d.1 d.2) idle := by
  induction ds with
  | nil => exact .nil
  | cons d ds ih => exact (Trace.nil.snoc (.call (Multiset.cons_coe d ds).symm)).append ih

theorem any_order {ds : List (L × ε)} (h : (ds : Multiset (L × ε)) = f.outstanding) :
    ∃ xs, Trace Step f xs idle ∧ xs.filterMap FanoutEvent.called? = ds
      ∧ xs.filterMap FanoutEvent.published? = [] := by
  obtain ⟨xs, ⟨loops, spawned⟩, hxs, rfl, hcalls, hpublished⟩ := f.loops_end
  have hdue : xs.flatMap FanoutEvent.due = [] := by
    refine List.flatMap_eq_nil_iff.mpr fun x hx => ?_
    cases x with
    | publish => exact absurd (List.filterMap_eq_nil_iff.mp hpublished _ hx) (Option.some_ne_none _)
    | spawn | done | call => rfl
  have hspawned : spawned = ds := by
    have haccount := account hxs
    rw [hcalls, hdue, ← h, outstanding] at haccount
    simpa using haccount
  subst hspawned
  refine ⟨xs ++ ds.map fun d => .call d.1 d.2, hxs.append (goroutines_run ds), ?_, ?_⟩
  · rw [List.filterMap_append, hcalls, List.filterMap_map]
    simp [Function.comp_def, FanoutEvent.called?]
  · rw [List.filterMap_append, hpublished, List.filterMap_map]
    simp [Function.comp_def, FanoutEvent.published?]

end Fanout

/-- An order of what `g` finds in a list is found in an order of the list. -/
theorem exists_perm_filterMap {α β : Type} {g : α → Option β} {xs : List α} {ys : List β}
    (h : ys.Perm (xs.filterMap g)) : ∃ xs' : List α, xs'.Perm xs ∧ xs'.filterMap g = ys := by
  induction xs generalizing ys with
  | nil => exact ⟨[], .nil, (List.perm_nil.mp h).symm⟩
  | cons x xs ih =>
      cases hx : g x with
      | none =>
          rw [List.filterMap_cons_none hx] at h
          obtain ⟨xs', hperm, hxs'⟩ := ih h
          exact ⟨x :: xs', hperm.cons x, by rw [List.filterMap_cons_none hx, hxs']⟩
      | some y =>
          rw [List.filterMap_cons_some hx] at h
          obtain ⟨before, after, rfl⟩ := List.append_of_mem (h.mem_iff.mpr List.mem_cons_self)
          obtain ⟨xs', hperm, hxs'⟩ := ih (List.perm_middle.symm.trans h).cons_inv
          obtain ⟨xs₁, xs₂, rfl, h₁, h₂⟩ := List.filterMap_eq_append_iff.mp hxs'
          refine ⟨xs₁ ++ x :: xs₂, List.perm_middle.trans (hperm.cons x), ?_⟩
          rw [List.filterMap_append, List.filterMap_cons_some hx, h₁, h₂]

end TradingBackend
