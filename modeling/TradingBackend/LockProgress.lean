import Mathlib.Algebra.BigOperators.Group.Finset.Basic
import Mathlib.Algebra.BigOperators.Ring.Finset
import Mathlib.Algebra.Order.BigOperators.Group.Finset
import Mathlib.Data.Set.Finite.Lemmas
import TradingBackend.RWLocks

/-!
# Deadlocks of readers/writer locks

If locks are taken in the order of a rank, nobody is blocked forever, unless a
goroutine asks again for a lock that it reads, while a writer waits
(`Deadlock.caught`). Such a goroutine is `Caught`: from then on nobody gets
that lock (`Caught.kept`). Where no goroutine asks again, every run ends, and
can be continued until all are through (`length_le`, `exists_finish`).
-/

namespace TradingBackend

variable {ι κ : Type}

def Sections.count : Sections κ → Nat
  | .done => 0
  | .hold _ _ inner rest => inner.count + rest.count + 1

namespace LockUser

variable {g : LockUser κ} {mode : LockMode} {lock : κ}

/-- It is where it was, but may have begun to wait. -/
structure Stays (g g' : LockUser κ) : Prop where
  todo : g'.todo = g.todo
  frames : g'.frames = g.frames
  asked : g.asked = true → g'.asked = true

theorem Stays.refl (g : LockUser κ) : Stays g g := ⟨rfl, rfl, id⟩

theorem Stays.next {g g' : LockUser κ} (h : Stays g g') : g'.next = g.next :=
  congrArg Sections.next h.todo

theorem Stays.trans {g g' g'' : LockUser κ} (h : Stays g g') (h' : Stays g' g'') : Stays g g'' :=
  ⟨h'.todo.trans h.todo, h'.frames.trans h.frames, fun hg => h'.asked (h.asked hg)⟩

theorem Stays.asksFor {g g' : LockUser κ} {mode : LockMode} (h : Stays g g')
    (hg : g.AsksFor mode lock) : g'.AsksFor mode lock :=
  ⟨h.asked hg.1, h.next.trans hg.2⟩

def slack : LockUser κ → Nat
  | ⟨.hold _ _ _ _, _, true⟩ => 0
  | _ => 1

/-- The steps that it can still take, and one. -/
def weight (g : LockUser κ) : Nat :=
  3 * g.todo.count + (g.frames.map fun f => 3 * f.rest.count + 1).sum + g.slack

theorem weight_enter (h : g.next = some (mode, lock)) : g.enter.weight < g.weight := by
  obtain ⟨todo, frames, asked⟩ := g
  obtain ⟨inner, rest, rfl⟩ := eq_of_next h
  have hslack : (LockUser.mk inner (⟨mode, lock, rest⟩ :: frames) false).slack = 1 := by
    cases inner <;> rfl
  simp only [weight, LockUser.enter, hslack, Sections.count, List.map_cons, List.sum_cons]
  omega

theorem weight_ask (hnext : g.next = some (mode, lock)) (h : g.asked = false) :
    g.ask.weight < g.weight := by
  obtain ⟨todo, frames, asked⟩ := g
  obtain ⟨inner, rest, rfl⟩ := eq_of_next hnext
  obtain rfl : asked = false := h
  exact Nat.lt_succ_self _

theorem weight_leave {rest : Sections κ} {frames : List (LockFrame κ)} (htodo : g.todo = .done)
    (hframes : g.frames = ⟨mode, lock, rest⟩ :: frames) :
    (LockUser.mk rest frames false).weight < g.weight := by
  obtain ⟨todo, frames', asked⟩ := g
  obtain rfl : todo = .done := htodo
  obtain rfl : frames' = ⟨mode, lock, rest⟩ :: frames := hframes
  have hslack : (LockUser.mk rest frames false).slack = 1 := by cases rest <;> rfl
  have hdone : (LockUser.mk .done (⟨mode, lock, rest⟩ :: frames) asked).slack = 1 := by
    cases asked <;> rfl
  simp only [weight, hslack, hdone, Sections.count, List.map_cons, List.sum_cons]
  omega

theorem weight_start (todo : Sections κ) : (start todo).weight = 3 * todo.count + 1 := by
  cases todo <;> rfl

theorem one_le_weight (g : LockUser κ) : 1 ≤ g.weight := by
  rcases g with ⟨_ | ⟨mode, lock, inner, rest⟩, frames, asked⟩
  · have hslack : (LockUser.mk .done frames asked).slack = 1 := by cases asked <;> rfl
    rw [weight, hslack]
    omega
  · simp only [weight, Sections.count]
    omega

end LockUser

namespace LockSystem

open LockUser (Stays)

variable [DecidableEq ι] [DecidableEq κ] {rank : κ → Nat}
  {inside : ι → LockMode × κ → LockMode × κ → Prop} {s s' : LockSystem ι κ} {i j : ι} {lock : κ}

/-- It reads a lock and waits to read it once more, and a writer waits. -/
structure Caught (s : LockSystem ι κ) (i : ι) (lock : κ) : Prop where
  holds : (s i).Holds .read lock
  asks : (s i).AsksFor .read lock
  writer : ∃ j, (s j).AsksFor .write lock

/-- Nobody can move, and somebody is not through. -/
def Deadlock (s : LockSystem ι κ) : Prop :=
  (∃ i, ¬(s i).Finished) ∧ ∀ i s', ¬Step s i s'

/-! ## Where nobody can move -/

section Deadlock

variable {mode : LockMode}

theorem Deadlock.exists_next (hdead : Deadlock s) (hi : ¬(s i).Finished) :
    ∃ mode lock, (s i).next = some (mode, lock) := by
  cases htodo : (s i).todo with
  | hold mode lock inner rest => exact ⟨mode, lock, congrArg Sections.next htodo⟩
  | done =>
      cases hframes : (s i).frames with
      | nil => exact absurd ⟨htodo, hframes⟩ hi
      | cons f frames =>
          obtain ⟨mode, lock, rest⟩ := f
          cases mode with
          | read => exact absurd (.leaveRead htodo hframes) (hdead.2 i _)
          | write => exact absurd (.leaveWrite htodo hframes) (hdead.2 i _)

theorem Deadlock.asks (hdead : Deadlock s) (hnext : (s i).next = some (.read, lock)) :
    (s i).AsksFor .read lock := by
  refine ⟨?_, hnext⟩
  by_contra hasked
  have hasked : (s i).asked = false := Bool.eq_false_iff.mpr hasked
  by_cases hbusy : ∃ j, (s j).Excludes lock
  · exact hdead.2 i _ (.wait hnext hasked hbusy)
  · exact hdead.2 i _ (.read hnext hasked (not_exists.mp hbusy))

theorem Deadlock.exists_reader (hdead : Deadlock s) (hasks : (s i).AsksFor .write lock) :
    ∃ j, (s j).Holds .read lock := by
  by_contra hnone
  exact hdead.2 i _ (.write hasks.2 hasks.1 (not_exists.mp hnone))

theorem Deadlock.exists_holder_of_excludes (hdead : Deadlock s) (hj : (s j).Excludes lock) :
    ∃ j mode, (s j).Holds mode lock := by
  rcases hj with hasks | hold
  · obtain ⟨j', hj'⟩ := hdead.exists_reader hasks
    exact ⟨j', .read, hj'⟩
  · exact ⟨j, .write, hold⟩

theorem Deadlock.exists_holder (hdead : Deadlock s) (h : Sound inside s)
    (hnext : (s i).next = some (mode, lock)) : ∃ j mode, (s j).Holds mode lock := by
  cases mode with
  | read =>
      obtain ⟨j, hj⟩ := h.waits (hdead.asks hnext)
      exact hdead.exists_holder_of_excludes hj
  | write =>
      by_cases hasked : (s i).asked = true
      · exact hdead.exists_holder_of_excludes (.inl ⟨hasked, hnext⟩)
      · by_contra hnone
        refine hdead.2 i _ (.announce hnext (Bool.eq_false_iff.mpr hasked) fun j hj => ?_)
        exact hnone (hdead.exists_holder_of_excludes hj)

omit [DecidableEq ι] [DecidableEq κ] in
theorem Sound.inside_next (h : Sound inside s) {mode' : LockMode} {lock' : κ}
    (hholds : (s i).Holds mode lock) (hnext : (s i).next = some (mode', lock')) :
    inside i (mode, lock) (mode', lock') := by
  obtain ⟨inner, rest, htodo⟩ := LockUser.eq_of_next hnext
  have hnested := (h.nested i).1
  rw [htodo] at hnested
  exact hnested.1 _ hholds

/-- Only a goroutine that asks again for a lock it reads makes a deadlock. -/
theorem Deadlock.caught [Finite ι] (hdead : Deadlock s) (h : Sound inside s)
    (hranked : Ranked rank inside) : ∃ i lock, Caught s i lock := by
  -- of those who are not through, one that needs a lock of the highest rank
  obtain ⟨i, hi, hmax⟩ := Set.exists_max_image {i | ¬(s i).Finished}
    (fun i => (s i).next.elim 0 fun p => rank p.2) (Set.toFinite _) hdead.1
  obtain ⟨mode, lock, hnext⟩ := hdead.exists_next hi
  obtain ⟨j, mode', hholds⟩ := hdead.exists_holder h hnext
  have hj : ¬(s j).Finished := by
    rintro ⟨_, hframes⟩
    rw [LockUser.Holds, hframes] at hholds
    exact absurd hholds List.not_mem_nil
  obtain ⟨mode'', lock', hnext'⟩ := hdead.exists_next hj
  have hle := hmax j hj
  simp only [hnext, hnext', Option.elim_some] at hle
  rcases hranked _ _ _ (h.inside_next hholds hnext') with hlt | ⟨heq, hmode⟩
  · exact absurd hlt (not_lt.mpr hle)
  · obtain ⟨rfl, rfl⟩ := Prod.mk.inj heq
    obtain rfl : mode' = .read := hmode
    have hasks := hdead.asks hnext'
    obtain ⟨w, hw⟩ := h.waits hasks
    exact ⟨j, lock, hholds, hasks, w, hw.resolve_right fun hwrite => h.noReaders hwrite hholds⟩

end Deadlock

/-! ## Once a reader is caught -/

theorem Caught.stays (h : Caught s i lock) (hsound : Sound inside s) {x : ι}
    (hstep : Step s x s') {mode : LockMode} (hj : (s j).next = some (mode, lock)) :
    Stays (s j) (s' j) := by
  obtain ⟨w, hw⟩ := h.writer
  by_cases hjx : j = x
  · subst hjx
    cases hstep with
    | read hnext hasked hfree =>
        obtain ⟨-, rfl⟩ := Prod.mk.inj (Option.some.inj (hj.symm.trans hnext))
        exact absurd (.inl hw) (hfree w)
    | write hnext hasked hfree =>
        obtain ⟨-, rfl⟩ := Prod.mk.inj (Option.some.inj (hj.symm.trans hnext))
        exact absurd h.holds (hfree i)
    | leaveRead htodo hframes => cases hj.symm.trans (LockUser.next_of_done htodo)
    | leaveWrite htodo hframes => cases hj.symm.trans (LockUser.next_of_done htodo)
    | _ =>
        rw [Function.update_self]
        exact ⟨rfl, rfl, fun _ => rfl⟩
  · cases hstep with
    | leaveWrite htodo hframes =>
        rw [Function.update_of_ne hjx, LockUser.wake_of_not]
        · exact .refl _
        · rintro ⟨_, hread⟩
          obtain ⟨-, rfl⟩ := Prod.mk.inj (Option.some.inj (hj.symm.trans hread))
          refine hsound.noReaders (i := x) ?_ h.holds
          rw [LockUser.Holds, hframes]
          exact List.mem_cons_self
    | _ =>
        rw [Function.update_of_ne hjx]
        exact .refl _

theorem Caught.kept (h : Caught s i lock) (hsound : Sound inside s) (hranked : Ranked rank inside)
    {is : List ι} (htrace : Trace Step s is s') :
    Caught s' i lock
    ∧ ∀ j mode, (s j).next = some (mode, lock) → Stays (s j) (s' j) := by
  suffices hall : Sound inside s' ∧ Caught s' i lock
      ∧ ∀ j mode, (s j).next = some (mode, lock) → Stays (s j) (s' j) from hall.2
  refine htrace.invariant (P := fun _ s' => Sound inside s' ∧ Caught s' i lock
      ∧ ∀ j mode, (s j).next = some (mode, lock) → Stays (s j) (s' j))
    ⟨hsound, h, fun _ _ _ => .refl _⟩ ?_
  rintro is s₁ x s₂ ⟨hsound₁, h₁, hstays⟩ hstep
  have hnext : ∀ {j mode}, (s₁ j).next = some (mode, lock) → Stays (s₁ j) (s₂ j) :=
    h₁.stays hsound₁ hstep
  obtain ⟨w, hw⟩ := h₁.writer
  have hi := hnext h₁.asks.2
  refine ⟨hsound₁.step hranked hstep, ⟨?_, hi.asksFor h₁.asks, w, (hnext hw.2).asksFor hw⟩, ?_⟩
  · rw [LockUser.Holds, hi.frames]
    exact h₁.holds
  · intro j mode hj
    have hbefore := hstays j mode hj
    exact hbefore.trans (hnext (hbefore.next.trans hj))

/-- A writer that comes when a goroutine is about to ask again. -/
theorem exists_caught {inner rest : Sections κ} (hij : i ≠ j)
    (htodo : (s i).todo = .hold .read lock inner rest) (hagain : inner.next = some (.read, lock))
    (hi : (s i).asked = false) (hj : (s j).next = some (.write, lock)) (hj' : (s j).asked = false)
    (hfree : ∀ x, ¬(s x).Excludes lock) :
    ∃ s', Trace Step s [i, j, i] s' ∧ Caught s' i lock := by
  have hnext : (s i).next = some (.read, lock) := congrArg Sections.next htodo
  have hinner : (s i).enter.next = some (.read, lock) := (LockUser.next_enter htodo).trans hagain
  have hasked : (s i).enter.asked = false := LockUser.asked_enter hnext
  -- it reads
  set s₁ := Function.update s i (s i).enter
  have hstep₁ : Step s i s₁ := .read hnext hi hfree
  have hs₁i : s₁ i = (s i).enter := Function.update_self ..
  have hs₁j : s₁ j = s j := Function.update_of_ne hij.symm ..
  have hfree₁ : ∀ x, ¬(s₁ x).Excludes lock := by
    refine (Function.forall_update_iff s fun _ g => ¬g.Excludes lock).mpr
      ⟨fun hg => ?_, fun x _ => hfree x⟩
    rcases (LockUser.holds_enter hnext).mp (hg.holds hasked) with ⟨hmode, _⟩ | hold
    · cases hmode
    · exact hfree i (.inr hold)
  -- the writer announces itself
  set s₂ := Function.update s₁ j (s₁ j).ask with hs₂
  have hstep₂ : Step s₁ j s₂ := .announce (by rwa [hs₁j]) (by rwa [hs₁j]) hfree₁
  have hs₂i : s₂ i = (s i).enter := (Function.update_of_ne hij ..).trans hs₁i
  have hs₂j : (s₂ j).AsksFor .write lock := by
    rw [hs₂, Function.update_self, hs₁j]
    exact ⟨rfl, hj⟩
  -- it asks again
  have hstep₃ : Step s₂ i (Function.update s₂ i (s₂ i).ask) :=
    .wait (by rwa [hs₂i]) (by rwa [hs₂i]) ⟨j, .inl hs₂j⟩
  refine ⟨_, ((Trace.nil.next i hstep₁).next j hstep₂).next i hstep₃, ?_, ?_, j, ?_⟩
  · rw [Function.update_self, hs₂i]
    exact (LockUser.holds_enter hnext).mpr (.inl ⟨rfl, rfl⟩)
  · rw [Function.update_self, hs₂i]
    exact ⟨rfl, hinner⟩
  · rw [Function.update_of_ne hij.symm]
    exact hs₂j

/-! ## Every run ends -/

theorem Step.weight_le (hstep : Step s i s') (hj : j ≠ i) : (s' j).weight ≤ (s j).weight := by
  cases hstep with
  | @leaveWrite lock _ _ _ _ =>
      rw [Function.update_of_ne hj]
      rcases (s j).wake_cases lock with ⟨hasks, heq⟩ | ⟨_, heq⟩ <;> rw [heq]
      exact (LockUser.weight_enter hasks.2).le
  | _ => rw [Function.update_of_ne hj]

theorem Step.weight_lt (hstep : Step s i s') :
    (s' i).weight < (s i).weight := by
  cases hstep with
  | read hnext _ _ =>
      rw [Function.update_self]
      exact LockUser.weight_enter hnext
  | write hnext _ _ =>
      rw [Function.update_self]
      exact LockUser.weight_enter hnext
  | wait hnext hasked _ =>
      rw [Function.update_self]
      exact LockUser.weight_ask hnext hasked
  | announce hnext hasked _ =>
      rw [Function.update_self]
      exact LockUser.weight_ask hnext hasked
  | leaveRead htodo hframes =>
      rw [Function.update_self]
      exact LockUser.weight_leave htodo hframes
  | leaveWrite htodo hframes =>
      rw [Function.update_self]
      exact LockUser.weight_leave htodo hframes

section Runs

variable [Fintype ι]

/-- The steps that can still be taken. -/
def weight (s : LockSystem ι κ) : Nat := ∑ i, (s i).weight

theorem Step.weight_lt_total (hstep : Step s i s') : s'.weight < s.weight := by
  refine Finset.sum_lt_sum (fun j _ => ?_) ⟨i, Finset.mem_univ i, hstep.weight_lt⟩
  by_cases hj : j = i
  · subst hj
    exact hstep.weight_lt.le
  · exact hstep.weight_le hj

theorem length_add_weight {is : List ι} (h : Trace Step s is s') :
    is.length + s'.weight ≤ s.weight := by
  refine h.invariant (P := fun is s' => is.length + s'.weight ≤ s.weight) (by simp) ?_
  intro is s₁ i s₂ hle hstep
  have hlt := hstep.weight_lt_total
  rw [List.length_append, List.length_singleton]
  omega

/-- Three steps for a section: to ask for the lock, to get it and to leave it. -/
theorem length_le {todo : ι → Sections κ} {is : List ι} (h : Trace Step (start todo) is s) :
    is.length ≤ 3 * ∑ i, (todo i).count := by
  have hstart : (start todo).weight = 3 * ∑ i, (todo i).count + Fintype.card ι := by
    simp [weight, start, LockUser.weight_start, Finset.sum_add_distrib, Finset.mul_sum]
  have hend : Fintype.card ι ≤ s.weight := by
    calc Fintype.card ι = ∑ _i : ι, 1 := by simp
      _ ≤ s.weight := Finset.sum_le_sum fun i _ => (s i).one_le_weight
  have hle := length_add_weight h
  omega

/-- Where no lock is asked for again, every run can be continued until all are
through. -/
theorem exists_finish (hranked : Ranked rank inside)
    (hstrict : ∀ i lock, ¬inside i (.read, lock) (.read, lock)) (h : Sound inside s) :
    ∃ is s', Trace Step s is s' ∧ ∀ i, (s' i).Finished := by
  induction hn : s.weight using Nat.strong_induction_on generalizing s with
  | _ n ih =>
    subst hn
    by_cases hall : ∀ i, (s i).Finished
    · exact ⟨[], s, .nil, hall⟩
    · have hmove : ∃ i s', Step s i s' := by
        by_contra hnone
        obtain ⟨i, lock, hcaught⟩ := Deadlock.caught
          ⟨not_forall.mp hall, fun i s' hstep => hnone ⟨i, s', hstep⟩⟩ h hranked
        exact hstrict i lock (h.inside_next hcaught.holds hcaught.asks.2)
      obtain ⟨i, s₁, hstep⟩ := hmove
      obtain ⟨is, s', htrace, hfinished⟩ :=
        ih s₁.weight hstep.weight_lt_total (h.step hranked hstep) rfl
      exact ⟨[i] ++ is, s', (Trace.nil.next i hstep).append htrace, hfinished⟩

end Runs

end LockSystem

end TradingBackend
