import Mathlib.Logic.Function.Basic
import Mathlib.Tactic.Set
import TradingBackend.Trace

/-!
# Readers/writer locks

Goroutines that share readers/writer locks. A writer first announces itself,
which one writer at a time may do, and gets the lock when those who read have
left. A reader that comes when a writer has announced itself waits until that
writer has left, whoever still reads: that is how writers are not starved, and
why a reader must not ask again for a lock it reads.

What a goroutine does with the locks is a forest of sections (`Sections`), so
that a lock is always left by the one who took it, and in the right order.

What the locks are for holds in every run (`Sound`): a writer is alone, and
who waits to read waits for a writer.
-/

namespace TradingBackend

inductive LockMode where
  | read
  | write
deriving DecidableEq

/-- The sections under a lock that are still to come, with those inside. -/
inductive Sections (κ : Type) where
  | done
  | hold (mode : LockMode) (lock : κ) (inner rest : Sections κ)

/-- A section that has been entered, and what comes after it. -/
structure LockFrame (κ : Type) where
  mode : LockMode
  lock : κ
  rest : Sections κ

/-- A goroutine, with the sections it is inside, innermost first. `asked`: it
has called for the lock of its next section and waits. -/
structure LockUser (κ : Type) where
  todo : Sections κ
  frames : List (LockFrame κ)
  asked : Bool

variable {ι κ : Type}

namespace Sections

def next : Sections κ → Option (LockMode × κ)
  | .done => none
  | .hold mode lock _ _ => some (mode, lock)

/-- One after the other. -/
def append : Sections κ → Sections κ → Sections κ
  | .done, b => b
  | .hold mode lock inner rest, b => .hold mode lock inner (rest.append b)

/-- Every section is opened inside those that `inside` allows. -/
def Nested (inside : LockMode × κ → LockMode × κ → Prop) :
    List (LockMode × κ) → Sections κ → Prop
  | _, .done => True
  | held, .hold mode lock inner rest =>
      (∀ h ∈ held, inside h (mode, lock)) ∧ inner.Nested inside ((mode, lock) :: held)
        ∧ rest.Nested inside held

theorem Nested.append {inside : LockMode × κ → LockMode × κ → Prop}
    {held : List (LockMode × κ)} {a b : Sections κ} (ha : a.Nested inside held)
    (hb : b.Nested inside held) : (a.append b).Nested inside held := by
  induction a with
  | done => exact hb
  | hold mode lock inner rest _ ih => exact ⟨ha.1, ha.2.1, ih ha.2.2⟩

end Sections

namespace LockFrame

def key (f : LockFrame κ) : LockMode × κ := (f.mode, f.lock)

/-- The sections of a goroutine are nested as they should be. -/
def Nested (inside : LockMode × κ → LockMode × κ → Prop) : List (LockFrame κ) → Prop
  | [] => True
  | f :: fs => (∀ g ∈ fs, inside g.key f.key) ∧ f.rest.Nested inside (fs.map key) ∧ Nested inside fs

end LockFrame

namespace LockUser

variable {g : LockUser κ} {mode : LockMode} {lock : κ}

def start (todo : Sections κ) : LockUser κ := ⟨todo, [], false⟩

def next (g : LockUser κ) : Option (LockMode × κ) := g.todo.next

def Finished (g : LockUser κ) : Prop := g.todo = .done ∧ g.frames = []

def Holds (g : LockUser κ) (mode : LockMode) (lock : κ) : Prop :=
  (mode, lock) ∈ g.frames.map LockFrame.key

def AsksFor (g : LockUser κ) (mode : LockMode) (lock : κ) : Prop :=
  g.asked = true ∧ g.next = some (mode, lock)

/-- It keeps readers out, as the writer or as the one that has announced
itself. -/
def Excludes (g : LockUser κ) (lock : κ) : Prop :=
  g.AsksFor .write lock ∨ g.Holds .write lock

/-- It gets the lock of its next section. -/
def enter : LockUser κ → LockUser κ
  | ⟨.hold mode lock inner rest, frames, _⟩ => ⟨inner, ⟨mode, lock, rest⟩ :: frames, false⟩
  | g => g

def ask (g : LockUser κ) : LockUser κ := { g with asked := true }

/-- When a writer leaves, who waits to read gets the lock. -/
def wake [DecidableEq κ] (lock : κ) (g : LockUser κ) : LockUser κ :=
  if g.asked = true ∧ g.next = some (.read, lock) then g.enter else g

def Nested (inside : LockMode × κ → LockMode × κ → Prop) (g : LockUser κ) : Prop :=
  g.todo.Nested inside (g.frames.map LockFrame.key) ∧ LockFrame.Nested inside g.frames

theorem eq_of_next (h : g.next = some (mode, lock)) :
    ∃ inner rest, g.todo = .hold mode lock inner rest := by
  rcases g with ⟨_ | ⟨mode', lock', inner, rest⟩, frames, asked⟩
  · cases h
  · obtain ⟨rfl, rfl⟩ := Prod.mk.inj (Option.some.inj h)
    exact ⟨inner, rest, rfl⟩

theorem frames_enter (h : g.next = some (mode, lock)) :
    g.enter.frames.map LockFrame.key = (mode, lock) :: g.frames.map LockFrame.key := by
  obtain ⟨todo, frames, asked⟩ := g
  obtain ⟨inner, rest, rfl⟩ := eq_of_next h
  rfl

theorem asked_enter (h : g.next = some (mode, lock)) : g.enter.asked = false := by
  obtain ⟨todo, frames, asked⟩ := g
  obtain ⟨inner, rest, rfl⟩ := eq_of_next h
  rfl

theorem next_enter {inner rest : Sections κ} (h : g.todo = .hold mode lock inner rest) :
    g.enter.next = inner.next := by
  obtain ⟨todo, frames, asked⟩ := g
  obtain rfl : todo = .hold mode lock inner rest := h
  rfl

theorem Nested.enter {inside : LockMode × κ → LockMode × κ → Prop} (hg : g.Nested inside)
    (h : g.next = some (mode, lock)) : g.enter.Nested inside := by
  obtain ⟨todo, frames, asked⟩ := g
  obtain ⟨inner, rest, rfl⟩ := eq_of_next h
  obtain ⟨⟨hopen, hinner, hrest⟩, hframes⟩ := hg
  exact ⟨hinner, fun f hf => hopen _ (List.mem_map_of_mem hf), hrest, hframes⟩

theorem holds_enter (h : g.next = some (mode, lock)) {mode' : LockMode} {lock' : κ} :
    g.enter.Holds mode' lock' ↔ mode' = mode ∧ lock' = lock ∨ g.Holds mode' lock' := by
  rw [Holds, frames_enter h, List.mem_cons, Prod.mk.injEq]
  rfl

theorem not_asksFor {mode : LockMode} (h : g.asked = false) : ¬g.AsksFor mode lock :=
  fun hasks => Bool.false_ne_true (h.symm.trans hasks.1)

/-- Who announced itself is the writer when it gets the lock. -/
theorem Excludes.enter {lock' : κ} (hg : g.Excludes lock') (h : g.next = some (mode, lock)) :
    g.enter.Excludes lock' := by
  refine .inr ((holds_enter h).mpr ?_)
  rcases hg with ⟨_, hnext⟩ | hholds
  · left
    exact Prod.mk.inj (Option.some.inj (hnext.symm.trans h))
  · exact .inr hholds

theorem Excludes.holds (h : g.asked = false) (hg : g.Excludes lock) : g.Holds .write lock :=
  hg.resolve_left (not_asksFor h)

theorem next_of_done (h : g.todo = .done) : g.next = none := congrArg Sections.next h

theorem not_asksFor_of_done {mode : LockMode} (h : g.todo = .done) : ¬g.AsksFor mode lock := by
  rintro ⟨_, hnext⟩
  rw [next_of_done h] at hnext
  cases hnext

section Wake

variable [DecidableEq κ]

theorem wake_of_asks (h : g.AsksFor .read lock) : g.wake lock = g.enter := if_pos h

theorem wake_of_not (h : ¬g.AsksFor .read lock) : g.wake lock = g := if_neg h

theorem wake_cases (g : LockUser κ) (lock : κ) :
    g.AsksFor .read lock ∧ g.wake lock = g.enter
    ∨ ¬g.AsksFor .read lock ∧ g.wake lock = g := by
  by_cases h : g.AsksFor .read lock
  · exact .inl ⟨h, wake_of_asks h⟩
  · exact .inr ⟨h, wake_of_not h⟩

theorem Nested.wake {inside : LockMode × κ → LockMode × κ → Prop} (hg : g.Nested inside) :
    (g.wake lock).Nested inside := by
  rcases g.wake_cases lock with ⟨h, heq⟩ | ⟨_, heq⟩ <;> rw [heq]
  · exact hg.enter h.2
  · exact hg

theorem Excludes.wake {lock' : κ} (hg : g.Excludes lock') : (g.wake lock).Excludes lock' := by
  rcases g.wake_cases lock with ⟨h, heq⟩ | ⟨_, heq⟩ <;> rw [heq]
  · exact hg.enter h.2
  · exact hg

theorem holds_of_wake {lock' : κ} (hg : (g.wake lock).Holds mode lock') :
    g.Holds mode lock' ∨ mode = .read ∧ lock' = lock := by
  rcases g.wake_cases lock with ⟨h, heq⟩ | ⟨_, heq⟩ <;> rw [heq] at hg
  · exact ((holds_enter h.2).mp hg).symm
  · exact .inl hg

theorem asksFor_of_wake {lock' : κ} (hg : (g.wake lock).AsksFor mode lock') :
    g.AsksFor mode lock' ∧ ¬g.AsksFor .read lock := by
  rcases g.wake_cases lock with ⟨h, heq⟩ | ⟨h, heq⟩ <;> rw [heq] at hg
  · exact absurd hg (not_asksFor (asked_enter h.2))
  · exact ⟨hg, h⟩

end Wake

end LockUser

/-- The goroutines. -/
abbrev LockSystem (ι κ : Type) := ι → LockUser κ

namespace LockSystem

section Steps

variable [DecidableEq ι] [DecidableEq κ]

/-- One goroutine moves. Who waits to read moves when the writer leaves. -/
inductive Step (s : LockSystem ι κ) : ι → LockSystem ι κ → Prop where
  | read {i lock} (hnext : (s i).next = some (.read, lock)) (hasked : (s i).asked = false)
      (hfree : ∀ j, ¬(s j).Excludes lock) : Step s i (Function.update s i (s i).enter)
  | wait {i lock} (hnext : (s i).next = some (.read, lock)) (hasked : (s i).asked = false)
      (hbusy : ∃ j, (s j).Excludes lock) : Step s i (Function.update s i (s i).ask)
  | announce {i lock} (hnext : (s i).next = some (.write, lock)) (hasked : (s i).asked = false)
      (hfree : ∀ j, ¬(s j).Excludes lock) : Step s i (Function.update s i (s i).ask)
  | write {i lock} (hnext : (s i).next = some (.write, lock)) (hasked : (s i).asked = true)
      (hfree : ∀ j, ¬(s j).Holds .read lock) : Step s i (Function.update s i (s i).enter)
  | leaveRead {i lock rest frames} (htodo : (s i).todo = .done)
      (hframes : (s i).frames = ⟨.read, lock, rest⟩ :: frames) :
      Step s i (Function.update s i ⟨rest, frames, false⟩)
  | leaveWrite {i lock rest frames} (htodo : (s i).todo = .done)
      (hframes : (s i).frames = ⟨.write, lock, rest⟩ :: frames) :
      Step s i (Function.update (fun j => (s j).wake lock) i ⟨rest, frames, false⟩)

end Steps

/-- What holds in every run: sections are nested, who waits to read waits for
a writer, and a writer is alone. -/
structure Sound (inside : ι → LockMode × κ → LockMode × κ → Prop) (s : LockSystem ι κ) : Prop where
  nested : ∀ i, (s i).Nested (inside i)
  waits : ∀ {i lock}, (s i).AsksFor .read lock → ∃ j, (s j).Excludes lock
  alone : ∀ {i j lock}, (s i).Excludes lock → (s j).Excludes lock → i = j
  noReaders : ∀ {i j lock}, (s i).Holds .write lock → ¬(s j).Holds .read lock


variable {rank : κ → Nat} {inside : ι → LockMode × κ → LockMode × κ → Prop}
  {s s' : LockSystem ι κ} {i j : ι} {lock : κ}

/-- Locks are taken in the order of their rank, except that a lock that is
read may be asked for again to read. -/
def Ranked (rank : κ → Nat) (inside : ι → LockMode × κ → LockMode × κ → Prop) : Prop :=
  ∀ i a b, inside i a b → rank a.2 < rank b.2 ∨ a = b ∧ a.1 = .read

theorem Sound.of_changes (h : Sound inside s) (hnested : ∀ j, (s' j).Nested (inside j))
    (hexcludes : ∀ j lock, (s' j).Excludes lock →
      (s j).Excludes lock ∨ j = i ∧ ∀ j', ¬(s j').Excludes lock)
    (hwrite : ∀ j lock, (s' j).Holds .write lock →
      (s j).Holds .write lock ∨ ∀ j', ¬(s j').Holds .read lock)
    (hread : ∀ j lock, (s' j).Holds .read lock →
      (s j).Holds .read lock ∨ ∀ j', ¬(s' j').Holds .write lock)
    (hwaits : ∀ j lock, (s' j).AsksFor .read lock → ∃ j', (s' j').Excludes lock) :
    Sound inside s' where
  nested := hnested
  waits := hwaits _ _
  alone := by
    intro i₁ i₂ lock h₁ h₂
    rcases hexcludes i₁ lock h₁ with h₁ | ⟨rfl, hnone⟩
    · rcases hexcludes i₂ lock h₂ with h₂ | ⟨_, hnone⟩
      · exact h.alone h₁ h₂
      · exact absurd h₁ (hnone i₁)
    · rcases hexcludes i₂ lock h₂ with h₂ | ⟨rfl, _⟩
      · exact absurd h₂ (hnone i₂)
      · rfl
  noReaders := by
    intro i₁ i₂ lock h₁ h₂
    rcases hread i₂ lock h₂ with h₂ | hnone
    · rcases hwrite i₁ lock h₁ with h₁ | hnone
      · exact h.noReaders h₁ h₂
      · exact hnone i₂ h₂
    · exact hnone i₁ h₁

variable [DecidableEq ι]

/-- A step by which one goroutine changes, and keeps out whom it kept out. -/
theorem Sound.update (h : Sound inside s) {g : LockUser κ} (hnested : g.Nested (inside i))
    (hkept : ∀ lock, (s i).Excludes lock → g.Excludes lock)
    (hexcludes : ∀ lock, g.Excludes lock → (s i).Excludes lock ∨ ∀ j, ¬(s j).Excludes lock)
    (hwrite : ∀ lock, g.Holds .write lock →
      (s i).Holds .write lock ∨ ∀ j, ¬(s j).Holds .read lock)
    (hread : ∀ lock, g.Holds .read lock →
      (s i).Holds .read lock ∨ ¬g.Excludes lock ∧ ∀ j, ¬(s j).Excludes lock)
    (hwaits : ∀ lock, g.AsksFor .read lock → ∃ j, (s j).Excludes lock) :
    Sound inside (Function.update s i g) := by
  have hsome : ∀ lock, (∃ j, (s j).Excludes lock) →
      ∃ j, (Function.update s i g j).Excludes lock := by
    rintro lock ⟨j, hj⟩
    by_cases hji : j = i
    · subst hji
      exact ⟨j, by simpa only [Function.update_self] using hkept lock hj⟩
    · exact ⟨j, by simpa only [Function.update_of_ne hji] using hj⟩
  refine h.of_changes (i := i) ((Function.forall_update_iff s fun j g => g.Nested (inside j)).mpr
      ⟨hnested, fun j _ => h.nested j⟩)
    ((Function.forall_update_iff s fun j g => ∀ lock, g.Excludes lock →
        (s j).Excludes lock ∨ j = i ∧ ∀ j', ¬(s j').Excludes lock).mpr
      ⟨fun lock hg => (hexcludes lock hg).imp_right fun hnone => ⟨rfl, hnone⟩,
        fun j _ lock hj => .inl hj⟩)
    ((Function.forall_update_iff s fun j g => ∀ lock, g.Holds .write lock →
        (s j).Holds .write lock ∨ ∀ j', ¬(s j').Holds .read lock).mpr
      ⟨hwrite, fun j _ lock hj => .inl hj⟩)
    ((Function.forall_update_iff s fun j g' => ∀ lock, g'.Holds .read lock →
        (s j).Holds .read lock ∨ ∀ j', ¬(Function.update s i g j').Holds .write lock).mpr
      ⟨fun lock hg => (hread lock hg).imp_right fun ⟨hself, hnone⟩ => ?_,
        fun j _ lock hj => .inl hj⟩)
    ((Function.forall_update_iff s fun j g' => ∀ lock, g'.AsksFor .read lock →
        ∃ j', (Function.update s i g j').Excludes lock).mpr
      ⟨fun lock hg => hsome lock (hwaits lock hg), fun j _ lock hj => hsome lock (h.waits hj)⟩)
  exact (Function.forall_update_iff s fun _ g => ¬g.Holds .write lock).mpr
    ⟨fun hg => hself (.inr hg), fun j _ hj => hnone j (.inr hj)⟩

theorem Sound.enter (h : Sound inside s) {mode : LockMode} (hnext : (s i).next = some (mode, lock))
    (hfree : mode = .read → ∀ j, ¬(s j).Excludes lock)
    (hreaders : mode = .write → (s i).asked = true ∧ ∀ j, ¬(s j).Holds .read lock) :
    Sound inside (Function.update s i (s i).enter) := by
  have hasked : (s i).enter.asked = false := LockUser.asked_enter hnext
  have hexcludes : ∀ lock', (s i).enter.Excludes lock' → (s i).Excludes lock' := by
    intro lock' hg
    rcases (LockUser.holds_enter hnext).mp (hg.holds hasked) with ⟨hmode, rfl⟩ | hold
    · subst hmode
      exact .inl ⟨(hreaders rfl).1, hnext⟩
    · exact .inr hold
  refine h.update ((h.nested i).enter hnext) (fun lock' hi => hi.enter hnext)
    (fun lock' hg => .inl (hexcludes lock' hg)) ?_ ?_
    (fun lock' hg => absurd hg (LockUser.not_asksFor hasked))
  · intro lock' hg
    rcases (LockUser.holds_enter hnext).mp hg with ⟨hmode, rfl⟩ | hold
    · exact .inr (hreaders hmode.symm).2
    · exact .inl hold
  · intro lock' hg
    rcases (LockUser.holds_enter hnext).mp hg with ⟨hmode, rfl⟩ | hold
    · exact .inr ⟨fun hself => hfree hmode.symm i (hexcludes _ hself), hfree hmode.symm⟩
    · exact .inl hold

theorem Sound.ask (h : Sound inside s) {mode : LockMode} (hnext : (s i).next = some (mode, lock))
    (hbusy : mode = .read → ∃ j, (s j).Excludes lock)
    (hfree : mode = .write → ∀ j, ¬(s j).Excludes lock) :
    Sound inside (Function.update s i (s i).ask) := by
  refine h.update (h.nested i) (fun lock' hi => hi.imp_left fun hasks => ⟨rfl, hasks.2⟩) ?_
    (fun _ => .inl) (fun _ => .inl) ?_
  · rintro lock' (⟨_, hwrite⟩ | hold)
    · obtain ⟨rfl, rfl⟩ := Prod.mk.inj (Option.some.inj (hnext.symm.trans hwrite))
      exact .inr (hfree rfl)
    · exact .inl (.inr hold)
  · rintro lock' ⟨_, hread⟩
    obtain ⟨rfl, rfl⟩ := Prod.mk.inj (Option.some.inj (hnext.symm.trans hread))
    exact hbusy rfl

theorem Sound.leaveRead (h : Sound inside s) {rest : Sections κ} {frames : List (LockFrame κ)}
    (htodo : (s i).todo = .done) (hframes : (s i).frames = ⟨.read, lock, rest⟩ :: frames) :
    Sound inside (Function.update s i ⟨rest, frames, false⟩) := by
  have hnested := (h.nested i).2
  rw [hframes] at hnested
  have hheld : ∀ {mode lock'}, (mode, lock') ∈ frames.map LockFrame.key →
      (s i).Holds mode lock' := by
    intro mode lock' hmem
    rw [LockUser.Holds, hframes]
    exact List.mem_cons_of_mem _ hmem
  have hexcludes : ∀ lock', (LockUser.mk rest frames false).Excludes lock' →
      (LockUser.mk rest frames false).Holds .write lock' := fun lock' hg => hg.holds rfl
  refine h.update ⟨hnested.2.1, hnested.2.2⟩ ?_
    (fun lock' hg => .inl (.inr (hheld (hexcludes lock' hg))))
    (fun lock' hg => .inl (hheld hg)) (fun lock' hg => .inl (hheld hg))
    (fun lock' hg => absurd hg (LockUser.not_asksFor rfl))
  rintro lock' (hasks | hold)
  · exact absurd hasks (LockUser.not_asksFor_of_done htodo)
  · rw [LockUser.Holds, hframes] at hold
    exact .inr ((List.mem_cons.mp hold).resolve_left (by simp [LockFrame.key]))

variable [DecidableEq κ]

/-- A writer leaves: those who waited to read get the lock. -/
theorem Sound.leaveWrite (h : Sound inside s) (hranked : Ranked rank inside) {rest : Sections κ}
    {frames : List (LockFrame κ)} (htodo : (s i).todo = .done)
    (hframes : (s i).frames = ⟨.write, lock, rest⟩ :: frames) :
    Sound inside (Function.update (fun j => (s j).wake lock) i ⟨rest, frames, false⟩) := by
  have hnested := (h.nested i).2
  rw [hframes] at hnested
  have hholds : (s i).Holds .write lock := by
    rw [LockUser.Holds, hframes]
    exact List.mem_cons_self
  have hheld : ∀ {mode lock'}, (mode, lock') ∈ frames.map LockFrame.key →
      (s i).Holds mode lock' := by
    intro mode lock' hmem
    rw [LockUser.Holds, hframes]
    exact List.mem_cons_of_mem _ hmem
  -- a write lock is not taken twice
  have hleft : (LockMode.write, lock) ∉ frames.map LockFrame.key := by
    intro hmem
    obtain ⟨f, hf, hkey⟩ := List.mem_map.mp hmem
    have hinside := hnested.1 f hf
    rw [hkey] at hinside
    rcases hranked _ _ _ hinside with hlt | ⟨_, hmode⟩
    · exact Nat.lt_irrefl _ hlt
    · cases hmode
  set left : LockUser κ := ⟨rest, frames, false⟩
  have hasked : left.asked = false := rfl
  refine h.of_changes (i := i)
    ((Function.forall_update_iff _ fun j (g : LockUser κ) => g.Nested (inside j)).mpr
      ⟨⟨hnested.2.1, hnested.2.2⟩, fun j _ => (h.nested j).wake⟩)
    ((Function.forall_update_iff _ fun j (g : LockUser κ) => ∀ lock, g.Excludes lock →
        (s j).Excludes lock ∨ j = i ∧ ∀ j', ¬(s j').Excludes lock).mpr
      ⟨fun lock' hg => .inl (.inr (hheld (hg.holds hasked))), fun j _ lock' hj => .inl ?_⟩)
    ((Function.forall_update_iff _ fun j (g : LockUser κ) => ∀ lock, g.Holds .write lock →
        (s j).Holds .write lock ∨ ∀ j', ¬(s j').Holds .read lock).mpr
      ⟨fun lock' hg => .inl (hheld hg), fun j _ lock' hj => .inl ?_⟩)
    ((Function.forall_update_iff _ fun j (g : LockUser κ) => ∀ lock', g.Holds .read lock' →
        (s j).Holds .read lock' ∨ ∀ j', ¬(Function.update (fun j => (s j).wake lock) i left
          j').Holds .write lock').mpr
      ⟨fun lock' hg => .inl (hheld hg), fun j _ lock' hj => ?_⟩)
    ((Function.forall_update_iff _ fun j (g : LockUser κ) => ∀ lock', g.AsksFor .read lock' →
        ∃ j', (Function.update (fun j => (s j).wake lock) i left j').Excludes lock').mpr
      ⟨fun lock' hg => absurd hg (LockUser.not_asksFor hasked), fun j _ lock' hj => ?_⟩)
  · exact hj.imp (fun hasks => (LockUser.asksFor_of_wake hasks).1) fun hold =>
      (LockUser.holds_of_wake hold).resolve_right fun hread => by cases hread.1
  · exact (LockUser.holds_of_wake hj).resolve_right fun hread => by cases hread.1
  · refine (LockUser.holds_of_wake hj).imp_right ?_
    rintro ⟨-, rfl⟩
    refine (Function.forall_update_iff _ fun _ (g : LockUser κ) => ¬g.Holds .write _).mpr
      ⟨hleft, fun j' hj' hwrite => hj' ?_⟩
    have hold := (LockUser.holds_of_wake hwrite).resolve_right fun hread => by cases hread.1
    exact h.alone (.inr hold) (.inr hholds)
  · obtain ⟨hasks, hnot⟩ := LockUser.asksFor_of_wake hj
    obtain ⟨j', hj'⟩ := h.waits hasks
    by_cases hj'i : j' = i
    · subst hj'i
      have hold := hj'.resolve_left (LockUser.not_asksFor_of_done htodo)
      rw [LockUser.Holds, hframes] at hold
      refine ⟨j', ?_⟩
      simp only [Function.update_self]
      refine .inr ((List.mem_cons.mp hold).resolve_left fun heq => hnot ?_)
      obtain ⟨-, rfl⟩ := Prod.mk.inj heq
      exact hasks
    · refine ⟨j', ?_⟩
      simp only [Function.update_of_ne hj'i]
      exact hj'.wake

theorem Sound.step (h : Sound inside s) (hranked : Ranked rank inside) (hstep : Step s i s') :
    Sound inside s' := by
  cases hstep with
  | read hnext _ hfree => exact h.enter hnext (fun _ => hfree) (by simp)
  | wait hnext _ hbusy => exact h.ask hnext (fun _ => hbusy) (by simp)
  | announce hnext _ hfree => exact h.ask hnext (by simp) fun _ => hfree
  | write hnext hasked hfree => exact h.enter hnext (by simp) fun _ => ⟨hasked, hfree⟩
  | leaveRead htodo hframes => exact h.leaveRead htodo hframes
  | leaveWrite htodo hframes => exact h.leaveWrite hranked htodo hframes

def start (todo : ι → Sections κ) : LockSystem ι κ := fun i => .start (todo i)

omit [DecidableEq ι] [DecidableEq κ] in
theorem sound_start {todo : ι → Sections κ} (h : ∀ i, (todo i).Nested (inside i) []) :
    Sound inside (start todo) where
  nested i := ⟨h i, trivial⟩
  waits hasks := absurd hasks (LockUser.not_asksFor rfl)
  alone hi := absurd (hi.holds rfl) List.not_mem_nil
  noReaders hi := absurd hi List.not_mem_nil

theorem sound {todo : ι → Sections κ} {is : List ι} (hranked : Ranked rank inside)
    (hnested : ∀ i, (todo i).Nested (inside i) []) (h : Trace Step (start todo) is s) :
    Sound inside s :=
  h.invariant (P := fun _ s => Sound inside s) (sound_start hnested) fun hsound hstep =>
    hsound.step hranked hstep

end LockSystem

end TradingBackend
